import OpenBoot.Core.Checksum
import OpenBoot.Update.Bench

/-! The application companion: the record check an application carries with it, and
its agreement with the bootloader's, in the CRC and in the whole rule. -/

set_option autoImplicit false

namespace OpenBoot

namespace App

/-- What the companion is compiled with. -/
structure Build where
  slotSize : Word

def eraseBlock : Word := 4096

def Build.slotCapacity (B : Build) : Word := B.slotSize - eraseBlock

/-- One turn of the inner loop: the mask is all ones when a bit falls out. -/
def crcBit (crc : Word) : Word := (crc >>> 1) ^^^ (0xEDB88320 &&& (0 - (crc &&& 1)))

def crcByte (crc : Word) (b : Byte) : Word := crcBit^[8] (crc ^^^ b.setWidth 32)

/-- `ob_app_crc32`, bitwise. -/
def crc32 (data : List Byte) : Word := ~~~(data.foldl crcByte 0xFFFFFFFF)

def recordValid (B : Build) (bytes : List Byte) : Bool :=
  let record := BootRecord.ofBytes bytes
  if record.magic ≠ recordMagic then false
  else if crc32 (record.bytes.take recordCrcLen) ≠ record.recCrc32 then false
  else if record.rsvd.any (· ≠ 0) then false
  else if record.generation = 0 then false
  else record.imgLen ≠ 0 ∧ record.imgLen % 4 = 0 ∧ record.imgLen ≤ B.slotCapacity

theorem crcBit_eq (s : Word) : crcBit s = Lfsr.step crc32Poly s := by
  have low : s &&& 1 = if s.getLsbD 0 then 1 else 0 := by
    have mask : (1 : Word) = BitVec.twoPow 32 0 := rfl
    rw [mask, BitVec.and_twoPow]
    rfl
  unfold crcBit Lfsr.step
  rw [low]
  cases s.getLsbD 0
  · have mask : (0xEDB88320 : Word) &&& (0 - 0) = 0 := by decide
    simp only [Bool.false_eq_true, if_false, mask]
    exact BitVec.xor_zero
  · have mask : (0xEDB88320 : Word) &&& (0 - 1) = crc32Poly := by decide
    simp only [if_true, mask]

theorem crcByte_eq (s : Word) (b : Byte) : crcByte s b = crc32Byte s b := by
  have bit : crcBit = Lfsr.step crc32Poly := funext crcBit_eq
  rw [crcByte, crc32Byte, crc32Nibble_eq, crc32Nibble_eq, bit, ← Function.iterate_add_apply]

/-- The bitwise loop computes what the nibble table does. -/
theorem crc32_eq (data : List Byte) : crc32 data = OpenBoot.crc32 data := by
  have byte : crcByte = crc32Byte := by
    funext s b
    exact crcByte_eq s b
  unfold crc32 OpenBoot.crc32 crc32Final crc32Update
  rw [byte, BitVec.not_def, BitVec.xor_comm]
  rfl

end App

/-- Every CRC of the firmware is CRC-32/ISO-HDLC: the nibble table's and the companion's are
    its bit-serial definition, a running CRC may be cut anywhere, and the one over XIP is that
    of the little-endian bytes of the words it read, whatever these were. -/
theorem crc_paths_agree :
    (∀ data, crc32 data = crc32Hdlc data ∧ App.crc32 data = crc32Hdlc data) ∧
    (∀ state a b, crc32Update (crc32Update state a) b = crc32Update state (a ++ b)) ∧
    ∀ {W : Type} (E : Semantics.Environment port W) {c c' : Core} {w w' : W}
      {es : List (Semantics.Event port)} {addr len v : Word}, addr % 4 = 0 → len % 4 = 0 →
      addr.toNat + len.toNat < 2 ^ 32 → (xipCrc32 addr len).Exec E c w es v c' w' →
      es.map (·.op) = (strided addr 4 (len.toNat / 4)).map .xipRead32 ∧
        v = crc32 (es.flatMap fun e => put32 e.reply) := by
  refine ⟨fun data => ⟨crc32_eq_hdlc data, ?_⟩, fun state a b => ?_, ?_⟩
  · rw [App.crc32_eq]
    exact crc32_eq_hdlc data
  · exact (crc32Update_append state a b).symm
  · exact fun _ _ _ _ _ _ _ _ _ _ whole bound run => xipCrc32_exec whole bound run

/-- Two words of a blank part, read through XIP. -/
theorem crc_paths_agree_blank : ∃ es v c w,
    (xipCrc32 0x2000 8).Exec (portEnv .ch570) (.bss .ch570 0) (.reset Bench.blank) es v c w ∧
      v = crc32 (es.flatMap fun e => put32 e.reply) := by
  have run := Bench.carry_exec .ch570 (xipCrc32 0x2000 8) (.bss .ch570 0) (.reset Bench.blank)
  exact ⟨_, _, _, _, run, (crc_paths_agree.2.2 _ (by decide) (by decide) (by decide) run).2⟩

variable {D : Device} {B : App.Build} {slot : Word} {f : Flash}

/-- The companion asks what `ob_record_load` asks of a slot of its size. -/
theorem App.recordValid_eq (same : B.slotSize = D.slotSize) (fits : D.Fits slot)
    (bytes : List Byte) :
    App.recordValid B bytes = (recordCheck D slot (.ofBytes bytes)).isSome := by
  have capacity : B.slotCapacity = D.slotCapacity slot := by
    rw [D.slotCapacity_of_fits fits, App.Build.slotCapacity, same]
    rfl
  unfold App.recordValid recordCheck
  rw [capacity]
  simp only [App.crc32_eq]
  split <;> [rfl; skip]
  split <;> [rfl; skip]
  split <;> [rfl; skip]
  split <;> [rfl; skip]
  split
  · next good => exact decide_eq_true good
  · next bad => exact decide_eq_false bad

/-- The application and the bootloader accept the same records: of whatever 32 bytes lie
    where a slot keeps its record. -/
theorem companion_agrees (same : B.slotSize = D.slotSize) (isSlot : IsSlot slot)
    (fits : D.Fits slot) {bytes : List Byte}
    (holds : f.bytes (D.recordAt slot) bootRecordSize = bytes) :
    App.recordValid B bytes = true ↔ ∃ record, recordOn D f slot = some record := by
  rw [App.recordValid_eq same fits, recordOn_of_fits isSlot fits, holds, Option.isSome_iff_exists]

/-- The record in slot A of a factory image is good to the application built for that slot
    and to the bootloader. -/
theorem companion_agrees_factory :
    App.recordValid ⟨0x1D000⟩ ((Bench.factory .ch570 Bench.image).bytes
      (Device.ch570.recordAt slotA) bootRecordSize) = true ∧
      ∃ record, recordOn .ch570 (Bench.factory .ch570 Bench.image) slotA = some record := by
  have good : App.recordValid ⟨0x1D000⟩ ((Bench.factory .ch570 Bench.image).bytes
      (Device.ch570.recordAt slotA) bootRecordSize) = true := by decide +kernel
  exact ⟨good, (companion_agrees (B := ⟨0x1D000⟩) rfl (.inl rfl) (by decide) rfl).mp good⟩

end OpenBoot
