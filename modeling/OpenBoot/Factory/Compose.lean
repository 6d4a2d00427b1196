import OpenBoot.Core.Checksum
import OpenBoot.Core.Selection

/-! The factory image: the bootloader, the application above it and, when it is blessed, the
boot record of slot A, composed for a programmer that starts at address 0.
-/

set_option autoImplicit false

namespace OpenBoot.Factory

/-- `OB_APP_BASE`: OpenBoot owns everything below. -/
def appBase : Word := 0x2000

def openbootRegionBytes : Nat := appBase.toNat

/-- A factory part has never been updated. -/
def factoryGeneration : Nat := 1

inductive Error where
  | value (message : String)
  /-- A number that does not fit its field. -/
  | struct
  deriving DecidableEq

/-- `zlib.crc32`, the CRC the library documents. -/
def zlibCrc32 (data : List Byte) : Word := crc32Hdlc data

/-- `struct.pack` of one number as "I". -/
def pack (n : Nat) : Except Error (List Byte) :=
  if n < 2 ^ 32 then return put32 (BitVec.ofNat 32 n) else throw .struct

def zeros (n : Nat) : List Byte := List.replicate n 0

def bootRecord (imgLen : Nat) (imgCrc32 : Word) (generation : Nat := factoryGeneration) :
    Except Error (List Byte) := do
  let magic ← pack recordMagic.toNat
  let generation ← pack generation
  let len ← pack imgLen
  let crc ← pack imgCrc32.toNat
  let body := magic ++ generation ++ len ++ crc ++ zeros recordRsvdBytes
  if body.length ≠ recordCrcLen then
    throw (.value s!"record body is {body.length} bytes, header says the CRC covers {recordCrcLen}")
  let crc ← pack (zlibCrc32 body).toNat
  let record := body ++ crc
  if record.length ≠ bootRecordSize then
    throw (.value s!"record is {record.length} bytes, header says {bootRecordSize}")
  return record

def padded (app : List Byte) : List Byte := app ++ zeros (-(app.length : Int) % 4).toNat

def composeFactory (openboot app : List Byte) (appMax blessCapacity : Option Int) :
    Except Error (List Byte) := do
  if ¬ (0 < openboot.length ∧ openboot.length ≤ openbootRegionBytes) then
    throw (.value s!"OpenBoot image must be 1..{openbootRegionBytes} bytes, got {openboot.length}")
  if app = [] then throw (.value "application image is empty")
  if let some max := appMax then
    if app.length > max then
      throw (.value s!"application is {app.length} bytes, exceeds the {max}-byte application region")
  let head := openboot ++ zeros (openbootRegionBytes - openboot.length)
  match blessCapacity with
  | none => return head ++ app
  | some capacity =>
    if let some max := appMax then
      if capacity + bootRecordSize > max then
        throw (.value (s!"slot capacity {capacity} plus its {bootRecordSize}-byte boot record does " ++
          s!"not fit the {max}-byte application region; the capacity and the region end describe " ++
          "different geometries"))
    let image := padded app
    if image.length > capacity then
      throw (.value (s!"application is {image.length} bytes (padded), exceeds the {capacity}-byte " ++
        "capacity of slot A; the top erase block of the slot belongs to its boot record"))
    let record ← bootRecord image.length (zlibCrc32 image)
    return head ++ image ++ zeros (capacity - image.length).toNat ++ record

theorem padded_length (app : List Byte) :
    4 ∣ (padded app).length ∧ app.length ≤ (padded app).length := by
  have sum : (padded app).length = app.length + (-(app.length : Int) % 4).toNat := by
    simp [padded, zeros]
  omega

theorem padded_nonempty {app : List Byte} (nonempty : app ≠ []) : 4 ≤ (padded app).length := by
  have some := List.length_pos_iff.mpr nonempty
  obtain ⟨whole, long⟩ := padded_length app
  omega

theorem bootRecord_eq {len : Nat} {crc : Word} (small : len < 2 ^ 32) :
    bootRecord len crc = .ok (BootRecord.sealed 1 (BitVec.ofNat 32 len) crc).bytes := by
  have word : ∀ v : Word, pack v.toNat = .ok (put32 v) := by
    intro v
    rw [pack, if_pos v.isLt, BitVec.ofNat_toNat, BitVec.setWidth_eq]
    rfl
  have body : (BootRecord.mk recordMagic 1 (BitVec.ofNat 32 len) crc
      (List.replicate recordRsvdBytes 0) 0).bytes.take recordCrcLen =
      put32 recordMagic ++ put32 1 ++ put32 (BitVec.ofNat 32 len) ++ put32 crc ++
        zeros recordRsvdBytes := by
    apply List.take_left'
    simp [recordRsvdBytes, recordCrcLen]
  have hdlc : zlibCrc32 = crc32 := funext fun data => (crc32_eq_hdlc data).symm
  have one : pack factoryGeneration = .ok (put32 1) := rfl
  have length : pack len = .ok (put32 (BitVec.ofNat 32 len)) := if_pos small
  unfold bootRecord BootRecord.sealed
  simp only [body, word, one, length, hdlc]
  rfl

structure Composed (openboot app : List Byte) (capacity : Nat) (out : List Byte) : Prop where
  some : app ≠ []
  fits : (padded app).length ≤ capacity
  layout : ∃ head, head.length = openbootRegionBytes ∧
    out = head ++ (padded app ++ (zeros (capacity - (padded app).length) ++
      (BootRecord.sealed 1 (BitVec.ofNat 32 (padded app).length) (crc32 (padded app))).bytes))

theorem of_unless {A : Type} {c : Prop} [Decidable c] {e : Error} {raised rest : Except Error A}
    {a : A} (ok : (if c then (throw e : Except Error PUnit) >>= fun _ => raised else rest) = .ok a) :
    ¬ c ∧ rest = .ok a := by
  by_cases bad : c
  · rw [if_pos bad] at ok
    cases ok
  · rw [if_neg bad] at ok
    exact ⟨bad, ok⟩

theorem composed_of_ok {openboot app out : List Byte} {appMax : Option Int} {capacity : Nat}
    (small : capacity < 2 ^ 32)
    (ok : composeFactory openboot app appMax (some (capacity : Int)) = .ok out) :
    Composed openboot app capacity out := by
  unfold composeFactory at ok
  obtain ⟨sized, ok⟩ := of_unless ok
  obtain ⟨some, ok⟩ := of_unless ok
  obtain ⟨-, upper⟩ := not_not.mp sized
  -- with a limit of its own or without, the composition ends the same
  have sealed : ¬ ((padded app).length : Int) > capacity →
      (do
        let record ← bootRecord (padded app).length (zlibCrc32 (padded app))
        return openboot ++ zeros (openbootRegionBytes - openboot.length) ++ padded app ++
          zeros (capacity - (padded app).length : Int).toNat ++ record) = Except.ok out →
      Composed openboot app capacity out := by
    intro fits made
    have fits : (padded app).length ≤ capacity := by omega
    have gap : ((capacity : Int) - (padded app).length).toNat = capacity - (padded app).length := by
      omega
    rw [bootRecord_eq (Nat.lt_of_le_of_lt fits small), gap] at made
    refine ⟨some, fits, openboot ++ zeros (openbootRegionBytes - openboot.length), ?_, ?_⟩
    · simp only [List.length_append, zeros, List.length_replicate]
      omega
    · have crc : zlibCrc32 (padded app) = crc32 (padded app) := (crc32_eq_hdlc _).symm
      rw [← Except.ok.inj made, crc]
      simp only [List.append_assoc]
  cases appMax with
  | none =>
    obtain ⟨fits, ok⟩ := of_unless ok
    exact sealed fits ok
  | some max =>
    obtain ⟨-, ok⟩ := of_unless ok
    obtain ⟨-, ok⟩ := of_unless ok
    obtain ⟨fits, ok⟩ := of_unless ok
    exact sealed fits ok

theorem composeFactory_ok {openboot app : List Byte} {capacity : Nat} (small : capacity < 2 ^ 32)
    (some : 0 < openboot.length) (region : openboot.length ≤ openbootRegionBytes)
    (nonempty : app ≠ []) (fits : (padded app).length ≤ capacity) :
    composeFactory openboot app none (.some (capacity : Int)) =
      .ok (openboot ++ zeros (openbootRegionBytes - openboot.length) ++ padded app ++
        zeros (capacity - (padded app).length) ++ (BootRecord.sealed 1
          (BitVec.ofNat 32 (padded app).length) (crc32 (padded app))).bytes) := by
  have gap : ((capacity : Int) - (padded app).length).toNat = capacity - (padded app).length := by
    omega
  have inside : ¬ ((padded app).length : Int) > capacity := by omega
  have crc : zlibCrc32 (padded app) = crc32 (padded app) := (crc32_eq_hdlc _).symm
  have record : bootRecord (padded app).length (crc32 (padded app)) = .ok _ :=
    bootRecord_eq (Nat.lt_of_le_of_lt fits small)
  unfold composeFactory
  simp only [some, region, nonempty, inside, and_self, not_true, if_false, crc, record, gap]
  rfl

end OpenBoot.Factory
