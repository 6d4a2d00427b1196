import OpenBoot.Update.Attestation

/-! The port contract: the hooks check nothing, so every operation the core issues
must be aligned, sized and placed right by itself. -/

set_option autoImplicit false

namespace OpenBoot

open Semantics Program

variable {D : Device} {buf : List Byte} {c c₀ : Core} {w w₀ : World} {op : PortOp} {b : Bool}

/-- A range inside the current write slot, which the silicon holds. -/
structure InSlot (D : Device) (c : Core) (a n : Nat) : Prop where
  fits : D.Fits c.writeSlot
  low : D.base c.writeSlot ≤ a
  high : a + n ≤ D.base c.writeSlot + D.slotSize.toNat

structure WholeWords (a : Word) (data : List Byte) : Prop where
  aligned : 4 ∣ a.toNat
  words : 4 ∣ data.length
  nonempty : 0 < data.length

/-- What the hooks rely on. -/
def Obeys (D : Device) (c : Core) (w : World) : PortOp → Prop
  | .flashErase a len => D.block ∣ a.toNat ∧ len = D.eraseBlock ∧ InSlot D c a.toNat len.toNat
  | .flashWrite a data => WholeWords a data ∧ InSlot D c a.toNat data.length ∧
      ∀ x, a.toNat ≤ x → x < a.toNat + data.length → w.blkErased (x / D.block) = true
  | .flashVerify a data => WholeWords a data ∧ InSlot D c a.toNat data.length
  | .xipRead32 a => D.flashAppStart.toNat ≤ a.toNat ∧ a.toNat + 4 ≤ D.appEnd.toNat

def Task.isCommit : Task → Prop
  | .boot => False
  | .frame buf => (commitOf buf).isSome = true

/-- The addresses a command is about; a verify changes none of them. -/
def PortOp.range : PortOp → Set Nat
  | .flashVerify addr buf => Set.Ico addr.toNat (addr.toNat + buf.length)
  | op => op.target

/-- The record reserve is touched in two ways only: its block is erased, to
    disarm or for COMMIT, and COMMIT programs and verifies a complete record there. -/
def SparesRecord (D : Device) (t : Task) (c : Core) (op : PortOp) : Prop :=
  op.range ⊆ D.imageArea c.writeSlot ∨
    (op = .flashErase (D.slotRecordAddr c.writeSlot) D.eraseBlock ∧
      (c.s.disarmed = false ∨ t.isCommit)) ∨
    (t.isCommit ∧ ∃ len crc,
      op = .flashWrite (D.slotRecordAddr c.writeSlot) (nextRecord c len crc).bytes ∨
      op = .flashVerify (D.slotRecordAddr c.writeSlot) (nextRecord c len crc).bytes)

theorem ImageChunk.inSlot {a : Word} {data : List Byte} (slot : IsSlot c.writeSlot)
    (fits : D.Fits c.writeSlot) (chunk : ImageChunk D c a data) :
    InSlot D c a.toNat data.length := by
  have top := D.recordAt_add slot
  have high := chunk.high
  exact ⟨fits, chunk.low, by omega⟩

theorem nextRecord_words {len crc : Word} (slot : IsSlot c.writeSlot) :
    WholeWords (D.slotRecordAddr c.writeSlot) (nextRecord c len crc).bytes :=
  ⟨D.four_dvd_recordAt slot, by rw [nextRecord_length]; decide, by rw [nextRecord_length]; decide⟩

theorem nextRecord_inSlot {len crc : Word} (slot : IsSlot c.writeSlot) (fits : D.Fits c.writeSlot) :
    InSlot D c (D.slotRecordAddr c.writeSlot).toNat (nextRecord c len crc).bytes.length := by
  have top := D.recordAt_add slot
  have low := D.base_lt_recordAt slot
  rw [nextRecord_length]
  exact ⟨fits, low.le, by change D.recordAt _ + 32 ≤ _; omega⟩

theorem Command.obeys (h : Sound D b c w) (fits : D.Fits c.writeSlot)
    (cmd : Command D buf c₀ w₀ c w op) : Obeys D c w op := by
  have top := D.recordAt_add h.slot
  have low := D.base_lt_recordAt h.slot
  cases cmd with
  | disarm =>
    refine ⟨D.block_dvd_recordAt h.slot, rfl, fits, low.le, ?_⟩
    have block := D.block_le
    change D.recordAt _ + D.block ≤ _
    omega
  | eraseImage _ _ image =>
    refine ⟨image.aligned, rfl, fits, image.low, ?_⟩
    have high := image.high
    change _ + D.block ≤ _
    omega
  | writeImage _ _ chunk =>
    exact ⟨⟨chunk.aligned, chunk.words, chunk.nonempty⟩, chunk.inSlot h.slot fits,
      fun x first last => (chunk.erased h first last).2⟩
  | verifyImage _ chunk =>
    exact ⟨⟨chunk.aligned, chunk.words, chunk.nonempty⟩, chunk.inSlot h.slot fits⟩
  | writeRecord _ _ marked =>
    refine ⟨nextRecord_words h.slot, nextRecord_inSlot h.slot fits, fun x first last => ?_⟩
    -- the record lies in the first block of the reserve, the one COMMIT has erased
    obtain ⟨k, base⟩ := D.block_dvd_recordAt h.slot
    have room : 32 ≤ D.block := D.record_fits
    rw [nextRecord_length] at last
    change D.recordAt c.writeSlot ≤ x at first
    change x < D.recordAt c.writeSlot + 32 at last
    rw [base, Nat.mul_div_cancel_left _ D.block_pos] at marked
    rw [base] at first last
    have block : x / D.block = k := Nat.div_eq_of_lt_le (by rwa [Nat.mul_comm]) (by
      rw [Nat.succ_mul, Nat.mul_comm k]
      omega)
    rw [block]
    exact marked
  | verifyRecord => exact ⟨nextRecord_words h.slot, nextRecord_inSlot h.slot fits⟩

theorem Command.sparesRecord (cmd : Command D buf c₀ w₀ c w op) :
    SparesRecord D (.frame buf) c op := by
  have area : ∀ a n, D.base c.writeSlot ≤ a → a + n ≤ D.recordAt c.writeSlot →
      Set.Ico a (a + n) ⊆ D.imageArea c.writeSlot := fun a n low high =>
    Set.Ico_subset_Ico low high
  have asked : ∀ {len crc}, Sealing D buf c₀ w₀ c w.flash len crc →
      Task.isCommit (.frame buf) := fun sealing => by
    change (commitOf buf).isSome = true
    rw [sealing.request]
    rfl
  cases cmd with
  | disarm _ why => exact .inr (.inl ⟨rfl, why⟩)
  | eraseImage _ _ image => exact .inl (area _ _ image.low image.high)
  | writeImage _ _ chunk => exact .inl (area _ _ chunk.low chunk.high)
  | verifyImage _ chunk => exact .inl (area _ _ chunk.low chunk.high)
  | writeRecord _ _ _ sealing => exact .inr (.inr ⟨asked sealing, _, _, .inl rfl⟩)
  | verifyRecord _ sealing => exact .inr (.inr ⟨asked sealing, _, _, .inr rfl⟩)

/-- Every operation of every run respects the port contract, and no byte of the
    bootloader, of the other slot or beyond the silicon is ever erased or
    programmed. -/
theorem port_contract (D : Device) {f : Flash} {ls : List Label} {t : Task} {op : PortOp}
    {k : Word → Code Outcome} {c : Core} {w : World}
    (run : (machine D).Run (.off f) ls (.busy t (.call op k) c w)) :
    Obeys D c w op ∧ SparesRecord D t c op ∧
      ∀ x ∈ op.target, D.flashAppStart.toNat ≤ x ∧ x < D.appEnd.toNat ∧
        x ∉ D.span (otherSlot c.writeSlot) := by
  rcases permitted run rfl with reads | ⟨buf, c₀, w₀, rfl, sound, _, fits, cmd⟩
  · cases op with
    | xipRead32 a => exact ⟨reads, .inl (Set.empty_subset _), fun x mem => mem.elim⟩
    | _ => exact reads.elim
  · refine ⟨cmd.obeys sound fits, cmd.sparesRecord, fun x mem => ?_⟩
    have inside := cmd.target_subset sound.slot mem
    have start := D.appStart_le_base sound.slot
    have stop := (D.fits_iff sound.slot).mp fits
    refine ⟨?_, ?_, fun other => ?_⟩
    · exact start.trans inside.1
    · exact inside.2.trans_le stop
    · exact Set.disjoint_left.mp (D.span_disjoint sound.slot) inside other

/-- The block erase of an ERASE served by a blank part. -/
theorem port_contract_erase : ∃ ls k c w,
    (machine .ch570).Run (.off Bench.blank) ls (.busy (.frame (Bench.erase 0x2000 4096))
      (.call (.flashErase 0x2000 4096) k) c w) ∧ Obeys .ch570 c w (.flashErase 0x2000 4096) := by
  have passes : (Bench.bench .ch570 Bench.unchecked Bench.blank 0 [Bench.hello]).any (fun s =>
      ((serve .ch570 (Bench.erase 0x2000 4096)).pause (simulate .ch570) 1 s.1 s.2).any fun q =>
        decide (q.1 = .flashErase 0x2000 4096)) = true := by decide +kernel
  obtain ⟨ls, op, k, c, w, run, erases⟩ := Bench.bench_pause (fun op _ _ =>
    decide (op = .flashErase 0x2000 4096)) passes
  obtain rfl := of_decide_eq_true erases
  have obeys := (port_contract .ch570 run).1
  exact ⟨ls, k, c, w, run, obeys⟩

end OpenBoot
