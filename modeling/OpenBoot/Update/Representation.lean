import OpenBoot.Update.Ledger
import OpenBoot.Update.PortContract

/-! The representation invariant of the record state: the slot pair, the record state, the
disarm flag, the replay key and the cursor of the run, together and between any two frames.
-/

set_option autoImplicit false

namespace OpenBoot

open Semantics Program

variable {D : Device} {f : Flash} {ls : List Label} {buf resp : List Byte} {act : Action}
  {es : List (Event port)} {c c' c₀ : Core} {w w' w₀ : World} {op : PortOp} {x : Word}

def ErasedInSlots (D : Device) (w : World) : Prop :=
  ∀ b, w.blkErased b = true → ∃ slot, IsSlot slot ∧ D.Fits slot ∧ b * D.block ∈ D.span slot

theorem PortStep.erased_inv {b : Nat} (step : PortStep D w op x w') (erased : w'.blkErased b = true) :
    w.blkErased b = true ∨ ∃ addr len, op = .flashErase addr len ∧
      addr.toNat / D.block ≤ b ∧ b < (addr.toNat + len.toNat) / D.block := by
  cases step with
  | @erased addr len =>
    simp only [World.markErased, World.touched, Bool.or_eq_true, decide_eq_true_eq] at erased
    exact erased.symm.imp id fun inside => ⟨addr, len, rfl, inside⟩
  | _ => exact .inl erased

theorem ErasedInSlots.permit {b : Bool} (h : ErasedInSlots D w) (sound : Sound D b c w)
    (permit : Permit D buf c₀ w₀ c w op) (step : PortStep D w op x w') : ErasedInSlots D w' := by
  intro k marked
  rcases step.erased_inv marked with old | ⟨addr, len, rfl, low, high⟩
  · exact h k old
  · cases permit with
    | look reads => exact reads.elim
    | command _ fits cmd =>
      obtain ⟨aligned, rfl, inside⟩ := cmd.obeys sound fits
      -- one block, which starts where the command does
      obtain ⟨j, start⟩ := aligned
      change k < (addr.toNat + D.block) / D.block at high
      rw [Nat.add_div_right _ D.block_pos, start, Nat.mul_div_cancel_left _ D.block_pos] at high
      rw [start, Nat.mul_div_cancel_left _ D.block_pos] at low
      obtain rfl : k = j := by omega
      have first := inside.low
      have last := inside.high
      have some := D.block_pos
      rw [Nat.mul_comm] at start
      refine ⟨c.writeSlot, sound.slot, fits, ?_⟩
      change D.base c.writeSlot ≤ k * D.block ∧ k * D.block < _
      rw [← start]
      change _ + D.block ≤ _ at last
      omega

theorem ImageChunk.fits {b : Bool} (sound : Sound D b c w) (erased : ErasedInSlots D w) {a : Word}
    {data : List Byte} (chunk : ImageChunk D c a data) : D.Fits c.writeSlot := by
  have nonempty := chunk.nonempty
  obtain ⟨-, marked⟩ := chunk.erased sound (Nat.le_refl _) (by omega)
  obtain ⟨slot, isSlot, fits, low, high⟩ := erased _ marked
  rcases sound.slot.eq_or_other isSlot with rfl | rfl
  · exact fits
  -- the block begins in the other slot, and no block is in both
  · exfalso
    have first := chunk.low
    have last := chunk.high
    have top := D.recordAt_add sound.slot
    obtain ⟨i, base⟩ := D.block_dvd_base sound.slot
    have start : D.base c.writeSlot ≤ a.toNat / D.block * D.block := by
      rw [base, Nat.mul_comm]
      apply Nat.mul_le_mul_right
      rw [base] at first
      exact (Nat.le_div_iff_mul_le D.block_pos).mpr (by rwa [Nat.mul_comm])
    have stop := Nat.div_mul_le_self a.toNat D.block
    exact Set.disjoint_left.mp (D.span_disjoint sound.slot) ⟨start, by omega⟩ ⟨low, high⟩

/-- The cursor, and where it stands in a slot the silicon does not hold; the replay key and
    the commands so far, against the record state. -/
structure Kept (D : Device) (c : Core) (w : World) : Prop where
  erased : ErasedInSlots D w
  aligned : 4 ∣ c.s.expectedNext.toNat
  outside : c.s.session = true → ¬ D.Fits c.writeSlot → c.s.expectedNext = D.slotBase c.writeSlot
  committed : c.committedImgLen ≠ 0 → c.recState = .fresh

theorem Kept.ram {b : Bool} (h : Kept D c w) (sound : Sound D b c w)
    (step : RamStep D buf c₀ w₀ w c c') : Kept D c' w := by
  have base : ∀ {slot : Word}, IsSlot slot → 4 ∣ (D.slotBase slot).toNat := fun isSlot =>
    D.four_dvd_block.trans (D.block_dvd_base isSlot)
  cases step with
  | opened => exact ⟨h.erased, base sound.slot, fun _ _ => rfl, h.committed⟩
  | distrusted => exact ⟨h.erased, h.aligned, h.outside, fun some => absurd rfl some⟩
  | @folded a data _ chunk here =>
    subst here
    refine ⟨h.erased, ?_, fun _ none => absurd (chunk.fits sound h.erased) none, h.committed⟩
    change 4 ∣ (c.s.expectedNext + BitVec.ofNat 32 data.length).toNat
    have words := chunk.words
    have aligned := h.aligned
    rw [BitVec.toNat_add, BitVec.toNat_ofNat]
    omega
  | committed => exact ⟨h.erased, base sound.slot.other, fun _ _ => rfl, fun _ => rfl⟩
  | _ => exact ⟨h.erased, h.aligned, h.outside, h.committed⟩

theorem Kept.permit {b : Bool} (h : Kept D c w) (sound : Sound D b c w)
    (permit : Permit D buf c₀ w₀ c w op) (step : PortStep D w op x w') : Kept D c w' :=
  { h with erased := h.erased.permit sound permit step }

theorem Kept.frame (h : Kept D c w) (sound : Sound D false c w)
    (run : (handleFrame D buf).Exec (portEnv D) c w es (resp, act) c' w') : Kept D c' w' := by
  have both := handleFrame_keeps (J := fun c w => Sound D (commitOf buf).isSome c w ∧ Kept D c w)
    sound (fun _ _ _ step h => ⟨h.1.ram step, h.2.ram h.1 step⟩)
    (fun _ _ _ _ _ permit step h => ⟨h.1.permit permit step, h.2.permit h.1 permit step⟩) run
    ⟨sound.weaken, h⟩
  exact both.2

theorem kept_started (D : Device) (f : Flash) (bootreq : Word) :
    Kept D (.started D f bootreq) (.reset f) :=
  ⟨nofun, Nat.dvd_zero 4, nofun, fun some => absurd rfl some⟩

theorem Ending.commanded (ending : Ending D buf c₀ w₀ resp .none c w)
    (start : c₀.recState ≠ .flash → w₀.ops ≠ []) (touched : c.recState ≠ .flash) : w.ops ≠ [] := by
  have issued : ∀ {n}, n < w.ops.length → w.ops ≠ [] := fun more none => by
    rw [none] at more
    exact Nat.not_lt_zero _ more
  cases ending with
  | kept => exact start touched
  | replayed => exact start touched
  | opened => exact start touched
  | changed _ _ _ _ more => exact issued more
  | failed _ last =>
    rw [last]
    exact List.cons_ne_nil _ _
  | committed _ _ _ _ _ _ _ _ _ _ more => exact issued more

/-- The pair as the frame found it, or flipped onto the record the COMMIT stored. -/
def PairKept (D : Device) (buf : List Byte) (c₀ c : Core) (w : World) : Prop :=
  (c.activeSlot = c₀.activeSlot ∧ c.writeSlot = c₀.writeSlot) ∨
    ∃ len crc, commitOf buf = some (len, crc) ∧ c.activeSlot = c₀.writeSlot ∧
      c.writeSlot = otherSlot c₀.writeSlot ∧
      recordOn D w.flash c₀.writeSlot = some (nextRecord c₀ len crc)

theorem PairKept.ram (h : PairKept D buf c₀ c w) (step : RamStep D buf c₀ w₀ w c c') :
    PairKept D buf c₀ c' w := by
  cases step with
  | @committed len crc _ sealing record =>
    refine .inr ⟨len, crc, sealing.request, sealing.slot, congrArg otherSlot sealing.slot, ?_⟩
    rw [← sealing.slot, record, nextRecord, sealing.gen]
    rfl
  | _ => exact h

theorem PairKept.permit (h : PairKept D buf c₀ c w) (permit : Permit D buf c₀ w₀ c w op)
    (step : PortStep D w op x w') : PairKept D buf c₀ c w' := by
  rcases permit.cases step with rfl | ⟨same, -, -⟩
  · exact h
  · rcases h with kept | ⟨len, crc, -, -, flipped, -⟩
    · exact .inl kept
    · exact absurd (flipped.symm.trans same) (otherSlot_ne _)

theorem pairKept_frame (sound : Sound D false c w)
    (run : (handleFrame D buf).Exec (portEnv D) c w es (resp, act) c' w') :
    PairKept D buf c c' w' :=
  handleFrame_keeps (J := fun c' w' => PairKept D buf c c' w') sound (fun _ _ _ step h => h.ram step)
    (fun _ _ _ _ _ permit step h => h.permit permit step) run (.inl ⟨rfl, rfl⟩)

/-- A frame that ends with the pair flipped is a COMMIT answered OK. -/
theorem Ending.flipped (ending : Ending D buf c₀ w₀ resp act c w)
    (flipped : c.writeSlot = otherSlot c₀.writeSlot) : AnsweredOk resp := by
  have unmoved : c.writeSlot ≠ c₀.writeSlot := by
    rw [flipped]
    exact otherSlot_ne _
  cases ending with
  | changed _ _ same => exact absurd same unmoved
  | failed _ _ _ _ _ _ same => exact absurd same unmoved
  | committed _ answered => exact answered
  | _ => exact absurd rfl unmoved

/-- How the variables of the record state go together between frames. -/
structure Representation (D : Device) (c : Core) (w : World) : Prop where
  distinct : c.activeSlot ≠ c.writeSlot
  other : c.activeSlot ≠ slotNone → c.writeSlot = otherSlot c.activeSlot
  flash : c.recState = .flash ↔ w.ops = []
  disarmed : c.s.disarmed = true → c.recState = .invalid ∧ recordErased D w.flash c.writeSlot
  committed : c.committedImgLen ≠ 0 → c.recState = .fresh ∧
    ∃ r, recordOn D w.flash c.activeSlot = some r ∧ r.imgLen = c.committedImgLen ∧
      r.imgCrc32 = c.committedImgCrc
  aligned : 4 ∣ c.s.expectedNext.toNat
  cursor : c.s.session = true → D.base c.writeSlot ≤ c.s.expectedNext.toNat ∧
    c.s.expectedNext.toNat ≤ D.base c.writeSlot + (D.slotCapacity c.writeSlot).toNat

theorem Representation.of_sound (sound : Sound D false c w) (kept : Kept D c w)
    (commanded : c.recState ≠ .flash → w.ops ≠ []) : Representation D c w where
  distinct := by
    rcases sound.active with none | other
    · rw [none]
      exact sound.slot.ne_none.symm
    · rw [other]
      exact otherSlot_ne _
  other some := by
    rcases sound.active with none | other
    · exact absurd none some
    · rw [other, otherSlot_otherSlot]
  flash := by
    constructor
    · intro flash
      rw [sound.untouched flash]
      rfl
    · intro none
      -- what takes the core out of `flash` sends a command first
      by_contra touched
      exact commanded touched none
  disarmed on := ⟨(sound.armed on).1, (sound.armed on).2 rfl⟩
  committed some := by
    obtain ⟨r, record, -, len, crc⟩ := (sound.fresh (kept.committed some)).record
    exact ⟨kept.committed some, r, record, len, crc⟩
  aligned := kept.aligned
  cursor session := by
    obtain ⟨low, high⟩ := sound.cursor session
    by_cases fits : D.Fits c.writeSlot
    · rw [D.capacity_eq sound.slot fits]
      exact ⟨low, high⟩
    · rw [kept.outside session fits]
      exact ⟨Nat.le_refl _, Nat.le_add_right _ _⟩

theorem Frames.representation {log : List Served} (frames : Frames D log c w) :
    Kept D c w ∧ (c.recState ≠ .flash → w.ops ≠ []) := by
  apply frames.invariant (fun _ c w => Kept D c w ∧ (c.recState ≠ .flash → w.ops ≠ []))
  · exact fun f bootreq => ⟨kept_started D f bootreq, fun touched => absurd rfl touched⟩
  · rintro log c w buf es resp c' w' frames ⟨kept, commanded⟩ run
    exact ⟨kept.frame frames.sound run,
      (wp_exec (handleFrame_wp frames.sound) run).commanded commanded⟩

/-- The representation invariant of the record state: it holds between any two frames of any
    run, and the slot pair changes only in a COMMIT answered OK, which leaves the record of its
    tuple, under the next generation, in the slot that was the write slot. -/
theorem representation_invariant (D : Device) (run : (machine D).Run (.off f) ls (.idle c w)) :
    Representation D c w ∧
      ∀ buf es resp act c' w', (handleFrame D buf).Exec (portEnv D) c w es (resp, act) c' w' →
        (c'.activeSlot = c.activeSlot ∧ c'.writeSlot = c.writeSlot) ∨
          ∃ len crc, commitOf buf = some (len, crc) ∧ AnsweredOk resp ∧
            c'.activeSlot = c.writeSlot ∧ c'.writeSlot = otherSlot c.writeSlot ∧
            recordOn D w'.flash c.writeSlot = some (nextRecord c len crc) := by
  have sound := (idle_sound run).1
  obtain ⟨kept, commanded⟩ := (frames_of_run run).representation
  refine ⟨.of_sound sound kept commanded, fun buf es resp act c' w' exec => ?_⟩
  rcases pairKept_frame sound exec with same | ⟨len, crc, request, active, flipped, record⟩
  · exact .inl same
  · have answered := (wp_exec (handleFrame_wp sound) exec).flipped flipped
    exact .inr ⟨len, crc, request, answered, active, flipped, record⟩

/-- After an update of a blank part, with the COMMIT about to be replayed. -/
theorem representation_invariant_update : ∃ ls c w,
    (machine .ch570).Run (.off Bench.blank) ls (.idle c w) ∧ c.committedImgLen = 4 ∧
      Representation .ch570 c w := by
  have passes : (Bench.bench .ch570 Bench.unchecked Bench.blank 0
      (Bench.stream 0x2000 ++ [Bench.commit Bench.image])).any
      (fun s => decide (s.1.committedImgLen = 4)) = true := by decide +kernel
  obtain ⟨ls, c, w, run, state⟩ := Bench.bench_reach passes
  exact ⟨ls, c, w, run, of_decide_eq_true state, (representation_invariant .ch570 run).1⟩

/-- Before the first HELLO the cursor is zero, outside any slot. -/
theorem cursor_zero_before_hello : ∃ ls c w,
    (machine .ch570).Run (.off Bench.blank) ls (.idle c w) ∧ c.s.session = false ∧
      ¬ (Device.ch570.base c.writeSlot ≤ c.s.expectedNext.toNat) := by
  have passes : (Bench.bench .ch570 Bench.unchecked Bench.blank 0 []).any
      (fun s => decide (s.1.s.session = false ∧
        ¬ (Device.ch570.base s.1.writeSlot ≤ s.1.s.expectedNext.toNat))) = true := by
    decide +kernel
  obtain ⟨ls, c, w, run, state⟩ := Bench.bench_reach passes
  exact ⟨ls, c, w, run, of_decide_eq_true state⟩

end OpenBoot
