import OpenBoot.Update.Discipline

/-! What the core's RAM says about the flash, and that the discipline keeps it true. -/

set_option autoImplicit false

namespace OpenBoot

open Semantics

theorem bitmapBit_eq (bitmap : List Byte) (b : Nat) :
    bitmapBit bitmap b = (bitmap.getD (b / 8) 0).getLsbD (b % 8) := by
  have small : b % 8 < 8 := Nat.mod_lt _ (by decide)
  unfold bitmapBit
  generalize bitmap.getD (b / 8) 0 = x
  have mask : (1 : Byte) <<< (b % 8) = BitVec.twoPow 8 (b % 8) := (BitVec.twoPow_eq _ _).symm
  rw [mask, BitVec.and_twoPow]
  by_cases set : x.getLsbD (b % 8)
  · have nonzero : BitVec.twoPow 8 (b % 8) ≠ 0#8 := fun zero => by
      have bit := congrArg (BitVec.getLsbD · (b % 8)) zero
      simp [small] at bit
    simp [set, nonzero]
  · simp [set]

theorem bitmapBit_replicate (k b : Nat) : bitmapBit (List.replicate k 0) b = false := by
  rw [bitmapBit_eq, List.getD_eq_getElem?_getD, List.getElem?_replicate]
  split <;> simp

theorem bitmapBit_modify (bitmap : List Byte) (k b : Nat) :
    bitmapBit (bitmap.modify (k / 8) (· ||| (1 : Byte) <<< (k % 8))) b = true ↔
      (b = k ∧ k / 8 < bitmap.length) ∨ bitmapBit bitmap b = true := by
  have small : k % 8 < 8 := Nat.mod_lt _ (by decide)
  rw [bitmapBit_eq, bitmapBit_eq, List.getD_eq_getElem?_getD, List.getD_eq_getElem?_getD,
    List.getElem?_modify]
  by_cases byte : k / 8 = b / 8
  · simp only [byte, if_true]
    by_cases inside : b / 8 < bitmap.length
    · have mask : (1 : Byte) <<< (k % 8) = BitVec.twoPow 8 (k % 8) := (BitVec.twoPow_eq _ _).symm
      rw [List.getElem?_eq_getElem inside, mask]
      simp only [Option.map_eq_map, Option.map_some, Option.getD_some, BitVec.getLsbD_or,
        BitVec.getLsbD_twoPow, Bool.or_eq_true]
      have same : (b = k) ↔ k % 8 = b % 8 := by omega
      simp [same, inside, small, or_comm]
    · rw [List.getElem?_eq_none (by omega)]
      simp [inside]
  · simp only [byte, if_false, id_map']
    constructor
    · exact .inr
    · rintro (⟨rfl, _⟩ | set)
      · exact absurd rfl byte
      · exact set

/-- What holds between a COMMIT and the next mutation. -/
structure Fresh (D : Device) (c : Core) (f : Flash) : Prop where
  roles : c.activeSlot = otherSlot c.writeSlot
  record : ∃ r, recordOn D f c.activeSlot = some r ∧ r.generation = c.highestGen ∧
    r.imgLen = c.committedImgLen ∧ r.imgCrc32 = c.committedImgCrc
  older : ∀ r, recordOn D f c.writeSlot = some r → r.generation < c.highestGen
  start : c.s.expectedNext = D.slotBase c.writeSlot

structure LastChunk (D : Device) (c : Core) (f : Flash) : Prop where
  low : D.base c.writeSlot ≤ c.s.lastAddr.toNat
  ends : c.s.lastAddr.toNat + c.s.lastLen.toNat = c.s.expectedNext.toNat
  room : c.s.lastLen.toNat ≤ c.s.lastData.length
  settled : Nor.Settled f c.s.lastAddr.toNat (c.s.lastData.take c.s.lastLen.toNat)

/-- The running CRC is the CRC of the true flash up to the cursor. -/
structure RunExact (D : Device) (c : Core) (f : Flash) : Prop where
  crc : crc32Update crc32Init
    (f.bytes (D.base c.writeSlot) (c.s.expectedNext.toNat - D.base c.writeSlot)) = c.s.crcState
  last : c.s.lastLen ≠ 0 → LastChunk D c f

/-- The state of the core matches the part. While a COMMIT is being served the
    disarm flag may outlive the erased record block. -/
structure Sound (D : Device) (committing : Bool) (c : Core) (w : World) : Prop where
  slot : IsSlot c.writeSlot
  active : c.activeSlot = slotNone ∨ c.activeSlot = otherSlot c.writeSlot
  bitmap : c.s.bitmap.length = D.bitmapBytes
  -- a mark is a block erased this power cycle, and ERASE has distrusted the record
  bits : ∀ b, bitmapBit c.s.bitmap b = true →
    c.recState = .invalid ∧ w.blkErased (D.base c.writeSlot / D.block + b) = true
  armed : c.s.disarmed = true → c.recState = .invalid ∧
    (committing = false → recordErased D w.flash c.writeSlot)
  -- FLASH doubles as: no command has been issued since reset
  untouched : c.recState = .flash → w = .reset w.flash
  fresh : c.recState = .fresh → Fresh D c w.flash
  -- the counter kept in RAM bounds the slot that is not being written
  newest : ∀ r, recordOn D w.flash (otherSlot c.writeSlot) = some r → r.generation ≤ c.highestGen
  cursor : c.s.session = true → D.base c.writeSlot ≤ c.s.expectedNext.toNat ∧
    c.s.expectedNext.toNat ≤ D.recordAt c.writeSlot
  run : c.s.session = true → c.s.stream = .run → RunExact D c w.flash

variable {D : Device} {buf : List Byte} {c c' c₀ : Core} {w w' w₀ : World} {op : PortOp} {x : Word}
  {b : Bool}

section
variable {f : Flash} {len crc : Word}

theorem Attests.congr {g : Flash} {slot : Word} (h : Attests D f slot len crc)
    (same : (Set.Ico (D.base slot) (D.base slot + len.toNat)).EqOn g f) :
    Attests D g slot len crc := by
  unfold Attests at h ⊢
  rw [Flash.bytes_congr same]
  exact h

namespace Sealing

variable (h : Sealing D buf c₀ w₀ c f len crc)
include h

theorem request : commitOf buf = some (len, crc) := h.accepted.request

theorem geometry : Geometry D c.writeSlot len := h.slot ▸ h.accepted.geometry

theorem nonzero : c.highestGen + 1 ≠ 0 := h.gen ▸ h.accepted.nonzero

theorem attests (slot : IsSlot c.writeSlot) : Attests D f c.writeSlot len crc := by
  have start := h.accepted.attests
  rw [← h.slot] at start
  exact start.congr (Set.EqOn.mono
    (Set.Ico_subset_Ico_right (h.geometry.toNat_le slot h.geometry.fits)) h.area)

end Sealing

end

theorem Sound.weaken (h : Sound D false c w) : Sound D b c w :=
  { h with armed := fun on => ⟨(h.armed on).1, fun _ => (h.armed on).2 rfl⟩ }

theorem LastChunk.congr {f g : Flash} (h : LastChunk D c f)
    (same : (Set.Ico (D.base c.writeSlot) c.s.expectedNext.toNat).EqOn g f) : LastChunk D c g := by
  refine { h with settled := h.settled.congr (Set.EqOn.mono ?_ same) }
  have low := h.low
  have ends := h.ends
  apply Set.Ico_subset_Ico low
  rw [List.length_take]
  omega

theorem RunExact.congr {f g : Flash} (h : RunExact D c f)
    (cursor : D.base c.writeSlot ≤ c.s.expectedNext.toNat)
    (same : (Set.Ico (D.base c.writeSlot) c.s.expectedNext.toNat).EqOn g f) : RunExact D c g where
  crc := by
    have bytes : g.bytes (D.base c.writeSlot) (c.s.expectedNext.toNat - D.base c.writeSlot) =
        f.bytes (D.base c.writeSlot) (c.s.expectedNext.toNat - D.base c.writeSlot) :=
      Flash.bytes_congr (by rwa [Nat.add_sub_cancel' cursor])
    rw [bytes]
    exact h.crc
  last := fun some => (h.last some).congr same

theorem Fresh.recast {f : Flash} (h : Fresh D c f) (active : c'.activeSlot = c.activeSlot)
    (slot : c'.writeSlot = c.writeSlot) (gen : c'.highestGen = c.highestGen)
    (len : c'.committedImgLen = c.committedImgLen) (crc : c'.committedImgCrc = c.committedImgCrc)
    (next : c'.s.expectedNext = D.slotBase c'.writeSlot) : Fresh D c' f := by
  obtain ⟨roles, record, older, _⟩ := h
  rw [← active, ← slot] at roles
  rw [← active, ← gen, ← len, ← crc] at record
  rw [← slot, ← gen] at older
  exact ⟨roles, record, older, next⟩

theorem RunExact.recast {f : Flash} (h : RunExact D c f) (slot : c'.writeSlot = c.writeSlot)
    (next : c'.s.expectedNext = c.s.expectedNext) (state : c'.s.crcState = c.s.crcState)
    (addr : c'.s.lastAddr = c.s.lastAddr) (len : c'.s.lastLen = c.s.lastLen)
    (data : c'.s.lastData = c.s.lastData) : RunExact D c' f := by
  obtain ⟨crc, last⟩ := h
  rw [← slot, ← next, ← state] at crc
  refine ⟨crc, fun some => ?_⟩
  obtain ⟨low, ends, room, settled⟩ := last (by rwa [← len])
  rw [← slot, ← addr] at low
  rw [← addr, ← len, ← next] at ends
  rw [← len, ← data] at room
  rw [← len, ← data, ← addr] at settled
  exact ⟨low, ends, room, settled⟩

theorem RunExact.empty {f : Flash} (next : c.s.expectedNext = D.slotBase c.writeSlot)
    (state : c.s.crcState = crc32Init) (len : c.s.lastLen = 0) : RunExact D c f := by
  have none : (D.slotBase c.writeSlot).toNat - D.base c.writeSlot = 0 := Nat.sub_self _
  refine ⟨?_, fun some => absurd len some⟩
  rw [next, state, none]
  rfl

theorem recordBlock_target (slot : Word) :
    (PortOp.flashErase (D.slotRecordAddr slot) D.eraseBlock).target =
      Set.Ico (D.recordAt slot) (D.recordAt slot + D.block) := rfl

theorem recordWrite_target (slot : Word) (len crc : Word) :
    (PortOp.flashWrite (D.slotRecordAddr slot) (nextRecord c len crc).bytes).target =
      Set.Ico (D.recordAt slot) (D.recordAt slot + 32) := by
  simp only [PortOp.target, nextRecord_length]
  rfl

theorem Command.target_subset (slot : IsSlot c.writeSlot) (cmd : Command D buf c₀ w₀ c w op) :
    op.target ⊆ D.span c.writeSlot := by
  have top := D.recordAt_add slot
  have low := D.base_lt_recordAt slot
  have block := D.block_le
  cases cmd with
  | disarm =>
    rw [recordBlock_target]
    exact Set.Ico_subset_Ico (by omega) (by omega)
  | eraseImage _ _ image _ =>
    have := image.low
    have := image.high
    exact Set.Ico_subset_Ico (by omega) (by change _ + D.block ≤ _; omega)
  | writeImage _ _ chunk _ =>
    have := chunk.low
    have := chunk.high
    exact Set.Ico_subset_Ico (by omega) (by omega)
  | verifyImage => exact Set.empty_subset _
  | writeRecord =>
    rw [recordWrite_target]
    exact Set.Ico_subset_Ico (by omega) (by omega)
  | verifyRecord => exact Set.empty_subset _

theorem Command.other_slot (slot : IsSlot c.writeSlot) (cmd : Command D buf c₀ w₀ c w op)
    (step : PortStep D w op x w') :
    (D.span (otherSlot c.writeSlot)).EqOn w'.flash w.flash :=
  step.outside ((D.span_disjoint slot).mono_left (cmd.target_subset slot)).symm

theorem Command.invalid (h : Sound D b c w) (cmd : Command D buf c₀ w₀ c w op) :
    c.recState = .invalid := by
  cases cmd with
  | disarm invalid => exact invalid
  | eraseImage on => exact (h.armed on).1
  | writeImage on => exact (h.armed on).1
  | verifyImage on => exact (h.armed on).1
  | writeRecord invalid => exact invalid
  | verifyRecord invalid => exact invalid

theorem Resend.unchanged {a : Word} {data : List Byte} {f : Flash} (h : Resend c a data)
    (last : LastChunk D c f) (k : Nat) : programBytes f a (data.take k) = f := by
  have settled := last.settled
  rw [← h.len, ← h.data, ← h.addr] at settled
  exact settled.program k

/-- An intact run is not disturbed. -/
theorem Command.keeps_run (h : Sound D b c w) (cmd : Command D buf c₀ w₀ c w op)
    (step : PortStep D w op x w') (session : c.s.session = true) (run : c.s.stream = .run) :
    (Set.Ico (D.base c.writeSlot) c.s.expectedNext.toNat).EqOn w'.flash w.flash := by
  have cursor := (h.cursor session).2
  have beyond : ∀ lo hi, c.s.expectedNext.toNat ≤ lo →
      Disjoint (Set.Ico (D.base c.writeSlot) c.s.expectedNext.toNat) (Set.Ico lo hi) := by
    intro lo hi ahead
    rw [Set.disjoint_left]
    intro a mem mem'
    simp only [Set.mem_Ico] at mem mem'
    omega
  cases cmd with
  | disarm => exact step.outside (beyond _ _ cursor)
  | eraseImage _ _ _ ahead => exact step.outside (beyond _ _ (ahead run))
  | @writeImage a data _ _ chunk keeps =>
    rcases keeps run with rfl | resend
    · exact step.outside (beyond _ _ (Nat.le_refl _))
    -- a chunk sent again is programmed over itself
    · obtain ⟨k, written⟩ := step.write_inv
      have nonzero : c.s.lastLen ≠ 0 := by
        intro zero
        have len := resend.len
        have nonempty := chunk.nonempty
        rw [zero] at len
        exact absurd len (by simpa using nonempty.ne')
      rw [written, resend.unchanged ((h.run session run).last nonzero)]
      exact Set.eqOn_refl _ _
  | verifyImage => exact step.outside (Set.disjoint_empty _)
  | writeRecord =>
    apply step.outside
    rw [recordWrite_target]
    exact beyond _ _ cursor
  | verifyRecord => exact step.outside (Set.disjoint_empty _)

theorem Command.keeps_erased (cmd : Command D buf c₀ w₀ c w op) (step : PortStep D w op x w')
    (request : (commitOf buf).isSome = false) (on : c.s.disarmed = true)
    (erased : recordErased D w.flash c.writeSlot) : recordErased D w'.flash c.writeSlot := by
  have below : ∀ lo hi, hi ≤ D.recordAt c.writeSlot → Disjoint
      (Set.Ico (D.recordAt c.writeSlot) (D.recordAt c.writeSlot + D.block)) (Set.Ico lo hi) := by
    intro lo hi under
    rw [Set.disjoint_left]
    intro a mem mem'
    simp only [Set.mem_Ico] at mem mem'
    omega
  apply erased.congr
  cases cmd with
  | disarm _ off =>
    -- with the flag set only COMMIT erases the block, and this frame is none
    rcases off with off | commit
    · rw [on] at off
      cases off
    · rw [request] at commit
      cases commit
  | eraseImage _ _ image _ => exact step.outside (below _ _ image.high)
  | writeImage _ _ chunk _ => exact step.outside (below _ _ chunk.high)
  | verifyImage => exact step.outside (Set.disjoint_empty _)
  | writeRecord _ _ _ sealing =>
    rw [sealing.request] at request
    cases request
  | verifyRecord => exact step.outside (Set.disjoint_empty _)

/-- Every command keeps the state sound, whatever the part answers. -/
theorem Sound.command (h : Sound D (commitOf buf).isSome c w) (cmd : Command D buf c₀ w₀ c w op)
    (step : PortStep D w op x w') : Sound D (commitOf buf).isSome c w' := by
  have invalid := cmd.invalid h
  refine { h with bits := ?_, armed := ?_, untouched := ?_, fresh := ?_, newest := ?_, run := ?_ }
  · exact fun b set => ⟨invalid, step.blkErased (h.bits b set).2⟩
  · exact fun on => ⟨invalid, fun request =>
      cmd.keeps_erased step request on ((h.armed on).2 request)⟩
  · intro flash
    rw [invalid] at flash
    cases flash
  · intro fresh
    rw [invalid] at fresh
    cases fresh
  · rw [recordOn_congr (cmd.other_slot h.slot step)]
    exact h.newest
  · intro session run
    exact (h.run session run).congr (h.cursor session).1 (cmd.keeps_run h step session run)

theorem Sound.permit (h : Sound D (commitOf buf).isSome c w) (permit : Permit D buf c₀ w₀ c w op)
    (step : PortStep D w op x w') : Sound D (commitOf buf).isSome c w' := by
  cases permit with
  | look reads =>
    cases op with
    | xipRead32 a =>
      rw [step.read_inv.1]
      exact h
    | _ => exact reads.elim
  | command _ _ cmd => exact h.command cmd step

theorem Sound.sessionOpen (h : Sound D b c w) : Sound D b (c.sessionOpen D) w :=
  { h with
    bitmap := List.length_replicate
    bits := fun b set => by
      simp only [Core.sessionOpen, Session.zero, bitmapBit_replicate] at set
      cases set
    armed := fun on => by cases on
    fresh := fun fresh => (h.fresh fresh).recast rfl rfl rfl rfl rfl rfl
    cursor := fun _ => ⟨Nat.le_refl _, (D.base_lt_recordAt h.slot).le⟩
    run := fun _ _ => .empty rfl rfl rfl }

theorem Sound.distrust (h : Sound D b c w) : Sound D b c.recordBeginWrite w :=
  { h with
    bits := fun b set => ⟨rfl, (h.bits b set).2⟩
    armed := fun on => ⟨rfl, (h.armed on).2⟩
    untouched := fun flash => by cases flash
    fresh := fun fresh => by cases fresh
    run := fun session run => (h.run session run).recast rfl rfl rfl rfl rfl rfl }

theorem Sound.setDisarmed (h : Sound D b c w) {on : Bool}
    (why : on = true → c.recState = .invalid ∧ recordErased D w.flash c.writeSlot) :
    Sound D b (c.setDisarmed on) w :=
  { h with
    armed := fun on => ⟨(why on).1, fun _ => (why on).2⟩
    fresh := fun fresh => (h.fresh fresh).recast rfl rfl rfl rfl rfl (h.fresh fresh).start
    run := fun session run => (h.run session run).recast rfl rfl rfl rfl rfl rfl }

theorem Sound.poison (h : Sound D b c w) : Sound D b c.poison w :=
  { h with
    fresh := fun fresh => (h.fresh fresh).recast rfl rfl rfl rfl rfl (h.fresh fresh).start
    run := fun _ run => by cases run }

theorem block_index {slot a : Word} (isSlot : IsSlot slot) (low : D.base slot ≤ a.toNat) :
    D.base slot / D.block + ((a - D.slotBase slot) / D.eraseBlock).toNat = a.toNat / D.block := by
  have offset : (a - D.slotBase slot).toNat = a.toNat - D.base slot :=
    BitVec.toNat_sub_of_le (BitVec.le_def.mpr low)
  rw [BitVec.toNat_udiv, offset]
  change _ + (a.toNat - D.base slot) / D.block = _
  obtain ⟨k, base⟩ := D.block_dvd_base isSlot
  obtain ⟨d, above⟩ := Nat.exists_eq_add_of_le low
  rw [above, Nat.add_sub_cancel_left, base, Nat.mul_div_cancel_left _ D.block_pos,
    Nat.mul_add_div D.block_pos]

theorem Sound.mark (h : Sound D b c w) {a : Word} (on : c.s.disarmed = true)
    (image : ImageBlock D c.writeSlot a) (erased : w.blkErased (a.toNat / D.block) = true) :
    Sound D b (c.bitmapMark D a) w :=
  { h with
    bitmap := by
      change (List.modify _ _ _).length = _
      rw [List.length_modify]
      exact h.bitmap
    bits := fun k set => by
      rcases (bitmapBit_modify _ _ _).mp set with ⟨rfl, _⟩ | old
      · refine ⟨(h.armed on).1, ?_⟩
        change w.blkErased (D.base c.writeSlot / D.block + _) = true
        rw [block_index h.slot image.low]
        exact erased
      · exact h.bits k old
    fresh := fun fresh => (h.fresh fresh).recast rfl rfl rfl rfl rfl (h.fresh fresh).start
    run := fun session run => (h.run session run).recast rfl rfl rfl rfl rfl rfl }

theorem Sound.fold (h : Sound D b c w) {data : List Byte} (on : c.s.disarmed = true)
    (chunk : ImageChunk D c c.s.expectedNext data)
    (settled : Nor.Settled w.flash c.s.expectedNext.toNat data) :
    Sound D b (c.streamFold c.s.expectedNext (BitVec.ofNat 32 data.length) data) w := by
  have small := chunk.small
  simp only [maxWriteData] at small
  have len : (BitVec.ofNat 32 data.length).toNat = data.length := by
    rw [BitVec.toNat_ofNat, Nat.mod_eq_of_lt (by omega)]
  have high := chunk.high
  have limit := recordAt_bound (D := D) h.slot
  -- the cursor stays below the record, so it does not wrap
  have next : (c.s.expectedNext + BitVec.ofNat 32 data.length).toNat =
      c.s.expectedNext.toNat + data.length := by
    rw [BitVec.toNat_add, len, Nat.mod_eq_of_lt (by omega)]
  have low := chunk.low
  refine ⟨h.slot, h.active, h.bitmap, h.bits, h.armed, h.untouched, fun fresh => ?_, h.newest,
    fun session => ?_, fun session run => ?_⟩
  · have invalid := (h.armed on).1
    change c.recState = .fresh at fresh
    rw [invalid] at fresh
    cases fresh
  · change _ ≤ (c.s.expectedNext + _).toNat ∧ (c.s.expectedNext + _).toNat ≤ _
    rw [next]
    exact ⟨(h.cursor session).1.trans (Nat.le_add_right _ _), high⟩
  · have exact_run := h.run session run
    refine ⟨?_, fun _ => ⟨low, ?_, ?_, ?_⟩⟩
    · change crc32Update crc32Init (w.flash.bytes (D.base c.writeSlot)
        ((c.s.expectedNext + _).toNat - D.base c.writeSlot)) = crc32Update c.s.crcState data
      have sum : c.s.expectedNext.toNat + data.length - D.base c.writeSlot =
          (c.s.expectedNext.toNat - D.base c.writeSlot) + data.length := by omega
      have read : w.flash.bytes c.s.expectedNext.toNat data.length = data := settled.read
      rw [next, sum, Flash.bytes_add, crc32Update_append, exact_run.crc, Nat.add_sub_cancel' low,
        read]
    · change _ + (BitVec.ofNat 32 data.length).toNat = (c.s.expectedNext + _).toNat
      rw [next, len]
      rfl
    · change (BitVec.ofNat 32 data.length).toNat ≤ (data ++ _).length
      rw [len, List.length_append]
      omega
    · change Nor.Settled w.flash _ ((data ++ _).take (BitVec.ofNat 32 data.length).toNat)
      rw [len, List.take_left]
      exact settled

/-- The role flip: the slot just committed holds the newest record, and the
    other slot is ready for a new session. -/
theorem Sound.commit (h : Sound D b c w) {len crc : Word}
    (sealing : Sealing D buf c₀ w₀ c w.flash len crc)
    (record : recordOn D w.flash c.writeSlot = some (nextRecord c len crc)) :
    Sound D b (c.recordNoteCommitted D len crc (c.highestGen + 1)) w where
  slot := h.slot.other
  active := .inr (otherSlot_otherSlot _).symm
  bitmap := List.length_replicate
  bits := fun b set => by
    simp only [Core.recordNoteCommitted, bitmapBit_replicate] at set
    cases set
  armed := fun on => by cases on
  untouched := fun flash => by cases flash
  fresh := fun _ => by
    refine ⟨(otherSlot_otherSlot _).symm, ⟨_, record, rfl, rfl, rfl⟩, fun r found => ?_, rfl⟩
    -- the slot to be written next was bounded by the counter before it moved on
    have old := h.newest r found
    have step := sealing.nonzero
    change r.generation < c.highestGen + 1
    bv_omega
  newest := fun r found => by
    change recordOn D w.flash (otherSlot (otherSlot c.writeSlot)) = some r at found
    rw [otherSlot_otherSlot, record] at found
    obtain rfl := Option.some.inj found
    exact BitVec.le_refl _
  cursor := fun _ => ⟨Nat.le_refl _, (D.base_lt_recordAt h.slot.other).le⟩
  run := fun _ _ => .empty rfl rfl rfl

theorem Sound.stay (h : Sound D b c w) : Sound D b { c with bootreq := bootreqMagic } w :=
  { h with
    fresh := fun fresh => (h.fresh fresh).recast rfl rfl rfl rfl rfl (h.fresh fresh).start
    run := fun session run => (h.run session run).recast rfl rfl rfl rfl rfl rfl }

/-- Every RAM step keeps the state sound. -/
theorem Sound.ram (h : Sound D b c w) (step : RamStep D buf c₀ w₀ w c c') : Sound D b c' w := by
  cases step with
  | opened => exact h.sessionOpen
  | kept => exact h
  | poisoned => exact h.poison
  | distrusted => exact h.distrust
  | disarmed invalid erased => exact h.setDisarmed fun _ => ⟨invalid, erased⟩
  | marked on image erased => exact h.mark on image erased
  | folded on chunk here settled =>
    subst here
    exact h.fold on chunk settled
  | failed _ => exact h.setDisarmed fun on => by cases on
  | committed _ sealing record => exact h.commit sealing record
  | stayed => exact h.stay

def Core.started (D : Device) (f : Flash) (bootreq : Word) : Core :=
  { Core.bss D bootreq with
    highestGen := highestOn D f
    activeSlot := selectOn D f
    writeSlot := if selectOn D f = slotNone then slotA else otherSlot (selectOn D f) }

theorem sound_started (D : Device) (f : Flash) (bootreq : Word) :
    Sound D b (Core.started D f bootreq) (.reset f) where
  slot := by
    unfold Core.started
    rcases selectOn_isSlot D f with none | isSlot
    · simp only [none, if_true]
      exact .inl rfl
    · simp only [isSlot.ne_none, if_false]
      exact isSlot.other
  active := by
    unfold Core.started
    rcases selectOn_isSlot D f with none | isSlot
    · exact .inl none
    · simp only [isSlot.ne_none, if_false, otherSlot_otherSlot, or_true]
  bitmap := List.length_replicate
  bits := fun b set => by
    simp only [Core.started, Core.bss, Session.zero, bitmapBit_replicate] at set
    cases set
  armed := fun on => by cases on
  untouched := fun _ => rfl
  fresh := fun fresh => by cases fresh
  newest := fun _ found => generation_le_highestOn found
  cursor := fun session => by cases session
  run := fun session => by cases session

end OpenBoot
