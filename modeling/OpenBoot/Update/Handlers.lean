import OpenBoot.Update.Soundness

/-! The handlers follow the discipline: one lemma for each, from any sound state
and for any answers of the part. -/

set_option autoImplicit false

namespace OpenBoot

open Semantics Program

variable {D : Device} {buf : List Byte} {c c₀ : Core} {w w₀ : World} {b : Bool}

section
variable {A : Type} {p : Code A} {ask : PortOp → Prop} {want : A → Prop} {lo hi : Nat}
  {C : Contract port Core World} {post : A → Core → World → Prop}

theorem Reads.silent {op : PortOp} {x : Word} {w' : World} (reads : Reads lo hi op)
    (step : PortStep D w op x w') : w' = w := by
  cases op with
  | xipRead32 a => exact step.read_inv.1
  | _ => exact reads.elim

theorem wp_coherent (queries : p.Queries ask want) (reads : ∀ op, ask op → Reads lo hi op)
    (coherent : Coherent D w) (allowed : ∀ op, ask op → C.op c w op)
    (result : post (onFlash D w.flash p) c w) : p.wp (portEnv D) C post c w := by
  refine wp_queries_answer queries (fun op x w' asked step => ?_) allowed (.bss D 0) result
  refine ⟨?_, (reads op asked).silent step⟩
  cases op with
  | xipRead32 a =>
    obtain ⟨_, g, view, rfl⟩ := PortStep.read_inv step
    rw [coherent g view]
    rfl
  | _ => exact (reads _ asked).elim

theorem wp_stale (queries : p.Queries ask want) (reads : ∀ op, ask op → Reads lo hi op)
    (allowed : ∀ op, ask op → C.op c w op) (all : ∀ a, want a → post a c w) :
    p.wp (portEnv D) C post c w :=
  wp_queries queries (fun op _ _ asked step => (reads op asked).silent step) allowed all

end

theorem readRangeOk_spec {addr len : Word} (h : readRangeOk D addr len = true) :
    D.flashAppStart.toNat ≤ addr.toNat ∧ addr.toNat + len.toNat ≤ D.appEnd.toNat := by
  simp only [readRangeOk, decide_eq_true_eq] at h
  obtain ⟨low, below, _, room⟩ := h
  have stop := D.appEnd.isLt
  constructor
  · exact BitVec.le_def.mp low
  · bv_omega

theorem writeRangeOk_spec (slot : IsSlot c.writeSlot) {addr len : Word}
    (h : writeRangeOk D c addr len = true) :
    D.Fits c.writeSlot ∧ 0 < len.toNat ∧ D.base c.writeSlot ≤ addr.toNat ∧
      addr.toNat + len.toNat ≤ D.recordAt c.writeSlot := by
  simp only [writeRangeOk, decide_eq_true_eq] at h
  obtain ⟨fits, low, below, nonzero, room⟩ := h
  have cap := D.capacity_eq slot fits
  have limit := recordAt_bound (D := D) slot
  unfold Device.base at cap ⊢
  refine ⟨fits, ?_, BitVec.le_def.mp low, ?_⟩
  · bv_omega
  · bv_omega

@[simp] theorem answeredOk_okResp (cmd seq : Byte) : AnsweredOk (okResp cmd seq) :=
  ⟨okResp_ne_nil _ _, rfl⟩

theorem not_answeredOk_errResp {status : Byte} (bad : status ≠ ok) (cmd seq detail : Byte) :
    ¬ AnsweredOk (errResp cmd seq status detail) := fun answered => bad answered.2

theorem Ending.refused {status : Byte} (bad : status ≠ ok) (cmd seq detail : Byte) :
    Ending D buf c₀ w₀ (errResp cmd seq status detail) .none c₀ w₀ :=
  .kept fun _ => not_answeredOk_errResp bad cmd seq detail

theorem Ending.driver {cmd seq : Byte} {op : PortOp} {x : Word} {w' : World}
    (ops : w'.ops = (op, x) :: w.ops) (fail : x ≠ 0) (grown : w₀.ops.length ≤ w.ops.length)
    (commit : commitOf buf = none) (slot : c.writeSlot = c₀.writeSlot)
    (bootreq : c.bootreq = c₀.bootreq) :
    Ending D buf c₀ w₀ (errResp cmd seq eFlash (x.setWidth 8)) .none c w' :=
  .failed rfl ops fail (fun zero => zero) grown
    (fun request => absurd request (not_requested commit)) slot bootreq

/-- The state in which image commands are allowed. -/
structure Armed (D : Device) (b : Bool) (c : Core) (w : World) (c' : Core) (w' : World) : Prop where
  sound : Sound D b c' w'
  session : c'.s = { c.s with disarmed := true }
  slot : c'.writeSlot = c.writeSlot
  bootreq : c'.bootreq = c.bootreq
  ops : w.ops.length ≤ w'.ops.length

theorem mutationBegin_wp {post : Word → Core → World → Prop}
    (h : Sound D (commitOf buf).isSome c w) (slot : c.writeSlot = c₀.writeSlot)
    (fits : D.Fits c.writeSlot) (same : c.recState = c₀.recState)
    (why : c₀.recState = .fresh → AcceptsErase D c₀ buf ∨ D.crcLive = true)
    (armed : ∀ c' w', Armed D (commitOf buf).isSome c w c' w' → post 0 c' w')
    (stuck : ∀ op x w', x ≠ 0 → w'.ops = (op, x) :: w.ops → post x c.recordBeginWrite w') :
    (mutationBegin D).wp (portEnv D) (discipline D buf c₀ w₀) post c w := by
  unfold mutationBegin
  simp only [wp_bind, wp_get, wp_ite, wp_pure, wp_modify]
  constructor
  -- a later mutation of the session finds the record invalidated
  · intro on
    refine armed c w ⟨h, ?_, rfl, rfl, Nat.le_refl _⟩
    rw [← on]
  · intro off
    refine ⟨.distrusted same why, ?_⟩
    have distrusted := h.distrust
    have cmd : Command D buf c₀ w₀ c.recordBeginWrite w
        (.flashErase (D.slotRecordAddr c.recordBeginWrite.writeSlot) D.eraseBlock) :=
      .disarm rfl (.inl (Bool.eq_false_of_not_eq_true off))
    refine ⟨.command slot fits cmd, fun x w' step => ?_⟩
    have ops := PortStep.ops step rfl
    constructor
    · rintro rfl
      have sound := distrusted.command cmd step
      have erased : recordErased D w'.flash c.recordBeginWrite.writeSlot :=
        (PortStep.erase_ok step).1
      have disarm : RamStep D buf c₀ w₀ w' c.recordBeginWrite
          (c.recordBeginWrite.setDisarmed true) :=
        .disarmed rfl erased
      refine ⟨disarm, armed _ _ ⟨sound.ram disarm, rfl, rfl, rfl, ?_⟩⟩
      rw [ops]
      exact Nat.le_succ _
    · exact fun fail => stuck _ x w' fail ops

theorem eraseLoop_wp {seq : Byte} (commit : commitOf buf = none) (fits : D.Fits c₀.writeSlot)
    {l : List Word} (h : Sound D (commitOf buf).isSome c w) (on : c.s.disarmed = true)
    (slot : c.writeSlot = c₀.writeSlot) (bootreq : c.bootreq = c₀.bootreq)
    (blocks : ∀ a ∈ l, ImageBlock D c₀.writeSlot a)
    (ahead : c.s.stream = .run → ∀ a ∈ l, c.s.expectedNext.toNat ≤ a.toNat)
    (grown : w₀.ops.length ≤ w.ops.length) (some : l = [] → w₀.ops.length < w.ops.length) :
    (eraseLoop D seq l).wp (portEnv D) (discipline D buf c₀ w₀)
      (fun resp c w => Ending D buf c₀ w₀ resp .none c w) c w := by
  -- on the blocks left; a failure leaves those before it erased and marked
  induction l generalizing c w with
  | nil => exact .changed commit (answeredOk_okResp _ _) slot bootreq (some rfl)
  | cons a rest ih =>
    have image : ImageBlock D c.writeSlot a := slot ▸ blocks a List.mem_cons_self
    have cmd : Command D buf c₀ w₀ c w (.flashErase a D.eraseBlock) :=
      .eraseImage on commit image fun run => ahead run a List.mem_cons_self
    unfold eraseLoop
    simp only [wp_bind, wp_ite, wp_pure, wp_modify]
    refine ⟨.command slot (slot ▸ fits) cmd, fun x w' step => ⟨fun fail => ?_, fun good => ?_⟩⟩
    · exact .driver (PortStep.ops step rfl) fail grown commit slot bootreq
    · obtain rfl : x = 0 := not_not.mp good
      have sound := h.command cmd step
      have erased : w'.blkErased (a.toNat / D.block) = true := (PortStep.erase_ok step).2
      have mark : RamStep D buf c₀ w₀ w' c (c.bitmapMark D a) := .marked on image erased
      have longer : w₀.ops.length < w'.ops.length := by
        rw [PortStep.ops step rfl]
        exact Nat.lt_succ_of_le grown
      refine ⟨mark, ih (sound.ram mark) on slot bootreq
        (fun a mem => blocks a (List.mem_cons_of_mem _ mem))
        (fun run a mem => ahead run a (List.mem_cons_of_mem _ mem)) longer.le fun _ => longer⟩

theorem ram_streamNoteErase (addr : Word) :
    RamStep D buf c₀ w₀ w c (Core.streamNoteErase addr c) := by
  unfold Core.streamNoteErase
  split
  · exact .poisoned
  · exact .kept

theorem word_dvd {a n : Word} (h : a % n = 0) : n.toNat ∣ a.toNat := by
  have whole := congrArg BitVec.toNat h
  rw [BitVec.toNat_umod] at whole
  exact Nat.dvd_of_mod_eq_zero whole

theorem doErase_wp {pl : List Byte} {n : Nat} {seq : Byte} (h : Sound D false c₀ w₀)
    (commit : commitOf buf = none) (session : c₀.s.session = true)
    (request : n = 8 → eraseOf buf = some (get32 pl, get32 (pl.drop 4))) :
    (doErase D pl n seq).wp (portEnv D) (discipline D buf c₀ w₀)
      (fun resp c w => Ending D buf c₀ w₀ resp .none c w) c₀ w₀ := by
  unfold doErase
  simp only [wp_ite, wp_pure, wp_bind, wp_get, wp_modify]
  refine ⟨fun _ => .refused (by decide) _ _ _, fun long => ⟨fun _ => .refused (by decide) _ _ _,
    fun whole => ⟨fun _ => .refused (by decide) _ _ _, fun range => ⟨ram_streamNoteErase _, ?_⟩⟩⟩⟩
  generalize at_addr : get32 pl = addr at *
  generalize at_len : get32 (pl.drop 4) = len at *
  have erase := request (not_not.mp long)
  obtain ⟨aligned, whole_len⟩ := not_or.mp whole
  have aligned := not_not.mp aligned
  have whole_len := not_not.mp whole_len
  have in_range : writeRangeOk D c₀ addr len = true := by simpa using range
  obtain ⟨fits, nonempty, low, high⟩ := writeRangeOk_spec h.slot in_range
  have limit := recordAt_bound (D := D) h.slot
  obtain ⟨k, turns⟩ := word_dvd whole_len
  have note : RamStep D buf c₀ w₀ w₀ c₀ (Core.streamNoteErase addr c₀) := ram_streamNoteErase _
  have fields : (Core.streamNoteErase addr c₀).writeSlot = c₀.writeSlot ∧
      (Core.streamNoteErase addr c₀).bootreq = c₀.bootreq ∧
      (Core.streamNoteErase addr c₀).recState = c₀.recState ∧
      (Core.streamNoteErase addr c₀).s.expectedNext = c₀.s.expectedNext := by
    unfold Core.streamNoteErase
    split <;> exact ⟨rfl, rfl, rfl, rfl⟩
  -- a run that survives the note ends at or before the erase
  have guard : (Core.streamNoteErase addr c₀).s.stream = .run →
      c₀.s.expectedNext.toNat ≤ addr.toNat := by
    unfold Core.streamNoteErase
    split
    · exact fun run => by cases run
    · next ahead => exact fun _ => BitVec.le_def.mp (BitVec.not_lt.mp ahead)
  obtain ⟨slot, bootreq, recState, next⟩ := fields
  refine mutationBegin_wp (h.weaken.ram note) slot (slot ▸ fits) recState
    (fun _ => .inl ⟨session, addr, len, erase, aligned, whole_len, in_range⟩) ?_ ?_
  · intro c w armed
    have loop : forRange addr (addr + len) D.eraseBlock = strided addr D.eraseBlock k :=
      forRange_eq D.block_pos (by rw [turns, Nat.mul_comm]) (by omega)
    have product : len.toNat = k * D.block := by rw [turns, Nat.mul_comm]; rfl
    have each : ∀ a ∈ strided addr D.eraseBlock k,
        ∃ i, i < k ∧ a.toNat = addr.toNat + i * D.block :=
      fun a mem => mem_strided mem (by change _ + k * D.block < _; omega)
    refine ⟨fun fail => absurd rfl fail, fun _ => ?_⟩
    rw [loop]
    refine eraseLoop_wp commit fits armed.sound (by rw [armed.session]) (armed.slot.trans slot)
      (armed.bootreq.trans bootreq) (fun a mem => ?_) (fun run a mem => ?_) armed.ops ?_
    · obtain ⟨i, below, at_a⟩ := each a mem
      have room : (i + 1) * D.block ≤ k * D.block := Nat.mul_le_mul_right _ below
      rw [Nat.succ_mul] at room
      refine ⟨?_, by omega, by omega⟩
      rw [at_a]
      exact Nat.dvd_add (word_dvd aligned) (Nat.dvd_mul_left _ _)
    · obtain ⟨i, _, at_a⟩ := each a mem
      rw [armed.session] at run ⊢
      have := guard run
      simp only [next]
      omega
    · intro empty
      have := congrArg List.length empty
      simp only [strided, List.length_map, List.length_range, List.length_nil] at this
      rw [this, Nat.zero_mul] at product
      omega
  · intro op x w' fail ops
    exact ⟨fun _ => .driver ops fail (Nat.le_refl _) commit slot bootreq,
      fun good => absurd fail good⟩

theorem bitmapCovers_spec (slot : IsSlot c.writeSlot) {a len : Word}
    (covers : bitmapCovers D c a len = true) (low : D.base c.writeSlot ≤ a.toNat)
    (bound : a.toNat + len.toNat < 2 ^ 32) {x : Nat} (first : a.toNat ≤ x)
    (last : x < a.toNat + len.toNat) :
    ∃ b, bitmapBit c.s.bitmap b = true ∧ D.base c.writeSlot / D.block + b = x / D.block := by
  have top : (a + len - 1).toNat = a.toNat + len.toNat - 1 := by bv_omega
  have at_first := block_index (D := D) slot low
  have at_last := block_index (D := D) slot (a := a + len - 1) (by omega)
  rw [top] at at_last
  have below : a.toNat / D.block ≤ x / D.block := Nat.div_le_div_right first
  have above : x / D.block ≤ (a.toNat + len.toNat - 1) / D.block :=
    Nat.div_le_div_right (by omega)
  simp only [bitmapCovers, List.all_eq_true, List.mem_range'_1] at covers
  refine ⟨x / D.block - D.base c.writeSlot / D.block, covers _ ?_, ?_⟩ <;> omega

theorem ImageChunk.erased (h : Sound D b c w) {a : Word} {data : List Byte}
    (chunk : ImageChunk D c a data) {x : Nat} (first : a.toNat ≤ x)
    (last : x < a.toNat + data.length) :
    c.recState = .invalid ∧ w.blkErased (x / D.block) = true := by
  have limit := recordAt_bound (D := D) h.slot
  have small := chunk.small
  have high := chunk.high
  simp only [maxWriteData] at small
  have len : (BitVec.ofNat 32 data.length).toNat = data.length := by
    rw [BitVec.toNat_ofNat, Nat.mod_eq_of_lt (by omega)]
  obtain ⟨b, set, at_b⟩ := bitmapCovers_spec h.slot chunk.covered chunk.low (by omega) first
    (by rwa [len])
  rw [← at_b]
  exact h.bits b set

theorem ImageChunk.recast {a : Word} {data : List Byte} {c' : Core} (h : ImageChunk D c a data)
    (slot : c'.writeSlot = c.writeSlot) (bitmap : c'.s.bitmap = c.s.bitmap) :
    ImageChunk D c' a data where
  aligned := h.aligned
  words := h.words
  nonempty := h.nonempty
  small := h.small
  low := slot ▸ h.low
  high := slot ▸ h.high
  covered := by
    have covered := h.covered
    unfold bitmapCovers at covered ⊢
    rw [slot, bitmap]
    exact covered

/-- The classification poisons the run unless the chunk keeps it. -/
theorem keepsRun_of_class {a : Word} {data : List Byte} (len : data.length < 2 ^ 32) :
    KeepsRun (Core.noteClass (streamClassifyWrite c a (BitVec.ofNat 32 data.length) data) c)
      a data := by
  have toNat : (BitVec.ofNat 32 data.length).toNat = data.length := by
    rw [BitVec.toNat_ofNat, Nat.mod_eq_of_lt len]
  unfold streamClassifyWrite
  split
  · next here => exact fun _ => .inl here
  · split
    · next resend =>
      obtain ⟨addr, length, _, bytes⟩ := resend
      refine fun _ => .inr ⟨addr, ?_, ?_⟩
      · rw [← toNat, length]
        rfl
      · rw [toNat] at bytes
        exact bytes
    · exact fun run => by cases run

theorem streamClassifyWrite_fold {a len : Word} {data : List Byte}
    (h : streamClassifyWrite c a len data = .fold) : a = c.s.expectedNext := by
  unfold streamClassifyWrite at h
  split at h
  · assumption
  · split at h <;> cases h

theorem KeepsRun.recast {a : Word} {data : List Byte} {c' : Core} (h : KeepsRun c a data)
    (s : c'.s = { c.s with disarmed := true }) : KeepsRun c' a data := by
  intro run
  rw [s] at run
  rcases h run with here | resend
  · exact .inl (by rw [s]; exact here)
  · exact .inr ⟨by rw [s]; exact resend.addr, by rw [s]; exact resend.len,
      by rw [s]; exact resend.data⟩

theorem noteClass_keeps (cls : WriteClass) (c : Core) :
    (Core.noteClass cls c).writeSlot = c.writeSlot ∧ (Core.noteClass cls c).bootreq = c.bootreq ∧
      (Core.noteClass cls c).recState = c.recState ∧
      (Core.noteClass cls c).s.bitmap = c.s.bitmap ∧
      (Core.noteClass cls c).s.expectedNext = c.s.expectedNext := by
  cases cls <;> exact ⟨rfl, rfl, rfl, rfl, rfl⟩

theorem RamStep.note (cls : WriteClass) : RamStep D buf c₀ w₀ w c (Core.noteClass cls c) := by
  cases cls
  · exact .kept
  · exact .kept
  · exact .poisoned

theorem PortStep.settled {addr : Word} {data : List Byte} {w₁ w₂ : World}
    (wrote : PortStep D w (.flashWrite addr data) 0 w₁)
    (verified : PortStep D w₁ (.flashVerify addr data) 0 w₂) :
    Nor.Settled w₂.flash addr.toNat data := by
  have content : w₁.flash = programBytes w.flash addr data := PortStep.write_ok wrote
  have read : w₁.flash.bytes addr.toNat data.length = data := PortStep.verify_ok verified
  rw [PortStep.verify_inv verified]
  change Nor.Settled w₁.flash addr.toNat data
  rw [content] at read ⊢
  exact Nor.settled_of_read read

theorem imageChunk_of_checks (slot : IsSlot c.writeSlot) {addr : Word} {data : List Byte}
    (some : 4 ≤ data.length) (small : data.length ≤ maxWriteData) (words : data.length % 4 = 0)
    (aligned : addr % 4 = 0) (range : writeRangeOk D c addr (BitVec.ofNat 32 data.length) = true)
    (covered : bitmapCovers D c addr (BitVec.ofNat 32 data.length) = true) :
    ImageChunk D c addr data := by
  obtain ⟨_, _, low, high⟩ := writeRangeOk_spec slot range
  have bound : data.length < 2 ^ 32 := by
    simp only [maxWriteData] at small
    omega
  rw [BitVec.toNat_ofNat, Nat.mod_eq_of_lt bound] at high
  exact ⟨word_dvd aligned, Nat.dvd_of_mod_eq_zero words, by omega, small, low, high, covered⟩

theorem programChunk_wp (cls : WriteClass) (seq : Byte) {addr : Word} {data : List Byte}
    (commit : commitOf buf = none) (on : c.s.disarmed = true) (chunk : ImageChunk D c addr data)
    (keeps : KeepsRun c addr data) (slot : c.writeSlot = c₀.writeSlot) (fits : D.Fits c₀.writeSlot)
    (bootreq : c.bootreq = c₀.bootreq) (ops : w₀.ops.length ≤ w.ops.length)
    (here : cls = .fold → addr = c.s.expectedNext) :
    (do
      let r ← flashWrite addr data
      if r ≠ 0 then return errResp cmdWrite seq eFlash (r.setWidth 8)
      let r ← flashVerify addr data
      if r ≠ 0 then return errResp cmdWrite seq eFlash (r.setWidth 8)
      if cls = .fold then
        modify (Core.streamFold addr (BitVec.ofNat 32 data.length) data)
        return okResp cmdWrite seq
      return okResp cmdWrite seq : Code (List Byte)).wp (portEnv D) (discipline D buf c₀ w₀)
      (fun resp c w => Ending D buf c₀ w₀ resp .none c w) c w := by
  simp only [wp_ite, wp_pure, wp_bind, wp_modify]
  have write : Command D buf c₀ w₀ c w (.flashWrite addr data) := .writeImage on commit chunk keeps
  refine ⟨.command slot (slot ▸ fits) write, fun x w₁ wrote => ⟨fun fail => ?_, fun good => ?_⟩⟩
  · exact .driver (PortStep.ops wrote rfl) fail ops commit slot bootreq
  obtain rfl : x = 0 := not_not.mp good
  have verify : Command D buf c₀ w₀ c w₁ (.flashVerify addr data) := .verifyImage on chunk
  have longer : w₀.ops.length ≤ w₁.ops.length := by
    rw [PortStep.ops wrote rfl]
    exact ops.trans (Nat.le_succ _)
  refine ⟨.command slot (slot ▸ fits) verify, fun x w₂ verified => ⟨fun fail => ?_, fun good => ?_⟩⟩
  · exact .driver (PortStep.ops verified rfl) fail longer commit slot bootreq
  obtain rfl : x = 0 := not_not.mp good
  -- a chunk that is answered was programmed and verified: two commands more
  have longer₂ : w₀.ops.length < w₂.ops.length := by
    rw [PortStep.ops verified rfl]
    exact Nat.lt_succ_of_le longer
  have ends {c' : Core} (same_slot : c'.writeSlot = c.writeSlot) (same_bootreq : c'.bootreq = c.bootreq) :
      Ending D buf c₀ w₀ (okResp cmdWrite seq) .none c' w₂ :=
    .changed commit (answeredOk_okResp _ _) (same_slot.trans slot) (same_bootreq.trans bootreq) longer₂
  exact ⟨fun fold => ⟨.folded on chunk (here fold) (wrote.settled verified), ends rfl rfl⟩,
    fun _ => ends rfl rfl⟩

theorem doWrite_wp {pl : List Byte} {n : Nat} {seq : Byte} (h : Sound D false c₀ w₀)
    (commit : commitOf buf = none) (payload : n ≤ pl.length) :
    (doWrite D pl n seq).wp (portEnv D) (discipline D buf c₀ w₀)
      (fun resp c w => Ending D buf c₀ w₀ resp .none c w) c₀ w₀ := by
  unfold doWrite
  simp only [wp_ite, wp_pure, wp_bind, wp_get, wp_modify]
  refine ⟨fun _ => .refused (by decide) _ _ _, fun sizes => ⟨fun _ => .refused (by decide) _ _ _,
    fun aligned => ⟨fun _ => .refused (by decide) _ _ _, fun range =>
      ⟨fun _ => .refused (by decide) _ _ _, fun covered => ?_⟩⟩⟩⟩
  generalize at_addr : get32 pl = addr at *
  obtain ⟨long, sizes⟩ := not_or.mp sizes
  obtain ⟨small, words⟩ := not_or.mp sizes
  generalize at_data : (pl.drop 4).take (n - 4) = data at *
  have size : data.length = n - 4 := by
    rw [← at_data, List.length_take, List.length_drop]
    omega
  rw [← size] at small words covered range ⊢
  have small := Nat.not_lt.mp small
  have chunk₀ : ImageChunk D c₀ addr data := imageChunk_of_checks h.slot (by omega) small
    (not_not.mp words) (not_not.mp aligned) (by simpa using range) (by simpa using covered)
  -- a covered chunk needs a marked block, which a fresh COMMIT does not leave
  have some := chunk₀.nonempty
  have mutated : c₀.recState = .invalid := (chunk₀.erased h (Nat.le_refl _) (by omega)).1
  have fits := (writeRangeOk_spec h.slot (by simpa using range)).1
  generalize at_class : streamClassifyWrite c₀ addr (BitVec.ofNat 32 data.length) data = cls
  have keeps : KeepsRun (Core.noteClass cls c₀) addr data := by
    rw [← at_class]
    simp only [maxWriteData] at small
    exact keepsRun_of_class (by omega)
  obtain ⟨slot, bootreq, recState, bitmap, next⟩ := noteClass_keeps cls c₀
  have note : RamStep D buf c₀ w₀ w₀ c₀ (Core.noteClass cls c₀) := .note cls
  refine ⟨note, mutationBegin_wp (h.weaken.ram note) slot (slot ▸ fits) recState
    (fun fresh => by rw [mutated] at fresh; cases fresh) ?_ ?_⟩
  · intro c w armed
    have same_slot := armed.slot.trans slot
    refine ⟨fun fail => absurd rfl fail, fun _ => ?_⟩
    have programmed := programChunk_wp cls seq commit
      (by rw [armed.session]) (chunk₀.recast same_slot (by rw [armed.session]; exact bitmap))
      (keeps.recast armed.session) same_slot fits (armed.bootreq.trans bootreq) armed.ops
      (fun fold => by
        rw [armed.session]
        exact (streamClassifyWrite_fold (at_class.trans fold)).trans next.symm)
    simp only [wp_ite, wp_pure, wp_bind, wp_modify] at programmed
    exact programmed
  · intro op x w' fail ops
    exact ⟨fun _ => .driver ops fail (Nat.le_refl _) commit slot bootreq,
      fun good => absurd fail good⟩

theorem doCrc_wp {pl : List Byte} {n : Nat} {seq : Byte} (commit : commitOf buf = none) :
    (doCrc D pl n seq).wp (portEnv D) (discipline D buf c₀ w₀)
      (fun resp c w => Ending D buf c₀ w₀ resp .none c w) c₀ w₀ := by
  unfold doCrc
  simp only [wp_ite, wp_pure, wp_bind]
  refine ⟨fun _ => .refused (by decide) _ _ _, fun _ => ⟨fun _ => .refused (by decide) _ _ _,
    fun whole => ⟨fun _ => .refused (by decide) _ _ _, fun range => ?_⟩⟩⟩
  obtain ⟨low, high⟩ := readRangeOk_spec (D := D) (by simpa using range)
  have whole_len := not_not.mp (not_or.mp whole).2
  have stop := D.appEnd.isLt
  -- what CRC reports may be stale; nothing depends on it
  refine wp_stale (xipCrc32_queries whole_len (by omega)) (fun _ reads => reads)
    (fun op reads => .look (reads.mono low high)) fun crc _ => ?_
  exact .kept fun request => absurd request (not_requested commit)

theorem doHello_wp {pl : List Byte} {n : Nat} {seq : Byte} (commit : commitOf buf = none) :
    (doHello D pl n seq).wp (portEnv D) (discipline D buf c₀ w₀)
      (fun resp c w => Ending D buf c₀ w₀ resp .none c w) c₀ w₀ := by
  unfold doHello
  simp only [wp_ite, wp_pure, wp_bind, wp_get, wp_modify]
  exact ⟨fun _ => .refused (by decide) _ _ _, fun _ => ⟨fun _ => .refused (by decide) _ _ _,
    fun _ => ⟨fun _ => .refused (by decide) _ _ _, fun _ =>
      ⟨.opened, .opened commit ⟨finish_ne_nil _ _ _, rfl⟩⟩⟩⟩⟩

end OpenBoot
