import OpenBoot.Core.Outcomes
import OpenBoot.Update.Bench
import OpenBoot.Update.Ledger

/-! The erase bitmap is exact: a bit is set for every block the erase loop has erased
since the session was armed last, and for no other. -/

set_option autoImplicit false

namespace OpenBoot

open Semantics Program

variable {D : Device} {c c' : Core} {w w' : World} {slot a : Word} {b : Nat} {seen : List Word}
  {buf resp pl : List Byte} {es : List (Event port)} {n : Nat} {seq : Byte}

def Device.blockOf (D : Device) (slot a : Word) : Nat :=
  ((a - D.slotBase slot) / D.eraseBlock).toNat

theorem blockOf_eq (low : D.base slot ≤ a.toNat) :
    D.blockOf slot a = (a.toNat - D.base slot) / D.block := by
  unfold Device.blockOf
  rw [BitVec.toNat_udiv, BitVec.toNat_sub_of_le (BitVec.le_def.mpr low)]
  rfl

theorem bitmap_room {x : Nat} (isSlot : IsSlot slot) (low : D.base slot ≤ x)
    (high : x < D.recordAt slot) : (x - D.base slot) / D.block / 8 < D.bitmapBytes := by
  have top := D.recordAt_add isSlot
  obtain ⟨k, blocks⟩ : D.block ∣ D.slotSize.toNat := Nat.dvd_of_mod_eq_zero D.slot_aligned
  have whole : D.slotSize.toNat / D.eraseBlock.toNat = k := by
    rw [blocks]
    exact Nat.mul_div_cancel_left _ D.block_pos
  have below : (x - D.base slot) / D.block < k := Nat.div_lt_of_lt_mul (by omega)
  unfold Device.bitmapBytes
  rw [whole]
  omega

/-- The bitmap holds exactly the blocks of these addresses. -/
def Marks (D : Device) (c : Core) (seen : List Word) : Prop :=
  ∀ b, bitmapBit c.s.bitmap b = true ↔ ∃ a ∈ seen, D.blockOf c.writeSlot a = b

namespace Marks

theorem blank (zero : c.s.bitmap = List.replicate D.bitmapBytes 0) : Marks D c [] := by
  intro b
  rw [zero, bitmapBit_replicate]
  simp

theorem recast (h : Marks D c seen) (bitmap : c'.s.bitmap = c.s.bitmap)
    (slot : c'.writeSlot = c.writeSlot) : Marks D c' seen := by
  intro b
  rw [bitmap, slot]
  exact h b

theorem mark (h : Marks D c seen) (inside : D.blockOf c.writeSlot a / 8 < c.s.bitmap.length) :
    Marks D (c.bitmapMark D a) (seen ++ [a]) := by
  intro b
  have bit := bitmapBit_modify c.s.bitmap (D.blockOf c.writeSlot a) b
  simp only [List.mem_append, List.mem_singleton]
  constructor
  · intro set
    rcases bit.mp set with ⟨rfl, -⟩ | old
    · exact ⟨a, .inr rfl, rfl⟩
    · obtain ⟨x, mem, block⟩ := (h b).mp old
      exact ⟨x, .inl mem, block⟩
  · rintro ⟨x, mem | rfl, block⟩
    · exact bit.mpr (.inr ((h b).mpr ⟨x, mem, block⟩))
    · exact bit.mpr (.inl ⟨block.symm, inside⟩)

theorem loop {done : List Word} (h : Marks D c seen)
    (inside : ∀ a ∈ done, D.blockOf c.writeSlot a / 8 < c.s.bitmap.length) :
    Marks D (done.foldl (fun c a => c.bitmapMark D a) c) (seen ++ done) := by
  induction done generalizing c seen with
  | nil =>
    rw [List.append_nil]
    exact h
  | cons a rest ih =>
    rw [List.append_cons]
    refine ih (h.mark (inside a List.mem_cons_self)) fun x mem => ?_
    have size : (c.bitmapMark D a).s.bitmap.length = c.s.bitmap.length := List.length_modify ..
    rw [size]
    exact inside x (List.mem_cons_of_mem _ mem)

end Marks

/-- The address of a block that the loop of this ERASE has erased. -/
def loopErase (addr len : Word) : Event port → Option Word
  | ⟨.flashErase a _, x⟩ => if x = (0 : Word) ∧ addr ≤ a ∧ a < addr + len then some a else none
  | _ => none

namespace Served

def erased (f : Served) : List Word :=
  match eraseOf f.buf with
  | some (addr, len) => f.es.filterMap (loopErase addr len)
  | none => []

def opened (f : Served) : Prop :=
  (operandsOf cmdHello helloReqLen f.buf).isSome ∧ AnsweredOk f.resp

/-- A COMMIT that stored a record, as opposed to a replay. -/
def stored (f : Served) : Prop :=
  (commitOf f.buf).isSome ∧ AnsweredOk f.resp ∧ f.es.any (fun e => PortOp.isFlash e.op) = true

instance (f : Served) : Decidable f.opened := inferInstanceAs (Decidable (_ ∧ _))

instance (f : Served) : Decidable f.stored := inferInstanceAs (Decidable (_ ∧ _))

end Served

def erasedNext (seen : List Word) (f : Served) : List Word :=
  if f.opened ∨ f.stored then [] else seen ++ f.erased

/-- The blocks erased since the last frame that armed the session. -/
def erasedSince (log : List Served) : List Word := log.foldl erasedNext []

theorem erasedSince_snoc (log : List Served) (f : Served) :
    erasedSince (log ++ [f]) = erasedNext (erasedSince log) f := by
  unfold erasedSince
  rw [List.foldl_append]
  rfl

theorem loopErase_read {e : Event port} (addr len : Word) (read : PortOp.isFlash e.op = false) :
    loopErase addr len e = none := by
  obtain ⟨op, x⟩ := e
  cases op with
  | xipRead32 => rfl
  | _ => cases read

namespace Served

variable {f : Served}

theorem erased_of_none (none : eraseOf f.buf = none) : f.erased = [] := by
  unfold erased
  rw [none]

theorem erased_of_reads (reads : ∀ e ∈ f.es, PortOp.isFlash e.op = false) : f.erased = [] := by
  unfold erased
  split
  · exact List.filterMap_eq_nil_iff.mpr fun e mem => loopErase_read _ _ (reads e mem)
  · rfl

theorem not_armed (bad : ¬ AnsweredOk f.resp) : ¬ (f.opened ∨ f.stored) := by
  rintro (opened | stored)
  · exact bad opened.2
  · exact bad stored.2.1

theorem not_opened {q : Request} (decoded : decodeFrame f.buf = .ok q) (other : q.cmd ≠ cmdHello) :
    ¬ f.opened := by
  rintro ⟨asked, -⟩
  rw [operandsOf_of_ne decoded _ other] at asked
  cases asked

theorem not_stored {q : Request} (decoded : decodeFrame f.buf = .ok q) (other : q.cmd ≠ cmdCommit) :
    ¬ f.stored := by
  rintro ⟨asked, -⟩
  rw [commitOf_of_ne decoded other] at asked
  cases asked

theorem next_quiet (unarmed : ¬ (f.opened ∨ f.stored)) (none : f.erased = []) :
    erasedNext seen f = seen := by
  unfold erasedNext
  rw [if_neg unarmed, none, List.append_nil]

end Served

/-! ### Serving a frame -/

variable {E : Environment port World}

theorem ErasePasses.block (passes : ErasePasses D c pl n) (isSlot : IsSlot c.writeSlot)
    (mem : a ∈ forRange (get32 pl) (get32 pl + get32 (pl.drop 4)) D.eraseBlock) :
    get32 pl ≤ a ∧ a < get32 pl + get32 (pl.drop 4) ∧ D.base c.writeSlot ≤ a.toNat ∧
      a.toNat < D.recordAt c.writeSlot := by
  obtain ⟨_, _, low, high⟩ := writeRangeOk_spec isSlot passes.inside
  obtain ⟨k, turns⟩ := word_dvd passes.aligned.2
  have limit := recordAt_bound (D := D) isSlot
  generalize get32 pl = addr at *
  generalize get32 (pl.drop 4) = len at *
  have turns : len.toNat = k * D.eraseBlock.toNat := by rw [turns, Nat.mul_comm]
  rw [forRange_eq D.block_pos turns (by omega)] at mem
  obtain ⟨i, below, at_a⟩ := mem_strided mem (by omega)
  have inside : i * D.eraseBlock.toNat < k * D.eraseBlock.toNat :=
    Nat.mul_lt_mul_of_pos_right below D.block_pos
  have stop : (addr + len).toNat = addr.toNat + len.toNat := by
    rw [BitVec.toNat_add, Nat.mod_eq_of_lt (by omega)]
  refine ⟨?_, ?_, ?_, ?_⟩
  · rw [BitVec.le_def]
    omega
  · rw [BitVec.lt_def]
    omega
  · omega
  · omega

theorem filterMap_loop {addr len : Word} {done : List Word}
    (inside : ∀ a ∈ done, addr ≤ a ∧ a < addr + len) :
    (done.map (erasedEvent D)).filterMap (loopErase addr len) = done := by
  induction done with
  | nil => rfl
  | cons a rest ih =>
    have first : loopErase addr len (erasedEvent D a) = some a :=
      if_pos ⟨rfl, inside a List.mem_cons_self⟩
    rw [List.map_cons, List.filterMap_cons, first]
    simp [ih fun x mem => inside x (List.mem_cons_of_mem _ mem)]

theorem Marks.begin {r addr len : Word} (h : Marks D c seen)
    (run : (mutationBegin D).Exec E c w es r c' w') (isSlot : IsSlot c.writeSlot)
    (below : (addr + len).toNat ≤ D.recordAt c.writeSlot) :
    Marks D c' seen ∧ c'.writeSlot = c.writeSlot ∧ c'.s.bitmap = c.s.bitmap ∧
      es.filterMap (loopErase addr len) = [] := by
  rcases mutationBegin_exec run with ⟨-, -, rfl, rfl, -⟩ | ⟨-, rfl, -, rfl⟩
  · exact ⟨h, rfl, rfl, rfl⟩
  · have outside : loopErase addr len ⟨disarmOp D c, r⟩ = none := by
      refine if_neg fun ⟨_, _, high⟩ => ?_
      have high := BitVec.lt_def.mp high
      change D.recordAt c.writeSlot < _ at high
      omega
    have none : [(⟨disarmOp D c, r⟩ : Event port)].filterMap (loopErase addr len) = [] := by
      rw [List.filterMap_cons, outside]
      rfl
    split
    · exact ⟨h.recast rfl rfl, rfl, rfl, none⟩
    · exact ⟨h.recast rfl rfl, rfl, rfl, none⟩

theorem Marks.erase (h : Marks D c seen) (sound : Sound D false c w)
    (run : (doErase D pl n seq).Exec E c w es resp c' w') :
    Marks D c' (seen ++ es.filterMap (loopErase (get32 pl) (get32 (pl.drop 4)))) := by
  rcases doErase_exec run with ⟨-, idle, -⟩ | ⟨passes, r, c₁, w₁, es₁, es₂, rfl, begun, rest⟩
  · obtain ⟨rfl, -, reads⟩ := idle
    have none := List.filterMap_eq_nil_iff.mpr fun e mem =>
      loopErase_read (get32 pl) (get32 (pl.drop 4)) (reads e mem)
    rw [none, List.append_nil]
    exact h
  obtain ⟨_, _, low, high⟩ := writeRangeOk_spec sound.slot passes.inside
  have limit := recordAt_bound (D := D) sound.slot
  have noted : (c.streamNoteErase (get32 pl)).writeSlot = c.writeSlot ∧
      (c.streamNoteErase (get32 pl)).s.bitmap = c.s.bitmap := by
    unfold Core.streamNoteErase
    split <;> exact ⟨rfl, rfl⟩
  have below : (get32 pl + get32 (pl.drop 4)).toNat ≤ D.recordAt c.writeSlot := by
    rw [BitVec.toNat_add, Nat.mod_eq_of_lt (by omega)]
    exact high
  obtain ⟨armed, slot, bitmap, disarming⟩ := (h.recast noted.2 noted.1).begin begun
    (noted.1 ▸ sound.slot) (noted.1 ▸ below)
  have slot := slot.trans noted.1
  rw [List.filterMap_append, disarming, List.nil_append]
  rcases rest with ⟨-, rfl, rfl, -⟩ | ⟨-, looped⟩
  · rw [List.filterMap_nil, List.append_nil]
    exact armed
  obtain ⟨done, rfl, ending⟩ := eraseLoop_exec looped
  -- whether it failed or not, the loop has marked what it has erased
  have visited : ∀ a ∈ done,
      a ∈ forRange (get32 pl) (get32 pl + get32 (pl.drop 4)) D.eraseBlock := by
    intro a mem
    rcases ending with ⟨rfl, -⟩ | ⟨_, _, _, blocks, -⟩
    · exact mem
    · rw [blocks]
      exact List.mem_append_left _ mem
  have erased : es₂.filterMap (loopErase (get32 pl) (get32 (pl.drop 4))) = done := by
    have inside := filterMap_loop (D := D) fun a mem =>
      have at_a := passes.block sound.slot (visited a mem)
      ⟨at_a.1, at_a.2.1⟩
    rcases ending with ⟨-, rfl, -⟩ | ⟨a, _, x, -, fail, rfl, -⟩
    · exact inside
    · have last : loopErase (get32 pl) (get32 (pl.drop 4)) ⟨.flashErase a D.eraseBlock, x⟩ = none :=
        if_neg fun good => fail good.1
      rw [List.filterMap_append, inside, List.filterMap_cons, last]
      exact List.append_nil _
  rw [erased]
  refine armed.loop fun a mem => ?_
  obtain ⟨_, _, above, under⟩ := passes.block sound.slot (visited a mem)
  rw [slot, bitmap, noted.2, sound.bitmap, blockOf_eq above]
  exact bitmap_room sound.slot above under

theorem Marks.write {addr len : Word} {data : List Byte} (h : Marks D c seen)
    (wrote : Wrote E D c w addr len data seq resp c' w') : Marks D c' seen := by
  have noted : Marks D (c.noteClass (streamClassifyWrite c addr len data)) seen := by
    unfold Core.noteClass
    split <;> exact h.recast rfl rfl
  have begun : ∀ {r : Word} {es : List (Event port)} {c₁ : Core} {w₁ : World},
      (mutationBegin D).Exec E (c.noteClass (streamClassifyWrite c addr len data)) w es r c₁ w₁ →
      Marks D c₁ seen := by
    intro r es c₁ w₁ run
    rcases mutationBegin_exec run with ⟨-, -, -, rfl, -⟩ | ⟨-, -, -, rfl⟩
    · exact noted
    · split <;> exact noted.recast rfl rfl
  cases wrote with
  | stuck run _ => exact begun run
  | failed run _ _ => exact begun run
  | unverified run _ _ _ => exact begun run
  | done run _ _ =>
    split
    · exact (begun run).recast rfl rfl
    · exact begun run

/-- A record that was stored was erased, written and verified. -/
theorem Stores.commands {record : BootRecord} (stores : Stores E D slot record w es 0 w') :
    es.any (fun e => PortOp.isFlash e.op) = true := by
  generalize result : (0 : Word) = r at stores
  cases stores with
  | outside => cases result
  | unerased => cases result
  | unwritten => cases result
  | verified => rfl

theorem Marks.commit {imgLen imgCrc : Word} {es₁ : List (Event port)} (h : Marks D c seen)
    (commit : commitOf buf = some (imgLen, imgCrc)) (none : eraseOf buf = none)
    (commits : Commits E D c w imgLen imgCrc seq es resp c' w') :
    Marks D c' (erasedNext seen ⟨buf, es₁ ++ es, resp⟩) := by
  have refused : ∀ {detail : Byte} {es : List (Event port)},
      erasedNext seen ⟨buf, es, errResp cmdCommit seq eFlash detail⟩ = seen := by
    intro detail es
    exact Served.next_quiet (Served.not_armed (not_answeredOk_errResp (by decide) _ _ _))
      (Served.erased_of_none none)
  cases commits with
  | exhausted =>
    rw [refused]
    exact h
  | failed =>
    rw [refused]
    exact h.recast rfl rfl
  | stored stores =>
    have stored : (⟨buf, es₁ ++ es, okResp cmdCommit seq⟩ : Served).stored := by
      refine ⟨?_, answeredOk_okResp _ _, ?_⟩
      · rw [commit]
        rfl
      · rw [List.any_append, stores.commands, Bool.or_true]
    unfold erasedNext
    rw [if_pos (.inr stored)]
    exact .blank rfl

section
variable {q : Request}

theorem Marks.quiet {f : Served} (h : Marks D c seen) (unarmed : ¬ (f.opened ∨ f.stored))
    (none : f.erased = []) : Marks D c (erasedNext seen f) := by
  rw [Served.next_quiet unarmed none]
  exact h

theorem Marks.refused {cmd : Byte} (h : Marks D c seen) (refusal : Refusal cmd seq resp c w es c' w') :
    Marks D c' (erasedNext seen ⟨buf, es, resp⟩) := by
  obtain ⟨⟨rfl, -, reads⟩, status, detail, bad, rfl⟩ := refusal
  exact h.quiet (Served.not_armed (not_answeredOk_errResp bad _ _ _)) (Served.erased_of_reads reads)

theorem Marks.helloFrame (h : Marks D c seen) (decoded : decodeFrame buf = .ok q)
    (cmd : q.cmd = cmdHello) (run : (doHello D q.payload q.n q.seq).Exec E c w es resp c' w') :
    Marks D c' (erasedNext seen ⟨buf, es, resp⟩) := by
  rcases doHello_exec run with ⟨-, refusal⟩ | ⟨passes, -, -, rfl, rfl⟩
  · exact h.refused refusal
  · have opened : (⟨buf, es, finish (cmdHello ||| cmdRespBit) q.seq
        (helloPayload D (c.sessionOpen D))⟩ : Served).opened := by
      refine ⟨?_, finish_ne_nil _ _ _, rfl⟩
      rw [operandsOf_of_eq decoded cmd passes.size]
      rfl
    unfold erasedNext
    rw [if_pos (.inl opened)]
    exact .blank rfl

theorem Marks.eraseFrame (h : Marks D c seen) (sound : Sound D false c w)
    (decoded : decodeFrame buf = .ok q) (cmd : q.cmd = cmdErase)
    (run : (doErase D q.payload q.n q.seq).Exec E c w es resp c' w') :
    Marks D c' (erasedNext seen ⟨buf, es, resp⟩) := by
  have unarmed : ¬ ((⟨buf, es, resp⟩ : Served).opened ∨ (⟨buf, es, resp⟩ : Served).stored) :=
    not_or.mpr ⟨Served.not_opened decoded (by rw [cmd]; decide),
      Served.not_stored decoded (by rw [cmd]; decide)⟩
  by_cases size : q.n = 8
  · unfold erasedNext Served.erased
    rw [if_neg unarmed, eraseOf_of_eq decoded cmd size]
    exact h.erase sound run
  · rcases doErase_exec run with ⟨-, ⟨rfl, -, reads⟩, -⟩ | ⟨passes, -⟩
    · exact h.quiet unarmed (Served.erased_of_reads reads)
    · exact absurd passes.size size

theorem Marks.commitFrame (h : Marks D c seen) (silent : Silent E)
    (decoded : decodeFrame buf = .ok q) (cmd : q.cmd = cmdCommit)
    (run : (doCommit D q.payload q.n q.seq).Exec E c w es resp c' w') :
    Marks D c' (erasedNext seen ⟨buf, es, resp⟩) := by
  have none := eraseOf_of_ne decoded (by rw [cmd]; decide)
  rcases doCommit_exec silent run with ⟨-, refusal⟩ | ⟨_, ⟨rfl, -, reads⟩, -⟩ | ⟨size, sealed⟩
  · exact h.refused refusal
  · refine h.quiet (not_or.mpr ⟨Served.not_opened decoded (by rw [cmd]; decide), ?_⟩)
      (Served.erased_of_none none)
    rintro ⟨-, -, written⟩
    obtain ⟨e, mem, command⟩ := List.any_eq_true.mp written
    rw [reads e mem] at command
    cases command
  · obtain ⟨es₁, es₂, rfl, -, commits⟩ := sealed.commits
    exact h.commit (commitOf_of_eq decoded cmd size) none commits

theorem Marks.frame (sound : Sound D false c w) (h : Marks D c seen)
    (run : (handleFrame D buf).Exec (portEnv D) c w es (resp, .none) c' w') :
    Marks D c' (erasedNext seen ⟨buf, es, resp⟩) := by
  have silent := portEnv_silent D
  rcases handleFrame_exec run with ⟨rejected, -, rfl, rfl, -⟩ | ⟨q, decoded, dispatched⟩
  · refine h.quiet (Served.not_armed fun answered => ?_) (Served.erased_of_reads nofun)
    rcases decodeFrame_error rejected with rfl | bad
    · exact answered.1 rfl
    · exact bad answered.2
  -- only HELLO and COMMIT clear the bitmap, and only ERASE sets bits in it
  have unarmed (no_hello : q.cmd ≠ cmdHello) (no_commit : q.cmd ≠ cmdCommit) :
      ¬ ((⟨buf, es, resp⟩ : Served).opened ∨ (⟨buf, es, resp⟩ : Served).stored) :=
    not_or.mpr ⟨Served.not_opened decoded no_hello, Served.not_stored decoded no_commit⟩
  have unerased (no_erase : q.cmd ≠ cmdErase) : (⟨buf, es, resp⟩ : Served).erased = [] :=
    Served.erased_of_none (eraseOf_of_ne decoded no_erase)
  generalize answer : Action.none = act at dispatched
  cases dispatched with
  | hello cmd handled => exact h.helloFrame decoded cmd handled
  | unknown _ _ none =>
    subst none
    exact h.quiet (Served.not_armed (not_answeredOk_errResp (by decide) _ _ _))
      (Served.erased_of_reads nofun)
  | closed _ _ none =>
    subst none
    exact h.quiet (Served.not_armed (not_answeredOk_errResp (by decide) _ _ _))
      (Served.erased_of_reads nofun)
  | boot _ _ handled =>
    rcases doBoot_exec silent handled with ⟨-, refusal⟩ | ⟨reset, -⟩
    · exact h.refused refusal
    · rw [reset] at answer
      cases answer
  | erase cmd _ handled => exact h.eraseFrame sound decoded cmd handled
  | write cmd _ handled =>
    have kept : Marks D c' seen := by
      rcases doWrite_exec handled with ⟨-, ⟨rfl, -⟩, -⟩ | ⟨-, -, ⟨rfl, -⟩, -⟩ | ⟨-, -, wrote⟩
      · exact h
      · exact h
      · exact h.write wrote
    exact kept.quiet (unarmed (by rw [cmd]; decide) (by rw [cmd]; decide))
      (unerased (by rw [cmd]; decide))
  | crc cmd _ handled =>
    have kept : Marks D c' seen := by
      rcases doCrc_exec silent handled with ⟨-, ⟨rfl, -⟩, -⟩ | ⟨-, ⟨rfl, -⟩, -⟩
      · exact h
      · exact h
    exact kept.quiet (unarmed (by rw [cmd]; decide) (by rw [cmd]; decide))
      (unerased (by rw [cmd]; decide))
  | commit cmd _ handled => exact h.commitFrame silent decoded cmd handled

end

theorem Frames.marks {log : List Served} (frames : Frames D log c w) :
    Marks D c (erasedSince log) := by
  induction frames with
  | start f bootreq => exact .blank rfl
  | serve frames run ih =>
    rw [erasedSince_snoc]
    exact ih.frame frames.sound run

/-! ### Asking the bitmap -/

theorem block_between {B o L b : Nat} (pos : 0 < B) (nonempty : 0 < L) :
    (o / B ≤ b ∧ b ≤ (o + L - 1) / B) ↔ ∃ y, o ≤ y ∧ y < o + L ∧ y / B = b := by
  constructor
  · rintro ⟨first, last⟩
    have start : b * B ≤ o + L - 1 := (Nat.le_div_iff_mul_le pos).mp last
    rcases Nat.le_total (b * B) o with before | after
    · have here : b ≤ o / B := (Nat.le_div_iff_mul_le pos).mpr before
      exact ⟨o, Nat.le_refl _, by omega, by omega⟩
    · exact ⟨b * B, after, by omega, Nat.mul_div_cancel _ pos⟩
  · rintro ⟨y, low, high, rfl⟩
    exact ⟨Nat.div_le_div_right low, Nat.div_le_div_right (by omega)⟩

/-- The blocks a covered range touches are marked, all of them. -/
theorem bitmapCovers_iff {len : Word} (low : D.base c.writeSlot ≤ a.toNat) (nonempty : 0 < len.toNat)
    (bound : a.toNat + len.toNat < 2 ^ 32) :
    bitmapCovers D c a len = true ↔ ∀ x, a.toNat ≤ x → x < a.toNat + len.toNat →
      bitmapBit c.s.bitmap ((x - D.base c.writeSlot) / D.block) = true := by
  have top : (a + len - 1).toNat = a.toNat + len.toNat - 1 := by bv_omega
  have first := blockOf_eq low
  have last : D.blockOf c.writeSlot (a + len - 1) = _ := blockOf_eq (by omega)
  rw [top] at last
  have offset : a.toNat + len.toNat - 1 - D.base c.writeSlot =
      a.toNat - D.base c.writeSlot + len.toNat - 1 := by omega
  rw [offset] at last
  have between : ∀ b, b ∈ List.range' (D.blockOf c.writeSlot a)
      (D.blockOf c.writeSlot (a + len - 1) + 1 - D.blockOf c.writeSlot a) ↔
      ∃ y, a.toNat - D.base c.writeSlot ≤ y ∧ y < a.toNat - D.base c.writeSlot + len.toNat ∧
        y / D.block = b := by
    intro b
    rw [← block_between D.block_pos nonempty, ← first, ← last, List.mem_range'_1]
    omega
  change (List.range' (D.blockOf c.writeSlot a)
    (D.blockOf c.writeSlot (a + len - 1) + 1 - D.blockOf c.writeSlot a)).all _ = true ↔ _
  rw [List.all_eq_true]
  constructor
  · intro all x from_a to_a
    exact all _ ((between _).mpr ⟨x - D.base c.writeSlot, by omega, by omega, rfl⟩)
  · intro all b mem
    obtain ⟨y, from_a, to_a, rfl⟩ := (between b).mp mem
    have bit := all (y + D.base c.writeSlot) (by omega) (by omega)
    rwa [Nat.add_sub_cancel] at bit

/-- A byte of the bitmap that serving a request writes or reads. -/
inductive BitmapByte (D : Device) (c : Core) (pl : List Byte) (n : Nat) : Nat → Prop where
  | mark {a : Word} : ErasePasses D c pl n →
      a ∈ forRange (get32 pl) (get32 pl + get32 (pl.drop 4)) D.eraseBlock →
      BitmapByte D c pl n (D.blockOf c.writeSlot a / 8)
  | covers {b : Nat} : WriteInside D c pl n → D.blockOf c.writeSlot (get32 pl) ≤ b →
      b ≤ D.blockOf c.writeSlot (get32 pl + writeLen n - 1) → BitmapByte D c pl n (b / 8)

theorem writeLen_toNat (passes : WriteInside D c pl n) : (writeLen n).toNat = n - 4 := by
  have size := passes.size
  unfold maxWriteData at size
  unfold writeLen
  rw [BitVec.toNat_ofNat, Nat.mod_eq_of_lt (by omega)]

theorem BitmapByte.inside {i : Nat} (used : BitmapByte D c pl n i) (isSlot : IsSlot c.writeSlot) :
    i < D.bitmapBytes := by
  cases used with
  | mark passes mem =>
    obtain ⟨_, _, low, high⟩ := passes.block isSlot mem
    rw [blockOf_eq low]
    exact bitmap_room isSlot low high
  | @covers b passes _ last =>
    obtain ⟨_, nonempty, low, high⟩ := writeRangeOk_spec isSlot passes.inside
    have limit := recordAt_bound (D := D) isSlot
    generalize get32 pl = addr at *
    generalize writeLen n = len at *
    have top : (addr + len - 1).toNat = addr.toNat + len.toNat - 1 := by bv_omega
    rw [blockOf_eq (by omega), top] at last
    have room := bitmap_room (D := D) (x := addr.toNat + len.toNat - 1) isSlot (by omega) (by omega)
    exact (Nat.div_le_div_right last).trans_lt room

def erasedBlocks (D : Device) (slot : Word) (log : List Served) : Set Nat :=
  {b | ∃ a ∈ erasedSince log, D.blockOf slot a = b}

def Strays (D : Device) (c : Core) (pl : List Byte) (n : Nat) (blocks : Set Nat) : Prop :=
  ∃ x, (get32 pl).toNat ≤ x ∧ x < (get32 pl).toNat + (n - 4) ∧
    (x - D.base c.writeSlot) / D.block ∉ blocks

theorem doWrite_unerased (isSlot : IsSlot c.writeSlot) (marks : Marks D c seen)
    (run : (doWrite D pl n seq).Exec E c w es resp c' w') :
    respStatus resp = eNotErased ↔
      WriteInside D c pl n ∧ Strays D c pl n {b | ∃ a ∈ seen, D.blockOf c.writeSlot a = b} := by
  have covers : WriteInside D c pl n → (bitmapCovers D c (get32 pl) (writeLen n) = true ↔
      ¬ Strays D c pl n {b | ∃ a ∈ seen, D.blockOf c.writeSlot a = b}) := by
    intro passes
    obtain ⟨_, nonempty, low, high⟩ := writeRangeOk_spec isSlot passes.inside
    have limit := recordAt_bound (D := D) isSlot
    rw [bitmapCovers_iff low nonempty (by omega), writeLen_toNat passes]
    unfold Strays
    push Not
    exact forall_congr' fun x => forall_congr' fun _ => forall_congr' fun _ => marks _
  rcases doWrite_exec run with ⟨fails, -, status, detail, which, rfl⟩ | ⟨passes, open_block, -, rfl⟩ |
    ⟨passes, covered, wrote⟩
  · refine iff_of_false (fun same => ?_) fun good => fails good.1
    change status = eNotErased at same
    rcases which with rfl | rfl
    · exact absurd same (by decide)
    · exact absurd same (by decide)
  · refine iff_of_true rfl ⟨passes, ?_⟩
    by_contra within
    rw [(covers passes).mpr within] at open_block
    cases open_block
  · refine iff_of_false (fun same => ?_) fun good => (covers passes).mp covered good.2
    cases wrote with
    | done => exact absurd same (by decide : (ok : Byte) ≠ eNotErased)
    | _ => exact absurd same (by decide : (eFlash : Byte) ≠ eNotErased)

/-- In every state the machine reaches between frames, the bitmap marks exactly the
    blocks erased since the session was armed, and gates WRITE on exactly these. -/
theorem erase_bitmap_exact {f : Flash} {ls : List Label}
    (run : (machine D).Run (.off f) ls (.idle c w)) :
    c.s.bitmap.length = D.bitmapBytes ∧
    (∀ b, bitmapBit c.s.bitmap b = true ↔ b ∈ erasedBlocks D c.writeSlot (served ls)) ∧
    (∀ pl n i, BitmapByte D c pl n i → i < D.bitmapBytes) ∧
    (∀ pl n seq es resp c' w', (doWrite D pl n seq).Exec (portEnv D) c w es resp c' w' →
      (respStatus resp = eNotErased ↔ WriteInside D c pl n ∧
        Strays D c pl n (erasedBlocks D c.writeSlot (served ls)))) ∧
    ∀ buf q es resp act c' w', decodeFrame buf = .ok q → q.cmd = cmdWrite →
      (handleFrame D buf).Exec (portEnv D) c w es (resp, act) c' w' →
      (respStatus resp = eNotErased ↔ c.s.session = true ∧ WriteInside D c q.payload q.n ∧
        Strays D c q.payload q.n (erasedBlocks D c.writeSlot (served ls))) := by
  have frames := frames_of_run run
  have sound := frames.sound
  refine ⟨sound.bitmap, frames.marks, fun _ _ _ used => used.inside sound.slot,
    fun _ _ _ _ _ _ _ handled => doWrite_unerased sound.slot frames.marks handled, ?_⟩
  intro buf q es resp act c' w' decoded write handled
  rcases handleFrame_exec handled with ⟨rejected, -⟩ | ⟨q', decoded', dispatched⟩
  · rw [decoded] at rejected
    cases rejected
  obtain rfl : q = q' := Except.ok.inj (decoded.symm.trans decoded')
  -- only the handler of WRITE answers with this status
  have exclusive : ∀ {cmd : Byte}, q.cmd = cmd → cmd ≠ cmdWrite → False :=
    fun same differ => differ (same.symm.trans write)
  cases dispatched with
  | closed _ closed =>
    refine iff_of_false (fun same => ?_) fun good => ?_
    · exact absurd same (by decide : (eState : Byte) ≠ eNotErased)
    · rw [closed] at good
      cases good.1
  | write _ session handled =>
    rw [doWrite_unerased sound.slot frames.marks handled]
    exact ⟨fun good => ⟨session, good⟩, fun good => good.2⟩
  | unknown _ unguarded => exact absurd (.inr (.inr (.inl write))) unguarded
  | hello cmd => exact (exclusive cmd (by decide)).elim
  | boot cmd => exact (exclusive cmd (by decide)).elim
  | erase cmd => exact (exclusive cmd (by decide)).elim
  | crc cmd => exact (exclusive cmd (by decide)).elim
  | commit cmd => exact (exclusive cmd (by decide)).elim

/-- After one ERASE of one block, the first block counts as erased. -/
theorem erase_bitmap_exact_block : ∃ ls c w,
    (machine .ch570).Run (.off Bench.blank) ls (.idle c w) ∧
      0 ∈ erasedBlocks .ch570 c.writeSlot (served ls) := by
  have passes : (Bench.bench .ch570 Bench.unchecked Bench.blank bootreqMagic
      [Bench.hello, Bench.erase 0x2000 4096]).any
      (fun s => bitmapBit s.1.s.bitmap 0) = true := by decide +kernel
  obtain ⟨ls, c, w, run, marked⟩ := Bench.bench_reach passes
  have exact := erase_bitmap_exact run
  exact ⟨ls, c, w, run, (exact.2.1 0).mp marked⟩

end OpenBoot
