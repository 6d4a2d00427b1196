import OpenBoot.Update.Erasure
import OpenBoot.Wire.Codec

/-! A request delivered again is harmless: on flash without faults its answer, the RAM
and the true flash are those of the first delivery. -/

set_option autoImplicit false

namespace OpenBoot

open Semantics Program

/-- The part when no command fails. What an XIP read shows is a function of what
    happened so far. -/
def faultFree (D : Device) (shown : World → Word → Word) : Environment port World :=
  ⟨fun w op x w' => PortStep D w op x w' ∧
    match op with
    | .flashErase _ _ => x = (0 : Word)
    | .flashWrite _ _ => x = (0 : Word)
    | .flashVerify addr buf => w.flash.bytes addr.toNat buf.length = buf → x = (0 : Word)
    | .xipRead32 addr => x = shown w addr⟩

/-- A view the part may show: every word is one it held since reset. -/
def Admissible (D : Device) (shown : World → Word → Word) : Prop :=
  ∀ w addr, ∃ g, XipView D w g ∧ shown w addr = g.read32 addr

variable {D : Device} {shown : World → Word → Word} {c c' c₁ : Core} {w w' w₁ : World}
  {es : List (Event port)} {resp pl : List Byte} {n : Nat} {seq : Byte} {a x : Word}
  {data : List Byte}

theorem faultFree_silent : Silent (faultFree D shown) :=
  fun w op x w' read step => portEnv_silent D w op x w' read step.1

theorem faultFree_total (admissible : Admissible D shown) : (faultFree D shown).Total := by
  intro w op
  cases op with
  | flashErase addr len => exact ⟨0, _, .erased, rfl⟩
  | flashWrite addr buf => exact ⟨0, _, .wrote, rfl⟩
  | flashVerify addr buf =>
    by_cases same : w.flash.bytes addr.toNat buf.length = buf
    · exact ⟨0, _, .verified same, fun _ => rfl⟩
    · exact ⟨1, _, .verifyFailed (by decide : (1 : Word) ≠ 0), fun eq => absurd eq same⟩
  | xipRead32 addr =>
    obtain ⟨g, view, word⟩ := admissible w addr
    refine ⟨shown w addr, w, ?_, rfl⟩
    rw [word]
    exact .read view

theorem Queries.same {A : Type} {p : Code A} {want : A → Prop} {v v' : A} {c₀ c₂ : Core}
    {w₂ : World} {es' : List (Event port)}
    (queries : p.Queries (fun op => PortOp.isFlash op = false) want)
    (first : p.Exec (faultFree D shown) c w es v c' w')
    (again : p.Exec (faultFree D shown) c₀ w es' v' c₂ w₂) : v' = v := by
  induction first generalizing c₀ es' with
  | done =>
    cases again
    rfl
  | load _ _ => exact queries.elim
  | store _ _ => exact queries.elim
  | @call op _ _ _ _ _ _ _ _ _ step _ ih =>
    cases again with
    | call step' again =>
      cases op with
      | xipRead32 addr =>
        obtain ⟨port, rfl⟩ := step
        obtain ⟨port', rfl⟩ := step'
        obtain ⟨rfl, -⟩ := PortStep.read_inv port
        obtain ⟨rfl, -⟩ := PortStep.read_inv port'
        exact ih (queries.2 _) again
      | _ => cases queries.1

theorem erase_once (step : (faultFree D shown).step w (.flashErase a D.eraseBlock) x w') :
    x = 0 ∧ w'.flash = eraseRange w.flash a D.eraseBlock := by
  obtain ⟨port, rfl⟩ := step
  cases port with
  | erased => exact ⟨rfl, rfl⟩
  | eraseKept fail => exact absurd rfl fail
  | eraseFailed fail => exact absurd rfl fail

theorem write_once (step : (faultFree D shown).step w (.flashWrite a data) x w') :
    x = 0 ∧ w'.flash = programBytes w.flash a data := by
  obtain ⟨port, rfl⟩ := step
  exact ⟨rfl, PortStep.write_ok port⟩

theorem verify_once (step : (faultFree D shown).step w (.flashVerify a data) x w') :
    w'.flash = w.flash ∧ (x = 0 ↔ w.flash.bytes a.toNat data.length = data) := by
  obtain ⟨port, sure⟩ := step
  refine ⟨?_, fun zero => ?_, sure⟩
  · rw [PortStep.verify_inv port]
    rfl
  · subst zero
    exact PortStep.verify_ok port

/-- Marking the block once more would change nothing. -/
def Marked (D : Device) (c : Core) (a : Word) : Prop :=
  D.blockOf c.writeSlot a / 8 < c.s.bitmap.length →
    bitmapBit c.s.bitmap (D.blockOf c.writeSlot a) = true

theorem Marked.mark_self (h : Marked D c a) : c.bitmapMark D a = c := by
  have same : c.s.bitmap.modify (D.blockOf c.writeSlot a / 8)
      (· ||| (1 : Byte) <<< (D.blockOf c.writeSlot a % 8)) = c.s.bitmap := by
    unfold Marked at h
    generalize D.blockOf c.writeSlot a = k at *
    apply List.ext_getElem? fun i => ?_
    rw [List.getElem?_modify]
    by_cases here : k / 8 = i
    · subst here
      cases byte : c.s.bitmap[k / 8]? with
      | none => simp
      | some y =>
        have set := h (List.getElem?_eq_some_iff.mp byte).1
        rw [bitmapBit_eq, List.getD_eq_getElem?_getD, byte] at set
        have mask : (1 : Byte) <<< (k % 8) = BitVec.twoPow 8 (k % 8) :=
          (BitVec.twoPow_eq _ _).symm
        -- setting a bit that is set changes nothing
        have kept : y ||| BitVec.twoPow 8 (k % 8) = y := by
          apply BitVec.eq_of_getLsbD_eq
          intro j small
          rw [BitVec.getLsbD_or, BitVec.getLsbD_twoPow]
          by_cases bit : k % 8 = j
          · subst bit
            have set : y.getLsbD (k % 8) = true := set
            simp [set]
          · simp [bit]
        have same : y ||| (1 : Byte) <<< (k % 8) = y := by rw [mask, kept]
        simp only [if_true, Option.map_eq_map, Option.map_some, same]
    · simp [here]
  unfold Core.bitmapMark
  exact congrArg (fun bitmap => { c with s := { c.s with bitmap := bitmap } }) same

theorem marked_mark : Marked D (c.bitmapMark D a) a := by
  intro inside
  rw [Core.bitmapMark, List.length_modify] at inside
  exact (bitmapBit_modify _ _ _).mpr (.inl ⟨rfl, inside⟩)

theorem Marked.mark {b : Word} (h : Marked D c b) (a : Word) : Marked D (c.bitmapMark D a) b := by
  intro inside
  rw [Core.bitmapMark, List.length_modify] at inside
  exact (bitmapBit_modify _ _ _).mpr (.inr (h inside))

def markAll (D : Device) (blocks : List Word) (c : Core) : Core :=
  blocks.foldl (fun c a => c.bitmapMark D a) c

theorem Marked.all {b : Word} (h : Marked D c b) (blocks : List Word) :
    Marked D (markAll D blocks c) b := by
  induction blocks generalizing c with
  | nil => exact h
  | cons a rest ih => exact ih (h.mark a)

theorem marked_markAll {blocks : List Word} (mem : a ∈ blocks) :
    Marked D (markAll D blocks c) a := by
  induction blocks generalizing c with
  | nil => cases mem
  | cons b rest ih =>
    rcases List.mem_cons.mp mem with rfl | mem
    · exact marked_mark.all rest
    · exact ih mem

theorem markAll_frame (blocks : List Word) : ∃ bitmap,
    markAll D blocks c = { c with s := { c.s with bitmap := bitmap } } := by
  induction blocks generalizing c with
  | nil => exact ⟨c.s.bitmap, rfl⟩
  | cons a rest ih =>
    obtain ⟨bitmap, same⟩ := ih (c := c.bitmapMark D a)
    exact ⟨bitmap, same⟩

theorem mutationBegin_disarms {E : Environment port World}
    (run : (mutationBegin D).Exec E c w es 0 c' w') :
    c'.s = { c.s with disarmed := true } ∧ c'.writeSlot = c.writeSlot := by
  rcases mutationBegin_exec run with ⟨on, -, -, rfl, -⟩ | ⟨-, -, -, rfl⟩
  · rw [← on]
    exact ⟨rfl, rfl⟩
  · exact ⟨rfl, rfl⟩

theorem mutationBegin_again {E : Environment port World} {r : Word} (on : c.s.disarmed = true)
    (run : (mutationBegin D).Exec E c w es r c' w') : r = 0 ∧ c' = c ∧ w' = w := by
  rcases mutationBegin_exec run with ⟨-, zero, -, same, still⟩ | ⟨off, -⟩
  · exact ⟨zero, same, still⟩
  · rw [on] at off
    cases off

def BlockErased (D : Device) (f : Flash) (a : Word) : Prop :=
  Nor.Erased erasedByte f a.toNat D.block

theorem eraseLoop_erases {blocks : List Word} (erased : Word → Prop)
    (before : ∀ a, erased a → BlockErased D w.flash a)
    (run : (eraseLoop D seq blocks).Exec (faultFree D shown) c w es resp c' w') :
    (∀ a, erased a ∨ a ∈ blocks → BlockErased D w'.flash a) ∧ c' = markAll D blocks c ∧
      resp = okResp cmdErase seq := by
  -- `erased` collects the blocks that later erases leave erased
  induction blocks generalizing c w es erased with
  | nil =>
    obtain ⟨rfl, rfl, rfl, rfl⟩ := exec_pure.mp run
    refine ⟨fun a which => ?_, rfl, rfl⟩
    rcases which with old | mem
    · exact before a old
    · cases mem
  | cons b rest ih =>
    unfold eraseLoop at run
    simp only [exec_bind, exec_ite, exec_modify, exec_pure, exec_flashErase] at run
    obtain ⟨_, _, x, _, _, rfl, ⟨rfl, rfl, step⟩, tail⟩ := run
    obtain ⟨zero, flash⟩ := erase_once step
    rcases tail with ⟨fail, -⟩ | ⟨-, _, _, _, _, _, rfl, ⟨rfl, rfl, rfl⟩, run⟩
    · exact absurd zero fail
    obtain ⟨after, marks, answer⟩ := ih (fun a => erased a ∨ a = b) (fun a which => by
      rw [flash]
      rcases which with old | rfl
      · exact (before a old).erase _ _
      · exact Nor.erase_erased) run
    refine ⟨fun a which => after a ?_, marks, answer⟩
    rcases which with old | mem
    · exact .inl (.inl old)
    · rcases List.mem_cons.mp mem with rfl | mem
      · exact .inl (.inr rfl)
      · exact .inr mem

theorem eraseLoop_again {blocks : List Word} (erased : ∀ a ∈ blocks, BlockErased D w.flash a)
    (marked : ∀ a ∈ blocks, Marked D c a)
    (run : (eraseLoop D seq blocks).Exec (faultFree D shown) c w es resp c' w') :
    c' = c ∧ w'.flash = w.flash ∧ resp = okResp cmdErase seq := by
  induction blocks generalizing w es with
  | nil =>
    obtain ⟨rfl, rfl, rfl, rfl⟩ := exec_pure.mp run
    exact ⟨rfl, rfl, rfl⟩
  | cons b rest ih =>
    unfold eraseLoop at run
    simp only [exec_bind, exec_ite, exec_modify, exec_pure, exec_flashErase] at run
    obtain ⟨_, _, x, _, _, rfl, ⟨rfl, rfl, step⟩, tail⟩ := run
    obtain ⟨zero, flash⟩ := erase_once step
    have same : eraseRange w.flash b D.eraseBlock = w.flash :=
      (erased b List.mem_cons_self).erase_self
    rw [same] at flash
    rcases tail with ⟨fail, -⟩ | ⟨-, _, _, _, _, _, rfl, ⟨rfl, again, rfl⟩, run⟩
    · exact absurd zero fail
    rw [(marked b List.mem_cons_self).mark_self] at again
    subst again
    obtain ⟨kept, still, answer⟩ := ih (fun a mem => by
      rw [flash]
      exact erased a (List.mem_cons_of_mem _ mem)) (fun a mem =>
      marked a (List.mem_cons_of_mem _ mem)) run
    exact ⟨kept, still.trans flash, answer⟩

/-! ### Handlers run twice -/

/-- From here on the request is answered with this payload and changes nothing: not the
    core, nor what `I` says of the part. -/
def Settles (E : Environment port World) (p : Byte → Code (List Byte)) (cmd : Byte)
    (payload : List Byte) (c : Core) (I : World → Prop) : Prop :=
  ∀ {w w' : World} {es : List (Event port)} {seq : Byte} {resp : List Byte} {c' : Core}, I w →
    (p seq).Exec E c w es resp c' w' →
    c' = c ∧ I w' ∧ resp = finish (cmd ||| cmdRespBit) seq payload

theorem Refusal.not_ok {cmd : Byte} (h : Refusal cmd seq resp c w es c' w') :
    ¬ AnsweredOk resp := by
  obtain ⟨-, status, detail, bad, rfl⟩ := h
  exact not_answeredOk_errResp bad _ _ _

theorem doHello_settles (answered : AnsweredOk resp)
    (first : (doHello D pl n seq).Exec (faultFree D shown) c w es resp c₁ w₁) :
    ∃ rest, resp = finish (cmdHello ||| cmdRespBit) seq (ok :: rest) ∧ c₁.s.session = true ∧
      Settles (faultFree D shown) (doHello D pl n) cmdHello (ok :: rest) c₁ (· = w₁) := by
  rcases doHello_exec first with ⟨-, bad⟩ | ⟨passes, -, rfl, rfl, rfl⟩
  · exact absurd answered bad.not_ok
  refine ⟨(helloPayload D (c.sessionOpen D)).tail, rfl, rfl, ?_⟩
  rintro _ w' es seq resp c' rfl again
  rcases doHello_exec again with ⟨fails, -⟩ | ⟨-, -, rfl, rfl, rfl⟩
  · exact absurd passes fails
  -- opening a session twice is opening it once
  · exact ⟨rfl, rfl, rfl⟩

theorem doErase_settles (answered : AnsweredOk resp) (session : c.s.session = true)
    (first : (doErase D pl n seq).Exec (faultFree D shown) c w es resp c₁ w₁) :
    resp = okResp cmdErase seq ∧ c₁.s.session = true ∧
      Settles (faultFree D shown) (doErase D pl n) cmdErase [ok] c₁ (·.flash = w₁.flash) := by
  rcases doErase_exec first with ⟨-, bad⟩ | ⟨passes, r, c₂, w₂, es₁, es₂, rfl, begun, rest⟩
  · exact absurd answered bad.not_ok
  rcases rest with ⟨-, -, -, -, rfl⟩ | ⟨rfl, looped⟩
  · exact absurd answered (not_answeredOk_errResp (by decide) _ _ _)
  obtain ⟨disarmed, slot⟩ := mutationBegin_disarms begun
  obtain ⟨erased, marks, rfl⟩ := eraseLoop_erases (fun _ => False) nofun looped
  obtain ⟨bitmap, frame⟩ := markAll_frame (D := D) (c := c₂)
    (forRange (get32 pl) (get32 pl + get32 (pl.drop 4)) D.eraseBlock)
  have marked : ∀ a ∈ forRange (get32 pl) (get32 pl + get32 (pl.drop 4)) D.eraseBlock,
      Marked D c₁ a := fun a mem => marks ▸ marked_markAll mem
  rw [frame] at marks
  -- a note of an erase is idempotent: a poisoned stream stays so
  have noted : (c.streamNoteErase (get32 pl)).writeSlot = c.writeSlot ∧
      (c.streamNoteErase (get32 pl)).s.session = true ∧
      (c.streamNoteErase (get32 pl)).s.expectedNext = c.s.expectedNext ∧
      (get32 pl < c.s.expectedNext → (c.streamNoteErase (get32 pl)).s.stream = .poisoned) := by
    unfold Core.streamNoteErase
    split
    · exact ⟨rfl, session, rfl, fun _ => rfl⟩
    · next ahead => exact ⟨rfl, session, rfl, fun behind => absurd behind ahead⟩
  obtain ⟨same_slot, open_, next, poisoned⟩ := noted
  have slot₁ : c₁.writeSlot = c.writeSlot := by rw [marks]; exact slot.trans same_slot
  have fields : c₁.s.disarmed = true ∧ c₁.s.session = true ∧
      c₁.s.expectedNext = c.s.expectedNext ∧
      (get32 pl < c.s.expectedNext → c₁.s.stream = .poisoned) := by
    rw [marks]
    simp only [disarmed]
    exact ⟨trivial, open_, next, poisoned⟩
  obtain ⟨on, open_, next, poisoned⟩ := fields
  have renoted : c₁.streamNoteErase (get32 pl) = c₁ := by
    unfold Core.streamNoteErase
    split
    · next behind =>
      have late := poisoned (next ▸ behind)
      unfold Core.poison
      rw [← late]
    · rfl
  refine ⟨rfl, open_, ?_⟩
  -- now the repeat, which finds everything erased and marked already
  rintro w w' es seq resp c' same again
  have inside : ErasePasses D c₁ pl n := by
    refine ⟨passes.size, passes.aligned, ?_⟩
    have old := passes.inside
    unfold writeRangeOk at old ⊢
    rw [slot₁]
    exact old
  rcases doErase_exec again with ⟨fails, -⟩ | ⟨-, r, c₂, w₂, es₁, es₂, -, begun, rest⟩
  · exact absurd inside fails
  rw [renoted] at begun
  obtain ⟨rfl, rfl, rfl⟩ := mutationBegin_again on begun
  rcases rest with ⟨fail, -⟩ | ⟨-, looped⟩
  · exact absurd rfl fail
  obtain ⟨kept, still, answer⟩ := eraseLoop_again
    (fun a mem => same ▸ erased a (.inr mem)) marked looped
  exact ⟨kept, still.trans same, answer⟩

/-- A chunk written once is known: a fold becomes a retry, anything else stays what it was. -/
theorem streamClassifyWrite_again {addr len : Word} (nonempty : len ≠ 0)
    (length : data.length = len.toNat)
    (disarmed : c'.s = { (c.noteClass (streamClassifyWrite c addr len data)).s with
      disarmed := true }) :
    let c₁ := if streamClassifyWrite c addr len data = .fold then c'.streamFold addr len data else c'
    streamClassifyWrite c₁ addr len data ≠ .fold ∧
      c₁.noteClass (streamClassifyWrite c₁ addr len data) = c₁ := by
  have here : streamClassifyWrite c addr len data = .fold ↔ addr = c.s.expectedNext := by
    unfold streamClassifyWrite
    constructor
    · intro fold
      by_contra other
      rw [if_neg other] at fold
      split at fold <;> cases fold
    · exact fun next => if_pos next
  -- a chunk that was folded is a repeat of the last one; the others stay what they were
  cases cls : streamClassifyWrite c addr len data with
  | fold =>
    have next := here.mp cls
    rw [cls] at disarmed
    have away : addr ≠ addr + len := by bv_omega
    have retry : streamClassifyWrite (c'.streamFold addr len data) addr len data = .retry := by
      have cursor : c'.s.expectedNext = addr := by
        rw [disarmed, next]
        rfl
      have bytes : data = (data ++ c'.s.lastData.drop data.length).take len.toNat := by
        rw [← length, List.take_left]
      unfold streamClassifyWrite Core.streamFold
      simp only [cursor]
      rw [if_neg away, if_pos ⟨trivial, trivial, trivial, bytes⟩]
    simp only [if_true, retry]
    exact ⟨nofun, rfl⟩
  | retry =>
    have same : streamClassifyWrite c' addr len data = .retry := by
      rw [← cls]
      unfold streamClassifyWrite
      rw [disarmed, cls]
      rfl
    simp only [reduceCtorEq, if_false, same]
    exact ⟨nofun, rfl⟩
  | poison =>
    have same : streamClassifyWrite c' addr len data = .poison := by
      rw [← cls]
      unfold streamClassifyWrite
      rw [disarmed, cls]
      rfl
    have poisoned : c'.s.stream = .poisoned := by
      rw [disarmed, cls]
      rfl
    simp only [reduceCtorEq, if_false, same]
    refine ⟨nofun, ?_⟩
    unfold Core.noteClass Core.poison
    simp only
    rw [← poisoned]

theorem writeData_length (passes : WriteInside D c pl n) (long : n ≤ pl.length) :
    (writeData pl n).length = (writeLen n).toNat := by
  have size := passes.size
  unfold writeData
  rw [writeLen_toNat passes, List.length_take, List.length_drop]
  omega

theorem writeLen_ne_zero (passes : WriteInside D c pl n) : writeLen n ≠ 0 := by
  have size := passes.size
  have toNat := writeLen_toNat passes
  intro zero
  rw [zero] at toNat
  change 0 = _ at toNat
  omega

theorem write_settled {f : Flash} {addr : Word} (settled : Nor.Settled f addr.toNat data)
    (same : w.flash = f) (written : (faultFree D shown).step w (.flashWrite addr data) x w₁) :
    x = 0 ∧ w₁.flash = f := by
  obtain ⟨zero, programmed⟩ := write_once written
  have unchanged := settled.program data.length
  rw [List.take_length] at unchanged
  rw [programmed, same]
  exact ⟨zero, unchanged⟩

theorem doWrite_again {f : Flash} (passes : WriteInside D c pl n)
    (covered : bitmapCovers D c (get32 pl) (writeLen n) = true) (on : c.s.disarmed = true)
    (refold : streamClassifyWrite c (get32 pl) (writeLen n) (writeData pl n) ≠ .fold)
    (renoted : c.noteClass (streamClassifyWrite c (get32 pl) (writeLen n) (writeData pl n)) = c)
    (settled : Nor.Settled f (get32 pl).toNat (writeData pl n)) :
    Settles (faultFree D shown) (doWrite D pl n) cmdWrite [ok] c (·.flash = f) := by
  rintro w w' es seq resp c' same again
  -- the record is disarmed already, so this time nothing is sent for it
  have step : ∀ {r : Word} {es : List (Event port)} {c₂ : Core} {w₂ : World},
      (mutationBegin D).Exec (faultFree D shown)
        (c.noteClass (streamClassifyWrite c (get32 pl) (writeLen n) (writeData pl n))) w es r
        c₂ w₂ → r = 0 ∧ c₂ = c ∧ w₂.flash = f := by
    intro r es c₂ w₂ run
    rw [renoted] at run
    obtain ⟨zero, rfl, rfl⟩ := mutationBegin_again on run
    exact ⟨zero, rfl, same⟩
  rcases doWrite_exec again with ⟨outside, -⟩ | ⟨-, uncovered, -⟩ | ⟨-, -, wrote⟩
  · exact absurd passes outside
  · rw [covered] at uncovered
    cases uncovered
  cases wrote with
  | stuck begun fail => exact absurd (step begun).1 fail
  | failed begun written fail => exact absurd (write_settled settled (step begun).2.2 written).1 fail
  | unverified begun written verified fail =>
    have still := (write_settled settled (step begun).2.2 written).2
    refine absurd ((verify_once verified).2.mpr ?_) fail
    rw [still]
    exact settled.read
  | done begun written verified =>
    obtain ⟨-, rfl, still⟩ := step begun
    have kept := (write_settled settled still written).2
    exact ⟨if_neg refold, (verify_once verified).1.trans kept, rfl⟩

/-- An accepted chunk leaves the session open and disarmed, with the slot and the bitmap as
    they were. -/
theorem write_keeps {cls : WriteClass} {c₁ c₂ : Core} {addr len : Word} (session : c.s.session = true)
    (slot : c₂.writeSlot = (c.noteClass cls).writeSlot)
    (disarmed : c₂.s = { (c.noteClass cls).s with disarmed := true })
    (at_c₁ : (if cls = .fold then c₂.streamFold addr len data else c₂) = c₁) :
    c₁.writeSlot = c.writeSlot ∧ c₁.s.session = true ∧ c₁.s.disarmed = true ∧
      c₁.s.bitmap = c.s.bitmap := by
  have noted : (c.noteClass cls).writeSlot = c.writeSlot ∧ (c.noteClass cls).s.session = true ∧
      (c.noteClass cls).s.bitmap = c.s.bitmap := by
    unfold Core.noteClass
    split <;> exact ⟨rfl, session, rfl⟩
  have at_c₂ : c₂.writeSlot = c.writeSlot ∧ c₂.s.session = true ∧ c₂.s.disarmed = true ∧
      c₂.s.bitmap = c.s.bitmap := by
    rw [disarmed]
    exact ⟨slot.trans noted.1, noted.2.1, rfl, noted.2.2⟩
  rw [← at_c₁]
  split <;> exact at_c₂

theorem doWrite_settles (answered : AnsweredOk resp) (session : c.s.session = true)
    (long : n ≤ pl.length)
    (first : (doWrite D pl n seq).Exec (faultFree D shown) c w es resp c₁ w₁) :
    resp = okResp cmdWrite seq ∧ c₁.s.session = true ∧
      Settles (faultFree D shown) (doWrite D pl n) cmdWrite [ok] c₁ (·.flash = w₁.flash) := by
  rcases doWrite_exec first with ⟨-, -, status, detail, which, rfl⟩ | ⟨-, -, -, rfl⟩ |
    ⟨passes, covers, wrote⟩
  · rcases which with rfl | rfl
    · exact absurd answered (not_answeredOk_errResp (by decide) _ _ _)
    · exact absurd answered (not_answeredOk_errResp (by decide) _ _ _)
  · exact absurd answered (not_answeredOk_errResp (by decide) _ _ _)
  cases wrote with
  | stuck => exact absurd answered (not_answeredOk_errResp (by decide) _ _ _)
  | failed => exact absurd answered (not_answeredOk_errResp (by decide) _ _ _)
  | unverified => exact absurd answered (not_answeredOk_errResp (by decide) _ _ _)
  | @done _ c₂ w₂ w₃ _ begun written verified =>
  obtain ⟨disarmed, slot⟩ := mutationBegin_disarms begun
  -- sent again, a chunk that folded counts as a repeat of the last and folds no more
  obtain ⟨refold, renoted⟩ := streamClassifyWrite_again (writeLen_ne_zero passes)
    (writeData_length passes long) disarmed
  generalize at_c₁ : (if streamClassifyWrite c (get32 pl) (writeLen n) (writeData pl n) = .fold then
    c₂.streamFold (get32 pl) (writeLen n) (writeData pl n) else c₂) = c₁ at *
  obtain ⟨same_slot, open_, on, bitmap⟩ := write_keeps session slot disarmed at_c₁
  have inside : WriteInside D c₁ pl n := by
    refine ⟨passes.size, passes.aligned, ?_⟩
    have old := passes.inside
    unfold writeRangeOk at old ⊢
    rw [same_slot]
    exact old
  have covered : bitmapCovers D c₁ (get32 pl) (writeLen n) = true := by
    unfold bitmapCovers at covers ⊢
    rw [same_slot, bitmap]
    exact covers
  exact ⟨rfl, open_, doWrite_again inside covered on refold renoted (written.1.settled verified.1)⟩

theorem doCrc_settles (answered : AnsweredOk resp) (session : c.s.session = true)
    (first : (doCrc D pl n seq).Exec (faultFree D shown) c w es resp c₁ w₁) :
    ∃ rest, resp = finish (cmdCrc ||| cmdRespBit) seq (ok :: rest) ∧ c₁.s.session = true ∧
      Settles (faultFree D shown) (doCrc D pl n) cmdCrc (ok :: rest) c₁ (· = w₁) := by
  rcases doCrc_exec faultFree_silent first with ⟨-, bad⟩ | ⟨passes, idle, crc, rfl, computed⟩
  · exact absurd answered bad.not_ok
  obtain ⟨rfl, rfl, -⟩ := idle
  refine ⟨put32 crc, rfl, session, ?_⟩
  rintro _ w' es seq resp c' rfl again
  rcases doCrc_exec faultFree_silent again with ⟨fails, -⟩ | ⟨-, idle, crc', rfl, recomputed⟩
  · exact absurd passes fails
  obtain ⟨rfl, rfl, -⟩ := idle
  rw [Queries.same (xipCrc32_asks _ _) computed recomputed]
  exact ⟨rfl, rfl, rfl⟩

/-! ### Frames delivered twice -/

def Harmless (cmd : Byte) : Prop :=
  cmd = cmdHello ∨ cmd = cmdErase ∨ cmd = cmdWrite ∨ cmd = cmdCrc

def handler (D : Device) (cmd : Byte) : List Byte → Nat → Byte → Code (List Byte) :=
  if cmd = cmdHello then doHello D
  else if cmd = cmdErase then doErase D
  else if cmd = cmdWrite then doWrite D
  else doCrc D

theorem Dispatched.handled {E : Environment port World} {q : Request} {act : Action}
    (dispatched : Dispatched E D q c w es resp act c' w') (harmless : Harmless q.cmd) :
    (q.cmd ≠ cmdHello ∧ c.s.session = false ∧ ¬ AnsweredOk resp) ∨
    ((q.cmd = cmdHello ∨ c.s.session = true) ∧ act = .none ∧
      (handler D q.cmd q.payload q.n q.seq).Exec E c w es resp c' w') := by
  cases dispatched with
  | hello cmd run =>
    rw [cmd]
    exact .inr ⟨.inl rfl, rfl, run⟩
  | unknown other unguarded =>
    rcases harmless with cmd | cmd | cmd | cmd
    · exact absurd cmd other
    · exact absurd (.inr (.inl cmd)) unguarded
    · exact absurd (.inr (.inr (.inl cmd))) unguarded
    · exact absurd (.inr (.inr (.inr (.inl cmd)))) unguarded
  | closed guarded closed =>
    refine .inl ⟨fun hello => ?_, closed, not_answeredOk_errResp (by decide) _ _ _⟩
    rw [hello] at guarded
    exact absurd guarded (by unfold Guarded; decide)
  | boot cmd =>
    rw [cmd] at harmless
    exact absurd harmless (by unfold Harmless; decide)
  | erase cmd session run =>
    rw [cmd]
    exact .inr ⟨.inr session, rfl, run⟩
  | write cmd session run =>
    rw [cmd]
    exact .inr ⟨.inr session, rfl, run⟩
  | crc cmd session run =>
    rw [cmd]
    exact .inr ⟨.inr session, rfl, run⟩
  | commit cmd =>
    rw [cmd] at harmless
    exact absurd harmless (by unfold Harmless; decide)

/-- What a request answered OK leaves absorbs the same request. -/
theorem handler_settles {cmd : Byte} (harmless : Harmless cmd)
    (session : cmd = cmdHello ∨ c.s.session = true) (long : n ≤ pl.length)
    (answered : AnsweredOk resp)
    (first : (handler D cmd pl n seq).Exec (faultFree D shown) c w es resp c₁ w₁) :
    ∃ rest I, resp = finish (cmd ||| cmdRespBit) seq (ok :: rest) ∧ c₁.s.session = true ∧
      (I w₁ ∧ ∀ w, I w → w.flash = w₁.flash) ∧
      Settles (faultFree D shown) (handler D cmd pl n) cmd (ok :: rest) c₁ I := by
  have same_part : w₁ = w₁ ∧ ∀ w, w = w₁ → w.flash = w₁.flash :=
    ⟨rfl, fun _ same => congrArg World.flash same⟩
  have same_flash : w₁.flash = w₁.flash ∧ ∀ w : World, w.flash = w₁.flash → w.flash = w₁.flash :=
    ⟨rfl, fun _ same => same⟩
  rcases harmless with rfl | rfl | rfl | rfl
  · obtain ⟨rest, answer, open_, settles⟩ := doHello_settles answered first
    exact ⟨rest, _, answer, open_, same_part, settles⟩
  · have session := session.resolve_left (by decide)
    obtain ⟨answer, open_, settles⟩ := doErase_settles answered session first
    exact ⟨[], _, answer, open_, same_flash, settles⟩
  · have session := session.resolve_left (by decide)
    obtain ⟨answer, open_, settles⟩ := doWrite_settles answered session long first
    exact ⟨[], _, answer, open_, same_flash, settles⟩
  · have session := session.resolve_left (by decide)
    obtain ⟨rest, answer, open_, settles⟩ := doCrc_settles answered session first
    exact ⟨rest, _, answer, open_, same_part, settles⟩

/-- A frame with the same request; its sequence number and its padding are free. -/
def Duplicate (q : Request) (buf : List Byte) : Prop :=
  ∃ q', decodeFrame buf = .ok q' ∧ q'.cmd = q.cmd ∧ q'.n = q.n ∧
    q'.payload.take q.n = q.payload.take q.n

inductive Deliveries (E : Environment port World) (D : Device) :
    List (List Byte × List Byte) → Core → World → Core → World → Prop where
  | nil {c : Core} {w : World} : Deliveries E D [] c w c w
  | cons {buf resp : List Byte} {act : Action} {rest : List (List Byte × List Byte)}
      {c c₁ c₂ : Core} {w w₁ w₂ : World} {es : List (Event port)} :
      (handleFrame D buf).Exec E c w es (resp, act) c₁ w₁ → Deliveries E D rest c₁ w₁ c₂ w₂ →
      Deliveries E D ((buf, resp) :: rest) c w c₂ w₂

theorem deliveries_total {E : Environment port World} (total : E.Total) (bufs : List (List Byte))
    (c : Core) (w : World) :
    ∃ log c' w', log.map Prod.fst = bufs ∧ Deliveries E D log c w c' w' := by
  induction bufs generalizing c w with
  | nil => exact ⟨[], c, w, rfl, .nil⟩
  | cons buf rest ih =>
    obtain ⟨es, ⟨resp, act⟩, c₁, w₁, run⟩ := exec_total total (handleFrame D buf) c w
    obtain ⟨log, c₂, w₂, frames, further⟩ := ih c₁ w₁
    exact ⟨(buf, resp) :: log, c₂, w₂, congrArg _ frames, .cons run further⟩

theorem exec_request {E : Environment port World} {buf : List Byte} {q : Request} {act : Action}
    (decoded : decodeFrame buf = .ok q)
    (run : (handleFrame D buf).Exec E c w es (resp, act) c' w') :
    Dispatched E D ⟨q.cmd, q.seq, q.payload.take q.n, q.n⟩ c w es resp act c' w' := by
  rw [handleFrame_eq, decoded] at run
  apply dispatch_exec
  simp only at run ⊢
  rw [dispatch_take]
  exact run

theorem decodeFrame_seq {buf : List Byte} {q : Request} (decoded : decodeFrame buf = .ok q) :
    q.seq = buf.getD 1 0 := by
  unfold decodeFrame at decoded
  simp only at decoded
  split at decoded <;> [cases decoded; skip]
  split at decoded <;> [cases decoded; skip]
  split at decoded <;> [cases decoded; skip]
  split at decoded <;> [cases decoded; skip]
  split at decoded <;> [cases decoded; skip]
  exact (congrArg Request.seq (Except.ok.inj decoded)).symm

/-- On flash without faults, a HELLO, ERASE, WRITE or CRC answered OK may be delivered any
    number of times more, with any sequence numbers: each is answered alike, and neither
    the RAM nor the flash changes. This holds from every state, reachable or not. -/
theorem duplicates_harmless {buf : List Byte} {q : Request} {act : Action}
    (admissible : Admissible D shown) (decoded : decodeFrame buf = .ok q)
    (harmless : Harmless q.cmd) (answered : AnsweredOk resp)
    (first : (handleFrame D buf).Exec (faultFree D shown) c w es (resp, act) c₁ w₁) :
    ∃ rest, resp = finish (q.cmd ||| cmdRespBit) q.seq (ok :: rest) ∧
      ∀ bufs, (∀ b ∈ bufs, Duplicate q b) →
        (∃ log c₂ w₂, log.map Prod.fst = bufs ∧
          Deliveries (faultFree D shown) D log c₁ w₁ c₂ w₂) ∧
        ∀ log c₂ w₂, log.map Prod.fst = bufs → Deliveries (faultFree D shown) D log c₁ w₁ c₂ w₂ →
          c₂ = c₁ ∧ w₂.flash = w₁.flash ∧
          ∀ r ∈ log, AnsweredOk r.2 ∧
            r.2 = finish (q.cmd ||| cmdRespBit) (r.1.getD 1 0) (ok :: rest) := by
  have whole : q.n ≤ (q.payload.take q.n).length := by
    rw [List.length_take]
    exact Nat.le_min.mpr ⟨Nat.le_refl _, decodeFrame_payload decoded⟩
  have dispatched := exec_request decoded first
  rcases dispatched.handled harmless with ⟨-, -, bad⟩ | ⟨session, -, handled⟩
  · exact absurd answered bad
  obtain ⟨rest, I, answer, open_, ⟨start, flash⟩, settles⟩ :=
    handler_settles harmless session whole answered handled
  refine ⟨rest, answer, fun bufs duplicates =>
    ⟨deliveries_total (faultFree_total admissible) bufs c₁ w₁, ?_⟩⟩
  intro log c₂ w₂ frames deliveries
  suffices same : ∀ w, I w → Deliveries (faultFree D shown) D log c₁ w c₂ w₂ →
      c₂ = c₁ ∧ I w₂ ∧ ∀ r ∈ log,
        r.2 = finish (q.cmd ||| cmdRespBit) (r.1.getD 1 0) (ok :: rest) by
    obtain ⟨core, kept, answers⟩ := same w₁ start deliveries
    refine ⟨core, flash _ kept, fun r mem => ?_⟩
    rw [answers r mem]
    exact ⟨⟨finish_ne_nil _ _ _, rfl⟩, rfl⟩
  clear deliveries
  -- on the deliveries; the core stays where the first one left it
  induction log generalizing bufs with
  | nil =>
    rintro w inv ⟨⟩
    exact ⟨rfl, inv, nofun⟩
  | cons r further_log ih =>
    rintro w inv deliveries
    subst frames
    cases deliveries with
    | @cons b r act _ _ c₃ _ _ w₃ _ es' run further =>
    obtain ⟨q', decoded', cmd, size, bytes⟩ := duplicates b List.mem_cons_self
    have dispatched := exec_request decoded' run
    rw [cmd, size, bytes] at dispatched
    rcases dispatched.handled harmless with ⟨-, closed, -⟩ | ⟨-, -, handled⟩
    · rw [open_] at closed
      cases closed
    obtain ⟨rfl, kept, again⟩ := settles inv handled
    obtain ⟨core, last, answers⟩ := ih (further_log.map Prod.fst)
      (fun b mem => duplicates b (List.mem_cons_of_mem _ mem)) rfl w₃ kept further
    refine ⟨core, last, fun x mem => ?_⟩
    rcases List.mem_cons.mp mem with rfl | mem
    · rw [← decodeFrame_seq decoded']
      exact again
    · exact answers x mem

/-- The view of the simulated part: the content at reset where XIP is not live. -/
def simulatedView (D : Device) (w : World) (addr : Word) : Word :=
  (simulate D w (.xipRead32 addr)).1

theorem simulatedView_admissible (D : Device) : Admissible D (simulatedView D) :=
  fun w addr => (PortStep.read_inv (simulate_sound D w (.xipRead32 addr))).2

theorem simulate_faultFree (D : Device) (w : World) (op : PortOp) :
    (faultFree D (simulatedView D)).step w op (simulate D w op).1 (simulate D w op).2 := by
  refine ⟨simulate_sound D w op, ?_⟩
  cases op with
  | flashErase => rfl
  | flashWrite => rfl
  | flashVerify addr buf => exact fun same => if_pos same
  | xipRead32 => rfl

/-- A WRITE delivered three times advances the run once. -/
theorem duplicates_harmless_write : ∃ c₁ w₁ c₂ w₂ log,
    Deliveries (faultFree .ch570 (simulatedView .ch570)) .ch570 log c₁ w₁ c₂ w₂ ∧
      log.map Prod.fst = [Bench.write 0x2000 Bench.image, Bench.write 0x2000 Bench.image] ∧
      c₁.s.expectedNext = 0x2004 ∧ c₂ = c₁ ∧ w₂.flash = w₁.flash := by
  have passes : (Bench.bench .ch570 Bench.unchecked Bench.blank bootreqMagic
      [Bench.hello, Bench.erase 0x2000 4096]).any (fun s =>
        let out := Bench.carry .ch570 (handleFrame .ch570 (Bench.write 0x2000 Bench.image)) s.1 s.2
        decide (AnsweredOk out.1.1) && decide (out.2.1.s.expectedNext = 0x2004)) = true := by
    decide +kernel
  obtain ⟨⟨c, w⟩, -, tested⟩ := (Option.any_eq_true _ _).mp passes
  simp only [Bool.and_eq_true, decide_eq_true_eq] at tested
  have operands : (operandsOf cmdWrite 8 (Bench.write 0x2000 Bench.image)).isSome = true := by
    decide +kernel
  obtain ⟨pl, written⟩ := Option.isSome_iff_exists.mp operands
  obtain ⟨seq, decoded⟩ := operandsOf_some written
  have first := exec_run (simulate_faultFree .ch570)
    (handleFrame .ch570 (Bench.write 0x2000 Bench.image)) c w
  obtain ⟨rest, -, repeats⟩ := duplicates_harmless (simulatedView_admissible .ch570) decoded
    (.inr (.inr (.inl rfl))) tested.1 first
  have same : Duplicate ⟨cmdWrite, seq, pl, 8⟩ (Bench.write 0x2000 Bench.image) :=
    ⟨_, decoded, rfl, rfl, rfl⟩
  obtain ⟨⟨log, c₂, w₂, frames, deliveries⟩, all⟩ :=
    repeats [Bench.write 0x2000 Bench.image, Bench.write 0x2000 Bench.image]
      (List.forall_mem_cons.mpr ⟨same, List.forall_mem_cons.mpr ⟨same, nofun⟩⟩)
  obtain ⟨core, flash, -⟩ := all log c₂ w₂ frames deliveries
  exact ⟨_, _, c₂, w₂, log, deliveries, frames, tested.2, core, flash⟩

end OpenBoot
