import OpenBoot.Core.Engine

/-! What a candidate frame asks for, read off its bytes alone. -/

set_option autoImplicit false

namespace OpenBoot

structure Request where
  cmd : Byte
  seq : Byte
  payload : List Byte
  n : Nat

def frameLen (buf : List Byte) : Nat := (buf.getD 2 0).toNat

/-- The request in a frame, or the answer that rejects the frame unseen. -/
def decodeFrame (buf : List Byte) : Except (List Byte) Request :=
  let n := (buf.getD 2 0).toNat
  if buf.length < frameOverhead then .error []
  else if n > maxPayload then .error []
  else if buf.length < frameOverhead + n then .error []
  else if crc32 (buf.take (frameHdrLen + n)) ≠ get32 (buf.drop (frameHdrLen + n)) then
    .error (finish cmdFrameErr (buf.getD 1 0) [eCrc, 0])
  else if buf.getD 3 0 ≠ 0 then .error (errResp (buf.getD 0 0) (buf.getD 1 0) eArg 0)
  else .ok ⟨buf.getD 0 0, buf.getD 1 0, buf.drop frameHdrLen, n⟩

/-- Decoding is all that happens before dispatch. -/
theorem handleFrame_eq (D : Device) (buf : List Byte) :
    handleFrame D buf = match decodeFrame buf with
      | .error resp => pure (resp, .none)
      | .ok q => dispatch D q.cmd q.payload q.n q.seq := by
  unfold handleFrame decodeFrame
  simp only
  by_cases short : buf.length < frameOverhead
  · simp only [short, if_true]
  by_cases large : (buf.getD 2 0).toNat > maxPayload
  · simp only [short, large, if_true, if_false]
  by_cases cut : buf.length < frameOverhead + (buf.getD 2 0).toNat
  · simp only [short, large, cut, if_true, if_false]
  simp only [short, large, cut, if_false]
  split
  · rfl
  · split <;> rfl

theorem decodeFrame_error {buf resp : List Byte} (h : decodeFrame buf = .error resp) :
    resp = [] ∨ respStatus resp ≠ ok := by
  unfold decodeFrame at h
  simp only at h
  split at h
  · exact .inl (Except.error.inj h).symm
  split at h
  · exact .inl (Except.error.inj h).symm
  split at h
  · exact .inl (Except.error.inj h).symm
  split at h
  · obtain rfl := Except.error.inj h
    exact .inr (by decide : eCrc ≠ ok)
  split at h
  · obtain rfl := Except.error.inj h
    exact .inr (by decide : eArg ≠ ok)
  · cases h

def operandsOf (cmd : Byte) (n : Nat) (buf : List Byte) : Option (List Byte) :=
  match decodeFrame buf with
  | .error _ => none
  | .ok q => if q.cmd = cmd ∧ q.n = n then some q.payload else none

def twoWords (pl : List Byte) : Word × Word := (get32 pl, get32 (pl.drop 4))

def eraseOf (buf : List Byte) : Option (Word × Word) := (operandsOf cmdErase 8 buf).map twoWords

def commitOf (buf : List Byte) : Option (Word × Word) := (operandsOf cmdCommit 8 buf).map twoWords

def bootOf (buf : List Byte) : Option Byte := (operandsOf cmdBoot 1 buf).map (·.getD 0 0)

theorem operandsOf_ok {buf : List Byte} {q : Request} (h : decodeFrame buf = .ok q) (cmd : Byte)
    (n : Nat) : operandsOf cmd n buf = if q.cmd = cmd ∧ q.n = n then some q.payload else none := by
  unfold operandsOf
  rw [h]

section
variable {buf : List Byte} {q : Request} {cmd : Byte}

theorem operandsOf_of_eq {n : Nat} (h : decodeFrame buf = .ok q) (same : q.cmd = cmd)
    (size : q.n = n) : operandsOf cmd n buf = some q.payload := by
  rw [operandsOf_ok h, if_pos ⟨same, size⟩]

theorem operandsOf_of_ne (h : decodeFrame buf = .ok q) (n : Nat) (other : q.cmd ≠ cmd) :
    operandsOf cmd n buf = none := by
  rw [operandsOf_ok h, if_neg fun both => other both.1]

theorem eraseOf_of_eq (h : decodeFrame buf = .ok q) (same : q.cmd = cmdErase) (size : q.n = 8) :
    eraseOf buf = some (get32 q.payload, get32 (q.payload.drop 4)) := by
  unfold eraseOf
  rw [operandsOf_of_eq h same size]
  rfl

theorem eraseOf_of_ne (h : decodeFrame buf = .ok q) (other : q.cmd ≠ cmdErase) :
    eraseOf buf = none := by
  unfold eraseOf
  rw [operandsOf_of_ne h _ other]
  rfl

theorem commitOf_of_eq (h : decodeFrame buf = .ok q) (same : q.cmd = cmdCommit) (size : q.n = 8) :
    commitOf buf = some (get32 q.payload, get32 (q.payload.drop 4)) := by
  unfold commitOf
  rw [operandsOf_of_eq h same size]
  rfl

theorem commitOf_of_ne (h : decodeFrame buf = .ok q) (other : q.cmd ≠ cmdCommit) :
    commitOf buf = none := by
  unfold commitOf
  rw [operandsOf_of_ne h _ other]
  rfl

theorem bootOf_of_eq (h : decodeFrame buf = .ok q) (same : q.cmd = cmdBoot) (size : q.n = 1) :
    bootOf buf = some (q.payload.getD 0 0) := by
  unfold bootOf
  rw [operandsOf_of_eq h same size]
  rfl

end

theorem operandsOf_some {cmd : Byte} {n : Nat} {buf pl : List Byte}
    (h : operandsOf cmd n buf = some pl) :
    ∃ seq, decodeFrame buf = .ok ⟨cmd, seq, pl, n⟩ := by
  unfold operandsOf at h
  split at h
  · cases h
  · next q at_q =>
    split at h
    · next same =>
      obtain ⟨cmd, seq, payload, n⟩ := q
      obtain ⟨rfl, rfl⟩ := same
      obtain rfl := Option.some.inj h
      exact ⟨seq, at_q⟩
    · cases h

theorem commitOf_some {buf : List Byte} {len crc : Word} (h : commitOf buf = some (len, crc)) :
    ∃ seq pl, decodeFrame buf = .ok ⟨cmdCommit, seq, pl, 8⟩ ∧ get32 pl = len ∧
      get32 (pl.drop 4) = crc := by
  obtain ⟨pl, operands, words⟩ := Option.map_eq_some_iff.mp h
  obtain ⟨seq, decoded⟩ := operandsOf_some operands
  exact ⟨seq, pl, decoded, congrArg Prod.fst words, congrArg Prod.snd words⟩

theorem bootOf_some {buf : List Byte} {mode : Byte} (h : bootOf buf = some mode) :
    ∃ seq pl, decodeFrame buf = .ok ⟨cmdBoot, seq, pl, 1⟩ ∧ pl.getD 0 0 = mode := by
  obtain ⟨pl, operands, first⟩ := Option.map_eq_some_iff.mp h
  obtain ⟨seq, decoded⟩ := operandsOf_some operands
  exact ⟨seq, pl, decoded, first⟩

theorem not_requested {buf : List Byte} (h : commitOf buf = none) : ¬ (commitOf buf).isSome := by
  rw [h]
  exact Bool.false_ne_true

theorem bootOf_of_commit {buf : List Byte} {q : Word × Word} (h : commitOf buf = some q) :
    bootOf buf = none := by
  obtain ⟨len, crc⟩ := q
  obtain ⟨seq, pl, decoded, _⟩ := commitOf_some h
  unfold bootOf
  rw [operandsOf_ok decoded]
  rfl

end OpenBoot
