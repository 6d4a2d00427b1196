import OpenBoot.Transport.Uart

/-! The host's mirror of the receiver: blocking reads from a byte source.

A source is the bytes still to come, with `none` for a gap as long as the
inter-byte timeout. The deadline is distant: it passes only when nothing is left
to come.
-/

set_option autoImplicit false

namespace OpenBoot

/-- `B0 07` and the logical frame. -/
def encodeSof (frame : List Byte) : List Byte := [uartSof1, uartSof2] ++ frame

/-- How long a read may block: for the inter-byte timeout, or until the deadline. -/
inductive Wait where
  | interbyte
  | remaining

/-- One byte, or nothing within the wait. Only a wait as short as a gap notices it. -/
def nextByte : Wait → List (Option Byte) → Option Byte × List (Option Byte)
  | _, [] => (none, [])
  | _, some b :: rest => (some b, rest)
  | .interbyte, none :: rest => (none, rest)
  | .remaining, none :: rest => nextByte .remaining rest

theorem nextByte_some {wait : Wait} {src rest : List (Option Byte)} {b : Byte}
    (h : nextByte wait src = (some b, rest)) : rest.length < src.length := by
  induction src with
  | nil => cases wait <;> cases h
  | cons i src ih =>
    cases i with
    | some b' =>
      cases wait <;> cases h <;> exact Nat.lt_succ_self _
    | none =>
      cases wait with
      | interbyte => cases h
      | remaining => exact Nat.lt_succ_of_lt (ih h)

theorem nextByte_none {wait : Wait} {src rest : List (Option Byte)}
    (h : nextByte wait src = (none, rest)) : rest.length ≤ src.length := by
  induction src with
  | nil => cases wait <;> cases h <;> exact Nat.le_refl _
  | cons i src ih =>
    cases i with
    | some b => cases wait <;> cases h
    | none =>
      cases wait with
      | interbyte => cases h; exact Nat.le_succ _
      | remaining => exact Nat.le_succ_of_le (ih h)

/-- Once the first marker byte is in, a gap counts. -/
def huntWait (sof1Seen : Bool) : Wait := if sof1Seen then .interbyte else .remaining

def huntSof (sof1Seen : Bool) (src : List (Option Byte)) : Option (List (Option Byte)) :=
  match _read : nextByte (huntWait sof1Seen) src with
  | (some b, rest) =>
    if b = uartSof1 then huntSof true rest
    else if b = uartSof2 ∧ sof1Seen then some rest
    else huntSof false rest
  | (none, rest) =>
    -- a gap after a lone first byte drops the arm; otherwise the wait spanned the deadline
    if sof1Seen then huntSof false rest else none
termination_by 2 * src.length + sof1Seen.toNat
decreasing_by
  · have shorter := nextByte_some _read
    have := Bool.toNat_le true
    omega
  · have shorter := nextByte_some _read
    have := Bool.toNat_le false
    omega
  · next seen =>
    have shorter := nextByte_none _read
    simp only [seen, Bool.toNat_true, Bool.toNat_false]
    omega

def readBytes : Nat → List (Option Byte) → Option (List Byte) × List (Option Byte)
  | 0, src => (some [], src)
  | n + 1, src =>
    match nextByte .interbyte src with
    | (some b, rest) =>
      match readBytes n rest with
      | (some data, rest) => (some (b :: data), rest)
      | (none, rest) => (none, rest)
    | (none, rest) => (none, rest)

theorem huntSof_length {seen : Bool} {src rest : List (Option Byte)}
    (h : huntSof seen src = some rest) : rest.length < src.length := by
  fun_induction huntSof seen src with
  | case1 seen src rest' at_b ih =>
    have shorter := nextByte_some at_b
    have := ih h
    omega
  | case2 seen src b rest' at_b other locked =>
    obtain rfl := Option.some.inj h
    exact nextByte_some at_b
  | case3 seen src b rest' at_b other unlocked ih =>
    have shorter := nextByte_some at_b
    have := ih h
    omega
  | case4 src rest' at_b ih =>
    have shorter := nextByte_none at_b
    have := ih h
    omega
  | case5 seen src rest' at_b unseen => cases h

theorem readBytes_length {n : Nat} {src rest : List (Option Byte)} {data : Option (List Byte)}
    (h : readBytes n src = (data, rest)) : rest.length ≤ src.length := by
  induction n generalizing src rest data with
  | zero => cases h; exact Nat.le_refl _
  | succ n ih =>
    unfold readBytes at h
    split at h
    · next b src₁ at_b =>
      have shorter := nextByte_some at_b
      split at h <;>
      · next at_data =>
        cases h
        have := ih at_data
        omega
    · next src₁ at_b =>
      cases h
      exact nextByte_none at_b

/-- The next complete frame and what follows it, or nothing once the deadline passes. -/
def recvSofFrame (src : List (Option Byte)) : Option (List Byte × List (Option Byte)) :=
  match _hunted : huntSof false src with
  | none => none
  | some src₁ =>
    match _header : readBytes frameHdrLen src₁ with
    | (none, src₂) => recvSofFrame src₂
    | (some hdr, src₂) =>
      let len := (hdr.getD 2 0).toNat
      -- the marker stood inside other data
      if len > maxPayload then recvSofFrame src₂
      else
        match _body : readBytes (len + 4) src₂ with
        | (none, src₃) => recvSofFrame src₃
        | (some tail, src₃) => some (hdr ++ tail, src₃)
termination_by src.length
decreasing_by
  · have := huntSof_length _hunted
    have := readBytes_length _header
    omega
  · have := huntSof_length _hunted
    have := readBytes_length _header
    omega
  · have := huntSof_length _hunted
    have := readBytes_length _header
    have := readBytes_length _body
    omega

theorem recvSofFrame_length {src rest : List (Option Byte)} {f : List Byte}
    (h : recvSofFrame src = some (f, rest)) : rest.length < src.length := by
  fun_induction recvSofFrame src with
  | case1 src hunted => cases h
  | case2 src src₁ hunted src₂ header ih =>
    have := huntSof_length hunted
    have := readBytes_length header
    have := ih h
    omega
  | case3 src src₁ hunted hdr src₂ header len long ih =>
    have := huntSof_length hunted
    have := readBytes_length header
    have := ih h
    omega
  | case4 src src₁ hunted hdr src₂ header len fits src₃ body ih =>
    have := huntSof_length hunted
    have := readBytes_length header
    have := readBytes_length body
    have := ih h
    omega
  | case5 src src₁ hunted hdr src₂ header len fits tail src₃ body =>
    cases h
    have := huntSof_length hunted
    have := readBytes_length header
    have := readBytes_length body
    omega

def recvAll (src : List (Option Byte)) : List (List Byte) :=
  match _received : recvSofFrame src with
  | none => []
  | some (f, rest) => f :: recvAll rest
termination_by src.length
decreasing_by exact recvSofFrame_length _received

end OpenBoot
