import OpenBoot.Coding.Framing
import OpenBoot.Host.Framing

/-! The device's receiver and the host's read the same frames out of a stream,
because both follow one reader of marked frames. -/

set_option autoImplicit false

namespace OpenBoot

open Framing

/-- The length byte of the header fixes the length of the frame. -/
def obFormat : Format Byte where
  sof1 := uartSof1
  sof2 := uartSof2
  header := frameHdrLen
  total h := if (h.getD 2 0).toNat > maxPayload then none else some (frameOverhead + (h.getD 2 0).toNat)
  header_pos := by decide
  header_lt := by
    intro h n total
    split at total
    · cases total
    · cases total
      unfold frameHdrLen frameOverhead
      omega

theorem getD_take_two {got : List Byte} {n : Nat} (long : 2 < n) :
    (got.take n).getD 2 0 = got.getD 2 0 := by
  rw [List.getD_eq_getElem?_getD, List.getElem?_take_of_lt long, ← List.getD_eq_getElem?_getD]

theorem obFormat_total {h : List Byte} (fits : (h.getD 2 0).toNat ≤ maxPayload) :
    obFormat.total h = some (frameOverhead + (h.getD 2 0).toNat) := if_neg (Nat.not_lt.mpr fits)

theorem obFormat_over {h : List Byte} (excess : (h.getD 2 0).toNat > maxPayload) :
    obFormat.total h = none := if_pos excess

def huntState (sof1Seen : Bool) : State Byte := if sof1Seen then .armed else .hunting

theorem frames_some {seen : Bool} {src rest : List (Option Byte)} {b : Byte}
    (h : nextByte (huntWait seen) src = (some b, rest)) :
    obFormat.frames (huntState seen) src =
      obFormat.frames (obFormat.step (huntState seen) (some b)).1 rest := by
  have silent : (obFormat.step (huntState seen) (some b)).2 = none := by cases seen <;> rfl
  induction src with
  | nil => cases seen <;> cases h
  | cons i src ih =>
    cases i with
    | some b' =>
      cases seen <;> cases h <;> rw [frames_cons, silent] <;> rfl
    | none =>
      cases seen with
      | true => cases h
      | false => exact ih h

theorem frames_none {seen : Bool} {src rest : List (Option Byte)}
    (h : nextByte (huntWait seen) src = (none, rest)) :
    obFormat.frames (huntState seen) src = if seen then obFormat.frames .hunting rest else [] := by
  induction src with
  | nil => cases seen <;> cases h <;> rfl
  | cons i src ih =>
    cases i with
    | some b => cases seen <;> cases h
    | none =>
      cases seen with
      | true => cases h; rfl
      | false => exact ih h

theorem huntSof_spec (seen : Bool) (src : List (Option Byte)) :
    obFormat.frames (huntState seen) src = match huntSof seen src with
      | none => []
      | some rest => obFormat.frames (.collecting []) rest := by
  have apart : uartSof1 ≠ uartSof2 := by decide
  fun_induction huntSof seen src with
  | case1 seen src rest at_b ih =>
    have armed : (obFormat.step (huntState seen) (some uartSof1)).1 = .armed := by
      cases seen <;> rfl
    rw [← ih, frames_some at_b, armed]
    rfl
  | case2 seen src b rest at_b other locked =>
    obtain ⟨rfl, rfl⟩ := locked
    exact frames_some at_b
  | case3 seen src b rest at_b other unlocked ih =>
    have hunting : (obFormat.step (huntState seen) (some b)).1 = .hunting := by
      cases seen with
      | false => exact if_neg other
      | true =>
        have not_sof2 : b ≠ uartSof2 := fun same => unlocked ⟨same, rfl⟩
        exact (if_neg not_sof2).trans (if_neg other)
    rw [← ih, frames_some at_b, hunting]
    rfl
  | case4 src rest at_b ih =>
    rw [← ih, frames_none at_b]
    rfl
  | case5 seen src rest at_b unseen =>
    rw [frames_none at_b, if_neg unseen]

theorem readBytes_some {n : Nat} {src rest : List (Option Byte)} {data : List Byte}
    (h : readBytes n src = (some data, rest)) : src = data.map some ++ rest ∧ data.length = n := by
  induction n generalizing src data with
  | zero => cases h; exact ⟨rfl, rfl⟩
  | succ n ih =>
    unfold readBytes at h
    cases src with
    | nil => cases h
    | cons i src =>
      cases i with
      | none => cases h
      | some b =>
        simp only [nextByte] at h
        split at h
        · next data' rest' at_data =>
          cases h
          obtain ⟨rfl, rfl⟩ := ih at_data
          exact ⟨rfl, rfl⟩
        · cases h

theorem readBytes_none {n : Nat} {src rest : List (Option Byte)}
    (h : readBytes n src = (none, rest)) : ∃ data : List Byte, data.length < n ∧
      (src = data.map some ++ none :: rest ∨ src = data.map some ∧ rest = []) := by
  induction n generalizing src with
  | zero => cases h
  | succ n ih =>
    unfold readBytes at h
    cases src with
    | nil =>
      cases h
      exact ⟨[], Nat.succ_pos n, .inr ⟨rfl, rfl⟩⟩
    | cons i src =>
      cases i with
      | none =>
        cases h
        exact ⟨[], Nat.succ_pos n, .inl rfl⟩
      | some b =>
        simp only [nextByte] at h
        split at h
        · cases h
        · next rest' at_data =>
          cases h
          obtain ⟨data, short, split⟩ := ih at_data
          refine ⟨b :: data, Nat.succ_lt_succ short, ?_⟩
          rcases split with rfl | ⟨rfl, rfl⟩
          · exact .inl rfl
          · exact .inr ⟨rfl, rfl⟩

theorem frames_cut {got : List Byte} {n : Nat} {src rest : List (Option Byte)}
    (h : readBytes n src = (none, rest))
    (undecided : ∀ data : List Byte, data.length < n →
      obFormat.collect (got ++ data) = (.collecting (got ++ data), none)) :
    obFormat.frames (.collecting got) src = obFormat.frames .hunting rest := by
  obtain ⟨data, short, split⟩ := readBytes_none h
  have collected : obFormat.feed (.collecting got) (data.map some) =
      (.collecting (got ++ data), []) := by
    by_cases empty : data = []
    · subst empty
      simp
    · rw [feed_collecting _ empty, undecided data short]
      · rfl
      · intro k _ inside
        apply undecided
        rw [List.length_take]
        omega
  rcases split with rfl | ⟨rfl, rfl⟩
  · rw [frames_append, collected, frames_cons, step_gap]
    simp [Format.frames, collected]
  · simp [Format.frames, collected]

theorem frames_header {hdr : List Byte} (four : hdr.length = frameHdrLen)
    (rest : List (Option Byte)) :
    obFormat.frames (.collecting []) (hdr.map some ++ rest) =
      if (hdr.getD 2 0).toNat > maxPayload then obFormat.frames .hunting rest
      else obFormat.frames (.collecting hdr) rest := by
  have long : obFormat.header ≤ hdr.length := Nat.le_of_eq four.symm
  have head : (hdr.take obFormat.header).getD 2 0 = hdr.getD 2 0 := getD_take_two (by decide)
  have some : hdr ≠ [] := by
    rintro rfl
    cases four
  have fed := feed_collecting (F := obFormat) [] some fun k _ inside => by
    apply collect_short
    rw [List.nil_append, List.length_take, ← show hdr.length = obFormat.header from four]
    omega
  rw [List.nil_append] at fed
  rw [frames_append, Format.frames, fed]
  split
  · next excess =>
    rw [← head] at excess
    rw [collect_over long (obFormat_over excess)]
    rfl
  · next fits =>
    rw [← head] at fits
    rw [collect_long long (obFormat_total (Nat.not_lt.mp fits)), if_neg]
    · rfl
    · unfold frameOverhead
      unfold frameHdrLen at four
      omega

theorem collect_body {hdr data : List Byte} (four : hdr.length = frameHdrLen)
    (fits : ¬ (hdr.getD 2 0).toNat > maxPayload) :
    obFormat.collect (hdr ++ data) =
      if data.length = (hdr.getD 2 0).toNat + 4 then (.hunting, some (hdr ++ data))
      else (.collecting (hdr ++ data), none) := by
  have head : (hdr ++ data).take obFormat.header = hdr := List.take_left' four
  have long : obFormat.header ≤ (hdr ++ data).length := by
    rw [List.length_append, four]
    exact Nat.le_add_right _ _
  have length : (hdr ++ data).length = frameOverhead + (hdr.getD 2 0).toNat ↔
      data.length = (hdr.getD 2 0).toNat + 4 := by
    rw [List.length_append, four]
    unfold frameHdrLen frameOverhead
    omega
  rw [collect_long long ((congrArg _ head).trans (obFormat_total (Nat.not_lt.mp fits)))]
  simp only [length]

theorem recvSofFrame_spec (src : List (Option Byte)) :
    obFormat.frames .hunting src = match recvSofFrame src with
      | none => []
      | some (f, rest) => f :: obFormat.frames .hunting rest := by
  -- the cases are the ways one pass of the reader can end; three of them start over
  fun_induction recvSofFrame src with
  | case1 src hunted =>
    have skipped := huntSof_spec false src
    rw [hunted] at skipped
    exact skipped
  | case2 src src₁ hunted src₂ cut ih =>
    have skipped := huntSof_spec false src
    rw [hunted] at skipped
    rw [← ih]
    exact skipped.trans (frames_cut cut fun data short => collect_short short)
  | case3 src src₁ hunted hdr src₂ header len excess ih =>
    have skipped := huntSof_spec false src
    rw [hunted] at skipped
    obtain ⟨rfl, four⟩ := readBytes_some header
    rw [← ih]
    exact skipped.trans ((frames_header four src₂).trans (if_pos excess))
  | case4 src src₁ hunted hdr src₂ header len fits src₃ body ih =>
    have skipped := huntSof_spec false src
    rw [hunted] at skipped
    obtain ⟨rfl, four⟩ := readBytes_some header
    rw [← ih]
    refine skipped.trans (((frames_header four src₂).trans (if_neg fits)).trans ?_)
    exact frames_cut body fun data short =>
      (collect_body four fits).trans (if_neg (Nat.ne_of_lt short))
  | case5 src src₁ hunted hdr src₂ header len fits tail src₃ body =>
    have skipped := huntSof_spec false src
    rw [hunted] at skipped
    obtain ⟨rfl, four⟩ := readBytes_some header
    obtain ⟨rfl, rest⟩ := readBytes_some body
    refine skipped.trans (((frames_header four _).trans (if_neg fits)).trans ?_)
    have some : tail ≠ [] := by
      rintro rfl
      cases rest
    have fed := feed_collecting (F := obFormat) hdr some fun k _ inside => by
      apply (collect_body four fits).trans (if_neg _)
      rw [List.length_take]
      omega
    rw [collect_body four fits, if_pos rest] at fed
    rw [frames_append, Format.frames, fed]
    rfl

/-- The host reads the frames of the stream. -/
theorem recvAll_eq (src : List (Option Byte)) : recvAll src = obFormat.frames .hunting src := by
  fun_induction recvAll src with
  | case1 src received =>
    have spec := recvSofFrame_spec src
    rw [received] at spec
    exact spec.symm
  | case2 src f rest received ih =>
    have spec := recvSofFrame_spec src
    rw [received] at spec
    rw [ih]
    exact spec.symm

end OpenBoot
