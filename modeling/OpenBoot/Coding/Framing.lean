import Mathlib.Tactic.Common

/-! Frames behind a two-symbol start marker, read from a stream with gaps.

A header of fixed size tells how long the whole frame is, or that no frame
starts like this. Between frames everything up to the next marker is skipped,
and a gap inside a marker or a frame sends the reader back to hunting. A gap is
written `none`.
-/

set_option autoImplicit false

namespace Framing

structure Format (α : Type) where
  sof1 : α
  sof2 : α
  header : Nat
  /-- Length of the frame with this header. -/
  total : List α → Option Nat
  header_pos : 0 < header
  header_lt : ∀ {h : List α} {n : Nat}, total h = some n → header < n

inductive State (α : Type) where
  | hunting
  | armed
  | collecting (got : List α)
  deriving DecidableEq

variable {α : Type} {F : Format α}

def Format.collect (F : Format α) (got : List α) : State α × Option (List α) :=
  if got.length < F.header then (.collecting got, none)
  else
    match F.total (got.take F.header) with
    | none => (.hunting, none)
    | some n => if got.length = n then (.hunting, some got) else (.collecting got, none)

structure Format.Whole (F : Format α) (f : List α) : Prop where
  header : F.header ≤ f.length
  total : F.total (f.take F.header) = some f.length

theorem Format.Whole.ne_nil {f : List α} (whole : F.Whole f) : f ≠ [] := by
  rintro rfl
  have positive := F.header_pos
  have long := whole.header
  rw [List.length_nil] at long
  omega

theorem collect_short {got : List α} (short : got.length < F.header) :
    F.collect got = (.collecting got, none) := if_pos short

theorem collect_long {got : List α} (long : F.header ≤ got.length) {n : Nat}
    (total : F.total (got.take F.header) = some n) :
    F.collect got = if got.length = n then (.hunting, some got) else (.collecting got, none) := by
  unfold Format.collect
  rw [if_neg (Nat.not_lt.mpr long), total]

theorem collect_over {got : List α} (long : F.header ≤ got.length)
    (total : F.total (got.take F.header) = none) : F.collect got = (.hunting, none) := by
  unfold Format.collect
  rw [if_neg (Nat.not_lt.mpr long), total]

theorem collect_part {f got rest : List α} (whole : F.Whole f) (split : f = got ++ rest)
    (more : rest ≠ []) : F.collect got = (.collecting got, none) := by
  by_cases short : got.length < F.header
  · exact collect_short short
  · have long := Nat.not_lt.mp short
    have head : got.take F.header = f.take F.header := by
      rw [split, List.take_append_of_le_length long]
    have shorter : got.length ≠ f.length := by
      rw [split, List.length_append]
      have := List.length_pos_iff.mpr more
      omega
    rw [collect_long long ((congrArg F.total head).trans whole.total), if_neg shorter]

theorem collect_whole {f : List α} (whole : F.Whole f) : F.collect f = (.hunting, some f) := by
  rw [collect_long whole.header whole.total, if_pos rfl]

variable [DecidableEq α]

namespace Format

variable (F)

def step : State α → Option α → State α × Option (List α)
  | _, none => (.hunting, none)
  | .hunting, some b => (if b = F.sof1 then .armed else .hunting, none)
  | .armed, some b =>
    -- a repeated first symbol stays armed
    (if b = F.sof2 then .collecting [] else if b = F.sof1 then .armed else .hunting, none)
  | .collecting got, some b => F.collect (got ++ [b])

def feed : State α → List (Option α) → State α × List (List α)
  | s, [] => (s, [])
  | s, i :: rest =>
    let (s₁, out) := F.step s i
    let (s₂, outs) := feed s₁ rest
    (s₂, out.toList ++ outs)

def frames (s : State α) (stream : List (Option α)) : List (List α) := (F.feed s stream).2

def encode (f : List α) : List α := F.sof1 :: F.sof2 :: f

end Format

@[simp] theorem step_gap (s : State α) : F.step s none = (.hunting, none) := by cases s <;> rfl

@[simp] theorem feed_nil (s : State α) : F.feed s [] = (s, []) := rfl

theorem feed_cons (s : State α) (i : Option α) (rest : List (Option α)) :
    F.feed s (i :: rest) = ((F.feed (F.step s i).1 rest).1,
      (F.step s i).2.toList ++ (F.feed (F.step s i).1 rest).2) := rfl

theorem feed_append (s : State α) (a b : List (Option α)) :
    F.feed s (a ++ b) = ((F.feed (F.feed s a).1 b).1,
      (F.feed s a).2 ++ (F.feed (F.feed s a).1 b).2) := by
  induction a generalizing s with
  | nil => simp
  | cons i a ih =>
    rw [List.cons_append, feed_cons, ih, feed_cons]
    simp [List.append_assoc]

@[simp] theorem frames_nil (s : State α) : F.frames s [] = [] := rfl

theorem frames_cons (s : State α) (i : Option α) (rest : List (Option α)) :
    F.frames s (i :: rest) = (F.step s i).2.toList ++ F.frames (F.step s i).1 rest := rfl

theorem frames_append (s : State α) (a b : List (Option α)) :
    F.frames s (a ++ b) = F.frames s a ++ F.frames (F.feed s a).1 b := by
  unfold Format.frames
  rw [feed_append]

theorem feed_collecting (got : List α) {data : List α} (some : data ≠ [])
    (undecided : ∀ k, 0 < k → k < data.length →
      F.collect (got ++ data.take k) = (.collecting (got ++ data.take k), none)) :
    F.feed (.collecting got) (data.map Option.some) =
      ((F.collect (got ++ data)).1, (F.collect (got ++ data)).2.toList) := by
  induction data generalizing got with
  | nil => exact absurd rfl some
  | cons b data ih =>
    rw [List.map_cons, feed_cons]
    change ((F.feed (F.collect (got ++ [b])).1 (data.map Option.some)).1,
      (F.collect (got ++ [b])).2.toList ++
        (F.feed (F.collect (got ++ [b])).1 (data.map Option.some)).2) = _
    by_cases last : data = []
    · subst last
      simp
    · have positive := List.length_pos_iff.mpr last
      have first := undecided 1 Nat.one_pos (by rw [List.length_cons]; omega)
      rw [List.take_succ_cons, List.take_zero] at first
      rw [first, ih _ last]
      · simp
      · intro k more inside
        have next := undecided (k + 1) (Nat.succ_pos k) (by rw [List.length_cons]; omega)
        rw [List.take_succ_cons] at next
        simpa using next

/-- The frame `f` is found when these symbols have been read, and not before. -/
inductive Due (F : Format α) (f : List α) : State α → List α → Prop where
  | last {s : State α} {b : α} : F.step s (some b) = (.hunting, some f) → Due F f s [b]
  | more {s s' : State α} {b : α} {rest : List α} :
      F.step s (some b) = (s', none) → Due F f s' rest → Due F f s (b :: rest)

theorem due_collecting {f got rest : List α} (whole : F.Whole f) (split : f = got ++ rest)
    (more : rest ≠ []) : Due F f (.collecting got) rest := by
  induction rest generalizing got with
  | nil => exact absurd rfl more
  | cons b rest ih =>
    have split' : f = (got ++ [b]) ++ rest := by rw [split]; simp
    by_cases last : rest = []
    · subst last
      apply Due.last
      change F.collect (got ++ [b]) = _
      rw [← List.append_nil (got ++ [b]), ← split']
      exact collect_whole whole
    · exact .more (collect_part whole split' last) (ih split' last)

/-- A reader that hunts finds an encoded frame, whatever symbols it is made of. -/
theorem due_encode {f : List α} (whole : F.Whole f) : Due F f .hunting (F.encode f) := by
  have armed : F.step .hunting (some F.sof1) = (.armed, none) := by simp [Format.step]
  have opened : F.step .armed (some F.sof2) = (.collecting [], none) := by simp [Format.step]
  exact .more armed (.more opened (due_collecting whole rfl whole.ne_nil))

theorem Due.ne_nil {f bs : List α} {s : State α} (due : Due F f s bs) : bs ≠ [] := by
  cases due <;> exact List.cons_ne_nil _ _

end Framing
