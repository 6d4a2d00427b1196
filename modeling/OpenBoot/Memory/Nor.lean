import Mathlib.Data.Set.Operations
import Mathlib.Order.Interval.Set.Basic
import Mathlib.Tactic.Common

/-! NOR flash: erasing sets every bit of a block, programming can only clear bits.

What a cell reads as is kept apart from what can still be programmed, because an
erased cell need not read as all ones: parts that scramble their array show a
fixed pattern there. `pattern` is that reading, by address.
-/

set_option autoImplicit false

namespace Nor

variable {n : Nat}

structure Cell (n : Nat) where
  bits : BitVec n
  seen : BitVec n
  deriving DecidableEq

/-- Programming ANDs the data into the cell, which then reads as stored. -/
def Cell.program (c : Cell n) (d : BitVec n) : Cell n := ⟨c.bits &&& d, c.bits &&& d⟩

abbrev Image (n : Nat) := Nat → Cell n

def blank (pattern : Nat → BitVec n) (a : Nat) : Cell n := ⟨BitVec.allOnes n, pattern a⟩

def erase (pattern : Nat → BitVec n) (m : Image n) (lo len : Nat) : Image n := fun a =>
  if lo ≤ a ∧ a < lo + len then blank pattern a else m a

def program (m : Image n) (lo : Nat) (data : List (BitVec n)) : Image n := fun a =>
  if lo ≤ a then
    match data[a - lo]? with
    | some d => (m a).program d
    | none => m a
  else m a

def read (m : Image n) (lo len : Nat) : List (BitVec n) :=
  (List.range len).map fun i => (m (lo + i)).seen

def Erased (pattern : Nat → BitVec n) (m : Image n) (lo len : Nat) : Prop :=
  ∀ a, lo ≤ a → a < lo + len → m a = blank pattern a

/-- The range holds exactly `data`, with no bit left that `data` keeps clear:
    programming the same bytes again changes nothing. -/
def Settled (m : Image n) (lo : Nat) (data : List (BitVec n)) : Prop :=
  ∀ i d, data[i]? = some d → m (lo + i) = ⟨d, d⟩

variable {pattern : Nat → BitVec n} {m m' : Image n} {lo len a : Nat} {data : List (BitVec n)}

theorem erase_inside (h : lo ≤ a) (h' : a < lo + len) :
    erase pattern m lo len a = blank pattern a := by simp [erase, h, h']

theorem erase_outside (h : a < lo ∨ lo + len ≤ a) : erase pattern m lo len a = m a := by
  unfold erase
  rw [if_neg (by omega)]

theorem program_outside (h : a < lo ∨ lo + data.length ≤ a) : program m lo data a = m a := by
  unfold program
  split
  · rw [List.getElem?_eq_none (by omega)]
  · rfl

theorem program_at {i : Nat} {d : BitVec n} (h : data[i]? = some d) :
    program m lo data (lo + i) = (m (lo + i)).program d := by
  simp [program, h]

theorem erase_eqOn {s : Set Nat} (h : ∀ a ∈ s, a < lo ∨ lo + len ≤ a) :
    s.EqOn (erase pattern m lo len) m := fun a mem => erase_outside (h a mem)

theorem program_eqOn {s : Set Nat} (h : ∀ a ∈ s, a < lo ∨ lo + data.length ≤ a) :
    s.EqOn (program m lo data) m := fun a mem => program_outside (h a mem)

@[simp] theorem read_length : (read m lo len).length = len := by simp [read]

theorem read_getElem? {i : Nat} (h : i < len) : (read m lo len)[i]? = some (m (lo + i)).seen := by
  simp [read, h]

theorem read_congr (h : (Set.Ico lo (lo + len)).EqOn m m') : read m lo len = read m' lo len := by
  apply List.map_congr_left
  intro i mem
  have bound := List.mem_range.mp mem
  rw [h ⟨by omega, by omega⟩]

theorem read_add (k : Nat) : read m lo (len + k) = read m lo len ++ read m (lo + len) k := by
  simp [read, List.range_add, Function.comp_def, Nat.add_assoc]

theorem read_eq_iff : read m lo data.length = data ↔
    ∀ i d, data[i]? = some d → (m (lo + i)).seen = d := by
  constructor
  · intro same i d at_i
    have bound := (List.getElem?_eq_some_iff.mp at_i).1
    have seen : (read m lo data.length)[i]? = some (m (lo + i)).seen := read_getElem? bound
    rw [same, at_i] at seen
    exact (Option.some.inj seen).symm
  · intro cells
    apply List.ext_getElem? fun i => ?_
    by_cases bound : i < data.length
    · rw [read_getElem? bound, List.getElem?_eq_getElem bound,
        cells i _ (List.getElem?_eq_getElem bound)]
    · rw [List.getElem?_eq_none (by simpa using bound), List.getElem?_eq_none (by omega)]

theorem erase_erased : Erased pattern (erase pattern m lo len) lo len :=
  fun _ h h' => erase_inside h h'

theorem Erased.congr (h : Erased pattern m lo len) (same : (Set.Ico lo (lo + len)).EqOn m' m) :
    Erased pattern m' lo len := fun a low high => (same ⟨low, high⟩).trans (h a low high)

theorem Erased.mono {lo' len' : Nat} (h : Erased pattern m lo len) (low : lo ≤ lo')
    (high : lo' + len' ≤ lo + len) : Erased pattern m lo' len' :=
  fun a _ _ => h a (by omega) (by omega)

theorem Erased.erase (h : Erased pattern m lo len) (lo' len' : Nat) :
    Erased pattern (Nor.erase pattern m lo' len') lo len := by
  intro a low high
  unfold Nor.erase
  split
  · rfl
  · exact h a low high

theorem Erased.erase_self (h : Erased pattern m lo len) : Nor.erase pattern m lo len = m := by
  funext a
  unfold Nor.erase
  split
  · next inside => exact (h a inside.1 inside.2).symm
  · rfl

theorem Erased.read (h : Erased pattern m lo len) :
    read m lo len = (List.range len).map fun i => pattern (lo + i) := by
  apply List.map_congr_left
  intro i mem
  have bound := List.mem_range.mp mem
  rw [h (lo + i) (by omega) (by omega)]
  rfl

theorem Settled.read (h : Settled m lo data) : read m lo data.length = data :=
  read_eq_iff.mpr fun i d at_i => by rw [h i d at_i]

theorem Settled.congr (h : Settled m lo data)
    (same : (Set.Ico lo (lo + data.length)).EqOn m' m) : Settled m' lo data := by
  intro i d at_i
  have bound := (List.getElem?_eq_some_iff.mp at_i).1
  rw [same ⟨by omega, by omega⟩]
  exact h i d at_i

theorem Settled.append {more : List (BitVec n)} (h : Settled m lo data)
    (next : Settled m (lo + data.length) more) : Settled m lo (data ++ more) := by
  intro i d at_i
  by_cases early : i < data.length
  · rw [List.getElem?_append_left early] at at_i
    exact h i d at_i
  · rw [List.getElem?_append_right (by omega)] at at_i
    have cell := next _ d at_i
    rwa [Nat.add_assoc, Nat.add_sub_cancel' (by omega)] at cell

theorem Settled.drop (h : Settled m lo data) (k : Nat) : Settled m (lo + k) (data.drop k) := by
  intro i d at_i
  rw [List.getElem?_drop] at at_i
  rw [Nat.add_assoc]
  exact h _ d at_i

theorem Settled.slice {before part after : List (BitVec n)}
    (h : Settled m lo (before ++ (part ++ after))) :
    Nor.read m (lo + before.length) part.length = part := by
  have tail := h.drop before.length
  rw [List.drop_left] at tail
  refine read_eq_iff.mpr fun i d at_i => ?_
  have bound := (List.getElem?_eq_some_iff.mp at_i).1
  rw [tail i d (by rwa [List.getElem?_append_left bound])]

/-- A cell that was just programmed and reads as the data is settled. -/
theorem settled_of_read (same : Nor.read (program m lo data) lo data.length = data) :
    Settled (program m lo data) lo data := by
  intro i d at_i
  have seen := read_eq_iff.mp same i d at_i
  -- a programmed cell reads as its bits, so the reading pins the bits down
  rw [program_at at_i] at seen ⊢
  unfold Cell.program at seen ⊢
  simp only at seen
  rw [seen]

/-- Programming settled data again, wholly or in part, changes nothing. -/
theorem Settled.program (h : Settled m lo data) (k : Nat) : Nor.program m lo (data.take k) = m := by
  funext a
  unfold Nor.program
  split
  · next low =>
    split
    · next d at_d =>
      have at_i : data[a - lo]? = some d := by
        rw [List.getElem?_take] at at_d
        split at at_d
        · exact at_d
        · cases at_d
      have cell := h _ _ at_i
      rw [Nat.add_sub_cancel' low] at cell
      simp [cell, Cell.program]
    · rfl
  · rfl

theorem Erased.program (h : Erased pattern m lo len) (fits : data.length ≤ len) :
    Settled (Nor.program m lo data) lo data := by
  intro i d at_i
  have bound := (List.getElem?_eq_some_iff.mp at_i).1
  rw [program_at at_i, h (lo + i) (by omega) (by omega)]
  simp [Cell.program, blank]

theorem program_blank (low : lo ≤ a) : Nor.program (blank pattern) lo data a =
    data[a - lo]?.elim (blank pattern a) fun d => ⟨d, d⟩ := by
  unfold program
  rw [if_pos low]
  cases data[a - lo]? with
  | none => rfl
  | some d => simp [Cell.program, blank]

theorem Settled.extend {more : List (BitVec n)} (h : Settled m lo data)
    (blank : Erased pattern m (lo + data.length) len) (fits : more.length ≤ len) :
    Settled (Nor.program m (lo + data.length) more) lo (data ++ more) ∧
      Erased pattern (Nor.program m (lo + data.length) more) (lo + data.length + more.length)
        (len - more.length) := by
  constructor
  · apply Settled.append
    · exact h.congr (program_eqOn fun a mem => .inl mem.2)
    · exact blank.program fits
  · exact (blank.mono (by omega) (by omega)).congr (program_eqOn fun a mem => .inr mem.1)

/-- Interrupted programming of an erased range: the prefix reads as the data,
    the rest still as erased. -/
theorem Erased.read_program (h : Erased pattern m lo len) (data : List (BitVec n))
    (fits : data.length ≤ len) :
    Nor.read (Nor.program m lo data) lo len =
      data ++ (List.range (len - data.length)).map fun i => pattern (lo + data.length + i) := by
  have split_len : len = data.length + (len - data.length) := by omega
  conv_lhs => rw [split_len]
  rw [read_add, (h.program fits).read]
  congr 1
  -- programming stops short of the rest
  have rest : Erased pattern (Nor.program m lo data) (lo + data.length) (len - data.length) :=
    (h.mono (by omega) (by omega)).congr (program_eqOn fun a mem => .inr mem.1)
  exact rest.read

end Nor
