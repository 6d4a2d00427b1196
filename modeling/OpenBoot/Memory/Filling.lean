import Mathlib.Data.List.Perm.Basic
import Mathlib.Tactic.Common

/-! A list filled by writes to addresses counted from an origin. Writes to distinct addresses
may be made in any order. -/

set_option autoImplicit false

namespace Filling

variable {α : Type} {origin k a : Nat} {v : α} {ws ws' : List (Nat × α)} {xs : List α}

def fill (origin : Nat) (ws : List (Nat × α)) (xs : List α) : List α :=
  ws.foldl (fun xs w => xs.set (w.1 - origin) w.2) xs

@[simp] theorem fill_nil : fill origin [] xs = xs := rfl

@[simp] theorem fill_cons {w : Nat × α} :
    fill origin (w :: ws) xs = fill origin ws (xs.set (w.1 - origin) w.2) := rfl

@[simp] theorem fill_length : (fill origin ws xs).length = xs.length := by
  induction ws generalizing xs with
  | nil => rfl
  | cons w ws ih => rw [fill_cons, ih, List.length_set]

theorem getElem?_fill_other (other : ∀ w ∈ ws, w.1 - origin ≠ k) :
    (fill origin ws xs)[k]? = xs[k]? := by
  induction ws generalizing xs with
  | nil => rfl
  | cons w ws ih =>
    obtain ⟨first, later⟩ := List.forall_mem_cons.mp other
    rw [fill_cons, ih later, List.getElem?_set_ne first]

theorem distinct_offsets (low : ∀ w ∈ ws, origin ≤ w.1) (inside : origin ≤ a)
    (fresh : a ∉ ws.map Prod.fst) : ∀ w ∈ ws, w.1 - origin ≠ a - origin := by
  intro w mem same
  have := low w mem
  have equal : w.1 = a := by omega
  exact fresh (equal ▸ List.mem_map_of_mem mem)

theorem getElem?_fill_mem (distinct : (ws.map Prod.fst).Nodup) (low : ∀ w ∈ ws, origin ≤ w.1)
    (mem : (a, v) ∈ ws) (inside : a - origin < xs.length) :
    (fill origin ws xs)[a - origin]? = some v := by
  induction ws generalizing xs with
  | nil => cases mem
  | cons w ws ih =>
    obtain ⟨fresh, distinct⟩ := List.nodup_cons.mp distinct
    obtain ⟨first, later⟩ := List.forall_mem_cons.mp low
    rcases List.mem_cons.mp mem with rfl | inRest
    · rw [fill_cons, getElem?_fill_other (distinct_offsets later first fresh),
        List.getElem?_set_self inside]
    · exact ih distinct later inRest (by rw [List.length_set]; exact inside)

theorem fill_perm (perm : ws.Perm ws') (distinct : (ws.map Prod.fst).Nodup)
    (low : ∀ w ∈ ws, origin ≤ w.1) : fill origin ws xs = fill origin ws' xs := by
  have distinct' := (perm.map Prod.fst).nodup_iff.mp distinct
  have low' : ∀ w ∈ ws', origin ≤ w.1 := fun w mem => low w (perm.mem_iff.mpr mem)
  apply List.ext_getElem?
  intro k
  by_cases inside : k < xs.length
  · by_cases written : ∃ w ∈ ws, w.1 - origin = k
    · obtain ⟨⟨a, v⟩, mem, rfl⟩ := written
      rw [getElem?_fill_mem distinct low mem inside,
        getElem?_fill_mem distinct' low' (perm.mem_iff.mp mem) inside]
    · have other : ∀ w ∈ ws, w.1 - origin ≠ k := fun w mem same => written ⟨w, mem, same⟩
      rw [getElem?_fill_other other,
        getElem?_fill_other fun w mem => other w (perm.mem_iff.mpr mem)]
  · rw [List.getElem?_eq_none (by rw [fill_length]; omega),
      List.getElem?_eq_none (by rw [fill_length]; omega)]

end Filling
