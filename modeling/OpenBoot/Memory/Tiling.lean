import Mathlib.Data.List.Basic
import Mathlib.Tactic.Common

/-! Consecutive pieces of a range, each given by where it starts and how long it is. -/

set_option autoImplicit false

/-- The pieces lie end to end from the first number to the second, and none is empty. -/
inductive Tiles : Nat → Nat → List (Nat × Nat) → Prop where
  | nil (lo : Nat) : Tiles lo lo []
  | cons {lo n hi : Nat} {rest : List (Nat × Nat)} : 0 < n → Tiles (lo + n) hi rest →
      Tiles lo hi ((lo, n) :: rest)

namespace Tiles

variable {lo hi a : Nat} {ps : List (Nat × Nat)}

theorem single {n : Nat} (some : 0 < n) : Tiles lo (lo + n) [(lo, n)] := .cons some (.nil _)

theorem le (h : Tiles lo hi ps) : lo ≤ hi := by
  induction h with
  | nil => exact Nat.le_refl _
  | cons _ _ ih => exact Nat.le_trans (Nat.le_add_right _ _) ih

theorem inside (h : Tiles lo hi ps) : ∀ p ∈ ps, lo ≤ p.1 ∧ 0 < p.2 ∧ p.1 + p.2 ≤ hi := by
  induction h with
  | nil => exact List.forall_mem_nil _
  | cons some rest ih =>
    refine List.forall_mem_cons.mpr ⟨⟨Nat.le_refl _, some, rest.le⟩, fun p mem => ?_⟩
    obtain ⟨low, nonempty, high⟩ := ih p mem
    exact ⟨Nat.le_trans (Nat.le_add_right _ _) low, nonempty, high⟩

theorem apart (h : Tiles lo hi ps) : ps.Pairwise fun p q => p.1 + p.2 ≤ q.1 := by
  induction h with
  | nil => exact .nil
  | cons _ rest ih => exact .cons (fun q mem => (rest.inside q mem).1) ih

theorem covers (h : Tiles lo hi ps) :
    (∃ p ∈ ps, p.1 ≤ a ∧ a < p.1 + p.2) ↔ lo ≤ a ∧ a < hi := by
  induction h with
  | nil => simp
  | cons some rest ih =>
    have order := rest.le
    rw [List.exists_mem_cons_iff, ih]
    dsimp only
    omega

theorem flatten {A : Type} (h : Tiles lo hi ps) (xs : List A) :
    (ps.map fun p => (xs.drop p.1).take p.2).flatten = (xs.drop lo).take (hi - lo) := by
  induction h with
  | nil => simp
  | @cons lo n hi rest _ tail ih =>
    have order := tail.le
    have split : hi - lo = n + (hi - (lo + n)) := by omega
    rw [List.map_cons, List.flatten_cons, ih, split, List.take_add, List.drop_drop]

end Tiles
