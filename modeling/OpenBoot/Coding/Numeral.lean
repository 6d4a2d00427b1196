import Mathlib.Data.List.Forall2
import Mathlib.Data.List.Induction
import Mathlib.Data.Nat.Digits.Defs
import OpenBoot.Coding.Hexadecimal

/-! Numerals in any base up to sixteen, and the ones that spell the same number in two. -/

set_option autoImplicit false

namespace Numeral

def digit (base : Nat) (c : Char) : Option Nat := (Hexadecimal.digit c).filter (· < base)

def digits (base : Nat) (s : List Char) : Option (List Nat) :=
  if s = [] then none else s.mapM (digit base)

def number (base : Nat) (ds : List Nat) : Nat := Nat.ofDigits base ds.reverse

variable {p q d : Nat} {c : Char} {s : List Char} {ds : List Nat}

theorem digit_eq_some : digit p c = some d ↔ Hexadecimal.digit c = some d ∧ d < p := by
  simp [digit, Option.filter_eq_some_iff]

theorem digit_lt (h : digit p c = some d) : d < p := (digit_eq_some.mp h).2

theorem digit_isHex (h : digit p c = some d) : Hexadecimal.IsHex c :=
  (Hexadecimal.digit_eq_some.mp (digit_eq_some.mp h).1).1

theorem digit_mono (le : p ≤ q) (h : digit p c = some d) : digit q c = some d := by
  obtain ⟨value, small⟩ := digit_eq_some.mp h
  exact digit_eq_some.mpr ⟨value, by omega⟩

theorem number_concat (ds : List Nat) (d : Nat) : number p (ds ++ [d]) = d + p * number p ds := by
  simp [number, Nat.ofDigits_cons]

theorem le_number {e : Nat} (positive : 0 < p) (mem : e ∈ ds) : e ≤ number p ds := by
  induction ds using List.reverseRecOn with
  | nil => cases mem
  | append_singleton ds d ih =>
    rw [number_concat]
    rcases List.mem_append.mp mem with before | last
    · have := ih before
      have := Nat.le_mul_of_pos_left (number p ds) positive
      omega
    · have := List.mem_singleton.mp last
      omega

theorem number_eq_number (positive : 0 < p) (lt : p < q) (small : ∀ e ∈ ds, e < p) :
    number p ds = number q ds ↔ number q ds < p := by
  induction ds using List.reverseRecOn with
  | nil => simpa [number] using positive
  | append_singleton ds d =>
    have grows : number p ds ≤ number q ds := Nat.ofDigits_monotone _ (Nat.le_of_lt lt)
    have below : d < p := small d (by simp)
    rw [number_concat, number_concat]
    constructor
    · intro same
      have nothing : number q ds = 0 := by
        by_contra more
        have := Nat.mul_le_mul_left p grows
        have := Nat.mul_lt_mul_of_pos_right lt (Nat.pos_of_ne_zero more)
        omega
      simpa [nothing] using below
    · intro single
      have nothing : number q ds = 0 := by
        by_contra more
        have := Nat.le_mul_of_pos_right q (Nat.pos_of_ne_zero more)
        omega
      have also : number p ds = 0 := by omega
      rw [nothing, also, Nat.mul_zero, Nat.mul_zero]

theorem digits_eq_some :
    digits p s = some ds ↔ s ≠ [] ∧ List.Forall₂ (fun c d => digit p c = some d) s ds := by
  have each : s.mapM (digit p) = some ds ↔ List.Forall₂ (fun c d => digit p c = some d) s ds := by
    induction s generalizing ds with
    | nil => simp [eq_comm]
    | cons c s ih =>
      rw [List.mapM_cons]
      cases ds with
      | nil => simp [Option.bind_eq_some_iff]
      | cons d ds => simp [Option.bind_eq_some_iff, ih]
  unfold digits
  by_cases nothing : s = []
  · simp [nothing]
  · simp [nothing, each]

theorem digits_ne_nil (h : digits p s = some ds) : s ≠ [] := (digits_eq_some.mp h).1

theorem exists_digit (h : digits p s = some ds) (mem : c ∈ s) : ∃ d, digit p c = some d := by
  have all := (digits_eq_some.mp h).2
  clear h
  induction all with
  | nil => cases mem
  | cons first _ ih =>
    rcases List.mem_cons.mp mem with rfl | later
    · exact ⟨_, first⟩
    · exact ih later

theorem digits_lt (h : digits p s = some ds) : ∀ d ∈ ds, d < p := by
  have all := (digits_eq_some.mp h).2
  clear h
  induction all with
  | nil => simp
  | cons first _ ih => exact List.forall_mem_cons.mpr ⟨digit_lt first, ih⟩

theorem digits_mono (le : p ≤ q) (h : digits p s = some ds) : digits q s = some ds := by
  obtain ⟨some, all⟩ := digits_eq_some.mp h
  exact digits_eq_some.mpr ⟨some, all.imp fun _ _ => digit_mono le⟩

theorem digits_of_lt (h : digits q s = some ds) (small : ∀ d ∈ ds, d < p) :
    digits p s = some ds := by
  obtain ⟨some, all⟩ := digits_eq_some.mp h
  refine digits_eq_some.mpr ⟨some, ?_⟩
  clear h some
  induction all with
  | nil => exact .nil
  | cons first _ ih =>
    obtain ⟨lt, rest⟩ := List.forall_mem_cons.mp small
    exact .cons (digit_eq_some.mpr ⟨(digit_eq_some.mp first).1, lt⟩) (ih rest)

end Numeral
