import Mathlib.Tactic.Common
import Mathlib.Algebra.Group.Nat.Defs

/-! Hexadecimal digits of either case and the numbers they spell. -/

set_option autoImplicit false

namespace Hexadecimal

def digit (c : Char) : Option Nat :=
  if '0'.toNat ≤ c.toNat ∧ c.toNat ≤ '9'.toNat then some (c.toNat - '0'.toNat)
  else if 'a'.toNat ≤ c.toNat ∧ c.toNat ≤ 'f'.toNat then some (c.toNat - 'a'.toNat + 10)
  else if 'A'.toNat ≤ c.toNat ∧ c.toNat ≤ 'F'.toNat then some (c.toNat - 'A'.toNat + 10)
  else none

def IsHex (c : Char) : Prop := (digit c).isSome

instance (c : Char) : Decidable (IsHex c) := inferInstanceAs (Decidable (_ = true))

def nibble (c : Char) : Nat := (digit c).getD 0

theorem digit_eq_some {c : Char} {d : Nat} : digit c = some d ↔ IsHex c ∧ d = nibble c := by
  unfold IsHex nibble
  cases digit c with
  | none => simp
  | some e => simp [eq_comm]

theorem digit_lt {c : Char} {d : Nat} (h : digit c = some d) : d < 16 := by
  unfold digit at h
  simp only [Char.reduceToNat] at h
  split at h
  · cases h
    omega
  split at h
  · cases h
    omega
  split at h
  · cases h
    omega
  · cases h

theorem nibble_lt (c : Char) : nibble c < 16 := by
  unfold nibble
  cases h : digit c with
  | none => decide
  | some d => exact digit_lt h

theorem IsHex.ascii {c : Char} (h : IsHex c) : c.toNat < 128 := by
  by_contra beyond
  unfold IsHex digit at h
  simp only [Char.reduceToNat] at h
  rw [if_neg (by omega), if_neg (by omega), if_neg (by omega)] at h
  exact Bool.false_ne_true h

def valueFrom (acc : Nat) (s : List Char) : Nat := s.foldl (fun acc c => acc * 16 + nibble c) acc

def value (s : List Char) : Nat := valueFrom 0 s

@[simp] theorem valueFrom_nil (acc : Nat) : valueFrom acc [] = acc := rfl

@[simp] theorem valueFrom_cons (acc : Nat) (c : Char) (s : List Char) :
    valueFrom acc (c :: s) = valueFrom (acc * 16 + nibble c) s := rfl

theorem valueFrom_lt (acc : Nat) (s : List Char) :
    valueFrom acc s < (acc + 1) * 16 ^ s.length := by
  induction s generalizing acc with
  | nil => simp
  | cons c s ih =>
    have small := nibble_lt c
    calc valueFrom acc (c :: s) < (acc * 16 + nibble c + 1) * 16 ^ s.length := ih _
      _ ≤ ((acc + 1) * 16) * 16 ^ s.length := Nat.mul_le_mul_right _ (by omega)
      _ = (acc + 1) * 16 ^ (c :: s).length := by rw [Nat.mul_assoc, ← Nat.pow_succ', List.length_cons]

theorem value_lt (s : List Char) : value s < 16 ^ s.length := by
  simpa [value] using valueFrom_lt 0 s

end Hexadecimal
