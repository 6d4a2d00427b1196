import Mathlib.Tactic.IntervalCases

/-! Bytes, 32-bit words and their little-endian form. -/

set_option autoImplicit false

namespace OpenBoot

abbrev Byte := BitVec 8
abbrev Word := BitVec 32

def get32 (p : List Byte) : Word :=
  (p.getD 0 0).setWidth 32 ||| (p.getD 1 0).setWidth 32 <<< 8 |||
    (p.getD 2 0).setWidth 32 <<< 16 ||| (p.getD 3 0).setWidth 32 <<< 24

def put32 (v : Word) : List Byte :=
  [v.setWidth 8, (v >>> 8).setWidth 8, (v >>> 16).setWidth 8, (v >>> 24).setWidth 8]

@[simp] theorem put32_length (v : Word) : (put32 v).length = 4 := rfl

theorem getLsbD_get32 (p : List Byte) {i : Nat} (hi : i < 32) :
    (get32 p).getLsbD i = (p.getD (i / 8) 0).getLsbD (i % 8) := by
  unfold get32
  interval_cases i <;> simp

theorem getD_put32 (v : Word) {j : Nat} (hj : j < 4) :
    (put32 v).getD j 0 = (v >>> (8 * j)).setWidth 8 := by
  interval_cases j <;> rfl

@[simp] theorem get32_put32_append (v : Word) (rest : List Byte) : get32 (put32 v ++ rest) = v := by
  apply BitVec.eq_of_getLsbD_eq
  intro i hi
  have inside : i / 8 < (put32 v).length := by rw [put32_length]; omega
  have byte : (put32 v ++ rest).getD (i / 8) 0 = (put32 v).getD (i / 8) 0 := by
    rw [List.getD_eq_getElem?_getD, List.getElem?_append_left inside,
      ← List.getD_eq_getElem?_getD]
  have split : 8 * (i / 8) + i % 8 = i := Nat.div_add_mod i 8
  have small : i % 8 < 8 := Nat.mod_lt _ (by decide)
  rw [getLsbD_get32 _ hi, byte, getD_put32 v inside]
  simp [split, small]

@[simp] theorem get32_put32 (v : Word) : get32 (put32 v) = v := by
  simpa using get32_put32_append v []

theorem put32_get32 (a b c d : Byte) : put32 (get32 [a, b, c, d]) = [a, b, c, d] := by
  have byte : ∀ j, j < 4 → (put32 (get32 [a, b, c, d])).getD j 0 = [a, b, c, d].getD j 0 := by
    intro j hj
    rw [getD_put32 _ hj]
    apply BitVec.eq_of_getLsbD_eq
    intro i hi
    have inside : 8 * j + i < 32 := by omega
    have index : (8 * j + i) / 8 = j := by omega
    have bit : (8 * j + i) % 8 = i := by omega
    simp only [BitVec.getLsbD_setWidth, BitVec.getLsbD_ushiftRight, hi, decide_true, Bool.true_and]
    rw [getLsbD_get32 _ inside, index, bit]
  have first := byte 0 (by decide)
  have second := byte 1 (by decide)
  have third := byte 2 (by decide)
  have fourth := byte 3 (by decide)
  simp only [put32, List.getD_cons_zero, List.getD_cons_succ] at *
  rw [first, second, third, fourth]

end OpenBoot
