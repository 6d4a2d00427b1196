import Mathlib.Logic.Function.Iterate
import Mathlib.Tactic.Common

/-! Linear feedback shift registers that consume a bit stream, low end first.

The register is linear in its state and its input together, and a shift loses
nothing when the feedback word has its top bit set. From these two facts: words
shorter than the register can be fed at once, and two streams that differ only
within a window of the register's width leave different states behind.
-/

set_option autoImplicit false

namespace Lfsr

variable {w : Nat} (poly : BitVec w)

/-- One shift toward the low end; the bit that falls out selects the feedback. -/
def step (s : BitVec w) : BitVec w :=
  if s.getLsbD 0 then (s >>> 1) ^^^ poly else s >>> 1

def bit (w : Nat) (b : Bool) : BitVec w := (BitVec.ofBool b).setWidth w

def feedBit (s : BitVec w) (b : Bool) : BitVec w := step poly (s ^^^ bit w b)

def feed (s : BitVec w) (v : List Bool) : BitVec w := v.foldl (feedBit poly) s

/-- A stream as a word, first bit lowest. -/
def word (w : Nat) (v : List Bool) : BitVec w := (BitVec.ofBoolListLE v).setWidth w

theorem step_xor (a b : BitVec w) : step poly (a ^^^ b) = step poly a ^^^ step poly b := by
  unfold step
  rw [BitVec.getLsbD_xor, BitVec.ushiftRight_xor_distrib]
  cases a.getLsbD 0 <;> cases b.getLsbD 0
  · simp
  · simp [BitVec.xor_assoc]
  · simp only [Bool.xor_false, if_true, Bool.false_eq_true, if_false]
    ac_rfl
  -- the two feedback words cancel
  · simp only [Bool.xor_self, Bool.false_eq_true, if_false, if_true]
    have cancel : (a >>> 1 ^^^ poly) ^^^ (b >>> 1 ^^^ poly) =
        (a >>> 1 ^^^ b >>> 1) ^^^ (poly ^^^ poly) := by ac_rfl
    rw [cancel, BitVec.xor_self, BitVec.xor_zero]

@[simp] theorem step_zero : step poly 0#w = 0#w := by simp [step]

theorem iterate_xor (n : Nat) (a b : BitVec w) :
    (step poly)^[n] (a ^^^ b) = (step poly)^[n] a ^^^ (step poly)^[n] b := by
  induction n generalizing a b with
  | zero => rfl
  | succ n ih => rw [Function.iterate_succ_apply, step_xor, ih]; rfl

@[simp] theorem bit_false : bit w false = 0#w := by simp [bit]

theorem bit_xor (a b : Bool) : bit w (a ^^ b) = bit w a ^^^ bit w b := by
  cases a <;> cases b <;> simp

theorem feedBit_xor (a b : BitVec w) (x y : Bool) :
    feedBit poly (a ^^^ b) (x ^^ y) = feedBit poly a x ^^^ feedBit poly b y := by
  unfold feedBit
  rw [← step_xor, bit_xor]
  congr 1
  ac_rfl

@[simp] theorem feed_nil (s : BitVec w) : feed poly s [] = s := rfl

@[simp] theorem feed_cons (s : BitVec w) (b : Bool) (v : List Bool) :
    feed poly s (b :: v) = feed poly (feedBit poly s b) v := rfl

theorem feed_append (s : BitVec w) (u v : List Bool) :
    feed poly s (u ++ v) = feed poly (feed poly s u) v := List.foldl_append

theorem feed_xor (a b : BitVec w) {u v : List Bool} (same : u.length = v.length) :
    feed poly (a ^^^ b) (List.zipWith xor u v) = feed poly a u ^^^ feed poly b v := by
  induction u generalizing a b v with
  | nil =>
    obtain rfl := List.length_eq_zero_iff.mp same.symm
    rfl
  | cons x u ih =>
    cases v with
    | nil => cases same
    | cons y v =>
      simp only [List.zipWith_cons_cons, feed_cons, feedBit_xor]
      exact ih _ _ (Nat.succ.inj same)

theorem feed_replicate_false (s : BitVec w) (n : Nat) :
    feed poly s (List.replicate n false) = (step poly)^[n] s := by
  induction n generalizing s with
  | zero => rfl
  | succ n ih =>
    rw [List.replicate_succ, feed_cons, ih, feedBit, bit_false, BitVec.xor_zero,
      Function.iterate_succ_apply]

section
variable {poly} (top : poly.msb = true)
include top

theorem step_eq_zero {a : BitVec w} (h : step poly a = 0#w) : a = 0#w := by
  unfold step at h
  split at h
  -- the feedback would leave its top bit behind
  · have high := congrArg BitVec.msb h
    rw [BitVec.msb_xor, top, BitVec.msb_ushiftRight] at high
    simp at high
  · next low =>
    apply BitVec.eq_of_getLsbD_eq
    intro i _
    cases i with
    | zero => simpa using low
    | succ i =>
      have shifted := congrArg (BitVec.getLsbD · i) h
      simpa [BitVec.getLsbD_ushiftRight, Nat.add_comm] using shifted

theorem iterate_eq_zero {n : Nat} {a : BitVec w} (h : (step poly)^[n] a = 0#w) :
    a = 0#w := by
  induction n generalizing a with
  | zero => exact h
  | succ n ih =>
    rw [Function.iterate_succ_apply] at h
    exact step_eq_zero top (ih h)

theorem iterate_inj {n : Nat} {a b : BitVec w} (h : (step poly)^[n] a = (step poly)^[n] b) :
    a = b := by
  have zero : (step poly)^[n] (a ^^^ b) = 0#w := by
    rw [iterate_xor, h, BitVec.xor_self]
  exact BitVec.xor_eq_zero_iff.mp (iterate_eq_zero top zero)

end

theorem getLsbD_word (v : List Bool) {i : Nat} (hi : i < w) :
    (word w v).getLsbD i = v.getD i false := by
  unfold word
  rw [BitVec.getLsbD_setWidth, BitVec.getLsbD_ofBoolListLE, decide_eq_true hi, Bool.true_and]

theorem word_cons (b : Bool) (v : List Bool) : word w (b :: v) = bit w b ^^^ word w v <<< 1 := by
  apply BitVec.eq_of_getLsbD_eq
  intro i hi
  rw [BitVec.getLsbD_xor, BitVec.getLsbD_shiftLeft, getLsbD_word _ hi]
  cases i with
  | zero => cases b <;> simp [bit, hi]
  | succ i =>
    have inside : i < w := by omega
    cases b <;> simp [bit, hi, getLsbD_word v inside]

/-- A word that leaves the top bit free is shifted up for nothing. -/
theorem step_shiftLeft {a : BitVec w} (free : ∀ i, w ≤ i + 1 → a.getLsbD i = false) :
    step poly (a <<< 1) = a := by
  have low : (a <<< 1).getLsbD 0 = false := by simp
  unfold step
  rw [low]
  simp only [Bool.false_eq_true, if_false]
  apply BitVec.eq_of_getLsbD_eq
  intro i hi
  rw [BitVec.getLsbD_ushiftRight, BitVec.getLsbD_shiftLeft]
  by_cases inside : 1 + i < w
  · simp [inside]
  · simp [inside, free i (by omega)]

theorem feed_word (s : BitVec w) {v : List Bool} (short : v.length ≤ w) :
    feed poly s v = (step poly)^[v.length] (s ^^^ word w v) := by
  induction v generalizing s with
  | nil => simp [word, BitVec.ofBoolListLE]
  | cons b v ih =>
    have room : v.length + 1 ≤ w := short
    have free : ∀ i, w ≤ i + 1 → (word w v).getLsbD i = false := by
      intro i high
      by_cases inside : i < w
      · rw [getLsbD_word v inside, List.getD_eq_getElem?_getD, List.getElem?_eq_none (by omega)]
        rfl
      · exact BitVec.getLsbD_of_ge _ _ (by omega)
    rw [feed_cons, ih _ (by omega), List.length_cons, Function.iterate_succ_apply, feedBit,
      word_cons, ← BitVec.xor_assoc, step_xor poly (s ^^^ bit w b), step_shiftLeft poly free]

theorem eq_replicate_of_getD {v : List Bool} (none : ∀ i, v.getD i false = false) :
    v = List.replicate v.length false := by
  apply List.eq_replicate_of_mem
  intro b mem
  obtain ⟨i, inside, rfl⟩ := List.getElem_of_mem mem
  have := none i
  rwa [List.getD_eq_getElem?_getD, List.getElem?_eq_getElem inside] at this

section
variable {poly} (top : poly.msb = true)
include top

theorem feed_short {v : List Bool} (short : v.length ≤ w) (some : true ∈ v) :
    feed poly 0#w v ≠ 0#w := by
  intro zero
  rw [feed_word poly 0#w short] at zero
  have none := iterate_eq_zero top zero
  rw [BitVec.zero_xor] at none
  obtain ⟨i, inside, set⟩ := List.getElem_of_mem some
  have bit := congrArg (BitVec.getLsbD · i) none
  simp only [getLsbD_word v (Nat.lt_of_lt_of_le inside short), BitVec.getLsbD_zero] at bit
  rw [List.getD_eq_getElem?_getD, List.getElem?_eq_getElem inside, set] at bit
  cases bit

/-- The same wherever the ones stand, as long as a window of the register's width
    holds them all. -/
theorem feed_window {v : List Bool} {lo : Nat}
    (window : ∀ i, v.getD i false = true → lo ≤ i ∧ i < lo + w) (some : true ∈ v) :
    feed poly 0#w v ≠ 0#w := by
  -- zeros before the window leave a zero register alone, and those after it are undone
  have before : v.take lo = List.replicate (v.take lo).length false := by
    apply eq_replicate_of_getD
    intro i
    by_contra set
    rw [Bool.not_eq_false, List.getD_eq_getElem?_getD, List.getElem?_take] at set
    split at set
    · next inside =>
      rw [← List.getD_eq_getElem?_getD] at set
      have := (window i set).1
      omega
    · cases set
  have after : (v.drop lo).drop w = List.replicate ((v.drop lo).drop w).length false := by
    apply eq_replicate_of_getD
    intro i
    by_contra set
    rw [Bool.not_eq_false, List.getD_eq_getElem?_getD, List.getElem?_drop, List.getElem?_drop,
      ← List.getD_eq_getElem?_getD] at set
    have := (window _ set).2
    omega
  have split : v = v.take lo ++ ((v.drop lo).take w ++ (v.drop lo).drop w) := by
    rw [List.take_append_drop, List.take_append_drop]
  have mem : true ∈ (v.drop lo).take w := by
    rw [split, List.mem_append, List.mem_append, before, after] at some
    rcases some with zero | inside | zero
    · exact absurd (List.eq_of_mem_replicate zero) (by decide)
    · exact inside
    · exact absurd (List.eq_of_mem_replicate zero) (by decide)
  intro zero
  rw [split, feed_append, feed_append, before, after, feed_replicate_false,
    feed_replicate_false] at zero
  have start : (step poly)^[(v.take lo).length] 0#w = 0#w := Function.iterate_fixed (step_zero poly) _
  rw [start] at zero
  exact feed_short top (List.length_take_le _ _) mem (iterate_eq_zero top zero)

/-- Two streams that differ, and only within a window of the register's width,
    are told apart. -/
theorem feed_ne {u v : List Bool} (lo : Nat) (same : u.length = v.length)
    (window : ∀ i, u.getD i false ≠ v.getD i false → lo ≤ i ∧ i < lo + w) (differ : u ≠ v)
    (s : BitVec w) : feed poly s u ≠ feed poly s v := by
  have at_i : ∀ i, (List.zipWith xor u v).getD i false = (u.getD i false ^^ v.getD i false) := by
    intro i
    simp only [List.getD_eq_getElem?_getD, List.getElem?_zipWith]
    by_cases inside : i < u.length
    · rw [List.getElem?_eq_getElem inside, List.getElem?_eq_getElem (by omega)]
      rfl
    · rw [List.getElem?_eq_none (by omega), List.getElem?_eq_none (by omega)]
      rfl
  have some : true ∈ List.zipWith xor u v := by
    by_contra none
    refine differ (List.ext_getElem same fun i hu hv => ?_)
    have equal : (List.zipWith xor u v).getD i false = false := by
      by_contra set
      rw [Bool.not_eq_false, List.getD_eq_getElem?_getD] at set
      cases found : (List.zipWith xor u v)[i]? with
      | none => rw [found] at set; cases set
      | some b =>
        rw [found] at set
        exact none (set ▸ List.mem_of_getElem? found)
    rw [at_i, List.getD_eq_getElem?_getD, List.getD_eq_getElem?_getD,
      List.getElem?_eq_getElem hu, List.getElem?_eq_getElem hv] at equal
    simpa using equal
  -- by linearity the registers differ by what the difference of the inputs leaves
  have trace : feed poly 0#w (List.zipWith xor u v) ≠ 0#w :=
    feed_window top (fun i set => window i fun equal => by
      rw [at_i, equal, Bool.xor_self] at set
      cases set) some
  intro equal
  apply trace
  have sum := feed_xor poly s s same
  rw [BitVec.xor_self, equal, BitVec.xor_self] at sum
  exact sum

end

end Lfsr
