import OpenBoot.Coding.Lfsr
import OpenBoot.Core.Protocol
import Mathlib.Data.List.GetD

/-! The nibble-table CRC as a shift register over the bits on the wire, and what
that makes of a frame's trailer. -/

set_option autoImplicit false

namespace OpenBoot

def crc32Poly : Word := 0xEDB88320

/-- A byte as UART sends it, least significant bit first. -/
def byteBits (b : Byte) : List Bool := (List.range 8).map b.getLsbD

def wireBits (data : List Byte) : List Bool := data.flatMap byteBits

@[simp] theorem byteBits_length (b : Byte) : (byteBits b).length = 8 := rfl

@[simp] theorem wireBits_nil : wireBits [] = [] := rfl

@[simp] theorem wireBits_cons (b : Byte) (data : List Byte) :
    wireBits (b :: data) = byteBits b ++ wireBits data := rfl

theorem wireBits_append (a b : List Byte) : wireBits (a ++ b) = wireBits a ++ wireBits b :=
  List.flatMap_append

theorem wireBits_length (data : List Byte) : (wireBits data).length = 8 * data.length := by
  induction data with
  | nil => rfl
  | cons b data ih =>
    rw [wireBits_cons, List.length_append, byteBits_length, ih, List.length_cons]
    omega

theorem getD_wireBits (data : List Byte) (i : Nat) :
    (wireBits data).getD i false = (data.getD (i / 8) 0).getLsbD (i % 8) := by
  induction data generalizing i with
  | nil => simp
  | cons b data ih =>
    rw [wireBits_cons]
    by_cases first : i < 8
    · have byte : i / 8 = 0 := by omega
      have bit : i % 8 = i := Nat.mod_eq_of_lt first
      rw [byte, bit, List.getD_append _ _ _ _ (by simpa using first), List.getD_cons_zero,
        List.getD_eq_getElem?_getD]
      simp [byteBits, first]
    · have byte : i / 8 = (i - 8) / 8 + 1 := by omega
      have bit : i % 8 = (i - 8) % 8 := by omega
      rw [List.getD_append_right _ _ _ _ (by simpa using first), byteBits_length, ih, byte,
        List.getD_cons_succ, bit]

theorem iterate_low_clear (n : Nat) {s : Word} (clear : ∀ i, i < n → s.getLsbD i = false) :
    (Lfsr.step crc32Poly)^[n] s = s >>> n := by
  induction n with
  | zero => rfl
  | succ n ih =>
    have low : (s >>> n).getLsbD 0 = false := by simpa using clear n (Nat.lt_succ_self n)
    rw [Function.iterate_succ_apply', ih fun i hi => clear i (Nat.lt_succ_of_lt hi), Lfsr.step, low,
      BitVec.shiftRight_add]
    rfl

theorem crc32Tab_eq : ∀ k : Fin 16,
    crc32Tab.getD k 0 = (Lfsr.step crc32Poly)^[4] (BitVec.ofNat 32 k) := by decide

theorem crc32Nibble_eq (s : Word) : crc32Nibble s = (Lfsr.step crc32Poly)^[4] s := by
  have bit : ∀ i, (0xF : Word).getLsbD i = decide (i < 4) := by
    intro i
    by_cases small : i < 32
    · interval_cases i <;> rfl
    · rw [BitVec.getLsbD_of_ge _ _ (Nat.not_lt.mp small), decide_eq_false (by omega)]
  have high_bit : ∀ i, (s &&& ~~~(0xF : Word)).getLsbD i = (s.getLsbD i && !decide (i < 4)) := by
    intro i
    rw [BitVec.getLsbD_and, BitVec.getLsbD_not, bit]
    by_cases inside : i < 32
    · simp [inside]
    · simp [BitVec.getLsbD_of_ge s i (Nat.not_lt.mp inside)]
  -- the low nibble goes through the table, the rest is only shifted down
  have split : s = (s &&& ~~~(0xF : Word)) ^^^ (s &&& 0xF) := by
    apply BitVec.eq_of_getLsbD_eq
    intro i _
    rw [BitVec.getLsbD_xor, high_bit, BitVec.getLsbD_and, bit]
    cases s.getLsbD i <;> cases decide (i < 4) <;> rfl
  have high : (Lfsr.step crc32Poly)^[4] (s &&& ~~~(0xF : Word)) = s >>> 4 := by
    rw [iterate_low_clear 4 fun i small => by rw [high_bit]; simp [small]]
    apply BitVec.eq_of_getLsbD_eq
    intro i _
    have above : ¬ 4 + i < 4 := by omega
    rw [BitVec.getLsbD_ushiftRight, BitVec.getLsbD_ushiftRight, high_bit]
    simp [above]
  have small : (s &&& 0xF).toNat < 16 := by
    rw [BitVec.toNat_and]
    exact Nat.lt_of_le_of_lt Nat.and_le_right (by decide)
  have low : crc32Tab.getD (s &&& 0xF).toNat 0 = (Lfsr.step crc32Poly)^[4] (s &&& 0xF) := by
    rw [crc32Tab_eq ⟨_, small⟩, BitVec.ofNat_toNat, BitVec.setWidth_eq]
  rw [crc32Nibble, low]
  conv => rhs; rw [split, Lfsr.iterate_xor, high]

theorem word_byteBits (b : Byte) : Lfsr.word 32 (byteBits b) = b.setWidth 32 := by
  apply BitVec.eq_of_getLsbD_eq
  intro i hi
  have bit := getD_wireBits [b] i
  rw [wireBits_cons, wireBits_nil, List.append_nil] at bit
  rw [Lfsr.getLsbD_word _ hi, bit, BitVec.getLsbD_setWidth, decide_eq_true hi, Bool.true_and]
  by_cases small : i < 8
  · have byte : i / 8 = 0 := by omega
    rw [byte, Nat.mod_eq_of_lt small]
    rfl
  · have byte : i / 8 = (i / 8 - 1) + 1 := by omega
    rw [byte, List.getD_cons_succ, BitVec.getLsbD_of_ge b i (by omega)]
    simp

/-- The firmware's CRC is the register fed bit by bit. -/
theorem crc32Update_eq (s : Word) (data : List Byte) :
    crc32Update s data = Lfsr.feed crc32Poly s (wireBits data) := by
  induction data generalizing s with
  | nil => rfl
  | cons b data ih =>
    have byte : crc32Byte s b = Lfsr.feed crc32Poly s (byteBits b) := by
      rw [crc32Byte, crc32Nibble_eq, crc32Nibble_eq, ← Function.iterate_add_apply,
        Lfsr.feed_word _ _ (by simp), word_byteBits, byteBits_length]
    rw [wireBits_cons, Lfsr.feed_append, ← byte, ← ih]
    rfl

/-- CRC-32/ISO-HDLC as the standard words it: all ones at both ends, and one bit at
    a time in between. -/
def crc32Hdlc (data : List Byte) : Word :=
  Lfsr.feed crc32Poly 0xFFFFFFFF (wireBits data) ^^^ 0xFFFFFFFF

theorem crc32_eq_hdlc (data : List Byte) : crc32 data = crc32Hdlc data :=
  congrArg crc32Final (crc32Update_eq crc32Init data)

theorem word_wireBits (p : List Byte) :
    Lfsr.word 32 (wireBits p) = get32 p := by
  apply BitVec.eq_of_getLsbD_eq
  intro i hi
  rw [Lfsr.getLsbD_word _ hi, getD_wireBits, getLsbD_get32 _ hi]

theorem crc32Poly_top : crc32Poly.msb = true := by decide

/-- What the register holds after a body and its own CRC. -/
def crc32Residue : Word := (Lfsr.step crc32Poly)^[32] 0xFFFFFFFF

/-- A trailer is the CRC of the body before it exactly if the register ends in
    the residue. -/
theorem crc32_eq_get32_iff (body : List Byte) {trailer : List Byte} (four : trailer.length = 4) :
    crc32 body = get32 trailer ↔
      Lfsr.feed crc32Poly crc32Init (wireBits (body ++ trailer)) = crc32Residue := by
  have bits : (wireBits trailer).length = 32 := by rw [wireBits_length, four]
  have tail := Lfsr.feed_word crc32Poly (crc32Update crc32Init body) (Nat.le_of_eq bits)
  rw [word_wireBits, bits] at tail
  rw [wireBits_append, Lfsr.feed_append, ← crc32Update_eq crc32Init body, tail, crc32, crc32Final,
    crc32Residue]
  generalize crc32Update crc32Init body = s
  generalize get32 trailer = t
  constructor
  · rintro rfl
    rw [← BitVec.xor_assoc, BitVec.xor_self, BitVec.zero_xor]
  · intro same
    have sum := Lfsr.iterate_inj crc32Poly_top same
    rw [← sum, ← BitVec.xor_assoc, BitVec.xor_self, BitVec.zero_xor]

def wireBit (data : List Byte) (i : Nat) : Bool := (data.getD (i / 8) 0).getLsbD (i % 8)

/-- Sealed data damaged within 32 consecutive bits is no longer sealed. -/
theorem burst_unsealed {body trailer body' trailer' : List Byte} (lo : Nat)
    (four : trailer.length = 4) (four' : trailer'.length = 4) (same : body'.length = body.length)
    (sealed : crc32 body = get32 trailer)
    (window : ∀ i, wireBit (body ++ trailer) i ≠ wireBit (body' ++ trailer') i →
      lo ≤ i ∧ i < lo + 32)
    (differ : ∃ i, wireBit (body ++ trailer) i ≠ wireBit (body' ++ trailer') i) :
    crc32 body' ≠ get32 trailer' := by
  intro sealed'
  have state := (crc32_eq_get32_iff body four).mp sealed
  have state' := (crc32_eq_get32_iff body' four').mp sealed'
  have bit : ∀ (data : List Byte) (i : Nat), (wireBits data).getD i false = wireBit data i :=
    getD_wireBits
  refine Lfsr.feed_ne crc32Poly_top lo ?_ (fun i at_i => ?_) ?_ crc32Init
    (state.trans state'.symm)
  · simp only [wireBits_length, List.length_append, four, four', same]
  · rw [bit, bit] at at_i
    exact window i at_i
  · intro equal
    obtain ⟨i, at_i⟩ := differ
    rw [← bit, ← bit, equal] at at_i
    exact at_i rfl

end OpenBoot
