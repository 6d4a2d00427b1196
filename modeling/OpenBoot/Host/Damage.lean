import OpenBoot.Host.Variants
import OpenBoot.Wire.Burst

/-! Damaged bundles: a burst in the file, or in its CRC field, is always noticed. -/

set_option autoImplicit false

namespace OpenBoot.Host.Bundle

def InCrcField (i : Nat) : Prop := 8 * 8 ≤ i ∧ i < 8 * 12

instance (i : Nat) : Decidable (InCrcField i) := inferInstanceAs (Decidable (_ ∧ _))

/-- The file as its CRC sees it. -/
def zeroed (raw : List Byte) : List Byte := raw.take 8 ++ put32 0 ++ raw.drop 12

theorem zeroed_length {raw : List Byte} (long : 12 ≤ raw.length) :
    (zeroed raw).length = raw.length := by
  simp only [zeroed, List.length_append, List.length_take, List.length_drop, put32_length]
  omega

theorem getD_zeroed {raw : List Byte} (long : 12 ≤ raw.length) (j : Nat) :
    (zeroed raw).getD j 0 = if 8 ≤ j ∧ j < 12 then 0 else raw.getD j 0 := by
  have head : (raw.take 8).length = 8 := List.length_take_of_le (by omega)
  rw [zeroed, List.append_assoc]
  by_cases first : j < 8
  · rw [List.getD_append _ _ _ _ (by omega), if_neg (by omega), List.getD_eq_getElem?_getD,
      List.getElem?_take_of_lt first, ← List.getD_eq_getElem?_getD]
  rw [List.getD_append_right _ _ _ _ (by omega), head]
  by_cases field : j < 12
  · have at_j : j = 8 ∨ j = 9 ∨ j = 10 ∨ j = 11 := by omega
    rw [if_pos ⟨by omega, field⟩]
    rcases at_j with rfl | rfl | rfl | rfl <;> rfl
  · have past : 12 + (j - 8 - 4) = j := by omega
    rw [List.getD_append_right _ _ _ _ (by rw [put32_length]; omega), put32_length, if_neg (by omega),
      List.getD_eq_getElem?_getD, List.getElem?_drop, past, ← List.getD_eq_getElem?_getD]

theorem wireBit_zeroed {raw : List Byte} (long : 12 ≤ raw.length) (i : Nat) :
    wireBit (zeroed raw) i = if InCrcField i then false else wireBit raw i := by
  unfold wireBit
  rw [getD_zeroed long]
  have field : (8 ≤ i / 8 ∧ i / 8 < 12) ↔ InCrcField i := by
    unfold InCrcField
    omega
  simp only [field]
  split
  · exact BitVec.getLsbD_zero
  · rfl

theorem getD_eq_of_wireBit {a b : List Byte} {j : Nat}
    (bits : ∀ i, i / 8 = j → wireBit a i = wireBit b i) : a.getD j 0 = b.getD j 0 := by
  apply BitVec.eq_of_getLsbD_eq
  intro k small
  have bit := bits (8 * j + k) (by omega)
  have byte : (8 * j + k) / 8 = j := by omega
  have rest : (8 * j + k) % 8 = k := by omega
  unfold wireBit at bit
  rwa [byte, rest] at bit

theorem eq_of_getD {a b : List Byte} (length : a.length = b.length)
    (bytes : ∀ j, a.getD j 0 = b.getD j 0) : a = b := by
  refine List.ext_getElem length fun j hj hj' => ?_
  have byte := bytes j
  rwa [List.getD_eq_getElem _ _ hj, List.getD_eq_getElem _ _ hj'] at byte

theorem crcField_eq {raw raw' : List Byte} (long : 12 ≤ raw.length) (long' : 12 ≤ raw'.length)
    (bytes : ∀ j, 8 ≤ j → j < 12 → raw.getD j 0 = raw'.getD j 0) :
    slice raw 8 12 = slice raw' 8 12 := by
  apply eq_of_getD
  · rw [slice_length long, slice_length long']
  · intro j
    by_cases inside : j < 4
    · have byte := bytes (8 + j) (by omega) (by omega)
      simp only [slice, List.getD_eq_getElem?_getD, List.getElem?_take, List.getElem?_drop, inside,
        if_true] at byte ⊢
      exact byte
    · rw [List.getD_eq_default _ _ (by rw [slice_length long]; omega),
        List.getD_eq_default _ _ (by rw [slice_length long']; omega)]

theorem slice_word {raw : List Byte} (long : 12 ≤ raw.length) :
    put32 (get32 (slice raw 8 12)) = slice raw 8 12 := by
  have four : (slice raw 8 12).length = 12 - 8 := slice_length long
  rw [put32_get32_take (by omega), List.take_of_length_le (by omega)]

theorem hash_inj_feed {a b : List Byte} (same : hash a = hash b) :
    Lfsr.feed crc32Poly 0xFFFFFFFF (wireBits a) = Lfsr.feed crc32Poly 0xFFFFFFFF (wireBits b) := by
  unfold hash crc32Hdlc at same
  have cancel := congrArg (· ^^^ (0xFFFFFFFF : Word)) same
  simpa [BitVec.xor_assoc] using cancel

/-- The CRC notices every burst outside its own field. -/
theorem zeroed_burst {raw raw' : List Byte} (burst : Burst raw raw') (long : 12 ≤ raw.length)
    (outside : ∀ i, wireBit raw i ≠ wireBit raw' i → ¬ InCrcField i) :
    hash (zeroed raw) ≠ hash (zeroed raw') := by
  intro same
  have long' : 12 ≤ raw'.length := by rw [burst.length]; exact long
  obtain ⟨lo, window⟩ := burst.window
  obtain ⟨at_, differ⟩ := burst.some
  have bits : ∀ i, (wireBits (zeroed raw)).getD i false ≠ (wireBits (zeroed raw')).getD i false →
      wireBit raw i ≠ wireBit raw' i := by
    intro i
    rw [getD_wireBits, getD_wireBits]
    change wireBit (zeroed raw) i ≠ wireBit (zeroed raw') i → _
    rw [wireBit_zeroed long, wireBit_zeroed long']
    split
    · exact fun different => absurd rfl different
    · exact id
  refine Lfsr.feed_ne crc32Poly_top lo ?_ (fun i different => window i (bits i different)) ?_
    0xFFFFFFFF (hash_inj_feed same)
  · rw [wireBits_length, wireBits_length, zeroed_length long, zeroed_length long', burst.length]
  · intro equal
    have bit := congrArg (List.getD · at_ false) equal
    simp only [getD_wireBits] at bit
    change wireBit (zeroed raw) at_ = wireBit (zeroed raw') at_ at bit
    rw [wireBit_zeroed long, wireBit_zeroed long', if_neg (outside at_ differ),
      if_neg (outside at_ differ)] at bit
    exact differ bit

/-- A damaged CRC field states another CRC. -/
theorem field_burst {raw raw' : List Byte} (burst : Burst raw raw') (long : 12 ≤ raw.length)
    (inside : ∀ i, wireBit raw i ≠ wireBit raw' i → InCrcField i) :
    get32 (slice raw 8 12) ≠ get32 (slice raw' 8 12) ∧ zeroed raw = zeroed raw' := by
  have long' : 12 ≤ raw'.length := by rw [burst.length]; exact long
  -- bits outside the field are the same, so all that differs is the stored CRC
  have kept : ∀ j, ¬ (8 ≤ j ∧ j < 12) → raw.getD j 0 = raw'.getD j 0 := by
    intro j other
    apply getD_eq_of_wireBit
    intro i at_i
    by_contra differ
    have field := inside i differ
    unfold InCrcField at field
    omega
  constructor
  · intro same
    have words := congrArg put32 same
    rw [slice_word long, slice_word long'] at words
    obtain ⟨i, differ⟩ := burst.some
    have field := inside i differ
    unfold InCrcField at field
    have byte : (slice raw 8 12).getD (i / 8 - 8) 0 = (slice raw' 8 12).getD (i / 8 - 8) 0 := by
      rw [words]
    have offset : 8 + (i / 8 - 8) = i / 8 := by omega
    simp only [slice, List.getD_eq_getElem?_getD, List.getElem?_take, List.getElem?_drop, offset] at byte
    rw [if_pos (by omega), if_pos (by omega)] at byte
    apply differ
    unfold wireBit
    rw [List.getD_eq_getElem?_getD, byte, ← List.getD_eq_getElem?_getD]
  · apply eq_of_getD
    · rw [zeroed_length long, zeroed_length long', burst.length]
    · intro j
      rw [getD_zeroed long, getD_zeroed long']
      split
      · rfl
      · next other => exact kept j other

theorem encode_crc (b : Bundle) : get32 (slice b.encode 8 12) = hash (zeroed b.encode) := by
  have field : slice b.encode 8 12 = put32 (hash (zeroed b.encode)) := by
    rw [zeroed, encode_eq]
    rfl
  rw [field, get32_put32]

/-- No damage is accepted: whatever bits of an encoded bundle are flipped within 32
    consecutive positions, all in the CRC field or none of them there. -/
theorem damaged_refused {b : Bundle} {raw : List Byte} (burst : Burst b.encode raw)
    (field : (∀ i, wireBit b.encode i ≠ wireBit raw i → InCrcField i) ∨
      ∀ i, wireBit b.encode i ≠ wireBit raw i → ¬ InCrcField i) :
    ∃ chain, parse raw = .error chain := by
  have long : 12 ≤ b.encode.length := by
    rw [encode_length]
    unfold headerLen
    omega
  cases parsed : parse raw with
  | error chain => exact ⟨chain, rfl⟩
  | ok b' =>
    exfalso
    have crc : get32 (slice raw 8 12) = hash (zeroed raw) := (parse_eq_ok.mp parsed).1.crc
    rcases field with inside | outside
    · obtain ⟨stated, seen⟩ := field_burst burst long inside
      rw [encode_crc, crc, seen] at stated
      exact stated rfl
    · have stated : slice b.encode 8 12 = slice raw 8 12 := by
        apply crcField_eq long (by rw [burst.length]; exact long)
        intro j low high
        apply getD_eq_of_wireBit
        intro i at_i
        by_contra differ
        apply outside i differ
        unfold InCrcField
        omega
      apply zeroed_burst burst long outside
      rw [← encode_crc, ← crc, stated]

/-- One image of one word, with the last of its 36 bytes overwritten. -/
def oneWord : Bundle := ⟨0, [⟨0x2000, [1, 2, 3, 4]⟩]⟩

theorem oneWord_burst : Burst oneWord.encode (oneWord.encode.set 35 5) where
  length := List.length_set
  window := by
    refine ⟨280, fun i differ => ?_⟩
    by_contra outside
    apply differ
    unfold wireBit
    have other : 35 ≠ i / 8 := by omega
    rw [List.getD_eq_getElem?_getD, List.getD_eq_getElem?_getD, List.getElem?_set_ne other]
  some := ⟨280, by decide +kernel⟩

theorem damaged_refused_word : ∃ chain, parse (oneWord.encode.set 35 5) = .error chain := by
  apply damaged_refused oneWord_burst
  right
  intro i differ field
  apply differ
  unfold InCrcField at field
  unfold wireBit
  have other : 35 ≠ i / 8 := by omega
  rw [List.getD_eq_getElem?_getD, List.getD_eq_getElem?_getD, List.getElem?_set_ne other]

end OpenBoot.Host.Bundle
