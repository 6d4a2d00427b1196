import OpenBoot.Host.HexRecord
import Mathlib.Tactic.Ring

/-! The lines that `HexRecord::parse_line` accepts: the record grammar, and records with
leading signs. -/

set_option autoImplicit false

namespace OpenBoot.Host

open Hexadecimal

theorem digitsFrom_ok {max acc v : Nat} {s : List Char}
    (fits : (acc + 1) * 16 ^ s.length ≤ max + 1) :
    digitsFrom max acc s = .ok v ↔ (∀ c ∈ s, IsHex c) ∧ v = valueFrom acc s := by
  induction s generalizing acc with
  | nil => simp [digitsFrom, eq_comm]
  | cons c rest ih =>
    rw [List.length_cons, Nat.pow_succ'] at fits
    simp only [digitsFrom, List.forall_mem_cons, valueFrom_cons]
    cases spelled : digit c with
    | none =>
      have other : ¬ IsHex c := by simp [IsHex, spelled]
      simp [other]
    | some d =>
      obtain ⟨hex, rfl⟩ := digit_eq_some.mp spelled
      have small := nibble_lt c
      have room : (acc * 16 + nibble c + 1) * 16 ^ rest.length ≤ max + 1 := by
        calc (acc * 16 + nibble c + 1) * 16 ^ rest.length
            ≤ ((acc + 1) * 16) * 16 ^ rest.length := Nat.mul_le_mul_right _ (by omega)
          _ = (acc + 1) * (16 * 16 ^ rest.length) := Nat.mul_assoc ..
          _ ≤ max + 1 := fits
      have positive : 0 < 16 ^ rest.length := Nat.pow_pos (by decide)
      have below : ¬ max < acc * 16 + nibble c := by
        have := Nat.le_mul_of_pos_right (acc * 16 + nibble c + 1) positive
        omega
      simp only [if_neg below, ih room, hex, true_and]

namespace HexRecord

theorem unsign_of_ne {c : Char} (h : c ≠ '+') : unsign c = c := if_neg h

theorem unsigned_of_not_mem {s : List Char} (h : '+' ∉ s) : unsigned s = s := by
  apply (List.map_congr_left _).trans (List.map_id s)
  intro c mem
  exact unsign_of_ne fun sign => h (sign ▸ mem)

theorem not_isHex_plus : ¬ IsHex '+' := by decide

theorem fromStrRadix16_ok {max v : Nat} {s : List Char} (two : 2 ≤ s.length)
    (fits : 16 ^ s.length ≤ max + 1) :
    fromStrRadix16 max s = .ok v ↔
      '+' ∉ s.tail ∧ (∀ c ∈ unsigned s, IsHex c) ∧ v = value (unsigned s) := by
  match s, two with
  | c :: d :: rest, _ =>
    have several : ¬ ((c = '+' ∨ c = '-') ∧ d :: rest = []) := fun h => nomatch h.2
    have unsigned_of_hex : (∀ c ∈ d :: rest, IsHex c) ↔
        '+' ∉ d :: rest ∧ ∀ c ∈ unsigned (d :: rest), IsHex c := by
      constructor
      · intro hex
        have unsignedTail : '+' ∉ d :: rest := fun sign => not_isHex_plus (hex _ sign)
        rw [unsigned_of_not_mem unsignedTail]
        exact ⟨unsignedTail, hex⟩
      · rintro ⟨unsignedTail, hex⟩
        rwa [unsigned_of_not_mem unsignedTail] at hex
    have split : (∀ x ∈ unsigned (c :: d :: rest), IsHex x) ↔
        IsHex (unsign c) ∧ ∀ x ∈ unsigned (d :: rest), IsHex x := List.forall_mem_cons
    rw [fromStrRadix16, if_neg several, List.tail_cons, split]
    -- the parser skips one leading plus, which `unsigned` reads as a zero
    by_cases sign : c = '+'
    · subst sign
      have leading : IsHex (unsign '+') := by decide
      have shorter : (0 + 1) * 16 ^ (d :: rest).length ≤ max + 1 := by
        have := Nat.pow_le_pow_right (show 0 < 16 by decide)
          (show (d :: rest).length ≤ ('+' :: d :: rest).length by simp)
        omega
      rw [if_pos rfl, digitsFrom_ok shorter, unsigned_of_hex]
      constructor
      · rintro ⟨⟨plain, hex⟩, rfl⟩
        refine ⟨plain, ⟨leading, hex⟩, ?_⟩
        change valueFrom 0 (d :: rest) = valueFrom 0 (unsigned (d :: rest))
        rw [unsigned_of_not_mem plain]
      · rintro ⟨plain, ⟨-, hex⟩, rfl⟩
        refine ⟨⟨plain, hex⟩, ?_⟩
        change valueFrom 0 (unsigned (d :: rest)) = valueFrom 0 (d :: rest)
        rw [unsigned_of_not_mem plain]
    · have whole : (0 + 1) * 16 ^ (c :: d :: rest).length ≤ max + 1 := by omega
      rw [if_neg sign, digitsFrom_ok whole, List.forall_mem_cons, unsigned_of_hex,
        unsign_of_ne sign]
      constructor
      · rintro ⟨⟨first, plain, hex⟩, rfl⟩
        refine ⟨plain, ⟨first, hex⟩, ?_⟩
        rw [unsigned_of_not_mem (by simp [Ne.symm sign, List.mem_cons.not.mp plain])]
        rfl
      · rintro ⟨plain, ⟨first, hex⟩, rfl⟩
        refine ⟨⟨first, plain, hex⟩, ?_⟩
        rw [unsigned_of_not_mem (by simp [Ne.symm sign, List.mem_cons.not.mp plain])]
        rfl

theorem u32FromHex_ok {v : Nat} {s : List Char} (two : 2 ≤ s.length) (eight : s.length ≤ 8) :
    u32FromHex s = .ok v ↔ '+' ∉ s.tail ∧ (∀ c ∈ unsigned s, IsHex c) ∧ v = value (unsigned s) := by
  have fits : 16 ^ s.length ≤ 2 ^ 32 - 1 + 1 := Nat.pow_le_pow_right (by decide) eight
  rw [← fromStrRadix16_ok two fits, u32FromHex]
  cases fromStrRadix16 (2 ^ 32 - 1) s with
  | ok w => simp
  | error e => simp [bail]

theorem byteFromHex_ok {a b : Char} {byte : Byte} :
    byteFromHex [a, b] = .ok byte ↔ b ≠ '+' ∧ (IsHex (unsign a) ∧ IsHex (unsign b)) ∧
      byte = BitVec.ofNat 8 (value [unsign a, unsign b]) := by
  have parsed : ∀ v, fromStrRadix16 255 [a, b] = .ok v ↔ _ :=
    fun v => fromStrRadix16_ok le_rfl le_rfl
  simp only [unsigned, List.map_cons, List.map_nil, List.tail_cons, List.mem_singleton,
    List.forall_mem_cons, forall_eq] at parsed
  rw [byteFromHex]
  cases result : fromStrRadix16 255 [a, b] with
  | ok w =>
    obtain ⟨plain, hex, same⟩ := (parsed w).mp result
    simp [Ne.symm plain, hex, same, eq_comm]
  | error e =>
    constructor
    · exact nofun
    · rintro ⟨plain, hex, -⟩
      cases result.symm.trans ((parsed _).mpr ⟨Ne.symm plain, hex, rfl⟩)

/-- `hex_to_bytes` without its indices. -/
def pairs : List Char → Fallible (List Byte)
  | a :: b :: rest => do
    let byte ← byteFromHex [a, b]
    let bytes ← pairs rest
    return byte :: bytes
  | _ => pure []

theorem hexPairs_eq {s : List Char} {left i : Nat} (whole : i + 2 * left = s.length) :
    hexPairs s left i = Guarded.ofFallible (pairs (s.drop i)) := by
  induction left generalizing i with
  | zero =>
    rw [List.drop_of_length_le (by omega)]
    rfl
  | succ left ih =>
    have two : s.drop i = s[i] :: s[i + 1] :: s.drop (i + 2) := by
      rw [List.drop_eq_getElem_cons (by omega), List.drop_eq_getElem_cons (by omega)]
    rw [hexPairs, Guarded.slice_eq (Nat.le_add_right i 2) (by omega), ih (by omega), two]
    have pair : i + 2 - i = 2 := by omega
    simp only [pure_bind, pair, List.take_succ_cons, List.take_zero, pairs,
      Guarded.ofFallible_bind]
    rfl

theorem hexToBytes_eq {s : List Char} (even : s.length % 2 = 0) :
    hexToBytes s = Guarded.ofFallible (pairs s) := by
  rw [hexToBytes]
  simp only [even, ne_eq, not_true_eq_false, if_false]
  rw [hexPairs_eq (by omega), List.drop_zero]

theorem pairs_ok {s : List Char} {bytes : List Byte} (even : s.length % 2 = 0) :
    pairs s = .ok bytes ↔ (∀ j, s[2 * j + 1]? ≠ some '+') ∧ (∀ c ∈ unsigned s, IsHex c) ∧
      bytes = bytesOf (unsigned s) := by
  fun_induction pairs s generalizing bytes with
  | case1 a b rest ih =>
    have shorter : rest.length % 2 = 0 := by
      rw [List.length_cons, List.length_cons] at even
      omega
    -- of a pair only the high digit may be a sign
    have places : (∀ j, (a :: b :: rest)[2 * j + 1]? ≠ some '+') ↔
        b ≠ '+' ∧ ∀ j, rest[2 * j + 1]? ≠ some '+' := by
      constructor
      · intro plain
        refine ⟨fun sign => plain 0 (by simp [sign]), fun j => ?_⟩
        have later := plain (j + 1)
        rwa [show 2 * (j + 1) + 1 = 2 * j + 1 + 1 + 1 by omega, List.getElem?_cons_succ,
          List.getElem?_cons_succ] at later
      · rintro ⟨first, later⟩ j
        cases j with
        | zero => simpa using first
        | succ j =>
          rw [show 2 * (j + 1) + 1 = 2 * j + 1 + 1 + 1 by omega, List.getElem?_cons_succ,
            List.getElem?_cons_succ]
          exact later j
    have unsignedCons : unsigned (a :: b :: rest) = unsign a :: unsign b :: unsigned rest := rfl
    simp only [bind_eq_ok, byteFromHex_ok, ih shorter, places, unsignedCons, List.forall_mem_cons,
      bytesOf]
    constructor
    · rintro ⟨_, ⟨plain, ⟨first, second⟩, rfl⟩, _, ⟨later, hex, rfl⟩, made⟩
      exact ⟨⟨plain, later⟩, ⟨first, second, hex⟩, (Except.ok.inj made).symm⟩
    · rintro ⟨⟨plain, later⟩, ⟨first, second, hex⟩, rfl⟩
      exact ⟨_, ⟨plain, ⟨first, second⟩, rfl⟩, _, ⟨later, hex, rfl⟩, rfl⟩
  | case2 s short =>
    match s, short, even with
    | [], _, _ => simp [unsigned, bytesOf, eq_comm]; exact ⟨Except.ok.inj, congrArg _⟩
    | [_], _, odd => exact absurd odd (by simp)
    | a :: b :: rest, short, _ => exact absurd rfl (short a b rest)

theorem hexToBytes_safe (s : List Char) : Guarded.Safe (hexToBytes s) := by
  rw [hexToBytes]
  apply Guarded.Safe.check
  intro even
  rw [hexPairs_eq (by omega)]
  exact .ofFallible _

theorem parseLine_safe (text : List Char) : Guarded.Safe (parseLine text) := by
  unfold parseLine
  apply Guarded.Safe.check
  intro _
  apply Guarded.Safe.check
  intro _
  apply Guarded.Safe.check
  -- from here on the line is long enough for every slice of the header
  intro long
  refine .bind (.slice (by omega) (by omega)) fun countHex _ => ?_
  refine .bind (.ofFallible _) fun n _ => ?_
  refine .bind (.slice (by omega) (by omega)) fun addrHex _ => ?_
  refine .bind (.ofFallible _) fun addr _ => ?_
  refine .bind (.slice (by omega) (by omega)) fun typeHex _ => ?_
  refine .bind (.ofFallible _) fun t _ => ?_
  apply Guarded.Safe.check
  intro _
  apply Guarded.Safe.check
  -- and from here on for the data, which the length check has just promised
  intro room
  apply Guarded.Safe.check
  intro _
  refine .bind (.slice (by omega) (by omega)) fun checkedHex _ => ?_
  refine .bind (hexToBytes_safe _) fun checked _ => ?_
  apply Guarded.Safe.check
  intro _
  refine .bind (.slice (by omega) (by omega)) fun dataHex _ => ?_
  split
  · exact .bind (hexToBytes_safe _) fun bytes _ => .pure _
  · exact .check fun _ => .pure _
  · exact .bind (.ofFallible _) fun value _ => .pure _
  · exact .bind (.ofFallible _) fun value _ => .pure _
  · exact .pure _

def field (text : List Char) (lo hi : Nat) : List Char := (text.drop lo).take (hi - lo)

section
variable {text : List Char} {lo mid hi : Nat}

theorem getElem?_field (i : Nat) :
    (field text lo hi)[i]? = if lo + i < hi then text[lo + i]? else none := by
  rw [field, List.getElem?_take, List.getElem?_drop]
  congr 1
  apply propext
  omega

theorem field_length (inside : hi ≤ text.length) : (field text lo hi).length = hi - lo := by
  rw [field, List.length_take, List.length_drop]
  omega

theorem unsigned_field : unsigned (field text lo hi) = field (unsigned text) lo hi := by
  rw [field, unsigned, List.map_take, List.map_drop]
  rfl

theorem field_append (left : lo ≤ mid) (right : mid ≤ hi) :
    field text lo hi = field text lo mid ++ field text mid hi := by
  have whole : hi - lo = (mid - lo) + (hi - mid) := by omega
  have past : lo + (mid - lo) = mid := by omega
  rw [field, whole, List.take_add, List.drop_drop, past]
  rfl

theorem field_rest : field text 1 text.length = text.tail := by
  rw [field, List.drop_one]
  exact List.take_of_length_le (by rw [List.length_tail])

theorem mem_field {c : Char} (mem : c ∈ field text (lo + 1) hi) : c ∈ text.tail := by
  rw [← List.drop_one]
  rw [field, Nat.add_comm, ← List.drop_drop] at mem
  exact List.mem_of_mem_drop (List.mem_of_mem_take mem)

theorem u32FromHex_field {v : Nat} (two : lo + 2 ≤ hi) (eight : hi ≤ lo + 8)
    (inside : hi ≤ text.length) :
    u32FromHex (field text lo hi) = .ok v ↔ (∀ i, lo < i → i < hi → text[i]? ≠ some '+') ∧
      (∀ c ∈ field (unsigned text) lo hi, IsHex c) ∧ v = value (field (unsigned text) lo hi) := by
  have length : (field text lo hi).length = hi - lo := field_length inside
  have places : '+' ∉ (field text lo hi).tail ↔
      ∀ i, lo < i → i < hi → text[i]? ≠ some '+' := by
    rw [List.mem_iff_getElem?]
    constructor
    · intro none i above below sign
      refine none ⟨i - lo - 1, ?_⟩
      rw [List.getElem?_tail, getElem?_field, if_pos (by omega), ← sign]
      congr 1
      omega
    · rintro plain ⟨i, sign⟩
      rw [List.getElem?_tail, getElem?_field] at sign
      split at sign
      · next below => exact plain _ (by omega) below sign
      · cases sign
  rw [u32FromHex_ok (by omega) (by omega), places, unsigned_field]

end

/-! ### Bytes and their digits -/

theorem value_append (s t : List Char) : value (s ++ t) = value s * 16 ^ t.length + value t := by
  have shifted : ∀ acc, valueFrom acc t = acc * 16 ^ t.length + value t := by
    unfold value
    induction t with
    | nil => simp
    | cons c t ih =>
      intro acc
      rw [valueFrom_cons, ih, valueFrom_cons, ih (0 * 16 + nibble c), List.length_cons,
        Nat.pow_succ]
      ring
  rw [← shifted]
  exact List.foldl_append

theorem bytesOf_drop (s : List Char) (k : Nat) : (bytesOf s).drop k = bytesOf (s.drop (2 * k)) := by
  induction k generalizing s with
  | zero => rfl
  | succ k ih =>
    match s with
    | [] => rfl
    | [a] =>
      rw [List.drop_of_length_le (show [a].length ≤ 2 * (k + 1) by rw [List.length_singleton]; omega)]
      rfl
    | a :: b :: rest => exact ih rest

theorem bytesOf_take (s : List Char) (k : Nat) : (bytesOf s).take k = bytesOf (s.take (2 * k)) := by
  induction k generalizing s with
  | zero => rfl
  | succ k ih =>
    match s with
    | [] => rfl
    | [a] => rfl
    | a :: b :: rest => exact congrArg _ (ih rest)

theorem bytesOf_getD {s : List Char} {k : Nat} (inside : 2 * k + 2 ≤ s.length) :
    ((bytesOf s).getD k 0).toNat = value ((s.drop (2 * k)).take 2) := by
  have two : s.drop (2 * k) = s[2 * k] :: s[2 * k + 1] :: s.drop (2 * k + 2) := by
    rw [List.drop_eq_getElem_cons (by omega), List.drop_eq_getElem_cons (by omega)]
  have first : (bytesOf s).getD k 0 = ((bytesOf s).drop k).getD 0 0 := by
    rw [List.getD_eq_getElem?_getD, List.getD_eq_getElem?_getD, List.getElem?_drop, Nat.add_zero]
  rw [first, bytesOf_drop, two]
  exact Nat.mod_eq_of_lt (value_lt [s[2 * k], s[2 * k + 1]])

section
variable {text : List Char}

theorem count_eq (long : 3 ≤ text.length) : count text = value (field text 1 3) := by
  unfold count recordBytes
  rw [bytesOf_getD (by rw [List.length_tail]; omega)]
  simp only [field, ← List.drop_one, List.drop_drop]

theorem address_eq (long : 7 ≤ text.length) : address text = value (field text 3 7) := by
  have high : value (field text 3 5) = ((recordBytes text).getD 1 0).toNat := by
    unfold recordBytes
    rw [bytesOf_getD (by rw [List.length_tail]; omega), ← List.drop_one, List.drop_drop]
    rfl
  have low : value (field text 5 7) = ((recordBytes text).getD 2 0).toNat := by
    unfold recordBytes
    rw [bytesOf_getD (by rw [List.length_tail]; omega), ← List.drop_one, List.drop_drop]
    rfl
  rw [field_append (show 3 ≤ 5 by decide) (show 5 ≤ 7 by decide), value_append,
    field_length long, high, low]
  rfl

theorem recordType_eq (long : 9 ≤ text.length) : recordType text = value (field text 7 9) := by
  unfold recordType recordBytes
  rw [bytesOf_getD (by rw [List.length_tail]; omega)]
  simp only [field, ← List.drop_one, List.drop_drop]

theorem payload_eq : payload text = bytesOf (field text 9 (9 + count text * 2)) := by
  unfold payload recordBytes field
  rw [bytesOf_drop, bytesOf_take, ← List.drop_one, List.drop_drop, Nat.add_sub_cancel_left,
    Nat.mul_comm]

theorem payloadValue_eq (two : count text = 2) (long : 13 ≤ text.length) :
    payloadValue text = value (field text 9 13) := by
  have data : payload text = bytesOf (field text 9 13) := by rw [payload_eq, two]
  have length : (field text 9 13).length = 4 := field_length long
  have parts : field text 9 13 = field text 9 11 ++ field text 11 13 :=
    field_append (by decide) (by decide)
  have left : (field text 9 11).length = 2 := field_length (by omega)
  have right : (field text 11 13).length = 2 := field_length long
  have high : value (field text 9 11) = ((payload text).getD 0 0).toNat := by
    rw [data, bytesOf_getD (by omega), parts, Nat.mul_zero, List.drop_zero, List.take_left' left]
  have low : value (field text 11 13) = ((payload text).getD 1 0).toNat := by
    rw [data, bytesOf_getD (by omega), parts, Nat.mul_one, List.drop_left' left,
      List.take_of_length_le right.le]
  rw [parts, value_append, right, high, low]
  rfl

end

/-! ### What is accepted -/

theorem sum_eq (bytes : List Byte) :
    (bytes.foldl (· + ·) 0).toNat = (bytes.map BitVec.toNat).sum % 256 := by
  have from_ : ∀ acc : Byte, (bytes.foldl (· + ·) acc).toNat =
      (acc.toNat + (bytes.map BitVec.toNat).sum) % 256 := by
    induction bytes with
    | nil => intro acc; simpa using (Nat.mod_eq_of_lt acc.isLt).symm
    | cons b rest ih =>
      intro acc
      rw [List.foldl_cons, ih, BitVec.toNat_add, List.map_cons, List.sum_cons]
      omega
  simpa using from_ 0

@[simp] theorem isAscii_iff {s : List Char} : isAscii s = true ↔ ∀ c ∈ s, c.toNat < 128 := by
  simp [isAscii]

structure Scanned (text : List Char) (n addr t : Nat) : Prop where
  colon : text.head? = some ':'
  ascii : ∀ c ∈ text, c.toNat < 128
  length : text.length = 11 + 2 * n
  countHex : u32FromHex (field text 1 3) = .ok n
  addrHex : u32FromHex (field text 3 7) = .ok addr
  typeHex : u32FromHex (field text 7 9) = .ok t
  sum : ∃ checked, hexToBytes text.tail = pure checked ∧ checked.foldl (· + ·) 0 = 0

def ofType (n addr t : Nat) (dataHex : List Char) : Guarded HexRecord :=
  match t with
  | 0 => do
    let bytes ← hexToBytes dataHex
    return .data (BitVec.ofNat 16 addr) bytes
  | 1 => do
    if n ≠ 0 ∨ addr ≠ 0 then
      Guarded.ofFallible (bail "intel hex: EOF record must have byte count 0 and address 0000")
    return .eof
  | 2 => do
    let value ← Guarded.ofFallible (extendedValue t n dataHex)
    return .extendedSegment value
  | 4 => do
    let value ← Guarded.ofFallible (extendedValue t n dataHex)
    return .extendedLinear value
  | _ => return .ignored

theorem parseLine_eq_pure {text : List Char} {r : HexRecord} : parseLine text = pure r ↔
    ∃ n addr t, Scanned text n addr t ∧ ofType n addr t (field text 9 (9 + n * 2)) = pure r := by
  unfold parseLine
  simp only [↓Guarded.bail_bind, Guarded.ite_bail_eq_pure, Guarded.bind_eq_pure,
    Guarded.slice_eq_pure, Guarded.ofFallible_eq_pure, Decidable.not_not, not_lt, ne_eq, gt_iff_lt,
    isAscii_iff]
  constructor
  · rintro ⟨colon, ascii, long, _, ⟨-, rfl⟩, n, countHex, _, ⟨-, rfl⟩, addr, addrHex, _, ⟨-, rfl⟩, t,
      typeHex, -, room, tight, _, ⟨-, rfl⟩, checked, read, zero, _, ⟨-, rfl⟩, made⟩
    have length : text.length = 9 + n * 2 + 2 := Nat.le_antisymm tight room
    have rest : (text.drop 1).take (9 + n * 2 + 2 - 1) = text.tail := by
      rw [← length]
      exact field_rest
    exact ⟨n, addr, t, ⟨colon, ascii, by omega, countHex, addrHex, typeHex, checked, rest ▸ read, zero⟩,
      made⟩
  · rintro ⟨n, addr, t, ⟨colon, ascii, length, countHex, addrHex, typeHex, checked, read, zero⟩, made⟩
    have rest : (text.drop 1).take (9 + n * 2 + 2 - 1) = text.tail := by
      rw [show 9 + n * 2 + 2 = text.length by omega]
      exact field_rest
    exact ⟨colon, ascii, by omega, _, ⟨by omega, rfl⟩, n, countHex, _, ⟨by omega, rfl⟩, addr, addrHex,
      _, ⟨by omega, rfl⟩, t, typeHex, by omega, by omega, by omega, _, ⟨by omega, rfl⟩, checked,
      rest.symm ▸ read, zero, _, ⟨by omega, rfl⟩, made⟩

theorem hexToBytes_ok {s : List Char} {bytes : List Byte} (even : s.length % 2 = 0) :
    hexToBytes s = pure bytes ↔ (∀ j, s[2 * j + 1]? ≠ some '+') ∧ (∀ c ∈ unsigned s, IsHex c) ∧
      bytes = bytesOf (unsigned s) := by
  rw [hexToBytes_eq even, Guarded.ofFallible_eq_pure, pairs_ok even]

theorem unsigned_length (text : List Char) : (unsigned text).length = text.length := List.length_map _

theorem unsigned_tail (text : List Char) : (unsigned text).tail = unsigned text.tail :=
  List.map_tail.symm

theorem unsigned_colon {text : List Char} : (unsigned text).head? = some ':' ↔
    text.head? = some ':' := by
  cases text with
  | nil => exact Iff.rfl
  | cons c rest =>
    change some (unsign c) = some ':' ↔ some c = some ':'
    by_cases sign : c = '+'
    · subst sign
      decide
    · rw [unsign_of_ne sign]

def ScannedSigns (text : List Char) : Prop := ∀ i, text[i]? = some '+' → i % 2 = 1 ∧ i ≠ 5

theorem ascii_of_hex {text : List Char} (colon : text.head? = some ':')
    (hex : ∀ c ∈ (unsigned text).tail, IsHex c) : ∀ c ∈ text, c.toNat < 128 := by
  match text, colon with
  | _ :: rest, rfl =>
    intro c mem
    rcases List.mem_cons.mp mem with rfl | inside
    · decide
    · have unsignHex : IsHex (unsign c) := hex _ (List.mem_map_of_mem inside)
      by_cases sign : c = '+'
      · subst sign
        decide
      · rw [unsign_of_ne sign] at unsignHex
        exact unsignHex.ascii

theorem scanned_iff {text : List Char} {n addr t : Nat} : Scanned text n addr t ↔
    (ScannedSigns text ∧ text.head? = some ':' ∧ (∀ c ∈ (unsigned text).tail, IsHex c) ∧
      text.length = 11 + 2 * n ∧ ((recordBytes (unsigned text)).map BitVec.toNat).sum % 256 = 0) ∧
        n = count (unsigned text) ∧ addr = address (unsigned text) ∧
          t = recordType (unsigned text) := by
  have tail_get : ∀ j, text.tail[2 * j + 1]? = text[2 * j + 2]? := fun j => List.getElem?_tail
  have zero_iff : ∀ bytes : List Byte, bytes.foldl (· + ·) 0 = 0 ↔
      (bytes.map BitVec.toNat).sum % 256 = 0 := by
    intro bytes
    rw [← sum_eq]
    exact ⟨congrArg BitVec.toNat, fun zero => BitVec.eq_of_toNat_eq zero⟩
  constructor
  · rintro ⟨colon, ascii, length, countHex, addrHex, typeHex, checked, read, zero⟩
    have long : (unsigned text).length = text.length := unsigned_length text
    have even : text.tail.length % 2 = 0 := by
      rw [List.length_tail]
      omega
    obtain ⟨places, hex, rfl⟩ := (hexToBytes_ok even).mp read
    obtain ⟨-, -, rfl⟩ := (u32FromHex_field (by omega) (by omega) (by omega)).mp countHex
    obtain ⟨inAddress, -, rfl⟩ := (u32FromHex_field (by omega) (by omega) (by omega)).mp addrHex
    obtain ⟨-, -, rfl⟩ := (u32FromHex_field (by omega) (by omega) (by omega)).mp typeHex
    rw [← unsigned_tail] at hex zero
    refine ⟨⟨?_, colon, hex, length, (zero_iff _).mp zero⟩, (count_eq (by omega)).symm,
      (address_eq (by omega)).symm, (recordType_eq (by omega)).symm⟩
    -- a sign passes the digit pairs in a high place only, and of these the address has one inside
    intro i sign
    constructor
    · by_contra even
      obtain ⟨j, rfl | rfl⟩ : ∃ j, i = 0 ∨ i = 2 * j + 2 := ⟨i / 2 - 1, by omega⟩
      · rw [List.head?_eq_getElem?, sign] at colon
        cases colon
      · exact places j ((tail_get j).trans sign)
    · rintro rfl
      exact inAddress 5 (by omega) (by omega) sign
  · rintro ⟨⟨signs, colon, hex, length, zero⟩, same, rfl, rfl⟩
    have long : (unsigned text).length = text.length := unsigned_length text
    have inner : ∀ lo hi c, c ∈ field (unsigned text) (lo + 1) hi → IsHex c :=
      fun lo hi c mem => hex c (mem_field mem)
    have even : text.tail.length % 2 = 0 := by
      rw [List.length_tail]
      omega
    have places : ∀ i, i % 2 = 0 ∨ i = 5 → text[i]? ≠ some '+' := by
      intro i bad sign
      have := signs i sign
      omega
    refine ⟨colon, ascii_of_hex colon hex, length, ?_, ?_, ?_,
      recordBytes (unsigned text), ?_, (zero_iff _).mpr zero⟩
    · apply (u32FromHex_field (by omega) (by omega) (by omega)).mpr
      exact ⟨fun i above below => places i (by omega), inner 0 3, same.trans (count_eq (by omega))⟩
    · apply (u32FromHex_field (by omega) (by omega) (by omega)).mpr
      exact ⟨fun i above below => places i (by omega), inner 2 7, address_eq (by omega)⟩
    · apply (u32FromHex_field (by omega) (by omega) (by omega)).mpr
      exact ⟨fun i above below => places i (by omega), inner 6 9, recordType_eq (by omega)⟩
    · apply (hexToBytes_ok even).mpr
      rw [← unsigned_tail]
      refine ⟨fun j => ?_, hex, rfl⟩
      rw [tail_get]
      exact places _ (by omega)

theorem extendedValue_ok {t n : Nat} {s : List Char} {w : BitVec 16} :
    extendedValue t n s = .ok w ↔ n = 2 ∧ ∃ v, u32FromHex s = .ok v ∧ w = BitVec.ofNat 16 v := by
  simp only [extendedValue, bail_bind, ite_bail_eq_ok, bind_eq_ok, Decidable.not_not, ne_eq]
  constructor
  · rintro ⟨two, v, parsed, made⟩
    exact ⟨two, v, parsed, (Except.ok.inj made).symm⟩
  · rintro ⟨two, v, parsed, rfl⟩
    exact ⟨two, v, parsed, rfl⟩

theorem extended_field {text : List Char} {n : Nat} {w : BitVec 16}
    (scan : Scanned text n (address (unsigned text)) (recordType (unsigned text))) (t : Nat) :
    extendedValue t n (field text 9 (9 + n * 2)) = .ok w ↔
      (n = 2 ∧ text[11]? ≠ some '+') ∧ w = BitVec.ofNat 16 (payloadValue (unsigned text)) := by
  obtain ⟨⟨signs, -, hex, length, -⟩, same, -⟩ := scanned_iff.mp scan
  rw [extendedValue_ok]
  have long : (unsigned text).length = text.length := unsigned_length text
  constructor
  · rintro ⟨rfl, v, parsed, rfl⟩
    obtain ⟨places, -, rfl⟩ := (u32FromHex_field (by omega) (by omega) (by omega)).mp parsed
    refine ⟨⟨rfl, places 11 (by omega) (by omega)⟩, ?_⟩
    rw [payloadValue_eq same.symm (by omega)]
  · rintro ⟨⟨rfl, plain⟩, rfl⟩
    refine ⟨rfl, _, ?_, rfl⟩
    apply (u32FromHex_field (by omega) (by omega) (by omega)).mpr
    refine ⟨fun i above below sign => ?_, fun c mem => hex c (mem_field mem), ?_⟩
    · obtain rfl | other : i = 11 ∨ i ≠ 11 := by omega
      · exact plain sign
      · have := (signs i sign).1
        omega
    · exact payloadValue_eq same.symm (by omega)

theorem payload_field {text : List Char} {n addr t : Nat} (scan : Scanned text n addr t) :
    hexToBytes (field text 9 (9 + n * 2)) = pure (payload (unsigned text)) := by
  obtain ⟨⟨signs, -, hex, length, -⟩, same, -⟩ := scanned_iff.mp scan
  have even : (field text 9 (9 + n * 2)).length % 2 = 0 := by
    rw [field_length (by omega)]
    omega
  apply (hexToBytes_ok even).mpr
  rw [payload_eq, ← same, unsigned_field]
  refine ⟨fun j sign => ?_, fun c mem => hex c (mem_field mem), rfl⟩
  rw [getElem?_field] at sign
  split at sign
  · have := (signs _ sign).1
    omega
  · cases sign

theorem ofType_eq_pure {text : List Char} {n : Nat} {r : HexRecord}
    (scan : Scanned text n (address (unsigned text)) (recordType (unsigned text))) :
    ofType n (address (unsigned text)) (recordType (unsigned text)) (field text 9 (9 + n * 2)) =
        pure r ↔
      (recordType (unsigned text) = 1 → n = 0 ∧ address (unsigned text) = 0) ∧
      (recordType (unsigned text) = 2 ∨ recordType (unsigned text) = 4 →
        n = 2 ∧ text[11]? ≠ some '+') ∧ r = decoded (unsigned text) := by
  have whole := payload_field scan
  have extended := fun w t => extended_field (w := w) scan t
  unfold ofType decoded
  generalize recordType (unsigned text) = t
  split
  · rw [whole, pure_bind, Guarded.pure_inj]
    simp [eq_comm]
  · simp only [↓Guarded.bail_bind, Guarded.ite_bail_eq_pure, Guarded.pure_inj]
    simp [eq_comm]
  · simp only [Guarded.bind_eq_pure, Guarded.ofFallible_eq_pure, Guarded.pure_inj, extended]
    simp [eq_comm, and_assoc]
  · simp only [Guarded.bind_eq_pure, Guarded.ofFallible_eq_pure, Guarded.pure_inj, extended]
    simp [eq_comm, and_assoc]
  · next data eof segment linear =>
    have record : t ≠ 1 ∧ t ≠ 2 ∧ t ≠ 4 := ⟨eof, segment, linear⟩
    rw [Guarded.pure_inj]
    simp [record, eq_comm]

/-- What `parse_line` accepts, and as what. -/
theorem parseLine_ok {text : List Char} {r : HexRecord} : parseLine text = pure r ↔
    SignsLead text ∧ Grammar (unsigned text) ∧ r = decoded (unsigned text) := by
  rw [parseLine_eq_pure]
  constructor
  · rintro ⟨n, addr, t, scan, made⟩
    obtain ⟨⟨signs, colon, hex, length, sum⟩, rfl, rfl, rfl⟩ := scanned_iff.mp scan
    obtain ⟨eof, base, rfl⟩ := (ofType_eq_pure scan).mp made
    refine ⟨fun i sign => ⟨(signs i sign).1, (signs i sign).2, ?_⟩,
      ⟨unsigned_colon.mpr colon, hex, ?_, sum, eof, fun h => (base h).1⟩, rfl⟩
    · rintro rfl
      exact ⟨fun two => (base (.inl two)).2 sign, fun four => (base (.inr four)).2 sign⟩
    · rw [List.length_tail, unsigned_length]
      omega
  · rintro ⟨signs, ⟨colon, hex, length, sum, eof, base⟩, rfl⟩
    rw [List.length_tail, unsigned_length] at length
    have scan : Scanned text (count (unsigned text)) (address (unsigned text))
        (recordType (unsigned text)) := by
      refine scanned_iff.mpr ⟨⟨fun i sign => ?_, unsigned_colon.mp colon, hex, by omega, sum⟩, rfl,
        rfl, rfl⟩
      exact ⟨(signs i sign).1, (signs i sign).2.1⟩
    refine ⟨_, _, _, scan, (ofType_eq_pure scan).mpr ⟨eof, fun h => ⟨base h, fun sign => ?_⟩, rfl⟩⟩
    have plain := (signs 11 sign).2.2 rfl
    exact h.elim plain.1 plain.2

theorem signsLead_of_not_mem {text : List Char} (plain : '+' ∉ text) : SignsLead text :=
  fun _ sign => absurd (List.mem_of_getElem? sign) plain

theorem Grammar.plain {text : List Char} (g : Grammar text) : '+' ∉ text := by
  match text, g.colon with
  | _ :: rest, rfl =>
    intro sign
    rcases List.mem_cons.mp sign with colon | inside
    · cases colon
    · exact not_isHex_plus (g.hex _ inside)

/-- `parse_line` never panics, and on every line but the records with leading signs it
    accepts exactly the grammar and returns the decoded record. -/
theorem parseLine_grammar (text : List Char) :
    Guarded.Safe (parseLine text) ∧
      ((((∃ r, parseLine text = pure r) ↔ Grammar text) ∧
        ∀ r, parseLine text = pure r → r = decoded text) ↔ ¬ SignedRecord text) := by
  refine ⟨parseLine_safe text, ?_⟩
  simp only [parseLine_ok]
  -- a line without a sign is read as the grammar reads it
  by_cases sign : '+' ∈ text
  · have outside : ¬ Grammar text := fun g => g.plain sign
    constructor
    · rintro ⟨accepted, -⟩ ⟨-, leading, g⟩
      exact outside (accepted.mp ⟨_, leading, g, rfl⟩)
    · intro unsignedOnly
      constructor
      · constructor
        · rintro ⟨_, leading, g, -⟩
          exact absurd ⟨sign, leading, g⟩ unsignedOnly
        · exact fun g => absurd g outside
      · rintro r ⟨leading, g, -⟩
        exact absurd ⟨sign, leading, g⟩ unsignedOnly
  · have leading := signsLead_of_not_mem sign
    rw [unsigned_of_not_mem sign]
    constructor
    · rintro - ⟨mem, -⟩
      exact sign mem
    · intro _
      constructor
      · constructor
        · rintro ⟨_, -, g, -⟩
          exact g
        · exact fun g => ⟨_, leading, g, rfl⟩
      · rintro r ⟨-, -, same⟩
        exact same

/-- ":+0000001FF": an end-of-file record with a sign for the first digit of its count. -/
theorem parseLine_signed :
    parseLine [':', '+', '0', '0', '0', '0', '0', '0', '1', 'F', 'F'] = pure .eof ∧
      ¬ Grammar [':', '+', '0', '0', '0', '0', '0', '0', '1', 'F', 'F'] :=
  ⟨rfl, fun g => g.plain (by decide)⟩

end HexRecord

end OpenBoot.Host
