import OpenBoot.Generator.Macros

/-! Where the constants of the generator and the macros of C agree: the spellings of a number
that both read alike.
-/

set_option autoImplicit false

namespace OpenBoot.Generator

open Numeral

variable {base d n : Nat} {c : Char} {s t cs : List Char} {ds : List Nat} {v : Int}

theorem le_of_foreignDigit (h : foreignDigit c = some d) : 128 ≤ c.toNat := by
  obtain ⟨z, found, -⟩ := Option.map_eq_some_iff.mp h
  have all : ∀ z ∈ zeros, 128 ≤ z := by decide
  have := all z (List.mem_of_find?_eq_some found)
  have := List.find?_some found
  simp only [decide_eq_true_eq] at this
  omega

theorem intDigit_of_digit (h : digit base c = some d) : intDigit base c = some d := by
  rw [intDigit, h, Option.some_or]

theorem intDigit_cases (h : intDigit base c = some d) :
    digit base c = some d ∨ foreignDigit c = some d := by
  rcases Option.or_eq_some_iff.mp h with ascii | ⟨-, foreign⟩
  · exact .inl ascii
  · exact .inr (Option.filter_eq_some_iff.mp foreign).1

theorem numeralChar_of_intDigit (h : intDigit base c = some d) : C.isNumeralChar c = true := by
  rcases intDigit_cases h with ascii | foreign
  · simp [C.isNumeralChar, digit_isHex ascii]
  · simp [C.isNumeralChar, le_of_foreignDigit foreign]

theorem startsNumeral_of_intDigit (h : intDigit 10 c = some d) : C.startsNumeral c = true := by
  rcases intDigit_cases h with ascii | foreign
  · simp [C.startsNumeral, ascii]
  · simp [C.startsNumeral, foreign]

theorem intDigits_chars (h : intDigits base s = some ds) :
    (∃ c rest d, s = c :: rest ∧ intDigit base c = some d) ∧
      ∀ c ∈ s, c = '_' ∨ ∃ d, intDigit base c = some d := by
  fun_induction intDigits base s generalizing ds with
  | case1 => cases h
  | case2 c =>
    obtain ⟨d, value, -⟩ := Option.map_eq_some_iff.mp h
    exact ⟨⟨c, [], d, rfl, value⟩, by simp [value]⟩
  | case3 c rest ih =>
    obtain ⟨d, value, h⟩ := Option.bind_eq_some_iff.mp h
    obtain ⟨more, later, -⟩ := Option.bind_eq_some_iff.mp h
    exact ⟨⟨c, _, d, rfl, value⟩, by simpa [value] using (ih later).2⟩
  | case4 c rest _ _ ih =>
    obtain ⟨d, value, h⟩ := Option.bind_eq_some_iff.mp h
    obtain ⟨more, later, -⟩ := Option.bind_eq_some_iff.mp h
    exact ⟨⟨c, _, d, rfl, value⟩, by simpa [value] using (ih later).2⟩

theorem digit_underscore : digit base '_' = none := rfl

theorem intDigits_of_digits (h : digits base s = some ds) : intDigits base s = some ds := by
  obtain ⟨some, all⟩ := digits_eq_some.mp h
  clear h
  fun_induction intDigits base s generalizing ds with
  | case1 => exact absurd rfl some
  | case2 c =>
    cases all with
    | cons first rest =>
      cases rest
      simp [intDigit_of_digit first]
  | case3 c rest ih =>
    cases all with
    | cons first later =>
      cases later with
      | cons second _ =>
        rw [digit_underscore] at second
        cases second
  | case4 c rest single _ ih =>
    cases all with
    | cons first later =>
      have more : rest ≠ [] := single
      simp [intDigit_of_digit first, ih more later]

theorem nat10_of_digits (h : digits 10 s = some ds) (read : nat10 s = some n) :
    n = number 10 ds := by
  rw [nat10, intDigits_of_digits h] at read
  by_cases few : ds.length ≤ intMaxStrDigits
  · simpa [few, eq_comm] using read
  · simp [few] at read

def Suffix (e : List Char) : Prop := e = [] ∨ e = ['u'] ∨ e = ['U']

def Bare (s : List Char) : Prop := s.getLast? ≠ some 'u' ∧ s.getLast? ≠ some 'U'

theorem bare_append (some : t ≠ []) : Bare (s ++ t) ↔ Bare t := by
  simp only [Bare, List.getLast?_append_of_ne_nil s some]

theorem bare_of_digits (h : digits base s = some ds) : Bare s := by
  constructor
  · intro last
    obtain ⟨d, value⟩ := exists_digit h (List.mem_of_getLast? last)
    cases value
  · intro last
    obtain ⟨d, value⟩ := exists_digit h (List.mem_of_getLast? last)
    cases value

theorem removesuffix_self (other : s.getLast? ≠ some c) : removesuffix c s = s := if_neg other

theorem removesuffix_concat (s : List Char) (c : Char) : removesuffix c (s ++ [c]) = s := by
  simp [removesuffix]

theorem exists_removesuffix (s : List Char) (c : Char) :
    ∃ e, s = removesuffix c s ++ e ∧ ∀ a ∈ e, a = c := by
  by_cases last : s.getLast? = some c
  · refine ⟨[c], ?_, by simp⟩
    rw [removesuffix, if_pos last]
    exact (List.dropLast_append_getLast? c last).symm
  · exact ⟨[], by rw [removesuffix_self last, List.append_nil], by simp⟩

theorem exists_unsuffixed (t : Token) :
    ∃ e, t = unsuffixed t ++ e ∧ ∀ a ∈ e, a = 'u' ∨ a = 'U' := by
  obtain ⟨lower, first, isLower⟩ := exists_removesuffix t 'u'
  obtain ⟨upper, second, isUpper⟩ := exists_removesuffix (removesuffix 'u' t) 'U'
  refine ⟨upper ++ lower, ?_, ?_⟩
  · rw [← List.append_assoc, unsuffixed, ← second, ← first]
  · intro a mem
    rcases List.mem_append.mp mem with up | low
    · exact .inr (isUpper a up)
    · exact .inl (isLower a low)

theorem unsuffixed_append {e : List Char} (bare : Bare s) (suffix : Suffix e) :
    unsuffixed (s ++ e) = s := by
  rcases suffix with rfl | rfl | rfl
  · rw [List.append_nil, unsuffixed, removesuffix_self bare.1, removesuffix_self bare.2]
  · rw [unsuffixed, removesuffix_concat, removesuffix_self bare.2]
  · have other : (s ++ ['U']).getLast? ≠ some 'u' := by simp
    rw [unsuffixed, removesuffix_self other, removesuffix_concat]

theorem C.unsuffixed_append {e : List Char} (bare : Bare s) (suffix : Suffix e) :
    C.unsuffixed (s ++ e) = (s, decide (e ≠ [])) := by
  rcases suffix with rfl | rfl | rfl
  · simp [C.unsuffixed, bare.1, bare.2]
  · simp [C.unsuffixed]
  · simp [C.unsuffixed]

theorem C.exists_unsuffixed (s : List Char) :
    ∃ cs e, s = cs ++ e ∧ Suffix e ∧ C.unsuffixed s = (cs, decide (e ≠ [])) := by
  by_cases lower : s.getLast? = some 'u'
  · refine ⟨s.dropLast, ['u'], (List.dropLast_append_getLast? _ lower).symm, .inr (.inl rfl), ?_⟩
    simp [C.unsuffixed, lower]
  by_cases upper : s.getLast? = some 'U'
  · refine ⟨s.dropLast, ['U'], (List.dropLast_append_getLast? _ upper).symm, .inr (.inr rfl), ?_⟩
    simp [C.unsuffixed, upper]
  · exact ⟨s, [], (List.append_nil s).symm, .inl rfl, by simp [C.unsuffixed, lower, upper]⟩

def Signed (sg : List Char) : Prop := sg = [] ∨ sg = ['+'] ∨ sg = ['-']

def signOf (sg : List Char) : C.Sign := if sg = ['-'] then .minus else .plus

def C.Sign.int : C.Sign → Nat → Int
  | plus, n => n
  | minus, n => -n

theorem minus_of_signOf {sg : List Char} (h : signOf sg = .minus) : sg = ['-'] := by
  by_contra other
  rw [signOf, if_neg other] at h
  cases h

theorem digit_of_startsNumeral (h : C.startsNumeral c = true) (ascii : c.toNat < 128) :
    (digit 10 c).isSome = true := by
  rcases of_decide_eq_true h with value | foreign
  · exact value
  · obtain ⟨d, foreign⟩ := Option.isSome_iff_exists.mp foreign
    exact absurd (le_of_foreignDigit foreign) (by omega)

theorem not_white_of_startsNumeral (h : C.startsNumeral c = true) : C.isWhite c = false := by
  by_contra white
  have codes : c.toNat ∈ [0x20, 0x09, 0x0B, 0x0C] := of_decide_eq_true (Bool.not_eq_false _ ▸ white)
  have all : ∀ n ∈ [0x20, 0x09, 0x0B, 0x0C], n < 128 ∧ (digit 10 (Char.ofNat n)).isSome = false := by
    decide
  obtain ⟨ascii, none⟩ := all c.toNat codes
  rw [Char.ofNat_toNat] at none
  exact Bool.false_ne_true (none.symm.trans (digit_of_startsNumeral h ascii))

theorem not_sign_of_startsNumeral (h : C.startsNumeral c = true) : c ≠ '+' ∧ c ≠ '-' := by
  constructor
  · rintro rfl
    exact absurd (digit_of_startsNumeral h (by decide)) (by decide)
  · rintro rfl
    exact absurd (digit_of_startsNumeral h (by decide)) (by decide)

theorem int10_signed {sg : List Char} (sign : Signed sg) (start : C.startsNumeral c = true) :
    int10 (sg ++ c :: s) = (nat10 (c :: s)).map (signOf sg).int := by
  obtain ⟨plus, minus⟩ := not_sign_of_startsNumeral start
  rcases sign with rfl | rfl | rfl
  · rw [List.nil_append, int10.eq_3 _ (by simp [plus]) (by simp [minus])]
    rfl
  · rfl
  · rfl

theorem unsign_signed {sg : List Char} (sign : Signed sg) (start : C.startsNumeral c = true) :
    C.unsign (sg ++ c :: s) = (signOf sg, c :: s) := by
  obtain ⟨plus, minus⟩ := not_sign_of_startsNumeral start
  have stays : C.skipWhite (c :: s) = c :: s :=
    List.dropWhile_cons_of_neg (by simp [not_white_of_startsNumeral start])
  rcases sign with rfl | rfl | rfl
  · rw [List.nil_append, C.unsign.eq_3 _ (by simp [plus]) (by simp [minus])]
    rfl
  · exact congrArg (C.Sign.plus, ·) stays
  · exact congrArg (C.Sign.minus, ·) stays

/-- Hexadecimal behind its prefix, or decimal behind a sign, of any script, with underscores
    and one or two suffixes. -/
inductive Accepted : Token → Prop
  | hex {x : Char} {rest : List Char} (lead : x = 'x' ∨ x = 'X')
      (chars : ∀ a ∈ rest, C.isNumeralChar a = true) : Accepted ('0' :: x :: rest)
  | decimal {sg rest : List Char} {c : Char} (sign : Signed sg)
      (start : C.startsNumeral c = true)
      (chars : ∀ a ∈ c :: rest, a = 'u' ∨ a = 'U' ∨ a = '_' ∨ ∃ d, intDigit 10 a = some d) :
      Accepted (sg ++ c :: rest)

theorem numeralChar_of_intDigits {rest : List Char} (h : intDigits base rest = some ds) :
    ∀ a ∈ rest, C.isNumeralChar a = true := by
  intro a mem
  rcases (intDigits_chars h).2 a mem with rfl | ⟨d, value⟩
  · decide
  · exact numeralChar_of_intDigit value

theorem accepted_hex {e : List Char} (h : int16 s = some v) (lead : hexPrefixed s = true)
    (suffix : ∀ a ∈ e, a = 'u' ∨ a = 'U') : Accepted (s ++ e) := by
  have last : ∀ a ∈ e, C.isNumeralChar a = true := by
    intro a mem
    rcases suffix a mem with rfl | rfl <;> decide
  match s, h, lead with
  | c :: x :: rest, h, lead =>
    obtain ⟨rfl, letter⟩ : c = '0' ∧ (x = 'x' ∨ x = 'X') := by simpa [hexPrefixed] using lead
    refine .hex letter fun a mem => ?_
    rcases List.mem_append.mp mem with digit | mem
    · unfold int16 at h
      split at h
      · rename_i same
        obtain ⟨-, -, rfl⟩ := by simpa using same
        obtain ⟨ds, read, -⟩ := Option.map_eq_some_iff.mp h
        rcases List.mem_cons.mp digit with rfl | digit
        · decide
        · exact numeralChar_of_intDigits read a digit
      · rename_i same
        obtain ⟨-, -, rfl⟩ := by simpa using same
        obtain ⟨ds, read, -⟩ := Option.map_eq_some_iff.mp h
        exact numeralChar_of_intDigits read a digit
      · cases h
    · exact last a mem

theorem accepted_nat10 (sg : List Char) {e : List Char} (h : nat10 s = some n) (sign : Signed sg)
    (suffix : ∀ a ∈ e, a = 'u' ∨ a = 'U') : Accepted (sg ++ s ++ e) := by
  obtain ⟨ds, read, -⟩ := Option.bind_eq_some_iff.mp h
  obtain ⟨⟨c, rest, d, rfl, value⟩, chars⟩ := intDigits_chars read
  rw [List.append_assoc, List.cons_append]
  refine .decimal sign (startsNumeral_of_intDigit value) fun a mem => ?_
  rw [← List.cons_append] at mem
  rcases List.mem_append.mp mem with digit | mem
  · exact .inr (.inr (chars a digit))
  · exact (suffix a mem).imp_right .inl

theorem accepted_decimal {e : List Char} (h : int10 s = some v)
    (suffix : ∀ a ∈ e, a = 'u' ∨ a = 'U') : Accepted (s ++ e) := by
  unfold int10 at h
  split at h
  · obtain ⟨n, read, -⟩ := Option.map_eq_some_iff.mp h
    exact accepted_nat10 ['+'] read (.inr (.inl rfl)) suffix
  · obtain ⟨n, read, -⟩ := Option.map_eq_some_iff.mp h
    exact accepted_nat10 ['-'] read (.inr (.inr rfl)) suffix
  · obtain ⟨n, read, -⟩ := Option.map_eq_some_iff.mp h
    exact accepted_nat10 [] read (.inl rfl) suffix

theorem accepted_of_parseNumeric (h : parseNumeric t = some v) : Accepted t := by
  obtain ⟨e, whole, suffix⟩ := exists_unsuffixed t
  rw [parseNumeric] at h
  rw [whole]
  by_cases lead : hexPrefixed (unsuffixed t) = true
  · exact accepted_hex (by simpa [lead] using h) lead suffix
  · exact accepted_decimal (by simpa [lead] using h) suffix

/-! ### What C makes of it -/

def C.limit (decimal unsigned : Bool) : Nat := if decimal && !unsigned then 2 ^ 63 else 2 ^ 64

theorem C.lt_limit {decimal unsigned : Bool} {type : C.IntType}
    (h : (C.candidates decimal unsigned).find? (n < ·.bound) = some type) :
    n < C.limit decimal unsigned ∧ (unsigned = true → type.isSigned = false) := by
  have fits := List.find?_some h
  have mem := List.mem_of_find?_eq_some h
  simp only [decide_eq_true_eq] at fits
  constructor
  · revert fits mem
    cases decimal <;> cases unsigned <;> cases type <;>
      simp [C.candidates, C.limit, C.IntType.bound, C.IntType.isSigned, C.IntType.width] <;> omega
  · rintro rfl
    revert mem
    cases decimal <;> cases type <;> simp [C.candidates, C.IntType.isSigned]

theorem C.exists_type {decimal unsigned : Bool} (h : n < C.limit decimal unsigned) :
    ∃ type, (C.candidates decimal unsigned).find? (n < ·.bound) = some type ∧
      (unsigned = false → decimal = true ∨ n < 8 → type.isSigned = true) := by
  have wide : ∃ type ∈ C.candidates decimal unsigned,
      C.IntType.bound type = C.limit decimal unsigned := by
    cases decimal <;> cases unsigned <;> decide
  obtain ⟨type, mem, bound⟩ := wide
  have found : ((C.candidates decimal unsigned).find? (n < ·.bound)).isSome = true :=
    List.find?_isSome.mpr ⟨type, mem, decide_eq_true (bound ▸ h)⟩
  obtain ⟨first, found⟩ := Option.isSome_iff_exists.mp found
  refine ⟨first, found, ?_⟩
  rintro rfl (rfl | small)
  · have listed := List.mem_of_find?_eq_some found
    revert listed
    cases first <;> decide
  · have int : n < C.IntType.int.bound := Nat.lt_trans small (by decide)
    have head : (C.candidates decimal false).find? (n < ·.bound) = some .int := by
      cases decimal <;> simp [C.candidates, int]
    obtain rfl := Option.some.inj (head.symm.trans found)
    rfl

theorem C.constant_eq_some {type : C.IntType} {unsigned : Bool}
    (split : C.unsuffixed s = (cs, unsigned)) :
    C.constant s = some (type, n) ↔ C.magnitude cs = some n ∧
      (C.candidates (cs.head? ≠ some '0') unsigned).find? (n < ·.bound) = some type := by
  rw [C.constant, split]
  simp only [Option.bind_eq_bind, Option.bind_eq_some_iff, Option.pure_def, Option.some.injEq,
    Prod.mk.injEq]
  constructor
  · rintro ⟨_, read, _, found, rfl, rfl⟩
    exact ⟨read, found⟩
  · rintro ⟨read, found⟩
    exact ⟨n, read, type, found, rfl, rfl⟩

theorem C.inBase_eq_some :
    C.inBase base s = some n ↔ ∃ ds, digits base s = some ds ∧ number base ds = n :=
  Option.map_eq_some_iff

theorem C.Sign.apply_eq {sign : C.Sign} {type : C.IntType} :
    sign.apply (type, n) = sign.int n ↔ sign = .minus → type.isSigned = true ∨ n = 0 := by
  cases sign with
  | plus => exact iff_of_true rfl (by simp)
  | minus =>
    rw [C.Sign.apply, C.Sign.int, C.IntType.negate]
    by_cases signed : type.isSigned = true
    · simp [signed]
    · have wraps : 0 ≤ -(n : Int) % 2 ^ type.width := Int.emod_nonneg _ (by positivity)
      rw [if_neg signed]
      constructor
      · intro same _
        exact .inr (by omega)
      · intro plain
        obtain rfl : n = 0 := (plain rfl).resolve_left signed
        rfl

def Unprefixed (s : List Char) : Prop := ∀ a ∈ s, a ≠ 'x' ∧ a ≠ 'X' ∧ a ≠ 'b' ∧ a ≠ 'B'

theorem ne_letters (h : intDigit 10 c = some d) : c ≠ 'x' ∧ c ≠ 'X' ∧ c ≠ 'b' ∧ c ≠ 'B' := by
  refine ⟨?_, ?_, ?_, ?_⟩ <;>
  · rintro rfl
    rcases intDigit_cases h with ascii | foreign
    · cases ascii
    · exact absurd (le_of_foreignDigit foreign) (by decide)

theorem unprefixed_of_digits (h : digits 10 s = some ds) : Unprefixed s := by
  intro a mem
  obtain ⟨d, value⟩ := exists_digit h mem
  exact ne_letters (intDigit_of_digit value)

/-- Digits without a letter are octal behind a zero, and decimal otherwise. -/
theorem C.magnitude_unprefixed (plain : Unprefixed s) :
    C.magnitude s = C.inBase (if s.head? = some '0' then 8 else 10) s := by
  unfold C.magnitude
  split
  · rename_i x rest
    simp [plain x (by simp)]
  · rfl
  · rename_i other single
    cases s with
    | nil => rfl
    | cons c rest =>
      have lead : c ≠ '0' := by
        rintro rfl
        cases rest with
        | nil => exact single rfl
        | cons x rest => exact other x rest rfl
      simp [lead]

theorem C.value_of_accepted (compiler : C.Compiler) (accepted : Accepted t) :
    C.value compiler t = (C.constant (C.unsign t).2).map (C.unsign t).1.apply := by
  have numeral : C.isNumeral (C.unsign t).2 = true := by
    cases accepted with
    | @hex x rest lead chars =>
      have letter : C.isNumeralChar x = true := by rcases lead with rfl | rfl <;> decide
      have all : ∀ a ∈ '0' :: x :: rest, C.isNumeralChar a = true :=
        List.forall_mem_cons.mpr ⟨by decide, List.forall_mem_cons.mpr ⟨letter, chars⟩⟩
      have start : C.startsNumeral '0' = true := by decide
      simpa [C.unsign, C.isNumeral, start] using all
    | @decimal sg rest c sign start chars =>
      have all : ∀ a ∈ c :: rest, C.isNumeralChar a = true := by
        intro a mem
        rcases chars a mem with rfl | rfl | rfl | ⟨d, value⟩
        · decide
        · decide
        · decide
        · exact numeralChar_of_intDigit value
      rw [unsign_signed sign start]
      simpa [C.isNumeral, start] using all
  simp only [C.value, numeral, if_true]

theorem C.Sign.of_apply {sign : C.Sign} {type : C.IntType} {m : Nat}
    (h : sign.apply (type, m) = sign.int n) :
    (m = n ∨ n = 0) ∧ (sign = .minus → type.isSigned = false → n = 0) := by
  cases sign with
  | plus => exact ⟨.inl (Int.ofNat.inj h), by simp⟩
  | minus =>
    rw [C.Sign.apply, C.Sign.int, C.IntType.negate] at h
    by_cases signed : type.isSigned = true
    · rw [if_pos signed] at h
      exact ⟨.inl (by omega), by simp [signed]⟩
    · have wraps : 0 ≤ -(m : Int) % 2 ^ type.width := Int.emod_nonneg _ (by positivity)
      rw [if_neg signed] at h
      have nothing : n = 0 := by omega
      exact ⟨.inr nothing, fun _ _ => nothing⟩

/-! ### Plain spellings -/

/-- The spellings that mean the same to both: a hexadecimal number of at most 64 bits, or a
    decimal one that C has a type for, without leading zeros but for those of a single octal
    digit, and without a suffix if it is negative. -/
inductive Plain : Token → Prop
  | hex {x : Char} {cs e : List Char} {ds : List Nat} (lead : x = 'x' ∨ x = 'X')
      (spelled : digits 16 cs = some ds) (fits : number 16 ds < 2 ^ 64) (suffix : Suffix e) :
      Plain ('0' :: x :: cs ++ e)
  | decimal {sg cs e : List Char} {ds : List Nat} (sign : Signed sg)
      (spelled : digits 10 cs = some ds) (octal : cs.head? = some '0' → number 10 ds < 8)
      (fits : number 10 ds < if e = [] then 2 ^ 63 else 2 ^ 64) (suffix : Suffix e)
      (unsigned : sg = ['-'] → e ≠ [] → number 10 ds = 0) : Plain (sg ++ cs ++ e)

theorem parseNumeric_hex {x : Char} {e : List Char} (lead : x = 'x' ∨ x = 'X')
    (spelled : digits 16 cs = some ds) (suffix : Suffix e) :
    parseNumeric ('0' :: x :: cs ++ e) = some (number 16 ds : Int) := by
  have bare : Bare ('0' :: x :: cs) :=
    (bare_append (s := ['0', x]) (digits_ne_nil spelled)).mpr (bare_of_digits spelled)
  have prefixed : hexPrefixed ('0' :: x :: cs) = true := by simp [hexPrefixed, lead]
  rw [parseNumeric, unsuffixed_append bare suffix]
  simp only [prefixed, if_true]
  have read := intDigits_of_digits spelled
  unfold int16
  split
  · rename_i same
    obtain ⟨-, -, rfl⟩ := by simpa using same
    obtain ⟨d, value⟩ := exists_digit spelled (show '_' ∈ '_' :: _ by simp)
    cases value
  · rename_i same
    obtain ⟨-, -, rfl⟩ := by simpa using same
    rw [read, Option.map_some]
  · rename_i other
    exact absurd rfl (other _ _ _)

theorem exists_start (h : digits 10 s = some ds) :
    ∃ c rest, s = c :: rest ∧ C.startsNumeral c = true := by
  obtain ⟨⟨c, rest, d, same, value⟩, -⟩ := intDigits_chars (intDigits_of_digits h)
  exact ⟨c, rest, same, startsNumeral_of_intDigit value⟩

theorem parseNumeric_decimal {sg e : List Char} (sign : Signed sg)
    (spelled : digits 10 cs = some ds) (suffix : Suffix e)
    (ok : parseNumeric (sg ++ cs ++ e) = some v) : v = (signOf sg).int (number 10 ds) := by
  have bare : Bare (sg ++ cs) := (bare_append (digits_ne_nil spelled)).mpr (bare_of_digits spelled)
  obtain ⟨c, rest, rfl, start⟩ := exists_start spelled
  have unprefixed : hexPrefixed (sg ++ c :: rest) = false := by
    have letters := unprefixed_of_digits spelled
    rcases sign with rfl | rfl | rfl
    · cases rest with
      | nil => rfl
      | cons x rest => simp [hexPrefixed, letters x (by simp)]
    · rfl
    · rfl
  rw [parseNumeric, unsuffixed_append bare suffix] at ok
  simp only [unprefixed, Bool.false_eq_true, if_false, int10_signed sign start] at ok
  obtain ⟨n, read, rfl⟩ := Option.map_eq_some_iff.mp ok
  rw [nat10_of_digits spelled read]

theorem value_of_plain (compiler : C.Compiler) (ok : parseNumeric t = some v) (plain : Plain t) :
    C.value compiler t = some v := by
  rw [C.value_of_accepted compiler (accepted_of_parseNumeric ok)]
  cases plain with
  | @hex x cs e ds lead spelled fits suffix =>
    obtain rfl := Option.some.inj ((parseNumeric_hex lead spelled suffix).symm.trans ok)
    have bare : Bare ('0' :: x :: cs) :=
      (bare_append (s := ['0', x]) (digits_ne_nil spelled)).mpr (bare_of_digits spelled)
    have room : number 16 ds < C.limit false (decide (e ≠ [])) := by simpa [C.limit] using fits
    obtain ⟨type, found, -⟩ := C.exists_type room
    have read : C.magnitude ('0' :: x :: cs) = some (number 16 ds) := by
      simp [C.magnitude, lead, C.inBase, spelled]
    have constant := (C.constant_eq_some (C.unsuffixed_append bare suffix)).mpr ⟨read, found⟩
    change (C.constant ('0' :: x :: cs ++ e)).map (C.Sign.apply .plus) = _
    rw [constant]
    rfl
  | @decimal sg cs e ds sign spelled octal fits suffix unsigned =>
    obtain rfl := parseNumeric_decimal sign spelled suffix ok
    have read : C.magnitude cs = some (number 10 ds) := by
      rw [C.magnitude_unprefixed (unprefixed_of_digits spelled)]
      -- below eight a leading zero changes nothing: octal and decimal are the same
      split
      · rename_i lead
        have small : ∀ d ∈ ds, d < 8 := fun d mem =>
          Nat.lt_of_le_of_lt (le_number (by decide) mem) (octal lead)
        have same := (number_eq_number (by decide) (by decide) small).mpr (octal lead)
        exact C.inBase_eq_some.mpr ⟨ds, digits_of_lt spelled small, same⟩
      · exact C.inBase_eq_some.mpr ⟨ds, spelled, rfl⟩
    have room : number 10 ds < C.limit (cs.head? ≠ some '0') (decide (e ≠ [])) := by
      by_cases lead : cs.head? = some '0'
      · have := octal lead
        simp only [C.limit, lead]
        simp
        omega
      · simpa [C.limit, lead] using fits
    obtain ⟨type, found, signed⟩ := C.exists_type room
    have constant :=
      (C.constant_eq_some (C.unsuffixed_append (bare_of_digits spelled) suffix)).mpr ⟨read, found⟩
    obtain ⟨c, rest, rfl, start⟩ := exists_start spelled
    have split : C.unsign (sg ++ c :: rest ++ e) = (signOf sg, c :: rest ++ e) := by
      rw [List.append_assoc]
      exact unsign_signed sign start
    rw [split, constant, Option.map_some, Option.some.injEq, C.Sign.apply_eq]
    -- a minus needs a signed type, or nothing to negate
    intro minus
    by_cases bare : e = []
    · refine .inl (signed (by simp [bare]) ?_)
      by_cases lead : (c :: rest).head? = some '0'
      · exact .inr (octal lead)
      · exact .inl (by simpa using lead)
    · exact .inr (unsigned (minus_of_signOf minus) bare)

theorem plain_of_value (compiler : C.Compiler) (ok : parseNumeric t = some v)
    (same : C.value compiler t = some v) : Plain t := by
  have accepted := accepted_of_parseNumeric ok
  rw [C.value_of_accepted compiler accepted] at same
  obtain ⟨⟨type, m⟩, constant, same⟩ := Option.map_eq_some_iff.mp same
  cases accepted with
  | @hex x rest lead chars =>
    obtain ⟨cs, e, whole, suffix, split⟩ := C.exists_unsuffixed ('0' :: x :: rest)
    obtain ⟨read, found⟩ := (C.constant_eq_some split).mp constant
    -- the suffix is a letter u, so the prefix is not part of it
    obtain ⟨digits, rfl⟩ : ∃ digits, cs = '0' :: x :: digits := by
      rcases cs with _ | ⟨a, _ | ⟨b, digits⟩⟩
      · rcases suffix with rfl | rfl | rfl <;> cases whole
      · rcases lead with rfl | rfl <;> rcases suffix with rfl | rfl | rfl <;> cases whole
      · simp only [List.cons_append, List.cons.injEq] at whole
        exact ⟨digits, by rw [whole.1, whole.2.1]⟩
    rw [C.magnitude, if_pos lead] at read
    obtain ⟨ds, spelled, rfl⟩ := C.inBase_eq_some.mp read
    have fits : number 16 ds < 2 ^ 64 := by simpa [C.limit] using (C.lt_limit found).1
    rw [whole]
    exact .hex lead spelled fits suffix
  | @decimal sg rest c sign start chars =>
    rw [unsign_signed sign start] at constant same
    obtain ⟨cs, e, whole, suffix, split⟩ := C.exists_unsuffixed (c :: rest)
    obtain ⟨read, found⟩ := (C.constant_eq_some split).mp constant
    have unprefixed : Unprefixed cs := by
      intro a mem
      rcases chars a (whole ▸ List.mem_append_left e mem) with rfl | rfl | rfl | ⟨d, value⟩
      · decide
      · decide
      · decide
      · exact ne_letters value
    rw [C.magnitude_unprefixed unprefixed] at read
    obtain ⟨ds, spelled, rfl⟩ := C.inBase_eq_some.mp read
    have decimal : digits 10 cs = some ds := by
      split at spelled
      · exact digits_mono (by decide) spelled
      · exact spelled
    have token : sg ++ c :: rest = sg ++ cs ++ e := by rw [whole, List.append_assoc]
    rw [token] at ok ⊢
    obtain rfl := parseNumeric_decimal sign decimal suffix ok
    obtain ⟨value, wraps⟩ := C.Sign.of_apply same
    -- a leading zero is octal in C: below eight both readings are the same
    have octal : cs.head? = some '0' → number 10 ds < 8 := by
      intro lead
      rw [if_pos lead] at spelled value
      rcases value with value | nothing
      · exact (number_eq_number (by decide) (by decide) (digits_lt spelled)).mp value
      · omega
    obtain ⟨room, unsigned⟩ := C.lt_limit found
    refine .decimal sign decimal octal ?_ suffix ?_
    · by_cases lead : cs.head? = some '0'
      · have := octal lead
        split <;> omega
      · simpa [C.limit, lead] using room
    -- an unsigned constant wraps under a minus, unless it is zero
    · rintro rfl more
      exact wraps rfl (unsigned (by simp [more]))

/-- Among the tokens that the generator accepts, C reads the plain ones alike and no others. -/
theorem value_eq_iff (compiler : C.Compiler) (ok : parseNumeric t = some v) :
    C.value compiler t = some v ↔ Plain t :=
  ⟨plain_of_value compiler ok, value_of_plain compiler ok⟩

/-- A replacement list has the value that the generator takes from its first token: it is
    that token, plainly spelled, or a longer expression that happens to have its value. -/
def Spelled (compiler : C.Compiler) (r : List Char) (token : Token) : Prop :=
  (r = token ∧ Plain token) ∨ (r ≠ token ∧ C.value compiler r = parseNumeric token)

theorem spelled_iff (compiler : C.Compiler) {r : List Char} (ok : parseNumeric t = some v) :
    C.value compiler r = some v ↔ Spelled compiler r t := by
  by_cases same : r = t
  · subst same
    simp [Spelled, value_eq_iff compiler ok]
  · simp [Spelled, same, ok]

theorem valueOf_iff (compiler : C.Compiler) {text : List Char} {e : Name × Token} {k : Name × Int}
    (reads : Reads e k) :
    C.valueOf compiler text k.1 = some k.2 ↔
      ∃ r, C.replacement compiler text e.1 = some r ∧ Spelled compiler r e.2 := by
  obtain ⟨name, numeric⟩ := reads
  simp only [C.valueOf, name, Option.bind_eq_some_iff, spelled_iff compiler numeric]

/-! ### Whatever the other expressions mean -/

/-- The list starts with the token, and if it goes on, then behind white space. -/
def BeginsWith (token : Token) (r : List Char) : Prop :=
  r = token ∨ ∃ c rest, C.isWhite c = true ∧ r = token ++ c :: rest

theorem not_numeralChar_of_white (white : C.isWhite c = true) : C.isNumeralChar c = false := by
  have cases : c.toNat = 0x20 ∨ c.toNat = 0x09 ∨ c.toNat = 0x0B ∨ c.toNat = 0x0C := by
    simpa [C.isWhite] using white
  have code : c = Char.ofNat c.toNat := (Char.ofNat_toNat c).symm
  rcases cases with h | h | h | h <;> rw [code, h] <;> decide

/-- A list that goes on behind a number has the value that the compiler gives to expressions. -/
theorem value_of_longer (compiler : C.Compiler) (accepted : Accepted t) (white : C.isWhite c = true) :
    C.value compiler (t ++ c :: s) = compiler.expression (t ++ c :: s) := by
  have signed : ∃ sg d rest, t = sg ++ d :: rest ∧ Signed sg ∧ C.startsNumeral d = true := by
    cases accepted with
    | @hex x rest => exact ⟨[], '0', x :: rest, rfl, .inl rfl, by decide⟩
    | @decimal sg rest d sign start => exact ⟨sg, d, rest, rfl, sign, start⟩
  obtain ⟨sg, d, rest, rfl, sign, start⟩ := signed
  have longer : C.isNumeral (C.unsign (sg ++ d :: rest ++ c :: s)).2 = false := by
    rw [List.append_assoc, List.cons_append, unsign_signed sign start]
    simp [C.isNumeral, not_numeralChar_of_white white]
  simp only [C.value, longer, Bool.false_eq_true, if_false]

/-- A list that starts with the token has its value for every compiler only if there is no more
    to it. -/
theorem lone_iff (compiler : C.Compiler) {r : List Char} (ok : parseNumeric t = some v)
    (begins : BeginsWith t r) :
    (∀ expression, C.value { compiler with expression := expression } r = some v) ↔
      r = t ∧ Plain t := by
  constructor
  · intro same
    rcases begins with rfl | ⟨c, rest, white, rfl⟩
    · exact ⟨rfl, (value_eq_iff _ ok).mp (same compiler.expression)⟩
    · have other := same fun _ => none
      rw [value_of_longer _ (accepted_of_parseNumeric ok) white] at other
      cases other
  · rintro ⟨rfl, plain⟩ expression
    exact (value_eq_iff _ ok).mpr plain

theorem valueOf_lone_iff (compiler : C.Compiler) {text : List Char} {e : Name × Token}
    {k : Name × Int} (reads : Reads e k)
    (begins : ∃ r, C.replacement compiler text e.1 = some r ∧ BeginsWith e.2 r) :
    (∀ expression, C.valueOf { compiler with expression := expression } text k.1 = some k.2) ↔
      C.replacement compiler text e.1 = some e.2 ∧ Plain e.2 := by
  obtain ⟨name, numeric⟩ := reads
  obtain ⟨r, found, begins⟩ := begins
  have value (expression : List Char → Option Int) :
      C.valueOf { compiler with expression := expression } text k.1 =
        C.value { compiler with expression := expression } r := by
    have same : C.replacement { compiler with expression := expression } text k.1 = some r :=
      name ▸ found
    rw [C.valueOf, same]
    rfl
  simp only [value, lone_iff compiler numeric begins, found, Option.some.injEq]

/-- The constants of a header are the values of its macros exactly if C defines each of them
    once, by a list that is spelled for both. Where C finds the token at the start of each list,
    they are the values for every compiler exactly if each list is its token alone, plainly
    spelled. -/
theorem consts_agree_iff (compiler : C.Compiler) {text : List Char} {consts : Consts}
    (ok : parseHeader text = .ok consts) :
    ((∀ k ∈ consts, C.valueOf compiler text k.1 = some k.2) ↔
      ∀ e ∈ readings text, ∃ r, C.replacement compiler text e.1 = some r ∧
        Spelled compiler r e.2) ∧
    ((∀ e ∈ readings text, ∃ r, C.replacement compiler text e.1 = some r ∧ BeginsWith e.2 r) →
      ((∀ expression, ∀ k ∈ consts,
          C.valueOf { compiler with expression := expression } text k.1 = some k.2) ↔
        ∀ e ∈ readings text, C.replacement compiler text e.1 = some e.2 ∧ Plain e.2)) := by
  have all := (parseHeader_ok ok).1
  generalize readings text = read at all ⊢
  clear ok
  induction all with
  | nil => simp
  | cons reads _ ih =>
    simp only [List.forall_mem_cons]
    refine ⟨and_congr (valueOf_iff compiler reads) ih.1, fun ⟨first, rest⟩ => ?_⟩
    exact forall_and.trans (and_congr (valueOf_lone_iff compiler reads first) (ih.2 rest))

/-- A compiler that knows no expression but constants, and takes no `#if`. -/
def plainCompiler : C.Compiler := ⟨fun _ => none, fun _ _ => false⟩

def guardedHeader : List Char :=
  "#ifndef H\n#define H\n#define OB_A 0x1Fu /* 31 */\n# define OB_B -20 // signed\n#endif\n".toList

theorem consts_agree_iff_guarded :
    (∀ expression, C.valueOf { plainCompiler with expression := expression } guardedHeader
      "OB_A".toList = some 31) ∧
    C.valueOf plainCompiler guardedHeader "OB_B".toList = some (-20) := by
  have read : readings guardedHeader =
      [("OB_A".toList, "0x1Fu".toList), ("OB_B".toList, "-20".toList)] := by
    decide +kernel
  have parsed : parseHeader guardedHeader = .ok [("OB_A".toList, 31), ("OB_B".toList, -20)] := by
    decide +kernel
  have lists : C.replacement plainCompiler guardedHeader "OB_A".toList = some "0x1Fu".toList ∧
      C.replacement plainCompiler guardedHeader "OB_B".toList = some "-20".toList := by
    decide +kernel
  have agree := ((consts_agree_iff plainCompiler parsed).2 ?_).mpr ?_
  · exact ⟨fun expression => agree expression _ (List.mem_cons_self ..),
      agree plainCompiler.expression _ (.tail _ (List.mem_cons_self ..))⟩
  · rw [read]
    simp only [List.forall_mem_cons, List.not_mem_nil, false_implies, implies_true, and_true]
    exact ⟨⟨_, lists.1, .inl rfl⟩, _, lists.2, .inl rfl⟩
  · rw [read]
    simp only [List.forall_mem_cons, List.not_mem_nil, false_implies, implies_true, and_true]
    refine ⟨⟨lists.1, ?_⟩, lists.2, ?_⟩
    · exact @Plain.hex 'x' ['1', 'F'] ['u'] [1, 15] (.inl rfl) (by decide) (by decide)
        (.inr (.inl rfl))
    · exact @Plain.decimal ['-'] ['2', '0'] [] [2, 0] (.inr (.inr rfl)) (by decide) (by decide)
        (by decide) (.inl rfl) (by simp)

/-- A leading zero is octal to C. -/
theorem consts_disagree :
    parseHeader "#define OB_X 010\n".toList = .ok [("OB_X".toList, 10)] ∧
      C.replacement plainCompiler "#define OB_X 010\n".toList "OB_X".toList = some "010".toList ∧
      C.valueOf plainCompiler "#define OB_X 010\n".toList "OB_X".toList = some 8 := by
  decide +kernel

end OpenBoot.Generator
