import OpenBoot.Coding.Numeral

/-! The reader of the protocol header: `parse_header` of the generator, on the text that
`read_text` returns, where every line ends in a line feed.
-/

set_option autoImplicit false

namespace OpenBoot.Generator

/-- `str.isspace`, of one character. -/
def isspace (c : Char) : Bool :=
  let n := c.toNat
  (0x09 ≤ n ∧ n ≤ 0x0D) ∨ (0x1C ≤ n ∧ n ≤ 0x20) ∨ (0x2000 ≤ n ∧ n ≤ 0x200A) ∨
    n ∈ [0x85, 0xA0, 0x1680, 0x2028, 0x2029, 0x202F, 0x205F, 0x3000]

/-- `str.splitlines` breaks at more than line feeds. -/
def isLineBreak (c : Char) : Bool :=
  c.toNat ∈ [0x0A, 0x0B, 0x0C, 0x0D, 0x1C, 0x1D, 0x1E, 0x85, 0x2028, 0x2029]

def splitlines : List Char → List (List Char)
  | [] => []
  | '\r' :: '\n' :: rest => [] :: splitlines rest
  | c :: rest =>
    if isLineBreak c then [] :: splitlines rest
    else match splitlines rest with
      | [] => [[c]]
      | first :: others => (c :: first) :: others

def lstrip (s : List Char) : List Char := s.dropWhile isspace

/-- `str.split`, at white space. -/
def split (s : List Char) : List (List Char) := (s.splitOnP isspace).filter (· ≠ [])

def removesuffix (c : Char) (s : List Char) : List Char :=
  if s.getLast? = some c then s.dropLast else s

/-- The zeros of the decimal digits beyond ASCII, as of Unicode 14; each has its nine others
    behind it. -/
def zeros : List Nat :=
  [0x660, 0x6F0, 0x7C0, 0x966, 0x9E6, 0xA66, 0xAE6, 0xB66, 0xBE6, 0xC66, 0xCE6, 0xD66, 0xDE6, 0xE50,
    0xED0, 0xF20, 0x1040, 0x1090, 0x17E0, 0x1810, 0x1946, 0x19D0, 0x1A80, 0x1A90, 0x1B50, 0x1BB0,
    0x1C40, 0x1C50, 0xA620, 0xA8D0, 0xA900, 0xA9D0, 0xA9F0, 0xAA50, 0xABF0, 0xFF10, 0x104A0, 0x10D30,
    0x11066, 0x110F0, 0x11136, 0x111D0, 0x112F0, 0x11450, 0x114D0, 0x11650, 0x116C0, 0x11730, 0x118E0,
    0x11950, 0x11C50, 0x11D50, 0x11DA0, 0x16A60, 0x16AC0, 0x16B50, 0x1D7CE, 0x1D7D8, 0x1D7E2, 0x1D7EC,
    0x1D7F6, 0x1E140, 0x1E2F0, 0x1E950, 0x1FBF0]

def foreignDigit (c : Char) : Option Nat :=
  (zeros.find? fun z => z ≤ c.toNat ∧ c.toNat < z + 10).map (c.toNat - ·)

/-- `int` takes the decimal digits of every script, in every base. -/
def intDigit (base : Nat) (c : Char) : Option Nat :=
  (Numeral.digit base c).or ((foreignDigit c).filter (· < base))

def intDigits (base : Nat) : List Char → Option (List Nat)
  | [] => none
  | [c] => (intDigit base c).map ([·])
  | c :: '_' :: rest => do return (← intDigit base c) :: (← intDigits base rest)
  | c :: rest => do return (← intDigit base c) :: (← intDigits base rest)

/-- `sys.get_int_max_str_digits`, by default. -/
def intMaxStrDigits : Nat := 4300

/-- `int(t, 16)` of a text that starts with its prefix; an underscore may follow that. -/
def int16 : List Char → Option Int
  | _ :: _ :: '_' :: rest => (intDigits 16 rest).map fun ds : List Nat => (Numeral.number 16 ds : Int)
  | _ :: _ :: rest => (intDigits 16 rest).map fun ds : List Nat => (Numeral.number 16 ds : Int)
  | _ => none

def nat10 (t : List Char) : Option Nat := do
  let ds ← intDigits 10 t
  if ds.length ≤ intMaxStrDigits then return Numeral.number 10 ds else none

/-- `int(t, 10)` of a text without white space. -/
def int10 : List Char → Option Int
  | '+' :: rest => (nat10 rest).map fun n : Nat => (n : Int)
  | '-' :: rest => (nat10 rest).map fun n : Nat => -(n : Int)
  | t => (nat10 t).map fun n : Nat => (n : Int)

abbrev Name := List Char

abbrev Token := List Char

/-- `t.lower().startswith("0x")` -/
def hexPrefixed : List Char → Bool
  | c :: x :: _ => c = '0' ∧ (x = 'x' ∨ x = 'X')
  | _ => false

def unsuffixed (token : Token) : Token := removesuffix 'U' (removesuffix 'u' token)

def parseNumeric (token : Token) : Option Int :=
  let t := unsuffixed token
  if hexPrefixed t then int16 t else int10 t

def defineWord : List Char := "define".toList

def splitDefine (l : List Char) : Option (List Token) :=
  match lstrip l with
  | '#' :: rest =>
    let afterHash := lstrip rest
    if defineWord.isPrefixOf afterHash then
      let rest := afterHash.drop defineWord.length
      if rest.head? = some ' ' ∨ rest.head? = some '\t' then
        match split rest with
        | [] => none
        | tokens => some tokens
      else none
    else none
  | _ => none

inductive HeaderError where
  | functionLike (name : Name)
  | noValue (name : Name)
  | notNumeric (name : Name) (token : Token)
  | notSingle (name : Name) (tokens : List Token)
  | twice (name : Name)
  | empty
  deriving DecidableEq

/-- The text of the exit; `repr` quotes as Python does. -/
def HeaderError.message (path : String) (repr : List Char → String) : HeaderError → String
  | functionLike name => s!"{path}: function-like macro {String.ofList name} is not supported"
  | noValue name => s!"{path}: {String.ofList name} has no value"
  | notNumeric name token =>
    s!"{path}: {String.ofList name} = {repr token} is not a plain numeric literal; " ++
      "the generator only understands 0x-hex and decimal"
  | notSingle name tokens =>
    let text := repr (List.intercalate [' '] tokens)
    s!"{path}: {String.ofList name} = {text} is not a single " ++
      "numeric literal; the generator cannot evaluate expressions, so write the computed value"
  | twice name => s!"{path}: {String.ofList name} defined twice"
  | empty => s!"{path}: no OB_* defines found"

def namePrefix : List Char := "OB_".toList

def opensComment (t : Token) : Bool := "/*".toList.isPrefixOf t || "//".toList.isPrefixOf t

abbrev Consts := List (Name × Int)

def names (out : Consts) : List Name := out.map Prod.fst

/-- What follows the value must be a comment. -/
def single : List Token → Bool
  | [] => true
  | next :: _ => opensComment next

def parseDefine (out : Consts) (name : Name) (tokens : List Token) : Except HeaderError Consts :=
  if '(' ∈ name then throw (.functionLike name)
  else match tokens with
    | [] => throw (.noValue name)
    | token :: rest =>
      match parseNumeric token with
      | none => throw (.notNumeric name token)
      | some value =>
        if ¬ single rest then throw (.notSingle name tokens)
        else if name ∈ names out then throw (.twice name)
        else return out ++ [(name, value)]

def parseLine (out : Consts) (l : List Char) : Except HeaderError Consts :=
  match splitDefine l with
  | some (name :: tokens) =>
    if namePrefix.isPrefixOf name then parseDefine out name tokens else return out
  | _ => return out

def parseHeader (text : List Char) : Except HeaderError Consts := do
  let out ← (splitlines text).foldlM parseLine []
  if out = [] then throw .empty
  return out

/-- The macro a line defines and the token it reads the value from. -/
def reading (l : List Char) : Option (Name × Token) :=
  match splitDefine l with
  | some (name :: token :: _) => if namePrefix.isPrefixOf name then some (name, token) else none
  | _ => none

def readings (text : List Char) : List (Name × Token) := (splitlines text).filterMap reading

def Reads (e : Name × Token) (k : Name × Int) : Prop := k.1 = e.1 ∧ parseNumeric e.2 = some k.2

theorem parseDefine_ok {out out' : Consts} {name : Name} {tokens : List Token}
    (ok : parseDefine out name tokens = .ok out') :
    ∃ token rest value, tokens = token :: rest ∧ parseNumeric token = some value ∧
      name ∉ names out ∧ out' = out ++ [(name, value)] := by
  unfold parseDefine at ok
  split at ok
  · cases ok
  split at ok
  · cases ok
  rename_i token rest
  split at ok
  · cases ok
  rename_i value numeric
  split at ok
  · cases ok
  split at ok
  · cases ok
  rename_i known
  exact ⟨token, rest, value, rfl, numeric, known, (Except.ok.inj ok).symm⟩

theorem parseLine_ok {out out' : Consts} {l : List Char} (ok : parseLine out l = .ok out') :
    (reading l = none ∧ out' = out) ∨
      ∃ e k, reading l = some e ∧ Reads e k ∧ k.1 ∉ names out ∧ out' = out ++ [k] := by
  unfold parseLine at ok
  unfold reading
  generalize splitDefine l = found at ok ⊢
  rcases found with _ | _ | ⟨name, tokens⟩
  · exact .inl ⟨rfl, (Except.ok.inj ok).symm⟩
  · exact .inl ⟨rfl, (Except.ok.inj ok).symm⟩
  · by_cases ours : namePrefix.isPrefixOf name = true
    · simp only [ours, if_true] at ok
      obtain ⟨token, rest, value, rfl, numeric, known, rfl⟩ := parseDefine_ok ok
      exact .inr ⟨(name, token), (name, value), by simp [ours], ⟨rfl, numeric⟩, known, rfl⟩
    · simp only [ours] at ok
      refine .inl ⟨?_, (Except.ok.inj ok).symm⟩
      cases tokens with
      | nil => rfl
      | cons token rest => simp [ours]

theorem foldlM_ok {lines : List (List Char)} {out out' : Consts} (distinct : (names out).Nodup)
    (ok : lines.foldlM parseLine out = .ok out') :
    ∃ added, out' = out ++ added ∧ List.Forall₂ Reads (lines.filterMap reading) added ∧
      (names out').Nodup := by
  induction lines generalizing out with
  | nil =>
    obtain rfl := Except.ok.inj ok
    exact ⟨[], (List.append_nil _).symm, .nil, distinct⟩
  | cons l lines ih =>
    rw [List.foldlM_cons] at ok
    cases step : parseLine out l with
    | error e =>
      rw [step] at ok
      cases ok
    | ok next =>
      rw [step] at ok
      rcases parseLine_ok step with ⟨silent, rfl⟩ | ⟨e, k, reads, agree, new, rfl⟩
      · obtain ⟨added, rfl, all, distinct⟩ := ih distinct ok
        exact ⟨added, rfl, by rwa [List.filterMap_cons_none silent], distinct⟩
      · have fresh : (names (out ++ [k])).Nodup := by
          have apart : ∀ a ∈ out, a.1 ≠ k.1 := fun a mem same =>
            new (List.mem_map.mpr ⟨a, mem, same⟩)
          simpa [names, List.nodup_append] using ⟨distinct, fun a b mem => apart (a, b) mem⟩
        obtain ⟨added, rfl, all, distinct⟩ := ih fresh ok
        refine ⟨k :: added, by simp, ?_, distinct⟩
        rw [List.filterMap_cons_some reads]
        exact .cons agree all

/-- A header that parses has its defines as constants, in order and under distinct names. -/
theorem parseHeader_ok {text : List Char} {consts : Consts} (ok : parseHeader text = .ok consts) :
    List.Forall₂ Reads (readings text) consts ∧ (names consts).Nodup ∧ consts ≠ [] := by
  unfold parseHeader at ok
  cases run : (splitlines text).foldlM parseLine [] with
  | error e =>
    rw [run] at ok
    cases ok
  | ok out =>
    rw [run] at ok
    by_cases nothing : out = []
    · subst nothing
      cases ok
    · simp only [nothing, if_false, bind, Except.bind, pure, Except.pure] at ok
      obtain rfl := Except.ok.inj ok
      have start : (names []).Nodup := List.nodup_nil
      obtain ⟨added, rfl, all, distinct⟩ := foldlM_ok start run
      exact ⟨all, distinct, nothing⟩

end OpenBoot.Generator
