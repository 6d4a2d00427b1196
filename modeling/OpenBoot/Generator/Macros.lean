import OpenBoot.Generator.Header

/-! C's reading of the same header: translation phases two to four, and the value of a macro
as an integer constant expression. Identifiers are words of the basic letters, digits and
underscores, and of every character beyond ASCII.
-/

set_option autoImplicit false

namespace OpenBoot.Generator.C

/-- Phase two: a backslash joins its line with the next. -/
def splice : List Char → List Char
  | [] => []
  | [c] => [c]
  | c :: d :: rest => if c.toNat = 0x5C ∧ d = '\n' then splice rest else c :: splice (d :: rest)

inductive Mode where
  | code
  | lineComment
  | blockComment
  /-- Within a string or a character constant. -/
  | quoted (delimiter : Char)
  deriving DecidableEq

def quotes (c : Char) : Bool := c.toNat ∈ [0x22, 0x27]

/-- Phase three: every comment becomes one space. -/
def uncomment : Mode → List Char → List Char
  | _, [] => []
  | .code, '/' :: '/' :: rest => ' ' :: uncomment .lineComment rest
  | .code, '/' :: '*' :: rest => ' ' :: uncomment .blockComment rest
  | .code, c :: rest => c :: uncomment (if quotes c then .quoted c else .code) rest
  | .lineComment, c :: rest =>
    if c = '\n' then c :: uncomment .code rest else uncomment .lineComment rest
  | .blockComment, '*' :: '/' :: rest => uncomment .code rest
  | .blockComment, _ :: rest => uncomment .blockComment rest
  | .quoted _, [c] => [c]
  | .quoted q, c :: d :: rest =>
    if c.toNat = 0x5C then c :: d :: uncomment (.quoted q) rest
    else c :: uncomment (if c = q ∨ c = '\n' then .code else .quoted q) (d :: rest)

def lines (text : List Char) : List (List Char) := (uncomment .code (splice text)).splitOn '\n'

def isWhite (c : Char) : Bool := c.toNat ∈ [0x20, 0x09, 0x0B, 0x0C]

def skipWhite (s : List Char) : List Char := s.dropWhile isWhite

def trim (s : List Char) : List Char := (skipWhite (skipWhite s).reverse).reverse

def isWord (c : Char) : Bool := c.isAlphanum ∨ c = '_' ∨ 128 ≤ c.toNat

def word (s : List Char) : List Char := s.takeWhile isWord

/-- The macros defined so far; one with parameters has no replacement list here. -/
abbrev Macros := List (Name × Option (List Char))

/-- What the rules of numerals do not settle: the value of any other expression, in a header
    with its includes, and the outcome of an `#if`. -/
structure Compiler where
  expression : List Char → Option Int
  condition : Macros → List Char → Bool

/-- A conditional group: whether its lines are read, and whether an earlier group of the same
    conditional was. -/
structure Group where
  taken : Bool
  settled : Bool

structure State where
  macros : Macros
  groups : List Group

def State.reading (s : State) : Bool := s.groups.all Group.taken

def State.defined (s : State) (name : Name) : Bool := s.macros.any (·.1 = name)

def State.openGroup (s : State) (b : Bool) : State := { s with groups := ⟨b, b⟩ :: s.groups }

/-- `#elif`, and `#else` under a condition that holds. -/
def State.nextGroup (s : State) (b : Bool) : State :=
  match s.groups with
  | [] => s
  | g :: outer => { s with groups := ⟨!g.settled && b, g.settled || b⟩ :: outer }

/-- The replacement list starts behind the name; a parenthesis there starts parameters. -/
def replacementList (afterName : List Char) : Option (List Char) :=
  if afterName.head? = some '(' then none else some (trim afterName)

def State.define (s : State) (rest : List Char) : State :=
  let name := word rest
  { s with macros := s.macros ++ [(name, replacementList (rest.drop name.length))] }

def State.undef (s : State) (name : Name) : State :=
  { s with macros := s.macros.filter (·.1 ≠ name) }

variable (C : Compiler)

/-- One line of phase four. -/
def directive (s : State) (l : List Char) : State :=
  match skipWhite l with
  | '#' :: rest =>
    let keyword := word (skipWhite rest)
    let rest := skipWhite ((skipWhite rest).drop keyword.length)
    if keyword = "ifdef".toList then s.openGroup (s.defined (word rest))
    else if keyword = "ifndef".toList then s.openGroup (!s.defined (word rest))
    else if keyword = "if".toList then s.openGroup (C.condition s.macros rest)
    else if keyword = "elif".toList then s.nextGroup (C.condition s.macros rest)
    else if keyword = "else".toList then s.nextGroup true
    else if keyword = "endif".toList then { s with groups := s.groups.tail }
    else if ¬ s.reading then s
    else if keyword = "define".toList then s.define rest
    else if keyword = "undef".toList then s.undef (word rest)
    else s
  | _ => s

def macrosOf (text : List Char) : Macros := ((lines text).foldl (directive C) ⟨[], []⟩).macros

def replacement (text : List Char) (name : Name) : Option (List Char) :=
  match (macrosOf C text).filter (·.1 = name) with
  | [(_, r)] => r
  | _ => none

/-- The types an integer constant may have here: the wide ones are `long long` on the chip and
    `long` on the host. -/
inductive IntType where
  | int
  | unsignedInt
  | long
  | unsignedLong
  deriving DecidableEq

def IntType.width : IntType → Nat
  | int | unsignedInt => 32
  | long | unsignedLong => 64

def IntType.isSigned : IntType → Bool
  | int | long => true
  | unsignedInt | unsignedLong => false

def IntType.bound (type : IntType) : Nat :=
  2 ^ if type.isSigned then type.width - 1 else type.width

def candidates (decimal unsigned : Bool) : List IntType :=
  match decimal, unsigned with
  | _, true => [.unsignedInt, .unsignedLong]
  | true, false => [.int, .long]
  | false, false => [.int, .unsignedInt, .long, .unsignedLong]

def unsuffixed (s : List Char) : List Char × Bool :=
  if s.getLast? = some 'u' ∨ s.getLast? = some 'U' then (s.dropLast, true) else (s, false)

def inBase (base : Nat) (s : List Char) : Option Nat :=
  (Numeral.digits base s).map (Numeral.number base)

/-- The number that digits spell; a leading zero without a letter makes them octal. -/
def magnitude : List Char → Option Nat
  | '0' :: x :: rest =>
    if x = 'x' ∨ x = 'X' then inBase 16 rest
    else if x = 'b' ∨ x = 'B' then inBase 2 rest
    else inBase 8 ('0' :: x :: rest)
  | ['0'] => inBase 8 ['0']
  | s => inBase 10 s

def constant (s : List Char) : Option (IntType × Nat) := do
  let (digits, unsigned) := unsuffixed s
  let v ← magnitude digits
  let type ← (candidates (digits.head? ≠ some '0') unsigned).find? (v < ·.bound)
  return (type, v)

def IntType.negate (type : IntType) (v : Nat) : Int :=
  if type.isSigned then -v else (-v : Int) % 2 ^ type.width

inductive Sign where
  | plus
  | minus

def Sign.apply : Sign → IntType × Nat → Int
  | plus, (_, v) => v
  | minus, (type, v) => type.negate v

def unsign : List Char → Sign × List Char
  | '+' :: rest => (.plus, skipWhite rest)
  | '-' :: rest => (.minus, skipWhite rest)
  | s => (.plus, s)

def startsNumeral (c : Char) : Bool := (Numeral.digit 10 c).isSome ∨ (foreignDigit c).isSome

def isNumeralChar (c : Char) : Bool :=
  Hexadecimal.IsHex c ∨ c ∈ "xXuU_".toList ∨ 128 ≤ c.toNat

/-- A single token that can only be an integer constant without a length suffix. -/
def isNumeral : List Char → Bool
  | [] => false
  | c :: rest => startsNumeral c && (c :: rest).all isNumeralChar

def value (r : List Char) : Option Int :=
  let (sign, s) := unsign r
  if isNumeral s then (constant s).map sign.apply else C.expression r

def valueOf (text : List Char) (name : Name) : Option Int := (replacement C text name).bind (value C)

end OpenBoot.Generator.C
