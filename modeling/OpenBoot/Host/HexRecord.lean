import OpenBoot.Coding.Hexadecimal
import OpenBoot.Host.Guarded

/-! Intel HEX, line by line: `HexRecord::parse_line` and the lines it accepts. A `&str` is the
list of its characters. -/

set_option autoImplicit false

namespace OpenBoot.Host

open Hexadecimal

inductive HexRecord where
  | data (offset : BitVec 16) (bytes : List Byte)
  | eof
  | extendedSegment (value : BitVec 16)
  | extendedLinear (value : BitVec 16)
  | ignored
  deriving DecidableEq

inductive IntErrorKind where
  | empty
  | invalidDigit
  | posOverflow

def IntErrorKind.text : IntErrorKind → String
  | empty => "cannot parse integer from empty string"
  | invalidDigit => "invalid digit found in string"
  | posOverflow => "number too large to fit in target type"

def digitsFrom (max : Nat) : Nat → List Char → Except IntErrorKind Nat
  | acc, [] => .ok acc
  | acc, c :: rest =>
    match digit c with
    | none => .error .invalidDigit
    | some d => if max < acc * 16 + d then .error .posOverflow else digitsFrom max (acc * 16 + d) rest

/-- `from_str_radix(s, 16)` of an unsigned type: it takes a leading `+`. -/
def fromStrRadix16 (max : Nat) (s : List Char) : Except IntErrorKind Nat :=
  match s with
  | [] => .error .empty
  | c :: rest =>
    if (c = '+' ∨ c = '-') ∧ rest = [] then .error .invalidDigit
    else digitsFrom max 0 (if c = '+' then rest else s)

namespace HexRecord

def u32FromHex (s : List Char) : Fallible Nat :=
  match fromStrRadix16 (2 ^ 32 - 1) s with
  | .ok v => .ok v
  | .error e => bail ("invalid hex '" ++ String.ofList s ++ "': " ++ e.text)

def byteFromHex (s : List Char) : Fallible Byte :=
  match fromStrRadix16 255 s with
  | .ok v => .ok (BitVec.ofNat 8 v)
  | .error e => bail ("invalid hex byte '" ++ String.ofList s ++ "': " ++ e.text)

def hexPairs (s : List Char) : Nat → Nat → Guarded (List Byte)
  | 0, _ => pure []
  | left + 1, i => do
    let pair ← Guarded.slice s i (i + 2)
    let byte ← Guarded.ofFallible (byteFromHex pair)
    let rest ← hexPairs s left (i + 2)
    return byte :: rest

def hexToBytes (s : List Char) : Guarded (List Byte) := do
  if s.length % 2 ≠ 0 then
    Guarded.ofFallible (bail ("odd-length hex field: '" ++ String.ofList s ++ "'"))
  hexPairs s (s.length / 2) 0

def extendedValue (t n : Nat) (dataHex : List Char) : Fallible (BitVec 16) := do
  if n ≠ 2 then
    bail ("intel hex: type " ++ toString t ++ " record must carry exactly 2 data bytes, got " ++
      toString n)
  let value ← u32FromHex dataHex
  return BitVec.ofNat 16 value

def isAscii (s : List Char) : Bool := s.all fun c => c.toNat < 128

def parseLine (line : List Char) : Guarded HexRecord := do
  if line.head? ≠ some ':' then
    Guarded.ofFallible (bail ("intel hex: junk line (records start with ':'): " ++
      String.ofList line))
  if ¬ isAscii line then
    Guarded.ofFallible (bail ("intel hex: non-ASCII record: " ++ String.ofList line))
  -- every character is one byte from here on
  if line.length < 11 then
    Guarded.ofFallible (bail ("intel hex: record too short: " ++ String.ofList line))
  let countHex ← Guarded.slice line 1 3
  let n ← Guarded.ofFallible (u32FromHex countHex)
  let addrHex ← Guarded.slice line 3 7
  let addr ← Guarded.ofFallible (u32FromHex addrHex)
  let typeHex ← Guarded.slice line 7 9
  let t ← Guarded.ofFallible (u32FromHex typeHex)
  let dataEnd := 9 + n * 2
  if line.length < dataEnd then
    Guarded.ofFallible (bail ("intel hex: truncated record: " ++ String.ofList line))
  if line.length < dataEnd + 2 then
    Guarded.ofFallible (bail ("intel hex: record is missing its checksum byte: " ++
      String.ofList line))
  if line.length > dataEnd + 2 then
    Guarded.ofFallible (bail ("intel hex: trailing bytes after the record checksum: " ++
      String.ofList line))
  let checkedHex ← Guarded.slice line 1 (dataEnd + 2)
  let checked ← hexToBytes checkedHex
  let sum := checked.foldl (· + ·) 0
  if sum ≠ 0 then
    Guarded.ofFallible (bail ("intel hex: bad record checksum (record bytes sum to " ++ hex2 sum ++
      ", expected 0x00): " ++ String.ofList line))
  let dataHex ← Guarded.slice line 9 dataEnd
  match t with
  | 0 =>
    let bytes ← hexToBytes dataHex
    return .data (BitVec.ofNat 16 addr) bytes
  | 1 =>
    if n ≠ 0 ∨ addr ≠ 0 then
      Guarded.ofFallible (bail "intel hex: EOF record must have byte count 0 and address 0000")
    return .eof
  | 2 =>
    let value ← Guarded.ofFallible (extendedValue t n dataHex)
    return .extendedSegment value
  | 4 =>
    let value ← Guarded.ofFallible (extendedValue t n dataHex)
    return .extendedLinear value
  | _ => return .ignored

def bytesOf : List Char → List Byte
  | a :: b :: rest => BitVec.ofNat 8 (value [a, b]) :: bytesOf rest
  | _ => []

section
variable (line : List Char)

def recordBytes : List Byte := bytesOf line.tail

def count : Nat := ((recordBytes line).getD 0 0).toNat
def address : Nat := ((recordBytes line).getD 1 0).toNat * 256 + ((recordBytes line).getD 2 0).toNat
def recordType : Nat := ((recordBytes line).getD 3 0).toNat
def payload : List Byte := ((recordBytes line).drop 4).take (count line)

def payloadValue : Nat := ((payload line).getD 0 0).toNat * 256 + ((payload line).getD 1 0).toNat

structure Grammar : Prop where
  colon : line.head? = some ':'
  hex : ∀ c ∈ line.tail, IsHex c
  length : line.tail.length = 2 * (5 + count line)
  sum : ((recordBytes line).map BitVec.toNat).sum % 256 = 0
  eof : recordType line = 1 → count line = 0 ∧ address line = 0
  base : recordType line = 2 ∨ recordType line = 4 → count line = 2

def decoded : HexRecord :=
  match recordType line with
  | 0 => .data (BitVec.ofNat 16 (address line)) (payload line)
  | 1 => .eof
  | 2 => .extendedSegment (BitVec.ofNat 16 (payloadValue line))
  | 4 => .extendedLinear (BitVec.ofNat 16 (payloadValue line))
  | _ => .ignored

end

/-- A sign counts as a leading zero. -/
def unsign (c : Char) : Char := if c = '+' then '0' else c

def unsigned (text : List Char) : List Char := text.map unsign

/-- Every sign stands first in a pair, in the address field, and in the value of a base
    record. -/
def SignsLead (text : List Char) : Prop :=
  ∀ i, text[i]? = some '+' → i % 2 = 1 ∧ i ≠ 5 ∧
    (i = 11 → recordType (unsigned text) ≠ 2 ∧ recordType (unsigned text) ≠ 4)

/-- A record but for leading signs in place of digits. -/
def SignedRecord (text : List Char) : Prop :=
  '+' ∈ text ∧ SignsLead text ∧ Grammar (unsigned text)

end HexRecord

end OpenBoot.Host
