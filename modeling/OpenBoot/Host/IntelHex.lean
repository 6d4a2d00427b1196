import OpenBoot.Host.HexGrammar
import OpenBoot.Memory.Filling
import Mathlib.Data.List.DropRight

/-! Intel HEX, the whole file: lines into records, records into one gap-filled image. -/

set_option autoImplicit false

namespace OpenBoot.Host

namespace IntelHex

/-- `replace("\r\n", "\n")`. -/
def normalized : List Char → List Char
  | '\r' :: '\n' :: rest => '\n' :: normalized rest
  | c :: rest => c :: normalized rest
  | [] => []

/-- The Unicode property White_Space. -/
def isWhitespace (c : Char) : Bool :=
  (9 ≤ c.toNat && c.toNat ≤ 13) || (0x2000 ≤ c.toNat && c.toNat ≤ 0x200A) ||
    [0x20, 0x85, 0xA0, 0x1680, 0x2028, 0x2029, 0x202F, 0x205F, 0x3000].contains c.toNat

def trim (line : List Char) : List Char := (line.dropWhile isWhitespace).rdropWhile isWhitespace

def lines (text : List Char) : List (List Char) := (normalized text).splitOn '\n'

def maxImageSpan : Nat := 16 * 1024 * 1024

structure Accumulator where
  base : Nat := 0
  records : List (Nat × List Byte) := []
  min : Option Nat := none
  max : Nat := 0
  sawEof : Bool := false

namespace Accumulator

def feed (acc : Accumulator) : HexRecord → Fallible Accumulator
  | .data offset bytes => do
    let full := acc.base + offset.toNat
    let stop := full + bytes.length
    if stop > 0xFFFFFFFF + 1 then
      bail ("intel hex: record at 0x" ++ hexPadded 0 full ++ " exceeds the 32-bit address space")
    return { acc with
      records := acc.records ++ [(full, bytes)]
      min := match acc.min with
        | none => some full
        | some m => if full < m then some full else some m
      max := if stop > acc.max then stop else acc.max }
  | .eof => return { acc with sawEof := true }
  | .extendedSegment v => return { acc with base := v.toNat <<< 4 }
  | .extendedLinear v => return { acc with base := v.toNat <<< 16 }
  | .ignored => return acc

/-- The bytes of a record at `off`, from number `i` on: the overlap bitmap and the image. -/
def place (off a : Nat) : Nat → List Byte → List Bool → List Byte →
    Guarded (List Bool × List Byte)
  | _, [], used, img => return (used, img)
  | i, byte :: rest, used, img => do
    let taken ← Guarded.index used (off + i)
    if taken = true then
      Guarded.ofFallible (bail ("intel hex: overlapping data records at 0x" ++ hexPadded 8 (a + i)))
    let _ ← Guarded.index img (off + i)
    place off a (i + 1) rest (used.set (off + i) true) (img.set (off + i) byte)

def placeAll (lo : Nat) : List (Nat × List Byte) → List Bool → List Byte →
    Guarded (List Bool × List Byte)
  | [], used, img => return (used, img)
  | (a, d) :: rest, used, img => do
    let (used, img) ← place (a - lo) a 0 d used img
    placeAll lo rest used img

def finish (acc : Accumulator) : Guarded (Word × List Byte) := do
  if acc.sawEof = false then
    Guarded.ofFallible (bail "intel hex: missing EOF record — file truncated?")
  match acc.min with
  | none => return (0, [])
  | some lo =>
    let span := acc.max - lo
    if span > maxImageSpan then
      Guarded.ofFallible (bail ("intel hex: image spans " ++ toString span ++ " bytes (0x" ++
        hexPadded 0 lo ++ "..0x" ++ hexPadded 0 acc.max ++ "); refusing"))
    let (_, img) ← placeAll lo acc.records (.replicate span false) (.replicate span 0xFF)
    return (BitVec.ofNat 32 lo, img)

end Accumulator

def feedLines : Accumulator → List (List Char) → Guarded Accumulator
  | acc, [] => return acc
  | acc, line :: rest =>
    if trim line = [] then feedLines acc rest
    else do
      if acc.sawEof = true then
        Guarded.ofFallible (bail ("intel hex: content after the EOF record: " ++
          String.ofList (trim line)))
      let record ← HexRecord.parseLine (trim line)
      let acc ← Guarded.ofFallible (acc.feed record)
      feedLines acc rest

def parseIntelHex (text : List Char) : Guarded (Word × List Byte) := do
  let acc ← feedLines {} (lines text)
  acc.finish

end IntelHex

end OpenBoot.Host
