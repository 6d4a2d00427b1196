import OpenBoot.Core.State

/-! Reset-time boot decision: records, slot selection and the launch choice. -/

set_option autoImplicit false

namespace OpenBoot

open Semantics.Program (get modify perform)

/-- Values of the loop variable in `for (a = lo; a < hi; a += step)`; at most
    `hi - lo` turns, which a loop that does not wrap never exceeds. -/
def countUp (hi step : Word) : Nat → Word → List Word
  | 0, _ => []
  | n + 1, a => if a < hi then a :: countUp hi step n (a + step) else []

def forRange (lo hi step : Word) : List Word := countUp hi step (hi - lo).toNat lo

def xipCrcLoop : List Word → Word → Code Word
  | [], c => pure c
  | a :: rest, c => do
    let v ← xipRead32 a
    xipCrcLoop rest (crc32Update c (put32 v))

/-- CRC-32 of `[addr, addr + len)` as seen through XIP. -/
def xipCrc32 (addr len : Word) : Code Word := do
  let c ← xipCrcLoop (forRange addr (addr + len) 4) crc32Init
  return crc32Final c

structure BootRecord where
  magic : Word
  generation : Word
  imgLen : Word
  imgCrc32 : Word
  rsvd : List Byte
  recCrc32 : Word
  deriving DecidableEq

namespace BootRecord

def bytes (r : BootRecord) : List Byte :=
  put32 r.magic ++ put32 r.generation ++ put32 r.imgLen ++ put32 r.imgCrc32 ++ r.rsvd ++
    put32 r.recCrc32

def ofBytes (b : List Byte) : BootRecord where
  magic := get32 b
  generation := get32 (b.drop 4)
  imgLen := get32 (b.drop 8)
  imgCrc32 := get32 (b.drop 12)
  rsvd := (b.drop 16).take recordRsvdBytes
  recCrc32 := get32 (b.drop 28)

def sealed (generation imgLen imgCrc32 : Word) : BootRecord :=
  let record₀ : BootRecord :=
    ⟨recordMagic, generation, imgLen, imgCrc32, List.replicate recordRsvdBytes 0, 0⟩
  { record₀ with recCrc32 := crc32 (record₀.bytes.take recordCrcLen) }

end BootRecord

def xipWords : List Word → Code (List Byte)
  | [] => pure []
  | a :: rest => do
    let v ← xipRead32 a
    let bytes ← xipWords rest
    return put32 v ++ bytes

/-- The one record-validity definition, on the bytes read. -/
def recordCheck (D : Device) (slot : Word) (record : BootRecord) : Option BootRecord :=
  if record.magic ≠ recordMagic then none
  else if crc32 (record.bytes.take recordCrcLen) ≠ record.recCrc32 then none
  else if record.rsvd.any (· ≠ 0) then none
  else if record.generation = 0 then none
  else if record.imgLen ≠ 0 ∧ record.imgLen % 4 = 0 ∧ record.imgLen ≤ D.slotCapacity slot then
    some record
  else none

def recordLoad (D : Device) (slot : Word) : Code (Option BootRecord) := do
  if slot ≥ slotCount then return none
  let addr := D.slotRecordAddr slot
  -- before the read, which would lie beyond a die that cannot hold the slot
  if D.slotCapacity slot = 0 then return none
  let bytes ← xipWords ((List.range (bootRecordSize / 4)).map fun i => addr + BitVec.ofNat 32 i * 4)
  return recordCheck D slot (.ofBytes bytes)

def recordStore (D : Device) (slot generation imgLen imgCrc32 : Word) : Code Word := do
  if slot ≥ slotCount then return 1
  let record := BootRecord.sealed generation imgLen imgCrc32
  let r ← flashErase (D.slotRecordAddr slot) D.eraseBlock
  if r ≠ 0 then return 1
  let r ← flashWrite (D.slotRecordAddr slot) record.bytes
  if r ≠ 0 then return 1
  flashVerify (D.slotRecordAddr slot) record.bytes

def bootImageValid (D : Device) (slot : Word) (record : BootRecord) : Code Bool := do
  let base := D.slotBase slot
  if D.bootImageCrc then
    let c ← xipCrc32 base record.imgLen
    if c ≠ record.imgCrc32 then return false
  let first ← xipRead32 base
  return first ≠ erasedWord

def bootSelectLoop (D : Device) :
    List Word → (highest bestGen best : Word) → Code (Word × Word)
  | [], highest, _, best => pure (best, highest)
  | slot :: rest, highest, bestGen, best => do
    match ← recordLoad D slot with
    | none => bootSelectLoop D rest highest bestGen best
    | some record =>
      -- every valid record counts for the next generation, bootable or not
      let highest := if record.generation > highest then record.generation else highest
      if best ≠ slotNone ∧ record.generation ≤ bestGen then
        bootSelectLoop D rest highest bestGen best
      else if !(← bootImageValid D slot record) then
        bootSelectLoop D rest highest bestGen best
      else
        bootSelectLoop D rest highest record.generation slot

/-- The slot to boot and the highest generation of any valid record. -/
def bootSelect (D : Device) : Code (Word × Word) :=
  bootSelectLoop D [slotA, slotB] 0 0 slotNone

def bootAppValid (D : Device) (slot : Word) : Code Bool := do
  match ← recordLoad D slot with
  | none => return false
  | some record => bootImageValid D slot record

/-- The base of the slot to launch, or `none` to stay in the bootloader. A boot
    request is consumed whenever it is seen. -/
def bootDecide (D : Device) : Code (Option Word) := do
  let c ← get
  if c.bootreq = bootreqMagic then
    modify fun c => { c with bootreq := 0 }
    return none
  let (slot, _) ← bootSelect D
  if slot = slotNone then return none
  return some (D.slotBase slot)

def coherent (f : Flash) : (op : PortOp) → Word
  | .xipRead32 addr => f.read32 addr
  | _ => 0

/-- What a reading program answers on a flash content. -/
def onFlash {A : Type} (D : Device) (f : Flash) (p : Code A) : A :=
  p.answer (coherent f) (.bss D 0)

def recordOn (D : Device) (f : Flash) (slot : Word) : Option BootRecord :=
  onFlash D f (recordLoad D slot)

def imageValidOn (D : Device) (f : Flash) (slot : Word) (record : BootRecord) : Bool :=
  onFlash D f (bootImageValid D slot record)

def selectOn (D : Device) (f : Flash) : Word := (onFlash D f (bootSelect D)).1

def highestOn (D : Device) (f : Flash) : Word := (onFlash D f (bootSelect D)).2

def appValidOn (D : Device) (f : Flash) (slot : Word) : Bool := onFlash D f (bootAppValid D slot)

def decideOn (D : Device) (f : Flash) (bootreq : Word) : Option Word :=
  (bootDecide D).answer (coherent f) (.bss D bootreq)

end OpenBoot
