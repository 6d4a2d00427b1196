import OpenBoot.Core.Words
import OpenBoot.Semantics.Failure

/-! The flash driver for the CH5xx families, on the registers of its serial controller.

The busy polls are unbounded. Here they have fuel: a call that runs out of it hangs, as the
driver does when the engine never gets ready.
-/

set_option autoImplicit false

namespace OpenBoot.Driver

open Semantics

/-- The register accesses, `OB_FL_*` and the safe-access helpers. -/
inductive RegOp where
  | ctrlRd
  | ctrlWr (v : Byte)
  | data8Rd
  | data8Wr (v : Byte)
  | data32Rd
  | data32Wr (v : Word)
  | globRd
  | globWr (v : Byte)
  | nop
  | safeAccessEnable
  | safeAccessDisable
  deriving DecidableEq

def RegOp.Reply : RegOp → Type
  | .ctrlRd | .data8Rd | .globRd => Byte
  | .data32Rd => Word
  | _ => Unit

abbrev registers : Signature := ⟨RegOp, RegOp.Reply⟩

inductive Hung where
  | hung
  deriving DecidableEq

abbrev Code := ExceptT Hung (Program registers Unit)

def access (op : RegOp) : Code (RegOp.Reply op) :=
  ExceptT.lift (Program.perform (I := registers) op)

inductive Family where
  | ch57x
  | ch59x
  deriving DecidableEq

/-- What the build fixes. Page erase is CH592-only. -/
structure Config where
  family : Family
  pageErase : Bool
  cpuHz : Nat
  supported : pageErase = true → family = .ch59x

def romCodeOfs : Byte := 0x10
def romCtrlEn : Byte := 0x20
def romDataWe : Byte := 0x40

namespace Config

variable (F : Config)

def romCodeWe : Byte :=
  match F.family with
  | .ch57x => 0xC0
  | .ch59x => 0x80

def gateWrite : Byte :=
  match F.family with
  | .ch57x => romCtrlEn ||| F.romCodeWe
  | .ch59x => romCtrlEn ||| romDataWe ||| F.romCodeWe

def gateRead : Byte :=
  match F.family with
  | .ch57x => F.gateWrite
  | .ch59x => romCtrlEn

def beginNops : Nat :=
  match F.family with
  | .ch57x => 2
  | .ch59x => 1

def resumeTwice : Bool := decide (F.family = .ch57x)

def infoOr : Word :=
  match F.family with
  | .ch57x => 0
  | .ch59x => 0x80000

def waitIters : Nat := F.cpuHz / 40

def eraseBlock : Word := if F.pageErase then 256 else 4096

def eraseOp : Byte := if F.pageErase then 0x81 else 0x20

end Config

def erErrParam : Word := 0x51
def erErrTimeout : Word := 0x52
def wrErrParam : Word := 0x61
def wrErrTimeout : Word := 0x62
def vfErrParam : Word := 0x71
def vfErrMismatch : Word := 0x72

section
variable (F : Config) (fuel : Nat)

def flBusy : Nat → Code Unit
  | 0 => throw .hung
  | fuel + 1 => do
    let v ← access .ctrlRd
    -- `(int8_t)v < 0`
    if BitVec.msb v = true then flBusy fuel

def flNops : Nat → Code Unit
  | 0 => pure ()
  | n + 1 => do
    access .nop
    flNops n

def flBegin (cmd : Byte) : Code Unit := do
  access (.ctrlWr 0)
  access (.ctrlWr 0x05)
  flNops F.beginNops
  access (.data8Wr cmd)

def flEnd : Code Unit := do
  flBusy fuel
  access (.ctrlWr 0)

def flIn : Code Byte := do
  flBusy fuel
  access .data8Rd

def flOut (v : Byte) : Code Unit := do
  flBusy fuel
  access (.data8Wr v)

def flOpen (gate : Byte) : Code Unit := do
  let reg ← access .globRd
  access .safeAccessEnable
  access (.globWr ((show Byte from reg) ||| gate))
  access .safeAccessDisable
  access (.ctrlWr 0x04)
  flBegin F 0xFF
  if F.resumeTwice = true then
    flBusy fuel
    access (.data8Wr 0xFF)
    flBusy fuel
  flEnd fuel

def flClose : Code Unit := do
  let reg ← access .globRd
  access .safeAccessEnable
  access (.globWr ((show Byte from reg) &&& romCodeOfs))
  access .safeAccessDisable

def flAddr : Nat → Word → Code Unit
  | 0, _ => pure ()
  | n + 1, addr => do
    flOut fuel ((addr >>> 16).setWidth 8)
    flAddr n (addr <<< 8)

def flCmdAddr (cmd : Byte) (addr : Word) : Code Unit := do
  if cmd &&& 0xBF ≠ 0x0B then
    flBegin F 0x06
    flEnd fuel
    flBegin F cmd
    flAddr fuel 3 addr
  else
    flBegin F cmd
    flAddr fuel 5 addr

def flPoll : Nat → Code Word
  | 0 => return 0
  | i + 1 => do
    flBegin F 0x05
    let _ ← flIn fuel
    let status ← flIn fuel
    flEnd fuel
    if status &&& 0x01 = 0 then return (status.setWidth 32 ||| 1)
    flPoll i

def flWait : Code Word := do
  flEnd fuel
  flPoll F fuel F.waitIters

def eraseBlocks : Nat → Word → Code Word
  | 0, _ => return 0
  | count + 1, addr => do
    flCmdAddr F fuel F.eraseOp addr
    if (← flWait F fuel) = 0 then return erErrTimeout
    eraseBlocks count (addr + F.eraseBlock)

def flashErase (addr len : Word) : Code Word := do
  if len = 0 ∨ (addr ||| len) &&& (F.eraseBlock - 1) ≠ 0 ∨ addr + len < addr then
    return erErrParam
  flOpen F fuel F.gateWrite
  -- the loop takes one block off the length each time, and the length is a multiple of it
  let rc ← eraseBlocks F fuel (len.toNat / F.eraseBlock.toNat) addr
  flClose
  return rc

/-- `const void *buf`: the pointer and the words behind it. -/
structure Buffer where
  ptr : Word
  words : Nat → Word

def flPulses : Nat → Code Unit
  | 0 => pure ()
  | n + 1 => do
    flBusy fuel
    access (.ctrlWr 0x15)
    flPulses n

structure Rest (words : Nat) where
  left : Nat
  /-- The next word of the buffer. -/
  w : Nat
  addr : Word
  less : left < words

def programWord (buf : Buffer) (w : Nat) : Code Unit := do
  access (.data32Wr (buf.words w))
  flPulses fuel 4

/-- The words of one page: one, and then of the `more` after it those before the address
    wraps. -/
def programPage (buf : Buffer) : (more : Nat) → Nat → Word → Code (Rest (more + 1))
  | 0, w, addr => do
    programWord fuel buf w
    return ⟨0, w + 1, addr + 4, Nat.succ_pos _⟩
  | more + 1, w, addr => do
    programWord fuel buf w
    if (addr + 4) &&& 0xFF ≠ 0 then
      let rest ← programPage buf more (w + 1) (addr + 4)
      return ⟨rest.left, rest.w, rest.addr, Nat.lt_succ_of_lt rest.less⟩
    return ⟨more + 1, w + 1, addr + 4, Nat.lt_succ_self _⟩

def programPages (buf : Buffer) (words w : Nat) (addr : Word) : Code Word :=
  match words with
  | 0 => return 0
  | more + 1 => do
    flCmdAddr F fuel 0x02 addr
    let rest ← programPage fuel buf more w addr
    if (← flWait F fuel) = 0 then return wrErrTimeout
    programPages buf rest.left rest.w rest.addr
termination_by words
decreasing_by exact rest.less

def flashWrite (addr : Word) (buf : Buffer) (len : Word) : Code Word := do
  if len = 0 ∨ (addr ||| len) &&& 3 ≠ 0 ∨ buf.ptr &&& 3 ≠ 0 ∨ addr + len < addr then
    return wrErrParam
  flOpen F fuel F.gateWrite
  let rc ← programPages F fuel buf (len >>> 2).toNat 0 addr
  flClose
  return rc

/-- `left` more bytes, the next one with number `i`, and the next word of the buffer. -/
def verifyBytes (buf : Buffer) : (left : Nat) → Word → Nat → Code Word
  | 0, _, _ => return 0
  | left + 1, i, w => do
    let _ ← flIn fuel
    if i &&& 3 = 3 then
      let word ← access .data32Rd
      if (show Word from word) ≠ buf.words w then return vfErrMismatch
      verifyBytes buf left (i + 1) (w + 1)
    else verifyBytes buf left (i + 1) w

def flashVerify (addr : Word) (buf : Buffer) (len : Word) : Code Word := do
  if len = 0 ∨ (addr ||| len) &&& 3 ≠ 0 ∨ buf.ptr &&& 3 ≠ 0 ∨ addr + len < addr then
    return vfErrParam
  flOpen F fuel F.gateRead
  flCmdAddr F fuel 0x0B addr
  let rc ← verifyBytes fuel buf len.toNat 0 0
  flEnd fuel
  flClose
  return rc

/-- Byte `k` clocked goes to `b[(15 - k) & 7]`: `n` more bytes into the eight of `b`. -/
def uidBytes : Nat → List Byte → Code (List Byte)
  | 0, b => return b
  | i + 1, b => do
    let v ← flIn fuel
    uidBytes i (b.set (i % 8) (b.getD (i % 8) 0 ^^^ v))

def uidRead : Code (List Byte) := do
  flOpen F fuel F.gateRead
  flCmdAddr F fuel 0x4B 0
  let b ← uidBytes fuel 16 (.replicate 8 0)
  flEnd fuel
  flClose
  return b

def clockBytes : Nat → Code Unit
  | 0 => pure ()
  | n + 1 => do
    let _ ← flIn fuel
    clockBytes n

def romInfoRead (addr buf₁ : Word) : Code (Word × Word) := do
  flOpen F fuel F.gateRead
  flCmdAddr F fuel 0x0B (addr ||| F.infoOr)
  clockBytes fuel 4
  let low ← access .data32Rd
  clockBytes fuel 4
  let word ← access .data32Rd
  let high : Word := if addr &&& 0x2000 ≠ 0
    then (buf₁ &&& 0xFFFF0000) ||| ((show Word from word) &&& 0xFFFF) else word
  flEnd fuel
  flClose
  return (low, high)

end

end OpenBoot.Driver
