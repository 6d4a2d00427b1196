import OpenBoot.Core.BootDecision

/-! The protocol engine: range gates, state transitions and the six handlers. -/

set_option autoImplicit false

namespace OpenBoot

open Semantics.Program (get modify)

def readRangeOk (D : Device) (addr len : Word) : Bool :=
  let stop := D.appEnd
  addr ≥ D.flashAppStart ∧ addr < stop ∧ len ≠ 0 ∧ len ≤ stop - addr

def writeRangeOk (D : Device) (c : Core) (addr len : Word) : Bool :=
  let base := D.slotBase c.writeSlot
  let cap := D.slotCapacity c.writeSlot
  cap ≠ 0 ∧ addr ≥ base ∧ addr < base + cap ∧ len ≠ 0 ∧ len ≤ base + cap - addr

namespace Core

/-- A fresh session; the record state survives. -/
def sessionOpen (D : Device) (c : Core) : Core :=
  { c with s := { Session.zero D with
      session := true
      stream := .run
      expectedNext := D.slotBase c.writeSlot
      crcState := crc32Init } }

/-- The record state is unknown until a write succeeds. `mutation_begin` makes
    the same assignments. -/
def recordBeginWrite (c : Core) : Core :=
  { c with recState := .invalid, committedImgLen := 0, committedImgCrc := 0 }

def setDisarmed (c : Core) (disarmed : Bool) : Core :=
  { c with s := { c.s with disarmed := disarmed } }

/-- What a failed record write leaves: the record may have landed after all. -/
def recordNoteWriteFailed (c : Core) : Core := c.setDisarmed false

def poison (c : Core) : Core := { c with s := { c.s with stream := .poisoned } }

def streamNoteErase (addr : Word) (c : Core) : Core :=
  if addr < c.s.expectedNext then c.poison else c

def streamFold (addr len : Word) (data : List Byte) (c : Core) : Core :=
  { c with s := { c.s with
      crcState := crc32Update c.s.crcState data
      expectedNext := c.s.expectedNext + len
      lastAddr := addr
      lastLen := len
      lastData := data ++ c.s.lastData.drop data.length } }

def bitmapMark (D : Device) (addr : Word) (c : Core) : Core :=
  let blk := ((addr - D.slotBase c.writeSlot) / D.eraseBlock).toNat
  { c with s := { c.s with
      bitmap := c.s.bitmap.modify (blk / 8) (· ||| (1 : Byte) <<< (blk % 8)) } }

/-- The commit point in RAM: the roles flip and the session is re-armed. -/
def recordNoteCommitted (D : Device) (imgLen imgCrc generation : Word) (c : Core) : Core :=
  let active := c.writeSlot
  let write := otherSlot active
  { c with
    recState := .fresh
    committedImgLen := imgLen
    committedImgCrc := imgCrc
    highestGen := generation
    activeSlot := active
    writeSlot := write
    s := { c.s with
      disarmed := false
      bitmap := List.replicate D.bitmapBytes 0
      stream := .run
      expectedNext := D.slotBase write
      crcState := crc32Init
      lastAddr := 0
      lastLen := 0 } }

end Core

def bitmapBit (bitmap : List Byte) (b : Nat) : Bool :=
  bitmap.getD (b / 8) 0 &&& (1 : Byte) <<< (b % 8) ≠ 0

def bitmapCovers (D : Device) (c : Core) (addr len : Word) : Bool :=
  let base := D.slotBase c.writeSlot
  let first := ((addr - base) / D.eraseBlock).toNat
  let last := ((addr + len - 1 - base) / D.eraseBlock).toNat
  (List.range' first (last + 1 - first)).all fun b => bitmapBit c.s.bitmap b

/-- Disarm before mutation: the first ERASE or WRITE of a session erases the
    write slot's record. Nonzero means app flash was not touched. -/
def mutationBegin (D : Device) : Code Word := do
  let c ← get
  if c.s.disarmed then return 0
  -- distrusted from the attempt on: a failed erase leaves the block unknown
  modify Core.recordBeginWrite
  let r ← flashErase (D.slotRecordAddr c.writeSlot) D.eraseBlock
  if r = 0 then
    modify fun c => c.setDisarmed true
    return r
  return r

inductive WriteClass where
  | fold
  | retry
  | poison
  deriving DecidableEq

def streamClassifyWrite (c : Core) (addr len : Word) (data : List Byte) : WriteClass :=
  if addr = c.s.expectedNext then .fold
  else if addr = c.s.lastAddr ∧ len = c.s.lastLen ∧ addr + len = c.s.expectedNext ∧
      data = c.s.lastData.take len.toNat then .retry
  else .poison

def Core.noteClass (cls : WriteClass) (c : Core) : Core :=
  match cls with
  | .poison => c.poison
  | _ => c

/-- May COMMIT read the image straight out of flash? -/
def attestViaXip (D : Device) (c : Core) : Bool := D.crcLive || c.recState = .flash

def streamCovers (D : Device) (c : Core) (imgLen : Word) : Bool :=
  c.s.stream = .run ∧ c.s.expectedNext = D.slotBase c.writeSlot + imgLen

/-- Will the reset after BOOT land in an application? -/
def bootRecordTrusted (D : Device) : Code Bool := do
  let c ← get
  match c.recState with
  | .fresh => return true
  | .flash =>
    let (slot, _) ← bootSelect D
    return slot ≠ slotNone
  | .invalid =>
    if c.activeSlot = slotNone then return false
    bootAppValid D c.activeSlot

def coreInit (D : Device) : Code Unit := do
  modify fun c =>
    { c with s := .zero D, recState := .flash, committedImgLen := 0, committedImgCrc := 0 }
  let (active, highest) ← bootSelect D
  modify fun c =>
    { c with
      highestGen := highest
      activeSlot := active
      -- with nothing bootable there is no image to preserve, and slot A is the target
      writeSlot := if active = slotNone then slotA else otherSlot active }

/-! ### Handlers

`pl` is the buffer from the payload on and `n` the payload length.
-/

inductive Action where
  | none
  | reset
  deriving DecidableEq

def helloPayload (D : Device) (c : Core) : List Byte :=
  [ok, protoMajor, protoMinor, D.chipRev, blVersion.setWidth 8, (blVersion >>> 8).setWidth 8,
    D.chipFamily, D.transportId] ++
  put32 D.flashAppStart ++ put32 D.appEnd ++ put32 D.eraseBlock ++
  [D.flashWritePage.setWidth 8, (D.flashWritePage >>> 8).setWidth 8, 4,
    BitVec.ofNat 8 maxWriteData] ++
  put32 D.features ++ D.uid ++
  [slotCount.setWidth 8, if c.activeSlot = slotNone then slotIdNone else c.activeSlot.setWidth 8,
    c.writeSlot.setWidth 8, 0] ++
  put32 (D.slotBase c.writeSlot) ++ put32 (D.slotCapacity c.writeSlot)

def doHello (D : Device) (pl : List Byte) (n : Nat) (seq : Byte) : Code (List Byte) := do
  if n ≠ helloReqLen then return errResp cmdHello seq eLen 0
  if get32 pl ≠ helloMagic then return errResp cmdHello seq eArg 0
  if pl.getD 4 0 ≠ protoMajor ∨ protoMajor = 0 ∧ pl.getD 5 0 ≠ protoMinor then
    return errResp cmdHello seq eProto 0
  modify (Core.sessionOpen D)
  let c ← get
  return finish (cmdHello ||| cmdRespBit) seq (helloPayload D c)

/-- The erase loop: one driver call per block, each marked as it succeeds. -/
def eraseLoop (D : Device) (seq : Byte) : List Word → Code (List Byte)
  | [] => pure (okResp cmdErase seq)
  | a :: rest => do
    let r ← flashErase a D.eraseBlock
    if r ≠ 0 then return errResp cmdErase seq eFlash (r.setWidth 8)
    modify (Core.bitmapMark D a)
    eraseLoop D seq rest

def doErase (D : Device) (pl : List Byte) (n : Nat) (seq : Byte) : Code (List Byte) := do
  if n ≠ 8 then return errResp cmdErase seq eLen 0
  let addr := get32 pl
  let len := get32 (pl.drop 4)
  if addr % D.eraseBlock ≠ 0 ∨ len % D.eraseBlock ≠ 0 then
    return errResp cmdErase seq eAddr detAddrAlign
  let c ← get
  if !writeRangeOk D c addr len then return errResp cmdErase seq eAddr detAddrRange
  -- before the loop: a later block may fail after an earlier one destroyed the run
  modify (Core.streamNoteErase addr)
  let r ← mutationBegin D
  if r ≠ 0 then return errResp cmdErase seq eFlash (r.setWidth 8)
  eraseLoop D seq (forRange addr (addr + len) D.eraseBlock)

def doWrite (D : Device) (pl : List Byte) (n : Nat) (seq : Byte) : Code (List Byte) := do
  if n < 8 ∨ n - 4 > maxWriteData ∨ (n - 4) % 4 ≠ 0 then return errResp cmdWrite seq eLen 0
  let addr := get32 pl
  let dlen := BitVec.ofNat 32 (n - 4)
  let data := (pl.drop 4).take (n - 4)
  if addr % 4 ≠ 0 then return errResp cmdWrite seq eAddr detAddrAlign
  let c ← get
  if !writeRangeOk D c addr dlen then return errResp cmdWrite seq eAddr detAddrRange
  if !bitmapCovers D c addr dlen then return errResp cmdWrite seq eNotErased 0
  -- classified before the fallible commands, so that a failed write poisons as well
  let cls := streamClassifyWrite c addr dlen data
  modify (Core.noteClass cls)
  let r ← mutationBegin D
  if r ≠ 0 then return errResp cmdWrite seq eFlash (r.setWidth 8)
  let r ← flashWrite addr data
  if r ≠ 0 then return errResp cmdWrite seq eFlash (r.setWidth 8)
  let r ← flashVerify addr data
  if r ≠ 0 then return errResp cmdWrite seq eFlash (r.setWidth 8)
  if cls = .fold then
    modify (Core.streamFold addr dlen data)
    return okResp cmdWrite seq
  return okResp cmdWrite seq

def doCrc (D : Device) (pl : List Byte) (n : Nat) (seq : Byte) : Code (List Byte) := do
  if n ≠ 8 then return errResp cmdCrc seq eLen 0
  let addr := get32 pl
  let len := get32 (pl.drop 4)
  if addr % 4 ≠ 0 ∨ len % 4 ≠ 0 then return errResp cmdCrc seq eAddr detAddrAlign
  if !readRangeOk D addr len then return errResp cmdCrc seq eAddr detAddrRange
  let c ← xipCrc32 addr len
  return finish (cmdCrc ||| cmdRespBit) seq (ok :: put32 c)

/-- The part of COMMIT after attestation: pick a generation and store. -/
def commitRecord (D : Device) (imgLen imgCrc : Word) (seq : Byte) : Code (List Byte) := do
  let c ← get
  let generation := c.highestGen + 1
  -- the ceiling is never stored, and past it the counter wraps to the reserved zero
  if generation = 0xFFFFFFFF ∨ generation = 0 then
    return errResp cmdCommit seq eFlash detNone
  modify Core.recordBeginWrite
  let r ← recordStore D c.writeSlot generation imgLen imgCrc
  if r ≠ 0 then
    modify Core.recordNoteWriteFailed
    return errResp cmdCommit seq eFlash (r.setWidth 8)
  modify (Core.recordNoteCommitted D imgLen imgCrc generation)
  return okResp cmdCommit seq

def doCommit (D : Device) (pl : List Byte) (n : Nat) (seq : Byte) : Code (List Byte) := do
  if n ≠ 8 then return errResp cmdCommit seq eLen 0
  let imgLen := get32 pl
  let imgCrc := get32 (pl.drop 4)
  if imgLen = 0 ∨ imgLen % 4 ≠ 0 then return errResp cmdCommit seq eLen 0
  let c ← get
  -- this check stands before the replay check, and looks at the slot after the flip
  if imgLen > D.slotCapacity c.writeSlot then return errResp cmdCommit seq eAddr detAddrRange
  if c.recState = .fresh ∧ c.committedImgLen = imgLen ∧ c.committedImgCrc = imgCrc then
    return okResp cmdCommit seq
  if attestViaXip D c then
    let crc ← xipCrc32 (D.slotBase c.writeSlot) imgLen
    if crc ≠ imgCrc then return errResp cmdCommit seq eVerify detVerifyMismatch
    commitRecord D imgLen imgCrc seq
  else
    if !streamCovers D c imgLen then return errResp cmdCommit seq eVerify detVerifyNonseq
    if crc32Final c.s.crcState ≠ imgCrc then
      return errResp cmdCommit seq eVerify detVerifyMismatch
    commitRecord D imgLen imgCrc seq

def doBoot (D : Device) (pl : List Byte) (n : Nat) (seq : Byte) : Code (List Byte × Action) := do
  if n ≠ 1 then return (errResp cmdBoot seq eLen 0, .none)
  if pl.getD 0 0 > bootStay then return (errResp cmdBoot seq eArg 0, .none)
  if pl.getD 0 0 = bootApp then
    if !(← bootRecordTrusted D) then
      return (errResp cmdBoot seq eVerify detVerifyNorecord, .none)
    return (okResp cmdBoot seq, .reset)
  -- staying must survive the reset even over a valid application
  modify fun c => { c with bootreq := bootreqMagic }
  return (okResp cmdBoot seq, .reset)

def dispatch (D : Device) (cmd : Byte) (pl : List Byte) (n : Nat) (seq : Byte) :
    Code (List Byte × Action) := do
  if cmd = cmdHello then return (← doHello D pl n seq, .none)
  if cmd = cmdBoot ∨ cmd = cmdErase ∨ cmd = cmdWrite ∨ cmd = cmdCrc ∨ cmd = cmdCommit then
    let c ← get
    -- without a session only HELLO is served, BOOT included
    if !c.s.session then return (errResp cmd seq eState 0, .none)
    if cmd = cmdBoot then doBoot D pl n seq
    else if cmd = cmdErase then return (← doErase D pl n seq, .none)
    else if cmd = cmdWrite then return (← doWrite D pl n seq, .none)
    else if cmd = cmdCrc then return (← doCrc D pl n seq, .none)
    else return (← doCommit D pl n seq, .none)
  else return (errResp cmd seq eCmd 0, .none)

/-- One candidate frame. An empty response means nothing is sent. -/
def handleFrame (D : Device) (buf : List Byte) : Code (List Byte × Action) := do
  if buf.length < frameOverhead then return ([], .none)
  let cmd := buf.getD 0 0
  let seq := buf.getD 1 0
  let n := (buf.getD 2 0).toNat
  if n > maxPayload then return ([], .none)
  if buf.length < frameOverhead + n then return ([], .none)
  if crc32 (buf.take (frameHdrLen + n)) ≠ get32 (buf.drop (frameHdrLen + n)) then
    return (finish cmdFrameErr seq [eCrc, 0], .none)
  if buf.getD 3 0 ≠ 0 then return (errResp cmd seq eArg 0, .none)
  dispatch D cmd (buf.drop frameHdrLen) n seq

end OpenBoot
