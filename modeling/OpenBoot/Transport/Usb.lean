import OpenBoot.Core.Protocol
import OpenBoot.Transport.Sie

/-! The USB transport: a full-speed HID device that is polled.

Each function is the source's, on its static variables and the controller's registers. Where
the source returns a pointer into the receive buffer, the bytes are read when the caller
reads them.
-/

set_option autoImplicit false

namespace OpenBoot.Usb

open Semantics
open Semantics.Program (get modify)

def maxFrame : Nat := frameOverhead + maxPayload

structure Board where
  vid : BitVec 16
  pid : BitVec 16
  pollIntervalUs : Nat
  drains : 0 < 10000 / pollIntervalUs

/-- The polls `tr_send` waits for the host. -/
def Board.drainPolls (T : Board) : Nat := 10000 / T.pollIntervalUs

def Board.devDesc (T : Board) : List Byte :=
  [18, 0x01, 0x10, 0x01, 0x00, 0x00, 0x00, 64,
    T.vid.setWidth 8, (T.vid >>> 8).setWidth 8, T.pid.setWidth 8, (T.pid >>> 8).setWidth 8,
    blVersion.setWidth 8, (blVersion >>> 8).setWidth 8, 1, 2, 3, 1]

def cfgDesc : List Byte :=
  [9, 0x02, 41, 0, 1, 1, 0, 0x80, 50,
    9, 0x04, 0, 0, 2, 0x03, 0x00, 0x00, 0,
    9, 0x21, 0x11, 0x01, 0x00, 1, 0x22, 25, 0,
    7, 0x05, 0x01, 0x03, 0x40, 0x00, 1,
    7, 0x05, 0x81, 0x03, 0x40, 0x00, 1]

def reportDesc : List Byte :=
  [0x06, 0x00, 0xFF, 0x09, 0x01, 0xA1, 0x01, 0x15, 0x00, 0x26, 0xFF, 0x00, 0x75, 0x08, 0x95, 0x40,
    0x09, 0x01, 0x81, 0x02, 0x09, 0x01, 0x91, 0x02, 0xC0]

def strLang : List Byte := [4, 0x03, 0x09, 0x04]

def strOpenboot : List Byte :=
  [18, 0x03, 0x4F, 0, 0x70, 0, 0x65, 0, 0x6E, 0, 0x42, 0, 0x6F, 0, 0x6F, 0, 0x74, 0]

inductive RxState where
  | idle
  /-- A report is pending. -/
  | pending
  /-- The core has it. -/
  | withCore
  deriving DecidableEq

structure Statics where
  /-- `bRequest` awaiting its IN stage. -/
  setupReq : Byte
  pendAddr : Byte
  devConfig : Byte
  rxState : RxState
  txBusy : Bool
  strSerial : List Byte
  deriving DecidableEq

def Statics.bss : Statics := ⟨0, 0, 0, .idle, false, List.replicate 34 0⟩

abbrev Code := Program sieOps Statics

def reg (op : SieOp) : Code op.Reply := Program.perform (I := sieOps) op

/-- A conditional statement without an alternative. -/
def guarded (c : Prop) [Decidable c] (p : Code Unit) : Code Unit := if c then p else pure ()

def EpCtrl.setR (c : EpCtrl) (res : Handshake) : EpCtrl := { c with rRes := res }

def EpCtrl.setT (c : EpCtrl) (res : Handshake) : EpCtrl := { c with tRes := res }

/-- `R8_UEP1_CTRL = f(R8_UEP1_CTRL)`, a read and a write. -/
def editCtrl1 (f : EpCtrl → EpCtrl) : Code Unit := do
  let c ← reg (.ctrl .ep1)
  reg (.setCtrl .ep1 (f c))

def ctrl0Idle : EpCtrl := ⟨false, false, false, .ack, .nak⟩

def ctrl1Reset : EpCtrl := ⟨false, false, true, .ack, .nak⟩

def usbEpReset : Code Unit := do
  reg (.setCtrl .ep0 ctrl0Idle)
  reg (.setCtrl .ep1 ctrl1Reset)
  modify fun r => { r with rxState := .idle, txBusy := false, devConfig := 0 }

/-- The locals `p`, `len` and `err` of `ep0_setup`. -/
structure Served where
  p : Option (List Byte)
  len : Nat
  err : Bool

def Served.of (p : List Byte) : Served := ⟨some p, p.length, false⟩

def Served.status : Served := ⟨none, 0, false⟩

/-- `n` bytes that are in the buffer already. -/
def Served.inPlace (n : Nat) : Served := ⟨none, n, false⟩

def Served.stalled : Served := ⟨none, 0, true⟩

def getDescriptor (T : Board) (vl vh : Byte) : Code Served := do
  let r ← get
  if vh = 0x01 then return .of T.devDesc
  else if vh = 0x02 then return .of cfgDesc
  else if vh = 0x22 then return .of reportDesc
  else if vh = 0x03 then
    if vl = 0 then return .of strLang
    else if vl = 3 then return .of r.strSerial
    else if vl ≤ 2 then return .of strOpenboot
    else return .stalled
  else return .stalled

/-- Of a device or an interface there is nothing to clear. -/
def clearFeature (bm ixl : Byte) : Code Served := do
  if bm &&& 0x1F = 0x02 then
    if ixl = 0x81 then
      editCtrl1 fun c => { c with tTog := false, tRes := .nak }
      return .status
    else if ixl = 0x01 then
      editCtrl1 fun c => { c with rTog := false, rRes := .ack }
      return .status
    else return .stalled
  else return .status

def serveStandard (T : Board) (bm rq vl vh ixl : Byte) : Code Served := do
  if rq = rqGetDescriptor then getDescriptor T vl vh
  else if rq = rqSetAddress then
    modify fun r => { r with pendAddr := vl }
    return .status
  else if rq = rqGetConfiguration then
    reg (.setEp0 0 (← get).devConfig)
    return .inPlace 1
  else if rq = rqSetConfiguration then
    modify fun r => { r with devConfig := vl }
    return .status
  else if rq = rqGetInterface then
    reg (.setEp0 0 0)
    return .inPlace 1
  else if rq = rqGetStatus then
    reg (.setEp0 0 0)
    reg (.setEp0 1 0)
    return .inPlace 2
  else if rq = rqClearFeature then clearFeature bm ixl
  else if rq ≠ rqSetFeature then return .stalled
  else return .status

/-- The requests of `ep0_setup`: of the HID class, of a vendor and the standard ones. -/
def serve (T : Board) (bm rq vl vh ixl : Byte) : Code Served := do
  if bm &&& 0x60 = 0x20 then
    if rq ≠ hidrqSetIdle then return .stalled
    else return .status
  else if bm &&& 0x60 ≠ 0x00 then return .stalled
  else serveStandard T bm rq vl vh ixl

/-- `ep0_buf[i] = p[i]` for the first `len` bytes, unless `p` is null. -/
def copyIn (p : Option (List Byte)) (len : Nat) : Code Unit :=
  match p with
  | some p => forM ((List.finRange 64).take len) fun i => reg (.setEp0 i (p.getD i 0))
  | none => pure ()

def data1 (rRes tRes : Handshake) : EpCtrl := ⟨true, true, false, rRes, tRes⟩

/-- The end of `ep0_setup`. -/
def armStage (bm : Byte) (wlen : BitVec 16) (s : Served) : Code Unit := do
  if s.err then
    reg (.setCtrl .ep0 (data1 .stall .stall))
  else
    -- without the direction bit there is only the status stage
    let len := if bm &&& 0x80 ≠ 0 then min s.len wlen.toNat else 0
    copyIn (if bm &&& 0x80 ≠ 0 then s.p else none) len
    reg (.setTLen .ep0 (BitVec.ofNat 8 len))
    reg (.setCtrl .ep0 (data1 .ack .ack))

/-- `ep0_setup` once it has read the packet. -/
def respond (T : Board) (bm rq vl vh ixl : Byte) (wlen : BitVec 16) : Code Unit := do
  reg (.setCtrl .ep0 (data1 .ack .nak))
  modify fun r => { r with setupReq := rq }
  let s ← serve T bm rq vl vh ixl
  armStage bm wlen s

def ep0Setup (T : Board) : Code Unit := do
  let bm ← reg (.ep0 0)
  let rq ← reg (.ep0 1)
  let vl ← reg (.ep0 2)
  let vh ← reg (.ep0 3)
  let ixl ← reg (.ep0 4)
  let lenLow ← reg (.ep0 6)
  let lenHigh ← reg (.ep0 7)
  respond T bm rq vl vh ixl (lenLow.setWidth 16 ||| lenHigh.setWidth 16 <<< 8)

/-- The transaction that ended, unless it is a SETUP. -/
def transferred (st : IntSt) : Code Unit := do
  if st.token = .uisIn ∧ st.endp = 1 then
    editCtrl1 (·.setT .nak)
    modify fun r => { r with txBusy := false }
  else if st.token = .uisOut ∧ st.endp = 1 then
    -- a short packet leaves the tail of the report before in the buffer
    if (← reg .intSt).togOk then
      if (← reg .rxLen) = BitVec.ofNat 8 maxFrame then
        editCtrl1 (·.setR .nak)
        modify fun r => { r with rxState := .pending }
  else if st.token = .uisIn ∧ st.endp = 0 then
    let r ← get
    guarded (r.setupReq = rqSetAddress) (reg (.setDevAd r.pendAddr))
    reg (.setTLen .ep0 0)
    reg (.setCtrl .ep0 ctrl0Idle)
  else if st.token = .uisOut ∧ st.endp = 0 then
    reg (.setCtrl .ep0 ctrl0Idle)

/-- The part of `usb_process` that runs with the transfer flag up. -/
def transferEvent (T : Board) (intflag : IntFg) : Code Unit := do
  let st ← reg .intSt
  guarded (st.token ≠ .uisSetup ∧ ¬ intflag.isNak) (reg .intSt >>= transferred)
  let st ← reg .intSt
  guarded st.setupAct (ep0Setup T)

def onlyTransfer : IntFg := ⟨true, false, false, false⟩

def onlyBusRst : IntFg := ⟨false, true, false, false⟩

def usbProcess (T : Board) : Code Unit := do
  let intflag ← reg .intFg
  if intflag.transfer then
    transferEvent T intflag
    -- not before: the flag holds the SETUP packet in the buffer
    reg (.clearFg onlyTransfer)
  else if intflag.busRst then
    reg (.setDevAd 0)
    usbEpReset
    reg (.clearFg onlyBusRst)
  else if intflag.other ∨ intflag.isNak then
    reg (.clearFg intflag)

def hexnib (n : Byte) : Byte := if n < 10 then 0x30 + n else 0x41 - 10 + n

/-- `str_serial` of a unit id: its bytes from the last one down, two digits each. -/
def strSerialOf (uid : Vector Byte 8) : List Byte :=
  34 :: 0x03 :: uid.toList.reverse.flatMap fun b : Byte => [hexnib (b >>> 4), 0, hexnib (b &&& 0x0F), 0]

/-- `tr_init` before the part goes on the bus. The registers that say where the buffers are,
    which endpoints there are and that no interrupt is wanted are not modelled. -/
def initRegisters (uid : Vector Byte 8) : Code Unit := do
  modify fun r => { r with strSerial := strSerialOf uid }
  reg (.setUsbCtrl ⟨false, false, false⟩)
  usbEpReset
  reg (.setDevAd 0)
  reg (.setUsbCtrl ⟨true, true, true⟩)
  reg (.clearFg ⟨true, true, true, true⟩)

def trInit (uid : Vector Byte 8) : Code Unit := do
  initRegisters uid
  reg .phyAttach

def trPoll (T : Board) : Code (Option Nat) := do
  let r ← get
  guarded (r.rxState = .withCore) do
    modify fun r => { r with rxState := .idle }
    editCtrl1 (·.setR .ack)
  usbProcess T
  if (← get).rxState = .pending then
    modify fun r => { r with rxState := .withCore }
    return maxFrame
  else return none

/-- The wait of `tr_send`, for as many polls as are left. -/
def drain (T : Board) : Nat → Code Unit
  | 0 => pure ()
  | polls + 1 => do
    if (← get).txBusy then
      usbProcess T
      reg (.delayUs T.pollIntervalUs)
      drain T polls

def trSend (T : Board) (frame : List Byte) : Code Unit := do
  forM (List.finRange maxFrame) fun i => reg (.setTx i (frame.getD i 0))
  reg (.setTLen .ep1 (BitVec.ofNat 8 maxFrame))
  editCtrl1 (·.setT .ack)
  modify fun r => { r with txBusy := true }
  drain T T.drainPolls
  if (← get).txBusy then
    -- the host never came
    editCtrl1 (·.setT .nak)
    modify fun r => { r with txBusy := false }

/-- What passed between the transport and the core: reports handed to it, responses taken. -/
structure Log where
  reports : List (List Byte)
  responses : List (List Byte)
  deriving DecidableEq

def readAll : List (Fin 64) → Code (List Byte)
  | [] => pure []
  | i :: is => do
    let b ← reg (.rx i)
    let rest ← readAll is
    return b :: rest

/-- The core reads the report where it lies. -/
def readReport (avail : Nat) : Code (List Byte) := readAll ((List.finRange 64).take avail)

/-- One pass of the main loop. What the core answers may depend on all it was given. -/
def turn (core : List (List Byte) → Option (List Byte)) (T : Board) (l : Log) : Code Log := do
  match ← trPoll T with
  | some avail =>
    let report ← readReport avail
    let reports := l.reports ++ [report]
    match core reports with
    | some resp =>
      trSend T resp
      reg (.delayUs T.pollIntervalUs)
      return ⟨reports, l.responses ++ [resp]⟩
    | none =>
      reg (.delayUs T.pollIntervalUs)
      return ⟨reports, l.responses⟩
  | none =>
    reg (.delayUs T.pollIntervalUs)
    return l

def turns (core : List (List Byte) → Option (List Byte)) (T : Board) : Nat → Log → Code Log
  | 0, l => pure l
  | n + 1, l => do turns core T n (← turn core T l)

def device (core : List (List Byte) → Option (List Byte)) (T : Board) (uid : Vector Byte 8)
    (n : Nat) : Code Log := do
  trInit uid
  turns core T n ⟨[], []⟩

end OpenBoot.Usb
