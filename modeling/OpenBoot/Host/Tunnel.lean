import Mathlib.Data.List.Defs
import OpenBoot.Host.Client
import OpenBoot.Host.Framing
import OpenBoot.Semantics.Loop

/-! The tunnel through a keyboard: reports, the control channel, the handshake, the byte
stream, and what is done when the transport is dropped. -/

set_option autoImplicit false

namespace OpenBoot.Host

open Semantics
open Semantics.Program (get modify perform loop attempt)

def reportLen : Nat := 64
def streamMax : Nat := reportLen - 2

def tagControl : Byte := 0x00
def tagStream : Byte := 0x01

def opEnter : Byte := 0x01
def opStatus : Byte := 0x02
def opExit : Byte := 0x03

def enterMagic : Word := 0x4F424231
def enterFlagForce : Byte := 0x01

def stSettling : Byte := 3
def stPassthru : Byte := 4
def stError : Byte := 5

def obbOk : Byte := 0
def obbEMagic : Byte := 1
def obbEState : Byte := 2
def obbEArg : Byte := 3
def obbEBusy : Byte := 4
def obbENoAck : Byte := 5

def describeBridgeStatus (status : Byte) : String :=
  if status = obbOk then "ok"
  else if status = obbEMagic then "bad magic"
  else if status = obbEState then "wrong state (already bridging?)"
  else if status = obbEArg then "bad argument"
  else if status = obbEBusy then "busy"
  else if status = obbENoAck then "the module never acknowledged"
  else "unknown error"

/-- Zeros fill a report. -/
def report (bytes : List Byte) : List Byte := bytes ++ List.replicate (reportLen - bytes.length) 0

def controlReport (op : Byte) (args : List Byte) : List Byte :=
  report ([tagControl, BitVec.ofNat 8 (1 + args.length), op] ++ args)

def streamReport (chunk : List Byte) : List Byte :=
  report ([tagStream, BitVec.ofNat 8 chunk.length] ++ chunk)

structure BridgeStatus where
  state : Byte
  elapsedMs : Word
  lastError : Byte

def parseStatus (payload : List Byte) : Option BridgeStatus :=
  if payload.length < 9 ∨ payload.getD 0 0 ≠ opStatus then none
  else some ⟨payload.getD 2 0, get32 (payload.drop 3), payload.getD 8 0⟩

/-- In nanoseconds. -/
abbrev Duration := Nat

/-- Nanoseconds since the origin of the monotonic clock. -/
abbrev Instant := Nat

def fromMillis (ms : Nat) : Duration := ms * 1000000

/-- A fraction to `width` places, without the zeros at its end. -/
def decimals (frac width : Nat) : String :=
  if frac = 0 then ""
  else
    let digits := (Nat.toDigits 10 frac).leftpad width '0'
    "." ++ String.ofList (digits.reverse.dropWhile (· = '0')).reverse

/-- `{:?}` of a duration: in the largest unit that it reaches. -/
def debugDuration (d : Duration) : String :=
  if d ≥ 1000000000 then toString (d / 1000000000) ++ decimals (d % 1000000000) 9 ++ "s"
  else if d ≥ 1000000 then toString (d / 1000000) ++ decimals (d % 1000000) 6 ++ "ms"
  else if d ≥ 1000 then toString (d / 1000) ++ decimals (d % 1000) 3 ++ "µs"
  else toString d ++ "ns"

structure QmkOpts where
  settleHintMs : BitVec 16
  settleMin : Duration
  probeTimeout : Duration
  probeGap : Duration
  enterDeadline : Duration
  enterAckTimeout : Duration
  statusPoll : Duration

def QmkOpts.default : QmkOpts where
  settleHintMs := 1500
  settleMin := fromMillis 1500
  probeTimeout := fromMillis 300
  probeGap := fromMillis 100
  enterDeadline := fromMillis 7000
  enterAckTimeout := fromMillis 1500
  statusPoll := fromMillis 50

inductive LinkOp where
  | now
  | sleep (d : Duration)
  | write (report : List Byte)
  | read (timeoutMs : Nat)
  deriving DecidableEq

/-- A read gives the bytes of one report, or none on a timeout. -/
abbrev LinkOp.Reply : LinkOp → Type
  | now => Instant
  | sleep _ => Unit
  | write _ => Except (List String) Unit
  | read _ => Except (List String) (List Byte)

abbrev reportLink : Signature := ⟨LinkOp, LinkOp.Reply⟩

/-- The fields of `QmkTransport`. -/
structure Qmk where
  rx : List Byte
  settled : Duration
  passthrough : Bool
  entered : Bool
  booted : Bool

def Qmk.new : Qmk := ⟨[], 0, false, false, false⟩

abbrev Tunnel (X : Type) := ExceptT (Halt X) (Semantics.Program reportLink Qmk)

abbrev Chain := List String

namespace Tunnel

variable {X : Type}

def now : Tunnel X Instant := ExceptT.lift (perform (I := reportLink) .now)

def sleep (d : Duration) : Tunnel X Unit := ExceptT.lift (perform (I := reportLink) (.sleep d))

def modifyGet (f : Qmk → Qmk) : Tunnel X Unit := ExceptT.lift (modify f)

def ofIo {A : Type} : Except Chain A → Tunnel Chain A
  | .ok a => return a
  | .error chain => throw (.failed chain)

def writeReport (report : List Byte) : Tunnel Chain Unit := do
  ofIo (← ExceptT.lift (perform (I := reportLink) (.write report)))

def readReport (timeoutMs : Nat) : Tunnel Chain (List Byte) := do
  ofIo (← ExceptT.lift (perform (I := reportLink) (.read timeoutMs)))

def anchorFromElapsed (elapsedMs : Word) : Tunnel X Instant := do
  let t ← now
  let elapsed := fromMillis elapsedMs.toNat
  if elapsed ≤ t then return t - elapsed else now

def writeControl (op : Byte) (args : List Byte) : Tunnel Chain Unit :=
  writeReport (controlReport op args)

inductive Rx where
  | stream (len : Nat)
  | control (payload : List Byte)
  | ignored

def i32Max : Nat := 2 ^ 31 - 1

/-- One report, demultiplexed. `none` is the deadline. -/
def pump (deadline : Instant) : Tunnel Chain (Option Rx) := do
  let left := deadline - (← now)
  if left = 0 then return none
  let buf ← readReport (max 1 (min (left / 1000000) i32Max))
  let n := buf.length
  -- a report too short, or with a length beyond itself, yields no bytes at all
  if n < 2 then return some .ignored
  let len := (buf.getD 1 0).toNat
  if len > streamMax ∨ len > n - 2 then return some .ignored
  let payload := (buf.drop 2).take len
  if buf.getD 0 0 = tagStream then
    modifyGet fun t => { t with rx := t.rx ++ payload }
    return some (.stream len)
  else if buf.getD 0 0 = tagControl then return some (.control payload)
  else return some .ignored

def readControlPass (deadline : Instant) : Tunnel Chain (Unit ⊕ Option (List Byte)) := do
  match ← pump deadline with
  | none => return .inr none
  | some (.control payload) =>
    if payload ≠ [] then return .inr (some payload) else return .inl ()
  | some _ => return .inl ()

/-- The next control payload that is not empty. Stream bytes on the way are kept. -/
def readControl (fuel : Nat) (deadline : Instant) : Tunnel Chain (Option (List Byte)) :=
  loop (fun _ => readControlPass deadline) fuel ()

def popFront : Tunnel Chain (Option Byte) := do
  let t ← ExceptT.lift get
  match t.rx with
  | [] => return none
  | b :: rest =>
    modifyGet fun t => { t with rx := rest }
    return some b

def pumpBytePass (deadline : Instant) : Tunnel Chain (Unit ⊕ Option Byte) := do
  match ← pump deadline with
  | none => return .inr none
  | some (.stream 0) => return .inl ()
  | some (.control _) => return .inl ()
  | some .ignored => return .inl ()
  | some (.stream _) => return .inr (← popFront)

def pumpByte (fuel : Nat) (wait : Duration) : Tunnel Chain (Option Byte) := do
  match ← popFront with
  | some b => return some b
  | none =>
    let deadline := (← now) + wait
    loop (fun _ => pumpBytePass deadline) fuel ()

def interbyte : Duration := fromMillis 50

section
variable (nextByte : Duration → Tunnel Chain (Option Byte)) (deadline : Instant)

def nextFrameByte : Tunnel Chain (Option Byte) := do
  let remaining := deadline - (← now)
  if remaining = 0 then return none
  nextByte (min interbyte remaining)

/-- Whether the marker was found before the deadline. -/
def huntSof (fuel : Nat) : Tunnel Chain Bool :=
  loop (fun sof1Seen => do
    let remaining := deadline - (← now)
    if remaining = 0 then return .inr false
    match ← nextByte (if sof1Seen then min interbyte remaining else remaining) with
    | some b =>
      if b = uartSof1 then return .inl true
      else if b = uartSof2 ∧ sof1Seen then return .inr true
      else return .inl false
    | none => if sof1Seen then return .inl false else return .inr false) fuel false

def readBytes : Nat → Tunnel Chain (Option (List Byte))
  | 0 => return some []
  | n + 1 => do
    match ← nextFrameByte nextByte deadline with
    | none => return none
    | some b => return (← readBytes n).map (b :: ·)

/-- One complete frame out of a byte source, or `none` once the deadline has passed. -/
def recvSofFrame (fuel : Nat) : Tunnel Chain (Option (List Byte)) :=
  loop (fun _ => do
    if !(← huntSof nextByte deadline fuel) then return .inr none
    match ← readBytes nextByte deadline frameHdrLen with
    | none => return .inl ()
    | some hdr =>
      let len := (hdr.getD 2 0).toNat
      if len > maxPayload then return .inl ()
      match ← readBytes nextByte deadline (len + 4) with
      | none => return .inl ()
      | some tail => return .inr (some (hdr ++ tail))) fuel ()

end

def writeStream : List (List Byte) → Tunnel Chain Unit
  | [] => return ()
  | chunk :: rest => do
    writeReport (streamReport chunk)
    writeStream rest

def sendFrame (frame : List Byte) : Tunnel Chain Unit := do
  -- an explicit BOOT is never overridden when the transport is dropped
  if frame.head? = some cmdBoot then modifyGet fun t => { t with booted := true }
  writeStream ((encodeSof frame).toChunks streamMax)

def recvFrame (fuel : Nat) (deadline : Instant) : Tunnel Chain (Option (List Byte)) :=
  recvSofFrame (pumpByte fuel) deadline fuel

def xfer (fuel : Nat) (req : Frame) (timeout : Duration) : Tunnel TransportError Frame := do
  let deadline := (← now) + timeout
  (sendFrame req.encode).adapt (Halt.map .io)
  loop (fun _ => do
    match ← (recvFrame fuel deadline).adapt (Halt.map .io) with
    | none => throw (.failed .timeout)
    | some raw =>
      match verdict req raw with
      | some frame => return .inr frame
      | none => return .inl ()) fuel ()

inductive EnterError where
  | noAck
  | other (e : Chain)

def enterArgs (force : Bool) (opts : QmkOpts) : List Byte :=
  put32 enterMagic ++
    [opts.settleHintMs.setWidth 8, (opts.settleHintMs >>> 8).setWidth 8,
      if force then enterFlagForce else 0]

def poll (opts : QmkOpts) (t nextPoll : Instant) : Tunnel Chain Instant := do
  if t ≥ nextPoll then
    writeControl opStatus []
    return t + opts.statusPoll
  else return nextPoll

/-- What the keyboard says while it is entering. It answers ENTER only when the module has
    replied, so a failure is final. -/
def hear (nextPoll : Instant) (payload : List Byte) : Tunnel EnterError (Instant ⊕ Instant) := do
  if payload.getD 0 0 = opEnter ∧ payload.length ≥ 2 ∧ payload.getD 1 0 ≠ obbOk then
    if payload.getD 1 0 = obbENoAck then throw (.failed .noAck)
    throw (.failed (.other ["the keyboard refused to open the tunnel: " ++
      describeBridgeStatus (payload.getD 1 0)]))
  else if payload.getD 0 0 = opStatus then
    match parseStatus payload with
    | none => return .inl nextPoll
    | some status =>
      if status.state = stSettling ∨ status.state = stPassthru then
        return .inr (← anchorFromElapsed status.elapsedMs)
      if status.state = stError then
        if status.lastError = obbENoAck then throw (.failed .noAck)
        throw (.failed (.other ["the keyboard's tunnel is in an error state: " ++
          describeBridgeStatus status.lastError]))
      return .inl nextPoll
  else return .inl nextPoll

/-- One round of waiting for the keyboard to reach settling. -/
def enterRound (fuel : Nat) (opts : QmkOpts) (giveUp nextPoll : Instant) :
    Tunnel EnterError (Instant ⊕ Instant) := do
  let t ← now
  if t ≥ giveUp then throw (.failed .noAck)
  let nextPoll ← (poll opts t nextPoll).adapt (Halt.map .other)
  match ← (readControl fuel (min nextPoll giveUp)).adapt (Halt.map .other) with
  | none => return .inl nextPoll
  | some payload => hear nextPoll payload

/-- Ask the keyboard to take the module into the bootloader: the instant the module
    acknowledged. -/
def enter (fuel : Nat) (force : Bool) (opts : QmkOpts) : Tunnel EnterError Instant := do
  (writeControl opEnter (enterArgs force opts)).adapt (Halt.map .other)
  let giveUp := (← now) + opts.enterAckTimeout
  let nextPoll ← now
  loop (enterRound fuel opts giveUp) fuel nextPoll

/-- Without an acknowledgement, once more with force: the module may be in the bootloader
    already. -/
def enterOrForce (fuel : Nat) (opts : QmkOpts) : Tunnel Chain Instant := do
  match ← attempt (enter fuel false opts) with
  | .ok t => return t
  | .error .noAck =>
    (enter fuel true opts).adapt (Halt.map fun
      | .noAck => ["the module never acknowledged, even when forced; is the keyboard's UART" ++
          " wired to it?"]
      | .other e => e)
  | .error (.other e) => throw (.failed e)

/-- One HELLO. The report of a frame error proves that the bootloader is up, but that the link
    is still noisy. -/
def probe (fuel : Nat) (anchor giveUp : Instant) (opts : QmkOpts) (seq : Byte) :
    Tunnel Chain (Byte ⊕ Unit) := do
  if (← now) ≥ giveUp then
    throw (.failed ["the bootloader did not answer within " ++ debugDuration opts.enterDeadline ++
      " of the module resetting; it auto-boots back into the application after about ten" ++
      " seconds, so try again, or use --transport uart against the module's serial pins"])
  modifyGet fun t => { t with rx := [] }
  let payload := helloReqPayload protoMajor protoMinor
  let req : Frame := ⟨cmdHello, seq, payload.val, payload.property⟩
  match ← attempt (xfer fuel req opts.probeTimeout) with
  | .ok frame =>
    if frame.isFrameError then
      sleep opts.probeGap
      return .inl (seq - 1)
    let t ← now
    modifyGet fun q => { q with settled := t - anchor, rx := [], entered := true }
    return .inr ()
  | .error .timeout =>
    sleep opts.probeGap
    return .inl (seq - 1)
  | .error (.io e) => throw (.failed e)

def probeUntilAlive (fuel : Nat) (anchor : Instant) (opts : QmkOpts) : Tunnel Chain Unit := do
  let settleUntil := anchor + opts.settleMin
  let giveUp := anchor + opts.enterDeadline
  let t ← now
  if t < settleUntil then sleep (settleUntil - t)
  -- sequence numbers count down, those of the client up
  loop (probe fuel anchor giveUp opts) fuel 0xFF

/-- A tunnel that an earlier run left open is adopted. -/
def takeOver (fuel : Nat) (opts : QmkOpts) (initial : BridgeStatus) : Tunnel Chain Instant :=
  if initial.state = stPassthru ∨ initial.state = stSettling then
    anchorFromElapsed initial.elapsedMs
  else enterOrForce fuel opts

def askStatus (fuel : Nat) (opts : QmkOpts) : Tunnel Chain (Option (List Byte)) := do
  let controlDeadline := (← now) + opts.enterAckTimeout
  writeControl opStatus []
  readControl fuel controlDeadline

def handshake (fuel : Nat) (opts : QmkOpts) : Tunnel Chain Unit := do
  match (← askStatus fuel opts).bind parseStatus with
  | none =>
    throw (.failed ["the keyboard did not answer the tunnel status request; is this the right" ++
      " interface, and does its firmware include the OpenBoot bridge?"])
  | some initial =>
    let anchor ← takeOver fuel opts initial
    modifyGet fun t => { t with passthrough := true }
    probeUntilAlive fuel anchor opts

def bootFrame : Frame :=
  ⟨cmdBoot, 0xF0, (bootReqPayload bootApp).val, (bootReqPayload bootApp).property⟩

def launchApp (fuel : Nat) : Tunnel Empty Unit := do
  let _ ← attempt (sendFrame bootFrame.encode)
  let deadline := (← now) + fromMillis 400
  let _ ← attempt (recvFrame fuel deadline)

def handBack (fuel : Nat) : Tunnel Empty Unit := do
  let _ ← attempt (writeControl opExit [])
  let deadline := (← now) + fromMillis 200
  let _ ← attempt (readControl fuel deadline)

/-- Errors are ignored, so it cannot fail. -/
def drop (fuel : Nat) : Tunnel Empty Unit := do
  let t ← ExceptT.lift get
  if !t.passthrough then return ()
  if t.entered && !t.booted then launchApp fuel
  handBack fuel

inductive Use where
  | sendFrame (frame : List Byte)
  | recvFrame (deadline : Instant)

def Use.perform (fuel : Nat) : Use → Tunnel Chain Unit
  | sendFrame frame => Tunnel.sendFrame frame
  | recvFrame deadline => do let _ ← Tunnel.recvFrame fuel deadline

def useAll (fuel : Nat) : List Use → Tunnel Empty Unit
  | [] => return ()
  | use :: rest => do
    let _ ← attempt (use.perform fuel)
    useAll fuel rest

/-- `with_link`, on `Qmk.new`; whatever its owner does with the transport if there is one; and
    then drop. -/
def lifetime (fuel : Nat) (opts : QmkOpts) (uses : List Use) : Tunnel Empty (Except Chain Unit) := do
  let opened ← attempt (handshake fuel opts)
  if opened.isOk then useAll fuel uses
  drop fuel
  return opened

end Tunnel

end OpenBoot.Host
