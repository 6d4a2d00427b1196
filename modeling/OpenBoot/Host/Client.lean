import OpenBoot.Host.DeviceInfo
import OpenBoot.Host.Frame
import OpenBoot.Semantics.Program

/-! The host's command layer over a transport: one method for each command, with its
payload, its timeout and its retry policy. -/

set_option autoImplicit false

namespace OpenBoot.Host

open Semantics.Program (get modify perform)

/-- What `Frame::new` asserts of a payload. -/
abbrev Payload := { p : List Byte // p.length ≤ maxPayload }

theorem Payload.small (payload : Payload) : payload.val.length ≤ maxPayload := payload.property

abbrev Chunk := { data : List Byte // data.length ≤ maxWriteData }

def helloReqPayload (hostMajor hostMinor : Byte) : Payload :=
  ⟨put32 helloMagic ++ [hostMajor, hostMinor], (by decide : 6 ≤ maxPayload)⟩

def eraseReqPayload (addr len : Word) : Payload :=
  ⟨put32 addr ++ put32 len, (by decide : 8 ≤ maxPayload)⟩

def writeReqPayload (addr : Word) (data : Chunk) : Payload where
  val := put32 addr ++ data.val
  property := by
    have fits := data.property
    unfold maxWriteData at fits
    rw [List.length_append, put32_length]
    unfold maxPayload
    omega

def crcReqPayload (addr len : Word) : Payload := eraseReqPayload addr len

def commitReqPayload (imgLen imgCrc32 : Word) : Payload :=
  ⟨put32 imgLen ++ put32 imgCrc32, (by decide : 8 ≤ maxPayload)⟩

def bootReqPayload (mode : Byte) : Payload := ⟨[mode], (by decide : 1 ≤ maxPayload)⟩

def crcRespValue (payload : List Byte) : Fallible Word :=
  if payload.length < 5 then
    bail ("CRC response payload is " ++ toString payload.length ++
      " bytes; expected status + 4-byte CRC")
  else .ok (get32 (payload.drop 1))

structure DeviceError where
  status : Byte
  detail : Option Byte
  deriving DecidableEq

/-- `none` when the payload is empty or carries OK. -/
def DeviceError.fromPayload : List Byte → Option DeviceError
  | [] => none
  | status :: rest => if status = ok then none else some ⟨status, rest.head?⟩

def describeStatus (status : Byte) (detail : Option Byte) : String :=
  if status = ok then "OK"
  else if status = eCrc then "frame CRC mismatch (E_CRC)"
  else if status = eLen then "payload length invalid for this opcode (E_LEN)"
  else if status = eCmd then "unknown opcode (E_CMD)"
  else if status = eState then "command requires a session; send HELLO first (E_STATE)"
  else if status = eArg then "bad magic, mode, or flags (E_ARG)"
  else if status = eAddr then
    if detail = some detAddrRange then "address out of range (E_ADDR: range)"
    else if detail = some detAddrAlign then "address or length misaligned (E_ADDR: alignment)"
    else "address rejected (E_ADDR)"
  else if status = eNotErased then "write into a block not erased this session (E_NOT_ERASED)"
  else if status = eFlash then
    "flash operation failed; flash driver returned " ++ hex2 (detail.getD 0) ++ " (E_FLASH)"
  else if status = eVerify then
    if detail = some detVerifyMismatch then "image CRC mismatch (E_VERIFY: mismatch)"
    else if detail = some detVerifyNonseq then
      "writes were not sequential from app_start (E_VERIFY: non-sequential)"
    else if detail = some detVerifyNorecord then "no valid boot record (E_VERIFY: no record)"
    else "verification failed (E_VERIFY)"
  else if status = eProto then "unsupported protocol major version (E_PROTO)"
  else "unknown status " ++ hex2 status

inductive TransportError where
  | timeout
  | io (source : List String)

inductive TransportOp where
  | xfer (req : Frame) (timeoutMs : Nat)
  | holdsInBootloader

abbrev TransportOp.Reply : TransportOp → Type
  | xfer _ _ => Except TransportError Frame
  | holdsInBootloader => Bool

/-- The trait the host talks through. An `xfer` sends one request, and then takes
    candidate frames until the verdict accepts one or the deadline passes. -/
abbrev transport : Semantics.Signature := ⟨TransportOp, TransportOp.Reply⟩

/-- The verdict of `xfer` on one candidate. The report of a frame error is accepted with
    any sequence number; stale, foreign and undecodable frames are discarded. -/
def verdict (req : Frame) (raw : List Byte) : Option Frame :=
  match Frame.decode raw with
  | .ok frame =>
    if frame.isFrameError then some frame
    else if frame.isResponseTo req then some frame
    else none
  | .error _ => none

theorem verdict_eq_some {req frame : Frame} {raw : List Byte} (h : verdict req raw = some frame) :
    Frame.decode raw = .ok frame ∧
      (frame.isFrameError = false → frame.isResponseTo req = true) := by
  unfold verdict at h
  split at h
  · next f read =>
    split at h
    · next error =>
      obtain rfl := Option.some.inj h
      rw [error]
      exact ⟨read, nofun⟩
    · split at h
      · next response =>
        obtain rfl := Option.some.inj h
        exact ⟨read, fun _ => response⟩
      · cases h
  · cases h

def maxAttempts : Nat := 3

def helloTimeout : Nat := 500
def writeTimeout : Nat := 1000
def crcTimeout : Nat := 3000
def commitTimeout : Nat := 3000
def bootTimeout : Nat := 1000

def eraseTimeout (blocks : Word) : Nat := 200 + 30 * blocks.toNat

inductive RetryPolicy where
  | retry (n : Nat)
  | once

def RetryPolicy.attempts : RetryPolicy → Nat
  | retry n => n
  | once => 1

inductive BootMode where
  | app
  | stay

def BootMode.wire : BootMode → Byte
  | app => bootApp
  | stay => bootStay

inductive RetryReason where
  | timeout
  | frameError (text : String)
  deriving DecidableEq

inductive ClientError where
  | exhausted (name : String) (attempts : Nat) (last : RetryReason)
  | noResponse (name : String) (reason : RetryReason)
  | device (name : String) (source : DeviceError)
  | badResponse (name : String) (source : List String)
  | io (name : String) (source : List String)
  | protoVersion (major minor supported : Byte)
  deriving DecidableEq

inductive Attempt where
  | done (resp : List Byte)
  | retry (reason : RetryReason)

/-- One session. The transport is the world the code runs in. -/
structure BootClient where
  seq : Byte

abbrev Client := ExceptT ClientError (Semantics.Program transport BootClient)

namespace BootClient

def nextSeq : Client Byte := do
  let client ← ExceptT.lift get
  ExceptT.lift (modify fun client => { client with seq := client.seq + 1 })
  return client.seq

/-- What one `xfer` came to. A status other than OK is a definitive answer. -/
def judge (name : String) : Except TransportError Frame → Except ClientError Attempt
  | .ok resp =>
    if resp.isFrameError then
      .ok (.retry (.frameError (describeStatus (resp.payload.getD 0 0) resp.payload[1]?)))
    else if resp.payload = [] then
      .error (.badResponse name ["response carried no status byte"])
    else
      match DeviceError.fromPayload resp.payload with
      | some err => .error (.device name err)
      | none => .ok (.done resp.payload)
  | .error .timeout => .ok (.retry .timeout)
  | .error (.io source) => .error (.io name source)

def attempt (name : String) (cmd : Byte) (payload : Payload) (timeoutMs : Nat) : Client Attempt := do
  let seq ← nextSeq
  let outcome ← ExceptT.lift
    (perform (I := transport) (.xfer ⟨cmd, seq, payload.val, payload.property⟩ timeoutMs))
  ExceptT.mk (pure (judge name outcome))

def spent (name : String) (policy : RetryPolicy) (last : RetryReason) : ClientError :=
  match policy with
  | .once => .noResponse name last
  | .retry attempts => .exhausted name attempts last

def runLoop (name : String) (cmd : Byte) (payload : Payload) (timeoutMs : Nat)
    (policy : RetryPolicy) : Nat → Option RetryReason → Client (List Byte)
  -- at least one attempt is always made, so there is a last reason
  | 0, last => throw (spent name policy (last.getD .timeout))
  | left + 1, _ => do
    match ← attempt name cmd payload timeoutMs with
    | .done resp => return resp
    | .retry reason => runLoop name cmd payload timeoutMs policy left (some reason)

def run (name : String) (cmd : Byte) (payload : Payload) (timeoutMs : Nat) (policy : RetryPolicy) :
    Client (List Byte) := runLoop name cmd payload timeoutMs policy policy.attempts none

/-- The handshake, on info the flows can use. -/
def hello : Client { info : DeviceInfo // info.Usable } := do
  let resp ← run "HELLO" cmdHello (helloReqPayload protoMajor protoMinor) helloTimeout
    (.retry maxAttempts)
  match parsed : DeviceInfo.parse resp with
  | .error source => throw (.badResponse "HELLO" source)
  | .ok info =>
    if info.protoMajor ≠ protoMajor then
      throw (.protoVersion info.protoMajor info.protoMinor protoMajor)
    else return ⟨info, (DeviceInfo.parse_eq_ok.mp parsed).2.2⟩

def erase (addr len blocks : Word) : Client Unit := do
  let _ ← run "ERASE" cmdErase (eraseReqPayload addr len) (eraseTimeout blocks) (.retry maxAttempts)

def write (addr : Word) (data : Chunk) : Client Unit := do
  let _ ← run "WRITE" cmdWrite (writeReqPayload addr data) writeTimeout (.retry maxAttempts)

def commit (imgLen imgCrc32 : Word) : Client Unit := do
  let _ ← run "COMMIT" cmdCommit (commitReqPayload imgLen imgCrc32) commitTimeout
    (.retry maxAttempts)

def crc (addr len : Word) : Client Word := do
  let resp ← run "CRC" cmdCrc (crcReqPayload addr len) crcTimeout (.retry maxAttempts)
  match crcRespValue resp with
  | .error source => throw (.badResponse "CRC" source)
  | .ok value => return value

/-- A lost answer to BOOT looks like success, so it is never sent again. -/
def boot (mode : BootMode) : Client Unit := do
  let _ ← run "BOOT" cmdBoot (bootReqPayload mode.wire) bootTimeout .once

end BootClient

end OpenBoot.Host
