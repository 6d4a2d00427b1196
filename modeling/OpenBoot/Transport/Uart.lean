import OpenBoot.Core.Protocol

/-! The device's UART receiver: one `trPoll` per turn of the main loop, on
whatever the receive FIFO holds by then. -/

set_option autoImplicit false

namespace OpenBoot

def uartSof1 : Byte := 0xB0
def uartSof2 : Byte := 0x07

/-- The polls a mid-frame gap takes. The propositions are the build's assertions. -/
structure Uart where
  idlePolls : Nat
  takes_poll : 0 < idlePolls
  fits : idlePolls ≤ 65535

def rxBufSize : Nat := frameOverhead + maxPayload

inductive RxState where
  | hunt1
  | hunt2
  | collect
  deriving DecidableEq

structure Rx where
  buf : Vector Byte rxBufSize
  state : RxState
  /-- Bytes collected into the buffer. -/
  pos : Byte
  /-- Total frame bytes expected. -/
  need : Byte
  /-- Consecutive empty polls while mid-frame. -/
  idle : BitVec 16
  deriving DecidableEq

def Rx.bss : Rx := ⟨Vector.replicate rxBufSize 0, .hunt1, 0, 0, 0⟩

structure Candidate where
  buf : List Byte
  avail : Nat
  deriving DecidableEq

def Candidate.bytes (f : Candidate) : List Byte := f.buf.take f.avail

namespace Rx

/-- `rx_buf[rx_pos++] = b`; nothing when that is past the end of the buffer. -/
def store (r : Rx) (b : Byte) : Option Rx :=
  if inside : r.pos.toNat < rxBufSize then
    some { r with buf := r.buf.set r.pos.toNat b inside, pos := r.pos + 1 }
  else none

def complete (r : Rx) : Rx × Option Candidate :=
  if r.pos = r.need then
    ({ r with state := .hunt1 }, some ⟨r.buf.toList, r.need.toNat⟩)
  else (r, none)

def byte (r : Rx) (b : Byte) : Option (Rx × Option Candidate) :=
  match r.state with
  | .hunt1 => some (if b = uartSof1 then { r with state := .hunt2 } else r, none)
  | .hunt2 =>
    if b = uartSof2 then
      some ({ r with state := .collect, pos := 0, need := BitVec.ofNat 8 frameHdrLen }, none)
    -- a repeated first byte stays armed
    else if b ≠ uartSof1 then some ({ r with state := .hunt1 }, none)
    else some (r, none)
  | .collect => do
    let r ← r.store b
    if r.pos.toNat = frameHdrLen ∧ r.need.toNat = frameHdrLen then
      let len := r.buf.toList.getD 2 0
      -- an over-long frame is dropped in silence
      if len.toNat > maxPayload then some ({ r with state := .hunt1 }, none)
      else some (complete { r with need := BitVec.ofNat 8 frameOverhead + len })
    else some (complete r)

/-- The loop over the bytes the FIFO held when the poll began. Once a frame is
    complete the rest stays in the FIFO. -/
def drain (r : Rx) : List Byte → Option (Rx × List Byte × Option Candidate)
  | [] => some (r, [], none)
  | b :: rest => do
    match ← r.byte b with
    | (r, some f) => some (r, rest, some f)
    | (r, none) => r.drain rest

end Rx

/-- `tr_poll` on the content of the FIFO: the receiver, what stays in the FIFO and
    the candidate frame. No result stands for a store past the buffer. -/
def trPoll (U : Uart) (r : Rx) (fifo : List Byte) : Option (Rx × List Byte × Option Candidate) :=
  if fifo = [] then
    if r.state ≠ .hunt1 then
      let idle := r.idle + 1
      if idle.toNat ≥ U.idlePolls then some ({ r with state := .hunt1, idle := 0 }, [], none)
      else some ({ r with idle := idle }, [], none)
    else some (r, [], none)
  else Rx.drain { r with idle := 0 } fifo

/-- What one poll took out of the FIFO and what it returned. -/
structure Poll where
  read : List Byte
  out : Option Candidate

def listen (U : Uart) : Rx → List Byte → List (List Byte) → Option (Rx × List Byte × List Poll)
  | r, fifo, [] => some (r, fifo, [])
  | r, fifo, arrived :: rest => do
    let held := fifo ++ arrived
    let (r, fifo, out) ← trPoll U r held
    let (r, left, polls) ← listen U r fifo rest
    return (r, left, ⟨held.take (held.length - fifo.length), out⟩ :: polls)

def delivered (polls : List Poll) : List Candidate := polls.filterMap Poll.out

end OpenBoot
