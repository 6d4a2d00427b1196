import OpenBoot.Core.Words
import OpenBoot.Semantics.Interference

/-! The USB controller of the part, and the host at the other end of the cable.

The controller moves packets between the wire and three 64-byte buffers while the processor
runs. It is hardware: what is modelled is what the transport relies on, its registers by
their fields.
-/

set_option autoImplicit false

namespace OpenBoot.Usb

open Semantics

abbrev Packet := Vector Byte 64

/-- What an endpoint answers to a token, `UEP_R_RES_*` and `UEP_T_RES_*`. -/
inductive Handshake where
  | ack
  | nak
  | stall
  deriving DecidableEq

/-- `R8_UEPn_CTRL`: data toggles and handshakes of the two directions. -/
structure EpCtrl where
  rTog : Bool
  tTog : Bool
  autoTog : Bool
  rRes : Handshake
  tRes : Handshake
  deriving DecidableEq

inductive Ep where
  | ep0
  | ep1
  deriving DecidableEq

/-- `MASK_UIS_TOKEN`. -/
inductive Token where
  | uisOut
  | uisSof
  | uisIn
  | uisSetup
  deriving DecidableEq

/-- `R8_USB_INT_ST`, about the last transaction. -/
structure IntSt where
  token : Token
  endp : BitVec 4
  togOk : Bool
  setupAct : Bool
  deriving DecidableEq

/-- `R8_USB_INT_FG`. The flags of suspend, of the FIFO and of frames are one here. -/
structure IntFg where
  transfer : Bool
  busRst : Bool
  other : Bool
  isNak : Bool
  deriving DecidableEq

/-- Writing ones clears; whether the transaction was a NAK can only be read. -/
def IntFg.clear (fg mask : IntFg) : IntFg where
  transfer := fg.transfer && !mask.transfer
  busRst := fg.busRst && !mask.busRst
  other := fg.other && !mask.other
  isNak := fg.isNak

/-- `R8_USB_CTRL`. -/
structure UsbCtrl where
  devPuEn : Bool
  intBusy : Bool
  dmaEn : Bool
  deriving DecidableEq

structure Sie where
  usbCtrl : UsbCtrl
  attached : Bool
  devAd : Byte
  fg : IntFg
  st : IntSt
  rxLen : Byte
  ctrl0 : EpCtrl
  ctrl1 : EpCtrl
  tLen0 : Byte
  tLen1 : Byte
  /-- `ep0_buf`, for SETUP, IN and OUT alike. -/
  ep0 : Packet
  /-- `ep1_buf`, its OUT half. -/
  rx : Packet
  /-- `ep1_buf + 64`, its IN half. -/
  tx : Packet
  deriving DecidableEq

inductive SieOp where
  | intFg
  | intSt
  | rxLen
  | clearFg (mask : IntFg)
  | ctrl (ep : Ep)
  | setCtrl (ep : Ep) (c : EpCtrl)
  | setTLen (ep : Ep) (n : Byte)
  | setDevAd (a : Byte)
  | setUsbCtrl (c : UsbCtrl)
  | phyAttach
  | ep0 (i : Fin 64)
  | setEp0 (i : Fin 64) (b : Byte)
  | rx (i : Fin 64)
  | setTx (i : Fin 64) (b : Byte)
  | delayUs (n : Nat)
  deriving DecidableEq

@[reducible] def SieOp.Reply : SieOp → Type
  | .intFg => IntFg
  | .intSt => IntSt
  | .rxLen | .ep0 _ | .rx _ => Byte
  | .ctrl _ => EpCtrl
  | _ => Unit

abbrev sieOps : Signature := ⟨SieOp, SieOp.Reply⟩

namespace Sie

def ctrl (s : Sie) : Ep → EpCtrl
  | .ep0 => s.ctrl0
  | .ep1 => s.ctrl1

def setCtrl (s : Sie) (c : EpCtrl) : Ep → Sie
  | .ep0 => { s with ctrl0 := c }
  | .ep1 => { s with ctrl1 := c }

def setTLen (s : Sie) (n : Byte) : Ep → Sie
  | .ep0 => { s with tLen0 := n }
  | .ep1 => { s with tLen1 := n }

def access (s : Sie) : (op : SieOp) → op.Reply × Sie
  | .intFg => (s.fg, s)
  | .intSt => (s.st, s)
  | .rxLen => (s.rxLen, s)
  | .clearFg mask => ((), { s with fg := s.fg.clear mask })
  | .ctrl ep => (s.ctrl ep, s)
  | .setCtrl ep c => ((), s.setCtrl c ep)
  | .setTLen ep n => ((), s.setTLen n ep)
  | .setDevAd a => ((), { s with devAd := a })
  | .setUsbCtrl c => ((), { s with usbCtrl := c })
  | .phyAttach => ((), { s with attached := true })
  | .ep0 i => (s.ep0[i], s)
  | .setEp0 i b => ((), { s with ep0 := s.ep0.set i b })
  | .rx i => (s.rx[i], s)
  | .setTx i b => ((), { s with tx := s.tx.set i b })
  | .delayUs _ => ((), s)

def live (s : Sie) : Bool := s.usbCtrl.devPuEn && s.usbCtrl.dmaEn && s.attached

/-- It takes part in transactions. With `RB_UC_INT_BUSY` it does not while the flag of the
    last one is still set. -/
def free (s : Sie) : Bool := s.live && !(s.usbCtrl.intBusy && s.fg.transfer)

def raise (s : Sie) (st : IntSt) (isNak : Bool) : Sie :=
  { s with st := st, fg := { s.fg with transfer := true, isNak := isNak } }

end Sie

def setAll (buf : Packet) (f : Fin 64 → Byte) (is : List (Fin 64)) : Packet :=
  is.foldl (fun buf i => buf.set i.val (f i)) buf

theorem setAll_get_other (buf : Packet) (f : Fin 64 → Byte) (is : List (Fin 64)) {j : Fin 64}
    (other : j ∉ is) : (setAll buf f is)[j] = buf[j] := by
  induction is generalizing buf with
  | nil => rfl
  | cons i is ih =>
    have apart : i.val ≠ j.val := fun h => other (Fin.ext h ▸ List.mem_cons_self)
    rw [setAll, List.foldl_cons, ← setAll, ih _ (List.not_mem_of_not_mem_cons other)]
    exact Vector.getElem_set_ne i.isLt j.isLt apart

theorem setAll_get (buf : Packet) (f : Fin 64 → Byte) (is : List (Fin 64)) {j : Fin 64}
    (written : j ∈ is) : (setAll buf f is)[j] = f j := by
  induction is generalizing buf with
  | nil => cases written
  | cons i is ih =>
    rw [setAll, List.foldl_cons, ← setAll]
    rcases Classical.em (j ∈ is) with later | last
    · exact ih _ later
    · obtain rfl := (List.mem_cons.mp written).resolve_right last
      rw [setAll_get_other _ _ _ last]
      exact Vector.getElem_set_self j.isLt

/-- What a packet leaves of the buffer it is received into. -/
def overwrite (buf : Packet) (data : List Byte) : Packet :=
  Vector.ofFn fun i => data.getD i buf[i]

def rqGetStatus : Byte := 0x00
def rqClearFeature : Byte := 0x01
def rqSetFeature : Byte := 0x03
def rqSetAddress : Byte := 0x05
def rqGetDescriptor : Byte := 0x06
def rqGetConfiguration : Byte := 0x08
def rqSetConfiguration : Byte := 0x09
def rqGetInterface : Byte := 0x0A
def hidrqSetIdle : Byte := 0x0A

structure Setup where
  bm : Byte
  rq : Byte
  vl : Byte
  vh : Byte
  ixl : Byte
  ixh : Byte
  wlen : BitVec 16
  deriving DecidableEq

def Setup.packet (s : Setup) : List Byte :=
  [s.bm, s.rq, s.vl, s.vh, s.ixl, s.ixh, s.wlen.setWidth 8, (s.wlen >>> 8).setWidth 8]

namespace Setup

variable (s : Setup)

def kind : Byte := s.bm &&& 0x60

def SetsAddress : Prop := s.kind = 0 ∧ s.rq = rqSetAddress

def SetsConfiguration : Prop := s.kind = 0 ∧ s.rq = rqSetConfiguration

/-- Clears the halt of an endpoint, and with it the endpoint's toggle. -/
def ClearsHalt (endpoint : Byte) : Prop :=
  s.kind = 0 ∧ s.rq = rqClearFeature ∧ s.bm &&& 0x1F = 0x02 ∧ s.ixl = endpoint

/-- Makes a host start over with DATA0 in a direction of endpoint 1. -/
def Restarts (endpoint : Byte) : Prop := s.SetsConfiguration ∨ s.ClearsHalt endpoint

instance : Decidable s.SetsAddress := inferInstanceAs (Decidable (_ ∧ _))

instance : Decidable s.SetsConfiguration := inferInstanceAs (Decidable (_ ∧ _))

instance (endpoint : Byte) : Decidable (s.ClearsHalt endpoint) :=
  inferInstanceAs (Decidable (_ ∧ _))

instance (endpoint : Byte) : Decidable (s.Restarts endpoint) :=
  inferInstanceAs (Decidable (_ ∨ _))

end Setup

/-- The address and the configuration that were set last since the last bus reset. -/
structure Agreed where
  address : Byte
  config : Byte
  deriving DecidableEq

/-- A configuration counts with its SETUP, an address once the host has acknowledged the status
    stage. -/
def Agreed.after (g : Agreed) (st : IntSt) (s : Setup) : Agreed :=
  if st.endp = 0 ∧ st.token = .uisSetup ∧ s.SetsConfiguration then { g with config := s.vl }
  else if st.endp = 0 ∧ st.token = .uisIn ∧ s.SetsAddress then { g with address := s.vl }
  else g

/-- An IN packet of endpoint 0, with the last request before it, what was agreed then, and whether
    the device had yet to see a bus reset through. -/
structure Answer where
  request : Option Setup
  agreed : Agreed
  resetting : Bool
  addr : Byte
  tog : Bool
  data : List Byte
  deriving DecidableEq

structure Host where
  /-- Reports still to be sent; the first is repeated until it is acknowledged. -/
  todo : List (List Byte)
  /-- Reports sent and acknowledged. -/
  sent : List (List Byte)
  outTog : Bool
  /-- Reports received. A repetition of the last one has the wrong toggle and is dropped. -/
  got : List (List Byte)
  inTog : Bool
  configured : Bool
  /-- Requests the device took. -/
  setups : List Setup
  answers : List Answer
  deriving DecidableEq

/-- The host takes a request to have started endpoint 1 over. -/
def Host.ask (h : Host) (s : Setup) : Host :=
  { h with
    setups := h.setups ++ [s]
    outTog := h.outTog && !decide (s.Restarts 0x01)
    inTog := h.inTog && !decide (s.Restarts 0x81) }

/-- The controller, the host, and what went on between them, as the transport has let go of it. -/
structure Bus where
  sie : Sie
  host : Host
  agreed : Agreed
  deriving DecidableEq

/-- What may happen on the bus. A packet that is lost is nothing that happened; a handshake
    may be lost where the packet was not. -/
inductive Act where
  | setup (s : Setup)
  | out0 (data : List Byte) (tog : Bool)
  | in0 (acked : Bool)
  | out1 (acked : Bool)
  | in1 (acked : Bool)
  /-- A token answered with NAK that is flagged nevertheless. -/
  | refused (token : Token) (endp : BitVec 4)
  | busReset
  /-- The host starts to use endpoint 1. The device has seen to what went before. -/
  | configure
  | other
  deriving DecidableEq

namespace Bus

variable (b : Bus)

/-- A SETUP is taken whatever the endpoint's handshakes. -/
def takeSetup (s : Setup) : Bus :=
  { b with
    sie := { b.sie.raise ⟨.uisSetup, 0, true, true⟩ false with
      ep0 := overwrite b.sie.ep0 s.packet, rxLen := 8 }
    host := b.host.ask s }

def takeOut (data : List Byte) (tog : Bool) : Bus :=
  { b with sie := { b.sie.raise ⟨.uisOut, 0, tog == b.sie.ctrl0.rTog, false⟩ false with
    ep0 := overwrite b.sie.ep0 data, rxLen := BitVec.ofNat 8 data.length } }

def answer : Answer :=
  ⟨b.host.setups.getLast?, b.agreed, b.sie.fg.busRst, b.sie.devAd, b.sie.ctrl0.tTog,
    b.sie.ep0.toList.take b.sie.tLen0.toNat⟩

def giveIn (acked : Bool) : Bus :=
  { b with
    sie := if acked then b.sie.raise ⟨.uisIn, 0, true, false⟩ false else b.sie
    host := { b.host with answers := b.host.answers ++ [b.answer] } }

/-- A report on endpoint 1; a new one if its toggle is the endpoint's. -/
def takeReport (d : List Byte) (rest : List (List Byte)) (acked : Bool) : Bus :=
  { b with
    sie := { b.sie.raise ⟨.uisOut, 1, b.host.outTog == b.sie.ctrl1.rTog, false⟩ false with
      rx := overwrite b.sie.rx d
      rxLen := BitVec.ofNat 8 d.length
      ctrl1 := { b.sie.ctrl1 with rTog := b.sie.ctrl1.rTog ^^
        (b.sie.ctrl1.autoTog && b.host.outTog == b.sie.ctrl1.rTog) } }
    host := if acked then
        { b.host with todo := rest, sent := b.host.sent ++ [d], outTog := !b.host.outTog }
      else b.host }

def giveReport (acked : Bool) : Bus :=
  { b with
    sie := if acked then
        { b.sie.raise ⟨.uisIn, 1, true, false⟩ false with
          ctrl1 := { b.sie.ctrl1 with tTog := b.sie.ctrl1.tTog ^^ b.sie.ctrl1.autoTog } }
      else b.sie
    host := if b.sie.ctrl1.tTog = b.host.inTog then
        { b.host with
          got := b.host.got ++ [b.sie.tx.toList.take b.sie.tLen1.toNat], inTog := !b.host.inTog }
      else b.host }

def refuse (token : Token) (endp : BitVec 4) : Bus :=
  { b with sie := b.sie.raise ⟨token, endp, false, false⟩ true }

def reset : Bus :=
  { b with
    sie := { b.sie with fg := { b.sie.fg with busRst := true } }
    host := { b.host with outTog := false, inTog := false, configured := false } }

def configure : Bus := { b with host := { b.host with configured := true } }

def signal : Bus := { b with sie := { b.sie with fg := { b.sie.fg with other := true } } }

def act : Act → Option Bus
  | .setup s => if b.sie.free then some (b.takeSetup s) else none
  | .out0 data tog =>
    if b.sie.free ∧ b.sie.ctrl0.rRes = .ack ∧ data.length ≤ 64 then some (b.takeOut data tog)
    else none
  | .in0 acked =>
    if b.sie.free ∧ b.sie.ctrl0.tRes = .ack then some (b.giveIn acked) else none
  | .out1 acked =>
    match b.host.todo with
    | d :: rest =>
      if b.sie.free ∧ b.host.configured ∧ b.sie.ctrl1.rRes = .ack ∧ d.length ≤ 64 then
        some (b.takeReport d rest acked)
      else none
    | [] => none
  | .in1 acked =>
    if b.sie.free ∧ b.host.configured ∧ b.sie.ctrl1.tRes = .ack then some (b.giveReport acked)
    else none
  | .refused token endp => if b.sie.free then some (b.refuse token endp) else none
  | .busReset => if b.sie.live then some b.reset else none
  | .configure => if b.sie.free ∧ ¬ b.sie.fg.busRst then some b.configure else none
  | .other => some b.signal

inductive Happens (b : Bus) : Act → Bus → Prop where
  | setup {s : Setup} : b.sie.free = true → Happens b (.setup s) (b.takeSetup s)
  | out0 {data : List Byte} {tog : Bool} : b.sie.free = true → b.sie.ctrl0.rRes = .ack →
      data.length ≤ 64 → Happens b (.out0 data tog) (b.takeOut data tog)
  | in0 {acked : Bool} : b.sie.free = true → b.sie.ctrl0.tRes = .ack →
      Happens b (.in0 acked) (b.giveIn acked)
  | out1 {acked : Bool} {d : List Byte} {rest : List (List Byte)} : b.host.todo = d :: rest →
      b.sie.free = true → b.host.configured = true → b.sie.ctrl1.rRes = .ack → d.length ≤ 64 →
      Happens b (.out1 acked) (b.takeReport d rest acked)
  | in1 {acked : Bool} : b.sie.free = true → b.host.configured = true → b.sie.ctrl1.tRes = .ack →
      Happens b (.in1 acked) (b.giveReport acked)
  | refused {token : Token} {endp : BitVec 4} : b.sie.free = true →
      Happens b (.refused token endp) (b.refuse token endp)
  | busReset : b.sie.live = true → Happens b .busReset b.reset
  | configure : b.sie.free = true → b.sie.fg.busRst = false → Happens b .configure b.configure
  | other : Happens b .other b.signal

theorem happens {b b' : Bus} {a : Act} (act : b.act a = some b') : b.Happens a b' := by
  cases a with
  | setup s =>
    obtain ⟨free, same⟩ := Option.ite_none_right_eq_some.mp act
    cases same
    exact .setup free
  | out0 data tog =>
    obtain ⟨⟨free, ready, small⟩, same⟩ := Option.ite_none_right_eq_some.mp act
    cases same
    exact .out0 free ready small
  | in0 acked =>
    obtain ⟨⟨free, ready⟩, same⟩ := Option.ite_none_right_eq_some.mp act
    cases same
    exact .in0 free ready
  | out1 acked =>
    simp only [Bus.act] at act
    split at act
    · rename_i d rest todo
      obtain ⟨⟨free, configured, ready, small⟩, same⟩ := Option.ite_none_right_eq_some.mp act
      cases same
      exact .out1 todo free configured ready small
    · cases act
  | in1 acked =>
    obtain ⟨⟨free, configured, ready⟩, same⟩ := Option.ite_none_right_eq_some.mp act
    cases same
    exact .in1 free configured ready
  | refused token endp =>
    obtain ⟨free, same⟩ := Option.ite_none_right_eq_some.mp act
    cases same
    exact .refused free
  | busReset =>
    obtain ⟨live, same⟩ := Option.ite_none_right_eq_some.mp act
    cases same
    exact .busReset live
  | configure =>
    obtain ⟨⟨free, clear⟩, same⟩ := Option.ite_none_right_eq_some.mp act
    cases same
    exact .configure free (by simpa using clear)
  | other =>
    cases act
    exact .other

/-- A request is dealt with when the flag of its transaction is cleared, and so is a bus reset. -/
def deal (mask : IntFg) : Agreed :=
  if mask.busRst && b.sie.fg.busRst then ⟨0, 0⟩
  else if mask.transfer && b.sie.fg.transfer && !b.sie.fg.isNak then
    match b.host.setups.getLast? with
    | some s => b.agreed.after b.sie.st s
    | none => b.agreed
  else b.agreed

def access (op : SieOp) : op.Reply × Bus :=
  ((b.sie.access op).1, { b with
    sie := (b.sie.access op).2
    agreed := match op with
      | .clearFg mask => b.deal mask
      | _ => b.agreed })

end Bus

def bus (allowed : Host → Act → Prop) : Shared sieOps Bus where
  access := Bus.access
  acts := fun b b' => ∃ a, allowed b.host a ∧ b.act a = some b'

/-- The flag keeps every transaction out. -/
def Bus.Held (b : Bus) : Prop := b.sie.usbCtrl.intBusy = true ∧ b.sie.fg.transfer = true

def SieOp.Quiet : SieOp → Prop
  | .intFg | .clearFg _ | .setUsbCtrl _ | .phyAttach => False
  | _ => True

theorem Bus.Held.not_free {b : Bus} (held : b.Held) : b.sie.free = false := by
  simp [Sie.free, held.1, held.2]

theorem Bus.Held.act {b b' : Bus} {a : Act} (held : b.Held) (act : b.act a = some b') :
    (a = .busReset ∧ b.sie.live = true ∧ b' = b.reset) ∨ (a = .other ∧ b' = b.signal) := by
  have shut := held.not_free
  cases Bus.happens act with
  | busReset live => exact .inl ⟨rfl, live, rfl⟩
  | configure free => simp [shut] at free
  | other => exact .inr ⟨rfl, rfl⟩
  | setup free => simp [shut] at free
  | out0 free => simp [shut] at free
  | in0 free => simp [shut] at free
  | out1 _ free => simp [shut] at free
  | in1 free => simp [shut] at free
  | refused free => simp [shut] at free

theorem SieOp.Quiet.keeps {op : SieOp} (quiet : op.Quiet) (b : Bus) :
    (b.access op).2.sie.fg = b.sie.fg ∧ (b.access op).2.sie.usbCtrl = b.sie.usbCtrl ∧
      (b.access op).2.sie.attached = b.sie.attached := by
  cases op <;> first
    | exact ⟨rfl, rfl, rfl⟩
    | exact quiet.elim
    | (rename_i ep _; cases ep <;> exact ⟨rfl, rfl, rfl⟩)

theorem held_off (allowed : Host → Act → Prop) :
    (bus allowed).HeldOff SieOp.Quiet Bus.Held where
  stable := by
    rintro b b' ⟨a, -, act⟩ held
    rcases held.act act with ⟨-, -, rfl⟩ | ⟨-, rfl⟩ <;> exact held
  keeps := by
    intro b op held quiet
    obtain ⟨flags, control, -⟩ := quiet.keeps b
    exact ⟨(congrArg UsbCtrl.intBusy control).trans held.1,
      (congrArg IntFg.transfer flags).trans held.2⟩
  reply := by
    rintro b b' op held ⟨a, -, act⟩ quiet
    rcases held.act act with ⟨-, -, rfl⟩ | ⟨-, rfl⟩ <;>
      cases op <;> first | rfl | exact quiet.elim
  commutes := by
    rintro b b' op held ⟨a, allows, act⟩ quiet
    obtain ⟨flags, control, attached⟩ := quiet.keeps b
    have live : (b.access op).2.sie.live = b.sie.live := by
      simp only [Sie.live, control, attached]
    refine .single ⟨a, allows, ?_⟩
    change (b.access op).2.act a = _
    rcases held.act act with ⟨rfl, is, rfl⟩ | ⟨rfl, rfl⟩
    · rw [Bus.act, live, if_pos is]
      cases op <;> first | rfl | exact quiet.elim | (rename_i ep _; cases ep <;> rfl)
    · rw [Bus.act]
      cases op <;> first | rfl | exact quiet.elim | (rename_i ep _; cases ep <;> rfl)

end OpenBoot.Usb
