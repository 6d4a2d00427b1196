import OpenBoot.Transport.Control

/-! Endpoint 0 under whatever the host does and whenever it does it. -/

set_option autoImplicit false

namespace OpenBoot.Usb

open Semantics
open Semantics.Program (get modify)

/-! ### What is owed -/

/-- What endpoint 0 has to do with. -/
structure Control where
  busy : Bool
  transfer : Bool
  busRst : Bool
  isNak : Bool
  st : IntSt
  ctrl : EpCtrl
  tLen : Byte
  buf : Packet
  devAd : Byte
  agreed : Agreed
  setups : List Setup
  answers : List Answer

def Bus.control (b : Bus) : Control where
  busy := b.sie.usbCtrl.intBusy
  transfer := b.sie.fg.transfer
  busRst := b.sie.fg.busRst
  isNak := b.sie.fg.isNak
  st := b.sie.st
  ctrl := b.sie.ctrl0
  tLen := b.sie.tLen0
  buf := b.sie.ep0
  devAd := b.sie.devAd
  agreed := b.agreed
  setups := b.host.setups
  answers := b.host.answers

/-- The packet is DATA1, comes from the address that was agreed, or from 0 under a bus reset, and
    is what the last request asks for. -/
def Answered (T : Board) (serial : List Byte) (a : Answer) : Prop :=
  a.tog = true ∧ (a.addr = a.agreed.address ∨ a.resetting = true ∧ a.addr = 0) ∧
    ∃ s, a.request = some s ∧ s.reply T serial a.agreed.config = some a.data

structure Statics.Pends (r : Statics) (s : Setup) : Prop where
  request : r.setupReq = s.rq
  standard : s.rq = rqSetAddress → s.SetsAddress
  address : s.SetsAddress → r.pendAddr = s.vl

namespace Control

/-- A transaction of endpoint 0 waits to be dealt with. -/
def Flagged (c : Control) : Prop :=
  c.transfer = true ∧ c.isNak = false ∧ c.st.endp = 0 ∧ c.st.token ≠ .uisSof

/-- Whatever the endpoint is told to send answers the last request. -/
def Ready (c : Control) (T : Board) (serial : List Byte) (r : Statics) : Prop :=
  c.ctrl.tRes = .ack → c.ctrl.tTog = true ∧ ∃ s, c.setups.getLast? = some s ∧
    s.reply T serial c.agreed.config = some (c.buf.toList.take c.tLen.toNat) ∧ r.Pends s

structure Kept (c : Control) (T : Board) (serial : List Byte) (r : Statics) : Prop where
  busy : c.busy = true
  uid : r.strSerial = serial
  short : serial.length ≤ 64
  config : r.devConfig = c.agreed.config
  answers : ∀ a ∈ c.answers, Answered T serial a
  address : c.devAd = c.agreed.address ∨ c.busRst = true ∧ c.devAd = 0

structure Sound (c : Control) (T : Board) (serial : List Byte) (r : Statics) : Prop where
  kept : c.Kept T serial r
  ready : ¬ c.Flagged → c.Ready T serial r
  /-- The packet of a SETUP lies still in the buffer. -/
  setup : c.Flagged → c.st.token = .uisSetup → c.st.setupAct = true ∧
    ∃ s buf, c.setups.getLast? = some s ∧ c.buf = overwrite buf s.packet
  done : c.Flagged → c.st.token = .uisIn →
    ∃ s, c.setups.getLast? = some s ∧ r.Pends s
  plain : c.transfer = true → ¬ (c.Flagged ∧ c.st.token = .uisSetup) → c.st.setupAct = false

end Control

variable {allowed : Host → Act → Prop} {T : Board} {serial : List Byte} {r : Statics} {b b' : Bus}

theorem Sie.transfer_of_free {s : Sie} (busy : s.usbCtrl.intBusy = true) (free : s.free = true) :
    s.fg.transfer = false := by
  simpa [Sie.free, busy] using (Bool.and_eq_true_iff.mp free).2

namespace Control

variable {c : Control}

theorem not_flagged (idle : c.transfer = false) : ¬ c.Flagged := by
  rintro ⟨up, -⟩
  rw [idle] at up
  cases up

theorem Sound.elsewhere {st : IntSt} {isNak : Bool} (h : c.Sound T serial r)
    (idle : c.transfer = false) (other : isNak = true ∨ st.endp ≠ 0) (act : st.setupAct = false) :
    ({ c with transfer := true, isNak := isNak, st := st } : Control).Sound T serial r := by
  have apart : ¬ ({ c with transfer := true, isNak := isNak, st := st } : Control).Flagged := by
    rintro ⟨-, nak, endp, -⟩
    rcases other with yes | no
    · exact absurd (yes.symm.trans nak) (by decide)
    · exact no endp
  exact ⟨⟨h.kept.busy, h.kept.uid, h.kept.short, h.kept.config, h.kept.answers, h.kept.address⟩,
    fun _ => h.ready (not_flagged idle), fun flagged => absurd flagged apart,
    fun flagged => absurd flagged apart, fun _ _ => act⟩

end Control

theorem Control.Sound.interrupted {c : Control} (h : c.Sound T serial r) :
    ({ c with busRst := true } : Control).Sound T serial r :=
  ⟨⟨h.kept.busy, h.kept.uid, h.kept.short, h.kept.config, h.kept.answers,
    h.kept.address.imp_right fun at0 => ⟨rfl, at0.2⟩⟩, h.ready, h.setup, h.done, h.plain⟩

theorem control_takeReport (d : List Byte) (rest : List (List Byte)) (acked : Bool) :
    (b.takeReport d rest acked).control = { b.control with
      transfer := true, isNak := false,
      st := ⟨.uisOut, 1, b.host.outTog == b.sie.ctrl1.rTog, false⟩ } := by
  cases acked <;> rfl

theorem control_giveReport_lost (b : Bus) : (b.giveReport false).control = b.control := by
  by_cases fresh : b.sie.ctrl1.tTog = b.host.inTog <;> simp [Bus.giveReport, Bus.control, fresh]

theorem control_giveReport : (b.giveReport true).control = { b.control with
    transfer := true, isNak := false, st := ⟨.uisIn, 1, true, false⟩ } := by
  by_cases fresh : b.sie.ctrl1.tTog = b.host.inTog <;>
    simp [Bus.giveReport, Bus.control, Sie.raise, fresh]

/-- Nothing the host does takes it away. -/
theorem sound_stable (T : Board) (serial : List Byte) (r : Statics) :
    (bus allowed).Stable fun b => b.control.Sound T serial r := by
  rintro b b' ⟨a, -, act⟩ h
  have idle (free : b.sie.free = true) : b.sie.fg.transfer = false :=
    Sie.transfer_of_free h.kept.busy free
  cases Bus.happens act with
  -- the flag holds the packet in the buffer until it is dealt with
  | @setup s free =>
    refine ⟨⟨h.kept.busy, h.kept.uid, h.kept.short, h.kept.config, h.kept.answers,
      h.kept.address⟩, ?_, ?_, ?_, ?_⟩
    · intro unflagged
      exact absurd ⟨rfl, rfl, rfl, nofun⟩ unflagged
    · intro _ _
      exact ⟨rfl, s, _, List.getLast?_concat, rfl⟩
    · intro _ token
      cases token
    · intro _ other
      exact absurd ⟨⟨rfl, rfl, rfl, nofun⟩, rfl⟩ other
  | out0 free ready small =>
    refine ⟨⟨h.kept.busy, h.kept.uid, h.kept.short, h.kept.config, h.kept.answers,
      h.kept.address⟩, ?_, ?_, ?_, ?_⟩
    · intro unflagged
      exact absurd ⟨rfl, rfl, rfl, nofun⟩ unflagged
    · intro _ token
      cases token
    · intro _ token
      cases token
    · intro _ _
      rfl
  -- the endpoint sends only what is ready; that answer is what is recorded
  | @in0 acked free ready =>
    obtain ⟨tog, s, last, reply, pends⟩ := h.ready (Control.not_flagged (idle free)) ready
    have answered : ∀ a ∈ b.host.answers ++ [b.answer], Answered T serial a := by
      intro a member
      rcases List.mem_append.mp member with old | new
      · exact h.kept.answers a old
      · obtain rfl := List.mem_singleton.mp new
        exact ⟨tog, h.kept.address, s, last, reply⟩
    have kept : (b.giveIn acked).control.Kept T serial r := by
      cases acked <;> exact ⟨h.kept.busy, h.kept.uid, h.kept.short, h.kept.config, answered,
        h.kept.address⟩
    cases acked with
    -- unacknowledged it may be asked for again, and is the same
    | false => exact ⟨kept, h.ready, h.setup, h.done, h.plain⟩
    | true =>
      refine ⟨kept, ?_, ?_, ?_, ?_⟩
      · intro unflagged
        exact absurd ⟨rfl, rfl, rfl, nofun⟩ unflagged
      · intro _ token
        cases token
      · intro _ _
        exact ⟨s, last, pends⟩
      · intro _ _
        rfl
  -- endpoint 1 only takes the flag
  | out1 _ free =>
    rw [control_takeReport]
    exact h.elsewhere (idle free) (.inr (by simp)) rfl
  | @in1 acked free =>
    cases acked with
    | false => exact control_giveReport_lost b ▸ h
    | true =>
      rw [control_giveReport]
      exact h.elsewhere (idle free) (.inr (by simp)) rfl
  | refused free => exact h.elsewhere (idle free) (.inl rfl) rfl
  | busReset => exact h.interrupted
  | configure => exact h
  | other => exact h

/-! ### With the flag up -/

section
variable (T : Board)

theorem quiet_reg {op : SieOp} (quiet : op.Quiet) : Shared.Issues SieOp.Quiet (reg op) :=
  (Shared.issues_perform _).mpr quiet

theorem quiet_editCtrl1 (f : EpCtrl → EpCtrl) : Shared.Issues SieOp.Quiet (editCtrl1 f) :=
  .bind (quiet_reg trivial) fun _ => quiet_reg trivial

theorem quiet_modify (f : Statics → Statics) :
    Shared.Issues SieOp.Quiet (modify f : Code Unit) := Shared.issues_modify f

theorem quiet_guarded {c : Prop} [Decidable c] {p : Code Unit}
    (quiet : Shared.Issues SieOp.Quiet p) : Shared.Issues SieOp.Quiet (guarded c p) :=
  .ite quiet (Shared.issues_pure _)

theorem quiet_getDescriptor (vl vh : Byte) :
    Shared.Issues SieOp.Quiet (getDescriptor T vl vh) := by
  refine .bind Shared.issues_get fun r => ?_
  repeat' apply Shared.Issues.ite
  all_goals exact Shared.issues_pure _

theorem quiet_serveStandard (bm rq vl vh ixl : Byte) :
    Shared.Issues SieOp.Quiet (serveStandard T bm rq vl vh ixl) := by
  have then_ {p : Code Unit} (x : Served) (quiet : Shared.Issues SieOp.Quiet p) :
      Shared.Issues SieOp.Quiet (p >>= fun _ => pure x) := quiet.bind fun _ => Shared.issues_pure _
  refine .ite (quiet_getDescriptor T vl vh) (.ite ?_ (.ite ?_ (.ite ?_ (.ite ?_ (.ite ?_ (.ite ?_
    (.ite (Shared.issues_pure _) (Shared.issues_pure _))))))))
  · exact then_ _ (quiet_modify _)
  · exact .bind Shared.issues_get fun _ => then_ _ (quiet_reg trivial)
  · exact then_ _ (quiet_modify _)
  · exact then_ _ (quiet_reg trivial)
  · exact .bind (quiet_reg trivial) fun _ => then_ _ (quiet_reg trivial)
  · refine .ite (.ite (then_ _ (quiet_editCtrl1 _)) (.ite (then_ _ (quiet_editCtrl1 _)) ?_)) ?_
    · exact Shared.issues_pure _
    · exact Shared.issues_pure _

theorem quiet_serve (bm rq vl vh ixl : Byte) :
    Shared.Issues SieOp.Quiet (serve T bm rq vl vh ixl) :=
  .ite (.ite (Shared.issues_pure _) (Shared.issues_pure _))
    (.ite (Shared.issues_pure _) (quiet_serveStandard T bm rq vl vh ixl))

theorem quiet_copyIn (p : Option (List Byte)) (len : Nat) :
    Shared.Issues SieOp.Quiet (copyIn p len) := by
  cases p with
  | none => exact Shared.issues_pure _
  | some p =>
    unfold copyIn
    induction (List.finRange 64).take len with
    | nil => exact Shared.issues_pure _
    | cons i is ih =>
      simp only [List.forM_cons]
      exact .bind (quiet_reg trivial) fun _ => ih

theorem quiet_armStage (bm : Byte) (wlen : BitVec 16) (x : Served) :
    Shared.Issues SieOp.Quiet (armStage bm wlen x) :=
  .ite (quiet_reg trivial)
    (.bind (quiet_copyIn _ _) fun _ => .bind (quiet_reg trivial) fun _ => quiet_reg trivial)

theorem quiet_respond (bm rq vl vh ixl : Byte) (wlen : BitVec 16) :
    Shared.Issues SieOp.Quiet (respond T bm rq vl vh ixl wlen) :=
  .bind (quiet_reg trivial) fun _ => .bind (quiet_modify _) fun _ =>
    .bind (quiet_serve T bm rq vl vh ixl) fun _ => quiet_armStage _ _ _

theorem quiet_ep0Setup : Shared.Issues SieOp.Quiet (ep0Setup T) :=
  .bind (quiet_reg trivial) fun _ => .bind (quiet_reg trivial) fun _ =>
    .bind (quiet_reg trivial) fun _ => .bind (quiet_reg trivial) fun _ =>
    .bind (quiet_reg trivial) fun _ => .bind (quiet_reg trivial) fun _ =>
    .bind (quiet_reg trivial) fun _ => quiet_respond T _ _ _ _ _ _

theorem quiet_transferred (st : IntSt) : Shared.Issues SieOp.Quiet (transferred st) := by
  refine .ite (.bind (quiet_editCtrl1 _) fun _ => quiet_modify _)
    (.ite ?_ (.ite ?_ (.ite (quiet_reg trivial) (Shared.issues_pure _))))
  · refine .bind (quiet_reg trivial) fun _ => .ite ?_ (Shared.issues_pure _)
    refine .bind (quiet_reg trivial) fun _ => .ite ?_ (Shared.issues_pure _)
    exact .bind (quiet_editCtrl1 _) fun _ => quiet_modify _
  · exact .bind Shared.issues_get fun _ => .bind (quiet_guarded (quiet_reg trivial)) fun _ =>
      .bind (quiet_reg trivial) fun _ => quiet_reg trivial

theorem quiet_transferEvent (intflag : IntFg) :
    Shared.Issues SieOp.Quiet (transferEvent T intflag) :=
  .bind (quiet_reg trivial) fun _ => .bind
    (quiet_guarded (.bind (quiet_reg trivial) fun st => quiet_transferred st)) fun _ =>
      .bind (quiet_reg trivial) fun _ => quiet_guarded (quiet_ep0Setup T)

end

@[simp] theorem alone_guarded (c : Prop) [Decidable c] (p : Code Unit) (r : Statics) (b : Bus) :
    (bus allowed).alone (guarded c p) r b =
      if c then (bus allowed).alone p r b else ((), r, b) := Shared.alone_ite c p _

theorem alone_transferred (r : Statics) (b : Bus) :
    (bus allowed).alone (transferred b.sie.st) r b =
      if b.sie.st.token = .uisIn ∧ b.sie.st.endp = 1 then
        ((), { r with txBusy := false },
          { b with sie := { b.sie with ctrl1 := b.sie.ctrl1.setT .nak } })
      else if b.sie.st.token = .uisOut ∧ b.sie.st.endp = 1 then
        if b.sie.st.togOk = true ∧ b.sie.rxLen = BitVec.ofNat 8 maxFrame then
          ((), { r with rxState := .pending },
            { b with sie := { b.sie with ctrl1 := b.sie.ctrl1.setR .nak } })
        else ((), r, b)
      else if b.sie.st.token = .uisIn ∧ b.sie.st.endp = 0 then
        ((), r, { b with sie := { b.sie with
          devAd := if r.setupReq = rqSetAddress then r.pendAddr else b.sie.devAd
          tLen0 := 0, ctrl0 := ctrl0Idle } })
      else if b.sie.st.token = .uisOut ∧ b.sie.st.endp = 0 then
        ((), r, { b with sie := { b.sie with ctrl0 := ctrl0Idle } })
      else ((), r, b) := by
  unfold transferred
  simp only [Shared.alone_ite]
  -- the tests come in the order of the source; the registers read twice hold still
  split_ifs with drained arrived good stage address out
  · rfl
  · rw [alone_reg_bind]
    change (bus allowed).alone (if b.sie.st.togOk = true then _ else _) r b = _
    rw [if_pos good.1, alone_reg_bind]
    change (bus allowed).alone (if b.sie.rxLen = _ then _ else _) r b = _
    rw [if_pos good.2]
    rfl
  · rw [alone_reg_bind]
    change (bus allowed).alone (if b.sie.st.togOk = true then _ else _) r b = _
    by_cases tog : b.sie.st.togOk = true
    · rw [if_pos tog, alone_reg_bind]
      change (bus allowed).alone (if b.sie.rxLen = _ then _ else _) r b = _
      rw [if_neg fun len => good ⟨tog, len⟩]
      rfl
    · rw [if_neg tog]
      rfl
  · rw [Shared.alone_bind, Shared.alone_get, Shared.alone_bind, alone_guarded, if_pos address]
    rfl
  · rw [Shared.alone_bind, Shared.alone_get, Shared.alone_bind, alone_guarded, if_neg address]
    rfl
  · rfl
  · rfl

theorem alone_transferred_st (r : Statics) (b : Bus) :
    ((bus allowed).alone (transferred b.sie.st) r b).2.2.sie.st = b.sie.st := by
  rw [alone_transferred]
  split_ifs <;> rfl

theorem alone_transferEvent_setup (T : Board) (fg : IntFg) (r : Statics) (b : Bus)
    (token : b.sie.st.token = .uisSetup) (act : b.sie.st.setupAct = true) :
    (bus allowed).alone (transferEvent T fg) r b = (bus allowed).alone (ep0Setup T) r b := by
  unfold transferEvent
  rw [alone_reg_bind, Shared.alone_bind, alone_guarded, if_neg (fun h => h.1 token)]
  rw [alone_reg_bind, alone_guarded]
  exact if_pos act

theorem alone_transferEvent (T : Board) (fg : IntFg) (r : Statics) (b : Bus)
    (act : b.sie.st.setupAct = false) :
    (bus allowed).alone (transferEvent T fg) r b =
      if b.sie.st.token ≠ .uisSetup ∧ ¬ fg.isNak = true then
        (bus allowed).alone (transferred b.sie.st) r b
      else ((), r, b) := by
  have seen : b.access .intSt = (b.sie.st, b) := rfl
  unfold transferEvent
  rw [alone_reg_bind, Shared.alone_bind, alone_guarded, seen]
  have skip (r : Statics) (b : Bus) (act : b.sie.st.setupAct = false) :
      (bus allowed).alone (reg .intSt >>= fun st : IntSt => guarded st.setupAct (ep0Setup T)) r b =
        ((), r, b) := by
    rw [alone_reg_bind, alone_guarded]
    exact if_neg (by rw [show (b.access .intSt).1.setupAct = b.sie.st.setupAct from rfl, act]; simp)
  by_cases passes : b.sie.st.token ≠ .uisSetup ∧ ¬ fg.isNak = true
  · have run : (bus allowed).alone (reg .intSt >>= transferred) r b =
        (bus allowed).alone (transferred b.sie.st) r b := rfl
    rw [if_pos passes, if_pos passes, run]
    exact skip _ _ (by rw [alone_transferred_st, act])
  · rw [if_neg passes, if_neg passes]
    exact skip r b act

namespace Control.Sound

variable {c : Control}

theorem unaddressed (h : c.Sound T serial r) (flag : c.busRst = true) :
    ({ c with devAd := 0 } : Control).Sound T serial r :=
  ⟨⟨h.kept.busy, h.kept.uid, h.kept.short, h.kept.config, h.kept.answers, .inr ⟨flag, rfl⟩⟩,
    h.ready, h.setup, h.done, h.plain⟩

theorem silenced (h : c.Sound T serial r) :
    ({ c with ctrl := ctrl0Idle } : Control).Sound T serial r :=
  ⟨⟨h.kept.busy, h.kept.uid, h.kept.short, h.kept.config, h.kept.answers, h.kept.address⟩,
    fun _ => nofun, h.setup, h.done, h.plain⟩

theorem statics (h : c.Sound T serial r) (rx : RxState) (tx : Bool) :
    c.Sound T serial { r with rxState := rx, txBusy := tx } :=
  ⟨⟨h.kept.busy, h.kept.uid, h.kept.short, h.kept.config, h.kept.answers, h.kept.address⟩,
    fun unflagged sends =>
      have ⟨tog, s, last, reply, pends⟩ := h.ready unflagged sends
      ⟨tog, s, last, reply, ⟨pends.request, pends.standard, pends.address⟩⟩,
    h.setup, fun flagged token =>
      have ⟨s, last, pends⟩ := h.done flagged token
      ⟨s, last, ⟨pends.request, pends.standard, pends.address⟩⟩, h.plain⟩

theorem forgotten {config : Byte} (h : c.Sound T serial { r with devConfig := config })
    (reset : r.devConfig = 0) (devAd : c.devAd = 0) (silent : c.ctrl.tRes = .nak) :
    ({ c with busRst := false, agreed := ⟨0, 0⟩ } : Control).Sound T serial r :=
  ⟨⟨h.kept.busy, h.kept.uid, h.kept.short, reset, h.kept.answers, .inl devAd⟩,
    fun _ sends => absurd (silent.symm.trans sends) nofun, h.setup,
    fun flagged token =>
      have ⟨s, last, pends⟩ := h.done flagged token
      ⟨s, last, ⟨pends.request, pends.standard, pends.address⟩⟩, h.plain⟩

end Control.Sound

/-! ### The pump -/

def Bus.lower (b : Bus) : Bus := (b.access (.clearFg onlyTransfer)).2

@[simp] theorem control_lower (b : Bus) :
    b.lower.control = { b.control with transfer := false, agreed := b.deal onlyTransfer } := by
  simp [Bus.lower, Bus.access, Sie.access, Bus.control, IntFg.clear, onlyTransfer]

/-- What happens with the flag up would have happened with the flag down as well. -/
theorem Bus.Held.lower (held : b.Held) (happened : (bus allowed).acts b b') :
    (bus allowed).acts b.lower b'.lower := by
  obtain ⟨a, allows, act⟩ := happened
  refine ⟨a, allows, ?_⟩
  rcases held.act act with ⟨rfl, live, rfl⟩ | ⟨rfl, rfl⟩
  · exact if_pos live
  · rfl

/-- The flag is up, but what it was for has been dealt with. -/
structure Bus.Settled (b : Bus) (T : Board) (serial : List Byte) (r : Statics) : Prop where
  held : b.Held
  lowered : b.lower.control.Sound T serial r

theorem settled_stable (T : Board) (serial : List Byte) (r : Statics) :
    (bus allowed).Stable fun b => b.Settled T serial r :=
  fun b b' happened h => ⟨(held_off allowed).stable b b' happened h.held,
    sound_stable T serial r _ _ (h.held.lower happened) h.lowered⟩

theorem Control.Sound.idle {c : Control} (idle : c.transfer = false) (kept : c.Kept T serial r)
    (ready : c.Ready T serial r) : c.Sound T serial r where
  kept := kept
  ready := fun _ => ready
  setup := fun flagged => absurd flagged (Control.not_flagged idle)
  done := fun flagged => absurd flagged (Control.not_flagged idle)
  plain := fun up => absurd (idle.symm.trans up) (by decide)

section
variable {s : Setup}

theorem deal_flagged (flagged : b.control.Flagged) (last : b.host.setups.getLast? = some s) :
    b.deal onlyTransfer = b.agreed.after b.sie.st s := by
  obtain ⟨up, isNak, -⟩ := flagged
  have up : b.sie.fg.transfer = true := up
  have isNak : b.sie.fg.isNak = false := isNak
  simp [Bus.deal, onlyTransfer, up, isNak, last]

theorem deal_other (other : b.control.Flagged → b.sie.st.token = .uisOut) :
    b.deal onlyTransfer = b.agreed := by
  by_cases passes : b.sie.fg.transfer = true ∧ b.sie.fg.isNak = false
  · cases last : b.host.setups.getLast? with
    | none => simp [Bus.deal, onlyTransfer, last]
    | some s =>
      have apart (token : Token) (some : token ≠ .uisSof) (notOut : token ≠ .uisOut) :
          ¬ (b.sie.st.endp = 0 ∧ b.sie.st.token = token) := fun is =>
        notOut (is.2.symm.trans (other ⟨passes.1, passes.2, is.1, fun sof => some (is.2.symm.trans sof)⟩))
      have same : b.agreed.after b.sie.st s = b.agreed := by
        unfold Agreed.after
        rw [if_neg fun h => apart .uisSetup (by decide) (by decide) ⟨h.1, h.2.1⟩,
          if_neg fun h => apart .uisIn (by decide) (by decide) ⟨h.1, h.2.1⟩]
      simp [Bus.deal, onlyTransfer, last, same]
  · unfold Bus.deal
    rw [if_neg (by simp [onlyTransfer]), if_neg (by simpa [onlyTransfer] using passes)]

theorem setup_after {g : Agreed} {st : IntSt} (endp : st.endp = 0) (token : st.token = .uisSetup) :
    g.after st s = { g with config := if s.SetsConfiguration then s.vl else g.config } := by
  unfold Agreed.after
  by_cases sets : s.SetsConfiguration
  · rw [if_pos ⟨endp, token, sets⟩, if_pos sets]
  · simp [sets, token]

theorem stage_after {g : Agreed} {st : IntSt} (endp : st.endp = 0) (token : st.token = .uisIn) :
    g.after st s = { g with address := if s.SetsAddress then s.vl else g.address } := by
  unfold Agreed.after
  by_cases sets : s.SetsAddress
  · simp [sets, token, endp]
  · simp [sets, token]

theorem Setup.reply_set (sets : s.SetsConfiguration) (config config' : Byte) :
    s.reply T serial config = s.reply T serial config' := by
  unfold Setup.reply
  rw [Setup.offers_standard sets.1, Setup.offers_standard sets.1, Setup.offersStandard,
    Setup.offersStandard, sets.2]
  rfl

theorem Setup.pends {d : List Byte} {config : Byte} (reply : s.reply T serial config = some d)
    (request : r.setupReq = s.rq) (address : s.SetsAddress → r.pendAddr = s.vl) : r.Pends s := by
  refine ⟨request, fun rq => ?_, address⟩
  by_contra other
  have refused : s.offers T serial config = none := by
    unfold Setup.offers
    split
    · exact if_neg (by rw [rq]; decide)
    · next cls => exact if_pos fun std => other ⟨std, rq⟩
  rw [Setup.reply, refused] at reply
  cases reply

theorem setup_settles {fg : IntFg} (h : b.control.Sound T serial r) (flagged : b.control.Flagged)
    (token : b.sie.st.token = .uisSetup) :
    ((bus allowed).alone (transferEvent T fg) r b).2.2.Settled T serial
      ((bus allowed).alone (transferEvent T fg) r b).2.1 := by
  obtain ⟨act, s, buf, last, packet⟩ := h.setup flagged token
  have short : r.strSerial.length ≤ 64 := h.kept.uid ▸ h.kept.short
  rw [alone_transferEvent_setup T fg r b token act, alone_ep0Setup s buf r b packet]
  have handled := @alone_respond allowed T s r b short
  generalize (bus allowed).alone (respond T s.bm s.rq s.vl s.vh s.ixl s.wlen) r b = out at handled ⊢
  obtain ⟨⟨⟩, r', b'⟩ := out
  obtain ⟨statics, address, config, same, -, answer⟩ := handled
  simp only at statics address config same answer ⊢
  -- a configuration counts from here on, and the reply to the request does not depend on it
  have dealt : b'.deal onlyTransfer =
      { b.agreed with config := if s.SetsConfiguration then s.vl else b.agreed.config } := by
    have is : b'.deal onlyTransfer = b.deal onlyTransfer := by
      rw [same]
      rfl
    exact is.trans ((deal_flagged flagged last).trans (setup_after flagged.2.2.1 token))
  have kept : b'.lower.control.Kept T serial r' := by
    rw [control_lower, dealt, statics, same]
    refine ⟨h.kept.busy, h.kept.uid, h.kept.short, ?_, h.kept.answers, h.kept.address⟩
    have before : r.devConfig = b.agreed.config := h.kept.config
    rw [config, before]
  refine ⟨by rw [same]; exact ⟨h.kept.busy, flagged.1⟩, .idle (by rw [control_lower]) kept fun sends => ?_⟩
  rw [control_lower] at sends ⊢
  cases reply : s.reply T r.strSerial r.devConfig with
  | none =>
    rw [reply] at answer
    rw [show b'.control.ctrl = b'.sie.ctrl0 from rfl, answer] at sends
    cases sends
  | some d =>
    rw [reply] at answer
    obtain ⟨ctrl, data⟩ := answer
    refine ⟨congrArg EpCtrl.tTog ctrl, s, ?_, ?_, Setup.pends reply (by rw [statics]) address⟩
    · rw [same]
      exact last
    · have data : b'.control.buf.toList.take b'.control.tLen.toNat = d := data
      have before : r.devConfig = b.agreed.config := h.kept.config
      rw [dealt, data, ← reply, h.kept.uid, before]
      by_cases sets : s.SetsConfiguration
      · exact Setup.reply_set sets _ _
      · rw [if_neg sets]

end

theorem Control.Kept.silent (kept : b.lower.control.Kept T serial r) (held : b.Held)
    (ctrl : b.sie.ctrl0 = ctrl0Idle) : b.Settled T serial r := by
  refine ⟨held, .idle (by rw [control_lower]) kept fun sends => ?_⟩
  rw [control_lower, show b.control.ctrl = ctrl0Idle from ctrl] at sends
  cases sends

theorem Control.Sound.settled (h : b.control.Sound T serial r) (held : b.Held)
    (apart : ¬ b.control.Flagged) : b.Settled T serial r := by
  have same : b.lower.control = { b.control with transfer := false } := by
    rw [control_lower, deal_other fun flagged => absurd flagged apart]
    rfl
  refine ⟨held, ?_⟩
  rw [same]
  exact .idle rfl ⟨h.kept.busy, h.kept.uid, h.kept.short, h.kept.config, h.kept.answers,
    h.kept.address⟩ (h.ready apart)

theorem stage_settles (h : b.control.Sound T serial r) (flagged : b.control.Flagged)
    (token : b.sie.st.token = .uisIn) : ({ b with sie := { b.sie with
      devAd := if r.setupReq = rqSetAddress then r.pendAddr else b.sie.devAd
      tLen0 := 0, ctrl0 := ctrl0Idle } } : Bus).Settled T serial r := by
  obtain ⟨s, last, pends⟩ := h.done flagged token
  refine Control.Kept.silent ?_ ⟨h.kept.busy, flagged.1⟩ rfl
  have dealt : ({ b with sie := { b.sie with
      devAd := if r.setupReq = rqSetAddress then r.pendAddr else b.sie.devAd
      tLen0 := 0, ctrl0 := ctrl0Idle } } : Bus).deal onlyTransfer =
      { b.agreed with address := if s.SetsAddress then s.vl else b.agreed.address } :=
    (deal_flagged flagged last).trans (stage_after flagged.2.2.1 token)
  rw [control_lower, dealt]
  refine ⟨h.kept.busy, h.kept.uid, h.kept.short, h.kept.config, h.kept.answers, ?_⟩
  have address : b.sie.devAd = b.agreed.address ∨ b.sie.fg.busRst = true ∧ b.sie.devAd = 0 :=
    h.kept.address
  by_cases sets : s.SetsAddress
  · have pending : r.setupReq = rqSetAddress := pends.request.trans sets.2
    rw [if_pos sets]
    exact .inl ((if_pos pending).trans (pends.address sets))
  · have other : r.setupReq ≠ rqSetAddress := fun is => sets (pends.standard (pends.request.symm.trans is))
    rw [if_neg sets]
    exact address.imp (if_neg other).trans fun at0 => ⟨at0.1, (if_neg other).trans at0.2⟩

theorem transferEvent_settles {fg : IntFg} (h : b.control.Sound T serial r)
    (up : b.sie.fg.transfer = true) (nak : fg.isNak = b.sie.fg.isNak) :
    ((bus allowed).alone (transferEvent T fg) r b).2.2.Settled T serial
      ((bus allowed).alone (transferEvent T fg) r b).2.1 := by
  have held : b.Held := ⟨h.kept.busy, up⟩
  by_cases setup : b.control.Flagged ∧ b.sie.st.token = .uisSetup
  · exact setup_settles h setup.1 setup.2
  have act : b.sie.st.setupAct = false := h.plain up setup
  rw [alone_transferEvent T fg r b act]
  by_cases passes : b.sie.st.token ≠ .uisSetup ∧ ¬ fg.isNak = true
  · have isNak : b.sie.fg.isNak = false := by simpa [nak] using passes.2
    have elsewhere (endp : b.sie.st.endp = 1) : b.Settled T serial r :=
      h.settled held fun flagged => absurd (endp.symm.trans flagged.2.2.1) (by decide)
    rw [if_pos passes, alone_transferred]
    -- of the seven ways through the source, three are about endpoint 1 and leave this one alone
    split_ifs with drained arrived good stage address out
    · exact ⟨held, (elsewhere drained.2).lowered.statics r.rxState false⟩
    · exact ⟨held, (elsewhere arrived.2).lowered.statics .pending r.txBusy⟩
    · exact elsewhere arrived.2
    · have settled := stage_settles h ⟨up, isNak, stage.2, stage.1.symm ▸ nofun⟩ stage.1
      rwa [if_pos address] at settled
    · have settled := stage_settles h ⟨up, isNak, stage.2, stage.1.symm ▸ nofun⟩ stage.1
      rwa [if_neg address] at settled
    · refine Control.Kept.silent ?_ held rfl
      have dealt : ({ b with sie := { b.sie with ctrl0 := ctrl0Idle } } : Bus).deal onlyTransfer =
          b.agreed := (deal_other fun _ => out.1 : b.deal onlyTransfer = b.agreed)
      rw [control_lower, dealt]
      exact ⟨h.kept.busy, h.kept.uid, h.kept.short, h.kept.config, h.kept.answers, h.kept.address⟩
    · refine h.settled held fun flagged => ?_
      have endp : b.sie.st.endp = 0 := flagged.2.2.1
      cases token : b.sie.st.token with
      | uisOut => exact out ⟨token, endp⟩
      | uisSof => exact flagged.2.2.2 token
      | uisIn => exact stage ⟨token, endp⟩
      | uisSetup => exact passes.1 token
  · rw [if_neg passes]
    refine h.settled held fun flagged => ?_
    have isNak : b.sie.fg.isNak = false := flagged.2.1
    exact passes ⟨fun token => setup ⟨flagged, token⟩, by rw [nak, isNak]; decide⟩

theorem triple_reg {op : SieOp} {pre : Statics → Bus → Prop}
    {post : op.Reply → Statics → Bus → Prop} (stable : ∀ r, (bus allowed).Stable (pre r))
    (next : ∀ r b, pre r b → post (b.access op).1 r (b.access op).2) :
    (bus allowed).Triple pre (reg op) post := .access stable next

theorem sound_access {op : SieOp} (apart : ∀ b : Bus, (b.access op).2.control = b.control) :
    (bus allowed).Triple (fun r b => b.control.Sound T serial r) (reg op)
      (fun _ r b => b.control.Sound T serial r) :=
  triple_reg (sound_stable T serial) fun _ b h => (apart b).symm ▸ h

theorem control_clearFg (mask : IntFg) (keeps : mask.transfer = false) (calm : mask.busRst = false)
    (b : Bus) : (b.access (.clearFg mask)).2.control = b.control := by
  simp [Bus.access, Sie.access, Bus.control, Bus.deal, IntFg.clear, keeps, calm]

/-! A bus reset that the pump has seen -/

/-- The device is silent at address 0, and the flag is yet to be cleared. Its configuration may be
    reset already. -/
structure Bus.Resetting (b : Bus) (P : Statics → Bus → Prop) (r : Statics) : Prop where
  before : ∃ config, P { r with devConfig := config } b
  devAd : b.sie.devAd = 0
  silent : b.sie.ctrl0.tRes = .nak
  flag : b.sie.fg.busRst = true

/-- When the flag is cleared, nothing is agreed on any more. -/
theorem Bus.Resetting.forgets {P : Statics → Bus → Prop} {config : Byte} (h : b.Resetting P r)
    (sound : b.control.Sound T serial { r with devConfig := config }) (reset : r.devConfig = 0) :
    (b.access (.clearFg onlyBusRst)).2.control.Sound T serial r := by
  have same : (b.access (.clearFg onlyBusRst)).2.control = { b.control with
      busRst := false, agreed := ⟨0, 0⟩ } := by
    simp [Bus.access, Sie.access, Bus.control, Bus.deal, IntFg.clear, onlyBusRst, h.flag]
  rw [same]
  exact sound.forgotten reset h.devAd h.silent

theorem device_unchanged (happened : (bus allowed).acts b b') : b'.sie.devAd = b.sie.devAd ∧
    b'.sie.ctrl0 = b.sie.ctrl0 ∧ (b.sie.fg.busRst = true → b'.sie.fg.busRst = true) := by
  obtain ⟨a, -, act⟩ := happened
  cases Bus.happens act with
  | @in0 acked => cases acked <;> exact ⟨rfl, rfl, id⟩
  | @in1 acked => cases acked <;> exact ⟨rfl, rfl, id⟩
  | busReset => exact ⟨rfl, rfl, fun _ => rfl⟩
  | setup | out0 | out1 | refused | configure | other => exact ⟨rfl, rfl, id⟩

theorem resetting_stable {P : Statics → Bus → Prop} (stable : ∀ r, (bus allowed).Stable (P r))
    (r : Statics) : (bus allowed).Stable fun b => b.Resetting P r := by
  rintro b b' happened ⟨⟨config, before⟩, devAd, silent, flag⟩
  obtain ⟨address, ctrl, still⟩ := device_unchanged happened
  exact ⟨⟨config, stable _ b b' happened before⟩, address.trans devAd,
    (congrArg EpCtrl.tRes ctrl).trans silent, still flag⟩

theorem reset_keeps {P : Statics → Bus → Prop} (stable : ∀ r, (bus allowed).Stable (P r))
    (address : ∀ r b, P r b → b.sie.fg.busRst = true → P r (b.access (.setDevAd 0)).2)
    (silence : ∀ r b, P r b → P r (b.access (.setCtrl .ep0 ctrl0Idle)).2)
    (endpoint : ∀ r b, P r b → b.sie.fg.busRst = true →
      P r (b.access (.setCtrl .ep1 ctrl1Reset)).2)
    (statics : ∀ r b, P r b → b.sie.fg.busRst = true →
      P { r with rxState := .idle, txBusy := false } b)
    (clear : ∀ (r : Statics) (b : Bus), b.Resetting P r → r.devConfig = 0 →
      P r (b.access (.clearFg onlyBusRst)).2) :
    (bus allowed).Triple (fun r b => P r b ∧ b.sie.fg.busRst = true)
      (do reg (.setDevAd 0); usbEpReset; reg (.clearFg onlyBusRst)) (fun _ r b => P r b) := by
  refine .via (fun _ r b => P r b ∧ b.sie.fg.busRst = true ∧ b.sie.devAd = 0) ?_ fun _ =>
    .via (fun _ r b => b.Resetting P r ∧ r.devConfig = 0) (.via (fun _ r b => b.Resetting P r) ?_
      fun _ => .via (fun _ r b => b.Resetting P r) ?_ fun _ => .modify fun r b h => ?_) fun _ => ?_
  · exact triple_reg (fun r => (stable r).and fun _ _ happened flag =>
      (device_unchanged happened).2.2 flag) fun r b h => ⟨address r b h.1 h.2, h.2, rfl⟩
  · refine triple_reg (fun r => (stable r).and fun _ _ happened h =>
      ⟨(device_unchanged happened).2.2 h.1, (device_unchanged happened).1.trans h.2⟩) fun r b h => ?_
    exact ⟨⟨r.devConfig, silence r b h.1⟩, h.2.2, rfl, h.2.1⟩
  · refine triple_reg (resetting_stable stable) fun r b h => ?_
    obtain ⟨config, before⟩ := h.before
    exact ⟨⟨config, endpoint _ b before h.flag⟩, h.devAd, h.silent, h.flag⟩
  · obtain ⟨config, before⟩ := h.before
    exact ⟨⟨⟨config, statics _ b before h.flag⟩, h.devAd, h.silent, h.flag⟩, rfl⟩
  · exact triple_reg (fun r => (resetting_stable stable r).and fun _ _ _ reset => reset)
      fun r b h => clear r b h.1 h.2

/-- Whenever it runs, and whatever the host does meanwhile, the pump keeps endpoint 0 sound. -/
theorem usbProcess_sound : (bus allowed).Triple (fun r b => b.control.Sound T serial r)
    (usbProcess T) (fun _ r b => b.control.Sound T serial r) := by
  have stable (r : Statics) := @sound_stable allowed T serial r
  refine .via (fun fg r b => b.control.Sound T serial r ∧
      (fg.transfer = true → b.sie.fg.transfer = true ∧ fg.isNak = b.sie.fg.isNak) ∧
      (fg.busRst = true → b.sie.fg.busRst = true)) ?_ fun fg => ?_
  · exact triple_reg stable fun r b h => ⟨h, fun up => ⟨up, rfl⟩, id⟩
  refine .ite (fun up => ?_) fun down => .ite (fun rst => ?_) fun calm => ?_
  · refine .via (fun _ r b => b.Settled T serial r) ?_ fun _ => ?_
    · exact .alone (held_off allowed) (quiet_transferEvent T fg)
        (fun r b h => ⟨h.1.kept.busy, (h.2.1 up).1⟩) (fun _ r => settled_stable T serial r)
        fun r b h => transferEvent_settles h.1 (h.2.1 up).1 (h.2.1 up).2
    · exact triple_reg (settled_stable T serial) fun r b h => h.lowered
  · refine .weaken (reset_keeps stable (fun _ _ h => h.unaddressed) (fun _ _ h => h.silenced)
      (fun _ _ h _ => h) (fun _ _ h _ => h.statics .idle false) fun r b h reset => ?_)
      (fun r b h => ⟨h.1, h.2.2 rst⟩) fun _ _ _ h => h
    obtain ⟨config, before⟩ := h.before
    exact h.forgets before reset
  · refine .weaken (.ite (fun _ => ?_) fun _ => .pure fun _ _ h => h) (fun _ _ h => h.1)
      fun _ _ _ h => h
    exact sound_access (control_clearFg fg (by simpa using down) (by simpa using calm))

/-! ### From power-up -/

structure Host.Fresh (h : Host) : Prop where
  outTog : h.outTog = false
  inTog : h.inTog = false
  sent : h.sent = []
  got : h.got = []
  configured : h.configured = false
  setups : h.setups = []
  answers : h.answers = []

/-- Off the bus, with anything in the registers. -/
structure Bus.Off (b : Bus) : Prop where
  attached : b.sie.attached = false
  fresh : b.host.Fresh
  agreed : b.agreed = ⟨0, 0⟩

structure Bus.Started (b : Bus) (todo : List (List Byte)) (uid : Vector Byte 8) (r : Statics) :
    Prop where
  busy : b.sie.usbCtrl.intBusy = true
  transfer : b.sie.fg.transfer = false
  ctrl0 : b.sie.ctrl0 = ctrl0Idle
  ctrl1 : b.sie.ctrl1 = ctrl1Reset
  devAd : b.sie.devAd = 0
  fresh : b.host.Fresh
  agreed : b.agreed = ⟨0, 0⟩
  todo : b.host.todo = todo
  uid : r.strSerial = strSerialOf uid
  rxState : r.rxState = .idle
  devConfig : r.devConfig = 0

/-- What an unattached part may do unnoticed. -/
def SieOp.Unseen : SieOp → Prop
  | .intFg | .phyAttach => False
  | _ => True

theorem Bus.Off.act {a : Act} (off : b.sie.attached = false) (act : b.act a = some b') :
    a = .other ∧ b' = b.signal := by
  have dead : b.sie.live = false := by simp [Sie.live, off]
  have shut : b.sie.free = false := by simp [Sie.free, dead]
  cases Bus.happens act with
  | other => exact ⟨rfl, rfl⟩
  | busReset live => simp [dead] at live
  | configure free => simp [shut] at free
  | setup free => simp [shut] at free
  | out0 free => simp [shut] at free
  | in0 free => simp [shut] at free
  | out1 _ free => simp [shut] at free
  | in1 free => simp [shut] at free
  | refused free => simp [shut] at free

theorem off_bus (allowed : Host → Act → Prop) :
    (bus allowed).HeldOff SieOp.Unseen fun b => b.sie.attached = false where
  stable := by
    rintro b b' ⟨a, -, act⟩ off
    obtain ⟨-, rfl⟩ := Bus.Off.act off act
    exact off
  keeps := by
    intro b op off unseen
    cases op <;> first | exact off | exact unseen.elim | rfl | (rename_i ep _; cases ep <;> exact off)
  reply := by
    rintro b b' op off ⟨a, -, act⟩ unseen
    obtain ⟨-, rfl⟩ := Bus.Off.act off act
    cases op <;> first | rfl | exact unseen.elim
  commutes := by
    rintro b b' op off ⟨a, allows, act⟩ unseen
    obtain ⟨rfl, rfl⟩ := Bus.Off.act off act
    have later (same : (b.access op).2.signal = (b.signal.access op).2) :
        Relation.ReflTransGen (bus allowed).acts (b.access op).2 (b.signal.access op).2 :=
      .single ⟨.other, allows, congrArg _ same⟩
    cases op with
    | intFg | phyAttach => exact unseen.elim
    -- a flag raised before it is cleared is gone, and raised after it stays
    | clearFg mask =>
      cases other : mask.other with
      | false => exact later (by simp [Bus.access, Sie.access, Bus.signal, Bus.deal, IntFg.clear, other])
      | true =>
        have same : (b.signal.access (.clearFg mask)).2 = (b.access (.clearFg mask)).2 := by
          simp [Bus.access, Sie.access, Bus.signal, Bus.deal, IntFg.clear, other]
        exact same ▸ .refl
    | ctrl ep => exact later rfl
    | setCtrl ep c => exact later (by cases ep <;> rfl)
    | setTLen ep n => exact later (by cases ep <;> rfl)
    | _ => exact later rfl

theorem unseen_reg {op : SieOp} (unseen : op.Unseen) : Shared.Issues SieOp.Unseen (reg op) :=
  (Shared.issues_perform _).mpr unseen

theorem unseen_initRegisters (uid : Vector Byte 8) :
    Shared.Issues SieOp.Unseen (initRegisters uid) :=
  .bind (Shared.issues_modify _) fun _ => .bind (unseen_reg trivial) fun _ =>
    .bind (.bind (unseen_reg trivial) fun _ => .bind (unseen_reg trivial) fun _ =>
      Shared.issues_modify _) fun _ => .bind (unseen_reg trivial) fun _ =>
    .bind (unseen_reg trivial) fun _ => unseen_reg trivial

theorem deal_fresh (none : b.host.setups = []) (agreed : b.agreed = ⟨0, 0⟩) (mask : IntFg) :
    b.deal mask = ⟨0, 0⟩ := by
  unfold Bus.deal
  rw [none, agreed]
  split
  · rfl
  · split <;> rfl

theorem trInit_started (uid : Vector Byte 8) (todo : List (List Byte)) :
    (bus allowed).Triple (fun _ b => b.Off ∧ b.host.todo = todo) (trInit uid)
      (fun _ r b => b.Started todo uid r) := by
  let ready (r : Statics) (b : Bus) : Prop := b.sie.attached = false ∧ b.Started todo uid r
  have stable (r : Statics) : (bus allowed).Stable fun b => ready r b := by
    rintro b b' ⟨a, -, act⟩ ⟨off, started⟩
    obtain ⟨-, rfl⟩ := Bus.Off.act off act
    exact ⟨off, ⟨started.busy, started.transfer, started.ctrl0, started.ctrl1, started.devAd,
      started.fresh, started.agreed, started.todo, started.uid, started.rxState, started.devConfig⟩⟩
  refine .via (fun _ r b => ready r b) ?_ fun _ => triple_reg stable fun r b h => ?_
  · refine .alone (off_bus allowed) (unseen_initRegisters uid) (fun _ _ off => off.1.attached)
      (fun _ r => stable r) fun r b off =>
        ⟨off.1.attached, ⟨rfl, Bool.and_false _, rfl, rfl, rfl, off.1.fresh, ?_, off.2, rfl, rfl, rfl⟩⟩
    exact deal_fresh off.1.fresh.setups off.1.agreed _
  · obtain ⟨-, started⟩ := h
    exact ⟨started.busy, started.transfer, started.ctrl0, started.ctrl1, started.devAd,
      started.fresh, started.agreed, started.todo, started.uid, started.rxState, started.devConfig⟩

theorem strSerialOf_length (uid : Vector Byte 8) : (strSerialOf uid).length = 34 := by
  simp [strSerialOf, List.length_flatMap, List.map_const']

theorem Bus.Started.sound {todo : List (List Byte)} {uid : Vector Byte 8}
    (h : b.Started todo uid r) :
    b.control.Sound T (strSerialOf uid) r := by
  have unflagged : ¬ b.control.Flagged := Control.not_flagged h.transfer
  refine ⟨⟨h.busy, h.uid, ?_, ?_, ?_, .inl ?_⟩, fun _ sends => ?_,
    fun flagged => absurd flagged unflagged, fun flagged => absurd flagged unflagged,
    fun up => absurd (h.transfer.symm.trans up) (by decide)⟩
  · rw [strSerialOf_length]
    decide
  · exact h.devConfig.trans (congrArg Agreed.config h.agreed).symm
  · intro a member
    rw [show b.control.answers = [] from h.fresh.answers] at member
    cases member
  · exact h.devAd.trans (congrArg Agreed.address h.agreed).symm
  · exact absurd ((congrArg EpCtrl.tRes h.ctrl0).symm.trans sends) nofun

/-! ### The rest of the transport -/

section
variable (T : Board) (serial : List Byte)

def Minds {A : Type} (allowed : Host → Act → Prop) (p : Code A) : Prop :=
  (bus allowed).Triple (fun r b => b.control.Sound T serial r) p
    (fun _ r b => b.control.Sound T serial r)

variable {T serial}

namespace Minds

variable {A B : Type} {p : Code A} {f : A → Code B}

theorem pure (a : A) : Minds T serial allowed (Pure.pure a : Code A) := Shared.Triple.pure fun _ _ h => h

theorem bind (first : Minds T serial allowed p) (rest : ∀ a, Minds T serial allowed (f a)) :
    Minds T serial allowed (p >>= f) := Shared.Triple.bind first rest

theorem get : Minds T serial allowed (Program.get : Code Statics) :=
  Shared.Triple.get fun _ _ h => h

theorem ite {c : Prop} [Decidable c] {q : Code A} (yes : Minds T serial allowed p)
    (no : Minds T serial allowed q) : Minds T serial allowed (if c then p else q) :=
  Shared.Triple.ite (fun _ => yes) fun _ => no

theorem statics (rx : Statics → RxState) (tx : Statics → Bool) :
    Minds T serial allowed (modify fun r => { r with rxState := rx r, txBusy := tx r }) :=
  Shared.Triple.modify fun r _ h => h.statics (rx r) (tx r)

theorem editCtrl1 (f : EpCtrl → EpCtrl) : Minds T serial allowed (editCtrl1 f) :=
  bind (sound_access fun _ => rfl) fun _ => sound_access fun _ => rfl

end Minds

theorem trPoll_minds : Minds T serial allowed (trPoll T) := by
  refine .bind .get fun _ => .bind (.ite (.bind (.statics (fun _ => .idle) (·.txBusy)) fun _ =>
    .editCtrl1 _) (.pure _)) fun _ => .bind usbProcess_sound fun _ => .bind .get fun _ =>
    .ite (.bind (.statics (fun _ => .withCore) (·.txBusy)) fun _ => .pure _) (.pure _)

theorem drain_minds (polls : Nat) : Minds T serial allowed (drain T polls) := by
  induction polls with
  | zero => exact .pure ()
  | succ polls ih =>
    exact .bind .get fun _ => .ite (.bind usbProcess_sound fun _ =>
      .bind (sound_access fun _ => rfl) fun _ => ih) (.pure ())

theorem trSend_minds (frame : List Byte) : Minds T serial allowed (trSend T frame) := by
  have fill (is : List (Fin 64)) :
      Minds T serial allowed (forM is fun i => reg (.setTx i (frame.getD i 0))) := by
    induction is with
    | nil => exact .pure ()
    | cons i is ih =>
      rw [List.forM_cons]
      exact .bind (sound_access fun _ => rfl) fun _ => ih
  exact .bind (fill _) fun _ => .bind (sound_access fun _ => rfl) fun _ =>
    .bind (.editCtrl1 _) fun _ => .bind (.statics (·.rxState) fun _ => true) fun _ =>
    .bind (drain_minds _) fun _ => .bind .get fun _ =>
    .ite (.bind (.editCtrl1 _) fun _ => .statics (·.rxState) fun _ => false) (.pure ())

theorem readAll_minds (is : List (Fin 64)) : Minds T serial allowed (readAll is) := by
  induction is with
  | nil => exact .pure []
  | cons i is ih =>
    exact .bind (sound_access fun _ => rfl) fun _ => .bind ih fun _ => .pure _

variable (core : List (List Byte) → Option (List Byte))

theorem turn_minds (l : Log) : Minds T serial allowed (turn core T l) := by
  have wait {A : Type} (a : A) :
      Minds T serial allowed (reg (.delayUs T.pollIntervalUs) >>= fun _ => pure a) :=
    .bind (sound_access fun _ => rfl) fun _ => .pure a
  refine .bind trPoll_minds fun out => ?_
  cases out with
  | none => exact wait l
  | some avail =>
    refine .bind (readAll_minds _) fun report => ?_
    cases answer : core (l.reports ++ [report]) with
    | none =>
      simp only [answer]
      exact wait _
    | some resp =>
      simp only [answer]
      exact .bind (trSend_minds resp) fun _ => wait _

theorem turns_minds (n : Nat) (l : Log) : Minds T serial allowed (turns core T n l) := by
  induction n generalizing l with
  | zero => exact .pure l
  | succ n ih => exact .bind (turn_minds core l) fun l => ih l

/-- Whatever the host does, each IN packet of endpoint 0 is DATA1, answers the request before it,
    and comes from the address agreed on, or from address 0 under a bus reset. -/
theorem control_answers {core : List (List Byte) → Option (List Byte)} {uid : Vector Byte 8}
    {n : Nat} {l : Log} {r' : Statics} {es : List (Event sieOps)} (off : b.Off)
    (run : (device core T uid n).Exec (bus allowed).environment r b es l r' b') :
    ∀ a ∈ b'.host.answers, Answered T (strSerialOf uid) a := by
  have sound : (bus allowed).Triple (fun _ c => c.Off ∧ c.host.todo = b.host.todo)
      (device core T uid n) fun _ r b => b.control.Sound T (strSerialOf uid) r :=
    .via (fun _ r b => b.control.Sound T (strSerialOf uid) r)
      (.weaken (trInit_started uid b.host.todo) (fun _ _ off => off) fun _ _ _ h => h.sound)
      fun _ => turns_minds core n _
  exact (sound.exec ⟨off, rfl⟩ run).kept.answers

end

/-! ### A host that loses handshakes -/

/-- Once it uses endpoint 1, the host does not reset the bus, configure the device or clear a halt
    of that endpoint. -/
def Calm (h : Host) : Act → Prop
  | .setup s => s.Restarts 0x01 ∨ s.Restarts 0x81 → h.configured = false
  | .busReset => h.configured = false
  | _ => True

def getDeviceDescriptor : Setup := ⟨0x80, rqGetDescriptor, 0, 0x01, 0, 0, 18⟩

def getConfiguration : Setup := ⟨0x80, rqGetConfiguration, 0, 0, 0, 0, 1⟩

def exampleRequests : List Setup :=
  [getDeviceDescriptor, ⟨0, rqSetAddress, 5, 0, 0, 0, 0⟩, ⟨0, rqSetConfiguration, 1, 0, 0, 0, 0⟩,
    getConfiguration]

/-- Makes the requests, then uses endpoint 1. The handshake of each packet is lost the first time. -/
def Bus.wants (b : Bus) : List Act :=
  if b.host.configured then
    [.in1 (b.sie.ctrl1.tTog != b.host.inTog), .out1 (b.host.outTog != b.sie.ctrl1.rTog)]
  else if b.host.answers.length < 2 * b.host.setups.length then
    [.in0 (b.host.answers.length % 2 = 1)]
  else match exampleRequests[b.host.setups.length]? with
    | some s => [.setup s]
    | none => [.configure]

def Bus.lossy (b : Bus) (op : SieOp) : op.Reply × Bus :=
  ((b.wants.findSome? b.act).getD b).access op

theorem wants_calm {b : Bus} {a : Act} (wanted : a ∈ b.wants) : Calm b.host a := by
  unfold Bus.wants at wanted
  split at wanted
  · rcases List.mem_cons.mp wanted with rfl | wanted
    · trivial
    · obtain rfl := List.mem_singleton.mp wanted
      trivial
  · next unused =>
    split at wanted
    · obtain rfl := List.mem_singleton.mp wanted
      trivial
    · split at wanted <;> obtain rfl := List.mem_singleton.mp wanted
      · exact fun _ => Bool.eq_false_of_not_eq_true unused
      · trivial

theorem lossy_sound (b : Bus) (op : SieOp) :
    (bus Calm).environment.step b op (b.lossy op).1 (b.lossy op).2 := by
  cases found : b.wants.findSome? b.act with
  | none => exact ⟨b, .refl, by simp [Bus.lossy, found]⟩
  | some b' =>
    obtain ⟨a, wanted, act⟩ := List.exists_of_findSome?_eq_some found
    exact ⟨b', .single ⟨a, wants_calm wanted, act⟩, by simp [Bus.lossy, found]⟩

def exampleBoard : Board := ⟨0x1209, 0x0001, 2500, by decide⟩

def exampleUid : Vector Byte 8 := ⟨#[0xEF, 0xCD, 0xAB, 0x89, 0x67, 0x45, 0x23, 0x01], rfl⟩

def exampleReports : List (List Byte) :=
  [List.replicate 64 0x11, List.replicate 64 0x22, List.replicate 64 0x33]

def exampleBus : Bus where
  sie := ⟨⟨false, false, false⟩, false, 0, ⟨false, false, false, false⟩,
    ⟨.uisOut, 0, false, false⟩, 0, ctrl0Idle, ctrl0Idle, 0, 0, Vector.replicate 64 0,
    Vector.replicate 64 0, Vector.replicate 64 0⟩
  host := ⟨exampleReports, [], false, [], false, false, [], []⟩
  agreed := ⟨0, 0⟩

theorem exampleBus_off : exampleBus.Off := ⟨rfl, ⟨rfl, rfl, rfl, rfl, rfl, rfl, rfl⟩, rfl⟩

/-- The core answers each report with the number of it. -/
def exampleRun : List (Event sieOps) × Log × Statics × Bus :=
  (device (fun reports => some [BitVec.ofNat 8 reports.length]) exampleBoard exampleUid 20).run
    Bus.lossy .bss exampleBus

theorem exampleRun_exec :
    (device (fun reports => some [BitVec.ofNat 8 reports.length]) exampleBoard exampleUid 20).Exec
      (bus Calm).environment .bss exampleBus exampleRun.1 exampleRun.2.1 exampleRun.2.2.1
      exampleRun.2.2.2 := by
  unfold exampleRun
  exact Program.exec_run lossy_sound _ _ _

/-- The configuration is reported from the new address. -/
theorem control_answers_lossy :
    ⟨some getConfiguration, ⟨5, 1⟩, false, 5, true, [1]⟩ ∈ exampleRun.2.2.2.host.answers ∧
      Answered exampleBoard (strSerialOf exampleUid) ⟨some getConfiguration, ⟨5, 1⟩, false, 5, true, [1]⟩ := by
  have sent : ⟨some getConfiguration, ⟨5, 1⟩, false, 5, true, [1]⟩ ∈ exampleRun.2.2.2.host.answers := by
    decide +kernel
  exact ⟨sent, control_answers exampleBus_off exampleRun_exec _ sent⟩

end OpenBoot.Usb
