import OpenBoot.Transport.Enumeration

/-! Endpoint 1: reports to the core and responses to the host, whatever gets lost. -/

set_option autoImplicit false

namespace OpenBoot.Usb

open Semantics
open Semantics.Program (get modify)

/-! ### What endpoint 1 owes -/

/-- Endpoint 1, both ends of it. -/
structure Pipe where
  transfer : Bool
  isNak : Bool
  busRst : Bool
  st : IntSt
  rxLen : Byte
  ctrl : EpCtrl
  tLen : Byte
  rx : Packet
  tx : Packet
  todo : List (List Byte)
  sent : List (List Byte)
  outTog : Bool
  got : List (List Byte)
  inTog : Bool
  configured : Bool

def Bus.pipe (b : Bus) : Pipe where
  transfer := b.sie.fg.transfer
  isNak := b.sie.fg.isNak
  busRst := b.sie.fg.busRst
  st := b.sie.st
  rxLen := b.sie.rxLen
  ctrl := b.sie.ctrl1
  tLen := b.sie.tLen1
  rx := b.sie.rx
  tx := b.sie.tx
  todo := b.host.todo
  sent := b.host.sent
  outTog := b.host.outTog
  got := b.host.got
  inTog := b.host.inTog
  configured := b.host.configured

/-- Only whole reports are frames. -/
def Whole (d : List Byte) : Prop := d.length = 64

instance (d : List Byte) : Decidable (Whole d) := inferInstanceAs (Decidable (_ = _))

def padded (resp : List Byte) : List Byte := (List.range 64).map fun i => resp.getD i 0

namespace Pipe

variable (p : Pipe)

def Flagged (token : Token) : Prop :=
  p.transfer = true ∧ p.isNak = false ∧ p.st.token = token ∧ p.st.endp = 1

instance (token : Token) : Decidable (p.Flagged token) := inferInstanceAs (Decidable (_ ∧ _))

def Arrived : Prop :=
  p.Flagged .uisOut ∧ p.st.togOk = true ∧ p.rxLen = BitVec.ofNat 8 maxFrame

instance : Decidable p.Arrived := inferInstanceAs (Decidable (_ ∧ _))

/-- Reports the device took, in order. The host may not know yet of the last one. -/
def taken : List (List Byte) :=
  if p.outTog = p.ctrl.rTog then p.sent else p.sent ++ p.todo.take 1

/-- A report the device took and the core was not given. -/
def waiting (rx : RxState) : List (List Byte) :=
  if rx = .pending ∨ p.Arrived then [p.rx.toList] else []

structure Untouched (rx : RxState) : Prop where
  idle : rx = .idle
  outTog : p.outTog = false
  rTog : p.ctrl.rTog = false
  sent : p.sent = []
  got : p.got = []
  noOut : ¬ p.Flagged .uisOut
  noIn : ¬ p.Flagged .uisIn

/-- The OUT direction, when the core was given the reports `given`. -/
structure Out (given : List (List Byte)) (rx : RxState) : Prop where
  autoTog : p.ctrl.autoTog = true
  /-- The endpoint takes no report while there is one. -/
  ready : rx = .idle → p.ctrl.rRes = .ack
  full : rx ≠ .idle → p.ctrl.rRes = .nak ∧ ¬ p.Arrived
  count : given ++ p.waiting rx = p.taken.filter Whole
  more : p.outTog ≠ p.ctrl.rTog → p.todo ≠ []
  reset : p.busRst = true → p.configured = false
  untouched : p.configured = false → p.Untouched rx

/-- Where `tr_send` is, with the reports sent before. -/
inductive Phase where
  | quiet (before : List (List Byte))
  | armed (before : List (List Byte)) (x : List Byte)

/-- The IN direction. A report is collected once: when the host took it, its toggle is not the
    one the host waits for, until the pump has seen to it. No report comes in meanwhile. -/
def In (txBusy : Bool) : Phase → Prop
  | .quiet before => p.ctrl.tRes = .nak ∧ p.got.Sublist before
  | .armed before x =>
    p.configured = true ∧ p.ctrl.rRes = .nak ∧ p.tx.toList = x ∧
    p.tLen = BitVec.ofNat 8 maxFrame ∧ p.got.Sublist (before ++ [x]) ∧ (txBusy = false → p.ctrl.tRes = .nak) ∧
    (p.ctrl.tRes = .ack → ¬ p.Flagged .uisIn → p.ctrl.tTog = p.inTog → p.got.Sublist before)

variable {p : Pipe} {given : List (List Byte)} {rx : RxState} {token : Token}

theorem not_flagged (idle : p.transfer = false) : ¬ p.Flagged token := by
  rintro ⟨up, -⟩
  rw [idle] at up
  cases up

theorem not_arrived (idle : p.transfer = false) : ¬ p.Arrived :=
  fun arrived => not_flagged idle arrived.1

def elsewhere (p : Pipe) (st : IntSt) (isNak : Bool) (rxLen : Byte) : Pipe :=
  { p with transfer := true, isNak := isNak, st := st, rxLen := rxLen }

theorem not_flagged_elsewhere {st : IntSt} {isNak : Bool} {rxLen : Byte}
    (other : isNak = true ∨ st.endp ≠ 1) : ¬ (p.elsewhere st isNak rxLen).Flagged token := by
  rintro ⟨-, nak, -, endp⟩
  rcases other with yes | no
  · exact absurd (yes.symm.trans nak) (by decide)
  · exact no endp

theorem waiting_eq_nil (waits : rx ≠ .pending) (none : ¬ p.Arrived) : p.waiting rx = [] :=
  if_neg fun h => h.elim waits none

theorem waiting_pending (p : Pipe) : p.waiting .pending = [p.rx.toList] := if_pos (.inl rfl)

theorem waiting_congr {q : Pipe} (buf : q.rx = p.rx) (same : q.Arrived ↔ p.Arrived) :
    q.waiting rx = p.waiting rx := by
  simp only [waiting, buf, same]

theorem Out.elsewhere {st : IntSt} {isNak : Bool} {rxLen : Byte} (h : p.Out given rx)
    (idle : p.transfer = false) (other : isNak = true ∨ st.endp ≠ 1) :
    (p.elsewhere st isNak rxLen).Out given rx where
  autoTog := h.autoTog
  ready := h.ready
  full := fun full => ⟨(h.full full).1, fun arrived => not_flagged_elsewhere other arrived.1⟩
  count := by
    have same : (p.elsewhere st isNak rxLen).waiting rx = p.waiting rx :=
      waiting_congr rfl ⟨fun arrived => absurd arrived.1 (not_flagged_elsewhere other),
        fun arrived => absurd arrived (not_arrived idle)⟩
    rw [same]
    exact h.count
  more := h.more
  reset := h.reset
  untouched := fun unused =>
    have was := h.untouched unused
    ⟨was.idle, was.outTog, was.rTog, was.sent, was.got, not_flagged_elsewhere other,
      not_flagged_elsewhere other⟩

theorem In.elsewhere {st : IntSt} {isNak : Bool} {rxLen : Byte} {txBusy : Bool} {phase : Phase}
    (h : p.In txBusy phase) (idle : p.transfer = false) :
    (p.elsewhere st isNak rxLen).In txBusy phase := by
  cases phase with
  | quiet before => exact h
  | armed before x =>
    obtain ⟨configured, nak, tx, tLen, got, drained, once⟩ := h
    exact ⟨configured, nak, tx, tLen, got, drained, fun sends _ => once sends (not_flagged idle)⟩

end Pipe

theorem overwrite_whole (buf : Packet) {d : List Byte} (whole : Whole d) :
    (overwrite buf d).toList = d := by
  refine List.ext_getElem (by simpa using whole.symm) fun i left right => ?_
  rw [Vector.getElem_toList, overwrite_get]
  exact (List.getElem_eq_getD _).symm

theorem rxLen_eq_iff {d : List Byte} (small : d.length ≤ 64) :
    BitVec.ofNat 8 d.length = BitVec.ofNat 8 maxFrame ↔ Whole d := by
  rw [BitVec.toNat_eq, BitVec.toNat_ofNat, BitVec.toNat_ofNat]
  unfold Whole maxFrame frameOverhead maxPayload
  omega

section
variable {b : Bus} {given : List (List Byte)} {rx : RxState} {d : List Byte}
  {rest : List (List Byte)}

/-- A report is taken once: a repetition has the other toggle. -/
theorem taken_takeReport (acked : Bool) (autoTog : b.sie.ctrl1.autoTog = true)
    (todo : b.host.todo = d :: rest) :
    (b.takeReport d rest acked).pipe.taken =
      b.pipe.taken ++ if b.host.outTog = b.sie.ctrl1.rTog then [d] else [] := by
  simp only [Pipe.taken, Bus.takeReport, Bus.pipe, autoTog, todo]
  cases tog : b.host.outTog <;> cases tog' : b.sie.ctrl1.rTog <;> cases acked <;>
    simp [tog, todo]

theorem arrived_takeReport (acked : Bool) (small : d.length ≤ 64) :
    (b.takeReport d rest acked).pipe.Arrived ↔ b.host.outTog = b.sie.ctrl1.rTog ∧ Whole d := by
  rw [← rxLen_eq_iff small]
  simp [Pipe.Arrived, Pipe.Flagged, Bus.takeReport, Bus.pipe, Sie.raise]

theorem out_takeReport (acked : Bool) (h : b.pipe.Out given rx)
    (idle : b.sie.fg.transfer = false) (todo : b.host.todo = d :: rest)
    (configured : b.host.configured = true) (ready : b.sie.ctrl1.rRes = .ack)
    (small : d.length ≤ 64) : (b.takeReport d rest acked).pipe.Out given rx := by
  -- the endpoint takes a report only when the last one is through with the core
  have free : rx = .idle := by
    by_contra full
    have nak : b.sie.ctrl1.rRes = .nak := (h.full full).1
    rw [ready] at nak
    cases nak
  subst free
  have idles : RxState.idle ≠ .pending := nofun
  have before : given = b.pipe.taken.filter Whole := by
    have count := h.count
    rwa [Pipe.waiting_eq_nil idles
      (Pipe.not_arrived (p := b.pipe) idle), List.append_nil] at count
  have used : (b.takeReport d rest acked).pipe.configured = true := by
    cases acked <;> exact configured
  refine ⟨h.autoTog, fun _ => ready, fun full => absurd rfl full, ?_, ?_, ?_, ?_⟩
  · rw [taken_takeReport acked h.autoTog todo, List.filter_append, ← before]
    by_cases good : b.host.outTog = b.sie.ctrl1.rTog
    -- a new report that is short is taken off the wire and dropped
    · by_cases whole : Whole d
      · have arrived : (b.takeReport d rest acked).pipe.Arrived :=
          (arrived_takeReport acked small).mpr ⟨good, whole⟩
        have kept : [d].filter Whole = [d] := List.filter_cons_of_pos (by simpa using whole)
        rw [Pipe.waiting, if_pos (.inr arrived), if_pos good, kept]
        exact congrArg (fun x => given ++ [x]) (overwrite_whole b.sie.rx whole)
      · have nothing : ¬ (b.takeReport d rest acked).pipe.Arrived := fun arrived =>
          whole ((arrived_takeReport acked small).mp arrived).2
        have dropped : [d].filter Whole = [] := List.filter_cons_of_neg (by simpa using whole)
        rw [Pipe.waiting_eq_nil idles nothing, if_pos good, dropped]
    -- a repetition has the wrong toggle and counts for nothing
    · have nothing : ¬ (b.takeReport d rest acked).pipe.Arrived := fun arrived =>
        good ((arrived_takeReport acked small).mp arrived).1
      rw [Pipe.waiting_eq_nil idles nothing, if_neg good]
      rfl
  · cases acked with
    | false => exact fun _ => by simp [Bus.pipe, Bus.takeReport, todo]
    | true =>
      intro apart
      refine absurd ?_ apart
      have auto : b.sie.ctrl1.autoTog = true := h.autoTog
      simp only [Bus.pipe, Bus.takeReport, auto]
      cases b.host.outTog <;> cases b.sie.ctrl1.rTog <;> rfl
  · intro rst
    exact absurd ((h.reset rst).symm.trans configured) (by decide)
  · intro unused
    exact absurd (unused.symm.trans used) (by decide)

end

theorem padded_length (resp : List Byte) : (padded resp).length = 64 := by simp [padded]

section
variable {b : Bus} {given : List (List Byte)} {rx : RxState}

theorem pipe_giveReport (acked : Bool) : (b.giveReport acked).pipe = { b.pipe with
    transfer := acked || b.sie.fg.transfer
    isNak := !acked && b.sie.fg.isNak
    st := if acked then ⟨.uisIn, 1, true, false⟩ else b.sie.st
    ctrl := { b.sie.ctrl1 with
      tTog := if acked then b.sie.ctrl1.tTog ^^ b.sie.ctrl1.autoTog else b.sie.ctrl1.tTog }
    got := if b.sie.ctrl1.tTog = b.host.inTog then
        b.host.got ++ [b.sie.tx.toList.take b.sie.tLen1.toNat]
      else b.host.got
    inTog := if b.sie.ctrl1.tTog = b.host.inTog then !b.host.inTog else b.host.inTog } := by
  cases acked <;> by_cases fresh : b.sie.ctrl1.tTog = b.host.inTog <;>
    simp [Bus.giveReport, Bus.pipe, Sie.raise, fresh]
  rw [← fresh]

theorem out_giveReport (acked : Bool) (h : b.pipe.Out given rx) (idle : b.sie.fg.transfer = false)
    (configured : b.host.configured = true) : (b.giveReport acked).pipe.Out given rx := by
  rw [pipe_giveReport]
  have other : ¬ ({ b.pipe with
      transfer := acked || b.sie.fg.transfer
      isNak := !acked && b.sie.fg.isNak
      st := if acked then ⟨.uisIn, 1, true, false⟩ else b.sie.st } : Pipe).Flagged .uisOut := by
    cases acked with
    | false => exact Pipe.not_flagged (by simp [idle])
    | true => exact fun flagged => absurd flagged.2.2.1 (by simp)
  refine ⟨h.autoTog, h.ready, fun full => ⟨(h.full full).1, fun arrived => other arrived.1⟩, ?_,
    h.more, h.reset, fun unused => absurd (unused.symm.trans configured) (by decide)⟩
  have waiting (q : Pipe) (buf : q.rx = b.sie.rx) (apart : ¬ q.Flagged .uisOut) :
      q.waiting rx = b.pipe.waiting rx :=
    Pipe.waiting_congr buf ⟨fun arrived => absurd arrived.1 apart,
      fun arrived => absurd arrived (Pipe.not_arrived (p := b.pipe) idle)⟩
  exact (congrArg (given ++ ·) (waiting _ rfl other)).trans h.count

theorem in_giveReport {txBusy : Bool} {phase : Pipe.Phase} (acked : Bool)
    (h : b.pipe.In txBusy phase) (idle : b.sie.fg.transfer = false)
    (sends : b.sie.ctrl1.tRes = .ack) : (b.giveReport acked).pipe.In txBusy phase := by
  cases phase with
  | quiet before =>
    exact absurd (sends.symm.trans h.1) nofun
  | armed before x =>
    obtain ⟨configured, nak, tx, tLen, got, drained, once⟩ := h
    have once := once sends (Pipe.not_flagged (p := b.pipe) idle)
    have sent : b.sie.tx.toList.take b.sie.tLen1.toNat = x := by
      rw [show b.sie.tLen1 = _ from tLen, show b.sie.tx.toList = x from tx]
      refine List.take_of_length_le ?_
      rw [← tx]
      simp [maxFrame, frameOverhead, maxPayload]
    rw [pipe_giveReport, sent]
    refine ⟨configured, nak, tx, tLen, ?_, drained, ?_⟩
    · by_cases fresh : b.sie.ctrl1.tTog = b.host.inTog
      · rw [if_pos fresh]
        exact (once fresh).append_right [x]
      · rw [if_neg fresh]
        exact got
    · intro _ unflagged stale
      cases acked with
      | true => exact absurd ⟨rfl, rfl, rfl, rfl⟩ unflagged
      | false =>
        by_cases fresh : b.sie.ctrl1.tTog = b.host.inTog
        · simp [fresh] at stale
        · simp [fresh] at stale

end

/-! ### Both endpoints -/

/-- Between any two accesses: `given` was given to the core, `phase` is where `tr_send` is, and
    `all` is what the host means to send. -/
structure Bus.Serves (b : Bus) (T : Board) (serial : List Byte) (all given : List (List Byte))
    (phase : Pipe.Phase) (r : Statics) : Prop where
  sound : b.control.Sound T serial r
  /-- A halt is cleared before endpoint 1 is used. -/
  calm : b.control.Flagged → b.sie.st.token = .uisSetup → ∀ s, b.host.setups.getLast? = some s →
    s.Restarts 0x01 ∨ s.Restarts 0x81 → b.host.configured = false
  out : b.pipe.Out given r.rxState
  inward : b.pipe.In r.txBusy phase
  all : b.host.sent ++ b.host.todo = all

variable {T : Board} {serial : List Byte} {all given : List (List Byte)} {phase : Pipe.Phase}
  {r : Statics} {b : Bus}

theorem in_takeReport {txBusy : Bool} {d : List Byte} {rest : List (List Byte)} (acked : Bool)
    (h : b.pipe.In txBusy phase) (idle : b.sie.fg.transfer = false) :
    (b.takeReport d rest acked).pipe.In txBusy phase := by
  cases phase with
  | quiet before => cases acked <;> exact h
  | armed before x =>
    obtain ⟨configured, nak, tx, tLen, got, drained, once⟩ := h
    have once := fun sends => once sends (Pipe.not_flagged (p := b.pipe) idle)
    cases acked <;> exact ⟨configured, nak, tx, tLen, got, drained, fun sends _ => once sends⟩

/-- Which toggle a host that waits for no report expects does not matter. -/
theorem Pipe.Out.inTog {p : Pipe} {rx : RxState} (h : p.Out given rx) (tog : Bool) :
    ({ p with inTog := tog } : Pipe).Out given rx :=
  ⟨h.autoTog, h.ready, h.full, h.count, h.more, h.reset, fun unused =>
    have was := h.untouched unused
    ⟨was.idle, was.outTog, was.rTog, was.sent, was.got, was.noOut, was.noIn⟩⟩

theorem out_reset {rx : RxState} (h : b.pipe.Out given rx) (unused : b.host.configured = false) :
    b.reset.pipe.Out given rx := by
  have was := h.untouched unused
  have outTog : b.host.outTog = false := was.outTog
  have same : b.reset.pipe = { b.pipe with
      busRst := true, outTog := b.host.outTog, inTog := false, configured := b.host.configured } := by
    rw [outTog, unused]
    rfl
  rw [same]
  exact ⟨h.autoTog, h.ready, h.full, h.count, h.more, fun _ => unused, fun _ =>
    ⟨was.idle, was.outTog, was.rTog, was.sent, was.got, was.noOut, was.noIn⟩⟩

theorem pipe_takeSetup {rx : RxState} {s : Setup} (h : b.pipe.Out given rx)
    (calm : s.Restarts 0x01 ∨ s.Restarts 0x81 → b.host.configured = false) :
    (b.takeSetup s).pipe = { b.pipe.elsewhere ⟨.uisSetup, 0, true, true⟩ false 8 with
      inTog := b.host.inTog && !decide (s.Restarts 0x81) } := by
  have outTog : (b.host.outTog && !decide (s.Restarts 0x01)) = b.host.outTog := by
    by_cases restarts : s.Restarts 0x01
    · have zero : b.host.outTog = false := (h.untouched (calm (.inl restarts))).outTog
      rw [zero]
      rfl
    · rw [decide_eq_false restarts, Bool.not_false, Bool.and_true]
  unfold Bus.pipe
  simp only [Bus.takeSetup, Host.ask, Sie.raise, outTog]
  rfl

theorem in_takeSetup {txBusy : Bool} {s : Setup} (h : b.pipe.In txBusy phase)
    (calm : s.Restarts 0x01 ∨ s.Restarts 0x81 → b.host.configured = false)
    (idle : b.sie.fg.transfer = false) :
    ({ b.pipe.elsewhere ⟨.uisSetup, 0, true, true⟩ false 8 with
      inTog := b.host.inTog && !decide (s.Restarts 0x81) } : Pipe).In txBusy phase := by
  cases phase with
  | quiet before => exact h
  | armed before x =>
    have same : (b.host.inTog && !decide (s.Restarts 0x81)) = b.host.inTog := by
      have unmoved : ¬ s.Restarts 0x81 := fun restarts =>
        absurd (h.1.symm.trans (calm (.inr restarts))) (by decide)
      rw [decide_eq_false unmoved, Bool.not_false, Bool.and_true]
    rw [same]
    exact h.elsewhere idle

theorem serves_stable (T : Board) (serial : List Byte) (all given : List (List Byte))
    (phase : Pipe.Phase) (r : Statics) :
    (bus Calm).Stable fun b => b.Serves T serial all given phase r := by
  rintro b b' happened h
  have sound := sound_stable T serial r b b' happened h.sound
  obtain ⟨a, calm, act⟩ := happened
  have idle (free : b.sie.free = true) : b.sie.fg.transfer = false :=
    Sie.transfer_of_free h.sound.kept.busy free
  have zero : (0 : BitVec 4) ≠ 1 := by decide
  have outward {P : Prop} (is : Token.uisOut = .uisSetup) : P := absurd is (by decide)
  have inward {P : Prop} (is : Token.uisIn = .uisSetup) : P := absurd is (by decide)
  cases Bus.happens act with
  -- a host that is calm starts nothing over once it uses the endpoint
  | @setup s free =>
    refine ⟨sound, fun _ _ t last => ?_, ?_, ?_, h.all⟩
    · obtain rfl := Option.some.inj (List.getLast?_concat.symm.trans last)
      exact calm
    · rw [pipe_takeSetup h.out calm]
      exact (h.out.elsewhere (idle free) (.inr zero)).inTog _
    · rw [pipe_takeSetup h.out calm]
      exact in_takeSetup h.inward calm (idle free)
  | out0 free ready small =>
    exact ⟨sound, fun _ => outward, h.out.elsewhere (idle free) (.inr zero),
      h.inward.elsewhere (idle free), h.all⟩
  -- endpoint 0 shares the flag with endpoint 1, and nothing else
  | @in0 acked free ready =>
    cases acked with
    | false => exact ⟨sound, h.calm, h.out, h.inward, h.all⟩
    | true =>
      exact ⟨sound, fun _ => inward, h.out.elsewhere (idle free) (.inr zero),
        h.inward.elsewhere (idle free), h.all⟩
  | @out1 acked d rest todo free configured ready small =>
    refine ⟨sound, fun _ => outward,
      out_takeReport acked h.out (idle free) todo configured ready small,
      in_takeReport acked h.inward (idle free), ?_⟩
    cases acked with
    | false => exact h.all
    | true => simpa [Bus.takeReport, todo] using h.all
  | @in1 acked free configured ready =>
    have host : (b.giveReport acked).host = { b.host with
        got := (b.giveReport acked).host.got, inTog := (b.giveReport acked).host.inTog } := by
      by_cases fresh : b.sie.ctrl1.tTog = b.host.inTog <;> simp [Bus.giveReport, fresh]
    refine ⟨sound, ?_, out_giveReport acked h.out (idle free) configured,
      in_giveReport acked h.inward (idle free) ready, ?_⟩
    · cases acked with
      | false => exact fun flagged => absurd (flagged.1.symm.trans (idle free)) (by decide)
      | true => exact fun _ => inward
    · rw [host]
      exact h.all
  | refused free =>
    exact ⟨sound, fun flagged => absurd flagged.2.1 Bool.noConfusion,
      h.out.elsewhere (idle free) (.inl rfl), h.inward.elsewhere (idle free), h.all⟩
  -- only before endpoint 1 is used; no response is armed then
  | busReset live =>
    refine ⟨sound, fun _ _ _ _ _ => rfl, out_reset h.out calm, ?_, h.all⟩
    cases phase with
    | quiet before => exact h.inward
    | armed before x =>
      have unused : b.host.configured = false := calm
      exact absurd (unused.symm.trans h.inward.1) (by decide)
  | configure free clear =>
    refine ⟨sound, fun flagged => absurd (flagged.1.symm.trans (idle free)) (by decide),
      ⟨h.out.autoTog, h.out.ready, h.out.full, h.out.count, h.out.more,
        fun rst => absurd (clear.symm.trans rst) (by decide),
        fun unset => absurd unset.symm Bool.false_ne_true⟩, ?_, h.all⟩
    cases phase with
    | quiet before => exact h.inward
    | armed before x => exact ⟨rfl, h.inward.2⟩
  | other => exact ⟨sound, h.calm, h.out, h.inward, h.all⟩

/-! ### The pump -/

def Pipe.lower (p : Pipe) : Pipe := { p with transfer := false }

@[simp] theorem pipe_lower (b : Bus) : b.lower.pipe = b.pipe.lower := by
  simp [Bus.lower, Bus.access, Sie.access, Bus.pipe, Pipe.lower, IntFg.clear, onlyTransfer]

theorem Pipe.Out.lower {p : Pipe} {rx : RxState} (h : p.Out given rx) (nothing : ¬ p.Arrived) :
    p.lower.Out given rx where
  autoTog := h.autoTog
  ready := h.ready
  full := fun full => ⟨(h.full full).1, Pipe.not_arrived rfl⟩
  count := by
    have same : p.lower.waiting rx = p.waiting rx :=
      Pipe.waiting_congr rfl ⟨fun arrived => absurd arrived (Pipe.not_arrived rfl),
        fun arrived => absurd arrived nothing⟩
    rw [same]
    exact h.count
  more := h.more
  reset := h.reset
  untouched := fun unused =>
    have was := h.untouched unused
    ⟨was.idle, was.outTog, was.rTog, was.sent, was.got, Pipe.not_flagged rfl, Pipe.not_flagged rfl⟩

theorem Pipe.In.lower {p : Pipe} {txBusy : Bool} (h : p.In txBusy phase)
    (nothing : ¬ p.Flagged .uisIn) : p.lower.In txBusy phase := by
  cases phase with
  | quiet before => exact h
  | armed before x =>
    obtain ⟨configured, nak, tx, tLen, got, drained, once⟩ := h
    exact ⟨configured, nak, tx, tLen, got, drained, fun sends _ => once sends nothing⟩

theorem Pipe.Out.receive {p : Pipe} {rx : RxState} (h : p.Out given rx) (arrived : p.Arrived) :
    ({ p with ctrl := p.ctrl.setR .nak } : Pipe).lower.Out given .pending := by
  have idle : rx = .idle := by
    by_contra full
    exact (h.full full).2 arrived
  subst idle
  refine ⟨h.autoTog, nofun, fun _ => ⟨rfl, Pipe.not_arrived rfl⟩, ?_, h.more, h.reset, ?_⟩
  · rw [Pipe.waiting_pending]
    have count := h.count
    rwa [Pipe.waiting, if_pos (.inr arrived)] at count
  · exact fun unused => absurd arrived.1 (h.untouched unused).noOut

theorem Pipe.In.drain {p : Pipe} {txBusy : Bool} (h : p.In txBusy phase) :
    ({ p with ctrl := p.ctrl.setT .nak } : Pipe).lower.In false phase := by
  cases phase with
  | quiet before => exact ⟨rfl, h.2⟩
  | armed before x =>
    obtain ⟨configured, nak, tx, tLen, got, -, -⟩ := h
    exact ⟨configured, nak, tx, tLen, got, fun _ => rfl, nofun⟩

theorem Pipe.Out.inward {p : Pipe} {rx : RxState} (h : p.Out given rx) (tx : Packet) (tLen : Byte)
    (tTog : Bool) (tRes : Handshake) : ({ p with
      tx := tx, tLen := tLen, ctrl := { p.ctrl with tTog := tTog, tRes := tRes } } : Pipe).Out
        given rx :=
  ⟨h.autoTog, h.ready, h.full, h.count, h.more, h.reset, fun unused =>
    have was := h.untouched unused
    ⟨was.idle, was.outTog, was.rTog, was.sent, was.got, was.noOut, was.noIn⟩⟩

theorem Pipe.In.setR {p : Pipe} {txBusy : Bool} (h : p.In txBusy phase) :
    ({ p with ctrl := p.ctrl.setR .nak } : Pipe).In txBusy phase := by
  cases phase with
  | quiet before => exact h
  | armed before x =>
    obtain ⟨configured, -, rest⟩ := h
    exact ⟨configured, rfl, rest⟩

theorem alone_host {A : Type} {allowed : Host → Act → Prop} (p : Code A) (r : Statics) (b : Bus) :
    ((bus allowed).alone p r b).2.2.host = b.host := by
  induction p generalizing r b with
  | done a => rfl
  | load k ih => exact ih r r b
  | store r₁ p ih => exact ih r₁ b
  | call op k ih => exact ih _ r _

theorem Pipe.Out.halts {p : Pipe} {rx : RxState} {s : Setup} {c : EpCtrl} (h : p.Out given rx)
    (calm : s.Restarts 0x01 ∨ s.Restarts 0x81 → p.configured = false) (halts : s.Halts p.ctrl c) :
    ({ p with ctrl := c } : Pipe).Out given rx := by
  rcases halts with rfl | ⟨-, rfl⟩ | ⟨clears, rfl⟩
  · exact h
  · exact h.inward p.tx p.tLen false .nak
  · have was := h.untouched (calm (.inl (.inr clears)))
    have same : ({ p with ctrl := { p.ctrl with rTog := false, rRes := .ack } } : Pipe) =
        { p with ctrl := { p.ctrl with rRes := .ack } } := by simp only [was.rTog]
    rw [same]
    exact ⟨h.autoTog, fun _ => rfl, fun full => absurd was.idle full, h.count, h.more, h.reset, fun _ =>
      ⟨was.idle, was.outTog, was.rTog, was.sent, was.got, was.noOut, was.noIn⟩⟩

theorem Pipe.In.halts {p : Pipe} {txBusy : Bool} {s : Setup} {c : EpCtrl} (h : p.In txBusy phase)
    (calm : s.Restarts 0x01 ∨ s.Restarts 0x81 → p.configured = false) (halts : s.Halts p.ctrl c) :
    ({ p with ctrl := c } : Pipe).In txBusy phase := by
  rcases halts with rfl | ⟨clears, rfl⟩ | ⟨clears, rfl⟩
  · exact h
  · cases phase with
    | quiet before => exact ⟨rfl, h.2⟩
    | armed before x => exact absurd (h.1.symm.trans (calm (.inr (.inr clears)))) (by decide)
  · cases phase with
    | quiet before => exact h
    | armed before x => exact absurd (h.1.symm.trans (calm (.inl (.inr clears)))) (by decide)

/-- What a SETUP packet means for endpoint 1. -/
theorem setup_pipe {fg : IntFg} (h : b.Serves T serial all given phase r)
    (flagged : b.control.Flagged) (token : b.sie.st.token = .uisSetup) :
    ((bus Calm).alone (transferEvent T fg) r b).2.2.pipe.lower.Out given
        ((bus Calm).alone (transferEvent T fg) r b).2.1.rxState ∧
      ((bus Calm).alone (transferEvent T fg) r b).2.2.pipe.lower.In
        ((bus Calm).alone (transferEvent T fg) r b).2.1.txBusy phase := by
  obtain ⟨act, s, buf, last, packet⟩ := h.sound.setup flagged token
  have short : r.strSerial.length ≤ 64 := h.sound.kept.uid ▸ h.sound.kept.short
  rw [alone_transferEvent_setup T fg r b token act, alone_ep0Setup s buf r b packet]
  have handled := @alone_respond Calm T s r b short
  generalize (bus Calm).alone (respond T s.bm s.rq s.vl s.vh s.ixl s.wlen) r b = out
    at handled ⊢
  obtain ⟨⟨⟩, r', b'⟩ := out
  obtain ⟨statics, -, -, same, halt, -⟩ := handled
  simp only at statics same halt ⊢
  have pipe : b'.pipe = { b.pipe with ctrl := b'.sie.ctrl1 } := by
    rw [same]
    rfl
  have calm := h.calm flagged token s last
  have apart (other : Token) : ¬ b.pipe.Flagged other := fun flagged' =>
    absurd (flagged.2.2.1.symm.trans flagged'.2.2.2) (by decide)
  rw [pipe, statics]
  exact ⟨(h.out.halts calm halt).lower fun arrived => apart _ arrived.1,
    (h.inward.halts calm halt).lower (apart _)⟩

theorem transferEvent_pipe {fg : IntFg} (h : b.Serves T serial all given phase r)
    (up : b.sie.fg.transfer = true) (nak : fg.isNak = b.sie.fg.isNak) :
    ((bus Calm).alone (transferEvent T fg) r b).2.2.pipe.lower.Out given
        ((bus Calm).alone (transferEvent T fg) r b).2.1.rxState ∧
      ((bus Calm).alone (transferEvent T fg) r b).2.2.pipe.lower.In
        ((bus Calm).alone (transferEvent T fg) r b).2.1.txBusy phase := by
  by_cases setup : b.control.Flagged ∧ b.sie.st.token = .uisSetup
  · exact setup_pipe h setup.1 setup.2
  have act : b.sie.st.setupAct = false := h.sound.plain up setup
  -- two transactions concern the reports: one taken from the host and one given to it
  have untouched (nothing : ∀ other, b.pipe.Flagged other → other ≠ .uisOut ∧ other ≠ .uisIn) :
      b.pipe.lower.Out given r.rxState ∧ b.pipe.lower.In r.txBusy phase :=
    ⟨h.out.lower fun arrived => (nothing _ arrived.1).1 rfl,
      h.inward.lower fun flagged => (nothing _ flagged).2 rfl⟩
  rw [alone_transferEvent T fg r b act]
  by_cases passes : b.sie.st.token ≠ .uisSetup ∧ ¬ fg.isNak = true
  · have isNak : b.sie.fg.isNak = false := by simpa [nak] using passes.2
    have only (other : Token) (flagged : b.pipe.Flagged other) : other = b.sie.st.token :=
      flagged.2.2.1.symm
    rw [if_pos passes, alone_transferred]
    split_ifs with drained arrived good stage address out
    · refine ⟨(h.out.lower fun arrived => ?_).inward _ _ _ .nak, h.inward.drain⟩
      exact absurd (arrived.1.2.2.1.symm.trans drained.1) nofun
    · refine ⟨h.out.receive ⟨⟨up, isNak, arrived.1, arrived.2⟩, good⟩,
        (h.inward.lower fun flagged => ?_).setR⟩
      exact absurd (flagged.2.2.1.symm.trans arrived.1) nofun
    · exact ⟨h.out.lower fun took => good took.2,
        h.inward.lower fun flagged => absurd (flagged.2.2.1.symm.trans arrived.1) nofun⟩
    · exact untouched fun _ flagged => absurd (flagged.2.2.2.symm.trans stage.2) (by decide)
    · exact untouched fun _ flagged => absurd (flagged.2.2.2.symm.trans stage.2) (by decide)
    · exact untouched fun _ flagged => absurd (flagged.2.2.2.symm.trans out.2) (by decide)
    · refine untouched fun other flagged => ⟨fun is => ?_, fun is => ?_⟩
      · exact arrived ⟨flagged.2.2.1.trans is, flagged.2.2.2⟩
      · exact drained ⟨flagged.2.2.1.trans is, flagged.2.2.2⟩
  · rw [if_neg passes]
    have unseen {other : Token} (flagged : b.pipe.Flagged other) : ¬ other ≠ .uisSetup :=
      fun some => passes ⟨fun token => some (flagged.2.2.1.symm.trans token),
        by rw [nak, show b.sie.fg.isNak = false from flagged.2.1]; decide⟩
    exact untouched fun other flagged =>
      ⟨fun is => unseen flagged (is ▸ nofun), fun is => unseen flagged (is ▸ nofun)⟩

structure Bus.Seen (b : Bus) (T : Board) (serial : List Byte) (all given : List (List Byte))
    (phase : Pipe.Phase) (r : Statics) : Prop where
  held : b.Held
  lowered : b.lower.Serves T serial all given phase r

theorem seen_stable (T : Board) (serial : List Byte) (all given : List (List Byte))
    (phase : Pipe.Phase) (r : Statics) :
    (bus Calm).Stable fun b => b.Seen T serial all given phase r :=
  fun b b' happened h => ⟨(held_off Calm).stable b b' happened h.held,
    serves_stable T serial all given phase r _ _ (h.held.lower happened) h.lowered⟩

theorem transferEvent_seen {fg : IntFg} (h : b.Serves T serial all given phase r)
    (up : b.sie.fg.transfer = true) (nak : fg.isNak = b.sie.fg.isNak) :
    ((bus Calm).alone (transferEvent T fg) r b).2.2.Seen T serial all given phase
      ((bus Calm).alone (transferEvent T fg) r b).2.1 := by
  have settled := @transferEvent_settles Calm T serial r b fg h.sound up nak
  have host := @alone_host _ Calm (transferEvent T fg) r b
  obtain ⟨out, inward⟩ := transferEvent_pipe h up nak
  refine ⟨settled.held, settled.lowered, fun flagged => ?_, pipe_lower _ ▸ out,
    pipe_lower _ ▸ inward, host ▸ h.all⟩
  rw [control_lower] at flagged
  exact absurd flagged (Control.not_flagged rfl)

theorem triple_serves {op : SieOp} (keeps : ∀ (r : Statics) (b : Bus),
      b.Serves T serial all given phase r → (b.access op).2.Serves T serial all given phase r) :
    (bus Calm).Triple (fun r b => b.Serves T serial all given phase r) (reg op)
      (fun _ r b => b.Serves T serial all given phase r) :=
  triple_reg (serves_stable T serial all given phase) keeps

theorem Pipe.Out.cleared {p : Pipe} {rx : RxState} (h : p.Out given rx) (keep : Bool) :
    ({ p with busRst := p.busRst && keep } : Pipe).Out given rx :=
  ⟨h.autoTog, h.ready, h.full, h.count, h.more, fun rst => h.reset (Bool.and_eq_true_iff.mp rst).1,
    fun unused =>
      have was := h.untouched unused
      ⟨was.idle, was.outTog, was.rTog, was.sent, was.got, was.noOut, was.noIn⟩⟩

theorem Bus.Serves.clearFg (h : b.Serves T serial all given phase r) {r' : Statics} (mask : IntFg)
    (sound : (b.access (.clearFg mask)).2.control.Sound T serial r')
    (same : r'.rxState = r.rxState ∧ r'.txBusy = r.txBusy) (keeps : mask.transfer = false) :
    (b.access (.clearFg mask)).2.Serves T serial all given phase r' := by
  have pipe : (b.access (.clearFg mask)).2.pipe = { b.pipe with
      busRst := b.pipe.busRst && !mask.busRst } := by
    simp [Bus.access, Sie.access, Bus.pipe, IntFg.clear, keeps]
  refine ⟨sound, fun flagged => h.calm ⟨?_, flagged.2⟩, pipe ▸ same.1 ▸ h.out.cleared _, ?_, h.all⟩
  · have up : (b.sie.fg.transfer && !mask.transfer) = true := flagged.1
    exact (Bool.and_eq_true_iff.mp up).1
  · rw [pipe, same.2]
    cases phase <;> exact h.inward

/-- Endpoint 1 is reset to what it was: the bus reset came before it was used. -/
theorem Bus.Serves.ep1 (h : b.Serves T serial all given phase r) (rst : b.sie.fg.busRst = true) :
    (b.access (.setCtrl .ep1 ctrl1Reset)).2.Serves T serial all given phase r := by
  have unused : b.host.configured = false := h.out.reset rst
  have was := h.out.untouched unused
  refine ⟨h.sound, h.calm, ⟨rfl, fun _ => rfl, fun full => absurd was.idle full, ?_, ?_, h.out.reset,
    fun _ => ⟨was.idle, was.outTog, rfl, was.sent, was.got, was.noOut, was.noIn⟩⟩, ?_, h.all⟩
  · have taken : (b.access (.setCtrl .ep1 ctrl1Reset)).2.pipe.taken = b.pipe.taken := by
      have rTog : b.sie.ctrl1.rTog = false := was.rTog
      simp only [Pipe.taken, Bus.pipe, rTog]
      rfl
    rw [taken]
    exact h.out.count
  · intro apart
    exact absurd (was.outTog : b.host.outTog = false) apart
  · cases phase with
    | quiet before => exact ⟨rfl, h.inward.2⟩
    | armed before x => exact absurd (unused.symm.trans h.inward.1) (by decide)

theorem Bus.Serves.statics (h : b.Serves T serial all given phase r) (rst : b.sie.fg.busRst = true) :
    b.Serves T serial all given phase { r with rxState := .idle, txBusy := false } := by
  have unused : b.host.configured = false := h.out.reset rst
  have idle : r.rxState = .idle := (h.out.untouched unused).idle
  refine ⟨h.sound.statics .idle false, h.calm, idle ▸ h.out, ?_, h.all⟩
  cases phase with
  | quiet before => exact h.inward
  | armed before x => exact absurd (unused.symm.trans h.inward.1) (by decide)

/-- Whenever it runs, the pump keeps both endpoints serving. -/
theorem usbProcess_serves : (bus Calm).Triple (fun r b => b.Serves T serial all given phase r)
    (usbProcess T) (fun _ r b => b.Serves T serial all given phase r) := by
  have stable := serves_stable T serial all given phase
  refine .via (fun fg r b => b.Serves T serial all given phase r ∧
      (fg.transfer = true → b.sie.fg.transfer = true ∧ fg.isNak = b.sie.fg.isNak) ∧
      (fg.busRst = true → b.sie.fg.busRst = true)) ?_ fun fg => ?_
  · exact triple_reg stable fun r b h => ⟨h, fun up => ⟨up, rfl⟩, id⟩
  refine .ite (fun up => ?_) fun down => .ite (fun rst => ?_) fun calm => ?_
  · refine .via (fun _ r b => b.Seen T serial all given phase r) ?_ fun _ => ?_
    · exact .alone (held_off Calm) (quiet_transferEvent T fg)
        (fun r b h => ⟨h.1.sound.kept.busy, (h.2.1 up).1⟩)
        (fun _ r => seen_stable T serial all given phase r)
        fun r b h => transferEvent_seen h.1 (h.2.1 up).1 (h.2.1 up).2
    · exact triple_reg (seen_stable T serial all given phase) fun r b h => h.lowered
  · refine .weaken (reset_keeps stable ?_ ?_ (fun _ _ h rst => h.ep1 rst)
      (fun _ _ h rst => h.statics rst) fun r b h reset => ?_)
      (fun r b h => ⟨h.1, h.2.2 rst⟩) fun _ _ _ h => h
    · exact fun r b h rst => ⟨h.sound.unaddressed rst, h.calm, h.out, h.inward, h.all⟩
    · exact fun r b h => ⟨h.sound.silenced, h.calm, h.out, h.inward, h.all⟩
    · obtain ⟨config, before⟩ := h.before
      exact before.clearFg onlyBusRst (h.forgets before.sound reset) ⟨rfl, rfl⟩ rfl
  · refine .weaken (.ite (fun _ => ?_) fun _ => .pure fun _ _ h => h) (fun _ _ h => h.1)
      fun _ _ _ h => h
    have keeps : fg.transfer = false := by simpa using down
    refine triple_reg stable fun r b h => h.clearFg fg ?_ ⟨rfl, rfl⟩ keeps
    rw [control_clearFg fg keeps (by simpa using calm)]
    exact h.sound

/-! ### Receiving -/

section
variable {before : List (List Byte)}

def Bus.Holds (b : Bus) (T : Board) (serial : List Byte) (all given : List (List Byte))
    (phase : Pipe.Phase) (x : List Byte) (r : Statics) : Prop :=
  b.Serves T serial all given phase r ∧ r.rxState = .withCore ∧ b.sie.rx.toList = x

theorem holds_stable (T : Board) (serial : List Byte) (all given : List (List Byte))
    (phase : Pipe.Phase) (x : List Byte) (r : Statics) :
    (bus Calm).Stable fun b => b.Holds T serial all given phase x r := by
  rintro b b' happened ⟨h, state, rx⟩
  refine ⟨serves_stable T serial all given phase r b b' happened h, state, ?_⟩
  have nak : b.sie.ctrl1.rRes = .nak := (h.out.full (by rw [state]; nofun)).1
  obtain ⟨a, -, act⟩ := happened
  cases Bus.happens act with
  | @in0 acked => cases acked <;> exact rx
  | @in1 acked => cases acked <;> exact rx
  | out1 _ _ _ ready => exact absurd (nak.symm.trans ready) nofun
  | setup | out0 | refused | busReset | configure | other => exact rx

/-- Between taking the report back from the core and telling the host. -/
structure Bus.Released (b : Bus) (T : Board) (serial : List Byte) (all given : List (List Byte))
    (before : List (List Byte)) (r : Statics) : Prop where
  idle : r.rxState = .idle
  held : b.Serves T serial all given (.quiet before) { r with rxState := .withCore }

theorem released_stable (T : Board) (serial : List Byte) (all given : List (List Byte))
    (before : List (List Byte)) (r : Statics) :
    (bus Calm).Stable fun b => b.Released T serial all given before r := by
  rintro b b' happened h
  exact ⟨h.idle, serves_stable T serial all given _ _ b b' happened h.held⟩

/-- While it takes and gives no reports, nothing but the pump changes the endpoint. -/
theorem ctrl1_unchanged {b' : Bus} {allowed : Host → Act → Prop} (happened : (bus allowed).acts b b')
    (out : b.sie.ctrl1.rRes = .nak) (inward : b.sie.ctrl1.tRes = .nak) :
    b'.sie.ctrl1 = b.sie.ctrl1 := by
  obtain ⟨a, -, act⟩ := happened
  cases Bus.happens act with
  | @in0 acked => cases acked <;> rfl
  | out1 _ _ _ ready => exact absurd (out.symm.trans ready) nofun
  | in1 _ _ sends => exact absurd (inward.symm.trans sends) nofun
  | setup | out0 | refused | busReset | configure | other => rfl

theorem Bus.Released.handBack (h : b.Released T serial all given before r) :
    (b.access (.setCtrl .ep1 (b.sie.ctrl1.setR .ack))).2.Serves T serial all given
      (.quiet before) r := by
  obtain ⟨idle, held⟩ := h
  have nothing : ¬ b.pipe.Arrived := (held.out.full nofun).2
  have count : given = b.pipe.taken.filter Whole := by
    have count := held.out.count
    rwa [Pipe.waiting_eq_nil (show RxState.withCore ≠ .pending from nofun) nothing,
      List.append_nil] at count
  refine ⟨?_, held.calm, ⟨held.out.autoTog, fun _ => rfl, fun full => absurd idle full, ?_,
    held.out.more, held.out.reset, fun unused => ?_⟩, held.inward, held.all⟩
  · have sound := held.sound.statics .idle r.txBusy
    rw [← idle] at sound
    exact sound
  · have waiting : (b.access (.setCtrl .ep1 (b.sie.ctrl1.setR .ack))).2.pipe.waiting .idle = [] :=
      Pipe.waiting_eq_nil nofun nothing
    rw [idle, waiting]
    exact (List.append_nil given).trans count
  · exact absurd (held.out.untouched unused).idle nofun

theorem Bus.Serves.handOver (h : b.Serves T serial all given phase r)
    (waits : r.rxState = .pending) :
    b.Serves T serial all (given ++ [b.sie.rx.toList]) phase { r with rxState := .withCore } := by
  obtain ⟨nak, nothing⟩ := h.out.full (by rw [waits]; nofun)
  have waiting : b.pipe.waiting .withCore = [] := Pipe.waiting_eq_nil nofun nothing
  refine ⟨h.sound.statics .withCore r.txBusy, h.calm, ⟨h.out.autoTog, nofun, fun _ => ⟨nak, nothing⟩,
    ?_, h.out.more, h.out.reset, fun unused => ?_⟩, h.inward, h.all⟩
  · have count := h.out.count
    rw [waits, Pipe.waiting_pending] at count
    rw [waiting, List.append_nil]
    exact count
  · have idle := (h.out.untouched unused).idle
    rw [waits] at idle
    cases idle

theorem triple_guarded {c : Prop} [Decidable c] {p : Code Unit} {pre : Statics → Bus → Prop}
    {post : Unit → Statics → Bus → Prop} (yes : c → (bus Calm).Triple pre p post)
    (no : ¬ c → ∀ r b, pre r b → post () r b) : (bus Calm).Triple pre (guarded c p) post :=
  .ite yes fun not => .pure (no not)

/-- A report comes with the bytes that stay in the buffer, and the core has it once. -/
theorem trPoll_serves :
    (bus Calm).Triple (fun r b => b.Serves T serial all given (.quiet before) r) (trPoll T)
      (fun out r b => match out with
        | none => b.Serves T serial all given (.quiet before) r
        | some avail => avail = 64 ∧
          ∃ x, b.Holds T serial all (given ++ [x]) (.quiet before) x r) := by
  refine .via (fun s r b => s = r ∧ b.Serves T serial all given (.quiet before) r)
    (.get fun r b h => ⟨rfl, h⟩) fun s => ?_
  refine .via (fun _ r b => b.Serves T serial all given (.quiet before) r) ?_ fun _ =>
    .via (fun _ r b => b.Serves T serial all given (.quiet before) r) usbProcess_serves fun _ =>
      .via (fun s r b => s = r ∧ b.Serves T serial all given (.quiet before) r)
        (.get fun r b h => ⟨rfl, h⟩) fun s => ?_
  -- the core is through with the last report: the endpoint may take the next
  · refine triple_guarded (fun core => ?_) fun _ _ _ h => h.2
    refine .via (fun _ r b => b.Released T serial all given before r) (.modify fun r b h => ?_)
      fun _ => ?_
    · obtain ⟨rfl, h⟩ := h
      exact ⟨rfl, core ▸ h⟩
    refine .via (fun c r b => b.Released T serial all given before r ∧ c = b.sie.ctrl1) ?_ fun c => ?_
    · exact triple_reg (released_stable T serial all given before) fun r b h => ⟨h, rfl⟩
    · refine triple_reg (fun r b b' happened h => ?_) fun r b h => ?_
      · refine ⟨released_stable T serial all given before r b b' happened h.1, h.2.trans ?_⟩
        exact (ctrl1_unchanged happened (h.1.held.out.full nofun).1 h.1.held.inward.1).symm
      · obtain ⟨h, rfl⟩ := h
        exact h.handBack
  · refine .ite (fun waits => ?_) fun _ => .pure fun r b h => h.2
    refine .via (fun _ r b => ∃ x, b.Holds T serial all (given ++ [x]) (.quiet before) x r)
      (.modify fun r b h => ?_) fun _ => .pure fun r b h => ⟨rfl, h⟩
    obtain ⟨rfl, h⟩ := h
    exact ⟨_, h.handOver waits, rfl, rfl⟩

theorem readAll_serves {x : List Byte} (is : List (Fin 64)) :
    (bus Calm).Triple (fun r b => b.Holds T serial all given phase x r) (readAll is)
      (fun bytes r b => b.Holds T serial all given phase x r ∧
        bytes = is.map fun i : Fin 64 => x.getD i 0) := by
  induction is with
  | nil => exact .pure fun r b h => ⟨h, rfl⟩
  | cons i is ih =>
    refine .via (fun byte r b => b.Holds T serial all given phase x r ∧ byte = x.getD i 0) ?_
      fun byte => .bind (.frame fun _ => ih) fun bytes => .pure fun r b h => ⟨h.1.1, ?_⟩
    · refine triple_reg (holds_stable T serial all given phase x) fun r b h => ⟨h, ?_⟩
      obtain ⟨-, -, rx⟩ := h
      rw [← rx]
      simp [Bus.access, Sie.access]
    · rw [h.2, h.1.2]
      rfl

theorem map_finRange {x : List Byte} (whole : Whole x) :
    ((List.finRange 64).take 64).map (fun i : Fin 64 => x.getD i 0) = x := by
  refine List.ext_getElem (by simpa using whole.symm) fun i left right => ?_
  simp at left
  simp [right]

theorem readReport_serves {x : List Byte} :
    (bus Calm).Triple (fun r b => b.Holds T serial all given phase x r) (readReport 64)
      (fun bytes r b => b.Holds T serial all given phase x r ∧ bytes = x) :=
  .weaken (readAll_serves _) (fun _ _ h => h) fun bytes r b h => by
    have whole : Whole x := by
      rw [← h.1.2.2]
      simp [Whole]
    exact ⟨h.1, h.2.trans (map_finRange whole)⟩

/-! ### Sending -/

theorem tx_unchanged {b' : Bus} {allowed : Host → Act → Prop} (happened : (bus allowed).acts b b') :
    b'.sie.tx = b.sie.tx ∧ b'.sie.tLen1 = b.sie.tLen1 := by
  obtain ⟨a, -, act⟩ := happened
  cases Bus.happens act with
  | @in0 acked => cases acked <;> exact ⟨rfl, rfl⟩
  | @in1 acked => cases acked <;> exact ⟨rfl, rfl⟩
  | setup | out0 | out1 | refused | busReset | configure | other => exact ⟨rfl, rfl⟩

theorem filled_stable {x : List Byte} (buf : Packet) (r : Statics) :
    (bus Calm).Stable fun b => b.Holds T serial all given phase x r ∧ b.sie.tx = buf :=
  (holds_stable T serial all given phase x r).and fun _ _ happened tx =>
    (tx_unchanged happened).1.trans tx

def Bus.Loaded (b : Bus) (buf : Packet) : Prop :=
  b.sie.tx = buf ∧ b.sie.tLen1 = BitVec.ofNat 8 maxFrame

theorem loaded_stable {x : List Byte} (buf : Packet) (r : Statics) :
    (bus Calm).Stable fun b => b.Holds T serial all given phase x r ∧ b.Loaded buf :=
  (holds_stable T serial all given phase x r).and fun _ _ happened loaded =>
    ⟨(tx_unchanged happened).1.trans loaded.1, (tx_unchanged happened).2.trans loaded.2⟩

theorem setAll_padded (buf : Packet) (resp : List Byte) :
    (setAll buf (fun i => resp.getD i 0) (List.finRange maxFrame)).toList = padded resp := by
  refine List.ext_getElem (by simp [padded]) fun i left right => ?_
  have inside : i < 64 := by simpa using left
  have byte := setAll_get buf (fun i => resp.getD i 0) _ (List.mem_finRange ⟨i, inside⟩)
  rw [Vector.getElem_toList]
  refine Eq.trans byte ?_
  simp [padded]

theorem setTxs_serves {x : List Byte} (f : Fin 64 → Byte) (is : List (Fin 64)) (buf : Packet) :
    (bus Calm).Triple
      (fun r b => b.Holds T serial all given (.quiet before) x r ∧ b.sie.tx = buf)
      (forM is fun i => reg (.setTx i (f i)))
      (fun _ r b => b.Holds T serial all given (.quiet before) x r ∧ b.sie.tx = setAll buf f is) := by
  induction is generalizing buf with
  | nil => exact .pure fun r b h => h
  | cons i is ih =>
    rw [List.forM_cons]
    refine .via (fun _ r b => b.Holds T serial all given (.quiet before) x r ∧
      b.sie.tx = buf.set i.val (f i)) ?_ fun _ => ih _
    refine triple_reg (filled_stable buf) fun r b h => ?_
    obtain ⟨⟨h, state, rx⟩, rfl⟩ := h
    exact ⟨⟨⟨h.sound, h.calm, h.out.inward (b.sie.tx.set i.val (f i)) _ _ _, h.inward, h.all⟩,
      state, rx⟩, rfl⟩

theorem Bus.Holds.arm {x y : List Byte} {buf : Packet}
    (h : b.Holds T serial all given (.quiet before) y r) (loaded : b.Loaded buf)
    (data : buf.toList = x) :
    (b.access (.setCtrl .ep1 (b.sie.ctrl1.setT .ack))).2.Serves T serial all given
      (.armed before x) { r with txBusy := true } := by
  obtain ⟨h, state, -⟩ := h
  have nak : b.sie.ctrl1.rRes = .nak := (h.out.full (by rw [state]; nofun)).1
  have configured : b.host.configured = true := by
    by_contra unused
    have idle := (h.out.untouched (Bool.eq_false_of_not_eq_true unused)).idle
    rw [state] at idle
    cases idle
  obtain ⟨-, got⟩ := h.inward
  refine ⟨h.sound.statics r.rxState true, h.calm, h.out.inward _ _ _ .ack,
    ⟨configured, nak, (congrArg Vector.toList loaded.1).trans data, loaded.2, ?_, nofun,
      fun _ _ _ => got⟩, h.all⟩
  exact got.trans (List.sublist_append_left before [x])

theorem drain_serves (polls : Nat) :
    (bus Calm).Triple (fun r b => b.Serves T serial all given phase r) (drain T polls)
      (fun _ r b => b.Serves T serial all given phase r) := by
  induction polls with
  | zero => exact .pure fun _ _ h => h
  | succ polls ih =>
    refine .via (fun _ r b => b.Serves T serial all given phase r) (.get fun _ _ h => h) fun s =>
      .ite (fun _ => ?_) fun _ => .pure fun _ _ h => h
    refine .via (fun _ r b => b.Serves T serial all given phase r) usbProcess_serves fun _ =>
      .via (fun _ r b => b.Serves T serial all given phase r) ?_ fun _ => ih
    exact triple_serves fun r b h => h

/-- Giving up, the toggle may be the one before the host collected the report after all. -/
theorem Bus.Serves.giveUp {x : List Byte} {c : EpCtrl}
    (h : b.Serves T serial all given (.armed before x) r)
    (same : c = { b.sie.ctrl1 with tTog := c.tTog }) :
    (b.access (.setCtrl .ep1 (c.setT .nak))).2.Serves T serial all given
      (.quiet (before ++ [x])) { r with txBusy := false } := by
  obtain ⟨-, -, -, -, got, -, -⟩ := h.inward
  rw [same]
  exact ⟨h.sound.statics r.rxState false, h.calm, h.out.inward _ _ c.tTog .nak, ⟨rfl, got⟩, h.all⟩

/-- While a report is armed, the host can flip its toggle and nothing else. -/
theorem armed_stable {x : List Byte} (c : EpCtrl) (r : Statics) :
    (bus Calm).Stable fun b => b.Serves T serial all given (.armed before x) r ∧
      c = { b.sie.ctrl1 with tTog := c.tTog } := by
  rintro b b' happened ⟨h, same⟩
  refine ⟨serves_stable T serial all given _ r b b' happened h, ?_⟩
  have nak : b.sie.ctrl1.rRes = .nak := h.inward.2.1
  obtain ⟨a, -, act⟩ := happened
  cases Bus.happens act with
  | @in0 acked => cases acked <;> exact same
  | @in1 acked => cases acked <;> exact same
  | out1 _ _ _ ready => exact absurd (nak.symm.trans ready) nofun
  | setup | out0 | refused | busReset | configure | other => exact same

/-- A response is sent, or given up; the host collects it at most once either way. -/
theorem trSend_serves {y : List Byte} (resp : List Byte) :
    (bus Calm).Triple (fun r b => b.Holds T serial all given (.quiet before) y r) (trSend T resp)
      (fun _ r b => b.Serves T serial all given (.quiet (before ++ [padded resp])) r) := by
  intro r b h
  -- the buffer is filled first, and only then is the endpoint told to answer
  let sent := setAll b.sie.tx (fun i => resp.getD i 0) (List.finRange maxFrame)
  let armed (r : Statics) (b : Bus) : Prop :=
    b.Serves T serial all given (.armed before (padded resp)) r
  refine Shared.Triple.via (fun _ r b => b.Holds T serial all given (.quiet before) y r ∧
    b.sie.tx = sent) (setTxs_serves _ _ b.sie.tx) (fun _ => ?_) r b ⟨h, rfl⟩
  refine .via (fun _ r b => b.Holds T serial all given (.quiet before) y r ∧ b.Loaded sent) ?_
    fun _ => .via (fun _ r b => armed { r with txBusy := true } b) ?_ fun _ =>
      .via (fun _ r b => armed r b) (.modify fun _ _ h => h) fun _ =>
      .via (fun _ r b => armed r b) (drain_serves _) fun _ =>
      .via (fun s r b => s = r ∧ armed r b) (.get fun _ _ h => ⟨rfl, h⟩) fun s =>
        .ite (fun busy => ?_) fun free => .pure fun r b h => ?_
  · refine triple_reg (filled_stable sent) fun r b h => ?_
    obtain ⟨⟨h, state, rx⟩, tx⟩ := h
    exact ⟨⟨⟨h.sound, h.calm, h.out.inward _ (BitVec.ofNat 8 maxFrame) _ _, h.inward, h.all⟩,
      state, rx⟩, tx, rfl⟩
  · refine .via (fun c r b => (b.Holds T serial all given (.quiet before) y r ∧ b.Loaded sent) ∧
      c = b.sie.ctrl1) ?_ fun c => ?_
    · exact triple_reg (loaded_stable sent) fun r b h => ⟨h, rfl⟩
    · refine triple_reg (fun r b b' happened h => ?_) fun r b h => ?_
      · refine ⟨loaded_stable sent r b b' happened h.1, h.2.trans (Eq.symm ?_)⟩
        obtain ⟨⟨⟨serves, state, -⟩, -⟩, -⟩ := h
        exact ctrl1_unchanged happened (serves.out.full (by rw [state]; nofun)).1 serves.inward.1
      · obtain ⟨⟨h, loaded⟩, rfl⟩ := h
        exact h.arm loaded (setAll_padded _ _)
  · refine .weaken (.via (fun _ r b => b.Serves T serial all given
      (.quiet (before ++ [padded resp])) { r with txBusy := false }) ?_ fun _ =>
        .modify fun _ _ h => h) (fun _ _ h => h.2) fun _ _ _ h => h
    refine .via (fun c r b => armed r b ∧ c = { b.sie.ctrl1 with tTog := c.tTog }) ?_ fun c => ?_
    · exact triple_reg (serves_stable T serial all given _) fun r b h => ⟨h, rfl⟩
    · exact triple_reg (armed_stable c) fun r b h => h.1.giveUp h.2
  · obtain ⟨rfl, h⟩ := h
    obtain ⟨-, -, -, -, got, drained, -⟩ := h.inward
    exact ⟨h.sound, h.calm, h.out, ⟨drained (by simpa using free), got⟩, h.all⟩

/-! ### The main loop -/

theorem Bus.Started.serves {uid : Vector Byte 8} (h : b.Started all uid r) :
    b.Serves T (strSerialOf uid) all [] (.quiet []) r := by
  have sent : b.pipe.sent = [] := h.fresh.sent
  have got : b.pipe.got = [] := h.fresh.got
  have outTog : b.pipe.outTog = false := h.fresh.outTog
  have ctrl : b.pipe.ctrl = ctrl1Reset := h.ctrl1
  have nothing : ¬ b.pipe.Arrived := Pipe.not_arrived h.transfer
  have together : b.pipe.outTog = b.pipe.ctrl.rTog := outTog.trans (congrArg EpCtrl.rTog ctrl).symm
  refine ⟨h.sound, ?_, ⟨congrArg EpCtrl.autoTog ctrl, fun _ => congrArg EpCtrl.rRes ctrl,
    fun full => absurd h.rxState full, ?_, fun apart => absurd together apart,
    fun _ => h.fresh.configured, fun _ => ⟨h.rxState, outTog, congrArg EpCtrl.rTog ctrl, sent, got,
      Pipe.not_flagged h.transfer, Pipe.not_flagged h.transfer⟩⟩,
    ⟨congrArg EpCtrl.tRes ctrl, got ▸ .slnil⟩, ?_⟩
  · exact fun flagged => absurd flagged (Control.not_flagged h.transfer)
  · rw [h.rxState, Pipe.waiting_eq_nil (by nofun) nothing, Pipe.taken, if_pos together, sent]
    rfl
  · rw [h.fresh.sent]
    exact h.todo

def Bus.Runs (b : Bus) (T : Board) (serial : List Byte) (all : List (List Byte)) (l : Log)
    (r : Statics) : Prop :=
  b.Serves T serial all l.reports (.quiet (l.responses.map padded)) r

variable {core : List (List Byte) → Option (List Byte)}

theorem turn_runs (l : Log) :
    (bus Calm).Triple (fun r b => b.Runs T serial all l r) (turn core T l)
      (fun l r b => b.Runs T serial all l r) := by
  have wait (l : Log) : (bus Calm).Triple (fun r b => b.Runs T serial all l r)
      (reg (.delayUs T.pollIntervalUs) >>= fun _ => pure l) (fun l r b => b.Runs T serial all l r) :=
    .via (fun _ r b => b.Runs T serial all l r) (triple_serves fun _ _ h => h) fun _ =>
      .pure fun _ _ h => h
  refine .bind trPoll_serves fun out => ?_
  cases out with
  | none => exact wait l
  | some avail =>
    refine fun r b h => ?_
    obtain ⟨rfl, x, h⟩ := h
    refine Shared.Triple.bind readReport_serves (fun report => ?_) r b h
    refine fun r b h => ?_
    obtain ⟨h, rfl⟩ := h
    cases answer : core (l.reports ++ [report]) with
    | none =>
      simp only [answer]
      exact wait ⟨l.reports ++ [report], l.responses⟩ r b h.1
    | some resp =>
      simp only [answer]
      refine Shared.Triple.bind (trSend_serves resp) (fun _ => ?_) r b h
      refine .weaken (wait ⟨l.reports ++ [report], l.responses ++ [resp]⟩) (fun r b h => ?_)
        fun _ _ _ h => h
      simpa [Bus.Runs] using h

theorem turns_runs (n : Nat) (l : Log) :
    (bus Calm).Triple (fun r b => b.Runs T serial all l r) (turns core T n l)
      (fun l r b => b.Runs T serial all l r) := by
  induction n generalizing l with
  | zero => exact .pure fun _ _ h => h
  | succ n ih => exact .bind (turn_runs l) fun l => ih l

theorem device_runs {uid : Vector Byte 8} {n : Nat} {l : Log} {b' : Bus} {r' : Statics}
    {es : List (Event sieOps)} (off : b.Off)
    (run : (device core T uid n).Exec (bus Calm).environment r b es l r' b') :
    b'.Runs T (strSerialOf uid) b.host.todo l r' := by
  have runs : (bus Calm).Triple (fun _ c => c.Off ∧ c.host.todo = b.host.todo)
      (device core T uid n) fun l r c => c.Runs T (strSerialOf uid) b.host.todo l r :=
    .via (fun _ r c => c.Runs T (strSerialOf uid) b.host.todo ⟨[], []⟩ r)
      (.weaken (trInit_started uid b.host.todo) (fun _ _ off => off) fun _ _ _ h => h.serves)
      fun _ => turns_runs n _
  exact runs.exec ⟨off, rfl⟩ run

/-- The reports the core was given are the whole ones the host sent, each once and in order. Of
    those sent one may still wait in the device, and of the last one given the host may not know
    yet. -/
theorem reports_once {uid : Vector Byte 8} {n : Nat} {l : Log} {b' : Bus} {r' : Statics}
    {es : List (Event sieOps)} (off : b.Off)
    (run : (device core T uid n).Exec (bus Calm).environment r b es l r' b') :
    b'.host.sent ++ b'.host.todo = b.host.todo ∧
      ∃ taken waiting, (taken = b'.host.sent ∨ taken = b'.host.sent ++ b'.host.todo.take 1) ∧
        waiting.length ≤ 1 ∧ l.reports ++ waiting = taken.filter Whole := by
  have h := device_runs off run
  refine ⟨h.all, b'.pipe.taken, b'.pipe.waiting r'.rxState, ?_, ?_, h.out.count⟩
  · unfold Pipe.taken
    split
    · exact .inl rfl
    · exact .inr rfl
  · unfold Pipe.waiting
    split <;> simp

/-- Three reports, each sent twice, and the core was given each once. -/
theorem reports_once_lossy : exampleRun.2.1.reports = exampleReports ∧
    exampleRun.2.2.2.host.sent ++ exampleRun.2.2.2.host.todo = exampleReports :=
  ⟨by decide +kernel, (reports_once exampleBus_off exampleRun_exec).1⟩

/-- What the host received are responses of the core in the order they were sent, each padded to
    a report and none twice, and nothing else. -/
theorem responses_once {uid : Vector Byte 8} {n : Nat} {l : Log} {b' : Bus} {r' : Statics}
    {es : List (Event sieOps)} (off : b.Off)
    (run : (device core T uid n).Exec (bus Calm).environment r b es l r' b') :
    b'.host.got.Sublist (l.responses.map padded) := (device_runs off run).inward.2

/-- The three responses, each collected twice. -/
theorem responses_once_lossy : exampleRun.2.2.2.host.got = [padded [1], padded [2], padded [3]] ∧
    exampleRun.2.2.2.host.got.Sublist (exampleRun.2.1.responses.map padded) :=
  ⟨by decide +kernel, responses_once exampleBus_off exampleRun_exec⟩

end

end OpenBoot.Usb
