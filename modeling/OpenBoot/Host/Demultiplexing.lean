import Mathlib.Data.List.DropRight
import OpenBoot.Host.Tunnel
import OpenBoot.Semantics.Transition

/-! The two readers of the tunnel's one stream of reports: neither loses a byte of the other's,
whatever the reports are and whenever the deadlines fall. -/

set_option autoImplicit false

namespace OpenBoot.Host.Tunnel

open Semantics Program

variable {W X : Type} {T : Environment reportLink W} {q q' : Qmk} {w w' : W}
  {es es' : List (Event reportLink)} {tag : Byte} {buf p : List Byte} {deadline : Instant}

def payloadOf (tag : Byte) : List Byte → Option (List Byte)
  | t :: len :: rest =>
    if t = tag ∧ len.toNat ≤ streamMax ∧ len.toNat ≤ rest.length then some (rest.take len.toNat)
    else none
  | _ => none

theorem payloadOf_eq_some : payloadOf tag buf = some p ↔
    p.length ≤ streamMax ∧ ∃ pad, buf = tag :: BitVec.ofNat 8 p.length :: (p ++ pad) := by
  constructor
  · intro read
    unfold payloadOf at read
    split at read
    swap
    · cases read
    next t len rest =>
      split at read
      swap
      · cases read
      next wellFormed =>
        obtain ⟨rfl, small, whole⟩ := wellFormed
        obtain rfl := Option.some.inj read
        have length : (rest.take len.toNat).length = len.toNat := by
          rw [List.length_take, Nat.min_eq_left whole]
        refine ⟨length.le.trans small, rest.drop len.toNat, ?_⟩
        rw [length, BitVec.ofNat_toNat, BitVec.setWidth_eq, List.take_append_drop]
  · rintro ⟨small, pad, rfl⟩
    have length : (BitVec.ofNat 8 p.length).toNat = p.length := by
      rw [BitVec.toNat_ofNat]
      exact Nat.mod_eq_of_lt (Nat.lt_of_le_of_lt small (by decide))
    have whole : p.length ≤ (p ++ pad).length := by
      rw [List.length_append]
      exact Nat.le_add_right _ _
    simp only [payloadOf, length, small, whole, and_self, if_true]
    rw [List.take_left]

def broughtBy : Event reportLink → Option (List Byte)
  | ⟨.read _, .ok buf⟩ => some buf
  | _ => none

def arrived (es : List (Event reportLink)) : List (List Byte) := es.filterMap broughtBy

def streamed (es : List (Event reportLink)) : List Byte :=
  ((arrived es).filterMap (payloadOf tagStream)).flatten

def controls (es : List (Event reportLink)) : List (List Byte) :=
  (arrived es).filterMap (payloadOf tagControl)

@[simp] theorem streamed_append : streamed (es ++ es') = streamed es ++ streamed es' := by
  simp [streamed, arrived]

@[simp] theorem controls_append : controls (es ++ es') = controls es ++ controls es' := by
  simp [controls, arrived]

theorem exec_now {x : Except (Halt X) Instant} :
    (now : Tunnel X Instant).run.Exec T q w es x q' w' ↔
      ∃ t, x = .ok t ∧ es = [⟨.now, t⟩] ∧ q = q' ∧ T.step w .now t w' := by
  unfold now
  rw [exec_lift]
  exact exists_congr fun _ => and_congr_right fun _ => exec_perform

theorem exec_modifyGet {f : Qmk → Qmk} {x : Except (Halt X) Unit} :
    (modifyGet f : Tunnel X Unit).run.Exec T q w es x q' w' ↔
      x = .ok () ∧ es = [] ∧ q' = f q ∧ w = w' := by
  unfold modifyGet
  rw [exec_lift]
  constructor
  · rintro ⟨_, rfl, run⟩
    exact ⟨rfl, exec_modify.mp run⟩
  · rintro ⟨rfl, run⟩
    exact ⟨(), rfl, exec_modify.mpr run⟩

theorem exec_ofIo {A : Type} {op : LinkOp} {f : LinkOp.Reply op → Except Chain A}
    {x : Except (Halt Chain) A}
    (run : (do ofIo (f (← ExceptT.lift (perform (I := reportLink) op))) : Tunnel Chain A).run.Exec
      T q w es x q' w') :
    ∃ out : LinkOp.Reply op, x = (f out).mapError .failed ∧ es = [⟨op, out⟩] ∧ q = q' := by
  rcases exec_seq.mp run with ⟨_, rfl, called⟩ | ⟨_, _, out, _, _, rfl, called, last⟩
  · obtain ⟨_, fails, -⟩ := exec_lift.mp called
    cases fails
  obtain ⟨_, same, called⟩ := exec_lift.mp called
  obtain rfl := Except.ok.inj same
  obtain ⟨rfl, rfl, -⟩ := exec_perform.mp called
  refine ⟨out, ?_⟩
  cases reply : f out with
  | ok a =>
    rw [reply] at last
    obtain ⟨rfl, rfl, rfl, rfl⟩ := exec_return.mp last
    exact ⟨rfl, rfl, rfl⟩
  | error chain =>
    rw [reply] at last
    obtain ⟨rfl, rfl, rfl, rfl⟩ := exec_throw.mp last
    exact ⟨rfl, rfl, rfl⟩

theorem exec_readReport {timeoutMs : Nat} {x : Except (Halt Chain) (List Byte)}
    (run : (readReport timeoutMs).run.Exec T q w es x q' w') :
    ∃ out : Except Chain (List Byte), x = out.mapError .failed ∧ es = [⟨.read timeoutMs, out⟩] ∧
      q = q' := exec_ofIo run

/-! ### One report -/

inductive Pumped (deadline : Instant) (q : Qmk) :
    List (Event reportLink) → Except (Halt Chain) (Option Rx) → Qmk → Prop where
  | late {t : Instant} : deadline ≤ t → Pumped deadline q [⟨.now, t⟩] (.ok none) q
  | broken {t : Instant} {ms : Nat} {chain : Chain} :
      Pumped deadline q [⟨.now, t⟩, ⟨.read ms, .error chain⟩] (.error (.failed chain)) q
  | stream {t : Instant} {ms len : Nat} {buf p : List Byte} : payloadOf tagStream buf = some p →
      p.length = len → Pumped deadline q [⟨.now, t⟩, ⟨.read ms, .ok buf⟩] (.ok (some (.stream len)))
        { q with rx := q.rx ++ p }
  | control {t : Instant} {ms : Nat} {buf p : List Byte} : payloadOf tagControl buf = some p →
      Pumped deadline q [⟨.now, t⟩, ⟨.read ms, .ok buf⟩] (.ok (some (.control p))) q
  | ignored {t : Instant} {ms : Nat} {buf : List Byte} : payloadOf tagStream buf = none →
      payloadOf tagControl buf = none →
      Pumped deadline q [⟨.now, t⟩, ⟨.read ms, .ok buf⟩] (.ok (some .ignored)) q

theorem pump_exec {x : Except (Halt Chain) (Option Rx)}
    (run : (pump deadline).run.Exec T q w es x q' w') : Pumped deadline q es x q' := by
  unfold pump at run
  rcases exec_seq.mp run with ⟨_, -, clock⟩ | ⟨_, _, t, _, _, rfl, clock, timed⟩
  · obtain ⟨_, fails, -⟩ := exec_now.mp clock
    cases fails
  clear run
  obtain ⟨_, same, rfl, rfl, -⟩ := exec_now.mp clock
  obtain rfl := Except.ok.inj same
  simp only at timed
  by_cases late : deadline - t = 0
  · rw [if_pos late] at timed
    obtain ⟨rfl, rfl, rfl, -⟩ := exec_return.mp timed
    exact .late (Nat.sub_eq_zero_iff_le.mp late)
  rw [if_neg late] at timed
  rcases exec_seq.mp timed with ⟨_, rfl, read⟩ | ⟨_, _, buf, _, _, rfl, read, run⟩
  · obtain ⟨out, same, rfl, rfl⟩ := exec_readReport read
    cases out with
    | ok _ => cases same
    | error chain =>
      cases same
      exact .broken
  clear timed
  obtain ⟨out, same, rfl, rfl⟩ := exec_readReport read
  cases out with
  | error _ => cases same
  | ok _ =>
  cases same
  -- what is left depends on the report alone
  match buf with
  | [] =>
    obtain ⟨rfl, rfl, rfl, -⟩ := exec_return.mp run
    exact .ignored rfl rfl
  | [_] =>
    obtain ⟨rfl, rfl, rfl, -⟩ := exec_return.mp run
    exact .ignored rfl rfl
  | t :: len :: rest =>
    have length : (t :: len :: rest).length - 2 = rest.length := rfl
    simp only [List.getD_cons_zero, List.getD_cons_succ, List.drop_succ_cons, List.drop_zero, length]
      at run
    rw [if_neg (by simp)] at run
    by_cases odd : len.toNat > streamMax ∨ len.toNat > rest.length
    · rw [if_pos odd] at run
      obtain ⟨rfl, rfl, rfl, -⟩ := exec_return.mp run
      have malformed : ∀ tag, payloadOf tag (t :: len :: rest) = none := fun tag =>
        if_neg fun ⟨_, small, whole⟩ => odd.elim (Nat.not_lt.mpr small) (Nat.not_lt.mpr whole)
      exact .ignored (malformed _) (malformed _)
    rw [if_neg odd] at run
    obtain ⟨small, whole⟩ := not_or.mp odd
    have carries : ∀ tag, payloadOf tag (t :: len :: rest) =
        if t = tag then some (rest.take len.toNat) else none := by
      intro tag
      simp only [payloadOf, Nat.not_lt.mp small, Nat.not_lt.mp whole, and_true]
    have size : (rest.take len.toNat).length = len.toNat := by
      rw [List.length_take, Nat.min_eq_left (Nat.not_lt.mp whole)]
    by_cases stream : t = tagStream
    · rw [if_pos stream] at run
      rcases exec_seq.mp run with ⟨_, -, kept⟩ | ⟨_, _, _, _, _, rfl, kept, run⟩
      · obtain ⟨fails, -⟩ := exec_modifyGet.mp kept
        cases fails
      obtain ⟨-, rfl, rfl, -⟩ := exec_modifyGet.mp kept
      obtain ⟨rfl, rfl, rfl, -⟩ := exec_return.mp run
      exact .stream ((carries _).trans (if_pos stream)) size
    rw [if_neg stream] at run
    by_cases control : t = tagControl
    · rw [if_pos control] at run
      obtain ⟨rfl, rfl, rfl, -⟩ := exec_return.mp run
      exact .control ((carries _).trans (if_pos control))
    · rw [if_neg control] at run
      obtain ⟨rfl, rfl, rfl, -⟩ := exec_return.mp run
      exact .ignored ((carries _).trans (if_neg stream)) ((carries _).trans (if_neg control))

@[simp] theorem arrived_read {t : Instant} {ms : Nat} :
    arrived [⟨.now, t⟩, ⟨.read ms, .ok buf⟩] = [buf] := rfl

/-- The stream bytes of the events are buffered, and nothing was taken. -/
def Buffers (q : Qmk) (es : List (Event reportLink)) (q' : Qmk) : Prop :=
  q'.rx = q.rx ++ streamed es

theorem Buffers.silent (none : streamed es = []) : Buffers q es q := by
  unfold Buffers
  rw [none, List.append_nil]

theorem Buffers.append {q₁ : Qmk} (first : Buffers q es q₁) (rest : Buffers q₁ es' q') :
    Buffers q (es ++ es') q' := by
  unfold Buffers at *
  rw [rest, first, streamed_append, List.append_assoc]

theorem Pumped.buffers {x : Except (Halt Chain) (Option Rx)} (h : Pumped deadline q es x q') :
    Buffers q es q' := by
  cases h with
  | late _ => exact .silent rfl
  | broken => exact .silent rfl
  | stream carries _ =>
    unfold Buffers
    simp [streamed, carries]
  | control carries =>
    obtain ⟨-, pad, rfl⟩ := payloadOf_eq_some.mp carries
    exact .silent rfl
  | ignored none _ =>
    apply Buffers.silent
    simp [streamed, none]

/-! ### The readers -/

def Over (deadline : Instant) (es : List (Event reportLink)) : Prop :=
  ∃ t, es.getLast? = some ⟨.now, t⟩ ∧ deadline ≤ t

theorem Over.after (h : Over deadline es') : Over deadline (es ++ es') := by
  obtain ⟨t, last, late⟩ := h
  exact ⟨t, by rw [List.getLast?_append, last]; rfl, late⟩

def Vain (es : List (Event reportLink)) : Prop := ∀ p ∈ controls es, p = []

theorem Vain.append (first : Vain es) (rest : Vain es') : Vain (es ++ es') := by
  unfold Vain
  rw [controls_append]
  exact List.forall_mem_append.mpr ⟨first, rest⟩

/-- What a reader of control reports may return: the first with a payload, which has just
    arrived, or nothing once the deadline has passed. -/
def ControlRead (deadline : Instant) (es : List (Event reportLink)) : Option (List Byte) → Prop
  | none => Over deadline es ∧ Vain es
  | some p => ∃ ps, controls es = ps ++ [p] ∧ ∀ p' ∈ ps, p' = []

theorem ControlRead.after {out : Option (List Byte)} (before : Vain es)
    (h : ControlRead deadline es' out) : ControlRead deadline (es ++ es') out := by
  cases out with
  | none => exact ⟨h.1.after, before.append h.2⟩
  | some p =>
    obtain ⟨ps, last, empty⟩ := h
    exact ⟨controls es ++ ps, by rw [controls_append, last, List.append_assoc],
      List.forall_mem_append.mpr ⟨before, empty⟩⟩

theorem readControlPass_exec {x : Except (Halt Chain) (Unit ⊕ Option (List Byte))}
    (run : (readControlPass deadline).run.Exec T q w es x q' w') :
    Buffers q es q' ∧ ((∃ out, x = .ok (.inr out) ∧ ControlRead deadline es out) ∨
      (∀ out, x ≠ .ok (.inr out)) ∧ Vain es) := by
  unfold readControlPass at run
  rcases exec_seq.mp run with ⟨_, rfl, pumped⟩ | ⟨_, _, out, _, _, rfl, pumped, rest⟩
  · have known := pump_exec pumped
    refine ⟨known.buffers, .inr ⟨nofun, ?_⟩⟩
    cases known
    exact List.forall_mem_nil _
  have known := pump_exec pumped
  have buffers := known.buffers
  -- the report came too late, was control, was a piece of the stream, or was neither
  cases known with
  | late past =>
    obtain ⟨rfl, rfl, rfl, -⟩ := exec_return.mp rest
    exact ⟨buffers, .inl ⟨none, rfl, ⟨_, rfl, past⟩, List.forall_mem_nil _⟩⟩
  | @control _ _ _ p carries =>
    rcases exec_ite.mp rest with ⟨-, rest⟩ | ⟨empty, rest⟩
    · obtain ⟨rfl, rfl, rfl, -⟩ := exec_return.mp rest
      exact ⟨buffers, .inl ⟨some p, rfl, [], by simp [controls, carries], List.forall_mem_nil _⟩⟩
    · obtain ⟨rfl, rfl, rfl, -⟩ := exec_return.mp rest
      refine ⟨buffers, .inr ⟨nofun, ?_⟩⟩
      simpa [Vain, controls, carries] using empty
  | stream carries _ =>
    obtain ⟨rfl, rfl, rfl, -⟩ := exec_return.mp rest
    obtain ⟨-, pad, rfl⟩ := payloadOf_eq_some.mp carries
    exact ⟨buffers, .inr ⟨nofun, List.forall_mem_nil _⟩⟩
  | ignored _ none =>
    obtain ⟨rfl, rfl, rfl, -⟩ := exec_return.mp rest
    refine ⟨buffers, .inr ⟨nofun, ?_⟩⟩
    simp [Vain, controls, none]

theorem readControl_exec {fuel : Nat} {x : Except (Halt Chain) (Option (List Byte))}
    (run : (readControl fuel deadline).run.Exec T q w es x q' w') :
    Buffers q es q' ∧ ((∃ out, x = .ok out ∧ ControlRead deadline es out) ∨
      (∀ out, x ≠ .ok out) ∧ Vain es) := by
  unfold readControl at run
  have ends := exec_loop (fun es _ q₁ => Buffers q es q₁ ∧ Vain es) (fun before pass => ?_)
    ⟨Buffers.silent rfl, List.forall_mem_nil _⟩ run
  · cases ends with
    | spent before => exact ⟨before.1, .inr ⟨nofun, before.2⟩⟩
    | halt before pass =>
      obtain ⟨buffers, ⟨_, fails, -⟩ | ⟨-, vain⟩⟩ := readControlPass_exec pass
      · cases fails
      · exact ⟨before.1.append buffers, .inr ⟨nofun, before.2.append vain⟩⟩
    | result before pass =>
      obtain ⟨buffers, ⟨out, same, read⟩ | ⟨other, -⟩⟩ := readControlPass_exec pass
      · obtain rfl := Sum.inr.inj (Except.ok.inj same)
        exact ⟨before.1.append buffers, .inl ⟨_, rfl, read.after before.2⟩⟩
      · exact absurd rfl (other _)
  · obtain ⟨buffers, ⟨_, fails, -⟩ | ⟨-, vain⟩⟩ := readControlPass_exec pass
    · cases fails
    · exact ⟨before.1.append buffers, before.2.append vain⟩

theorem popFront_exec {x : Except (Halt Chain) (Option Byte)}
    (run : popFront.run.Exec T q w es x q' w') :
    es = [] ∧ ∃ out, x = .ok out ∧ q.rx = out.toList ++ q'.rx ∧ (out = none → q.rx = []) := by
  unfold popFront at run
  rcases exec_seq.mp run with ⟨_, -, got⟩ | ⟨_, _, t, _, _, rfl, got, rest⟩
  · obtain ⟨_, fails, -⟩ := exec_lift.mp got
    cases fails
  obtain ⟨_, same, got⟩ := exec_lift.mp got
  obtain rfl := Except.ok.inj same
  obtain ⟨rfl, rfl, rfl, rfl⟩ := exec_get.mp got
  cases buffered : q.rx with
  | nil =>
    rw [buffered] at rest
    obtain ⟨rfl, rfl, rfl, -⟩ := exec_return.mp rest
    exact ⟨rfl, none, rfl, buffered.symm, fun _ => rfl⟩
  | cons b bs =>
    rw [buffered] at rest
    rcases exec_seq.mp rest with ⟨_, -, popped⟩ | ⟨_, _, _, _, _, rfl, popped, rest⟩
    · cases (exec_modifyGet.mp popped).1
    obtain ⟨-, rfl, rfl, -⟩ := exec_modifyGet.mp popped
    obtain ⟨rfl, rfl, rfl, -⟩ := exec_return.mp rest
    exact ⟨rfl, some b, rfl, rfl, nofun⟩

/-- What a reader of stream bytes may return: the first that is buffered or has arrived, or
    nothing once the deadline has passed. -/
structure ByteRead (deadline : Instant) (q : Qmk) (es : List (Event reportLink)) (out : Option Byte)
    (q' : Qmk) : Prop where
  first : q.rx ++ streamed es = out.toList ++ q'.rx
  passed : out = none → Over deadline es

theorem pumpBytePass_exec {x : Except (Halt Chain) (Unit ⊕ Option Byte)}
    (run : (pumpBytePass deadline).run.Exec T q w es x q' w') :
    (∃ out, x = .ok (.inr out) ∧ ByteRead deadline q es out q') ∨
      (∀ out, x ≠ .ok (.inr out)) ∧ Buffers q es q' := by
  unfold pumpBytePass at run
  rcases exec_seq.mp run with ⟨_, rfl, pumped⟩ | ⟨_, _, out, _, _, rfl, pumped, rest⟩
  · exact .inr ⟨nofun, (pump_exec pumped).buffers⟩
  have known := pump_exec pumped
  have buffers := known.buffers
  cases known with
  | late past =>
    obtain ⟨rfl, rfl, rfl, -⟩ := exec_return.mp rest
    exact .inl ⟨none, rfl, List.append_nil _, fun _ => ⟨_, rfl, past⟩⟩
  | @stream _ _ len _ p carries length =>
    cases len with
    | zero =>
      obtain ⟨rfl, rfl, rfl, -⟩ := exec_return.mp rest
      exact .inr ⟨nofun, buffers⟩
    | succ len =>
      rcases exec_seq.mp rest with ⟨_, rfl, popped⟩ | ⟨_, _, out, _, _, rfl, popped, last⟩
      · obtain ⟨-, _, fails, -⟩ := popFront_exec popped
        cases fails
      obtain ⟨rfl, _, same, first, empty⟩ := popFront_exec popped
      obtain rfl := Except.ok.inj same
      obtain ⟨rfl, rfl, rfl, -⟩ := exec_return.mp last
      refine .inl ⟨out, rfl, ?_, fun none => ?_⟩
      · rw [List.append_nil, List.append_nil, ← first]
        simp [streamed, carries]
      -- the report that has just arrived is not empty
      · have nothing := congrArg List.length (empty none)
        simp only [List.length_append, length, List.length_nil] at nothing
        omega
  | control _ =>
    obtain ⟨rfl, rfl, rfl, -⟩ := exec_return.mp rest
    exact .inr ⟨nofun, buffers⟩
  | ignored _ _ =>
    obtain ⟨rfl, rfl, rfl, -⟩ := exec_return.mp rest
    exact .inr ⟨nofun, buffers⟩

theorem ByteRead.after {q₁ : Qmk} {out : Option Byte} (before : Buffers q es q₁)
    (h : ByteRead deadline q₁ es' out q') : ByteRead deadline q (es ++ es') out q' where
  first := by
    rw [streamed_append, ← List.append_assoc, ← h.first, before]
  passed none := (h.passed none).after

/-- The deadline of `pump_byte` is so long after the moment it is called. -/
theorem pumpByte_exec {fuel : Nat} {wait : Duration} {x : Except (Halt Chain) (Option Byte)}
    (run : (pumpByte fuel wait).run.Exec T q w es x q' w') :
    (∃ out, x = .ok out ∧ q.rx ++ streamed es = out.toList ++ q'.rx ∧
      (out = none → ∃ t, es.head? = some ⟨.now, t⟩ ∧ Over (t + wait) es)) ∨
    (∀ out, x ≠ .ok out) ∧ Buffers q es q' := by
  unfold pumpByte at run
  rcases exec_seq.mp run with ⟨_, rfl, popped⟩ | ⟨_, _, out, _, _, rfl, popped, rest⟩
  · obtain ⟨-, _, fails, -⟩ := popFront_exec popped
    cases fails
  obtain ⟨rfl, _, same, first, empty⟩ := popFront_exec popped
  obtain rfl := Except.ok.inj same
  cases out with
  | some b =>
    obtain ⟨rfl, rfl, rfl, -⟩ := exec_return.mp rest
    exact .inl ⟨some b, rfl, (List.append_nil _).trans first, nofun⟩
  | none =>
    rcases exec_seq.mp rest with ⟨_, -, clock⟩ | ⟨_, _, t, _, _, rfl, clock, looped⟩
    · obtain ⟨_, fails, -⟩ := exec_now.mp clock
      cases fails
    obtain ⟨_, same, rfl, rfl, -⟩ := exec_now.mp clock
    obtain rfl := Except.ok.inj same
    -- each pass only buffers more of the stream; the one that ends the loop takes a byte off it
    have ends := exec_loop (fun es _ => Buffers _ es)
      (fun before pass => ?_) (Buffers.silent rfl) looped
    swap
    · rcases pumpBytePass_exec pass with ⟨_, fails, -⟩ | ⟨-, buffers⟩
      · cases fails
      · exact before.append buffers
    have clocked : ∀ es, streamed ([] ++ ([⟨.now, t⟩] ++ es)) = streamed es := fun es => rfl
    cases ends with
    | spent before =>
      refine .inr ⟨nofun, ?_⟩
      unfold Buffers
      rw [clocked, first]
      exact before
    | halt before pass =>
      rcases pumpBytePass_exec pass with ⟨_, fails, -⟩ | ⟨-, buffers⟩
      · cases fails
      refine .inr ⟨nofun, ?_⟩
      unfold Buffers
      rw [clocked, first]
      exact before.append buffers
    | result before pass =>
      rcases pumpBytePass_exec pass with ⟨out, same, read⟩ | ⟨other, -⟩
      swap
      · exact absurd rfl (other _)
      obtain rfl := Sum.inr.inj (Except.ok.inj same)
      have read := read.after before
      refine .inl ⟨_, rfl, ?_, fun none => ⟨t, rfl, ?_⟩⟩
      · rw [clocked, first]
        exact read.first
      · exact (read.passed none).after.after

/-! ### Any interleaving -/

/-- One call on the transport, with what the link did in it and what it came to. A call that
    has spent its fuel is still going on. -/
inductive Call where
  | readControl (deadline : Instant) (es : List (Event reportLink))
      (out : Except (Halt Chain) (Option (List Byte)))
  | pumpByte (wait : Duration) (es : List (Event reportLink))
      (out : Except (Halt Chain) (Option Byte))
  | clear

namespace Call

def events : Call → List (Event reportLink)
  | readControl _ es _ => es
  | pumpByte _ es _ => es
  | clear => []

def isClear : Call → Bool
  | clear => true
  | _ => false

def byte : Call → Option Byte
  | pumpByte _ _ (.ok out) => out
  | _ => none

def payload : Call → Option (List Byte)
  | readControl _ _ (.ok out) => out
  | _ => none

/-- It returned nothing only at its deadline; `pump_byte` counts from the moment it is
    called. -/
def Patient : Call → Prop
  | readControl deadline es out => out = .ok none → Over deadline es
  | pumpByte wait es out =>
    out = .ok none → ∃ t, es.head? = some ⟨.now, t⟩ ∧ Over (t + wait) es
  | clear => True

end Call

/-- The readers called in any order, and the buffer cleared at any time. -/
def readers (T : Environment reportLink W) : System (Qmk × W) Call where
  step a call b :=
    match call with
    | .readControl deadline es out =>
      ∃ fuel, (readControl fuel deadline).run.Exec T a.1 a.2 es out b.1 b.2
    | .pumpByte wait es out => ∃ fuel, (pumpByte fuel wait).run.Exec T a.1 a.2 es out b.1 b.2
    | .clear => b = ({ a.1 with rx := [] }, a.2)

def sinceClear (calls : List Call) : List Call := calls.rtakeWhile fun call => !call.isClear

theorem sinceClear_concat {calls : List Call} {call : Call} :
    sinceClear (calls ++ [call]) = if call.isClear then [] else sinceClear calls ++ [call] := by
  unfold sinceClear
  rw [List.rtakeWhile_concat]
  cases call.isClear <;> rfl

theorem streamed_flatMap_concat {calls : List Call} {call : Call} :
    streamed ((calls ++ [call]).flatMap Call.events) =
      streamed (calls.flatMap Call.events) ++ streamed call.events := by
  rw [List.flatMap_append, List.flatMap_singleton, streamed_append]

/-- The bytes returned and those still buffered are what the stream reports carried. -/
def Conserved (calls : List Call) (q : Qmk) : Prop :=
  (sinceClear calls).filterMap Call.byte ++ q.rx =
    streamed ((sinceClear calls).flatMap Call.events)

theorem Conserved.step {calls : List Call} {call : Call} (before : Conserved calls q)
    (step : (readers T).step (q, w) call (q', w')) : Conserved (calls ++ [call]) q' := by
  unfold Conserved at before ⊢
  rw [sinceClear_concat]
  -- what a reader takes off the stream it returns; the rest stays in the buffer
  cases call with
  | clear =>
    obtain ⟨rfl, -⟩ := Prod.mk.inj step
    rfl
  | readControl deadline es out =>
    obtain ⟨fuel, run⟩ := step
    have buffers : q'.rx = q.rx ++ streamed es := (readControl_exec run).1
    change List.filterMap _ (_ ++ [_]) ++ _ = streamed (List.flatMap _ (_ ++ [_]))
    have nothing : List.filterMap Call.byte [Call.readControl deadline es out] = [] := rfl
    rw [streamed_flatMap_concat, ← before, List.filterMap_append, nothing, buffers, List.append_nil,
      List.append_assoc]
    rfl
  | pumpByte wait es out =>
    obtain ⟨fuel, run⟩ := step
    change List.filterMap _ (_ ++ [_]) ++ _ = streamed (List.flatMap _ (_ ++ [_]))
    rw [streamed_flatMap_concat, ← before, List.filterMap_append, List.append_assoc,
      List.append_assoc]
    rcases pumpByte_exec run with ⟨out, rfl, first, -⟩ | ⟨other, buffers⟩
    · change _ ++ (_ ++ _) = _ ++ (q.rx ++ streamed es)
      rw [first]
      cases out <;> rfl
    · have nothing : List.filterMap Call.byte [Call.pumpByte wait es out] = [] := by
        cases out with
        | ok out => exact absurd rfl (other out)
        | error e => rfl
      have kept : q'.rx = q.rx ++ streamed es := buffers
      rw [nothing, kept]
      rfl

theorem Call.sublist_of_step {call : Call} (step : (readers T).step (q, w) call (q', w')) :
    ([call].filterMap Call.payload).Sublist (controls call.events) := by
  match call, step with
  | .clear, _ => exact List.nil_sublist _
  | .pumpByte _ _ _, _ => exact List.nil_sublist _
  | .readControl _ _ (.error _), _ => exact List.nil_sublist _
  | .readControl _ _ (.ok none), _ => exact List.nil_sublist _
  | .readControl _ es (.ok (some p)), ⟨_, run⟩ =>
    obtain ⟨-, ⟨_, same, read⟩ | ⟨other, -⟩⟩ := readControl_exec run
    · obtain rfl := Except.ok.inj same
      obtain ⟨ps, last, -⟩ := read
      change [p].Sublist (controls es)
      rw [last]
      exact List.sublist_append_right _ _
    · exact absurd rfl (other _)

theorem Call.patient_of_step {call : Call} (step : (readers T).step (q, w) call (q', w')) :
    call.Patient := by
  cases call with
  | clear => trivial
  | readControl deadline es out =>
    obtain ⟨_, run⟩ := step
    rintro rfl
    obtain ⟨-, ⟨_, same, read⟩ | ⟨other, -⟩⟩ := readControl_exec run
    · obtain rfl := Except.ok.inj same
      exact read.1
    · exact absurd rfl (other _)
  | pumpByte wait es out =>
    obtain ⟨_, run⟩ := step
    rcases pumpByte_exec run with ⟨_, rfl, -, passed⟩ | ⟨other, -⟩
    · rintro ⟨⟩
      exact passed rfl
    · exact fun none => absurd none (other _)

/-- Whatever reports the link brings, and however the readers take turns: no stream byte is
    lost, invented or reordered; every control payload returned is one that arrived, in order;
    and a reader returns nothing only once its deadline has passed. -/
theorem readers_demultiplex {calls : List Call} (run : (readers T).Run (q, w) calls (q', w'))
    (empty : q.rx = []) :
    Conserved calls q' ∧
      (calls.filterMap Call.payload).Sublist (controls (calls.flatMap Call.events)) ∧
      ∀ call ∈ calls, call.Patient := by
  refine run.invariant (fun calls s => Conserved calls s.1 ∧
      (calls.filterMap Call.payload).Sublist (controls (calls.flatMap Call.events)) ∧
      ∀ call ∈ calls, call.Patient) ⟨?_, List.Sublist.refl _, List.forall_mem_nil _⟩ ?_
  · unfold Conserved
    rw [empty]
    rfl
  rintro calls ⟨q, w⟩ call ⟨q', w'⟩ ⟨conserved, sublist, patient⟩ step
  refine ⟨conserved.step step, ?_, ?_⟩
  · rw [List.filterMap_append, List.flatMap_append, controls_append, List.flatMap_singleton]
    exact sublist.append (Call.sublist_of_step step)
  · exact List.forall_mem_append.mpr
      ⟨patient, List.forall_mem_singleton.mpr (Call.patient_of_step step)⟩

/-- The clock, and what is read in turn; after that every read times out. -/
structure Script where
  clock : Instant
  reads : List (Except Chain (List Byte))

def scripted (script : Script) : (op : LinkOp) → op.Reply × Script
  | .now => (script.clock, { script with clock := script.clock + 1 })
  | .sleep d => ((), { script with clock := script.clock + d })
  | .write _ => (.ok (), script)
  | .read timeoutMs =>
    match script.reads with
    | [] => (.ok [], { script with clock := script.clock + fromMillis timeoutMs })
    | out :: reads => (out, { script with reads := reads })

def keyboard : Environment reportLink Script where
  step script op x script' := (x, script') = scripted script op

def callAll (fuel : Nat) : List (Instant ⊕ Duration) → Qmk → Script → List Call × Qmk × Script
  | [], q, script => ([], q, script)
  | .inl deadline :: rest, q, script =>
    let out := (readControl fuel deadline).run.run scripted q script
    let later := callAll fuel rest out.2.2.1 out.2.2.2
    (.readControl deadline out.1 out.2.1 :: later.1, later.2)
  | .inr wait :: rest, q, script =>
    let out := (pumpByte fuel wait).run.run scripted q script
    let later := callAll fuel rest out.2.2.1 out.2.2.2
    (.pumpByte wait out.1 out.2.1 :: later.1, later.2)

theorem readers_callAll (fuel : Nat) (reqs : List (Instant ⊕ Duration)) (q : Qmk) (script : Script) :
    (readers keyboard).Run (q, script) (callAll fuel reqs q script).1 (callAll fuel reqs q script).2 := by
  induction reqs generalizing q script with
  | nil => exact .nil _
  | cons req rest ih =>
    have runs {A : Type} (p : Tunnel Chain A) : p.run.Exec keyboard q script
        (p.run.run scripted q script).1 (p.run.run scripted q script).2.1
        (p.run.run scripted q script).2.2.1 (p.run.run scripted q script).2.2.2 :=
      exec_run (fun _ _ => rfl) p.run q script
    cases req with
    | inl deadline =>
      have step : (readers keyboard).step (q, script) (.readControl deadline _ _) _ :=
        ⟨fuel, runs (readControl fuel deadline)⟩
      exact .cons step (ih _ _)
    | inr wait =>
      have step : (readers keyboard).step (q, script) (.pumpByte wait _ _) _ :=
        ⟨fuel, runs (pumpByte fuel wait)⟩
      exact .cons step (ih _ _)

/-- A marker, an answer of the keyboard, and a stream report with a length beyond itself. -/
def mixed : Script where
  clock := 0
  reads := [.ok (streamReport (encodeSof [])), .ok (controlReport opExit [obbOk]), .ok [tagStream, 4, 1]]

/-- A control payload is read past the bytes of a frame, then the first of these, and then no
    other. -/
theorem readers_demultiplex_mixed : ∃ calls q' script',
    (readers keyboard).Run (Qmk.new, mixed) calls (q', script') ∧
      calls.filterMap Call.payload = [[opExit, obbOk]] ∧ calls.filterMap Call.byte = [uartSof1] ∧
      q'.rx = [uartSof2] ∧ Conserved calls q' ∧
      (calls.filterMap Call.payload).Sublist (controls (calls.flatMap Call.events)) ∧
      ∀ call ∈ calls, call.Patient := by
  have run := readers_callAll 4 [.inl 5000000, .inr 5000000, .inl 5000000] Qmk.new mixed
  have read : ((callAll 4 [.inl 5000000, .inr 5000000, .inl 5000000] Qmk.new mixed).1.filterMap
      Call.payload) = [[opExit, obbOk]] := by decide +kernel
  have taken : ((callAll 4 [.inl 5000000, .inr 5000000, .inl 5000000] Qmk.new mixed).1.filterMap
      Call.byte) = [uartSof1] := by decide +kernel
  have left : (callAll 4 [.inl 5000000, .inr 5000000, .inl 5000000] Qmk.new mixed).2.1.rx =
      [uartSof2] := by decide +kernel
  exact ⟨_, _, _, run, read, taken, left, readers_demultiplex run rfl⟩

end OpenBoot.Host.Tunnel
