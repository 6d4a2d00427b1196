import OpenBoot.Host.Flows
import OpenBoot.Semantics.Failure

/-! What a command of the client asks of its transport, whatever the transport answers. -/

set_option autoImplicit false

namespace OpenBoot

open Semantics Program Host

def asked : Event transport → Option (Byte × List Byte)
  | ⟨.xfer req _, _⟩ => some (req.cmd, req.payload)
  | ⟨.holdsInBootloader, _⟩ => none

variable {W A X : Type} {T : Environment transport W} {s s' : BootClient} {l l' : W}
  {es : List (Event transport)} {name : String} {cmd : Byte} {payload : Payload} {timeoutMs : Nat}
  {policy : RetryPolicy}

theorem nextSeq_exec {x : Except ClientError Byte}
    (run : BootClient.nextSeq.run.Exec T s l es x s' l') :
    es = [] ∧ x = .ok s.seq ∧ s'.seq = s.seq + 1 ∧ l' = l := by
  unfold BootClient.nextSeq at run
  rcases exec_seq.mp run with ⟨_, -, got⟩ | ⟨_, _, _, _, _, rfl, got, run⟩
  · obtain ⟨_, fails, -⟩ := exec_lift.mp got
    cases fails
  obtain ⟨_, same, got⟩ := exec_lift.mp got
  obtain rfl := Except.ok.inj same
  obtain ⟨rfl, rfl, rfl, rfl⟩ := exec_get.mp got
  rcases exec_seq.mp run with ⟨_, -, set⟩ | ⟨_, _, _, _, _, rfl, set, run⟩
  · obtain ⟨_, fails, -⟩ := exec_lift.mp set
    cases fails
  obtain ⟨_, -, set⟩ := exec_lift.mp set
  obtain ⟨rfl, rfl, rfl⟩ := exec_modify.mp set
  obtain ⟨rfl, rfl, rfl, rfl⟩ := exec_return.mp run
  exact ⟨rfl, rfl, rfl, rfl⟩

theorem attempt_xfer {x : Except ClientError Attempt}
    (run : (BootClient.attempt name cmd payload timeoutMs).run.Exec T s l es x s' l') :
    ∃ out, es = [⟨.xfer ⟨cmd, s.seq, payload.val, payload.property⟩ timeoutMs, out⟩] ∧
      s'.seq = s.seq + 1 ∧ x = BootClient.judge name out ∧
      T.step l (.xfer ⟨cmd, s.seq, payload.val, payload.property⟩ timeoutMs) out l' := by
  unfold BootClient.attempt at run
  rcases exec_seq.mp run with ⟨_, -, next⟩ | ⟨_, _, _, _, _, rfl, next, run⟩
  · obtain ⟨-, fails, -⟩ := nextSeq_exec next
    cases fails
  obtain ⟨rfl, same, seq, rfl⟩ := nextSeq_exec next
  obtain rfl := Except.ok.inj same
  rcases exec_seq.mp run with ⟨_, -, sent⟩ | ⟨_, _, out, _, _, rfl, sent, run⟩
  · obtain ⟨_, fails, -⟩ := exec_lift.mp sent
    cases fails
  obtain ⟨_, same, sent⟩ := exec_lift.mp sent
  obtain rfl := Except.ok.inj same
  obtain ⟨rfl, rfl, step⟩ := exec_perform.mp sent
  obtain ⟨rfl, rfl, rfl, rfl⟩ := exec_mk.mp run
  exact ⟨out, rfl, seq, rfl, step⟩

/-- The events are attempts at these requests in turn, each of them made at least once. -/
inductive Attempts : List (Byte × List Byte) → List (Event transport) → Prop where
  | nil : Attempts [] []
  | cons {k : Byte × List Byte} {ks : List (Byte × List Byte)} {es es' : List (Event transport)} :
      es ≠ [] → (∀ e ∈ es, asked e = some k) → Attempts ks es' → Attempts (k :: ks) (es ++ es')

theorem Attempts.append {ks ks' : List (Byte × List Byte)} {es' : List (Event transport)}
    (h : Attempts ks es) (h' : Attempts ks' es') : Attempts (ks ++ ks') (es ++ es') := by
  induction h with
  | nil => exact h'
  | cons some same _ ih =>
    rw [List.append_assoc]
    exact .cons some same ih

theorem runLoop_attempts {left : Nat} {last : Option RetryReason}
    {x : Except ClientError (List Byte)}
    (run : (BootClient.runLoop name cmd payload timeoutMs policy left last).run.Exec T s l es x s'
      l') : (∀ e ∈ es, asked e = some (cmd, payload.val)) ∧ (0 < left → es ≠ []) := by
  induction left generalizing s l es last with
  | zero =>
    obtain ⟨rfl, -⟩ := exec_throw.mp run
    exact ⟨List.forall_mem_nil _, fun none => absurd none (Nat.lt_irrefl 0)⟩
  | succ left ih =>
    unfold BootClient.runLoop at run
    rcases exec_seq.mp run with ⟨_, -, first⟩ | ⟨_, _, a, _, _, rfl, first, run⟩
    · obtain ⟨_, rfl, -⟩ := attempt_xfer first
      exact ⟨List.forall_mem_singleton.mpr rfl, fun _ => List.cons_ne_nil _ _⟩
    · obtain ⟨_, rfl, -⟩ := attempt_xfer first
      refine ⟨List.forall_mem_cons.mpr ⟨rfl, ?_⟩, fun _ => List.cons_ne_nil _ _⟩
      cases a with
      | done resp =>
        obtain ⟨rfl, -⟩ := exec_return.mp run
        exact List.forall_mem_nil _
      | retry reason => exact (ih run).1

theorem command_attempts {f : ClientError → X} {x : Except X Unit} (some : 0 < policy.attempts)
    (run : ((do let _ ← BootClient.run name cmd payload timeoutMs policy : Client Unit).adapt
      f).run.Exec T s l es x s' l') : Attempts [(cmd, payload.val)] es := by
  obtain ⟨_, run, -⟩ := exec_adapt run
  have attempts : ∀ {es : List (Event transport)} {x : Except ClientError (List Byte)}
      {s' : BootClient} {l' : W},
      (BootClient.run name cmd payload timeoutMs policy).run.Exec T s l es x s' l' →
      Attempts [(cmd, payload.val)] es := by
    intro es x s' l' run
    obtain ⟨same, nonempty⟩ := runLoop_attempts run
    have all := Attempts.cons (nonempty some) same .nil
    rwa [List.append_nil] at all
  rcases exec_seq.mp run with ⟨_, -, first⟩ | ⟨_, _, _, _, _, rfl, first, last⟩
  · exact attempts first
  · obtain ⟨rfl, -⟩ := exec_return.mp last
    rw [List.append_nil]
    exact attempts first

inductive Sends (K : Byte × List Byte → Prop) :
    {X A : Type} → ExceptT X (Semantics.Program transport BootClient) A → Prop where
  | pure {X A : Type} (a : A) : Sends K (pure a : ExceptT X (Semantics.Program transport BootClient) A)
  | throw {X A : Type} (e : X) :
      Sends K (throw e : ExceptT X (Semantics.Program transport BootClient) A)
  | check {A : Type} (r : Fallible A) : Sends K (Flow.check r)
  | holds : Sends K holdsInBootloader
  | bind {X A B : Type} {q : ExceptT X (Semantics.Program transport BootClient) A}
      {f : A → ExceptT X (Semantics.Program transport BootClient) B} :
      Sends K q → (∀ a, Sends K (f a)) → Sends K (q >>= f)
  | adapt {X Y A : Type} {q : ExceptT X (Semantics.Program transport BootClient) A} {g : X → Y} :
      Sends K q → Sends K (q.adapt g)
  | run {name : String} {cmd : Byte} {payload : Payload} {timeoutMs : Nat} {policy : RetryPolicy} :
      K (cmd, payload.val) → 0 < policy.attempts ∧ policy.attempts ≤ 256 →
      Sends K (BootClient.run name cmd payload timeoutMs policy)

theorem check_exec {B : Type} {r : Fallible A} {k : A → Flow B} {x : Except FlowError B}
    (run : (Flow.check r >>= k).run.Exec T s l es x s' l') :
    (es = [] ∧ ∃ e, x = .error e) ∨ ∃ a, r = .ok a ∧ (k a).run.Exec T s l es x s' l' := by
  rcases exec_seq.mp run with ⟨e, rfl, failed⟩ | ⟨_, _, a, _, _, rfl, passed, run⟩
  · obtain ⟨rfl, -⟩ := exec_mk.mp failed
    exact .inl ⟨rfl, e, rfl⟩
  · obtain ⟨rfl, same, rfl, rfl⟩ := exec_mk.mp passed
    cases r with
    | error chain => cases same
    | ok b =>
      obtain rfl := Except.ok.inj same
      exact .inr ⟨a, rfl, run⟩

namespace Sends

variable {K : Byte × List Byte → Prop}

theorem command (of : K (cmd, payload.val)) (permitted : 0 < policy.attempts ∧ policy.attempts ≤ 256) :
    Sends K (do let _ ← BootClient.run name cmd payload timeoutMs policy : Client Unit) :=
  (run of permitted).bind fun _ => pure _

/-- Whatever the transport answers, nothing else is asked. -/
theorem asks {q : ExceptT X (Semantics.Program transport BootClient) A} (sends : Sends K q)
    {x : Except X A} (run : q.run.Exec T s l es x s' l') : ∀ e ∈ es, ∀ k, asked e = some k → K k := by
  induction sends generalizing s l es s' l' with
  | pure =>
    obtain ⟨rfl, -⟩ := exec_return.mp run
    exact List.forall_mem_nil _
  | throw =>
    obtain ⟨rfl, -⟩ := exec_throw.mp run
    exact List.forall_mem_nil _
  | check =>
    obtain ⟨rfl, -⟩ := exec_mk.mp run
    exact List.forall_mem_nil _
  | holds =>
    obtain ⟨_, -, run⟩ := exec_lift.mp run
    obtain ⟨rfl, -⟩ := exec_perform.mp run
    rintro e mem k asks
    rw [List.mem_singleton.mp mem] at asks
    cases asks
  | bind _ _ first rest =>
    rcases exec_seq.mp run with ⟨_, -, failed⟩ | ⟨_, _, _, _, _, rfl, done, later⟩
    · exact first failed
    · exact List.forall_mem_append.mpr ⟨first done, rest _ later⟩
  | adapt _ ih =>
    obtain ⟨_, run, -⟩ := exec_adapt run
    exact ih run
  | run of =>
    intro e mem k asks
    obtain rfl := Option.some.inj (((runLoop_attempts run).1 e mem).symm.trans asks)
    exact of

end Sends

end OpenBoot
