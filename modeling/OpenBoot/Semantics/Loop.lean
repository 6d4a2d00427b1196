import OpenBoot.Semantics.Failure

/-! Loops in programs that may fail.

A program is a finite tree, so a loop has fuel. One that is not left within its fuel
halts with `spent`, and its events so far stay on record. What holds of every run at every
fuel then holds at every point of a run of the loop, whether it ever ends or not.
-/

set_option autoImplicit false

namespace Semantics

inductive Halt (X : Type) where
  | failed (e : X)
  | spent

def Halt.map {X Y : Type} (f : X → Y) : Halt X → Halt Y
  | failed e => failed (f e)
  | spent => spent

namespace Program

variable {I : Signature} {R W A B S X Y : Type} {E : Environment I W} {r r' : R} {w w' : W}
  {es : List (Event I)}

/-- Passes of the body until one has a result. -/
def loop (body : S → ExceptT (Halt X) (Program I R) (S ⊕ A)) :
    Nat → S → ExceptT (Halt X) (Program I R) A
  | 0, _ => throw .spent
  | fuel + 1, s => do
    match ← body s with
    | .inl s => loop body fuel s
    | .inr a => return a

def caught : Except (Halt X) A → Except (Halt Y) (Except X A)
  | .ok a => .ok (.ok a)
  | .error (.failed e) => .ok (.error e)
  | .error .spent => .error .spent

def attempt (p : ExceptT (Halt X) (Program I R) A) : ExceptT (Halt Y) (Program I R) (Except X A) :=
  ExceptT.mk (p.run >>= fun x => pure (caught x))

theorem exec_attempt {p : ExceptT (Halt X) (Program I R) A} {x : Except (Halt Y) (Except X A)} :
    (attempt p).run.Exec E r w es x r' w' ↔ ∃ y, p.run.Exec E r w es y r' w' ∧ x = caught y := by
  change (p.run >>= fun y => pure (caught y)).Exec E r w es x r' w' ↔ _
  rw [exec_bind]
  constructor
  · rintro ⟨es₁, _, y, _, _, rfl, run, last⟩
    obtain ⟨rfl, rfl, rfl, rfl⟩ := exec_pure.mp last
    exact ⟨y, (List.append_nil es₁).symm ▸ run, rfl⟩
  · rintro ⟨y, run, rfl⟩
    exact ⟨es, [], y, r', w', (List.append_nil es).symm, run, .done⟩

/-- How a loop may end when `K` holds of what happened before its last pass: out of fuel,
    or with the result or the failure of that pass. -/
inductive Ends (E : Environment I W) (body : S → ExceptT (Halt X) (Program I R) (S ⊕ A))
    (K : List (Event I) → S → R → Prop) :
    List (Event I) → Except (Halt X) A → R → W → Prop where
  | spent {es : List (Event I)} {s : S} {r : R} {w : W} :
      K es s r → Ends E body K es (.error .spent) r w
  | result {es es' : List (Event I)} {s : S} {r r' : R} {w w' : W} {a : A} :
      K es s r → (body s).run.Exec E r w es' (.ok (.inr a)) r' w' →
      Ends E body K (es ++ es') (.ok a) r' w'
  | halt {es es' : List (Event I)} {s : S} {r r' : R} {w w' : W} {e : Halt X} :
      K es s r → (body s).run.Exec E r w es' (.error e) r' w' →
      Ends E body K (es ++ es') (.error e) r' w'

/-- The loop rule, where some of the loop has been run already. -/
theorem exec_loop_from {body : S → ExceptT (Halt X) (Program I R) (S ⊕ A)} {fuel : Nat} {s : S}
    {x : Except (Halt X) A} {before : List (Event I)} {K : List (Event I) → S → R → Prop}
    (keep : ∀ {es es' : List (Event I)} {s s' : S} {r r' : R} {w w' : W}, K es s r →
      (body s).run.Exec E r w es' (.ok (.inl s')) r' w' → K (es ++ es') s' r')
    (inv : K before s r) (run : (loop body fuel s).run.Exec E r w es x r' w') :
    Ends E body K (before ++ es) x r' w' := by
  -- on the fuel; each pass moves its events to those before
  induction fuel generalizing before s r w es with
  | zero =>
    obtain ⟨rfl, rfl, rfl, rfl⟩ := exec_throw.mp run
    rw [List.append_nil]
    exact .spent inv
  | succ fuel ih =>
    rcases exec_seq.mp run with ⟨e, rfl, pass⟩ | ⟨es₁, es₂, out, r₁, w₁, rfl, pass, rest⟩
    · exact .halt inv pass
    cases out with
    | inr a =>
      obtain ⟨rfl, rfl, rfl, rfl⟩ := exec_return.mp rest
      rw [List.append_nil]
      exact .result inv pass
    | inl s' =>
      rw [← List.append_assoc]
      exact ih (keep inv pass) rest

/-- The loop rule. What every pass that goes round again keeps holds up to the last one. -/
theorem exec_loop {body : S → ExceptT (Halt X) (Program I R) (S ⊕ A)} {fuel : Nat} {s : S}
    {x : Except (Halt X) A} (K : List (Event I) → S → R → Prop)
    (keep : ∀ {es es' : List (Event I)} {s s' : S} {r r' : R} {w w' : W}, K es s r →
      (body s).run.Exec E r w es' (.ok (.inl s')) r' w' → K (es ++ es') s' r')
    (start : K [] s r) (run : (loop body fuel s).run.Exec E r w es x r' w') :
    Ends E body K es x r' w' := exec_loop_from keep start run

/-- Wherever it is started, and whatever it comes to, the program keeps the contract. -/
def Keeps (E : Environment I W) (C : Contract I R W) (p : Program I R A) : Prop :=
  ∀ r w, p.wp E C (fun _ _ _ => True) r w

variable {C : Contract I R W} {p : ExceptT (Halt X) (Program I R) A}

namespace Keeps

theorem pure (x : A) : Keeps E C (Pure.pure x : Program I R A) := fun _ _ => trivial

theorem bind {p : Program I R A} {f : A → Program I R B} (first : Keeps E C p)
    (rest : ∀ a, Keeps E C (f a)) : Keeps E C (p >>= f) := fun r w =>
  (wp_bind p f).mpr (wp_mono (first r w) fun a r w _ => rest a r w)

theorem seq {f : A → ExceptT (Halt X) (Program I R) B} (first : Keeps E C p.run)
    (rest : ∀ a, Keeps E C (f a).run) : Keeps E C (p >>= f).run := by
  rw [ExceptT.run_bind]
  refine first.bind fun x => ?_
  cases x with
  | ok a => exact rest a
  | error e => exact Keeps.pure _

theorem lift {p : Program I R A} (h : Keeps E C p) :
    Keeps E C (ExceptT.lift p : ExceptT (Halt X) (Program I R) A).run :=
  h.bind fun _ => Keeps.pure _

theorem ite {c : Prop} [Decidable c] {p q : ExceptT (Halt X) (Program I R) A}
    (yes : Keeps E C p.run) (no : Keeps E C q.run) : Keeps E C (if c then p else q).run := by
  split
  · exact yes
  · exact no

theorem attempt (h : Keeps E C p.run) :
    Keeps E C (Program.attempt p : ExceptT (Halt Y) (Program I R) (Except X A)).run :=
  h.bind fun _ => Keeps.pure _

theorem adapt {f : Halt X → Halt Y} (h : Keeps E C p.run) : Keeps E C (p.adapt f).run :=
  h.bind fun _ => Keeps.pure _

theorem loop {body : S → ExceptT (Halt X) (Program I R) (S ⊕ A)}
    (pass : ∀ s, Keeps E C (body s).run) (fuel : Nat) (s : S) :
    Keeps E C (Program.loop body fuel s).run := by
  induction fuel generalizing s with
  | zero => exact Keeps.pure _
  | succ fuel ih =>
    refine (pass s).seq fun out => ?_
    cases out with
    | inl s' => exact ih s'
    | inr a => exact Keeps.pure _

theorem exec {p : Program I R A} {a : A} (h : Keeps E C p) (run : p.Exec E r w es a r' w') :
    (∀ e ∈ es, ∃ r w, C.op r w e.op) ∧
      ∀ J : R → Prop, (∀ w r r', C.ram w r r' → J r → J r') → J r → J r' := by
  have kept := h r w
  clear h
  induction run with
  | done => exact ⟨List.forall_mem_nil _, fun _ _ => id⟩
  | load _ ih => exact ih kept
  | store _ ih =>
    obtain ⟨asks, updates⟩ := ih kept.2
    exact ⟨asks, fun J keep start => updates J keep (keep _ _ _ kept.1 start)⟩
  | call step _ ih =>
    obtain ⟨asks, updates⟩ := ih (kept.2 _ _ step)
    exact ⟨List.forall_mem_cons.mpr ⟨⟨_, _, kept.1⟩, asks⟩, updates⟩

end Keeps

end Program

end Semantics
