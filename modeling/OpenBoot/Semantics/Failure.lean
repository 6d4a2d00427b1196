import OpenBoot.Semantics.Program

/-! Runs of programs that may fail with an error. -/

set_option autoImplicit false

namespace Semantics.Program

variable {I : Signature} {R W A B X Y : Type} {E : Environment I W} {r r' : R} {w w' : W}
  {es : List (Event I)}

@[simp] theorem exec_return {a : A} {x : Except X A} :
    (pure a : ExceptT X (Program I R) A).run.Exec E r w es x r' w' ↔
      es = [] ∧ x = .ok a ∧ r = r' ∧ w = w' := exec_pure

@[simp] theorem exec_throw {e : X} {x : Except X A} :
    (throw e : ExceptT X (Program I R) A).run.Exec E r w es x r' w' ↔
      es = [] ∧ x = .error e ∧ r = r' ∧ w = w' := exec_pure

@[simp] theorem exec_mk {y x : Except X A} :
    (ExceptT.mk (pure y) : ExceptT X (Program I R) A).run.Exec E r w es x r' w' ↔
      es = [] ∧ x = y ∧ r = r' ∧ w = w' := exec_pure

theorem exec_lift {p : Program I R A} {x : Except X A} :
    (ExceptT.lift p : ExceptT X (Program I R) A).run.Exec E r w es x r' w' ↔
      ∃ a, x = .ok a ∧ p.Exec E r w es a r' w' := by
  change (p >>= fun a => pure (.ok a)).Exec E r w es x r' w' ↔ _
  rw [exec_bind]
  constructor
  · rintro ⟨es₁, _, a, _, _, rfl, run, last⟩
    obtain ⟨rfl, rfl, rfl, rfl⟩ := exec_pure.mp last
    exact ⟨a, rfl, (List.append_nil es₁).symm ▸ run⟩
  · rintro ⟨a, rfl, run⟩
    exact ⟨es, [], a, r', w', (List.append_nil es).symm, run, .done⟩

theorem exec_seq {p : ExceptT X (Program I R) A} {f : A → ExceptT X (Program I R) B}
    {x : Except X B} : (p >>= f).run.Exec E r w es x r' w' ↔
      (∃ e, x = .error e ∧ p.run.Exec E r w es (.error e) r' w') ∨
      ∃ es₁ es₂ a r₁ w₁, es = es₁ ++ es₂ ∧ p.run.Exec E r w es₁ (.ok a) r₁ w₁ ∧
        (f a).run.Exec E r₁ w₁ es₂ x r' w' := by
  rw [ExceptT.run_bind, exec_bind]
  constructor
  · rintro ⟨es₁, es₂, out, r₁, w₁, rfl, first, rest⟩
    cases out with
    | ok a => exact .inr ⟨es₁, es₂, a, r₁, w₁, rfl, first, rest⟩
    | error e =>
      obtain ⟨rfl, rfl, rfl, rfl⟩ := exec_pure.mp rest
      rw [List.append_nil]
      exact .inl ⟨e, rfl, first⟩
  · rintro (⟨e, rfl, first⟩ | ⟨es₁, es₂, a, r₁, w₁, rfl, first, rest⟩)
    · exact ⟨es, [], .error e, r', w', (List.append_nil es).symm, first, .done⟩
    · exact ⟨es₁, es₂, .ok a, r₁, w₁, rfl, first, rest⟩

theorem exec_adapt {p : ExceptT X (Program I R) A} {g : X → Y} {x : Except Y A}
    (run : (p.adapt g).run.Exec E r w es x r' w') :
    ∃ y, p.run.Exec E r w es y r' w' ∧ x = y.mapError g := by
  change (p.run >>= fun y => pure (y.mapError g)).Exec E r w es x r' w' at run
  obtain ⟨es₁, _, y, _, _, rfl, first, last⟩ := exec_bind.mp run
  obtain ⟨rfl, rfl, rfl, rfl⟩ := exec_pure.mp last
  rw [List.append_nil]
  exact ⟨y, first, rfl⟩

/-- Along every run the contract is kept, every result satisfies `post`, and every error
    leaves a state in `stop`. -/
def wpe (E : Environment I W) (C : Contract I R W) (stop : X → R → W → Prop)
    (post : A → R → W → Prop) (p : ExceptT X (Program I R) A) (r : R) (w : W) : Prop :=
  p.run.wp E C (fun x r w => match x with
    | .ok a => post a r w
    | .error e => stop e r w) r w

section
variable {C : Contract I R W} {stop : X → R → W → Prop} {post : A → R → W → Prop}

@[simp] theorem wpe_pure (a : A) :
    wpe E C stop post (pure a : ExceptT X (Program I R) A) r w ↔ post a r w := Iff.rfl

@[simp] theorem wpe_throw (e : X) :
    wpe E C stop post (throw e : ExceptT X (Program I R) A) r w ↔ stop e r w := Iff.rfl

@[simp] theorem wpe_call (op : I.Op) {post : I.Reply op → R → W → Prop} :
    wpe E C stop post (ExceptT.lift (perform op) : ExceptT X (Program I R) (I.Reply op)) r w ↔
      C.op r w op ∧ ∀ x w', E.step w op x w' → post x r w' := Iff.rfl

@[simp] theorem wpe_bind (p : ExceptT X (Program I R) A) (f : A → ExceptT X (Program I R) B)
    {post : B → R → W → Prop} : wpe E C stop post (p >>= f) r w ↔
      wpe E C stop (fun a r w => wpe E C stop post (f a) r w) p r w := by
  unfold wpe
  rw [ExceptT.run_bind, wp_bind]
  constructor
  · intro h
    refine wp_mono h fun x r w => ?_
    cases x <;> exact id
  · intro h
    refine wp_mono h fun x r w => ?_
    cases x <;> exact id

@[simp] theorem wpe_ite (c : Prop) [Decidable c] (p q : ExceptT X (Program I R) A) :
    wpe E C stop post (if c then p else q) r w ↔
      (c → wpe E C stop post p r w) ∧ (¬ c → wpe E C stop post q r w) := by
  by_cases h : c <;> simp [h]

theorem wpe_imp {p : ExceptT X (Program I R) A} {stop' : X → R → W → Prop}
    {post' : A → R → W → Prop} (h : wpe E C stop post p r w)
    (fail : ∀ e r w, stop e r w → stop' e r w) (imp : ∀ a r w, post a r w → post' a r w) :
    wpe E C stop' post' p r w := by
  refine wp_mono h fun x r w => ?_
  cases x with
  | ok a => exact imp a r w
  | error e => exact fail e r w

theorem wpe_mono {p : ExceptT X (Program I R) A} {post' : A → R → W → Prop}
    (h : wpe E C stop post p r w) (imp : ∀ a r w, post a r w → post' a r w) :
    wpe E C stop post' p r w := wpe_imp h (fun _ _ _ => id) imp

theorem wpe_exec {p : ExceptT X (Program I R) A} {x : Except X A} (h : wpe E C stop post p r w)
    (run : p.run.Exec E r w es x r' w') :
    (∀ a, x = .ok a → post a r' w') ∧ ∀ e, x = .error e → stop e r' w' := by
  have final := wp_exec h run
  constructor
  · rintro a rfl
    exact final
  · rintro e rfl
    exact final

end

end Semantics.Program
