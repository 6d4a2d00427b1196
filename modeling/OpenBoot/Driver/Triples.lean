import OpenBoot.Driver.Flash

/-! Triples for driver code against whatever answers its register accesses. -/

set_option autoImplicit false

namespace OpenBoot.Driver

open Semantics

variable {W A B : Type} {E : Environment registers W} {stop pre : W → Prop} {mid : A → W → Prop}
  {post : B → W → Prop}

theorem wpe_access {stop : Hung → Unit → W → Prop} {op : RegOp} {post : op.Reply → Unit → W → Prop}
    {w : W} :
    Program.wpe E .any stop post (access op) () w ↔ ∀ x w', E.step w op x w' → post x () w' := by
  unfold access
  rw [Program.wpe_call]
  exact iff_of_eq (true_and _)

/-- From `pre`, code that returns does so in `post`, and code that hangs in `stop`. -/
def Triple (E : Environment registers W) (stop pre : W → Prop) (p : Code A) (post : A → W → Prop) :
    Prop :=
  ∀ w, pre w → Program.wpe E .any (fun _ _ w => stop w) (fun a _ w => post a w) p () w

namespace Triple

theorem pure {b : B} (imp : ∀ w, pre w → post b w) : Triple E stop pre (pure b : Code B) post := imp

theorem bind {p : Code A} {f : A → Code B} (first : Triple E stop pre p mid)
    (rest : ∀ a, Triple E stop (mid a) (f a) post) : Triple E stop pre (p >>= f) post := by
  intro w h
  rw [Program.wpe_bind]
  exact Program.wpe_mono (first w h) fun a _ w h => rest a w h

theorem via {p : Code A} {f : A → Code B} (mid : A → W → Prop) (first : Triple E stop pre p mid)
    (rest : ∀ a, Triple E stop (mid a) (f a) post) : Triple E stop pre (p >>= f) post :=
  bind first rest

theorem access {op : RegOp} {post : op.Reply → W → Prop}
    (step : ∀ w x w', pre w → E.step w op x w' → post x w') :
    Triple E stop pre (access op) post := by
  intro w h
  apply wpe_access.mpr
  intro x w'
  exact step w x w' h

theorem ite {c : Prop} [Decidable c] {p q : Code B} (yes : c → Triple E stop pre p post)
    (no : ¬ c → Triple E stop pre q post) : Triple E stop pre (if c then p else q) post := by
  split
  · next h => exact yes h
  · next h => exact no h

theorem weaken {p : Code B} {pre' : W → Prop} {post' : B → W → Prop}
    (h : Triple E stop pre p post) (imp : ∀ w, pre' w → pre w)
    (imp' : ∀ b w, post b w → post' b w) : Triple E stop pre' p post' :=
  fun w h' => Program.wpe_mono (h w (imp w h')) fun b _ w => imp' b w

theorem each {ι : Type} {p : Code B} {pre : ι → W → Prop} {post : ι → B → W → Prop}
    (h : ∀ i, Triple E stop (pre i) p (post i)) :
    Triple E stop (fun w => ∃ i, pre i w) p fun b w => ∃ i, post i b w := by
  rintro w ⟨i, holds⟩
  exact Program.wpe_mono (h i w holds) fun b _ w done => ⟨i, done⟩

theorem exec {p : Code A} {post : A → W → Prop} (h : Triple E stop pre p post) {w w' : W}
    {es : List (Event registers)} {x : Except Hung A} (start : pre w)
    (run : p.run.Exec E () w es x () w') :
    (∀ a, x = .ok a → post a w') ∧ ∀ e, x = .error e → stop w' :=
  Program.wpe_exec (h w start) run

end Triple

end OpenBoot.Driver
