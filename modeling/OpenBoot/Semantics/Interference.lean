import Mathlib.Logic.Relation
import OpenBoot.Semantics.Program

/-! Programs on a world that also moves by itself.

Between two accesses of the program its surroundings take any number of steps of their own.
What the program knows must be stable under those; where it holds the surroundings off, it
runs as if it were alone.
-/

set_option autoImplicit false

namespace Semantics

/-- What an access does, and what may happen before it. -/
structure Shared (I : Signature) (W : Type) where
  access : W → (op : I.Op) → I.Reply op × W
  acts : W → W → Prop

namespace Shared

variable {I : Signature} {R W A B : Type}

def environment (D : Shared I W) : Environment I W :=
  ⟨fun w op x w' => ∃ v, Relation.ReflTransGen D.acts w v ∧ D.access v op = (x, w')⟩

/-- The surroundings cannot take it away. -/
def Stable (D : Shared I W) (P : W → Prop) : Prop := ∀ w v, D.acts w v → P w → P v

variable {D : Shared I W} {P Q : W → Prop}

theorem Stable.later (stable : D.Stable P) {w v : W} (acts : Relation.ReflTransGen D.acts w v)
    (now : P w) : P v := by
  induction acts with
  | refl => exact now
  | tail _ act ih => exact stable _ _ act ih

theorem Stable.and (left : D.Stable P) (right : D.Stable Q) : D.Stable fun w => P w ∧ Q w :=
  fun w v act holds => ⟨left w v act holds.1, right w v act holds.2⟩

variable {C : Contract I R W} {r : R} {w : W}

/-- The rule for one access: what is stable still holds when it happens. -/
theorem wp_access {op : I.Op} {post : I.Reply op → R → W → Prop} (stable : D.Stable P)
    (asks : C.op r w op) (now : P w)
    (next : ∀ v, P v → post (D.access v op).1 r (D.access v op).2) :
    (Program.perform op : Program I R (I.Reply op)).wp D.environment C post r w := by
  refine ⟨asks, ?_⟩
  rintro x w' ⟨v, acts, same⟩
  have := next v (stable.later acts now)
  rwa [same] at this

/-- The run of a program whose surroundings stand still. -/
def alone (D : Shared I W) : Program I R A → R → W → A × R × W
  | .done a, r, w => (a, r, w)
  | .load k, r, w => D.alone (k r) r w
  | .store r₁ p, _, w => D.alone p r₁ w
  | .call op k, r, w => D.alone (k (D.access w op).1) r (D.access w op).2

@[simp] theorem alone_pure (a : A) : D.alone (pure a : Program I R A) r w = (a, r, w) := rfl

@[simp] theorem alone_get : D.alone (Program.get : Program I R R) r w = (r, r, w) := rfl

@[simp] theorem alone_modify (f : R → R) :
    D.alone (Program.modify f : Program I R Unit) r w = ((), f r, w) := rfl

@[simp] theorem alone_perform (op : I.Op) :
    D.alone (Program.perform op : Program I R (I.Reply op)) r w =
      ((D.access w op).1, r, (D.access w op).2) := rfl

@[simp] theorem alone_bind (p : Program I R A) (f : A → Program I R B) :
    D.alone (p >>= f) r w =
      D.alone (f (D.alone p r w).1) (D.alone p r w).2.1 (D.alone p r w).2.2 := by
  change D.alone (p.bind f) r w = _
  -- on the tree of the first program
  induction p generalizing r w with
  | done a => rfl
  | load k ih => exact ih r
  | store r₁ p ih => exact ih
  | call op k ih => exact ih _

@[simp] theorem alone_ite (c : Prop) [Decidable c] (p q : Program I R A) :
    D.alone (if c then p else q) r w = if c then D.alone p r w else D.alone q r w := by
  split <;> rfl

def Issues (ok : I.Op → Prop) : Program I R A → Prop
  | .done _ => True
  | .load k => ∀ r, Issues ok (k r)
  | .store _ p => Issues ok p
  | .call op k => ok op ∧ ∀ x, Issues ok (k x)

section
variable {ok : I.Op → Prop}

@[simp] theorem issues_pure (a : A) : Issues ok (pure a : Program I R A) := trivial

@[simp] theorem issues_get : Issues ok (Program.get : Program I R R) := fun _ => trivial

@[simp] theorem issues_modify (f : R → R) :
    Issues ok (Program.modify f : Program I R Unit) := fun _ => trivial

@[simp] theorem issues_perform (op : I.Op) :
    Issues ok (Program.perform op : Program I R (I.Reply op)) ↔ ok op :=
  and_iff_left fun _ => trivial

theorem Issues.bind {p : Program I R A} {f : A → Program I R B} (first : Issues ok p)
    (rest : ∀ a, Issues ok (f a)) : Issues ok (p >>= f) := by
  change Issues ok (p.bind f)
  induction p with
  | done a => exact rest a
  | load k ih => exact fun r => ih r (first r)
  | store r₁ p ih => exact ih first
  | call op k ih => exact ⟨first.1, fun x => ih x (first.2 x)⟩

theorem Issues.ite {c : Prop} [Decidable c] {p q : Program I R A} (yes : Issues ok p)
    (no : Issues ok q) : Issues ok (if c then p else q) := by
  split
  · exact yes
  · exact no

end

/-- While `held`, what the surroundings do makes no difference to the operations in `ok`:
    they might as well have done it afterwards. -/
structure HeldOff (D : Shared I W) (ok : I.Op → Prop) (held : W → Prop) : Prop where
  stable : D.Stable held
  keeps : ∀ {v op}, held v → ok op → held (D.access v op).2
  reply : ∀ {v w op}, held v → D.acts v w → ok op → (D.access w op).1 = (D.access v op).1
  commutes : ∀ {v w op}, held v → D.acts v w → ok op →
    Relation.ReflTransGen D.acts (D.access v op).2 (D.access w op).2

namespace HeldOff

variable {ok : I.Op → Prop} {held : W → Prop} (off : D.HeldOff ok held)
include off

theorem later {v w : W} {op : I.Op} (still : held v)
    (acts : Relation.ReflTransGen D.acts v w) (asks : ok op) :
    (D.access w op).1 = (D.access v op).1 ∧
      Relation.ReflTransGen D.acts (D.access v op).2 (D.access w op).2 := by
  induction acts with
  | refl => exact ⟨rfl, .refl⟩
  | tail first act ih =>
    have held := off.stable.later first still
    exact ⟨(off.reply held act asks).trans ih.1, ih.2.trans (off.commutes held act asks)⟩

/-- A program does what it does alone, with some steps of the surroundings after it. -/
theorem wp {p : Program I R A} (issues : Issues ok p) {post : A → R → W → Prop} {v : W}
    (still : held v) (acts : Relation.ReflTransGen D.acts v w)
    (result : ∀ w', Relation.ReflTransGen D.acts (D.alone p r v).2.2 w' →
      post (D.alone p r v).1 (D.alone p r v).2.1 w') :
    p.wp D.environment .any post r w := by
  induction p generalizing r v w with
  | done a => exact result w acts
  | load k ih => exact ih r (issues r) still acts result
  | store r₁ p ih => exact ⟨trivial, ih issues still acts result⟩
  | call op k ih =>
    refine ⟨trivial, ?_⟩
    rintro x w' ⟨u, more, same⟩
    obtain ⟨reply, after⟩ := off.later still (acts.trans more) issues.1
    rw [same] at reply after
    -- the reply is the one the program gets alone
    change x = _ at reply
    subst reply
    exact ih _ (issues.2 _) (off.keeps still issues.1) after result

/-- So it is enough to look at the run it has alone. -/
theorem wp_alone {p : Program I R A} (issues : Issues ok p) (still : held w)
    {post : A → R → W → Prop} (stable : ∀ a r, D.Stable (post a r))
    (result : post (D.alone p r w).1 (D.alone p r w).2.1 (D.alone p r w).2.2) :
    p.wp D.environment .any post r w :=
  off.wp issues still .refl fun _ acts => (stable _ _).later acts result

end HeldOff

/-- From `pre`, a program that ends does so in `post`, whatever the surroundings do. -/
def Triple (D : Shared I W) (pre : R → W → Prop) (p : Program I R A) (post : A → R → W → Prop) :
    Prop :=
  ∀ r w, pre r w → p.wp D.environment .any post r w

namespace Triple

variable {pre : R → W → Prop} {mid : A → R → W → Prop} {post : B → R → W → Prop}

theorem pure {b : B} (imp : ∀ r w, pre r w → post b r w) :
    D.Triple pre (pure b : Program I R B) post := imp

theorem bind {p : Program I R A} {f : A → Program I R B} (first : D.Triple pre p mid)
    (rest : ∀ a, D.Triple (mid a) (f a) post) : D.Triple pre (p >>= f) post := by
  intro r w h
  rw [Program.wp_bind]
  exact Program.wp_mono (first r w h) fun a r w h => rest a r w h

theorem via {p : Program I R A} {f : A → Program I R B} (mid : A → R → W → Prop)
    (first : D.Triple pre p mid) (rest : ∀ a, D.Triple (mid a) (f a) post) :
    D.Triple pre (p >>= f) post := bind first rest

theorem get {post : R → R → W → Prop} (imp : ∀ r w, pre r w → post r r w) :
    D.Triple pre (Program.get : Program I R R) post := imp

theorem modify {f : R → R} {post : Unit → R → W → Prop}
    (imp : ∀ r w, pre r w → post () (f r) w) :
    D.Triple pre (Program.modify f : Program I R Unit) post :=
  fun r w h => ⟨trivial, imp r w h⟩

theorem access {op : I.Op} {post : I.Reply op → R → W → Prop} (stable : ∀ r, D.Stable (pre r))
    (next : ∀ r w, pre r w → post (D.access w op).1 r (D.access w op).2) :
    D.Triple pre (Program.perform op : Program I R (I.Reply op)) post :=
  fun r _ h => wp_access (stable r) trivial h fun v now => next r v now

theorem ite {c : Prop} [Decidable c] {p q : Program I R B} (yes : c → D.Triple pre p post)
    (no : ¬ c → D.Triple pre q post) : D.Triple pre (if c then p else q) post := by
  split
  · next h => exact yes h
  · next h => exact no h

theorem weaken {p : Program I R B} {pre' : R → W → Prop} {post' : B → R → W → Prop}
    (h : D.Triple pre p post) (imp : ∀ r w, pre' r w → pre r w)
    (imp' : ∀ b r w, post b r w → post' b r w) : D.Triple pre' p post' :=
  fun r w h' => Program.wp_mono (h r w (imp r w h')) imp'

theorem frame {p : Program I R B} {fact : Prop} (h : fact → D.Triple pre p post) :
    D.Triple (fun r w => pre r w ∧ fact) p fun b r w => post b r w ∧ fact :=
  fun r w h' => Program.wp_mono (h h'.2 r w h'.1) fun _ _ _ kept => ⟨kept, h'.2⟩

theorem alone {ok : I.Op → Prop} {held : W → Prop} (off : D.HeldOff ok held)
    {p : Program I R B} (issues : Issues ok p) (still : ∀ r w, pre r w → held w)
    (stable : ∀ b r, D.Stable (post b r))
    (result : ∀ r w, pre r w →
      post (D.alone p r w).1 (D.alone p r w).2.1 (D.alone p r w).2.2) :
    D.Triple pre p post :=
  fun r w h => off.wp_alone issues (still r w h) stable (result r w h)

theorem exec {p : Program I R B} {r r' : R} {w w' : W} {es : List (Event I)} {b : B}
    (h : D.Triple pre p post) (start : pre r w)
    (run : p.Exec D.environment r w es b r' w') : post b r' w' :=
  Program.wp_exec (h r w start) run

end Triple

end Shared

end Semantics
