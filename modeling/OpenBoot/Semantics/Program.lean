import Mathlib.Tactic.Common

/-! Finite programs that work on a private store and call a port.

A program is a tree: it loads or replaces the store, calls one port operation
and continues with the reply, or returns. What a call does is the business of
an environment, a relation, so replies and effects may be chosen by an
adversary. The tree keeps every point between two calls visible, which a state
monad would not.
-/

set_option autoImplicit false

namespace Semantics

/-- The operations of a port and the replies each one admits. -/
structure Signature where
  Op : Type
  Reply : Op → Type

structure Event (I : Signature) where
  op : I.Op
  reply : I.Reply op

inductive Program (I : Signature) (R A : Type) : Type where
  | done (value : A)
  | load (next : R → Program I R A)
  | store (ram : R) (next : Program I R A)
  | call (op : I.Op) (next : I.Reply op → Program I R A)

variable {I : Signature} {R W A B : Type}

namespace Program

def bind : Program I R A → (A → Program I R B) → Program I R B
  | .done a, f => f a
  | .load k, f => .load fun r => (k r).bind f
  | .store r p, f => .store r (p.bind f)
  | .call op k, f => .call op fun x => (k x).bind f

instance : Monad (Program I R) where
  pure := .done
  bind := bind

def get : Program I R R := .load .done

def modify (f : R → R) : Program I R Unit := .load fun r => .store (f r) (.done ())

def perform (op : I.Op) : Program I R (I.Reply op) := .call op .done

end Program

/-- Which replies and successor worlds an operation may have. -/
structure Environment (I : Signature) (W : Type) where
  step : W → (op : I.Op) → I.Reply op → W → Prop

def Environment.Total (E : Environment I W) : Prop :=
  ∀ w op, ∃ x w', E.step w op x w'

/-- A complete run with the port events it issued, in order. -/
inductive Program.Exec (E : Environment I W) :
    Program I R A → R → W → List (Event I) → A → R → W → Prop where
  | done {a : A} {r : R} {w : W} : Exec E (.done a) r w [] a r w
  | load {k : R → Program I R A} {r r' : R} {w w' : W} {es : List (Event I)} {a : A} :
      Exec E (k r) r w es a r' w' → Exec E (.load k) r w es a r' w'
  | store {p : Program I R A} {r r₁ r' : R} {w w' : W} {es : List (Event I)} {a : A} :
      Exec E p r₁ w es a r' w' → Exec E (.store r₁ p) r w es a r' w'
  | call {op : I.Op} {k : I.Reply op → Program I R A} {r r' : R} {w w₁ w' : W}
      {x : I.Reply op} {es : List (Event I)} {a : A} :
      E.step w op x w₁ → Exec E (k x) r w₁ es a r' w' →
      Exec E (.call op k) r w (⟨op, x⟩ :: es) a r' w'

/-- A program cannot get stuck: it is a finite tree and every call is answered. -/
theorem Program.exec_total {E : Environment I W} (total : E.Total) (p : Program I R A)
    (r : R) (w : W) : ∃ es a r' w', p.Exec E r w es a r' w' := by
  induction p generalizing r w with
  | done a => exact ⟨[], a, r, w, .done⟩
  | load k ih =>
    obtain ⟨es, a, r', w', run⟩ := ih r r w
    exact ⟨es, a, r', w', .load run⟩
  | store r₁ p ih =>
    obtain ⟨es, a, r', w', run⟩ := ih r₁ w
    exact ⟨es, a, r', w', .store run⟩
  | call op k ih =>
    obtain ⟨x, w₁, step⟩ := total w op
    obtain ⟨es, a, r', w', run⟩ := ih x r w₁
    exact ⟨⟨op, x⟩ :: es, a, r', w', .call step run⟩

theorem Program.Exec.bind {E : Environment I W} {p : Program I R A} {f : A → Program I R B}
    {r r₁ r' : R} {w w₁ w' : W} {es es' : List (Event I)} {a : A} {b : B}
    (first : p.Exec E r w es a r₁ w₁) (rest : (f a).Exec E r₁ w₁ es' b r' w') :
    (p >>= f).Exec E r w (es ++ es') b r' w' := by
  change (p.bind f).Exec E r w _ b r' w'
  induction first with
  | done => exact rest
  | load _ ih => exact .load (ih rest)
  | store _ ih => exact .store (ih rest)
  | call step _ ih => exact .call step (ih rest)

theorem Program.Exec.mono {E E' : Environment I W} {p : Program I R A} {r r' : R} {w w' : W}
    {es : List (Event I)} {a : A} (run : p.Exec E r w es a r' w')
    (wider : ∀ w op x w', E.step w op x w' → E'.step w op x w') : p.Exec E' r w es a r' w' := by
  induction run with
  | done => exact .done
  | load _ ih => exact .load ih
  | store _ ih => exact .store ih
  | call step _ ih => exact .call (wider _ _ _ _ step) ih

section
variable {E : Environment I W} {r r' : R} {w w' : W} {es : List (Event I)}

@[simp] theorem Program.exec_pure {a b : A} :
    (pure a : Program I R A).Exec E r w es b r' w' ↔ es = [] ∧ b = a ∧ r = r' ∧ w = w' := by
  constructor
  · rintro ⟨⟩
    exact ⟨rfl, rfl, rfl, rfl⟩
  · rintro ⟨rfl, rfl, rfl, rfl⟩
    exact .done

@[simp] theorem Program.exec_get {a : R} :
    (get : Program I R R).Exec E r w es a r' w' ↔ es = [] ∧ r = a ∧ r = r' ∧ w = w' := by
  constructor
  · rintro (_ | ⟨⟨⟩⟩)
    exact ⟨rfl, rfl, rfl, rfl⟩
  · rintro ⟨rfl, rfl, rfl, rfl⟩
    exact .load .done

@[simp] theorem Program.exec_modify {f : R → R} {a : Unit} :
    (modify f : Program I R Unit).Exec E r w es a r' w' ↔ es = [] ∧ r' = f r ∧ w = w' := by
  constructor
  · rintro (_ | ⟨_ | _ | ⟨⟨⟩⟩⟩)
    exact ⟨rfl, rfl, rfl⟩
  · rintro ⟨rfl, rfl, rfl⟩
    exact .load (.store .done)

@[simp] theorem Program.exec_perform {op : I.Op} {x : I.Reply op} :
    (perform op : Program I R (I.Reply op)).Exec E r w es x r' w' ↔
      es = [⟨op, x⟩] ∧ r = r' ∧ E.step w op x w' := by
  constructor
  · rintro (_ | _ | _ | ⟨step, ⟨⟩⟩)
    exact ⟨rfl, rfl, step⟩
  · rintro ⟨rfl, rfl, step⟩
    exact .call step .done

theorem Program.exec_bind {p : Program I R A} {f : A → Program I R B} {b : B} :
    (p >>= f).Exec E r w es b r' w' ↔ ∃ es₁ es₂ a r₁ w₁, es = es₁ ++ es₂ ∧
      p.Exec E r w es₁ a r₁ w₁ ∧ (f a).Exec E r₁ w₁ es₂ b r' w' := by
  constructor
  · intro run
    change (p.bind f).Exec E r w es b r' w' at run
    -- on the tree of the first program
    induction p generalizing r w es with
    | done a => exact ⟨[], es, a, r, w, rfl, .done, run⟩
    | load k ih =>
      cases run with
      | load run =>
        obtain ⟨es₁, es₂, a, r₁, w₁, split, first, rest⟩ := ih _ run
        exact ⟨es₁, es₂, a, r₁, w₁, split, .load first, rest⟩
    | store r₀ p ih =>
      cases run with
      | store run =>
        obtain ⟨es₁, es₂, a, r₁, w₁, split, first, rest⟩ := ih run
        exact ⟨es₁, es₂, a, r₁, w₁, split, .store first, rest⟩
    | call op k ih =>
      cases run with
      | call step run =>
        obtain ⟨es₁, es₂, a, r₁, w₁, rfl, first, rest⟩ := ih _ run
        exact ⟨_ :: es₁, es₂, a, r₁, w₁, rfl, .call step first, rest⟩
  · rintro ⟨es₁, es₂, a, r₁, w₁, rfl, first, rest⟩
    exact first.bind rest

theorem Program.exec_ite {c : Prop} [Decidable c] {p q : Program I R A} {a : A} :
    (if c then p else q).Exec E r w es a r' w' ↔
      (c ∧ p.Exec E r w es a r' w') ∨ (¬ c ∧ q.Exec E r w es a r' w') := by
  by_cases h : c <;> simp [h]

end

/-- What a program is allowed to do on the way: which operations it may issue
    in which store and world, and which store updates it may make. -/
structure Contract (I : Signature) (R W : Type) where
  op : R → W → I.Op → Prop
  ram : W → R → R → Prop

def Contract.any : Contract I R W := ⟨fun _ _ _ => True, fun _ _ _ => True⟩

/-- Along every run the contract is kept, and every result satisfies `post`. -/
def Program.wp (E : Environment I W) (C : Contract I R W) (post : A → R → W → Prop) :
    Program I R A → R → W → Prop
  | .done a, r, w => post a r w
  | .load k, r, w => (k r).wp E C post r w
  | .store r₁ p, r, w => C.ram w r r₁ ∧ p.wp E C post r₁ w
  | .call op k, r, w => C.op r w op ∧ ∀ x w', E.step w op x w' → (k x).wp E C post r w'

namespace Program

variable {E : Environment I W} {C : Contract I R W} {post : A → R → W → Prop} {r : R} {w : W}

@[simp] theorem wp_pure (a : A) : (pure a : Program I R A).wp E C post r w ↔ post a r w := Iff.rfl

@[simp] theorem wp_get {post : R → R → W → Prop} :
    (get : Program I R R).wp E C post r w ↔ post r r w := Iff.rfl

@[simp] theorem wp_modify (f : R → R) {post : Unit → R → W → Prop} :
    (modify f : Program I R Unit).wp E C post r w ↔ C.ram w r (f r) ∧ post () (f r) w := Iff.rfl

@[simp] theorem wp_bind (p : Program I R A) (f : A → Program I R B) {post : B → R → W → Prop} :
    (p >>= f).wp E C post r w ↔ p.wp E C (fun a r w => (f a).wp E C post r w) r w := by
  change (p.bind f).wp E C post r w ↔ _
  -- on the tree of the first program; the second hangs below each of its leaves
  induction p generalizing r w with
  | done a => rfl
  | load k ih => exact ih r
  | store r₁ p ih => exact and_congr_right fun _ => ih
  | call op k ih =>
    exact and_congr_right fun _ => forall_congr' fun x => forall_congr' fun w' =>
      imp_congr_right fun _ => ih x

@[simp] theorem wp_ite (c : Prop) [Decidable c] (p q : Program I R A) :
    (if c then p else q).wp E C post r w ↔
      (c → p.wp E C post r w) ∧ (¬c → q.wp E C post r w) := by
  by_cases h : c <;> simp [h]

theorem wp_mono {p : Program I R A} {post' : A → R → W → Prop} (h : p.wp E C post r w)
    (imp : ∀ a r w, post a r w → post' a r w) : p.wp E C post' r w := by
  induction p generalizing r w with
  | done a => exact imp a r w h
  | load k ih => exact ih r h
  | store r₁ p ih => exact ⟨h.1, ih h.2⟩
  | call op k ih => exact ⟨h.1, fun x w' step => ih x (h.2 x w' step)⟩

/-- What `wp` promises of the result holds of every complete run. -/
theorem wp_exec {p : Program I R A} {es : List (Event I)} {a : A} {r' : R} {w' : W}
    (h : p.wp E C post r w) (run : p.Exec E r w es a r' w') : post a r' w' := by
  induction run with
  | done => exact h
  | load _ ih => exact ih h
  | store _ ih => exact ih h.2
  | call step _ ih => exact ih (h.2 _ _ step)

/-- What every step the contract allows keeps, a complete run keeps. -/
theorem wp_exec_keeps {J : R → W → Prop} {p : Program I R A} {es : List (Event I)} {a : A} {r' : R}
    {w' : W} (ram : ∀ w r r', C.ram w r r' → J r w → J r' w)
    (op : ∀ r w op x w', C.op r w op → E.step w op x w' → J r w → J r w')
    (h : p.wp E C post r w) (run : p.Exec E r w es a r' w') (start : J r w) : J r' w' := by
  induction run with
  | done => exact start
  | load _ ih => exact ih h start
  | store _ ih => exact ih h.2 (ram _ _ _ h.1 start)
  | call step _ ih => exact ih (h.2 _ _ step) (op _ _ _ _ _ h.1 step start)

/-- The program issues only operations in `ask`, leaves its store alone and
    returns a value in `want`, whatever it is told. -/
def Queries (ask : I.Op → Prop) (want : A → Prop) : Program I R A → Prop
  | .done a => want a
  | .load _ => False
  | .store _ _ => False
  | .call op k => ask op ∧ ∀ x, (k x).Queries ask want

/-- The result when every operation is answered by `reply` and every load by
    `r`; store updates are dropped, so this is meant for programs that only ask. -/
def answer (reply : (op : I.Op) → I.Reply op) (r : R) : Program I R A → A
  | .done a => a
  | .load k => (k r).answer reply r
  | .store _ p => p.answer reply r
  | .call op k => (k (reply op)).answer reply r

section
variable {ask ask' : I.Op → Prop} {want : A → Prop}

@[simp] theorem queries_pure (a : A) :
    (pure a : Program I R A).Queries ask want ↔ want a := Iff.rfl

theorem Queries.bind {p : Program I R A} {f : A → Program I R B} {want' : B → Prop}
    (h : p.Queries ask want) (hf : ∀ a, want a → (f a).Queries ask want') :
    (p >>= f).Queries ask want' := by
  change (p.bind f).Queries ask want'
  induction p with
  | done a => exact hf a h
  | load _ _ => exact h.elim
  | store _ _ _ => exact h.elim
  | call op k ih => exact ⟨h.1, fun x => ih x (h.2 x)⟩

/-- The second program is not told what the first found. -/
theorem Queries.seq {p : Program I R A} {f : A → Program I R B} {want' : B → Prop}
    (h : p.Queries ask fun _ => True) (hf : ∀ a, (f a).Queries ask want') :
    (p >>= f).Queries ask want' := h.bind fun a _ => hf a

theorem Queries.mono {p : Program I R A} {want' : A → Prop} (h : p.Queries ask want)
    (imp : ∀ op, ask op → ask' op) (imp' : ∀ a, want a → want' a) : p.Queries ask' want' := by
  induction p with
  | done a => exact imp' a h
  | load _ _ => exact h.elim
  | store _ _ _ => exact h.elim
  | call op k ih => exact ⟨imp op h.1, fun x => ih x (h.2 x)⟩

theorem Queries.answer {p : Program I R A} (h : p.Queries ask want)
    (reply : (op : I.Op) → I.Reply op) (r : R) : want (p.answer reply r) := by
  induction p with
  | done a => exact h
  | load _ _ => exact h.elim
  | store _ _ _ => exact h.elim
  | call op k ih => exact ih _ (h.2 _)

theorem Queries.exec {ask : I.Op → Prop} {want : A → Prop} {p : Program I R A}
    (h : p.Queries ask want) (silent : ∀ op x w w', ask op → E.step w op x w' → w' = w)
    {r' : R} {w' : W} {es : List (Event I)} {a : A} (run : p.Exec E r w es a r' w') :
    want a ∧ r' = r ∧ w' = w ∧ ∀ e ∈ es, ask e.op := by
  induction run with
  | done => exact ⟨h, rfl, rfl, nofun⟩
  | load _ _ => exact h.elim
  | store _ _ => exact h.elim
  | call step _ ih =>
    obtain ⟨wanted, rfl, rfl, asked⟩ := ih (h.2 _)
    exact ⟨wanted, rfl, silent _ _ _ _ h.1 step, List.forall_mem_cons.mpr ⟨h.1, asked⟩⟩

/-- Neither the store nor replies to questions not asked matter. -/
theorem Queries.answer_congr {p : Program I R A} (h : p.Queries ask want)
    {reply reply' : (op : I.Op) → I.Reply op} (same : ∀ op, ask op → reply op = reply' op)
    (r r' : R) : p.answer reply r = p.answer reply' r' := by
  induction p with
  | done a => rfl
  | load _ _ => exact h.elim
  | store _ _ _ => exact h.elim
  | call op k ih =>
    simp only [Program.answer, same op h.1]
    exact ih _ (h.2 _)

end

@[simp] theorem answer_pure (reply : (op : I.Op) → I.Reply op) (a : A) :
    (pure a : Program I R A).answer reply r = a := rfl

@[simp] theorem answer_get (reply : (op : I.Op) → I.Reply op) :
    (get : Program I R R).answer reply r = r := rfl

@[simp] theorem answer_bind (reply : (op : I.Op) → I.Reply op) (p : Program I R A)
    (f : A → Program I R B) :
    (p >>= f).answer reply r = (f (p.answer reply r)).answer reply r := by
  change (p.bind f).answer reply r = _
  induction p with
  | done a => rfl
  | load k ih => exact ih r
  | store r₁ p ih => exact ih
  | call op k ih => exact ih (reply op)

@[simp] theorem answer_ite (reply : (op : I.Op) → I.Reply op) (c : Prop) [Decidable c]
    (p q : Program I R A) :
    (if c then p else q).answer reply r = if c then p.answer reply r else q.answer reply r := by
  split <;> rfl

/-- A querying program in an environment that leaves the world alone: the
    result is arbitrary within `want`, but nothing else changes. -/
theorem wp_queries {ask : I.Op → Prop} {want : A → Prop} {p : Program I R A}
    (h : p.Queries ask want) (silent : ∀ op x w', ask op → E.step w op x w' → w' = w)
    (allowed : ∀ op, ask op → C.op r w op) (all : ∀ a, want a → post a r w) :
    p.wp E C post r w := by
  induction p with
  | done a => exact all a h
  | load _ _ => exact h.elim
  | store _ _ _ => exact h.elim
  | call op k ih =>
    refine ⟨allowed op h.1, fun x w' step => ?_⟩
    obtain rfl := silent op x w' h.1 step
    exact ih x (h.2 x)

/-- If in addition the environment has only one reply to each question, the
    result is the program's answer to those replies. -/
theorem wp_queries_answer {ask : I.Op → Prop} {want : A → Prop}
    {reply : (op : I.Op) → I.Reply op} {p : Program I R A} (h : p.Queries ask want)
    (coherent : ∀ op x w', ask op → E.step w op x w' → x = reply op ∧ w' = w)
    (allowed : ∀ op, ask op → C.op r w op) (r₀ : R) (result : post (p.answer reply r₀) r w) :
    p.wp E C post r w := by
  induction p with
  | done a => exact result
  | load _ _ => exact h.elim
  | store _ _ _ => exact h.elim
  | call op k ih =>
    refine ⟨allowed op h.1, fun x w' step => ?_⟩
    -- the only reply the environment has is the one the answer was computed with
    obtain ⟨rfl, rfl⟩ := coherent op x w' h.1 step
    exact ih _ (h.2 _) result

/-- Whatever is loaded and replied, the result is in `want`. -/
def Returns (want : A → Prop) : Program I R A → Prop
  | .done a => want a
  | .load k => ∀ r, (k r).Returns want
  | .store _ p => p.Returns want
  | .call _ k => ∀ x, (k x).Returns want

section
variable {want : A → Prop}

@[simp] theorem returns_pure (a : A) : (pure a : Program I R A).Returns want ↔ want a := Iff.rfl

theorem returns_true (p : Program I R A) : p.Returns fun _ => True := by
  induction p with
  | done a => exact trivial
  | load k ih => exact ih
  | store r p ih => exact ih
  | call op k ih => exact ih

theorem Returns.bind {p : Program I R A} {f : A → Program I R B} {want' : B → Prop}
    (h : p.Returns want) (hf : ∀ a, want a → (f a).Returns want') : (p >>= f).Returns want' := by
  change (p.bind f).Returns want'
  induction p with
  | done a => exact hf a h
  | load k ih => exact fun r => ih r (h r)
  | store r p ih => exact ih h
  | call op k ih => exact fun x => ih x (h x)

theorem Returns.after {p : Program I R A} {f : A → Program I R B} {want' : B → Prop}
    (hf : ∀ a, (f a).Returns want') : (p >>= f).Returns want' :=
  (returns_true p).bind fun a _ => hf a

theorem Returns.ite {c : Prop} [Decidable c] {p q : Program I R A} (yes : p.Returns want)
    (no : q.Returns want) : (if c then p else q).Returns want := by
  by_cases h : c <;> simpa [h]

theorem Returns.check {c : Prop} [Decidable c] {a : A} {q : Program I R A} (yes : want a)
    (no : q.Returns want) : (if c then pure a else q).Returns want := .ite yes no

theorem Returns.exec {p : Program I R A} (h : p.Returns want) {r r' : R} {w w' : W}
    {es : List (Event I)} {a : A} (run : p.Exec E r w es a r' w') : want a := by
  induction run with
  | done => exact h
  | load _ ih => exact ih (h _)
  | store _ ih => exact ih h
  | call _ _ ih => exact ih (h _)

end

/-- One run, under a handler that picks a reply and a successor world. -/
def run (h : W → (op : I.Op) → I.Reply op × W) :
    Program I R A → R → W → List (Event I) × A × R × W
  | .done a, r, w => ([], a, r, w)
  | .load k, r, w => (k r).run h r w
  | .store r₁ p, _, w => p.run h r₁ w
  | .call op k, r, w =>
    let out := (k (h w op).1).run h r (h w op).2
    (⟨op, (h w op).1⟩ :: out.1, out.2)

theorem exec_run {h : W → (op : I.Op) → I.Reply op × W}
    (sound : ∀ w op, E.step w op (h w op).1 (h w op).2) (p : Program I R A) (r : R) (w : W) :
    p.Exec E r w (p.run h r w).1 (p.run h r w).2.1 (p.run h r w).2.2.1 (p.run h r w).2.2.2 := by
  induction p generalizing r w with
  | done a => exact .done
  | load k ih => exact .load (ih r r w)
  | store r₁ p ih => exact .store (ih r₁ w)
  | call op k ih => exact .call (sound w op) (ih _ r _)

/-- Stop before the call with the given number, counting from zero. -/
def pause (h : W → (op : I.Op) → I.Reply op × W) :
    Nat → Program I R A → R → W → Option ((op : I.Op) × (I.Reply op → Program I R A) × R × W)
  | _, .done _, _, _ => none
  | n, .load k, r, w => (k r).pause h n r w
  | n, .store r₁ p, _, w => p.pause h n r₁ w
  | 0, .call op k, r, w => some ⟨op, k, r, w⟩
  | n + 1, .call op k, r, w => (k (h w op).1).pause h n r (h w op).2

end Program

end Semantics
