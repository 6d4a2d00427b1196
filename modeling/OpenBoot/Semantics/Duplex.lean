import Mathlib.Data.List.Forall2
import Mathlib.Logic.Relation
import Mathlib.Tactic.Common

/-! A server behind an in-order link that loses, delays and damages messages, and a
client that repeats its request until it hears an answer to it.

Each repetition is an attempt with a number of its own. The two directions are queues,
so what is on the way always lies in the order of the attempts, the answers before the
requests. An answer that only the last attempt can have is therefore the last thing on
the way.
-/

set_option autoImplicit false

namespace Semantics

/-- A server and what is on the way to it and from it, oldest first. -/
structure Duplex (S M : Type) where
  server : S
  up : List M
  down : List M

/-- What may arrive of a message that was sent, and how what arrived is served. -/
structure Medium (S M : Type) where
  arrives : M → M → Prop
  serves : S → M → Option M → S → Prop

variable {S M R : Type} {L : Medium S M} {verdict : M → Option R} {l l' : Duplex S M}
  {s s' : S} {m m' a : M} {up down : List M} {n : Nat}

namespace Duplex

def Quiet (l : Duplex S M) : Prop := l.up = [] ∧ l.down = []

def send (m : M) (l : Duplex S M) : Duplex S M := { l with up := l.up ++ [m] }

/-- One thing that happens on the link. -/
inductive Moves (L : Medium S M) : Duplex S M → Duplex S M → Prop where
  | lost {s : S} {m : M} {up down : List M} : Moves L ⟨s, m :: up, down⟩ ⟨s, up, down⟩
  | served {s s' : S} {m m' : M} {out : Option M} {up down : List M} : L.arrives m m' →
      L.serves s m' out s' → Moves L ⟨s, m :: up, down⟩ ⟨s', up, down ++ out.toList⟩
  | unheard {s : S} {m : M} {up down : List M} : Moves L ⟨s, up, m :: down⟩ ⟨s, up, down⟩

/-- Waiting for a message that the verdict accepts, until the deadline. -/
inductive Listens (L : Medium S M) (verdict : M → Option R) :
    Duplex S M → Option R → Duplex S M → Prop where
  | deadline {l : Duplex S M} : Listens L verdict l none l
  | moved {l l₁ l' : Duplex S M} {r : Option R} : Moves L l l₁ → Listens L verdict l₁ r l' →
      Listens L verdict l r l'
  | ignored {s : S} {m m' : M} {up down : List M} {l' : Duplex S M} {r : Option R} :
      L.arrives m m' → verdict m' = none → Listens L verdict ⟨s, up, down⟩ r l' →
      Listens L verdict ⟨s, up, m :: down⟩ r l'
  | heard {s : S} {m m' : M} {up down : List M} {r : R} : L.arrives m m' → verdict m' = some r →
      Listens L verdict ⟨s, up, m :: down⟩ (some r) ⟨s, up, down⟩

/-- What every move keeps holds when the waiting ends: at the deadline, or just before
    the accepted message was taken off the link. -/
theorem Listens.invariant {K : Duplex S M → Prop} {r : Option R}
    (moves : ∀ {l l' : Duplex S M}, Moves L l l' → K l → K l')
    (listens : Listens L verdict l r l') (start : K l) :
    (r = none ∧ K l') ∨
    ∃ s up down m m' out, r = some out ∧ K ⟨s, up, m :: down⟩ ∧ L.arrives m m' ∧
      verdict m' = some out ∧ l' = ⟨s, up, down⟩ := by
  induction listens with
  | deadline => exact .inl ⟨rfl, start⟩
  | moved step _ ih => exact ih (moves step start)
  | ignored _ _ _ ih => exact ih (moves .unheard start)
  | heard arrives accepted => exact .inr ⟨_, _, _, _, _, _, rfl, start, arrives, accepted, rfl⟩

/-- What is on the way belongs to the first `n` attempts, in their order. -/
def Outstanding (sent answer : Nat → M → Prop) (n : Nat) (l : Duplex S M) : Prop :=
  ∃ downs ups : List Nat, List.Forall₂ answer downs l.down ∧ List.Forall₂ sent ups l.up ∧
    (downs ++ ups).Pairwise (· < ·) ∧ ∀ j ∈ downs ++ ups, j < n

namespace Outstanding

variable {sent answer : Nat → M → Prop}

theorem quiet (h : l.Quiet) : Outstanding sent answer n l := by
  obtain ⟨s, up, down⟩ := l
  obtain ⟨rfl, rfl⟩ := h
  exact ⟨[], [], .nil, .nil, .nil, nofun⟩

theorem send (h : Outstanding sent answer n l) (new : sent n m) :
    Outstanding sent answer (n + 1) (l.send m) := by
  obtain ⟨downs, ups, answers, requests, sorted, below⟩ := h
  refine ⟨downs, ups ++ [n], answers, List.rel_append requests (.cons new .nil), ?_, ?_⟩
  · rw [← List.append_assoc, List.pairwise_append]
    refine ⟨sorted, List.pairwise_singleton _ _, fun i mem j last => ?_⟩
    rw [List.mem_singleton.mp last]
    exact below i mem
  · intro j mem
    rw [← List.append_assoc, List.mem_append, List.mem_singleton] at mem
    rcases mem with old | rfl
    · exact Nat.lt_succ_of_lt (below j old)
    · exact Nat.lt_succ_self _

theorem request (h : Outstanding sent answer n ⟨s, m :: up, down⟩) : ∃ j, j < n ∧ sent j m := by
  obtain ⟨downs, ups, -, requests, -, below⟩ := h
  obtain ⟨j, ups, first, -, rfl⟩ := List.forall₂_cons_right_iff.mp requests
  exact ⟨j, below j (by simp), first⟩

theorem reply (h : Outstanding sent answer n ⟨s, up, a :: down⟩) : ∃ j, j < n ∧ answer j a := by
  obtain ⟨downs, ups, answers, -, -, below⟩ := h
  obtain ⟨j, downs, first, -, rfl⟩ := List.forall₂_cons_right_iff.mp answers
  exact ⟨j, below j List.mem_cons_self, first⟩

theorem lost (h : Outstanding sent answer n ⟨s, m :: up, down⟩) :
    Outstanding sent answer n ⟨s', up, down⟩ := by
  obtain ⟨downs, ups, answers, requests, sorted, below⟩ := h
  obtain ⟨j, ups, -, rest, rfl⟩ := List.forall₂_cons_right_iff.mp requests
  have fewer : (downs ++ ups).Sublist (downs ++ j :: ups) :=
    (List.Sublist.refl downs).append (List.sublist_cons_self j ups)
  exact ⟨downs, ups, answers, rest, sorted.sublist fewer, fun i mem => below i (fewer.subset mem)⟩

theorem answered (h : Outstanding sent answer n ⟨s, m :: up, down⟩)
    (reply : ∀ j, j < n → sent j m → answer j a) :
    Outstanding sent answer n ⟨s', up, down ++ [a]⟩ := by
  obtain ⟨downs, ups, answers, requests, sorted, below⟩ := h
  obtain ⟨j, ups, first, rest, rfl⟩ := List.forall₂_cons_right_iff.mp requests
  have moved : (downs ++ [j]) ++ ups = downs ++ j :: ups := List.append_cons .. |>.symm
  refine ⟨downs ++ [j], ups, List.rel_append answers (.cons (reply j (below j (by simp)) first) .nil),
    rest, ?_, ?_⟩
  · rw [moved]
    exact sorted
  · rw [moved]
    exact below

theorem unheard (h : Outstanding sent answer n ⟨s, up, a :: down⟩) :
    Outstanding sent answer n ⟨s, up, down⟩ := by
  obtain ⟨downs, ups, answers, requests, sorted, below⟩ := h
  obtain ⟨j, downs, -, rest, rfl⟩ := List.forall₂_cons_right_iff.mp answers
  rw [List.cons_append] at sorted below
  exact ⟨downs, ups, rest, requests, (List.pairwise_cons.mp sorted).2,
    fun i mem => below i (List.mem_cons_of_mem _ mem)⟩

/-- Behind an answer that only the last attempt can have, nothing is on the way. -/
theorem last (h : Outstanding sent answer (n + 1) ⟨s, up, a :: down⟩)
    (only : ∀ j, j < n + 1 → answer j a → j = n) : up = [] ∧ down = [] := by
  obtain ⟨downs, ups, answers, requests, sorted, below⟩ := h
  obtain ⟨j, downs, first, rest, rfl⟩ := List.forall₂_cons_right_iff.mp answers
  rw [List.cons_append] at sorted below
  obtain rfl := only j (below j List.mem_cons_self) first
  have none : downs ++ ups = [] := by
    apply List.eq_nil_iff_forall_not_mem.mpr
    intro i mem
    have above := (List.pairwise_cons.mp sorted).1 i mem
    have bound := below i (List.mem_cons_of_mem _ mem)
    omega
  obtain ⟨rfl, rfl⟩ := List.append_eq_nil_iff.mp none
  cases rest
  cases requests
  exact ⟨rfl, rfl⟩

end Outstanding

/-- How the server takes the attempts at one request. `inv` holds throughout, and what an
    answer says of the server stays true however often the request is served again. -/
structure Repeatable (L : Medium S M) (inv : S → Prop) (speaks : M → S → Prop)
    (sent answer : Nat → M → Prop) : Prop where
  serve : ∀ {j : Nat} {m m' : M} {s s' : S} {out : Option M}, inv s → sent j m → L.arrives m m' →
    L.serves s m' out s' → inv s' ∧ (∀ a, speaks a s → speaks a s') ∧
      ∀ a ∈ out, answer j a ∧ speaks a s'

structure Between (inv : S → Prop) (speaks : M → S → Prop) (sent answer : Nat → M → Prop) (n : Nat)
    (l : Duplex S M) : Prop where
  inv : inv l.server
  speaks : ∀ a ∈ l.down, speaks a l.server
  order : Outstanding sent answer n l

variable {inv : S → Prop} {speaks : M → S → Prop} {sent answer : Nat → M → Prop}

theorem Between.quiet (h : l.Quiet) (start : inv l.server) :
    Between inv speaks sent answer n l where
  inv := start
  speaks := by
    intro a mem
    rw [h.2] at mem
    cases mem
  order := .quiet h

theorem Between.moves (repeatable : Repeatable L inv speaks sent answer) (step : Moves L l l')
    (h : Between inv speaks sent answer n l) : Between inv speaks sent answer n l' := by
  cases step with
  | lost => exact ⟨h.inv, h.speaks, h.order.lost⟩
  | @served s s' m m' out up down arrives serves =>
    obtain ⟨j, _, request⟩ := h.order.request
    obtain ⟨kept, still, said⟩ := repeatable.serve h.inv request arrives serves
    cases out with
    | none =>
      rw [Option.toList_none, List.append_nil]
      exact ⟨kept, fun a mem => still a (h.speaks a mem), h.order.lost⟩
    | some a =>
      refine ⟨kept, fun b mem => ?_, h.order.answered fun i _ request => ?_⟩
      · rcases List.mem_append.mp mem with old | new
        · exact still b (h.speaks b old)
        · rw [List.mem_singleton.mp new]
          exact (said a rfl).2
      · exact ((repeatable.serve h.inv request arrives serves).2.2 a rfl).1
  | unheard => exact ⟨h.inv, fun a mem => h.speaks a (List.mem_cons_of_mem _ mem), h.order.unheard⟩

/-- One attempt: the request is sent, and the client waits for an answer. What it accepts
    speaks for the server as it is, and if only this attempt can have that answer,
    nothing is left on the way. -/
theorem Between.attempt (h : Between inv speaks sent answer n l)
    (repeatable : Repeatable L inv speaks sent answer) (new : sent n m) {r : Option R}
    (listens : Listens L verdict (l.send m) r l') :
    (r = none ∧ Between inv speaks sent answer (n + 1) l') ∨
    ∃ a a' out, r = some out ∧ L.arrives a a' ∧ verdict a' = some out ∧
      Between inv speaks sent answer (n + 1) l' ∧ speaks a l'.server ∧ (∃ j, j < n + 1 ∧ answer j a) ∧
      ((∀ j, j < n + 1 → answer j a → j = n) → l'.Quiet) := by
  have start : Between inv speaks sent answer (n + 1) (l.send m) := ⟨h.inv, h.speaks, h.order.send new⟩
  rcases listens.invariant (fun step => Between.moves repeatable step) start with
    ⟨rfl, after⟩ | ⟨s, up, down, a, a', out, rfl, before, arrives, accepted, rfl⟩
  · exact .inl ⟨rfl, after⟩
  · exact .inr ⟨a, a', out, rfl, arrives, accepted, before.moves repeatable .unheard,
      before.speaks a List.mem_cons_self, before.order.reply, before.order.last⟩

/-- Serving a safe message keeps the invariant, whatever arrives of it. -/
def Keeps (L : Medium S M) (inv : S → Prop) (safe : M → Prop) : Prop :=
  ∀ (s s' : S) (m m' : M) (out : Option M), inv s → safe m → L.arrives m m' →
    L.serves s m' out s' → inv s'

/-- The server keeps its invariant, and goes on to do so while it is served what is on the
    way to it. -/
structure Guarded (inv : S → Prop) (safe : M → Prop) (l : Duplex S M) : Prop where
  inv : inv l.server
  safe : ∀ m ∈ l.up, safe m

namespace Guarded

variable {inv : S → Prop} {safe : M → Prop} {r : Option R}

theorem quiet (h : l.Quiet) (start : inv l.server) : Guarded inv safe l where
  inv := start
  safe := by
    intro m mem
    rw [h.1] at mem
    cases mem

theorem send (h : Guarded inv safe l) (new : safe m) : Guarded inv safe (l.send m) where
  inv := h.inv
  safe := by
    intro m' mem
    rcases List.mem_append.mp mem with old | last
    · exact h.safe m' old
    · rw [List.mem_singleton.mp last]
      exact new

theorem moves (keeps : Keeps L inv safe) (step : Moves L l l') (h : Guarded inv safe l) :
    Guarded inv safe l' := by
  cases step with
  | lost => exact ⟨h.inv, fun m mem => h.safe m (List.mem_cons_of_mem _ mem)⟩
  | served arrives serves =>
    exact ⟨keeps _ _ _ _ _ h.inv (h.safe _ List.mem_cons_self) arrives serves,
      fun m mem => h.safe m (List.mem_cons_of_mem _ mem)⟩
  | unheard => exact ⟨h.inv, h.safe⟩

theorem listens (keeps : Keeps L inv safe) (listens : Listens L verdict l r l')
    (h : Guarded inv safe l) : Guarded inv safe l' := by
  rcases listens.invariant (fun step => moves keeps step) h with
    ⟨-, after⟩ | ⟨s, up, down, m, m', out, -, before, -, -, rfl⟩
  · exact after
  · exact ⟨before.inv, before.safe⟩

theorem later (keeps : Keeps L inv safe) (h : Guarded inv safe l)
    (after : Relation.ReflTransGen (Moves L) l l') : Guarded inv safe l' := by
  induction after with
  | refl => exact h
  | tail _ step ih => exact moves keeps step ih

end Guarded

end Duplex

end Semantics
