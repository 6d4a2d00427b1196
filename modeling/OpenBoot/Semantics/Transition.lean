import Mathlib.Tactic.Common

/-! Labelled transition systems: runs, history invariants, restriction to
admissible steps, and simulation.

Labels record what an observer sees, so a property of a run may speak about its
whole history. A simulation is lock step: both systems show the same labels.
-/

set_option autoImplicit false

namespace Semantics

structure System (S L : Type) where
  step : S → L → S → Prop

namespace System

variable {S S' L : Type}

/-- Finite runs, extended at the end. -/
inductive Run (T : System S L) : S → List L → S → Prop where
  | nil (s : S) : Run T s [] s
  | snoc {s t u : S} {ls : List L} {l : L} : Run T s ls t → T.step t l u → Run T s (ls ++ [l]) u

def restrict (T : System S L) (ok : S → L → Prop) : System S L :=
  ⟨fun s l t => T.step s l t ∧ ok s l⟩

variable {T : System S L} {s t u : S} {ls ls' : List L} {l : L}

theorem Run.one (step : T.step s l t) : T.Run s [l] t := (Run.nil s).snoc step

theorem Run.append (first : T.Run s ls t) (rest : T.Run t ls' u) : T.Run s (ls ++ ls') u := by
  induction rest with
  | nil => simpa using first
  | snoc _ step ih => simpa [List.append_assoc] using ih.snoc step

theorem Run.cons (step : T.step s l t) (rest : T.Run t ls u) : T.Run s (l :: ls) u :=
  (Run.one step).append rest

/-- The invariant rule. The invariant may mention the labels seen so far. -/
theorem Run.invariant (K : List L → S → Prop) (init : K [] s)
    (keep : ∀ ls t l u, K ls t → T.step t l u → K (ls ++ [l]) u)
    (run : T.Run s ls t) : K ls t := by
  induction run with
  | nil => exact init
  | snoc _ step ih => exact keep _ _ _ _ ih step

theorem Run.of_restrict {ok : S → L → Prop} (run : (T.restrict ok).Run s ls t) :
    T.Run s ls t := by
  induction run with
  | nil => exact .nil _
  | snoc _ step ih => exact ih.snoc step.1

/-- Every step of `T` is matched by a step of `U` with the same label. -/
structure Simulation (T : System S L) (U : System S' L) (rel : S → S' → Prop) : Prop where
  step : ∀ {s a l t}, rel s a → T.step s l t → ∃ b, U.step a l b ∧ rel t b

variable {U : System S' L} {rel : S → S' → Prop} {a : S'}

theorem Simulation.run (sim : Simulation T U rel) (start : rel s a) (run : T.Run s ls t) :
    ∃ b, U.Run a ls b ∧ rel t b := by
  induction run with
  | nil => exact ⟨a, .nil a, start⟩
  | snoc _ step ih =>
    obtain ⟨b, abstract, related⟩ := ih
    obtain ⟨c, next, related⟩ := sim.step related step
    exact ⟨c, abstract.snoc next, related⟩

theorem Simulation.restrict (sim : Simulation T U rel) {ok : S → L → Prop} {ok' : S' → L → Prop}
    (imp : ∀ {s a l}, rel s a → ok s l → ok' a l) :
    Simulation (T.restrict ok) (U.restrict ok') rel where
  step := fun related step => by
    obtain ⟨b, next, after⟩ := sim.step related step.1
    exact ⟨b, ⟨next, imp related step.2⟩, after⟩

end System

end Semantics
