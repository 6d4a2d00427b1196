import OpenBoot.Host.Image

/-! Host code with its panics: a computation that may panic, or else fail with a chain of
messages. Indexing and slicing panic out of range. -/

set_option autoImplicit false

namespace OpenBoot.Host

abbrev Guarded := ExceptT (List String) Option

namespace Guarded

variable {A B : Type}

def ofFallible (r : Fallible A) : Guarded A := ExceptT.mk (some r)

instance : MonadLift Fallible Guarded := ⟨ofFallible⟩

def index (xs : List A) (i : Nat) : Guarded A := ExceptT.lift xs[i]?

def slice (xs : List A) (lo hi : Nat) : Guarded (List A) :=
  if lo ≤ hi ∧ hi ≤ xs.length then return (xs.drop lo).take (hi - lo) else ExceptT.mk none

/-- `u32::from_le_bytes` on the first four bytes. -/
def le32 (b : List Byte) : Guarded Word := do
  let b₀ ← index b 0
  let b₁ ← index b 1
  let b₂ ← index b 2
  let b₃ ← index b 3
  return get32 [b₀, b₁, b₂, b₃]

theorem ofFallible_bind (r : Fallible A) (f : A → Fallible B) :
    ofFallible (r >>= f) = ofFallible r >>= fun a => ofFallible (f a) := by
  cases r <;> rfl

theorem bail_bind (message : String) (f : A → Guarded B) :
    (ofFallible (bail message) >>= f) = ofFallible (bail message) := rfl

theorem ofFallible_ite (c : Prop) [Decidable c] (p q : Fallible A) :
    ofFallible (if c then p else q) = if c then ofFallible p else ofFallible q := by
  split <;> rfl

theorem index_eq {xs : List A} {i : Nat} (inside : i < xs.length) : index xs i = pure xs[i] := by
  unfold index
  rw [List.getElem?_eq_getElem inside]
  rfl

theorem slice_eq {xs : List A} {lo hi : Nat} (order : lo ≤ hi) (inside : hi ≤ xs.length) :
    slice xs lo hi = pure ((xs.drop lo).take (hi - lo)) := if_pos ⟨order, inside⟩

theorem le32_eq {b : List Byte} (long : 4 ≤ b.length) : le32 b = pure (get32 b) := by
  match b, long with
  | w :: x :: y :: z :: rest, _ => rfl

theorem bind_eq_pure {x : Guarded A} {f : A → Guarded B} {b : B} :
    (x >>= f) = pure b ↔ ∃ a, x = pure a ∧ f a = pure b := by
  match x with
  | none => exact ⟨nofun, nofun⟩
  | some (.error chain) => exact ⟨nofun, nofun⟩
  | some (.ok a) =>
    constructor
    · intro made
      exact ⟨a, rfl, made⟩
    · rintro ⟨_, ⟨⟩, made⟩
      exact made

theorem ite_bail_eq_pure {c : Prop} [Decidable c] {message : String} {rest : Guarded A} {a : A} :
    (if c then ofFallible (bail message) else rest) = pure a ↔ ¬ c ∧ rest = pure a := by
  by_cases h : c
  · simp only [h, if_true, not_true_eq_false, false_and, iff_false]
    exact nofun
  · simp only [h, if_false, not_false_eq_true, true_and]

theorem pure_inj {a b : A} : (pure a : Guarded A) = pure b ↔ a = b := by
  constructor
  · rintro ⟨⟩
    rfl
  · exact congrArg _

theorem ofFallible_eq_pure {r : Fallible A} {a : A} : ofFallible r = pure a ↔ r = .ok a := by
  constructor
  · intro same
    exact Option.some.inj same
  · rintro rfl
    rfl

theorem index_eq_pure {xs : List A} {i : Nat} {x : A} : index xs i = pure x ↔ xs[i]? = some x := by
  unfold index
  cases xs[i]? with
  | none => exact ⟨nofun, nofun⟩
  | some y =>
    constructor
    · intro same
      exact congrArg _ (pure_inj.mp same)
    · rintro ⟨⟩
      rfl

theorem slice_eq_pure {xs ys : List A} {lo hi : Nat} :
    slice xs lo hi = pure ys ↔ (lo ≤ hi ∧ hi ≤ xs.length) ∧ (xs.drop lo).take (hi - lo) = ys := by
  unfold slice
  split
  · next inside =>
    constructor
    · rintro ⟨⟩
      exact ⟨inside, rfl⟩
    · rintro ⟨-, rfl⟩
      rfl
  · next outside => exact ⟨nofun, fun h => absurd h.1 outside⟩

/-- No panic: a result or an error. -/
def Safe (x : Guarded A) : Prop := ∃ r, x = ofFallible r

theorem Safe.pure (a : A) : Safe (pure a : Guarded A) := ⟨.ok a, rfl⟩

theorem Safe.ofFallible (r : Fallible A) : Safe (ofFallible r) := ⟨r, rfl⟩

theorem Safe.bind {x : Guarded A} {f : A → Guarded B} (first : Safe x)
    (rest : ∀ a, x = Pure.pure a → Safe (f a)) : Safe (x >>= f) := by
  obtain ⟨r, rfl⟩ := first
  cases r with
  | error chain => exact ⟨.error chain, rfl⟩
  | ok a => exact rest a rfl

theorem Safe.check {c : Prop} [Decidable c] {message : String} {rest : Guarded A}
    (good : ¬ c → Safe rest) :
    Safe (if c then Guarded.ofFallible (bail message) else rest) := by
  split
  · exact .ofFallible _
  · next passed => exact good passed

theorem Safe.slice {xs : List A} {lo hi : Nat} (order : lo ≤ hi) (inside : hi ≤ xs.length) :
    Safe (slice xs lo hi) := ⟨.ok _, slice_eq order inside⟩

end Guarded

end OpenBoot.Host
