import OpenBoot.Core.Main
import OpenBoot.Core.Outcomes

/-! The main loop with its idle deadline: one pass at a time, whatever frame, busy
answer and tick count the pass is given. -/

set_option autoImplicit false

namespace OpenBoot

open Semantics Program

/-- Ceiling on consecutive passes that skip the idle check. -/
def busyPollsMax : Word := 4096

def idleElapsed (startTicks nowTicks timeoutTicks : Word) : Bool :=
  -- 0 disables idle auto-boot
  if timeoutTicks = 0 then false else nowTicks - startTicks ≥ timeoutTicks

structure Loop where
  idleStart : Word
  busyPolls : Word
  deriving DecidableEq

inductive Pass where
  | reset
  /-- Mid-frame, so the idle check was skipped. -/
  | hot
  /-- A session suppresses the deadline. -/
  | suppressed
  | waiting
  /-- Elapsed with nothing bootable: recheck later. -/
  | rechecked
  | launched (base : Word)
  deriving DecidableEq

namespace Pass

def checked : Pass → Bool
  | waiting => true
  | rechecked => true
  | launched _ => true
  | _ => false

def stays : Pass → Bool
  | reset => false
  | launched _ => false
  | _ => true

end Pass

def candidate (D : Device) : Option (List Byte) → Code (List Byte × Action)
  | some buf => handleFrame D buf
  | none => pure ([], .none)

/-- One pass of the loop. The tick count is read at most once, for the check. -/
def turn (D : Device) (timeout : Word) (frame : Option (List Byte)) (rxBusy : Bool) (now : Word)
    (v : Loop) : Code (List Byte × Pass × Loop) := do
  let (resp, act) ← candidate D frame
  if act ≠ .none then return (resp, .reset, v)
  let busyPolls := if rxBusy then v.busyPolls + 1 else v.busyPolls
  if rxBusy ∧ busyPolls < busyPollsMax then
    return (resp, .hot, { v with busyPolls := busyPolls })
  let c ← get
  if c.s.session then return (resp, .suppressed, { v with busyPolls := 0 })
  if !idleElapsed v.idleStart now timeout then
    return (resp, .waiting, { v with busyPolls := 0 })
  let (slot, _) ← bootSelect D
  if slot ≠ slotNone then
    return (resp, .launched (D.slotBase slot), { v with busyPolls := 0 })
  return (resp, .rechecked, ⟨now, 0⟩)

inductive Rest (E : Environment port World) (D : Device) (timeout : Word) (rxBusy : Bool)
    (now : Word) (v : Loop) (c : Core) (w : World) : List (Event port) → Pass → Loop → Prop where
  | hot : rxBusy = true → v.busyPolls + 1 < busyPollsMax →
      Rest E D timeout rxBusy now v c w [] .hot { v with busyPolls := v.busyPolls + 1 }
  | suppressed : c.s.session = true →
      Rest E D timeout rxBusy now v c w [] .suppressed { v with busyPolls := 0 }
  | waiting : c.s.session = false → idleElapsed v.idleStart now timeout = false →
      Rest E D timeout rxBusy now v c w [] .waiting { v with busyPolls := 0 }
  | launched {es : List (Event port)} {slot highest : Word} : c.s.session = false →
      idleElapsed v.idleStart now timeout = true →
      (bootSelect D).Exec E c w es (slot, highest) c w → slot ≠ slotNone →
      Rest E D timeout rxBusy now v c w es (.launched (D.slotBase slot)) { v with busyPolls := 0 }
  | rechecked {es : List (Event port)} {highest : Word} : c.s.session = false →
      idleElapsed v.idleStart now timeout = true →
      (bootSelect D).Exec E c w es (slotNone, highest) c w →
      Rest E D timeout rxBusy now v c w es .rechecked ⟨now, 0⟩

variable {E : Environment port World} {D : Device} {c c' : Core} {w w' : World}
  {es : List (Event port)} {resp : List Byte}

theorem read_of_slotReads {op : PortOp} (reads : ∃ slot, SlotReads D slot op) :
    op.isFlash = false := by
  obtain ⟨slot, reads⟩ := reads
  cases op with
  | xipRead32 => rfl
  | _ => exact reads.2.2.elim

theorem turn_exec {timeout now : Word} {frame : Option (List Byte)} {rxBusy : Bool} {v v' : Loop}
    {pass : Pass} (silent : Silent E)
    (run : (turn D timeout frame rxBusy now v).Exec E c w es (resp, pass, v') c' w') :
    ∃ es₁ es₂ act, es = es₁ ++ es₂ ∧ (∀ e ∈ es₂, PortOp.isFlash e.op = false) ∧
      (candidate D frame).Exec E c w es₁ (resp, act) c' w' ∧
      ((act = .reset ∧ pass = .reset ∧ v' = v) ∨
        (act = .none ∧ Rest E D timeout rxBusy now v c' w' es₂ pass v')) := by
  unfold turn at run
  obtain ⟨es₁, es₂, ⟨answer, act⟩, c₁, w₁, rfl, handled, run⟩ := exec_bind.mp run
  have out : ∀ {es : List (Event port)} {c : Core} {w : World} {pass₁ : Pass} {v₁ : Loop},
      (pure (answer, pass₁, v₁) : Code (List Byte × Pass × Loop)).Exec E c w es (resp, pass, v')
        c' w' → es = [] ∧ answer = resp ∧ pass = pass₁ ∧ v' = v₁ ∧ c' = c ∧ w' = w := by
    intro es c w pass₁ v₁ run
    obtain ⟨none, out, core, part⟩ := exec_pure.mp run
    simp only [Prod.mk.injEq] at out
    exact ⟨none, out.1.symm, out.2.1, out.2.2, core.symm, part.symm⟩
  simp only at run
  rw [exec_ite] at run
  rcases run with ⟨reset, run⟩ | ⟨stay, run⟩
  · obtain ⟨rfl, rfl, rfl, rfl, rfl, rfl⟩ := out run
    refine ⟨es₁, [], act, rfl, nofun, handled, .inl ⟨?_, rfl, rfl⟩⟩
    cases act with
    | none => exact absurd rfl reset
    | reset => rfl
  obtain rfl := Decidable.not_not.mp stay
  rw [exec_ite] at run
  -- the receiver is in the middle of a frame, and not for too many passes
  rcases run with ⟨⟨busy, below⟩, run⟩ | ⟨-, run⟩
  · obtain ⟨rfl, rfl, rfl, rfl, rfl, rfl⟩ := out run
    rw [if_pos busy] at below ⊢
    exact ⟨es₁, [], .none, rfl, nofun, handled, .inr ⟨rfl, .hot busy below⟩⟩
  simp only [exec_bind (p := Program.get), exec_get] at run
  obtain ⟨_, es₃, _, _, _, rfl, ⟨rfl, rfl, rfl, rfl⟩, run⟩ := run
  rw [List.nil_append]
  rw [exec_ite] at run
  rcases run with ⟨session, run⟩ | ⟨closed, run⟩
  · obtain ⟨rfl, rfl, rfl, rfl, rfl, rfl⟩ := out run
    exact ⟨es₁, [], .none, rfl, nofun, handled, .inr ⟨rfl, .suppressed session⟩⟩
  have closed : c₁.s.session = false := by simpa using closed
  rw [exec_ite] at run
  rcases run with ⟨early, run⟩ | ⟨elapsed, run⟩
  · obtain ⟨rfl, rfl, rfl, rfl, rfl, rfl⟩ := out run
    exact ⟨es₁, [], .none, rfl, nofun, handled, .inr ⟨rfl, .waiting closed (by simpa using early)⟩⟩
  have elapsed : idleElapsed v.idleStart now timeout = true := by simpa using elapsed
  -- the deadline is over: the selection is made on flash as it is now
  obtain ⟨es₄, es₅, ⟨slot, highest⟩, c₂, w₂, rfl, selected, picked⟩ := exec_bind.mp run
  obtain ⟨-, idle⟩ := Queries.idle silent
    ((bootSelect_queries D).mono (fun _ reads => read_of_slotReads reads) fun _ h => h) selected
  obtain ⟨rfl, rfl, reads⟩ := idle
  simp only at picked
  rw [exec_ite] at picked
  rcases picked with ⟨some, picked⟩ | ⟨none, picked⟩
  · obtain ⟨rfl, rfl, rfl, rfl, rfl, rfl⟩ := out picked
    rw [List.append_nil]
    exact ⟨es₁, es₄, .none, rfl, reads, handled, .inr ⟨rfl, .launched closed elapsed selected some⟩⟩
  · obtain ⟨rfl, rfl, rfl, rfl, rfl, rfl⟩ := out picked
    obtain rfl := Decidable.not_not.mp none
    rw [List.append_nil]
    exact ⟨es₁, es₄, .none, rfl, reads, handled, .inr ⟨rfl, .rechecked closed elapsed selected⟩⟩

end OpenBoot
