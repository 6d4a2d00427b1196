import OpenBoot.Core.Engine
import OpenBoot.Semantics.Transition

/-! The bootloader as a machine: power-up, the frame loop, and the power that
may fail between any two port calls. -/

set_option autoImplicit false

namespace OpenBoot

open Semantics

inductive Outcome where
  | launched (base : Word)
  | ready
  | answered (resp : List Byte) (act : Action)
  deriving DecidableEq

/-- Power-up until the main loop, or until the application is entered. -/
def bootUp (D : Device) : Code Outcome := do
  match ← bootDecide D with
  | some base => return .launched base
  | none =>
    -- only a part that stays in the bootloader initialises the core
    coreInit D
    return .ready

def serve (D : Device) (buf : List Byte) : Code Outcome := do
  let (resp, act) ← handleFrame D buf
  return .answered resp act

inductive Task where
  | boot
  | frame (buf : List Byte)

/-- `off` is a part whose bootloader does not run: unpowered, waiting for the
    reset it asked for, or in the application. -/
inductive Config where
  | off (f : Flash)
  | busy (t : Task) (p : Code Outcome) (c : Core) (w : World)
  | idle (c : Core) (w : World)

def Config.flash : Config → Flash
  | .off f => f
  | .busy _ _ _ w => w.flash
  | .idle _ w => w.flash

def Config.powerUp (D : Device) (f : Flash) (bootreq : Word) : Config :=
  .busy .boot (bootUp D) (.bss D bootreq) (.reset f)

def Outcome.next (c : Core) (w : World) : Outcome → Config
  | .launched _ => .off w.flash
  | .ready => .idle c w
  | .answered _ .none => .idle c w
  | .answered _ .reset => .off w.flash

inductive Label where
  | reset
  | recv (buf : List Byte)
  | ram
  | port (op : PortOp) (x : Word)
  | out (o : Outcome)

/-- A reset may come at any moment and finds the boot-request word with any
    value; it covers power cuts, soft resets and the app's own resets. -/
inductive Step (D : Device) : Config → Label → Config → Prop where
  | reset {cfg : Config} (bootreq : Word) :
      Step D cfg .reset (.powerUp D cfg.flash bootreq)
  | recv {c : Core} {w : World} (buf : List Byte) :
      Step D (.idle c w) (.recv buf) (.busy (.frame buf) (serve D buf) c w)
  | load {t : Task} {k : Core → Code Outcome} {c : Core} {w : World} :
      Step D (.busy t (.load k) c w) .ram (.busy t (k c) c w)
  | store {t : Task} {p : Code Outcome} {c c' : Core} {w : World} :
      Step D (.busy t (.store c' p) c w) .ram (.busy t p c' w)
  | call {t : Task} {op : PortOp} {k : Word → Code Outcome} {c : Core} {w w' : World} {x : Word} :
      PortStep D w op x w' → Step D (.busy t (.call op k) c w) (.port op x) (.busy t (k x) c w')
  | out {t : Task} {o : Outcome} {c : Core} {w : World} :
      Step D (.busy t (.done o) c w) (.out o) (o.next c w)

def machine (D : Device) : System Config Label := ⟨Step D⟩

def flashOps (ls : List Label) : List (PortOp × Word) :=
  ls.filterMap fun
    | .port op x => if op.isFlash then some (op, x) else none
    | _ => none

@[simp] theorem flashOps_append (ls ls' : List Label) :
    flashOps (ls ++ ls') = flashOps ls ++ flashOps ls' := List.filterMap_append

def OnRecv (P : Core → World → List Byte → Prop) : Config → Label → Prop
  | .idle c w, .recv buf => P c w buf
  | _, _ => True

variable {P : Core → World → List Byte → Prop}

theorem run_of_powerUp {D : Device} {f : Flash} {bootreq : Word} {ls : List Label} {cfg : Config}
    (run : ((machine D).restrict (OnRecv P)).Run (.powerUp D f bootreq) ls cfg) :
    ((machine D).restrict (OnRecv P)).Run (.off f) (.reset :: ls) cfg :=
  .cons ⟨.reset bootreq, trivial⟩ run

/-- What the core does by itself, between a frame and its answer. -/
def Label.Inner : Label → Prop
  | .ram => True
  | .port _ _ => True
  | _ => False

/-- A complete run of a program is a run of the machine. -/
theorem run_of_exec {D : Device} {t : Task} {p : Code Outcome} {c c' : Core} {w w' : World}
    {es : List (Event port)} {o : Outcome} (run : p.Exec (portEnv D) c w es o c' w') :
    ∃ ls, (∀ l ∈ ls, l.Inner) ∧
      ((machine D).restrict (OnRecv P)).Run (.busy t p c w) ls (.busy t (.done o) c' w') := by
  induction run with
  | done => exact ⟨[], List.forall_mem_nil _, .nil _⟩
  | load _ ih =>
    obtain ⟨ls, inner, rest⟩ := ih
    exact ⟨.ram :: ls, List.forall_mem_cons.mpr ⟨trivial, inner⟩, .cons ⟨.load, trivial⟩ rest⟩
  | store _ ih =>
    obtain ⟨ls, inner, rest⟩ := ih
    exact ⟨.ram :: ls, List.forall_mem_cons.mpr ⟨trivial, inner⟩, .cons ⟨.store, trivial⟩ rest⟩
  | @call op _ _ _ _ _ _ x _ _ step _ ih =>
    obtain ⟨ls, inner, rest⟩ := ih
    exact ⟨.port op x :: ls, List.forall_mem_cons.mpr ⟨trivial, inner⟩,
      .cons ⟨.call step, trivial⟩ rest⟩

theorem run_of_frame {D : Device} {buf resp : List Byte} {act : Action} {c c' : Core}
    {w w' : World} {es : List (Event port)}
    (meets : P c w buf) (run : (handleFrame D buf).Exec (portEnv D) c w es (resp, act) c' w') :
    ∃ ls, (∀ l ∈ ls, l.Inner) ∧ ((machine D).restrict (OnRecv P)).Run (.idle c w)
      (.recv buf :: ls ++ [.out (.answered resp act)])
      ((Outcome.answered resp act).next c' w') := by
  have served : (serve D buf).Exec (portEnv D) c w (es ++ []) (.answered resp act) c' w' := by
    unfold serve
    exact run.bind .done
  obtain ⟨ls, inner, inside⟩ := run_of_exec (t := .frame buf) served
  exact ⟨ls, inner, .append (.cons ⟨.recv buf, meets⟩ inside) (.one ⟨.out, trivial⟩)⟩

end OpenBoot
