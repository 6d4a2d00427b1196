import OpenBoot.Core.Main
import OpenBoot.Update.Serving

/-! The device as an updater that follows the discipline, and the proof that the
firmware refines it.

The updater has no code: it may take any step the discipline allows. Every run
of the machine is a run of the updater with the same labels, so what is proved
of the updater holds of the firmware at every instant between two port calls.
-/

set_option autoImplicit false

namespace OpenBoot

open Semantics Program

inductive Stage where
  | off (f : Flash)
  | booting (f : Flash)
  | idle (c : Core) (w : World)
  | serving (buf : List Byte) (c₀ : Core) (w₀ : World) (c : Core) (w : World)

namespace Stage

def flash : Stage → Flash
  | off f => f
  | booting f => f
  | idle _ w => w.flash
  | serving _ _ _ _ w => w.flash

def after (c : Core) (w : World) : Action → Stage
  | .none => idle c w
  | .reset => off w.flash

inductive Step (D : Device) : Stage → Label → Stage → Prop where
  | reset {s : Stage} : Step D s .reset (booting s.flash)
  | look {f : Flash} {op : PortOp} {x : Word} :
      Reads D.flashAppStart.toNat D.appEnd.toNat op → Step D (booting f) (.port op x) (booting f)
  | think {f : Flash} : Step D (booting f) .ram (booting f)
  | launch {f : Flash} : selectOn D f ≠ slotNone →
      Step D (booting f) (.out (.launched (D.slotBase (selectOn D f)))) (off f)
  | ready {f : Flash} {bootreq : Word} : bootreq ≠ bootreqMagic →
      Step D (booting f) (.out .ready) (idle (.started D f bootreq) (.reset f))
  | recv {c : Core} {w : World} (buf : List Byte) :
      Step D (idle c w) (.recv buf) (serving buf c w c w)
  | ram {buf : List Byte} {c₀ c c' : Core} {w₀ w : World} : RamStep D buf c₀ w₀ w c c' →
      Step D (serving buf c₀ w₀ c w) .ram (serving buf c₀ w₀ c' w)
  | port {buf : List Byte} {c₀ c : Core} {w₀ w w' : World} {op : PortOp} {x : Word} :
      Permit D buf c₀ w₀ c w op → PortStep D w op x w' →
      Step D (serving buf c₀ w₀ c w) (.port op x) (serving buf c₀ w₀ c w')
  | answer {buf resp : List Byte} {act : Action} {c₀ c : Core} {w₀ w : World} :
      Ending D buf c₀ w₀ resp act c w →
      Step D (serving buf c₀ w₀ c w) (.out (.answered resp act)) (after c w act)

end Stage

def updater (D : Device) : System Stage Label := ⟨Stage.Step D⟩

variable {D : Device} {buf : List Byte} {c c₀ : Core} {w w₀ : World} {l : Label} {ls : List Label}

theorem Sound.strengthen {b : Bool} (h : Sound D b c w)
    (off : b = true → c.s.disarmed = false) : Sound D false c w := by
  refine { h with armed := fun on => ⟨(h.armed on).1, fun _ => ?_⟩ }
  cases b with
  | false => exact (h.armed on).2 rfl
  | true =>
    rw [off rfl] at on
    cases on

theorem Ending.sound {resp : List Byte} (ending : Ending D buf c₀ w₀ resp .none c w)
    (start : Sound D false c₀ w₀) (h : Sound D (commitOf buf).isSome c w) : Sound D false c w := by
  cases ending with
  | kept => exact start
  | replayed => exact start
  | opened => exact start.sessionOpen
  | changed commit => exact h.strengthen fun request => absurd request (not_requested commit)
  | failed _ _ _ _ _ off => exact h.strengthen fun request => (off request).1
  | committed _ _ _ _ _ _ off => exact h.strengthen fun _ => off

def Stage.Sound (D : Device) : Stage → Prop
  | off _ => True
  | booting _ => True
  | idle c w => OpenBoot.Sound D false c w ∧ c.bootreq ≠ bootreqMagic
  | serving buf c₀ w₀ c w =>
    (OpenBoot.Sound D false c₀ w₀ ∧ c₀.bootreq ≠ bootreqMagic) ∧
      OpenBoot.Sound D (commitOf buf).isSome c w

theorem Ending.bootreq {resp : List Byte} (ending : Ending D buf c₀ w₀ resp .none c w) :
    c.bootreq = c₀.bootreq := by
  cases ending with
  | changed _ _ _ same => exact same
  | failed _ _ _ _ _ _ _ same => exact same
  | committed _ _ _ _ _ _ _ _ _ same => exact same
  | _ => rfl

theorem Stage.Sound.step {s t : Stage} (h : s.Sound D) (step : Stage.Step D s l t) : t.Sound D := by
  cases step with
  | reset => trivial
  | look => trivial
  | think => trivial
  | launch => trivial
  | ready consumed => exact ⟨sound_started _ _ _, consumed⟩
  | recv buf => exact ⟨h, h.1.weaken⟩
  | ram ram => exact ⟨h.1, h.2.ram ram⟩
  | port permit port => exact ⟨h.1, h.2.permit permit port⟩
  | @answer buf resp act c₀ c w₀ w ending =>
    cases act with
    | none => exact ⟨ending.sound h.1.1 h.2, by rw [ending.bootreq]; exact h.1.2⟩
    | reset => trivial

theorem updater_sound {f : Flash} {s : Stage} (run : (updater D).Run (.off f) ls s) : s.Sound D :=
  run.invariant (fun _ s => s.Sound D) trivial fun _ _ _ _ sound step => sound.step step

/-- Power-up only looks inside the region and opens no session. -/
def bootContract (D : Device) : Contract port Core World :=
  ⟨fun _ _ op => Reads D.flashAppStart.toNat D.appEnd.toNat op,
    fun _ _ c => c.s.session = false⟩

def BootEnding (D : Device) (f : Flash) (o : Outcome) (c : Core) (w : World) : Prop :=
  w = .reset f ∧ match o with
    | .launched base => selectOn D f ≠ slotNone ∧ base = D.slotBase (selectOn D f)
    | .ready => ∃ bootreq, bootreq ≠ bootreqMagic ∧ c = .started D f bootreq
    | .answered _ _ => False

def FrameEnding (D : Device) (buf : List Byte) (c₀ : Core) (w₀ : World) (o : Outcome) (c : Core)
    (w : World) : Prop :=
  ∃ resp act, o = .answered resp act ∧ Ending D buf c₀ w₀ resp act c w

theorem bootUp_wp (D : Device) (f : Flash) (bootreq : Word) :
    (bootUp D).wp (portEnv D) (bootContract D) (BootEnding D f) (.bss D bootreq) (.reset f) := by
  have select : ∀ {c : Core} {post : Word × Word → Core → World → Prop},
      post (onFlash D f (bootSelect D)) c (.reset f) →
      (bootSelect D).wp (portEnv D) (bootContract D) post c (.reset f) := fun result =>
    wp_coherent (bootSelect_queries D) (fun op ⟨_, reads⟩ => reads.in_region)
      (coherent_reset D f) (fun op ⟨_, reads⟩ => reads.in_region) result
  have init : ∀ {req : Word}, req ≠ bootreqMagic →
      (coreInit D).wp (portEnv D) (bootContract D) (fun _ => BootEnding D f .ready) (.bss D req)
        (.reset f) := fun consumed => by
    unfold coreInit
    simp only [wp_bind, wp_modify]
    refine ⟨rfl, ?_⟩
    apply select
    exact ⟨rfl, rfl, _, consumed, rfl⟩
  unfold bootUp bootDecide
  simp only [wp_bind, wp_get, wp_ite, wp_modify, wp_pure]
  have zero_ne : (0 : Word) ≠ bootreqMagic := by decide
  -- a boot request is consumed, and the decision is not even taken
  refine ⟨fun _ => ⟨rfl, init zero_ne⟩, fun other => select ?_⟩
  refine ⟨fun _ => init other, fun some => ⟨rfl, some, rfl⟩⟩

theorem serve_wp (h : Sound D false c₀ w₀) :
    (serve D buf).wp (portEnv D) (discipline D buf c₀ w₀) (FrameEnding D buf c₀ w₀) c₀ w₀ := by
  unfold serve
  simp only [wp_bind, wp_pure]
  exact wp_mono (handleFrame_wp h) fun out _ _ ending => ⟨out.1, out.2, rfl, ending⟩

/-- Code in progress keeps its contract; between frames the two agree. -/
inductive Related (D : Device) : Config → Stage → Prop where
  | off (f : Flash) : Related D (.off f) (.off f)
  | booting {p : Code Outcome} {c : Core} {f : Flash} : c.s.session = false →
      p.wp (portEnv D) (bootContract D) (BootEnding D f) c (.reset f) →
      Related D (.busy .boot p c (.reset f)) (.booting f)
  | idle {c : Core} {w : World} : (Stage.idle c w).Sound D → Related D (.idle c w) (.idle c w)
  | serving {buf : List Byte} {p : Code Outcome} {c₀ c : Core} {w₀ w : World} :
      (Stage.serving buf c₀ w₀ c w).Sound D →
      p.wp (portEnv D) (discipline D buf c₀ w₀) (FrameEnding D buf c₀ w₀) c w →
      Related D (.busy (.frame buf) p c w) (.serving buf c₀ w₀ c w)

theorem Related.flash {cfg : Config} {s : Stage} (related : Related D cfg s) :
    cfg.flash = s.flash := by
  cases related <;> rfl

theorem related_powerUp (D : Device) (f : Flash) (bootreq : Word) :
    Related D (.powerUp D f bootreq) (.booting f) := .booting rfl (bootUp_wp D f bootreq)

theorem refinement (D : Device) : System.Simulation (machine D) (updater D) (Related D) where
  step {cfg s l cfg'} related step := by
    cases step with
    | reset bootreq =>
      refine ⟨_, .reset, ?_⟩
      rw [← related.flash]
      exact related_powerUp _ _ _
    | recv buf =>
      cases related with
      | idle sound =>
        exact ⟨_, .recv buf, .serving (Stage.Sound.step sound (.recv buf)) (serve_wp sound.1)⟩
    | load =>
      cases related with
      | booting closed wp => exact ⟨_, .think, .booting closed wp⟩
      | serving sound wp => exact ⟨_, .ram .kept, .serving sound wp⟩
    | store =>
      cases related with
      | booting _ wp => exact ⟨_, .think, .booting wp.1 wp.2⟩
      | serving sound wp =>
        exact ⟨_, .ram wp.1, .serving (Stage.Sound.step sound (.ram wp.1)) wp.2⟩
    | call port =>
      cases related with
      -- power-up only reads, so the part stays as the reset left it
      | booting closed wp =>
        have next := wp.2 _ _ port
        rw [wp.1.silent port] at next ⊢
        exact ⟨_, .look wp.1, .booting closed next⟩
      | serving sound wp =>
        exact ⟨_, .port wp.1 port, .serving (Stage.Sound.step sound (.port wp.1 port))
          (wp.2 _ _ port)⟩
    | @out t o c w =>
      cases related with
      | booting _ ending =>
        obtain ⟨_, ending⟩ := ending
        cases o with
        | launched base =>
          obtain ⟨some, rfl⟩ := ending
          exact ⟨_, .launch some, .off _⟩
        | ready =>
          obtain ⟨bootreq, consumed, rfl⟩ := ending
          exact ⟨_, .ready consumed, .idle ⟨sound_started _ _ _, consumed⟩⟩
        | answered resp act => exact ending.elim
      | serving sound ending =>
        obtain ⟨resp, act, rfl, ending⟩ := ending
        refine ⟨_, .answer ending, ?_⟩
        cases act with
        | none => exact .idle (Stage.Sound.step sound (.answer ending))
        | reset => exact .off _

/-- Every run of the machine, matched by the updater. -/
theorem reach {f : Flash} {cfg : Config} (run : (machine D).Run (.off f) ls cfg) :
    ∃ s, (updater D).Run (.off f) ls s ∧ Related D cfg s :=
  (refinement D).run (.off f) run

theorem idle_sound {f : Flash} (run : (machine D).Run (.off f) ls (.idle c w)) :
    Sound D false c w ∧ c.bootreq ≠ bootreqMagic := by
  obtain ⟨s, abstract, related⟩ := reach run
  have sound := updater_sound abstract
  cases related
  exact sound

theorem frame_ending {f : Flash} {resp : List Byte} {act : Action} {es : List (Event port)}
    (run : (machine D).Run (.off f) ls (.idle c₀ w₀))
    (exec : (handleFrame D buf).Exec (portEnv D) c₀ w₀ es (resp, act) c w) :
    Ending D buf c₀ w₀ resp act c w ∧
      ∃ ls', (machine D).Run (.off f) ls' ((Outcome.answered resp act).next c w) := by
  obtain ⟨_, _, served⟩ := run_of_frame (P := fun _ _ _ => True) trivial exec
  have ending := wp_exec (handleFrame_wp (idle_sound run).1) exec
  exact ⟨ending, _, run.append served.of_restrict⟩

/-- A COMMIT answered OK was replayed, or its record was stored. -/
theorem Ending.commit_cases {resp : List Byte} {act : Action} {len crc : Word}
    (ending : Ending D buf c₀ w₀ resp act c w) (commit : commitOf buf = some (len, crc))
    (answered : AnsweredOk resp) : act = .none ∧
      (c = c₀ ∧ c.s.session = true ∧ c.recState = .fresh ∨
        c.writeSlot = otherSlot c₀.writeSlot ∧ c.s.session = true ∧ c.recState = .fresh) ∧
      c.committedImgLen = len ∧ c.committedImgCrc = crc := by
  cases ending with
  | kept refused => exact absurd answered (refused (by rw [commit]; rfl))
  | replayed request session fresh same_len same_crc =>
    obtain ⟨rfl, rfl⟩ := Prod.mk.inj (Option.some.inj (commit.symm.trans request))
    exact ⟨rfl, .inl ⟨rfl, session, fresh⟩, same_len, same_crc⟩
  | opened none => rw [none] at commit; cases commit
  | stayed boot => rw [bootOf_of_commit commit] at boot; cases boot
  | launched boot => rw [bootOf_of_commit commit] at boot; cases boot
  | changed none => rw [none] at commit; cases commit
  | failed status => exact absurd (answered.2.symm.trans status) (by decide)
  | committed accepted _ session fresh same_len same_crc _ _ flipped =>
    obtain ⟨rfl, rfl⟩ := Prod.mk.inj (Option.some.inj (commit.symm.trans accepted.request))
    exact ⟨rfl, .inr ⟨flipped, session, fresh⟩, same_len, same_crc⟩

theorem Ending.commit_ok {resp : List Byte} {act : Action} {len crc : Word}
    (ending : Ending D buf c₀ w₀ resp act c w) (commit : commitOf buf = some (len, crc))
    (answered : AnsweredOk resp) :
    act = .none ∧ c.s.session = true ∧ c.recState = .fresh ∧ c.committedImgLen = len ∧
      c.committedImgCrc = crc := by
  obtain ⟨none, ⟨-, fresh⟩ | ⟨-, fresh⟩, tuple⟩ := ending.commit_cases commit answered
  · exact ⟨none, fresh.1, fresh.2, tuple⟩
  · exact ⟨none, fresh.1, fresh.2, tuple⟩

variable {P : Core → World → List Byte → Prop}

def Stage.OnRecv (P : Core → World → List Byte → Prop) : Stage → Label → Prop
  | idle c w, .recv buf => P c w buf
  | _, _ => True

theorem reach_restrict {f : Flash} {cfg : Config}
    (run : ((machine D).restrict (OnRecv P)).Run (.off f) ls cfg) :
    ∃ s, ((updater D).restrict (Stage.OnRecv P)).Run (.off f) ls s ∧ Related D cfg s := by
  have restricted : System.Simulation ((machine D).restrict (OnRecv P))
      ((updater D).restrict (Stage.OnRecv P)) (Related D) :=
    (refinement D).restrict fun {_ _ l} related ok => by
      cases related with
      | idle => cases l <;> exact ok
      | _ => trivial
  exact restricted.run (.off f) run

def Stage.Met (P : Core → World → List Byte → Prop) : Stage → Prop
  | serving buf c₀ w₀ _ _ => P c₀ w₀ buf
  | _ => True

theorem Stage.Met.step {s t : Stage} (h : s.Met P) (step : Stage.Step D s l t)
    (ok : s.OnRecv P l) : t.Met P := by
  cases step with
  | recv buf => exact ok
  | ram => exact h
  | port => exact h
  | @answer _ _ act => cases act <;> trivial
  | _ => trivial

end OpenBoot
