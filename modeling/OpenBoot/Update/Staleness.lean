import OpenBoot.Update.Attestation

/-! BOOT under stale XIP views: whether a bootable device can be left by a BOOT.

BOOT reads the active slot through XIP once an update has begun, and that view is
exact as long as the active slot has not been written this power cycle. A COMMIT
makes the slot just written the active one, so what matters is that no further
update is begun before the reset.
-/

set_option autoImplicit false

namespace OpenBoot

open Semantics Program

variable {D : Device} {buf : List Byte} {c c' c₀ : Core} {w w' w₀ : World} {op : PortOp}
  {x : Word} {f : Flash} {ls : List Label}

/-- An ERASE accepted between a COMMIT and the reset that should follow it. -/
def ErasesFresh (D : Device) (c : Core) (_ : World) (buf : List Byte) : Prop :=
  c.recState = .fresh ∧ AcceptsErase D c buf

def Unwritten (D : Device) (w : World) (slot : Word) : Prop :=
  ∀ g ∈ w.past, (D.span slot).EqOn g w.flash

/-- Unless a COMMIT has just succeeded, the active slot has not been written. -/
def ActiveUnwritten (D : Device) (c : Core) (w : World) : Prop :=
  c.activeSlot ≠ slotNone → c.recState ≠ .fresh → Unwritten D w c.activeSlot

theorem ActiveUnwritten.command {b : Bool} (h : ActiveUnwritten D c w) (sound : Sound D b c w)
    (cmd : Command D buf c₀ w₀ c w op) (step : PortStep D w op x w') : ActiveUnwritten D c w' := by
  intro some settled g mem
  have before := h some settled
  have same := cmd.other_slot sound.slot step
  rw [sound.active.resolve_left some] at before ⊢
  rcases step.past mem with rfl | old
  · exact same.symm
  · exact (before g old).trans same.symm

theorem ActiveUnwritten.ram (h : ActiveUnwritten D c w) (dead : D.crcLive = false)
    (kept : ¬ ErasesFresh D c₀ w₀ buf) (step : RamStep D buf c₀ w₀ w c c') :
    ActiveUnwritten D c' w := by
  cases step with
  | distrusted same why =>
    intro some _
    refine h some fun fresh => ?_
    rw [same] at fresh
    rcases why fresh with erase | live
    · exact kept ⟨fresh, erase⟩
    · rw [dead] at live
      cases live
  -- the slot just written becomes the active one, under cover of FRESH
  | committed => exact fun _ settled => absurd rfl settled
  | _ => exact h

def Stage.ActiveUnwritten (D : Device) : Stage → Prop
  | idle c w => OpenBoot.ActiveUnwritten D c w
  | serving _ _ _ c w => OpenBoot.ActiveUnwritten D c w
  | _ => True

theorem Stage.ActiveUnwritten.step {s t : Stage} {l : Label} (h : s.ActiveUnwritten D)
    (dead : D.crcLive = false) (sound : s.Sound D)
    (met : s.Met fun c w buf => ¬ ErasesFresh D c w buf)
    (step : Stage.Step D s l t) : t.ActiveUnwritten D := by
  cases step with
  | ready => exact fun _ _ g mem => (List.not_mem_nil mem).elim
  | recv => exact h
  | ram ram => exact OpenBoot.ActiveUnwritten.ram h dead met ram
  | port permit port =>
    rcases permit.cases port with rfl | ⟨_, _, cmd⟩
    · exact h
    · exact OpenBoot.ActiveUnwritten.command h sound.2 cmd port
  | @answer _ _ act =>
    cases act with
    | none => exact h
    | reset => trivial
  | _ => trivial

theorem updater_activeUnwritten {s : Stage} (dead : D.crcLive = false)
    (run : ((updater D).restrict (Stage.OnRecv fun c w buf => ¬ ErasesFresh D c w buf)).Run
      (.off f) ls s) :
    s.Sound D ∧ s.Met (fun c w buf => ¬ ErasesFresh D c w buf) ∧ s.ActiveUnwritten D := by
  induction run with
  | nil => exact ⟨trivial, trivial, trivial⟩
  | snoc _ step ih =>
    obtain ⟨sound, met, unwritten⟩ := ih
    exact ⟨sound.step step.1, met.step step.1 step.2, unwritten.step dead sound met step.1⟩

theorem Unwritten.answer {A : Type} {p : Code A} {want : A → Prop} {slot : Word}
    {C : Contract port Core World} {post : A → Core → World → Prop} (h : Unwritten D w slot)
    (queries : p.Queries (SlotReads D slot) want)
    (allowed : ∀ op, SlotReads D slot op → C.op c w op)
    (result : post (onFlash D w.flash p) c w) : p.wp (portEnv D) C post c w := by
  refine wp_queries_answer queries (fun op x w' asked step => ?_) allowed (.bss D 0) result
  cases op with
  | xipRead32 a =>
    obtain ⟨same, g, view, rfl⟩ := PortStep.read_inv step
    refine ⟨?_, same⟩
    rcases view with rfl | ⟨_, mem⟩
    · rfl
    · exact coherent_congr_slot (h g mem) (.xipRead32 a) asked
  | _ => exact asked.2.2.elim

/-- The record gate of BOOT opens if the active slot is bootable and was not
    written, and always right after a COMMIT. -/
theorem bootRecordTrusted_opens (sound : Sound D false c w) (unwritten : ActiveUnwritten D c w)
    (valid : appValidOn D w.flash c.activeSlot = true) :
    (bootRecordTrusted D).wp (portEnv D) .any (fun b c' w' => b = true ∧ c' = c ∧ w' = w) c w := by
  have bootable := appValidOn_iff.mp valid
  have some := bootable.isSlot.ne_none
  unfold bootRecordTrusted
  simp only [wp_bind, wp_get]
  cases state : c.recState with
  | fresh => exact ⟨rfl, rfl, rfl⟩
  | flash =>
    simp only [wp_bind]
    have inside : ∀ op, (∃ slot, SlotReads D slot op) →
        Reads D.flashAppStart.toNat D.appEnd.toNat op := by
      rintro op ⟨slot, reads⟩
      exact reads.in_region
    refine wp_coherent (bootSelect_queries D) inside ?_ (fun _ _ => trivial) ?_
    · rw [sound.untouched state]
      exact coherent_reset _ _
    · exact ⟨decide_eq_true bootable.select_ne_none, rfl, rfl⟩
  | invalid =>
    simp only [some, if_false]
    -- the slot asked is not the one the update writes, so its view is exact
    have fixed := unwritten some (by rw [state]; decide)
    exact fixed.answer (bootAppValid_queries D c.activeSlot) (fun _ _ => trivial) ⟨valid, rfl, rfl⟩

theorem boot_accepted_wp (sound : Sound D false c w) (unwritten : ActiveUnwritten D c w)
    (session : c.s.session = true) (valid : appValidOn D w.flash c.activeSlot = true)
    (boot : bootOf buf = some bootApp) :
    (handleFrame D buf).wp (portEnv D) .any (fun out _ _ => AnsweredOk out.1 ∧ out.2 = .reset)
      c w := by
  obtain ⟨seq, pl, decoded, mode⟩ := bootOf_some boot
  rw [handleFrame_eq, decoded]
  simp only [dispatch, doBoot, wp_ite, wp_bind, wp_pure, wp_get]
  refine ⟨fun hello => absurd hello (by decide), fun _ => ⟨fun _ => ⟨fun closed => ?_, fun _ =>
    ⟨fun _ => ⟨fun long => absurd rfl long, fun _ => ⟨fun high => ?_, fun _ => ⟨fun _ => ?_,
      fun other => absurd mode other⟩⟩⟩, fun other => absurd trivial other⟩⟩, fun unknown => ?_⟩⟩
  · rw [session] at closed
    cases closed
  · rw [mode] at high
    exact absurd high (by decide)
  · apply wp_mono (bootRecordTrusted_opens sound unwritten valid)
    rintro b _ _ ⟨rfl, rfl, rfl⟩
    exact ⟨fun shut => (by cases shut), fun _ => ⟨answeredOk_okResp _ _, trivial⟩⟩
  · exact absurd (.inl trivial) unknown

/-- A started update never strands a bootable device: without live CRC, in every
    run in which no ERASE is accepted between a COMMIT and the next reset, BOOT to
    the application is answered OK whenever the active slot validates in the true
    flash; and an update in progress has not written the slot BOOT reads. -/
theorem boot_not_stranded (D : Device) (dead : D.crcLive = false) {f : Flash} {ls : List Label}
    {c : Core} {w : World}
    (run : ((machine D).restrict (OnRecv fun c w buf => ¬ ErasesFresh D c w buf)).Run
      (.off f) ls (.idle c w)) :
    (∀ buf es resp act c' w', c.s.session = true → appValidOn D w.flash c.activeSlot = true →
      bootOf buf = some bootApp →
      (handleFrame D buf).Exec (portEnv D) c w es (resp, act) c' w' →
      AnsweredOk resp ∧ act = .reset) ∧
    (c.recState = .invalid → c.activeSlot ≠ slotNone → Unwritten D w c.activeSlot) := by
  obtain ⟨s, abstract, related⟩ := reach_restrict run
  cases related
  obtain ⟨⟨sound, _⟩, _, unwritten⟩ := updater_activeUnwritten dead abstract
  constructor
  · intro buf es resp act c' w' session valid boot exec
    exact wp_exec (boot_accepted_wp sound unwritten session valid boot) exec
  · exact fun invalid some => unwritten some (by rw [invalid]; decide)

def unfresh (c : Core) (_ : World) (_ : List Byte) : Bool := c.recState ≠ .fresh

theorem unfresh_sound (D : Device) (c : Core) (w : World) (buf : List Byte)
    (passed : unfresh c w buf = true) : ¬ ErasesFresh D c w buf := fun erases =>
  of_decide_eq_true passed erases.1

/-- BOOT in the middle of an update of the factory image. -/
theorem boot_not_stranded_midway : ∃ ls c w es resp act c' w',
    ((machine .ch570).restrict (OnRecv fun c w buf => ¬ ErasesFresh .ch570 c w buf)).Run
      (.off (Bench.factory .ch570 Bench.image)) ls (.idle c w) ∧ c.recState = .invalid ∧
    (handleFrame .ch570 (Bench.boot bootApp)).Exec (portEnv .ch570) c w es (resp, act) c' w' ∧
    AnsweredOk resp ∧ act = .reset := by
  have passes : (Bench.bench .ch570 unfresh (Bench.factory .ch570 Bench.image) bootreqMagic
      (Bench.stream 0x1F000)).any (fun s => decide (s.1.recState = .invalid ∧
        s.1.s.session = true ∧ appValidOn .ch570 s.2.flash s.1.activeSlot = true)) = true := by
    decide +kernel
  obtain ⟨ls, c, w, _, run, state⟩ := Bench.bench_run (unfresh_sound .ch570) passes
  obtain ⟨invalid, session, valid⟩ := of_decide_eq_true state
  have full := run_of_powerUp run
  have exec := Bench.carry_exec .ch570 (handleFrame .ch570 (Bench.boot bootApp)) c w
  have boots := (boot_not_stranded .ch570 (by decide) full).1 _ _ _ _ _ _ session valid
    (by decide +kernel) exec
  exact ⟨_, c, w, _, _, _, _, _, full, invalid, exec, boots⟩

/-- On a blank part, COMMIT to slot A and ERASE of slot B: slot A validates in the
    true flash, but its stale view refuses the BOOT. -/
theorem second_update_strands : ∃ ls c w es resp act c' w',
    (machine .ch570).Run (.off Bench.blank) ls (.idle c w) ∧ Device.crcLive .ch570 = false ∧
    c.s.session = true ∧ c.recState = .invalid ∧
    appValidOn .ch570 w.flash c.activeSlot = true ∧
    (handleFrame .ch570 (Bench.boot bootApp)).Exec (portEnv .ch570) c w es (resp, act) c' w' ∧
    ¬ AnsweredOk resp := by
  have passes : (Bench.bench .ch570 Bench.unchecked Bench.blank 0
      (Bench.stream 0x2000 ++ [Bench.commit Bench.image, Bench.erase 0x1F000 4096])).any (fun s =>
        decide (s.1.s.session = true ∧ s.1.recState = .invalid ∧
          appValidOn .ch570 s.2.flash s.1.activeSlot = true ∧ ¬ AnsweredOk
            (Bench.carry .ch570 (handleFrame .ch570 (Bench.boot bootApp)) s.1 s.2).1.1)) =
      true := by
    decide +kernel
  obtain ⟨ls, c, w, run, state⟩ := Bench.bench_reach passes
  obtain ⟨session, invalid, valid, refused⟩ := of_decide_eq_true state
  have exec := Bench.carry_exec .ch570 (handleFrame .ch570 (Bench.boot bootApp)) c w
  exact ⟨ls, c, w, _, _, _, _, _, run, by decide, session, invalid, valid, exec, refused⟩

end OpenBoot
