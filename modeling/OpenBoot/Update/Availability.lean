import OpenBoot.Update.Attestation

/-! The A/B guarantee: the slot the device considers active can always be booted.

It rests on one condition on the frames. COMMIT accepts any image whose CRC is
right, the boot decision in addition wants a first word that is not erased, and
nothing in COMMIT looks at that word.
-/

set_option autoImplicit false

namespace OpenBoot

open Semantics Program

variable {D : Device} {buf : List Byte} {c c' c₀ : Core} {w w' w₀ : World} {op : PortOp}
  {x : Word} {f : Flash} {ls : List Label} {cfg : Config}

/-- A COMMIT that is accepted over an image whose first word is still erased. -/
def SealsBlank (D : Device) (c : Core) (w : World) (buf : List Byte) : Prop :=
  ∃ len crc, AcceptsCommit D c w buf len crc ∧ w.flash.read32 (D.slotBase c.writeSlot) = erasedWord

def ActiveBootable (D : Device) (c : Core) (f : Flash) : Prop :=
  c.activeSlot ≠ slotNone → Bootable D f c.activeSlot

theorem ActiveBootable.command (h : ActiveBootable D c w.flash) (slot : IsSlot c.writeSlot)
    (active : c.activeSlot = slotNone ∨ c.activeSlot = otherSlot c.writeSlot)
    (cmd : Command D buf c₀ w₀ c w op) (step : PortStep D w op x w') :
    ActiveBootable D c w'.flash := by
  intro some
  have bootable := h some
  rw [active.resolve_left some] at bootable ⊢
  exact (bootable_congr (cmd.other_slot slot step)).mpr bootable

/-- The slot a COMMIT makes active is bootable, unless its image is blank. -/
theorem Sealing.bootable {len crc : Word} (slot : IsSlot c.writeSlot)
    (sealing : Sealing D buf c₀ w₀ c w.flash len crc)
    (record : recordOn D w.flash c.writeSlot = some (nextRecord c len crc))
    (nonblank : ¬ SealsBlank D c₀ w₀ buf) : Bootable D w.flash c.writeSlot := by
  refine ⟨_, record, (imageValidOn_iff slot sealing.geometry).mpr ⟨fun _ => ?_, fun erased => ?_⟩⟩
  · exact sealing.attests slot
  · have room := sealing.geometry.toNat_le slot sealing.geometry.fits
    have whole : len.toNat % 4 = 0 := by
      have := congrArg BitVec.toNat sealing.geometry.whole
      simpa [BitVec.toNat_umod] using this
    have nonzero : len.toNat ≠ 0 := fun zero => sealing.geometry.nonzero (by bv_omega)
    have same : w.flash.read32 (D.slotBase c.writeSlot) =
        w₀.flash.read32 (D.slotBase c.writeSlot) :=
      Flash.read32_congr (Set.EqOn.mono
        (Set.Ico_subset_Ico_right (by change D.base _ + 4 ≤ _; omega)) sealing.area)
    rw [same, sealing.slot] at erased
    exact nonblank ⟨len, crc, sealing.accepted, erased⟩

theorem ActiveBootable.ram {b : Bool} (h : ActiveBootable D c w.flash) (sound : Sound D b c w)
    (nonblank : ¬ SealsBlank D c₀ w₀ buf) (step : RamStep D buf c₀ w₀ w c c') :
    ActiveBootable D c' w.flash ∧ (c.activeSlot ≠ slotNone → c'.activeSlot ≠ slotNone) := by
  cases step with
  -- the one step that moves the roles
  | committed _ sealing record =>
    exact ⟨fun _ => sealing.bootable sound.slot record nonblank, fun _ => sound.slot.ne_none⟩
  | _ => exact ⟨h, id⟩

/-- What every stage keeps: whatever could boot at the start can boot now, and the
    active slot can. -/
def Stage.Serviceable (D : Device) (bootable : Prop) : Stage → Prop
  | off f => bootable → selectOn D f ≠ slotNone
  | booting f => bootable → selectOn D f ≠ slotNone
  | idle c w => (bootable → c.activeSlot ≠ slotNone) ∧ ActiveBootable D c w.flash
  | serving _ _ _ c w => (bootable → c.activeSlot ≠ slotNone) ∧ ActiveBootable D c w.flash

theorem Stage.Serviceable.select {bootable : Prop} {s : Stage} (h : s.Serviceable D bootable) :
    bootable → selectOn D s.flash ≠ slotNone := by
  cases s with
  | off => exact h
  | booting => exact h
  | idle => exact fun start => (h.2 (h.1 start)).select_ne_none
  | serving => exact fun start => (h.2 (h.1 start)).select_ne_none

theorem Stage.Serviceable.step {bootable : Prop} {s t : Stage} {l : Label}
    (h : s.Serviceable D bootable) (sound : s.Sound D)
    (met : s.Met fun c w buf => ¬ SealsBlank D c w buf) (step : Stage.Step D s l t) :
    t.Serviceable D bootable := by
  cases step with
  | reset => exact h.select
  | look => exact h
  | think => exact h
  | launch => exact h
  | ready => exact ⟨h, selectOn_bootable⟩
  | recv => exact h
  | ram ram =>
    obtain ⟨kept, some⟩ := h.2.ram sound.2 met ram
    exact ⟨fun start => some (h.1 start), kept⟩
  | port permit port =>
    rcases permit.cases port with rfl | ⟨_, _, cmd⟩
    · exact h
    · exact ⟨h.1, h.2.command sound.2.slot sound.2.active cmd port⟩
  | @answer _ _ act =>
    cases act with
    | none => exact h
    | reset => exact Stage.Serviceable.select (s := .serving _ _ _ _ _) h

theorem updater_serviceable {bootable : Prop} {s : Stage}
    (start : bootable → selectOn D f ≠ slotNone)
    (run : ((updater D).restrict (Stage.OnRecv fun c w buf => ¬ SealsBlank D c w buf)).Run
      (.off f) ls s) :
    s.Sound D ∧ s.Met (fun c w buf => ¬ SealsBlank D c w buf) ∧ s.Serviceable D bootable := by
  induction run with
  | nil => exact ⟨trivial, trivial, start⟩
  | snoc _ step ih =>
    obtain ⟨sound, met, serviceable⟩ := ih
    exact ⟨sound.step step.1, met.step step.1 step.2, serviceable.step sound met step.1⟩

/-- At every instant at least one slot is bootable: in every run whose COMMITs
    never seal a blank image, over any number of sessions and power cycles, if a
    slot could be booted at the start then one can be booted at any point. -/
theorem always_bootable (D : Device) {f : Flash} {ls : List Label} {cfg : Config}
    (start : selectOn D f ≠ slotNone)
    (run : ((machine D).restrict (OnRecv fun c w buf => ¬ SealsBlank D c w buf)).Run
      (.off f) ls cfg) : selectOn D cfg.flash ≠ slotNone := by
  obtain ⟨s, abstract, related⟩ := reach_restrict run
  rw [related.flash]
  have known : True → selectOn D f ≠ slotNone := fun _ => start
  exact (updater_serviceable known abstract).2.2.select trivial

def nonblank (D : Device) (c : Core) (w : World) (buf : List Byte) : Bool :=
  commitOf buf = none ∨ w.flash.read32 (D.slotBase c.writeSlot) ≠ erasedWord

theorem nonblank_sound (D : Device) (c : Core) (w : World) (buf : List Byte)
    (passed : nonblank D c w buf = true) : ¬ SealsBlank D c w buf := by
  rintro ⟨len, crc, accepted, erased⟩
  rcases of_decide_eq_true passed with none | first
  · rw [accepted.request] at none
    cases none
  · exact first erased

/-- A factory image updated once. -/
theorem always_bootable_update : ∃ ls c w,
    ((machine .ch570).restrict (OnRecv fun c w buf => ¬ SealsBlank .ch570 c w buf)).Run
      (.off (Bench.factory .ch570 Bench.image)) ls (.idle c w) ∧ c.activeSlot = slotB ∧
      selectOn .ch570 w.flash ≠ slotNone := by
  have passes : (Bench.bench .ch570 (nonblank .ch570) (Bench.factory .ch570 Bench.image)
      bootreqMagic (Bench.stream 0x1F000 ++ [Bench.commit Bench.image])).any
      (fun s => decide (s.1.activeSlot = slotB)) = true := by decide +kernel
  obtain ⟨ls, c, w, _, run, active⟩ := Bench.bench_run (nonblank_sound .ch570) passes
  have start : selectOn .ch570 (Bench.factory .ch570 Bench.image) ≠ slotNone := by decide +kernel
  have full := run_of_powerUp run
  have bootable := always_bootable .ch570 start full
  exact ⟨_, c, w, full, of_decide_eq_true active, bootable⟩

/-- COMMIT of a blank image in slot B, then ERASE of slot A: nothing is bootable
    any more. -/
theorem blank_image_strands : ∃ ls c w,
    (machine .ch570).Run (.off (Bench.factory .ch570 Bench.image)) ls (.idle c w) ∧
      selectOn .ch570 (Bench.factory .ch570 Bench.image) = slotA ∧
      selectOn .ch570 w.flash = slotNone := by
  have passes : (Bench.bench .ch570 Bench.unchecked (Bench.factory .ch570 Bench.image) bootreqMagic
      [Bench.hello, Bench.commit Bench.blankImage, Bench.erase 0x2000 4096]).any
      (fun s => decide (selectOn .ch570 s.2.flash = slotNone)) = true := by decide +kernel
  obtain ⟨ls, c, w, run, none⟩ := Bench.bench_reach passes
  have start : selectOn .ch570 (Bench.factory .ch570 Bench.image) = slotA := by decide +kernel
  exact ⟨ls, c, w, run, start, of_decide_eq_true none⟩

/-- An accepted BOOT to the application lands in one: in every run whose COMMITs
    never seal a blank image, a BOOT that asks for the reset is followed by a
    launch, whatever the flash and the stale views were. -/
theorem boot_lands (D : Device) {f : Flash} {ls : List Label} {c c' : Core} {w w' : World}
    {buf resp : List Byte} {es : List (Event port)}
    (run : ((machine D).restrict (OnRecv fun c w buf => ¬ SealsBlank D c w buf)).Run
      (.off f) ls (.idle c w))
    (boot : bootOf buf = some bootApp)
    (exec : (handleFrame D buf).Exec (portEnv D) c w es (resp, .reset) c' w') :
    ∃ slot, IsSlot slot ∧ decideOn D w'.flash c'.bootreq = some (D.slotBase slot) := by
  obtain ⟨s, abstract, related⟩ := reach_restrict run
  cases related
  have unknown : False → selectOn D f ≠ slotNone := fun none => none.elim
  obtain ⟨⟨sound, consumed⟩, _, _, bootable⟩ := updater_serviceable unknown abstract
  have ending := wp_exec (handleFrame_wp sound) exec
  generalize hact : Action.reset = act at ending
  have landed : c' = c ∧ w' = w ∧ selectOn D w.flash ≠ slotNone := by
    cases ending with
    | stayed stay =>
      rw [boot] at stay
      cases stay
    | launched _ _ trusts =>
      refine ⟨rfl, rfl, ?_⟩
      unfold Trusts at trusts
      cases state : c.recState with
      | fresh =>
        -- the gate asks nothing here; the condition on COMMIT has to answer
        have roles := (sound.fresh state).roles
        exact (bootable (by rw [roles]; exact sound.slot.other.ne_none)).select_ne_none
      | flash =>
        rw [state] at trusts
        exact trusts
      | invalid =>
        rw [state] at trusts
        exact (bootable trusts).select_ne_none
    | _ => cases hact
  obtain ⟨rfl, rfl, some⟩ := landed
  refine ⟨selectOn D w'.flash, (selectOn_isSlot D _).resolve_left some, ?_⟩
  rw [decideOn_eq, if_neg (not_or.mpr ⟨consumed, some⟩)]

/-- BOOT right after an update of the factory image. -/
theorem boot_lands_update : ∃ ls c w es resp c' w',
    ((machine .ch570).restrict (OnRecv fun c w buf => ¬ SealsBlank .ch570 c w buf)).Run
      (.off (Bench.factory .ch570 Bench.image)) ls (.idle c w) ∧
    (handleFrame .ch570 (Bench.boot bootApp)).Exec (portEnv .ch570) c w es (resp, .reset) c' w' ∧
    ∃ slot, IsSlot slot ∧
      decideOn .ch570 w'.flash c'.bootreq = some (Device.slotBase .ch570 slot) := by
  have passes : (Bench.bench .ch570 (nonblank .ch570) (Bench.factory .ch570 Bench.image)
      bootreqMagic (Bench.stream 0x1F000 ++ [Bench.commit Bench.image])).any
      (fun s => decide ((Bench.carry .ch570 (handleFrame .ch570 (Bench.boot bootApp)) s.1 s.2).1.2 =
        .reset)) = true := by decide +kernel
  obtain ⟨ls, c, w, _, run, resets⟩ := Bench.bench_run (nonblank_sound .ch570) passes
  have full := run_of_powerUp run
  have exec := Bench.carry_exec .ch570 (handleFrame .ch570 (Bench.boot bootApp)) c w
  rw [← Prod.eta (Bench.carry _ _ c w).1, of_decide_eq_true resets] at exec
  exact ⟨_, c, w, _, _, _, _, full, exec, boot_lands .ch570 full (by decide +kernel) exec⟩

/-- COMMIT of a blank image on a blank part: BOOT is accepted and the reset stays
    in the bootloader. -/
theorem blank_image_boots_nowhere : ∃ ls c w es resp c' w',
    (machine .ch570).Run (.off Bench.blank) ls (.idle c w) ∧
    (handleFrame .ch570 (Bench.boot bootApp)).Exec (portEnv .ch570) c w es (resp, .reset) c' w' ∧
    AnsweredOk resp ∧ decideOn .ch570 w'.flash c'.bootreq = none := by
  have passes : (Bench.bench .ch570 Bench.unchecked Bench.blank 0
      [Bench.hello, Bench.commit Bench.blankImage]).any (fun s =>
        let out := Bench.carry .ch570 (handleFrame .ch570 (Bench.boot bootApp)) s.1 s.2
        decide (out.1.2 = .reset ∧ AnsweredOk out.1.1 ∧
          decideOn .ch570 out.2.2.flash out.2.1.bootreq = none)) = true := by decide +kernel
  obtain ⟨ls, c, w, run, boots⟩ := Bench.bench_reach passes
  obtain ⟨resets, answered, stays⟩ := of_decide_eq_true boots
  have exec := Bench.carry_exec .ch570 (handleFrame .ch570 (Bench.boot bootApp)) c w
  rw [← Prod.eta (Bench.carry _ _ c w).1, resets] at exec
  exact ⟨ls, c, w, _, _, _, _, run, exec, answered, stays⟩

end OpenBoot
