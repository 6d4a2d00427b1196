import OpenBoot.Update.Attestation
import Mathlib.Data.List.Induction

/-! An interrupted update boots the previous image.

Within one power cycle, until a COMMIT is answered, the slot that was active at
reset stays as it was, and the slot being updated can only be selected once the
complete record of an attested COMMIT stands there.
-/

set_option autoImplicit false

namespace OpenBoot

open Semantics Program

/-- What the host has seen: the frame being served, the COMMITs delivered and
    those answered OK. -/
structure History where
  frame : List Byte
  requested : List (Word × Word)
  acknowledged : List (Word × Word)

namespace History

def step (h : History) : Label → History
  | .recv buf => { h with frame := buf, requested := (commitOf buf).toList ++ h.requested }
  | .out (.answered resp _) =>
    if AnsweredOk resp then { h with acknowledged := (commitOf h.frame).toList ++ h.acknowledged }
    else h
  | _ => h

end History

def history (ls : List Label) : History := ls.foldl History.step ⟨[], [], []⟩

variable {ls : List Label} {l : Label}

@[simp] theorem history_snoc (ls : List Label) (l : Label) :
    history (ls ++ [l]) = (history ls).step l := by simp [history]

theorem History.requested_mono {h : History} {q : Word × Word} (mem : q ∈ h.requested) :
    q ∈ (h.step l).requested := by
  unfold History.step
  split
  · exact List.mem_append_right _ mem
  · split <;> exact mem
  · exact mem

theorem History.acknowledged_of_step {h : History} (none : (h.step l).acknowledged = []) :
    h.acknowledged = [] := by
  unfold History.step at none
  split at none
  · exact none
  · split at none
    · exact (List.append_eq_nil_iff.mp none).2
    · exact none
  · exact none

theorem History.unanswered {h : History} {resp : List Byte} {act : Action} {q : Word × Word}
    (none : (h.step (.out (.answered resp act))).acknowledged = [])
    (commit : commitOf h.frame = some q) : ¬ AnsweredOk resp := by
  intro answered
  simp only [History.step, if_pos answered, commit, Option.toList_some, List.cons_append] at none
  cases none

theorem history_unasked (unasked : ∀ buf, .recv buf ∈ ls → commitOf buf = none) :
    commitOf (history ls).frame = none ∧ (history ls).acknowledged = [] := by
  induction ls using List.reverseRecOn with
  | nil => exact ⟨rfl, rfl⟩
  | append_singleton ls l ih =>
    obtain ⟨frame, none⟩ := ih fun buf mem => unasked buf (List.mem_append_left _ mem)
    rw [history_snoc]
    unfold History.step
    split
    · next buf =>
      exact ⟨unasked buf (List.mem_append_right _ (List.mem_singleton_self _)), none⟩
    · split
      · exact ⟨frame, by rw [frame, none]; rfl⟩
      · exact ⟨frame, none⟩
    · exact ⟨frame, none⟩

variable {D : Device} {buf : List Byte} {c c₀ : Core} {w w' w₀ : World} {op : PortOp} {x : Word}
  {f g : Flash} {a : Word}

/-- What a power cycle that began with `f` and active slot `a` has made of the
    flash, given the COMMITs requested so far. -/
structure Cycle (D : Device) (a : Word) (f : Flash) (requested : List (Word × Word)) (g : Flash) :
    Prop where
  kept : (D.span a).EqOn g f
  target : g = f ∨ recordOn D g (otherSlot a) = none ∨ ∃ len crc, (len, crc) ∈ requested ∧
    recordOn D g (otherSlot a) = some (.sealed (highestOn D f + 1) len crc) ∧
    Attests D g (otherSlot a) len crc

theorem Cycle.start (D : Device) (a : Word) (f : Flash) (requested : List (Word × Word)) :
    Cycle D a f requested f := ⟨Set.eqOn_refl _ _, .inl rfl⟩

theorem Cycle.mono {requested requested' : List (Word × Word)} (h : Cycle D a f requested g)
    (grown : ∀ q ∈ requested, q ∈ requested') : Cycle D a f requested' g := by
  refine ⟨h.kept, h.target.imp_right (Or.imp_right ?_)⟩
  rintro ⟨len, crc, mem, found, attests⟩
  exact ⟨len, crc, grown _ mem, found, attests⟩

theorem Cycle.command {requested : List (Word × Word)} (h : Cycle D a f requested w.flash)
    (sound : Sound D (commitOf buf).isSome c w) (target : c.writeSlot = otherSlot a)
    (counter : c₀.highestGen = highestOn D f)
    (asked : ∀ q, commitOf buf = some q → q ∈ requested) (cmd : Command D buf c₀ w₀ c w op)
    (step : PortStep D w op x w') : Cycle D a f requested w'.flash := by
  have same := cmd.other_slot sound.slot step
  rw [target, otherSlot_otherSlot] at same
  refine ⟨same.trans h.kept, ?_⟩
  have slot := sound.slot
  rcases cmd.record sound step with none | unchanged | ⟨len, crc, sealing, found⟩
  · rw [target] at none
    exact .inr (.inl none)
  · rw [unchanged]
    exact h.target
  · have attests := sealing.attests slot
    unfold nextRecord at found
    rw [target] at found attests
    rw [sealing.gen, counter] at found
    exact .inr (.inr ⟨len, crc, asked _ sealing.request, found, attests⟩)

/-- What the reset path selects from such a flash. -/
theorem Cycle.select {requested : List (Word × Word)} (h : Cycle D a f requested g)
    (active : selectOn D f = a) (some : a ≠ slotNone) :
    selectOn D g = a ∨ selectOn D g = otherSlot a ∧ ∃ len crc, (len, crc) ∈ requested ∧
      g.bytes (D.recordAt (otherSlot a)) bootRecordSize =
        (BootRecord.sealed (highestOn D f + 1) len crc).bytes ∧
      Attests D g (otherSlot a) len crc := by
  have bootable : Bootable D g a := by
    have before := selectOn_bootable (D := D) (f := f) (by rwa [active])
    rw [active] at before
    exact (bootable_congr h.kept).mpr before
  obtain ⟨r, found, valid⟩ := bootable
  rcases h.target with rfl | none | ⟨len, crc, mem, sealed, attests⟩
  · exact .inl active
  · exact .inl (selectOn_of_newest found valid fun r' other => by rw [none] at other; cases other)
  -- the complete record stands in the other slot: either may be picked
  · have isSlot := (recordOn_some found).1
    have picked := (selectOn_isSlot D g).resolve_left (Bootable.select_ne_none ⟨r, found, valid⟩)
    rcases isSlot.eq_or_other picked with same | other
    · exact .inl same
    · refine .inr ⟨other, len, crc, mem, ?_, attests⟩
      obtain ⟨_, _, read, _⟩ := recordOn_some sealed
      rw [read, BootRecord.bytes_ofBytes (Flash.bytes_length _ _ _)]

/-- The invariant of the power cycle, for as long as no COMMIT is answered OK. -/
def Stage.InCycle (D : Device) (a : Word) (f : Flash) (h : History) : Stage → Prop
  | off g => Cycle D a f h.requested g
  | booting g => g = f
  | idle c w => (c.writeSlot = otherSlot a ∧ c.highestGen = highestOn D f) ∧
    Cycle D a f h.requested w.flash
  | serving buf c₀ _ c w => (h.frame = buf ∧ ∀ q, commitOf buf = some q → q ∈ h.requested) ∧
    (c₀.writeSlot = otherSlot a ∧ c₀.highestGen = highestOn D f) ∧
    (c.writeSlot = c₀.writeSlot → c.highestGen = c₀.highestGen) ∧
    Cycle D a f h.requested w.flash

theorem RamStep.highestGen {c' : Core} (ram : RamStep D buf c₀ w₀ w c c')
    (kept : c.writeSlot = c₀.writeSlot → c.highestGen = c₀.highestGen)
    (same : c'.writeSlot = c₀.writeSlot) : c'.highestGen = c₀.highestGen := by
  cases ram with
  | committed _ sealing =>
    rw [← sealing.slot] at same
    exact absurd same (otherSlot_ne _)
  | _ => exact kept same

theorem Ending.writeSlot {resp : List Byte} (ending : Ending D buf c₀ w₀ resp .none c w)
    (unanswered : ∀ q, commitOf buf = some q → ¬ AnsweredOk resp) :
    c.writeSlot = c₀.writeSlot := by
  cases ending with
  | changed _ _ same => exact same
  | failed _ _ _ _ _ _ same => exact same
  | committed accepted answered => exact absurd answered (unanswered _ accepted.request)
  | _ => rfl

theorem Stage.InCycle.step {s t : Stage} {h : History} (inCycle : s.InCycle D a f h)
    (active : selectOn D f = a) (some : a ≠ slotNone) (sound : s.Sound D)
    (none : (h.step l).acknowledged = []) (cycle : l ≠ .reset) (step : Stage.Step D s l t) :
    t.InCycle D a f (h.step l) := by
  have grown : ∀ q ∈ h.requested, q ∈ (h.step l).requested := fun q => History.requested_mono
  cases step with
  | reset => exact absurd rfl cycle
  | look => exact inCycle
  | think => exact inCycle
  | launch =>
    obtain rfl : _ = f := inCycle
    exact .start _ _ _ _
  | ready =>
    -- the roles are those of the flash the power cycle began with
    obtain rfl : _ = f := inCycle
    refine ⟨?_, .start _ _ _ _⟩
    refine ⟨?_, rfl⟩
    simp only [Core.started, active, some, if_false]
  | recv buf =>
    refine ⟨⟨rfl, fun q commit => ?_⟩, inCycle.1, fun _ => rfl, inCycle.2.mono grown⟩
    simp [History.step, commit]
  | ram ram =>
    obtain ⟨asked, roles, kept, cyc⟩ := inCycle
    exact ⟨asked, roles, ram.highestGen kept, cyc⟩
  | @port buf c₀ c w₀ w w' op x permit port =>
    obtain ⟨⟨frame, asked⟩, ⟨target, counter⟩, kept, cyc⟩ := inCycle
    refine ⟨⟨frame, asked⟩, ⟨target, counter⟩, kept, ?_⟩
    rcases permit.cases port with rfl | ⟨slot, _, cmd⟩
    · exact cyc
    · exact cyc.command sound.2 (slot.trans target) counter asked cmd port
  | @answer buf resp act c₀ c w₀ w ending =>
    obtain ⟨⟨rfl, _⟩, ⟨target, counter⟩, kept, cyc⟩ := inCycle
    have cyc := cyc.mono grown
    cases act with
    | none =>
      have same := ending.writeSlot fun q commit => History.unanswered none commit
      exact ⟨⟨same.trans target, (kept same).trans counter⟩, cyc⟩
    | reset => exact cyc

theorem updater_inCycle {s : Stage} (active : selectOn D f = a) (some : a ≠ slotNone)
    (run : (updater D).Run (.booting f) ls s) (cycle : .reset ∉ ls)
    (none : (history ls).acknowledged = []) : s.Sound D ∧ s.InCycle D a f (history ls) := by
  induction run with
  | nil => exact ⟨trivial, rfl⟩
  | snoc _ step ih =>
    rw [history_snoc] at none ⊢
    simp only [List.mem_append, List.mem_singleton, not_or] at cycle
    obtain ⟨sound, inCycle⟩ := ih cycle.1 (History.acknowledged_of_step none)
    exact ⟨sound.step step, inCycle.step active some sound none (Ne.symm cycle.2) step⟩

theorem Stage.InCycle.flash {s : Stage} {h : History} (inCycle : s.InCycle D a f h) :
    Cycle D a f h.requested s.flash := by
  cases s with
  | off => exact inCycle
  | booting g =>
    obtain rfl : g = f := inCycle
    exact .start _ _ _ _
  | idle => exact inCycle.2
  | serving => exact inCycle.2.2.2

/-- An interrupted update boots the previous image: at every instant of a power
    cycle with active slot `a`, as long as no COMMIT has been answered OK, slot `a`
    is unchanged and a reset selects it, except that it may select the other slot
    once that holds the complete record of a COMMIT whose image CRC matched, one
    generation above every record of the flash the cycle began with. -/
theorem interrupted_update (D : Device) {f : Flash} {bootreq : Word} {ls : List Label}
    {cfg : Config} (some : selectOn D f ≠ slotNone)
    (run : (machine D).Run (.powerUp D f bootreq) ls cfg) (cycle : .reset ∉ ls)
    (unanswered : (history ls).acknowledged = []) :
    (D.span (selectOn D f)).EqOn cfg.flash f ∧
      (selectOn D cfg.flash = selectOn D f ∨
        selectOn D cfg.flash = otherSlot (selectOn D f) ∧ ∃ len crc,
          (len, crc) ∈ (history ls).requested ∧
          cfg.flash.bytes (D.recordAt (otherSlot (selectOn D f))) bootRecordSize =
            (BootRecord.sealed (highestOn D f + 1) len crc).bytes ∧
          Attests D cfg.flash (otherSlot (selectOn D f)) len crc) := by
  obtain ⟨s, abstract, related⟩ := (refinement D).run (related_powerUp D f bootreq) run
  rw [related.flash]
  have inCycle := (updater_inCycle rfl some abstract cycle unanswered).2.flash
  exact ⟨inCycle.kept, inCycle.select rfl some⟩

/-- An update of the factory image, interrupted before its COMMIT. -/
theorem interrupted_update_uncommitted : ∃ ls c w,
    (machine .ch570).Run (.powerUp .ch570 (Bench.factory .ch570 Bench.image) bootreqMagic) ls
      (.idle c w) ∧ c.s.expectedNext = 0x1F004 ∧
      (Device.span .ch570 slotA).EqOn w.flash (Bench.factory .ch570 Bench.image) := by
  have passes : (Bench.bench .ch570 Bench.unchecked (Bench.factory .ch570 Bench.image) bootreqMagic
      (Bench.stream 0x1F000)).any (fun s => decide (s.1.s.expectedNext = 0x1F004)) = true := by
    decide +kernel
  obtain ⟨ls, c, w, confined, run, cursor⟩ := Bench.bench_run (P := fun _ _ _ => True)
    (fun _ _ _ _ => trivial) passes
  have active : selectOn .ch570 (Bench.factory .ch570 Bench.image) = slotA := by decide +kernel
  have unasked : ∀ buf ∈ Bench.stream 0x1F000, commitOf buf = none := by decide +kernel
  have kept := (interrupted_update .ch570 (by rw [active]; decide) run.of_restrict confined.cycle
    (history_unasked fun buf mem => unasked buf (confined.recv buf mem)).2).1
  rw [active] at kept
  exact ⟨ls, c, w, run.of_restrict, of_decide_eq_true cursor, kept⟩

end OpenBoot
