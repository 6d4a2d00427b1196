import OpenBoot.Update.Attestation

/-! Generations: the record a COMMIT stores outranks everything else in flash. -/

set_option autoImplicit false

namespace OpenBoot

open Semantics Program

variable {D : Device} {c c₀ : Core} {w w₀ : World} {f : Flash} {ls : List Label}

theorem Sealing.generation {buf : List Byte} {len crc : Word} {b : Bool} (sound : Sound D b c w)
    (sealing : Sealing D buf c₀ w₀ c w.flash len crc) :
    1 ≤ c.highestGen + 1 ∧ c.highestGen + 1 ≤ 0xFFFFFFFE ∧
      ∀ r, recordOn D w.flash (otherSlot c.writeSlot) = some r →
        r.generation < c.highestGen + 1 := by
  have nonzero := sealing.nonzero
  have below : c.highestGen + 1 ≠ 0xFFFFFFFF := sealing.gen ▸ sealing.accepted.below
  refine ⟨by bv_omega, by bv_omega, fun r found => ?_⟩
  have newest := sound.newest r found
  bv_omega

/-- After a COMMIT the committed slot holds its record, and is selected unless
    the boot decision rejects the image. -/
theorem Fresh.selected (fresh : Fresh D c f) :
    ∃ r, recordOn D f c.activeSlot = some r ∧ r.imgLen = c.committedImgLen ∧
      r.imgCrc32 = c.committedImgCrc ∧
      (imageValidOn D f c.activeSlot r = true → selectOn D f = c.activeSlot) := by
  obtain ⟨r, found, gen, len, crc⟩ := fresh.record
  refine ⟨r, found, len, crc, fun valid => selectOn_of_newest found valid fun r' other => ?_⟩
  rw [fresh.roles, otherSlot_otherSlot] at other
  rw [gen]
  exact fresh.older r' other

/-- Generations never tie and never saturate. A record write carries a usable
    generation above that of any valid record in the other slot; after a COMMIT
    answered OK the committed slot is selected whenever its image is accepted; and
    a COMMIT whose generation would be unusable issues no command and changes
    nothing. -/
theorem generations_sound (D : Device) {f : Flash} {ls : List Label} {cfg : Config}
    (run : (machine D).Run (.off f) ls cfg) :
    (∀ t c w a data k, cfg = .busy t (.call (.flashWrite a data) k) c w →
      a = D.slotRecordAddr c.writeSlot →
      ∃ g len crc, data = (BootRecord.sealed g len crc).bytes ∧ 1 ≤ g ∧ g ≤ 0xFFFFFFFE ∧
        ∀ r, recordOn D w.flash (otherSlot c.writeSlot) = some r → r.generation < g) ∧
    (∀ c w buf len crc es resp act c' w', cfg = .idle c w → commitOf buf = some (len, crc) →
      (handleFrame D buf).Exec (portEnv D) c w es (resp, act) c' w' → AnsweredOk resp →
      ∃ r, recordOn D w'.flash c'.activeSlot = some r ∧ r.imgLen = len ∧ r.imgCrc32 = crc ∧
        (imageValidOn D w'.flash c'.activeSlot r = true →
          selectOn D w'.flash = c'.activeSlot)) ∧
    (∀ c w buf len crc es resp act c' w', cfg = .idle c w → commitOf buf = some (len, crc) →
      (c.highestGen + 1 = 0 ∨ c.highestGen + 1 = 0xFFFFFFFF) →
      (handleFrame D buf).Exec (portEnv D) c w es (resp, act) c' w' →
      c' = c ∧ w' = w ∧ issued es = []) := by
  refine ⟨?_, ?_, ?_⟩
  · rintro t c w a data k rfl record
    obtain ⟨_, _, _, len, crc, _, rfl, sound, sealing⟩ := record_write run record
    exact ⟨_, len, crc, rfl, sealing.generation sound⟩
  · rintro c w buf len crc es resp act c' w' rfl commit exec answered
    obtain ⟨ending, ls', reached⟩ := frame_ending run exec
    obtain ⟨rfl, _, fresh, rfl, rfl⟩ := ending.commit_ok commit answered
    exact ((idle_sound reached).1.fresh fresh).selected
  · rintro c w buf len crc es resp act c' w' rfl commit unusable exec
    -- every ending that changes something needs an accepted COMMIT
    have unaccepted : ∀ len crc, ¬ AcceptsCommit D c w buf len crc := fun len crc accepted =>
      unusable.elim accepted.nonzero accepted.below
    have same : c' = c ∧ w' = w := by
      cases (frame_ending run exec).1 with
      | kept => exact ⟨rfl, rfl⟩
      | replayed => exact ⟨rfl, rfl⟩
      | opened none => rw [none] at commit; cases commit
      | stayed boot => rw [bootOf_of_commit commit] at boot; cases boot
      | launched boot => rw [bootOf_of_commit commit] at boot; cases boot
      | changed none => rw [none] at commit; cases commit
      | failed _ _ _ _ _ accepted =>
        obtain ⟨_, _, _, accepted⟩ := accepted (by rw [commit]; rfl)
        exact absurd accepted (unaccepted _ _)
      | committed accepted => exact absurd accepted (unaccepted _ _)
    obtain ⟨rfl, rfl⟩ := same
    have ops := exec_ops exec
    exact ⟨rfl, rfl, List.self_eq_append_left.mp ops⟩

/-- The record write of an update of the factory image. -/
theorem generations_sound_update :
    ∃ (ls : List Label) (k : Word → Code Outcome) (c : Core) (w : World),
    (machine .ch570).Run (.off (Bench.factory .ch570 Bench.image)) ls
      (.busy (.frame (Bench.commit Bench.image)) (.call (.flashWrite (Device.slotRecordAddr .ch570
        c.writeSlot) (BootRecord.sealed 2 4 (crc32 Bench.image)).bytes) k) c w) ∧
      ∀ r, recordOn .ch570 w.flash (otherSlot c.writeSlot) = some r → r.generation < 2 := by
  have passes : (Bench.bench .ch570 Bench.unchecked (Bench.factory .ch570 Bench.image) bootreqMagic
      (Bench.stream 0x1F000)).any (fun s =>
      ((serve .ch570 (Bench.commit Bench.image)).pause (simulate .ch570) 1 s.1 s.2).any fun q =>
        decide (q.1 = .flashWrite (Device.slotRecordAddr .ch570 q.2.2.1.writeSlot)
          (BootRecord.sealed 2 4 (crc32 Bench.image)).bytes)) = true := by decide +kernel
  obtain ⟨ls, op, k, c, w, run, writes⟩ := Bench.bench_pause (fun op c _ =>
    decide (op = .flashWrite (Device.slotRecordAddr .ch570 c.writeSlot)
      (BootRecord.sealed 2 4 (crc32 Bench.image)).bytes)) passes
  obtain rfl := of_decide_eq_true writes
  obtain ⟨g, len, crc, record, _, _, newer⟩ :=
    (generations_sound .ch570 run).1 _ c w _ _ k rfl rfl
  have generation : g = 2 := by
    have back := congrArg (fun b => (BootRecord.ofBytes b).generation) record
    simp only [BootRecord.ofBytes_bytes BootRecord.sealed_rsvd_length] at back
    exact back.symm
  subst generation
  exact ⟨ls, k, c, w, run, newer⟩

end OpenBoot
