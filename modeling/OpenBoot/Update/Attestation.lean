import OpenBoot.Update.Bench

/-! A valid record vouches for its image, always: what a command can make of the
write slot's record, and what follows over whole runs. -/

set_option autoImplicit false

namespace OpenBoot

open Semantics Program

variable {D : Device} {buf : List Byte} {c c₀ : Core} {w w' w₀ : World} {op : PortOp} {x : Word}
  {f g : Flash} {ls : List Label} {cfg : Config}

theorem recordOn_of_recordErased {slot : Word} (erased : recordErased D f slot) :
    recordOn D f slot = none :=
  recordOn_erased (erased.mono (Nat.le_refl _) (Nat.add_le_add_left D.record_fits _))

/-- Erasing a record's block leaves no record, or everything as it was. -/
theorem PortStep.disarms {slot : Word}
    (step : PortStep D w (.flashErase (D.slotRecordAddr slot) D.eraseBlock) x w') :
    recordOn D w'.flash slot = none ∨ w'.flash = w.flash := by
  rcases step.erase_inv with erased | kept
  · have blank : recordErased D w'.flash slot := by
      rw [erased]
      exact Nor.erase_erased
    exact .inl (recordOn_of_recordErased blank)
  · exact .inr kept

/-- After any command the write slot has no valid record, or the flash is as it
    was, or the complete record of the COMMIT being served stands there. -/
theorem Command.record (h : Sound D (commitOf buf).isSome c w)
    (cmd : Command D buf c₀ w₀ c w op) (step : PortStep D w op x w') :
    recordOn D w'.flash c.writeSlot = none ∨ w'.flash = w.flash ∨
      ∃ len crc, Sealing D buf c₀ w₀ c w'.flash len crc ∧
        recordOn D w'.flash c.writeSlot = some (nextRecord c len crc) := by
  have image : commitOf buf = none → c.s.disarmed = true →
      recordOn D w'.flash c.writeSlot = none := fun commit on => by
    have request : (commitOf buf).isSome = false := by rw [commit]; rfl
    exact recordOn_of_recordErased (cmd.keeps_erased step request on ((h.armed on).2 request))
  cases cmd with
  | disarm => exact step.disarms.imp_right .inl
  -- image commands come after the record's block was erased, and leave it so
  | eraseImage on commit => exact .inl (image commit on)
  | writeImage on commit => exact .inl (image commit on)
  | verifyImage =>
    rw [step.verify_inv]
    exact .inr (.inl rfl)
  | @writeRecord len crc _ erased _ sealing =>
    -- whatever prefix landed: it is no record, or it is the complete one
    cases found : recordOn D w'.flash c.writeSlot with
    | none => exact .inl rfl
    | some r =>
      obtain ⟨isSlot, _, rfl, accepted⟩ := recordOn_some found
      obtain ⟨k, written⟩ := step.write_inv
      have small : Nor.Erased erasedByte w.flash (D.recordAt c.writeSlot) bootRecordSize :=
        erased.mono (Nat.le_refl _) (Nat.add_le_add_left D.record_fits _)
      rw [written] at accepted ⊢
      have complete := accepted_torn (D.four_dvd_recordAt isSlot) small accepted
      refine .inr (.inr ⟨len, crc, ?_, congrArg some complete⟩)
      rw [← written]
      exact sealing.outside step fun a mem => mem.1
  | verifyRecord =>
    rw [step.verify_inv]
    exact .inr (.inl rfl)

theorem Command.unrecorded (h : Sound D (commitOf buf).isSome c w)
    (cmd : Command D buf c₀ w₀ c w op) (step : PortStep D w op x w')
    (none : recordOn D w.flash c.writeSlot = none)
    (image : ∀ data, op ≠ .flashWrite (D.slotRecordAddr c.writeSlot) data) :
    recordOn D w'.flash c.writeSlot = .none := by
  rcases cmd.record h step with blank | same | ⟨len, crc, sealing, found⟩
  · exact blank
  · rw [same]
    exact none
  have request := sealing.request
  cases cmd with
  | disarm =>
    rcases step.disarms with blank | kept
    · exact blank
    · rw [kept]
      exact none
  | eraseImage _ commit =>
    rw [commit] at request
    cases request
  | writeImage _ commit =>
    rw [commit] at request
    cases request
  | writeRecord => exact absurd rfl (image _)
  | _ =>
    rw [step.verify_inv]
    exact none

/-- Every record that passes the boot decision's check stands over an image with
    the CRC it names. -/
def Attested (D : Device) (f : Flash) : Prop :=
  ∀ slot r, recordOn D f slot = some r →
    crc32 (f.bytes (D.base slot) r.imgLen.toNat) = r.imgCrc32

theorem bytes_congr_slot {slot len : Word} (same : (D.span slot).EqOn f g) (isSlot : IsSlot slot)
    (geometry : Geometry D slot len) :
    f.bytes (D.base slot) len.toNat = g.bytes (D.base slot) len.toNat := by
  refine Flash.bytes_congr (Set.EqOn.mono (Set.Ico_subset_Ico_right ?_) same)
  have room := geometry.toNat_le isSlot geometry.fits
  have top := D.recordAt_add isSlot
  omega

theorem Attested.command (attested : Attested D w.flash) (h : Sound D (commitOf buf).isSome c w)
    (cmd : Command D buf c₀ w₀ c w op) (step : PortStep D w op x w') : Attested D w'.flash := by
  intro slot r found
  obtain ⟨isSlot, _, _, accepted⟩ := recordOn_some found
  rcases h.slot.eq_or_other isSlot with rfl | rfl
  -- the slot being written
  · rcases cmd.record h step with none | same | ⟨len, crc, sealing, sealed⟩
    · rw [none] at found
      cases found
    · rw [same] at found ⊢
      exact attested _ r found
    · obtain rfl := Option.some.inj (sealed.symm.trans found)
      exact sealing.attests h.slot
  · have same := cmd.other_slot h.slot step
    rw [recordOn_congr same] at found
    rw [bytes_congr_slot same isSlot accepted.geometry]
    exact attested _ r found

/-- A look changes nothing. -/
theorem Permit.cases (permit : Permit D buf c₀ w₀ c w op) (step : PortStep D w op x w') :
    w' = w ∨ (c.writeSlot = c₀.writeSlot ∧ D.Fits c.writeSlot ∧ Command D buf c₀ w₀ c w op) := by
  cases permit with
  | look reads => exact .inl (reads.silent step)
  | command slot fits cmd => exact .inr ⟨slot, fits, cmd⟩

theorem Attested.step {s t : Stage} {l : Label} (attested : Attested D s.flash) (sound : s.Sound D)
    (step : Stage.Step D s l t) : Attested D t.flash := by
  cases step with
  | port permit port =>
    rcases permit.cases port with same | ⟨_, _, cmd⟩
    · rw [same]
      exact attested
    · exact attested.command sound.2 cmd port
  | @answer _ _ act => cases act <;> exact attested
  | _ => exact attested

theorem updater_attested {s : Stage} (start : Attested D f)
    (run : (updater D).Run (.off f) ls s) : s.Sound D ∧ Attested D s.flash := by
  induction run with
  | nil => exact ⟨trivial, start⟩
  | snoc _ step ih => exact ⟨ih.1.step step, ih.2.step ih.1 step⟩

/-- No valid record ever stands over an image it does not attest: over every run
    of the machine, with any faults and power cycles, between any two port calls. -/
theorem records_attested (D : Device) {f : Flash} {ls : List Label} {cfg : Config}
    (start : Attested D f) (run : (machine D).Run (.off f) ls cfg) : Attested D cfg.flash := by
  obtain ⟨s, abstract, related⟩ := reach run
  rw [related.flash]
  exact (updater_attested start abstract).2

theorem factory_attested : Attested .ch570 (Bench.factory .ch570 Bench.image) := by
  intro slot r found
  rcases (recordOn_some found).1 with rfl | rfl
  · have record : recordOn .ch570 (Bench.factory .ch570 Bench.image) slotA =
        some (.sealed 1 4 (crc32 Bench.image)) := by decide +kernel
    obtain rfl := Option.some.inj (record.symm.trans found)
    decide +kernel
  · have none : recordOn .ch570 (Bench.factory .ch570 Bench.image) slotB = none := by
      decide +kernel
    rw [none] at found
    cases found

/-- A factory image updated once. -/
theorem records_attested_update : ∃ ls c w,
    (machine .ch570).Run (.off (Bench.factory .ch570 Bench.image)) ls (.idle c w) ∧
      c.activeSlot = slotB ∧ Attested .ch570 w.flash := by
  have passes : (Bench.bench .ch570 Bench.unchecked (Bench.factory .ch570 Bench.image) bootreqMagic
      (Bench.stream 0x1F000 ++ [Bench.commit Bench.image])).any
      (fun s => decide (s.1.activeSlot = slotB)) = true := by decide +kernel
  obtain ⟨ls, c, w, run, active⟩ := Bench.bench_reach passes
  have attested := records_attested .ch570 factory_attested run
  exact ⟨ls, c, w, run, of_decide_eq_true active, attested⟩

def Config.state : Config → Option (Core × World)
  | .off _ => none
  | .busy _ _ c w => some (c, w)
  | .idle c w => some (c, w)

def StreamExact (D : Device) (c : Core) (f : Flash) : Prop :=
  crc32 (f.bytes (D.base c.writeSlot) (c.s.expectedNext.toNat - D.base c.writeSlot)) =
    crc32Final c.s.crcState

instance (D : Device) (c : Core) (f : Flash) : Decidable (StreamExact D c f) :=
  inferInstanceAs (Decidable (_ = _))

theorem RunExact.stream (h : RunExact D c f) : StreamExact D c f := congrArg crc32Final h.crc

theorem stream_exact (run : (machine D).Run (.off f) ls cfg) (state : cfg.state = some (c, w))
    (session : c.s.session = true) (stream : c.s.stream = .run) : StreamExact D c w.flash := by
  obtain ⟨s, abstract, related⟩ := reach run
  have sound := updater_sound abstract
  cases related with
  | off => cases state
  | booting closed =>
    obtain ⟨rfl, rfl⟩ := Prod.mk.inj (Option.some.inj state)
    rw [closed] at session
    cases session
  | idle =>
    obtain ⟨rfl, rfl⟩ := Prod.mk.inj (Option.some.inj state)
    exact (sound.1.run session stream).stream
  | serving =>
    obtain ⟨rfl, rfl⟩ := Prod.mk.inj (Option.some.inj state)
    exact (sound.2.run session stream).stream

theorem permitted {p : Code Outcome} {t : Task} {k : Word → Code Outcome}
    (run : (machine D).Run (.off f) ls (.busy t p c w)) (next : p = .call op k) :
    Reads D.flashAppStart.toNat D.appEnd.toNat op ∨
      ∃ buf c₀ w₀, t = .frame buf ∧ Sound D (commitOf buf).isSome c w ∧
        c.writeSlot = c₀.writeSlot ∧ D.Fits c.writeSlot ∧ Command D buf c₀ w₀ c w op := by
  obtain ⟨s, abstract, related⟩ := reach run
  have sound := updater_sound abstract
  subst next
  cases related with
  | booting _ wp => exact .inl wp.1
  | @serving buf _ c₀ _ w₀ _ _ wp =>
    obtain ⟨permit, _⟩ := wp
    cases permit with
    | look reads => exact .inl reads
    | command slot fits cmd => exact .inr ⟨buf, c₀, w₀, rfl, sound.2, slot, fits, cmd⟩

theorem slot_of_record {slot slot' : Word} (isSlot : IsSlot slot) (known : IsSlot slot')
    (inside : D.recordAt slot' ∈ D.span slot) : slot' = slot := by
  rcases isSlot.eq_or_other known with rfl | rfl
  · rfl
  · have low := D.base_lt_recordAt known
    have top := D.recordAt_add known
    have outside := Set.disjoint_left.mp (D.span_disjoint isSlot) inside
    exact absurd ⟨low.le, by omega⟩ outside

theorem Command.sealing_of_write {a slot : Word} {data : List Byte} (isSlot : IsSlot c.writeSlot)
    (cmd : Command D buf c₀ w₀ c w (.flashWrite a data)) (known : IsSlot slot)
    (record : a = D.slotRecordAddr slot) : slot = c.writeSlot ∧
      ∃ len crc, data = (nextRecord c len crc).bytes ∧ Sealing D buf c₀ w₀ c w.flash len crc := by
  have at_record : a.toNat = D.recordAt slot := congrArg BitVec.toNat record
  have low := D.base_lt_recordAt isSlot
  have top := D.recordAt_add isSlot
  have same : D.recordAt slot ∈ D.span c.writeSlot → slot = c.writeSlot :=
    slot_of_record isSlot known
  cases cmd with
  | writeImage _ _ chunk =>
    -- an image chunk ends below the record of its slot
    have first := chunk.low
    have last := chunk.high
    have nonempty := chunk.nonempty
    obtain rfl := same ⟨by omega, by omega⟩
    omega
  | @writeRecord len crc _ _ _ sealing =>
    change D.recordAt c.writeSlot = _ at at_record
    exact ⟨same ⟨by omega, by omega⟩, len, crc, rfl, sealing⟩

/-- What goes to the record's address is the complete record of a COMMIT. -/
theorem record_write {t : Task} {k : Word → Code Outcome} {a : Word} {data : List Byte}
    (run : (machine D).Run (.off f) ls (.busy t (.call (.flashWrite a data) k) c w))
    (record : a = D.slotRecordAddr c.writeSlot) :
    ∃ buf c₀ w₀ len crc, t = .frame buf ∧ data = (nextRecord c len crc).bytes ∧
      Sound D (commitOf buf).isSome c w ∧ Sealing D buf c₀ w₀ c w.flash len crc := by
  rcases permitted run rfl with reads | ⟨buf, c₀, w₀, rfl, sound, _, _, cmd⟩
  · exact reads.elim
  · obtain ⟨-, len, crc, same, sealing⟩ := cmd.sealing_of_write sound.slot sound.slot record
    exact ⟨buf, c₀, w₀, len, crc, rfl, same, sound, sealing⟩

/-- Stream attestation is sound: with a session open, an intact run has the CRC
    of the true flash up to its cursor, and a record is only ever written for a
    COMMIT whose CRC is that of the true image. -/
theorem stream_attestation_sound (D : Device) {f : Flash} {ls : List Label} {cfg : Config}
    (run : (machine D).Run (.off f) ls cfg) :
    (∀ c w, cfg.state = some (c, w) → c.s.session = true → c.s.stream = .run →
      StreamExact D c w.flash) ∧
    (∀ t c w a data k, cfg = .busy t (.call (.flashWrite a data) k) c w →
      a = D.slotRecordAddr c.writeSlot →
      ∃ buf len crc, t = .frame buf ∧ commitOf buf = some (len, crc) ∧
        crc32 (w.flash.bytes (D.base c.writeSlot) len.toNat) = crc ∧
        data = (nextRecord c len crc).bytes) := by
  refine ⟨fun c w => stream_exact run, ?_⟩
  rintro t c w a data k rfl record
  obtain ⟨buf, _, _, len, crc, rfl, rfl, sound, sealing⟩ := record_write run record
  exact ⟨buf, len, crc, rfl, sealing.request, sealing.attests sound.slot, rfl⟩

/-- An image streamed to a blank part, not yet committed. -/
theorem stream_attestation_sound_midway : ∃ ls c w,
    (machine .ch570).Run (.off Bench.blank) ls (.idle c w) ∧ c.s.expectedNext = 0x2004 ∧
      StreamExact .ch570 c w.flash := by
  have passes : (Bench.bench .ch570 Bench.unchecked Bench.blank 0 (Bench.stream 0x2000)).any
      (fun s => decide (s.1.s.session = true ∧ s.1.s.stream = .run ∧ s.1.s.expectedNext = 0x2004)) =
      true := by decide +kernel
  obtain ⟨ls, c, w, run, state⟩ := Bench.bench_reach passes
  obtain ⟨session, stream, cursor⟩ := of_decide_eq_true state
  have exact := (stream_attestation_sound .ch570 run).1 c w rfl session stream
  exact ⟨ls, c, w, run, cursor, exact⟩

/-- Before the first HELLO the stream is in its zero state, which says `run` of
    nothing that was streamed. -/
theorem stream_inexact_before_hello : ∃ ls c w,
    (machine .ch570).Run (.off Bench.blank) ls (.idle c w) ∧ c.s.session = false ∧
      c.s.stream = .run ∧ ¬ StreamExact .ch570 c w.flash := by
  have passes : (Bench.bench .ch570 Bench.unchecked Bench.blank 0 []).any
      (fun s => decide (s.1.s.session = false ∧ s.1.s.stream = .run ∧
        ¬ StreamExact .ch570 s.1 s.2.flash)) = true := by decide +kernel
  obtain ⟨ls, c, w, run, state⟩ := Bench.bench_reach passes
  exact ⟨ls, c, w, run, of_decide_eq_true state⟩

end OpenBoot
