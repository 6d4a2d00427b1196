import OpenBoot.Factory.Blessing

/-! The first update of a blessed factory part: until a record is written, over any power
cycles, the part is as the factory shipped it. -/

set_option autoImplicit false

namespace OpenBoot

open Semantics Program

variable {D : Device} {buf : List Byte} {c c' c₀ : Core} {w w' w₀ : World} {f : Flash}
  {op : PortOp} {x : Word} {ls : List Label} {l : Label}

def RecordWrite (D : Device) : Label → Prop
  | .port (.flashWrite addr _) _ => ∃ slot, IsSlot slot ∧ addr = D.slotRecordAddr slot
  | _ => False

theorem Stage.Met.unwritten {s t : Stage} (h : s.Met fun _ _ buf => commitOf buf = none)
    (sound : s.Sound D) (step : Stage.Step D s l t) : ¬ RecordWrite D l := by
  intro write
  cases step with
  | @look f op x reads =>
    cases op with
    | flashWrite => exact reads
    | _ => exact write
  | @port buf c₀ c w₀ w w' op x permit port =>
    cases op with
    | flashWrite addr data =>
      obtain ⟨slot, known, record⟩ := write
      cases permit with
      | look reads => exact reads
      | command _ _ cmd =>
        obtain ⟨-, _, _, -, sealing⟩ := cmd.sealing_of_write sound.2.slot known record
        have request := sealing.request
        rw [show commitOf buf = none from h] at request
        cases request
    | _ => exact write
  | _ => exact write

theorem unwritten_of_unasked {cfg : Config} (run : (machine D).Run (.off f) ls cfg)
    (unasked : ∀ buf, .recv buf ∈ ls → commitOf buf = none) : ∀ l ∈ ls, ¬ RecordWrite D l := by
  obtain ⟨s, abstract, -⟩ := reach run
  clear run
  suffices kept : s.Sound D ∧ s.Met (fun _ _ buf => commitOf buf = none) ∧
      ∀ l ∈ ls, ¬ RecordWrite D l from kept.2.2
  induction abstract with
  | nil => exact ⟨trivial, trivial, nofun⟩
  | @snoc s t ls l _ step ih =>
    obtain ⟨sound, met, unwritten⟩ := ih fun buf mem => unasked buf (List.mem_append_left _ mem)
    have last : s.OnRecv (fun _ _ buf => commitOf buf = none) l := by
      cases step with
      | recv buf => exact unasked buf (List.mem_append_right _ (List.mem_singleton_self _))
      | reset => cases s <;> trivial
      | _ => trivial
    refine ⟨sound.step step, met.step step last, fun l' mem => ?_⟩
    rcases List.mem_append.mp mem with old | new
    · exact unwritten l' old
    · obtain rfl := List.mem_singleton.mp new
      exact met.unwritten sound step

namespace Factory

variable {openboot app out : List Byte}

theorem Blessed.congr {g : Flash} (blessed : Blessed D app f) (same : (D.span slotA).EqOn g f)
    (blank : recordOn D g slotB = none) : Blessed D app g where
  geometry := blessed.geometry
  whole := blessed.whole
  long := blessed.long
  image := by
    have kept := bytes_congr_slot same (.inl rfl) blessed.geometry
    rw [blessed.whole] at kept
    rw [kept, blessed.image]
  record := by
    rw [← blessed.record]
    apply Flash.bytes_congr
    have low := D.base_lt_recordAt (.inl rfl : IsSlot slotA)
    have top := D.recordAt_add (.inl rfl : IsSlot slotA)
    have size : bootRecordSize = 32 := rfl
    exact Set.EqOn.mono (Set.Ico_subset_Ico (by omega) (by omega)) same
  blank := blank

/-- The core has found the factory's slot A, and committed nothing. -/
structure Pristine (c : Core) : Prop where
  target : c.writeSlot = slotB
  generation : c.highestGen = 1
  stale : c.recState ≠ .fresh

theorem Pristine.ram (h : Pristine c) (blank : recordOn D w.flash slotB = none)
    (step : RamStep D buf c₀ w₀ w c c') : Pristine c' := by
  cases step with
  | distrusted => exact ⟨h.target, h.generation, nofun⟩
  | committed _ _ record =>
    rw [h.target, blank] at record
    cases record
  | _ => exact ⟨h.target, h.generation, h.stale⟩

theorem Blessed.pristine {bootreq : Word} (blessed : Blessed D app f)
    (nonblank : get32 (padded app) ≠ erasedWord) : Pristine (.started D f bootreq) := by
  have active := blessed.selected nonblank
  have highest := blessed.highest
  refine ⟨?_, highest, nofun⟩
  simp only [Core.started, active]
  rfl

theorem Blessed.command (blessed : Blessed D app w.flash) (pristine : Pristine c)
    (sound : Sound D (commitOf buf).isSome c w) (cmd : Command D buf c₀ w₀ c w op)
    (step : PortStep D w op x w') (unwritten : ¬ RecordWrite D (.port op x)) :
    Blessed D app w'.flash := by
  have target := pristine.target
  have same := cmd.other_slot sound.slot step
  have blank := cmd.unrecorded sound step (by rw [target, blessed.blank]) fun data write => by
    subst write
    exact unwritten ⟨_, sound.slot, rfl⟩
  rw [target] at same blank
  exact blessed.congr same blank

def Shipped (D : Device) (app : List Byte) : Stage → Prop
  | .off f => Blessed D app f
  | .booting f => Blessed D app f
  | .idle c w => Pristine c ∧ Blessed D app w.flash
  | .serving _ _ _ c w => Pristine c ∧ Blessed D app w.flash

theorem Shipped.flash {s : Stage} (h : Shipped D app s) : Blessed D app s.flash := by
  cases s with
  | off => exact h
  | booting => exact h
  | idle => exact h.2
  | serving => exact h.2

theorem Shipped.step {s t : Stage} (h : Shipped D app s)
    (nonblank : get32 (padded app) ≠ erasedWord) (sound : s.Sound D) (step : Stage.Step D s l t)
    (unwritten : ¬ RecordWrite D l) : Shipped D app t := by
  cases step with
  | reset => exact h.flash
  | look => exact h
  | think => exact h
  | launch => exact h
  | ready => exact ⟨Blessed.pristine h nonblank, h⟩
  | recv => exact h
  | ram ram => exact ⟨h.1.ram h.2.blank ram, h.2⟩
  | port permit port =>
    rcases permit.cases port with rfl | ⟨-, -, cmd⟩
    · exact h
    · exact ⟨h.1, h.2.command h.1 sound.2 cmd port unwritten⟩
  | @answer _ _ act =>
    cases act with
    | none => exact h
    | reset => exact h.2

theorem updater_shipped {s : Stage} (blessed : Blessed D app f)
    (nonblank : get32 (padded app) ≠ erasedWord) (run : (updater D).Run (.off f) ls s)
    (unwritten : ∀ l ∈ ls, ¬ RecordWrite D l) : s.Sound D ∧ Shipped D app s := by
  induction run with
  | nil => exact ⟨trivial, blessed⟩
  | snoc _ step ih =>
    obtain ⟨sound, shipped⟩ := ih fun l mem => unwritten l (List.mem_append_left _ mem)
    have quiet := unwritten _ (List.mem_append_right _ (List.mem_singleton_self _))
    exact ⟨sound.step step, shipped.step nonblank sound step quiet⟩

/-- What a record write of the bootloader writes is what the composer wrote. -/
theorem Blessed.stored {es : List (Event port)} {r : Word} (blessed : Blessed D app f)
    (run : (recordStore D slotA 1 (BitVec.ofNat 32 (padded app).length) (crc32 (padded app))).Exec
      (portEnv D) c w es r c' w') :
    (∀ a data y, ⟨.flashWrite a data, y⟩ ∈ es →
      a = D.slotRecordAddr slotA ∧ data = f.bytes (D.recordAt slotA) bootRecordSize) ∧
    (r = 0 → w'.flash.bytes (D.recordAt slotA) bootRecordSize =
      f.bytes (D.recordAt slotA) bootRecordSize) := by
  obtain ⟨-, stores⟩ := recordStore_exec run
  have record := blessed.record
  have size : (factoryRecord app).bytes.length = bootRecordSize := BootRecord.sealed_bytes_length
  change Stores _ _ _ (factoryRecord app) _ _ _ _ at stores
  rw [record]
  have fail : (1 : Word) ≠ 0 := by decide
  cases stores with
  | outside => exact ⟨nofun, fun zero => absurd zero fail⟩
  | unerased => exact ⟨by simp, fun zero => absurd zero fail⟩
  | unwritten => exact ⟨by simp +contextual, fun zero => absurd zero fail⟩
  | verified _ _ verified =>
    refine ⟨by simp +contextual, ?_⟩
    rintro rfl
    cases verified with
    | verified same =>
      rw [size] at same
      exact same
    | verifyFailed bad => exact absurd rfl bad

theorem Pristine.writes {a slot : Word} {data : List Byte} (h : Pristine c)
    (cmd : Command D buf c₀ w₀ c w (.flashWrite a data)) (known : IsSlot slot)
    (record : a = D.slotRecordAddr slot) : ∃ len crc, commitOf buf = some (len, crc) ∧
      a = D.slotRecordAddr slotB ∧ data = (BootRecord.sealed 2 len crc).bytes := by
  have isSlot : IsSlot c.writeSlot := .inr h.target
  obtain ⟨rfl, len, crc, rfl, sealing⟩ := cmd.sealing_of_write isSlot known record
  refine ⟨len, crc, sealing.request, by rw [record, h.target], ?_⟩
  rw [nextRecord, h.generation]
  rfl

/-- The first COMMIT answered OK leaves its record in slot B, under generation 2. -/
theorem Pristine.commits {len crc : Word} {es : List (Event port)} {resp : List Byte}
    {act : Action} (h : Pristine c) (sound : Sound D false c w)
    (commit : commitOf buf = some (len, crc))
    (run : (handleFrame D buf).Exec (portEnv D) c w es (resp, act) c' w')
    (answered : AnsweredOk resp) :
    recordOn D w'.flash slotB = some (.sealed 2 len crc) ∧ c'.activeSlot = slotB := by
  have ending := wp_exec (handleFrame_wp sound) run
  -- nothing was committed that it could replay
  obtain ⟨-, ⟨rfl, -, fresh⟩ | ⟨flipped, -⟩, -⟩ := ending.commit_cases commit answered
  · exact absurd fresh h.stale
  rcases pairKept_frame sound run with ⟨-, same⟩ | ⟨len', crc', request, active, -, record⟩
  · rw [same] at flipped
    exact absurd flipped.symm (otherSlot_ne _)
  obtain ⟨rfl, rfl⟩ := Prod.mk.inj (Option.some.inj (commit.symm.trans request))
  rw [nextRecord, h.generation, h.target] at record
  exact ⟨record, active.trans h.target⟩

/-- A blessed factory image boots. Written to a blank part, slot A is selected under generation 1
    unless the application begins as blank flash; the record is the one the bootloader would have
    stored; and then the first record the bootloader does store goes to slot B, under generation 2,
    over any frames, faults and power cycles before it. -/
theorem factory_image_boots {appMax : Option Int} (suits : Suits D)
    (ok : composeFactory openboot app appMax (some ((D.slotCapacity slotA).toNat : Int)) =
      .ok out) :
    (get32 (padded app) ≠ erasedWord → ∀ c es found c' w',
      (bootSelect D).Exec (portEnv D) c (.reset (written out)) es found c' w' →
      found = (slotA, 1)) ∧
    (∀ c w es r c' w',
      (recordStore D slotA 1 (BitVec.ofNat 32 (padded app).length) (crc32 (padded app))).Exec
        (portEnv D) c w es r c' w' →
      (∀ a data y, ⟨.flashWrite a data, y⟩ ∈ es → a = D.slotRecordAddr slotA ∧
        data = (written out).bytes (D.recordAt slotA) bootRecordSize) ∧
      (r = 0 → w'.flash.bytes (D.recordAt slotA) bootRecordSize =
        (written out).bytes (D.recordAt slotA) bootRecordSize)) ∧
    (get32 (padded app) ≠ erasedWord → ∀ ls cfg,
      (machine D).Run (.off (written out)) ls cfg → (∀ l ∈ ls, ¬ RecordWrite D l) →
      (∀ t a data k c w slot, cfg = .busy t (.call (.flashWrite a data) k) c w → IsSlot slot →
        a = D.slotRecordAddr slot → ∃ buf len crc, t = .frame buf ∧
          commitOf buf = some (len, crc) ∧ a = D.slotRecordAddr slotB ∧
          data = (BootRecord.sealed 2 len crc).bytes) ∧
      (∀ c w buf len crc es resp act c' w', cfg = .idle c w → commitOf buf = some (len, crc) →
        (handleFrame D buf).Exec (portEnv D) c w es (resp, act) c' w' → AnsweredOk resp →
        recordOn D w'.flash slotB = some (.sealed 2 len crc) ∧ c'.activeSlot = slotB)) := by
  have blessed := blessed_of_ok suits ok
  refine ⟨fun nonblank c es found c' w' run => ?_, fun c w es r c' w' => blessed.stored,
    fun nonblank ls cfg run unwritten => ?_⟩
  · have selected := blessed.selected nonblank
    have highest := blessed.highest
    rw [bootSelect_exec run]
    exact Prod.ext selected highest
  -- the machine is followed by the updater, which never touches what was shipped
  obtain ⟨s, abstract, related⟩ := reach run
  obtain ⟨sound, shipped⟩ := updater_shipped blessed nonblank abstract unwritten
  constructor
  · rintro t a data k c w slot rfl known record
    cases related with
    | booting _ wp => exact wp.1.elim
    | @serving buf _ c₀ _ w₀ _ _ wp =>
      cases wp.1 with
      | look reads => exact reads.elim
      | command _ _ cmd =>
        obtain ⟨len, crc, written⟩ := shipped.1.writes cmd known record
        exact ⟨buf, len, crc, rfl, written⟩
  · rintro c w buf len crc es resp act c' w' rfl commit exec answered
    cases related
    exact shipped.1.commits sound.1 commit exec answered

/-- A one-word application over a one-byte bootloader. -/
theorem factory_image_boots_ch570 : ∃ out es c' w',
    composeFactory [1] Bench.image none (some ((Device.ch570.slotCapacity slotA).toNat : Int)) =
      .ok out ∧
    (bootSelect .ch570).Exec (portEnv .ch570) (.bss .ch570 0) (.reset (written out)) es (slotA, 1)
      c' w' := by
  have suits : Suits .ch570 := ⟨rfl, by decide⟩
  obtain ⟨out, ok⟩ : ∃ out, composeFactory [1] Bench.image none
      (some ((Device.ch570.slotCapacity slotA).toNat : Int)) = .ok out :=
    ⟨_, composeFactory_ok (Device.ch570.slotCapacity slotA).isLt (by decide) (by decide)
      (by decide) (by decide)⟩
  have exec := Bench.carry_exec .ch570 (bootSelect .ch570) (.bss .ch570 0) (.reset (written out))
  have found := (factory_image_boots suits ok).1 (by decide) _ _ _ _ _ exec
  rw [found] at exec
  exact ⟨out, _, _, _, ok, exec⟩

/-- What is shipped with a one-word application that reads as blank flash, by ranges. -/
def blankShipped : Flash := fun a =>
  if a = 0 then ⟨1, 1⟩
  else if a < 0x2000 then ⟨0, 0⟩
  else if a < 0x2004 then programBytes Bench.blank 0x2000 Bench.blankImage a
  else if a < 0x1E000 then ⟨0, 0⟩
  else programBytes Bench.blank 0x1E000 (factoryRecord Bench.blankImage).bytes a

theorem blankShipped_written : ∃ out,
    composeFactory [1] Bench.blankImage none
      (some ((Device.ch570.slotCapacity slotA).toNat : Int)) = .ok out ∧
    written out = blankShipped := by
  refine ⟨_, composeFactory_ok (Device.ch570.slotCapacity slotA).isLt (by decide) (by decide)
    (by decide) (by decide), ?_⟩
  have capacity : (Device.ch570.slotCapacity slotA).toNat = 0x1C000 := by decide
  have head : openbootRegionBytes - [(1 : Byte)].length = 0x1FFF := rfl
  have unpadded : padded Bench.blankImage = Bench.blankImage := by decide
  have size : Bench.blankImage.length = 4 := rfl
  funext a
  have image : 0x2000 ≤ a → programBytes Bench.blank 0x2000 Bench.blankImage a = _ :=
    Nor.program_blank
  have record : 0x1E000 ≤ a →
      programBytes Bench.blank 0x1E000 (factoryRecord Bench.blankImage).bytes a = _ :=
    Nor.program_blank
  rw [written_cell, capacity, head]
  unfold blankShipped
  simp only [List.append_assoc, List.getElem?_append, zeros, List.length_replicate,
    List.length_singleton, List.getElem?_replicate, factoryRecord, unpadded, size] at record ⊢
  -- region by region: loader, application, gap, record
  by_cases start : a = 0
  · simp [start]
  by_cases loader : a < 0x2000
  · have beyond : ¬ a < 1 := by omega
    have inside : a - 1 < 0x1FFF := by omega
    simp [start, loader, beyond, inside]
  simp only [Nat.sub_sub, Nat.reduceAdd, Nat.reduceSub]
  rw [if_neg (by omega), if_neg (by omega), if_neg start, if_neg loader]
  by_cases app : a < 0x2004
  · rw [if_pos (by omega), if_pos app, image (by omega)]
  rw [if_neg (by omega), if_neg app]
  by_cases rest : a < 0x1E000
  · rw [if_pos (by omega), if_pos rest, if_pos (by omega)]
    rfl
  · rw [if_neg (by omega), if_neg rest, record (by omega)]

/-- With an application that begins as blank flash the part stays in the bootloader, and the
    first COMMIT goes to slot A. -/
theorem blank_image_updates_slotA : ∃ out,
    composeFactory [1] Bench.blankImage none
      (some ((Device.ch570.slotCapacity slotA).toNat : Int)) = .ok out ∧
    ∃ ls c w, (machine .ch570).Run (.off (written out)) ls (.idle c w) ∧
      (∀ l ∈ ls, ¬ RecordWrite .ch570 l) ∧ ∃ es resp act c' w',
        (handleFrame .ch570 (Bench.commit Bench.blankImage)).Exec (portEnv .ch570) c w es
          (resp, act) c' w' ∧ AnsweredOk resp ∧
        recordOn .ch570 w'.flash slotA = some (.sealed 2 4 (crc32 Bench.blankImage)) ∧
        recordOn .ch570 w'.flash slotB = none := by
  obtain ⟨out, ok, shipped⟩ := blankShipped_written
  refine ⟨out, ok, ?_⟩
  rw [shipped]
  let frames := [Bench.hello, Bench.erase 0x2000 4096, Bench.write 0x2000 Bench.blankImage]
  let commits : Core × World → Bool := fun s =>
    let r := Bench.carry .ch570 (handleFrame .ch570 (Bench.commit Bench.blankImage)) s.1 s.2
    decide (AnsweredOk r.1.1 ∧
      recordOn .ch570 r.2.2.flash slotA = some (.sealed 2 4 (crc32 Bench.blankImage)) ∧
      recordOn .ch570 r.2.2.flash slotB = none)
  have passes : (Bench.bench .ch570 Bench.unchecked blankShipped 0 frames).any commits = true := by
    decide +kernel
  have unasked : ∀ buf ∈ frames, commitOf buf = none := by decide +kernel
  obtain ⟨ls, c, w, confined, run, state⟩ := Bench.bench_run (P := fun _ _ _ => True)
    (fun _ _ _ _ => trivial) passes
  obtain ⟨answered, recordA, recordB⟩ := of_decide_eq_true state
  have run := (run_of_powerUp run).of_restrict
  refine ⟨_, c, w, run, unwritten_of_unasked run fun buf mem => ?_, _, _, _, _, _,
    Bench.carry_exec .ch570 (handleFrame .ch570 (Bench.commit Bench.blankImage)) c w, answered,
    recordA, recordB⟩
  rcases List.mem_cons.mp mem with start | mem
  · cases start
  · exact unasked buf (confined.recv buf mem)

end Factory

end OpenBoot
