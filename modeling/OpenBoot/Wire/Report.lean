import OpenBoot.Core.Outcomes
import OpenBoot.Host.DeviceInfo
import OpenBoot.Update.Interruption
import OpenBoot.Update.Ledger
import OpenBoot.Wire.Codec

/-! What HELLO reports, the host accepts, and it is what the device enforces. -/

set_option autoImplicit false

namespace OpenBoot

open Semantics Program Host

variable {D : Device} {c c' : Core} {w w' : World} {es : List (Event port)} {resp pl : List Byte}
  {n : Nat} {seq : Byte} {buf : List Byte} {slot : Word}

def slotId (slot : Word) : Byte := if slot = slotNone then slotIdNone else slot.setWidth 8

def reported (D : Device) (c : Core) : DeviceInfo where
  protoMajor := protoMajor
  protoMinor := protoMinor
  chipRev := D.chipRev
  blVersion := le16 [blVersion.setWidth 8, (blVersion >>> 8).setWidth 8]
  chipFamily := D.chipFamily
  transport := D.transportId
  appStart := D.flashAppStart
  appEnd := D.appEnd
  eraseBlock := D.eraseBlock
  writePage := le16 [D.flashWritePage.setWidth 8, (D.flashWritePage >>> 8).setWidth 8]
  writeAlign := 4
  maxWriteData := BitVec.ofNat 8 maxWriteData
  features := D.features
  uid := le64 D.uid
  slotCount := slotCount.setWidth 8
  activeSlot := slotId c.activeSlot
  writeSlot := c.writeSlot.setWidth 8
  writeBase := D.slotBase c.writeSlot
  writeCapacity := D.slotCapacity c.writeSlot

theorem fields_helloPayload (D : Device) (c : Core) :
    DeviceInfo.fields (helloPayload D c) = reported D c := by
  have bytes : ∃ u₀ u₁ u₂ u₃ u₄ u₅ u₆ u₇, D.uid = [u₀, u₁, u₂, u₃, u₄, u₅, u₆, u₇] := by
    match D.uid, D.uid_length with
    | [u₀, u₁, u₂, u₃, u₄, u₅, u₆, u₇], _ => exact ⟨u₀, u₁, u₂, u₃, u₄, u₅, u₆, u₇, rfl⟩
  obtain ⟨u₀, u₁, u₂, u₃, u₄, u₅, u₆, u₇, uid⟩ := bytes
  have word : ∀ (v : Word) (rest : List Byte), get32 (v.setWidth 8 :: (v >>> 8).setWidth 8 ::
      (v >>> 16).setWidth 8 :: (v >>> 24).setWidth 8 :: rest) = v := get32_put32_append
  unfold DeviceInfo.fields reported helloPayload
  rw [uid]
  simp only [put32, List.cons_append, List.nil_append, List.drop_succ_cons, List.drop_zero, word,
    List.getD_cons_zero, List.getD_cons_succ]
  rfl

/-- Slot B is only written to when slot A has held an image, so the silicon reaches at
    least to the end of slot A. -/
theorem Frames.room {log : List Served} (frames : Frames D log c w) :
    c.writeSlot = slotB → D.Fits slotA := by
  -- slot B is written to only where slot A holds or held a record, so slot A exists
  induction frames with
  | start f bootreq =>
    intro upper
    unfold Core.started at upper
    by_cases none : selectOn D f = slotNone
    · simp only [none, if_true] at upper
      exact absurd upper (by decide)
    · simp only [none, if_false] at upper
      have booted : selectOn D f = slotA := by
        rw [← otherSlot_otherSlot (selectOn D f), upper]
        decide
      obtain ⟨r, found, -⟩ := selectOn_bootable none
      rw [booted] at found
      obtain ⟨_, fits, _⟩ := recordOn_some found
      exact fits
  | @serve _ c₀ _ w₀ _ buf _ _ frames run ih =>
    have ending := wp_exec (handleFrame_wp frames.sound) run
    intro upper
    cases ending with
    | changed _ _ same => exact ih (same ▸ upper)
    | failed _ _ _ _ _ _ same => exact ih (same ▸ upper)
    | committed accepted _ _ _ _ _ _ _ flipped =>
      have before : c₀.writeSlot = slotA := by
        rw [← otherSlot_otherSlot c₀.writeSlot, ← flipped, upper]
        decide
      exact before ▸ accepted.geometry.fits
    | _ => exact ih upper

theorem window_inside (isSlot : IsSlot c.writeSlot) (room : c.writeSlot = slotB → D.Fits slotA)
    (nonempty : D.flashAppStart < D.appEnd) :
    D.flashAppStart.toNat ≤ D.base c.writeSlot ∧
      D.base c.writeSlot + (D.slotCapacity c.writeSlot).toNat ≤ D.appEnd.toNat := by
  refine ⟨D.appStart_le_base isSlot, ?_⟩
  have nonempty := BitVec.lt_def.mp nonempty
  by_cases fits : D.Fits c.writeSlot
  · have top := D.recordAt_add isSlot
    have inside := (D.fits_iff isSlot).mp fits
    rw [D.capacity_eq isSlot fits]
    omega
  · have zero : D.slotCapacity c.writeSlot = 0 := Decidable.not_not.mp fits
    rw [zero]
    change D.base c.writeSlot ≤ _
    rcases isSlot with lower | upper
    · rw [lower, D.base_slotA, D.slotA_start]
      omega
    · have inside := (D.fits_iff (.inl rfl)).mp (room upper)
      rw [D.base_slotA] at inside
      rw [upper, D.base_slotB]
      exact inside

theorem slotId_eq (isSlot : IsSlot slot) : slotId slot = slot.setWidth 8 :=
  if_neg isSlot.ne_none

/-- The host accepts the report of every device that has an app region. -/
theorem parse_helloPayload (isSlot : IsSlot c.writeSlot)
    (active : c.activeSlot = slotNone ∨ c.activeSlot = otherSlot c.writeSlot)
    (room : c.writeSlot = slotB → D.Fits slotA) (nonempty : D.flashAppStart < D.appEnd) :
    DeviceInfo.parse (helloPayload D c) = .ok (reported D c) := by
  obtain ⟨low, high⟩ := window_inside isSlot room nonempty
  have long : ¬ (helloPayload D c).length < helloRespLen := by
    rw [helloPayload_length]
    decide
  have upright : ¬ D.flashAppStart ≥ D.appEnd := BitVec.not_le.mpr nonempty
  have block : D.eraseBlock ≠ 0 := by
    intro zero
    have pos := D.block_pos
    unfold Device.block at pos
    rw [zero] at pos
    exact absurd pos (by decide)
  have target : ¬ c.writeSlot.setWidth 8 ≥ slotCount.setWidth 8 := by
    rcases isSlot with lower | upper
    · rw [lower]
      decide
    · rw [upper]
      decide
  have running : ¬ (slotId c.activeSlot ≠ slotIdNone ∧
      slotId c.activeSlot ≥ slotCount.setWidth 8) := by
    rcases active with none | other
    · rw [none]
      exact fun bad => bad.1 rfl
    · rw [other, slotId_eq isSlot.other]
      rcases isSlot with lower | upper
      · rw [lower]
        decide
      · rw [upper]
        decide
  have window : ¬ (D.slotBase c.writeSlot < D.flashAppStart ∨
      (D.slotBase c.writeSlot).toNat + (D.slotCapacity c.writeSlot).toNat > D.appEnd.toNat) := by
    rintro (below | above)
    · exact absurd (BitVec.lt_def.mp below) (Nat.not_lt.mpr low)
    · exact absurd above (Nat.not_lt.mpr high)
  -- none of the ten checks of the parser refuses
  unfold DeviceInfo.parse
  rw [if_neg long, fields_helloPayload]
  have align : (4 : Byte) ≠ 0 := by decide
  have chunk : ¬ (BitVec.ofNat 8 maxWriteData = 0 ∨
      (BitVec.ofNat 8 maxWriteData).toNat % 4 ≠ 0) := by decide
  have size : ¬ (BitVec.ofNat 8 maxWriteData).toNat > maxWriteData := by decide
  have slots : slotCount.setWidth 8 ≠ (0 : Byte) := by decide
  exact (if_neg upright).trans <| (if_neg block).trans <| (if_neg align).trans <|
    (if_neg chunk).trans <| (if_neg size).trans <| (if_neg slots).trans <|
    (if_neg target).trans <| (if_neg running).trans <| if_neg window

/-- The range gate accepts exactly what lies in the window the host was told. -/
theorem writeRangeOk_iff (isSlot : IsSlot c.writeSlot) (addr len : Word) :
    writeRangeOk D c addr len = true ↔ (reported D c).Holds addr len := by
  constructor
  · intro accepted
    obtain ⟨fits, some, low, high⟩ := writeRangeOk_spec isSlot accepted
    have cap := D.capacity_eq isSlot fits
    refine ⟨some, low, ?_⟩
    change _ ≤ D.base c.writeSlot + (D.slotCapacity c.writeSlot).toNat
    rw [cap]
    exact high
  · rintro ⟨some, low, high⟩
    change D.base c.writeSlot ≤ _ at low
    change _ ≤ D.base c.writeSlot + (D.slotCapacity c.writeSlot).toNat at high
    have fits : D.Fits c.writeSlot := by
      intro zero
      rw [zero] at high
      change _ ≤ D.base c.writeSlot at high
      omega
    have cap := D.capacity_eq isSlot fits
    have limit := recordAt_bound (D := D) isSlot
    unfold Device.base at *
    simp only [writeRangeOk, decide_eq_true_eq]
    refine ⟨fits, BitVec.le_def.mpr low, ?_, ?_, ?_⟩
    · bv_omega
    · bv_omega
    · bv_omega

/-- The slot being written to, until a COMMIT is answered OK or the part is reset. -/
def Stage.Aims (target : Word) (h : History) : Stage → Prop
  | off _ => True
  | booting _ => False
  | idle c _ => c.writeSlot = target
  | serving buf c₀ _ _ _ => h.frame = buf ∧ c₀.writeSlot = target

theorem Stage.Aims.step {s t : Stage} {h : History} {target : Word} {l : Label}
    (aims : s.Aims target h) (none : (h.step l).acknowledged = []) (cycle : l ≠ .reset)
    (step : Stage.Step D s l t) : t.Aims target (h.step l) := by
  cases step with
  | reset => exact absurd rfl cycle
  | look => exact aims
  | think => exact aims
  | launch => trivial
  | ready => exact aims.elim
  | recv buf => exact ⟨rfl, aims⟩
  | ram => exact aims
  | port => exact aims
  | @answer _ _ act _ _ _ _ ending =>
    obtain ⟨rfl, same⟩ := aims
    cases act with
    | none =>
      exact (ending.writeSlot fun q commit => History.unanswered none commit).trans same
    | reset => trivial

/-- A state the machine reaches without a reset and without an answered COMMIT writes to
    the slot it began with. -/
theorem run_aims {ls : List Label} (sound : (Stage.idle c w).Sound D)
    (run : (machine D).Run (.idle c w) ls (.idle c' w')) (cycle : .reset ∉ ls)
    (none : (history ls).acknowledged = []) :
    Sound D false c' w' ∧ c'.writeSlot = c.writeSlot := by
  obtain ⟨s, abstract, related⟩ := (refinement D).run (.idle sound) run
  have invariant : ∀ {ls : List Label} {s : Stage}, (updater D).Run (.idle c w) ls s →
      .reset ∉ ls → (history ls).acknowledged = [] →
      s.Sound D ∧ s.Aims c.writeSlot (history ls) := by
    intro ls s run
    induction run with
    | nil => exact fun _ _ => ⟨sound, rfl⟩
    | snoc _ step ih =>
      intro cycle none
      rw [history_snoc] at none ⊢
      simp only [List.mem_append, List.mem_singleton, not_or] at cycle
      obtain ⟨before, aims⟩ := ih cycle.1 (History.acknowledged_of_step none)
      exact ⟨before.step step, aims.step none (Ne.symm cycle.2) step⟩
  obtain ⟨after, aims⟩ := invariant abstract cycle none
  cases related
  exact ⟨after.1, aims⟩

/-- HELLO at any point of any run, on a part that has an app region: the host accepts the
    report, its window is the one the range gate enforces, and until a COMMIT is answered
    OK the gate stays there and HELLO reports the same window again. -/
theorem hello_parsed {f : Flash} {ls : List Label} (nonempty : D.flashAppStart < D.appEnd)
    (run : (machine D).Run (.off f) ls (.idle c w))
    (hello : (doHello D pl n seq).Exec (portEnv D) c w es resp c' w') (answered : AnsweredOk resp) :
    ∃ payload info, resp = finish (cmdHello ||| cmdRespBit) seq payload ∧
      DeviceInfo.parse payload = .ok info ∧
      info.writeSlot = c'.writeSlot.setWidth 8 ∧ info.activeSlot = slotId c'.activeSlot ∧
      info.writeBase = D.slotBase c'.writeSlot ∧ info.writeCapacity = D.slotCapacity c'.writeSlot ∧
      (∀ addr len, writeRangeOk D c' addr len = true ↔ info.Holds addr len) ∧
      info.activeSlot ≠ info.writeSlot ∧
      ∀ ls₁ c₁ w₁, (machine D).Run (.idle c' w') ls₁ (.idle c₁ w₁) → .reset ∉ ls₁ →
        (history ls₁).acknowledged = [] →
        (∀ addr len, writeRangeOk D c₁ addr len = true ↔ info.Holds addr len) ∧
        ∀ pl₂ n₂ seq₂ es₂ resp₂ c₂ w₂,
          (doHello D pl₂ n₂ seq₂).Exec (portEnv D) c₁ w₁ es₂ resp₂ c₂ w₂ → AnsweredOk resp₂ →
          ∃ payload₂ info₂, resp₂ = finish (cmdHello ||| cmdRespBit) seq₂ payload₂ ∧
            DeviceInfo.parse payload₂ = .ok info₂ ∧ info₂.writeSlot = info.writeSlot ∧
            info₂.writeBase = info.writeBase ∧ info₂.writeCapacity = info.writeCapacity := by
  have room := (frames_of_run run).room
  obtain ⟨sound, unmarked⟩ := idle_sound run
  -- both HELLOs open the session on what the core is then
  have opens : ∀ {pl n seq es resp c c' w w'},
      (doHello D pl n seq).Exec (portEnv D) c w es resp c' w' → AnsweredOk resp →
      w' = w ∧ c' = c.sessionOpen D ∧
        resp = finish (cmdHello ||| cmdRespBit) seq (helloPayload D (c.sessionOpen D)) := by
    intro pl n seq es resp c c' w w' run answered
    rcases doHello_exec run with ⟨-, -, status, detail, bad, rfl⟩ | ⟨-, -, same, session, answer⟩
    · exact absurd answered (not_answeredOk_errResp bad _ _ _)
    · exact ⟨same, session, answer⟩
  obtain ⟨rfl, rfl, rfl⟩ := opens hello answered
  have open_ : (Stage.idle (c.sessionOpen D) w').Sound D := ⟨sound.sessionOpen, unmarked⟩
  refine ⟨_, _, rfl, parse_helloPayload sound.slot sound.active room nonempty, rfl, rfl, rfl, rfl,
    fun addr len => writeRangeOk_iff sound.slot addr len, ?_, ?_⟩
  · change slotId c.activeSlot ≠ c.writeSlot.setWidth 8
    rcases sound.active with none | other
    · rw [none]
      rcases sound.slot with lower | upper
      · rw [lower]
        decide
      · rw [upper]
        decide
    · rw [other, slotId_eq sound.slot.other]
      rcases sound.slot with lower | upper
      · rw [lower]
        decide
      · rw [upper]
        decide
  -- no COMMIT was acknowledged meanwhile, so the slots have not changed roles
  · intro ls₁ c₁ w₁ run₁ cycle none
    obtain ⟨sound₁, same⟩ := run_aims open_ run₁ cycle none
    change c₁.writeSlot = c.writeSlot at same
    constructor
    · intro addr len
      have gate : writeRangeOk D c₁ addr len = writeRangeOk D (c.sessionOpen D) addr len := by
        unfold writeRangeOk
        rw [same]
        rfl
      rw [gate]
      exact writeRangeOk_iff (c := c.sessionOpen D) sound.slot addr len
    · intro pl₂ n₂ seq₂ es₂ resp₂ c₂ w₂ again answered₂
      obtain ⟨rfl, rfl, rfl⟩ := opens again answered₂
      refine ⟨_, _, rfl, parse_helloPayload sound₁.slot sound₁.active (same ▸ room) nonempty,
        ?_, ?_, ?_⟩
      · exact congrArg (BitVec.setWidth 8) same
      · exact congrArg D.slotBase same
      · exact congrArg D.slotCapacity same

/-- A part too small for the slot it is to write reports a window of no bytes, and the
    host accepts the report. -/
theorem hello_parsed_clamped : ∃ payload info,
    DeviceInfo.parse payload = .ok info ∧ info.writeSlot = 1 ∧ info.writeCapacity = 0 := by
  have passes : (Bench.bench .ch592OnCh591 Bench.unchecked
      (Bench.factory .ch592OnCh591 Bench.image) bootreqMagic []).any (fun s =>
        let out := Bench.carry .ch592OnCh591
          (doHello .ch592OnCh591 (Bench.hello.drop frameHdrLen) helloReqLen 0) s.1 s.2
        decide (AnsweredOk out.1) && decide (out.2.1.writeSlot = slotB)) = true := by
    decide +kernel
  obtain ⟨ls, c, w, run, tested⟩ := Bench.bench_reach passes
  simp only [Bool.and_eq_true, decide_eq_true_eq] at tested
  have region : Device.ch592OnCh591.flashAppStart < Device.ch592OnCh591.appEnd := by decide
  obtain ⟨payload, info, -, parsed, slot, -, -, capacity, -⟩ :=
    hello_parsed region run (Bench.carry_exec _ _ c w) tested.1
  rw [tested.2] at slot capacity
  have none : Device.ch592OnCh591.slotCapacity slotB = 0 := by decide
  exact ⟨payload, info, parsed, slot, capacity.trans none⟩

end OpenBoot
