import OpenBoot.Host.Maintenance
import OpenBoot.Wire.Sparing

/-! The erase flow over a lossy link, on flash with any fault: an OK means that the range is
erased, and nothing but the range and the slot's record is ever touched. -/

set_option autoImplicit false

namespace OpenBoot

open Semantics Program Host

variable {E : Environment port World} {D : Device} {direct : Bool} {c c' c₀ : Core}
  {w w' w₀ : World} {es : List (Event port)} {resp pl : List Byte} {act : Action} {seq : Byte}
  {slot addr len : Word} {lo n : Nat} {blocks : List Word} {A R : Type} {sure : Prop}

def ErasesIn (D : Device) (lo hi : Nat) (op : PortOp) : Prop :=
  ∃ a, op = .flashErase a D.eraseBlock ∧ lo ≤ a.toNat ∧ a.toNat + D.block ≤ hi

theorem eraseLoop_ops (run : (eraseLoop D seq blocks).Exec E c w es resp c' w') :
    ∀ e ∈ es, ∃ a ∈ blocks, e.op = .flashErase a D.eraseBlock := by
  obtain ⟨done, -, ⟨rfl, rfl, -⟩ | ⟨a, rest, x, rfl, -, rfl, -⟩⟩ := eraseLoop_exec run
  · intro e mem
    obtain ⟨b, inside, rfl⟩ := List.mem_map.mp mem
    exact ⟨b, inside, rfl⟩
  · intro e mem
    rcases List.mem_append.mp mem with early | last
    · obtain ⟨b, inside, rfl⟩ := List.mem_map.mp early
      exact ⟨b, List.mem_append_left _ inside, rfl⟩
    · rw [List.mem_singleton.mp last]
      exact ⟨a, by simp, rfl⟩

theorem eraseBlocks (isSlot : IsSlot c.writeSlot) (passes : ErasePasses D c pl n) :
    ∃ k, (get32 (pl.drop 4)).toNat = k * D.block ∧ D.block ∣ (get32 pl).toNat ∧
      forRange (get32 pl) (get32 pl + get32 (pl.drop 4)) D.eraseBlock =
        strided (get32 pl) D.eraseBlock k ∧
      (get32 pl).toNat + k * D.block < 2 ^ 32 := by
  obtain ⟨-, -, -, high⟩ := writeRangeOk_spec isSlot passes.inside
  have limit := recordAt_bound (D := D) isSlot
  obtain ⟨k, turns⟩ := word_dvd passes.aligned.2
  have turns : (get32 (pl.drop 4)).toNat = k * D.block := turns.trans (Nat.mul_comm _ _)
  exact ⟨k, turns, word_dvd passes.aligned.1, forRange_eq D.block_pos turns (by omega), by omega⟩

theorem doErase_ops (isSlot : IsSlot c.writeSlot)
    (run : (doErase D pl n seq).Exec E c w es resp c' w') : ∀ e ∈ es, PortOp.isFlash e.op = true →
      e.op = disarmOp D c ∨ ErasesIn D (get32 pl).toNat
        ((get32 pl).toNat + (get32 (pl.drop 4)).toNat) e.op := by
  rcases doErase_exec run with ⟨-, ⟨-, -, reads⟩, -⟩ | ⟨passes, r, c₁, w₁, es₁, es₂, rfl, begun, rest⟩
  · intro e mem command
    rw [reads e mem] at command
    cases command
  have noted : (c.streamNoteErase (get32 pl)).writeSlot = c.writeSlot := by
    unfold Core.streamNoteErase
    split <;> rfl
  intro e mem _
  -- first what disarms the record, then the blocks of the loop
  rcases List.mem_append.mp mem with first | later
  · rcases mutationBegin_exec begun with ⟨-, -, rfl, -⟩ | ⟨-, rfl, -⟩
    · cases first
    · rw [List.mem_singleton.mp first]
      refine .inl ?_
      unfold disarmOp
      rw [noted]
  · rcases rest with ⟨-, rfl, -⟩ | ⟨-, looped⟩
    · cases later
    obtain ⟨k, turns, -, range, bound⟩ := eraseBlocks isSlot passes
    rw [range] at looped
    obtain ⟨a, visited, at_a⟩ := eraseLoop_ops looped e later
    obtain ⟨i, below, place⟩ := mem_strided visited bound
    have room : (i + 1) * D.block ≤ k * D.block := Nat.mul_le_mul_right _ below
    rw [Nat.succ_mul] at room
    have place : a.toNat = (get32 pl).toNat + i * D.block := place
    exact .inr ⟨a, at_a, by omega, by omega⟩

theorem exec_erased {p : Program port R A} {r r' : R} {a : A} (part : OnPart E D)
    (only : ∀ e ∈ es, PortOp.isFlash e.op = true → ∃ b len, e.op = .flashErase b len)
    (run : p.Exec E r w es a r' w') (erased : Nor.Erased erasedByte w.flash lo n) :
    Nor.Erased erasedByte w'.flash lo n := by
  induction run with
  | done => exact erased
  | load _ ih => exact ih only erased
  | store _ ih => exact ih only erased
  | @call op _ _ _ _ _ _ _ _ _ step _ ih =>
    obtain ⟨first, rest⟩ := List.forall_mem_cons.mp only
    refine ih rest ?_
    by_cases command : op.isFlash = true
    · obtain ⟨b, len, rfl⟩ := first command
      rcases (part _ _ _ _ step).erase_inv with erases | kept
      · rw [erases]
        exact erased.erase _ _
      · rw [kept]
        exact erased
    · have same := (part _ _ _ _ step).outside (s := Set.univ)
        (by rw [target_of_read (Bool.eq_false_of_not_eq_true command)]; exact disjoint_bot_right)
      exact erased.congr fun x _ => same (Set.mem_univ x)

theorem doErase_erased (part : OnPart E D) (isSlot : IsSlot c.writeSlot)
    (run : (doErase D pl n seq).Exec E c w es resp c' w') {size : Nat}
    (erased : Nor.Erased erasedByte w.flash lo size) : Nor.Erased erasedByte w'.flash lo size := by
  refine exec_erased part (fun e mem command => ?_) run erased
  rcases doErase_ops isSlot run e mem command with disarms | ⟨a, at_a, -⟩
  · exact ⟨_, _, disarms⟩
  · exact ⟨a, _, at_a⟩

/-- The loop answers OK when each of its blocks is erased, and otherwise the part has faults. -/
theorem eraseLoop_outcome (part : OnPart E D)
    (run : (eraseLoop D seq blocks).Exec E c w es resp c' w') :
    (resp = okResp cmdErase seq ∧ ∀ a ∈ blocks, BlockErased D w'.flash a) ∨
      (¬ Faultless E ∧ ∃ detail, resp = errResp cmdErase seq eFlash detail) := by
  induction blocks generalizing c w es with
  | nil =>
    obtain ⟨rfl, rfl, rfl, rfl⟩ := exec_pure.mp run
    exact .inl ⟨rfl, List.forall_mem_nil _⟩
  | cons b rest ih =>
    unfold eraseLoop at run
    simp only [exec_bind, exec_ite, exec_modify, exec_pure, exec_flashErase] at run
    obtain ⟨_, _, x, _, _, rfl, ⟨rfl, rfl, step⟩, tail⟩ := run
    rcases tail with ⟨fail, -, rfl, -, -⟩ | ⟨zero, _, _, _, _, _, rfl, ⟨rfl, rfl, rfl⟩, run⟩
    · exact .inr ⟨fun faultless => fail (faultless.erase step), _, rfl⟩
    · obtain rfl := Decidable.not_not.mp zero
      refine (ih run).imp_left fun h => ⟨h.1, List.forall_mem_cons.mpr ⟨?_, h.2⟩⟩
      refine exec_erased part (fun e mem _ => ?_) run (part _ _ _ _ step).erase_ok.1
      obtain ⟨a, -, at_a⟩ := eraseLoop_ops run e mem
      exact ⟨a, _, at_a⟩

/-- The first bytes of the range are erased; from the first of them on, so is the record. -/
structure Swept (D : Device) (slot : Word) (lo n : Nat) (c : Core) (w : World) : Prop where
  sound : Sound D false c w
  session : c.s.session = true
  slot : c.writeSlot = slot
  erased : Nor.Erased erasedByte w.flash lo n
  disarmed : 0 < n → c.s.disarmed = true

theorem Swept.mono {less : Nat} (h : Swept D slot lo n c w) (fewer : less ≤ n) :
    Swept D slot lo less c w :=
  { h with
    erased := h.erased.mono (Nat.le_refl _) (Nat.add_le_add_left fewer _)
    disarmed := fun some => h.disarmed (some.trans_le fewer) }

theorem doErase_fields (run : (doErase D pl n seq).Exec E c w es resp c' w') :
    c'.writeSlot = c.writeSlot ∧ (c.s.disarmed = true → c'.s.disarmed = true) ∧
      (AnsweredOk resp → c'.s.disarmed = true) := by
  rcases doErase_exec run with ⟨-, ⟨rfl, -, -⟩, status, detail, bad, rfl⟩ |
    ⟨-, r, c₁, w₁, es₁, es₂, -, begun, rest⟩
  · exact ⟨rfl, id, fun fine => absurd fine (not_answeredOk_errResp bad _ _ _)⟩
  have noted : (c.streamNoteErase (get32 pl)).writeSlot = c.writeSlot ∧
      (c.streamNoteErase (get32 pl)).s.disarmed = c.s.disarmed := by
    unfold Core.streamNoteErase
    split <;> exact ⟨rfl, rfl⟩
  have first : c₁.writeSlot = c.writeSlot ∧ (c.s.disarmed = true → c₁.s.disarmed = true) ∧
      (r = 0 → c₁.s.disarmed = true) := by
    rcases mutationBegin_exec begun with ⟨on, -, -, rfl, -⟩ | ⟨off, -, -, rfl⟩
    · exact ⟨noted.1, fun _ => on, fun _ => on⟩
    · refine ⟨?_, fun on => ?_, fun zero => ?_⟩
      · split <;> exact noted.1
      · rw [noted.2, on] at off
        cases off
      · rw [if_pos zero]
        rfl
  rcases rest with ⟨fail, -, rfl, -, rfl⟩ | ⟨zero, looped⟩
  · exact ⟨first.1, first.2.1, fun fine => absurd fine (not_answeredOk_errResp (by decide) _ _ _)⟩
  · obtain ⟨done, marks, -⟩ := eraseLoop_exec looped
    obtain ⟨bitmap, frame⟩ := markAll_frame (D := D) (c := c₁) done
    have same : c' = { c₁ with s := { c₁.s with bitmap := bitmap } } := marks.trans frame
    rw [same]
    exact ⟨first.1, first.2.1, fun _ => first.2.2 zero⟩

/-- An ERASE in an open session: what is swept stays swept, and OK adds its range. -/
theorem Swept.erase (part : OnPart E D) (h : Swept D slot lo n c w)
    (run : (dispatch D cmdErase (eraseReqPayload addr len).val 8 seq).Exec E c w es (resp, act)
      c' w') :
    (∀ {m : Nat}, Swept D slot lo m c w → Swept D slot lo m c' w') ∧
    ((resp = okResp cmdErase seq ∧ c'.s.disarmed = true ∧
        Nor.Erased erasedByte w'.flash addr.toNat len.toNat) ∨
      ¬ (Faultless E ∧ ErasePasses D c (eraseReqPayload addr len).val 8) ∧
        ∃ status detail, status ≠ ok ∧ resp = errResp cmdErase seq status detail) := by
  obtain ⟨rfl, handled⟩ : act = .none ∧
      (doErase D (eraseReqPayload addr len).val 8 seq).Exec E c w es resp c' w' :=
    dispatch_handled (.inr (.inl rfl)) (.inr h.session) run
  obtain ⟨at_pl, at_pl'⟩ : get32 (eraseReqPayload addr len).val = addr ∧
      get32 ((eraseReqPayload addr len).val.drop 4) = len := get32_words addr len
  have isSlot := h.sound.slot
  obtain ⟨sound, session⟩ := h.sound.served part (eraseReqPayload addr len).property run
  obtain ⟨slot', still, armed⟩ := doErase_fields handled
  refine ⟨fun {m} swept => ⟨sound, session h.session, slot'.trans h.slot,
    doErase_erased part isSlot handled swept.erased, fun some => still (swept.disarmed some)⟩, ?_⟩
  -- refused, stuck at the record, or erasing: the last may still meet a fault
  rcases doErase_exec handled with ⟨fails, -, refused⟩ | ⟨passes, r, c₁, w₁, es₁, es₂, -, begun, rest⟩
  · exact .inr ⟨fun certain => fails certain.2, refused⟩
  rcases rest with ⟨fail, -, -, -, rfl⟩ | ⟨-, looped⟩
  · refine .inr ⟨fun certain => fail ?_, eFlash, _, by decide, rfl⟩
    rcases mutationBegin_exec begun with ⟨-, zero, -⟩ | ⟨-, -, step, -⟩
    · exact zero
    · exact certain.1.erase step
  obtain ⟨k, turns, aligned, range, bound⟩ := eraseBlocks isSlot passes
  rcases eraseLoop_outcome part looped with ⟨rfl, erased⟩ | ⟨faults, detail, rfl⟩
  · refine .inl ⟨rfl, armed (answeredOk_okResp _ _), ?_⟩
    rw [range] at erased
    rw [at_pl] at aligned erased bound
    rw [at_pl'] at turns
    refine (erased_iff_blocks aligned (turns ▸ Nat.dvd_mul_left _ _) (by omega)).mpr ?_
    intro a at_a above below
    exact erased a (mem_strided_of_block aligned at_a above (by omega))
  · exact .inr ⟨fun certain => faults certain.1, eFlash, detail, by decide, rfl⟩

theorem sweep_triple {count : Word} (part : OnPart E D) (at_addr : addr.toNat = lo + n)
    (certain : sure → Faultless E ∧
      ∀ c : Core, c.writeSlot = slot → ErasePasses D c (eraseReqPayload addr len).val 8) :
    Triple E D direct sure (· = (cmdErase, (eraseReqPayload addr len).val)) (On (Swept D slot lo n))
      (BootClient.erase addr len count) fun _ => On (Swept D slot lo (n + len.toNat)) := by
  refine Triple.command ⟨by decide, ?_⟩ retries
  intro c c' w w' seq es resp act start run
  have before : Swept D slot lo n c w := start.elim id (·.mono (Nat.le_add_right _ _))
  obtain ⟨keeps, outcome⟩ := before.erase part run
  refine ⟨start.imp keeps keeps, keeps, ?_⟩
  rcases outcome with ⟨rfl, disarmed, erased⟩ | ⟨unsure, status, detail, bad, rfl⟩
  · refine ⟨ok, [], rfl, by decide, fun _ => ⟨?_, trivial⟩, fun _ => rfl⟩
    have after := keeps before
    refine { after with erased := fun x above below => ?_, disarmed := fun _ => disarmed }
    rcases Nat.lt_or_ge x (lo + n) with early | late
    · exact after.erased x above early
    · exact erased x (at_addr ▸ late) (by omega)
  · exact ⟨status, [detail], rfl, (by decide : 2 ≤ maxPayload), fun same => absurd same bad,
      fun h => absurd ⟨(certain h).1, (certain h).2 c before.slot⟩ unsure⟩

def Erases (lo hi : Nat) (k : Byte × List Byte) : Prop :=
  k.1 = cmdErase ∧ lo ≤ (get32 k.2).toNat ∧
    (get32 k.2).toNat + (get32 (k.2.drop 4)).toNat ≤ hi

structure Sweepable (D : Device) (slot start total : Word) : Prop where
  isSlot : IsSlot slot
  fits : D.Fits slot
  nonempty : 0 < total.toNat
  aligned : D.block ∣ start.toNat
  whole : D.block ∣ total.toNat
  low : D.base slot ≤ start.toNat
  high : start.toNat + total.toNat ≤ D.recordAt slot

theorem Sweepable.limit {start total : Word} (h : Sweepable D slot start total) :
    start.toNat + total.toNat < 2 ^ 32 := by
  have top := recordAt_bound (D := D) h.isSlot
  have high := h.high
  omega

theorem sweepLoop_triple {start total chunkLen : Word} {fuel : Nat} (part : OnPart E D)
    (range : Sweepable D slot start total) (certain : sure → Faultless E) (done : Word)
    (whole : D.block ∣ chunkLen.toNat) (some : 0 < chunkLen.toNat)
    (enough : total.toNat ≤ done.toNat + fuel) (on_block : D.block ∣ done.toNat)
    (order : done.toNat ≤ total.toNat) :
    Triple E D direct sure (Erases (start.toNat + done.toNat) (start.toNat + total.toNat))
      (On (Swept D slot start.toNat done.toNat))
      (Host.eraseLoop start total D.eraseBlock chunkLen fuel done)
      fun _ => On (Swept D slot start.toNat total.toNat) := by
  -- on the fuel; every pass erases at least one block
  induction fuel generalizing done with
  | zero =>
    have ended : done.toNat = total.toNat := by omega
    rw [ended]
    exact Triple.pure fun _ => id
  | succ fuel ih =>
    unfold Host.eraseLoop
    by_cases more : done < total
    swap
    · have ended : done.toNat = total.toNat := Nat.le_antisymm order (BitVec.not_lt.mp more)
      rw [if_neg more, ended]
      exact Triple.pure fun _ => id
    rw [if_pos more]
    obtain ⟨len, at_len, nonempty, whole', fit, next⟩ :=
      erase_piece some whole range.whole on_block more
    have limit := range.limit
    have low := range.low
    have high := range.high
    have at_addr : (start + done).toNat = start.toNat + done.toNat := by
      rw [BitVec.toNat_add, Nat.mod_eq_of_lt (by omega)]
    have passes : ∀ c : Core, c.writeSlot = slot →
        ErasePasses D c (eraseReqPayload (start + done) len).val 8 := by
      rintro c rfl
      exact eraseReq_passes range.isSlot range.fits (at_addr ▸ Nat.dvd_add range.aligned on_block)
        whole' nonempty (by omega) (by omega)
    have first : Triple E D direct sure
        (· = (cmdErase, (eraseReqPayload (start + done) len).val))
        (On (Swept D slot start.toNat done.toNat))
        (Flow.within ("ERASE @ " ++ hex8 (start + done) ++ " (+" ++ toString len.toNat ++ " B)")
          (BootClient.erase (start + done) len
            (BitVec.ofNat 32 (divCeil len.toNat D.eraseBlock.toNat))))
        fun _ => On (Swept D slot start.toNat (done.toNat + len.toNat)) :=
      (sweep_triple part at_addr fun h => ⟨certain h, passes⟩).adapt
    have rest := ih (done + len) (by omega) (next ▸ Nat.dvd_add on_block whole') (by omega)
    rw [next] at rest
    obtain ⟨at_pl, at_pl'⟩ : get32 (eraseReqPayload (start + done) len).val = start + done ∧
        get32 ((eraseReqPayload (start + done) len).val.drop 4) = len := get32_words _ _
    simp only [at_len]
    refine (first.bind (fun _ => rest) ?_).mono ?_ (fun _ => id) fun _ _ => id
    · rintro _ rfl ⟨-, later, -⟩
      simp only [at_pl, at_addr] at later
      omega
    · rintro k (rfl | ⟨same, later, inside⟩)
      · refine ⟨rfl, ?_, ?_⟩
        · simp only [at_pl, at_addr]
          exact Nat.le_refl _
        · simp only [at_pl, at_pl', at_addr]
          omega
      · exact ⟨same, by omega, inside⟩

theorem Host.Erasable.sweepable {start total : Word} (h : Erasable (reported D c) start total)
    (isSlot : IsSlot c.writeSlot) : Sweepable D c.writeSlot start total := by
  have fits : D.Fits c.writeSlot := h.window
  refine ⟨isSlot, fits, ?_, word_dvd h.aligned.1, word_dvd h.aligned.2, BitVec.le_def.mp h.low, ?_⟩
  · have nonzero : total.toNat ≠ 0 := fun zero => h.nonempty (BitVec.eq_of_toNat_eq zero)
    omega
  · rw [← D.capacity_eq isSlot fits]
    exact h.high

/-- A range the host and the device agree to erase. -/
def Chosen (D : Device) (c : Core) (all : Bool) (start length : Option Word) (a n : Word) : Prop :=
  eraseTarget (reported D c) all start length = .ok (a, n) ∧ Erasable (reported D c) a n

theorem chosen_all (isSlot : IsSlot c.writeSlot) (fits : D.Fits c.writeSlot)
    (start length : Option Word) : Chosen D c true start length (D.slotBase c.writeSlot)
      (D.slotCapacity c.writeSlot) := by
  have low := D.block_dvd_base isSlot
  have top := D.block_dvd_recordAt isSlot
  have cap := D.capacity_eq isSlot fits
  have window : (reported D c).writeCapacity ≠ 0 := fits
  refine ⟨eraseTarget_all window start length, window, ⟨word_mod_eq_zero low, word_mod_eq_zero ?_⟩, window,
    BitVec.le_refl _, Nat.le_refl _⟩
  exact (Nat.dvd_add_right low).mp (cap ▸ top)

theorem eraseFlow_triple {all force : Bool} {start length : Option Word} (part : OnPart E D)
    (isSlot : IsSlot c₀.writeSlot)
    (active : c₀.activeSlot = slotNone ∨ c₀.activeSlot = otherSlot c₀.writeSlot)
    (room : c₀.writeSlot = slotB → D.Fits slotA) :
    Triple E D direct (Faultless E ∧ ∃ a n, Chosen D c₀ all start length a n)
      (fun k => k.1 ∈ [cmdHello] ∨ force = true ∧ ∃ a n, Chosen D c₀ all start length a n ∧
        Erases a.toNat (a.toNat + n.toNat) k)
      (On (Greeted D c₀ w₀)) (Host.erase all start length force)
      fun _ b => force = true → ∃ a n, Chosen D c₀ all start length a n ∧ 0 < n.toNat ∧
        On (Swept D c₀.writeSlot a.toNat n.toNat) b := by
  have opened : Triple E D direct (Faultless E ∧ ∃ a n, Chosen D c₀ all start length a n)
      (·.1 ∈ [cmdHello]) (On (Greeted D c₀ w₀)) (Flow.plain BootClient.hello)
      fun info b => On (fun c w => Greeted D c₀ w₀ c w ∧ c.s.session = true) b ∧
        info.val = reported D c₀ :=
    greet_triple fun certain => by
      obtain ⟨-, a, n, chosen⟩ := certain
      exact parse_helloPayload isSlot active room (region_of_fits isSlot chosen.2.window)
  unfold Host.erase
  -- first HELLO, whose answer is the window the range is held against
  refine opened.bind ?_ ?_
  swap
  · rintro k hello ⟨-, -, -, -, erases, -⟩
    rw [erases] at hello
    exact absurd hello (by decide)
  rintro ⟨info, usable⟩
  apply Triple.assume _ (fun b post => post.2)
  rintro rfl
  refine Triple.silently (fun p b => On (fun c w => Greeted D c₀ w₀ c w ∧ c.s.session = true) b ∧
      eraseTarget (reported D c₀) all start length = .ok p)
    (Triple.check ?_ fun _ _ found post => ⟨post.1, found⟩) ?_
  · rintro _ _ ⟨-, a, n, chosen⟩
    exact ⟨(a, n), chosen.1⟩
  rintro ⟨a, n⟩
  apply Triple.assume _ (fun b post => post.2)
  intro target
  refine Triple.silently (fun _ b => On (fun c w => Greeted D c₀ w₀ c w ∧ c.s.session = true) b ∧
      Chosen D c₀ all start length a n)
    (Triple.check ?_ fun _ _ accepted post =>
      ⟨post.1, target, checkErase_eq_ok.mp accepted⟩) fun _ => ?_
  · rintro _ _ ⟨-, b, m, chosen⟩
    obtain ⟨rfl, rfl⟩ := Prod.mk.inj (Except.ok.inj (target.symm.trans chosen.1))
    exact ⟨(), checkErase_eq_ok.mpr chosen.2⟩
  apply Triple.assume _ (fun b post => post.2)
  intro chosen
  cases force with
  | false => exact Triple.pure fun _ _ forced => absurd forced Bool.false_ne_true
  | true =>
    rw [if_neg (by decide)]
    -- the loop starts with nothing swept, and so without a record to speak of
    have range := chosen.2.sweepable isSlot
    have chunks := eraseChunk_blocks D.block_pos
    refine (sweepLoop_triple part range And.left 0 chunks.1 chunks.2 (by omega) (Nat.dvd_zero _)
      (Nat.zero_le _)).mono (fun k erases => ⟨rfl, a, n, chosen, erases⟩) ?_
      fun _ b swept _ => ⟨a, n, chosen, range.nonempty, swept⟩
    rintro b ⟨⟨greeted, session⟩, -⟩
    refine ⟨greeted.sound, session, ?_, fun x above below => ?_, fun some => ?_⟩
    · rw [greeted.core]
    · exact absurd below (Nat.not_lt.mpr above)
    · exact absurd some (Nat.lt_irrefl 0)

/-- What the flow may touch: the range chosen, and the record of the slot. -/
def Touched (D : Device) (c : Core) (all : Bool) (start length : Option Word) (force : Bool) : Set Nat :=
  {x | force = true ∧ ∃ a n, Chosen D c all start length a n ∧
    (x ∈ Set.Ico a.toNat (a.toNat + n.toNat) ∨
      x ∈ Set.Ico (D.recordAt c.writeSlot) (D.recordAt c.writeSlot + D.block))}

theorem Touched.serves (c₀ : Core) (w₀ : World) (all : Bool) (start length : Option Word)
    (force : Bool) (part : OnPart E D) : Duplex.Keeps (medium E D)
      (On fun c w => Sound D false c w ∧ c.writeSlot = c₀.writeSlot ∧
        (Touched D c₀ all start length force)ᶜ.EqOn w.flash w₀.flash)
      (Requests fun k => k.1 ∈ [cmdHello] ∨ force = true ∧ ∃ a n,
        Chosen D c₀ all start length a n ∧ Erases a.toNat (a.toNat + n.toNat) k) := by
  refine requests_keep ?_
  rintro ⟨cmd, seq, payload, fits⟩ c c' w w' es resp act asked ⟨sound, slot, same⟩ run
  -- whatever else is dispatched was never asked, so it cannot be
  have only : cmd = cmdHello ∨ cmd = cmdErase :=
    asked.imp List.mem_singleton.mp fun ask => by
      obtain ⟨-, -, -, -, erases, -⟩ := ask
      exact erases
  have dispatched := dispatch_exec (q := ⟨cmd, seq, payload, payload.length⟩) run
  have other {code : Byte} (is : cmd = code) (apart : code ≠ cmdHello ∧ code ≠ cmdErase) :
      c' = c ∧ w' = w := by
    rcases only with hello | erase
    · exact absurd (is.symm.trans hello) apart.1
    · exact absurd (is.symm.trans erase) apart.2
  cases dispatched with
  | unknown => exact ⟨sound, slot, same⟩
  | closed => exact ⟨sound, slot, same⟩
  | hello _ handled =>
    rcases doHello_exec handled with ⟨-, ⟨rfl, rfl, -⟩, -⟩ | ⟨-, -, rfl, rfl, -⟩
    · exact ⟨sound, slot, same⟩
    · exact ⟨sound.sessionOpen, slot, same⟩
  | erase is _ handled =>
    refine ⟨(sound.served part fits run).1, (doErase_fields handled).1.trans slot, ?_⟩
    refine Set.EqOn.trans (exec_spares part (fun e mem => ?_) handled) same
    obtain ⟨forced, a, n, chosen, -, low, high⟩ := asked.resolve_left fun hello =>
      absurd (is.symm.trans (List.mem_singleton.mp hello)) (by decide)
    rw [Set.disjoint_left]
    intro x apart aimed
    refine apart ⟨forced, a, n, chosen, ?_⟩
    -- a read aims at nothing
    by_cases command : PortOp.isFlash e.op = true
    swap
    · rw [target_of_read (Bool.eq_false_of_not_eq_true command)] at aimed
      exact absurd aimed (Set.notMem_empty x)
    rcases doErase_ops sound.slot handled e mem command with disarms | ⟨b, at_b, above, below⟩
    · rw [disarms] at aimed
      right
      rw [← slot]
      exact aimed
    · rw [at_b] at aimed
      left
      have inside : b.toNat ≤ x ∧ x < b.toNat + D.block := aimed
      simp only at low high above below
      exact ⟨by omega, by omega⟩
  | boot is =>
    obtain ⟨rfl, rfl⟩ := other is (by decide)
    exact ⟨sound, slot, same⟩
  | write is =>
    obtain ⟨rfl, rfl⟩ := other is (by decide)
    exact ⟨sound, slot, same⟩
  | crc is =>
    obtain ⟨rfl, rfl⟩ := other is (by decide)
    exact ⟨sound, slot, same⟩
  | commit is =>
    obtain ⟨rfl, rfl⟩ := other is (by decide)
    exact ⟨sound, slot, same⟩

/-- The erase flow, over a link that loses, delays and damages frames, on flash with any fault.
    An OK means that the range is erased and the slot's record gone. Whatever the outcome, and
    whatever arrives after it, nothing but the range and the record was touched. On flash
    without faults a range that the host accepts is erased if of the attempts at each command
    one was answered. -/
theorem erase_erases {f : Flash} {ls : List Label} {all force : Bool} {start length : Option Word}
    {s s' : BootClient} {l' : Link} {es : List (Event transport)} {r : Except FlowError Unit}
    (part : OnPart E D) (reached : (machine D).Run (.off f) ls (.idle c w))
    (run : (Host.erase all start length force).run.Exec (link E D direct) s
      ⟨⟨c, w, false⟩, [], []⟩ es r s' l') :
    (r = .ok () → force = true → ∃ a n, Chosen D c all start length a n ∧
      Nor.Erased erasedByte l'.server.world.flash a.toNat n.toNat ∧
      recordOn D l'.server.world.flash c.writeSlot = none) ∧
    (∀ l'', Relation.ReflTransGen (Duplex.Moves (medium E D)) l' l'' →
      (Touched D c all start length force)ᶜ.EqOn l''.server.world.flash w.flash) ∧
    (Faultless E → (∃ a n, Chosen D c all start length a n) → Answered es → r = .ok ()) := by
  have sound := (idle_sound reached).1
  obtain ⟨asks, outcome⟩ := eraseFlow_triple part sound.slot sound.active (frames_of_run reached).room
    s _ es r s' l' ⟨rfl, rfl⟩ (Greeted.start sound) run
  have serves := Touched.serves c w all start length force part
  have guarded := exec_guarded serves run asks (.quiet ⟨rfl, rfl⟩ ⟨sound, rfl, Set.eqOn_refl _ _⟩)
  refine ⟨?_, fun l'' after => (guarded.later serves after).inv.2.2, ?_⟩
  · rcases outcome with ⟨_, rfl, -, post⟩ | ⟨err, rfl, -⟩
    · intro _ forced
      obtain ⟨a, n, chosen, some, swept⟩ := post forced
      refine ⟨a, n, chosen, swept.erased, ?_⟩
      have gone := (swept.sound.armed (swept.disarmed some)).2 rfl
      rw [swept.slot] at gone
      exact recordOn_of_recordErased gone
    · exact nofun
  · rcases outcome with ⟨_, rfl, -⟩ | ⟨err, rfl, unanswered⟩
    · exact fun _ _ _ => rfl
    · exact fun faultless chosen answered => absurd answered (unanswered ⟨faultless, chosen⟩)

/-- All of slot B erased with every fourth answer lost; slot A is as it was. -/
theorem erase_erases_lossy : ∃ c w es l,
    (∃ f ls, (machine .ch570).Run (.off f) ls (.idle c w)) ∧ c.writeSlot = slotB ∧
      (∃ e ∈ es, ¬ Completed e) ∧
      (∃ s', (Host.erase true none none true).run.Exec
        (link (faultFree .ch570 (simulatedView .ch570)) .ch570 false) ⟨0⟩ ⟨⟨c, w, false⟩, [], []⟩
        es (.ok ()) s' l) ∧
      Nor.Erased erasedByte l.server.world.flash (Device.ch570.base slotB)
        (Device.ch570.slotCapacity slotB).toNat ∧
      (Device.ch570.span slotA).EqOn l.server.world.flash w.flash := by
  -- slot B holds an image before, and every fourth answer is lost
  have passes : (Bench.bench .ch570 Bench.unchecked
      (programBytes (Bench.factory .ch570 Bench.image) (Device.ch570.slotBase slotB) Bench.image)
      bootreqMagic []).any (fun s =>
        let out := (Host.erase true none none true).run.run (lossy .ch570 Bench.everyFourth false) ⟨0⟩
          ⟨⟨s.1, s.2, false⟩, [], []⟩
        decide (s.1.writeSlot = slotB) && (decide (Answered out.1) &&
          decide (∃ e ∈ out.1, ¬ Completed e))) = true := by decide +kernel
  obtain ⟨ls, c, w, reached, tested⟩ := Bench.bench_reach passes
  simp only [Bool.and_eq_true, decide_eq_true_eq] at tested
  obtain ⟨slot, answered, lost⟩ := tested
  have run := Program.exec_run (lossy_sound .ch570 Bench.everyFourth false)
    (Host.erase true none none true).run ⟨0⟩ ⟨⟨c, w, false⟩, [], []⟩
  generalize (Host.erase true none none true).run.run (lossy .ch570 Bench.everyFourth false) ⟨0⟩
    ⟨⟨c, w, false⟩, [], []⟩ = out at run answered lost
  obtain ⟨es, r, s', l⟩ := out
  have chosen := chosen_all (D := .ch570) (c := c) (slot ▸ .inr rfl) (slot ▸ by decide) none none
  obtain ⟨erased, spared, succeeds⟩ := erase_erases faultFree_onPart reached run
  obtain rfl := succeeds faultFree_faultless ⟨_, _, chosen⟩ answered
  obtain ⟨a, n, range, blank, -⟩ := erased rfl rfl
  obtain ⟨rfl, rfl⟩ := Prod.mk.inj (Except.ok.inj (chosen.1.symm.trans range.1))
  rw [slot] at blank
  refine ⟨c, w, es, l, ⟨_, ls, reached⟩, slot, lost, ⟨s', run⟩, blank, ?_⟩
  refine Set.EqOn.mono (fun x inside => ?_) (spared _ .refl)
  rintro ⟨-, a, n, other, touched⟩
  obtain ⟨rfl, rfl⟩ := Prod.mk.inj (Except.ok.inj (chosen.1.symm.trans other.1))
  rw [slot] at touched
  have below : x < (Device.ch570.slotBase slotB).toNat := inside.2.trans_le (by decide)
  rcases touched with range | record
  · exact absurd range.1 (Nat.not_le.mpr below)
  · exact absurd ((by decide : (Device.ch570.slotBase slotB).toNat ≤ Device.ch570.recordAt slotB).trans
      record.1) (Nat.not_le.mpr below)

end OpenBoot
