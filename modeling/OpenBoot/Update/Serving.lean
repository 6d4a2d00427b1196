import OpenBoot.Update.Handlers

/-! COMMIT, BOOT and the frame as a whole follow the discipline. -/

set_option autoImplicit false

namespace OpenBoot

open Semantics Program

variable {D : Device} {buf : List Byte} {c c₀ : Core} {w w' w₀ : World} {op : PortOp} {x : Word}
  {len crc : Word}

theorem Sealing.outside (h : Sealing D buf c₀ w₀ c w.flash len crc) (step : PortStep D w op x w')
    (above : ∀ a ∈ op.target, D.recordAt c.writeSlot ≤ a) :
    Sealing D buf c₀ w₀ c w'.flash len crc := by
  refine { h with area := (step.outside ?_).trans h.area }
  rw [Set.disjoint_left]
  intro a mem mem'
  have := above a mem'
  simp only [Device.imageArea, Set.mem_Ico] at mem
  omega

theorem recordOn_written {f : Flash} (slot : IsSlot c.writeSlot)
    (sealing : Sealing D buf c₀ w₀ c f len crc) (erased : recordErased D f c.writeSlot) :
    recordOn D (programBytes f (D.slotRecordAddr c.writeSlot) (nextRecord c len crc).bytes)
      c.writeSlot = some (nextRecord c len crc) := by
  have fits := D.record_fits
  have small : Nor.Erased erasedByte f (D.recordAt c.writeSlot) bootRecordSize :=
    erased.mono (Nat.le_refl _) (Nat.add_le_add_left fits _)
  have read := (small.program (nextRecord_length c len crc).le).read
  rw [nextRecord_length] at read
  apply recordOn_eq_some slot (BootRecord.sealed_accepted sealing.nonzero sealing.geometry)
  change BootRecord.ofBytes (Nor.read _ _ _) = _
  have content : programBytes f (D.slotRecordAddr c.writeSlot) (nextRecord c len crc).bytes =
      Nor.program f (D.recordAt c.writeSlot) (nextRecord c len crc).bytes := rfl
  rw [content, read]
  exact BootRecord.ofBytes_bytes BootRecord.sealed_rsvd_length

/-- Erase, write and verify: either the record lies in flash, or the code of
    the last command says what failed. -/
theorem recordStore_wp {post : Word → Core → World → Prop}
    (h : Sound D (commitOf buf).isSome c w) (slot : c.writeSlot = c₀.writeSlot)
    (invalid : c.recState = .invalid) (sealing : Sealing D buf c₀ w₀ c w.flash len crc)
    (stored : ∀ w', Sound D (commitOf buf).isSome c w' → Sealing D buf c₀ w₀ c w'.flash len crc →
      recordOn D w'.flash c.writeSlot = some (nextRecord c len crc) →
      w.ops.length < w'.ops.length → post 0 c w')
    (lost : ∀ r w' op x rest, r ≠ 0 → w'.ops = (op, x) :: rest → x ≠ 0 →
      (r.setWidth 8 = (0 : Byte) → x.setWidth 8 = (0 : Byte)) → w.ops.length ≤ rest.length →
      post r c w') :
    (recordStore D c.writeSlot (c.highestGen + 1) len crc).wp (portEnv D) (discipline D buf c₀ w₀)
      post c w := by
  have fits := sealing.geometry.fits
  have low : ¬ c.writeSlot ≥ slotCount := by
    have := h.slot.lt_count
    bv_omega
  have erase : Command D buf c₀ w₀ c w (.flashErase (D.slotRecordAddr c.writeSlot) D.eraseBlock) :=
    .disarm invalid (.inr (by rw [sealing.request]; rfl))
  unfold recordStore
  simp only [low, if_false, wp_bind, wp_ite, wp_pure]
  refine ⟨.command slot fits erase, fun x₁ w₁ erased => ⟨fun fail => ?_, fun good => ?_⟩⟩
  -- the driver's code is lost here: a failed erase or write is reported as 1
  · exact lost 1 w₁ _ _ _ (by decide) (PortStep.ops erased rfl) fail (by simp) (Nat.le_refl _)
  obtain rfl : x₁ = 0 := not_not.mp good
  have sound₁ := h.command erase erased
  have sealing₁ : Sealing D buf c₀ w₀ c w₁.flash len crc :=
    sealing.outside erased fun a mem => mem.1
  have blank : recordErased D w₁.flash c.writeSlot := (PortStep.erase_ok erased).1
  have marked : w₁.blkErased (D.recordAt c.writeSlot / D.block) = true :=
    (PortStep.erase_ok erased).2
  have write : Command D buf c₀ w₀ c w₁
      (.flashWrite (D.slotRecordAddr c.writeSlot) (nextRecord c len crc).bytes) :=
    .writeRecord invalid blank marked sealing₁
  have ops₁ := PortStep.ops erased rfl
  refine ⟨.command slot fits write, fun x₂ w₂ wrote => ⟨fun fail => ?_, fun good => ?_⟩⟩
  · apply lost 1 w₂ _ _ _ (by decide) (PortStep.ops wrote rfl) fail (by simp)
    rw [ops₁]
    exact Nat.le_succ _
  obtain rfl : x₂ = 0 := not_not.mp good
  have sound₂ := sound₁.command write wrote
  have sealing₂ : Sealing D buf c₀ w₀ c w₂.flash len crc :=
    sealing₁.outside wrote fun a mem => mem.1
  have found : recordOn D w₂.flash c.writeSlot = some (nextRecord c len crc) := by
    rw [PortStep.write_ok wrote]
    exact recordOn_written h.slot sealing₁ blank
  have verify : Command D buf c₀ w₀ c w₂
      (.flashVerify (D.slotRecordAddr c.writeSlot) (nextRecord c len crc).bytes) :=
    .verifyRecord invalid sealing₂
  have ops₂ := PortStep.ops wrote rfl
  refine ⟨.command slot fits verify, fun x₃ w₃ verified => ?_⟩
  have ops₃ := PortStep.ops verified rfl
  have grown : w.ops.length < w₃.ops.length ∧ w.ops.length ≤ w₂.ops.length := by
    simp only [ops₃, ops₂, ops₁, List.length_cons]
    omega
  have same : w₃.flash = w₂.flash := by rw [PortStep.verify_inv verified]; rfl
  by_cases good : x₃ = 0
  · subst good
    exact stored w₃ (sound₂.command verify verified) (same ▸ sealing₂) (same ▸ found) grown.1
  · exact lost x₃ w₃ _ _ _ good ops₃ good id grown.2

theorem commitRecord_wp {seq : Byte} (h : Sound D false c₀ w₀)
    (accepted : c₀.highestGen + 1 ≠ 0 → c₀.highestGen + 1 ≠ 0xFFFFFFFF →
      AcceptsCommit D c₀ w₀ buf len crc)
    (why : c₀.recState = .fresh → D.crcLive = true) :
    (commitRecord D len crc seq).wp (portEnv D) (discipline D buf c₀ w₀)
      (fun resp c w => Ending D buf c₀ w₀ resp .none c w) c₀ w₀ := by
  unfold commitRecord
  simp only [wp_ite, wp_pure, wp_bind, wp_get, wp_modify]
  refine ⟨fun _ => .refused (by decide) _ _ _, fun range => ?_⟩
  obtain ⟨below, nonzero⟩ := not_or.mp range
  have accepted := accepted nonzero below
  have commit : (commitOf buf).isSome = true := by rw [accepted.request]; rfl
  have distrusted : Sound D (commitOf buf).isSome c₀.recordBeginWrite w₀ := h.weaken.distrust
  have sealing : Sealing D buf c₀ w₀ c₀.recordBeginWrite w₀.flash len crc :=
    ⟨accepted, rfl, rfl, Set.eqOn_refl _ _⟩
  refine ⟨.distrusted rfl fun fresh => .inr (why fresh), ?_⟩
  refine recordStore_wp distrusted rfl rfl sealing ?_ ?_
  · intro w sound sealing found grown
    refine ⟨fun fail => absurd rfl fail, fun _ => ⟨.committed rfl sealing found, ?_⟩⟩
    exact .committed accepted (answeredOk_okResp _ _) accepted.session rfl rfl rfl rfl rfl rfl rfl
      grown
  · intro r w op x rest fail ops bad detail grown
    refine ⟨fun _ => ⟨.failed commit, ?_⟩, fun good => absurd fail good⟩
    exact .failed rfl ops bad detail grown (fun _ => ⟨rfl, _, _, accepted⟩) rfl rfl

/-- The run covers the image, so its CRC is the image's. -/
theorem attests_of_stream (h : Sound D false c₀ w₀) (session : c₀.s.session = true)
    (geometry : Geometry D c₀.writeSlot len) (covers : streamCovers D c₀ len = true)
    (same : crc32Final c₀.s.crcState = crc) : Attests D w₀.flash c₀.writeSlot len crc := by
  simp only [streamCovers, decide_eq_true_eq] at covers
  obtain ⟨run, next⟩ := covers
  have bound := geometry.bound h.slot
  have reach : c₀.s.expectedNext.toNat - D.base c₀.writeSlot = len.toNat := by
    unfold Device.base at bound ⊢
    rw [next, BitVec.toNat_add, Nat.mod_eq_of_lt bound, Nat.add_sub_cancel_left]
  have exact_run := (h.run session run).crc
  rw [reach] at exact_run
  unfold Attests
  rw [← same, ← exact_run]
  rfl

theorem doCommit_wp {pl : List Byte} {n : Nat} {seq : Byte} (h : Sound D false c₀ w₀)
    (session : c₀.s.session = true)
    (request : n = 8 → commitOf buf = some (get32 pl, get32 (pl.drop 4))) :
    (doCommit D pl n seq).wp (portEnv D) (discipline D buf c₀ w₀)
      (fun resp c w => Ending D buf c₀ w₀ resp .none c w) c₀ w₀ := by
  unfold doCommit
  simp only [wp_ite, wp_pure, wp_bind, wp_get]
  refine ⟨fun _ => .refused (by decide) _ _ _, fun long => ⟨fun _ => .refused (by decide) _ _ _,
    fun whole => ⟨fun _ => .refused (by decide) _ _ _, fun small =>
      ⟨fun replay => ?_, fun replay => ⟨fun xip => ?_, fun stream =>
        ⟨fun _ => .refused (by decide) _ _ _, fun covers =>
          ⟨fun _ => .refused (by decide) _ _ _, fun match_ => ?_⟩⟩⟩⟩⟩⟩⟩
  all_goals
    have request := request (not_not.mp long)
    obtain ⟨nonzero, whole⟩ := not_or.mp whole
    have geometry : Geometry D c₀.writeSlot (get32 pl) :=
      ⟨nonzero, not_not.mp whole, BitVec.not_lt.mp small⟩
  · exact .replayed request session replay.1 replay.2.1 replay.2.2
  -- XIP may attest: it is live, or nothing has been written since reset
  · have coherent : Coherent D w₀ ∧ (c₀.recState = .fresh → D.crcLive = true) := by
      simp only [attestViaXip, Bool.or_eq_true, decide_eq_true_eq] at xip
      rcases xip with live | flash
      · exact ⟨coherent_of_crcLive live _, fun _ => live⟩
      · refine ⟨?_, fun fresh => by rw [flash] at fresh; cases fresh⟩
        rw [h.untouched flash]
        exact coherent_reset _ _
    have fits := geometry.fits
    have top := geometry.toNat_le h.slot fits
    have room := D.recordAt_add h.slot
    have region := (D.fits_iff h.slot).mp fits
    refine wp_coherent (xipCrc32_queries geometry.whole (geometry.bound h.slot))
      (fun _ reads => reads) coherent.1
      (fun op reads => .look (reads.mono (D.appStart_le_base h.slot) ?_)) ?_
    · change D.base _ + _ ≤ _
      omega
    · have value : onFlash D w₀.flash (xipCrc32 (D.slotBase c₀.writeSlot) (get32 pl)) =
          crc32 (w₀.flash.bytes (D.base c₀.writeSlot) (get32 pl).toNat) :=
        xipCrc32_answer _ _ geometry.whole (geometry.bound h.slot)
      rw [value]
      refine ⟨fun _ => .refused (by decide) _ _ _, fun same => ?_⟩
      exact commitRecord_wp h (fun nonzero below => ⟨request, session, geometry, replay, .inl xip,
        not_not.mp same, nonzero, below⟩) coherent.2
  · have covers : streamCovers D c₀ (get32 pl) = true := by simpa using covers
    have attests := attests_of_stream h session geometry covers (not_not.mp match_)
    refine commitRecord_wp h (fun nonzero below => ⟨request, session, geometry, replay, .inr covers,
      attests, nonzero, below⟩) fun fresh => ?_
    -- right after a COMMIT the run is empty and covers no image
    simp only [streamCovers, decide_eq_true_eq] at covers
    have start := (h.fresh fresh).start
    rw [covers.2] at start
    exact absurd (by bv_omega) geometry.nonzero

theorem bootRecordTrusted_wp {post : Bool → Core → World → Prop} (h : Sound D false c₀ w₀)
    (answer : ∀ b, (b = true → Trusts D c₀ w₀.flash) → post b c₀ w₀) :
    (bootRecordTrusted D).wp (portEnv D) (discipline D buf c₀ w₀) post c₀ w₀ := by
  have inside : ∀ op, (∃ slot, SlotReads D slot op) →
      Reads D.flashAppStart.toNat D.appEnd.toNat op := fun op ⟨_, reads⟩ => reads.in_region
  unfold bootRecordTrusted
  simp only [wp_bind, wp_get]
  cases state : c₀.recState with
  | fresh => exact answer true fun _ => by unfold Trusts; rw [state]; trivial
  | flash =>
    simp only [wp_bind]
    have coherent : Coherent D w₀ := by
      rw [h.untouched state]
      exact coherent_reset _ _
    refine wp_coherent (bootSelect_queries D) inside coherent
      (fun op reads => .look (inside op reads)) ?_
    refine answer _ fun some => ?_
    unfold Trusts
    rw [state]
    exact of_decide_eq_true some
  | invalid =>
    simp only [wp_ite, wp_pure]
    refine ⟨fun _ => answer false fun on => (by cases on), fun some => ?_⟩
    have reads : ∀ op, SlotReads D c₀.activeSlot op →
        Reads D.flashAppStart.toNat D.appEnd.toNat op := fun op h => h.in_region
    -- the slot may have been written this power cycle, so any answer is possible
    refine wp_stale (bootAppValid_queries D c₀.activeSlot) reads
      (fun op asked => .look (reads op asked)) fun b _ => answer b fun _ => ?_
    unfold Trusts
    rw [state]
    exact some

theorem doBoot_wp {pl : List Byte} {n : Nat} {seq : Byte} (h : Sound D false c₀ w₀)
    (request : n = 1 → bootOf buf = some (pl.getD 0 0)) :
    (doBoot D pl n seq).wp (portEnv D) (discipline D buf c₀ w₀)
      (fun out c w => Ending D buf c₀ w₀ out.1 out.2 c w) c₀ w₀ := by
  unfold doBoot
  simp only [wp_ite, wp_pure, wp_bind, wp_modify]
  refine ⟨fun _ => .refused (by decide) _ _ _, fun long => ⟨fun _ => .refused (by decide) _ _ _,
    fun known => ⟨fun app => ?_, fun stay => ⟨.stayed, ?_⟩⟩⟩⟩
  · refine bootRecordTrusted_wp h fun trusted why => ⟨fun _ => .refused (by decide) _ _ _,
      fun accepted => ?_⟩
    have request := request (not_not.mp long)
    rw [app] at request
    exact .launched request (answeredOk_okResp _ _) (why (by simpa using accepted))
  · have request := request (not_not.mp long)
    have mode : pl.getD 0 0 = bootStay := by
      unfold bootApp at stay
      unfold bootStay at known ⊢
      bv_omega
    rw [mode] at request
    exact .stayed request (answeredOk_okResp _ _)

theorem dispatch_wp {q : Request} (h : Sound D false c₀ w₀) (decoded : decodeFrame buf = .ok q)
    (payload : q.n ≤ q.payload.length) :
    (dispatch D q.cmd q.payload q.n q.seq).wp (portEnv D) (discipline D buf c₀ w₀)
      (fun out c w => Ending D buf c₀ w₀ out.1 out.2 c w) c₀ w₀ := by
  have uncommitted := commitOf_of_ne decoded
  unfold dispatch
  simp only [wp_ite, wp_pure, wp_bind, wp_get]
  refine ⟨fun hello => doHello_wp (uncommitted (by rw [hello]; decide)), fun _ => ⟨fun known =>
    ⟨fun _ => .refused (by decide) _ _ _, fun session => ?_⟩, fun _ => .refused (by decide) _ _ _⟩⟩
  have session : c₀.s.session = true := by simpa using session
  refine ⟨fun boot => ?_, fun _ => ⟨fun erase => ?_, fun _ => ⟨fun write => ?_, fun _ =>
    ⟨fun crc => ?_, fun other => ?_⟩⟩⟩⟩
  · exact doBoot_wp h fun size => bootOf_of_eq decoded boot size
  · exact doErase_wp h (uncommitted (by rw [erase]; decide)) session fun size =>
      eraseOf_of_eq decoded erase size
  · exact doWrite_wp h (uncommitted (by rw [write]; decide)) payload
  · exact doCrc_wp (uncommitted (by rw [crc]; decide))
  · have commit : q.cmd = cmdCommit := by
      rcases known with same | same | same | same | same
      all_goals first | exact same | contradiction
    exact doCommit_wp h session fun size => commitOf_of_eq decoded commit size

theorem decodeFrame_payload {q : Request} (h : decodeFrame buf = .ok q) :
    q.n ≤ q.payload.length := by
  unfold decodeFrame at h
  simp only at h
  split at h <;> [cases h; skip]
  split at h <;> [cases h; skip]
  split at h <;> [cases h; rename_i long]
  split at h <;> [cases h; skip]
  split at h <;> [cases h; skip]
  obtain rfl := Except.ok.inj h
  simp only [List.length_drop, frameHdrLen, frameOverhead] at *
  omega

/-- Serving any buffer keeps the discipline and ends as described. -/
theorem handleFrame_wp (h : Sound D false c₀ w₀) :
    (handleFrame D buf).wp (portEnv D) (discipline D buf c₀ w₀)
      (fun out c w => Ending D buf c₀ w₀ out.1 out.2 c w) c₀ w₀ := by
  rw [handleFrame_eq]
  cases decoded : decodeFrame buf with
  | error resp =>
    refine Ending.kept fun request => ?_
    rcases decodeFrame_error decoded with empty | bad
    · exact fun answered => answered.1 empty
    · exact fun answered => bad answered.2
  | ok q => exact dispatch_wp h decoded (decodeFrame_payload decoded)

end OpenBoot
