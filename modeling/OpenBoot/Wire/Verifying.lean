import OpenBoot.Host.Verifying
import OpenBoot.Wire.Flashing

/-! What the verify flow vouches for, over a link that loses, delays and damages frames:
that the flash holds a build of the bundle, and not always one that anything runs. -/

set_option autoImplicit false

namespace OpenBoot

open Semantics Program Host

variable {D : Device} {direct : Bool} {c c₀ : Core} {w w₀ : World} {bundle : Bundle} {image : Image}
  {A B X : Type}

def Stays (cmd : Byte) : Prop := IsRequest cmd ∧ cmd ≠ cmdBoot

theorem dispatched_stays {E : Environment port World} {q : Request} {c' : Core} {w' : World}
    {es : List (Event port)} {resp : List Byte} {act : Action}
    (dispatched : Dispatched E D q c w es resp act c' w') (other : q.cmd ≠ cmdBoot) : act = .none := by
  cases dispatched with
  | boot same => exact absurd same other
  | _ => rfl

theorem xfer_completes (direct : Bool) {req : Frame} (timeoutMs : Nat) (l : Link) (quiet : l.Quiet)
    (on : l.server.booted = false) (stays : Stays req.cmd) :
    ∃ frame l', (link (portEnv D) D direct).step l (.xfer req timeoutMs) (.ok frame) l' ∧
      l'.Quiet ∧ l'.server.booted = false ∧
      Completed ⟨.xfer req timeoutMs, .ok frame⟩ := by
  obtain ⟨⟨c, w, booted⟩, up, down⟩ := l
  obtain ⟨rfl, rfl⟩ := quiet
  obtain rfl : booted = false := on
  -- the core answers every frame the client sends
  obtain ⟨es, ⟨resp, act⟩, c', w', run⟩ := exec_total (portEnv_total D) (handleFrame D req.encode) c w
  have encoded := handleFrame_encode D req []
  rw [List.append_nil] at encoded
  have served := run
  rw [encoded] at served
  obtain rfl := dispatched_stays (dispatch_exec (q := ⟨req.cmd, req.seq, req.payload, _⟩) served) stays.2
  have answers := (dispatch_answers D req.cmd req.payload req.payload.length req.seq).exec served
  obtain ⟨frame, readable, cmd, seq⟩ := answers.readable
  have decoded := readable.decodes []
  rw [List.append_nil] at decoded
  have fine : frame.isFrameError = false := by
    unfold Frame.isFrameError
    rw [cmd]
    exact decide_eq_false stays.1.response
  have response : frame.isResponseTo req = true := by
    unfold Frame.isResponseTo
    rw [cmd, seq]
    exact decide_eq_true ⟨rfl, rfl⟩
  have accepted : verdict req resp = some frame := by
    unfold verdict
    rw [decoded]
    simp only [fine, response, Bool.false_eq_true, if_false, if_true]
  have moves : Duplex.Moves (medium (portEnv D) D) ⟨⟨c, w, false⟩, [req.encode], []⟩
      ⟨⟨c', w', false⟩, [], [resp]⟩ := by
    have moved : Duplex.Moves (medium (portEnv D) D) ⟨⟨c, w, false⟩, [req.encode], []⟩
        ⟨⟨c', w', false⟩, [], [] ++ (if resp = [] then none else some resp).toList⟩ :=
      .served (.inl rfl) (.frame run)
    rwa [if_neg answers.ne_nil] at moved
  exact ⟨frame, ⟨⟨c', w', false⟩, [], []⟩, ⟨some frame, .moved moves (.heard (.inl rfl) accepted), rfl⟩,
    ⟨rfl, rfl⟩, rfl, fine, response⟩

theorem link_total (E : Environment port World) (D : Device) (direct : Bool) :
    (link E D direct).Total := by
  intro l op
  cases op with
  | xfer req timeoutMs => exact ⟨.error .timeout, l.send req.encode, none, .deadline, rfl⟩
  | holdsInBootloader => exact ⟨direct, l, rfl, rfl⟩

/-- Any program may be run so that all is answered, unless it makes a request of another
    kind. -/
theorem undisturbed (direct : Bool) (p : Semantics.Program transport BootClient A) (s : BootClient) (l : Link)
    (quiet : l.Quiet) (on : l.server.booted = false) :
    ∃ es a s' l', p.Exec (link (portEnv D) D direct) s l es a s' l' ∧
      ((∀ e ∈ es, ∀ k, asked e = some k → Completed e) ∨
        ∃ e ∈ es, ∃ k, asked e = some k ∧ ¬ Stays k.1) := by
  -- the link is quiet between two requests, so each may be answered at once
  induction p generalizing s l with
  | done a => exact ⟨[], a, s, l, .done, .inl (List.forall_mem_nil _)⟩
  | load next ih =>
    obtain ⟨es, a, s', l', run, outcome⟩ := ih s s l quiet on
    exact ⟨es, a, s', l', .load run, outcome⟩
  | store s₁ next ih =>
    obtain ⟨es, a, s', l', run, outcome⟩ := ih s₁ l quiet on
    exact ⟨es, a, s', l', .store run, outcome⟩
  | call op next ih =>
    cases op with
    | holdsInBootloader =>
      obtain ⟨es, a, s', l', run, outcome⟩ := ih direct s l quiet on
      refine ⟨_, a, s', l', .call ⟨rfl, rfl⟩ run, outcome.imp (fun all => ?_) ?_⟩
      · exact List.forall_mem_cons.mpr ⟨nofun, all⟩
      · rintro ⟨e, mem, other⟩
        exact ⟨e, List.mem_cons_of_mem _ mem, other⟩
    | xfer req timeoutMs =>
      by_cases stays : Stays req.cmd
      · obtain ⟨frame, l₁, step, quiet₁, on₁, completed⟩ := xfer_completes direct timeoutMs l quiet on
          stays
        obtain ⟨es, a, s', l', run, outcome⟩ := ih (.ok frame) s l₁ quiet₁ on₁
        refine ⟨_, a, s', l', .call step run, outcome.imp (fun all => ?_) ?_⟩
        · exact List.forall_mem_cons.mpr ⟨fun _ _ => completed, all⟩
        · rintro ⟨e, mem, other⟩
          exact ⟨e, List.mem_cons_of_mem _ mem, other⟩
      · obtain ⟨es, a, s', l', run⟩ := exec_total (link_total (portEnv D) D direct)
          (next (.error .timeout)) s (l.send req.encode)
        exact ⟨_, a, s', l', .call ⟨none, .deadline, rfl⟩ run,
          .inr ⟨_, List.mem_cons_self, _, rfl, stays⟩⟩

structure Heard (c₀ : Core) (w₀ : World) (c : Core) (w : World) : Prop where
  active : c.activeSlot = c₀.activeSlot
  slot : c.writeSlot = c₀.writeSlot
  part : w = w₀

structure Opened (c₀ : Core) (w₀ : World) (c : Core) (w : World) : Prop extends Heard c₀ w₀ c w where
  session : c.s.session = true

structure Summed (f : Flash) (image : Image) (v : Word) : Prop where
  aligned : image.base % 4 = 0
  words : 4 ∣ image.bytes.length
  nonempty : image.bytes ≠ []
  sum : v = crc32 (f.bytes image.base.toNat image.bytes.length)

/-- What the device says of itself and of its flash fits a build of the bundle. -/
structure Passes (D : Device) (c : Core) (f : Flash) (bundle : Bundle) (image : Image) : Prop where
  family : (Source.bundle bundle).checkFamily D.chipFamily (reported D c).familyName = .ok ()
  sole : (bundle.images.filter fun i => i.base ≠ D.slotBase c.writeSlot) = [image]
  inside : D.flashAppStart ≤ image.base ∧ image.base.toNat + image.bytes.length ≤ D.appEnd.toNat
  summed : Summed f image image.crc32

theorem Passes.region {f : Flash} (h : Passes D c f bundle image) : D.flashAppStart < D.appEnd := by
  have some := List.length_pos_iff.mpr h.summed.nonempty
  have low := BitVec.le_def.mp h.inside.1
  have high := h.inside.2
  rw [BitVec.lt_def]
  omega

variable {sure : Prop}

theorem hello_performs : Performs (portEnv D) D cmdHello (helloReqPayload protoMajor protoMinor).val
    (fun c w => Heard c₀ w₀ c w ∨ Opened c₀ w₀ c w) (Opened c₀ w₀) (· = helloPayload D c₀) sure := by
  apply Performs.of_phase (by decide)
  intro c c' w w' seq es resp act start run
  have heard : Heard c₀ w₀ c w := start.elim id Opened.toHeard
  obtain ⟨-, handled⟩ : _ ∧ (doHello D _ _ seq).Exec _ c w es resp c' w' :=
    dispatch_handled (.inl rfl) (.inl rfl) run
  have passes : HelloPasses (helloReqPayload protoMajor protoMinor).val helloReqLen :=
    ⟨rfl, get32_put32_append _ _, by decide⟩
  rcases doHello_exec handled with ⟨fails, -⟩ | ⟨-, rfl, rfl, rfl, rfl⟩
  · exact absurd passes fails
  have same : helloPayload D (c.sessionOpen D) = helloPayload D c₀ :=
    helloPayload_congr heard.active heard.slot
  rw [same]
  exact .inl ⟨_, rfl, helloPayload_fits, ⟨⟨heard.active, heard.slot, heard.part⟩, rfl⟩, rfl⟩

theorem crcPasses_image
    (inside : D.flashAppStart ≤ image.base ∧
      image.base.toNat + image.bytes.length ≤ D.appEnd.toNat) :
    CrcPasses D (crcReqPayload image.base (BitVec.ofNat 32 image.bytes.length)).val 8 ↔
      image.base % 4 = 0 ∧ 4 ∣ image.bytes.length ∧ image.bytes ≠ [] := by
  obtain ⟨low, high⟩ := inside
  have words : get32 (crcReqPayload image.base (BitVec.ofNat 32 image.bytes.length)).val =
      image.base ∧ get32 ((crcReqPayload image.base (BitVec.ofNat 32 image.bytes.length)).val.drop 4) =
        BitVec.ofNat 32 image.bytes.length := get32_words _ _
  have toNat : (BitVec.ofNat 32 image.bytes.length).toNat = image.bytes.length := by
    rw [BitVec.toNat_ofNat, Nat.mod_eq_of_lt (by omega)]
  have ragged : BitVec.ofNat 32 image.bytes.length % 4 = 0 ↔ 4 ∣ image.bytes.length := by
    constructor
    · intro whole
      have rest := congrArg BitVec.toNat whole
      rw [BitVec.toNat_umod, toNat] at rest
      exact Nat.dvd_of_mod_eq_zero rest
    · exact fun whole => word_mod_eq_zero (toNat.symm ▸ whole)
  constructor
  -- inside the region the range gate only asks for a nonzero length
  · rintro ⟨-, aligned, range⟩
    rw [words.1, words.2] at aligned range
    simp only [readRangeOk, decide_eq_true_eq] at range
    refine ⟨aligned.1, ragged.mp aligned.2, fun empty => range.2.2.1 ?_⟩
    rw [empty]
    rfl
  · rintro ⟨aligned, whole, nonempty⟩
    have some := List.length_pos_iff.mpr nonempty
    refine ⟨rfl, ?_, ?_⟩
    · rw [words.1, words.2]
      exact ⟨aligned, ragged.mpr whole⟩
    · rw [words.1, words.2]
      simp only [readRangeOk, decide_eq_true_eq]
      have above := BitVec.le_def.mp low
      refine ⟨low, ?_, ?_, ?_⟩
      · rw [BitVec.lt_def]
        omega
      · intro zero
        rw [zero] at toNat
        exact absurd toNat.symm some.ne'
      · rw [BitVec.le_def, BitVec.toNat_sub_of_le (by rw [BitVec.le_def]; omega), toNat]
        omega

theorem crc_performs (coherent : Coherent D w₀)
    (inside : D.flashAppStart ≤ image.base ∧
      image.base.toNat + image.bytes.length ≤ D.appEnd.toNat)
    (certain : sure → Summed w₀.flash image image.crc32) :
    Performs (portEnv D) D cmdCrc
      (crcReqPayload image.base (BitVec.ofNat 32 image.bytes.length)).val
      (fun c w => Opened c₀ w₀ c w ∨ Opened c₀ w₀ c w) (Opened c₀ w₀)
      (fun p => ∃ v, p = ok :: put32 v ∧ Summed w₀.flash image v) sure := by
  have words : get32 (crcReqPayload image.base (BitVec.ofNat 32 image.bytes.length)).val =
      image.base ∧ get32 ((crcReqPayload image.base (BitVec.ofNat 32 image.bytes.length)).val.drop 4) =
        BitVec.ofNat 32 image.bytes.length := get32_words _ _
  have toNat : (BitVec.ofNat 32 image.bytes.length).toNat = image.bytes.length := by
    rw [BitVec.toNat_ofNat, Nat.mod_eq_of_lt (by omega)]
  apply Performs.of_phase (by decide)
  intro c c' w w' seq es resp act start run
  have opened : Opened c₀ w₀ c w := start.elim id id
  obtain ⟨-, handled⟩ : _ ∧ (doCrc D _ _ seq).Exec _ c w es resp c' w' :=
    dispatch_handled (.inr (.inr (.inr rfl))) (.inr opened.session) run
  rcases doCrc_exec (portEnv_silent D) handled with
    ⟨fails, ⟨rfl, rfl, -⟩, refused⟩ | ⟨passes, ⟨rfl, rfl, -⟩, v, rfl, computed⟩
  · refine .inr ⟨rfl, rfl, fun sure => fails ?_, refused⟩
    have summed := certain sure
    exact (crcPasses_image inside).mpr ⟨summed.aligned, summed.words, summed.nonempty⟩
  · have whole := passes.aligned.2
    obtain ⟨aligned, ragged, nonempty⟩ := (crcPasses_image inside).mp passes
    have bound := D.appEnd.isLt
    rw [words.2] at whole
    rw [words.1, words.2] at computed
    have sum := xipCrc32_coherent (opened.part ▸ coherent) whole (by rw [toNat]; omega) computed
    rw [toNat, opened.part] at sum
    exact .inl ⟨put32 v, rfl, (by decide : 5 ≤ maxPayload), opened, v, rfl,
      aligned, ragged, nonempty, sum⟩

theorem verify_triple (isSlot : IsSlot c₀.writeSlot)
    (active : c₀.activeSlot = slotNone ∨ c₀.activeSlot = otherSlot c₀.writeSlot)
    (room : c₀.writeSlot = slotB → D.Fits slotA) (coherent : Coherent D w₀) :
    Triple (portEnv D) D direct (∃ image, Passes D c₀ w₀.flash bundle image)
      (·.1 ∈ [cmdHello] ++ [cmdCrc]) (On (Heard c₀ w₀)) (verify (.bundle bundle))
      fun _ _ => ∃ image, Passes D c₀ w₀.flash bundle image := by
  have opened : Triple (portEnv D) D direct (∃ image, Passes D c₀ w₀.flash bundle image)
      (·.1 ∈ [cmdHello]) (On (Heard c₀ w₀)) (Flow.plain BootClient.hello)
      fun info b => On (Opened c₀ w₀) b ∧ info.val = reported D c₀ :=
    Triple.adapt (Triple.hello hello_performs fun ⟨image, passes⟩ =>
      parse_helloPayload isSlot active room passes.region)
  unfold verify
  refine opened.seq (fun ⟨info, usable⟩ => ?_) (by decide)
  apply Triple.assume _ (fun b post => post.2)
  rintro rfl
  -- three checks on the bundle alone: family, one other build, its region
  refine Triple.silently (fun _ b => On (Opened c₀ w₀) b ∧ (Source.bundle bundle).checkFamily
      D.chipFamily (reported D c₀).familyName = .ok ())
    (Triple.check (fun _ _ ⟨_, passes⟩ => ⟨(), passes.family⟩) fun _ _ family post =>
      ⟨post.1, family⟩) fun _ => ?_
  apply Triple.assume _ (fun b post => post.2)
  intro family
  refine Triple.silently (fun image b => On (Opened c₀ w₀) b ∧
      (bundle.images.filter fun i => i.base ≠ D.slotBase c₀.writeSlot) = [image])
    (Triple.check (fun _ _ ⟨image, passes⟩ => ⟨image, forRunningImage_eq_ok.mpr passes.sole⟩)
      fun _ _ found post => ⟨post.1, forRunningImage_eq_ok.mp found⟩) fun image => ?_
  apply Triple.assume _ (fun b post => post.2)
  intro sole
  have same : ∀ {other : Image}, Passes D c₀ w₀.flash bundle other → other = image :=
    fun passes => (List.cons.inj (passes.sole.symm.trans sole)).1
  refine Triple.silently (fun _ b => On (Opened c₀ w₀) b ∧ D.flashAppStart ≤ image.base ∧
      image.base.toNat + image.bytes.length ≤ D.appEnd.toNat)
    (Triple.check (fun _ _ ⟨other, passes⟩ => ?_) fun _ _ accepted post =>
      ⟨post.1, checkInRegion_eq_ok.mp accepted⟩) fun _ => ?_
  · obtain rfl := same passes
    exact ⟨(), checkInRegion_eq_ok.mpr passes.inside⟩
  apply Triple.assume _ (fun b post => post.2)
  intro inside
  -- the device answers with the CRC of the flash, so the comparison decides
  have summed : (∃ other, Passes D c₀ w₀.flash bundle other) →
      Summed w₀.flash image image.crc32 := by
    rintro ⟨other, passes⟩
    obtain rfl := same passes
    exact passes.summed
  refine Triple.last (((Triple.crc (crc_performs coherent inside summed)).adapt).mono (fun _ => id)
    (fun _ post => post.1) fun _ _ => id) fun v => ?_
  apply Triple.assume _ (fun b post => post.2)
  intro answer
  by_cases differs : v ≠ image.crc32
  · rw [if_pos differs]
    refine Triple.throw fun _ _ certain => differs ?_
    exact answer.sum.trans (summed certain).sum.symm
  · rw [if_neg differs]
    have agrees : v = image.crc32 := not_not.mp differs
    exact Triple.pure fun _ _ => ⟨image, family, sole, inside, agrees ▸ answer⟩

variable {f : Flash} {ls : List Label}

theorem Passes.verifies (direct : Bool) (passes : Passes D c w.flash bundle image)
    (reached : (machine D).Run (.off f) ls (.idle c w))
    (seen : D.crcLive = true ∨ w = .reset w.flash) :
    ∃ es s' l', (verify (.bundle bundle)).run.Exec (link (portEnv D) D direct) ⟨0⟩
      ⟨⟨c, w, false⟩, [], []⟩ es (.ok ()) s' l' := by
  have sound := (idle_sound reached).1
  have coherent : Coherent D w := seen.elim (coherent_of_crcLive · w) (· ▸ coherent_reset D _)
  obtain ⟨es, r, s', l', run, outcome⟩ := undisturbed direct (verify (.bundle bundle)).run ⟨0⟩
    ⟨⟨c, w, false⟩, [], []⟩ ⟨rfl, rfl⟩ rfl
  obtain ⟨asks, result⟩ := verify_triple sound.slot sound.active (frames_of_run reached).room coherent
    _ _ es r s' l' ⟨rfl, rfl⟩ ⟨rfl, rfl, rfl⟩ run
  have answered : Answered es := by
    rcases outcome with all | ⟨e, mem, k, ask, other⟩
    · exact fun e mem k ask => ⟨e, mem, ask, all e mem k ask⟩
    · refine absurd ?_ other
      have command := asks e mem k ask
      simp only [List.cons_append, List.nil_append, List.mem_cons, List.not_mem_nil, or_false]
        at command
      rcases command with hello | crc
      · rw [hello]
        exact ⟨by decide, by decide⟩
      · rw [crc]
        exact ⟨by decide, by decide⟩
  rcases result with ⟨_, rfl, -, -⟩ | ⟨_, -, unanswered⟩
  · exact ⟨es, s', l', run⟩
  · exact absurd answered (unanswered ⟨image, passes⟩)

/-- What an OK is to say: HELLO reports an active slot, the build is the one for that slot,
    and it is what the flash holds. -/
structure Vouched (D : Device) (c : Core) (f : Flash) (bundle : Bundle) : Prop where
  report : ∃ info, DeviceInfo.parse (helloPayload D c) = .ok info ∧ info.activeSlot ≠ slotIdNone
  build : ∃ image, (Source.bundle bundle).forRunningImage (D.slotBase c.writeSlot) = .ok image ∧
    image.base = D.slotBase c.activeSlot ∧
    crc32 (f.bytes image.base.toNat image.bytes.length) = image.crc32

/-- The build passes, and nothing runs it: no slot is active, or another is. -/
def Misled (D : Device) (c : Core) (f : Flash) (bundle : Bundle) : Prop :=
  ∃ image, Passes D c f bundle image ∧
    (c.activeSlot = slotNone ∨ image.base ≠ D.slotBase c.activeSlot)

/-- In any state between two frames, OK vouches for what is running exactly unless the only
    build for another base than the write slot's is in flash and nothing runs it. -/
theorem verify_vouches_iff (reached : (machine D).Run (.off f) ls (.idle c w))
    (seen : D.crcLive = true ∨ w = .reset w.flash) (bundle : Bundle) :
    (∀ direct s es s' l', (verify (.bundle bundle)).run.Exec (link (portEnv D) D direct) s
      ⟨⟨c, w, false⟩, [], []⟩ es (.ok ()) s' l' → Vouched D c w.flash bundle) ↔
      ¬ Misled D c w.flash bundle := by
  have sound := (idle_sound reached).1
  have room := (frames_of_run reached).room
  have coherent : Coherent D w := seen.elim (coherent_of_crcLive · w) (· ▸ coherent_reset D _)
  constructor
  · rintro vouches ⟨image, passes, astray⟩
    -- the flow would succeed on an undisturbed link, and so vouch for what it must not
    obtain ⟨es, s', l', run⟩ := passes.verifies false reached seen
    obtain ⟨⟨info, parsed, active⟩, other, found, base, -⟩ := vouches _ _ _ _ _ run
    obtain rfl : other = image :=
      (List.cons.inj ((forRunningImage_eq_ok.mp found).symm.trans passes.sole)).1
    rcases astray with none | elsewhere
    · rw [parse_helloPayload sound.slot sound.active room passes.region] at parsed
      obtain rfl := Except.ok.inj parsed
      exact active (if_pos none)
    · exact elsewhere base
  · intro sober direct s es s' l' run
    obtain ⟨-, outcome⟩ := verify_triple sound.slot sound.active room coherent s _ es _ s' l'
      ⟨rfl, rfl⟩ ⟨rfl, rfl, rfl⟩ run
    rcases outcome with ⟨_, -, -, image, passes⟩ | ⟨_, fails, -⟩
    swap
    · cases fails
    -- what the client never compares: that the image checked is in the active slot
    have known : ¬ (c.activeSlot = slotNone ∨ image.base ≠ D.slotBase c.activeSlot) :=
      fun astray => sober ⟨image, passes, astray⟩
    rw [not_or, not_not] at known
    refine ⟨⟨_, parse_helloPayload sound.slot sound.active room passes.region, ?_⟩, image,
      forRunningImage_eq_ok.mpr passes.sole, known.2, passes.summed.sum.symm⟩
    have isSlot : IsSlot c.activeSlot := (sound.active.resolve_left known.1) ▸ sound.slot.other
    change slotId c.activeSlot ≠ slotIdNone
    rw [slotId_eq isSlot]
    rcases isSlot with lower | upper
    · rw [lower]
      decide
    · rw [upper]
      decide

namespace Bench

def pair : Bundle := ⟨Device.ch570.chipFamily, [⟨0x2000, Bench.image⟩, ⟨0x1F000, Bench.image⟩]⟩

def unrecorded (D : Device) : Flash := programBytes blank (D.slotBase slotB) Bench.image

theorem pair_passes {slot : Word} (isSlot : IsSlot slot) (other : c.writeSlot = otherSlot slot)
    (content : f.bytes (Device.ch570.base slot) 4 = Bench.image) :
    Passes .ch570 c f pair ⟨Device.ch570.slotBase slot, Bench.image⟩ := by
  have sum : Host.hash Bench.image = crc32 (f.bytes (Device.ch570.base slot) 4) := by
    rw [Host.hash_eq, content]
  have words : 4 ∣ Bench.image.length := by decide
  refine ⟨rfl, ?_, ?_, ?_, words, List.cons_ne_nil _ _, sum⟩
  · rw [other]
    rcases isSlot with rfl | rfl
    · decide
    · decide
  · rcases isSlot with rfl | rfl
    · decide
    · decide
  · rcases isSlot with rfl | rfl
    · decide
    · decide

def holds (f : Flash) (slot : Word) (test : Core → Bool) : Bool :=
  (bench .ch570 unchecked f bootreqMagic []).any fun s =>
    decide (s.1.writeSlot = otherSlot slot ∧ s.1.recState = .flash ∧
      s.2.flash.bytes (Device.ch570.base slot) 4 = Bench.image) && test s.1

theorem passes_of_holds {slot : Word} {test : Core → Bool} (isSlot : IsSlot slot)
    (held : holds f slot test = true) :
    ∃ ls c w, (machine .ch570).Run (.off f) ls (.idle c w) ∧ w = .reset w.flash ∧
      c.writeSlot = otherSlot slot ∧
      Passes .ch570 c w.flash pair ⟨Device.ch570.slotBase slot, Bench.image⟩ ∧ test c = true := by
  obtain ⟨ls, c, w, reached, tested⟩ := bench_reach held
  simp only [Bool.and_eq_true, decide_eq_true_eq] at tested
  obtain ⟨⟨other, known, content⟩, tested⟩ := tested
  exact ⟨ls, c, w, reached, (idle_sound reached).1.untouched known, other,
    pair_passes isSlot other content, tested⟩

end Bench

/-- After a factory image has been run the flow succeeds, and vouches for it. -/
theorem verify_vouches_iff_factory : ∃ c w,
    (∃ ls, (machine .ch570).Run (.off (Bench.factory .ch570 Bench.image)) ls (.idle c w)) ∧
    (∃ es s' l', (verify (.bundle Bench.pair)).run.Exec (link (portEnv .ch570) .ch570 false) ⟨0⟩
      ⟨⟨c, w, false⟩, [], []⟩ es (.ok ()) s' l') ∧
    ∀ direct s es s' l', (verify (.bundle Bench.pair)).run.Exec (link (portEnv .ch570) .ch570 direct) s
      ⟨⟨c, w, false⟩, [], []⟩ es (.ok ()) s' l' → Vouched .ch570 c w.flash Bench.pair := by
  obtain ⟨ls, c, w, reached, untouched, -, passes, tested⟩ := Bench.passes_of_holds (.inl rfl)
    (by decide +kernel : Bench.holds (Bench.factory .ch570 Bench.image) slotA
      (fun c => decide (c.activeSlot = slotA)) = true)
  have active : c.activeSlot = slotA := of_decide_eq_true tested
  refine ⟨c, w, ⟨ls, reached⟩, passes.verifies false reached (.inr untouched),
    (verify_vouches_iff reached (.inr untouched) _).mpr ?_⟩
  rintro ⟨other, passes', astray⟩
  obtain rfl := (List.cons.inj (passes'.sole.symm.trans passes.sole)).1
  rw [active] at astray
  exact astray.elim (by decide) fun elsewhere => elsewhere rfl

/-- On a part that never committed an image, with one in slot B, the flow reports OK though
    no slot is active. -/
theorem verify_unvouched : ∃ f ls c w es s' l',
    (machine .ch570).Run (.off f) ls (.idle c w) ∧ w = .reset w.flash ∧
    (verify (.bundle Bench.pair)).run.Exec (link (portEnv .ch570) .ch570 false) ⟨0⟩
      ⟨⟨c, w, false⟩, [], []⟩ es (.ok ()) s' l' ∧
    c.activeSlot = slotNone ∧ ¬ Vouched .ch570 c w.flash Bench.pair := by
  obtain ⟨ls, c, w, reached, untouched, other, passes, tested⟩ := Bench.passes_of_holds (.inr rfl)
    (by decide +kernel : Bench.holds (Bench.unrecorded .ch570) slotB
      (fun c => decide (c.activeSlot = slotNone)) = true)
  have none : c.activeSlot = slotNone := of_decide_eq_true tested
  obtain ⟨es, s', l', run⟩ := passes.verifies false reached (.inr untouched)
  refine ⟨_, ls, c, w, es, s', l', reached, untouched, run, none, ?_⟩
  rintro ⟨⟨info, parsed, active⟩, -⟩
  have sound := (idle_sound reached).1
  rw [parse_helloPayload sound.slot sound.active (frames_of_run reached).room passes.region] at parsed
  obtain rfl := Except.ok.inj parsed
  exact active (if_pos none)

end OpenBoot
