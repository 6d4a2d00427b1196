import OpenBoot.Host.Maintenance
import OpenBoot.Wire.Sparing

/-! The bless flow over a lossy link, on flash with any fault: an OK means that a valid record
vouches for the image, and nothing but a record is ever touched. -/

set_option autoImplicit false

namespace OpenBoot

open Semantics Program Host

variable {E : Environment port World} {D : Device} {direct : Bool} {c c' c₀ : Core}
  {w w' w₀ : World} {es : List (Event port)} {resp pl : List Byte} {act : Action} {seq : Byte}
  {slot r len crc : Word} {record : BootRecord} {sure : Prop}

def Device.recordArea (D : Device) (slot : Word) : Set Nat :=
  Set.Ico (D.recordAt slot) (D.recordAt slot + D.block)

theorem Stores.spares (part : OnPart E D) (size : record.bytes.length = bootRecordSize)
    (stores : Stores E D slot record w es r w') :
    (D.recordArea slot)ᶜ.EqOn w'.flash w.flash := by
  have erases {x : Word} {w w' : World}
      (step : E.step w (.flashErase (D.slotRecordAddr slot) D.eraseBlock) x w') :
      (D.recordArea slot)ᶜ.EqOn w'.flash w.flash :=
    (part _ _ _ _ step).outside disjoint_compl_left
  have writes {x : Word} {w w' : World}
      (step : E.step w (.flashWrite (D.slotRecordAddr slot) record.bytes) x w') :
      (D.recordArea slot)ᶜ.EqOn w'.flash w.flash := by
    refine (part _ _ _ _ step).outside (Disjoint.mono_right ?_ disjoint_compl_left)
    refine Set.Ico_subset_Ico_right (Nat.add_le_add_left ?_ _)
    rw [size]
    exact D.record_fits
  cases stores with
  | outside => exact Set.eqOn_refl _ _
  | unerased erased => exact erases erased
  | unwritten erased written => exact (writes written).trans (erases erased)
  | verified erased written verified =>
    rw [(part _ _ _ _ verified).verify_inv]
    exact (writes written).trans (erases erased)

theorem Stores.faultless (part : OnPart E D) (faultless : Faultless E) (isSlot : IsSlot slot)
    (size : record.bytes.length = bootRecordSize) (stores : Stores E D slot record w es r w') :
    r = 0 := by
  cases stores with
  | outside high => exact absurd isSlot.lt_count (BitVec.not_lt.mpr high)
  | unerased erased fail => exact absurd (faultless.erase erased) fail
  | unwritten erased written fail => exact absurd (faultless.write written) fail
  | @verified _ w₁ w₂ _ erased written verified =>
    have blank : Nor.Erased erasedByte w₁.flash (D.slotRecordAddr slot).toNat bootRecordSize :=
      (part _ _ _ _ erased).erase_ok.1.mono (Nat.le_refl _) (Nat.add_le_add_left D.record_fits _)
    apply faultless.verify verified
    rw [(part _ _ _ _ written).write_ok]
    exact (blank.program size.le).read

/-- A record of this length and CRC was stored since the reset. -/
structure Recorded (len crc : Word) (c : Core) : Prop where
  fresh : c.recState = .fresh
  len : c.committedImgLen = len
  crc : c.committedImgCrc = crc

def commitFrame (len crc : Word) (seq : Byte) : Frame :=
  ⟨cmdCommit, seq, (commitReqPayload len crc).val, (commitReqPayload len crc).property⟩

theorem commitOf_frame : commitOf (commitFrame len crc seq).encode = some (len, crc) := by
  have read := (commitFrame len crc seq).encode_sealed []
  obtain ⟨trailer, rest⟩ := read.rest
  have request := read.request
  rw [List.append_nil] at request rest
  unfold commitOf
  rw [operandsOf_ok request, if_pos ⟨rfl, rfl⟩, rest]
  change some (get32 ((put32 len ++ put32 crc) ++ _), get32 (((put32 len ++ put32 crc) ++ _).drop 4)) = _
  rw [List.append_assoc, get32_put32_append]
  change some (len, get32 (put32 crc ++ _)) = _
  rw [get32_put32_append]

theorem Sound.accepts (sound : Sound D false c w) (new : ¬ Recorded len crc c)
    (run : (handleFrame D (commitFrame len crc seq).encode).Exec (portEnv D) c w es
      (okResp cmdCommit seq, .none) c' w') :
    AcceptsCommit D c w (commitFrame len crc seq).encode len crc := by
  have request := @commitOf_frame seq len crc
  cases wp_exec (handleFrame_wp sound) run with
  | kept unanswered => exact absurd (answeredOk_okResp _ _) (unanswered (by rw [request]; rfl))
  | replayed replay _ fresh same_len same_crc =>
    obtain ⟨rfl, rfl⟩ := Prod.mk.inj (Option.some.inj (request.symm.trans replay))
    exact absurd ⟨fresh, same_len, same_crc⟩ new
  | opened none => rw [none] at request; cases request
  | changed none => rw [none] at request; cases request
  | failed status => exact absurd (show ok = eFlash from status) (by decide)
  | committed accepted =>
    obtain ⟨rfl, rfl⟩ := Prod.mk.inj (Option.some.inj (request.symm.trans accepted.request))
    exact accepted

/-- How a COMMIT is served. It is refused or recognized, and nothing changes; or its record fails
    to be stored; or it stands, over an image with its CRC. -/
inductive Serves (E : Environment port World) (D : Device) (len crc : Word) (seq : Byte) (c : Core)
    (w : World) : List Byte → Core → World → Prop where
  | refused {status detail : Byte} : status ≠ ok →
      (c.s.session = true → Declined E D c w len crc 8 ∨
        ¬ Recorded len crc c ∧ (c.highestGen + 1 = 0xFFFFFFFF ∨ c.highestGen + 1 = 0)) →
      Serves E D len crc seq c w (errResp cmdCommit seq status detail) c w
  | again : Recorded len crc c → Serves E D len crc seq c w (okResp cmdCommit seq) c w
  | failed {resp : List Byte} {detail : Byte} {c' : Core} {w' : World} : ¬ Recorded len crc c →
      ¬ Faultless E → resp = errResp cmdCommit seq eFlash detail → c'.writeSlot = c.writeSlot →
      c'.recState = .invalid → (D.recordArea c.writeSlot)ᶜ.EqOn w'.flash w.flash →
      Serves E D len crc seq c w resp c' w'
  | stored {c' : Core} {w' : World} : ¬ Recorded len crc c → Recorded len crc c' →
      c'.activeSlot = c.writeSlot → c'.writeSlot = otherSlot c.writeSlot →
      (D.recordArea c.writeSlot)ᶜ.EqOn w'.flash w.flash → Attests D w'.flash c.writeSlot len crc →
      Serves E D len crc seq c w (okResp cmdCommit seq) c' w'

theorem commit_dispatched {n : Nat} (run : (dispatch D cmdCommit pl n seq).Exec E c w es (resp, act) c' w') :
    act = .none ∧ (c.s.session = false ∧ resp = errResp cmdCommit seq eState 0 ∧ c' = c ∧ w' = w ∨
      (doCommit D pl n seq).Exec E c w es resp c' w') := by
  have dispatched := dispatch_exec (q := ⟨cmdCommit, seq, pl, n⟩) run
  cases dispatched with
  | commit _ _ handled => exact ⟨rfl, .inr handled⟩
  | closed _ off => exact ⟨rfl, .inl ⟨off, rfl, rfl, rfl⟩⟩
  | unknown _ unguarded => exact absurd (.inr (.inr (.inr (.inr rfl)))) unguarded
  | hello other => exact absurd other (by decide : cmdCommit ≠ cmdHello)
  | boot other => exact absurd other (by decide : cmdCommit ≠ cmdBoot)
  | erase other => exact absurd other (by decide : cmdCommit ≠ cmdErase)
  | write other => exact absurd other (by decide : cmdCommit ≠ cmdWrite)
  | crc other => exact absurd other (by decide : cmdCommit ≠ cmdCrc)

theorem commit_serves (part : OnPart E D) (sound : Sound D false c w)
    (run : (dispatch D cmdCommit (commitReqPayload len crc).val 8 seq).Exec E c w es (resp, act)
      c' w') :
    act = .none ∧ Sound D false c' w' ∧ (c.s.session = true → c'.s.session = true) ∧
      Serves E D len crc seq c w resp c' w' := by
  obtain ⟨rfl, handled⟩ := commit_dispatched run
  obtain ⟨after, still⟩ := sound.served part (commitReqPayload len crc).property run
  refine ⟨rfl, after, still, ?_⟩
  rcases handled with ⟨closed, rfl, rfl, rfl⟩ | handled
  · exact .refused (by decide) fun session => absurd (closed.symm.trans session) (by decide)
  have served : (handleFrame D (commitFrame len crc seq).encode).Exec (portEnv D) c w es
      (resp, .none) c' w' := by
    have framed := handleFrame_encode D (commitFrame len crc seq) []
    rw [List.append_nil] at framed
    rw [framed]
    exact part.exec run
  have words : get32 (commitReqPayload len crc).val = len ∧
      get32 ((commitReqPayload len crc).val.drop 4) = crc := get32_words _ _
  have outcome := doCommit_exec part.silent handled
  rw [words.1, words.2] at outcome
  rcases outcome with ⟨declined, ⟨rfl, rfl, -⟩, status, detail, bad, rfl⟩ |
    ⟨-, ⟨rfl, rfl, -⟩, rfl, fresh, same_len, same_crc⟩ | ⟨-, sealed⟩
  · exact .refused bad fun _ => .inl declined
  · exact .again ⟨fresh, same_len, same_crc⟩
  have new : ¬ Recorded len crc c := fun old => sealed.unreplayed ⟨old.fresh, old.len, old.crc⟩
  obtain ⟨es₁, es₂, -, -, commits⟩ := sealed.commits
  cases commits with
  | exhausted ceiling => exact .refused (by decide) fun _ => .inr ⟨new, ceiling⟩
  | failed stores fail =>
    exact .failed new (fun faultless => fail (stores.faultless part faultless sound.slot
      BootRecord.sealed_bytes_length)) rfl rfl rfl (stores.spares part BootRecord.sealed_bytes_length)
  | stored stores =>
    have spares := stores.spares part BootRecord.sealed_bytes_length
    refine .stored new ⟨rfl, rfl, rfl⟩ rfl rfl spares ?_
    -- the CRC was that of the image when the frame arrived, and the image was not touched
    have accepted := sound.accepts new served
    have top := accepted.geometry.toNat_le sound.slot accepted.geometry.fits
    have apart : Set.Ico (D.base c.writeSlot) (D.base c.writeSlot + len.toNat) ⊆
        (D.recordArea c.writeSlot)ᶜ :=
      fun x image area => absurd (image.2.trans_le top) (Nat.not_lt.mpr area.1)
    exact accepted.attests.congr (spares.mono apart)

/-- The slot is still to be written; if its record could not be, COMMIT forgot the last one. -/
structure Offers (E : Environment port World) (D : Device) (c₀ : Core) (w₀ : World) (c : Core)
    (w : World) : Prop where
  sound : Sound D false c w
  session : c.s.session = true
  slot : c.writeSlot = c₀.writeSlot
  since : Greeted D c₀ w₀ c w ∨ ¬ Faultless E ∧ c.recState = .invalid

/-- A record stands: of the slot's image, or from an earlier COMMIT of the same. -/
structure Standing (D : Device) (c₀ : Core) (w₀ : World) (len crc : Word) (c : Core) (w : World) : Prop where
  sound : Sound D false c w
  session : c.s.session = true
  recorded : Recorded len crc c
  since : c.activeSlot = c₀.writeSlot ∧ Attests D w.flash c₀.writeSlot len crc ∨
    Greeted D c₀ w₀ c w

/-- What COMMIT needs of an image to be blessed: it lies in flash, the core can read it, and it can
    be sealed. -/
structure Blessable (D : Device) (c : Core) (w : World) (data : List Byte) : Prop where
  bytes : w.flash.bytes (D.base c.writeSlot) data.length = data
  xip : attestViaXip D c = true
  sealable : Sealable D c.highestGen data

theorem Blessable.accepted {data : List Byte} (blessable : Blessable D c₀ w₀ data) (part : OnPart E D)
    (small : data.length < 2 ^ 32) (fits : D.Fits c₀.writeSlot)
    (inside : D.base c₀.writeSlot + data.length ≤ D.recordAt c₀.writeSlot)
    (greeted : Greeted D c₀ w₀ c w) :
    ¬ Declined E D c w (BitVec.ofNat 32 data.length) (crc32 data) 8 := by
  have slot : c.writeSlot = c₀.writeSlot := by rw [greeted.core]
  have toNat : (BitVec.ofNat 32 data.length).toNat = data.length := by
    rw [BitVec.toNat_ofNat, Nat.mod_eq_of_lt small]
  have isSlot := greeted.sound.slot
  have limit := recordAt_bound (D := D) isSlot
  have reads : attestViaXip D c = true := by
    rw [greeted.core]
    exact blessable.xip
  have whole : BitVec.ofNat 32 data.length % 4 = 0 :=
    word_mod_eq_zero (toNat.symm ▸ blessable.sealable.words)
  -- each way to decline is one thing the image was said to have
  intro declined
  cases declined with
  | shape bad =>
    rcases bad with size | zero | ragged
    · exact size rfl
    · rw [zero] at toNat
      exact blessable.sealable.nonempty (List.length_eq_zero_iff.mp toNat.symm)
    · exact ragged whole
  | room large =>
    have cap := D.capacity_eq (slot ▸ isSlot) fits
    rw [gt_iff_lt, BitVec.lt_def, toNat, slot] at large
    omega
  | stream _ unread =>
    rw [reads] at unread
    cases unread
  | @read _ crc _ _ computed differs =>
    -- the core reads what is in flash: views are live, or nothing was touched
    have coherent : Coherent D w := by
      simp only [attestViaXip, Bool.or_eq_true, decide_eq_true_eq] at reads
      rcases reads with live | flash
      · exact coherent_of_crcLive live _
      · rw [greeted.sound.untouched flash]
        exact coherent_reset _ _
    have bound : (D.slotBase c.writeSlot).toNat + (BitVec.ofNat 32 data.length).toNat < 2 ^ 32 := by
      rw [toNat, slot]
      rw [slot] at limit
      change D.base c₀.writeSlot + _ < _
      omega
    have answer := xipCrc32_coherent coherent whole bound (part.exec computed)
    rw [toNat, slot, greeted.world] at answer
    exact differs (answer.trans (congrArg crc32 blessable.bytes))

theorem Standing.accepted (h : Standing D c₀ w₀ len crc c w) (both : D.Fits slotB) :
    ¬ Declined E D c w len crc 8 := by
  obtain ⟨nonzero, whole, room⟩ := (h.sound.fresh h.recorded.fresh).replay_fits h.sound.slot
  rw [h.recorded.len] at nonzero whole room
  intro declined
  cases declined with
  | shape bad =>
    rcases bad with size | zero | ragged
    · exact size rfl
    · exact nonzero zero
    · exact ragged whole
  | room large => exact absurd (room.mpr both) (BitVec.not_le.mpr large)
  | read unreplayed => exact unreplayed ⟨h.recorded.fresh, h.recorded.len, h.recorded.crc⟩
  | stream unreplayed => exact unreplayed ⟨h.recorded.fresh, h.recorded.len, h.recorded.crc⟩

theorem bless_performs {data : List Byte} (part : OnPart E D)
    (certain : sure → Faultless E ∧ Blessable D c₀ w₀ data ∧ data.length < 2 ^ 32 ∧
      D.Fits c₀.writeSlot ∧ D.base c₀.writeSlot + data.length ≤ D.recordAt c₀.writeSlot) :
    Performs E D cmdCommit (commitReqPayload (BitVec.ofNat 32 data.length) (crc32 data)).val
      (fun c w => Offers E D c₀ w₀ c w ∨
        Standing D c₀ w₀ (BitVec.ofNat 32 data.length) (crc32 data) c w)
      (Standing D c₀ w₀ (BitVec.ofNat 32 data.length) (crc32 data)) (fun _ => True) sure where
  request := by decide
  serve := by
    intro c c' w w' seq es resp act start run
    have sound : Sound D false c w := start.elim Offers.sound Standing.sound
    have session : c.s.session = true := start.elim Offers.session Standing.session
    obtain ⟨rfl, sound', still, serves⟩ := commit_serves part sound run
    have session' := still session
    cases serves with
    -- refused where it must succeed: the image was fine, or it was committed before
    | @refused status detail bad why =>
      have declined := why session
      refine ⟨start, id, status, [detail], rfl, (by decide : 2 ≤ maxPayload),
        fun same => absurd same bad, fun h => ?_⟩
      obtain ⟨faultless, blessable, small, fits, inside⟩ := certain h
      exfalso
      rcases start with offers | standing
      · have greeted := offers.since.resolve_right fun faults => faults.1 faultless
        rcases declined with declined | ⟨-, top | wrapped⟩
        · exact blessable.accepted part small fits inside greeted declined
        · rw [greeted.core] at top
          exact blessable.sealable.below.2 top
        · rw [greeted.core] at wrapped
          exact blessable.sealable.below.1 wrapped
      · rcases declined with declined | ⟨new, -⟩
        · exact standing.accepted blessable.sealable.both declined
        · exact new standing.recorded
    -- a replay; the record is that of before the flow, or of an earlier delivery
    | again recorded =>
      have standing : Standing D c₀ w₀ (BitVec.ofNat 32 data.length) (crc32 data) c w := by
        rcases start with offers | standing
        · refine ⟨sound, session, recorded, .inr (offers.since.resolve_right ?_)⟩
          rintro ⟨-, forgotten⟩
          rw [recorded.fresh] at forgotten
          cases forgotten
        · exact standing
      exact ⟨.inr standing, id, ok, [], rfl, by decide, fun _ => ⟨standing, trivial⟩, fun _ => rfl⟩
    -- the record write failed, so the part has faults and nothing was promised
    | @failed _ detail _ _ new faults resp slot forgotten =>
      subst resp
      have offers := start.resolve_right fun standing => new standing.recorded
      exact ⟨.inl ⟨sound', session', slot.trans offers.slot, .inr ⟨faults, forgotten⟩⟩,
        fun standing => absurd standing.recorded new, eFlash, [detail], rfl,
        (by decide : 2 ≤ maxPayload), fun same => absurd same (by decide),
        fun h => absurd (certain h).1 faults⟩
    | stored new recorded active _ _ attests =>
      have offers := start.resolve_right fun standing => new standing.recorded
      have standing : Standing D c₀ w₀ (BitVec.ofNat 32 data.length) (crc32 data) c' w' :=
        ⟨sound', session', recorded, .inl ⟨active.trans offers.slot, offers.slot ▸ attests⟩⟩
      exact ⟨.inr standing, fun _ => standing, ok, [], rfl, by decide, fun _ => ⟨standing, trivial⟩,
        fun _ => rfl⟩

/-- An image that the host takes for the slot the device writes. -/
structure Offered (D : Device) (source : Source) (c : Core) (image : Image) : Prop where
  family : source.checkFamily (reported D c).chipFamily (reported D c).familyName = .ok ()
  chosen : source.forBase (reported D c).writeBase "device write" = .ok image
  committable : checkCommittable (reported D c) image = .ok ()

theorem offered_single {image : Image} (base : image.base = D.slotBase c.writeSlot)
    (fits : D.Fits c.writeSlot) (room : image.bytes.length ≤ (D.slotCapacity c.writeSlot).toNat) :
    Offered D (.single image) c image :=
  ⟨rfl, rfl, checkCommittable_eq_ok.mpr ⟨base, fits, room⟩⟩

def commitOfImage (image : Image) : Byte × List Byte :=
  (cmdCommit, (commitReqPayload (BitVec.ofNat 32 image.bytes.length) image.crc32).val)

theorem blessFlow_triple {source : Source} (part : OnPart E D) (isSlot : IsSlot c₀.writeSlot)
    (active : c₀.activeSlot = slotNone ∨ c₀.activeSlot = otherSlot c₀.writeSlot)
    (room : c₀.writeSlot = slotB → D.Fits slotA) :
    Triple E D direct
      (Faultless E ∧ ∃ image, Offered D source c₀ image ∧ Blessable D c₀ w₀ image.bytes)
      (fun k => k.1 ∈ [cmdHello] ∨ ∃ image, Offered D source c₀ image ∧ k = commitOfImage image)
      (On (Greeted D c₀ w₀)) (Host.bless source)
      fun _ b => ∃ image, Offered D source c₀ image ∧
        On (Standing D c₀ w₀ (BitVec.ofNat 32 image.bytes.length) image.crc32) b := by
  -- the HELLO parses only where the slot has an application region
  have region {image : Image} (offered : Offered D source c₀ image) : D.Fits c₀.writeSlot ∧
      D.base c₀.writeSlot + image.bytes.length ≤ D.recordAt c₀.writeSlot := by
    obtain ⟨-, window, high⟩ := checkCommittable_eq_ok.mp offered.committable
    have fits : D.Fits c₀.writeSlot := window
    refine ⟨fits, ?_⟩
    rw [← D.capacity_eq isSlot fits]
    exact Nat.add_le_add_left high _
  have opened : Triple E D direct
      (Faultless E ∧ ∃ image, Offered D source c₀ image ∧ Blessable D c₀ w₀ image.bytes)
      (·.1 ∈ [cmdHello]) (On (Greeted D c₀ w₀)) (Flow.plain BootClient.hello)
      fun info b => On (fun c w => Greeted D c₀ w₀ c w ∧ c.s.session = true) b ∧
        info.val = reported D c₀ :=
    greet_triple fun ⟨_, image, offered, _⟩ =>
      parse_helloPayload isSlot active room (region_of_fits isSlot (region offered).1)
  unfold Host.bless
  refine opened.bind (fun ⟨info, usable⟩ => ?_) ?_
  swap
  · rintro _ hello ⟨image, -, rfl⟩
    exact absurd hello (by decide : cmdCommit ∉ [cmdHello])
  apply Triple.assume _ (fun b post => post.2)
  rintro rfl
  -- three checks that send nothing; each narrows what is known of the image
  refine Triple.silently (fun _ b => On (fun c w => Greeted D c₀ w₀ c w ∧ c.s.session = true) b ∧
      source.checkFamily (reported D c₀).chipFamily (reported D c₀).familyName = .ok ())
    (Triple.check (fun _ _ ⟨_, _, offered, _⟩ => ⟨(), offered.family⟩) fun _ _ passed post =>
      ⟨post.1, passed⟩) fun _ => ?_
  apply Triple.assume _ (fun b post => post.2)
  intro family
  refine Triple.silently (fun image b => On (fun c w => Greeted D c₀ w₀ c w ∧ c.s.session = true) b ∧
      source.forBase (reported D c₀).writeBase "device write" = .ok image)
    (Triple.check (fun _ _ ⟨_, image, offered, _⟩ => ⟨image, offered.chosen⟩) fun _ _ found post =>
      ⟨post.1, found⟩) fun image => ?_
  apply Triple.assume _ (fun b post => post.2)
  intro found
  have only {other : Image} (offered : Offered D source c₀ other) : other = image :=
    Except.ok.inj (offered.chosen.symm.trans found)
  refine Triple.silently (fun _ b => On (fun c w => Greeted D c₀ w₀ c w ∧ c.s.session = true) b ∧
      Offered D source c₀ image)
    (Triple.check (fun _ _ ⟨_, other, offered, _⟩ => ⟨(), only offered ▸ offered.committable⟩)
      fun _ _ passed post => ⟨post.1, family, found, passed⟩) fun _ => ?_
  apply Triple.assume _ (fun b post => post.2)
  intro offered
  obtain ⟨fits, inside⟩ := region offered
  have limit := recordAt_bound (D := D) isSlot
  -- COMMIT may be answered by a later delivery than the one that stored it
  have commits : Performs E D cmdCommit
      (commitReqPayload (BitVec.ofNat 32 image.bytes.length) (crc32 image.bytes)).val
      (fun c w => Offers E D c₀ w₀ c w ∨
        Standing D c₀ w₀ (BitVec.ofNat 32 image.bytes.length) (crc32 image.bytes) c w)
      (Standing D c₀ w₀ (BitVec.ofNat 32 image.bytes.length) (crc32 image.bytes)) (fun _ => True)
      (Faultless E ∧ ∃ image, Offered D source c₀ image ∧ Blessable D c₀ w₀ image.bytes) :=
    bless_performs part fun ⟨faultless, other, same, blessable⟩ =>
      ⟨faultless, only same ▸ blessable, by omega, fits, inside⟩
  rw [← hash_eq] at commits
  have asks : Triple E D direct
      (Faultless E ∧ ∃ image, Offered D source c₀ image ∧ Blessable D c₀ w₀ image.bytes)
      (· = commitOfImage image) (On fun c w => Offers E D c₀ w₀ c w)
      (BootClient.commit (BitVec.ofNat 32 image.bytes.length) image.crc32)
      fun _ => On (Standing D c₀ w₀ (BitVec.ofNat 32 image.bytes.length) image.crc32) :=
    Triple.command commits retries
  refine asks.adapt.mono (fun k same => ⟨image, offered, same⟩) ?_ fun _ b standing =>
    ⟨image, offered, standing⟩
  rintro b ⟨⟨greeted, session⟩, -⟩
  exact ⟨greeted.sound, session, by rw [greeted.core], .inl greeted⟩

theorem recordArea.serves (c₀ : Core) (w₀ : World) (source : Source) (part : OnPart E D) :
    Duplex.Keeps (medium E D)
      (On fun c w => Sound D false c w ∧
        (c.writeSlot = c₀.writeSlot ∨ ∃ image, Offered D source c₀ image ∧
          Recorded (BitVec.ofNat 32 image.bytes.length) image.crc32 c) ∧
        (D.recordArea c₀.writeSlot)ᶜ.EqOn w.flash w₀.flash)
      (Requests fun k => k.1 ∈ [cmdHello] ∨
        ∃ image, Offered D source c₀ image ∧ k = commitOfImage image) := by
  refine requests_keep ?_
  rintro ⟨cmd, seq, payload, fits⟩ c c' w w' es resp act asked ⟨sound, roles, same⟩ run
  rcases asked with hello | ⟨image, offered, commit⟩
  · obtain rfl := List.mem_singleton.mp hello
    obtain ⟨-, handled⟩ : _ ∧ (doHello D payload payload.length seq).Exec _ c w es resp c' w' :=
      dispatch_handled (.inl rfl) (.inl rfl) run
    rcases doHello_exec handled with ⟨-, ⟨rfl, rfl, -⟩, -⟩ | ⟨-, -, rfl, rfl, -⟩
    · exact ⟨sound, roles, same⟩
    · exact ⟨sound.sessionOpen, roles.imp id fun ⟨image, offered, known⟩ =>
        ⟨image, offered, known.fresh, known.len, known.crc⟩, same⟩
  obtain ⟨rfl, rfl⟩ := Prod.mk.inj commit
  obtain ⟨-, sound', -, serves⟩ := commit_serves part sound run
  -- a COMMIT that stores comes before any other did, so it writes the slot it was meant for
  have here (new : ¬ Recorded (BitVec.ofNat 32 image.bytes.length) image.crc32 c) :
      c.writeSlot = c₀.writeSlot := by
    refine roles.resolve_right fun ⟨other, chosen, known⟩ => new ?_
    obtain rfl : other = image := Except.ok.inj (chosen.chosen.symm.trans offered.chosen)
    exact known
  cases serves with
  | refused => exact ⟨sound, roles, same⟩
  | again => exact ⟨sound, roles, same⟩
  | failed new _ _ slot _ spares =>
    rw [here new] at spares slot
    exact ⟨sound', .inl slot, spares.trans same⟩
  | stored new recorded _ _ spares =>
    rw [here new] at spares
    exact ⟨sound', .inr ⟨image, offered, recorded⟩, spares.trans same⟩

/-- The bless flow, over a link that loses, delays and damages frames, on flash with any fault.
    An OK means that a valid record has the length and CRC of the image chosen for the slot:
    on that slot, whose content has this CRC, or, where the same was committed since the reset, on
    the active slot, and then nothing changed. Whatever the outcome, and whatever arrives after it,
    nothing but the record of the slot was touched. On flash without faults an image that can be
    blessed is, if of the attempts at each command one was answered. -/
theorem bless_attests {f : Flash} {ls : List Label} {source : Source} {s s' : BootClient} {l' : Link}
    {es : List (Event transport)} {r : Except FlowError Unit} (part : OnPart E D)
    (reached : (machine D).Run (.off f) ls (.idle c w))
    (run : (Host.bless source).run.Exec (link E D direct) s ⟨⟨c, w, false⟩, [], []⟩ es r s' l') :
    (r = .ok () → ∃ image slot record, Offered D source c image ∧
      recordOn D l'.server.world.flash slot = some record ∧
      record.imgLen = BitVec.ofNat 32 image.bytes.length ∧ record.imgCrc32 = image.crc32 ∧
      (slot = c.writeSlot ∧ Attests D l'.server.world.flash slot record.imgLen record.imgCrc32 ∨
        slot = c.activeSlot ∧ l'.server.world = w ∧
          Recorded (BitVec.ofNat 32 image.bytes.length) image.crc32 c)) ∧
    (∀ l'', Relation.ReflTransGen (Duplex.Moves (medium E D)) l' l'' →
      (D.recordArea c.writeSlot)ᶜ.EqOn l''.server.world.flash w.flash) ∧
    (Faultless E → (∃ image, Offered D source c image ∧ Blessable D c w image.bytes) →
      Answered es → r = .ok ()) := by
  have sound := (idle_sound reached).1
  obtain ⟨asks, outcome⟩ := blessFlow_triple part sound.slot sound.active (frames_of_run reached).room
    s _ es r s' l' ⟨rfl, rfl⟩ (Greeted.start sound) run
  have serves := recordArea.serves c w source part
  -- what is sent can only touch the record, now or when it arrives later
  have guarded := exec_guarded serves run asks
    (.quiet ⟨rfl, rfl⟩ ⟨sound, .inl rfl, Set.eqOn_refl _ _⟩)
  refine ⟨?_, fun l'' after => (guarded.later serves after).inv.2.2, ?_⟩
  · rcases outcome with ⟨_, rfl, -, image, offered, standing⟩ | ⟨err, rfl, -⟩
    · intro _
      -- the record is known by the replay key, which outlives the answer
      obtain ⟨record, found, -, len, crc⟩ := (standing.sound.fresh standing.recorded.fresh).record
      rw [standing.recorded.len] at len
      rw [standing.recorded.crc] at crc
      refine ⟨image, _, record, offered, found, len, crc, ?_⟩
      rw [len, crc]
      refine standing.since.imp (fun ⟨active, attests⟩ => ⟨active, active ▸ attests⟩) fun greeted => ?_
      refine ⟨by rw [greeted.core], greeted.world, ?_⟩
      have recorded := standing.recorded
      rw [greeted.core] at recorded
      exact ⟨recorded.fresh, recorded.len, recorded.crc⟩
    · exact nofun
  · rcases outcome with ⟨_, rfl, -⟩ | ⟨err, rfl, unanswered⟩
    · exact fun _ _ _ => rfl
    · exact fun faultless chosen answered => absurd answered (unanswered ⟨faultless, chosen⟩)

/-- An image in slot B is blessed, the first answer to COMMIT lost; only a record was written. -/
theorem bless_attests_lossy : ∃ c w es l,
    (∃ f ls, (machine .ch570).Run (.off f) ls (.idle c w)) ∧ c.writeSlot = slotB ∧
      (∃ e ∈ es, ¬ Completed e) ∧
      (∃ s', (Host.bless (.single ⟨Device.ch570.slotBase slotB, Bench.longImage⟩)).run.Exec
        (link (faultFree .ch570 (simulatedView .ch570)) .ch570 false) ⟨3⟩ ⟨⟨c, w, false⟩, [], []⟩
        es (.ok ()) s' l) ∧
      (∃ slot record, recordOn .ch570 l.server.world.flash slot = some record ∧
        record.imgCrc32 = crc32 Bench.longImage) ∧
      (Device.ch570.recordArea slotB)ᶜ.EqOn l.server.world.flash w.flash := by
  -- the bench is factory programmed, with the image in slot B but not its record
  have passes : (Bench.bench .ch570 Bench.unchecked
      (programBytes (Bench.factory .ch570 Bench.image) (Device.ch570.slotBase slotB) Bench.longImage)
      bootreqMagic []).any (fun s =>
        let out := (Host.bless (.single ⟨Device.ch570.slotBase slotB, Bench.longImage⟩)).run.run
          (lossy .ch570 Bench.everyFourth false) ⟨3⟩ ⟨⟨s.1, s.2, false⟩, [], []⟩
        decide (s.1.writeSlot = slotB ∧ s.1.highestGen = 1 ∧ s.1.recState = .flash) &&
          (decide (s.2.flash.bytes (Device.ch570.base slotB) 60 = Bench.longImage) &&
          (decide (Answered out.1) && decide (∃ e ∈ out.1, ¬ Completed e)))) = true := by
    decide +kernel
  obtain ⟨ls, c, w, reached, tested⟩ := Bench.bench_reach passes
  simp only [Bool.and_eq_true, decide_eq_true_eq] at tested
  obtain ⟨⟨slot, gen, rec_⟩, bytes, answered, lost⟩ := tested
  have run := Program.exec_run (lossy_sound .ch570 Bench.everyFourth false)
    (Host.bless (.single ⟨Device.ch570.slotBase slotB, Bench.longImage⟩)).run ⟨3⟩ ⟨⟨c, w, false⟩, [], []⟩
  generalize (Host.bless (.single ⟨Device.ch570.slotBase slotB, Bench.longImage⟩)).run.run
    (lossy .ch570 Bench.everyFourth false) ⟨3⟩ ⟨⟨c, w, false⟩, [], []⟩ = out at run answered lost
  obtain ⟨es, r, s', l⟩ := out
  have offered : Offered .ch570 (.single ⟨Device.ch570.slotBase slotB, Bench.longImage⟩) c
      ⟨Device.ch570.slotBase slotB, Bench.longImage⟩ :=
    offered_single (by rw [slot]) (by rw [slot]; decide) (by rw [slot]; decide)
  have blessable : Blessable .ch570 c w Bench.longImage := by
    refine ⟨slot ▸ bytes, ?_, by decide, by decide, by decide, ?_⟩
    · unfold attestViaXip
      rw [rec_]
      decide
    · rw [gen]
      decide
  obtain ⟨stands, spared, succeeds⟩ := bless_attests faultFree_onPart reached run
  -- that the flow succeeds is what the theorem promises, not what was evaluated
  obtain rfl := succeeds faultFree_faultless ⟨_, offered, blessable⟩ answered
  obtain ⟨image, slot', record, chosen, found, -, crc, -⟩ := stands rfl
  obtain rfl := Except.ok.inj chosen.chosen
  rw [slot] at spared
  exact ⟨c, w, es, l, ⟨_, ls, reached⟩, slot, lost, ⟨s', run⟩,
    ⟨slot', record, found, crc.trans (hash_eq _)⟩, spared _ .refl⟩

end OpenBoot
