import OpenBoot.Host.Client
import OpenBoot.Update.Retry
import OpenBoot.Wire.Duplicates
import OpenBoot.Wire.Report

/-! What each command of an update does to the core, on flash without faults: the
phases of an update, and how every command leads from one to the next. -/

set_option autoImplicit false

namespace OpenBoot

open Semantics Program Host

variable {D : Device} {shown : World → Word → Word} {target gen : Word} {c c' : Core} {w w' : World}
  {es : List (Event port)} {resp : List Byte} {act : Action} {seq : Byte} {cmd : Byte}
  {payload : Payload} {data : List Byte} {n m off stop : Nat}

theorem Sound.dispatch (payload : Payload) (sound : Sound D false c w) (session : c.s.session = true)
    (run : (dispatch D cmd payload.val payload.val.length seq).Exec (faultFree D shown) c w es
      (resp, .none) c' w') : Sound D false c' w' ∧ c'.s.session = true := by
  have framed := handleFrame_encode D ⟨cmd, seq, payload.val, payload.property⟩ []
  have served : (OpenBoot.dispatch D cmd payload.val payload.val.length seq).Exec (portEnv D) c w es
      (resp, .none) c' w' := run.mono fun _ _ _ _ step => step.1
  rw [← framed] at served
  exact ⟨sound.frame served, session_lasts sound session served⟩

theorem mutationBegin_once {r : Word} (isSlot : IsSlot c.writeSlot)
    (run : (mutationBegin D).Exec (faultFree D shown) c w es r c' w') :
    r = 0 ∧ c'.s = { c.s with disarmed := true } ∧ c'.writeSlot = c.writeSlot ∧
      c'.highestGen = c.highestGen ∧ (D.imageArea c.writeSlot).EqOn w'.flash w.flash := by
  rcases mutationBegin_exec run with ⟨on, zero, -, rfl, rfl⟩ | ⟨-, -, step, rfl⟩
  · refine ⟨zero, ?_, rfl, rfl, Set.eqOn_refl _ _⟩
    rw [← on]
  · obtain ⟨rfl, flash⟩ := erase_once step
    refine ⟨rfl, rfl, rfl, rfl, ?_⟩
    rw [flash]
    exact Nor.erase_eqOn fun a mem => .inl mem.2

theorem Stores.once {record : BootRecord} {r slot : Word} (isSlot : IsSlot slot)
    (fits : record.bytes.length = bootRecordSize)
    (stores : Stores (faultFree D shown) D slot record w es r w') :
    r = 0 ∧ (D.imageArea slot).EqOn w'.flash w.flash := by
  have away : ∀ {x : Word} {w₁ : World}, (faultFree D shown).step w
      (.flashErase (D.slotRecordAddr slot) D.eraseBlock) x w₁ →
      (D.imageArea slot).EqOn w₁.flash w.flash := by
    intro x w₁ step
    rw [(erase_once step).2]
    exact Nor.erase_eqOn fun a mem => .inl mem.2
  cases stores with
  | outside high => exact absurd isSlot.lt_count (BitVec.not_lt.mpr high)
  | unerased erased fail => exact absurd (erase_once erased).1 fail
  | unwritten erased written fail => exact absurd (write_once written).1 fail
  | @verified _ w₁ w₂ _ erased written verified =>
    have blank : Nor.Erased erasedByte w₁.flash (D.slotRecordAddr slot).toNat bootRecordSize := by
      rw [(erase_once erased).2]
      exact Nor.erase_erased.mono (Nat.le_refl _) (Nat.add_le_add_left D.record_fits _)
    obtain ⟨-, flash⟩ := write_once written
    obtain ⟨still, equal⟩ := verify_once verified
    constructor
    · apply equal.mpr
      rw [flash]
      exact (blank.program fits.le).read
    · rw [still, flash]
      exact (Nor.program_eqOn fun a mem => .inl mem.2).trans (away erased)

/-- A range of whole blocks is erased when each of its blocks is. -/
theorem erased_iff_blocks {f : Flash} {lo size : Nat} (low : D.block ∣ lo) (whole : D.block ∣ size)
    (bound : lo + size ≤ 2 ^ 32) : Nor.Erased erasedByte f lo size ↔
      ∀ a : Word, D.block ∣ a.toNat → lo ≤ a.toNat → a.toNat + D.block ≤ lo + size →
        BlockErased D f a := by
  constructor
  · exact fun erased a _ above below => erased.mono above below
  · intro blocks x above below
    have pos := D.block_pos
    -- the block the byte lies in
    have start : x / D.block * D.block ≤ x := Nat.div_mul_le_self x D.block
    have stop : x < x / D.block * D.block + D.block := Nat.lt_div_mul_add pos
    have first : lo ≤ x / D.block * D.block := by
      obtain ⟨k, rfl⟩ := low
      rw [Nat.mul_comm D.block k]
      apply Nat.mul_le_mul_right
      rw [Nat.le_div_iff_mul_le pos, Nat.mul_comm]
      exact above
    have last : x / D.block * D.block + D.block ≤ lo + size := by
      obtain ⟨k, total⟩ := Nat.dvd_add low whole
      rw [total] at below ⊢
      rw [← Nat.succ_mul, Nat.mul_comm D.block k]
      apply Nat.mul_le_mul_right
      exact Nat.div_lt_of_lt_mul below
    have toNat : (BitVec.ofNat 32 (x / D.block * D.block)).toNat = x / D.block * D.block := by
      rw [BitVec.toNat_ofNat, Nat.mod_eq_of_lt (by omega)]
    have erased := blocks (BitVec.ofNat 32 (x / D.block * D.block))
    rw [toNat] at erased
    refine erased (Nat.dvd_mul_left _ _) first last x ?_ ?_
    · rw [toNat]
      exact start
    · rw [toNat]
      exact stop

theorem mem_strided_of_block {a x : Word} {k : Nat} (aligned : D.block ∣ a.toNat)
    (at_x : D.block ∣ x.toNat) (above : a.toNat ≤ x.toNat)
    (below : x.toNat + D.block ≤ a.toNat + k * D.block) : x ∈ strided a D.eraseBlock k := by
  have pos := D.block_pos
  obtain ⟨i, offset⟩ : D.block ∣ x.toNat - a.toNat := Nat.dvd_sub at_x aligned
  rw [Nat.mul_comm] at offset
  have inside : i < k := by
    by_contra far
    have := Nat.mul_le_mul_right D.block (Nat.not_lt.mp far)
    omega
  refine List.mem_map.mpr ⟨i, List.mem_range.mpr inside, ?_⟩
  apply BitVec.eq_of_toNat_eq
  have bound := x.isLt
  have step : i * D.eraseBlock.toNat = x.toNat - a.toNat := offset.symm
  have small : i ≤ i * D.block := Nat.le_mul_of_pos_right i pos
  rw [BitVec.toNat_add, BitVec.toNat_mul, BitVec.toNat_ofNat, Nat.mod_mul_mod, step,
    Nat.mod_eq_of_lt (by omega : x.toNat - a.toNat < 2 ^ 32), Nat.mod_eq_of_lt (by omega)]
  omega

theorem block_step {x y : Nat} (at_x : D.block ∣ x) (at_y : D.block ∣ y) (below : x < y) :
    x + D.block ≤ y := by
  have gap := Nat.le_of_dvd (Nat.sub_pos_of_lt below) (Nat.dvd_sub at_y at_x)
  omega

theorem bitmapBit_markAll {b : Nat} (blocks : List Word) (set : bitmapBit c.s.bitmap b = true) :
    bitmapBit (markAll D blocks c).s.bitmap b = true := by
  induction blocks generalizing c with
  | nil => exact set
  | cons a rest ih => exact ih ((bitmapBit_modify _ _ _).mpr (.inr set))

structure Working (D : Device) (target gen : Word) (c : Core) (w : World) : Prop where
  sound : Sound D false c w
  session : c.s.session = true
  slot : c.writeSlot = target
  gen : c.highestGen = gen

/-- The first bytes of the slot are erased and marked, and nothing was written yet. -/
structure Cleared (D : Device) (target gen : Word) (size : Nat) (c : Core) (w : World) : Prop
    extends Working D target gen c w where
  run : c.s.stream = .run
  start : c.s.expectedNext = D.slotBase target
  erased : Nor.Erased erasedByte w.flash (D.base target) size
  marked : ∀ b, (b + 1) * D.block ≤ size → bitmapBit c.s.bitmap b = true

theorem Cleared.mono {less : Nat} (h : Cleared D target gen n c w) (fewer : less ≤ n) :
    Cleared D target gen less c w :=
  { h with
    erased := h.erased.mono (Nat.le_refl _) (Nat.add_le_add_left fewer _)
    marked := fun b inside => h.marked b (inside.trans fewer) }

theorem dispatch_handled {E : Environment port World} {n : Nat} {pl : List Byte}
    (harmless : Harmless cmd) (session : cmd = cmdHello ∨ c.s.session = true)
    (run : (dispatch D cmd pl n seq).Exec E c w es (resp, act) c' w') :
    act = .none ∧ (handler D cmd pl n seq).Exec E c w es resp c' w' := by
  rcases (dispatch_exec (q := ⟨cmd, seq, pl, n⟩) run).handled harmless with
    ⟨other, closed, -⟩ | ⟨-, handled⟩
  · rw [session.resolve_left other] at closed
    cases closed
  · exact handled

theorem hello_phase (sound : Sound D false c w)
    (run : (dispatch D cmdHello (helloReqPayload protoMajor protoMinor).val helloReqLen seq).Exec
      (faultFree D shown) c w es (resp, act) c' w') :
    resp = finish (cmdHello ||| cmdRespBit) seq (helloPayload D c) ∧
      Cleared D c.writeSlot c.highestGen 0 c' w' ∧ c'.activeSlot = c.activeSlot := by
  obtain ⟨-, handled⟩ : _ ∧ (doHello D _ _ seq).Exec _ c w es resp c' w' :=
    dispatch_handled (.inl rfl) (.inl rfl) run
  have passes : HelloPasses (helloReqPayload protoMajor protoMinor).val helloReqLen :=
    ⟨rfl, get32_put32_append _ _, by decide⟩
  rcases doHello_exec handled with ⟨fails, -⟩ | ⟨-, rfl, rfl, rfl, rfl⟩
  · exact absurd passes fails
  · refine ⟨rfl, ⟨⟨sound.sessionOpen, rfl, rfl, rfl⟩, rfl, rfl, ?_, ?_⟩, rfl⟩
    · intro a above below
      omega
    · intro b inside
      have pos := D.block_pos
      rw [Nat.succ_mul] at inside
      omega

/-! ### Erasing -/

theorem get32_words (a b : Word) :
    get32 (put32 a ++ put32 b) = a ∧ get32 ((put32 a ++ put32 b).drop 4) = b :=
  ⟨get32_put32_append _ _, get32_put32 b⟩

theorem writeRangeOk_of_fits {addr len : Word} (isSlot : IsSlot c.writeSlot)
    (fits : D.Fits c.writeSlot) (some : 0 < len.toNat) (low : D.base c.writeSlot ≤ addr.toNat)
    (high : addr.toNat + len.toNat ≤ D.recordAt c.writeSlot) :
    writeRangeOk D c addr len = true := by
  apply (writeRangeOk_iff isSlot addr len).mpr
  refine ⟨some, low, ?_⟩
  change _ ≤ D.base c.writeSlot + (D.slotCapacity c.writeSlot).toNat
  rw [D.capacity_eq isSlot fits]
  exact high

theorem word_mod_eq_zero {a n : Word} (h : n.toNat ∣ a.toNat) : a % n = 0 := by
  apply BitVec.eq_of_toNat_eq
  rw [BitVec.toNat_umod]
  exact Nat.mod_eq_zero_of_dvd h

theorem eraseReq_passes {addr len : Word} (isSlot : IsSlot c.writeSlot) (fits : D.Fits c.writeSlot)
    (aligned : D.block ∣ addr.toNat) (whole : D.block ∣ len.toNat) (some : 0 < len.toNat)
    (low : D.base c.writeSlot ≤ addr.toNat)
    (high : addr.toNat + len.toNat ≤ D.recordAt c.writeSlot) :
    ErasePasses D c (eraseReqPayload addr len).val 8 := by
  obtain ⟨at_pl, at_pl'⟩ : get32 (eraseReqPayload addr len).val = addr ∧
      get32 ((eraseReqPayload addr len).val.drop 4) = len := get32_words addr len
  constructor
  · rfl
  · rw [at_pl, at_pl']
    exact ⟨word_mod_eq_zero aligned, word_mod_eq_zero whole⟩
  · rw [at_pl, at_pl']
    exact writeRangeOk_of_fits isSlot fits some low high

theorem bit_of_marked {a : Word} {b : Nat} (sound : Sound D false c w)
    (at_a : a.toNat = D.base c.writeSlot + b * D.block)
    (inside : a.toNat + D.block ≤ D.recordAt c.writeSlot) (marked : Marked D c a) :
    bitmapBit c.s.bitmap b = true := by
  have above : D.base c.writeSlot ≤ a.toNat := by omega
  have pos := D.block_pos
  have number : D.blockOf c.writeSlot a = b := by
    rw [blockOf_eq above, at_a, Nat.add_sub_cancel_left, Nat.mul_div_cancel _ pos]
  have room := bitmap_room (D := D) sound.slot above (by omega)
  rw [at_a, Nat.add_sub_cancel_left, Nat.mul_div_cancel _ pos] at room
  unfold Marked at marked
  rw [number, sound.bitmap] at marked
  exact marked room

theorem bits_of_marked {m : Nat} (sound : Sound D false c w) (whole : D.block ∣ n)
    (inside : D.base c.writeSlot + m ≤ D.recordAt c.writeSlot)
    (old : ∀ b, (b + 1) * D.block ≤ n → bitmapBit c.s.bitmap b = true)
    (later : ∀ a : Word, D.block ∣ a.toNat → D.base c.writeSlot + n ≤ a.toNat →
      a.toNat + D.block ≤ D.base c.writeSlot + m → Marked D c a) {b : Nat}
    (below : (b + 1) * D.block ≤ m) : bitmapBit c.s.bitmap b = true := by
  have low := D.block_dvd_base sound.slot
  have limit := recordAt_bound (D := D) sound.slot
  by_cases early : (b + 1) * D.block ≤ n
  · exact old b early
  rw [Nat.succ_mul] at below early
  obtain ⟨a, at_a⟩ : ∃ a : Word, a.toNat = D.base c.writeSlot + b * D.block := by
    refine ⟨BitVec.ofNat 32 (D.base c.writeSlot + b * D.block), ?_⟩
    rw [BitVec.toNat_ofNat, Nat.mod_eq_of_lt (by omega)]
  have at_block : D.block ∣ a.toNat := by
    rw [at_a]
    exact Nat.dvd_add low (Nat.dvd_mul_left _ b)
  have late : D.base c.writeSlot + n ≤ a.toNat := by
    by_contra before
    have step := block_step at_block (Nat.dvd_add low whole) (Nat.not_le.mp before)
    omega
  exact bit_of_marked sound at_a (by omega) (later a at_block late (by omega))

theorem Cleared.erase {addr len : Word} (h : Cleared D target gen n c w)
    (at_addr : addr.toNat = D.base target + n) (whole : D.block ∣ n) (whole' : D.block ∣ len.toNat)
    (nonempty : 0 < len.toNat) (fits : D.Fits target)
    (inside : D.base target + n + len.toNat ≤ D.recordAt target)
    (run : (dispatch D cmdErase (eraseReqPayload addr len).val 8 seq).Exec (faultFree D shown) c w
      es (resp, act) c' w') :
    resp = okResp cmdErase seq ∧ Cleared D target gen (n + len.toNat) c' w' := by
  obtain ⟨rfl, handled⟩ : act = .none ∧
      (doErase D (eraseReqPayload addr len).val 8 seq).Exec (faultFree D shown) c w es resp c' w' :=
    dispatch_handled (.inr (.inl rfl)) (.inr h.session) run
  obtain ⟨sound, session⟩ := h.sound.dispatch (eraseReqPayload addr len) h.session run
  obtain ⟨at_pl, at_pl'⟩ : get32 (eraseReqPayload addr len).val = addr ∧
      get32 ((eraseReqPayload addr len).val.drop 4) = len := get32_words addr len
  obtain rfl := h.slot
  have isSlot := h.sound.slot
  have low := D.block_dvd_base isSlot
  have limit := recordAt_bound (D := D) isSlot
  have aligned : D.block ∣ addr.toNat := at_addr ▸ Nat.dvd_add low whole
  have passes : ErasePasses D c (eraseReqPayload addr len).val 8 :=
    eraseReq_passes isSlot fits aligned whole' nonempty (by omega) (by omega)
  -- the run is empty, so there is nothing to poison
  have quiet : c.streamNoteErase addr = c := by
    refine if_neg fun behind => ?_
    rw [h.start, BitVec.lt_def, at_addr] at behind
    change _ < D.base c.writeSlot at behind
    omega
  rcases doErase_exec handled with ⟨fails, -⟩ | ⟨-, r, c₁, w₁, es₁, es₂, -, begun, rest⟩
  · exact absurd passes fails
  rw [at_pl, quiet] at begun
  rw [at_pl, at_pl'] at rest
  obtain ⟨rfl, same, slot, gen, area⟩ := mutationBegin_once isSlot begun
  rcases rest with ⟨fail, -⟩ | ⟨-, looped⟩
  · exact absurd rfl fail
  obtain ⟨k, turns⟩ := whole'
  have turns : len.toNat = k * D.eraseBlock.toNat := by rw [turns, Nat.mul_comm]; rfl
  rw [forRange_eq D.block_pos turns (by omega)] at looped
  have before : Nor.Erased erasedByte w₁.flash (D.base c.writeSlot) n := by
    refine h.erased.congr fun a mem => area ⟨mem.1, ?_⟩
    have := mem.2
    omega
  obtain ⟨erased, marks, rfl⟩ := eraseLoop_erases (fun a => D.block ∣ a.toNat ∧
      D.base c.writeSlot ≤ a.toNat ∧ a.toNat + D.block ≤ D.base c.writeSlot + n)
    (fun a ⟨at_a, above, below⟩ =>
      (erased_iff_blocks low whole (by omega)).mp before a at_a above below) looped
  obtain ⟨bitmap, frame⟩ := markAll_frame (D := D) (c := c₁) (strided addr D.eraseBlock k)
  have visited : ∀ a : Word, D.block ∣ a.toNat → D.base c.writeSlot + n ≤ a.toNat →
      a.toNat + D.block ≤ D.base c.writeSlot + (n + len.toNat) → a ∈ strided addr D.eraseBlock k := by
    intro a at_a above below
    refine mem_strided_of_block aligned at_a (by omega) ?_
    change _ ≤ _ + k * D.eraseBlock.toNat
    omega
  have at_c' : c'.s = { c₁.s with bitmap := bitmap } ∧ c'.writeSlot = c.writeSlot ∧
      c'.highestGen = c.highestGen := by
    rw [marks, frame]
    exact ⟨rfl, slot, gen⟩
  obtain ⟨at_s, slot', gen'⟩ := at_c'
  refine ⟨rfl, ⟨⟨sound, session, slot', gen'.trans h.gen⟩, ?_, ?_, ?_, ?_⟩⟩
  · rw [at_s, same]
    exact h.run
  · rw [at_s, same]
    exact h.start
  · refine (erased_iff_blocks low (Nat.dvd_add whole (turns ▸ Nat.dvd_mul_left _ _)) (by omega)).mpr ?_
    intro a at_a above below
    apply erased a
    rcases Nat.lt_or_ge a.toNat (D.base c.writeSlot + n) with early | late
    · exact .inl ⟨at_a, above, block_step at_a (Nat.dvd_add low whole) early⟩
    · exact .inr (visited a at_a late below)
  · intro b inside'
    refine bits_of_marked sound whole (by rw [slot']; omega) (fun b old => ?_) ?_ inside'
    · rw [marks]
      apply bitmapBit_markAll
      rw [same]
      exact h.marked b old
    · rw [slot']
      exact fun a at_a late below => marks ▸ marked_markAll (visited a at_a late below)

/-! ### Writing -/

/-- The first bytes of the image lie in flash, and what follows is erased. -/
structure Filled (D : Device) (target gen : Word) (data : List Byte) (size off : Nat) (c : Core)
    (w : World) : Prop extends Working D target gen c w where
  run : c.s.stream = .run
  next : c.s.expectedNext.toNat = D.base target + off
  settled : Nor.Settled w.flash (D.base target) (data.take off)
  erased : Nor.Erased erasedByte w.flash (D.base target + off) (size - off)
  marked : ∀ b, (b + 1) * D.block ≤ size → bitmapBit c.s.bitmap b = true

theorem Cleared.filled {size : Nat} (h : Cleared D target gen size c w) (data : List Byte) :
    Filled D target gen data size 0 c w :=
  { h with
    next := by
      rw [h.start]
      rfl
    settled := by
      rw [List.take_zero]
      exact nofun
    erased := h.erased }

structure Written (D : Device) (target gen : Word) (data : List Byte) (size off stop : Nat)
    (c : Core) (w : World) : Prop extends Filled D target gen data size stop c w where
  addr : c.s.lastAddr.toNat = D.base target + off
  len : c.s.lastLen.toNat = stop - off
  bytes : c.s.lastData.take (stop - off) = (data.drop off).take (stop - off)

theorem Filled.covers {size : Nat} {addr len : Word} (h : Filled D target gen data size off c w)
    (whole : D.block ∣ size) (some : 0 < len.toNat) (low : D.base target ≤ addr.toNat)
    (inside : addr.toNat + len.toNat ≤ D.base target + size)
    (room : D.base target + size ≤ D.recordAt target) : bitmapCovers D c addr len = true := by
  obtain rfl := h.slot
  have limit := recordAt_bound (D := D) h.sound.slot
  have top : (addr + len - 1).toNat = addr.toNat + len.toNat - 1 := by bv_omega
  have last : ((addr + len - 1 - D.slotBase c.writeSlot) / D.eraseBlock).toNat =
      (addr.toNat + len.toNat - 1 - D.base c.writeSlot) / D.block := by
    rw [← top]
    exact blockOf_eq (by omega)
  unfold bitmapCovers
  simp only [last, List.all_eq_true, List.mem_range'_1]
  intro b ⟨_, below⟩
  apply h.marked
  have pos := D.block_pos
  have under : b ≤ (addr.toNat + len.toNat - 1 - D.base c.writeSlot) / D.block := by omega
  rw [Nat.le_div_iff_mul_le pos] at under
  rw [Nat.succ_mul]
  exact block_step (Nat.dvd_mul_left _ b) whole (by omega)

theorem filled_flash {f : Flash} {lo size : Nat} (order : off ≤ stop) (room : stop ≤ data.length)
    (fits : data.length ≤ size)
    (start : (Nor.Settled f lo (data.take off) ∧ Nor.Erased erasedByte f (lo + off) (size - off)) ∨
      (Nor.Settled f lo (data.take stop) ∧ Nor.Erased erasedByte f (lo + stop) (size - stop))) :
    Nor.Settled (Nor.program f (lo + off) ((data.drop off).take (stop - off))) lo (data.take stop) ∧
      Nor.Erased erasedByte (Nor.program f (lo + off) ((data.drop off).take (stop - off))) (lo + stop)
        (size - stop) := by
  have split : data.take stop = data.take off ++ (data.drop off).take (stop - off) := by
    rw [← List.take_add, Nat.add_sub_cancel' order]
  have before : (data.take off).length = off := List.length_take_of_le (by omega)
  have length : ((data.drop off).take (stop - off)).length = stop - off := by
    rw [List.length_take, List.length_drop]
    omega
  rcases start with ⟨settled, erased⟩ | ⟨settled, erased⟩
  · have extended := settled.extend (by rwa [before]) (length.le.trans (by omega))
    rw [before, length, ← split] at extended
    refine ⟨extended.1, extended.2.mono (by omega) (by omega)⟩
  · have chunk := settled.drop off
    rw [split, List.drop_left' before] at chunk
    have unchanged := chunk.program (stop - off)
    rw [List.take_of_length_le length.le] at unchanged
    rw [unchanged]
    exact ⟨settled, erased⟩

/-- A chunk that follows the run is folded into it, and the one folded last is known again. -/
theorem class_of_phase {size : Nat} {addr len : Word} (at_addr : addr.toNat = D.base target + off)
    (at_len : len.toNat = stop - off) (order : off < stop)
    (start : Filled D target gen data size off c w ∨ Written D target gen data size off stop c w) :
    (Filled D target gen data size off c w ∧
      streamClassifyWrite c addr len ((data.drop off).take (stop - off)) = .fold) ∨
    (Written D target gen data size off stop c w ∧
      streamClassifyWrite c addr len ((data.drop off).take (stop - off)) = .retry) := by
  unfold streamClassifyWrite
  rcases start with filled | written
  · refine .inl ⟨filled, if_pos ?_⟩
    apply BitVec.eq_of_toNat_eq
    rw [at_addr, filled.next]
  · have next := written.next
    have at_last := written.addr
    have bound := c.s.expectedNext.isLt
    -- sent again, the chunk lies behind the cursor and is the last one that was folded
    have behind : addr ≠ c.s.expectedNext := by
      intro same
      rw [same] at at_addr
      omega
    have last : addr = c.s.lastAddr ∧ len = c.s.lastLen ∧ addr + len = c.s.expectedNext ∧
        (data.drop off).take (stop - off) = c.s.lastData.take len.toNat := by
      refine ⟨BitVec.eq_of_toNat_eq (at_addr.trans at_last.symm),
        BitVec.eq_of_toNat_eq (at_len.trans written.len.symm), ?_, ?_⟩
      · apply BitVec.eq_of_toNat_eq
        rw [BitVec.toNat_add, Nat.mod_eq_of_lt (by omega)]
        omega
      · rw [at_len]
        exact written.bytes.symm
    exact .inr ⟨written, (if_neg behind).trans (if_pos last)⟩

theorem writeReq_operands (addr : Word) (chunk : Chunk) :
    get32 (writeReqPayload addr chunk).val = addr ∧
      (writeReqPayload addr chunk).val.length = 4 + chunk.val.length ∧
      (writeLen (writeReqPayload addr chunk).val.length).toNat = chunk.val.length ∧
      writeData (writeReqPayload addr chunk).val (writeReqPayload addr chunk).val.length =
        chunk.val := by
  have small := chunk.property
  unfold maxWriteData at small
  have size : (writeReqPayload addr chunk).val.length = 4 + chunk.val.length := by
    change (put32 addr ++ chunk.val).length = _
    rw [List.length_append, put32_length]
  refine ⟨get32_put32_append _ _, size, ?_, ?_⟩
  · rw [writeLen, size, Nat.add_sub_cancel_left, BitVec.toNat_ofNat, Nat.mod_eq_of_lt (by omega)]
  · rw [writeData, size, Nat.add_sub_cancel_left]
    exact List.take_of_length_le (Nat.le_refl _)

theorem writeReq_inside {addr : Word} {chunk : Chunk} (isSlot : IsSlot c.writeSlot)
    (usable : D.Fits c.writeSlot) (low : D.base c.writeSlot ≤ addr.toNat)
    (high : addr.toNat + chunk.val.length ≤ D.recordAt c.writeSlot) (aligned : 4 ∣ addr.toNat)
    (words : 4 ∣ chunk.val.length) (some : 0 < chunk.val.length) :
    WriteInside D c (writeReqPayload addr chunk).val (writeReqPayload addr chunk).val.length := by
  obtain ⟨at_pl, size, at_len, -⟩ := writeReq_operands addr chunk
  have small := chunk.property
  constructor
  · rw [size]
    omega
  · rw [at_pl]
    exact word_mod_eq_zero aligned
  · rw [at_pl]
    exact writeRangeOk_of_fits isSlot usable (by omega) (by omega) (by omega)

/-- Whichever way the chunk came, it is in flash after the write. -/
theorem write_landed {size : Nat} {addr r x : Word} {es : List (Event port)} {c₁ : Core}
    {w₁ w₂ : World} (isSlot : IsSlot c.writeSlot) (at_addr : addr.toNat = D.base c.writeSlot + off)
    (order : off < stop) (room : stop ≤ data.length) (fits : data.length ≤ size)
    (inside : D.base c.writeSlot + size ≤ D.recordAt c.writeSlot)
    (start : Filled D c.writeSlot gen data size off c w ∨
      Written D c.writeSlot gen data size off stop c w)
    (begun : (mutationBegin D).Exec (faultFree D shown) c w es r c₁ w₁)
    (wrote : (faultFree D shown).step w₁
      (.flashWrite addr ((data.drop off).take (stop - off))) x w₂) :
    Nor.Settled w₂.flash (D.base c.writeSlot) (data.take stop) ∧
      Nor.Erased erasedByte w₂.flash (D.base c.writeSlot + stop) (size - stop) := by
  obtain ⟨-, -, -, -, area⟩ := mutationBegin_once isSlot begun
  -- disarming touched the record block alone, which lies above the image
  have kept : ∀ {at_ : Nat}, at_ ≤ data.length →
      Nor.Settled w.flash (D.base c.writeSlot) (data.take at_) ∧
        Nor.Erased erasedByte w.flash (D.base c.writeSlot + at_) (size - at_) →
      Nor.Settled w₁.flash (D.base c.writeSlot) (data.take at_) ∧
        Nor.Erased erasedByte w₁.flash (D.base c.writeSlot + at_) (size - at_) := by
    intro at_ small ⟨settled, erased⟩
    constructor
    · refine settled.congr (Set.EqOn.mono (Set.Ico_subset_Ico_right ?_) area)
      rw [List.length_take]
      omega
    · exact erased.congr (Set.EqOn.mono (Set.Ico_subset_Ico (by omega) (by omega)) area)
  rw [(write_once wrote).2]
  unfold programBytes
  rw [at_addr]
  apply filled_flash order.le room fits
  rcases start with filled | written
  · exact .inl (kept (by omega) ⟨filled.settled, filled.erased⟩)
  · exact .inr (kept room ⟨written.settled, written.erased⟩)

theorem Filled.folded {size : Nat} {addr len : Word} {c₁ : Core} {chunk : List Byte}
    (filled : Filled D target gen data size off c w)
    (working : Working D target gen (c₁.streamFold addr len chunk) w')
    (same : c₁.s = { c.s with disarmed := true }) (follows : c.s.expectedNext = addr)
    (at_addr : addr.toNat = D.base target + off) (at_len : len.toNat = stop - off)
    (order : off < stop) (bound : D.base target + stop < 2 ^ 32)
    (at_chunk : chunk = (data.drop off).take (stop - off)) (length : chunk.length = stop - off)
    (settled : Nor.Settled w'.flash (D.base target) (data.take stop))
    (erased : Nor.Erased erasedByte w'.flash (D.base target + stop) (size - stop)) :
    Written D target gen data size off stop (c₁.streamFold addr len chunk) w' := by
  refine ⟨⟨working, ?_, ?_, settled, erased, ?_⟩, at_addr, at_len, ?_⟩
  · change c₁.s.stream = .run
    rw [same]
    exact filled.run
  · change (c₁.s.expectedNext + len).toNat = _
    have here : c₁.s.expectedNext = addr := by
      rw [same]
      exact follows
    rw [here, BitVec.toNat_add, Nat.mod_eq_of_lt (by omega)]
    omega
  · change ∀ b, _ → bitmapBit c₁.s.bitmap b = true
    rw [same]
    exact filled.marked
  · change (chunk ++ _).take (stop - off) = _
    rw [List.take_left' length, at_chunk]

theorem Written.again {size : Nat} {c₁ : Core} (written : Written D target gen data size off stop c w)
    (working : Working D target gen c₁ w') (same : c₁.s = { c.s with disarmed := true })
    (settled : Nor.Settled w'.flash (D.base target) (data.take stop))
    (erased : Nor.Erased erasedByte w'.flash (D.base target + stop) (size - stop)) :
    Written D target gen data size off stop c₁ w' := by
  obtain ⟨stream, next, marked, addr, len, bytes⟩ :
      c₁.s.stream = c.s.stream ∧ c₁.s.expectedNext = c.s.expectedNext ∧
      c₁.s.bitmap = c.s.bitmap ∧ c₁.s.lastAddr = c.s.lastAddr ∧ c₁.s.lastLen = c.s.lastLen ∧
      c₁.s.lastData = c.s.lastData := by simp [same]
  refine ⟨⟨working, stream.trans written.run, ?_, settled, erased, ?_⟩, ?_, ?_, ?_⟩
  · rw [next]
    exact written.next
  · rw [marked]
    exact written.marked
  · rw [addr]
    exact written.addr
  · rw [len]
    exact written.len
  · rw [bytes]
    exact written.bytes

theorem write_phase {size : Nat} {addr : Word} {chunk : Chunk}
    (at_addr : addr.toNat = D.base target + off)
    (at_chunk : chunk.val = (data.drop off).take (stop - off)) (order : off < stop)
    (room : stop ≤ data.length) (fits : data.length ≤ size) (whole : D.block ∣ size)
    (inside : D.base target + size ≤ D.recordAt target) (usable : D.Fits target)
    (start : Filled D target gen data size off c w ∨ Written D target gen data size off stop c w)
    (run : (dispatch D cmdWrite (writeReqPayload addr chunk).val
      (writeReqPayload addr chunk).val.length seq).Exec (faultFree D shown) c w es (resp, act) c' w') :
    (resp = okResp cmdWrite seq ∧ Written D target gen data size off stop c' w') ∨
    (c' = c ∧ w' = w ∧ ¬ (4 ∣ off ∧ 4 ∣ stop - off) ∧
      ∃ status detail, status ≠ ok ∧ resp = errResp cmdWrite seq status detail) := by
  have working : Working D target gen c w := by
    rcases start with filled | written
    · exact filled.toWorking
    · exact written.toWorking
  obtain rfl := working.slot
  have isSlot := working.sound.slot
  have limit := recordAt_bound (D := D) isSlot
  obtain ⟨rfl, handled⟩ : act = .none ∧ (doWrite D (writeReqPayload addr chunk).val
      (writeReqPayload addr chunk).val.length seq).Exec (faultFree D shown) c w es resp c' w' :=
    dispatch_handled (.inr (.inr (.inl rfl))) (.inr working.session) run
  obtain ⟨sound, session⟩ := working.sound.dispatch _ working.session run
  have length : chunk.val.length = stop - off := by
    rw [at_chunk, List.length_take, List.length_drop]
    omega
  obtain ⟨at_pl, -, at_len, at_data⟩ := writeReq_operands addr chunk
  have passes : 4 ∣ off → 4 ∣ stop - off → WriteInside D c (writeReqPayload addr chunk).val
      (writeReqPayload addr chunk).val.length := by
    intro aligned words
    have base := D.four_dvd_block.trans (D.block_dvd_base isSlot)
    exact writeReq_inside isSlot usable (by omega) (by omega)
      (at_addr ▸ Nat.dvd_add base aligned) (length ▸ words) (by omega)
  have outcome := doWrite_exec handled
  rw [at_pl, at_data, at_chunk] at outcome
  rw [length] at at_len
  generalize writeLen (writeReqPayload addr chunk).val.length = len at *
  -- of a chunk sent again the blocks were erased before the first one
  have covered : bitmapCovers D c addr len = true := by
    rcases start with filled | written
    · exact filled.covers whole (by omega) (by omega) (by omega) inside
    · exact written.covers whole (by omega) (by omega) (by omega) inside
  rcases outcome with ⟨outside, ⟨rfl, rfl, -⟩, status, detail, which, rfl⟩ |
    ⟨-, uncovered, -⟩ | ⟨-, -, wrote⟩
  · refine .inr ⟨rfl, rfl, fun ⟨aligned, words⟩ => outside (passes aligned words), status, detail, ?_,
      rfl⟩
    rcases which with rfl | rfl <;> decide
  · rw [covered] at uncovered
    cases uncovered
  -- only the class tells a chunk sent again from a new one
  have cls := class_of_phase at_addr at_len order start
  have noted : c.noteClass (streamClassifyWrite c addr len ((data.drop off).take (stop - off))) = c := by
    rcases cls with ⟨-, cls⟩ | ⟨-, cls⟩ <;> rw [cls] <;> rfl
  -- without faults the part cannot fail: `done` is the one outcome left
  cases wrote with
  | stuck begun fail =>
    rw [noted] at begun
    exact absurd (mutationBegin_once isSlot begun).1 fail
  | failed _ wrote fail => exact absurd (write_once wrote).1 fail
  | unverified begun wrote verified fail =>
    rw [noted] at begun
    refine absurd ((verify_once verified).2.mpr ?_) fail
    have landed := write_landed isSlot at_addr order room fits inside start begun wrote
    have settled := landed.1.drop off
    rw [List.drop_take, ← at_addr] at settled
    exact settled.read
  | @done _ c₁ _ w₂ w₃ begun wrote verified =>
    rw [noted] at begun
    obtain ⟨settled, erased⟩ := write_landed isSlot at_addr order room fits inside start begun wrote
    rw [← (verify_once verified).1] at settled erased
    obtain ⟨-, same, slot, gen, -⟩ := mutationBegin_once isSlot begun
    have gen := gen.trans working.gen
    refine .inl ⟨rfl, ?_⟩
    rcases cls with ⟨filled, cls⟩ | ⟨written, cls⟩
    · rw [if_pos cls] at sound session ⊢
      exact filled.folded ⟨sound, session, slot, gen⟩ same (streamClassifyWrite_fold cls).symm at_addr
        at_len order (by omega) rfl (at_chunk ▸ length) settled erased
    · have retry : ¬ streamClassifyWrite c addr len ((data.drop off).take (stop - off)) = .fold := by
        rw [cls]
        exact nofun
      rw [if_neg retry] at sound session ⊢
      exact written.again ⟨sound, session, slot, gen⟩ same settled erased

/-! ### Committing -/

theorem dispatch_commit {pl : List Byte} (session : c.s.session = true)
    (run : (dispatch D cmdCommit pl n seq).Exec (faultFree D shown) c w es (resp, act) c' w') :
    act = .none ∧ (doCommit D pl n seq).Exec (faultFree D shown) c w es resp c' w' := by
  have dispatched := dispatch_exec (q := ⟨cmdCommit, seq, pl, n⟩) run
  cases dispatched with
  | commit _ _ handled => exact ⟨rfl, handled⟩
  | closed _ off =>
    rw [session] at off
    cases off
  | unknown _ unguarded => exact absurd (.inr (.inr (.inr (.inr rfl)))) unguarded
  | hello other => exact absurd other (by decide : cmdCommit ≠ cmdHello)
  | boot other => exact absurd other (by decide : cmdCommit ≠ cmdBoot)
  | erase other => exact absurd other (by decide : cmdCommit ≠ cmdErase)
  | write other => exact absurd other (by decide : cmdCommit ≠ cmdWrite)
  | crc other => exact absurd other (by decide : cmdCommit ≠ cmdCrc)

/-- The slot holds exactly the image, under a valid record of its length and CRC. -/
structure Landed (D : Device) (target : Word) (data : List Byte) (f : Flash) : Prop where
  bytes : f.bytes (D.base target) data.length = data
  record : ∃ r, recordOn D f target = some r ∧ r.imgLen.toNat = data.length ∧ r.imgCrc32 = crc32 data

structure Committed (D : Device) (target : Word) (data : List Byte) (c : Core) (w : World) : Prop where
  sound : Sound D false c w
  session : c.s.session = true
  fresh : c.recState = .fresh
  slot : c.writeSlot = otherSlot target
  len : c.committedImgLen = BitVec.ofNat 32 data.length
  crc : c.committedImgCrc = crc32 data
  settled : Nor.Settled w.flash (D.base target) data

theorem Committed.landed (h : Committed D target data c w) (small : data.length < 2 ^ 32) :
    Landed D target data w.flash := by
  have fresh := h.sound.fresh h.fresh
  obtain ⟨r, found, -, len, crc⟩ := fresh.record
  rw [fresh.roles, h.slot, otherSlot_otherSlot] at found
  refine ⟨h.settled.read, r, found, ?_, crc.trans h.crc⟩
  rw [len, h.len, BitVec.toNat_ofNat, Nat.mod_eq_of_lt small]

/-- What COMMIT needs of an image that lies in flash. -/
structure Sealable (D : Device) (gen : Word) (data : List Byte) : Prop where
  nonempty : data ≠ []
  words : 4 ∣ data.length
  both : D.Fits slotB
  below : gen + 1 ≠ 0 ∧ gen + 1 ≠ 0xFFFFFFFF

theorem xipCrc32_coherent {addr len crc : Word} (coherent : Coherent D w) (whole : len % 4 = 0)
    (bound : addr.toNat + len.toNat < 2 ^ 32)
    (run : (xipCrc32 addr len).Exec (portEnv D) c w es crc c' w') :
    crc = crc32 (w.flash.bytes addr.toNat len.toNat) := by
  have answers : (xipCrc32 addr len).wp (portEnv D) .any
      (fun v _ _ => v = onFlash D w.flash (xipCrc32 addr len)) c w :=
    wp_coherent (xipCrc32_queries whole bound) (fun _ reads => reads) coherent (fun _ _ => trivial) rfl
  have answer := wp_exec answers run
  exact answer.trans (xipCrc32_answer _ _ whole bound)

theorem xipCrc32_once {addr len crc : Word} (coherent : Coherent D w) (whole : len % 4 = 0)
    (bound : addr.toNat + len.toNat < 2 ^ 32)
    (run : (xipCrc32 addr len).Exec (faultFree D shown) c w es crc c' w') :
    crc = crc32 (w.flash.bytes addr.toNat len.toNat) :=
  xipCrc32_coherent coherent whole bound (run.mono fun _ _ _ _ step => step.1)

theorem Filled.attested {size : Nat} (h : Filled D target gen data size data.length c w)
    (sealable : Sealable D gen data) (usable : D.Fits target)
    (inside : D.base target + data.length ≤ D.recordAt target) :
    ¬ Declined (faultFree D shown) D c w (BitVec.ofNat 32 data.length) (crc32 data) 8 := by
  obtain rfl := h.slot
  have isSlot := h.sound.slot
  have limit := recordAt_bound (D := D) isSlot
  have toNat : (BitVec.ofNat 32 data.length).toNat = data.length := by
    rw [BitVec.toNat_ofNat, Nat.mod_eq_of_lt (by omega)]
  have read : w.flash.bytes (D.base c.writeSlot) data.length = data := by
    have settled := h.settled
    rw [List.take_length] at settled
    exact settled.read
  have nonzero : BitVec.ofNat 32 data.length ≠ 0 := by
    intro zero
    rw [zero] at toNat
    exact sealable.nonempty (List.length_eq_zero_iff.mp toNat.symm)
  have whole : BitVec.ofNat 32 data.length % 4 = 0 := word_mod_eq_zero (toNat.symm ▸ sealable.words)
  have bound : (D.slotBase c.writeSlot).toNat + (BitVec.ofNat 32 data.length).toNat < 2 ^ 32 := by
    rw [toNat]
    change D.base c.writeSlot + _ < _
    omega
  -- a COMMIT is declined for one of four reasons, and a filled slot gives none of them
  intro declined
  cases declined with
  | shape bad =>
    rcases bad with size | zero | ragged
    · exact size rfl
    · exact nonzero zero
    · exact ragged whole
  | room large =>
    have cap := D.capacity_eq isSlot usable
    rw [gt_iff_lt, BitVec.lt_def, toNat] at large
    omega
  | @read _ crc _ xip computed differs =>
    have coherent : Coherent D w := by
      simp only [attestViaXip, Bool.or_eq_true, decide_eq_true_eq] at xip
      rcases xip with live | flash
      · exact coherent_of_crcLive live _
      · rw [h.sound.untouched flash]
        exact coherent_reset _ _
    have answer := xipCrc32_once coherent whole bound computed
    rw [toNat] at answer
    exact differs (answer.trans (congrArg crc32 read))
  | stream _ _ differs =>
    refine differs ⟨?_, ?_⟩
    · simp only [streamCovers, decide_eq_true_eq]
      refine ⟨h.run, BitVec.eq_of_toNat_eq ?_⟩
      rw [h.next, BitVec.toNat_add, Nat.mod_eq_of_lt bound, toNat]
      rfl
    -- the run covers the slot from its start, so its CRC is that of the image
    · have exact_run := (h.sound.run h.session h.run).crc
      rw [h.next, Nat.add_sub_cancel_left, read] at exact_run
      rw [← exact_run]
      rfl

/-- Where the silicon holds both slots, the COMMIT is recognized when it comes again. -/
theorem Committed.replayed (h : Committed D target data c w) (both : D.Fits slotB) :
    ¬ Declined (faultFree D shown) D c w (BitVec.ofNat 32 data.length) (crc32 data) 8 := by
  obtain ⟨nonzero, whole, room⟩ := (h.sound.fresh h.fresh).replay_fits h.sound.slot
  rw [h.len] at nonzero whole room
  intro declined
  cases declined with
  | shape bad =>
    rcases bad with size | zero | ragged
    · exact size rfl
    · exact nonzero zero
    · exact ragged whole
  | room large => exact absurd (room.mpr both) (BitVec.not_le.mpr large)
  | read unreplayed => exact unreplayed ⟨h.fresh, h.len, h.crc⟩
  | stream unreplayed => exact unreplayed ⟨h.fresh, h.len, h.crc⟩

theorem commit_phase {size : Nat} (inside : D.base target + data.length ≤ D.recordAt target)
    (usable : D.Fits target)
    (start : Filled D target gen data size data.length c w ∨ Committed D target data c w)
    (run : (dispatch D cmdCommit (commitReqPayload (BitVec.ofNat 32 data.length) (crc32 data)).val 8
      seq).Exec (faultFree D shown) c w es (resp, act) c' w') :
    (resp = okResp cmdCommit seq ∧ Committed D target data c' w') ∨
    (c' = c ∧ w' = w ∧ ¬ Sealable D gen data ∧
      ∃ status detail, status ≠ ok ∧ resp = errResp cmdCommit seq status detail) := by
  obtain ⟨before, open_⟩ : Sound D false c w ∧ c.s.session = true := by
    rcases start with filled | committed
    · exact ⟨filled.sound, filled.session⟩
    · exact ⟨committed.sound, committed.session⟩
  obtain ⟨rfl, handled⟩ := dispatch_commit open_ run
  obtain ⟨sound, session⟩ := before.dispatch
    (commitReqPayload (BitVec.ofNat 32 data.length) (crc32 data)) open_ run
  have outcome := doCommit_exec faultFree_silent handled
  have words : get32 (commitReqPayload (BitVec.ofNat 32 data.length) (crc32 data)).val =
      BitVec.ofNat 32 data.length ∧
      get32 ((commitReqPayload (BitVec.ofNat 32 data.length) (crc32 data)).val.drop 4) = crc32 data :=
    get32_words _ _
  rw [words.1, words.2] at outcome
  rcases outcome with ⟨declined, ⟨rfl, rfl, -⟩, status, detail, bad, rfl⟩ |
    ⟨-, ⟨rfl, rfl, -⟩, rfl, fresh, same_len, same_crc⟩ | ⟨-, sealed⟩
  · refine .inr ⟨rfl, rfl, fun sealable => ?_, status, detail, bad, rfl⟩
    rcases start with filled | committed
    · exact filled.attested sealable usable inside declined
    · exact committed.replayed sealable.both declined
  · rcases start with filled | committed
    -- right after a COMMIT the run is empty, and so would be the image
    · have known := filled.sound.fresh fresh
      have next := filled.next
      rw [known.start, filled.slot] at next
      have none : data.length = 0 := by
        change D.base target = _ at next
        omega
      have nonzero := (known.replay_fits filled.sound.slot).1
      rw [same_len, none] at nonzero
      exact absurd rfl nonzero
    · exact .inl ⟨rfl, committed⟩
  · rcases start with filled | committed
    swap
    · exact absurd ⟨committed.fresh, committed.len, committed.crc⟩ sealed.unreplayed
    obtain ⟨es₁, es₂, -, -, commits⟩ := sealed.commits
    have gen := filled.gen
    obtain rfl := filled.slot
    cases commits with
    | exhausted ceiling =>
      refine .inr ⟨rfl, rfl, fun sealable => ?_, eFlash, detNone, by decide, rfl⟩
      rw [gen] at ceiling
      rcases ceiling with top | wrapped
      · exact sealable.below.2 top
      · exact sealable.below.1 wrapped
    | failed stores fail =>
      exact absurd (stores.once filled.sound.slot BootRecord.sealed_bytes_length).1 fail
    | stored stores =>
      obtain ⟨-, area⟩ := stores.once filled.sound.slot BootRecord.sealed_bytes_length
      refine .inl ⟨rfl, sound, session, rfl, rfl, rfl, rfl, ?_⟩
      have settled := filled.settled
      rw [List.take_length] at settled
      exact settled.congr (Set.EqOn.mono (Set.Ico_subset_Ico_right inside) area)

/-! ### Afterwards -/

theorem crc_phase (h : Committed D target data c w) (small : data.length < 2 ^ 32)
    (run : (dispatch D cmdCrc (crcReqPayload (D.slotBase target) (BitVec.ofNat 32 data.length)).val 8
      seq).Exec (faultFree D shown) c w es (resp, act) c' w') :
    c' = c ∧ w' = w ∧ ∃ crc, resp = finish (cmdCrc ||| cmdRespBit) seq (ok :: put32 crc) ∧
      (D.crcLive = true → crc = crc32 data) := by
  obtain ⟨rfl, handled⟩ : act = .none ∧ (doCrc D
      (crcReqPayload (D.slotBase target) (BitVec.ofNat 32 data.length)).val 8 seq).Exec
      (faultFree D shown) c w es resp c' w' :=
    dispatch_handled (.inr (.inr (.inr rfl))) (.inr h.session) run
  have words : get32 (crcReqPayload (D.slotBase target) (BitVec.ofNat 32 data.length)).val =
      D.slotBase target ∧
      get32 ((crcReqPayload (D.slotBase target) (BitVec.ofNat 32 data.length)).val.drop 4) =
        BitVec.ofNat 32 data.length := get32_words _ _
  have toNat : (BitVec.ofNat 32 data.length).toNat = data.length := by
    rw [BitVec.toNat_ofNat, Nat.mod_eq_of_lt small]
  -- the record that was stored vouches for the range
  have fresh := h.sound.fresh h.fresh
  obtain ⟨r, found, -, len, -⟩ := fresh.record
  rw [fresh.roles, h.slot, otherSlot_otherSlot] at found
  obtain ⟨isSlot, fits, -, accepted⟩ := recordOn_some found
  have geometry := accepted.geometry
  rw [len, h.len] at geometry
  have bound := geometry.bound isSlot
  have passes : CrcPasses D (crcReqPayload (D.slotBase target) (BitVec.ofNat 32 data.length)).val 8 := by
    refine ⟨rfl, ?_, ?_⟩
    · rw [words.1, words.2]
      refine ⟨word_mod_eq_zero ?_, geometry.whole⟩
      exact D.four_dvd_block.trans (D.block_dvd_base isSlot)
    · have region := (D.fits_iff isSlot).mp fits
      have top := geometry.toNat_le isSlot fits
      have room := D.recordAt_add isSlot
      have low : D.flashAppStart.toNat ≤ (D.slotBase target).toNat := D.appStart_le_base isSlot
      have nonzero := geometry.nonzero
      rw [words.1, words.2]
      unfold Device.base at region top room
      simp only [readRangeOk, decide_eq_true_eq]
      refine ⟨BitVec.le_def.mpr low, ?_, nonzero, ?_⟩
      · rw [BitVec.lt_def]
        omega
      · bv_omega
  rcases doCrc_exec faultFree_silent handled with ⟨fails, -⟩ | ⟨-, ⟨rfl, rfl, -⟩, crc, rfl, computed⟩
  · exact absurd passes fails
  refine ⟨rfl, rfl, crc, rfl, fun live => ?_⟩
  rw [words.1, words.2] at computed
  rw [xipCrc32_once (coherent_of_crcLive live _) geometry.whole bound computed, toNat]
  exact congrArg crc32 h.settled.read

theorem boot_phase {mode : BootMode} (h : Committed D target data c w)
    (run : (dispatch D cmdBoot (bootReqPayload mode.wire).val 1 seq).Exec (faultFree D shown) c w es
      (resp, act) c' w') :
    resp = okResp cmdBoot seq ∧ Committed D target data c' w' := by
  -- a committed slot is trusted without a look at the flash
  have trusted : ∀ {es : List (Event port)} {b : Bool} {c' : Core} {w' : World},
      (bootRecordTrusted D).Exec (faultFree D shown) c w es b c' w' → b = true ∧ c' = c ∧ w' = w := by
    intro es b c' w' run
    unfold bootRecordTrusted at run
    simp only [exec_bind (p := Program.get), exec_get] at run
    obtain ⟨_, _, _, _, _, rfl, ⟨rfl, rfl, rfl, rfl⟩, run⟩ := run
    rw [h.fresh] at run
    obtain ⟨rfl, rfl, rfl, rfl⟩ := exec_pure.mp run
    exact ⟨rfl, rfl, rfl⟩
  have served : dispatch D cmdBoot (bootReqPayload mode.wire).val 1 seq = (do
      let c ← get
      if !c.s.session then return (errResp cmdBoot seq eState 0, Action.none)
      doBoot D (bootReqPayload mode.wire).val 1 seq) := rfl
  rw [served] at run
  simp only [exec_bind (p := Program.get), exec_get, exec_ite] at run
  obtain ⟨_, _, _, _, _, rfl, ⟨rfl, rfl, rfl, rfl⟩, ⟨closed, -⟩ | ⟨-, run⟩⟩ := run
  · rw [h.session] at closed
    cases closed
  cases mode with
  | app =>
    have handler : doBoot D (bootReqPayload bootApp).val 1 seq = (do
        if !(← bootRecordTrusted D) then
          return (errResp cmdBoot seq eVerify detVerifyNorecord, Action.none)
        return (okResp cmdBoot seq, Action.reset)) := rfl
    change (doBoot D (bootReqPayload bootApp).val 1 seq).Exec _ _ _ _ _ _ _ at run
    rw [handler] at run
    obtain ⟨_, _, _, _, _, -, looked, answered⟩ := exec_bind.mp run
    obtain ⟨rfl, rfl, rfl⟩ := trusted looked
    obtain ⟨-, out, rfl, rfl⟩ := exec_pure.mp answered
    exact ⟨congrArg Prod.fst out, h⟩
  | stay =>
    have handler : doBoot D (bootReqPayload bootStay).val 1 seq = (do
        modify fun c => { c with bootreq := bootreqMagic }
        return (okResp cmdBoot seq, Action.reset)) := rfl
    change (doBoot D (bootReqPayload bootStay).val 1 seq).Exec _ _ _ _ _ _ _ at run
    rw [handler] at run
    simp only [exec_bind, exec_modify, exec_pure] at run
    obtain ⟨_, _, _, _, _, -, ⟨-, rfl, rfl⟩, -, out, rfl, rfl⟩ := run
    exact ⟨congrArg Prod.fst out, { h with sound := h.sound.stay }⟩

end OpenBoot
