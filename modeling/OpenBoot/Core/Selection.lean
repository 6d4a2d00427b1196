import OpenBoot.Core.Records

/-! What the boot decision answers on a flash content: which slot it picks, and
which generation it calls the highest. -/

set_option autoImplicit false

namespace OpenBoot

open Semantics Program

variable {D : Device} {f g : Flash} {slot : Word} {r r' : BootRecord}

theorem recordOn_of_fits (isSlot : IsSlot slot) (fits : D.Fits slot) :
    recordOn D f slot =
      recordCheck D slot (.ofBytes (f.bytes (D.recordAt slot) bootRecordSize)) := by
  have low : ¬ slot ≥ slotCount := by
    have := isSlot.lt_count
    bv_omega
  have room : ¬ D.slotCapacity slot = 0 := fits
  have words := xipWords_answer f (.bss D 0) (a := D.slotRecordAddr slot) (k := 8)
    (recordAt_bound isSlot)
  unfold recordOn onFlash recordLoad
  rw [if_neg low]
  simp only [room, if_false]
  rw [answer_bind]
  change recordCheck D slot (.ofBytes ((xipWords (strided _ 4 8)).answer _ _)) = _
  rw [words]
  rfl

theorem recordOn_some (h : recordOn D f slot = some r) :
    IsSlot slot ∧ D.Fits slot ∧ r = .ofBytes (f.bytes (D.recordAt slot) bootRecordSize) ∧
      Accepted D slot r := by
  obtain ⟨isSlot, geometry⟩ := (recordLoad_queries D slot).answer (coherent f) (.bss D 0) r h
  have fits := geometry.fits
  rw [recordOn_of_fits isSlot fits] at h
  obtain ⟨rfl, accepted⟩ := recordCheck_eq_some.mp h
  exact ⟨isSlot, fits, rfl, accepted⟩

theorem recordOn_eq_some (isSlot : IsSlot slot) (accepted : Accepted D slot r)
    (read : BootRecord.ofBytes (f.bytes (D.recordAt slot) bootRecordSize) = r) :
    recordOn D f slot = some r := by
  rw [recordOn_of_fits isSlot accepted.geometry.fits, read]
  exact recordCheck_eq_some.mpr ⟨rfl, accepted⟩

/-- A slot's record depends on the slot alone. -/
theorem recordOn_congr (same : (D.span slot).EqOn f g) : recordOn D f slot = recordOn D g slot :=
  (recordLoad_queries D slot).answer_congr (coherent_congr_slot same) _ _

theorem recordOn_erased (erased : Nor.Erased erasedByte f (D.recordAt slot) bootRecordSize) :
    recordOn D f slot = none := by
  cases found : recordOn D f slot with
  | none => rfl
  | some r =>
    obtain ⟨isSlot, _, rfl, accepted⟩ := recordOn_some found
    have magic := accepted.magic
    obtain ⟨k, aligned⟩ := D.four_dvd_recordAt isSlot
    -- the record starts at a word boundary, so its magic reads as the erased word
    have word : get32 (f.bytes (D.recordAt slot) bootRecordSize) = erasedWord := by
      have pattern : ∀ i, erasedByte (4 * k + i) = erasedByte i := fun i => by
        simp [erasedByte]
      have bytes : f.bytes (D.recordAt slot) bootRecordSize = _ := erased.read
      rw [bytes, aligned]
      simp only [pattern]
      decide
    simp only [BootRecord.ofBytes, word] at magic
    exact absurd magic (by decide)

theorem imageValidOn_iff (isSlot : IsSlot slot) (geometry : Geometry D slot r.imgLen) :
    imageValidOn D f slot r = true ↔
      (D.bootImageCrc = true → crc32 (f.bytes (D.base slot) r.imgLen.toNat) = r.imgCrc32) ∧
        f.read32 (D.slotBase slot) ≠ erasedWord := by
  have crc := xipCrc32_answer f (.bss D 0) geometry.whole
    (geometry.bound isSlot)
  unfold imageValidOn onFlash bootImageValid
  by_cases check : D.bootImageCrc
  · simp only [check, if_true]
    rw [answer_bind, crc, answer_ite]
    change (if crc32 (f.bytes (D.base slot) r.imgLen.toNat) ≠ r.imgCrc32 then _ else _) = true ↔ _
    by_cases same : crc32 (f.bytes (D.base slot) r.imgLen.toNat) = r.imgCrc32
    · rw [if_neg (not_not.mpr same)]
      simp only [same, implies_true, true_and]
      exact decide_eq_true_iff
    · rw [if_pos same]
      simp [same]
  · simp only [check, Bool.false_eq_true, false_implies, true_and]
    exact decide_eq_true_iff

theorem imageValidOn_congr (isSlot : IsSlot slot) (geometry : Geometry D slot r.imgLen)
    (same : (D.span slot).EqOn f g) : imageValidOn D f slot r = imageValidOn D g slot r :=
  (bootImageValid_queries isSlot geometry).answer_congr (coherent_congr_slot same) _ _

def Bootable (D : Device) (f : Flash) (slot : Word) : Prop :=
  ∃ r, recordOn D f slot = some r ∧ imageValidOn D f slot r = true

theorem Bootable.isSlot (h : Bootable D f slot) : IsSlot slot :=
  let ⟨_, found, _⟩ := h
  (recordOn_some found).1

theorem bootable_congr (same : (D.span slot).EqOn f g) : Bootable D f slot ↔ Bootable D g slot := by
  unfold Bootable
  rw [recordOn_congr same]
  refine exists_congr fun r => and_congr_right fun found => ?_
  obtain ⟨isSlot, _, _, accepted⟩ := recordOn_some found
  rw [imageValidOn_congr isSlot accepted.geometry same]

theorem appValidOn_iff : appValidOn D f slot = true ↔ Bootable D f slot := by
  unfold appValidOn Bootable onFlash bootAppValid
  rw [answer_bind]
  have asked : (recordLoad D slot).answer (coherent f) (.bss D 0) = recordOn D f slot := rfl
  rw [asked]
  cases recordOn D f slot with
  | none => simp
  | some r => simp [imageValidOn, onFlash]

theorem onFlash_bootSelectLoop (rest : List Word) (highest bestGen best : Word) :
    onFlash D f (bootSelectLoop D (slot :: rest) highest bestGen best) =
      match recordOn D f slot with
      | none => onFlash D f (bootSelectLoop D rest highest bestGen best)
      | some r =>
        let highest := if r.generation > highest then r.generation else highest
        if (best ≠ slotNone ∧ r.generation ≤ bestGen) ∨ imageValidOn D f slot r = false then
          onFlash D f (bootSelectLoop D rest highest bestGen best)
        else onFlash D f (bootSelectLoop D rest highest r.generation slot) := by
  unfold onFlash
  rw [bootSelectLoop, answer_bind]
  change (match recordOn D f slot with
    | none => _
    | some record => _ : Code (Word × Word)).answer _ _ = _
  cases recordOn D f slot with
  | none => rfl
  | some r =>
    simp only [answer_ite, answer_bind]
    change (if _ then _ else if (!imageValidOn D f slot r) = true then _ else _) = _
    by_cases old : best ≠ slotNone ∧ r.generation ≤ bestGen
    · simp [old]
    · cases imageValidOn D f slot r <;> simp [old]

structure Scanned (D : Device) (f : Flash) (seen : List Word) (highest bestGen best : Word) :
    Prop where
  bound : ∀ s ∈ seen, ∀ r, recordOn D f s = some r → r.generation ≤ highest
  choice : (best = slotNone ∧ ∀ s ∈ seen, ¬ Bootable D f s) ∨
    ∃ r, recordOn D f best = some r ∧ imageValidOn D f best r = true ∧ bestGen = r.generation ∧
      ∀ s ∈ seen, ∀ r', recordOn D f s = some r' → imageValidOn D f s r' = true →
        r'.generation ≤ bestGen

theorem Scanned.skip {seen : List Word} {highest highest' bestGen best : Word}
    (h : Scanned D f seen highest bestGen best) (grown : highest ≤ highest')
    (bound : ∀ r, recordOn D f slot = some r → r.generation ≤ highest')
    (passed : ∀ r, recordOn D f slot = some r → imageValidOn D f slot r = true →
      best ≠ slotNone ∧ r.generation ≤ bestGen) :
    Scanned D f (seen ++ [slot]) highest' bestGen best := by
  refine ⟨fun s mem r found => ?_, ?_⟩
  · rcases List.mem_append.mp mem with old | new
    · exact BitVec.le_trans (h.bound s old r found) grown
    · obtain rfl := List.mem_singleton.mp new
      exact bound r found
  · rcases h.choice with ⟨none, unbootable⟩ | ⟨r, found, valid, same, newest⟩
    · refine .inl ⟨none, fun s mem bootable => ?_⟩
      rcases List.mem_append.mp mem with old | new
      · exact unbootable s old bootable
      · obtain rfl := List.mem_singleton.mp new
        obtain ⟨r, found, valid⟩ := bootable
        exact (passed r found valid).1 none
    · refine .inr ⟨r, found, valid, same, fun s mem r' found' valid' => ?_⟩
      rcases List.mem_append.mp mem with old | new
      · exact newest s old r' found' valid'
      · obtain rfl := List.mem_singleton.mp new
        exact (passed r' found' valid').2

theorem Scanned.take {seen : List Word} {highest highest' bestGen best : Word}
    (h : Scanned D f seen highest bestGen best) (grown : highest ≤ highest')
    (found : recordOn D f slot = some r) (bound : r.generation ≤ highest')
    (valid : imageValidOn D f slot r = true)
    (better : best = slotNone ∨ bestGen ≤ r.generation) :
    Scanned D f (seen ++ [slot]) highest' r.generation slot := by
  have only : ∀ r', recordOn D f slot = some r' → r' = r := fun r' found' =>
    Option.some.inj (found'.symm.trans found)
  refine ⟨fun s mem r' found' => ?_, .inr ⟨r, found, valid, rfl, fun s mem r' found' valid' => ?_⟩⟩
  · rcases List.mem_append.mp mem with old | new
    · exact BitVec.le_trans (h.bound s old r' found') grown
    · obtain rfl := List.mem_singleton.mp new
      rwa [only r' found']
  · rcases List.mem_append.mp mem with old | new
    · rcases h.choice with ⟨none, unbootable⟩ | ⟨r₀, best_found, _, _, newest⟩
      · exact absurd ⟨r', found', valid'⟩ (unbootable s old)
      · have some_slot := (recordOn_some best_found).1.ne_none
        exact BitVec.le_trans (newest s old r' found' valid') (better.resolve_left some_slot)
    · obtain rfl := List.mem_singleton.mp new
      rw [only r' found']
      exact BitVec.le_refl _

theorem Scanned.loop {slots seen : List Word} {highest bestGen best : Word}
    (h : Scanned D f seen highest bestGen best) :
    ∃ gen, Scanned D f (seen ++ slots) (onFlash D f (bootSelectLoop D slots highest bestGen best)).2
      gen (onFlash D f (bootSelectLoop D slots highest bestGen best)).1 := by
  -- on the slots left; the invariant speaks of all slots seen so far
  induction slots generalizing seen highest bestGen best with
  | nil => exact ⟨bestGen, by rwa [List.append_nil]⟩
  | cons slot rest ih =>
    have split : seen ++ slot :: rest = seen ++ [slot] ++ rest := by simp
    rw [onFlash_bootSelectLoop, split]
    cases found : recordOn D f slot with
    | none => exact ih (h.skip (BitVec.le_refl _) (by simp [found]) (by simp [found]))
    | some r =>
      have only : ∀ r', recordOn D f slot = some r' → r' = r := fun r' found' =>
        Option.some.inj (found'.symm.trans found)
      simp only
      generalize hh : (if r.generation > highest then r.generation else highest) = highest'
      have grown : highest ≤ highest' ∧ r.generation ≤ highest' := by
        split at hh <;> bv_omega
      split
      · next pass =>
        refine ih (h.skip grown.1 (fun r' found' => only r' found' ▸ grown.2) ?_)
        intro r' found' valid
        rw [only r' found'] at valid ⊢
        rcases pass with old | bad
        · exact old
        · rw [valid] at bad
          cases bad
      · next take =>
        obtain ⟨newer, valid⟩ := not_or.mp take
        refine ih (h.take grown.1 found grown.2 (by simpa using valid) ?_)
        by_cases none : best = slotNone
        · exact .inl none
        · refine .inr (BitVec.le_of_lt (BitVec.not_le.mp fun le => newer ⟨none, le⟩))

theorem scanned_bootSelect (D : Device) (f : Flash) :
    ∃ gen, Scanned D f [slotA, slotB] (highestOn D f) gen (selectOn D f) :=
  have start : Scanned D f [] 0 0 slotNone :=
    ⟨fun _ mem => (List.not_mem_nil mem).elim,
      .inl ⟨rfl, fun _ mem => (List.not_mem_nil mem).elim⟩⟩
  Scanned.loop start

theorem IsSlot.mem (h : IsSlot slot) : slot ∈ [slotA, slotB] := by
  rcases h with rfl | rfl <;> simp

/-- Either nothing is bootable, or the slot picked is and none is newer. -/
theorem selectOn_cases (D : Device) (f : Flash) :
    (selectOn D f = slotNone ∧ ∀ slot, ¬ Bootable D f slot) ∨
      ∃ r, recordOn D f (selectOn D f) = some r ∧ imageValidOn D f (selectOn D f) r = true ∧
        ∀ slot r', recordOn D f slot = some r' → imageValidOn D f slot r' = true →
          r'.generation ≤ r.generation := by
  obtain ⟨gen, scanned⟩ := scanned_bootSelect D f
  rcases scanned.choice with ⟨none, unbootable⟩ | ⟨r, found, valid, rfl, newest⟩
  · exact .inl ⟨none, fun slot bootable => unbootable slot bootable.isSlot.mem bootable⟩
  · refine .inr ⟨r, found, valid, fun slot r' found' valid' => ?_⟩
    exact newest slot (recordOn_some found').1.mem r' found' valid'

theorem selectOn_eq_none : selectOn D f = slotNone ↔ ∀ slot, ¬ Bootable D f slot := by
  rcases selectOn_cases D f with ⟨none, unbootable⟩ | ⟨r, found, valid, _⟩
  · exact iff_of_true none unbootable
  · have isSlot := (recordOn_some found).1
    exact iff_of_false isSlot.ne_none fun unbootable => unbootable _ ⟨r, found, valid⟩

theorem selectOn_bootable (h : selectOn D f ≠ slotNone) : Bootable D f (selectOn D f) := by
  rcases selectOn_cases D f with ⟨none, _⟩ | ⟨r, found, valid, _⟩
  · exact absurd none h
  · exact ⟨r, found, valid⟩

theorem Bootable.select_ne_none (h : Bootable D f slot) : selectOn D f ≠ slotNone :=
  fun none => selectOn_eq_none.mp none slot h

theorem selectOn_of_newest (found : recordOn D f slot = some r)
    (valid : imageValidOn D f slot r = true)
    (newest : ∀ r', recordOn D f (otherSlot slot) = some r' → r'.generation < r.generation) :
    selectOn D f = slot := by
  have isSlot := (recordOn_some found).1
  rcases selectOn_cases D f with ⟨_, unbootable⟩ | ⟨s, picked, _, rest⟩
  · exact absurd ⟨r, found, valid⟩ (unbootable slot)
  rcases isSlot.eq_or_other (recordOn_some picked).1 with same | other
  · exact same
  · rw [other] at picked
    -- the other slot would have to be older and no older at once
    have older := newest s picked
    have newer := rest slot r found valid
    bv_omega

theorem generation_le_highestOn (found : recordOn D f slot = some r) :
    r.generation ≤ highestOn D f := by
  obtain ⟨gen, scanned⟩ := scanned_bootSelect D f
  exact scanned.bound slot (recordOn_some found).1.mem r found

theorem selectOn_isSlot (D : Device) (f : Flash) :
    selectOn D f = slotNone ∨ IsSlot (selectOn D f) :=
  (bootSelect_queries D).answer (coherent f) (.bss D 0)

theorem decideOn_eq (D : Device) (f : Flash) (bootreq : Word) :
    decideOn D f bootreq =
      if bootreq = bootreqMagic ∨ selectOn D f = slotNone then none
      else some (D.slotBase (selectOn D f)) := by
  -- the selection never looks at RAM
  have same : (bootSelect D).answer (coherent f) (.bss D bootreq) = onFlash D f (bootSelect D) :=
    (bootSelect_queries D).answer_congr (fun _ _ => rfl) _ _
  unfold decideOn bootDecide
  rw [answer_bind, answer_get]
  change (if bootreq = bootreqMagic then _ else _ : Code (Option Word)).answer _ _ = _
  by_cases requested : bootreq = bootreqMagic
  · rw [if_pos requested, if_pos (.inl requested)]
    rfl
  · rw [if_neg requested, answer_bind, same]
    change (if selectOn D f = slotNone then _ else _ : Code (Option Word)).answer _ _ = _
    by_cases none : selectOn D f = slotNone
    · rw [if_pos none, if_pos (.inr none)]
      rfl
    · rw [if_neg none, if_neg (by simp [requested, none])]
      rfl

end OpenBoot
