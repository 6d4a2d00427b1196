import OpenBoot.Core.Protocol
import Mathlib.Data.Nat.Prime.Pow
import Mathlib.Data.Set.Operations
import Mathlib.Order.Interval.Set.Basic
import Mathlib.Order.CompletePartialOrder

/-! What one device is built with and made of: the constants the build injects,
the assertions it makes about them, and the identity of the silicon. -/

set_option autoImplicit false

namespace OpenBoot

def erasedWord : Word := 0xF3F9BDA9

/-- The record reserve at the top of every slot, independent of the erase block. -/
def recordBlock : Word := 4096

def slotA : Word := 0
def slotB : Word := 1
def slotCount : Word := 2
def slotNone : Word := 0xFFFFFFFF

/-- A build on a part. The propositions are the build's own assertions; the
    flash driver only builds for erase blocks of 4096 and 256, of which the core
    needs that a record fits in one. -/
structure Device where
  flashAppStart : Word
  flashAppEnd : Word
  eraseBlock : Word
  flashWritePage : Word
  slotSize : Word
  slotABase : Word
  slotBBase : Word
  features : Word
  chipFamily : Byte
  transportId : Byte
  /-- The build option that recomputes the image CRC at boot. -/
  bootImageCrc : Bool
  /-- Region end known for the chip-id byte; `none` when the id is unknown. -/
  silicon : Option Word
  chipRev : Byte
  uid : List Byte
  uid_length : uid.length = 8
  app_aligned : flashAppStart.toNat % eraseBlock.toNat = 0
  slot_aligned : slotSize.toNat % eraseBlock.toNat = 0
  record_whole : recordBlock.toNat % eraseBlock.toNat = 0
  record_fits : bootRecordSize ≤ eraseBlock.toNat
  slot_room : recordBlock.toNat < slotSize.toNat
  slotA_start : slotABase = flashAppStart
  slotB_start : slotBBase.toNat = slotABase.toNat + slotSize.toNat
  slotB_end : slotBBase.toNat + slotSize.toNat ≤ flashAppEnd.toNat

namespace Device

/-- Exclusive end of the app region: the build's, clamped by the silicon. -/
def appEnd (D : Device) : Word :=
  match D.silicon with
  | none => D.flashAppEnd
  | some silicon => if silicon < D.flashAppEnd then silicon else D.flashAppEnd

/-- XIP is authoritative for flash written this power cycle. -/
def crcLive (D : Device) : Bool := D.features &&& featCrcLive ≠ 0

def slotBase (D : Device) (slot : Word) : Word := D.slotABase + slot * D.slotSize

def slotImageMax (D : Device) : Word := D.slotSize - recordBlock

def slotRecordAddr (D : Device) (slot : Word) : Word := D.slotBase slot + D.slotImageMax

/-- Largest image the slot can hold; a slot the silicon cannot contain is
    unusable wholesale. -/
def slotCapacity (D : Device) (slot : Word) : Word :=
  if D.slotBase slot + D.slotSize > D.appEnd then 0 else D.slotImageMax

def bitmapBytes (D : Device) : Nat := (D.slotSize.toNat / D.eraseBlock.toNat + 7) / 8

end Device

def otherSlot (slot : Word) : Word := slot ^^^ 1

def IsSlot (slot : Word) : Prop := slot = slotA ∨ slot = slotB

theorem IsSlot.other {slot : Word} (h : IsSlot slot) : IsSlot (otherSlot slot) := by
  rcases h with rfl | rfl
  · exact .inr (by decide)
  · exact .inl (by decide)

@[simp] theorem otherSlot_otherSlot (slot : Word) : otherSlot (otherSlot slot) = slot := by
  unfold otherSlot
  rw [BitVec.xor_assoc, BitVec.xor_self, BitVec.xor_zero]

theorem otherSlot_ne (slot : Word) : otherSlot slot ≠ slot := by
  intro same
  have flip := congrArg (slot ^^^ ·) same
  simp only [otherSlot, ← BitVec.xor_assoc, BitVec.xor_self, BitVec.zero_xor] at flip
  exact absurd flip (by decide)

theorem IsSlot.ne_none {slot : Word} (h : IsSlot slot) : slot ≠ slotNone := by
  rcases h with rfl | rfl <;> decide

theorem IsSlot.lt_count {slot : Word} (h : IsSlot slot) : slot < slotCount := by
  rcases h with rfl | rfl <;> decide

theorem isSlot_iff {slot : Word} : IsSlot slot ↔ slot < slotCount := by
  refine ⟨IsSlot.lt_count, fun h => ?_⟩
  unfold IsSlot slotA slotB
  unfold slotCount at h
  bv_omega

theorem IsSlot.eq_or_other {slot s : Word} (h : IsSlot slot) (hs : IsSlot s) :
    s = slot ∨ s = otherSlot slot := by
  rcases h with rfl | rfl <;> rcases hs with rfl | rfl <;> decide

namespace Device

variable (D : Device)

def base (slot : Word) : Nat := (D.slotBase slot).toNat

def recordAt (slot : Word) : Nat := (D.slotRecordAddr slot).toNat

def block : Nat := D.eraseBlock.toNat

def span (slot : Word) : Set Nat := Set.Ico (D.base slot) (D.base slot + D.slotSize.toNat)

def imageArea (slot : Word) : Set Nat := Set.Ico (D.base slot) (D.recordAt slot)

/-- The silicon holds the whole slot. -/
def Fits (slot : Word) : Prop := D.slotCapacity slot ≠ 0

instance (slot : Word) : Decidable (D.Fits slot) := inferInstanceAs (Decidable (_ ≠ _))

theorem block_pos : 0 < D.block := by
  have fits := D.record_fits
  unfold bootRecordSize at fits
  unfold block
  omega

theorem base_slotA : D.base slotA = D.slotABase.toNat := by
  simp [base, slotBase, slotA]

theorem base_slotB : D.base slotB = D.slotABase.toNat + D.slotSize.toNat := by
  have top := D.slotB_start
  have region := D.slotB_end
  have bound := D.flashAppEnd.isLt
  simp only [base, slotBase, slotB, BitVec.toNat_add, BitVec.toNat_mul]
  simp
  omega

variable {slot : Word}

theorem span_le_appEnd (h : IsSlot slot) :
    D.base slot + D.slotSize.toNat ≤ D.flashAppEnd.toNat := by
  have top := D.slotB_start
  have region := D.slotB_end
  rcases h with rfl | rfl
  · rw [base_slotA]; omega
  · rw [base_slotB]; omega

theorem appStart_le_base (h : IsSlot slot) : D.flashAppStart.toNat ≤ D.base slot := by
  rw [← D.slotA_start]
  rcases h with rfl | rfl
  · rw [base_slotA]
  · rw [base_slotB]; omega

theorem span_lt (h : IsSlot slot) : D.base slot + D.slotSize.toNat < 2 ^ 32 :=
  (D.span_le_appEnd h).trans_lt D.flashAppEnd.isLt

theorem recordAt_add (h : IsSlot slot) :
    D.recordAt slot + 4096 = D.base slot + D.slotSize.toNat := by
  have room := D.slot_room
  have bound := D.span_lt h
  unfold recordAt slotRecordAddr slotImageMax
  unfold base at *
  unfold recordBlock at *
  simp only [BitVec.toNat_add, BitVec.toNat_sub] at *
  simp at *
  omega

theorem base_lt_recordAt (h : IsSlot slot) : D.base slot < D.recordAt slot := by
  have room := D.slot_room
  have top := D.recordAt_add h
  unfold recordBlock at room
  simp at room
  omega

theorem fits_iff (h : IsSlot slot) :
    D.Fits slot ↔ D.base slot + D.slotSize.toNat ≤ D.appEnd.toNat := by
  have room := D.slot_room
  have bound := D.span_lt h
  unfold base at *
  have sum : (D.slotBase slot + D.slotSize).toNat = (D.slotBase slot).toNat + D.slotSize.toNat := by
    rw [BitVec.toNat_add]
    omega
  have max : D.slotImageMax ≠ 0 := by
    intro zero
    have := congrArg BitVec.toNat zero
    unfold slotImageMax recordBlock at this
    unfold recordBlock at room
    simp [BitVec.toNat_sub] at this room
    omega
  unfold Fits slotCapacity
  rw [← sum, ← BitVec.le_def]
  by_cases small : D.slotBase slot + D.slotSize > D.appEnd
  · simp only [small, if_true, ne_eq, not_true_eq_false, false_iff]
    bv_omega
  · simp only [small, if_false, ne_eq, max, not_false_eq_true, true_iff]
    bv_omega

theorem slotCapacity_of_fits (fits : D.Fits slot) : D.slotCapacity slot = D.slotImageMax := by
  unfold Fits at fits
  unfold slotCapacity at fits ⊢
  split
  · next small => simp [small] at fits
  · rfl

theorem fits_of_slotB (fits : D.Fits slotB) (h : IsSlot slot) : D.Fits slot := by
  have upper := (D.fits_iff (.inr rfl)).mp fits
  rw [base_slotB] at upper
  apply (D.fits_iff h).mpr
  rcases h with rfl | rfl
  · rw [base_slotA]; omega
  · rw [base_slotB]; omega

theorem capacity_eq (h : IsSlot slot) (fits : D.Fits slot) :
    D.base slot + (D.slotCapacity slot).toNat = D.recordAt slot := by
  have room := D.slot_room
  have top := D.recordAt_add h
  unfold recordBlock at room
  simp at room
  rw [D.slotCapacity_of_fits fits]
  unfold slotImageMax recordBlock
  simp [BitVec.toNat_sub]
  omega

theorem span_disjoint (h : IsSlot slot) : Disjoint (D.span slot) (D.span (otherSlot slot)) := by
  rw [Set.disjoint_left]
  intro a mem mem'
  have other := D.span_lt h.other
  have other_a : otherSlot slotA = slotB := by decide
  have other_b : otherSlot slotB = slotA := by decide
  rcases h with rfl | rfl
  · rw [other_a] at mem'
    simp only [span, Set.mem_Ico, base_slotA, base_slotB] at mem mem'
    omega
  · rw [other_b] at mem'
    simp only [span, Set.mem_Ico, base_slotA, base_slotB] at mem mem'
    omega

theorem block_dvd_record : D.block ∣ 4096 := Nat.dvd_of_mod_eq_zero D.record_whole

theorem block_le : D.block ≤ 4096 := Nat.le_of_dvd (by decide) D.block_dvd_record

/-- An erase block that holds a record and divides the reserve is a whole
    number of words. -/
theorem four_dvd_block : 4 ∣ D.block := by
  have whole : D.block ∣ 2 ^ 12 := D.block_dvd_record
  obtain ⟨k, _, same⟩ := (Nat.dvd_prime_pow Nat.prime_two).mp whole
  have fits : 32 ≤ D.block := D.record_fits
  rw [same] at fits ⊢
  have two : 2 ≤ k := by
    by_contra small
    have : k = 0 ∨ k = 1 := by omega
    rcases this with rfl | rfl <;> omega
  exact pow_dvd_pow 2 two

theorem block_dvd_base (h : IsSlot slot) : D.block ∣ D.base slot := by
  have start := Nat.dvd_of_mod_eq_zero D.app_aligned
  rw [← D.slotA_start] at start
  rcases h with rfl | rfl
  · rw [base_slotA]
    exact start
  · rw [base_slotB]
    exact Nat.dvd_add start (Nat.dvd_of_mod_eq_zero D.slot_aligned)

theorem block_dvd_recordAt (h : IsSlot slot) : D.block ∣ D.recordAt slot := by
  have top : D.block ∣ D.recordAt slot + 4096 := by
    rw [D.recordAt_add h]
    exact Nat.dvd_add (D.block_dvd_base h) (Nat.dvd_of_mod_eq_zero D.slot_aligned)
  exact (Nat.dvd_add_left D.block_dvd_record).mp top

theorem four_dvd_recordAt (h : IsSlot slot) : 4 ∣ D.recordAt slot :=
  D.four_dvd_block.trans (D.block_dvd_recordAt h)

end Device

end OpenBoot
