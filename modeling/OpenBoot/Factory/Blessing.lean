import OpenBoot.Factory.Compose
import OpenBoot.Update.Idle
import OpenBoot.Update.Representation

/-! A blessed factory image on a blank part: what the boot decision makes of it, and where the
first update goes. -/

set_option autoImplicit false

namespace OpenBoot.Factory

open Semantics Program

def written (out : List Byte) : Flash := programBytes (Nor.blank erasedByte) 0 out

structure Suits (D : Device) : Prop where
  start : D.flashAppStart = appBase
  fits : D.Fits slotA

variable {D : Device} {openboot app out : List Byte} {f : Flash}

theorem written_slice {before part after : List Byte} (layout : out = before ++ (part ++ after)) :
    (written out).bytes before.length part.length = part := by
  have blank : Nor.Erased erasedByte (Nor.blank erasedByte) 0 out.length := fun a _ _ => rfl
  have settled : Nor.Settled (written out) 0 out := blank.program (Nat.le_refl _)
  have settled : Nor.Settled (written out) 0 (before ++ (part ++ after)) := by rwa [← layout]
  have slice := settled.slice
  rwa [Nat.zero_add] at slice

theorem written_cell (a : Nat) :
    written out a = out[a]?.elim (Nor.blank erasedByte a) fun d => ⟨d, d⟩ :=
  Nor.program_blank (Nat.zero_le a)

theorem written_blank {lo len : Nat} (beyond : out.length ≤ lo) :
    Nor.Erased erasedByte (written out) lo len := fun _ low _ =>
  Nor.program_outside (.inr ((Nat.zero_add _).trans_le (beyond.trans low)))

def factoryRecord (app : List Byte) : BootRecord :=
  .sealed 1 (BitVec.ofNat 32 (padded app).length) (crc32 (padded app))

structure Blessed (D : Device) (app : List Byte) (f : Flash) : Prop where
  geometry : Geometry D slotA (BitVec.ofNat 32 (padded app).length)
  whole : (BitVec.ofNat 32 (padded app).length).toNat = (padded app).length
  long : 4 ≤ (padded app).length
  image : f.bytes (D.base slotA) (padded app).length = padded app
  record : f.bytes (D.recordAt slotA) bootRecordSize = (factoryRecord app).bytes
  blank : recordOn D f slotB = none

theorem blessed_of_ok {appMax : Option Int} (suits : Suits D)
    (ok : composeFactory openboot app appMax (some ((D.slotCapacity slotA).toNat : Int)) = .ok out) :
    Blessed D app (written out) := by
  have bound := (D.slotCapacity slotA).isLt
  have composed := composed_of_ok bound ok
  have fits := composed.fits
  have long := padded_nonempty composed.some
  have whole : (BitVec.ofNat 32 (padded app).length).toNat = (padded app).length := by
    rw [BitVec.toNat_ofNat, Nat.mod_eq_of_lt (by omega)]
  have base : D.base slotA = openbootRegionBytes := by
    rw [D.base_slotA, D.slotA_start, suits.start]
    rfl
  have recordAt : openbootRegionBytes + (D.slotCapacity slotA).toNat = D.recordAt slotA := by
    rw [← base, D.capacity_eq (.inl rfl) suits.fits]
  obtain ⟨head, length, layout⟩ := composed.layout
  have size : (factoryRecord app).bytes.length = 32 := BootRecord.sealed_bytes_length
  refine ⟨⟨?_, ?_, ?_⟩, whole, long, ?_, ?_, ?_⟩
  · intro zero
    rw [zero] at whole
    exact absurd whole (by change 0 ≠ _; omega)
  · apply BitVec.eq_of_toNat_eq
    rw [BitVec.toNat_umod, whole]
    exact Nat.mod_eq_zero_of_dvd (padded_length app).1
  · rw [BitVec.le_def, whole]
    exact fits
  · have slice := written_slice layout
    rwa [length, ← base] at slice
  -- the zeros end where the record begins
  · have front : (head ++ (padded app ++
        zeros ((D.slotCapacity slotA).toNat - (padded app).length))).length = D.recordAt slotA := by
      simp only [List.length_append, length, zeros, List.length_replicate]
      omega
    have layout : out = (head ++ (padded app ++
        zeros ((D.slotCapacity slotA).toNat - (padded app).length))) ++
          ((factoryRecord app).bytes ++ []) := by
      rw [layout, List.append_nil, List.append_assoc, List.append_assoc, factoryRecord]
    have slice := written_slice layout
    rwa [front, size] at slice
  · apply recordOn_erased
    apply written_blank
    have total : out.length = D.recordAt slotA + 32 := by
      rw [layout]
      simp only [List.length_append, length, zeros, List.length_replicate,
        BootRecord.sealed_bytes_length, bootRecordSize]
      omega
    have low := D.base_lt_recordAt (.inr rfl : IsSlot slotB)
    have top := D.recordAt_add (.inl rfl : IsSlot slotA)
    rw [D.base_slotB, ← D.base_slotA] at low
    omega

namespace Blessed

variable (blessed : Blessed D app f)
include blessed

theorem recordOn_slotA : recordOn D f slotA = some (factoryRecord app) := by
  apply recordOn_eq_some (.inl rfl)
  · exact BootRecord.sealed_accepted (by decide) blessed.geometry
  · rw [blessed.record]
    exact BootRecord.ofBytes_bytes BootRecord.sealed_rsvd_length

/-- With and without the image CRC, the image is accepted unless it begins as blank flash. -/
theorem imageValidOn_slotA (nonblank : get32 (padded app) ≠ erasedWord) :
    imageValidOn D f slotA (factoryRecord app) = true := by
  apply (imageValidOn_iff (.inl rfl) blessed.geometry).mpr
  constructor
  · intro _
    change crc32 (f.bytes _ (BitVec.ofNat 32 (padded app).length).toNat) = _
    rw [blessed.whole, blessed.image]
    rfl
  · have first : f.bytes (D.base slotA) 4 = (padded app).take 4 := by
      have split : (padded app).length = 4 + ((padded app).length - 4) := by
        have := blessed.long
        omega
      have image := blessed.image
      rw [split, Flash.bytes_add] at image
      rw [← image, List.take_left' (Flash.bytes_length _ _ _)]
    change get32 (f.bytes (D.base slotA) 4) ≠ erasedWord
    rwa [first, show get32 ((padded app).take 4) = get32 (padded app) from
      get32_drop_take (b := padded app) (j := 0) (Nat.le_refl 4)]

theorem highest : highestOn D f = 1 := by
  unfold highestOn bootSelect
  rw [onFlash_bootSelectLoop, blessed.recordOn_slotA]
  simp only [onFlash_bootSelectLoop, blessed.blank]
  split <;> rfl

theorem selected (nonblank : get32 (padded app) ≠ erasedWord) : selectOn D f = slotA := by
  apply selectOn_of_newest blessed.recordOn_slotA (blessed.imageValidOn_slotA nonblank)
  intro r other
  have none : recordOn D f (otherSlot slotA) = none := blessed.blank
  rw [none] at other
  cases other

end Blessed

end OpenBoot.Factory
