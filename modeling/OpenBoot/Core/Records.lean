import OpenBoot.Core.Reading

/-! Boot records as bytes: their round trip, the ones the core stores, and why
an interrupted store cannot look like anything else. -/

set_option autoImplicit false

namespace OpenBoot

open Semantics Program

theorem put32_get32_take {b : List Byte} (long : 4 ≤ b.length) : put32 (get32 b) = b.take 4 := by
  match b, long with
  | w :: x :: y :: z :: rest, _ => exact put32_get32 w x y z

theorem get32_drop_take {b : List Byte} {j n : Nat} (inside : j + 4 ≤ n) :
    get32 ((b.take n).drop j) = get32 (b.drop j) := by
  have field : ∀ i, i < 4 → ((b.take n).drop j).getD i 0 = (b.drop j).getD i 0 := by
    intro i small
    simp only [List.getD_eq_getElem?_getD, List.getElem?_drop, List.getElem?_take]
    rw [if_pos (by omega)]
  unfold get32
  rw [field 0 (by omega), field 1 (by omega), field 2 (by omega), field 3 (by omega)]

namespace BootRecord

theorem bytes_length {r : BootRecord} (rsvd : r.rsvd.length = recordRsvdBytes) :
    r.bytes.length = bootRecordSize := by
  simp [bytes, rsvd, recordRsvdBytes, bootRecordSize]

theorem ofBytes_bytes {r : BootRecord} (rsvd : r.rsvd.length = recordRsvdBytes) :
    ofBytes r.bytes = r := by
  obtain ⟨magic, generation, imgLen, imgCrc32, reserved, recCrc32⟩ := r
  simp only [recordRsvdBytes] at rsvd
  have drop4 : ∀ (v : Word) (rest : List Byte), (put32 v ++ rest).drop 4 = rest := fun _ _ => rfl
  have drops : ∀ (k : Nat) (v : Word) (rest : List Byte),
      (put32 v ++ rest).drop (k + 4) = rest.drop k := fun _ _ _ => rfl
  have last : (reserved ++ put32 recCrc32).drop 12 = put32 recCrc32 := by
    rw [← rsvd, List.drop_left]
  have reserved_field : (reserved ++ put32 recCrc32).take 12 = reserved := by
    rw [← rsvd, List.take_left]
  simp only [ofBytes, bytes, List.append_assoc, recordRsvdBytes, get32_put32_append]
  rw [drop4, drops 4, drop4, drops 8, drops 4, drop4, drops 12, drops 8, drops 4, drop4,
    drops 24, drops 20, drops 16, drops 12, last, reserved_field]
  simp

theorem bytes_ofBytes {b : List Byte} (size : b.length = bootRecordSize) :
    (ofBytes b).bytes = b := by
  simp only [bootRecordSize] at size
  simp only [bytes, ofBytes, recordRsvdBytes]
  rw [put32_get32_take (by omega), put32_get32_take (by simp; omega),
    put32_get32_take (by simp; omega), put32_get32_take (by simp; omega),
    put32_get32_take (by simp; omega)]
  have tail : (b.drop 28).take 4 = b.drop 28 := List.take_of_length_le (by simp; omega)
  have join : ∀ i j, b.take i ++ (b.drop i).take j = b.take (i + j) := fun i j =>
    List.take_add.symm
  rw [tail, join, join, join, join, List.take_append_drop]

/-- The first 28 bytes and the CRC word determine a record. -/
theorem ofBytes_eq {b b' : List Byte} (head : b.take recordCrcLen = b'.take recordCrcLen)
    (crc : (ofBytes b).recCrc32 = (ofBytes b').recCrc32) : ofBytes b = ofBytes b' := by
  have field : ∀ j, j + 4 ≤ recordCrcLen → get32 (b.drop j) = get32 (b'.drop j) := by
    intro j inside
    rw [← get32_drop_take (b := b) inside, head, get32_drop_take inside]
  have rsvd : (b.drop 16).take recordRsvdBytes = (b'.drop 16).take recordRsvdBytes := by
    have slice : ∀ c : List Byte,
        (c.drop 16).take recordRsvdBytes = (c.take recordCrcLen).drop 16 :=
      fun c => List.take_drop
    rw [slice, slice, head]
  simp only [ofBytes, mk.injEq]
  exact ⟨field 0 (by decide), field 4 (by decide), field 8 (by decide), field 12 (by decide), rsvd,
    crc⟩

variable {generation imgLen imgCrc32 : Word}

@[simp] theorem sealed_rsvd_length :
    (sealed generation imgLen imgCrc32).rsvd.length = recordRsvdBytes := List.length_replicate

@[simp] theorem sealed_bytes_length :
    (sealed generation imgLen imgCrc32).bytes.length = bootRecordSize :=
  bytes_length sealed_rsvd_length

theorem sealed_crc : crc32 ((sealed generation imgLen imgCrc32).bytes.take recordCrcLen) =
    (sealed generation imgLen imgCrc32).recCrc32 := rfl

theorem sealed_accepted {D : Device} {slot : Word} (nonzero : generation ≠ 0)
    (geometry : Geometry D slot imgLen) : Accepted D slot (sealed generation imgLen imgCrc32) :=
  ⟨rfl, sealed_crc, fun _ mem => List.eq_of_mem_replicate mem, nonzero, geometry⟩

end BootRecord

theorem erasedByte_ne_zero {a : Nat} (aligned : 4 ∣ a) : erasedByte a ≠ 0 := by
  unfold erasedByte
  rw [Nat.mod_eq_zero_of_dvd aligned]
  decide

/-- The record area after `k` words of a sealed record reached erased flash:
    whatever is accepted there is the complete record. -/
theorem accepted_torn {D : Device} {slot generation imgLen imgCrc32 : Word} {at_ k : Nat}
    (aligned : 4 ∣ at_) {f : Flash} (erased : Nor.Erased erasedByte f at_ bootRecordSize)
    (accepted : Accepted D slot (.ofBytes (Flash.bytes
      (Nor.program f at_ ((BootRecord.sealed generation imgLen imgCrc32).bytes.take (4 * k)))
      at_ bootRecordSize))) :
    BootRecord.ofBytes (Flash.bytes
      (Nor.program f at_ ((BootRecord.sealed generation imgLen imgCrc32).bytes.take (4 * k)))
      at_ bootRecordSize) = .sealed generation imgLen imgCrc32 := by
  have length : (BootRecord.sealed generation imgLen imgCrc32).bytes.length = 32 :=
    BootRecord.sealed_bytes_length
  have sealed_back : BootRecord.ofBytes (BootRecord.sealed generation imgLen imgCrc32).bytes =
      .sealed generation imgLen imgCrc32 := BootRecord.ofBytes_bytes BootRecord.sealed_rsvd_length
  have sealed_crc : crc32 ((BootRecord.sealed generation imgLen imgCrc32).bytes.take
      recordCrcLen) = (BootRecord.sealed generation imgLen imgCrc32).recCrc32 :=
    BootRecord.sealed_crc
  generalize BootRecord.sealed generation imgLen imgCrc32 = r at *
  have seen := erased.read_program (r.bytes.take (4 * k))
    (by rw [List.length_take, length, bootRecordSize]; omega)
  generalize hb : Flash.bytes (Nor.program f at_ (r.bytes.take (4 * k))) at_ bootRecordSize = b at *
  change Flash.bytes _ _ _ = _ at seen
  rw [hb] at seen
  have size : b.length = bootRecordSize := by rw [← hb]; simp
  by_cases short : k ≤ 6
  -- the last reserved word is still erased, and an erased word is not zero
  · have zero : (BootRecord.ofBytes b).rsvd[8]? = some 0 := by
      have long : 8 < (BootRecord.ofBytes b).rsvd.length := by
        simp [BootRecord.ofBytes, recordRsvdBytes, size, bootRecordSize]
      rw [List.getElem?_eq_getElem long]
      exact congrArg some (accepted.rsvd _ (List.getElem_mem long))
    have taken : (r.bytes.take (4 * k)).length = 4 * k := by rw [List.length_take, length]; omega
    have erased_at : b[24]? = some (erasedByte (at_ + 24)) := by
      have address : at_ + 4 * k + (24 - 4 * k) = at_ + 24 := by omega
      rw [seen, List.getElem?_append_right (by omega), taken, List.getElem?_map,
        List.getElem?_range (by rw [bootRecordSize]; omega), Option.map_some, address]
    simp only [BootRecord.ofBytes, recordRsvdBytes, List.getElem?_take, List.getElem?_drop] at zero
    rw [if_pos (by omega), erased_at] at zero
    exact absurd (Option.some.inj zero) (erasedByte_ne_zero (by omega))
  -- only the CRC word can be missing, and the check pins it down
  · have head : b.take recordCrcLen = r.bytes.take recordCrcLen := by
      rw [seen, List.take_append_of_le_length
        (by rw [List.length_take, length, recordCrcLen]; omega), List.take_take,
        Nat.min_eq_left (by rw [recordCrcLen]; omega)]
    have crc := accepted.crc
    rw [BootRecord.bytes_ofBytes size, head, sealed_crc] at crc
    rw [BootRecord.ofBytes_eq head (by rw [← crc, sealed_back]), sealed_back]

end OpenBoot
