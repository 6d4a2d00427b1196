import OpenBoot.Host.Bundle
import OpenBoot.Host.Guarded

/-! What `Bundle::parse` accepts, entry by entry, and that it stays inside the file. -/

set_option autoImplicit false

namespace OpenBoot.Host.Bundle

structure Entry where
  base : Word
  len : Word
  crc : Word
  off : Word

def entryAt (raw : List Byte) (i : Nat) : Entry :=
  let e := slice raw (headerLen + i * entryLen) (headerLen + (i + 1) * entryLen)
  ⟨get32 (slice e 0 4), get32 (slice e 4 8), get32 (slice e 8 12), get32 (slice e 12 16)⟩

def Entry.payload (e : Entry) (raw : List Byte) : List Byte :=
  slice raw e.off.toNat (e.off.toNat + e.len.toNat)

structure Entry.Honest (e : Entry) (raw : List Byte) (tableEnd : Nat) : Prop where
  some : e.len ≠ 0
  words : e.len % 4 = 0
  aligned : e.base % 4 = 0
  after : tableEnd ≤ e.off.toNat
  inside : e.off.toNat + e.len.toNat ≤ raw.length
  crc : hash (e.payload raw) = e.crc

def Entry.image (e : Entry) (raw : List Byte) : Image := ⟨e.base, e.payload raw⟩

def variantCount (raw : List Byte) : Nat := (raw.getD 7 0).toNat

def declared (raw : List Byte) : List Entry := (List.range (variantCount raw)).map (entryAt raw)

def tableEnd (raw : List Byte) : Nat := headerLen + variantCount raw * entryLen

theorem slice_length {raw : List Byte} {lo hi : Nat} (inside : hi ≤ raw.length) :
    (slice raw lo hi).length = hi - lo := by
  rw [slice, List.length_take, List.length_drop]
  omega

theorem Entry.Honest.payload_length {e : Entry} {raw : List Byte} {tableEnd : Nat}
    (h : e.Honest raw tableEnd) : (e.payload raw).length = e.len.toNat := by
  rw [Entry.payload, slice_length h.inside]
  omega

theorem Entry.Honest.flashable {e : Entry} {raw : List Byte} {tableEnd : Nat}
    (h : e.Honest raw tableEnd) : Flashable (e.image raw) where
  aligned := h.aligned
  some := by
    intro none
    have empty : e.len.toNat = 0 := by
      rw [← h.payload_length]
      exact congrArg List.length none
    exact h.some (BitVec.eq_of_toNat_eq empty)
  words := by
    have words := congrArg BitVec.toNat h.words
    rw [BitVec.toNat_umod] at words
    change (e.payload raw).length % 4 = 0
    rw [h.payload_length]
    exact words

theorem entries_eq_ok {raw : List Byte} {tableEnd left i : Nat} {images : List Image} :
    entries raw tableEnd left i = .ok images ↔
      (∀ j < left, (entryAt raw (i + j)).Honest raw tableEnd) ∧
        images = (List.range left).map fun j => (entryAt raw (i + j)).image raw := by
  -- by the entries left; the first is checked before any of the rest is looked at
  induction left generalizing i images with
  | zero =>
    constructor
    · rintro ⟨⟩
      exact ⟨nofun, rfl⟩
    · rintro ⟨-, rfl⟩
      rfl
  | succ left ih =>
    have later : ∀ j, i + 1 + j = i + (j + 1) := fun j => by omega
    have honest : (∀ j < left + 1, (entryAt raw (i + j)).Honest raw tableEnd) ↔
        (entryAt raw i).Honest raw tableEnd ∧
          ∀ j < left, (entryAt raw (i + 1 + j)).Honest raw tableEnd := by
      simp only [later]
      exact Nat.forall_lt_succ_left
    have list : (List.range (left + 1)).map (fun j => (entryAt raw (i + j)).image raw) =
        (entryAt raw i).image raw ::
          (List.range left).map fun j => (entryAt raw (i + 1 + j)).image raw := by
      rw [List.range_succ_eq_map, List.map_cons, List.map_map]
      simp only [later]
      rfl
    rw [honest, list]
    simp only [entries, bail_bind, ite_bail_eq_ok, bind_eq_ok, ih, not_or, Decidable.not_not, not_lt,
      gt_iff_lt, ne_eq]
    constructor
    · rintro ⟨⟨some, words⟩, aligned, ⟨after, inside⟩, crc, _, ⟨rest, rfl⟩, made⟩
      exact ⟨⟨⟨some, words, aligned, after, inside, crc⟩, rest⟩, (Except.ok.inj made).symm⟩
    · rintro ⟨⟨first, rest⟩, rfl⟩
      exact ⟨⟨first.some, first.words⟩, first.aligned, ⟨first.after, first.inside⟩, first.crc, _,
        ⟨rest, rfl⟩, rfl⟩

structure WellHeaded (raw : List Byte) : Prop where
  magic : slice raw 0 4 = magic
  major : raw.getD 4 0 = formatMajor
  some : variantCount raw ≠ 0
  few : variantCount raw ≤ maxVariants
  reserved : get32 (slice raw 12 16) = 0
  crc : get32 (slice raw 8 12) = hash (raw.take 8 ++ put32 0 ++ raw.drop 12)
  room : tableEnd raw ≤ raw.length

theorem parse_eq_ok {raw : List Byte} {b : Bundle} :
    parse raw = .ok b ↔ WellHeaded raw ∧
      (∀ e ∈ declared raw, e.Honest raw (tableEnd raw)) ∧
        create (raw.getD 6 0) ((declared raw).map (Entry.image · raw)) = .ok b := by
  have images : (List.range (variantCount raw)).map (fun j => (entryAt raw (0 + j)).image raw) =
      (declared raw).map (Entry.image · raw) := by
    simp [declared, Function.comp_def]
  have honest : (∀ j < variantCount raw, (entryAt raw (0 + j)).Honest raw (tableEnd raw)) ↔
      ∀ e ∈ declared raw, e.Honest raw (tableEnd raw) := by
    simp [declared]
  simp only [parse, bail_bind, ite_bail_eq_ok, bind_eq_ok, context_eq_ok, entries_eq_ok, not_or,
    Decidable.not_not, not_lt, gt_iff_lt, ne_eq]
  constructor
  · rintro ⟨-, magic, major, ⟨some, few⟩, reserved, crc, room, _, ⟨all, rfl⟩, made⟩
    exact ⟨⟨magic, major, some, few, reserved, crc, room⟩, honest.mp all,
      (congrArg (create _) images).symm.trans made⟩
  · rintro ⟨head, all, made⟩
    have long : headerLen ≤ raw.length := (Nat.le_add_right _ _).trans head.room
    exact ⟨long, head.magic, head.major, ⟨head.some, head.few⟩, head.reserved, head.crc, head.room, _,
      ⟨honest.mpr all, rfl⟩, (congrArg (create _) images).trans made⟩

end OpenBoot.Host.Bundle
