import OpenBoot.Host.Damage

/-! Reading a bundle back: files with a given table, and where the running offset of `encode`
leaves its 32 bits. -/

set_option autoImplicit false

namespace OpenBoot.Host.Bundle

def Entry.bytes (e : Entry) : List Byte := put32 e.base ++ put32 e.len ++ put32 e.crc ++ put32 e.off

def sealed (chipFamily : Byte) (es : List Entry) (data : List Byte) : List Byte :=
  let head := magic ++ [formatMajor, formatMinor, chipFamily, BitVec.ofNat 8 es.length]
  let body := es.flatMap Entry.bytes ++ data
  head ++ put32 (hash (head ++ put32 0 ++ put32 0 ++ body)) ++ put32 0 ++ body

section
variable {chipFamily : Byte} {es : List Entry} {data : List Byte}

theorem flatMap_bytes_length (es : List Entry) :
    (es.flatMap Entry.bytes).length = es.length * entryLen := by
  induction es with
  | nil => rfl
  | cons e rest ih =>
    rw [List.flatMap_cons, List.length_append, ih, List.length_cons, Nat.succ_mul, Nat.add_comm]
    rfl

theorem sealed_length :
    (sealed chipFamily es data).length = headerLen + es.length * entryLen + data.length := by
  simp only [sealed, List.length_append, put32_length, flatMap_bytes_length]
  simp [magic, headerLen]
  omega

theorem sealed_drop : (sealed chipFamily es data).drop headerLen = es.flatMap Entry.bytes ++ data :=
  rfl

theorem sealed_count (few : es.length < 256) : variantCount (sealed chipFamily es data) = es.length :=
  Nat.mod_eq_of_lt few

theorem sealed_payloads (chipFamily : Byte) (es : List Entry) (data : List Byte) :
    (sealed chipFamily es data).drop (headerLen + es.length * entryLen) = data := by
  rw [← List.drop_drop, sealed_drop, List.drop_left' (flatMap_bytes_length es)]

theorem drop_flatMap_bytes (es : List Entry) (tail : List Byte) {i : Nat} (inside : i ≤ es.length) :
    (es.flatMap Entry.bytes ++ tail).drop (i * entryLen) =
      (es.drop i).flatMap Entry.bytes ++ tail := by
  induction i generalizing es with
  | zero => rw [Nat.zero_mul, List.drop_zero, List.drop_zero]
  | succ i ih =>
    cases es with
    | nil => exact absurd inside (Nat.not_succ_le_zero i)
    | cons e rest =>
      rw [Nat.succ_mul, Nat.add_comm, ← List.drop_drop]
      exact ih rest (Nat.le_of_succ_le_succ inside)

theorem entryAt_sealed {i : Nat} (inside : i < es.length) :
    entryAt (sealed chipFamily es data) i = es[i] := by
  have size : headerLen + (i + 1) * entryLen - (headerLen + i * entryLen) = entryLen := by
    rw [Nat.succ_mul]
    omega
  have entry : slice (sealed chipFamily es data) (headerLen + i * entryLen)
      (headerLen + (i + 1) * entryLen) = es[i].bytes := by
    rw [slice, size, ← List.drop_drop, sealed_drop, drop_flatMap_bytes es data inside.le,
      List.drop_eq_getElem_cons inside]
    rfl
  have base : slice es[i].bytes 0 4 = put32 es[i].base := rfl
  have len : slice es[i].bytes 4 8 = put32 es[i].len := rfl
  have crc : slice es[i].bytes 8 12 = put32 es[i].crc := rfl
  have off : slice es[i].bytes 12 16 = put32 es[i].off := rfl
  simp only [entryAt, entry, base, len, crc, off, get32_put32]

theorem declared_sealed (few : es.length < 256) : declared (sealed chipFamily es data) = es := by
  apply List.ext_getElem
  · rw [declared, List.length_map, List.length_range, sealed_count few]
  · intro i _ inside
    simp only [declared, List.getElem_map, List.getElem_range]
    exact entryAt_sealed inside

theorem tableEnd_sealed (few : es.length < 256) :
    tableEnd (sealed chipFamily es data) = headerLen + es.length * entryLen := by
  rw [tableEnd, sealed_count few]

theorem sealed_wellHeaded (some : es ≠ []) (few : es.length ≤ maxVariants) :
    WellHeaded (sealed chipFamily es data) where
  magic := rfl
  major := rfl
  some := by
    rw [sealed_count (few.trans_lt (by decide))]
    exact fun none => some (List.length_eq_zero_iff.mp none)
  few := by
    rw [sealed_count (few.trans_lt (by decide))]
    exact few
  reserved := get32_put32 0
  crc := get32_put32 _
  room := by
    rw [tableEnd_sealed (few.trans_lt (by decide)), sealed_length]
    omega

end

def written : Word → List Image → List Entry
  | _, [] => []
  | offset, img :: rest =>
    ⟨img.base, BitVec.ofNat 32 img.bytes.length, img.crc32, offset⟩ ::
      written (offset + BitVec.ofNat 32 img.bytes.length) rest

theorem written_length (offset : Word) (images : List Image) :
    (written offset images).length = images.length := by
  induction images generalizing offset with
  | nil => rfl
  | cons img rest ih => rw [written, List.length_cons, ih, List.length_cons]

theorem table_eq (offset : Word) (images : List Image) :
    table offset images = (written offset images).flatMap Entry.bytes := by
  induction images generalizing offset with
  | nil => rfl
  | cons img rest ih =>
    rw [table, ih, written, List.flatMap_cons]
    rfl

theorem encode_eq_sealed (b : Bundle) : b.encode =
    sealed b.chipFamily (written (BitVec.ofNat 32 (headerLen + b.images.length * entryLen)) b.images)
      (payloads b.images) := by
  rw [encode_eq]
  simp only [sealed, written_length, ← table_eq]
  simp [head, body, magic, put32]

/-- The offsets of these images fit their field when the first one is `offset`. -/
def OffsetsFit : Nat → List Image → Prop
  | _, [] => True
  | offset, img :: rest => offset < 2 ^ 32 ∧ OffsetsFit (offset + img.bytes.length) rest

/-- An offset that wraps points into the table. -/
theorem offsetsFit_of_after {tableEnd : Nat} {images : List Image} {offset : Nat}
    (apart : images.Pairwise fun a b => a.stop ≤ b.base.toNat)
    (low : ∀ img ∈ images, offset ≤ tableEnd + img.base.toNat)
    (after : ∀ e ∈ written (BitVec.ofNat 32 offset) images, tableEnd ≤ e.off.toNat) :
    OffsetsFit offset images := by
  induction images generalizing offset with
  | nil => trivial
  | cons img rest ih =>
    obtain ⟨first, later⟩ := List.pairwise_cons.mp apart
    obtain ⟨here, there⟩ := List.forall_mem_cons.mp after
    have start := low img List.mem_cons_self
    constructor
    · by_contra wide
      have base : img.base.toNat < 2 ^ 32 := img.base.isLt
      have wrapped : (BitVec.ofNat 32 offset).toNat = offset - 2 ^ 32 := by
        rw [BitVec.toNat_ofNat, Nat.mod_eq_sub_mod (by omega), Nat.mod_eq_of_lt (by omega)]
      simp only [wrapped] at here
      omega
    · apply ih later
      · intro next mem
        have := first next mem
        unfold Image.stop at this
        omega
      · rw [BitVec.ofNat_add]
        exact there

theorem written_honest {raw : List Byte} {tableEnd : Nat} {images : List Image} {offset : Nat}
    (fit : OffsetsFit offset images) (each : ∀ img ∈ images, Flashable img)
    (lengths : ∀ img ∈ images, img.bytes.length < 2 ^ 32) (after : tableEnd ≤ offset)
    (data : raw.drop offset = payloads images) (start : offset ≤ raw.length) :
    (∀ e ∈ written (BitVec.ofNat 32 offset) images, e.Honest raw tableEnd) ∧
      (written (BitVec.ofNat 32 offset) images).map (Entry.image · raw) = images := by
  -- the offset is the one the encoder has at this image, and it has not wrapped so far
  induction images generalizing offset with
  | nil => exact ⟨nofun, rfl⟩
  | cons img rest ih =>
    obtain ⟨small, later⟩ := fit
    obtain ⟨flashable, each⟩ := List.forall_mem_cons.mp each
    obtain ⟨length, lengths⟩ := List.forall_mem_cons.mp lengths
    have off : (BitVec.ofNat 32 offset).toNat = offset := Nat.mod_eq_of_lt small
    have len : (BitVec.ofNat 32 img.bytes.length).toNat = img.bytes.length := Nat.mod_eq_of_lt length
    have room := congrArg List.length data
    rw [List.length_drop, payloads_cons, List.length_append] at room
    have bytes : Entry.payload ⟨img.base, BitVec.ofNat 32 img.bytes.length, img.crc32,
        BitVec.ofNat 32 offset⟩ raw = img.bytes := by
      rw [Entry.payload, off, len]
      apply slice_of_drop (payloads rest) data
      omega
    obtain ⟨honest, same⟩ := ih later each lengths (by omega)
      (by rw [← List.drop_drop, data, payloads_cons, List.drop_left]) (by omega)
    rw [BitVec.ofNat_add] at honest same
    constructor
    · rw [written, List.forall_mem_cons]
      refine ⟨⟨?_, ?_, flashable.aligned, ?_, ?_, ?_⟩, honest⟩
      · intro zero
        have none : img.bytes.length = 0 := len.symm.trans (congrArg BitVec.toNat zero)
        exact flashable.some (List.length_eq_zero_iff.mp none)
      · apply BitVec.eq_of_toNat_eq
        rw [BitVec.toNat_umod, len]
        exact flashable.words
      · rw [off]
        exact after
      · rw [off, len]
        omega
      · rw [bytes]
        rfl
    · rw [written, List.map_cons, same, Entry.image, bytes]

/-- A bundle with good images is read back as it was exactly when its offsets fit. -/
theorem reread_iff {b : Bundle} (again : create b.chipFamily b.images = .ok b)
    (apart : b.images.Pairwise fun a b => a.stop ≤ b.base.toNat)
    (lengths : ∀ img ∈ b.images, img.bytes.length < 2 ^ 32) :
    parse b.encode = .ok b ↔ OffsetsFit (headerLen + b.images.length * entryLen) b.images := by
  obtain ⟨some, few, each, -⟩ := create_ok.mp again
  have count := written_length (BitVec.ofNat 32 (headerLen + b.images.length * entryLen)) b.images
  have few' : (written (BitVec.ofNat 32 (headerLen + b.images.length * entryLen)) b.images).length
      ≤ maxVariants := by
    rw [count]
    exact few
  have small := few'.trans_lt (show maxVariants < 256 by decide)
  have some' : written (BitVec.ofNat 32 (headerLen + b.images.length * entryLen)) b.images ≠ [] := by
    intro none
    rw [none] at count
    exact some (List.length_eq_zero_iff.mp count.symm)
  rw [encode_eq_sealed, parse_eq_ok, declared_sealed small, tableEnd_sealed small, count]
  constructor
  · rintro ⟨-, honest, -⟩
    apply offsetsFit_of_after apart _ fun e mem => (honest e mem).after
    intro img _
    omega
  · intro fit
    have data := sealed_payloads b.chipFamily (written
      (BitVec.ofNat 32 (headerLen + b.images.length * entryLen)) b.images) (payloads b.images)
    rw [count] at data
    obtain ⟨honest, same⟩ := written_honest fit each lengths le_rfl data
      (by rw [sealed_length, count]; omega)
    exact ⟨sealed_wellHeaded some' few', honest, by rw [same]; exact again⟩

end OpenBoot.Host.Bundle
