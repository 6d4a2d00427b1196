import OpenBoot.Host.Rereading

/-! `Bundle::parse` on arbitrary bytes: it stays inside the file, and what it accepts is
well formed. -/

set_option autoImplicit false

namespace OpenBoot.Host.Bundle

/-- `entries` with the panics of its slices. -/
def entriesGuarded (raw : List Byte) (tableEnd : Nat) : Nat → Nat → Guarded (List Image)
  | 0, _ => pure []
  | left + 1, i => do
    let e ← Guarded.slice raw (headerLen + i * entryLen) (headerLen + (i + 1) * entryLen)
    let base ← Guarded.le32 (← Guarded.slice e 0 4)
    let len ← Guarded.le32 (← Guarded.slice e 4 8)
    let crc ← Guarded.le32 (← Guarded.slice e 8 12)
    let off ← Guarded.le32 (← Guarded.slice e 12 16)
    if len = 0 ∨ len % 4 ≠ 0 then
      Guarded.ofFallible (bail ("variant " ++ toString i ++ " length " ++ toString len.toNat ++
        " is not a nonzero multiple of 4"))
    if base % 4 ≠ 0 then
      Guarded.ofFallible (bail ("variant " ++ toString i ++ " base " ++ hex8 base ++
        " is not 4-byte aligned"))
    let stop := off.toNat + len.toNat
    if off.toNat < tableEnd ∨ stop > raw.length then
      Guarded.ofFallible (bail ("variant " ++ toString i ++ " payload [" ++ toString off.toNat ++
        ", " ++ toString stop ++ ") lies outside the bundle"))
    let bytes ← Guarded.slice raw off.toNat stop
    let got := hash bytes
    if got ≠ crc then
      Guarded.ofFallible (bail ("variant " ++ toString i ++ " (base " ++ hex8 base ++
        ") CRC mismatch: stored " ++ hex8 crc ++ ", computed " ++ hex8 got))
    let rest ← entriesGuarded raw tableEnd left (i + 1)
    return ⟨base, bytes⟩ :: rest

def parseGuarded (raw : List Byte) : Guarded Bundle := do
  if raw.length < headerLen then
    Guarded.ofFallible (bail ("too short to be a bundle (" ++ toString raw.length ++ " bytes)"))
  if (← Guarded.slice raw 0 4) ≠ magic then Guarded.ofFallible (bail "not a bundle: bad magic")
  let major ← Guarded.index raw 4
  let minor ← Guarded.index raw 5
  if major ≠ formatMajor then
    Guarded.ofFallible (bail ("bundle format " ++ toString major.toNat ++ "." ++
      toString minor.toNat ++ " is not supported by this tool (expected major " ++
      toString formatMajor.toNat ++ "); a major bump is incompatible"))
  let chipFamily ← Guarded.index raw 6
  let count := (← Guarded.index raw 7).toNat
  if count = 0 ∨ count > maxVariants then
    Guarded.ofFallible (bail ("bundle declares " ++ toString count ++ " variants (allowed 1..=" ++
      toString maxVariants ++ ")"))
  if (← Guarded.le32 (← Guarded.slice raw 12 16)) ≠ 0 then
    Guarded.ofFallible (bail "bundle reserved field is not zero")
  let stated ← Guarded.le32 (← Guarded.slice raw 8 12)
  -- `zeroed[8..12].fill(0)` slices the copy
  let field ← Guarded.slice raw 8 12
  let actual := hash (raw.take 8 ++ field.map (fun _ => 0) ++ raw.drop 12)
  if stated ≠ actual then
    Guarded.ofFallible (bail ("bundle CRC mismatch: stored " ++ hex8 stated ++ ", computed " ++
      hex8 actual))
  let tableEnd := headerLen + count * entryLen
  if raw.length < tableEnd then
    Guarded.ofFallible (bail ("bundle truncated: " ++ toString count ++ " variants need " ++
      toString tableEnd ++ " bytes of header"))
  let images ← entriesGuarded raw tableEnd count 0
  Guarded.ofFallible (context "bundle contents" (create chipFamily images))

section
variable {raw : List Byte} {lo hi : Nat}

theorem slice_inside (order : lo ≤ hi) (inside : hi ≤ raw.length) :
    Guarded.slice raw lo hi = pure (slice raw lo hi) := Guarded.slice_eq order inside

theorem le32_slice (four : lo + 4 ≤ hi) (inside : hi ≤ raw.length) :
    Guarded.le32 (slice raw lo hi) = pure (get32 (slice raw lo hi)) := by
  apply Guarded.le32_eq
  rw [slice_length inside]
  omega

theorem index_inside (inside : lo < raw.length) : Guarded.index raw lo = pure (raw.getD lo 0) := by
  rw [Guarded.index_eq inside, List.getD_eq_getElem _ _ inside]

end

theorem entriesGuarded_eq {raw : List Byte} {tableEnd left i : Nat}
    (room : headerLen + (i + left) * entryLen ≤ raw.length) :
    entriesGuarded raw tableEnd left i = Guarded.ofFallible (entries raw tableEnd left i) := by
  induction left generalizing i with
  | zero => rfl
  | succ left ih =>
    have rest := ih (i := i + 1) (by rw [Nat.add_right_comm]; exact room)
    have inside : headerLen + (i + 1) * entryLen ≤ raw.length := by
      have : (i + 1) * entryLen ≤ (i + (left + 1)) * entryLen := Nat.mul_le_mul_right _ (by omega)
      omega
    have order : headerLen + i * entryLen ≤ headerLen + (i + 1) * entryLen := by
      rw [Nat.succ_mul]
      omega
    have size : (slice raw (headerLen + i * entryLen) (headerLen + (i + 1) * entryLen)).length =
        16 := by
      rw [slice_length inside, Nat.succ_mul]
      unfold entryLen
      omega
    unfold entriesGuarded entries
    rw [slice_inside order inside]
    simp (disch := omega) only [slice_inside, le32_slice, pure_bind, ↓Guarded.bail_bind, ↓bail_bind,
      Guarded.ofFallible_ite, Guarded.ofFallible_bind]
    split <;> [rfl; skip]
    split <;> [rfl; skip]
    split <;> [rfl; skip]
    split <;> [rfl; skip]
    rw [rest]
    rfl

/-- No index of `parse` is out of range, whatever the bytes. -/
theorem parseGuarded_eq (raw : List Byte) : parseGuarded raw = Guarded.ofFallible (parse raw) := by
  unfold parseGuarded parse
  by_cases short : raw.length < headerLen
  · simp only [short, if_true]
    rfl
  have long : 16 ≤ raw.length := Nat.le_of_not_lt short
  have cleared : (slice raw 8 12).map (fun _ => (0 : Byte)) = put32 0 := by
    rw [List.map_const', slice_length (by omega)]
    rfl
  simp (disch := omega) only [short, if_false, slice_inside, le32_slice, index_inside, cleared,
    pure_bind, ↓Guarded.bail_bind, ↓bail_bind, Guarded.ofFallible_ite, Guarded.ofFallible_bind]
  split <;> [rfl; skip]
  split <;> [rfl; skip]
  split <;> [rfl; skip]
  split <;> [rfl; skip]
  split <;> [rfl; skip]
  split <;> [rfl; skip]
  next room =>
    rw [entriesGuarded_eq (by rw [Nat.zero_add]; exact Nat.le_of_not_lt room)]

/-- The image is a slice of the file, after the table, that an entry points to and
    whose CRC is the stored one. -/
def Stored (raw : List Byte) (img : Image) : Prop :=
  ∃ e ∈ declared raw, tableEnd raw ≤ e.off.toNat ∧ e.off.toNat + e.len.toNat ≤ raw.length ∧
    img.base = e.base ∧ img.bytes = slice raw e.off.toNat (e.off.toNat + e.len.toNat) ∧
      hash img.bytes = e.crc

structure Sound (raw : List Byte) (b : Bundle) : Prop where
  some : 1 ≤ b.images.length
  few : b.images.length ≤ 8
  ascending : b.images.Pairwise fun a b => a.base < b.base
  flashable : ∀ img ∈ b.images, Flashable img
  disjoint : b.images.Pairwise fun a b => a.stop ≤ b.base.toNat
  stored : ∀ img ∈ b.images, Stored raw img
  crc : get32 (slice raw 8 12) = hash (zeroed raw)

theorem pairwise_of_apart {images : List Image} (apart : images.IsChain Apart) :
    images.Pairwise fun a b => a.base < b.base ∧ a.stop ≤ b.base.toNat := by
  have trans : ∀ a b c : Image, a.base < b.base ∧ a.stop ≤ b.base.toNat →
      b.base < c.base ∧ b.stop ≤ c.base.toNat → a.base < c.base ∧ a.stop ≤ c.base.toNat := by
    rintro a b c ⟨less, before⟩ ⟨less', -⟩
    exact ⟨BitVec.lt_trans less less', before.trans (BitVec.le_def.mp (BitVec.le_of_lt less'))⟩
  have : IsTrans Image fun a b => a.base < b.base ∧ a.stop ≤ b.base.toNat := ⟨trans⟩
  apply List.IsChain.pairwise
  refine apart.imp fun a b ⟨other, before⟩ => ⟨?_, before⟩
  have less := (Nat.le_add_right _ _).trans before
  exact BitVec.lt_def.mpr (Nat.lt_of_le_of_ne less fun same => other (BitVec.eq_of_toNat_eq same))

theorem sound_of_parse {raw : List Byte} {b : Bundle} (parsed : parse raw = .ok b) : Sound raw b := by
  obtain ⟨head, honest, made⟩ := parse_eq_ok.mp parsed
  obtain ⟨some, few, each, apart, same⟩ := create_ok.mp (create_again made)
  have mem : ∀ img ∈ b.images, ∃ e ∈ declared raw, e.image raw = img := by
    obtain ⟨-, -, -, -, rfl⟩ := create_ok.mp made
    intro img mem
    exact List.mem_map.mp (List.mem_mergeSort.mp mem)
  have sorted : sortByBase b.images = b.images := congrArg images same.symm
  have pairs := pairwise_of_apart (sorted ▸ apart)
  constructor
  · exact List.length_pos_iff.mpr some
  · exact few
  · exact pairs.imp And.left
  · exact each
  · exact pairs.imp And.right
  · intro img inside
    obtain ⟨e, declared, rfl⟩ := mem img inside
    have h := honest e declared
    exact ⟨e, declared, h.after, h.inside, rfl, rfl, h.crc⟩
  · exact head.crc

def lengthBelow (raw : List Byte) (base : Word) : Nat :=
  (((declared raw).filter fun e => e.base < base).map fun e => e.len.toNat).sum

/-- With the payloads packed in the order of their bases, every variant starts within
    reach of a 32-bit offset. -/
def Repackable (raw : List Byte) : Prop :=
  ∀ e ∈ declared raw, tableEnd raw + lengthBelow raw e.base < 2 ^ 32

instance (raw : List Byte) : Decidable (Repackable raw) := inferInstanceAs (Decidable (∀ _ ∈ _, _))

theorem offsetsFit_iff {images : List Image} (offset : Nat)
    (ascending : images.Pairwise fun a b => a.base < b.base) :
    OffsetsFit offset images ↔ ∀ img ∈ images, offset +
      ((images.filter fun i => i.base < img.base).map fun i => i.bytes.length).sum < 2 ^ 32 := by
  induction images generalizing offset with
  | nil => simp [OffsetsFit]
  | cons a rest ih =>
    obtain ⟨first, later⟩ := List.pairwise_cons.mp ascending
    have lowest : ((a :: rest).filter fun i => i.base < a.base) = [] := by
      apply List.filter_eq_nil_iff.mpr
      intro img mem less
      rcases List.mem_cons.mp mem with rfl | inside
      · exact BitVec.lt_irrefl _ (of_decide_eq_true less)
      · exact BitVec.lt_irrefl _ (BitVec.lt_trans (of_decide_eq_true less) (first img inside))
    have below : ∀ img ∈ rest, ((a :: rest).filter fun i => i.base < img.base) =
        a :: rest.filter fun i => i.base < img.base := fun img mem =>
      List.filter_cons_of_pos (decide_eq_true (first img mem))
    rw [OffsetsFit, ih _ later, List.forall_mem_cons, lowest]
    constructor
    · rintro ⟨fits, others⟩
      refine ⟨fits, fun img mem => ?_⟩
      rw [below img mem, List.map_cons, List.sum_cons, ← Nat.add_assoc]
      exact others img mem
    · rintro ⟨fits, others⟩
      refine ⟨fits, fun img mem => ?_⟩
      have := others img mem
      rwa [below img mem, List.map_cons, List.sum_cons, ← Nat.add_assoc] at this

/-- An accepted bundle, written again, is read back as it was exactly when the offsets of
    its packed payloads fit their 32 bits. -/
theorem reparse_iff {raw : List Byte} {b : Bundle} (parsed : parse raw = .ok b) :
    parse b.encode = .ok b ↔ Repackable raw := by
  have sound := sound_of_parse parsed
  obtain ⟨-, honest, made⟩ := parse_eq_ok.mp parsed
  -- `create` sorts what was read, and the offsets of the new file follow that order
  have perm : b.images.Perm ((declared raw).map (Entry.image · raw)) := by
    obtain ⟨-, -, -, -, rfl⟩ := create_ok.mp made
    exact List.mergeSort_perm _ _
  have count : b.images.length = variantCount raw := by
    rw [perm.length_eq, List.length_map, declared, List.length_map, List.length_range]
  have small : ∀ img ∈ b.images, img.bytes.length < 2 ^ 32 := by
    intro img mem
    obtain ⟨e, inside, rfl⟩ := List.mem_map.mp (perm.mem_iff.mp mem)
    have length := (honest e inside).payload_length
    change (e.payload raw).length < 2 ^ 32
    rw [length]
    exact e.len.isLt
  have sums : ∀ base : Word,
      ((b.images.filter fun i => i.base < base).map fun i => i.bytes.length).sum =
        lengthBelow raw base := by
    intro base
    rw [((perm.filter _).map _).sum_nat, List.filter_map, List.map_map, lengthBelow]
    congr 1
    apply List.map_congr_left
    intro e mem
    exact (honest e (List.mem_filter.mp mem).1).payload_length
  rw [reread_iff (create_again made) sound.disjoint small, offsetsFit_iff _ sound.ascending, count]
  simp only [sums, Repackable]
  constructor
  · intro fits e mem
    exact fits (e.image raw) (perm.mem_iff.mpr (List.mem_map_of_mem mem))
  · intro fits img mem
    obtain ⟨e, inside, rfl⟩ := List.mem_map.mp (perm.mem_iff.mp mem)
    exact fits e inside

/-- `Bundle::parse` on arbitrary bytes: it never indexes out of range, what it accepts is
    sound, and when that bundle is read back from its own encoding. -/
theorem parse_safe (raw : List Byte) :
    parseGuarded raw = Guarded.ofFallible (parse raw) ∧
      ∀ b, parse raw = .ok b → Sound raw b ∧ (parse b.encode = .ok b ↔ Repackable raw) :=
  ⟨parseGuarded_eq raw, fun _ parsed => ⟨sound_of_parse parsed, reparse_iff parsed⟩⟩

theorem parse_safe_word : Sound oneWord.encode oneWord ∧
    (parse oneWord.encode = .ok oneWord ↔ Repackable oneWord.encode) := by
  have made : create 0 oneWord.images = .ok oneWord := by
    apply create_ok.mpr
    refine ⟨by decide, by decide, ?_, ?_, by simp [oneWord, sortByBase]⟩
    · intro img mem
      rcases List.mem_singleton.mp mem with rfl
      exact ⟨by decide, by decide, by decide⟩
    · simp [oneWord, sortByBase]
  have small : oneWord.encode.length < 2 ^ 32 := by
    rw [encode_length]
    decide
  exact (parse_safe oneWord.encode).2 oneWord (parse_encode made small)

section
variable {data : List Byte}

/-- The second variant is the first four bytes of the first one. -/
def sharing (data : List Byte) : List Entry :=
  [⟨0, 0xFFFFFFF8, hash data, 48⟩, ⟨0xFFFFFFF8, 4, hash (data.take 4), 48⟩]

def shared (data : List Byte) : Bundle := ⟨0, [⟨0, data⟩, ⟨0xFFFFFFF8, data.take 4⟩]⟩

theorem sharing_length : (sharing data).length = 2 := rfl

theorem shared_parse (length : data.length = 0xFFFFFFF8) :
    parse (sealed 0 (sharing data) data) = .ok (shared data) := by
  have drop : (sealed 0 (sharing data) data).drop 48 = data :=
    sealed_payloads 0 (sharing data) data
  have room : (sealed 0 (sharing data) data).length = 48 + 0xFFFFFFF8 := by
    rw [sealed_length, length]
    rfl
  -- two entries whose payloads overlap: the second is the start of the first
  have first : slice (sealed 0 (sharing data) data) 48 (48 + 0xFFFFFFF8) = data := by
    rw [slice, drop, List.take_of_length_le (by omega)]
  have second : slice (sealed 0 (sharing data) data) 48 (48 + 4) = data.take 4 := by
    rw [slice, drop]
  have taken : (data.take 4).length = 4 := List.length_take_of_le (by omega)
  have large : (0xFFFFFFF8 : Word) ≠ 0 ∧ (0xFFFFFFF8 : Word) % 4 = 0 := by decide
  have four : (4 : Word) ≠ 0 ∧ (4 : Word) % 4 = 0 := by decide
  apply parse_eq_ok.mpr
  rw [declared_sealed (by rw [sharing_length]; omega), tableEnd_sealed (by rw [sharing_length]; omega)]
  refine ⟨sealed_wellHeaded (List.cons_ne_nil _ _) ?_, ?_, ?_⟩
  · rw [sharing_length]
    decide
  · intro e mem
    rcases List.mem_pair.mp mem with rfl | rfl
    · exact ⟨large.1, large.2, rfl, le_rfl, room.ge, congrArg hash first⟩
    · refine ⟨four.1, four.2, large.2, le_rfl, ?_, congrArg hash second⟩
      rw [room]
      exact Nat.add_le_add_left (show 4 ≤ 0xFFFFFFF8 by decide) 48
  · have images : (sharing data).map (Entry.image · (sealed 0 (sharing data) data)) =
        (shared data).images := by
      change [Image.mk _ (slice _ 48 (48 + 0xFFFFFFF8)), Image.mk _ (slice _ 48 (48 + 4))] = _
      rw [first, second]
      rfl
    have sorted : sortByBase (shared data).images = (shared data).images := by
      apply List.mergeSort_of_pairwise
      simp [shared]
    rw [images]
    apply create_ok.mpr
    rw [sorted]
    refine ⟨List.cons_ne_nil _ _, show 2 ≤ maxVariants by decide, ?_, ?_, rfl⟩
    · intro img mem
      rcases List.mem_pair.mp mem with rfl | rfl
      · refine ⟨rfl, List.ne_nil_of_length_pos ?_, ?_⟩
        · rw [length]
          decide
        · rw [length]
      · refine ⟨large.2, List.ne_nil_of_length_pos ?_, ?_⟩
        · rw [taken]
          decide
        · rw [taken]
    · refine .cons_cons ⟨large.1.symm, ?_⟩ (.singleton _)
      change 0 + data.length ≤ 0xFFFFFFF8
      rw [length]

theorem shared_lost (length : data.length = 0xFFFFFFF8) :
    parse (shared data).encode ≠ .ok (shared data) := by
  intro again
  have fits := (reparse_iff (shared_parse length)).mp again
  have few : (sharing data).length < 256 := by
    rw [sharing_length]
    omega
  unfold Repackable lengthBelow at fits
  rw [declared_sealed few, tableEnd_sealed few] at fits
  have second := fits _ (List.mem_cons_of_mem _ (List.mem_singleton_self _))
  have below : ((sharing data).filter fun e => e.base < 0xFFFFFFF8) =
      [⟨0, 0xFFFFFFF8, hash data, 48⟩] := rfl
  rw [below, sharing_length] at second
  exact absurd second (show ¬ headerLen + 2 * entryLen + 0xFFFFFFF8 < 2 ^ 32 by decide)

end

/-- Accepted, and not read back from its own encoding. -/
theorem parse_not_reread :
    parse (sealed 0 (sharing (List.replicate 0xFFFFFFF8 0)) (List.replicate 0xFFFFFFF8 0)) =
        .ok (shared (List.replicate 0xFFFFFFF8 0)) ∧
      parse (shared (List.replicate 0xFFFFFFF8 0)).encode ≠
        .ok (shared (List.replicate 0xFFFFFFF8 0)) :=
  ⟨shared_parse List.length_replicate, shared_lost List.length_replicate⟩

end OpenBoot.Host.Bundle
