import OpenBoot.Host.Image
import Mathlib.Data.List.Chain

/-! Slot bundles: one release file with the build of an application for every slot. -/

set_option autoImplicit false

namespace OpenBoot.Host

namespace Bundle

def magic : List Byte := [0x4F, 0x42, 0x42, 0x31]

def formatMajor : Byte := 1
def formatMinor : Byte := 0
def headerLen : Nat := 16
def entryLen : Nat := 16
def maxVariants : Nat := 8

end Bundle

/-- The propositions of `Bundle.create` are not fields: a bundle may also be built
    by hand, and only `create` and `parse` check it. -/
structure Bundle where
  chipFamily : Byte
  images : List Image
  deriving DecidableEq

namespace Bundle

def checkImages : Nat → List Image → Fallible Unit
  | _, [] => pure ()
  | i, img :: rest => do
    if img.base % 4 ≠ 0 then
      bail ("image " ++ toString i ++ " base " ++ hex8 img.base ++ " is not 4-byte aligned")
    if img.bytes = [] ∨ img.bytes.length % 4 ≠ 0 then
      bail ("image " ++ toString i ++ " is " ++ toString img.bytes.length ++
        " bytes, not a nonzero multiple of 4 (flash writes are 4-byte units)")
    checkImages (i + 1) rest

def checkPairs : List Image → Fallible Unit
  | a :: b :: rest => do
    if a.base = b.base then bail ("two images share base " ++ hex8 a.base)
    if a.stop > b.base.toNat then
      bail ("image at " ++ hex8 a.base ++ " is " ++ toString a.bytes.length ++
        " bytes and runs into the image at " ++ hex8 b.base)
    checkPairs (b :: rest)
  | _ => pure ()

/-- `sort_by_key` on the base, which is stable. -/
def sortByBase (images : List Image) : List Image :=
  images.mergeSort fun a b => decide (a.base ≤ b.base)

/-- `Bundle::new`. -/
def create (chipFamily : Byte) (images : List Image) : Fallible Bundle := do
  if images = [] then bail "a bundle needs at least one image"
  if images.length > maxVariants then
    bail (toString images.length ++ " images exceeds the bundle maximum of " ++
      toString maxVariants)
  checkImages 0 images
  let images := sortByBase images
  checkPairs images
  return ⟨chipFamily, images⟩

def table : Word → List Image → List Byte
  | _, [] => []
  | offset, img :: rest =>
    put32 img.base ++ put32 (BitVec.ofNat 32 img.bytes.length) ++ put32 img.crc32 ++
      put32 offset ++ table (offset + BitVec.ofNat 32 img.bytes.length) rest

def payloads (images : List Image) : List Byte := images.flatMap Image.bytes

def encode (b : Bundle) : List Byte :=
  let tableLen := b.images.length * entryLen
  let out := magic ++ [formatMajor, formatMinor, b.chipFamily, BitVec.ofNat 8 b.images.length] ++
    put32 0 ++ put32 0 ++ table (BitVec.ofNat 32 (headerLen + tableLen)) b.images ++
    payloads b.images
  -- the CRC covers the file with its own field still zero
  let crc := hash out
  out.take 8 ++ put32 crc ++ out.drop 12

def slice (raw : List Byte) (lo hi : Nat) : List Byte := (raw.drop lo).take (hi - lo)

def entries (raw : List Byte) (tableEnd : Nat) : Nat → Nat → Fallible (List Image)
  | 0, _ => pure []
  | left + 1, i => do
    let e := slice raw (headerLen + i * entryLen) (headerLen + (i + 1) * entryLen)
    let base := get32 (slice e 0 4)
    let len := get32 (slice e 4 8)
    let crc := get32 (slice e 8 12)
    let off := get32 (slice e 12 16)
    if len = 0 ∨ len % 4 ≠ 0 then
      bail ("variant " ++ toString i ++ " length " ++ toString len.toNat ++
        " is not a nonzero multiple of 4")
    if base % 4 ≠ 0 then
      bail ("variant " ++ toString i ++ " base " ++ hex8 base ++ " is not 4-byte aligned")
    let stop := off.toNat + len.toNat
    if off.toNat < tableEnd ∨ stop > raw.length then
      bail ("variant " ++ toString i ++ " payload [" ++ toString off.toNat ++ ", " ++
        toString stop ++ ") lies outside the bundle")
    let bytes := slice raw off.toNat stop
    let got := hash bytes
    if got ≠ crc then
      bail ("variant " ++ toString i ++ " (base " ++ hex8 base ++ ") CRC mismatch: stored " ++
        hex8 crc ++ ", computed " ++ hex8 got)
    let rest ← entries raw tableEnd left (i + 1)
    return ⟨base, bytes⟩ :: rest

def parse (raw : List Byte) : Fallible Bundle := do
  if raw.length < headerLen then
    bail ("too short to be a bundle (" ++ toString raw.length ++ " bytes)")
  if slice raw 0 4 ≠ magic then bail "not a bundle: bad magic"
  let major := raw.getD 4 0
  let minor := raw.getD 5 0
  if major ≠ formatMajor then
    bail ("bundle format " ++ toString major.toNat ++ "." ++ toString minor.toNat ++
      " is not supported by this tool (expected major " ++ toString formatMajor.toNat ++
      "); a major bump is incompatible")
  let chipFamily := raw.getD 6 0
  let count := (raw.getD 7 0).toNat
  if count = 0 ∨ count > maxVariants then
    bail ("bundle declares " ++ toString count ++ " variants (allowed 1..=" ++
      toString maxVariants ++ ")")
  if get32 (slice raw 12 16) ≠ 0 then bail "bundle reserved field is not zero"
  -- the whole file, before any of the table is believed
  let stated := get32 (slice raw 8 12)
  let actual := hash (raw.take 8 ++ put32 0 ++ raw.drop 12)
  if stated ≠ actual then
    bail ("bundle CRC mismatch: stored " ++ hex8 stated ++ ", computed " ++ hex8 actual)
  let tableEnd := headerLen + count * entryLen
  if raw.length < tableEnd then
    bail ("bundle truncated: " ++ toString count ++ " variants need " ++ toString tableEnd ++
      " bytes of header")
  let images ← entries raw tableEnd count 0
  context "bundle contents" (create chipFamily images)

def forBase (b : Bundle) (base : Word) : Option Image := b.images.find? fun i => i.base = base

/-- What the bundle's checks ask of one image. -/
structure Flashable (img : Image) : Prop where
  aligned : img.base % 4 = 0
  some : img.bytes ≠ []
  words : img.bytes.length % 4 = 0

theorem checkImages_ok {i : Nat} {images : List Image} :
    checkImages i images = .ok () ↔ ∀ img ∈ images, Flashable img := by
  induction images generalizing i with
  | nil => simp [checkImages]; rfl
  | cons img rest ih =>
    simp only [checkImages, bail_bind, ite_bail_eq_ok, ih, List.forall_mem_cons, not_or,
      Decidable.not_not, ne_eq]
    constructor
    · rintro ⟨aligned, ⟨some, words⟩, later⟩
      exact ⟨⟨aligned, some, words⟩, later⟩
    · rintro ⟨⟨aligned, some, words⟩, later⟩
      exact ⟨aligned, ⟨some, words⟩, later⟩

def Apart (a b : Image) : Prop := a.base ≠ b.base ∧ a.stop ≤ b.base.toNat

theorem checkPairs_ok {images : List Image} :
    checkPairs images = .ok () ↔ images.IsChain Apart := by
  induction images with
  | nil => exact ⟨fun _ => .nil, fun _ => rfl⟩
  | cons a rest ih =>
    cases rest with
    | nil => exact ⟨fun _ => .singleton a, fun _ => rfl⟩
    | cons b rest =>
      simp only [checkPairs, bail_bind, ite_bail_eq_ok, ih, List.isChain_cons_cons, Apart, not_lt,
        and_assoc, ne_eq]

theorem sortByBase_sorted (images : List Image) :
    (sortByBase images).Pairwise fun a b => a.base ≤ b.base := by
  have sorted : (sortByBase images).Pairwise fun a b => decide (a.base ≤ b.base) = true := by
    apply List.pairwise_mergeSort
    · intro a b c ab bc
      exact decide_eq_true (BitVec.le_trans (of_decide_eq_true ab) (of_decide_eq_true bc))
    · intro a b
      rcases BitVec.le_total a.base b.base with h | h <;> simp [h]
  exact sorted.imp of_decide_eq_true

theorem create_ok {chipFamily : Byte} {images : List Image} {b : Bundle} :
    create chipFamily images = .ok b ↔ images ≠ [] ∧ images.length ≤ maxVariants ∧
      (∀ img ∈ images, Flashable img) ∧ (sortByBase images).IsChain Apart ∧
      b = ⟨chipFamily, sortByBase images⟩ := by
  simp only [create, bail_bind, ite_bail_eq_ok, bind_eq_ok, not_lt]
  constructor
  · rintro ⟨some, few, _, each, _, pairs, made⟩
    exact ⟨some, few, checkImages_ok.mp each, checkPairs_ok.mp pairs, (Except.ok.inj made).symm⟩
  · rintro ⟨some, few, each, pairs, rfl⟩
    exact ⟨some, few, (), checkImages_ok.mpr each, (), checkPairs_ok.mpr pairs, rfl⟩

theorem create_again {chipFamily : Byte} {images : List Image} {b : Bundle}
    (made : create chipFamily images = .ok b) : create b.chipFamily b.images = .ok b := by
  obtain ⟨some, few, each, pairs, rfl⟩ := create_ok.mp made
  have perm : (sortByBase images).Perm images := List.mergeSort_perm images _
  have again : sortByBase (sortByBase images) = sortByBase images :=
    List.mergeSort_of_pairwise ((sortByBase_sorted images).imp decide_eq_true)
  apply create_ok.mpr
  refine ⟨fun empty => some ?_, ?_, fun img mem => each img (perm.mem_iff.mp mem), ?_, ?_⟩
  · have none : (sortByBase images).length = 0 := congrArg List.length empty
    exact List.length_eq_zero_iff.mp (perm.length_eq.symm.trans none)
  · rw [perm.length_eq]
    exact few
  · rw [again]
    exact pairs
  · rw [again]

theorem table_length (offset : Word) (images : List Image) :
    (table offset images).length = images.length * entryLen := by
  induction images generalizing offset with
  | nil => simp [table]
  | cons img rest ih =>
    simp only [table, List.length_append, put32_length, ih, List.length_cons]
    unfold entryLen
    omega

theorem payloads_cons (img : Image) (rest : List Image) :
    payloads (img :: rest) = img.bytes ++ payloads rest := rfl

theorem payloads_snoc (done : List Image) (img : Image) :
    payloads (done ++ [img]) = payloads done ++ img.bytes := by
  simp [payloads]

theorem slice_of_drop (tail : List Byte) {raw head : List Byte} {lo hi : Nat}
    (at_lo : raw.drop lo = head ++ tail) (length : head.length = hi - lo) : slice raw lo hi = head := by
  rw [slice, at_lo, List.take_left' length]

theorem slice_fields {entry : List Byte} {base len crc off : Word}
    (words : entry = put32 base ++ put32 len ++ put32 crc ++ put32 off) :
    slice entry 0 4 = put32 base ∧ slice entry 4 8 = put32 len ∧ slice entry 8 12 = put32 crc ∧
      slice entry 12 16 = put32 off := by
  rw [words]
  exact ⟨rfl, rfl, rfl, rfl⟩

/-- Entry by entry: the table and the payloads still to come are where the running
    offset says. -/
theorem entries_ok (tail : List Byte) {raw : List Byte} {tableEnd : Nat} (done rest : List Image)
    (at_table : raw.drop (headerLen + done.length * entryLen) =
      table (BitVec.ofNat 32 (tableEnd + (payloads done).length)) rest ++ tail)
    (at_payloads : raw.drop tableEnd = payloads done ++ payloads rest)
    (length : raw.length = tableEnd + (payloads done).length + (payloads rest).length)
    (small : raw.length < 2 ^ 32) (each : ∀ img ∈ rest, Flashable img) :
    entries raw tableEnd rest.length done.length = .ok rest := by
  -- the images read so far grow at the end, and the running offset with them
  induction rest generalizing done with
  | nil => rfl
  | cons img rest ih =>
    obtain ⟨first, later⟩ := List.forall_mem_cons.mp each
    simp only [payloads_cons, List.length_append] at length
    have len : (BitVec.ofNat 32 img.bytes.length).toNat = img.bytes.length :=
      Nat.mod_eq_of_lt (by omega)
    have off : (BitVec.ofNat 32 (tableEnd + (payloads done).length)).toNat =
        tableEnd + (payloads done).length := Nat.mod_eq_of_lt (by omega)
    have some : img.bytes.length ≠ 0 := fun zero => first.some (List.length_eq_zero_iff.mp zero)
    -- the slices of the entry and of its payload, then the rest by induction
    have entry : slice raw (headerLen + done.length * entryLen)
        (headerLen + (done.length + 1) * entryLen) =
          put32 img.base ++ put32 (BitVec.ofNat 32 img.bytes.length) ++ put32 img.crc32 ++
            put32 (BitVec.ofNat 32 (tableEnd + (payloads done).length)) := by
      apply slice_of_drop _ (at_table.trans (by rw [table, List.append_assoc]))
      simp only [List.length_append, put32_length]
      unfold entryLen
      omega
    have bytes : slice raw (tableEnd + (payloads done).length)
        (tableEnd + (payloads done).length + img.bytes.length) = img.bytes := by
      apply slice_of_drop (payloads rest)
      · rw [← List.drop_drop, at_payloads, List.drop_left]
        rfl
      · omega
    have next : entries raw tableEnd rest.length (done ++ [img]).length = .ok rest := by
      apply ih (done ++ [img])
      · have past : headerLen + (done ++ [img]).length * entryLen =
            headerLen + done.length * entryLen + entryLen := by
          rw [List.length_append, List.length_singleton, Nat.succ_mul, Nat.add_assoc]
        rw [past, ← List.drop_drop, at_table, payloads_snoc, List.length_append, ← Nat.add_assoc,
          BitVec.ofNat_add (tableEnd + (payloads done).length)]
        rfl
      · rw [at_payloads, payloads_snoc, payloads_cons, List.append_assoc]
      · rw [payloads_snoc, List.length_append]
        omega
      · exact later
    rw [List.length_append, List.length_singleton] at next
    obtain ⟨base_field, len_field, crc_field, off_field⟩ := slice_fields entry
    have nonzero : ¬ (BitVec.ofNat 32 img.bytes.length = 0 ∨
        BitVec.ofNat 32 img.bytes.length % 4 ≠ 0) := by
      have words := first.words
      rintro (zero | odd)
      · have := congrArg BitVec.toNat zero
        rw [len] at this
        exact some this
      · apply odd
        apply BitVec.eq_of_toNat_eq
        rw [BitVec.toNat_umod, len]
        exact words
    have inside : ¬ (tableEnd + (payloads done).length < tableEnd ∨
        tableEnd + (payloads done).length + img.bytes.length > raw.length) := by omega
    rw [List.length_cons]
    simp only [entries, base_field, len_field, crc_field, off_field, get32_put32, len, off, bytes,
      bail_bind, ite_bail_eq_ok, bind_eq_ok]
    refine ⟨nonzero, not_not_intro first.aligned, inside, not_not_intro rfl, rest, next, rfl⟩

def head (b : Bundle) : List Byte :=
  [0x4F, 0x42, 0x42, 0x31, formatMajor, formatMinor, b.chipFamily, BitVec.ofNat 8 b.images.length]

def body (b : Bundle) : List Byte :=
  table (BitVec.ofNat 32 (headerLen + b.images.length * entryLen)) b.images ++ payloads b.images

theorem encode_eq (b : Bundle) : b.encode =
    b.head ++ (put32 (hash (b.head ++ (put32 0 ++ (put32 0 ++ b.body)))) ++ (put32 0 ++ b.body)) := by
  simp [encode, head, body, magic, put32]

theorem body_length (b : Bundle) :
    b.body.length = b.images.length * entryLen + (payloads b.images).length := by
  rw [body, List.length_append, table_length]

theorem encode_length (b : Bundle) :
    b.encode.length = headerLen + b.images.length * entryLen + (payloads b.images).length := by
  rw [encode_eq]
  simp only [List.length_append, put32_length, body_length]
  simp [head, headerLen]
  omega

/-- A bundle that `Bundle::new` made is read back as it was. -/
theorem parse_encode {chipFamily : Byte} {images : List Image} {b : Bundle}
    (made : create chipFamily images = .ok b) (small : b.encode.length < 2 ^ 32) :
    parse b.encode = .ok b := by
  obtain ⟨some, few, each, -, same⟩ := create_ok.mp made
  have again := create_again made
  obtain ⟨some', few', each', -⟩ := create_ok.mp again
  have whole := encode_length b
  have count : (BitVec.ofNat 8 b.images.length).toNat = b.images.length := by
    unfold maxVariants at few'
    exact Nat.mod_eq_of_lt (by omega)
  have positive := List.length_pos_iff.mpr some'
  have read : entries b.encode (headerLen + b.images.length * entryLen) b.images.length 0 =
      .ok b.images := by
    apply entries_ok (payloads b.images) [] b.images
    · rw [encode_eq]
      rfl
    · have after : b.encode.drop headerLen = b.body := by
        rw [encode_eq]
        rfl
      rw [← List.drop_drop, after, body, List.drop_left' (table_length _ _)]
      rfl
    · rw [whole]
      rfl
    · exact small
    · exact each'
  -- the header fields can be read off: they come before everything of variable length
  have fields : slice b.encode 0 4 = magic ∧ b.encode.getD 4 0 = formatMajor ∧
      b.encode.getD 6 0 = b.chipFamily ∧ b.encode.getD 7 0 = BitVec.ofNat 8 b.images.length ∧
      slice b.encode 12 16 = put32 0 ∧
      slice b.encode 8 12 = put32 (hash (b.encode.take 8 ++ put32 0 ++ b.encode.drop 12)) := by
    rw [encode_eq]
    exact ⟨rfl, rfl, rfl, rfl, rfl, rfl⟩
  obtain ⟨at_magic, at_major, at_family, at_count, at_reserved, at_crc⟩ := fields
  simp only [parse, bail_bind, ite_bail_eq_ok, bind_eq_ok, context_eq_ok, at_magic, at_major,
    at_family, at_count, count, at_reserved, at_crc, get32_put32]
  refine ⟨?_, not_not_intro rfl, not_not_intro rfl, ?_, not_not_intro rfl, not_not_intro rfl, ?_,
    b.images, read, again⟩
  · unfold headerLen at whole ⊢
    omega
  · omega
  · omega

theorem find_base {images : List Image} (apart : images.Pairwise fun a b => a.base ≠ b.base)
    {img : Image} (mem : img ∈ images) : images.find? (fun i => i.base = img.base) = some img := by
  induction images with
  | nil => cases mem
  | cons a rest ih =>
    obtain ⟨first, later⟩ := List.pairwise_cons.mp apart
    rcases List.mem_cons.mp mem with rfl | inside
    · simp
    · rw [List.find?_cons_of_neg (by simpa using first img inside)]
      exact ih later inside

/-- The round trip: whatever list of images `Bundle::new` accepts, in any order, the
    encoded bundle is read back as the same bundle, and every image is found under
    its base. -/
theorem bundle_round_trip {chipFamily : Byte} {images : List Image} {b : Bundle}
    (made : create chipFamily images = .ok b) (small : b.encode.length < 2 ^ 32) :
    parse b.encode = .ok b ∧ b.chipFamily = chipFamily ∧ b.images.Perm images ∧
      ∀ img ∈ images, b.forBase img.base = some img := by
  have read := parse_encode made small
  obtain ⟨-, -, each, pairs, rfl⟩ := create_ok.mp made
  have perm : (sortByBase images).Perm images := List.mergeSort_perm images _
  refine ⟨read, rfl, perm, fun img mem => ?_⟩
  have ascending : (sortByBase images).IsChain fun a b => a.base.toNat < b.base.toNat := by
    refine pairs.imp fun a b apart => Nat.lt_of_le_of_ne ?_ ?_
    · exact Nat.le_trans (Nat.le_add_right _ _) apart.2
    · exact fun same => apart.1 (BitVec.eq_of_toNat_eq same)
  have apart : (sortByBase images).Pairwise fun a b => a.base ≠ b.base :=
    ascending.pairwise.imp fun less same => Nat.ne_of_lt less (congrArg BitVec.toNat same)
  exact find_base apart (perm.mem_iff.mpr mem)

def twoSlots : List Image := [⟨0x1F000, [5, 6, 7, 8]⟩, ⟨0x2000, [1, 2, 3, 4]⟩]

theorem bundle_round_trip_two : ∃ b, create 0x01 twoSlots = .ok b ∧ parse b.encode = .ok b ∧
    b.chipFamily = 0x01 ∧ b.images.Perm twoSlots ∧
      ∀ img ∈ twoSlots, b.forBase img.base = some img := by
  have made : create 0x01 twoSlots = .ok ⟨0x01, [⟨0x2000, [1, 2, 3, 4]⟩, ⟨0x1F000, [5, 6, 7, 8]⟩]⟩ := by
    apply create_ok.mpr
    have sorted : sortByBase twoSlots = [⟨0x2000, [1, 2, 3, 4]⟩, ⟨0x1F000, [5, 6, 7, 8]⟩] := by
      simp [sortByBase, twoSlots, List.mergeSort, List.MergeSort.Internal.splitInTwo]
    refine ⟨by decide, by decide, ?_, ?_, by rw [sorted]⟩
    · intro img mem
      rcases List.mem_pair.mp mem with rfl | rfl
      · exact ⟨by decide, by decide, by decide⟩
      · exact ⟨by decide, by decide, by decide⟩
    · rw [sorted]
      exact .cons_cons ⟨by decide, by decide⟩ (.singleton _)
  have small : (encode ⟨0x01, [⟨0x2000, [1, 2, 3, 4]⟩, ⟨0x1F000, [5, 6, 7, 8]⟩]⟩).length < 2 ^ 32 := by
    rw [encode_length]
    decide
  exact ⟨_, made, bundle_round_trip made small⟩

def familyUnspecified : Byte := 0

def familyNames : List (String × Byte) := [("CH570", 1), ("CH572", 2), ("CH591", 3), ("CH592", 4)]

def familyName (b : Bundle) : String :=
  if b.chipFamily = familyUnspecified then "unspecified"
  else
    match familyNames.find? fun entry => entry.2 = b.chipFamily with
    | some (name, _) => name
    | none => "unknown " ++ hex2 b.chipFamily

def bases (b : Bundle) : List Word := b.images.map Image.base

end Bundle

/-- One image, or a bundle from which the device's answer picks one. -/
inductive Source where
  | single (image : Image)
  | bundle (b : Bundle)

namespace Source

/-- A bundle for a different part is refused before anything is erased. -/
def checkFamily (source : Source) (chipFamily : Byte) (deviceName : String) : Fallible Unit :=
  match source with
  | single _ => .ok ()
  | bundle b =>
    if b.chipFamily ≠ Bundle.familyUnspecified ∧ b.chipFamily ≠ chipFamily then
      bail ("bundle is built for " ++ b.familyName ++ " but the device reports " ++ deviceName)
    else .ok ()

def forBase (source : Source) (base : Word) (whose : String) : Fallible Image :=
  match source with
  | single image => .ok image
  | bundle b =>
    match b.forBase base with
    | some image => .ok image
    | none => bail ("bundle has no variant linked for the " ++ whose ++ " base " ++ hex8 base ++
        "; it carries " ++ ", ".intercalate (b.bases.map hex8) ++
        ". An application cannot be relocated between slots, so the build for that base has to be" ++
        " in the bundle.")

end Source

end OpenBoot.Host
