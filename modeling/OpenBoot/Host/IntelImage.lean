import OpenBoot.Host.IntelHex

/-! What an Intel HEX file assigns, and the image built from it. -/

set_option autoImplicit false

namespace OpenBoot.Host.IntelHex

def contentLines (text : List Char) : List (List Char) :=
  ((lines text).map trim).filter fun line => line ≠ []

def recordOf (line : List Char) : Option HexRecord :=
  match (HexRecord.parseLine line).run with
  | some (.ok r) => some r
  | _ => none

def recordsOf (text : List Char) : List HexRecord := (contentLines text).filterMap recordOf

/-- The data records, each at its address: the current base plus its offset. -/
def placed : Nat → List HexRecord → List (Nat × List Byte)
  | _, [] => []
  | base, .data offset bytes :: rest => (base + offset.toNat, bytes) :: placed base rest
  | _, .extendedSegment v :: rest => placed (v.toNat <<< 4) rest
  | _, .extendedLinear v :: rest => placed (v.toNat <<< 16) rest
  | base, _ :: rest => placed base rest

def cells (p : Nat × List Byte) : List (Nat × Byte) := (p.2.zipIdx p.1).map Prod.swap

def assigned (text : List Char) : List (Nat × Byte) := (placed 0 (recordsOf text)).flatMap cells

variable {text line : List Char} {content : List (List Char)} {r : HexRecord}
  {rs : List HexRecord} {acc acc' : Accumulator}

theorem recordOf_eq_some : recordOf line = some r ↔ HexRecord.parseLine line = pure r := by
  unfold recordOf
  constructor
  · intro read
    split at read
    · next run =>
      cases read
      exact run
    · cases read
  · intro parsed
    rw [parsed]
    rfl

def feedContent : Accumulator → List (List Char) → Guarded Accumulator
  | acc, [] => return acc
  | acc, line :: rest => do
    if acc.sawEof = true then
      Guarded.ofFallible (bail ("intel hex: content after the EOF record: " ++ String.ofList line))
    let record ← HexRecord.parseLine line
    let acc ← Guarded.ofFallible (acc.feed record)
    feedContent acc rest

theorem feedLines_eq (acc : Accumulator) (ls : List (List Char)) :
    feedLines acc ls = feedContent acc ((ls.map trim).filter fun line => line ≠ []) := by
  induction ls generalizing acc with
  | nil => rfl
  | cons line rest ih =>
    rw [feedLines, List.map_cons]
    by_cases blank : trim line = []
    · rw [if_pos blank, ih, List.filter_cons_of_neg (by simp [blank])]
    · rw [if_neg blank, List.filter_cons_of_pos (by simpa using blank), feedContent]
      simp only [ih]

def feedAll : Accumulator → List HexRecord → Fallible Accumulator
  | acc, [] => return acc
  | acc, r :: rest => do
    if acc.sawEof = true then bail "intel hex: content after the EOF record"
    let acc ← acc.feed r
    feedAll acc rest

theorem feedContent_eq_pure : feedContent acc content = pure acc' ↔
    (∀ line ∈ content, (recordOf line).isSome) ∧
      feedAll acc (content.filterMap recordOf) = .ok acc' := by
  induction content generalizing acc with
  | nil => exact ⟨fun same => ⟨nofun, congrArg _ (Guarded.pure_inj.mp same)⟩,
      fun h => congrArg _ (Except.ok.inj h.2)⟩
  | cons line rest ih =>
    simp only [feedContent, ↓Guarded.bail_bind, Guarded.ite_bail_eq_pure, Guarded.bind_eq_pure,
      Guarded.ofFallible_eq_pure, ih, List.forall_mem_cons, Option.isSome_iff_exists,
      ← recordOf_eq_some]
    constructor
    · rintro ⟨early, r, read, acc₁, fed, all, later⟩
      refine ⟨⟨⟨r, read⟩, all⟩, ?_⟩
      rw [List.filterMap_cons_some read]
      simp only [feedAll, bail_bind, ite_bail_eq_ok, bind_eq_ok]
      exact ⟨early, acc₁, fed, later⟩
    · rintro ⟨⟨⟨r, read⟩, all⟩, fed⟩
      rw [List.filterMap_cons_some read] at fed
      simp only [feedAll, bail_bind, ite_bail_eq_ok, bind_eq_ok] at fed
      obtain ⟨early, acc₁, fed, later⟩ := fed
      exact ⟨early, r, read, acc₁, fed, all, later⟩

/-! ### The state after a list of records -/

def baseAfter : Nat → List HexRecord → Nat
  | base, [] => base
  | _, .extendedSegment v :: rest => baseAfter (v.toNat <<< 4) rest
  | _, .extendedLinear v :: rest => baseAfter (v.toNat <<< 16) rest
  | base, _ :: rest => baseAfter base rest

def lowest (m : Option Nat) (ps : List (Nat × List Byte)) : Option Nat :=
  ps.foldl (fun m p => match m with
    | none => some p.1
    | some m => if p.1 < m then some p.1 else some m) m

def highest (m : Nat) (ps : List (Nat × List Byte)) : Nat :=
  ps.foldl (fun m p => if p.1 + p.2.length > m then p.1 + p.2.length else m) m

def Open : Bool → List HexRecord → Prop
  | _, [] => True
  | saw, r :: rest => saw = false ∧ Open (decide (r = .eof)) rest

def sawAfter : Bool → List HexRecord → Bool
  | saw, [] => saw
  | _, r :: rest => sawAfter (decide (r = .eof)) rest

def Addressable (ps : List (Nat × List Byte)) : Prop := ∀ p ∈ ps, p.1 + p.2.length ≤ 2 ^ 32

def after (acc : Accumulator) (rs : List HexRecord) : Accumulator where
  base := baseAfter acc.base rs
  records := acc.records ++ placed acc.base rs
  min := lowest acc.min (placed acc.base rs)
  max := highest acc.max (placed acc.base rs)
  sawEof := sawAfter acc.sawEof rs

theorem placed_append (base : Nat) (xs ys : List HexRecord) :
    placed base (xs ++ ys) = placed base xs ++ placed (baseAfter base xs) ys := by
  induction xs generalizing base with
  | nil => rfl
  | cons r xs ih => cases r <;> simp [placed, baseAfter, ih]

theorem after_cons (acc : Accumulator) (r : HexRecord) (rest : List HexRecord) :
    after (after acc [r]) rest = after acc (r :: rest) := by
  have split : placed acc.base (r :: rest) =
      placed acc.base [r] ++ placed (baseAfter acc.base [r]) rest := placed_append _ [r] rest
  have base : baseAfter acc.base (r :: rest) = baseAfter (baseAfter acc.base [r]) rest := by
    cases r <;> rfl
  simp only [after, split, base, lowest, highest, List.foldl_append, List.append_assoc, sawAfter]

theorem feed_eq_ok (early : acc.sawEof = false) : acc.feed r = .ok acc' ↔
    Addressable (placed acc.base [r]) ∧ acc' = after acc [r] := by
  obtain ⟨base, records, least, most, saw⟩ := acc
  obtain rfl : saw = false := early
  cases r with
  | data offset bytes =>
    simp only [Accumulator.feed, bail_bind, ite_bail_eq_ok, Addressable, placed,
      List.forall_mem_singleton]
    constructor
    · rintro ⟨fits, made⟩
      exact ⟨by omega, (Except.ok.inj made).symm⟩
    · rintro ⟨fits, rfl⟩
      exact ⟨by omega, rfl⟩
  | _ =>
    simp only [Accumulator.feed, Addressable, placed, List.not_mem_nil, false_implies,
      implies_true, true_and]
    constructor
    · intro made
      refine (Except.ok.inj made).symm.trans ?_
      simp [after, placed, baseAfter, sawAfter, lowest, highest]
    · rintro rfl
      refine congrArg _ ?_
      simp [after, placed, baseAfter, sawAfter, lowest, highest]

theorem feedAll_eq_ok : feedAll acc rs = .ok acc' ↔
    Open acc.sawEof rs ∧ Addressable (placed acc.base rs) ∧ acc' = after acc rs := by
  induction rs generalizing acc with
  | nil =>
    have same : after acc [] = acc := by simp [after, placed, baseAfter, lowest, highest, sawAfter]
    simp only [feedAll, Open, Addressable, placed, same, true_and]
    exact ⟨fun h => ⟨nofun, (Except.ok.inj h).symm⟩, fun h => congrArg _ h.2.symm⟩
  | cons r rest ih =>
    have fits : Addressable (placed acc.base (r :: rest)) ↔ Addressable (placed acc.base [r]) ∧
        Addressable (placed (baseAfter acc.base [r]) rest) := by
      rw [show placed acc.base (r :: rest) = _ from placed_append acc.base [r] rest]
      exact List.forall_mem_append
    simp only [feedAll, bail_bind, ite_bail_eq_ok, bind_eq_ok, Bool.not_eq_true, Open, fits]
    constructor
    · rintro ⟨early, acc₁, fed, later⟩
      obtain ⟨here, rfl⟩ := (feed_eq_ok early).mp fed
      obtain ⟨only, there, rfl⟩ := ih.mp later
      exact ⟨⟨early, only⟩, ⟨here, there⟩, after_cons acc r rest⟩
    · rintro ⟨⟨early, only⟩, ⟨here, there⟩, rfl⟩
      refine ⟨early, _, (feed_eq_ok early).mpr ⟨here, rfl⟩, ih.mpr ⟨only, there, ?_⟩⟩
      exact (after_cons acc r rest).symm

variable {ps ps' : List (Nat × List Byte)} {lo : Nat}

theorem lowest_cons_some (m : Nat) (p : Nat × List Byte) (ps : List (Nat × List Byte)) :
    lowest (some m) (p :: ps) = lowest (some (min m p.1)) ps := by
  change lowest (if p.1 < m then some p.1 else some m) ps = _
  split
  · rw [Nat.min_eq_right (by omega)]
  · rw [Nat.min_eq_left (by omega)]

theorem highest_cons (m : Nat) (p : Nat × List Byte) (ps : List (Nat × List Byte)) :
    highest m (p :: ps) = highest (max m (p.1 + p.2.length)) ps := by
  change highest (if p.1 + p.2.length > m then p.1 + p.2.length else m) ps = _
  split
  · rw [Nat.max_eq_right (by omega)]
  · rw [Nat.max_eq_left (by omega)]

theorem lowest_some (m : Nat) (ps : List (Nat × List Byte)) :
    ∃ lo, lowest (some m) ps = some lo ∧ lo ≤ m ∧ (∀ p ∈ ps, lo ≤ p.1) ∧
      (lo = m ∨ ∃ p ∈ ps, p.1 = lo) := by
  induction ps generalizing m with
  | nil => exact ⟨m, rfl, le_rfl, nofun, .inl rfl⟩
  | cons p ps ih =>
    obtain ⟨lo, least, below, all, reached⟩ := ih (min m p.1)
    rw [Nat.le_min] at below
    refine ⟨lo, (lowest_cons_some m p ps).trans least, below.1,
      List.forall_mem_cons.mpr ⟨below.2, all⟩, ?_⟩
    rcases reached with here | ⟨q, mem, same⟩
    · rcases Nat.le_total m p.1 with order | order
      · exact .inl (here.trans (Nat.min_eq_left order))
      · exact .inr ⟨p, List.mem_cons_self, (here.trans (Nat.min_eq_right order)).symm⟩
    · exact .inr ⟨q, List.mem_cons_of_mem _ mem, same⟩

theorem lowest_eq_some (h : lowest none ps = some lo) :
    (∀ p ∈ ps, lo ≤ p.1) ∧ ∃ p ∈ ps, p.1 = lo := by
  cases ps with
  | nil => cases h
  | cons p ps =>
    obtain ⟨lo', least, below, all, reached⟩ := lowest_some p.1 ps
    obtain rfl : lo' = lo := Option.some.inj (least.symm.trans h)
    refine ⟨List.forall_mem_cons.mpr ⟨below, all⟩, ?_⟩
    rcases reached with here | ⟨q, mem, same⟩
    · exact ⟨p, List.mem_cons_self, here.symm⟩
    · exact ⟨q, List.mem_cons_of_mem _ mem, same⟩

theorem lowest_eq_none (h : lowest none ps = none) : ps = [] := by
  cases ps with
  | nil => rfl
  | cons p ps =>
    obtain ⟨lo, least, -⟩ := lowest_some p.1 ps
    cases least.symm.trans h

theorem highest_spec (m : Nat) (ps : List (Nat × List Byte)) :
    m ≤ highest m ps ∧ (∀ p ∈ ps, p.1 + p.2.length ≤ highest m ps) ∧
      (highest m ps = m ∨ ∃ p ∈ ps, p.1 + p.2.length = highest m ps) := by
  induction ps generalizing m with
  | nil => exact ⟨le_rfl, nofun, .inl rfl⟩
  | cons p ps ih =>
    obtain ⟨before, all, reached⟩ := ih (max m (p.1 + p.2.length))
    rw [Nat.max_le] at before
    rw [highest_cons]
    refine ⟨before.1, List.forall_mem_cons.mpr ⟨before.2, all⟩, ?_⟩
    rcases reached with here | ⟨q, mem, same⟩
    · rcases Nat.le_total (p.1 + p.2.length) m with order | order
      · exact .inl (here.trans (Nat.max_eq_left order))
      · exact .inr ⟨p, List.mem_cons_self, (here.trans (Nat.max_eq_right order)).symm⟩
    · exact .inr ⟨q, List.mem_cons_of_mem _ mem, same⟩

theorem lowest_perm (perm : ps.Perm ps') : lowest none ps = lowest none ps' := by
  apply perm.foldl_eq'
  intro p _ q _ m
  cases m with
  | none => grind
  | some m => grind

theorem highest_perm (perm : ps.Perm ps') : highest 0 ps = highest 0 ps' := by
  apply perm.foldl_eq'
  intro p _ q _ m
  grind

/-! ### The image -/

theorem mem_cells {w : Nat × Byte} {p : Nat × List Byte} :
    w ∈ cells p ↔ p.1 ≤ w.1 ∧ p.2[w.1 - p.1]? = some w.2 := by
  rw [cells, List.mem_map]
  constructor
  · rintro ⟨x, mem, rfl⟩
    exact List.mem_zipIdx_iff_le_and_getElem?_sub.mp mem
  · intro h
    exact ⟨w.swap, List.mem_zipIdx_iff_le_and_getElem?_sub.mpr h, Prod.swap_swap w⟩

theorem cells_cons (a : Nat) (b : Byte) (d : List Byte) :
    cells (a, b :: d) = (a, b) :: cells (a + 1, d) := by
  simp [cells, List.zipIdx_cons]

theorem cells_bounds {w : Nat × Byte} {p : Nat × List Byte} (mem : w ∈ cells p) :
    p.1 ≤ w.1 ∧ w.1 < p.1 + p.2.length := by
  obtain ⟨low, found⟩ := mem_cells.mp mem
  have inside : w.1 - p.1 < p.2.length := by
    by_contra beyond
    rw [List.getElem?_eq_none (by omega)] at found
    cases found
  exact ⟨low, by omega⟩

def placeCells (lo : Nat) : List (Nat × Byte) → List Bool → List Byte →
    Guarded (List Bool × List Byte)
  | [], used, img => return (used, img)
  | (a, byte) :: rest, used, img => do
    let taken ← Guarded.index used (a - lo)
    if taken = true then
      Guarded.ofFallible (bail ("intel hex: overlapping data records at 0x" ++ hexPadded 8 a))
    let _ ← Guarded.index img (a - lo)
    placeCells lo rest (used.set (a - lo) true) (img.set (a - lo) byte)

theorem place_eq {a i : Nat} (low : lo ≤ a) (d : List Byte) (used : List Bool) (img : List Byte) :
    Accumulator.place (a - lo) a i d used img = placeCells lo (cells (a + i, d)) used img := by
  induction d generalizing i used img with
  | nil => rfl
  | cons byte rest ih =>
    have offset : a - lo + i = a + i - lo := by omega
    rw [cells_cons]
    simp only [Accumulator.place, placeCells, offset, ih]
    rfl

theorem placeCells_append (lo : Nat) (xs ys : List (Nat × Byte)) (used : List Bool)
    (img : List Byte) : placeCells lo (xs ++ ys) used img =
      placeCells lo xs used img >>= fun s => placeCells lo ys s.1 s.2 := by
  induction xs generalizing used img with
  | nil => rfl
  | cons w xs ih =>
    simp only [List.cons_append, placeCells, bind_assoc]
    congr 1
    funext taken
    split
    · rfl
    · simp only [bind_assoc, ih]

theorem placeAll_eq (low : ∀ p ∈ ps, lo ≤ p.1) (used : List Bool) (img : List Byte) :
    Accumulator.placeAll lo ps used img = placeCells lo (ps.flatMap cells) used img := by
  induction ps generalizing used img with
  | nil => rfl
  | cons p ps ih =>
    obtain ⟨first, later⟩ := List.forall_mem_cons.mp low
    obtain ⟨a, d⟩ := p
    rw [List.flatMap_cons, placeCells_append]
    simp only [Accumulator.placeAll, place_eq first, ih later]
    rfl

theorem placeCells_eq_pure {ws : List (Nat × Byte)} (used : List Bool) (img : List Byte)
    {s : List Bool × List Byte} (low : ∀ w ∈ ws, lo ≤ w.1)
    (inside : ∀ w ∈ ws, w.1 - lo < used.length) (same : img.length = used.length) :
    placeCells lo ws used img = pure s ↔ ((ws.map Prod.fst).Nodup ∧
      ∀ w ∈ ws, used[w.1 - lo]? = some false) ∧
        s = (Filling.fill lo (ws.map fun w => (w.1, true)) used, Filling.fill lo ws img) := by
  induction ws generalizing used img with
  | nil =>
    simp only [placeCells, List.map_nil, Filling.fill_nil, List.nodup_nil, List.not_mem_nil,
      false_implies, implies_true, and_self, true_and]
    exact Guarded.pure_inj.trans eq_comm
  | cons w ws ih =>
    obtain ⟨a, byte⟩ := w
    obtain ⟨first, low⟩ := List.forall_mem_cons.mp low
    obtain ⟨here, inside⟩ := List.forall_mem_cons.mp inside
    have length : (used.set (a - lo) true).length = used.length := List.length_set
    have tail := ih (used.set (a - lo) true) (img.set (a - lo) byte) low
      (by rw [length]; exact inside) (by rw [length, List.length_set]; exact same)
    -- an address of the rest is free after the mark when it is another one that was free
    have free : ∀ w ∈ ws, ((used.set (a - lo) true)[w.1 - lo]? = some false ↔
        w.1 ≠ a ∧ used[w.1 - lo]? = some false) := by
      intro w mem
      by_cases equal : w.1 = a
      · rw [equal, List.getElem?_set_self here]
        simp
      · have above := low w mem
        rw [List.getElem?_set_ne (by omega)]
        simp [equal]
    have fresh : (∀ w ∈ ws, (used.set (a - lo) true)[w.1 - lo]? = some false) ↔
        a ∉ ws.map Prod.fst ∧ ∀ w ∈ ws, used[w.1 - lo]? = some false := by
      constructor
      · intro h
        refine ⟨fun mem => ?_, fun w mem => ((free w mem).mp (h w mem)).2⟩
        obtain ⟨w, mem, equal⟩ := List.mem_map.mp mem
        exact ((free w mem).mp (h w mem)).1 equal
      · rintro ⟨other, h⟩ w mem
        exact (free w mem).mpr ⟨fun equal => other (equal ▸ List.mem_map_of_mem mem), h w mem⟩
    have bound : a - lo < img.length := by omega
    have taken : img[a - lo]? = some img[a - lo] := List.getElem?_eq_getElem bound
    simp only [placeCells, ↓Guarded.bail_bind, Guarded.bind_eq_pure, Guarded.ite_bail_eq_pure,
      Guarded.index_eq_pure, tail, fresh, List.map_cons, List.nodup_cons, List.forall_mem_cons,
      Filling.fill_cons, Bool.not_eq_true]
    constructor
    · rintro ⟨u, read, rfl, _, -, ⟨distinct, other, later⟩, rfl⟩
      exact ⟨⟨⟨other, distinct⟩, read, later⟩, rfl⟩
    · rintro ⟨⟨⟨other, distinct⟩, read, later⟩, rfl⟩
      exact ⟨false, read, rfl, _, taken, ⟨distinct, other, later⟩, rfl⟩

def Assembled (ps : List (Nat × List Byte)) (result : Word × List Byte) : Prop :=
  match lowest none ps with
  | none => result = (0, [])
  | some lo => highest 0 ps - lo ≤ maxImageSpan ∧ ((ps.flatMap cells).map Prod.fst).Nodup ∧
      result = (BitVec.ofNat 32 lo,
        Filling.fill lo (ps.flatMap cells) (.replicate (highest 0 ps - lo) 0xFF))

theorem cells_low (low : ∀ p ∈ ps, lo ≤ p.1) : ∀ w ∈ ps.flatMap cells, lo ≤ w.1 := by
  intro w mem
  obtain ⟨p, inside, cell⟩ := List.mem_flatMap.mp mem
  exact (low p inside).trans (cells_bounds cell).1

theorem cells_high : ∀ w ∈ ps.flatMap cells, w.1 < highest 0 ps := by
  intro w mem
  obtain ⟨p, inside, cell⟩ := List.mem_flatMap.mp mem
  exact (cells_bounds cell).2.trans_le ((highest_spec 0 ps).2.1 p inside)

theorem finish_eq_pure {result : Word × List Byte} :
    (after {} rs).finish = pure result ↔
      sawAfter false rs = true ∧ Assembled (placed 0 rs) result := by
  have records : (after {} rs).records = placed 0 rs := rfl
  have least : (after {} rs).min = lowest none (placed 0 rs) := rfl
  have most : (after {} rs).max = highest 0 (placed 0 rs) := rfl
  have saw : (after {} rs).sawEof = sawAfter false rs := rfl
  unfold Accumulator.finish Assembled
  rw [records, least, most, saw]
  simp only [↓Guarded.bail_bind, Guarded.ite_bail_eq_pure, Bool.not_eq_false]
  apply and_congr_right
  intro _
  cases bound : lowest none (placed 0 rs) with
  | none => exact Guarded.pure_inj.trans eq_comm
  | some lo =>
    obtain ⟨low, -⟩ := lowest_eq_some bound
    have cellsLow := cells_low low
    -- every cell lies between the lowest and the highest address, so no index panics
    have inside : ∀ w ∈ (placed 0 rs).flatMap cells, w.1 - lo <
        (List.replicate (highest 0 (placed 0 rs) - lo) false).length := by
      intro w mem
      have := cellsLow w mem
      have := cells_high w mem
      rw [List.length_replicate]
      omega
    have free : ∀ w ∈ (placed 0 rs).flatMap cells,
        (List.replicate (highest 0 (placed 0 rs) - lo) false)[w.1 - lo]? = some false := by
      intro w mem
      have := inside w mem
      rw [List.length_replicate] at this
      rw [List.getElem?_replicate, if_pos this]
    have place := fun s => placeCells_eq_pure (s := s) _
      (.replicate (highest 0 (placed 0 rs) - lo) 0xFF) cellsLow inside
      (by rw [List.length_replicate, List.length_replicate])
    simp only [Guarded.ite_bail_eq_pure, Guarded.bind_eq_pure, placeAll_eq low, place, not_lt,
      gt_iff_lt, Guarded.pure_inj]
    constructor
    · rintro ⟨narrow, _, ⟨⟨distinct, -⟩, rfl⟩, rfl⟩
      exact ⟨narrow, distinct, rfl⟩
    · rintro ⟨narrow, distinct, rfl⟩
      exact ⟨narrow, _, ⟨⟨distinct, free⟩, rfl⟩, rfl⟩

/-- What is accepted, and as what. -/
theorem parseIntelHex_eq_pure {result : Word × List Byte} : parseIntelHex text = pure result ↔
    (∀ line ∈ contentLines text, (recordOf line).isSome) ∧
      (Open false (recordsOf text) ∧ sawAfter false (recordsOf text) = true) ∧
      Addressable (placed 0 (recordsOf text)) ∧ Assembled (placed 0 (recordsOf text)) result := by
  unfold parseIntelHex
  simp only [Guarded.bind_eq_pure, feedLines_eq, feedContent_eq_pure, feedAll_eq_ok]
  constructor
  · rintro ⟨_, ⟨read, only, fits, rfl⟩, done⟩
    obtain ⟨ended, made⟩ := finish_eq_pure.mp done
    exact ⟨read, ⟨only, ended⟩, fits, made⟩
  · rintro ⟨read, ⟨only, ended⟩, fits, made⟩
    exact ⟨_, ⟨read, only, fits, rfl⟩, finish_eq_pure.mpr ⟨ended, made⟩⟩

/-! ### The image is exact -/

/-- The result is the map's image: it starts at the lowest address, ends at the highest one,
    holds what the map assigns, and 0xFF elsewhere. -/
structure Exact (m : List (Nat × Byte)) (result : Word × List Byte) : Prop where
  lowest : (∃ w ∈ m, w.1 = result.1.toNat) ∧ ∀ w ∈ m, result.1.toNat ≤ w.1
  length : ∃ w ∈ m, (∀ v ∈ m, v.1 ≤ w.1) ∧ result.2.length = w.1 - result.1.toNat + 1
  assigned : ∀ w ∈ m, result.2[w.1 - result.1.toNat]? = some w.2
  gaps : ∀ a, a ∉ m.map Prod.fst → result.1.toNat ≤ a → a - result.1.toNat < result.2.length →
    result.2[a - result.1.toNat]? = some 0xFF

/-- A data record without bytes lies at an address between the lowest one assigned and the
    one after the highest. -/
def EmptyInside (ps : List (Nat × List Byte)) : Prop :=
  ∀ p ∈ ps, p.2 = [] → (∃ w ∈ ps.flatMap cells, w.1 ≤ p.1) ∧ ∃ w ∈ ps.flatMap cells, p.1 ≤ w.1 + 1

theorem EmptyInside.reaches_lowest (inside : EmptyInside ps) (least : lowest none ps = some lo) :
    ∃ w ∈ ps.flatMap cells, w.1 = lo := by
  obtain ⟨low, ⟨a, d⟩, mem, rfl⟩ := lowest_eq_some least
  cases d with
  | nil =>
    obtain ⟨⟨w, cell, order⟩, -⟩ := inside _ mem rfl
    exact ⟨w, cell, Nat.le_antisymm order (cells_low low w cell)⟩
  | cons b d =>
    refine ⟨(a, b), List.mem_flatMap.mpr ⟨_, mem, ?_⟩, rfl⟩
    rw [cells_cons]
    exact List.mem_cons_self

theorem EmptyInside.reaches_highest (inside : EmptyInside ps) (some : ps.flatMap cells ≠ []) :
    ∃ w ∈ ps.flatMap cells, w.1 + 1 = highest 0 ps := by
  obtain ⟨-, -, zero | ⟨⟨a, d⟩, mem, reach⟩⟩ := highest_spec 0 ps
  · obtain ⟨w, cell⟩ := List.exists_mem_of_ne_nil _ some
    have := cells_high w cell
    omega
  simp only at reach
  obtain rfl | filled := eq_or_ne d []
  · obtain ⟨-, w, cell, order⟩ := inside _ mem rfl
    have := cells_high w cell
    rw [List.length_nil] at reach
    exact ⟨w, cell, by omega⟩
  · have positive := List.length_pos_iff.mpr filled
    have last : d.length - 1 < d.length := by omega
    have assigned : (a + (d.length - 1), d[d.length - 1]) ∈ ps.flatMap cells := by
      refine List.mem_flatMap.mpr ⟨_, mem, mem_cells.mpr ⟨Nat.le_add_right _ _, ?_⟩⟩
      rw [Nat.add_sub_cancel_left]
      exact List.getElem?_eq_getElem last
    exact ⟨_, assigned, by omega⟩

theorem exact_iff {result : Word × List Byte} (fits : Addressable ps) (made : Assembled ps result)
    (some : ps.flatMap cells ≠ []) : Exact (ps.flatMap cells) result ↔ EmptyInside ps := by
  unfold Assembled at made
  obtain ⟨-, highs, -⟩ := highest_spec 0 ps
  split at made
  · next none =>
    rw [lowest_eq_none none] at some
    exact absurd rfl some
  next lo least =>
  obtain ⟨-, distinct, rfl⟩ := made
  obtain ⟨low, -⟩ := lowest_eq_some least
  have cellsLow := cells_low low
  have cellsHigh : ∀ w ∈ ps.flatMap cells, w.1 < highest 0 ps := cells_high
  have small : (BitVec.ofNat 32 lo).toNat = lo := by
    obtain ⟨w, mem⟩ := List.exists_mem_of_ne_nil _ some
    obtain ⟨p, inside, cell⟩ := List.mem_flatMap.mp mem
    have := low p inside
    have := fits p inside
    have := cells_bounds cell
    exact Nat.mod_eq_of_lt (by omega)
  have length : (Filling.fill lo (ps.flatMap cells)
      (List.replicate (highest 0 ps - lo) (0xFF : Byte))).length = highest 0 ps - lo := by
    rw [Filling.fill_length, List.length_replicate]
  constructor
  -- an empty record moves neither end of the image only if it lies between its cells
  · rintro ⟨⟨⟨w, mem, bottom⟩, -⟩, ⟨v, mem', -, extent⟩, -, -⟩ p inside empty
    have start := low p inside
    have stop := highs p inside
    have beyond := cellsHigh v mem'
    have after := cellsLow v mem'
    simp only [small, length] at bottom extent
    simp only [empty, List.length_nil] at stop
    exact ⟨⟨w, mem, by omega⟩, v, mem', by omega⟩
  intro inside
  constructor
  · simp only [small]
    exact ⟨inside.reaches_lowest least, cellsLow⟩
  · simp only [small, length]
    obtain ⟨w, mem, reach⟩ := inside.reaches_highest some
    refine ⟨w, mem, fun v mem' => ?_, ?_⟩
    · have := cellsHigh v mem'
      omega
    · have := cellsLow w mem
      omega
  · intro w mem
    simp only [small]
    apply Filling.getElem?_fill_mem distinct cellsLow mem
    have := cellsHigh w mem
    have := cellsLow w mem
    rw [List.length_replicate]
    omega
  · intro a free start stop
    simp only [small, length] at start stop ⊢
    rw [Filling.getElem?_fill_other (Filling.distinct_offsets cellsLow start free),
      List.getElem?_replicate, if_pos stop]

/-! ### Order -/

/-- A record that leaves the base and the end of the file alone. -/
def Movable : HexRecord → Prop
  | .data _ _ | .ignored => True
  | _ => False

/-- The same lines, but for the order of some data records between which no record
    changes the base. -/
def Reordered (text text' : List Char) : Prop :=
  ∃ pre block block' post, contentLines text = pre ++ block ++ post ∧
    contentLines text' = pre ++ block' ++ post ∧ block.Perm block' ∧
      ∀ line ∈ block, ∀ r, recordOf line = some r → Movable r

theorem open_append {saw : Bool} {xs ys : List HexRecord} :
    Open saw (xs ++ ys) ↔ Open saw xs ∧ Open (sawAfter saw xs) ys := by
  induction xs generalizing saw with
  | nil => simp [Open, sawAfter]
  | cons r xs ih => simp only [List.cons_append, Open, sawAfter, ih, and_assoc]

theorem sawAfter_append (saw : Bool) (xs ys : List HexRecord) :
    sawAfter saw (xs ++ ys) = sawAfter (sawAfter saw xs) ys := by
  induction xs generalizing saw with
  | nil => rfl
  | cons r xs ih => exact ih _

section
variable {xs ys : List HexRecord}

theorem Movable.ne_eof (h : Movable r) : r ≠ .eof := by
  rintro rfl
  exact h

theorem open_movable (saw : Bool) (movable : ∀ r ∈ xs, Movable r) :
    (Open saw xs ↔ (xs ≠ [] → saw = false)) ∧ sawAfter saw xs = if xs = [] then saw else false := by
  induction xs generalizing saw with
  | nil => simp [Open, sawAfter]
  | cons r xs ih =>
    obtain ⟨first, later⟩ := List.forall_mem_cons.mp movable
    obtain ⟨only, saw'⟩ := ih false later
    have other : decide (r = .eof) = false := decide_eq_false first.ne_eof
    simp only [Open, sawAfter, other, only, saw']
    simp

theorem baseAfter_movable (base : Nat) (movable : ∀ r ∈ xs, Movable r) : baseAfter base xs = base := by
  induction xs with
  | nil => rfl
  | cons r xs ih =>
    obtain ⟨first, later⟩ := List.forall_mem_cons.mp movable
    cases r with
    | data offset bytes => exact ih later
    | ignored => exact ih later
    | _ => exact first.elim

def placeOne (base : Nat) : HexRecord → Option (Nat × List Byte)
  | .data offset bytes => some (base + offset.toNat, bytes)
  | _ => none

theorem placed_movable (base : Nat) (movable : ∀ r ∈ xs, Movable r) :
    placed base xs = xs.filterMap (placeOne base) := by
  induction xs with
  | nil => rfl
  | cons r xs ih =>
    obtain ⟨first, later⟩ := List.forall_mem_cons.mp movable
    cases r with
    | data offset bytes => exact congrArg _ (ih later)
    | ignored => exact ih later
    | _ => exact first.elim

end

theorem assembled_perm {result : Word × List Byte} (perm : ps.Perm ps') (made : Assembled ps result) :
    Assembled ps' result := by
  unfold Assembled at *
  rw [← lowest_perm perm, ← highest_perm perm]
  split at made
  · next none => simpa only [none] using made
  · next lo least =>
    obtain ⟨narrow, distinct, rfl⟩ := made
    have cellsPerm := perm.flatMap_right cells
    have low := cells_low (lowest_eq_some least).1
    refine ⟨narrow, (cellsPerm.map Prod.fst).nodup_iff.mp distinct, ?_⟩
    rw [Filling.fill_perm cellsPerm distinct low]

theorem reordered_same {text' : List Char} {result : Word × List Byte}
    (accepted : parseIntelHex text = pure result) (reordered : Reordered text text') :
    parseIntelHex text' = pure result := by
  obtain ⟨pre, block, block', post, lines, lines', perm, data⟩ := reordered
  obtain ⟨read, ⟨only, ended⟩, fits, made⟩ := parseIntelHex_eq_pure.mp accepted
  have recs : recordsOf text =
      pre.filterMap recordOf ++ (block.filterMap recordOf ++ post.filterMap recordOf) := by
    rw [recordsOf, lines, List.append_assoc, List.filterMap_append, List.filterMap_append]
  have recs' : recordsOf text' =
      pre.filterMap recordOf ++ (block'.filterMap recordOf ++ post.filterMap recordOf) := by
    rw [recordsOf, lines', List.append_assoc, List.filterMap_append, List.filterMap_append]
  have recsPerm := perm.filterMap recordOf
  -- the block holds data records only, which leave the base and the end of file as they are
  have movable : ∀ r ∈ block.filterMap recordOf, Movable r := by
    intro r mem
    obtain ⟨line, inside, same⟩ := List.mem_filterMap.mp mem
    exact data line inside r same
  have movable' : ∀ r ∈ block'.filterMap recordOf, Movable r :=
    fun r mem => movable r (recsPerm.mem_iff.mpr mem)
  have empty : block'.filterMap recordOf = [] ↔ block.filterMap recordOf = [] := by
    rw [← List.length_eq_zero_iff, ← List.length_eq_zero_iff, recsPerm.length_eq]
  have placedPerm : (placed 0 (recordsOf text)).Perm (placed 0 (recordsOf text')) := by
    rw [recs, recs', placed_append, placed_append, placed_append, placed_append,
      baseAfter_movable _ movable, baseAfter_movable _ movable', placed_movable _ movable,
      placed_movable _ movable']
    exact ((recsPerm.filterMap _).append_right _).append_left _
  apply parseIntelHex_eq_pure.mpr
  refine ⟨?_, ⟨?_, ?_⟩, fun p mem => fits p (placedPerm.mem_iff.mpr mem),
    assembled_perm placedPerm made⟩
  · intro line mem
    apply read
    rw [lines'] at mem
    rw [lines]
    simpa only [List.mem_append, perm.mem_iff] using mem
  · rw [recs, open_append, open_append, (open_movable _ movable).1, (open_movable _ movable).2] at only
    rw [recs', open_append, open_append, (open_movable _ movable').1, (open_movable _ movable').2]
    simpa only [ne_eq, empty] using only
  · rw [recs, sawAfter_append, sawAfter_append, (open_movable _ movable).2] at ended
    rw [recs', sawAfter_append, sawAfter_append, (open_movable _ movable').2]
    simpa only [empty] using ended

theorem assigned_distinct {result : Word × List Byte} (accepted : parseIntelHex text = pure result) :
    ((assigned text).map Prod.fst).Nodup := by
  obtain ⟨-, -, -, made⟩ := parseIntelHex_eq_pure.mp accepted
  unfold Assembled at made
  unfold assigned
  split at made
  · next none =>
    rw [lowest_eq_none none]
    exact List.nodup_nil
  · exact made.2.1

/-- An accepted file assigns every address at most once; its image is exact, when it
    assigns any, if and only if no empty data record lies outside; and the order of
    data records does not matter. -/
theorem intelHex_exact {result : Word × List Byte} (accepted : parseIntelHex text = pure result) :
    ((assigned text).map Prod.fst).Nodup ∧
      (assigned text ≠ [] →
        (Exact (assigned text) result ↔ EmptyInside (placed 0 (recordsOf text)))) ∧
      ∀ text', Reordered text text' → parseIntelHex text' = pure result := by
  obtain ⟨-, -, fits, made⟩ := parseIntelHex_eq_pure.mp accepted
  exact ⟨assigned_distinct accepted, exact_iff fits made, fun _ => reordered_same accepted⟩

/-- ":01001000559A": the byte 0x55 at 0x10. -/
def oneByte : List Char := [':', '0', '1', '0', '0', '1', '0', '0', '0', '5', '5', '9', 'A']

def eofLine : List Char := [':', '0', '0', '0', '0', '0', '0', '0', '1', 'F', 'F']

/-- ":0000000000": a data record without bytes, at 0. -/
def emptyRecord : List Char := [':', '0', '0', '0', '0', '0', '0', '0', '0', '0', '0']

theorem intelHex_exact_one :
    Exact (assigned (oneByte ++ '\n' :: eofLine)) (0x10, [0x55]) := by
  have accepted : parseIntelHex (oneByte ++ '\n' :: eofLine) = pure (0x10, [0x55]) := by rfl
  have records : placed 0 (recordsOf (oneByte ++ '\n' :: eofLine)) = [(0x10, [0x55])] := by rfl
  refine ((intelHex_exact accepted).2.1 ?_).mpr ?_
  · rw [assigned, records]
    decide
  · rw [records]
    intro p mem empty
    rw [List.mem_singleton.mp mem] at empty
    cases empty

/-- A data record without bytes moves the start of the image. -/
theorem intelHex_shifted :
    parseIntelHex (emptyRecord ++ '\n' :: oneByte ++ '\n' :: eofLine) =
        pure (0, .replicate 16 0xFF ++ [0x55]) ∧
      assigned (emptyRecord ++ '\n' :: oneByte ++ '\n' :: eofLine) = [(0x10, 0x55)] ∧
      ¬ Exact (assigned (emptyRecord ++ '\n' :: oneByte ++ '\n' :: eofLine))
        (0, .replicate 16 0xFF ++ [0x55]) := by
  have only : assigned (emptyRecord ++ '\n' :: oneByte ++ '\n' :: eofLine) = [(0x10, 0x55)] := by rfl
  refine ⟨by rfl, only, fun exact => ?_⟩
  obtain ⟨⟨w, mem, bottom⟩, -⟩ := exact.lowest
  rw [only, List.mem_singleton] at mem
  subst mem
  cases bottom

end OpenBoot.Host.IntelHex
