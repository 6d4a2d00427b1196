import OpenBoot.Core.BootDecision
import Mathlib.Data.Set.Function

/-! What the reading half of the core asks of the part, and what it answers on
a flash content.

Every such program is a `Queries` program, so it disturbs nothing and never
looks outside the slots the silicon holds.
-/

set_option autoImplicit false

namespace OpenBoot

open Semantics Program

def strided (a step : Word) (k : Nat) : List Word :=
  (List.range k).map fun i => a + BitVec.ofNat 32 i * step

theorem strided_succ (a step : Word) (k : Nat) :
    strided a step (k + 1) = a :: strided (a + step) step k := by
  have shift : ∀ i, a + BitVec.ofNat 32 (i + 1) * step = a + step + BitVec.ofNat 32 i * step := by
    intro i
    rw [BitVec.ofNat_add, BitVec.add_mul, BitVec.add_comm (_ * step), ← BitVec.add_assoc]
    simp
  simp [strided, List.range_succ_eq_map, Function.comp_def, shift]

theorem mem_strided {a step x : Word} {k : Nat} (mem : x ∈ strided a step k)
    (bound : a.toNat + k * step.toNat < 2 ^ 32) :
    ∃ i, i < k ∧ x.toNat = a.toNat + i * step.toNat := by
  obtain ⟨i, inside, rfl⟩ := List.mem_map.mp mem
  have below := List.mem_range.mp inside
  have product : i * step.toNat ≤ k * step.toNat := Nat.mul_le_mul_right _ (by omega)
  refine ⟨i, below, ?_⟩
  rw [BitVec.toNat_add, BitVec.toNat_mul, BitVec.toNat_ofNat, Nat.mod_mul_mod,
    Nat.mod_eq_of_lt (by omega : i * step.toNat < 2 ^ 32), Nat.mod_eq_of_lt (by omega)]

theorem countUp_eq {hi step : Word} (pos : 0 < step.toNat) {k n : Nat} {a : Word} (turns : k ≤ n)
    (reach : a.toNat + k * step.toNat = hi.toNat) : countUp hi step n a = strided a step k := by
  -- on the turns left; any number of them the loop could still make is enough
  induction k generalizing n a with
  | zero =>
    cases n with
    | zero => rfl
    | succ n =>
      have done : ¬ a < hi := by rw [BitVec.lt_def]; omega
      simp [countUp, done, strided]
  | succ k ih =>
    obtain ⟨n, rfl⟩ : ∃ m, n = m + 1 := ⟨n - 1, by omega⟩
    have product : (k + 1) * step.toNat = k * step.toNat + step.toNat := Nat.succ_mul _ _
    have more : a < hi := by rw [BitVec.lt_def]; omega
    have next : (a + step).toNat = a.toNat + step.toNat := by
      have := hi.isLt
      rw [BitVec.toNat_add, Nat.mod_eq_of_lt (by omega)]
    rw [countUp, if_pos more, strided_succ, ih (by omega) (by omega)]

theorem forRange_eq {a len step : Word} {k : Nat} (pos : 0 < step.toNat)
    (whole : len.toNat = k * step.toNat) (bound : a.toNat + len.toNat < 2 ^ 32) :
    forRange a (a + len) step = strided a step k := by
  have stop : (a + len).toNat = a.toNat + len.toNat := by
    rw [BitVec.toNat_add, Nat.mod_eq_of_lt bound]
  have turns : (a + len - a).toNat = len.toNat := by rw [BitVec.add_comm, BitVec.add_sub_cancel]
  have enough : k ≤ k * step.toNat := Nat.le_mul_of_pos_right _ pos
  exact countUp_eq pos (by omega) (by omega)

def Reads (lo hi : Nat) : PortOp → Prop
  | .xipRead32 a => lo ≤ a.toNat ∧ a.toNat + 4 ≤ hi
  | _ => False

theorem Reads.mono {lo hi lo' hi' : Nat} {op : PortOp} (h : Reads lo hi op) (low : lo' ≤ lo)
    (high : hi ≤ hi') : Reads lo' hi' op := by
  cases op with
  | xipRead32 a =>
    obtain ⟨first, last⟩ := h
    exact ⟨by omega, by omega⟩
  | _ => exact h.elim

@[simp] theorem Flash.bytes_length (f : Flash) (lo len : Nat) : (f.bytes lo len).length = len :=
  Nor.read_length

theorem Flash.bytes_add (f : Flash) (lo len k : Nat) :
    f.bytes lo (len + k) = f.bytes lo len ++ f.bytes (lo + len) k := Nor.read_add k

theorem Flash.bytes_congr {f g : Flash} {lo len : Nat} (same : (Set.Ico lo (lo + len)).EqOn f g) :
    f.bytes lo len = g.bytes lo len := Nor.read_congr same

theorem Flash.put32_read32 (f : Flash) (a : Word) : put32 (f.read32 a) = f.bytes a.toNat 4 :=
  put32_get32 _ _ _ _

theorem Flash.read32_congr {f g : Flash} {a : Word}
    (same : (Set.Ico a.toNat (a.toNat + 4)).EqOn f g) : f.read32 a = g.read32 a :=
  congrArg get32 (Flash.bytes_congr same)

theorem coherent_congr {f g : Flash} {lo hi : Nat} (same : (Set.Ico lo hi).EqOn f g) (op : PortOp)
    (h : Reads lo hi op) : coherent f op = coherent g op := by
  cases op with
  | xipRead32 a =>
    exact Flash.read32_congr (Set.EqOn.mono (Set.Ico_subset_Ico h.1 h.2) same)
  | _ => exact h.elim

@[simp] theorem answer_xipRead32 (f : Flash) (r : Core) (a : Word) :
    (xipRead32 a).answer (coherent f) r = f.read32 a := rfl

section
variable {ask : PortOp → Prop}

theorem xipCrcLoop_queries {l : List Word} (all : ∀ a ∈ l, ask (.xipRead32 a)) (c : Word) :
    (xipCrcLoop l c).Queries ask fun _ => True := by
  induction l generalizing c with
  | nil => trivial
  | cons a rest ih =>
    exact ⟨all a List.mem_cons_self,
      fun v => ih (fun b mem => all b (List.mem_cons_of_mem _ mem)) _⟩

theorem xipWords_queries {l : List Word} (all : ∀ a ∈ l, ask (.xipRead32 a)) :
    (xipWords l).Queries ask fun _ => True := by
  induction l with
  | nil => trivial
  | cons a rest ih =>
    refine ⟨all a List.mem_cons_self, fun v => ?_⟩
    exact (ih fun b mem => all b (List.mem_cons_of_mem _ mem)).bind fun _ _ => trivial

theorem reads_strided {a : Word} {k : Nat} (bound : a.toNat + 4 * k < 2 ^ 32) :
    ∀ x ∈ strided a 4 k, Reads a.toNat (a.toNat + 4 * k) (.xipRead32 x) := by
  intro x mem
  have four : (4 : Word).toNat = 4 := rfl
  have room : a.toNat + k * (4 : Word).toNat < 2 ^ 32 := by
    rw [four]
    omega
  obtain ⟨i, below, at_i⟩ := mem_strided mem room
  rw [four] at at_i
  exact ⟨by omega, by omega⟩

theorem xipCrcLoop_answer (f : Flash) (r : Core) {a : Word} {k : Nat} (c : Word)
    (bound : a.toNat + 4 * k < 2 ^ 32) :
    (xipCrcLoop (strided a 4 k) c).answer (coherent f) r =
      crc32Update c (f.bytes a.toNat (4 * k)) := by
  induction k generalizing a c with
  | zero => rfl
  | succ k ih =>
    have next : (a + 4).toNat = a.toNat + 4 := by
      rw [BitVec.toNat_add, Nat.mod_eq_of_lt (by simp; omega)]
      rfl
    have split : 4 * (k + 1) = 4 + 4 * k := by omega
    rw [strided_succ, split, Flash.bytes_add, crc32Update_append,
      ← Flash.put32_read32, ← next, ← ih _ (by omega)]
    rfl

theorem xipWords_answer (f : Flash) (r : Core) {a : Word} {k : Nat}
    (bound : a.toNat + 4 * k < 2 ^ 32) :
    (xipWords (strided a 4 k)).answer (coherent f) r = f.bytes a.toNat (4 * k) := by
  induction k generalizing a with
  | zero => rfl
  | succ k ih =>
    have next : (a + 4).toNat = a.toNat + 4 := by
      rw [BitVec.toNat_add, Nat.mod_eq_of_lt (by simp; omega)]
      rfl
    have split : 4 * (k + 1) = 4 + 4 * k := by omega
    rw [strided_succ, split, Flash.bytes_add, ← Flash.put32_read32,
      ← next, ← ih (by omega)]
    simp [xipWords]

end

theorem forRange_words {addr len : Word} (whole : len % 4 = 0)
    (bound : addr.toNat + len.toNat < 2 ^ 32) :
    forRange addr (addr + len) 4 = strided addr 4 (len.toNat / 4) ∧
      4 * (len.toNat / 4) = len.toNat := by
  have exact_len : len.toNat % 4 = 0 := by
    have := congrArg BitVec.toNat whole
    simpa [BitVec.toNat_umod] using this
  have four : (4 : Word).toNat = 4 := rfl
  have turns : len.toNat = len.toNat / 4 * (4 : Word).toNat := by
    rw [four]
    omega
  exact ⟨forRange_eq (by decide) turns bound, by omega⟩

theorem xipCrc32_queries {addr len : Word} (whole : len % 4 = 0)
    (bound : addr.toNat + len.toNat < 2 ^ 32) :
    (xipCrc32 addr len).Queries (Reads addr.toNat (addr.toNat + len.toNat)) fun _ => True := by
  obtain ⟨turns, exact_len⟩ := forRange_words whole bound
  refine Queries.bind (xipCrcLoop_queries ?_ _) fun _ _ => trivial
  rw [turns]
  have each := reads_strided (a := addr) (k := len.toNat / 4) (by omega)
  rwa [exact_len] at each

theorem xipCrc32_answer (f : Flash) (r : Core) {addr len : Word} (whole : len % 4 = 0)
    (bound : addr.toNat + len.toNat < 2 ^ 32) :
    (xipCrc32 addr len).answer (coherent f) r = crc32 (f.bytes addr.toNat len.toNat) := by
  obtain ⟨turns, exact_len⟩ := forRange_words whole bound
  unfold xipCrc32
  rw [turns, answer_bind, xipCrcLoop_answer f r _ (by omega), exact_len]
  rfl

/-- Whatever the part answers, the words are read in order and their little-endian bytes are
    folded. -/
theorem xipCrcLoop_exec {W : Type} {E : Environment port W} {c c' : Core} {w w' : W}
    {es : List (Event port)} {l : List Word} {s v : Word}
    (run : (xipCrcLoop l s).Exec E c w es v c' w') :
    es.map (·.op) = l.map .xipRead32 ∧ v = crc32Update s (es.flatMap fun e => put32 e.reply) := by
  induction l generalizing s w es with
  | nil =>
    obtain ⟨rfl, rfl, -, -⟩ := exec_pure.mp run
    exact ⟨rfl, rfl⟩
  | cons a rest ih =>
    unfold xipCrcLoop at run
    obtain ⟨_, es, x, _, _, rfl, read, run⟩ := exec_bind.mp run
    obtain ⟨rfl, rfl, -⟩ := exec_perform.mp read
    obtain ⟨ops, value⟩ := ih run
    refine ⟨congrArg (_ :: ·) ops, ?_⟩
    rw [value, ← crc32Update_append]
    rfl

theorem xipCrc32_exec {W : Type} {E : Environment port W} {c c' : Core} {w w' : W}
    {es : List (Event port)} {addr len v : Word} (whole : len % 4 = 0)
    (bound : addr.toNat + len.toNat < 2 ^ 32) (run : (xipCrc32 addr len).Exec E c w es v c' w') :
    es.map (·.op) = (strided addr 4 (len.toNat / 4)).map .xipRead32 ∧
      v = crc32 (es.flatMap fun e => put32 e.reply) := by
  unfold xipCrc32 at run
  rw [(forRange_words whole bound).1] at run
  obtain ⟨es₁, _, s, _, _, rfl, loop, last⟩ := exec_bind.mp run
  obtain ⟨rfl, rfl, -, -⟩ := exec_pure.mp last
  obtain ⟨ops, rfl⟩ := xipCrcLoop_exec loop
  rw [List.append_nil]
  exact ⟨ops, rfl⟩

structure Geometry (D : Device) (slot len : Word) : Prop where
  nonzero : len ≠ 0
  whole : len % 4 = 0
  capacity : len ≤ D.slotCapacity slot

structure Accepted (D : Device) (slot : Word) (record : BootRecord) : Prop where
  magic : record.magic = recordMagic
  crc : crc32 (record.bytes.take recordCrcLen) = record.recCrc32
  rsvd : ∀ b ∈ record.rsvd, b = 0
  generation : record.generation ≠ 0
  geometry : Geometry D slot record.imgLen

theorem recordCheck_eq_some {D : Device} {slot : Word} {record r : BootRecord} :
    recordCheck D slot record = some r ↔ r = record ∧ Accepted D slot record := by
  unfold recordCheck
  constructor
  · intro h
    split at h <;> [cases h; rename_i magic]
    split at h <;> [cases h; rename_i crc]
    split at h <;> [cases h; rename_i rsvd]
    split at h <;> [cases h; rename_i generation]
    split at h <;> [rename_i geometry; cases h]
    obtain rfl := Option.some.inj h
    obtain ⟨nonzero, whole, capacity⟩ := geometry
    exact ⟨rfl, by simpa using magic, by simpa using crc, by simpa using rsvd, generation,
      nonzero, whole, capacity⟩
  · rintro ⟨rfl, h⟩
    have rsvd : ¬ r.rsvd.any (· ≠ 0) = true := by simpa using h.rsvd
    rw [if_neg (not_not.mpr h.magic), if_neg (not_not.mpr h.crc), if_neg rsvd,
      if_neg h.generation, if_pos ⟨h.geometry.nonzero, h.geometry.whole, h.geometry.capacity⟩]

section
variable {D : Device} {slot : Word}

def SlotReads (D : Device) (slot : Word) (op : PortOp) : Prop :=
  IsSlot slot ∧ D.Fits slot ∧ Reads (D.base slot) (D.base slot + D.slotSize.toNat) op

theorem SlotReads.in_region {op : PortOp} (h : SlotReads D slot op) :
    Reads D.flashAppStart.toNat D.appEnd.toNat op :=
  h.2.2.mono (D.appStart_le_base h.1) ((D.fits_iff h.1).mp h.2.1)

theorem coherent_congr_slot {f g : Flash} (same : (D.span slot).EqOn f g) (op : PortOp)
    (h : SlotReads D slot op) : coherent f op = coherent g op := coherent_congr same op h.2.2

theorem Geometry.toNat_le {len : Word} (h : Geometry D slot len) (isSlot : IsSlot slot)
    (fits : D.Fits slot) : D.base slot + len.toNat ≤ D.recordAt slot := by
  have cap := D.capacity_eq isSlot fits
  have bound := BitVec.le_def.mp h.capacity
  omega

theorem Geometry.fits {len : Word} (h : Geometry D slot len) : D.Fits slot := by
  intro zero
  have bound := h.capacity
  rw [zero] at bound
  exact h.nonzero (by bv_omega)

theorem Geometry.bound {len : Word} (h : Geometry D slot len) (isSlot : IsSlot slot) :
    D.base slot + len.toNat < 2 ^ 32 := by
  have top := h.toNat_le isSlot h.fits
  have room := D.recordAt_add isSlot
  have limit := D.span_lt isSlot
  omega

theorem recordAt_bound (isSlot : IsSlot slot) : D.recordAt slot + 32 < 2 ^ 32 := by
  have room := D.recordAt_add isSlot
  have limit := D.span_lt isSlot
  omega

theorem recordLoad_queries (D : Device) (slot : Word) :
    (recordLoad D slot).Queries (SlotReads D slot) fun found =>
      ∀ record, found = some record → IsSlot slot ∧ Geometry D slot record.imgLen := by
  unfold recordLoad
  by_cases high : slot ≥ slotCount
  · rw [if_pos high]
    exact fun _ none => nomatch none
  have isSlot : IsSlot slot := isSlot_iff.mpr (by bv_omega)
  rw [if_neg high]
  -- a slot beyond the die is refused before anything of it is read
  by_cases small : D.slotCapacity slot = 0
  · simp only [small, if_true]
    exact fun _ none => nomatch none
  simp only [small, if_false]
  refine Queries.seq (xipWords_queries fun a mem => ?_) fun bytes => ?_
  · have top := D.recordAt_add isSlot
    have low := D.base_lt_recordAt isSlot
    have inside : Reads (D.recordAt slot) (D.recordAt slot + 4 * 8) (.xipRead32 a) :=
      reads_strided (recordAt_bound isSlot) a mem
    exact ⟨isSlot, small, inside.mono (by omega) (by omega)⟩
  · intro record found
    obtain ⟨rfl, accepted⟩ := recordCheck_eq_some.mp found
    exact ⟨isSlot, accepted.geometry⟩

theorem bootImageValid_queries (isSlot : IsSlot slot) {record : BootRecord}
    (geometry : Geometry D slot record.imgLen) :
    (bootImageValid D slot record).Queries (SlotReads D slot) fun _ => True := by
  have fits := geometry.fits
  have top := D.recordAt_add isSlot
  have low := D.base_lt_recordAt isSlot
  have room := geometry.toNat_le isSlot fits
  have first : SlotReads D slot (.xipRead32 (D.slotBase slot)) := by
    refine ⟨isSlot, fits, Nat.le_refl _, ?_⟩
    change D.base slot + 4 ≤ _
    omega
  have last : (do return (← xipRead32 (D.slotBase slot)) ≠ erasedWord : Code Bool).Queries
      (SlotReads D slot) fun _ => True := ⟨first, fun _ => trivial⟩
  unfold bootImageValid
  by_cases check : D.bootImageCrc
  · simp only [check, if_true]
    refine Queries.seq ?_ fun crc => ?_
    · refine (xipCrc32_queries geometry.whole (geometry.bound isSlot)).mono (fun op h => ?_)
        fun _ _ => trivial
      exact ⟨isSlot, fits, h.mono (Nat.le_refl _) (by change D.base slot + _ ≤ _; omega)⟩
    · by_cases same : crc ≠ record.imgCrc32
      · simp [same]
      · simp only [same, if_false]
        exact last
  · simp only [check]
    exact last

theorem bootSelectLoop_queries (D : Device) (slots : List Word) (highest bestGen best : Word)
    (start : best = slotNone ∨ IsSlot best) :
    (bootSelectLoop D slots highest bestGen best).Queries (fun op => ∃ slot, SlotReads D slot op)
      fun found => found.1 = slotNone ∨ IsSlot found.1 := by
  -- on the slots left; an image is only read for a record that loaded
  induction slots generalizing highest bestGen best with
  | nil => exact start
  | cons slot rest ih =>
    unfold bootSelectLoop
    apply ((recordLoad_queries D slot).mono (fun op h => ⟨slot, h⟩) fun _ h => h).bind
    intro found sound
    cases found with
    | none => exact ih _ _ _ start
    | some record =>
      obtain ⟨isSlot, geometry⟩ := sound record rfl
      simp only
      split
      · exact ih _ _ _ start
      refine ((bootImageValid_queries isSlot geometry).mono (fun op h => ⟨slot, h⟩)
        fun _ h => h).bind fun valid _ => ?_
      cases valid
      · exact ih _ _ _ start
      · exact ih _ _ _ (.inr isSlot)

theorem bootSelect_queries (D : Device) :
    (bootSelect D).Queries (fun op => ∃ slot, SlotReads D slot op)
      fun found => found.1 = slotNone ∨ IsSlot found.1 :=
  bootSelectLoop_queries D _ _ _ _ (.inl rfl)

theorem bootAppValid_queries (D : Device) (slot : Word) :
    (bootAppValid D slot).Queries (SlotReads D slot) fun _ => True := by
  refine (recordLoad_queries D slot).bind fun found sound => ?_
  cases found with
  | none => trivial
  | some record =>
    obtain ⟨isSlot, geometry⟩ := sound record rfl
    exact bootImageValid_queries isSlot geometry

end

end OpenBoot
