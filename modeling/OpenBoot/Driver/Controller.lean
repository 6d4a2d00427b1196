import OpenBoot.Driver.Triples

/-! The driver against a flash controller: what its registers do, and what each primitive of
the driver leaves in the controller's log.

A byte takes the engine any number of busy polls up to a lag. Nothing is known of an access
to an engine that is still busy.
-/

set_option autoImplicit false

namespace OpenBoot.Driver

open Semantics

structure Transaction where
  /-- The bytes clocked out. -/
  sent : List Byte
  /-- The words clocked out of the word buffer. -/
  words : List Word
  /-- The bytes clocked in. -/
  got : List Byte
  deriving DecidableEq

namespace Transaction

def opcode (t : Transaction) : Option Byte := t.sent.head?

def address (t : Transaction) : BitVec 24 := t.sent.getD 1 0 ++ t.sent.getD 2 0 ++ t.sent.getD 3 0

def send (t : Transaction) (v : Byte) : Transaction := { t with sent := t.sent ++ [v] }

def program (t : Transaction) (v : Word) : Transaction := { t with words := t.words ++ [v] }

def receive (t : Transaction) (x : Byte) : Transaction := { t with got := t.got ++ [x] }

/-- A fast read gives the bytes from its address on, after two dummy clocks. -/
def Streams (flash : BitVec 24 → Byte) (t : Transaction) (x : Byte) : Prop :=
  t.opcode = some 0x0B → 6 ≤ t.sent.length + t.got.length →
    x = flash (t.address + BitVec.ofNat 24 (t.sent.length + t.got.length - 6))

end Transaction

structure Controller where
  glob : Byte
  /-- Polls that still show the engine busy. -/
  engine : Nat
  current : Option Transaction
  /-- `R32_FLASH_DATA`. -/
  word : Word
  /-- Pulses since the word was loaded. -/
  pulses : Nat
  /-- The transactions ended. -/
  log : List Transaction
  deriving DecidableEq

def shiftIn (word : Word) (x : Byte) : Word := (word >>> 8) ||| (x.setWidth 32 <<< 24)

namespace Controller

def begin (c : Controller) : Controller := { c with engine := 0, current := some ⟨[], [], []⟩ }

def finish (c : Controller) : Controller :=
  { c with current := none, log := c.log ++ c.current.toList }

/-- The fourth pulse clocks the last byte of the word out. -/
def pulse (c : Controller) : Controller :=
  if c.pulses = 3 then { c with pulses := 0, current := c.current.map (·.program c.word) }
  else { c with pulses := c.pulses + 1 }

def clockOut (c : Controller) (v : Byte) : Controller :=
  { c with current := c.current.map (·.send v) }

def clockIn (c : Controller) (x : Byte) : Controller :=
  { c with current := c.current.map (·.receive x), word := shiftIn c.word x }

def Clocks (lag : Nat) (c c' : Controller) : Prop := ∃ n ≤ lag, c' = { c with engine := n }

def Step (flash : BitVec 24 → Byte) (lag : Nat) (c : Controller) :
    (op : RegOp) → op.Reply → Controller → Prop
  | .ctrlRd, v, c' =>
    BitVec.msb (show Byte from v) = decide (c.engine ≠ 0) ∧ c' = { c with engine := c.engine - 1 }
  | .ctrlWr v, _, c' =>
    if v = 0x05 then c' = c.begin
    else if v = 0x15 then c.engine = 0 → c.pulse.Clocks lag c'
    else if v = 0 then c.engine = 0 → c' = c.finish
    else c' = c
  | .data8Rd, x, c' =>
    c.engine = 0 → (∀ t, c.current = some t → t.Streams flash x) ∧ (c.clockIn x).Clocks lag c'
  | .data8Wr v, _, c' => c.engine = 0 → (c.clockOut v).Clocks lag c'
  | .data32Rd, x, c' => x = c.word ∧ c' = c
  | .data32Wr v, _, c' => c' = { c with word := v, pulses := 0 }
  | .globRd, x, c' => x = c.glob ∧ c' = c
  | .globWr v, _, c' => c' = { c with glob := v }
  | .nop, _, c' | .safeAccessEnable, _, c' | .safeAccessDisable, _, c' => c' = c

def next (flash : BitVec 24 → Byte) (c : Controller) : Byte :=
  match c.current with
  | some t => flash (t.address + BitVec.ofNat 24 (t.sent.length + t.got.length - 6))
  | none => 0

def prompt (flash : BitVec 24 → Byte) (c : Controller) : (op : RegOp) → op.Reply × Controller
  | .ctrlRd => ((if c.engine ≠ 0 then 0x80 else 0 : Byte), { c with engine := c.engine - 1 })
  | .ctrlWr v =>
    ((), if v = 0x05 then c.begin else if v = 0x15 then { c.pulse with engine := 0 }
      else if v = 0 then c.finish else c)
  | .data8Rd => (c.next flash, { c.clockIn (c.next flash) with engine := 0 })
  | .data8Wr v => ((), { c.clockOut v with engine := 0 })
  | .data32Rd => (c.word, c)
  | .data32Wr v => ((), { c with word := v, pulses := 0 })
  | .globRd => (c.glob, c)
  | .globWr v => ((), { c with glob := v })
  | .nop | .safeAccessEnable | .safeAccessDisable => ((), c)

end Controller

def controller (flash : BitVec 24 → Byte) (lag : Nat) : Environment registers Controller :=
  ⟨Controller.Step flash lag⟩

theorem prompt_sound (flash : BitVec 24 → Byte) (lag : Nat) (c : Controller) (op : RegOp) :
    (controller flash lag).step c op (c.prompt flash op).1 (c.prompt flash op).2 := by
  cases op with
  | ctrlRd =>
    refine ⟨?_, rfl⟩
    change BitVec.msb (if c.engine ≠ 0 then 0x80 else 0 : Byte) = _
    by_cases busy : c.engine ≠ 0
    · rw [if_pos busy, decide_eq_true busy]
      rfl
    · rw [if_neg busy, decide_eq_false busy]
      rfl
  | ctrlWr v =>
    simp only [controller, Controller.Step, Controller.prompt]
    split_ifs
    · rfl
    · exact fun _ => ⟨0, Nat.zero_le _, rfl⟩
    · exact fun _ => rfl
    · rfl
  | data8Rd =>
    refine fun _ => ⟨fun t current _ _ => ?_, 0, Nat.zero_le _, rfl⟩
    simp only [Controller.prompt, Controller.next, current]
  | data8Wr v => exact fun _ => ⟨0, Nat.zero_le _, rfl⟩
  | data32Rd => exact ⟨rfl, rfl⟩
  | globRd => exact ⟨rfl, rfl⟩
  | _ => rfl

theorem controller_total (flash : BitVec 24 → Byte) (lag : Nat) : (controller flash lag).Total :=
  fun c op => ⟨_, _, prompt_sound flash lag c op⟩

/-- The engine gets ready within `lag` polls, and the rest holds. -/
def Within (lag : Nat) (P : Controller → Prop) (c : Controller) : Prop := c.engine ≤ lag ∧ P c

def At (log : List Transaction) (current : Option Transaction) (c : Controller) : Prop :=
  c.log = log ∧ c.current = current

def Controller.start (glob : Byte) : Controller := ⟨glob, 0, none, 0, 0, []⟩

structure Controller.Idle (c : Controller) : Prop where
  engine : c.engine = 0
  closed : c.current = none

theorem Controller.Idle.start {c : Controller} (idle : c.Idle) : Within 0 (At c.log none) c :=
  ⟨Nat.le_of_eq idle.engine, rfl, idle.closed⟩

/-- The code returns, and does what it should. -/
abbrev Does {A : Type} (flash : BitVec 24 → Byte) (lag : Nat) (pre : Controller → Prop)
    (p : Code A) (post : A → Controller → Prop) : Prop :=
  Triple (controller flash lag) (fun _ => False) pre p post

variable {flash : BitVec 24 → Byte} {lag fuel : Nat} {F : Config} {log : List Transaction}
  {t : Transaction} {current : Option Transaction} {A B : Type}

theorem At.clock {c c' : Controller} (h : At log current c) (started : c.Clocks lag c') :
    Within lag (At log current) c' := by
  obtain ⟨n, soon, rfl⟩ := started
  exact ⟨soon, h⟩

theorem Within.later {P : Controller → Prop} {c : Controller} (h : Within 0 P c) : Within lag P c :=
  ⟨h.1.trans (Nat.zero_le lag), h.2⟩

/-- A poll takes one off the polls to come; what holds apart from the engine stays. -/
theorem flBusy_does {P : Controller → Prop} (late : lag < fuel)
    (stable : ∀ c n, P c → P { c with engine := n }) :
    Does flash lag (Within lag P) (flBusy fuel) fun _ => Within 0 P := by
  have polls : ∀ fuel k, k < fuel →
      Does flash lag (fun c => c.engine = k ∧ P c) (flBusy fuel) fun _ => Within 0 P := by
    intro fuel
    induction fuel with
    | zero => exact fun k none => absurd none (Nat.not_lt_zero k)
    | succ fuel ih =>
      intro k more
      refine .via (fun v c => BitVec.msb v = decide (k ≠ 0) ∧ c.engine = k - 1 ∧ P c) ?_ fun v => ?_
      · apply Triple.access
        rintro c v c' ⟨rfl, h⟩ ⟨top, rfl⟩
        exact ⟨top, rfl, stable c _ h⟩
      · apply Triple.ite
        · intro busy c ⟨top, engine, h⟩
          have left : k ≠ 0 := of_decide_eq_true (top.symm.trans busy)
          exact ih (k - 1) (by omega) c ⟨engine, h⟩
        · intro ready
          apply Triple.pure
          rintro c ⟨top, engine, h⟩
          have none : k = 0 := by
            by_contra left
            exact ready (top.trans (decide_eq_true left))
          exact ⟨by omega, h⟩
  exact fun c h => polls fuel c.engine (by have := h.1; omega) c ⟨rfl, h.2⟩

theorem flBusy_at (late : lag < fuel) :
    Does flash lag (Within lag (At log current)) (flBusy fuel) fun _ => Within 0 (At log current) :=
  flBusy_does late fun _ _ h => h

theorem flNops_does {pre : Controller → Prop} (n : Nat) :
    Does flash lag pre (flNops n) fun _ => pre := by
  induction n with
  | zero => exact .pure fun c h => h
  | succ n ih =>
    refine .via (fun _ => pre) (.access ?_) fun _ => ih
    rintro c _ c' h rfl
    exact h

theorem close_does : Does flash lag (Within 0 (At log current)) (access (.ctrlWr 0))
    fun _ => Within 0 (At (log ++ current.toList) none) := by
  apply Triple.access
  rintro c _ c' ⟨ready, rfl, rfl⟩ step
  obtain rfl : c' = c.finish := step (Nat.le_zero.mp ready)
  exact ⟨ready, rfl, rfl⟩

theorem data8Wr_does (v : Byte) : Does flash lag (Within 0 (At log (some t)))
    (access (.data8Wr v)) fun _ => Within lag (At log (some (t.send v))) := by
  apply Triple.access
  rintro c _ c' ⟨ready, rfl, same⟩ step
  have clocked : At c.log (some (t.send v)) (c.clockOut v) := ⟨rfl, congrArg (Option.map _) same⟩
  exact clocked.clock (step (Nat.le_zero.mp ready))

theorem flEnd_does (late : lag < fuel) : Does flash lag (Within lag (At log (some t)))
    (flEnd fuel) fun _ => Within 0 (At (log ++ [t]) none) :=
  .bind (flBusy_at late) fun _ => close_does

theorem flOut_does (late : lag < fuel) (v : Byte) : Does flash lag (Within lag (At log (some t)))
    (flOut fuel v) fun _ => Within lag (At log (some (t.send v))) :=
  .bind (flBusy_at late) fun _ => data8Wr_does v

theorem flBegin_does (cmd : Byte) : Does flash lag (Within 0 (At log none)) (flBegin F cmd)
    fun _ => Within lag (At log (some ⟨[cmd], [], []⟩)) := by
  have closed : Does flash lag (Within 0 (At log none)) (access (.ctrlWr 0))
      fun _ => Within 0 (At log none) := by
    simpa using (close_does : Does flash lag (Within 0 (At log none)) _ fun _ => _)
  refine .bind closed fun _ => .via (fun _ => Within 0 (At log (some ⟨[], [], []⟩))) ?_ fun _ => ?_
  · apply Triple.access
    rintro c _ c' ⟨-, rfl, -⟩ rfl
    exact ⟨Nat.le_refl 0, rfl, rfl⟩
  · exact .bind (flNops_does _) fun _ => data8Wr_does cmd

theorem flIn_does {Q : Word → Prop} (late : lag < fuel) :
    Does flash lag (Within lag fun c => At log (some t) c ∧ Q c.word) (flIn fuel) fun x =>
      Within lag fun c => At log (some (t.receive x)) c ∧ t.Streams flash x ∧
        ∃ word, Q word ∧ c.word = shiftIn word x := by
  refine .bind (flBusy_does late fun _ _ h => h) fun _ => .access ?_
  rintro c x c' ⟨ready, ⟨rfl, same⟩, holds⟩ step
  obtain ⟨streams, n, soon, rfl⟩ := step (Nat.le_zero.mp ready)
  exact ⟨soon, ⟨rfl, congrArg (Option.map _) same⟩, streams t same, c.word, holds, rfl⟩

theorem flIn_at (late : lag < fuel) : Does flash lag (Within lag (At log (some t))) (flIn fuel)
    fun x => Within lag (At log (some (t.receive x))) :=
  (flIn_does (Q := fun _ => True) late).weaken (fun _ h => ⟨h.1, h.2, trivial⟩)
    fun _ _ h => ⟨h.1, h.2.1⟩

def addrBytes (addr : Word) : List Byte :=
  [(addr >>> 16).setWidth 8, (addr >>> 8).setWidth 8, addr.setWidth 8]

theorem address_addrBytes (cmd : Byte) (addr : Word) (dummy : List Byte) (words : List Word)
    (got : List Byte) :
    Transaction.address ⟨cmd :: (addrBytes addr ++ dummy), words, got⟩ = addr.setWidth 24 := by
  apply BitVec.eq_of_getLsbD_eq
  intro i small
  change ((addr >>> 16).setWidth 8 ++ (addr >>> 8).setWidth 8 ++ addr.setWidth 8).getLsbD i = _
  rw [BitVec.getLsbD_append, BitVec.getLsbD_append]
  interval_cases i <;> simp

def shiftedBytes : Nat → Word → List Byte
  | 0, _ => []
  | n + 1, addr => (addr >>> 16).setWidth 8 :: shiftedBytes n (addr <<< 8)

theorem shiftedBytes_three (addr : Word) : shiftedBytes 3 addr = addrBytes addr := by
  have second : ((addr <<< 8) >>> 16).setWidth 8 = (addr >>> 8).setWidth 8 := by
    apply BitVec.eq_of_getLsbD_eq
    intro i small
    interval_cases i <;> simp
  have third : ((addr <<< 8 <<< 8) >>> 16).setWidth 8 = addr.setWidth 8 := by
    apply BitVec.eq_of_getLsbD_eq
    intro i small
    interval_cases i <;> simp
  simp only [shiftedBytes, addrBytes, second, third]

theorem shiftedBytes_five (addr : Word) : shiftedBytes 5 addr = addrBytes addr ++ [0, 0] := by
  have first : ((addr <<< 8 <<< 8 <<< 8) >>> 16).setWidth 8 = (0 : Byte) := by
    apply BitVec.eq_of_getLsbD_eq
    intro i small
    interval_cases i <;> simp
  have second : ((addr <<< 8 <<< 8 <<< 8 <<< 8) >>> 16).setWidth 8 = (0 : Byte) := by
    apply BitVec.eq_of_getLsbD_eq
    intro i small
    interval_cases i <;> simp
  rw [← shiftedBytes_three]
  simp only [shiftedBytes, first, second, List.cons_append, List.nil_append]

theorem flAddr_does (late : lag < fuel) (n : Nat) (addr : Word) :
    Does flash lag (Within lag (At log (some t))) (flAddr fuel n addr) fun _ =>
      Within lag (At log (some { t with sent := t.sent ++ shiftedBytes n addr })) := by
  induction n generalizing t addr with
  | zero =>
    rw [shiftedBytes, List.append_nil]
    exact .pure fun c h => h
  | succ n ih =>
    refine .bind (flOut_does late _) fun _ => (ih _).weaken (fun c h => h) fun _ c h => ?_
    simpa [Transaction.send, shiftedBytes] using h

def wren : Transaction := ⟨[0x06], [], []⟩

theorem flCmdAddr_mutation (late : lag < fuel) {cmd : Byte} (other : cmd &&& 0xBF ≠ 0x0B)
    (addr : Word) : Does flash lag (Within 0 (At log none)) (flCmdAddr F fuel cmd addr) fun _ =>
      Within lag (At (log ++ [wren]) (some ⟨cmd :: addrBytes addr, [], []⟩)) := by
  refine .ite (fun _ => ?_) fun reads => absurd other reads
  refine .bind (flBegin_does _) fun _ => .bind (flEnd_does late) fun _ =>
    .bind (flBegin_does _) fun _ => (flAddr_does late 3 addr).weaken (fun c h => h) fun _ c h => ?_
  rwa [shiftedBytes_three] at h

theorem flCmdAddr_read (late : lag < fuel) {cmd : Byte} (reads : cmd &&& 0xBF = 0x0B)
    (addr : Word) : Does flash lag (Within 0 (At log none)) (flCmdAddr F fuel cmd addr) fun _ =>
      Within lag (At log (some ⟨cmd :: (addrBytes addr ++ [0, 0]), [], []⟩)) := by
  refine .ite (fun other => absurd reads other) fun _ => ?_
  refine .bind (flBegin_does _) fun _ => (flAddr_does late 5 addr).weaken (fun c h => h) fun _ c h => ?_
  rwa [shiftedBytes_five] at h

def resume (F : Config) : Transaction :=
  ⟨if F.resumeTwice = true then [0xFF, 0xFF] else [0xFF], [], []⟩

theorem idle_does {op : RegOp}
    (idle : ∀ c x c', Controller.Step flash lag c op x c' → ∃ glob, c' = { c with glob := glob }) :
    Does flash lag (Within 0 (At log current)) (access op) fun _ => Within 0 (At log current) := by
  apply Triple.access
  intro c x c' h step
  obtain ⟨glob, rfl⟩ := idle c x c' step
  exact h

theorem flOpen_does (late : lag < fuel) (gate : Byte) : Does flash lag (Within 0 (At log none))
    (flOpen F fuel gate) fun _ => Within 0 (At (log ++ [resume F]) none) := by
  have ended : ∀ t, resume F = t → Does flash lag (Within lag (At log (some t))) (flEnd fuel)
      fun _ => Within 0 (At (log ++ [resume F]) none) := by
    rintro _ rfl
    exact flEnd_does late
  refine .bind (idle_does ?_) fun reg => .bind (idle_does ?_) fun _ => .bind (idle_does ?_)
    fun _ => .bind (idle_does ?_) fun _ => .bind (idle_does ?_) fun _ =>
    .bind (flBegin_does _) fun _ => .ite (fun twice => ?_) fun once => ?_
  · rintro c _ c' ⟨-, rfl⟩
    exact ⟨_, rfl⟩
  · rintro c _ c' rfl
    exact ⟨_, rfl⟩
  · rintro c _ c' rfl
    exact ⟨_, rfl⟩
  · rintro c _ c' rfl
    exact ⟨_, rfl⟩
  · rintro c _ c' rfl
    exact ⟨_, rfl⟩
  · refine .bind (flBusy_at late) fun _ => .bind (data8Wr_does _) fun _ =>
      .bind (flBusy_at late) fun _ => (ended _ ?_).weaken (fun c h => h.later) fun _ _ => id
    rw [resume, if_pos twice]
    rfl
  · apply ended
    rw [resume, if_neg once]

theorem flClose_does : Does flash lag (Within 0 (At log none)) flClose
    fun _ => Within 0 (At log none) := by
  refine .bind (idle_does ?_) fun reg => .bind (idle_does ?_) fun _ => .bind (idle_does ?_)
    fun _ => idle_does ?_
  · rintro c _ c' ⟨-, rfl⟩
    exact ⟨_, rfl⟩
  · rintro c _ c' rfl
    exact ⟨_, rfl⟩
  · rintro c _ c' rfl
    exact ⟨_, rfl⟩
  · rintro c _ c' rfl
    exact ⟨_, rfl⟩

theorem low_bits_eq_zero (k : Nat) (a : Word) (small : k ≤ 32 := by decide) :
    a &&& BitVec.ofNat 32 (2 ^ k - 1) = 0 ↔ a.toNat % 2 ^ k = 0 := by
  have mask : (BitVec.ofNat 32 (2 ^ k - 1)).toNat = 2 ^ k - 1 := by
    have := Nat.pow_le_pow_right (show 0 < 2 by decide) small
    have := Nat.two_pow_pos k
    rw [BitVec.toNat_ofNat]
    omega
  rw [← BitVec.toNat_inj, BitVec.toNat_and, mask, Nat.and_two_pow_sub_one_eq_mod]
  rfl

theorem not_refused {addr ptr len : Word} (aligned : addr.toNat % 4 = 0)
    (alignedPtr : ptr.toNat % 4 = 0) (nonzero : len ≠ 0) (whole : len.toNat % 4 = 0)
    (fits : addr.toNat + len.toNat < 2 ^ 32) :
    ¬ (len = 0 ∨ (addr ||| len) &&& 3 ≠ 0 ∨ ptr &&& 3 ≠ 0 ∨ addr + len < addr) := by
  have low (a : Word) (h : a.toNat % 4 = 0) : a &&& 3 = 0 := (low_bits_eq_zero 2 a).mpr h
  have both : (addr ||| len) &&& 3 = 0 := by
    rw [BitVec.and_comm, BitVec.and_or_distrib_left, BitVec.and_comm, low addr aligned,
      BitVec.and_comm, low len whole]
    rfl
  rintro (none | odd | odd | wraps)
  · exact nonzero none
  · exact odd both
  · exact odd (low ptr alignedPtr)
  · rw [BitVec.lt_def, BitVec.toNat_add, Nat.mod_eq_of_lt fits] at wraps
    omega

end OpenBoot.Driver
