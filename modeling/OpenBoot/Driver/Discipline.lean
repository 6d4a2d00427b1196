import OpenBoot.Driver.Triples

/-! The driver under a recording mock: every register may answer anything, except that
`R8_GLOB_ROM_CFG` keeps what is written to it, and every access is checked. -/

set_option autoImplicit false

namespace OpenBoot.Driver

open Semantics

structure Monitor where
  glob : Byte
  /-- A byte transfer may be under way. -/
  busy : Bool
  /-- A transaction was begun and not ended. -/
  inside : Bool
  /-- No byte was clocked since the transaction began. -/
  fresh : Bool
  safe : Bool
  begun : Nat
  ended : Nat
  opens : Nat
  closes : Nat
  /-- Status commands. -/
  polls : Nat
  /-- No access broke a rule. -/
  clean : Bool
  deriving DecidableEq

namespace Monitor

def start (glob : Byte) : Monitor := ⟨glob, false, false, false, false, 0, 0, 0, 0, 0, true⟩

def require (m : Monitor) (rule : Bool) : Monitor := { m with clean := m.clean && rule }

def gated (m : Monitor) : Bool := decide (m.glob &&& romCtrlEn ≠ 0)

def note (m : Monitor) : (op : RegOp) → op.Reply → Monitor
  -- a poll that shows the engine ready
  | .ctrlRd, v => { m with busy := m.busy && BitVec.msb (show Byte from v) }
  | .ctrlWr v, _ =>
    if v = 0x05 then
      { m.require (m.gated && !m.inside) with
        busy := false, inside := true, fresh := true, begun := m.begun + 1 }
    else if v = 0x15 then { m.require (m.inside && !m.busy) with busy := true }
    else if v = 0 then
      { m.require (!m.busy) with inside := false, ended := m.ended + m.inside.toNat }
    else m
  | .data8Rd, _ => { m.require (m.inside && !m.busy) with busy := true }
  | .data8Wr v, _ =>
    { m.require (m.inside && !m.busy) with
      busy := true, fresh := false, polls := m.polls + (m.fresh && decide (v = 0x05)).toNat }
  | .globWr v, _ =>
    if v &&& romCtrlEn ≠ 0 then
      { m.require (m.safe && decide (m.opens = 0)) with glob := v, opens := m.opens + 1 }
    else { m.require m.safe with glob := v, closes := m.closes + 1 }
  | .safeAccessEnable, _ => { m with safe := true }
  | .safeAccessDisable, _ => { m with safe := false }
  | .globRd, _ | .data32Rd, _ | .data32Wr _, _ | .nop, _ => m

end Monitor

/-- Which replies a register may give. -/
def Honest (m : Monitor) : (op : RegOp) → op.Reply → Prop
  | .globRd, v => v = m.glob
  | _, _ => True

def recording : Environment registers Monitor :=
  ⟨fun m op x m' => Honest m op x ∧ m' = m.note op x⟩

theorem recording_total : recording.Total := by
  intro m op
  cases op with
  | globRd => exact ⟨m.glob, _, rfl, rfl⟩
  | ctrlRd => exact ⟨(0 : Byte), _, trivial, rfl⟩
  | data8Rd => exact ⟨(0 : Byte), _, trivial, rfl⟩
  | data32Rd => exact ⟨(0 : Word), _, trivial, rfl⟩
  | _ => exact ⟨(), _, trivial, rfl⟩

variable {F : Config} {fuel : Nat} {A B : Type}

/-- The gate is open, every transaction but the current one is ended, and no rule was
    broken. -/
structure Gated (glob : Byte) (during : Bool) (m : Monitor) : Prop where
  clean : m.clean = true
  reg : m.glob = glob
  gate : m.gated = true
  inside : m.inside = during
  balance : m.begun = m.ended + during.toNat
  safe : m.safe = false
  opens : m.opens = 1
  closes : m.closes = 0

/-- From `pre`, the code breaks no rule, and where it returns `post` holds. -/
abbrev Keeps (pre : Monitor → Prop) (p : Code A) (post : A → Monitor → Prop) : Prop :=
  Triple recording (fun m => m.clean = true) pre p post

theorem Keeps.access {pre : Monitor → Prop} {op : RegOp} {post : op.Reply → Monitor → Prop}
    (step : ∀ m x, pre m → Honest m op x → post x (m.note op x)) : Keeps pre (access op) post := by
  apply Triple.access
  rintro m x m' h ⟨honest, rfl⟩
  exact step m x h honest

/-! ### The primitives -/

variable {glob : Byte} {during : Bool}

def Ready (glob : Byte) (during : Bool) (m : Monitor) : Prop := Gated glob during m ∧ m.busy = false

theorem Gated.engine {m : Monitor} (h : Gated glob during m) (busy : Bool) :
    Gated glob during { m with busy := busy } :=
  ⟨h.clean, h.reg, h.gate, h.inside, h.balance, h.safe, h.opens, h.closes⟩

theorem flBusy_keeps : Keeps (Gated glob during) (flBusy fuel) fun _ => Ready glob during := by
  induction fuel with
  | zero => exact fun m h => h.clean
  | succ fuel ih =>
    refine .via (fun v m => Gated glob during m ∧ (BitVec.msb v = false → m.busy = false)) ?_ ?_
    · apply Keeps.access
      intro m v h _
      refine ⟨h.engine _, fun ready => ?_⟩
      change (m.busy && BitVec.msb v) = false
      rw [ready, Bool.and_false]
    · intro v
      apply Triple.ite
      · intro _
        exact ih.weaken (fun m h => h.1) fun _ _ => id
      · intro ready
        exact .pure fun m h => ⟨h.1, h.2 (Bool.eq_false_of_not_eq_true ready)⟩

theorem flNops_keeps {pre : Monitor → Prop} (n : Nat) : Keeps pre (flNops n) fun _ => pre := by
  induction n with
  | zero => exact .pure fun m h => h
  | succ n ih => exact .bind (Keeps.access fun _ _ h _ => h) fun _ => ih

theorem Gated.clock {m m' : Monitor} (h : Ready glob true m) (reg : m'.glob = m.glob)
    (inside : m'.inside = m.inside) (clean : m'.clean = (m.clean && (m.inside && !m.busy)))
    (counts : (m'.begun, m'.ended, m'.opens, m'.closes) = (m.begun, m.ended, m.opens, m.closes))
    (safe : m'.safe = m.safe) : Gated glob true m' := by
  obtain ⟨h, ready⟩ := h
  obtain ⟨begun, ended, opens, closes⟩ : m'.begun = m.begun ∧ m'.ended = m.ended ∧
      m'.opens = m.opens ∧ m'.closes = m.closes := by simpa only [Prod.mk.injEq] using counts
  constructor
  · rw [clean, h.clean, h.inside, ready]
    rfl
  · rw [reg, h.reg]
  · rw [Monitor.gated, reg]
    exact h.gate
  · rw [inside, h.inside]
  · rw [begun, ended, h.balance]
  · rw [safe, h.safe]
  · rw [opens, h.opens]
  · rw [closes, h.closes]

theorem data8Wr_keeps (v : Byte) :
    Keeps (Ready glob true) (access (.data8Wr v)) fun _ => Gated glob true :=
  .access fun _ _ h _ => .clock h rfl rfl rfl rfl rfl

theorem data8Rd_keeps : Keeps (Ready glob true) (access .data8Rd) fun _ => Gated glob true :=
  .access fun _ _ h _ => .clock h rfl rfl rfl rfl rfl

theorem pulse_keeps : Keeps (Ready glob true) (access (.ctrlWr 0x15)) fun _ => Gated glob true :=
  .access fun _ _ h _ => .clock h rfl rfl rfl rfl rfl

theorem close_keeps : Keeps (Ready glob during) (access (.ctrlWr 0)) fun _ => Ready glob false := by
  apply Keeps.access
  rintro m _ ⟨h, ready⟩ _
  refine ⟨⟨?_, h.reg, h.gate, rfl, ?_, h.safe, h.opens, h.closes⟩, ready⟩
  · change (m.clean && !m.busy) = true
    rw [h.clean, ready]
    rfl
  · change m.begun = m.ended + m.inside.toNat + 0
    rw [h.balance, h.inside]
    rfl

theorem open_keeps : Keeps (Ready glob false) (access (.ctrlWr 0x05)) fun _ => Ready glob true := by
  apply Keeps.access
  rintro m _ ⟨h, ready⟩ _
  refine ⟨⟨?_, h.reg, h.gate, rfl, ?_, h.safe, h.opens, h.closes⟩, rfl⟩
  · change (m.clean && (m.gated && !m.inside)) = true
    rw [h.clean, h.gate, h.inside]
    rfl
  · change m.begun + 1 = m.ended + 1
    rw [h.balance]
    rfl

theorem flBegin_keeps (cmd : Byte) :
    Keeps (Ready glob false) (flBegin F cmd) fun _ => Gated glob true :=
  .bind close_keeps fun _ => .bind open_keeps fun _ => .bind (flNops_keeps _) fun _ =>
    data8Wr_keeps cmd

theorem flEnd_keeps : Keeps (Gated glob during) (flEnd fuel) fun _ => Ready glob false :=
  .bind flBusy_keeps fun _ => close_keeps

theorem flIn_keeps : Keeps (Gated glob true) (flIn fuel) fun _ => Gated glob true :=
  .bind flBusy_keeps fun _ => data8Rd_keeps

theorem flOut_keeps (v : Byte) : Keeps (Gated glob true) (flOut fuel v) fun _ => Gated glob true :=
  .bind flBusy_keeps fun _ => data8Wr_keeps v

theorem flAddr_keeps (n : Nat) (addr : Word) :
    Keeps (Gated glob true) (flAddr fuel n addr) fun _ => Gated glob true := by
  induction n generalizing addr with
  | zero => exact .pure fun m h => h
  | succ n ih => exact .bind (flOut_keeps _) fun _ => ih _

theorem flCmdAddr_keeps (cmd : Byte) (addr : Word) :
    Keeps (Ready glob false) (flCmdAddr F fuel cmd addr) fun _ => Gated glob true := by
  apply Triple.ite
  · intro _
    exact .bind (flBegin_keeps _) fun _ => .bind flEnd_keeps fun _ => .bind (flBegin_keeps _)
      fun _ => flAddr_keeps _ _
  · intro _
    exact .bind (flBegin_keeps _) fun _ => flAddr_keeps _ _

theorem flPoll_keeps (i : Nat) :
    Keeps (Ready glob false) (flPoll F fuel i) fun _ => Ready glob false := by
  induction i with
  | zero => exact .pure fun m h => h
  | succ i ih =>
    refine .bind (flBegin_keeps _) fun _ => .bind flIn_keeps fun _ => .bind flIn_keeps
      fun status => .bind flEnd_keeps fun _ => ?_
    apply Triple.ite
    · intro _
      exact .pure fun m h => h
    · intro _
      exact ih

theorem flWait_keeps : Keeps (Gated glob during) (flWait F fuel) fun _ => Ready glob false :=
  .bind flEnd_keeps fun _ => flPoll_keeps _

def Closed (glob : Byte) (m : Monitor) : Prop := m = .start glob

structure Settled (glob : Byte) (m : Monitor) : Prop where
  clean : m.clean = true
  reg : m.glob = glob &&& romCodeOfs
  inside : m.inside = false
  ready : m.busy = false
  balance : m.begun = m.ended
  safe : m.safe = false
  opens : m.opens = 1
  closes : m.closes = 1

theorem or_and_ne_zero {g gate mask : Byte} (h : gate &&& mask ≠ 0) : (g ||| gate) &&& mask ≠ 0 := by
  intro zero
  rw [BitVec.and_comm, BitVec.and_or_distrib_left, BitVec.and_comm mask gate] at zero
  exact h (BitVec.or_eq_zero_iff.mp zero).2

theorem flOpen_keeps {gate : Byte} (enable : gate &&& romCtrlEn ≠ 0) :
    Keeps (Closed glob) (flOpen F fuel gate) fun _ => Ready (glob ||| gate) false := by
  refine .via (fun reg m => reg = glob ∧ Closed glob m) ?_ fun reg => ?_
  · apply Keeps.access
    rintro m x rfl same
    exact ⟨same, rfl⟩
  refine .via (fun _ m => reg = glob ∧ m = { Monitor.start glob with safe := true }) ?_
    fun _ => ?_
  · apply Keeps.access
    rintro m _ ⟨same, rfl⟩ _
    exact ⟨same, rfl⟩
  refine .via (fun _ m => m = { Monitor.start glob with
    safe := true, glob := glob ||| gate, opens := 1 }) ?_ fun _ => ?_
  · apply Keeps.access
    rintro m _ ⟨rfl, rfl⟩ _
    exact if_pos (or_and_ne_zero enable)
  refine .via (fun _ => Ready (glob ||| gate) false) ?_ fun _ => ?_
  · apply Keeps.access
    rintro _ _ rfl _
    exact ⟨⟨rfl, rfl, decide_eq_true (or_and_ne_zero enable), rfl, rfl, rfl, rfl, rfl⟩, rfl⟩
  -- CTRL=4 closes the controller, and the resume transaction follows
  refine .bind (Keeps.access fun _ _ h _ => h) fun _ => .bind (flBegin_keeps _) fun _ => ?_
  apply Triple.ite
  · intro _
    exact .bind flBusy_keeps fun _ => .bind (data8Wr_keeps _) fun _ => .bind flBusy_keeps fun _ =>
      flEnd_keeps.weaken (fun m h => h.1) fun _ _ => id
  · intro _
    exact flEnd_keeps

theorem flClose_keeps {gate : Byte} (apart : gate &&& romCodeOfs = 0) :
    Keeps (Ready (glob ||| gate) false) flClose fun _ => Settled glob := by
  have kept : (glob ||| gate) &&& romCodeOfs = glob &&& romCodeOfs := by
    rw [BitVec.and_comm, BitVec.and_or_distrib_left, BitVec.and_comm _ gate, apart, BitVec.and_comm]
    exact BitVec.or_zero
  have closing : ¬ (glob &&& romCodeOfs) &&& romCtrlEn ≠ 0 := by
    rw [BitVec.and_assoc, show romCodeOfs &&& romCtrlEn = 0 by decide]
    exact not_not_intro BitVec.and_zero
  refine .via (fun reg m => reg = glob ||| gate ∧ Ready (glob ||| gate) false m) ?_ fun reg => ?_
  · apply Keeps.access
    intro m x h same
    exact ⟨(show x = m.glob from same).trans h.1.reg, h⟩
  refine .via (fun _ m => reg = glob ||| gate ∧
    ∃ m', Ready (glob ||| gate) false m' ∧ m = { m' with safe := true }) ?_ fun _ => ?_
  · apply Keeps.access
    rintro m _ ⟨same, h⟩ _
    exact ⟨same, m, h, rfl⟩
  refine .via (fun _ m => ∃ m', Ready (glob ||| gate) false m' ∧
    m = { m' with safe := true, glob := glob &&& romCodeOfs, closes := 1 }) ?_ fun _ => ?_
  · apply Keeps.access
    rintro _ _ ⟨rfl, m', h, rfl⟩ _
    refine ⟨m', h, ?_⟩
    change (if (glob ||| gate) &&& romCodeOfs &&& romCtrlEn ≠ 0 then _ else _) = _
    rw [kept, if_neg closing]
    simp [Monitor.require, h.1.closes]
  · apply Keeps.access
    rintro _ _ ⟨m, ⟨h, ready⟩, rfl⟩ _
    exact ⟨h.clean, rfl, h.inside, ready, h.balance, rfl, h.opens, rfl⟩

/-! ### The operations -/

theorem eraseBlocks_keeps (count : Nat) (addr : Word) :
    Keeps (Ready glob false) (eraseBlocks F fuel count addr) fun _ => Ready glob false := by
  induction count generalizing addr with
  | zero => exact .pure fun m h => h
  | succ count ih =>
    refine .bind (flCmdAddr_keeps _ _) fun _ => .bind flWait_keeps fun status => ?_
    apply Triple.ite
    · intro _
      exact .pure fun m h => h
    · intro _
      exact ih _

theorem flPulses_keeps (n : Nat) :
    Keeps (Gated glob true) (flPulses fuel n) fun _ => Gated glob true := by
  induction n with
  | zero => exact .pure fun m h => h
  | succ n ih => exact .bind flBusy_keeps fun _ => .bind pulse_keeps fun _ => ih

theorem programWord_keeps (buf : Buffer) (w : Nat) :
    Keeps (Gated glob true) (programWord fuel buf w) fun _ => Gated glob true :=
  .bind (Keeps.access fun _ _ h _ => h) fun _ => flPulses_keeps 4

theorem programPage_keeps (buf : Buffer) (more w : Nat) (addr : Word) :
    Keeps (Gated glob true) (programPage fuel buf more w addr) fun _ => Gated glob true := by
  induction more generalizing w addr with
  | zero => exact .bind (programWord_keeps buf w) fun _ => .pure fun m h => h
  | succ more ih =>
    refine .bind (programWord_keeps buf w) fun _ => ?_
    apply Triple.ite
    · intro _
      exact .bind (ih _ _) fun rest => .pure fun m h => h
    · intro _
      exact .pure fun m h => h

theorem programPages_keeps (buf : Buffer) (words w : Nat) (addr : Word) :
    Keeps (Ready glob false) (programPages F fuel buf words w addr) fun _ => Ready glob false := by
  induction words using Nat.strong_induction_on generalizing w addr with
  | h words ih =>
    rw [programPages.eq_def]
    cases words with
    | zero => exact .pure fun m h => h
    | succ more =>
      refine .bind (flCmdAddr_keeps _ _) fun _ => .bind (programPage_keeps buf more w addr)
        fun rest => .bind flWait_keeps fun status => ?_
      apply Triple.ite
      · intro _
        exact .pure fun m h => h
      · intro _
        exact ih rest.left rest.less _ _

theorem verifyBytes_keeps (buf : Buffer) (left : Nat) (i : Word) (w : Nat) :
    Keeps (Gated glob true) (verifyBytes fuel buf left i w) fun _ => Gated glob true := by
  induction left generalizing i w with
  | zero => exact .pure fun m h => h
  | succ left ih =>
    refine .bind flIn_keeps fun _ => ?_
    apply Triple.ite
    · intro _
      refine .bind (Keeps.access fun _ _ h _ => h) fun word => ?_
      apply Triple.ite
      · intro _
        exact .pure fun m h => h
      · intro _
        exact ih _ _
    · intro _
      exact ih _ _

theorem uidBytes_keeps (n : Nat) (b : List Byte) :
    Keeps (Gated glob true) (uidBytes fuel n b) fun _ => Gated glob true := by
  induction n generalizing b with
  | zero => exact .pure fun m h => h
  | succ n ih => exact .bind flIn_keeps fun v => ih _

theorem clockBytes_keeps (n : Nat) :
    Keeps (Gated glob true) (clockBytes fuel n) fun _ => Gated glob true := by
  induction n with
  | zero => exact .pure fun m h => h
  | succ n ih => exact .bind flIn_keeps fun _ => ih

theorem gateWrite_bits (F : Config) :
    F.gateWrite &&& romCtrlEn ≠ 0 ∧ F.gateWrite &&& romCodeOfs = 0 := by
  unfold Config.gateWrite Config.romCodeWe
  cases F.family <;> decide

theorem gateRead_bits (F : Config) :
    F.gateRead &&& romCtrlEn ≠ 0 ∧ F.gateRead &&& romCodeOfs = 0 := by
  unfold Config.gateRead Config.gateWrite Config.romCodeWe
  cases F.family <;> decide

/-- The five calls of the driver. -/
inductive Call where
  | erase (addr len : Word)
  | write (addr : Word) (buf : Buffer) (len : Word)
  | verify (addr : Word) (buf : Buffer) (len : Word)
  | uidRead
  | romInfoRead (addr buf₁ : Word)

namespace Call

def code (F : Config) (fuel : Nat) : Call → Code Unit
  | erase addr len => do let _ ← flashErase F fuel addr len
  | write addr buf len => do let _ ← flashWrite F fuel addr buf len
  | verify addr buf len => do let _ ← flashVerify F fuel addr buf len
  | uidRead => do let _ ← Driver.uidRead F fuel
  | romInfoRead addr buf₁ => do let _ ← Driver.romInfoRead F fuel addr buf₁

def Rejected (F : Config) : Call → Prop
  | erase addr len => len = 0 ∨ (addr ||| len) &&& (F.eraseBlock - 1) ≠ 0 ∨ addr + len < addr
  | write addr buf len | verify addr buf len =>
    len = 0 ∨ (addr ||| len) &&& 3 ≠ 0 ∨ buf.ptr &&& 3 ≠ 0 ∨ addr + len < addr
  | uidRead | romInfoRead _ _ => False

theorem rejected_silent (call : Call) (rejected : call.Rejected F) : call.code F fuel = pure () := by
  cases call with
  | erase addr len => exact congrArg (· >>= fun _ => pure ()) (if_pos rejected)
  | write addr buf len => exact congrArg (· >>= fun _ => pure ()) (if_pos rejected)
  | verify addr buf len => exact congrArg (· >>= fun _ => pure ()) (if_pos rejected)
  | uidRead => exact rejected.elim
  | romInfoRead addr buf₁ => exact rejected.elim

theorem code_keeps (call : Call) (taken : ¬ call.Rejected F) :
    Keeps (Closed glob) (call.code F fuel) fun _ => Settled glob := by
  have openWrite : Keeps (Closed glob) (flOpen F fuel F.gateWrite) fun _ => _ :=
    flOpen_keeps (gateWrite_bits F).1
  have openRead : Keeps (Closed glob) (flOpen F fuel F.gateRead) fun _ => _ :=
    flOpen_keeps (gateRead_bits F).1
  have closeWrite : Keeps (Ready (glob ||| F.gateWrite) false) flClose fun _ => _ :=
    flClose_keeps (gateWrite_bits F).2
  have closeRead : Keeps (Ready (glob ||| F.gateRead) false) flClose fun _ => _ :=
    flClose_keeps (gateRead_bits F).2
  -- each call opens the gate it needs, works under it, and closes it on every path
  cases call with
  | erase addr len =>
    refine .bind (.ite (fun rejected => absurd rejected taken) fun _ => ?_) fun _ => .pure fun m h => h
    exact .bind openWrite fun _ => .bind (eraseBlocks_keeps _ _) fun rc => .bind closeWrite fun _ =>
      .pure fun m h => h
  | write addr buf len =>
    refine .bind (.ite (fun rejected => absurd rejected taken) fun _ => ?_) fun _ => .pure fun m h => h
    exact .bind openWrite fun _ => .bind (programPages_keeps _ _ _ _) fun rc =>
      .bind closeWrite fun _ => .pure fun m h => h
  | verify addr buf len =>
    refine .bind (.ite (fun rejected => absurd rejected taken) fun _ => ?_) fun _ => .pure fun m h => h
    exact .bind openRead fun _ => .bind (flCmdAddr_keeps _ _) fun _ =>
      .bind (verifyBytes_keeps _ _ _ _) fun rc => .bind flEnd_keeps fun _ =>
        .bind closeRead fun _ => .pure fun m h => h
  | uidRead =>
    refine .bind ?_ fun _ => .pure fun m h => h
    exact .bind openRead fun _ => .bind (flCmdAddr_keeps _ _) fun _ =>
      .bind (uidBytes_keeps _ _) fun b => .bind flEnd_keeps fun _ => .bind closeRead fun _ =>
        .pure fun m h => h
  | romInfoRead addr buf₁ =>
    refine .bind ?_ fun _ => .pure fun m h => h
    exact .bind openRead fun _ => .bind (flCmdAddr_keeps _ _) fun _ =>
      .bind (clockBytes_keeps _) fun _ => .bind (Keeps.access fun _ _ h _ => h) fun low =>
        .bind (clockBytes_keeps _) fun _ => .bind (Keeps.access fun _ _ h _ => h) fun word =>
          .bind flEnd_keeps fun _ => .bind closeRead fun _ => .pure fun m h => h

end Call

/-! ### Status polls -/

def Polls (k : Nat) (p : Code A) : Prop :=
  ∀ m, Program.wpe recording .any (fun _ _ m' => m'.polls ≤ m.polls + k)
    (fun _ _ m' => m'.polls ≤ m.polls + k) p () m

theorem Polls.pure {k : Nat} (a : A) : Polls k (pure a : Code A) := fun _ => Nat.le_add_right _ _

theorem Polls.bind {j k : Nat} {p : Code A} {f : A → Code B} (first : Polls j p)
    (rest : ∀ a, Polls k (f a)) : Polls (j + k) (p >>= f) := by
  intro m
  rw [Program.wpe_bind]
  refine Program.wpe_imp (first m) (fun _ _ m' => ?_) fun a _ m' few => ?_
  · intro few
    omega
  · refine Program.wpe_imp (rest a m') (fun _ _ m'' => ?_) fun _ _ m'' => ?_
    · intro more
      omega
    · intro more
      omega

theorem Polls.seq {k : Nat} {p : Code A} {f : A → Code B} (first : Polls 0 p)
    (rest : ∀ a, Polls k (f a)) : Polls k (p >>= f) := by
  have both := first.bind rest
  rwa [Nat.zero_add] at both

theorem Polls.ite {k : Nat} {c : Prop} [Decidable c] {p q : Code A} (yes : Polls k p)
    (no : Polls k q) : Polls k (if c then p else q) := by
  split
  · exact yes
  · exact no

theorem Polls.access {k : Nat} {op : RegOp}
    (few : ∀ (m : Monitor) (x : op.Reply), (m.note op x).polls ≤ m.polls + k) :
    Polls k (access op) := by
  intro m
  apply wpe_access.mpr
  rintro x m' ⟨-, rfl⟩
  exact few m x

theorem flBusy_polls : Polls 0 (flBusy fuel) := by
  induction fuel with
  | zero => exact fun m => le_rfl
  | succ fuel ih => exact .seq (.access fun m x => le_rfl) fun v => .ite ih (.pure ())

theorem flNops_polls (n : Nat) : Polls 0 (flNops n) := by
  induction n with
  | zero => exact .pure ()
  | succ n ih => exact .seq (.access fun m x => le_rfl) fun _ => ih

theorem close_polls : Polls 0 (access (.ctrlWr 0)) := .access fun _ _ => le_rfl

/-- A transaction is at most one status command. -/
theorem flBegin_polls (cmd : Byte) : Polls 1 (flBegin F cmd) := by
  refine .seq close_polls fun _ => .seq (.access fun m x => le_rfl) fun _ =>
    .seq (flNops_polls _) fun _ => .access fun m x => ?_
  exact Nat.add_le_add_left (Bool.toNat_le _) m.polls

theorem flEnd_polls : Polls 0 (flEnd fuel) := .seq flBusy_polls fun _ => close_polls

theorem flIn_polls : Polls 0 (flIn fuel) := .seq flBusy_polls fun _ => .access fun _ _ => le_rfl

theorem flPoll_polls (i : Nat) : Polls i (flPoll F fuel i) := by
  induction i with
  | zero => exact .pure _
  | succ i ih =>
    have once : Polls (1 + i) (flPoll F fuel (i + 1)) :=
      .bind (flBegin_polls _) fun _ => .seq flIn_polls fun _ => .seq flIn_polls fun status =>
        .seq flEnd_polls fun _ => .ite (fun m => Nat.le_add_right _ _) ih
    rwa [Nat.add_comm] at once

theorem flWait_polls : Polls F.waitIters (flWait F fuel) :=
  .seq flEnd_polls fun _ => flPoll_polls _

/-- The discipline of the five calls, whatever the registers answer and whether or not the
    engine ever gets ready: a rejected call touches no register; no other call breaks a
    rule, and one that returns has opened the gate once, ended every transaction and put
    `R8_GLOB_ROM_CFG` back but for the code-offset mask. Every wait is bounded. -/
theorem calls_disciplined (F : Config) (fuel : Nat) (call : Call) (glob : Byte)
    {es : List (Event registers)} {x : Except Hung Unit} {m : Monitor}
    (run : (call.code F fuel).run.Exec recording () (.start glob) es x () m) :
    (call.Rejected F → es = []) ∧ m.clean = true ∧
      (¬ call.Rejected F → x = .ok () → Settled glob m) ∧
      ∀ m es status m', (flWait F fuel).run.Exec recording () m es status () m' →
        m'.polls ≤ m.polls + F.waitIters := by
  refine ⟨fun rejected => ?_, ?_, fun taken => ?_, fun m es status m' wait => ?_⟩
  · rw [call.rejected_silent rejected] at run
    exact (Program.exec_return.mp run).1
  · by_cases rejected : call.Rejected F
    · rw [call.rejected_silent rejected] at run
      obtain ⟨-, -, -, rfl⟩ := Program.exec_return.mp run
      rfl
    · have kept := (call.code_keeps rejected).exec rfl run
      cases x with
      | ok u => exact (kept.1 u rfl).clean
      | error e => exact kept.2 e rfl
  · rintro rfl
    exact ((call.code_keeps taken).exec rfl run).1 () rfl
  · have few := Program.wpe_exec (flWait_polls m) wait
    cases status with
    | ok status => exact few.1 status rfl
    | error e => exact few.2 e rfl

def answerZero (m : Monitor) : (op : RegOp) → op.Reply × Monitor
  | .ctrlRd => ((0 : Byte), m.note .ctrlRd (0 : Byte))
  | .data8Rd => ((0 : Byte), m.note .data8Rd (0 : Byte))
  | .data32Rd => ((0 : Word), m)
  | .globRd => (m.glob, m)
  | .ctrlWr v => ((), m.note (.ctrlWr v) ())
  | .data8Wr v => ((), m.note (.data8Wr v) ())
  | .data32Wr v => ((), m.note (.data32Wr v) ())
  | .globWr v => ((), m.note (.globWr v) ())
  | .nop => ((), m.note .nop ())
  | .safeAccessEnable => ((), m.note .safeAccessEnable ())
  | .safeAccessDisable => ((), m.note .safeAccessDisable ())

theorem answerZero_sound (m : Monitor) (op : RegOp) :
    recording.step m op (answerZero m op).1 (answerZero m op).2 := by
  cases op with
  | globRd => exact ⟨rfl, rfl⟩
  | _ => exact ⟨trivial, rfl⟩

def ch572 : Config := ⟨.ch57x, false, 100000000, nofun⟩

theorem calls_disciplined_uid : Settled 0xFF
    (((Call.uidRead.code ch572 1).run.run answerZero () (.start 0xFF)).2.2.2) := by
  have run := Program.exec_run answerZero_sound (Call.uidRead.code ch572 1).run () (.start 0xFF)
  have returned : ((Call.uidRead.code ch572 1).run.run answerZero () (.start 0xFF)).2.1 = .ok () := by
    decide +kernel
  rw [returned] at run
  exact (calls_disciplined ch572 1 .uidRead 0xFF run).2.2.1 id rfl

end OpenBoot.Driver
