import OpenBoot.Driver.Controller

/-! Flash writes: the page programs that reach the die. -/

set_option autoImplicit false

namespace OpenBoot.Driver

open Semantics

variable {flash : BitVec 24 → Byte} {lag fuel : Nat} {F : Config} {log : List Transaction}
  {t : Transaction} {buf : Buffer}

/-- The pipeline byte and the status a poll reads. -/
structure StatusPoll where
  pipeline : Byte
  status : Byte

namespace StatusPoll

def transaction (p : StatusPoll) : Transaction := ⟨[0x05], [], [p.pipeline, p.status]⟩

def Busy (p : StatusPoll) : Prop := p.status &&& 0x01 ≠ 0

end StatusPoll

/-- At most `i` polls, of which the last and no other found the write done. -/
def Succeeds (i : Nat) (polls : List StatusPoll) : Prop :=
  polls.length ≤ i ∧ ∃ before last, polls = before ++ [last] ∧ (∀ p ∈ before, p.Busy) ∧ ¬ last.Busy

def TimesOut (i : Nat) (polls : List StatusPoll) : Prop := polls.length = i ∧ ∀ p ∈ polls, p.Busy

def Waited (i : Nat) (polls : List StatusPoll) (rc : Word) : Prop :=
  (rc ≠ 0 ∧ Succeeds i polls) ∨ (rc = 0 ∧ TimesOut i polls)

theorem Waited.cons {i : Nat} {polls : List StatusPoll} {rc : Word} {p : StatusPoll}
    (h : Waited i polls rc) (busy : p.Busy) : Waited (i + 1) (p :: polls) rc := by
  rcases h with ⟨ok, few, before, last, rfl, all, done⟩ | ⟨failed, count, all⟩
  · refine .inl ⟨ok, ?_, p :: before, last, rfl, List.forall_mem_cons.mpr ⟨busy, all⟩, done⟩
    simpa using few
  · exact .inr ⟨failed, congrArg Nat.succ count, List.forall_mem_cons.mpr ⟨busy, all⟩⟩

theorem waited_done {i : Nat} {p : StatusPoll} (done : p.status &&& 0x01 = 0) :
    Waited (i + 1) [p] (p.status.setWidth 32 ||| 1) := by
  refine .inl ⟨fun zero => ?_, Nat.succ_le_succ (Nat.zero_le i), [], p, rfl, nofun,
    not_not_intro done⟩
  exact absurd (BitVec.or_eq_zero_iff.mp zero).2 (by decide)

theorem flPoll_does (late : lag < fuel) (i : Nat) :
    Does flash lag (Within 0 (At log none)) (flPoll F fuel i) fun rc c =>
      ∃ polls, Waited i polls rc ∧
        Within 0 (At (log ++ polls.map StatusPoll.transaction) none) c := by
  induction i generalizing log with
  | zero =>
    apply Triple.pure
    intro c h
    exact ⟨[], .inr ⟨rfl, rfl, nofun⟩, by simpa using h⟩
  | succ i ih =>
    refine .bind (flBegin_does _) fun _ => .bind (flIn_at late) fun pipeline =>
      .bind (flIn_at late) fun status => .bind (flEnd_does late) fun _ => ?_
    apply Triple.ite
    · intro done
      apply Triple.pure
      intro c h
      exact ⟨[⟨pipeline, status⟩], waited_done done, h⟩
    · intro busy
      apply ih.weaken fun c h => h
      rintro rc c ⟨polls, waited, h⟩
      refine ⟨⟨pipeline, status⟩ :: polls, waited.cons busy, ?_⟩
      simpa [Transaction.receive, StatusPoll.transaction] using h

/-- A wait ends the transaction it follows. -/
theorem flWait_does (late : lag < fuel) :
    Does flash lag (Within lag (At log (some t))) (flWait F fuel) fun rc c =>
      ∃ polls, Waited F.waitIters polls rc ∧
        Within 0 (At (log ++ t :: polls.map StatusPoll.transaction) none) c := by
  refine .bind (flEnd_does late) fun _ => (flPoll_does late _).weaken (fun c h => h) ?_
  rintro rc c ⟨polls, waited, h⟩
  refine ⟨polls, waited, ?_⟩
  simpa using h

def Pulsed (log : List Transaction) (t : Transaction) (v : Word) (k : Nat) (c : Controller) : Prop :=
  At log (some t) c ∧ c.word = v ∧ c.pulses = k

theorem pulse_does {v : Word} {k : Nat} (more : k ≠ 3) :
    Does flash lag (Within 0 (Pulsed log t v k)) (access (.ctrlWr 0x15)) fun _ =>
      Within lag (Pulsed log t v (k + 1)) := by
  apply Triple.access
  rintro c _ c' ⟨ready, ⟨rfl, same⟩, rfl, rfl⟩ step
  obtain ⟨n, soon, rfl⟩ := step (Nat.le_zero.mp ready)
  rw [Controller.pulse, if_neg more]
  exact ⟨soon, ⟨rfl, same⟩, rfl, rfl⟩

theorem last_pulse_does {v : Word} :
    Does flash lag (Within 0 (Pulsed log t v 3)) (access (.ctrlWr 0x15)) fun _ =>
      Within lag (At log (some (t.program v))) := by
  apply Triple.access
  rintro c _ c' ⟨ready, ⟨rfl, same⟩, rfl, last⟩ step
  obtain ⟨n, soon, rfl⟩ := step (Nat.le_zero.mp ready)
  rw [Controller.pulse, if_pos last]
  exact ⟨soon, rfl, congrArg (Option.map _) same⟩

theorem programWord_does (late : lag < fuel) (w : Nat) :
    Does flash lag (Within lag (At log (some t))) (programWord fuel buf w) fun _ =>
      Within lag (At log (some (t.program (buf.words w)))) := by
  have busy : ∀ k, Does flash lag (Within lag (Pulsed log t (buf.words w) k)) (flBusy fuel)
      fun _ => Within 0 (Pulsed log t (buf.words w) k) := fun k => flBusy_does late fun _ _ h => h
  refine .via (fun _ => Within lag (Pulsed log t (buf.words w) 0)) ?_ fun _ => ?_
  · apply Triple.access
    rintro c _ c' h rfl
    exact ⟨h.1, h.2, rfl, rfl⟩
  · exact .bind (busy 0) fun _ => .bind (pulse_does (by decide)) fun _ => .bind (busy 1) fun _ =>
      .bind (pulse_does (by decide)) fun _ => .bind (busy 2) fun _ =>
      .bind (pulse_does (by decide)) fun _ => .bind (busy 3) fun _ =>
      .bind last_pulse_does fun _ => .pure fun c h => h

structure Advanced {words : Nat} (w : Nat) (addr : Word) (n : Nat) (rest : Rest words) : Prop where
  some : 0 < n
  /-- It ends with the page. -/
  inside : addr.toNat % 256 + 4 * n ≤ 256
  left : rest.left + n = words
  next : rest.w = w + n
  addr : rest.addr = addr + BitVec.ofNat 32 (4 * n)

theorem toNat_add_four (addr : Word) : (addr + 4).toNat = (addr.toNat + 4) % 2 ^ 32 := by
  rw [BitVec.toNat_add]
  rfl

theorem programPage_does (late : lag < fuel) (more w : Nat) (addr : Word)
    (aligned : addr.toNat % 4 = 0) :
    Does flash lag (Within lag (At log (some t))) (programPage fuel buf more w addr) fun rest c =>
      ∃ n, Advanced w addr n rest ∧ Within lag (At log
        (some { t with words := t.words ++ (List.range' w n).map buf.words })) c := by
  induction more generalizing t w addr with
  | zero =>
    refine .bind (programWord_does late w) fun _ => .pure fun c h => ?_
    exact ⟨1, ⟨Nat.one_pos, by omega, rfl, rfl, rfl⟩, h⟩
  | succ more ih =>
    refine .bind (programWord_does late w) fun _ => .ite (fun within => ?_) fun wrapped => ?_
    · have next : (addr + 4).toNat % 256 ≠ 0 := fun zero => within ((low_bits_eq_zero 8 _).mpr zero)
      have sum := toNat_add_four addr
      refine .bind (ih (w + 1) (addr + 4) (by omega)) fun rest => .pure ?_
      rintro c ⟨n, adv, h⟩
      refine ⟨n + 1, ⟨Nat.succ_pos n, ?_, congrArg Nat.succ adv.left, ?_, ?_⟩, ?_⟩
      · have := adv.inside
        omega
      · rw [adv.next]
        omega
      · change rest.addr = addr + BitVec.ofNat 32 (4 * n + 4)
        rw [adv.addr, BitVec.add_assoc, Nat.add_comm, BitVec.ofNat_add]
        rfl
      · simpa [Transaction.program, List.range'_succ] using h
    · apply Triple.pure
      intro c h
      exact ⟨1, ⟨Nat.one_pos, by omega, rfl, rfl, rfl⟩, h⟩

structure PageRun where
  addr : Word
  words : List Word
  polls : List StatusPoll

namespace PageRun

def program (p : PageRun) : Transaction := ⟨0x02 :: addrBytes p.addr, p.words, []⟩

def transactions (p : PageRun) : List Transaction :=
  wren :: p.program :: p.polls.map StatusPoll.transaction

def Inside (p : PageRun) : Prop := p.words ≠ [] ∧ p.addr.toNat % 256 + 4 * p.words.length ≤ 256

end PageRun

/-- Page programs, each where the one before ended, for `words` words of the buffer from number
    `w` and this address on, and the result of the call. -/
inductive Programs (F : Config) (buf : Buffer) :
    (words w : Nat) → Word → List PageRun → Word → Prop where
  | done (w : Nat) (addr : Word) : Programs F buf 0 w addr [] 0
  | timeout {n left w : Nat} {addr : Word} {polls : List StatusPoll} :
      PageRun.Inside ⟨addr, (List.range' w n).map buf.words, polls⟩ → TimesOut F.waitIters polls →
      Programs F buf (left + n) w addr [⟨addr, (List.range' w n).map buf.words, polls⟩] wrErrTimeout
  | page {n left w : Nat} {addr : Word} {polls : List StatusPoll} {pages : List PageRun} {rc : Word} :
      PageRun.Inside ⟨addr, (List.range' w n).map buf.words, polls⟩ → Succeeds F.waitIters polls →
      Programs F buf left (w + n) (addr + BitVec.ofNat 32 (4 * n)) pages rc →
      Programs F buf (left + n) w addr (⟨addr, (List.range' w n).map buf.words, polls⟩ :: pages) rc

theorem programPages_does (late : lag < fuel) (words w : Nat) (addr : Word)
    (aligned : addr.toNat % 4 = 0) :
    Does flash lag (Within 0 (At log none)) (programPages F fuel buf words w addr) fun rc c =>
      ∃ pages, Programs F buf words w addr pages rc ∧
        Within 0 (At (log ++ pages.flatMap PageRun.transactions) none) c := by
  induction words using Nat.strong_induction_on generalizing w addr log with
  | h words ih =>
    rw [programPages.eq_def]
    cases words with
    | zero =>
      apply Triple.pure
      intro c h
      exact ⟨[], .done w addr, by simpa using h⟩
    | succ more =>
      refine .bind (flCmdAddr_mutation late (by decide) addr) fun _ =>
        .bind (programPage_does late more w addr aligned) fun rest => ?_
      -- the words of the page are those of the buffer's next `n`
      rintro c ⟨n, adv, h⟩
      have inside (polls : List StatusPoll) :
          PageRun.Inside ⟨addr, (List.range' w n).map buf.words, polls⟩ := by
        have some := adv.some
        constructor
        · simp only [ne_eq, List.map_eq_nil_iff, List.range'_eq_nil_iff]
          omega
        · simpa using adv.inside
      refine Triple.bind (flWait_does late) (fun rc => ?_) c h
      apply Triple.ite
      · rintro rfl
        apply Triple.pure
        rintro c ⟨polls, ⟨ok, -⟩ | ⟨-, out⟩, h⟩
        · exact absurd rfl ok
        · have programs : Programs F buf (rest.left + n) w addr _ _ := .timeout (inside polls) out
          rw [adv.left] at programs
          exact ⟨_, programs, by simpa [PageRun.transactions, PageRun.program] using h⟩
      · intro ok
        rintro c ⟨polls, ⟨-, done⟩ | ⟨zero, -⟩, h⟩
        · have start : rest.addr.toNat % 4 = 0 := by
            rw [adv.addr, BitVec.toNat_add, BitVec.toNat_ofNat]
            omega
          apply (ih rest.left rest.less rest.w rest.addr start).weaken (fun c h => h) ?_ c h
          rintro rc c ⟨pages, later, h⟩
          rw [adv.next, adv.addr] at later
          have programs := Programs.page (inside polls) done later
          rw [adv.left] at programs
          exact ⟨_, programs, by simpa [PageRun.transactions, PageRun.program] using h⟩
        · exact absurd zero ok

def wordCount (pages : List PageRun) : Nat := (pages.flatMap PageRun.words).length

namespace Programs

variable {words w : Nat} {addr rc : Word} {pages : List PageRun}

theorem inside (h : Programs F buf words w addr pages rc) : ∀ p ∈ pages, p.Inside := by
  induction h with
  | done w addr => exact nofun
  | timeout first _ => exact List.forall_mem_cons.mpr ⟨first, nofun⟩
  | page first _ _ ih => exact List.forall_mem_cons.mpr ⟨first, ih⟩

/-- The pages are the words of the buffer in order, each once. -/
theorem words_eq (h : Programs F buf words w addr pages rc) :
    pages.flatMap PageRun.words = (List.range' w (wordCount pages)).map buf.words := by
  induction h with
  | done w addr => rfl
  | timeout first _ => simp [wordCount]
  | page first _ _ ih =>
    rw [wordCount] at *
    rw [List.flatMap_cons, ih]
    simp [← List.range'_append_1]

theorem outcome (h : Programs F buf words w addr pages rc) :
    (rc = 0 ∧ wordCount pages = words ∧ ∀ p ∈ pages, Succeeds F.waitIters p.polls) ∨
      (rc = wrErrTimeout ∧ wordCount pages ≤ words ∧ ∃ earlier last, pages = earlier ++ [last] ∧
        (∀ p ∈ earlier, Succeeds F.waitIters p.polls) ∧ TimesOut F.waitIters last.polls) := by
  induction h with
  | done w addr => exact .inl ⟨rfl, rfl, nofun⟩
  | timeout first out =>
    exact .inr ⟨rfl, by simp [wordCount], [], _, rfl, nofun, out⟩
  | @page n left w addr polls pages rc first done _ ih =>
    have count : wordCount (⟨addr, (List.range' w n).map buf.words, polls⟩ :: pages) =
        wordCount pages + n := by
      simp [wordCount, Nat.add_comm]
    rcases ih with ⟨ok, all, ready⟩ | ⟨failed, some, earlier, last, rfl, ready, out⟩
    · exact .inl ⟨ok, by rw [count, all], List.forall_mem_cons.mpr ⟨done, ready⟩⟩
    · refine .inr ⟨failed, ?_, _ :: earlier, last, rfl, List.forall_mem_cons.mpr ⟨done, ready⟩, out⟩
      rw [count]
      exact Nat.add_le_add_right some n

end Programs

/-- A page program writes its words from its address on, wrapping in the page. -/
def pageWrites (a : BitVec 24) (words : List Word) : List (BitVec 24 × Word) :=
  words.mapIdx fun i v => (BitVec.ofNat 24 (a.toNat / 256 * 256 + (a.toNat + 4 * i) % 256), v)

/-- The words written by the transactions, under a write-enable latch that the write enable
    sets and a page program consumes. -/
def dieWrites : Bool → List Transaction → List (BitVec 24 × Word)
  | _, [] => []
  | latch, t :: log =>
    if t.opcode = some 0x06 then dieWrites true log
    else if t.opcode = some 0x02 then
      (if latch = true then pageWrites t.address t.words else []) ++ dieWrites false log
    else dieWrites latch log

theorem dieWrites_polls (latch : Bool) (polls : List StatusPoll) (log : List Transaction) :
    dieWrites latch (polls.map StatusPoll.transaction ++ log) = dieWrites latch log := by
  induction polls with
  | nil => rfl
  | cons p polls ih => exact ih

theorem dieWrites_page (latch : Bool) (p : PageRun) (log : List Transaction) :
    dieWrites latch (p.transactions ++ log) =
      pageWrites (p.addr.setWidth 24) p.words ++ dieWrites false log := by
  have address : p.program.address = p.addr.setWidth 24 := by
    have spelled := address_addrBytes 0x02 p.addr [] p.words []
    rwa [List.append_nil] at spelled
  change pageWrites p.program.address p.program.words ++
    dieWrites false (p.polls.map StatusPoll.transaction ++ log) = _
  rw [dieWrites_polls, address]
  rfl

/-- A program that ends with its page does not wrap. -/
theorem pageWrites_inside (p : PageRun) (inside : p.Inside) :
    pageWrites (p.addr.setWidth 24) p.words =
      p.words.mapIdx fun i v => (BitVec.ofNat 24 (p.addr.toNat + 4 * i), v) := by
  apply List.ext_getElem (by simp [pageWrites])
  intro i short _
  have bound : i < p.words.length := by simpa [pageWrites] using short
  have fits := inside.2
  simp only [pageWrites, List.getElem_mapIdx, Prod.mk.injEq, and_true]
  apply BitVec.eq_of_toNat_eq
  simp only [BitVec.toNat_setWidth, BitVec.toNat_ofNat]
  omega

theorem mapIdx_range' {A : Type} (f : Nat → A) (w n : Nat) (g : Nat → BitVec 24) :
    ((List.range' w n).map f).mapIdx (fun i v => (g i, v)) =
      (List.range n).map fun i => (g i, f (w + i)) := by
  apply List.ext_getElem (by simp)
  intro i _ _
  simp

/-- The die writes the words of the buffer, each at its own address. -/
theorem Programs.die {words w : Nat} {addr rc : Word} {pages : List PageRun}
    (h : Programs F buf words w addr pages rc) (latch : Bool) :
    dieWrites latch (pages.flatMap PageRun.transactions) =
      (List.range (wordCount pages)).map fun i =>
        (BitVec.ofNat 24 (addr.toNat + 4 * i), buf.words (w + i)) := by
  induction h generalizing latch with
  | done w addr => rfl
  | timeout first _ =>
    rw [List.flatMap_cons, dieWrites_page, pageWrites_inside _ first, mapIdx_range']
    simp [wordCount, dieWrites]
  | @page n left w addr polls pages rc first _ _ ih =>
    have count : wordCount (⟨addr, (List.range' w n).map buf.words, polls⟩ :: pages) =
        n + wordCount pages := by
      simp [wordCount]
    rw [List.flatMap_cons, dieWrites_page, pageWrites_inside _ first, mapIdx_range', ih, count,
      List.range_add, List.map_append, List.map_map]
    congr 1
    apply List.map_congr_left
    intro i _
    have later : BitVec.ofNat 24 ((addr + BitVec.ofNat 32 (4 * n)).toNat + 4 * i) =
        BitVec.ofNat 24 (addr.toNat + 4 * (n + i)) := by
      apply BitVec.eq_of_toNat_eq
      simp only [BitVec.toNat_add, BitVec.toNat_ofNat]
      omega
    rw [later, Nat.add_assoc]
    rfl

theorem flashWrite_does (late : lag < fuel) {addr len : Word} (aligned : addr.toNat % 4 = 0)
    (alignedBuf : buf.ptr.toNat % 4 = 0) (nonzero : len ≠ 0) (whole : len.toNat % 4 = 0)
    (fits : addr.toNat + len.toNat < 2 ^ 32) :
    Does flash lag (Within 0 (At log none)) (flashWrite F fuel addr buf len) fun rc c =>
      ∃ pages, Programs F buf (len.toNat / 4) 0 addr pages rc ∧
        Within 0 (At (log ++ resume F :: pages.flatMap PageRun.transactions) none) c := by
  have words : (len >>> 2).toNat = len.toNat / 4 := by
    rw [BitVec.toNat_ushiftRight, Nat.shiftRight_eq_div_pow]
  refine .ite (fun refused => ?_) fun _ => ?_
  · exact absurd refused (not_refused aligned alignedBuf nonzero whole fits)
  · rw [words]
    refine .bind (flOpen_does late _) fun _ => .bind (programPages_does late _ _ _ aligned) fun rc => ?_
    rintro c ⟨pages, programs, h⟩
    refine Triple.bind flClose_does (fun _ => .pure fun c h => ?_) c h
    exact ⟨pages, programs, by simpa using h⟩

/-- A flash write programs the buffer. In every run on an idle controller whose engine gets
    ready in time, the release from power-down is followed by page programs, each with a write
    enable before it and a wait after it and inside one page. What the die writes is a prefix
    of the buffer, word by word from `addr` on. All of it is written and the call returns 0, or
    the wait after the last page program, and no wait before it, timed out and the call says so. -/
theorem flashWrite_exact (F : Config) {fuel lag : Nat} (late : lag < fuel)
    (flash : BitVec 24 → Byte) (addr : Word) (buf : Buffer) (len : Word)
    (aligned : addr.toNat % 4 = 0) (alignedBuf : buf.ptr.toNat % 4 = 0) (nonzero : len ≠ 0)
    (whole : len.toNat % 4 = 0) (fits : addr.toNat + len.toNat ≤ 2 ^ 24) {c c' : Controller}
    (idle : c.Idle) {es : List (Event registers)} {x : Except Hung Word}
    (run : (flashWrite F fuel addr buf len).run.Exec (controller flash lag) () c es x () c') :
    ∃ pages n, c'.log = c.log ++ resume F :: pages.flatMap PageRun.transactions ∧
      (∀ p ∈ pages, p.Inside) ∧
      pages.flatMap PageRun.words = (List.range n).map buf.words ∧
      (∀ latch, dieWrites latch (resume F :: pages.flatMap PageRun.transactions) =
        (List.range n).map fun i => (BitVec.ofNat 24 (addr.toNat + 4 * i), buf.words i)) ∧
      ((x = .ok 0 ∧ n = len.toNat / 4 ∧ ∀ p ∈ pages, Succeeds F.waitIters p.polls) ∨
        (x = .ok wrErrTimeout ∧ n ≤ len.toNat / 4 ∧ ∃ earlier last, pages = earlier ++ [last] ∧
          (∀ p ∈ earlier, Succeeds F.waitIters p.polls) ∧ TimesOut F.waitIters last.polls)) := by
  have small : addr.toNat + len.toNat < 2 ^ 32 := by omega
  have does := (flashWrite_does late aligned alignedBuf nonzero whole small).exec idle.start run
  cases x with
  | error e => exact (does.2 e rfl).elim
  | ok rc =>
    obtain ⟨pages, programs, -, log, -⟩ := does.1 rc rfl
    refine ⟨pages, wordCount pages, log, programs.inside, ?_, fun latch => ?_, ?_⟩
    · rw [programs.words_eq, List.range_eq_range']
    · have die := programs.die latch
      simp only [Nat.zero_add] at die
      -- the release from power-down writes nothing
      have silent : (resume F).opcode = some 0xFF := by
        unfold resume Transaction.opcode
        split <;> rfl
      rw [dieWrites, silent, if_neg (by decide), if_neg (by decide), die]
    · rcases programs.outcome with ⟨rfl, all, ready⟩ | ⟨rfl, count, out⟩
      · exact .inl ⟨rfl, all, ready⟩
      · exact .inr ⟨rfl, count, out⟩

def ch592 : Config := ⟨.ch59x, true, 6400000, fun _ => rfl⟩

/-- Two words, the second in the next page, on a controller that is always ready. -/
theorem flashWrite_exact_two :
    dieWrites false ((flashWrite ch592 1 0x20FC ⟨0, BitVec.ofNat 32⟩ 8).run.run
      (Controller.prompt fun _ => 0) () (Controller.start 0xFF)).2.2.2.log = [(0x20FC, 0), (0x2100, 1)] := by
  have run := Program.exec_run (prompt_sound (fun _ => 0) 0)
    (flashWrite ch592 1 0x20FC ⟨0, BitVec.ofNat 32⟩ 8).run () (Controller.start 0xFF)
  have returned : ((flashWrite ch592 1 0x20FC ⟨0, BitVec.ofNat 32⟩ 8).run.run
      (Controller.prompt fun _ => 0) () (Controller.start 0xFF)).2.1 = .ok 0 := by decide +kernel
  rw [returned] at run
  obtain ⟨pages, n, log, -, -, die, ⟨-, rfl, -⟩ | ⟨failed, -⟩⟩ :=
    flashWrite_exact ch592 Nat.one_pos (fun _ => 0) 0x20FC ⟨0, BitVec.ofNat 32⟩ 8 rfl rfl (by decide) rfl
      (by decide) ⟨rfl, rfl⟩ run
  · rw [log]
    exact die false
  · exact absurd failed (by decide)

end OpenBoot.Driver
