import OpenBoot.Update.Updater

/-! The bench: builds of the firmware, frames as the test harness sends them, and
a fault-free part that serves them one after another. What the bench computes is
a run of the machine.
-/

set_option autoImplicit false

namespace OpenBoot

open Semantics

namespace Device

/-- The ch570 build on its own silicon. It has no live CRC. -/
def ch570 : Device where
  flashAppStart := 0x2000
  flashAppEnd := 0x3C000
  eraseBlock := 4096
  flashWritePage := 256
  slotSize := 0x1D000
  slotABase := 0x2000
  slotBBase := 0x1F000
  features := 0
  chipFamily := 0x01
  transportId := 0x02
  bootImageCrc := false
  silicon := some 0x3C000
  chipRev := 0x70
  uid := [1, 2, 3, 4, 5, 6, 7, 8]
  uid_length := rfl
  app_aligned := by decide
  slot_aligned := by decide
  record_whole := by decide
  record_fits := by decide
  slot_room := by decide
  slotA_start := rfl
  slotB_start := by decide
  slotB_end := by decide

/-- The ch592 build with the app region ended at 0x40000, on CH591 silicon, which
    ends at 0x30000 and so holds slot A only. -/
def ch592OnCh591 : Device where
  flashAppStart := 0x2000
  flashAppEnd := 0x40000
  eraseBlock := 4096
  flashWritePage := 256
  slotSize := 0x1F000
  slotABase := 0x2000
  slotBBase := 0x21000
  features := featCrcLive
  chipFamily := 0x04
  transportId := 0x02
  bootImageCrc := false
  silicon := some 0x30000
  chipRev := 0x91
  uid := [1, 2, 3, 4, 5, 6, 7, 8]
  uid_length := rfl
  app_aligned := by decide
  slot_aligned := by decide
  record_whole := by decide
  record_fits := by decide
  slot_room := by decide
  slotA_start := rfl
  slotB_start := by decide
  slotB_end := by decide

end Device

namespace Bench

def frame (cmd : Byte) (payload : List Byte) : List Byte := finish cmd 0 payload

def hello : List Byte := frame cmdHello (put32 helloMagic ++ [protoMajor, protoMinor])

def erase (addr len : Word) : List Byte := frame cmdErase (put32 addr ++ put32 len)

def write (addr : Word) (data : List Byte) : List Byte := frame cmdWrite (put32 addr ++ data)

def commit (image : List Byte) : List Byte :=
  frame cmdCommit (put32 (BitVec.ofNat 32 image.length) ++ put32 (crc32 image))

def boot (mode : Byte) : List Byte := frame cmdBoot [mode]

def blank : Flash := Nor.blank erasedByte

/-- Slot A filled the way the factory does it: an image and a record over it. -/
def factory (D : Device) (image : List Byte) : Flash :=
  let record := BootRecord.sealed 1 (BitVec.ofNat 32 image.length) (crc32 image)
  programBytes (programBytes blank (D.slotBase slotA) image) (D.slotRecordAddr slotA) record.bytes

def image : List Byte := [0x6F, 0x00, 0x40, 0x00]

/-- An image for which the host sends two WRITEs. -/
def longImage : List Byte := (List.range 60).map (BitVec.ofNat 8)

def blankImage : List Byte := put32 erasedWord

def stream (base : Word) : List (List Byte) := [hello, erase base 4096, write base image]

def carry {A : Type} (D : Device) (p : Code A) (c : Core) (w : World) : A × Core × World :=
  (p.run (simulate D) c w).2

theorem carry_exec {A : Type} (D : Device) (p : Code A) (c : Core) (w : World) :
    p.Exec (portEnv D) c w (p.run (simulate D) c w).1 (carry D p c w).1 (carry D p c w).2.1
      (carry D p c w).2.2 := Program.exec_run (simulate_sound D) p c w

def serveAll (D : Device) (check : Core → World → List Byte → Bool) :
    List (List Byte) → Core → World → Option (Core × World)
  | [], c, w => some (c, w)
  | buf :: rest, c, w =>
    if check c w buf then
      match carry D (handleFrame D buf) c w with
      | ((_, .none), c', w') => serveAll D check rest c' w'
      | ((_, .reset), _, _) => none
    else none

/-- Power up with the given boot request and flash, then serve frames. -/
def bench (D : Device) (check : Core → World → List Byte → Bool) (f : Flash) (bootreq : Word)
    (frames : List (List Byte)) : Option (Core × World) :=
  match carry D (bootUp D) (.bss D bootreq) (.reset f) with
  | (.ready, c, w) => serveAll D check frames c w
  | _ => none

variable {D : Device} {P : Core → World → List Byte → Prop}
  {check : Core → World → List Byte → Bool}
  {f : Flash} {bootreq : Word} {frames : List (List Byte)} {c c' : Core} {w w' : World}

/-- A history in one power cycle that only delivers the given frames. -/
structure Confined (frames : List (List Byte)) (ls : List Label) : Prop where
  cycle : .reset ∉ ls
  recv : ∀ buf, .recv buf ∈ ls → buf ∈ frames

theorem Confined.inner {ls : List Label} (inner : ∀ l ∈ ls, l.Inner) : Confined frames ls :=
  ⟨fun mem => inner _ mem, fun _ mem => (inner _ mem).elim⟩

theorem Confined.append {ls ls' : List Label} (h : Confined frames ls) (h' : Confined frames ls') :
    Confined frames (ls ++ ls') :=
  ⟨fun mem => (List.mem_append.mp mem).elim h.cycle h'.cycle,
    fun buf mem => (List.mem_append.mp mem).elim (h.recv buf) (h'.recv buf)⟩

theorem Confined.mono {ls : List Label} {frames' : List (List Byte)} (h : Confined frames ls)
    (grown : ∀ buf ∈ frames, buf ∈ frames') : Confined frames' ls :=
  ⟨h.cycle, fun buf mem => grown buf (h.recv buf mem)⟩

theorem serveAll_run (sound : ∀ c w buf, check c w buf = true → P c w buf)
    (served : serveAll D check frames c w = some (c', w')) :
    ∃ ls, Confined frames ls ∧
      ((machine D).restrict (OnRecv P)).Run (.idle c w) ls (.idle c' w') := by
  -- frame by frame: the bench stops at the first it cannot serve
  induction frames generalizing c w with
  | nil =>
    obtain ⟨rfl, rfl⟩ := Prod.mk.inj (Option.some.inj served)
    exact ⟨[], .inner (List.forall_mem_nil _), .nil _⟩
  | cons buf rest ih =>
    unfold serveAll at served
    split at served
    · next passed =>
      have exec := carry_exec D (handleFrame D buf) c w
      split at served
      · next resp c₁ w₁ out =>
        rw [out] at exec
        obtain ⟨ls, inner, first⟩ := run_of_frame (sound c w buf passed) exec
        obtain ⟨ls', confined, further⟩ := ih served
        refine ⟨_, .append ⟨?_, ?_⟩ (confined.mono fun _ => List.mem_cons_of_mem _),
          first.append further⟩
        · simp only [List.cons_append, List.mem_cons, List.mem_append, reduceCtorEq,
            List.not_mem_nil, or_self, or_false, false_or]
          exact fun mem => inner _ mem
        · intro buf' mem
          simp only [List.cons_append, List.mem_cons, List.mem_append, reduceCtorEq,
            List.not_mem_nil, or_self, or_false, Label.recv.injEq] at mem
          rcases mem with rfl | mem
          · exact List.mem_cons_self
          · exact (inner _ mem).elim
      · cases served
    · cases served

/-- Whatever holds on the bench is reached by the machine. -/
theorem bench_run {test : Core × World → Bool} (sound : ∀ c w buf, check c w buf = true → P c w buf)
    (passes : (bench D check f bootreq frames).any test = true) :
    ∃ ls c w, Confined frames ls ∧
      ((machine D).restrict (OnRecv P)).Run (.powerUp D f bootreq) ls (.idle c w) ∧
      test (c, w) = true := by
  obtain ⟨⟨c, w⟩, reached, tested⟩ := (Option.any_eq_true _ _).mp passes
  unfold bench at reached
  have exec := carry_exec D (bootUp D) (.bss D bootreq) (.reset f)
  split at reached
  · next c₀ w₀ out =>
    rw [out] at exec
    obtain ⟨ls, inner, booted⟩ := run_of_exec (P := P) (t := .boot) exec
    obtain ⟨ls', confined, served⟩ := serveAll_run sound reached
    refine ⟨_, c, w, .append (.append (.inner inner) ⟨?_, ?_⟩) confined,
      (booted.append (.one ⟨.out, trivial⟩)).append served, tested⟩
    · simp
    · simp
  · cases reached

def unchecked : Core → World → List Byte → Bool := fun _ _ _ => true

theorem bench_reach {test : Core × World → Bool}
    (passes : (bench D unchecked f bootreq frames).any test = true) :
    ∃ ls c w, (machine D).Run (.off f) ls (.idle c w) ∧ test (c, w) = true := by
  obtain ⟨ls, c, w, _, run, tested⟩ := bench_run (P := fun _ _ _ => True) (fun _ _ _ _ => trivial)
    passes
  exact ⟨_, c, w, (run_of_powerUp run).of_restrict, tested⟩

theorem run_of_pause {t : Task} {p : Code Outcome} {n : Nat} {op : PortOp} {k : Word → Code Outcome}
    (paused : p.pause (simulate D) n c w = some ⟨op, k, c', w'⟩) :
    ∃ ls, (∀ l ∈ ls, l.Inner) ∧ (machine D).Run (.busy t p c w) ls (.busy t (.call op k) c' w') := by
  induction p generalizing n c w with
  | done => cases paused
  | load next ih =>
    obtain ⟨ls, inner, rest⟩ := ih c paused
    exact ⟨.ram :: ls, List.forall_mem_cons.mpr ⟨trivial, inner⟩, .cons .load rest⟩
  | store ram next ih =>
    obtain ⟨ls, inner, rest⟩ := ih paused
    exact ⟨.ram :: ls, List.forall_mem_cons.mpr ⟨trivial, inner⟩, .cons .store rest⟩
  | call op' next ih =>
    cases n with
    | zero =>
      cases paused
      exact ⟨[], List.forall_mem_nil _, .nil _⟩
    | succ n =>
      obtain ⟨ls, inner, rest⟩ := ih _ paused
      exact ⟨.port op' _ :: ls, List.forall_mem_cons.mpr ⟨trivial, inner⟩,
        .cons (.call (simulate_sound D w op')) rest⟩

theorem bench_pause {n : Nat} {buf : List Byte} (test : PortOp → Core → World → Bool)
    (passes : (bench D unchecked f bootreq frames).any (fun s =>
      ((serve D buf).pause (simulate D) n s.1 s.2).any fun q => test q.1 q.2.2.1 q.2.2.2) = true) :
    ∃ ls op k c w, (machine D).Run (.off f) ls (.busy (.frame buf) (.call op k) c w) ∧
      test op c w = true := by
  obtain ⟨ls, c, w, run, passes⟩ := bench_reach passes
  obtain ⟨⟨op, k, c', w'⟩, paused, tested⟩ := (Option.any_eq_true _ _).mp passes
  obtain ⟨ls', -, inside⟩ := run_of_pause paused
  exact ⟨_, op, k, c', w', run.append (.cons (.recv buf) inside), tested⟩

end Bench

end OpenBoot
