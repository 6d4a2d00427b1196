import OpenBoot.Update.Bench

/-! What a host may rely on when it repeats itself: refusals change nothing, and
whether a COMMIT may be sent again. -/

set_option autoImplicit false

namespace OpenBoot

open Semantics Program

variable {D : Device} {buf : List Byte} {c c' c₀ : Core} {w w' w₀ : World} {f : Flash}
  {ls : List Label} {len crc : Word}

/-- No answer, or one of the errors that are raised before anything is touched;
    E_FLASH counts with detail 0, which no driver code is. -/
def Refused (resp : List Byte) : Prop :=
  resp = [] ∨ respStatus resp ∈
    [eCrc, eLen, eCmd, eState, eArg, eAddr, eNotErased, eVerify, eProto] ∨
  (respStatus resp = eFlash ∧ respDetail resp = 0)

theorem Refused.not_ok {resp : List Byte} (h : Refused resp) : ¬ AnsweredOk resp := by
  rintro ⟨nonempty, status⟩
  rcases h with empty | listed | ⟨flash, _⟩
  · exact nonempty empty
  · rw [status] at listed
    exact absurd listed (by decide)
  · rw [status] at flash
    exact absurd flash (by decide)

theorem Refused.detail {resp : List Byte} (h : Refused resp) (status : respStatus resp = eFlash) :
    respDetail resp = 0 := by
  rcases h with rfl | listed | ⟨_, zero⟩
  · rfl
  · rw [status] at listed
    exact absurd listed (by decide)
  · exact zero

/-- Refused requests change nothing: with driver codes of one byte, a frame that
    is not answered or is refused has issued no command, and the core, the boot
    request and the part are as they were. -/
theorem refused_unchanged (D : Device) {f : Flash} {ls : List Label} {c c' : Core} {w w' : World}
    {buf resp : List Byte} {act : Action} {es : List (Event port)}
    (run : (machine D).Run (.off f) ls (.idle c w))
    (exec : (handleFrame D buf).Exec (portEnv D) c w es (resp, act) c' w')
    (codes : ∀ e ∈ issued es, e.2.toNat ≤ 255) (refused : Refused resp) :
    issued es = [] ∧ c' = c ∧ w' = w := by
  have ops := exec_ops exec
  have same : c' = c ∧ w' = w := by
    cases (frame_ending run exec).1 with
    | kept => exact ⟨rfl, rfl⟩
    | replayed => exact ⟨rfl, rfl⟩
    | opened _ answered => exact absurd answered refused.not_ok
    | stayed _ answered => exact absurd answered refused.not_ok
    | launched _ answered => exact absurd answered refused.not_ok
    | changed _ answered => exact absurd answered refused.not_ok
    | committed _ answered => exact absurd answered refused.not_ok
    | @failed _ _ op x rest status last fail code grown =>
      -- the failing command is one of those this frame issued, so its code shows
      have low := code (refused.detail status)
      rw [last] at ops
      have mem : (op, x) ∈ issued es := by
        cases head : issued es with
        | nil =>
          rw [head, List.nil_append] at ops
          rw [← ops, List.length_cons] at grown
          omega
        | cons e tail =>
          rw [head, List.cons_append] at ops
          rw [← (List.cons.inj ops).1]
          exact List.mem_cons_self
      have small := codes _ mem
      exact absurd (by bv_omega : x = 0) fail
  obtain ⟨rfl, rfl⟩ := same
  exact ⟨List.self_eq_append_left.mp ops, rfl, rfl⟩

/-- An ERASE of the active slot of the factory image is refused. -/
theorem refused_unchanged_erase : ∃ ls c w es resp act c' w',
    (machine .ch570).Run (.off (Bench.factory .ch570 Bench.image)) ls (.idle c w) ∧
    (handleFrame .ch570 (Bench.erase 0x2000 4096)).Exec (portEnv .ch570) c w es (resp, act) c' w' ∧
    respStatus resp = eAddr ∧ issued es = [] ∧ c' = c ∧ w' = w := by
  have passes : (Bench.bench .ch570 Bench.unchecked (Bench.factory .ch570 Bench.image) bootreqMagic
      [Bench.hello]).any (fun s =>
        let out := (handleFrame .ch570 (Bench.erase 0x2000 4096)).run (simulate .ch570) s.1 s.2
        decide (issued out.1 = [] ∧ respStatus out.2.1.1 = eAddr)) = true := by decide +kernel
  obtain ⟨ls, c, w, run, answer⟩ := Bench.bench_reach passes
  have silent := (of_decide_eq_true answer).1
  have status : respStatus (Bench.carry .ch570 (handleFrame .ch570 (Bench.erase 0x2000 4096)) c
      w).1.1 = eAddr := (of_decide_eq_true answer).2
  have exec := Bench.carry_exec .ch570 (handleFrame .ch570 (Bench.erase 0x2000 4096)) c w
  have codes : ∀ e ∈ issued ((handleFrame .ch570 (Bench.erase 0x2000 4096)).run (simulate .ch570)
      c w).1, e.2.toNat ≤ 255 := by
    rw [silent]
    exact List.forall_mem_nil _
  have refused : Refused (Bench.carry .ch570 (handleFrame .ch570 (Bench.erase 0x2000 4096)) c
      w).1.1 := .inr (.inl (by rw [status]; decide))
  have unchanged := refused_unchanged .ch570 run exec codes refused
  exact ⟨ls, c, w, _, _, _, _, _, run, exec, status, unchanged⟩

/-- What survives frames that issue no command: an open session, and what is
    known of the last COMMIT. -/
structure Quiet (c : Core) (w : World) (c' : Core) (w' : World) : Prop where
  session : c.s.session = true → c'.s.session = true
  slot : c'.writeSlot = c.writeSlot
  recState : c'.recState = c.recState
  len : c'.committedImgLen = c.committedImgLen
  crc : c'.committedImgCrc = c.committedImgCrc
  ops : w'.ops = w.ops

theorem Quiet.refl (c : Core) (w : World) : Quiet c w c w := ⟨id, rfl, rfl, rfl, rfl, rfl⟩

theorem Quiet.trans {c'' : Core} {w'' : World} (h : Quiet c w c' w') (h' : Quiet c' w' c'' w'') :
    Quiet c w c'' w'' where
  session := h'.session ∘ h.session
  slot := h'.slot.trans h.slot
  recState := h'.recState.trans h.recState
  len := h'.len.trans h.len
  crc := h'.crc.trans h.crc
  ops := h'.ops.trans h.ops

theorem Ending.quiet {resp : List Byte} (ending : Ending D buf c₀ w₀ resp .none c w)
    (ops : w.ops = w₀.ops) : Quiet c₀ w₀ c w := by
  cases ending with
  | kept => exact .refl _ _
  | replayed => exact .refl _ _
  | opened => exact ⟨fun _ => rfl, rfl, rfl, rfl, rfl, rfl⟩
  | changed _ _ _ _ grown =>
    rw [ops] at grown
    exact absurd grown (Nat.lt_irrefl _)
  | failed _ last _ _ grown =>
    rw [← ops, last, List.length_cons] at grown
    omega
  | committed _ _ _ _ _ _ _ _ _ _ grown =>
    rw [ops] at grown
    exact absurd grown (Nat.lt_irrefl _)

/-- The stages of a power cycle in which no command has been issued since `c`. -/
def Stage.Quiet (c : Core) (w : World) : Stage → Prop
  | off _ => True
  | booting _ => False
  | idle c' w' => OpenBoot.Quiet c w c' w'
  | serving _ c₀ w₀ _ w' => OpenBoot.Quiet c w c₀ w₀ ∧ w'.ops = w₀.ops

theorem updater_quiet {s : Stage} (run : (updater D).Run (.idle c w) ls s) (cycle : .reset ∉ ls)
    (quiet : flashOps ls = []) : s.Quiet c w := by
  induction run with
  | nil => exact .refl _ _
  | @snoc s t ls l _ step ih =>
    simp only [List.mem_append, List.mem_singleton, not_or] at cycle
    rw [flashOps_append] at quiet
    obtain ⟨before, last⟩ := List.append_eq_nil_iff.mp quiet
    have ih := ih cycle.1 before
    cases step with
    | reset => exact absurd rfl cycle.2
    | look => exact ih
    | think => exact ih
    | launch => trivial
    | ready => exact ih.elim
    | recv => exact ⟨ih, rfl⟩
    | ram => exact ih
    | @port _ _ _ _ _ _ op x permit port =>
      cases permit with
      | look reads =>
        rw [reads.silent port]
        exact ih
      | command _ _ cmd =>
        -- every command shows in the history
        have silent : op.isFlash = false := by
          simpa [flashOps] using last
        cases cmd <;> cases silent
    | @answer _ _ act _ _ _ _ ending =>
      cases act with
      | none => exact ih.1.trans (ending.quiet ih.2)
      | reset => trivial

/-- A COMMIT of the tuple committed last is answered without touching anything;
    only the capacity check of the slot now to be written can refuse it. -/
theorem replay_wp (session : c.s.session = true) (fresh : c.recState = .fresh)
    (same_len : c.committedImgLen = len) (same_crc : c.committedImgCrc = crc) (nonzero : len ≠ 0)
    (whole : len % 4 = 0) (commit : commitOf buf = some (len, crc)) :
    (handleFrame D buf).wp (portEnv D) .any (fun out c' w' => c' = c ∧ w' = w ∧
      (AnsweredOk out.1 ↔ len ≤ D.slotCapacity c.writeSlot)) c w := by
  obtain ⟨seq, pl, decoded, at_len, at_crc⟩ := commitOf_some commit
  rw [handleFrame_eq, decoded]
  simp only [dispatch, doCommit, wp_ite, wp_bind, wp_pure, wp_get, at_len, at_crc]
  refine ⟨fun hello => absurd hello (by decide), fun _ => ⟨fun _ => ⟨fun closed => ?_, fun _ =>
    ⟨fun boot => absurd boot (by decide), fun _ => ⟨fun erase => absurd erase (by decide), fun _ =>
    ⟨fun write => absurd write (by decide), fun _ => ⟨fun read => absurd read (by decide),
    fun _ => ⟨fun long => absurd rfl long, fun _ => ⟨fun bad => ?_, fun _ => ⟨fun large => ?_,
    fun room => ⟨fun _ => ?_, fun other => ?_⟩⟩⟩⟩⟩⟩⟩⟩⟩, fun unknown => ?_⟩⟩
  · rw [session] at closed
    cases closed
  · rcases bad with zero | ragged
    · exact absurd zero nonzero
    · exact absurd whole ragged
  · refine ⟨trivial, trivial, iff_of_false ?_ (BitVec.not_le.mpr large)⟩
    exact not_answeredOk_errResp (by decide) _ _ _
  · exact ⟨trivial, trivial, iff_of_true (answeredOk_okResp _ _) (BitVec.not_lt.mp room)⟩
  · exact absurd ⟨fresh, same_len, same_crc⟩ other
  · exact absurd (by simp) unknown

/-- After a COMMIT, the capacity of the next slot lets the same tuple pass exactly
    if the silicon holds both slots. -/
theorem Fresh.replay_fits (fresh : Fresh D c f) (slot : IsSlot c.writeSlot) :
    c.committedImgLen ≠ 0 ∧ c.committedImgLen % 4 = 0 ∧
      (c.committedImgLen ≤ D.slotCapacity c.writeSlot ↔ D.Fits slotB) := by
  obtain ⟨r, found, _, same_len, _⟩ := fresh.record
  obtain ⟨_, fits, _, accepted⟩ := recordOn_some found
  have geometry := accepted.geometry
  rw [same_len] at geometry
  rw [fresh.roles] at fits
  refine ⟨geometry.nonzero, geometry.whole, fun small => ?_, fun upper => ?_⟩
  · have here : D.Fits c.writeSlot :=
      Geometry.fits ⟨geometry.nonzero, geometry.whole, small⟩
    rcases slot.eq_or_other (.inr rfl) with same | other
    · rwa [same]
    · rwa [other]
  · have cap := geometry.capacity
    rw [fresh.roles, D.slotCapacity_of_fits fits] at cap
    rwa [D.slotCapacity_of_fits (D.fits_of_slotB upper slot)]

/-- COMMIT replay is idempotent exactly on silicon that holds both slots: after a
    COMMIT answered OK and any frames that issue no command, the same COMMIT is
    answered OK again with no command and no change. -/
theorem commit_replay_iff (D : Device) {f : Flash} {ls : List Label} {c₀ c : Core} {w₀ w : World}
    {buf resp : List Byte} {act : Action} {es : List (Event port)} {len crc : Word}
    (run : (machine D).Run (.off f) ls (.idle c₀ w₀)) (commit : commitOf buf = some (len, crc))
    (exec : (handleFrame D buf).Exec (portEnv D) c₀ w₀ es (resp, act) c w)
    (answered : AnsweredOk resp) :
    (∀ ls' c' w' buf' es' resp' act' c'' w'', (machine D).Run (.idle c w) ls' (.idle c' w') →
      .reset ∉ ls' → flashOps ls' = [] → commitOf buf' = some (len, crc) →
      (handleFrame D buf').Exec (portEnv D) c' w' es' (resp', act') c'' w'' →
      AnsweredOk resp' ∧ issued es' = [] ∧ c'' = c' ∧ w'' = w') ↔ D.Fits slotB := by
  obtain ⟨ending, ls₁, reached⟩ := frame_ending run exec
  obtain ⟨rfl, session, fresh, rfl, rfl⟩ := ending.commit_ok commit answered
  have sound := (idle_sound reached).1
  obtain ⟨nonzero, whole, fits⟩ := (sound.fresh fresh).replay_fits sound.slot
  constructor
  -- the very next frame may be the replay
  · intro again
    obtain ⟨es', ⟨resp', act'⟩, c', w', exec'⟩ :=
      exec_total (portEnv_total D) (handleFrame D buf) c w
    have answered' := (again [] c w buf es' resp' act' c' w' (.nil _) List.not_mem_nil rfl commit
      exec').1
    exact fits.mp ((wp_exec (replay_wp session fresh rfl rfl nonzero whole commit) exec').2.2.mp
      answered')
  · intro upper ls' c' w' buf' es' resp' act' c'' w'' further cycle silent commit' exec'
    obtain ⟨s, abstract, related⟩ := (refinement D).run (.idle (idle_sound reached)) further
    cases related
    have quiet : Quiet c w c' w' := updater_quiet abstract cycle silent
    have room := fits.mpr upper
    rw [← quiet.slot] at room
    have replay := wp_exec (replay_wp (quiet.session session) (quiet.recState.trans fresh) quiet.len
      quiet.crc nonzero whole commit') exec'
    obtain ⟨rfl, rfl, answer⟩ := replay
    exact ⟨answer.mpr room, List.self_eq_append_left.mp (exec_ops exec'), rfl, rfl⟩

/-- The ch570 holds both slots, so a COMMIT may be sent again. -/
theorem commit_replay_ch570 : ∃ ls c₀ w₀ es resp act c w,
    (machine .ch570).Run (.off Bench.blank) ls (.idle c₀ w₀) ∧
    (handleFrame .ch570 (Bench.commit Bench.image)).Exec (portEnv .ch570) c₀ w₀ es (resp, act) c w ∧
    AnsweredOk resp ∧
    ∀ ls' c' w' buf' es' resp' act' c'' w'', (machine .ch570).Run (.idle c w) ls' (.idle c' w') →
      .reset ∉ ls' → flashOps ls' = [] → commitOf buf' = some (4, crc32 Bench.image) →
      (handleFrame .ch570 buf').Exec (portEnv .ch570) c' w' es' (resp', act') c'' w'' →
      AnsweredOk resp' ∧ issued es' = [] ∧ c'' = c' ∧ w'' = w' := by
  have passes : (Bench.bench .ch570 Bench.unchecked Bench.blank 0 (Bench.stream 0x2000)).any
      (fun s => decide (AnsweredOk (Bench.carry .ch570 (handleFrame .ch570 (Bench.commit
        Bench.image)) s.1 s.2).1.1)) = true := by decide +kernel
  obtain ⟨ls, c, w, run, ok⟩ := Bench.bench_reach passes
  have answered := of_decide_eq_true ok
  have exec := Bench.carry_exec .ch570 (handleFrame .ch570 (Bench.commit Bench.image)) c w
  have commit : commitOf (Bench.commit Bench.image) = some (4, crc32 Bench.image) := by
    decide +kernel
  have replay := (commit_replay_iff .ch570 run commit exec answered).mpr (by decide)
  exact ⟨ls, c, w, _, _, _, _, _, run, exec, answered, replay⟩

/-- Silicon that ends below slot B: COMMIT to slot A is answered OK, and the same
    COMMIT sent again is refused, because slot B has no capacity. -/
theorem replay_refused_one_slot : ∃ ls c₀ w₀ es resp act c w es' resp' act' c' w',
    (machine .ch592OnCh591).Run (.off Bench.blank) ls (.idle c₀ w₀) ∧
    (handleFrame .ch592OnCh591 (Bench.commit Bench.image)).Exec (portEnv .ch592OnCh591) c₀ w₀ es
      (resp, act) c w ∧ AnsweredOk resp ∧
    (handleFrame .ch592OnCh591 (Bench.commit Bench.image)).Exec (portEnv .ch592OnCh591) c w es'
      (resp', act') c' w' ∧ respStatus resp' = eAddr := by
  have passes : (Bench.bench .ch592OnCh591 Bench.unchecked Bench.blank 0 (Bench.stream 0x2000)).any
      (fun s =>
        let first := Bench.carry .ch592OnCh591 (handleFrame .ch592OnCh591 (Bench.commit
          Bench.image)) s.1 s.2
        let again := Bench.carry .ch592OnCh591 (handleFrame .ch592OnCh591 (Bench.commit
          Bench.image)) first.2.1 first.2.2
        decide (AnsweredOk first.1.1 ∧ respStatus again.1.1 = eAddr)) = true := by decide +kernel
  obtain ⟨ls, c, w, run, answers⟩ := Bench.bench_reach passes
  obtain ⟨answered, refused⟩ := of_decide_eq_true answers
  have exec := Bench.carry_exec .ch592OnCh591 (handleFrame .ch592OnCh591 (Bench.commit Bench.image))
  exact ⟨ls, c, w, _, _, _, _, _, _, _, _, _, _, run, exec c w, answered, exec _ _, refused⟩

end OpenBoot
