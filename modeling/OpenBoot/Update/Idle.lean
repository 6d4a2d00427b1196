import OpenBoot.Core.Loop
import OpenBoot.Update.Bench
import OpenBoot.Update.Ledger
import Mathlib.Data.List.Induction

/-! Idle auto-boot: no traffic short of a session postpones the deadline, and the
application is only entered on flash nothing has touched. -/

set_option autoImplicit false

namespace OpenBoot

open Semantics Program

def ticks (time : Nat) : Word := BitVec.ofNat 32 time

theorem idleElapsed_iff {timeout : Word} {since now : Nat} (order : since ≤ now)
    (recent : now - since < 2 ^ 32) :
    idleElapsed (ticks since) (ticks now) timeout = true ↔
      timeout ≠ 0 ∧ timeout.toNat ≤ now - since := by
  have delta : (ticks now - ticks since).toNat = now - since := by
    unfold ticks
    rw [BitVec.toNat_sub, BitVec.toNat_ofNat, BitVec.toNat_ofNat]
    omega
  unfold idleElapsed
  by_cases disabled : timeout = 0
  · simp [disabled]
  · rw [if_neg disabled, decide_eq_true_eq, ge_iff_le, BitVec.le_def, delta]
    exact ⟨fun reached => ⟨disabled, reached⟩, fun both => both.2⟩

structure Turn where
  frame : Option (List Byte)
  rxBusy : Bool
  /-- The true time of the pass's tick count. -/
  now : Nat
  before : Loop
  es : List (Event port)
  resp : List Byte
  pass : Pass
  after : Loop

def Opens (frame : Option (List Byte)) (resp : List Byte) : Prop :=
  ∃ buf, frame = some buf ∧ (operandsOf cmdHello helloReqLen buf).isSome ∧ AnsweredOk resp

/-- The passes since the core was initialised, and where they led; `none` once the loop
    was left. -/
inductive Loops (D : Device) (timeout : Word) (f : Flash) (start : Nat) :
    List Turn → Option (Core × World × Loop) → Prop where
  | enter {bootreq : Word} {es : List (Event port)} {c : Core} {w : World} :
      (bootUp D).Exec (portEnv D) (.bss D bootreq) (.reset f) es .ready c w →
      Loops D timeout f start [] (some (c, w, ⟨ticks start, 0⟩))
  | turn {log : List Turn} {c c' : Core} {w w' : World} {v v' : Loop}
      {frame : Option (List Byte)} {rxBusy : Bool} {now : Nat} {es : List (Event port)}
      {resp : List Byte} {pass : Pass} : Loops D timeout f start log (some (c, w, v)) →
      (turn D timeout frame rxBusy (ticks now) v).Exec (portEnv D) c w es (resp, pass, v') c' w' →
      Loops D timeout f start (log ++ [⟨frame, rxBusy, now, v, es, resp, pass, v'⟩])
        (if pass.stays then some (c', w', v') else none)

/-- The time `idle_start` was read last. -/
def anchor (start : Nat) (log : List Turn) : Nat :=
  log.foldl (fun since t => if t.pass = .rechecked then t.now else since) start

def hotStreak (log : List Turn) : Nat :=
  log.foldl (fun k t => if t.pass = .hot then k + 1 else 0) 0

variable {D : Device} {timeout : Word} {f : Flash} {start : Nat} {log : List Turn}
  {c c' : Core} {w w' : World} {v v' : Loop} {frame : Option (List Byte)} {resp : List Byte}
  {es : List (Event port)} {act : Action} {t : Turn}

theorem anchor_snoc : anchor start (log ++ [t]) =
    if t.pass = .rechecked then t.now else anchor start log := by
  unfold anchor
  rw [List.foldl_append]
  rfl

theorem hotStreak_snoc : hotStreak (log ++ [t]) = if t.pass = .hot then hotStreak log + 1 else 0 := by
  unfold hotStreak
  rw [List.foldl_append]
  rfl

theorem hotStreak_append {win : List Turn} (hot : ∀ t ∈ win, t.pass = .hot) :
    hotStreak (log ++ win) = hotStreak log + win.length := by
  induction win using List.reverseRecOn with
  | nil => simp
  | append_singleton win t ih =>
    have last : t.pass = .hot := hot t (by simp)
    rw [← List.append_assoc, hotStreak_snoc, if_pos last,
      ih fun t mem => hot t (List.mem_append_left _ mem)]
    simp
    omega

theorem candidate_closed (closed : c.s.session = false)
    (run : (candidate D frame).Exec (portEnv D) c w es (resp, act) c' w') :
    act = .none ∧ w' = w ∧ (∀ e ∈ es, PortOp.isFlash e.op = false) ∧
      ((c' = c ∧ ¬ Opens frame resp) ∨ (c'.s.session = true ∧ Opens frame resp)) := by
  cases frame with
  | none =>
    obtain ⟨rfl, out, rfl, rfl⟩ := exec_pure.mp run
    obtain ⟨rfl, rfl⟩ := Prod.mk.inj out
    exact ⟨rfl, rfl, nofun, .inl ⟨rfl, fun ⟨_, same, _⟩ => by cases same⟩⟩
  | some buf =>
    have quiet : ¬ AnsweredOk resp → ¬ Opens (some buf) resp := fun bad ⟨_, _, _, good⟩ => bad good
    -- without a session only HELLO and errors are possible
    have shut : c.s.session = true → False := fun session => by
      rw [closed] at session
      cases session
    rcases handleFrame_exec run with ⟨rejected, rfl, rfl, rfl, rfl⟩ | ⟨q, decoded, dispatched⟩
    · refine ⟨rfl, rfl, nofun, .inl ⟨rfl, quiet fun answered => ?_⟩⟩
      rcases decodeFrame_error rejected with rfl | bad
      · exact answered.1 rfl
      · exact bad answered.2
    cases dispatched with
    | hello cmd handled =>
      rcases doHello_exec handled with ⟨-, ⟨rfl, rfl, reads⟩, status, detail, bad, rfl⟩ |
        ⟨passes, rfl, rfl, rfl, rfl⟩
      · exact ⟨rfl, rfl, reads, .inl ⟨rfl, quiet (not_answeredOk_errResp bad _ _ _)⟩⟩
      · refine ⟨rfl, rfl, nofun, .inr ⟨rfl, buf, rfl, ?_, finish_ne_nil _ _ _, rfl⟩⟩
        rw [operandsOf_of_eq decoded cmd passes.size]
        rfl
    | unknown _ _ none =>
      subst none
      exact ⟨rfl, rfl, nofun, .inl ⟨rfl, quiet (not_answeredOk_errResp (by decide) _ _ _)⟩⟩
    | closed _ _ none =>
      subst none
      exact ⟨rfl, rfl, nofun, .inl ⟨rfl, quiet (not_answeredOk_errResp (by decide) _ _ _)⟩⟩
    | boot _ session => exact (shut session).elim
    | erase _ session => exact (shut session).elim
    | write _ session => exact (shut session).elim
    | crc _ session => exact (shut session).elim
    | commit _ session => exact (shut session).elim

theorem candidate_sound (sound : Sound D false c w)
    (run : (candidate D frame).Exec (portEnv D) c w es (resp, .none) c' w') :
    Sound D false c' w' := by
  cases frame with
  | none =>
    obtain ⟨-, -, rfl, rfl⟩ := exec_pure.mp run
    exact sound
  | some buf => exact sound.frame run

theorem candidate_session (sound : Sound D false c w) (session : c.s.session = true)
    (run : (candidate D frame).Exec (portEnv D) c w es (resp, act) c' w') :
    c'.s.session = true := by
  cases frame with
  | none =>
    obtain ⟨-, -, rfl, -⟩ := exec_pure.mp run
    exact session
  | some buf => exact session_lasts sound session run

theorem bootSelect_exec {found : Word × Word}
    (run : (bootSelect D).Exec (portEnv D) c (.reset f) es found c' w') :
    found = onFlash D f (bootSelect D) := by
  have allowed : ∀ op, (∃ slot, SlotReads D slot op) →
      Reads D.flashAppStart.toNat D.appEnd.toNat op := fun op ⟨_, reads⟩ => reads.in_region
  have answers : (bootSelect D).wp (portEnv D) .any
      (fun found _ _ => found = onFlash D f (bootSelect D)) c (.reset f) :=
    wp_coherent (bootSelect_queries D) allowed (coherent_reset D f) (fun _ _ => trivial) rfl
  exact wp_exec answers run

/-- Where the loop stands, as told by the passes so far. -/
structure Loops.At (D : Device) (f : Flash) (start : Nat) (log : List Turn) (c : Core) (w : World)
    (v : Loop) : Prop where
  sound : Sound D false c w
  idleStart : v.idleStart = ticks (anchor start log)
  busyPolls : v.busyPolls.toNat = hotStreak log
  bound : hotStreak log < busyPollsMax.toNat
  opened : c.s.session = true → ∃ t ∈ log, Opens t.frame t.resp
  closed : c.s.session = false → w = .reset f ∧
    ∀ t ∈ log, ¬ Opens t.frame t.resp ∧ ∀ e ∈ t.es, PortOp.isFlash e.op = false

namespace Loops

/-- With no session open, nothing has opened one and nothing has been written. -/
theorem At.unopened (h : At D f start log c w v)
    (run : (candidate D frame).Exec (portEnv D) c w es (resp, act) c' w')
    (shut : c'.s.session = false) :
    w' = .reset f ∧ act = .none ∧
      (∀ t ∈ log, ¬ Opens t.frame t.resp ∧ ∀ e ∈ t.es, PortOp.isFlash e.op = false) ∧
      ¬ Opens frame resp ∧ ∀ e ∈ es, PortOp.isFlash e.op = false := by
  cases before : c.s.session with
  | true =>
    rw [candidate_session h.sound before run] at shut
    cases shut
  | false =>
    obtain ⟨rfl, rfl, reads, outcome⟩ := candidate_closed before run
    obtain ⟨part, quiet⟩ := h.closed before
    rcases outcome with ⟨-, none⟩ | ⟨session, -⟩
    · exact ⟨part, rfl, quiet, none, reads⟩
    · rw [session] at shut
      cases shut

theorem At.opens (h : At D f start log c w v)
    (run : (candidate D frame).Exec (portEnv D) c w es (resp, act) c' w')
    (session : c'.s.session = true) : (∃ t ∈ log, Opens t.frame t.resp) ∨ Opens frame resp := by
  cases before : c.s.session with
  | true => exact .inl (h.opened before)
  | false =>
    obtain ⟨-, -, -, outcome⟩ := candidate_closed before run
    rcases outcome with ⟨rfl, -⟩ | ⟨-, opens⟩
    · rw [before] at session
      cases session
    · exact .inr opens

theorem at_ (run : Loops D timeout f start log (some (c, w, v))) : At D f start log c w v := by
  generalize state : some (c, w, v) = s at run
  induction run generalizing c w v with
  | @enter bootreq _ c₁ w₁ booted =>
    obtain ⟨rfl, rfl, rfl⟩ : c = c₁ ∧ w = w₁ ∧ v = ⟨ticks start, 0⟩ := by simpa using state
    obtain ⟨rfl, req, -, rfl⟩ := wp_exec (bootUp_wp D f bootreq) booted
    exact ⟨sound_started D f req, rfl, rfl, by decide, nofun, fun _ => ⟨rfl, nofun⟩⟩
  | @turn log c₀ c₁ w₀ w₁ v₀ v₁ frame rxBusy now es resp pass _ exec ih =>
    have h := ih rfl
    cases stays : pass.stays with
    | false =>
      rw [stays] at state
      cases state
    | true =>
    rw [stays] at state
    obtain ⟨rfl, rfl, rfl⟩ : c = c₁ ∧ w = w₁ ∧ v = v₁ := by simpa using state
    obtain ⟨es₁, es₂, act, rfl, reads, handled, rest⟩ := turn_exec (portEnv_silent D) exec
    rcases rest with ⟨-, rfl, -⟩ | ⟨rfl, rest⟩
    · cases stays
    -- the count of busy passes stays below its bound, so it does not wrap
    have bump : (v₀.busyPolls + 1).toNat = hotStreak log + 1 := by
      have small : v₀.busyPolls.toNat + 1 < 2 ^ 32 := by
        rw [h.busyPolls]
        exact Nat.lt_of_le_of_lt (Nat.succ_le_of_lt h.bound) (by decide)
      rw [← h.busyPolls, BitVec.toNat_add]
      exact Nat.mod_eq_of_lt small
    refine ⟨candidate_sound h.sound handled, ?_, ?_, ?_, fun session => ?_, fun shut => ?_⟩
    · rw [anchor_snoc]
      cases rest with
      | rechecked => rfl
      | _ => exact h.idleStart
    · rw [hotStreak_snoc]
      cases rest with
      | hot => exact bump
      | _ => rfl
    · rw [hotStreak_snoc]
      cases rest with
      | hot _ below =>
        have below := BitVec.lt_def.mp below
        rw [bump] at below
        exact below
      | _ => exact (by decide : 0 < busyPollsMax.toNat)
    · rcases h.opens handled session with ⟨t, mem, opens⟩ | opens
      · exact ⟨t, List.mem_append_left _ mem, opens⟩
      · exact ⟨_, List.mem_append_right _ (List.mem_singleton_self _), opens⟩
    · obtain ⟨part, -, quiet, none, looked⟩ := h.unopened handled shut
      refine ⟨part, fun t mem => ?_⟩
      rcases List.mem_append.mp mem with old | new
      · exact quiet t old
      · obtain rfl := List.mem_singleton.mp new
        refine ⟨none, fun e mem => ?_⟩
        exact (List.mem_append.mp mem).elim (looked e) (reads e)

theorem split {state : Option (Core × World × Loop)} {pre post : List Turn}
    (run : Loops D timeout f start log state) (at_t : log = pre ++ t :: post) :
    ∃ c w c' w', Loops D timeout f start pre (some (c, w, t.before)) ∧
      (OpenBoot.turn D timeout t.frame t.rxBusy (ticks t.now) t.before).Exec (portEnv D) c w t.es
        (t.resp, t.pass, t.after) c' w' ∧
      Loops D timeout f start (pre ++ [t])
        (if t.pass.stays then some (c', w', t.after) else none) := by
  induction run generalizing post with
  | enter => simp at at_t
  | turn before exec ih =>
    rcases List.eq_nil_or_concat post with rfl | ⟨post, last, rfl⟩
    · obtain ⟨rfl, same⟩ := List.append_inj' at_t rfl
      obtain rfl := (List.cons.inj same).1
      exact ⟨_, _, _, _, before, exec, .turn before exec⟩
    · rw [List.concat_eq_append, ← List.cons_append, ← List.append_assoc] at at_t
      exact ih (List.append_inj' at_t rfl).1

/-- Without a HELLO every pass that does not check is mid-frame. -/
theorem hot_of_unchecked {state : Option (Core × World × Loop)} {pre post : List Turn}
    (run : Loops D timeout f start log state) (at_t : log = pre ++ t :: post)
    (unopened : ∀ t' ∈ pre ++ [t], ¬ Opens t'.frame t'.resp) (unchecked : t.pass.checked = false) :
    t.pass = .hot := by
  obtain ⟨frame, rxBusy, now, v, es, resp, pass, v'⟩ := t
  obtain ⟨c, w, c', w', before, exec, -⟩ := run.split at_t
  dsimp only at before exec
  obtain ⟨es₁, es₂, act, -, -, handled, rest⟩ := turn_exec (portEnv_silent D) exec
  have shut : c'.s.session = false := by
    refine Bool.eq_false_of_not_eq_true fun session => ?_
    rcases before.at_.opens handled session with ⟨t', mem, opens⟩ | opens
    · exact unopened t' (List.mem_append_left _ mem) opens
    · exact unopened _ (List.mem_append_right _ (List.mem_singleton_self _)) opens
  rcases rest with ⟨rfl, -⟩ | ⟨-, rest⟩
  · have none := (before.at_.unopened handled shut).2.1
    cases none
  · cases rest with
    | hot => rfl
    | suppressed session =>
      rw [session] at shut
      cases shut
    | _ => cases unchecked

theorem selected {state : Option (Core × World × Loop)} {pre post : List Turn}
    (run : Loops D timeout f start log state) (at_t : log = pre ++ t :: post) :
    (t.pass = .rechecked → idleElapsed t.before.idleStart (ticks t.now) timeout = true ∧
      selectOn D f = slotNone) ∧
    ∀ base, t.pass = .launched base →
      idleElapsed t.before.idleStart (ticks t.now) timeout = true ∧
      (selectOn D f ≠ slotNone ∧ base = D.slotBase (selectOn D f)) ∧
      ∀ t' ∈ pre ++ [t], ¬ Opens t'.frame t'.resp ∧ ∀ e ∈ t'.es, PortOp.isFlash e.op = false := by
  obtain ⟨frame, rxBusy, now, v, es, resp, pass, v'⟩ := t
  obtain ⟨c, w, c', w', before, exec, -⟩ := run.split at_t
  dsimp only at before exec
  obtain ⟨es₁, es₂, act, events, reads, handled, rest⟩ := turn_exec (portEnv_silent D) exec
  rcases rest with ⟨-, left, -⟩ | ⟨-, rest⟩
  · obtain rfl : pass = .reset := left
    exact ⟨nofun, nofun⟩
  cases rest with
  -- no session was ever open, so the flash is that of the start
  | rechecked shut elapsed asked =>
    obtain ⟨rfl, -⟩ := before.at_.unopened handled shut
    refine ⟨fun _ => ⟨elapsed, ?_⟩, nofun⟩
    exact (congrArg Prod.fst (bootSelect_exec asked)).symm
  | @launched _ slot _ shut elapsed asked some =>
    obtain ⟨rfl, -, quiet, none, looked⟩ := before.at_.unopened handled shut
    have same : slot = selectOn D f := congrArg Prod.fst (bootSelect_exec asked)
    subst same
    refine ⟨nofun, fun base here => ⟨elapsed, ⟨some, (Pass.launched.inj here).symm⟩, ?_⟩⟩
    intro t' mem
    rcases List.mem_append.mp mem with old | new
    · exact quiet t' old
    · obtain rfl := List.mem_singleton.mp new
      refine ⟨none, fun e mem => ?_⟩
      rw [events] at mem
      exact (List.mem_append.mp mem).elim (looked e) (reads e)
  | _ => exact ⟨nofun, nofun⟩

theorem moved {state : Option (Core × World × Loop)} {pre post : List Turn}
    (run : Loops D timeout f start log state) (at_t : log = pre ++ t :: post)
    (moved : t.after.idleStart ≠ t.before.idleStart) : t.pass = .rechecked := by
  obtain ⟨frame, rxBusy, now, v, es, resp, pass, v'⟩ := t
  obtain ⟨c, w, c', w', -, exec, -⟩ := run.split at_t
  dsimp only at exec moved
  obtain ⟨es₁, es₂, act, -, -, -, rest⟩ := turn_exec (portEnv_silent D) exec
  rcases rest with ⟨-, -, rfl⟩ | ⟨-, rest⟩
  · exact absurd rfl moved
  · cases rest with
    | rechecked => rfl
    | _ => exact absurd rfl moved

theorem waiting {state : Option (Core × World × Loop)} {pre post : List Turn}
    (run : Loops D timeout f start log state) (at_t : log = pre ++ t :: post)
    (checked : t.pass.checked = true) :
    t.pass ≠ .waiting ↔
      idleElapsed (ticks (anchor start pre)) (ticks t.now) timeout = true := by
  obtain ⟨frame, rxBusy, now, v, es, resp, pass, v'⟩ := t
  obtain ⟨c, w, c', w', before, exec, -⟩ := run.split at_t
  dsimp only at before exec checked ⊢
  obtain ⟨es₁, es₂, act, -, -, -, rest⟩ := turn_exec (portEnv_silent D) exec
  rw [← before.at_.idleStart]
  rcases rest with ⟨-, rfl, -⟩ | ⟨-, rest⟩
  · cases checked
  · cases rest with
    | hot => cases checked
    | suppressed => cases checked
    | waiting _ early =>
      rw [early]
      exact ⟨fun other => absurd rfl other, nofun⟩
    | launched _ elapsed => exact ⟨fun _ => elapsed, fun _ => nofun⟩
    | rechecked _ elapsed => exact ⟨fun _ => elapsed, fun _ => nofun⟩

/-- Without a HELLO, no `busyPollsMax` passes in a row go without a check. -/
theorem starvation {state : Option (Core × World × Loop)} {pre win post : List Turn}
    (run : Loops D timeout f start log state) (at_win : log = pre ++ win ++ post)
    (length : win.length = busyPollsMax.toNat)
    (unopened : ∀ t ∈ pre ++ win, ¬ Opens t.frame t.resp) : ∃ t ∈ win, t.pass.checked = true := by
  by_contra none
  have hot : ∀ t ∈ win, t.pass = .hot := by
    intro t mem
    have unchecked : t.pass.checked = false :=
      Bool.eq_false_of_not_eq_true fun checked => none ⟨t, mem, checked⟩
    obtain ⟨a, b, rfl⟩ := List.append_of_mem mem
    have at_t : log = (pre ++ a) ++ t :: (b ++ post) := by simp [at_win]
    refine run.hot_of_unchecked at_t (fun t' mem' => unopened t' ?_) unchecked
    simp only [List.mem_append, List.mem_cons, List.not_mem_nil, or_false] at mem' ⊢
    rcases mem' with (old | older) | same
    · exact .inl old
    · exact .inr (.inl older)
    · exact .inr (.inr (.inl same))
  -- a streak that long would have run into the ceiling
  rcases List.eq_nil_or_concat win with rfl | ⟨win, last, rfl⟩
  · exact absurd length (by decide)
  rw [List.concat_eq_append] at *
  have at_last : log = (pre ++ win) ++ last :: post := by simp [at_win]
  obtain ⟨c, w, c', w', -, -, after⟩ := run.split at_last
  rw [hot last (by simp)] at after
  have bound := after.at_.bound
  rw [List.append_assoc, hotStreak_append hot, length] at bound
  omega

end Loops

/-- Idle auto-boot is neither postponable nor unsafe. In every run of the main loop: the
    anchor moves only where the deadline was reached and nothing was bootable; without a
    HELLO no 4096 passes in a row go without a check; within one wrap of the counter a
    check finds the deadline reached exactly when it is; and a launch comes with no HELLO
    and no flash command before it, into the slot the undisturbed flash selects. -/
theorem idle_autoboot {state : Option (Core × World × Loop)}
    (run : Loops D timeout f start log state) :
    (∀ t ∈ log, t.after.idleStart ≠ t.before.idleStart →
      idleElapsed t.before.idleStart (ticks t.now) timeout = true ∧ t.pass = .rechecked ∧
        selectOn D f = slotNone) ∧
    (∀ pre win post, log = pre ++ win ++ post → win.length = 4096 →
      (∀ t ∈ pre ++ win, ¬ Opens t.frame t.resp) → ∃ t ∈ win, t.pass.checked = true) ∧
    (∀ pre t post, log = pre ++ t :: post → t.pass.checked = true →
      anchor start pre ≤ t.now → t.now - anchor start pre < 2 ^ 32 →
      (t.pass ≠ .waiting ↔ timeout ≠ 0 ∧ timeout.toNat ≤ t.now - anchor start pre)) ∧
    ∀ pre t post base, log = pre ++ t :: post → t.pass = .launched base →
      (∀ t' ∈ pre ++ [t], ¬ Opens t'.frame t'.resp ∧
        ∀ e ∈ t'.es, PortOp.isFlash e.op = false) ∧
      selectOn D f ≠ slotNone ∧ base = D.slotBase (selectOn D f) := by
  refine ⟨fun t mem moved => ?_, fun pre win post at_win length unopened => ?_,
    fun pre t post at_t checked order recent => ?_, fun pre t post base at_t launched => ?_⟩
  · obtain ⟨pre, post, at_t⟩ := List.append_of_mem mem
    have pass := run.moved at_t moved
    obtain ⟨elapsed, none⟩ := (run.selected at_t).1 pass
    exact ⟨elapsed, pass, none⟩
  · exact run.starvation at_win length unopened
  · rw [run.waiting at_t checked]
    exact idleElapsed_iff order recent
  · obtain ⟨-, found, quiet⟩ := (run.selected at_t).2 base launched
    exact ⟨quiet, found⟩

/-- The factory image is launched once the deadline is reached. -/
theorem idle_autoboot_factory : ∃ log state base,
    Loops .ch570 1000 (Bench.factory .ch570 Bench.image) 0 log state ∧
      (log.map Turn.pass) = [.launched base] ∧
      base = Device.ch570.slotBase (selectOn .ch570 (Bench.factory .ch570 Bench.image)) := by
  have booted := Bench.carry_exec .ch570 (bootUp .ch570) (.bss .ch570 bootreqMagic)
    (.reset (Bench.factory .ch570 Bench.image))
  have ready : (Bench.carry .ch570 (bootUp .ch570) (.bss .ch570 bootreqMagic)
      (.reset (Bench.factory .ch570 Bench.image))).1 = .ready := by decide +kernel
  rw [ready] at booted
  have launches : (Bench.carry .ch570 (turn .ch570 1000 none false (ticks 1000) ⟨ticks 0, 0⟩)
      (Bench.carry .ch570 (bootUp .ch570) (.bss .ch570 bootreqMagic)
        (.reset (Bench.factory .ch570 Bench.image))).2.1
      (Bench.carry .ch570 (bootUp .ch570) (.bss .ch570 bootreqMagic)
        (.reset (Bench.factory .ch570 Bench.image))).2.2).1 =
      ([], .launched 0x2000, ⟨0, 0⟩) := by decide +kernel
  have exec := Bench.carry_exec .ch570 (turn .ch570 1000 none false (ticks 1000) ⟨ticks 0, 0⟩)
    (Bench.carry .ch570 (bootUp .ch570) (.bss .ch570 bootreqMagic)
      (.reset (Bench.factory .ch570 Bench.image))).2.1
    (Bench.carry .ch570 (bootUp .ch570) (.bss .ch570 bootreqMagic)
      (.reset (Bench.factory .ch570 Bench.image))).2.2
  rw [launches] at exec
  have run := Loops.turn (.enter booted) exec
  exact ⟨_, _, 0x2000, run, rfl, ((idle_autoboot run).2.2.2 [] _ [] _ rfl rfl).2.2⟩

end OpenBoot
