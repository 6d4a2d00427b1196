import OpenBoot.Host.Demultiplexing

/-! Whether a keyboard that was asked to open the tunnel is asked to close it before the
transport is gone. It is once the tunnel was seen to open, and only then. -/

set_option autoImplicit false

namespace OpenBoot.Host.Tunnel

open Semantics Program

variable {W X A : Type} {T : Environment reportLink W} {q q' : Qmk} {w w' : W}
  {es es' : List (Event reportLink)} {code : Byte} {fuel : Nat} {opts : QmkOpts}

def commands (code : Byte) : LinkOp → Bool
  | .write report => decide (report.head? = some tagControl ∧ report[2]? = some code)
  | _ => false

def writes (code : Byte) (e : Event reportLink) : Bool := commands code e.op

inductive Answer where
  | opened
  | refused
  deriving DecidableEq

/-- A failure status to ENTER refuses it, and so does a STATUS in error. -/
def answer (payload : List Byte) : Option Answer :=
  if payload.getD 0 0 = opEnter ∧ payload.length ≥ 2 ∧ payload.getD 1 0 ≠ obbOk then some .refused
  else
    match parseStatus payload with
    | none => none
    | some status =>
      if status.state = stSettling ∨ status.state = stPassthru then some .opened
      else if status.state = stError then some .refused
      else none

def answers (es : List (Event reportLink)) : List Answer := (controls es).filterMap answer

@[simp] theorem answers_append : answers (es ++ es') = answers es ++ answers es' := by
  simp [answers]

theorem Vain.answers (h : Vain es) : answers es = [] := by
  refine List.filterMap_eq_nil_iff.mpr fun p mem => ?_
  rw [h p mem]
  rfl

def Opens (es : List (Event reportLink)) : Prop := (answers es).head? = some .opened

theorem Opens.append (h : Opens es) : Opens (es ++ es') := by
  unfold Opens at *
  rw [answers_append, List.head?_append, h]
  rfl

/-! ### What never touches the tunnel -/

/-- No command with this opcode is given, and the transport goes on as it believes. -/
def spares (code : Byte) : Contract reportLink Qmk W where
  op _ _ op := commands code op = false
  ram _ q q' := q'.passthrough = q.passthrough

abbrev Spares (T : Environment reportLink W) (code : Byte) (p : Tunnel X A) : Prop :=
  Keeps T (spares code) p.run

theorem Spares.exec {p : Tunnel X A} {x : Except (Halt X) A} (h : Spares T code p)
    (run : p.run.Exec T q w es x q' w') :
    (∀ e ∈ es, writes code e = false) ∧ q'.passthrough = q.passthrough := by
  obtain ⟨asks, updates⟩ := Keeps.exec h run
  refine ⟨fun e mem => ?_, updates (fun q₁ => q₁.passthrough = q.passthrough)
    (fun _ _ _ kept same => kept.trans same) rfl⟩
  obtain ⟨_, _, allowed⟩ := asks e mem
  exact allowed

theorem spares_perform {op : LinkOp} (other : commands code op = false) :
    Spares T code (ExceptT.lift (perform (I := reportLink) op) : Tunnel X (LinkOp.Reply op)) :=
  Keeps.lift fun _ _ => ⟨other, fun _ _ _ => trivial⟩

theorem spares_now : Spares T code (now : Tunnel X Instant) := spares_perform rfl

theorem spares_sleep {d : Duration} : Spares T code (sleep d : Tunnel X Unit) := spares_perform rfl

theorem spares_modifyGet {f : Qmk → Qmk} (same : ∀ q, (f q).passthrough = q.passthrough) :
    Spares T code (modifyGet f : Tunnel X Unit) :=
  Keeps.lift fun q _ => ⟨same q, trivial⟩

theorem spares_ofIo {out : Except Chain A} : Spares T code (ofIo out) := by
  cases out <;> exact Keeps.pure _

theorem spares_readReport {timeoutMs : Nat} : Spares T code (readReport timeoutMs) :=
  Keeps.seq (spares_perform rfl) fun _ => spares_ofIo

theorem spares_writeReport {report : List Byte} (other : commands code (.write report) = false) :
    Spares T code (writeReport report) :=
  Keeps.seq (spares_perform other) fun _ => spares_ofIo

theorem commands_controlReport {op : Byte} {args : List Byte} :
    commands code (.write (controlReport op args)) = decide (op = code) := by
  simp [commands, controlReport, report]

theorem spares_writeControl {op : Byte} {args : List Byte} (other : op ≠ code) :
    Spares T code (writeControl op args) :=
  spares_writeReport (commands_controlReport.trans (decide_eq_false other))

theorem spares_anchorFromElapsed {elapsedMs : Word} :
    Spares T code (anchorFromElapsed elapsedMs : Tunnel X Instant) :=
  Keeps.seq spares_now fun _ => Keeps.ite (Keeps.pure _) spares_now

theorem spares_pump {deadline : Instant} : Spares T code (pump deadline) := by
  refine Keeps.seq spares_now fun t => Keeps.ite (Keeps.pure _) ?_
  refine Keeps.seq spares_readReport fun buf => Keeps.ite (Keeps.pure _) (Keeps.ite (Keeps.pure _) ?_)
  refine Keeps.ite ?_ (Keeps.ite (Keeps.pure _) (Keeps.pure _))
  exact Keeps.seq (spares_modifyGet fun _ => rfl) fun _ => Keeps.pure _

theorem spares_readControl {deadline : Instant} : Spares T code (readControl fuel deadline) := by
  refine Keeps.loop (fun _ => Keeps.seq spares_pump fun rx => ?_) fuel ()
  cases rx with
  | none => exact Keeps.pure _
  | some rx =>
    cases rx with
    | control payload => exact Keeps.ite (Keeps.pure _) (Keeps.pure _)
    | _ => exact Keeps.pure _

theorem spares_popFront : Spares T code popFront := by
  refine Keeps.seq (Keeps.lift fun _ _ => trivial) fun t => ?_
  cases t.rx with
  | nil => exact Keeps.pure _
  | cons b rest => exact Keeps.seq (spares_modifyGet fun _ => rfl) fun _ => Keeps.pure _

theorem spares_pumpByte {wait : Duration} : Spares T code (pumpByte fuel wait) := by
  refine Keeps.seq spares_popFront fun b => ?_
  cases b with
  | some b => exact Keeps.pure _
  | none =>
    refine Keeps.seq spares_now fun t => Keeps.loop (fun _ => Keeps.seq spares_pump fun rx => ?_) fuel ()
    match rx with
    | none => exact Keeps.pure _
    | some (.stream 0) => exact Keeps.pure _
    | some (.control _) => exact Keeps.pure _
    | some .ignored => exact Keeps.pure _
    | some (.stream (_ + 1)) => exact Keeps.seq spares_popFront fun _ => Keeps.pure _

section
variable {nextByte : Duration → Tunnel Chain (Option Byte)} {deadline : Instant}

theorem spares_readBytes (source : ∀ wait, Spares T code (nextByte wait)) (n : Nat) :
    Spares T code (readBytes nextByte deadline n) := by
  induction n with
  | zero => exact Keeps.pure _
  | succ n ih =>
    refine Keeps.seq (Keeps.seq spares_now fun t => Keeps.ite (Keeps.pure _) (source _)) fun b => ?_
    cases b with
    | none => exact Keeps.pure _
    | some b => exact Keeps.seq ih fun _ => Keeps.pure _

theorem spares_huntSof (source : ∀ wait, Spares T code (nextByte wait)) :
    Spares T code (huntSof nextByte deadline fuel) := by
  refine Keeps.loop (fun seen => Keeps.seq spares_now fun t => Keeps.ite (Keeps.pure _) ?_) fuel false
  refine Keeps.seq (source _) fun b => ?_
  cases b with
  | none => exact Keeps.ite (Keeps.pure _) (Keeps.pure _)
  | some b => exact Keeps.ite (Keeps.pure _) (Keeps.ite (Keeps.pure _) (Keeps.pure _))

theorem spares_recvSofFrame (source : ∀ wait, Spares T code (nextByte wait)) :
    Spares T code (recvSofFrame nextByte deadline fuel) := by
  refine Keeps.loop (fun _ => Keeps.seq (spares_huntSof source) fun found =>
    Keeps.ite (Keeps.pure _) ?_) fuel ()
  refine Keeps.seq (spares_readBytes source _) fun hdr => ?_
  cases hdr with
  | none => exact Keeps.pure _
  | some hdr =>
    refine Keeps.ite (Keeps.pure _) (Keeps.seq (spares_readBytes source _) fun tail => ?_)
    cases tail <;> exact Keeps.pure _

end

theorem spares_recvFrame {deadline : Instant} : Spares T code (recvFrame fuel deadline) :=
  spares_recvSofFrame fun _ => spares_pumpByte

theorem spares_writeStream (chunks : List (List Byte)) : Spares T code (writeStream chunks) := by
  induction chunks with
  | nil => exact Keeps.pure _
  | cons chunk rest ih =>
    have stream : commands code (.write (streamReport chunk)) = false := by
      simp [commands, streamReport, report, tagStream, tagControl]
    exact Keeps.seq (spares_writeReport stream) fun _ => ih

theorem spares_sendFrame {frame : List Byte} : Spares T code (sendFrame frame) := by
  unfold sendFrame
  refine Keeps.ite ?_ (spares_writeStream _)
  exact Keeps.seq (spares_modifyGet fun _ => rfl) fun _ => spares_writeStream _

theorem spares_xfer {req : Frame} {timeout : Duration} : Spares T code (xfer fuel req timeout) := by
  refine Keeps.seq spares_now fun t => Keeps.seq spares_sendFrame.adapt fun _ => ?_
  refine Keeps.loop (fun _ => Keeps.seq spares_recvFrame.adapt fun raw => ?_) fuel ()
  cases raw with
  | none => exact Keeps.pure _
  | some raw =>
    simp only
    cases verdict req raw <;> exact Keeps.pure _

theorem spares_probeUntilAlive {anchor : Instant} :
    Spares T code (probeUntilAlive fuel anchor opts) := by
  have probes : ∀ giveUp seq, Spares T code (loop (probe fuel anchor giveUp opts) fuel seq) := by
    intro giveUp seq
    refine Keeps.loop (fun seq => Keeps.seq spares_now fun t => Keeps.ite (Keeps.pure _) ?_) fuel seq
    refine Keeps.seq (spares_modifyGet fun _ => rfl) fun _ => ?_
    refine Keeps.seq spares_xfer.attempt fun out => ?_
    cases out with
    | ok frame =>
      refine Keeps.ite (Keeps.seq spares_sleep fun _ => Keeps.pure _) ?_
      exact Keeps.seq spares_now fun _ => Keeps.seq (spares_modifyGet fun _ => rfl) fun _ => Keeps.pure _
    | error err =>
      cases err with
      | timeout => exact Keeps.seq spares_sleep fun _ => Keeps.pure _
      | io e => exact Keeps.pure _
  refine Keeps.seq spares_now fun t => Keeps.ite ?_ (probes _ _)
  exact Keeps.seq spares_sleep fun _ => probes _ _

theorem spares_poll {t nextPoll : Instant} (other : opStatus ≠ code) :
    Spares T code (poll opts t nextPoll) :=
  Keeps.ite (Keeps.seq (spares_writeControl other) fun _ => Keeps.pure _) (Keeps.pure _)

theorem spares_hear {nextPoll : Instant} {payload : List Byte} : Spares T code (hear nextPoll payload) := by
  unfold hear
  refine Keeps.ite (Keeps.ite (Keeps.pure _) (Keeps.pure _)) (Keeps.ite ?_ (Keeps.pure _))
  cases parseStatus payload with
  | none => exact Keeps.pure _
  | some status =>
    refine Keeps.ite (Keeps.seq spares_anchorFromElapsed fun _ => Keeps.pure _) ?_
    exact Keeps.ite (Keeps.ite (Keeps.pure _) (Keeps.pure _)) (Keeps.pure _)

theorem spares_enterRound {giveUp nextPoll : Instant} (other : opStatus ≠ code) :
    Spares T code (enterRound fuel opts giveUp nextPoll) := by
  refine Keeps.seq spares_now fun t => Keeps.ite (Keeps.pure _) ?_
  refine Keeps.seq (spares_poll other).adapt fun nextPoll => ?_
  refine Keeps.seq spares_readControl.adapt fun payload => ?_
  cases payload with
  | none => exact Keeps.pure _
  | some payload => exact spares_hear

/-! ### One ENTER -/

theorem anchorFromElapsed_exec {elapsedMs : Word} {x : Except (Halt X) Instant}
    (run : (anchorFromElapsed elapsedMs : Tunnel X Instant).run.Exec T q w es x q' w') :
    Vain es ∧ ∃ t, x = .ok t := by
  rcases exec_seq.mp run with ⟨_, -, clock⟩ | ⟨_, _, t, _, _, rfl, clock, rest⟩
  · obtain ⟨_, fails, -⟩ := exec_now.mp clock
    cases fails
  obtain ⟨_, same, rfl, -⟩ := exec_now.mp clock
  simp only at rest
  split at rest
  · obtain ⟨rfl, rfl, -⟩ := exec_return.mp rest
    exact ⟨List.forall_mem_nil _, _, rfl⟩
  · obtain ⟨_, rfl, rfl, -⟩ := exec_now.mp rest
    exact ⟨List.forall_mem_nil _, _, rfl⟩

theorem writeControl_exec {op : Byte} {args : List Byte} {x : Except (Halt Chain) Unit}
    (run : (writeControl op args).run.Exec T q w es x q' w') :
    ∃ out : Except Chain Unit, x = out.mapError .failed ∧
      es = [⟨.write (controlReport op args), out⟩] ∧ q = q' := exec_ofIo run

theorem poll_exec {t nextPoll : Instant} {x : Except (Halt Chain) Instant}
    (run : (poll opts t nextPoll).run.Exec T q w es x q' w') : Vain es := by
  rcases exec_ite.mp run with ⟨-, run⟩ | ⟨-, run⟩
  · rcases exec_seq.mp run with ⟨_, -, asked⟩ | ⟨_, _, _, _, _, rfl, asked, rest⟩
    · obtain ⟨_, -, rfl, -⟩ := writeControl_exec asked
      exact List.forall_mem_nil _
    · obtain ⟨_, -, rfl, -⟩ := writeControl_exec asked
      obtain ⟨rfl, -⟩ := exec_return.mp rest
      exact List.forall_mem_nil _
  · obtain ⟨rfl, -⟩ := exec_return.mp run
    exact List.forall_mem_nil _

theorem hear_exec {nextPoll : Instant} {payload : List Byte}
    {x : Except (Halt EnterError) (Instant ⊕ Instant)}
    (run : (hear nextPoll payload).run.Exec T q w es x q' w') :
    Vain es ∧ ((∃ n, x = .ok (.inl n) ∧ answer payload = none) ∨
      (∃ t, x = .ok (.inr t) ∧ answer payload = some .opened) ∨
      ∃ e, x = .error e ∧ answer payload = some .refused) := by
  unfold hear at run
  unfold answer
  have thrown : ∀ {c : Prop} [Decidable c] {e e' : Halt EnterError},
      (if c then throw e else throw e' : Tunnel EnterError (Instant ⊕ Instant)).run.Exec T q w es x
        q' w' → Vain es ∧ ∃ e, x = .error e := by
    intro c _ e e' run
    rcases exec_ite.mp run with ⟨-, run⟩ | ⟨-, run⟩
    · obtain ⟨rfl, rfl, -⟩ := exec_throw.mp run
      exact ⟨List.forall_mem_nil _, _, rfl⟩
    · obtain ⟨rfl, rfl, -⟩ := exec_throw.mp run
      exact ⟨List.forall_mem_nil _, _, rfl⟩
  -- the payload is judged as `answer` judges it, branch by branch
  rcases exec_ite.mp run with ⟨refusal, run⟩ | ⟨other, run⟩
  · obtain ⟨vain, e, rfl⟩ := thrown run
    exact ⟨vain, .inr (.inr ⟨e, rfl, if_pos refusal⟩)⟩
  rw [if_neg other]
  rcases exec_ite.mp run with ⟨status, run⟩ | ⟨foreign, run⟩
  swap
  · obtain ⟨rfl, rfl, -⟩ := exec_return.mp run
    have none : parseStatus payload = none := if_pos (.inr foreign)
    rw [none]
    exact ⟨List.forall_mem_nil _, .inl ⟨_, rfl, rfl⟩⟩
  cases parsed : parseStatus payload with
  | none =>
    rw [parsed] at run
    obtain ⟨rfl, rfl, -⟩ := exec_return.mp run
    exact ⟨List.forall_mem_nil _, .inl ⟨_, rfl, rfl⟩⟩
  | some status =>
    rw [parsed] at run
    simp only
    rcases exec_ite.mp run with ⟨opened, run⟩ | ⟨closed, run⟩
    · rw [if_pos opened]
      rcases exec_seq.mp run with ⟨_, -, anchored⟩ | ⟨_, _, t, _, _, rfl, anchored, rest⟩
      · obtain ⟨-, _, fails⟩ := anchorFromElapsed_exec anchored
        cases fails
      obtain ⟨vain, -⟩ := anchorFromElapsed_exec anchored
      obtain ⟨rfl, rfl, -⟩ := exec_return.mp rest
      rw [List.append_nil]
      exact ⟨vain, .inr (.inl ⟨t, rfl, rfl⟩)⟩
    rw [if_neg closed]
    rcases exec_ite.mp run with ⟨error, run⟩ | ⟨fine, run⟩
    · obtain ⟨vain, e, rfl⟩ := thrown run
      exact ⟨vain, .inr (.inr ⟨e, rfl, if_pos error⟩)⟩
    · rw [if_neg fine]
      obtain ⟨rfl, rfl, -⟩ := exec_return.mp run
      exact ⟨List.forall_mem_nil _, .inl ⟨_, rfl, rfl⟩⟩

/-- What was heard, and how the wait for an ENTER goes on: an open tunnel ends it with an
    anchor, and nothing else does. -/
inductive Heard : List (Event reportLink) → Except (Halt EnterError) (Instant ⊕ Instant) → Prop where
  | waits {es : List (Event reportLink)} {n : Instant} : answers es = [] → Heard es (.ok (.inl n))
  | opened {es : List (Event reportLink)} {t : Instant} : answers es = [.opened] →
      Heard es (.ok (.inr t))
  | halted {es : List (Event reportLink)} {e : Halt EnterError} : ¬ Opens es → Heard es (.error e)

theorem not_opens (silent : answers es = []) : ¬ Opens es := by
  unfold Opens
  rw [silent]
  exact nofun

theorem enterRound_exec {giveUp nextPoll : Instant}
    {x : Except (Halt EnterError) (Instant ⊕ Instant)}
    (run : (enterRound fuel opts giveUp nextPoll).run.Exec T q w es x q' w') : Heard es x := by
  unfold enterRound at run
  rcases exec_seq.mp run with ⟨_, -, clock⟩ | ⟨_, _, t, _, _, rfl, clock, timed⟩
  · obtain ⟨_, fails, -⟩ := exec_now.mp clock
    cases fails
  clear run
  obtain ⟨_, same, rfl, rfl, -⟩ := exec_now.mp clock
  obtain rfl := Except.ok.inj same
  rcases exec_ite.mp timed with ⟨-, late⟩ | ⟨-, run⟩
  · obtain ⟨rfl, rfl, -⟩ := exec_throw.mp late
    exact .halted (not_opens rfl)
  clear timed
  rcases exec_seq.mp run with ⟨_, rfl, polled⟩ | ⟨es₁, _, next, _, _, rfl, polled, waited⟩
  · obtain ⟨_, polled, -⟩ := exec_adapt polled
    exact .halted (not_opens (poll_exec polled).answers)
  clear run
  obtain ⟨_, polled, -⟩ := exec_adapt polled
  -- what was sent up to here is no answer, so only the report read can be one
  have before : ∀ es, answers ([⟨.now, t⟩] ++ (es₁ ++ es)) = answers es := by
    intro es
    rw [answers_append, answers_append, (poll_exec polled).answers]
    rfl
  rcases exec_seq.mp waited with ⟨_, rfl, read⟩ | ⟨es₂, es₃, out, _, _, rfl, read, told⟩
  · obtain ⟨y, read, same⟩ := exec_adapt read
    obtain ⟨-, ⟨out, rfl, -⟩ | ⟨-, vain⟩⟩ := readControl_exec read
    · cases same
    · exact .halted (not_opens ((before _).trans vain.answers))
  obtain ⟨y, read, same⟩ := exec_adapt read
  obtain ⟨-, ⟨out', rfl, known⟩ | ⟨other, -⟩⟩ := readControl_exec read
  swap
  · cases y with
    | ok out' => exact absurd rfl (other _)
    | error e => cases same
  obtain rfl : out = out' := Except.ok.inj same
  cases out with
  | none =>
    obtain ⟨rfl, rfl, -⟩ := exec_return.mp told
    rw [List.append_nil]
    exact .waits ((before _).trans (Vain.answers known.2))
  | some payload =>
    obtain ⟨ps, last, empty⟩ := known
    obtain ⟨vain, outcome⟩ := hear_exec told
    -- the reports before the last were empty
    have skipped : ps.filterMap answer = [] := List.filterMap_eq_nil_iff.mpr fun p mem => by
      rw [empty p mem]
      rfl
    have heard : answers ([⟨.now, t⟩] ++ (es₁ ++ (es₂ ++ es₃))) = (answer payload).toList := by
      rw [before, answers_append, vain.answers, List.append_nil, answers, last,
        List.filterMap_append, skipped, List.nil_append]
      cases judged : answer payload <;> simp [List.filterMap, judged]
    rcases outcome with ⟨n, rfl, silent⟩ | ⟨t', rfl, opened⟩ | ⟨e, rfl, refused⟩
    · rw [silent] at heard
      exact .waits heard
    · rw [opened] at heard
      exact .opened heard
    · rw [refused] at heard
      refine .halted fun opens => ?_
      unfold Opens at opens
      rw [heard] at opens
      cases opens

theorem waiting_exec {giveUp : Instant} {nextPoll : Instant} {x : Except (Halt EnterError) Instant}
    (run : (loop (enterRound fuel opts giveUp) fuel nextPoll).run.Exec T q w es x q' w') :
    (∃ t, x = .ok t) ∧ Opens es ∨ (∃ err, x = .error err) ∧ ¬ Opens es := by
  have ends := exec_loop (fun es _ _ => answers es = []) (fun before pass => ?_) rfl run
  · cases ends with
    | spent before => exact .inr ⟨⟨_, rfl⟩, not_opens before⟩
    | halt before pass =>
      cases enterRound_exec pass with
      | halted shut =>
        refine .inr ⟨⟨_, rfl⟩, fun opens => shut ?_⟩
        unfold Opens at opens
        rwa [answers_append, before, List.nil_append] at opens
    | result before pass =>
      cases enterRound_exec pass with
      | opened heard =>
        refine .inl ⟨⟨_, rfl⟩, ?_⟩
        unfold Opens
        rw [answers_append, before, heard]
        rfl
  · cases enterRound_exec pass with
    | waits heard => rw [answers_append, before, heard]; rfl

/-- An ENTER is written first, and no other. It succeeds if the first answer to it is that the
    tunnel is open, and only then. -/
theorem enter_exec {force : Bool} {x : Except (Halt EnterError) Instant}
    (run : (enter fuel force opts).run.Exec T q w es x q' w') :
    ∃ e after, es = e :: after ∧ writes opEnter e = true ∧ writes opExit e = false ∧
      (∀ e' ∈ after, writes opEnter e' = false ∧ writes opExit e' = false) ∧
      q'.passthrough = q.passthrough ∧
      ((∃ t, x = .ok t) ∧ Opens after ∨ (∃ err, x = .error err) ∧ ¬ Opens after) := by
  unfold enter at run
  rcases exec_seq.mp run with ⟨err, rfl, asked⟩ | ⟨_, after, _, q₁, _, rfl, asked, waited⟩
  · obtain ⟨_, asked, -⟩ := exec_adapt asked
    obtain ⟨out, -, rfl, rfl⟩ := writeControl_exec asked
    exact ⟨_, [], rfl, commands_controlReport, commands_controlReport, List.forall_mem_nil _, rfl,
      .inr ⟨⟨err, rfl⟩, nofun⟩⟩
  obtain ⟨_, asked, -⟩ := exec_adapt asked
  obtain ⟨out, -, rfl, rfl⟩ := writeControl_exec asked
  have spared : ∀ {code : Byte}, opStatus ≠ code →
      (∀ e ∈ after, writes code e = false) ∧ q'.passthrough = q.passthrough := fun other =>
    Spares.exec (Keeps.seq spares_now fun _ => Keeps.seq spares_now fun _ =>
      Keeps.loop (fun _ => spares_enterRound other) fuel _) waited
  refine ⟨_, after, rfl, commands_controlReport, commands_controlReport, fun e' mem =>
    ⟨(spared (by decide)).1 e' mem, (spared (by decide)).1 e' mem⟩, (spared (by decide : _ ≠ opEnter)).2,
    ?_⟩
  clear spared run
  rcases exec_seq.mp waited with ⟨_, -, clock⟩ | ⟨_, _, _, _, _, rfl, clock, rest⟩
  · obtain ⟨_, fails, -⟩ := exec_now.mp clock
    cases fails
  obtain ⟨_, -, rfl, -⟩ := exec_now.mp clock
  rcases exec_seq.mp rest with ⟨_, -, clock⟩ | ⟨_, es, _, _, _, rfl, clock, looped⟩
  · obtain ⟨_, fails, -⟩ := exec_now.mp clock
    cases fails
  obtain ⟨_, -, rfl, -⟩ := exec_now.mp clock
  -- two readings of the clock are no answers
  change (∃ t, x = .ok t) ∧ Opens es ∨ (∃ err, x = .error err) ∧ ¬ Opens es
  exact waiting_exec looped

/-! ### The handshake -/

def afterEnter : List (Event reportLink) → Option (List (Event reportLink))
  | [] => none
  | e :: es =>
    match afterEnter es with
    | some after => some after
    | none => if writes opEnter e then some es else none

theorem afterEnter_eq_none : afterEnter es = none ↔ ∀ e ∈ es, writes opEnter e = false := by
  induction es with
  | nil => exact ⟨fun _ => List.forall_mem_nil _, fun _ => rfl⟩
  | cons e es ih =>
    rw [List.forall_mem_cons, ← ih, afterEnter]
    cases afterEnter es with
    | some _ => simp
    | none => cases writes opEnter e <;> simp

theorem afterEnter_append : afterEnter (es ++ es') =
    match afterEnter es' with
    | some after => some after
    | none => (afterEnter es).map (· ++ es') := by
  induction es with
  | nil => cases h : afterEnter es' <;> simp [afterEnter, h]
  | cons e es ih =>
    rw [List.cons_append]
    simp only [afterEnter]
    rw [ih]
    cases afterEnter es' with
    | some _ => rfl
    | none =>
      cases afterEnter es with
      | some _ => rfl
      | none => cases writes opEnter e <;> rfl

/-- How far it got: the tunnel was not asked for, or the first answer to the last ENTER was
    that it is open, or it was not. -/
inductive Shaken : List (Event reportLink) → Bool → Prop where
  | unasked {es : List (Event reportLink)} {b : Bool} : afterEnter es = none → Shaken es b
  | opened {es after : List (Event reportLink)} : afterEnter es = some after → Opens after →
      Shaken es true
  | shut {es after : List (Event reportLink)} : afterEnter es = some after → ¬ Opens after →
      Shaken es false

theorem Shaken.after {b : Bool} (none : ∀ e ∈ es, writes opEnter e = false) (h : Shaken es' b) :
    Shaken (es ++ es') b := by
  have before := afterEnter_eq_none.mpr none
  cases h with
  | unasked later =>
    refine .unasked ?_
    rw [afterEnter_append, later, before]
    rfl
  | opened last opens => exact .opened (by rw [afterEnter_append, last]) opens
  | shut last closed => exact .shut (by rw [afterEnter_append, last]) closed

theorem Shaken.before (h : Shaken es true) (none : ∀ e ∈ es', writes opEnter e = false) :
    Shaken (es ++ es') true := by
  have later := afterEnter_eq_none.mpr none
  cases h with
  | unasked before =>
    refine .unasked ?_
    rw [afterEnter_append, later, before]
    rfl
  | @opened after last opens =>
    have longer : afterEnter (es ++ es') = some (after ++ es') := by
      rw [afterEnter_append, later, last]
      rfl
    exact .opened longer opens.append

theorem enter_shaken {force : Bool} {x : Except (Halt EnterError) Instant}
    (run : (enter fuel force opts).run.Exec T q w es x q' w') :
    (∀ e ∈ es, writes opExit e = false) ∧ q'.passthrough = q.passthrough ∧
      (∃ after, afterEnter es = some after) ∧
      ((∃ t, x = .ok t) ∧ Shaken es true ∨ (∃ err, x = .error err) ∧ Shaken es false) := by
  obtain ⟨e, after, rfl, enters, other, later, same, outcome⟩ := enter_exec run
  have last : afterEnter (e :: after) = some after := by
    rw [afterEnter, afterEnter_eq_none.mpr fun e' mem => (later e' mem).1, if_pos enters]
  refine ⟨List.forall_mem_cons.mpr ⟨other, fun e' mem => (later e' mem).2⟩, same, ⟨after, last⟩, ?_⟩
  rcases outcome with ⟨done, opens⟩ | ⟨failed, closed⟩
  · exact .inl ⟨done, .opened last opens⟩
  · exact .inr ⟨failed, .shut last closed⟩

theorem Shaken.later {b : Bool} (h : Shaken es' b) (asked : ∃ after, afterEnter es' = some after) :
    Shaken (es ++ es') b := by
  cases h with
  | unasked none =>
    obtain ⟨_, last⟩ := asked
    rw [none] at last
    cases last
  | opened last opens => exact .opened (by rw [afterEnter_append, last]) opens
  | shut last closed => exact .shut (by rw [afterEnter_append, last]) closed

theorem enterOrForce_exec {x : Except (Halt Chain) Instant}
    (run : (enterOrForce fuel opts).run.Exec T q w es x q' w') :
    (∀ e ∈ es, writes opExit e = false) ∧ q'.passthrough = q.passthrough ∧
      ((∃ t, x = .ok t) ∧ Shaken es true ∨ (∃ err, x = .error err) ∧ Shaken es false) := by
  unfold enterOrForce at run
  rcases exec_seq.mp run with ⟨err, rfl, first⟩ | ⟨es₁, es₂, out, q₁, _, rfl, first, rest⟩
  · obtain ⟨y, first, same⟩ := exec_attempt.mp first
    obtain ⟨spared, kept, -, ⟨⟨_, rfl⟩, -⟩ | ⟨-, shut⟩⟩ := enter_shaken first
    · cases same
    · exact ⟨spared, kept, .inr ⟨⟨err, rfl⟩, shut⟩⟩
  obtain ⟨y, first, same⟩ := exec_attempt.mp first
  obtain ⟨spared, kept, -, outcome⟩ := enter_shaken first
  rcases outcome with ⟨⟨t, rfl⟩, opened⟩ | ⟨⟨err, rfl⟩, shut⟩
  · obtain rfl := Except.ok.inj same
    obtain ⟨rfl, rfl, rfl, -⟩ := exec_return.mp rest
    rw [List.append_nil]
    exact ⟨spared, kept, .inl ⟨⟨t, rfl⟩, opened⟩⟩
  cases err with
  | spent => cases same
  | failed err =>
    obtain rfl := Except.ok.inj same
    cases err with
    | other e =>
      obtain ⟨rfl, rfl, rfl, -⟩ := exec_throw.mp rest
      rw [List.append_nil]
      exact ⟨spared, kept, .inr ⟨⟨_, rfl⟩, shut⟩⟩
    | noAck =>
      -- the forced ENTER is the last one
      obtain ⟨y, second, rfl⟩ := exec_adapt rest
      obtain ⟨spared', kept', asked, outcome⟩ := enter_shaken second
      refine ⟨List.forall_mem_append.mpr ⟨spared, spared'⟩, kept'.trans kept, ?_⟩
      rcases outcome with ⟨⟨t, rfl⟩, opened⟩ | ⟨⟨err, rfl⟩, shut⟩
      · exact .inl ⟨⟨t, rfl⟩, opened.later asked⟩
      · exact .inr ⟨⟨_, rfl⟩, shut.later asked⟩

theorem takeOver_exec {initial : BridgeStatus} {x : Except (Halt Chain) Instant}
    (run : (takeOver fuel opts initial).run.Exec T q w es x q' w') :
    (∀ e ∈ es, writes opExit e = false) ∧ q'.passthrough = q.passthrough ∧
      ((∃ t, x = .ok t) ∧ Shaken es true ∨ (∃ err, x = .error err) ∧ Shaken es false) := by
  rcases exec_ite.mp run with ⟨-, adopted⟩ | ⟨-, asked⟩
  · obtain ⟨spared, -⟩ := Spares.exec spares_anchorFromElapsed adopted
    obtain ⟨spared', kept⟩ := Spares.exec spares_anchorFromElapsed adopted
    exact ⟨spared, kept, .inl ⟨(anchorFromElapsed_exec adopted).2,
      .unasked (afterEnter_eq_none.mpr spared')⟩⟩
  · exact enterOrForce_exec asked

theorem spares_askStatus (other : opStatus ≠ code) : Spares T code (askStatus fuel opts) :=
  Keeps.seq spares_now fun _ => Keeps.seq (spares_writeControl other) fun _ => spares_readControl

/-- A handshake never gives the tunnel back, and takes it to be open if it was seen to open. -/
theorem handshake_exec {x : Except (Halt Chain) Unit} (closed : q.passthrough = false)
    (run : (handshake fuel opts).run.Exec T q w es x q' w') :
    (∀ e ∈ es, writes opExit e = false) ∧ Shaken es q'.passthrough ∧
      (q'.passthrough = false → ∃ err, x = .error err) := by
  have spared {A : Type} {p : Tunnel Chain A} {q q' : Qmk} {w w' : W}
      {es : List (Event reportLink)} {x : Except (Halt Chain) A}
      (spares : ∀ {code : Byte}, opStatus ≠ code → Spares T code p)
      (run : p.run.Exec T q w es x q' w') :
      (∀ e ∈ es, writes opEnter e = false) ∧ (∀ e ∈ es, writes opExit e = false) ∧
        q'.passthrough = q.passthrough :=
    ⟨(Spares.exec (spares (by decide)) run).1, Spares.exec (spares (by decide)) run⟩
  unfold handshake at run
  rcases exec_seq.mp run with ⟨err, rfl, asked⟩ | ⟨es₁, _, reply, q₁, _, rfl, asked, rest⟩
  · obtain ⟨unasked, spared, -⟩ := spared spares_askStatus asked
    exact ⟨spared, .unasked (afterEnter_eq_none.mpr unasked), fun _ => ⟨err, rfl⟩⟩
  obtain ⟨unasked, quiet, same⟩ := spared spares_askStatus asked
  -- without a STATUS that parses nothing is asked of the keyboard
  cases status : reply.bind parseStatus with
  | none =>
    rw [status] at rest
    obtain ⟨rfl, rfl, rfl, -⟩ := exec_throw.mp rest
    rw [List.append_nil]
    exact ⟨quiet, .unasked (afterEnter_eq_none.mpr unasked), fun _ => ⟨_, rfl⟩⟩
  | some initial =>
    rw [status] at rest
    rcases exec_seq.mp rest with ⟨err, rfl, taken⟩ | ⟨es₂, _, t, q₂, _, rfl, taken, rest⟩
    · obtain ⟨quiet', same', ⟨⟨_, fails⟩, -⟩ | ⟨-, shut⟩⟩ := takeOver_exec taken
      · cases fails
      refine ⟨List.forall_mem_append.mpr ⟨quiet, quiet'⟩, ?_, fun _ => ⟨err, rfl⟩⟩
      rw [same', same, closed]
      exact shut.after unasked
    obtain ⟨quiet', -, ⟨-, opened⟩ | ⟨⟨_, fails⟩, -⟩⟩ := takeOver_exec taken
    swap
    · cases fails
    -- the flag goes up only after the keyboard was seen to open
    rcases exec_seq.mp rest with ⟨_, -, set⟩ | ⟨_, es₃, _, q₃, _, rfl, set, probed⟩
    · cases (exec_modifyGet.mp set).1
    obtain ⟨-, rfl, rfl, -⟩ := exec_modifyGet.mp set
    obtain ⟨unasked', quiet₃, on⟩ := spared (fun _ => spares_probeUntilAlive) probed
    have believed : q'.passthrough = true := on
    refine ⟨List.forall_mem_append.mpr ⟨quiet, List.forall_mem_append.mpr ⟨quiet', quiet₃⟩⟩, ?_, ?_⟩
    · rw [believed]
      exact (opened.before unasked').after unasked
    · rw [believed]
      exact nofun

theorem spares_attempted {p : Tunnel Chain A} (h : Spares T code p) :
    Spares T code (do let _ ← attempt p : Tunnel Empty Unit) :=
  Keeps.seq h.attempt fun _ => Keeps.pure _

theorem spares_launchApp : Spares T code (launchApp fuel) :=
  Keeps.seq spares_sendFrame.attempt fun _ => Keeps.seq spares_now fun _ =>
    spares_attempted spares_recvFrame

theorem spares_useAll (uses : List Use) : Spares T code (useAll fuel uses) := by
  induction uses with
  | nil => exact Keeps.pure _
  | cons use rest ih =>
    refine Keeps.seq (Keeps.attempt ?_) fun _ => ih
    cases use with
    | sendFrame frame => exact spares_sendFrame
    | recvFrame deadline => exact Keeps.seq spares_recvFrame fun _ => Keeps.pure _

theorem handBack_exec {x : Except (Halt Empty) Unit}
    (run : (handBack fuel).run.Exec T q w es x q' w') :
    (∀ e ∈ es, writes opEnter e = false) ∧ ∃ e ∈ es, writes opExit e = true := by
  constructor
  · exact (Spares.exec (Keeps.seq (spares_writeControl (by decide)).attempt fun _ =>
      Keeps.seq spares_now fun _ => spares_attempted spares_readControl) run).1
  · rcases exec_seq.mp run with ⟨_, -, given⟩ | ⟨_, _, _, _, _, rfl, given, -⟩
    · obtain ⟨_, given, -⟩ := exec_attempt.mp given
      obtain ⟨_, -, rfl, -⟩ := writeControl_exec given
      exact ⟨_, List.mem_singleton_self _, commands_controlReport⟩
    · obtain ⟨_, given, -⟩ := exec_attempt.mp given
      obtain ⟨_, -, rfl, -⟩ := writeControl_exec given
      exact ⟨_, List.mem_append_left _ (List.mem_singleton_self _), commands_controlReport⟩

/-- Dropping gives the tunnel back if it is taken to be open, and else does nothing. -/
theorem drop_exec (run : (drop fuel).run.Exec T q w es (.ok ()) q' w') :
    (q.passthrough = true ∧ (∀ e ∈ es, writes opEnter e = false) ∧ ∃ e ∈ es, writes opExit e = true) ∨
      q.passthrough = false ∧ es = [] := by
  unfold drop at run
  rcases exec_seq.mp run with ⟨_, fails, -⟩ | ⟨_, _, t, _, _, rfl, got, rest⟩
  · cases fails
  obtain ⟨_, same, got⟩ := exec_lift.mp got
  obtain rfl := Except.ok.inj same
  obtain ⟨rfl, rfl, rfl, rfl⟩ := exec_get.mp got
  rcases exec_ite.mp rest with ⟨closed, rest⟩ | ⟨opened, rest⟩
  · obtain ⟨rfl, -⟩ := exec_return.mp rest
    exact .inr ⟨by simpa using closed, rfl⟩
  refine .inl ⟨by simpa using opened, ?_⟩
  rcases exec_ite.mp rest with ⟨-, rest⟩ | ⟨-, rest⟩
  · rcases exec_seq.mp rest with ⟨_, fails, -⟩ | ⟨_, _, _, _, _, rfl, launched, rest⟩
    · cases fails
    obtain ⟨spared, -⟩ := Spares.exec spares_launchApp launched
    obtain ⟨spared', e, mem, exits⟩ := handBack_exec rest
    rw [List.nil_append]
    exact ⟨List.forall_mem_append.mpr ⟨spared, spared'⟩, e, List.mem_append_right _ mem, exits⟩
  · exact handBack_exec rest

/-! ### Release -/

/-- No answer to the ENTER that these events follow refused it, before the next. -/
def Unrefused (after : List (Event reportLink)) : Prop :=
  .refused ∉ answers (after.takeWhile fun e => !writes opEnter e)

/-- After every ENTER that was not refused there is an EXIT. -/
def Released (es : List (Event reportLink)) : Prop :=
  ∀ before e after, es = before ++ e :: after → writes opEnter e = true → Unrefused after →
    ∃ e' ∈ after, writes opExit e' = true

/-- The keyboard refused every ENTER before the next, or the first that it answered to the last
    one is that the tunnel is open. -/
def Resolved (es : List (Event reportLink)) : Prop :=
  (∀ before e after, es = before ++ e :: after → writes opEnter e = true → ¬ Unrefused after) ∨
    ∃ after, afterEnter es = some after ∧ Opens after

/-- What was asked before is undone by an EXIT after it. -/
theorem Released.of_exit (spared : ∀ e ∈ es', writes opEnter e = false)
    (exits : ∃ e ∈ es', writes opExit e = true) : Released (es ++ es') := by
  intro before e after split enters _
  obtain ⟨e', mem, exit⟩ := exits
  rcases List.append_eq_append_iff.mp split with ⟨mid, -, tail⟩ | ⟨mid, -, tail⟩
  · have late : e ∈ es' := tail ▸ List.mem_append_right _ List.mem_cons_self
    rw [spared e late] at enters
    cases enters
  · cases mid with
    | nil =>
      have late : e ∈ es' := by
        rw [List.nil_append] at tail
        exact tail ▸ List.mem_cons_self
      rw [spared e late] at enters
      cases enters
    | cons first mid =>
      obtain ⟨-, rfl⟩ := List.cons.inj tail
      exact ⟨e', List.mem_append_right _ mem, exit⟩

def Aftermath (q : Qmk) (es : List (Event reportLink)) : Prop :=
  (q.passthrough = true ∧ (∀ e ∈ es, writes opEnter e = false) ∧ ∃ e ∈ es, writes opExit e = true) ∨
    q.passthrough = false ∧ es = []

theorem dropped_exec {opened out : Except Chain Unit}
    (run : (do drop fuel; return opened : Tunnel Empty (Except Chain Unit)).run.Exec T q w es
      (.ok out) q' w') : Aftermath q es := by
  rcases exec_seq.mp run with ⟨_, fails, -⟩ | ⟨_, _, _, _, _, rfl, dropped, rest⟩
  · cases fails
  obtain ⟨rfl, -⟩ := exec_return.mp rest
  rw [List.append_nil]
  exact drop_exec dropped

theorem used_exec {uses : List Use} {opened out : Except Chain Unit}
    (failed : q.passthrough = false → opened.isOk = false)
    (run : (do
      if opened.isOk then useAll fuel uses
      drop fuel
      return opened : Tunnel Empty (Except Chain Unit)).run.Exec T q w es (.ok out) q' w') :
    Aftermath q es := by
  rcases exec_ite.mp run with ⟨ok, run⟩ | ⟨-, run⟩
  swap
  · exact dropped_exec run
  rcases exec_seq.mp run with ⟨_, fails, -⟩ | ⟨_, _, _, q₁, _, rfl, used, rest⟩
  · cases fails
  obtain ⟨spared, same⟩ := Spares.exec (spares_useAll uses) used
  rcases dropped_exec rest with ⟨on, spared', e, mem, exits⟩ | ⟨off, -⟩
  · exact .inl ⟨same ▸ on, List.forall_mem_append.mpr ⟨spared, spared'⟩, e,
      List.mem_append_right _ mem, exits⟩
  · rw [failed (same ▸ off)] at ok
    cases ok

/-- However a construction goes, what is done with the transport and what becomes of it: the
    tunnel is given back exactly if the keyboard has answered. -/
theorem lifetime_releases_iff {uses : List Use} {out : Except Chain Unit}
    (run : (lifetime fuel opts uses).run.Exec T Qmk.new w es (.ok out) q' w') :
    Released es ↔ Resolved es := by
  unfold lifetime at run
  rcases exec_seq.mp run with ⟨_, fails, -⟩ | ⟨es₁, es₂, opened, q₁, w₁, rfl, shook, rest⟩
  · cases fails
  obtain ⟨y, shook, same⟩ := exec_attempt.mp shook
  obtain ⟨quiet, shaken, failed⟩ := handshake_exec rfl shook
  -- what is dropped is what the handshake left: a failure left the flag down
  have aftermath : Aftermath q₁ es₂ := by
    refine used_exec (fun off => ?_) rest
    obtain ⟨err, rfl⟩ := failed off
    cases err with
    | spent => cases same
    | failed e =>
      obtain rfl := Except.ok.inj same
      rfl
  rcases aftermath with ⟨on, spared, exits⟩ | ⟨off, rfl⟩
  -- with the flag up the drop writes EXIT, whatever the uses did
  · rw [on] at shaken
    refine ⟨fun _ => ?_, fun _ => .of_exit spared exits⟩
    cases shaken.before spared with
    | unasked none =>
      refine .inl fun before e after split enters => ?_
      have never := afterEnter_eq_none.mp none e (split ▸ List.mem_append_right _ List.mem_cons_self)
      rw [never] at enters
      cases enters
    | opened last opens => exact .inr ⟨_, last, opens⟩
  -- with the flag down it writes nothing, so only a keyboard that never opened is shut
  · rw [off] at shaken
    rw [List.append_nil]
    constructor
    · intro released
      refine .inl fun before e after split enters unrefused => ?_
      obtain ⟨e', mem, exits⟩ := released before e after split enters unrefused
      have never := quiet e' (split ▸ List.mem_append_right _ (List.mem_cons_of_mem _ mem))
      rw [never] at exits
      cases exits
    · rintro (refused | ⟨after, last, opens⟩)
      · exact fun before e after split enters unrefused =>
          absurd unrefused (refused before e after split enters)
      · cases shaken with
        | unasked none =>
          rw [none] at last
          cases last
        | shut last' closed =>
          obtain rfl := Option.some.inj (last.symm.trans last')
          exact absurd opens closed

theorem not_released (asked : es.any (writes opEnter) = true) (kept : es.any (writes opExit) = false)
    (unrefused : .refused ∉ answers es) : ¬ Released es := by
  intro released
  obtain ⟨e, mem, enters⟩ := List.any_eq_true.mp asked
  obtain ⟨before, after, rfl⟩ := List.append_of_mem mem
  have silent : Unrefused after := by
    intro refused
    refine unrefused ?_
    rw [answers_append]
    refine List.mem_append_right _ ?_
    change _ ∈ answers ([e] ++ after)
    rw [answers_append, ← List.takeWhile_append_dropWhile (p := fun e => !writes opEnter e) (l := after),
      answers_append]
    exact List.mem_append_right _ (List.mem_append_left _ refused)
  obtain ⟨e', mem', exits⟩ := released before e after rfl enters silent
  have never := List.any_eq_false.mp kept e' (List.mem_append_right _ (List.mem_cons_of_mem _ mem'))
  exact never exits

def statusReport (state : Byte) (elapsedMs : Word) (lastError : Byte) : List Byte :=
  controlReport opStatus ([obbOk, state] ++ put32 elapsedMs ++ [0, lastError, 0, 0, 0, 0])

/-- A keyboard that opens the tunnel to a module that stays silent. -/
def opening : Script := ⟨0, [.ok (statusReport 0 0 0), .ok (statusReport stSettling 0 0)]⟩

/-- A keyboard whose answer to ENTER cannot be read. -/
def unreadable : Script := ⟨0, [.ok (statusReport 0 0 0), .error ["QMK HID read"]]⟩

def finishes (script : Script) (test : List (Event reportLink) → Bool) : Bool :=
  let out := (lifetime 20 .default []).run.run scripted Qmk.new script
  out.2.1.isOk && test out.1

theorem exec_of_finishes {script : Script} {test : List (Event reportLink) → Bool}
    (finished : finishes script test = true) : ∃ es out q' script',
      (lifetime 20 .default []).run.Exec keyboard Qmk.new script es (.ok out) q' script' ∧
        test es = true := by
  unfold finishes at finished
  have run := exec_run (E := keyboard) (h := scripted) (fun _ _ => rfl) (lifetime 20 .default []).run
    Qmk.new script
  generalize (lifetime 20 .default []).run.run scripted Qmk.new script = out at finished run
  obtain ⟨es, out, q', script'⟩ := out
  obtain ⟨ended, tested⟩ := Bool.and_eq_true_iff.mp finished
  cases out with
  | ok out => exact ⟨es, out, q', script', run, tested⟩
  | error e => cases ended

/-- The probe fails, and the tunnel is given back. -/
theorem lifetime_releases_iff_opening : ∃ es out q' script',
    (lifetime 20 .default []).run.Exec keyboard Qmk.new opening es (.ok out) q' script' ∧
      es.any (writes opEnter) = true ∧ es.any (writes opExit) = true ∧ (Released es ↔ Resolved es) := by
  obtain ⟨es, out, q', script', run, tested⟩ := exec_of_finishes
    (by decide +kernel : finishes opening
      (fun es => es.any (writes opEnter) && es.any (writes opExit)) = true)
  obtain ⟨asked, given⟩ := Bool.and_eq_true_iff.mp tested
  exact ⟨es, out, q', script', run, asked, given, lifetime_releases_iff run⟩

def Writable (es : List (Event reportLink)) : Prop :=
  ∀ report out, (⟨.write report, out⟩ : Event reportLink) ∈ es → out = .ok ()

theorem keyboard_writable {p : Semantics.Program reportLink Qmk A} {a : A} {script script' : Script}
    (run : p.Exec keyboard q script es a q' script') : Writable es := by
  induction run with
  | done => exact fun _ _ mem => (List.not_mem_nil mem).elim
  | load _ ih => exact ih
  | store _ ih => exact ih
  | call step _ ih =>
    intro report out mem
    rcases List.mem_cons.mp mem with same | later
    · cases same
      exact congrArg Prod.fst step
    · exact ih report out later

/-- The tunnel is never given back to a keyboard whose answer cannot be read. -/
theorem lifetime_unreleased : ∃ es out q' script',
    (lifetime 20 .default []).run.Exec keyboard Qmk.new unreadable es (.ok out) q' script' ∧
      Writable es ∧ ¬ Released es := by
  obtain ⟨es, out, q', script', run, tested⟩ := exec_of_finishes
    (by decide +kernel : finishes unreadable
      (fun es => es.any (writes opEnter) && !es.any (writes opExit) &&
        decide (.refused ∉ answers es)) = true)
  simp only [Bool.and_eq_true, Bool.not_eq_true', decide_eq_true_eq] at tested
  obtain ⟨⟨asked, kept⟩, unrefused⟩ := tested
  exact ⟨es, out, q', script', run, keyboard_writable run, not_released asked kept unrefused⟩

end OpenBoot.Host.Tunnel
