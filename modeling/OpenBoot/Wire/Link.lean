import OpenBoot.Host.Calls
import OpenBoot.Semantics.Duplex
import OpenBoot.Wire.Duplicates

/-! The host's client and the core on one link, which delivers frames in order but may
lose, delay and damage them. -/

set_option autoImplicit false

namespace OpenBoot

open Semantics Program Host

/-- The device's end of the link. Once it has booted it no longer hears the host. -/
structure Board where
  core : Core
  world : World
  booted : Bool

/-- Bytes that fail the CRC check, or are too few for it to be made. -/
def Damaged (buf : List Byte) : Prop := ¬ Complete buf ∨ CrcFails buf

inductive Board.Serves (E : Environment port World) (D : Device) :
    Board → List Byte → Option (List Byte) → Board → Prop where
  | frame {c c' : Core} {w w' : World} {es : List (Event port)} {buf resp : List Byte}
      {act : Action} : (handleFrame D buf).Exec E c w es (resp, act) c' w' →
      Serves E D ⟨c, w, false⟩ buf (if resp = [] then none else some resp)
        ⟨c', w', decide (act = .reset)⟩
  | gone {c : Core} {w : World} {buf : List Byte} :
      Serves E D ⟨c, w, true⟩ buf none ⟨c, w, true⟩

def medium (E : Environment port World) (D : Device) : Medium Board (List Byte) where
  arrives sent arrived := arrived = sent ∨ Damaged arrived
  serves := Board.Serves E D

abbrev Link := Duplex Board (List Byte)

/-- The transport as the client finds it. An `xfer` is over when its verdict accepts a
    frame, or at its deadline. -/
def link (E : Environment port World) (D : Device) (direct : Bool) : Environment transport Link where
  step l op x l' :=
    match op, x with
    | .xfer req _, x => ∃ r, Duplex.Listens (medium E D) (verdict req) (l.send req.encode) r l' ∧
        x = match r with
          | some frame => .ok frame
          | none => .error .timeout
    | .holdsInBootloader, x => x = direct ∧ l' = l

/-- The host received the response to this attempt's own request. -/
def Completed : Event transport → Prop
  | ⟨.xfer req _, .ok frame⟩ => frame.isFrameError = false ∧ frame.isResponseTo req = true
  | _ => False

/-- Of the attempts at each command, at least one exchange was completed. -/
def Answered (es : List (Event transport)) : Prop :=
  ∀ e ∈ es, ∀ k, asked e = some k → ∃ e' ∈ es, asked e' = some k ∧ Completed e'

/-- What others were asked before is of no help to a command that was not answered. -/
theorem Answered.of_append {es es' : List (Event transport)} {K K' : Byte × List Byte → Prop}
    (h : Answered (es ++ es')) (first : ∀ e ∈ es, ∀ k, asked e = some k → K k)
    (second : ∀ e ∈ es', ∀ k, asked e = some k → K' k) (apart : ∀ k, K k → ¬ K' k) :
    Answered es' := by
  intro e mem k ask
  obtain ⟨e', mem', ask', completed⟩ := h e (List.mem_append_right _ mem) k ask
  rcases List.mem_append.mp mem' with early | late
  · exact absurd (second e mem k ask) (apart k (first e' early k ask'))
  · exact ⟨e', late, ask', completed⟩

instance : DecidablePred Completed
  | ⟨.xfer req _, .ok frame⟩ =>
    inferInstanceAs (Decidable (frame.isFrameError = false ∧ frame.isResponseTo req = true))
  | ⟨.xfer _ _, .error _⟩ => isFalse id
  | ⟨.holdsInBootloader, _⟩ => isFalse id

instance (es : List (Event transport)) : Decidable (Answered es) :=
  decidable_of_iff (∀ e ∈ es, ∀ k ∈ asked e, ∃ e' ∈ es, asked e' = some k ∧ Completed e') Iff.rfl

/-- A simulated link that loses the answers to some sequence numbers. -/
def lossy (D : Device) (lost : Byte → Bool) (direct : Bool) (l : Link) :
    (op : TransportOp) → op.Reply × Link
  | .xfer req _ =>
    if l.server.booted ∨ l.up ≠ [] ∨ l.down ≠ [] then (.error .timeout, l.send req.encode)
    else
      let out := Bench.carry D (handleFrame D req.encode) l.server.core l.server.world
      let l' : Link := ⟨⟨out.2.1, out.2.2, out.1.2 = .reset⟩, [], []⟩
      if lost req.seq then (.error .timeout, l')
      else
        match verdict req out.1.1 with
        | some frame => (.ok frame, l')
        | none => (.error .timeout, l')
  | .holdsInBootloader => (direct, l)

theorem lossy_sound (D : Device) (lost : Byte → Bool) (direct : Bool) (l : Link) (op : TransportOp) :
    (link (faultFree D (simulatedView D)) D direct).step l op (lossy D lost direct l op).1
      (lossy D lost direct l op).2 := by
  cases op with
  | holdsInBootloader => exact ⟨rfl, rfl⟩
  | xfer req timeoutMs =>
    unfold lossy
    split
    · exact ⟨none, .deadline, rfl⟩
    · next ready =>
      obtain ⟨⟨c, w, booted⟩, up, down⟩ := l
      obtain ⟨on, rfl, rfl⟩ : booted = false ∧ up = [] ∧ down = [] := by simpa using ready
      subst on
      obtain ⟨es, run⟩ : ∃ es, (handleFrame D req.encode).Exec (faultFree D (simulatedView D)) c w es
          (Bench.carry D (handleFrame D req.encode) c w).1
          (Bench.carry D (handleFrame D req.encode) c w).2.1
          (Bench.carry D (handleFrame D req.encode) c w).2.2 :=
        ⟨_, Program.exec_run (simulate_faultFree D) _ c w⟩
      simp only
      generalize Bench.carry D (handleFrame D req.encode) c w = out at run ⊢
      obtain ⟨⟨resp, act⟩, c', w'⟩ := out
      have served : Duplex.Moves (medium (faultFree D (simulatedView D)) D)
          ⟨⟨c, w, false⟩, [req.encode], []⟩ ⟨⟨c', w', decide (act = .reset)⟩, [],
            (if resp = [] then none else some resp).toList⟩ := .served (.inl rfl) (.frame run)
      -- the device has served the request, whether or not the host hears of it
      have unheard : Duplex.Listens (medium (faultFree D (simulatedView D)) D) (verdict req)
          ⟨⟨c, w, false⟩, [req.encode], []⟩ none ⟨⟨c', w', decide (act = .reset)⟩, [], []⟩ := by
        refine .moved served ?_
        split
        · exact .deadline
        · exact .moved .unheard .deadline
      split
      · exact ⟨none, unheard, rfl⟩
      cases accepted : verdict req resp with
      | none => exact ⟨none, unheard, rfl⟩
      | some frame =>
        refine ⟨some frame, .moved served ?_, rfl⟩
        split
        · next silent =>
          rw [silent] at accepted
          cases accepted
        · exact .heard (.inl rfl) accepted

variable {E : Environment port World} {D : Device} {direct : Bool} {cmd seq : Byte}
  {payload : Payload} {J Post : Core → World → Prop} {good : List Byte → Prop} {sure : Prop}
  {A B X Y : Type}

/-- How the core takes the attempts at one request. `J` holds throughout, `Post` from the
    first answer OK on, and if `sure` no other answer is given. -/
structure Performs (E : Environment port World) (D : Device) (cmd : Byte) (payload : List Byte)
    (J Post : Core → World → Prop) (good : List Byte → Prop) (sure : Prop) : Prop where
  request : IsRequest cmd
  serve : ∀ {c c' : Core} {w w' : World} {seq : Byte} {es : List (Event port)} {resp : List Byte}
    {act : Action}, J c w →
    (dispatch D cmd payload payload.length seq).Exec E c w es (resp, act) c' w' →
    J c' w' ∧ (Post c w → Post c' w') ∧ ∃ status rest,
      resp = finish (cmd ||| cmdRespBit) seq (status :: rest) ∧
      (status :: rest).length ≤ maxPayload ∧
      (status = ok → Post c' w' ∧ good (status :: rest)) ∧ (sure → status = ok)

def Sent (cmd : Byte) (payload : Payload) (seq : Byte) (j : Nat) (m : List Byte) : Prop :=
  m = (⟨cmd, seq + BitVec.ofNat 8 j, payload.val, payload.small⟩ : Frame).encode

def Reply (cmd : Byte) (seq : Byte) (sure : Prop) (j : Nat) (a : List Byte) : Prop :=
  ∃ g : Frame, Frame.decode a = .ok g ∧ (g.isFrameError = false → g.cmd = cmd ||| cmdRespBit ∧
    g.seq = seq + BitVec.ofNat 8 j ∧ ∃ status rest, g.payload = status :: rest ∧
      (sure → status = ok))

def Tells (Post : Core → World → Prop) (good : List Byte → Prop) (a : List Byte) (b : Board) : Prop :=
  ∀ (g : Frame) rest, Frame.decode a = .ok g → g.isFrameError = false → g.payload = ok :: rest →
    Post b.core b.world ∧ good g.payload

theorem damaged_undecodable {buf : List Byte} (damaged : Damaged buf) (f : Frame) :
    Frame.decode buf ≠ .ok f := by
  intro decoded
  obtain ⟨len, whole, -, body, -⟩ := Frame.decode_ok.mp decoded
  have fits := f.fits
  have size : frameLen buf = f.payload.length := len
  rcases damaged with cut | ⟨-, broken⟩
  · apply cut
    unfold Complete
    rw [size]
    exact ⟨fits, whole⟩
  · apply broken
    rw [size]
    exact body

theorem decode_finish (request : IsRequest cmd) (seq : Byte) {status : Byte} {rest : List Byte}
    (fits : (status :: rest).length ≤ maxPayload) :
    Frame.decode (finish (cmd ||| cmdRespBit) seq (status :: rest)) =
        .ok ⟨cmd ||| cmdRespBit, seq, status :: rest, fits⟩ ∧
      (⟨cmd ||| cmdRespBit, seq, status :: rest, fits⟩ : Frame).isFrameError = false := by
  constructor
  · have read := (finish_sealed (cmd ||| cmdRespBit) seq fits []).decode
      (f := ⟨cmd ||| cmdRespBit, seq, status :: rest, fits⟩)
    rwa [List.append_nil] at read
  · exact decide_eq_false request.response

theorem Performs.repeatable (performs : Performs E D cmd payload.val J Post good sure) (seq : Byte) :
    Duplex.Repeatable (medium E D) (fun b => J b.core b.world) (Tells Post good)
      (Sent cmd payload seq) (Reply cmd seq sure) where
  serve := by
    rintro j m m' b b' out start rfl arrives serves
    cases serves with
    | gone => exact ⟨start, fun _ told => told, nofun⟩
    | @frame c c' w w' es _ resp act run =>
      rcases arrives with rfl | damaged
      -- the request arrived whole
      · have sealed := handleFrame_encode D ⟨cmd, seq + BitVec.ofNat 8 j, payload.val,
          payload.property⟩ []
        rw [List.append_nil] at sealed
        rw [sealed] at run
        obtain ⟨kept, still, status, rest, rfl, fits, success, certain⟩ := performs.serve start run
        obtain ⟨decoded, no_error⟩ := decode_finish performs.request (seq + BitVec.ofNat 8 j) fits
        refine ⟨kept, fun a told g rest' at_g fine first =>
          ⟨still (told g rest' at_g fine first).1, (told g rest' at_g fine first).2⟩, ?_⟩
        rw [if_neg (finish_ne_nil _ _ _)]
        rintro a ⟨⟩
        refine ⟨⟨_, decoded, fun _ => ⟨rfl, rfl, status, rest, rfl, certain⟩⟩, ?_⟩
        intro g rest' at_g _ first
        obtain rfl := Except.ok.inj (decoded.symm.trans at_g)
        obtain ⟨rfl, rfl⟩ := List.cons.inj first
        exact success rfl
      -- what is left of it gets no answer, or the report of a frame error
      · have untouched : c' = c ∧ w' = w ∧ (resp = [] ∨
            resp = finish cmdFrameErr (m'.getD 1 0) [eCrc, 0]) := by
          rcases handleFrame_answers D m' with ⟨-, dropped⟩ | ⟨-, reported⟩ | ⟨complete, intact, -⟩
          · rw [dropped] at run
            cases run
            exact ⟨rfl, rfl, .inl rfl⟩
          · rw [reported] at run
            cases run
            exact ⟨rfl, rfl, .inr rfl⟩
          · rcases damaged with cut | broken
            · exact absurd complete cut
            · exact absurd broken intact
        obtain ⟨rfl, rfl, rfl | rfl⟩ := untouched
        · exact ⟨start, fun _ told => told, nofun⟩
        · refine ⟨start, fun _ told => told, ?_⟩
          rw [if_neg (finish_ne_nil _ _ _)]
          rintro a ⟨⟩
          have fits : [eCrc, 0].length ≤ maxPayload := by decide
          have read := (finish_sealed cmdFrameErr (m'.getD 1 0) fits []).decode
            (f := ⟨cmdFrameErr, m'.getD 1 0, [eCrc, 0], fits⟩)
          rw [List.append_nil] at read
          refine ⟨⟨_, read, fun fine => ?_⟩, fun g rest at_g fine _ => ?_⟩
          · exact absurd fine (by simp [Frame.isFrameError])
          · obtain rfl := Except.ok.inj (read.symm.trans at_g)
            exact absurd fine (by simp [Frame.isFrameError])

abbrev Retrying (cmd : Byte) (payload : Payload) (seq : Byte) (J Post : Core → World → Prop)
    (good : List Byte → Prop) (sure : Prop) : Nat → Link → Prop :=
  Duplex.Between (fun b => J b.core b.world) (Tells Post good) (Sent cmd payload seq)
    (Reply cmd seq sure)

variable {s s' : BootClient} {l l' : Link} {es : List (Event transport)} {n : Nat} {name : String}
  {timeoutMs : Nat} {policy : RetryPolicy}

theorem attempt_exec {x : Except ClientError Attempt}
    (performs : Performs E D cmd payload.val J Post good sure)
    (before : Retrying cmd payload seq J Post good sure n l) (small : n < 256)
    (at_seq : s.seq = seq + BitVec.ofNat 8 n)
    (run : (BootClient.attempt name cmd payload timeoutMs).run.Exec (link E D direct) s l es x s' l') :
    ∃ e, es = [e] ∧ asked e = some (cmd, payload.val) ∧
      s'.seq = seq + BitVec.ofNat 8 (n + 1) ∧
      ((∃ reason, x = .ok (.retry reason) ∧ Retrying cmd payload seq J Post good sure (n + 1) l' ∧
          ¬ Completed e) ∨
        (∃ resp, x = .ok (.done resp) ∧ l'.Quiet ∧ Post l'.server.core l'.server.world ∧ good resp) ∨
        ∃ err, x = .error err ∧ ¬ sure) := by
  obtain ⟨out, rfl, next, rfl, r, listens, answer⟩ := attempt_xfer run
  have new : Sent cmd payload seq n
      (⟨cmd, s.seq, payload.val, payload.property⟩ : Frame).encode := by
    rw [at_seq]
    rfl
  have next : s'.seq = seq + BitVec.ofNat 8 (n + 1) := by
    rw [next, at_seq, BitVec.ofNat_add, BitVec.add_assoc]
    rfl
  refine ⟨_, rfl, rfl, next, ?_⟩
  rcases before.attempt (performs.repeatable seq) new listens with
    ⟨rfl, after⟩ | ⟨a, a', frame, rfl, arrives, accepted, after, told, ⟨j, below, reply⟩, quiet⟩
  · subst answer
    exact .inl ⟨.timeout, rfl, after, id⟩
  subst answer
  obtain ⟨decoded, response⟩ := verdict_eq_some accepted
  -- what was decoded arrived as it was sent
  rcases arrives with rfl | damaged
  swap
  · exact absurd decoded (damaged_undecodable damaged frame)
  by_cases error : frame.isFrameError = true
  · refine .inl ⟨.frameError (describeStatus (frame.payload.getD 0 0) frame.payload[1]?),
      if_pos error, after, fun completed => ?_⟩
    rw [completed.1] at error
    cases error
  have fine : frame.isFrameError = false := Bool.eq_false_of_not_eq_true error
  have response := response fine
  -- sequence numbers of outstanding attempts differ, so this answers the last one
  have only : ∀ j, j < n + 1 → Reply cmd seq sure j a' → j = n := by
    rintro j below ⟨g, read, matched⟩
    obtain rfl := Except.ok.inj (read.symm.trans decoded)
    obtain ⟨-, at_j, -⟩ := matched fine
    have same := (of_decide_eq_true response).2
    simp only [at_j, at_seq] at same
    have offset := congrArg BitVec.toNat ((BitVec.add_right_inj seq).mp same)
    rw [BitVec.toNat_ofNat, BitVec.toNat_ofNat, Nat.mod_eq_of_lt (by omega),
      Nat.mod_eq_of_lt (by omega)] at offset
    exact offset
  obtain ⟨g, read, matched⟩ := reply
  obtain rfl := Except.ok.inj (read.symm.trans decoded)
  obtain ⟨-, -, status, rest, at_payload, certain⟩ := matched fine
  by_cases success : status = ok
  · subst success
    obtain ⟨post, good⟩ := told g rest decoded fine at_payload
    refine .inr (.inl ⟨g.payload, ?_, quiet only, post, good⟩)
    simp [BootClient.judge, fine, at_payload, DeviceError.fromPayload]
  · refine .inr (.inr ⟨.device name ⟨status, rest.head?⟩, ?_, fun sure => success (certain sure)⟩)
    simp [BootClient.judge, fine, at_payload, DeviceError.fromPayload, success]

/-- The attempts at one command, `n` of them made already. -/
theorem runLoop_exec {left : Nat} {last : Option RetryReason} {x : Except ClientError (List Byte)}
    (performs : Performs E D cmd payload.val J Post good sure)
    (before : Retrying cmd payload seq J Post good sure n l) (small : n + left ≤ 256)
    (at_seq : s.seq = seq + BitVec.ofNat 8 n)
    (run : (BootClient.runLoop name cmd payload timeoutMs policy left last).run.Exec (link E D direct)
      s l es x s' l') :
    (∀ e ∈ es, asked e = some (cmd, payload.val)) ∧ (0 < left → es ≠ []) ∧
      ((∃ resp, x = .ok resp ∧ l'.Quiet ∧ Post l'.server.core l'.server.world ∧ good resp) ∨
        ∃ err, x = .error err ∧ (sure → ∀ e ∈ es, ¬ Completed e)) := by
  -- on the attempts left; before each the link is between two attempts
  induction left generalizing n s l es last with
  | zero =>
    obtain ⟨rfl, rfl, rfl, rfl⟩ := exec_throw.mp run
    exact ⟨nofun, fun more => absurd more (Nat.lt_irrefl 0), .inr ⟨_, rfl, fun _ => nofun⟩⟩
  | succ left ih =>
    rcases exec_seq.mp run with ⟨err, rfl, first⟩ | ⟨es₁, es₂, out, s₁, l₁, rfl, first, rest⟩
    · obtain ⟨e, rfl, ask, -, outcome⟩ := attempt_exec performs before (by omega) at_seq first
      refine ⟨List.forall_mem_singleton.mpr ask, fun _ => List.cons_ne_nil _ _, .inr ⟨err, rfl, ?_⟩⟩
      rcases outcome with ⟨_, fails, -⟩ | ⟨_, fails, -⟩ | ⟨_, -, unsure⟩
      · cases fails
      · cases fails
      · exact fun certain => absurd certain unsure
    · obtain ⟨e, rfl, ask, next, outcome⟩ := attempt_exec performs before (by omega) at_seq first
      rcases outcome with ⟨reason, same, after, incomplete⟩ | ⟨resp, same, quiet, post, fine⟩ |
        ⟨_, fails, -⟩
      · obtain rfl := Except.ok.inj same
        obtain ⟨asks, -, outcome⟩ := ih after (by omega) next rest
        refine ⟨List.forall_mem_cons.mpr ⟨ask, asks⟩, fun _ => List.cons_ne_nil _ _, ?_⟩
        rcases outcome with ⟨resp, rfl, done⟩ | ⟨err, rfl, none⟩
        · exact .inl ⟨resp, rfl, done⟩
        · exact .inr ⟨err, rfl, fun certain => List.forall_mem_cons.mpr ⟨incomplete, none certain⟩⟩
      · obtain rfl := Except.ok.inj same
        obtain ⟨rfl, rfl, rfl, rfl⟩ := exec_return.mp rest
        exact ⟨List.forall_mem_singleton.mpr ask, fun _ => List.cons_ne_nil _ _,
          .inl ⟨resp, rfl, quiet, post, fine⟩⟩
      · cases fails

/-- From a quiet link to a board in `Pre`, the program asks only what `K` holds of. If it
    succeeds, the link is quiet again and `Post` holds; if it fails, and `sure`, some
    command of it went unanswered. -/
def Triple (E : Environment port World) (D : Device) (direct : Bool) (sure : Prop)
    (K : Byte × List Byte → Prop) (Pre : Board → Prop)
    (p : ExceptT X (Semantics.Program transport BootClient) A) (Post : A → Board → Prop) : Prop :=
  ∀ s l es x s' l', l.Quiet → Pre l.server → p.run.Exec (link E D direct) s l es x s' l' →
    (∀ e ∈ es, ∀ k, asked e = some k → K k) ∧
      ((∃ a, x = .ok a ∧ l'.Quiet ∧ Post a l'.server) ∨
        ∃ err, x = .error err ∧ (sure → ¬ Answered es))

namespace Triple

variable {K K' : Byte × List Byte → Prop} {Pre Mid : Board → Prop}
  {p : ExceptT X (Semantics.Program transport BootClient) A}
  {f : A → ExceptT X (Semantics.Program transport BootClient) B}
  {PostA : A → Board → Prop} {PostB : B → Board → Prop}

theorem pure {a : A} (result : ∀ b, Pre b → PostA a b) :
    Triple E D direct sure K Pre (Pure.pure a : ExceptT X _ A) PostA := by
  intro s l es x s' l' quiet pre run
  obtain ⟨rfl, rfl, rfl, rfl⟩ := exec_return.mp run
  exact ⟨nofun, .inl ⟨a, rfl, quiet, result _ pre⟩⟩

theorem throw {e : X} (impossible : ∀ b, Pre b → ¬ sure) :
    Triple E D direct sure K Pre (MonadExcept.throw e : ExceptT X _ A) PostA := by
  intro s l es x s' l' quiet pre run
  obtain ⟨rfl, rfl, rfl, rfl⟩ := exec_throw.mp run
  exact ⟨nofun, .inr ⟨e, rfl, fun certain => absurd certain (impossible _ pre)⟩⟩

theorem bind (first : Triple E D direct sure K Pre p PostA)
    (rest : ∀ a, Triple E D direct sure K' (PostA a) (f a) PostB) (apart : ∀ k, K k → ¬ K' k) :
    Triple E D direct sure (fun k => K k ∨ K' k) Pre (p >>= f) PostB := by
  intro s l es x s' l' quiet pre run
  rcases exec_seq.mp run with ⟨err, rfl, ran⟩ | ⟨es₁, es₂, a, s₁, l₁, rfl, ran, ran'⟩
  · obtain ⟨asks, outcome⟩ := first s l es _ s' l' quiet pre ran
    refine ⟨fun e mem k ask => .inl (asks e mem k ask), .inr ⟨err, rfl, ?_⟩⟩
    rcases outcome with ⟨_, fails, -⟩ | ⟨_, -, unanswered⟩
    · cases fails
    · exact unanswered
  · obtain ⟨asks, outcome⟩ := first s l es₁ _ s₁ l₁ quiet pre ran
    rcases outcome with ⟨_, same, quiet₁, post₁⟩ | ⟨_, fails, -⟩
    swap
    · cases fails
    obtain rfl := Except.ok.inj same
    obtain ⟨asks', outcome⟩ := rest a s₁ l₁ es₂ x s' l' quiet₁ post₁ ran'
    constructor
    · intro e mem k ask
      rcases List.mem_append.mp mem with early | late
      · exact .inl (asks e early k ask)
      · exact .inr (asks' e late k ask)
    · rcases outcome with done | ⟨err, rfl, unanswered⟩
      · exact .inl done
      · exact .inr ⟨err, rfl, fun certain answered =>
          unanswered certain (answered.of_append asks asks' apart)⟩

theorem mono {Pre' : Board → Prop} {PostA' : A → Board → Prop}
    (h : Triple E D direct sure K Pre p PostA) (wider : ∀ k, K k → K' k)
    (pre : ∀ b, Pre' b → Pre b) (post : ∀ a b, PostA a b → PostA' a b) :
    Triple E D direct sure K' Pre' p PostA' := by
  intro s l es x s' l' quiet start run
  obtain ⟨asks, outcome⟩ := h s l es x s' l' quiet (pre _ start) run
  refine ⟨fun e mem k ask => wider k (asks e mem k ask), ?_⟩
  rcases outcome with ⟨a, rfl, quiet', post'⟩ | failed
  · exact .inl ⟨a, rfl, quiet', post a _ post'⟩
  · exact .inr failed

theorem adapt {g : X → Y} (h : Triple E D direct sure K Pre p PostA) :
    Triple E D direct sure K Pre (p.adapt g) PostA := by
  intro s l es x s' l' quiet start run
  obtain ⟨y, ran, rfl⟩ := exec_adapt run
  obtain ⟨asks, outcome⟩ := h s l es y s' l' quiet start ran
  refine ⟨asks, ?_⟩
  rcases outcome with ⟨a, rfl, done⟩ | ⟨err, rfl, unanswered⟩
  · exact .inl ⟨a, rfl, done⟩
  · exact .inr ⟨g err, rfl, unanswered⟩

theorem lift {q : Semantics.Program transport BootClient A}
    (h : ∀ s l es a s' l', q.Exec (link E D direct) s l es a s' l' → Pre l.server →
      (∀ e ∈ es, asked e = none) ∧ l' = l ∧ PostA a l.server) :
    Triple E D direct sure K Pre (ExceptT.lift q : ExceptT X _ A) PostA := by
  intro s l es x s' l' quiet start run
  obtain ⟨a, rfl, ran⟩ := exec_lift.mp run
  obtain ⟨silent, rfl, post⟩ := h s l es a s' l' ran start
  refine ⟨fun e mem k ask => ?_, .inl ⟨a, rfl, quiet, post⟩⟩
  rw [silent e mem] at ask
  cases ask

/-- One command, with as many attempts as its policy permits. -/
theorem run {resp : List Byte → Board → Prop}
    (performs : Performs E D cmd payload.val J Post good sure)
    (permitted : 0 < policy.attempts ∧ policy.attempts ≤ 256)
    (result : ∀ r b, Post b.core b.world → good r → resp r b) :
    Triple E D direct sure (· = (cmd, payload.val)) (fun b => J b.core b.world)
      (BootClient.run name cmd payload timeoutMs policy) resp := by
  intro s l es x s' l' quiet start run
  have at_seq : s.seq = s.seq + BitVec.ofNat 8 0 := (BitVec.add_zero _).symm
  obtain ⟨asks, some, outcome⟩ := runLoop_exec performs (.quiet quiet start) (by omega) at_seq run
  constructor
  · intro e mem k ask
    exact (Option.some.inj ((asks e mem).symm.trans ask)).symm
  · rcases outcome with ⟨r, rfl, quiet', post, fine⟩ | ⟨err, rfl, none⟩
    · exact .inl ⟨r, rfl, quiet', result r _ post fine⟩
    · refine .inr ⟨err, rfl, fun certain answered => ?_⟩
      obtain ⟨e, rest, rfl⟩ := List.exists_cons_of_ne_nil (some permitted.1)
      obtain ⟨e', mem, -, completed⟩ := answered e List.mem_cons_self _ (asks e List.mem_cons_self)
      exact none certain e' mem completed

end Triple

end OpenBoot
