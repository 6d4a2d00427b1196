import OpenBoot.Wire.Deframing

/-! The device's receiver follows the reader of marked frames, never stores past
its buffer, and finds its way back to the start of a frame. -/

set_option autoImplicit false

namespace OpenBoot

open Framing

namespace Rx

/-- The reader a receiver stands for. -/
def view (r : Rx) : State Byte :=
  match r.state with
  | .hunt1 => .hunting
  | .hunt2 => .armed
  | .collect => .collecting (r.buf.toList.take r.pos.toNat)

def lenByte (r : Rx) : Nat := (r.buf.toList.getD 2 0).toNat

def Partial (r : Rx) : Prop :=
  r.pos.toNat < frameHdrLen ∧ r.need.toNat = frameHdrLen ∨
    frameHdrLen ≤ r.pos.toNat ∧ r.pos.toNat < r.need.toNat ∧ r.lenByte ≤ maxPayload ∧
      r.need.toNat = frameOverhead + r.lenByte

structure Sane (U : Uart) (r : Rx) : Prop where
  need_le : r.need.toNat ≤ rxBufSize
  part : r.state = .collect → r.Partial
  quiet : r.state = .hunt1 → r.idle = 0
  idle_lt : r.idle.toNat < U.idlePolls

theorem bss_sane (U : Uart) : Sane U bss :=
  ⟨by decide, fun h => RxState.noConfusion h, fun _ => rfl, U.takes_poll⟩

variable {U : Uart} {r : Rx}

theorem Partial.room (part : r.Partial) : r.pos.toNat < rxBufSize := by
  unfold Partial frameHdrLen frameOverhead maxPayload at part
  unfold rxBufSize frameOverhead maxPayload
  omega

def stored (r : Rx) (b : Byte) (room : r.pos.toNat < rxBufSize) : Rx :=
  { r with buf := r.buf.set r.pos.toNat b room, pos := r.pos + 1 }

theorem store_eq (b : Byte) (room : r.pos.toNat < rxBufSize) :
    r.store b = some (r.stored b room) := dif_pos room

theorem stored_pos (b : Byte) (room : r.pos.toNat < rxBufSize) :
    (r.stored b room).pos.toNat = r.pos.toNat + 1 := by
  have small : rxBufSize ≤ 64 := by decide
  simp only [stored, BitVec.toNat_add]
  simp
  omega

theorem stored_take (b : Byte) (room : r.pos.toNat < rxBufSize) :
    (r.stored b room).buf.toList.take (r.pos.toNat + 1) = r.buf.toList.take r.pos.toNat ++ [b] := by
  have inside : r.pos.toNat < (r.buf.toList.set r.pos.toNat b).length := by
    rw [List.length_set, Vector.length_toList]
    exact room
  rw [stored, Vector.toList_set, List.take_succ_eq_append_getElem inside, List.getElem_set_self,
    List.take_set_of_le (Nat.le_refl _)]

theorem stored_lenByte (b : Byte) (room : r.pos.toNat < rxBufSize) (past : 2 < r.pos.toNat) :
    (r.stored b room).lenByte = r.lenByte := by
  unfold lenByte stored
  simp only [Vector.toList_set, List.getD_eq_getElem?_getD]
  rw [List.getElem?_set_ne (by omega)]

structure Advanced (U : Uart) (next : State Byte × Option (List Byte)) (r : Rx)
    (out : Option Candidate) : Prop where
  sane : Sane U r
  idle : r.idle = 0
  follows : next = (r.view, out.map Candidate.bytes)
  avail : ∀ f ∈ out, f.avail = f.bytes.length

theorem Advanced.hunt {next : State Byte × Option (List Byte)} (need_le : r.need.toNat ≤ rxBufSize)
    (idle : r.idle = 0) (hunt : r.state ≠ .collect) (follows : next = (r.view, none)) :
    Advanced U next r none where
  sane := ⟨need_le, fun h => absurd h hunt, fun _ => idle, by
    rw [idle]
    exact U.takes_poll⟩
  idle := idle
  follows := follows
  avail := fun f mem => nomatch mem

theorem complete_spec (idle : r.idle = 0) (state : r.state = .collect)
    (four : frameHdrLen ≤ r.pos.toNat) (due : r.pos.toNat ≤ r.need.toNat)
    (fits : r.lenByte ≤ maxPayload) (need : r.need.toNat = frameOverhead + r.lenByte) :
    Advanced U (obFormat.collect (r.buf.toList.take r.pos.toNat)) r.complete.1 r.complete.2 := by
  have need_le : r.need.toNat ≤ rxBufSize := by
    rw [need]
    exact Nat.add_le_add_left fits _
  have whole : r.buf.toList.length = rxBufSize := Vector.length_toList
  have length : (r.buf.toList.take r.pos.toNat).length = r.pos.toNat := by
    rw [List.length_take]
    omega
  have header : ((r.buf.toList.take r.pos.toNat).take obFormat.header).getD 2 0 =
      r.buf.toList.getD 2 0 := by
    rw [getD_take_two (by decide), getD_take_two (Nat.lt_of_lt_of_le (by decide) four)]
  have collected : obFormat.collect (r.buf.toList.take r.pos.toNat) =
      if r.pos.toNat = r.need.toNat then (.hunting, some (r.buf.toList.take r.pos.toNat))
      else (.collecting (r.buf.toList.take r.pos.toNat), none) := by
    have total := obFormat_total (h := (r.buf.toList.take r.pos.toNat).take obFormat.header)
      (by rw [header]; exact fits)
    rw [header] at total
    rw [collect_long (by rw [length]; exact four) total, length, need]
    rfl
  rw [collected]
  unfold complete
  -- the frame is complete when as many bytes are in as its length byte says
  by_cases last : r.pos = r.need
  · have same := congrArg BitVec.toNat last
    rw [if_pos last, if_pos same, same]
    constructor
    · exact ⟨need_le, nofun, fun _ => idle, by rw [idle]; exact U.takes_poll⟩
    · exact idle
    · rfl
    · intro f mem
      obtain rfl := Option.mem_some.mp mem
      rw [Candidate.bytes, List.length_take, whole, Nat.min_eq_left need_le]
  · have differ : r.pos.toNat ≠ r.need.toNat := fun same => last (BitVec.eq_of_toNat_eq same)
    rw [if_neg last, if_neg differ]
    constructor
    · constructor
      · exact need_le
      · exact fun _ => .inr ⟨four, Nat.lt_of_le_of_ne due differ, fits, need⟩
      · intro hunt
        rw [state] at hunt
        cases hunt
      · rw [idle]
        exact U.takes_poll
    · exact idle
    · unfold view
      rw [state]
      rfl
    · exact fun f mem => nomatch mem

theorem byte_collect (sane : Sane U r) (idle : r.idle = 0) (state : r.state = .collect)
    (b : Byte) :
    ∃ r' out, r.byte b = some (r', out) ∧ Advanced U (obFormat.step r.view (some b)) r' out := by
  have part := sane.part state
  have room := part.room
  have pos := stored_pos b room
  have whole : (r.stored b room).buf.toList.length = rxBufSize := Vector.length_toList
  have kept : (r.stored b room).need = r.need ∧ (r.stored b room).state = .collect := ⟨rfl, state⟩
  have reader : obFormat.step r.view (some b) =
      obFormat.collect ((r.stored b room).buf.toList.take (r.stored b room).pos.toNat) := by
    unfold view
    rw [state, pos, stored_take b room]
    rfl
  have length : ((r.stored b room).buf.toList.take (r.stored b room).pos.toNat).length =
      r.pos.toNat + 1 := by
    rw [List.length_take, pos]
    omega
  rw [reader]
  unfold byte
  simp only [state, store_eq b room, Option.bind_eq_bind, Option.bind_some]
  rcases part with ⟨short, need⟩ | ⟨four, inside, fits, need⟩
  · by_cases header : r.pos.toNat + 1 = frameHdrLen
    -- the header is in
    · rw [if_pos ⟨pos.trans header, need⟩]
      have len : (((r.stored b room).buf.toList.take (r.stored b room).pos.toNat).take
          obFormat.header).getD 2 0 = (r.stored b room).buf.toList.getD 2 0 := by
        rw [getD_take_two (by decide), getD_take_two (by rw [pos, header]; decide)]
      by_cases excess : ((r.stored b room).buf.toList.getD 2 0).toNat > maxPayload
      · rw [if_pos excess]
        refine ⟨_, _, rfl, .hunt (sane.need_le) idle nofun ?_⟩
        exact collect_over (by rw [length]; exact Nat.le_of_eq header.symm)
          (obFormat_over (by rw [len]; exact excess))
      · rw [if_neg excess]
        have fits := Nat.not_lt.mp excess
        have sum : (BitVec.ofNat 8 frameOverhead + (r.stored b room).buf.toList.getD 2 0).toNat =
            frameOverhead + ((r.stored b room).buf.toList.getD 2 0).toNat := by
          rw [BitVec.toNat_add]
          unfold maxPayload at fits
          unfold frameOverhead
          simp only [BitVec.toNat_ofNat]
          omega
        generalize BitVec.ofNat 8 frameOverhead + (r.stored b room).buf.toList.getD 2 0 = total
          at sum ⊢
        refine ⟨_, _, rfl, complete_spec (r := { r.stored b room with need := total }) idle state
          ?_ ?_ fits sum⟩
        · simp only [pos]
          omega
        · simp only [sum, pos, header]
          unfold frameHdrLen frameOverhead
          omega
    -- still in the header
    · rw [if_neg fun both => header (pos.symm.trans both.1)]
      have more : (r.stored b room).pos ≠ (r.stored b room).need := by
        intro same
        apply header
        rw [← pos, same, kept.1, need]
      unfold complete
      rw [if_neg more, collect_short (by rw [length]; unfold obFormat; simp only; omega)]
      refine ⟨_, _, rfl, ⟨⟨sane.need_le, fun _ => .inl ⟨by rw [pos]; omega, need⟩, ?_, ?_⟩, idle, ?_,
        nofun⟩⟩
      · rw [kept.2]
        nofun
      · exact sane.idle_lt
      · unfold view
        rw [kept.2]
        rfl
  -- the rest of the frame
  · have past : ¬ ((r.stored b room).pos.toNat = frameHdrLen ∧
        (r.stored b room).need.toNat = frameHdrLen) := by
      rw [pos]
      omega
    have len := stored_lenByte b room (by unfold frameHdrLen at four; omega)
    rw [if_neg past]
    refine ⟨_, _, rfl, complete_spec idle kept.2 ?_ ?_ ?_ ?_⟩
    · rw [pos]
      omega
    · rw [pos]
      exact inside
    · rw [len]
      exact fits
    · rw [len]
      exact need

/-- One byte: the receiver does what the reader does, within its buffer. -/
theorem byte_spec (sane : Sane U r) (idle : r.idle = 0) (b : Byte) :
    ∃ r' out, r.byte b = some (r', out) ∧ Advanced U (obFormat.step r.view (some b)) r' out := by
  cases state : r.state with
  | hunt1 =>
    have reader : r.view = .hunting := by
      unfold view
      rw [state]
    unfold byte
    rw [state, reader]
    by_cases first : b = uartSof1
    · simp only [if_pos first]
      exact ⟨_, _, rfl, .hunt sane.need_le idle (by simp) (by simp [Format.step, obFormat, first, view])⟩
    · simp only [if_neg first]
      exact ⟨_, _, rfl, .hunt sane.need_le idle (by simp [state])
        (by simp [Format.step, obFormat, first, reader])⟩
  | hunt2 =>
    have reader : r.view = .armed := by
      unfold view
      rw [state]
    unfold byte
    rw [state, reader]
    by_cases second : b = uartSof2
    · simp only [if_pos second]
      have header : (BitVec.ofNat 8 frameHdrLen).toNat ≤ rxBufSize := by decide
      have empty : (0 : Byte).toNat < frameHdrLen := by decide
      refine ⟨_, _, rfl, ⟨⟨header, fun _ => .inl ⟨empty, rfl⟩, by simp, ?_⟩, idle, ?_, by simp⟩⟩
      · rw [idle]
        exact U.takes_poll
      · simp [Format.step, obFormat, second, view]
    -- a second start byte may be the first one of the real marker
    by_cases first : b = uartSof1
    · simp only [first, ne_eq, not_true_eq_false, if_false]
      exact ⟨_, _, rfl, .hunt sane.need_le idle (by simp [state])
        (by rw [reader]; rfl)⟩
    · simp only [if_neg second, ne_eq, first, not_false_eq_true, if_true]
      exact ⟨_, _, rfl, .hunt sane.need_le idle (by simp)
        (by simp [Format.step, obFormat, second, first, view])⟩
  | collect => exact byte_collect sane idle state b

structure Drained (U : Uart) (s : State Byte) (fifo : List Byte) (r : Rx) (left : List Byte)
    (out : Option Candidate) (read : List Byte) : Prop where
  sane : Sane U r
  idle : r.idle = 0
  split : fifo = read ++ left
  follows : obFormat.feed s (read.map some) = (r.view, (out.map Candidate.bytes).toList)
  avail : ∀ f ∈ out, f.avail = f.bytes.length

theorem drain_spec (sane : Sane U r) (idle : r.idle = 0) (fifo : List Byte) :
    ∃ r' left out read, r.drain fifo = some (r', left, out) ∧
      Drained U r.view fifo r' left out read ∧ (fifo ≠ [] → read ≠ []) := by
  induction fifo generalizing r with
  | nil => exact ⟨r, [], none, [], rfl, ⟨sane, idle, rfl, rfl, nofun⟩, fun h => h⟩
  | cons b rest ih =>
    obtain ⟨r₁, out, stepped, advanced⟩ := byte_spec sane idle b
    cases out with
    | some f =>
      refine ⟨r₁, rest, some f, [b], ?_, ⟨advanced.sane, advanced.idle, rfl, ?_, advanced.avail⟩,
        fun _ => List.cons_ne_nil _ _⟩
      · simp [drain, stepped]
      · rw [List.map_cons, List.map_nil, feed_cons, advanced.follows]
        rfl
    | none =>
      obtain ⟨r', left, out, read, ran, drained, -⟩ := ih advanced.sane advanced.idle
      refine ⟨r', left, out, b :: read, ?_, ⟨drained.sane, drained.idle, ?_, ?_, drained.avail⟩,
        fun _ => List.cons_ne_nil _ _⟩
      · simp [drain, stepped, ran]
      · rw [drained.split]
        rfl
      · rw [List.map_cons, feed_cons, advanced.follows]
        simp [drained.follows]

theorem Sane.awake (sane : Sane U r) : Sane U { r with idle := 0 } :=
  ⟨sane.need_le, sane.part, fun _ => rfl, U.takes_poll⟩

theorem trPoll_nil (sane : Sane U r) : ∃ r', trPoll U r [] = some (r', [], none) ∧ Sane U r' ∧
    (r.state ≠ .hunt1 ∧ r.idle.toNat + 1 < U.idlePolls ∧ r'.view = r.view ∧
        r'.state = r.state ∧ r'.idle.toNat = r.idle.toNat + 1 ∨
      (r.state = .hunt1 ∨ r.idle.toNat + 1 = U.idlePolls) ∧ r'.state = .hunt1) := by
  have small := sane.idle_lt
  have fits := U.fits
  have count : (r.idle + 1).toNat = r.idle.toNat + 1 := by
    rw [BitVec.toNat_add]
    simp
    omega
  unfold trPoll
  rw [if_pos rfl]
  by_cases hunting : r.state = .hunt1
  · rw [if_neg (not_not_intro hunting)]
    exact ⟨r, rfl, sane, .inr ⟨.inl hunting, hunting⟩⟩
  rw [if_pos hunting]
  simp only [count]
  by_cases patient : r.idle.toNat + 1 < U.idlePolls
  · rw [if_neg (Nat.not_le.mpr patient)]
    refine ⟨_, rfl, ⟨sane.need_le, sane.part, fun h => absurd h hunting, ?_⟩,
      .inl ⟨hunting, patient, rfl, rfl, count⟩⟩
    simp only [count]
    exact patient
  · rw [if_pos (Nat.not_lt.mp patient)]
    exact ⟨_, rfl, ⟨sane.need_le, nofun, fun _ => rfl, U.takes_poll⟩, .inr ⟨.inr (by omega), rfl⟩⟩

theorem trPoll_bytes (sane : Sane U r) {fifo : List Byte} (some : fifo ≠ []) :
    ∃ r' left out read, trPoll U r fifo = Option.some (r', left, out) ∧
      Drained U r.view fifo r' left out read ∧ read ≠ [] := by
  obtain ⟨r', left, out, read, ran, drained, nonempty⟩ := drain_spec sane.awake rfl fifo
  unfold trPoll
  rw [if_neg some]
  exact ⟨r', left, out, read, ran, drained, nonempty some⟩

theorem view_hunting (hunting : r.state = .hunt1) : r.view = .hunting := by
  unfold view
  rw [hunting]

theorem hunting_of_view (hunting : r.view = .hunting) : r.state = .hunt1 := by
  unfold view at hunting
  cases state : r.state with
  | hunt1 => rfl
  | hunt2 => rw [state] at hunting; cases hunting
  | collect => rw [state] at hunting; cases hunting

/-- Bytes that leave the frame due later deliver nothing. -/
theorem drain_more (sane : Sane U r) (idle : r.idle = 0) {f bytes rest : List Byte}
    (due : Due obFormat f r.view (bytes ++ rest)) (more : rest ≠ []) :
    ∃ r', r.drain bytes = some (r', [], none) ∧ Sane U r' ∧ r'.idle = 0 ∧
      Due obFormat f r'.view rest := by
  induction bytes generalizing r with
  | nil => exact ⟨r, rfl, sane, idle, due⟩
  | cons b bytes ih =>
    obtain ⟨r₁, out, stepped, advanced⟩ := byte_spec sane idle b
    generalize all : b :: bytes ++ rest = stream at due
    cases due with
    | last _ =>
      have none := (List.cons.inj all).2
      exact absurd (List.append_eq_nil_iff.mp none).2 more
    | more step due =>
      obtain ⟨rfl, rfl⟩ := List.cons.inj all
      rw [advanced.follows] at step
      obtain ⟨rfl, silent⟩ := Prod.mk.inj step
      obtain rfl := Option.map_eq_none_iff.mp silent
      obtain ⟨r', ran, after⟩ := ih advanced.sane advanced.idle due
      exact ⟨r', by simp [drain, stepped, ran], after⟩

theorem drain_last (sane : Sane U r) (idle : r.idle = 0) {f bytes : List Byte}
    (due : Due obFormat f r.view bytes) :
    ∃ r' g, r.drain bytes = some (r', [], some g) ∧ Sane U r' ∧ r'.state = .hunt1 ∧ g.bytes = f ∧
      g.avail = f.length := by
  induction bytes generalizing r with
  | nil => exact absurd rfl due.ne_nil
  | cons b bytes ih =>
    obtain ⟨r₁, out, stepped, advanced⟩ := byte_spec sane idle b
    cases due with
    | last step =>
      rw [advanced.follows] at step
      obtain ⟨hunting, found⟩ := Prod.mk.inj step
      obtain ⟨g, rfl, rfl⟩ := Option.map_eq_some_iff.mp found
      exact ⟨r₁, g, by simp [drain, stepped], advanced.sane, hunting_of_view hunting, rfl,
        advanced.avail g rfl⟩
    | more step due =>
      rw [advanced.follows] at step
      obtain ⟨rfl, silent⟩ := Prod.mk.inj step
      obtain rfl := Option.map_eq_none_iff.mp silent
      obtain ⟨r', g, ran, after⟩ := ih advanced.sane advanced.idle due
      exact ⟨r', g, by simp [drain, stepped, ran], after⟩

end Rx

/-! ### Whole histories -/

/-- The bytes that were read and the gaps between them, where a gap is a run of at
    least `p` polls in a row that found nothing; `run` such polls have passed already. -/
def observed (p : Nat) : Nat → List (List Byte) → List (Option Byte)
  | _, [] => []
  | run, [] :: reads => (if run + 1 = p then [none] else []) ++ observed p (run + 1) reads
  | _, (b :: bytes) :: reads => (b :: bytes).map some ++ observed p 0 reads

def Counts (r : Rx) (run : Nat) : Prop := r.state ≠ .hunt1 → r.idle.toNat = run

/-- Every history is received without a store past the buffer, no byte is lost, and
    the frames are those of the reader. -/
theorem listen_spec {U : Uart} {r : Rx} (sane : r.Sane U) {run : Nat} (counts : Counts r run)
    (fifo : List Byte) (arrivals : List (List Byte)) :
    ∃ r' left polls, listen U r fifo arrivals = some (r', left, polls) ∧ r'.Sane U ∧
      (polls.map Poll.read).flatten ++ left = fifo ++ arrivals.flatten ∧
      (delivered polls).map Candidate.bytes =
        obFormat.frames r.view (observed U.idlePolls run (polls.map Poll.read)) ∧
      ∀ f ∈ delivered polls, f.avail = f.bytes.length := by
  induction arrivals generalizing r run fifo with
  | nil =>
    refine ⟨r, fifo, [], rfl, sane, by simp, rfl, ?_⟩
    exact fun f mem => nomatch mem
  | cons arrived rest ih =>
    by_cases empty : fifo ++ arrived = []
    · obtain ⟨r₁, polled, sane₁, patience⟩ := Rx.trPoll_nil sane
      obtain ⟨rfl, rfl⟩ := List.append_eq_nil_iff.mp empty
      have counts₁ : Counts r₁ (run + 1) := by
        intro busy
        rcases patience with ⟨midway, _, _, _, count⟩ | ⟨_, hunting⟩
        · rw [count, counts midway]
        · exact absurd hunting busy
      obtain ⟨r', left, polls, ran, sane', bytes, found, avail⟩ := ih sane₁ counts₁ []
      refine ⟨r', left, ⟨[], none⟩ :: polls, ?_, sane', bytes, ?_, avail⟩
      · simp [listen, polled, ran]
      -- the gap is reported when the receiver gives up, and means nothing to one that hunts
      have same : obFormat.frames r.view (if run + 1 = U.idlePolls then [none] else []) = [] ∧
          (obFormat.feed r.view (if run + 1 = U.idlePolls then [none] else [])).1 = r₁.view := by
        rcases patience with ⟨midway, patient, view, _, _⟩ | ⟨ended, hunting⟩
        · rw [counts midway] at patient
          rw [if_neg (Nat.ne_of_lt patient), view]
          exact ⟨rfl, rfl⟩
        · rw [Rx.view_hunting hunting]
          by_cases gap : run + 1 = U.idlePolls
          · rw [if_pos gap, Format.frames, feed_cons, step_gap]
            exact ⟨rfl, rfl⟩
          · rw [if_neg gap]
            refine ⟨rfl, ?_⟩
            by_cases idle : r.state = .hunt1
            · exact Rx.view_hunting idle
            · have := counts idle
              rcases ended with hunt | last
              · exact absurd hunt idle
              · omega
      change (delivered polls).map Candidate.bytes = obFormat.frames r.view (_ ++ _)
      rw [frames_append, same.1, same.2, List.nil_append]
      exact found
    · obtain ⟨r₁, left₁, out, read, polled, drained, nonempty⟩ := Rx.trPoll_bytes sane empty
      have counts₁ : Counts r₁ 0 := fun _ => congrArg BitVec.toNat drained.idle
      obtain ⟨r', left, polls, ran, sane', bytes, found, avail⟩ := ih drained.sane counts₁ left₁
      have taken : (fifo ++ arrived).take ((fifo ++ arrived).length - left₁.length) = read := by
        rw [drained.split, List.length_append, Nat.add_sub_cancel, List.take_left]
      refine ⟨r', left, ⟨read, out⟩ :: polls, ?_, sane', ?_, ?_, ?_⟩
      · simpa [listen, polled, ran] using taken
      · rw [List.flatten_cons, ← List.append_assoc, drained.split, List.append_assoc, ← bytes]
        simp
      · obtain ⟨b, more, rfl⟩ := List.exists_cons_of_ne_nil nonempty
        change _ = obFormat.frames r.view (((b :: more).map some) ++ _)
        rw [frames_append, Format.frames, drained.follows, ← found]
        cases out <;> rfl
      · intro f mem
        cases out with
        | none => exact avail f mem
        | some g =>
          rcases List.mem_cons.mp mem with rfl | later
          · exact drained.avail _ rfl
          · exact avail f later

theorem listen_single {U : Uart} {r : Rx} (sane : r.Sane U) {arrivals : List (List Byte)}
    (single : ∀ bytes ∈ arrivals, bytes.length ≤ 1) :
    ∃ r' polls, listen U r [] arrivals = some (r', [], polls) ∧ polls.map Poll.read = arrivals := by
  induction arrivals generalizing r with
  | nil => exact ⟨r, [], rfl, rfl⟩
  | cons arrived rest ih =>
    have later : ∀ bytes ∈ rest, bytes.length ≤ 1 := fun bytes mem =>
      single bytes (List.mem_cons_of_mem _ mem)
    cases arrived with
    | nil =>
      obtain ⟨r₁, polled, sane₁, -⟩ := Rx.trPoll_nil sane
      obtain ⟨r', polls, ran, reads⟩ := ih sane₁ later
      exact ⟨r', ⟨[], none⟩ :: polls, by simp [listen, polled, ran], by simp [reads]⟩
    | cons b bytes =>
      obtain ⟨r₁, left, out, read, polled, drained, nonempty⟩ :=
        Rx.trPoll_bytes sane (List.cons_ne_nil b bytes)
      obtain rfl : bytes = [] := by
        have short := single _ List.mem_cons_self
        exact List.length_eq_zero_iff.mp (by rw [List.length_cons] at short; omega)
      obtain ⟨c, more, rfl⟩ := List.exists_cons_of_ne_nil nonempty
      obtain ⟨rfl, none⟩ := List.cons.inj drained.split
      obtain ⟨rfl, rfl⟩ := List.append_eq_nil_iff.mp none.symm
      obtain ⟨r', polls, ran, reads⟩ := ih drained.sane later
      exact ⟨r', ⟨[b], out⟩ :: polls, by simp [listen, polled, ran], by simp [reads]⟩

/-- The device and the host are the same machine: whatever arrives before each
    poll, the candidate frames the polls deliver are those the host receives from the
    bytes and gaps the polls saw. No byte is lost, and bytes that come one at a time
    are seen as they came. -/
theorem deframers_agree (U : Uart) (arrivals : List (List Byte)) :
    ∃ r left polls, listen U .bss [] arrivals = some (r, left, polls) ∧
      (polls.map Poll.read).flatten ++ left = arrivals.flatten ∧
      ((∀ bytes ∈ arrivals, bytes.length ≤ 1) → polls.map Poll.read = arrivals) ∧
      (delivered polls).map Candidate.bytes =
        recvAll (observed U.idlePolls 0 (polls.map Poll.read)) := by
  have counts : Counts .bss 0 := fun _ => rfl
  obtain ⟨r, left, polls, ran, -, bytes, found, -⟩ :=
    listen_spec (Rx.bss_sane U) counts [] arrivals
  refine ⟨r, left, polls, ran, bytes, fun single => ?_, found.trans (recvAll_eq _).symm⟩
  obtain ⟨_, _, ran', reads⟩ := listen_single (Rx.bss_sane U) single
  cases ran.symm.trans ran'
  exact reads

/-! ### Resynchronisation -/

theorem listen_hunting {U : Uart} {r : Rx} (hunting : r.state = .hunt1) {arrivals : List (List Byte)}
    (silent : arrivals.flatten = []) :
    ∃ polls, listen U r [] arrivals = some (r, [], polls) ∧ delivered polls = [] := by
  induction arrivals with
  | nil => exact ⟨[], rfl, rfl⟩
  | cons arrived rest ih =>
    obtain ⟨rfl, later⟩ := List.append_eq_nil_iff.mp silent
    obtain ⟨polls, ran, none⟩ := ih later
    exact ⟨⟨[], .none⟩ :: polls, by simp [listen, trPoll, hunting, ran], none⟩

/-- Enough empty polls end whatever garbage has begun. -/
theorem listen_silence {U : Uart} {r : Rx} (sane : r.Sane U) {n : Nat}
    (enough : r.state ≠ .hunt1 → U.idlePolls ≤ r.idle.toNat + n) :
    ∃ r' polls, listen U r [] (List.replicate n []) = some (r', [], polls) ∧
      delivered polls = [] ∧ r'.Sane U ∧ r'.state = .hunt1 := by
  induction n generalizing r with
  | zero =>
    refine ⟨r, [], rfl, rfl, sane, ?_⟩
    by_contra busy
    exact absurd sane.idle_lt (Nat.not_lt.mpr (enough busy))
  | succ n ih =>
    obtain ⟨r₁, polled, sane₁, patience⟩ := Rx.trPoll_nil sane
    have enough₁ : r₁.state ≠ .hunt1 → U.idlePolls ≤ r₁.idle.toNat + n := by
      intro busy
      rcases patience with ⟨midway, _, _, _, count⟩ | ⟨_, hunting⟩
      · have := enough midway
        omega
      · exact absurd hunting busy
    obtain ⟨r', polls, ran, none, after⟩ := ih sane₁ enough₁
    exact ⟨r', ⟨[], .none⟩ :: polls, by simp [listen, List.replicate_succ, polled, ran], none, after⟩

/-- A frame that is due arrives over any polls, as long as no pause between its bytes
    outlasts the receiver's patience. -/
theorem listen_due {U : Uart} {r : Rx} (sane : r.Sane U) {f bytes : List Byte}
    (due : Due obFormat f r.view bytes) {split : List (List Byte)} (whole : split.flatten = bytes)
    (first : ¬ List.replicate (U.idlePolls - r.idle.toNat) [] <+: split)
    (pauses : ¬ List.replicate U.idlePolls [] <:+: split) :
    ∃ r' polls g, listen U r [] split = some (r', [], polls) ∧ delivered polls = [g] ∧
      g.bytes = f ∧ g.avail = f.length ∧ r'.state = .hunt1 := by
  -- by the polls: an empty one is patience, one with bytes starts the count anew
  induction split generalizing r bytes with
  | nil => exact absurd whole.symm due.ne_nil
  | cons arrived rest ih =>
    have pauses' : ¬ List.replicate U.idlePolls [] <:+: rest := fun inside =>
      pauses (inside.trans (List.suffix_cons _ _).isInfix)
    have fresh : ∀ {r₁ : Rx}, r₁.idle = 0 →
        ¬ List.replicate (U.idlePolls - r₁.idle.toNat) [] <+: rest := by
      intro r₁ zero start
      rw [zero] at start
      exact pauses' start.isInfix
    by_cases empty : arrived = []
    · subst empty
      obtain ⟨r₁, polled, sane₁, patience⟩ := Rx.trPoll_nil sane
      have next : r₁.view = r.view ∧
          ¬ List.replicate (U.idlePolls - r₁.idle.toNat) [] <+: rest := by
        rcases patience with ⟨_, patient, view, _, count⟩ | ⟨hunt | last, hunting⟩
        · refine ⟨view, fun start => first ?_⟩
          have more : U.idlePolls - r.idle.toNat = (U.idlePolls - r₁.idle.toNat) + 1 := by omega
          rw [more, List.replicate_succ]
          exact List.cons_prefix_cons.mpr ⟨rfl, start⟩
        · rw [Rx.view_hunting hunting, Rx.view_hunting hunt]
          exact ⟨rfl, fresh (sane₁.quiet hunting)⟩
        · have one : U.idlePolls - r.idle.toNat = 1 := by omega
          refine absurd ?_ first
          rw [one]
          exact List.cons_prefix_cons.mpr ⟨rfl, List.nil_prefix⟩
      obtain ⟨r', polls, g, ran, found⟩ := ih sane₁ (next.1 ▸ due) whole next.2 pauses'
      exact ⟨r', ⟨[], none⟩ :: polls, g, by simp [listen, polled, ran], found⟩
    · have awake : trPoll U r arrived = Rx.drain { r with idle := 0 } arrived := if_neg empty
      have split : bytes = arrived ++ rest.flatten := whole.symm
      rw [split] at due
      -- the frame ends in this poll, or the rest of it comes later
      by_cases last : rest.flatten = []
      · rw [last, List.append_nil] at due
        obtain ⟨r', g, drained, sane', hunting, found, avail⟩ := Rx.drain_last sane.awake rfl due
        obtain ⟨polls, ran, none⟩ := listen_hunting (U := U) hunting last
        refine ⟨r', ⟨arrived, some g⟩ :: polls, g, ?_, congrArg (g :: ·) none, found, avail, hunting⟩
        simp [listen, awake.trans drained, ran]
      · obtain ⟨r₁, drained, sane₁, idle, due⟩ := Rx.drain_more sane.awake rfl due last
        obtain ⟨r', polls, g, ran, found⟩ := ih sane₁ due rfl (fresh idle) pauses'
        exact ⟨r', ⟨arrived, none⟩ :: polls, g, by simp [listen, awake.trans drained, ran],
          found⟩

/-- The receiver never stores past its buffer, also in the middle of a poll, and never
    waits for more than 64 bytes. After any history and a full silence it delivers
    the next frame exactly once, over any polls, and hunts again. -/
theorem receiver_resynchronises (U : Uart) :
    (∀ arrivals bytes, ∃ r left polls, listen U .bss [] arrivals = some (r, left, polls) ∧
      ∃ r' rest out, Rx.drain { r with idle := 0 } bytes = some (r', rest, out) ∧
        r'.need.toNat ≤ 64) ∧
    ∀ history r polls, listen U .bss [] history = some (r, [], polls) →
      ∀ f : List Byte, (f.getD 2 0).toNat ≤ maxPayload →
        f.length = frameOverhead + (f.getD 2 0).toNat →
      ∀ split : List (List Byte), split.flatten = encodeSof f →
        ¬ List.replicate U.idlePolls [] <:+: split →
      ∃ r₁ quiet r₂ after g,
        listen U r [] (List.replicate U.idlePolls []) = some (r₁, [], quiet) ∧
        delivered quiet = [] ∧ listen U r₁ [] split = some (r₂, [], after) ∧
        delivered after = [g] ∧ g.avail = frameOverhead + (f.getD 2 0).toNat ∧ g.bytes = f ∧
        r₂.state = .hunt1 := by
  have counts : Counts .bss 0 := fun _ => rfl
  constructor
  · intro arrivals bytes
    obtain ⟨r, left, polls, ran, sane, -⟩ := listen_spec (Rx.bss_sane U) counts [] arrivals
    obtain ⟨r', rest, out, read, drained, spec, -⟩ := Rx.drain_spec sane.awake rfl bytes
    exact ⟨r, left, polls, ran, r', rest, out, drained, spec.sane.need_le⟩
  · intro history r polls ran f small length split whole pauses
    obtain ⟨_, _, _, ran', sane, -⟩ := listen_spec (Rx.bss_sane U) counts [] history
    cases ran.symm.trans ran'
    -- the silence brings the receiver back to hunting, whatever it had heard before
    obtain ⟨r₁, quiet, silence, none, sane₁, hunting⟩ :=
      listen_silence sane fun _ => Nat.le_add_left _ _
    have total : obFormat.Whole f := by
      constructor
      · rw [length]
        exact Nat.le_trans (by decide) (Nat.le_add_right frameOverhead _)
      · have head : (f.take obFormat.header).getD 2 0 = f.getD 2 0 := getD_take_two (by decide)
        rw [obFormat_total (by rw [head]; exact small), head, length]
    have due := due_encode total
    rw [← Rx.view_hunting hunting] at due
    have first : ¬ List.replicate (U.idlePolls - r₁.idle.toNat) [] <+: split := by
      rw [sane₁.quiet hunting]
      exact fun start => pauses start.isInfix
    obtain ⟨r₂, after, g, heard, found, bytes, avail, hunting₂⟩ :=
      listen_due sane₁ due whole first pauses
    exact ⟨r₁, quiet, r₂, after, g, silence, none, heard, found, avail.trans length, bytes, hunting₂⟩

/-- The receiver of the default poll interval, 20 us. -/
def Uart.standard : Uart := ⟨2500, by decide, by decide⟩

/-- A false lock and half a header, a full silence, then a frame that holds the
    marker itself. -/
theorem receiver_resynchronises_marker :
    ∃ r polls r₁ quiet r₂ after g,
      listen .standard .bss [] [[uartSof1, uartSof2, 0x01]] = some (r, [], polls) ∧
      listen .standard r [] (List.replicate 2500 []) = some (r₁, [], quiet) ∧
      delivered quiet = [] ∧
      listen .standard r₁ [] [encodeSof [uartSof1, uartSof2, 0, 0, 1, 2, 3, 4]] =
        some (r₂, [], after) ∧
      delivered after = [g] ∧ g.avail = 8 ∧ g.bytes = [uartSof1, uartSof2, 0, 0, 1, 2, 3, 4] ∧
      r₂.state = .hunt1 := by
  have pauses : ¬ List.replicate Uart.standard.idlePolls [] <:+:
      [encodeSof [uartSof1, uartSof2, 0, 0, 1, 2, 3, 4]] := by
    intro inside
    have short := inside.length_le
    rw [List.length_replicate] at short
    exact absurd short (by decide)
  obtain ⟨r₁, quiet, r₂, after, g, result⟩ := (receiver_resynchronises .standard).2
    [[uartSof1, uartSof2, 0x01]] _ _ rfl [uartSof1, uartSof2, 0, 0, 1, 2, 3, 4] (by decide) rfl
    [encodeSof [uartSof1, uartSof2, 0, 0, 1, 2, 3, 4]] rfl pauses
  exact ⟨_, _, r₁, quiet, r₂, after, g, rfl, result⟩

end OpenBoot
