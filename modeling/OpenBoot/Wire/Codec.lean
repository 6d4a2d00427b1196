import OpenBoot.Host.Frame
import OpenBoot.Update.Bench

/-! The two frame codecs describe one format: what the host sends is what the
firmware dispatches, and what the firmware answers is what the host decodes. -/

set_option autoImplicit false

namespace OpenBoot

open Semantics Program

theorem get32_take {b : List Byte} {n : Nat} (inside : 4 ≤ n) : get32 (b.take n) = get32 b :=
  get32_drop_take (j := 0) (by omega)

theorem getD_take {b : List Byte} {i n : Nat} (inside : i < n) :
    (b.take n).getD i 0 = b.getD i 0 := by
  rw [List.getD_eq_getElem?_getD, List.getElem?_take_of_lt inside, ← List.getD_eq_getElem?_getD]

theorem dispatch_take (D : Device) (cmd : Byte) (pl : List Byte) (n : Nat) (seq : Byte) :
    dispatch D cmd (pl.take n) n seq = dispatch D cmd pl n seq := by
  have hello : doHello D (pl.take n) n seq = doHello D pl n seq := by
    unfold doHello
    by_cases size : n = helloReqLen
    · subst size
      rw [get32_take (by decide), getD_take (by decide), getD_take (by decide)]
    · simp only [ne_eq, size, not_false_eq_true, if_true]
  -- no handler looks past the length it is given, and each checks that length first
  have words : n = 8 → get32 (pl.take n) = get32 pl ∧ get32 ((pl.take n).drop 4) = get32 (pl.drop 4) := by
    rintro rfl
    exact ⟨get32_take (by decide), get32_drop_take (by decide)⟩
  have erase : doErase D (pl.take n) n seq = doErase D pl n seq := by
    unfold doErase
    by_cases size : n = 8
    · rw [(words size).1, (words size).2]
    · simp only [ne_eq, size, not_false_eq_true, if_true]
  have crc : doCrc D (pl.take n) n seq = doCrc D pl n seq := by
    unfold doCrc
    by_cases size : n = 8
    · rw [(words size).1, (words size).2]
    · simp only [ne_eq, size, not_false_eq_true, if_true]
  have commit : doCommit D (pl.take n) n seq = doCommit D pl n seq := by
    unfold doCommit
    by_cases size : n = 8
    · rw [(words size).1, (words size).2]
    · simp only [ne_eq, size, not_false_eq_true, if_true]
  have boot : doBoot D (pl.take n) n seq = doBoot D pl n seq := by
    unfold doBoot
    by_cases size : n = 1
    · rw [getD_take (by omega)]
    · simp only [ne_eq, size, not_false_eq_true, if_true]
  have write : doWrite D (pl.take n) n seq = doWrite D pl n seq := by
    unfold doWrite
    by_cases size : n < 8 ∨ n - 4 > maxWriteData ∨ (n - 4) % 4 ≠ 0
    · simp only [size, if_true]
    · have data : ((pl.take n).drop 4).take (n - 4) = (pl.drop 4).take (n - 4) := by
        rw [List.drop_take, List.take_take, Nat.min_self]
      rw [get32_take (by omega), data]
  unfold dispatch
  rw [hello, erase, crc, commit, boot, write]

/-- A request the host encodes is dispatched with exactly its payload, whatever pads
    the buffer. -/
theorem handleFrame_encode (D : Device) (f : Host.Frame) (pad : List Byte) :
    handleFrame D (f.encode ++ pad) = dispatch D f.cmd f.payload f.payload.length f.seq := by
  have read := f.encode_sealed pad
  obtain ⟨crc, rest⟩ := read.rest
  rw [handleFrame_eq, read.request]
  simp only
  rw [rest, ← dispatch_take, List.take_left]

/-- A sealed response: the status first, and on failure exactly one detail byte. -/
def Answers (cmd seq : Byte) (resp : List Byte) : Prop :=
  ∃ status rest, resp = finish (cmd ||| cmdRespBit) seq (status :: rest) ∧
    (status :: rest).length ≤ maxPayload ∧ (status ≠ ok → rest.length = 1)

theorem answers_err (cmd seq status detail : Byte) :
    Answers cmd seq (errResp cmd seq status detail) :=
  ⟨status, [detail], rfl, (by decide : 2 ≤ maxPayload), fun _ => rfl⟩

theorem answers_ok (cmd seq : Byte) : Answers cmd seq (okResp cmd seq) :=
  ⟨ok, [], rfl, (by decide : 1 ≤ maxPayload), fun h => absurd rfl h⟩

theorem helloPayload_length (D : Device) (c : Core) : (helloPayload D c).length = 48 := by
  simp [helloPayload, D.uid_length]

theorem doHello_answers (D : Device) (pl : List Byte) (n : Nat) (seq : Byte) :
    (doHello D pl n seq).Returns (Answers cmdHello seq) := by
  unfold doHello
  apply Returns.check (answers_err ..)
  apply Returns.check (answers_err ..)
  apply Returns.check (answers_err ..)
  apply Returns.after
  intro _
  apply Returns.after
  intro c
  refine ⟨ok, (helloPayload D c).tail, rfl, ?_, fun h => absurd rfl h⟩
  rw [List.length_cons, List.length_tail, helloPayload_length]
  decide

theorem doErase_answers (D : Device) (pl : List Byte) (n : Nat) (seq : Byte) :
    (doErase D pl n seq).Returns (Answers cmdErase seq) := by
  have loop : ∀ blocks, (eraseLoop D seq blocks).Returns (Answers cmdErase seq) := by
    intro blocks
    induction blocks with
    | nil => exact answers_ok ..
    | cons a rest ih =>
      apply Returns.after
      intro r
      exact .check (answers_err ..) (.after fun _ => ih)
  unfold doErase
  apply Returns.check (answers_err ..)
  apply Returns.check (answers_err ..)
  apply Returns.after
  intro c
  apply Returns.check (answers_err ..)
  apply Returns.after
  intro _
  apply Returns.after
  intro r
  exact .check (answers_err ..) (loop _)

theorem doWrite_answers (D : Device) (pl : List Byte) (n : Nat) (seq : Byte) :
    (doWrite D pl n seq).Returns (Answers cmdWrite seq) := by
  unfold doWrite
  apply Returns.check (answers_err ..)
  apply Returns.check (answers_err ..)
  apply Returns.after
  intro c
  apply Returns.check (answers_err ..)
  apply Returns.check (answers_err ..)
  apply Returns.after
  intro _
  apply Returns.after
  intro r
  apply Returns.check (answers_err ..)
  apply Returns.after
  intro r
  apply Returns.check (answers_err ..)
  apply Returns.after
  intro r
  apply Returns.check (answers_err ..)
  exact .ite (.after fun _ => answers_ok ..) (answers_ok ..)

theorem doCrc_answers (D : Device) (pl : List Byte) (n : Nat) (seq : Byte) :
    (doCrc D pl n seq).Returns (Answers cmdCrc seq) := by
  unfold doCrc
  apply Returns.check (answers_err ..)
  apply Returns.check (answers_err ..)
  apply Returns.check (answers_err ..)
  apply Returns.after
  intro crc
  refine ⟨ok, put32 crc, rfl, ?_, fun h => absurd rfl h⟩
  rw [List.length_cons, put32_length]
  decide

theorem commitRecord_answers (D : Device) (imgLen imgCrc : Word) (seq : Byte) :
    (commitRecord D imgLen imgCrc seq).Returns (Answers cmdCommit seq) := by
  unfold commitRecord
  apply Returns.after
  intro c
  apply Returns.check (answers_err ..)
  apply Returns.after
  intro _
  apply Returns.after
  intro r
  exact .ite (.after fun _ => answers_err ..) (.after fun _ => answers_ok ..)

theorem doCommit_answers (D : Device) (pl : List Byte) (n : Nat) (seq : Byte) :
    (doCommit D pl n seq).Returns (Answers cmdCommit seq) := by
  unfold doCommit
  apply Returns.check (answers_err ..)
  apply Returns.check (answers_err ..)
  apply Returns.after
  intro c
  apply Returns.check (answers_err ..)
  apply Returns.check (answers_ok ..)
  apply Returns.ite
  · apply Returns.after
    intro crc
    exact .check (answers_err ..) (commitRecord_answers D _ _ seq)
  · apply Returns.check (answers_err ..)
    exact .check (answers_err ..) (commitRecord_answers D _ _ seq)

theorem doBoot_answers (D : Device) (pl : List Byte) (n : Nat) (seq : Byte) :
    (doBoot D pl n seq).Returns fun out => Answers cmdBoot seq out.1 := by
  have refused : ∀ status detail, (pure (errResp cmdBoot seq status detail, .none) :
      Code (List Byte × Action)).Returns fun out => Answers cmdBoot seq out.1 :=
    fun status detail => answers_err cmdBoot seq status detail
  unfold doBoot
  apply Returns.ite (refused _ _)
  apply Returns.ite (refused _ _)
  apply Returns.ite
  · apply Returns.after
    intro trusted
    exact .ite (refused _ _) (answers_ok ..)
  · apply Returns.after
    intro _
    exact answers_ok ..

theorem dispatch_answers (D : Device) (cmd : Byte) (pl : List Byte) (n : Nat) (seq : Byte) :
    (dispatch D cmd pl n seq).Returns fun out => Answers cmd seq out.1 := by
  have refused : ∀ status detail, (pure (errResp cmd seq status detail, .none) :
      Code (List Byte × Action)).Returns fun out => Answers cmd seq out.1 :=
    fun status detail => answers_err cmd seq status detail
  -- the handlers but BOOT leave the loop running
  have stays : ∀ {p : Code (List Byte)}, p.Returns (Answers cmd seq) →
      (do return (← p, Action.none) : Code (List Byte × Action)).Returns fun out =>
        Answers cmd seq out.1 :=
    fun answers => answers.bind fun resp h => h
  unfold dispatch
  by_cases hello : cmd = cmdHello
  · subst hello
    rw [if_pos rfl]
    exact stays (doHello_answers D pl n seq)
  rw [if_neg hello]
  by_cases known : cmd = cmdBoot ∨ cmd = cmdErase ∨ cmd = cmdWrite ∨ cmd = cmdCrc ∨ cmd = cmdCommit
  · rw [if_pos known]
    refine .after fun c => .ite (refused _ _) ?_
    rcases known with rfl | rfl | rfl | rfl | rfl
    · exact doBoot_answers D pl n seq
    · exact stays (doErase_answers D pl n seq)
    · exact stays (doWrite_answers D pl n seq)
    · exact stays (doCrc_answers D pl n seq)
    · exact stays (doCommit_answers D pl n seq)
  · rw [if_neg known]
    exact refused _ _

def Complete (buf : List Byte) : Prop :=
  frameLen buf ≤ maxPayload ∧ frameOverhead + frameLen buf ≤ buf.length

def CrcFails (buf : List Byte) : Prop :=
  Complete buf ∧
    crc32 (buf.take (frameHdrLen + frameLen buf)) ≠ get32 (buf.drop (frameHdrLen + frameLen buf))

/-- A buffer is dropped, reported as a frame error, or answered. -/
theorem handleFrame_answers (D : Device) (buf : List Byte) :
    (¬ Complete buf ∧ handleFrame D buf = pure ([], .none)) ∨
    (CrcFails buf ∧
      handleFrame D buf = pure (finish cmdFrameErr (buf.getD 1 0) [eCrc, 0], .none)) ∨
    (Complete buf ∧ ¬ CrcFails buf ∧
      (handleFrame D buf).Returns fun out => Answers (buf.getD 0 0) (buf.getD 1 0) out.1) := by
  rw [handleFrame_eq]
  unfold decodeFrame CrcFails Complete frameLen
  simp only
  -- what is too short, too long or not all there is dropped without a word
  by_cases short : buf.length < frameOverhead
  · rw [if_pos short]
    exact .inl ⟨fun complete => absurd complete.2 (by omega), rfl⟩
  by_cases large : (buf.getD 2 0).toNat > maxPayload
  · rw [if_neg short, if_pos large]
    exact .inl ⟨fun complete => absurd complete.1 (by omega), rfl⟩
  by_cases cut : buf.length < frameOverhead + (buf.getD 2 0).toNat
  · rw [if_neg short, if_neg large, if_pos cut]
    exact .inl ⟨fun complete => absurd complete.2 (by omega), rfl⟩
  rw [if_neg short, if_neg large, if_neg cut]
  have complete : (buf.getD 2 0).toNat ≤ maxPayload ∧
      frameOverhead + (buf.getD 2 0).toNat ≤ buf.length := ⟨by omega, by omega⟩
  by_cases broken : crc32 (buf.take (frameHdrLen + (buf.getD 2 0).toNat)) ≠
      get32 (buf.drop (frameHdrLen + (buf.getD 2 0).toNat))
  · rw [if_pos broken]
    exact .inr (.inl ⟨⟨complete, broken⟩, rfl⟩)
  rw [if_neg broken]
  refine .inr (.inr ⟨complete, fun fails => broken fails.2, ?_⟩)
  by_cases flags : buf.getD 3 0 ≠ 0
  · rw [if_pos flags]
    exact answers_err ..
  · rw [if_neg flags]
    exact dispatch_answers ..

def IsRequest (cmd : Byte) : Prop := 1 ≤ cmd.toNat ∧ cmd.toNat ≤ 6

instance (cmd : Byte) : Decidable (IsRequest cmd) := inferInstanceAs (Decidable (_ ∧ _))

theorem IsRequest.response {cmd : Byte} (h : IsRequest cmd) : cmd ||| cmdRespBit ≠ cmdFrameErr := by
  have opcode : ∀ b : Fin 7, BitVec.ofNat 8 b.val ||| cmdRespBit ≠ cmdFrameErr := by decide
  have small : cmd.toNat < 7 := Nat.lt_succ_of_le h.2
  simpa using opcode ⟨cmd.toNat, small⟩

/-- What the host reads out of any bytes the firmware sends. -/
structure Readable (resp : List Byte) (g : Host.Frame) : Prop where
  length : resp.length ≤ 64
  decodes : ∀ pad, Host.Frame.decode (resp ++ pad) = .ok g
  status : ∃ status rest, g.payload = status :: rest ∧ (status ≠ ok → rest.length = 1)

theorem readable_finish (cmd seq : Byte) {status : Byte} {rest : List Byte}
    (fits : (status :: rest).length ≤ maxPayload) (detail : status ≠ ok → rest.length = 1) :
    Readable (finish cmd seq (status :: rest)) ⟨cmd, seq, status :: rest, fits⟩ where
  length := by
    simp only [finish, List.length_append, put32_length]
    unfold maxPayload at fits
    simp at fits ⊢
    omega
  decodes := fun pad => (Host.finish_sealed cmd seq fits pad).decode (f := ⟨cmd, seq, _, fits⟩)
  status := ⟨status, rest, rfl, detail⟩

theorem Answers.readable {cmd seq : Byte} {resp : List Byte} (h : Answers cmd seq resp) :
    ∃ g : Host.Frame, Readable resp g ∧ g.cmd = cmd ||| cmdRespBit ∧ g.seq = seq := by
  obtain ⟨status, rest, rfl, fits, detail⟩ := h
  exact ⟨_, readable_finish _ _ fits detail, rfl, rfl⟩

theorem Answers.ne_nil {cmd seq : Byte} {resp : List Byte} (h : Answers cmd seq resp) :
    resp ≠ [] := by
  obtain ⟨status, rest, rfl, -⟩ := h
  exact finish_ne_nil _ _ _

/-- The codecs agree. Encoding and decoding on the host are inverse, up to what
    follows the frame. The firmware dispatches an encoded request with exactly its
    payload, and answers it. Whatever buffer with a request's opcode it is given, in
    whatever state, it is silent exactly if the buffer is incomplete; otherwise it
    sends at most 64 bytes that the host decodes, bare or padded: a frame error
    exactly if the CRC check fails, and else the response to the opcode and sequence
    number that were delivered. -/
theorem codecs_agree (D : Device) :
    (∀ (f : Host.Frame) pad, Host.Frame.decode (f.encode ++ pad) = .ok f) ∧
    (∀ buf f, Host.Frame.decode buf = .ok f → f.encode <+: buf) ∧
    (∀ (f : Host.Frame) pad, Complete (f.encode ++ pad) ∧ ¬ CrcFails (f.encode ++ pad) ∧
      handleFrame D (f.encode ++ pad) = dispatch D f.cmd f.payload f.payload.length f.seq) ∧
    ∀ buf, IsRequest (buf.getD 0 0) → ∀ c w es resp act c' w',
      (handleFrame D buf).Exec (portEnv D) c w es (resp, act) c' w' →
      (resp = [] ↔ ¬ Complete buf) ∧
      (Complete buf → ∃ g : Host.Frame, Readable resp g ∧ (g.isFrameError = true ↔ CrcFails buf) ∧
        (¬ CrcFails buf → ∀ f : Host.Frame, f.cmd = buf.getD 0 0 → f.seq = buf.getD 1 0 →
          g.isResponseTo f = true)) := by
  refine ⟨Host.Frame.decode_encode, fun buf f => Host.Frame.encode_prefix, ?_, ?_⟩
  · intro f pad
    have read := f.encode_sealed pad
    have len : frameLen (f.encode ++ pad) = f.payload.length := read.len
    refine ⟨⟨?_, ?_⟩, fun fails => fails.2 ?_, handleFrame_encode D f pad⟩
    · rw [len]
      exact f.fits
    · rw [len]
      exact read.whole
    · rw [len]
      exact read.body
  · intro buf request c w es resp act c' w' run
    -- cut off and dropped, broken and reported, or answered
    rcases handleFrame_answers D buf with ⟨cut, dropped⟩ | ⟨broken, reported⟩ | ⟨complete, crc, answers⟩
    · rw [dropped] at run
      cases run
      exact ⟨⟨fun _ => cut, fun _ => rfl⟩, fun complete => absurd complete cut⟩
    · rw [reported] at run
      cases run
      refine ⟨⟨fun empty => absurd empty (finish_ne_nil _ _ _), fun cut => absurd broken.1 cut⟩,
        fun _ => ⟨⟨cmdFrameErr, buf.getD 1 0, [eCrc, 0], by decide⟩, ?_, ?_, ?_⟩⟩
      · exact readable_finish _ _ (by decide) fun _ => rfl
      · exact ⟨fun _ => broken, fun _ => rfl⟩
      · exact fun passes => absurd broken passes
    · have answered := answers.exec run
      obtain ⟨g, readable, cmd, seq⟩ := answered.readable
      refine ⟨⟨fun empty => absurd empty answered.ne_nil, fun cut => absurd complete cut⟩,
        fun _ => ⟨g, readable, ?_, ?_⟩⟩
      · have normal : g.isFrameError = false := by
          unfold Host.Frame.isFrameError
          rw [cmd]
          exact decide_eq_false request.response
        rw [normal]
        exact ⟨fun error => absurd error Bool.false_ne_true, fun fails => absurd fails crc⟩
      · intro _ f same_cmd same_seq
        unfold Host.Frame.isResponseTo
        rw [cmd, seq, same_cmd, same_seq]
        exact decide_eq_true ⟨rfl, rfl⟩

def helloRequest (seq : Byte) : Host.Frame :=
  ⟨cmdHello, seq, put32 helloMagic ++ [protoMajor, protoMinor], by decide⟩

def helloResponse (seq : Byte) : Host.Frame :=
  ⟨cmdHello ||| cmdRespBit, seq, helloPayload .ch570 (.bss .ch570 0), by
    rw [helloPayload_length]
    decide⟩

theorem hello_exec (seq : Byte) :
    (handleFrame .ch570 ((helloRequest seq).encode ++ [])).Exec (portEnv .ch570) (.bss .ch570 0)
      (.reset Bench.blank) [] ((helloResponse seq).encode, .none)
      ((Core.bss .ch570 0).sessionOpen .ch570) (.reset Bench.blank) := by
  rw [handleFrame_encode, Host.Frame.encode_eq]
  have served : dispatch .ch570 cmdHello (helloRequest seq).payload helloReqLen seq =
      (do return (← doHello .ch570 (helloRequest seq).payload helloReqLen seq, .none)) := if_pos rfl
  have opened : doHello .ch570 (helloRequest seq).payload helloReqLen seq = (do
      modify (Core.sessionOpen .ch570)
      let c ← get
      return finish (cmdHello ||| cmdRespBit) seq (helloPayload .ch570 c)) := by
    have magic : get32 (helloRequest seq).payload = helloMagic := get32_put32_append _ _
    have version : ¬ ((helloRequest seq).payload.getD 4 0 ≠ protoMajor ∨
        protoMajor = 0 ∧ (helloRequest seq).payload.getD 5 0 ≠ protoMinor) := by
      rintro (major | ⟨-, minor⟩)
      · exact major rfl
      · exact minor rfl
    unfold doHello
    rw [if_neg (not_not_intro rfl), if_neg (not_not_intro magic), if_neg version]
  rw [opened] at served
  exact served ▸ .load (.store (.load .done))

theorem codecs_agree_hello : ∃ g : Host.Frame, Readable (helloResponse 0).encode g ∧
    g.isResponseTo (helloRequest 0) = true := by
  have request : IsRequest (((helloRequest 0).encode ++ []).getD 0 0) :=
    (by decide : IsRequest cmdHello)
  obtain ⟨complete, passes, -⟩ := (codecs_agree .ch570).2.2.1 (helloRequest 0) []
  obtain ⟨-, answered⟩ := (codecs_agree .ch570).2.2.2 _ request _ _ _ _ _ _ _ (hello_exec 0)
  obtain ⟨g, readable, -, matched⟩ := answered complete
  exact ⟨g, readable, matched passes _ rfl rfl⟩

/-- A corruption that the CRC does not catch: the request that arrives has another
    sequence number and a matching trailer. Its response is none to the request
    that was sent. -/
theorem undetected_corruption :
    ∃ f g : Host.Frame, ∃ buf resp c' w', f = helloRequest 0 ∧ buf.length = f.encode.length ∧
      IsRequest (buf.getD 0 0) ∧ ¬ CrcFails buf ∧
      (handleFrame .ch570 buf).Exec (portEnv .ch570) (.bss .ch570 0) (.reset Bench.blank) []
        (resp, .none) c' w' ∧
      Host.Frame.decode resp = .ok g ∧ g.isFrameError = false ∧ g.isResponseTo f = false := by
  refine ⟨helloRequest 0, helloResponse 1, _, _, _, _, rfl, ?_, ?_, ?_, hello_exec 1, ?_, ?_, ?_⟩
  · rw [List.append_nil, Host.Frame.encode_length, Host.Frame.encode_length]
    rfl
  · exact (by decide : IsRequest cmdHello)
  · exact ((codecs_agree .ch570).2.2.1 (helloRequest 1) []).2.1
  · have decoded := Host.Frame.decode_encode (helloResponse 1) []
    rwa [List.append_nil] at decoded
  · rfl
  · rfl

end OpenBoot
