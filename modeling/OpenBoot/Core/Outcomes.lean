import OpenBoot.Core.Reading
import OpenBoot.Core.Requests

/-! What each handler can do, one inversion lemma for each, in any environment whose
reads leave the world alone. -/

set_option autoImplicit false

namespace OpenBoot

open Semantics Program

variable {E : Environment port World} {D : Device} {c c' : Core} {w w' : World}
  {es : List (Event port)} {resp pl : List Byte} {n : Nat} {seq : Byte}

def Silent (E : Environment port World) : Prop :=
  ∀ w op x w', PortOp.isFlash op = false → E.step w op x w' → w' = w

theorem portEnv_silent (D : Device) : Silent (portEnv D) := by
  intro w op x w' read step
  cases step with
  | read => rfl
  | _ => cases read

structure Idle (c : Core) (w : World) (es : List (Event port)) (c' : Core) (w' : World) : Prop where
  core : c' = c
  world : w' = w
  reads : ∀ e ∈ es, e.op.isFlash = false

theorem Idle.nil (c : Core) (w : World) : Idle c w [] c w := ⟨rfl, rfl, nofun⟩

theorem Queries.idle {A : Type} {p : Code A} {want : A → Prop} {a : A} (silent : Silent E)
    (queries : p.Queries (fun op => PortOp.isFlash op = false) want)
    (run : p.Exec E c w es a c' w') : want a ∧ Idle c w es c' w' := by
  obtain ⟨wanted, rfl, rfl, reads⟩ := queries.exec (fun op x w w' => silent w op x w') run
  exact ⟨wanted, rfl, rfl, reads⟩

@[simp] theorem exec_flashErase {addr len x : Word} :
    (flashErase addr len).Exec E c w es x c' w' ↔
      es = [⟨.flashErase addr len, x⟩] ∧ c = c' ∧ E.step w (.flashErase addr len) x w' :=
  exec_perform

@[simp] theorem exec_flashWrite {addr x : Word} {data : List Byte} :
    (flashWrite addr data).Exec E c w es x c' w' ↔
      es = [⟨.flashWrite addr data, x⟩] ∧ c = c' ∧ E.step w (.flashWrite addr data) x w' :=
  exec_perform

@[simp] theorem exec_flashVerify {addr x : Word} {data : List Byte} :
    (flashVerify addr data).Exec E c w es x c' w' ↔
      es = [⟨.flashVerify addr data, x⟩] ∧ c = c' ∧ E.step w (.flashVerify addr data) x w' :=
  exec_perform

structure Refusal (cmd seq : Byte) (resp : List Byte) (c : Core) (w : World)
    (es : List (Event port)) (c' : Core) (w' : World) : Prop where
  idle : Idle c w es c' w'
  error : ∃ status detail, status ≠ ok ∧ resp = errResp cmd seq status detail

theorem Refusal.pure {cmd status detail : Byte} (bad : status ≠ ok)
    (run : (Pure.pure (errResp cmd seq status detail) : Code (List Byte)).Exec E c w es resp c' w') :
    Refusal cmd seq resp c w es c' w' := by
  obtain ⟨rfl, rfl, rfl, rfl⟩ := exec_pure.mp run
  exact ⟨.nil _ _, status, detail, bad, rfl⟩

structure HelloPasses (pl : List Byte) (n : Nat) : Prop where
  size : n = helloReqLen
  magic : get32 pl = helloMagic
  proto : ¬ (pl.getD 4 0 ≠ protoMajor ∨ protoMajor = 0 ∧ pl.getD 5 0 ≠ protoMinor)

theorem doHello_exec (run : (doHello D pl n seq).Exec E c w es resp c' w') :
    (¬ HelloPasses pl n ∧ Refusal cmdHello seq resp c w es c' w') ∨
    (HelloPasses pl n ∧ es = [] ∧ w' = w ∧ c' = c.sessionOpen D ∧
      resp = finish (cmdHello ||| cmdRespBit) seq (helloPayload D (c.sessionOpen D))) := by
  unfold doHello at run
  rw [exec_ite] at run
  rcases run with ⟨long, run⟩ | ⟨size, run⟩
  · exact .inl ⟨fun passes => long passes.size, .pure (by decide) run⟩
  rw [exec_ite] at run
  rcases run with ⟨strange, run⟩ | ⟨magic, run⟩
  · exact .inl ⟨fun passes => strange passes.magic, .pure (by decide) run⟩
  rw [exec_ite] at run
  rcases run with ⟨alien, run⟩ | ⟨proto, run⟩
  · exact .inl ⟨fun passes => passes.proto alien, .pure (by decide) run⟩
  simp only [exec_bind, exec_modify, exec_get, exec_pure] at run
  obtain ⟨_, _, _, _, _, rfl, ⟨rfl, rfl, rfl⟩, _, _, _, _, _, rfl, ⟨rfl, rfl, rfl, rfl⟩, rfl, rfl,
    rfl, rfl⟩ := run
  exact .inr ⟨⟨Decidable.not_not.mp size, Decidable.not_not.mp magic, proto⟩, rfl, rfl, rfl, rfl⟩

def disarmOp (D : Device) (c : Core) : PortOp := .flashErase (D.slotRecordAddr c.writeSlot) D.eraseBlock

theorem mutationBegin_exec {r : Word} (run : (mutationBegin D).Exec E c w es r c' w') :
    (c.s.disarmed = true ∧ r = 0 ∧ es = [] ∧ c' = c ∧ w' = w) ∨
    (c.s.disarmed = false ∧ es = [⟨disarmOp D c, r⟩] ∧ E.step w (disarmOp D c) r w' ∧
      c' = if r = 0 then c.recordBeginWrite.setDisarmed true else c.recordBeginWrite) := by
  unfold mutationBegin at run
  simp only [exec_bind, exec_get, exec_ite, exec_modify, exec_pure, exec_flashErase] at run
  obtain ⟨_, _, _, _, _, rfl, ⟨rfl, rfl, rfl, rfl⟩, rest⟩ := run
  rcases rest with ⟨on, rfl, rfl, rfl, rfl⟩ | ⟨off, rest⟩
  · exact .inl ⟨on, rfl, rfl, rfl, rfl⟩
  · obtain ⟨_, _, _, _, _, rfl, ⟨rfl, rfl, rfl⟩, _, _, x, _, _, rfl, ⟨rfl, rfl, step⟩, rest⟩ := rest
    refine .inr ⟨Bool.eq_false_of_not_eq_true off, ?_⟩
    rcases rest with ⟨zero, _, _, _, _, _, rfl, ⟨rfl, rfl, rfl⟩, rfl, rfl, rfl, rfl⟩ |
      ⟨fail, rfl, rfl, rfl, rfl⟩
    · subst zero
      exact ⟨rfl, step, rfl⟩
    · exact ⟨rfl, step, (if_neg fail).symm⟩

def erasedEvent (D : Device) (a : Word) : Event port := ⟨.flashErase a D.eraseBlock, 0⟩

theorem eraseLoop_exec {blocks : List Word}
    (run : (eraseLoop D seq blocks).Exec E c w es resp c' w') :
    ∃ done, c' = done.foldl (fun c a => c.bitmapMark D a) c ∧
      ((done = blocks ∧ es = done.map (erasedEvent D) ∧ resp = okResp cmdErase seq) ∨
        ∃ a rest x, blocks = done ++ a :: rest ∧ x ≠ 0 ∧
          es = done.map (erasedEvent D) ++ [⟨.flashErase a D.eraseBlock, x⟩] ∧
          resp = errResp cmdErase seq eFlash (x.setWidth 8)) := by
  induction blocks generalizing c w es with
  | nil =>
    obtain ⟨rfl, rfl, rfl, rfl⟩ := exec_pure.mp run
    exact ⟨[], rfl, .inl ⟨rfl, rfl, rfl⟩⟩
  | cons a rest ih =>
    unfold eraseLoop at run
    simp only [exec_bind, exec_ite, exec_modify, exec_pure, exec_flashErase] at run
    obtain ⟨_, _, x, _, _, rfl, ⟨rfl, rfl, step⟩, tail⟩ := run
    rcases tail with ⟨fail, rfl, rfl, rfl, rfl⟩ | ⟨zero, _, _, _, _, _, rfl, ⟨rfl, rfl, rfl⟩, run⟩
    · exact ⟨[], rfl, .inr ⟨a, rest, x, rfl, fail, rfl, rfl⟩⟩
    · obtain rfl := Decidable.not_not.mp zero
      obtain ⟨done, marked, ending⟩ := ih run
      refine ⟨a :: done, marked, ?_⟩
      rcases ending with ⟨rfl, rfl, rfl⟩ | ⟨b, rest, x, rfl, fail, rfl, rfl⟩
      · exact .inl ⟨rfl, rfl, rfl⟩
      · exact .inr ⟨b, rest, x, rfl, fail, rfl, rfl⟩

structure ErasePasses (D : Device) (c : Core) (pl : List Byte) (n : Nat) : Prop where
  size : n = 8
  aligned : get32 pl % D.eraseBlock = 0 ∧ get32 (pl.drop 4) % D.eraseBlock = 0
  inside : writeRangeOk D c (get32 pl) (get32 (pl.drop 4)) = true

theorem doErase_exec (run : (doErase D pl n seq).Exec E c w es resp c' w') :
    (¬ ErasePasses D c pl n ∧ Refusal cmdErase seq resp c w es c' w') ∨
    (ErasePasses D c pl n ∧ ∃ r c₁ w₁ es₁ es₂, es = es₁ ++ es₂ ∧
      (mutationBegin D).Exec E (c.streamNoteErase (get32 pl)) w es₁ r c₁ w₁ ∧
      ((r ≠ 0 ∧ es₂ = [] ∧ c' = c₁ ∧ w' = w₁ ∧
          resp = errResp cmdErase seq eFlash (r.setWidth 8)) ∨
        (r = 0 ∧ (eraseLoop D seq (forRange (get32 pl) (get32 pl + get32 (pl.drop 4))
          D.eraseBlock)).Exec E c₁ w₁ es₂ resp c' w'))) := by
  unfold doErase at run
  simp only at run
  rw [exec_ite] at run
  rcases run with ⟨long, run⟩ | ⟨size, run⟩
  · exact .inl ⟨fun passes => long passes.size, .pure (by decide) run⟩
  rw [exec_ite] at run
  rcases run with ⟨odd, run⟩ | ⟨aligned, run⟩
  · exact .inl ⟨fun passes => odd.elim (· passes.aligned.1) (· passes.aligned.2),
      .pure (by decide) run⟩
  simp only [exec_bind, exec_get] at run
  obtain ⟨_, _, _, _, _, rfl, ⟨rfl, rfl, rfl, rfl⟩, run⟩ := run
  rw [exec_ite] at run
  rcases run with ⟨outside, run⟩ | ⟨inside, run⟩
  · refine .inl ⟨fun passes => ?_, .pure (by decide) run⟩
    rw [passes.inside] at outside
    cases outside
  simp only [exec_bind, exec_modify] at run
  obtain ⟨_, _, _, _, _, rfl, ⟨rfl, rfl, rfl⟩, es₁, es₂, r, c₁, w₁, rfl, begun, run⟩ := run
  have aligned := not_or.mp aligned
  refine .inr ⟨⟨Decidable.not_not.mp size, ⟨Decidable.not_not.mp aligned.1,
    Decidable.not_not.mp aligned.2⟩, by simpa using inside⟩, r, c₁, w₁, es₁, es₂, rfl, begun, ?_⟩
  rw [exec_ite] at run
  -- the record is disarmed before the first block is erased
  rcases run with ⟨fail, run⟩ | ⟨zero, run⟩
  · obtain ⟨rfl, rfl, rfl, rfl⟩ := exec_pure.mp run
    exact .inl ⟨fail, rfl, rfl, rfl, rfl⟩
  · exact .inr ⟨Decidable.not_not.mp zero, run⟩

def writeLen (n : Nat) : Word := BitVec.ofNat 32 (n - 4)

def writeData (pl : List Byte) (n : Nat) : List Byte := (pl.drop 4).take (n - 4)

structure WriteInside (D : Device) (c : Core) (pl : List Byte) (n : Nat) : Prop where
  size : 8 ≤ n ∧ n - 4 ≤ maxWriteData ∧ (n - 4) % 4 = 0
  aligned : get32 pl % 4 = 0
  inside : writeRangeOk D c (get32 pl) (writeLen n) = true

/-- A WRITE that reached the flash: how far it came. -/
inductive Wrote (E : Environment port World) (D : Device) (c : Core) (w : World) (addr len : Word)
    (data : List Byte) (seq : Byte) : List Byte → Core → World → Prop where
  | stuck {r : Word} {es : List (Event port)} {c₁ : Core} {w₁ : World} :
      (mutationBegin D).Exec E (c.noteClass (streamClassifyWrite c addr len data)) w es r c₁ w₁ →
      r ≠ 0 → Wrote E D c w addr len data seq (errResp cmdWrite seq eFlash (r.setWidth 8)) c₁ w₁
  | failed {x : Word} {es : List (Event port)} {c₁ : Core} {w₁ w₂ : World} :
      (mutationBegin D).Exec E (c.noteClass (streamClassifyWrite c addr len data)) w es 0 c₁ w₁ →
      E.step w₁ (.flashWrite addr data) x w₂ → x ≠ 0 →
      Wrote E D c w addr len data seq (errResp cmdWrite seq eFlash (x.setWidth 8)) c₁ w₂
  | unverified {x : Word} {es : List (Event port)} {c₁ : Core} {w₁ w₂ w₃ : World} :
      (mutationBegin D).Exec E (c.noteClass (streamClassifyWrite c addr len data)) w es 0 c₁ w₁ →
      E.step w₁ (.flashWrite addr data) 0 w₂ → E.step w₂ (.flashVerify addr data) x w₃ → x ≠ 0 →
      Wrote E D c w addr len data seq (errResp cmdWrite seq eFlash (x.setWidth 8)) c₁ w₃
  | done {es : List (Event port)} {c₁ : Core} {w₁ w₂ w₃ : World} :
      (mutationBegin D).Exec E (c.noteClass (streamClassifyWrite c addr len data)) w es 0 c₁ w₁ →
      E.step w₁ (.flashWrite addr data) 0 w₂ → E.step w₂ (.flashVerify addr data) 0 w₃ →
      Wrote E D c w addr len data seq (okResp cmdWrite seq)
        (if streamClassifyWrite c addr len data = .fold then c₁.streamFold addr len data else c₁) w₃

theorem doWrite_exec (run : (doWrite D pl n seq).Exec E c w es resp c' w') :
    (¬ WriteInside D c pl n ∧ Idle c w es c' w' ∧ ∃ status detail,
      (status = eLen ∨ status = eAddr) ∧ resp = errResp cmdWrite seq status detail) ∨
    (WriteInside D c pl n ∧ bitmapCovers D c (get32 pl) (writeLen n) = false ∧
      Idle c w es c' w' ∧ resp = errResp cmdWrite seq eNotErased 0) ∨
    (WriteInside D c pl n ∧ bitmapCovers D c (get32 pl) (writeLen n) = true ∧
      Wrote E D c w (get32 pl) (writeLen n) (writeData pl n) seq resp c' w') := by
  unfold doWrite at run
  simp only at run
  rw [exec_ite] at run
  -- the gates are checked in the order of the source, and each refusal denies one of them
  rcases run with ⟨size, run⟩ | ⟨size, run⟩
  · obtain ⟨rfl, rfl, rfl, rfl⟩ := exec_pure.mp run
    refine .inl ⟨fun passes => ?_, .nil _ _, eLen, 0, .inl rfl, rfl⟩
    have := passes.size
    omega
  rw [exec_ite] at run
  rcases run with ⟨odd, run⟩ | ⟨aligned, run⟩
  · obtain ⟨rfl, rfl, rfl, rfl⟩ := exec_pure.mp run
    exact .inl ⟨fun passes => odd passes.aligned, .nil _ _, eAddr, _, .inr rfl, rfl⟩
  simp only [exec_bind, exec_get] at run
  obtain ⟨_, _, _, _, _, rfl, ⟨rfl, rfl, rfl, rfl⟩, run⟩ := run
  rw [exec_ite] at run
  rcases run with ⟨outside, run⟩ | ⟨inside, run⟩
  · obtain ⟨rfl, rfl, rfl, rfl⟩ := exec_pure.mp run
    refine .inl ⟨fun passes => ?_, .nil _ _, eAddr, _, .inr rfl, rfl⟩
    have accepted := passes.inside
    unfold writeLen at accepted
    rw [accepted] at outside
    cases outside
  have passes : WriteInside D c pl n := by
    refine ⟨?_, Decidable.not_not.mp aligned, by simpa [writeLen] using inside⟩
    omega
  rw [exec_ite] at run
  rcases run with ⟨open_block, run⟩ | ⟨covered, run⟩
  · obtain ⟨rfl, rfl, rfl, rfl⟩ := exec_pure.mp run
    exact .inr (.inl ⟨passes, by simpa [writeLen] using open_block, .nil _ _, rfl⟩)
  refine .inr (.inr ⟨passes, by simpa [writeLen] using covered, ?_⟩)
  simp only [exec_bind, exec_modify] at run
  obtain ⟨_, _, _, _, _, rfl, ⟨rfl, rfl, rfl⟩, es₁, _, r, c₁, w₁, rfl, begun, run⟩ := run
  rw [exec_ite] at run
  rcases run with ⟨fail, run⟩ | ⟨zero, run⟩
  · obtain ⟨rfl, rfl, rfl, rfl⟩ := exec_pure.mp run
    exact .stuck begun fail
  obtain rfl := Decidable.not_not.mp zero
  simp only [exec_bind, exec_flashWrite] at run
  obtain ⟨_, _, x, _, w₂, rfl, ⟨rfl, rfl, written⟩, run⟩ := run
  rw [exec_ite] at run
  rcases run with ⟨fail, run⟩ | ⟨zero, run⟩
  · obtain ⟨rfl, rfl, rfl, rfl⟩ := exec_pure.mp run
    exact .failed begun written fail
  obtain rfl := Decidable.not_not.mp zero
  simp only [exec_bind, exec_flashVerify] at run
  obtain ⟨_, _, x, _, w₃, rfl, ⟨rfl, rfl, verified⟩, run⟩ := run
  rw [exec_ite] at run
  rcases run with ⟨fail, run⟩ | ⟨zero, run⟩
  · obtain ⟨rfl, rfl, rfl, rfl⟩ := exec_pure.mp run
    exact .unverified begun written verified fail
  obtain rfl := Decidable.not_not.mp zero
  -- only a chunk that folds moves the stream on
  have done : Wrote E D c w _ _ _ seq _ _ _ := .done begun written verified
  rw [exec_ite] at run
  rcases run with ⟨fold, run⟩ | ⟨other, run⟩
  · simp only [exec_bind, exec_modify, exec_pure] at run
    obtain ⟨_, _, _, _, _, rfl, ⟨rfl, rfl, rfl⟩, rfl, rfl, rfl, rfl⟩ := run
    rw [if_pos fold] at done
    exact done
  · obtain ⟨rfl, rfl, rfl, rfl⟩ := exec_pure.mp run
    rw [if_neg other] at done
    exact done

theorem xipCrc32_asks (addr len : Word) :
    (xipCrc32 addr len).Queries (fun op => PortOp.isFlash op = false) fun _ => True :=
  (xipCrcLoop_queries (fun _ _ => rfl) _).bind fun _ _ => trivial

structure CrcPasses (D : Device) (pl : List Byte) (n : Nat) : Prop where
  size : n = 8
  aligned : get32 pl % 4 = 0 ∧ get32 (pl.drop 4) % 4 = 0
  inside : readRangeOk D (get32 pl) (get32 (pl.drop 4)) = true

theorem doCrc_exec (silent : Silent E) (run : (doCrc D pl n seq).Exec E c w es resp c' w') :
    (¬ CrcPasses D pl n ∧ Refusal cmdCrc seq resp c w es c' w') ∨
    (CrcPasses D pl n ∧ Idle c w es c' w' ∧ ∃ crc,
      resp = finish (cmdCrc ||| cmdRespBit) seq (ok :: put32 crc) ∧
      (xipCrc32 (get32 pl) (get32 (pl.drop 4))).Exec E c w es crc c w) := by
  unfold doCrc at run
  simp only at run
  rw [exec_ite] at run
  rcases run with ⟨long, run⟩ | ⟨size, run⟩
  · exact .inl ⟨fun passes => long passes.size, .pure (by decide) run⟩
  rw [exec_ite] at run
  rcases run with ⟨odd, run⟩ | ⟨aligned, run⟩
  · exact .inl ⟨fun passes => odd.elim (· passes.aligned.1) (· passes.aligned.2),
      .pure (by decide) run⟩
  rw [exec_ite] at run
  rcases run with ⟨outside, run⟩ | ⟨inside, run⟩
  · refine .inl ⟨fun passes => ?_, .pure (by decide) run⟩
    rw [passes.inside] at outside
    cases outside
  simp only [exec_bind, exec_pure] at run
  obtain ⟨es₁, _, crc, _, _, rfl, computed, rfl, rfl, rfl, rfl⟩ := run
  rw [List.append_nil]
  obtain ⟨-, idle⟩ := Queries.idle silent (xipCrc32_asks _ _) computed
  obtain ⟨rfl, rfl, reads⟩ := idle
  have aligned := not_or.mp aligned
  exact .inr ⟨⟨Decidable.not_not.mp size, ⟨Decidable.not_not.mp aligned.1,
    Decidable.not_not.mp aligned.2⟩, by simpa using inside⟩, ⟨rfl, rfl, reads⟩, crc, rfl, computed⟩

/-- The three commands of a record write, and how far they came. -/
inductive Stores (E : Environment port World) (D : Device) (slot : Word) (record : BootRecord) (w : World) :
    List (Event port) → Word → World → Prop where
  | outside : slot ≥ slotCount → Stores E D slot record w [] 1 w
  | unerased {x : Word} {w₁ : World} : E.step w (.flashErase (D.slotRecordAddr slot) D.eraseBlock) x w₁ →
      x ≠ 0 → Stores E D slot record w [⟨.flashErase (D.slotRecordAddr slot) D.eraseBlock, x⟩] 1 w₁
  | unwritten {x : Word} {w₁ w₂ : World} :
      E.step w (.flashErase (D.slotRecordAddr slot) D.eraseBlock) 0 w₁ →
      E.step w₁ (.flashWrite (D.slotRecordAddr slot) record.bytes) x w₂ → x ≠ 0 →
      Stores E D slot record w [⟨.flashErase (D.slotRecordAddr slot) D.eraseBlock, 0⟩,
        ⟨.flashWrite (D.slotRecordAddr slot) record.bytes, x⟩] 1 w₂
  | verified {x : Word} {w₁ w₂ w₃ : World} :
      E.step w (.flashErase (D.slotRecordAddr slot) D.eraseBlock) 0 w₁ →
      E.step w₁ (.flashWrite (D.slotRecordAddr slot) record.bytes) 0 w₂ →
      E.step w₂ (.flashVerify (D.slotRecordAddr slot) record.bytes) x w₃ →
      Stores E D slot record w [⟨.flashErase (D.slotRecordAddr slot) D.eraseBlock, 0⟩,
        ⟨.flashWrite (D.slotRecordAddr slot) record.bytes, 0⟩,
        ⟨.flashVerify (D.slotRecordAddr slot) record.bytes, x⟩] x w₃

theorem recordStore_exec {slot generation imgLen imgCrc r : Word}
    (run : (recordStore D slot generation imgLen imgCrc).Exec E c w es r c' w') :
    c' = c ∧ Stores E D slot (.sealed generation imgLen imgCrc) w es r w' := by
  unfold recordStore at run
  simp only at run
  rw [exec_ite] at run
  rcases run with ⟨outside, run⟩ | ⟨-, run⟩
  · obtain ⟨rfl, rfl, rfl, rfl⟩ := exec_pure.mp run
    exact ⟨rfl, .outside outside⟩
  simp only [exec_bind, exec_flashErase] at run
  obtain ⟨_, _, x, _, w₁, rfl, ⟨rfl, rfl, erased⟩, run⟩ := run
  rw [exec_ite] at run
  rcases run with ⟨fail, run⟩ | ⟨zero, run⟩
  · obtain ⟨rfl, rfl, rfl, rfl⟩ := exec_pure.mp run
    exact ⟨rfl, .unerased erased fail⟩
  obtain rfl := Decidable.not_not.mp zero
  simp only [exec_bind, exec_flashWrite] at run
  obtain ⟨_, _, x, _, w₂, rfl, ⟨rfl, rfl, written⟩, run⟩ := run
  rw [exec_ite] at run
  rcases run with ⟨fail, run⟩ | ⟨zero, run⟩
  · obtain ⟨rfl, rfl, rfl, rfl⟩ := exec_pure.mp run
    exact ⟨rfl, .unwritten erased written fail⟩
  obtain rfl := Decidable.not_not.mp zero
  obtain ⟨rfl, rfl, verified⟩ := exec_flashVerify.mp run
  exact ⟨rfl, .verified erased written verified⟩

inductive Commits (E : Environment port World) (D : Device) (c : Core) (w : World) (imgLen imgCrc : Word)
    (seq : Byte) : List (Event port) → List Byte → Core → World → Prop where
  | exhausted : (c.highestGen + 1 = 0xFFFFFFFF ∨ c.highestGen + 1 = 0) →
      Commits E D c w imgLen imgCrc seq [] (errResp cmdCommit seq eFlash detNone) c w
  | failed {es : List (Event port)} {r : Word} {w' : World} :
      Stores E D c.writeSlot (.sealed (c.highestGen + 1) imgLen imgCrc) w es r w' → r ≠ 0 →
      Commits E D c w imgLen imgCrc seq es (errResp cmdCommit seq eFlash (r.setWidth 8))
        c.recordBeginWrite.recordNoteWriteFailed w'
  | stored {es : List (Event port)} {w' : World} :
      Stores E D c.writeSlot (.sealed (c.highestGen + 1) imgLen imgCrc) w es 0 w' →
      Commits E D c w imgLen imgCrc seq es (okResp cmdCommit seq)
        (c.recordBeginWrite.recordNoteCommitted D imgLen imgCrc (c.highestGen + 1)) w'

theorem commitRecord_exec {imgLen imgCrc : Word}
    (run : (commitRecord D imgLen imgCrc seq).Exec E c w es resp c' w') :
    Commits E D c w imgLen imgCrc seq es resp c' w' := by
  unfold commitRecord at run
  simp only [exec_bind, exec_get] at run
  obtain ⟨_, _, _, _, _, rfl, ⟨rfl, rfl, rfl, rfl⟩, run⟩ := run
  rw [exec_ite] at run
  rcases run with ⟨ceiling, run⟩ | ⟨-, run⟩
  · obtain ⟨rfl, rfl, rfl, rfl⟩ := exec_pure.mp run
    exact .exhausted ceiling
  simp only [exec_bind, exec_modify] at run
  obtain ⟨_, _, _, _, _, rfl, ⟨rfl, rfl, rfl⟩, es₁, _, r, _, w₁, rfl, stored, run⟩ := run
  obtain ⟨rfl, stores⟩ := recordStore_exec stored
  rw [exec_ite] at run
  rcases run with ⟨fail, run⟩ | ⟨zero, run⟩
  · simp only [exec_bind, exec_modify, exec_pure] at run
    obtain ⟨_, _, _, _, _, rfl, ⟨rfl, rfl, rfl⟩, rfl, rfl, rfl, rfl⟩ := run
    simp only [List.nil_append, List.append_nil]
    exact .failed stores fail
  · obtain rfl := Decidable.not_not.mp zero
    simp only [exec_bind, exec_modify, exec_pure] at run
    obtain ⟨_, _, _, _, _, rfl, ⟨rfl, rfl, rfl⟩, rfl, rfl, rfl, rfl⟩ := run
    simp only [List.nil_append, List.append_nil]
    exact .stored stores

/-- How an accepted COMMIT goes on after attestation, which only reads. -/
structure Sealed (E : Environment port World) (D : Device) (c : Core) (w : World) (imgLen imgCrc : Word)
    (seq : Byte) (es : List (Event port)) (resp : List Byte) (c' : Core) (w' : World) : Prop where
  nonzero : imgLen ≠ 0
  whole : imgLen % 4 = 0
  capacity : imgLen ≤ D.slotCapacity c.writeSlot
  unreplayed : ¬ (c.recState = .fresh ∧ c.committedImgLen = imgLen ∧ c.committedImgCrc = imgCrc)
  commits : ∃ es₁ es₂, es = es₁ ++ es₂ ∧ (∀ e ∈ es₁, PortOp.isFlash e.op = false) ∧
    Commits E D c w imgLen imgCrc seq es₂ resp c' w'

inductive Declined (E : Environment port World) (D : Device) (c : Core) (w : World) (imgLen imgCrc : Word)
    (n : Nat) : Prop where
  | shape : n ≠ 8 ∨ imgLen = 0 ∨ imgLen % 4 ≠ 0 → Declined E D c w imgLen imgCrc n
  | room : imgLen > D.slotCapacity c.writeSlot → Declined E D c w imgLen imgCrc n
  | read {es : List (Event port)} {crc : Word} :
      ¬ (c.recState = .fresh ∧ c.committedImgLen = imgLen ∧ c.committedImgCrc = imgCrc) →
      attestViaXip D c = true →
      (xipCrc32 (D.slotBase c.writeSlot) imgLen).Exec E c w es crc c w → crc ≠ imgCrc →
      Declined E D c w imgLen imgCrc n
  | stream :
      ¬ (c.recState = .fresh ∧ c.committedImgLen = imgLen ∧ c.committedImgCrc = imgCrc) →
      attestViaXip D c = false →
      ¬ (streamCovers D c imgLen = true ∧ crc32Final c.s.crcState = imgCrc) →
      Declined E D c w imgLen imgCrc n

theorem doCommit_exec (silent : Silent E) (run : (doCommit D pl n seq).Exec E c w es resp c' w') :
    (Declined E D c w (get32 pl) (get32 (pl.drop 4)) n ∧ Refusal cmdCommit seq resp c w es c' w') ∨
    (n = 8 ∧ Idle c w es c' w' ∧ resp = okResp cmdCommit seq ∧ c.recState = .fresh ∧
      c.committedImgLen = get32 pl ∧ c.committedImgCrc = get32 (pl.drop 4)) ∨
    (n = 8 ∧ Sealed E D c w (get32 pl) (get32 (pl.drop 4)) seq es resp c' w') := by
  unfold doCommit at run
  simp only at run
  rw [exec_ite] at run
  rcases run with ⟨long, run⟩ | ⟨size, run⟩
  · exact .inl ⟨.shape (.inl long), .pure (by decide) run⟩
  rw [exec_ite] at run
  rcases run with ⟨odd, run⟩ | ⟨shape, run⟩
  · exact .inl ⟨.shape (.inr odd), .pure (by decide) run⟩
  simp only [exec_bind, exec_get] at run
  obtain ⟨_, _, _, _, _, rfl, ⟨rfl, rfl, rfl, rfl⟩, run⟩ := run
  rw [List.nil_append]
  rw [exec_ite] at run
  -- the capacity of the slot is checked before the replay is recognised
  rcases run with ⟨large, run⟩ | ⟨room, run⟩
  · exact .inl ⟨.room large, .pure (by decide) run⟩
  have size := Decidable.not_not.mp size
  rw [exec_ite] at run
  rcases run with ⟨⟨fresh, same_len, same_crc⟩, run⟩ | ⟨unreplayed, run⟩
  · obtain ⟨rfl, rfl, rfl, rfl⟩ := exec_pure.mp run
    exact .inr (.inl ⟨size, .nil _ _, rfl, fresh, same_len, same_crc⟩)
  obtain ⟨nonzero, whole⟩ := not_or.mp shape
  have accepted : ∀ es₁ es₂, (∀ e ∈ es₁, PortOp.isFlash e.op = false) →
      (commitRecord D (get32 pl) (get32 (pl.drop 4)) seq).Exec E c w es₂ resp c' w' →
      Sealed E D c w (get32 pl) (get32 (pl.drop 4)) seq (es₁ ++ es₂) resp c' w' :=
    fun es₁ es₂ reads run => ⟨nonzero, Decidable.not_not.mp whole, BitVec.not_lt.mp room, unreplayed,
      es₁, es₂, rfl, reads, commitRecord_exec run⟩
  rw [exec_ite] at run
  -- the image is attested over XIP, or else by the stream
  rcases run with ⟨xip, run⟩ | ⟨stream, run⟩
  · simp only [exec_bind] at run
    obtain ⟨es₁, es₂, crc, _, _, rfl, computed, run⟩ := run
    obtain ⟨-, idle⟩ := Queries.idle silent (xipCrc32_asks _ _) computed
    obtain ⟨rfl, rfl, reads⟩ := idle
    rw [exec_ite] at run
    rcases run with ⟨differs, run⟩ | ⟨-, run⟩
    · obtain ⟨rfl, rfl, rfl, rfl⟩ := exec_pure.mp run
      refine .inl ⟨.read unreplayed xip computed differs, ⟨rfl, rfl, ?_⟩, eVerify,
        detVerifyMismatch, by decide, rfl⟩
      rwa [List.append_nil]
    · exact .inr (.inr ⟨size, accepted es₁ es₂ reads run⟩)
  · have stream := Bool.eq_false_of_not_eq_true stream
    rw [exec_ite] at run
    rcases run with ⟨short, run⟩ | ⟨-, run⟩
    · refine .inl ⟨.stream unreplayed stream fun covers => ?_, .pure (by decide) run⟩
      rw [covers.1] at short
      cases short
    rw [exec_ite] at run
    rcases run with ⟨differs, run⟩ | ⟨-, run⟩
    · exact .inl ⟨.stream unreplayed stream fun covers => differs covers.2, .pure (by decide) run⟩
    exact .inr (.inr ⟨size, accepted [] _ (List.forall_mem_nil _) run⟩)

theorem bootRecordTrusted_exec {b : Bool} (silent : Silent E)
    (run : (bootRecordTrusted D).Exec E c w es b c' w') : Idle c w es c' w' := by
  have read : ∀ {lo hi : Nat} {op : PortOp}, Reads lo hi op → op.isFlash = false := by
    intro lo hi op reads
    cases op with
    | xipRead32 => rfl
    | _ => exact reads.elim
  unfold bootRecordTrusted at run
  simp only [exec_bind, exec_get] at run
  obtain ⟨_, es, _, _, _, rfl, ⟨rfl, rfl, rfl, rfl⟩, run⟩ := run
  rw [List.nil_append]
  -- by what is known of the records: none of the three looks writes
  cases state : c.recState with
  | fresh =>
    rw [state] at run
    obtain ⟨rfl, rfl, rfl, rfl⟩ := exec_pure.mp run
    exact .nil _ _
  | flash =>
    rw [state] at run
    simp only [exec_bind, exec_pure] at run
    obtain ⟨es₁, _, found, _, _, rfl, selected, rfl, rfl, rfl, rfl⟩ := run
    rw [List.append_nil]
    have looks : ∀ op, (∃ slot, SlotReads D slot op) → op.isFlash = false := by
      rintro op ⟨slot, reads⟩
      exact read reads.2.2
    exact (Queries.idle silent ((bootSelect_queries D).mono looks fun _ h => h) selected).2
  | invalid =>
    rw [state] at run
    simp only at run
    rw [exec_ite] at run
    rcases run with ⟨-, run⟩ | ⟨-, run⟩
    · obtain ⟨rfl, rfl, rfl, rfl⟩ := exec_pure.mp run
      exact .nil _ _
    · exact (Queries.idle silent ((bootAppValid_queries D _).mono (fun op reads => read reads.2.2)
        fun _ h => h) run).2

theorem doBoot_exec {act : Action} (silent : Silent E)
    (run : (doBoot D pl n seq).Exec E c w es (resp, act) c' w') :
    (act = .none ∧ Refusal cmdBoot seq resp c w es c' w') ∨
    (act = .reset ∧ n = 1 ∧ resp = okResp cmdBoot seq) := by
  -- both gates and the check of the record refuse in the same way
  have refused : ∀ {status detail : Byte} {c : Core} {w : World} {es : List (Event port)},
      status ≠ ok → (pure (errResp cmdBoot seq status detail, Action.none) :
        Code (List Byte × Action)).Exec E c w es (resp, act) c' w' →
      act = .none ∧ Refusal cmdBoot seq resp c w es c' w' := by
    intro status detail c w es bad run
    obtain ⟨rfl, out, rfl, rfl⟩ := exec_pure.mp run
    obtain ⟨rfl, rfl⟩ := Prod.mk.inj out
    exact ⟨rfl, .nil _ _, status, detail, bad, rfl⟩
  unfold doBoot at run
  rw [exec_ite] at run
  rcases run with ⟨-, run⟩ | ⟨size, run⟩
  · exact .inl (refused (by decide) run)
  rw [exec_ite] at run
  rcases run with ⟨-, run⟩ | ⟨-, run⟩
  · exact .inl (refused (by decide) run)
  have size := Decidable.not_not.mp size
  rw [exec_ite] at run
  rcases run with ⟨-, run⟩ | ⟨-, run⟩
  · simp only [exec_bind] at run
    obtain ⟨es₁, es₂, trusted, _, _, rfl, looked, run⟩ := run
    obtain ⟨rfl, rfl, reads⟩ := bootRecordTrusted_exec silent looked
    rw [exec_ite] at run
    rcases run with ⟨-, run⟩ | ⟨-, run⟩
    · obtain ⟨rfl, out, rfl, rfl⟩ := exec_pure.mp run
      obtain ⟨rfl, rfl⟩ := Prod.mk.inj out
      refine .inl ⟨rfl, ⟨rfl, rfl, ?_⟩, eVerify, detVerifyNorecord, by decide, rfl⟩
      rwa [List.append_nil]
    · obtain ⟨-, out, -, -⟩ := exec_pure.mp run
      obtain ⟨rfl, rfl⟩ := Prod.mk.inj out
      exact .inr ⟨rfl, size, rfl⟩
  · simp only [exec_bind, exec_modify, exec_pure] at run
    obtain ⟨_, _, _, _, _, -, -, -, out, -, -⟩ := run
    obtain ⟨rfl, rfl⟩ := Prod.mk.inj out
    exact .inr ⟨rfl, size, rfl⟩

def Guarded (cmd : Byte) : Prop :=
  cmd = cmdBoot ∨ cmd = cmdErase ∨ cmd = cmdWrite ∨ cmd = cmdCrc ∨ cmd = cmdCommit

/-- How a frame is served: answered unseen, or by the handler of its command. -/
inductive Dispatched (E : Environment port World) (D : Device) (q : Request) (c : Core) (w : World)
    (es : List (Event port)) : List Byte → Action → Core → World → Prop where
  | hello {resp : List Byte} {c' : Core} {w' : World} : q.cmd = cmdHello →
      (doHello D q.payload q.n q.seq).Exec E c w es resp c' w' →
      Dispatched E D q c w es resp .none c' w'
  | unknown : q.cmd ≠ cmdHello → ¬ Guarded q.cmd → es = [] →
      Dispatched E D q c w es (errResp q.cmd q.seq eCmd 0) .none c w
  | closed : Guarded q.cmd → c.s.session = false → es = [] →
      Dispatched E D q c w es (errResp q.cmd q.seq eState 0) .none c w
  | boot {resp : List Byte} {act : Action} {c' : Core} {w' : World} : q.cmd = cmdBoot →
      c.s.session = true → (doBoot D q.payload q.n q.seq).Exec E c w es (resp, act) c' w' →
      Dispatched E D q c w es resp act c' w'
  | erase {resp : List Byte} {c' : Core} {w' : World} : q.cmd = cmdErase → c.s.session = true →
      (doErase D q.payload q.n q.seq).Exec E c w es resp c' w' →
      Dispatched E D q c w es resp .none c' w'
  | write {resp : List Byte} {c' : Core} {w' : World} : q.cmd = cmdWrite → c.s.session = true →
      (doWrite D q.payload q.n q.seq).Exec E c w es resp c' w' →
      Dispatched E D q c w es resp .none c' w'
  | crc {resp : List Byte} {c' : Core} {w' : World} : q.cmd = cmdCrc → c.s.session = true →
      (doCrc D q.payload q.n q.seq).Exec E c w es resp c' w' →
      Dispatched E D q c w es resp .none c' w'
  | commit {resp : List Byte} {c' : Core} {w' : World} : q.cmd = cmdCommit → c.s.session = true →
      (doCommit D q.payload q.n q.seq).Exec E c w es resp c' w' →
      Dispatched E D q c w es resp .none c' w'

theorem exec_stay {p : Code (List Byte)} {act : Action}
    (run : (do return (← p, Action.none) : Code (List Byte × Action)).Exec E c w es (resp, act) c' w') :
    act = .none ∧ p.Exec E c w es resp c' w' := by
  obtain ⟨es₁, es₂, answer, _, _, rfl, handled, run⟩ := exec_bind.mp run
  obtain ⟨rfl, out, rfl, rfl⟩ := exec_pure.mp run
  obtain ⟨rfl, rfl⟩ := Prod.mk.inj out
  rw [List.append_nil]
  exact ⟨rfl, handled⟩

theorem dispatch_exec {q : Request} {act : Action}
    (run : (dispatch D q.cmd q.payload q.n q.seq).Exec E c w es (resp, act) c' w') :
    Dispatched E D q c w es resp act c' w' := by
  unfold dispatch at run
  rw [exec_ite] at run
  rcases run with ⟨hello, run⟩ | ⟨other, run⟩
  · obtain ⟨rfl, handled⟩ := exec_stay run
    exact .hello hello handled
  rw [exec_ite] at run
  rcases run with ⟨guarded, run⟩ | ⟨unguarded, run⟩
  · simp only [exec_bind (p := Program.get), exec_get] at run
    obtain ⟨_, _, _, _, _, rfl, ⟨rfl, rfl, rfl, rfl⟩, run⟩ := run
    rw [List.nil_append]
    rw [exec_ite] at run
    -- five commands ask for a session
    rcases run with ⟨closed, run⟩ | ⟨opened, run⟩
    · obtain ⟨rfl, out, rfl, rfl⟩ := exec_pure.mp run
      obtain ⟨rfl, rfl⟩ := Prod.mk.inj out
      exact .closed guarded (by simpa using closed) rfl
    have session : c.s.session = true := by simpa using opened
    rw [exec_ite] at run
    rcases run with ⟨boot, run⟩ | ⟨not_boot, run⟩
    · exact .boot boot session run
    rw [exec_ite] at run
    rcases run with ⟨erase, run⟩ | ⟨not_erase, run⟩
    · obtain ⟨rfl, handled⟩ := exec_stay run
      exact .erase erase session handled
    rw [exec_ite] at run
    rcases run with ⟨write, run⟩ | ⟨not_write, run⟩
    · obtain ⟨rfl, handled⟩ := exec_stay run
      exact .write write session handled
    rw [exec_ite] at run
    rcases run with ⟨crc, run⟩ | ⟨not_crc, run⟩
    · obtain ⟨rfl, handled⟩ := exec_stay run
      exact .crc crc session handled
    · obtain ⟨rfl, handled⟩ := exec_stay run
      have commit : q.cmd = cmdCommit := by
        rcases guarded with boot | erase | write | crc | commit
        · exact absurd boot not_boot
        · exact absurd erase not_erase
        · exact absurd write not_write
        · exact absurd crc not_crc
        · exact commit
      exact .commit commit session handled
  · obtain ⟨rfl, out, rfl, rfl⟩ := exec_pure.mp run
    obtain ⟨rfl, rfl⟩ := Prod.mk.inj out
    exact .unknown other unguarded rfl

theorem handleFrame_exec {buf : List Byte} {act : Action}
    (run : (handleFrame D buf).Exec E c w es (resp, act) c' w') :
    (decodeFrame buf = .error resp ∧ act = .none ∧ es = [] ∧ c' = c ∧ w' = w) ∨
    ∃ q, decodeFrame buf = .ok q ∧ Dispatched E D q c w es resp act c' w' := by
  rw [handleFrame_eq] at run
  cases decoded : decodeFrame buf with
  | error answer =>
    rw [decoded] at run
    obtain ⟨rfl, out, rfl, rfl⟩ := exec_pure.mp run
    obtain ⟨rfl, rfl⟩ := Prod.mk.inj out
    exact .inl ⟨rfl, rfl, rfl, rfl, rfl⟩
  | ok q =>
    rw [decoded] at run
    exact .inr ⟨q, rfl, dispatch_exec run⟩

end OpenBoot
