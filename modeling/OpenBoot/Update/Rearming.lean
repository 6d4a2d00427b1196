import OpenBoot.Update.Attestation
import OpenBoot.Update.Erasure

/-! What a record write leaves that was cut short or failed. A torn record is no record.
A failed one takes back the disarming, and the WRITE that comes next disarms again. -/

set_option autoImplicit false

namespace OpenBoot

open Semantics Program

variable {E : Environment port World} {D : Device} {c c' : Core} {w w' : World} {f : Flash}
  {buf resp pl : List Byte} {es : List (Event port)} {n : Nat} {seq : Byte}

theorem Stores.write {slot addr x y : Word} {record : BootRecord}
    (stores : Stores E D slot record w es x w')
    (mem : (⟨.flashWrite addr buf, y⟩ : Event port) ∈ es) :
    addr = D.slotRecordAddr slot ∧ buf = record.bytes := by
  have same : ∀ {x : Word}, (⟨.flashWrite addr buf, y⟩ : Event port) =
      ⟨.flashWrite (D.slotRecordAddr slot) record.bytes, x⟩ →
      addr = D.slotRecordAddr slot ∧ buf = record.bytes := by
    rintro x ⟨⟩
    exact ⟨rfl, rfl⟩
  cases stores with
  | outside => cases mem
  | unerased => simp at mem
  | unwritten =>
    rcases List.mem_cons.mp mem with erase | last
    · cases erase
    · exact same (List.mem_singleton.mp last)
  | verified =>
    rcases List.mem_cons.mp mem with erase | rest
    · cases erase
    rcases List.mem_cons.mp rest with write | last
    · exact same write
    · cases List.mem_singleton.mp last

/-- Of the record that `ob_record_store` writes, any number of first words on an erased
    block: what `ob_record_load` accepts there is the record, complete. -/
theorem torn_record_refused {slot generation imgLen imgCrc32 addr x y : Word} {r : BootRecord}
    (store : (recordStore D slot generation imgLen imgCrc32).Exec (portEnv D) c w es x c' w')
    (write : (⟨.flashWrite addr buf, y⟩ : Event port) ∈ es) (erased : recordErased D f slot) (k : Nat)
    (found : recordOn D (programBytes f addr (buf.take (4 * k))) slot = some r) :
    Flash.bytes (programBytes f addr (buf.take (4 * k))) (D.recordAt slot) bootRecordSize = buf ∧
      buf = (BootRecord.sealed generation imgLen imgCrc32).bytes := by
  obtain ⟨-, stores⟩ := recordStore_exec store
  obtain ⟨rfl, rfl⟩ := stores.write write
  obtain ⟨isSlot, _, rfl, accepted⟩ := recordOn_some found
  have small : Nor.Erased erasedByte f (D.recordAt slot) bootRecordSize :=
    erased.mono (Nat.le_refl _) (Nat.add_le_add_left D.record_fits _)
  have complete := accepted_torn (D.four_dvd_recordAt isSlot) small accepted
  have whole := congrArg BootRecord.bytes complete
  exact ⟨Eq.trans (BootRecord.bytes_ofBytes Nor.read_length).symm whole, rfl⟩

theorem Stores.written {slot x : Word} {record : BootRecord}
    (stores : Stores E D slot record w es x w') (ok : x = 0) :
    (⟨.flashWrite (D.slotRecordAddr slot) record.bytes, 0⟩ : Event port) ∈ es := by
  cases stores with
  | outside => cases ok
  | unerased => cases ok
  | unwritten => cases ok
  | verified => exact List.mem_cons_of_mem _ List.mem_cons_self

/-- The first record of an image in slot A, all eight words of it. -/
theorem torn_record_refused_whole :
    Flash.bytes (programBytes Bench.blank (Device.ch570.slotRecordAddr slotA)
      ((BootRecord.sealed 1 4 (crc32 Bench.image)).bytes.take (4 * 8)))
      (Device.ch570.recordAt slotA) bootRecordSize =
        (BootRecord.sealed 1 4 (crc32 Bench.image)).bytes := by
  have store := Bench.carry_exec .ch570 (recordStore .ch570 slotA 1 4 (crc32 Bench.image))
    (.bss .ch570 0) (.reset Bench.blank)
  have ended : (Bench.carry .ch570 (recordStore .ch570 slotA 1 4 (crc32 Bench.image))
    (.bss .ch570 0) (.reset Bench.blank)).1 = 0 := by decide +kernel
  rw [ended] at store
  have accepted : (recordOn .ch570 (programBytes Bench.blank (Device.ch570.slotRecordAddr slotA)
      ((BootRecord.sealed 1 4 (crc32 Bench.image)).bytes.take (4 * 8))) slotA).isSome = true := by
    decide +kernel
  obtain ⟨r, found⟩ := Option.isSome_iff_exists.mp accepted
  have erased : recordErased .ch570 Bench.blank slotA := fun _ _ _ => rfl
  exact (torn_record_refused store ((recordStore_exec store).2.written rfl) erased 8 found).1

namespace Served

def failedStore (f : Served) : Prop :=
  (commitOf f.buf).isSome ∧ ¬ AnsweredOk f.resp ∧ ∃ e ∈ f.es, PortOp.isFlash e.op = true

def invalidated (D : Device) (f : Served) : Prop :=
  commitOf f.buf = none ∧ ∃ slot, IsSlot slot ∧
    (⟨.flashErase (D.slotRecordAddr slot) D.eraseBlock, 0⟩ : Event port) ∈ f.es

/-- After it the bitmap and the disarm flag agree again. -/
def settles (D : Device) (f : Served) : Prop := f.opened ∨ f.stored ∨ f.invalidated D

end Served

/-- A record write has failed, and nothing since has settled the matter. -/
def Lapsed (D : Device) (log : List Served) : Prop :=
  ∃ before f after, log = before ++ f :: after ∧ f.failedStore ∧ ∀ g ∈ after, ¬ g.settles D

theorem Lapsed.failed {log : List Served} {f : Served} (failed : f.failedStore) :
    Lapsed D (log ++ [f]) := ⟨log, f, [], rfl, failed, List.forall_mem_nil _⟩

theorem Lapsed.snoc {log : List Served} {f : Served} (h : Lapsed D log) (open_ : ¬ f.settles D) :
    Lapsed D (log ++ [f]) := by
  obtain ⟨before, g, after, rfl, failed, quiet⟩ := h
  refine ⟨before, g, after ++ [f], by simp, failed, fun k mem => ?_⟩
  rcases List.mem_append.mp mem with old | last
  · exact quiet k old
  · rw [List.mem_singleton.mp last]
    exact open_

/-- Erased blocks are only writable with the record out of the way, or after a failure
    that is still to be dealt with. -/
def Prepared (D : Device) (log : List Served) (c : Core) : Prop :=
  (∃ b, bitmapBit c.s.bitmap b = true) → c.s.disarmed = true ∨ Lapsed D log

/-- What a WRITE does to the flash and the disarm flag. -/
structure Begins (E : Environment port World) (D : Device) (c : Core) (w : World) (addr len : Word)
    (data : List Byte) (es : List (Event port)) (c' : Core) (r : Word) (es₁ es₂ : List (Event port)) :
    Prop where
  split : es = es₁ ++ es₂
  covered : bitmapCovers D c addr len = true
  begun : ∃ c₁ w₁,
    (mutationBegin D).Exec E (c.noteClass (streamClassifyWrite c addr len data)) w es₁ r c₁ w₁ ∧
      c'.s.disarmed = c₁.s.disarmed ∧ c'.s.bitmap = c₁.s.bitmap
  rest : ∀ e ∈ es₂, e.op = .flashWrite addr data ∨ e.op = .flashVerify addr data
  stuck : r ≠ 0 → es₂ = []

theorem doWrite_begins (run : (doWrite D pl n seq).Exec E c w es resp c' w') :
    Idle c w es c' w' ∨ (WriteInside D c pl n ∧ ∃ r es₁ es₂,
      Begins E D c w (get32 pl) (writeLen n) (writeData pl n) es c' r es₁ es₂) := by
  have outcome := doWrite_exec run
  unfold doWrite at run
  simp only at run
  -- the refusals touch nothing, as the inversion of the handler says
  rw [exec_ite] at run
  rcases run with ⟨-, run⟩ | ⟨-, run⟩
  · obtain ⟨rfl, rfl, rfl, rfl⟩ := exec_pure.mp run
    exact .inl (.nil _ _)
  rw [exec_ite] at run
  rcases run with ⟨-, run⟩ | ⟨-, run⟩
  · obtain ⟨rfl, rfl, rfl, rfl⟩ := exec_pure.mp run
    exact .inl (.nil _ _)
  simp only [exec_bind, exec_get] at run
  obtain ⟨_, _, _, _, _, rfl, ⟨rfl, rfl, rfl, rfl⟩, run⟩ := run
  rw [List.nil_append] at outcome ⊢
  rw [exec_ite] at run
  rcases run with ⟨-, run⟩ | ⟨-, run⟩
  · obtain ⟨rfl, rfl, rfl, rfl⟩ := exec_pure.mp run
    exact .inl (.nil _ _)
  rw [exec_ite] at run
  rcases run with ⟨-, run⟩ | ⟨-, run⟩
  · obtain ⟨rfl, rfl, rfl, rfl⟩ := exec_pure.mp run
    exact .inl (.nil _ _)
  rcases outcome with ⟨-, idle, -⟩ | ⟨-, -, idle, -⟩ | ⟨passes, covered, -⟩
  · exact .inl idle
  · exact .inl idle
  refine .inr ⟨passes, ?_⟩
  simp only [exec_bind, exec_modify] at run
  obtain ⟨_, _, _, _, _, rfl, ⟨rfl, rfl, rfl⟩, es₁, es₂, r, c₁, w₁, rfl, begun, run⟩ := run
  -- what follows the disarming keeps it and the bitmap, wherever the handler ends
  have ends : ∀ c₂ : Core, c₂.s.disarmed = c₁.s.disarmed → c₂.s.bitmap = c₁.s.bitmap →
      (∀ e ∈ es₂, e.op = .flashWrite (get32 pl) (writeData pl n) ∨
        e.op = .flashVerify (get32 pl) (writeData pl n)) → (r ≠ 0 → es₂ = []) →
      ∃ r' es₁' es₂', Begins E D c w (get32 pl) (writeLen n) (writeData pl n)
        ([] ++ (es₁ ++ es₂)) c₂ r' es₁' es₂' := fun c₂ disarmed bitmap rest stuck =>
    ⟨r, es₁, es₂, rfl, covered, ⟨c₁, w₁, begun, disarmed, bitmap⟩, rest, stuck⟩
  rw [exec_ite] at run
  rcases run with ⟨-, run⟩ | ⟨zero, run⟩
  · obtain ⟨rfl, rfl, rfl, rfl⟩ := exec_pure.mp run
    exact ends _ rfl rfl (List.forall_mem_nil _) fun _ => rfl
  simp only [exec_bind, exec_flashWrite] at run
  obtain ⟨_, _, x, _, w₂, rfl, ⟨rfl, rfl, written⟩, run⟩ := run
  rw [exec_ite] at run
  rcases run with ⟨-, run⟩ | ⟨-, run⟩
  · obtain ⟨rfl, rfl, rfl, rfl⟩ := exec_pure.mp run
    refine ends _ rfl rfl (fun e mem => .inl ?_) (absurd · zero)
    rw [List.mem_singleton.mp mem]
    rfl
  simp only [exec_bind, exec_flashVerify] at run
  obtain ⟨_, _, y, _, w₃, rfl, ⟨rfl, rfl, verified⟩, run⟩ := run
  have commands : ∀ e ∈ [(⟨.flashWrite (get32 pl) (writeData pl n), x⟩ : Event port),
      ⟨.flashVerify (get32 pl) (writeData pl n), y⟩], e.op = .flashWrite (get32 pl) (writeData pl n) ∨
        e.op = .flashVerify (get32 pl) (writeData pl n) := by
    intro e mem
    rcases List.mem_cons.mp mem with rfl | last
    · exact .inl rfl
    · rw [List.mem_singleton.mp last]
      exact .inr rfl
  rw [exec_ite] at run
  rcases run with ⟨-, run⟩ | ⟨-, run⟩
  · obtain ⟨rfl, rfl, rfl, rfl⟩ := exec_pure.mp run
    exact ends _ rfl rfl commands (absurd · zero)
  rw [exec_ite] at run
  rcases run with ⟨-, run⟩ | ⟨-, run⟩
  · simp only [exec_bind, exec_modify, exec_pure] at run
    obtain ⟨_, _, _, _, _, rfl, ⟨rfl, rfl, rfl⟩, rfl, rfl, rfl, rfl⟩ := run
    exact ends _ rfl rfl commands (absurd · zero)
  · obtain ⟨rfl, rfl, rfl, rfl⟩ := exec_pure.mp run
    exact ends _ rfl rfl commands (absurd · zero)

theorem Served.not_settles_of_reads {f : Served} (reads : ∀ e ∈ f.es, PortOp.isFlash e.op = false)
    (closed : ¬ f.opened) : ¬ f.settles D := by
  rintro (opened | ⟨-, -, written⟩ | ⟨-, slot, -, mem⟩)
  · exact closed opened
  · obtain ⟨e, mem, command⟩ := List.any_eq_true.mp written
    rw [reads e mem] at command
    cases command
  · cases reads _ mem

namespace Prepared

variable {log : List Served}

theorem stays {g : Served} (h : Prepared D log c) (quiet : ¬ g.settles D)
    (disarmed : c'.s.disarmed = c.s.disarmed) (bitmap : c'.s.bitmap = c.s.bitmap) :
    Prepared D (log ++ [g]) c' := by
  intro marked
  rw [bitmap] at marked
  rw [disarmed]
  exact (h marked).imp_right (Lapsed.snoc · quiet)

theorem of_disarmed (on : c.s.disarmed = true) : Prepared D log c := fun _ => .inl on

theorem of_blank {k : Nat} (zero : c.s.bitmap = List.replicate k 0) : Prepared D log c := by
  rintro ⟨b, set⟩
  rw [zero, bitmapBit_replicate] at set
  cases set

/-- Disarming either takes effect, or it fails and leaves things as they were. -/
theorem begin {r : Word} {g : Served} {es₂ : List (Event port)} (h : Prepared D log c)
    (run : (mutationBegin D).Exec E c w es r c' w') (closed : ¬ g.opened) (unstored : ¬ g.stored)
    (events : g.es = es ++ es₂) (stuck : r ≠ 0 → es₂ = []) :
    c'.s.disarmed = true ∨
      (r ≠ 0 ∧ c'.s.bitmap = c.s.bitmap ∧ Prepared D (log ++ [g]) c') := by
  rcases mutationBegin_exec run with ⟨on, -, -, rfl, -⟩ | ⟨off, rfl, -, rfl⟩
  · exact .inl on
  by_cases zero : r = 0
  · rw [if_pos zero]
    exact .inl rfl
  · rw [if_neg zero]
    refine .inr ⟨zero, rfl, h.stays ?_ rfl rfl⟩
    rintro (opened | stored | ⟨-, slot, -, mem⟩)
    · exact closed opened
    · exact unstored stored
    · rw [events, stuck zero] at mem
      have code := congrArg Event.reply (List.mem_singleton.mp mem)
      exact zero code.symm

theorem loop {done : List Word} (on : c.s.disarmed = true) :
    (done.foldl (fun c a => c.bitmapMark D a) c).s.disarmed = true := by
  induction done generalizing c with
  | nil => exact on
  | cons a rest ih => exact ih on

theorem erase {g : Served} (h : Prepared D log c) (closed : ¬ g.opened) (unstored : ¬ g.stored)
    (events : g.es = es) (run : (doErase D pl n seq).Exec E c w es resp c' w') :
    Prepared D (log ++ [g]) c' := by
  rcases doErase_exec run with ⟨-, idle, -⟩ | ⟨-, r, c₁, w₁, es₁, es₂, rfl, begun, rest⟩
  · obtain ⟨rfl, -, reads⟩ := idle
    rw [← events] at reads
    exact h.stays (Served.not_settles_of_reads reads closed) rfl rfl
  have noted : Prepared D log (c.streamNoteErase (get32 pl)) := by
    unfold Core.streamNoteErase
    split <;> exact h
  have stuck : r ≠ 0 → es₂ = [] := by
    intro fail
    rcases rest with ⟨-, none, -⟩ | ⟨zero, -⟩
    · exact none
    · exact absurd zero fail
  have disarming := noted.begin begun closed unstored events stuck
  rcases rest with ⟨-, -, rfl, -⟩ | ⟨zero, looped⟩
  · exact disarming.elim of_disarmed fun failed => failed.2.2
  · rcases disarming with on | ⟨fail, -⟩
    · obtain ⟨done, rfl, -⟩ := eraseLoop_exec looped
      exact of_disarmed (loop on)
    · exact absurd zero fail

theorem write {g : Served} (h : Prepared D log c) (closed : ¬ g.opened) (unstored : ¬ g.stored)
    (events : g.es = es) (run : (doWrite D pl n seq).Exec E c w es resp c' w') :
    Prepared D (log ++ [g]) c' := by
  rcases doWrite_begins run with ⟨rfl, -, reads⟩ | ⟨-, r, es₁, es₂, begins⟩
  · rw [← events] at reads
    exact h.stays (Served.not_settles_of_reads reads closed) rfl rfl
  obtain ⟨c₁, w₁, begun, disarmed, bitmap⟩ := begins.begun
  have noted : ∀ cls, Prepared D log (c.noteClass cls) := by
    intro cls
    cases cls <;> exact h
  rcases (noted _).begin begun closed unstored (events.trans begins.split) begins.stuck with
    on | ⟨-, -, failed⟩
  · exact of_disarmed (disarmed.trans on)
  · intro marked
    rw [bitmap] at marked
    rw [disarmed]
    exact failed marked

theorem commit {imgLen imgCrc : Word} {es₁ es₂ : List (Event port)} (h : Prepared D log c)
    (isSlot : IsSlot c.writeSlot) (request : (commitOf buf).isSome)
    (closed : ¬ (⟨buf, es₁ ++ es₂, resp⟩ : Served).opened)
    (reads : ∀ e ∈ es₁, PortOp.isFlash e.op = false)
    (commits : Commits E D c w imgLen imgCrc seq es₂ resp c' w') :
    Prepared D (log ++ [⟨buf, es₁ ++ es₂, resp⟩]) c' := by
  cases commits with
  | exhausted =>
    rw [List.append_nil] at closed ⊢
    exact h.stays (Served.not_settles_of_reads reads closed) rfl rfl
  | failed stores =>
    -- the flag is taken back, and the account says so
    refine fun _ => .inr (.failed ⟨request, not_answeredOk_errResp (by decide) _ _ _, ?_⟩)
    cases stores with
    | outside far =>
      have near := isSlot.lt_count
      bv_omega
    | _ => exact ⟨_, List.mem_append_right _ List.mem_cons_self, rfl⟩
  | stored => exact of_blank rfl

/-- One frame keeps erased blocks behind an invalidated record, failures aside. -/
theorem frame {log : List Served} (sound : Sound D false c w) (h : Prepared D log c)
    (run : (handleFrame D buf).Exec (portEnv D) c w es (resp, .none) c' w') :
    Prepared D (log ++ [⟨buf, es, resp⟩]) c' := by
  have silent := portEnv_silent D
  have refused : ∀ {cmd seq : Byte} {w' : World}, Refusal cmd seq resp c w es c' w' →
      Prepared D (log ++ [⟨buf, es, resp⟩]) c' := by
    rintro cmd seq w' ⟨⟨rfl, -, reads⟩, status, detail, bad, rfl⟩
    exact h.stays (Served.not_settles_of_reads reads fun opened =>
      not_answeredOk_errResp bad _ _ _ opened.2) rfl rfl
  rcases handleFrame_exec run with ⟨rejected, -, rfl, rfl, -⟩ | ⟨q, decoded, dispatched⟩
  · refine h.stays (Served.not_settles_of_reads nofun fun opened => ?_) rfl rfl
    rcases decodeFrame_error rejected with rfl | bad
    · exact opened.2.1 rfl
    · exact bad opened.2.2
  -- a frame that is no HELLO opens nothing, and one that is no COMMIT stores nothing
  have closed := @Served.not_opened ⟨buf, es, resp⟩ q decoded
  have unstored := @Served.not_stored ⟨buf, es, resp⟩ q decoded
  generalize answer : Action.none = act at dispatched
  cases dispatched with
  | hello cmd handled =>
    rcases doHello_exec handled with ⟨-, bad⟩ | ⟨-, -, -, rfl, -⟩
    · exact refused bad
    · exact of_blank rfl
  | unknown no_hello _ none =>
    subst none
    exact h.stays (Served.not_settles_of_reads nofun (closed no_hello)) rfl rfl
  | closed guarded _ none =>
    subst none
    refine h.stays (Served.not_settles_of_reads nofun (closed fun cmd => ?_)) rfl rfl
    rw [cmd] at guarded
    rcases guarded with same | same | same | same | same <;> exact absurd same (by decide)
  | boot _ _ handled =>
    rcases doBoot_exec silent handled with ⟨-, bad⟩ | ⟨reset, -⟩
    · exact refused bad
    · rw [reset] at answer
      cases answer
  | erase cmd _ handled =>
    exact h.erase (closed (by rw [cmd]; decide)) (unstored (by rw [cmd]; decide)) rfl handled
  | write cmd _ handled =>
    exact h.write (closed (by rw [cmd]; decide)) (unstored (by rw [cmd]; decide)) rfl handled
  | crc cmd _ handled =>
    have quiet := closed (by rw [cmd]; decide)
    rcases doCrc_exec silent handled with ⟨-, ⟨rfl, -, reads⟩, -⟩ | ⟨-, ⟨rfl, -, reads⟩, -⟩
    · exact h.stays (Served.not_settles_of_reads reads quiet) rfl rfl
    · exact h.stays (Served.not_settles_of_reads reads quiet) rfl rfl
  | commit cmd _ handled =>
    have quiet := closed (by rw [cmd]; decide)
    rcases doCommit_exec silent handled with ⟨-, bad⟩ | ⟨_, ⟨rfl, -, reads⟩, -⟩ | ⟨size, sealed⟩
    · exact refused bad
    · exact h.stays (Served.not_settles_of_reads reads quiet) rfl rfl
    · obtain ⟨es₁, es₂, rfl, reads, commits⟩ := sealed.commits
      refine h.commit sound.slot ?_ quiet reads commits
      rw [commitOf_of_eq decoded cmd size]
      rfl

end Prepared

theorem Frames.prepared {log : List Served} (frames : Frames D log c w) : Prepared D log c := by
  induction frames with
  | start f bootreq => exact .of_blank rfl
  | serve frames run ih => exact ih.frame frames.sound run

/-- In every state between frames a marked block means an invalidated record, unless a
    record write has failed that nothing has settled. A WRITE erases the record's block
    first, and then only goes on if that succeeded, in the latter case and in no other. -/
theorem disarmed_unless_lapsed {ls : List Label} (run : (machine D).Run (.off f) ls (.idle c w)) :
    ((∃ b, bitmapBit c.s.bitmap b = true) → c.s.disarmed = true ∨ Lapsed D (served ls)) ∧
    ∀ pl n seq es resp c' w', (doWrite D pl n seq).Exec (portEnv D) c w es resp c' w' →
      (∀ e ∈ es, PortOp.isFlash e.op = false) ∨
      ∃ r es₁ es₂ c₁ w₁, es = es₁ ++ es₂ ∧ (mutationBegin D).Exec (portEnv D)
          (c.noteClass (streamClassifyWrite c (get32 pl) (writeLen n) (writeData pl n))) w es₁ r
          c₁ w₁ ∧
        (∀ e ∈ es₂, e.op = .flashWrite (get32 pl) (writeData pl n) ∨
          e.op = .flashVerify (get32 pl) (writeData pl n)) ∧
        (r ≠ 0 → es₂ = []) ∧
        (c.s.disarmed = true ∧ r = 0 ∧ es₁ = [] ∨
          c.s.disarmed = false ∧ Lapsed D (served ls) ∧ es₁ = [⟨disarmOp D c, r⟩]) := by
  have frames := frames_of_run run
  have prepared := frames.prepared
  refine ⟨prepared, fun pl n seq es resp c' w' handled => ?_⟩
  rcases doWrite_begins handled with idle | ⟨passes, r, es₁, es₂, begins⟩
  · exact .inl idle.reads
  obtain ⟨c₁, w₁, begun, -, -⟩ := begins.begun
  refine .inr ⟨r, es₁, es₂, c₁, w₁, begins.split, begun, begins.rest, begins.stuck, ?_⟩
  have isSlot := frames.sound.slot
  obtain ⟨_, nonempty, low, high⟩ := writeRangeOk_spec isSlot passes.inside
  have limit := recordAt_bound (D := D) isSlot
  -- the first byte of the range lies in a marked block
  have marked := (bitmapCovers_iff low nonempty (by omega)).mp begins.covered _ (Nat.le_refl _)
    (Nat.lt_add_of_pos_right nonempty)
  have noted : ∀ cls, (c.noteClass cls).s.disarmed = c.s.disarmed ∧
      disarmOp D (c.noteClass cls) = disarmOp D c := by
    intro cls
    cases cls <;> exact ⟨rfl, rfl⟩
  obtain ⟨disarmed, same⟩ := noted (streamClassifyWrite c (get32 pl) (writeLen n) (writeData pl n))
  rcases mutationBegin_exec begun with ⟨on, zero, none, -, -⟩ | ⟨off, event, -, -⟩
  · exact .inl ⟨disarmed.symm.trans on, zero, none⟩
  · have off := disarmed.symm.trans off
    rw [same] at event
    refine .inr ⟨off, (prepared ⟨_, marked⟩).resolve_left fun on => ?_, event⟩
    rw [off] at on
    cases on

/-- After an ERASE of the first block its bit is set, so the record is invalidated or a
    record write has failed. -/
theorem disarmed_unless_lapsed_erase : ∃ ls c w,
    (machine .ch570).Run (.off Bench.blank) ls (.idle c w) ∧
      bitmapBit c.s.bitmap 0 = true ∧ (c.s.disarmed = true ∨ Lapsed .ch570 (served ls)) := by
  have passes : (Bench.bench .ch570 Bench.unchecked Bench.blank bootreqMagic
      [Bench.hello, Bench.erase 0x2000 4096]).any
      (fun s => bitmapBit s.1.s.bitmap 0) = true := by decide +kernel
  obtain ⟨ls, c, w, run, marked⟩ := Bench.bench_reach passes
  exact ⟨ls, c, w, run, marked, (disarmed_unless_lapsed run).1 ⟨0, marked⟩⟩

namespace Bench

/-- A part that reports every record write as failed, although it lands. -/
def doubting (D : Device) (w : World) : (op : PortOp) → Word × World
  | .flashWrite addr buf =>
    if buf.length = bootRecordSize then
      (1, w.touched (.flashWrite addr buf) 1 (programBytes w.flash addr (buf.take (4 * 8))))
    else simulate D w (.flashWrite addr buf)
  | op => simulate D w op

theorem doubting_sound (D : Device) (w : World) (op : PortOp) :
    (portEnv D).step w op (doubting D w op).1 (doubting D w op).2 := by
  cases op with
  | flashWrite addr buf =>
    by_cases record : buf.length = bootRecordSize
    · simp only [doubting, record, if_true]
      exact .writeFailed 8 (by decide : (1 : Word) ≠ 0)
    · simp only [doubting, record, if_false]
      exact simulate_sound D w (.flashWrite addr buf)
  | _ => exact simulate_sound D w _

end Bench

/-- A COMMIT whose record write fails leaves the first block marked and the record not
    invalidated, and the next WRITE to the block erases the record's block. -/
theorem failed_commit_unarmed : ∃ ls c w es resp c' w',
    (machine .ch570).Run (.off Bench.blank) ls (.idle c w) ∧ bitmapBit c.s.bitmap 0 = true ∧
    c.s.disarmed = false ∧
    (handleFrame .ch570 (Bench.write 0x2004 Bench.image)).Exec (portEnv .ch570) c w es
      (resp, .none) c' w' ∧ AnsweredOk resp ∧
    es.head?.map Event.op = some (disarmOp .ch570 c) := by
  let failing : Core → World → List (Event port) × (List Byte × Action) × Core × World :=
    fun c w => (handleFrame .ch570 (Bench.commit Bench.image)).run (Bench.doubting .ch570) c w
  -- the record write of COMMIT fails on this part; the WRITE after it is fault-free
  have passes : (Bench.bench .ch570 Bench.unchecked Bench.blank 0 (Bench.stream 0x2000)).any
      (fun s =>
        let out := failing s.1 s.2
        let again := (handleFrame .ch570 (Bench.write 0x2004 Bench.image)).run (simulate .ch570)
          out.2.2.1 out.2.2.2
        decide (out.2.1.2 = .none ∧ bitmapBit out.2.2.1.s.bitmap 0 = true ∧
          out.2.2.1.s.disarmed = false ∧ again.2.1.2 = .none ∧ AnsweredOk again.2.1.1 ∧
          again.1.head?.map Event.op = some (disarmOp .ch570 out.2.2.1))) = true := by
    decide +kernel
  obtain ⟨ls, c, w, run, answers⟩ := Bench.bench_reach passes
  obtain ⟨none, marked, off, none', answered, first⟩ := of_decide_eq_true answers
  have failed := Program.exec_run (Bench.doubting_sound .ch570)
    (handleFrame .ch570 (Bench.commit Bench.image)) c w
  have served : ((handleFrame .ch570 (Bench.commit Bench.image)).run (Bench.doubting .ch570) c
      w).2.1 = (_, .none) := Prod.ext rfl none
  rw [served] at failed
  obtain ⟨_, further⟩ := (frame_ending run failed).2
  have written := Program.exec_run (simulate_sound .ch570)
    (handleFrame .ch570 (Bench.write 0x2004 Bench.image)) (failing c w).2.2.1 (failing c w).2.2.2
  have answer : ((handleFrame .ch570 (Bench.write 0x2004 Bench.image)).run (simulate .ch570)
      (failing c w).2.2.1 (failing c w).2.2.2).2.1 = (_, .none) := Prod.ext rfl none'
  rw [answer] at written
  exact ⟨_, _, _, _, _, _, _, further, marked, off, written, answered, first⟩

end OpenBoot
