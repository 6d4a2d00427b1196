import OpenBoot.Host.Planning
import OpenBoot.Wire.Link
import OpenBoot.Wire.Phases

/-! The flash flow over a lossy link, against the core: all or nothing. -/

set_option autoImplicit false

namespace OpenBoot

open Semantics Program Host

variable {D : Device} {shown : World → Word → Word} {direct : Bool} {target gen : Word}
  {data : List Byte} {sure : Prop} {A B X : Type}

/-! ### Commands -/

abbrev On (J : Core → World → Prop) (b : Board) : Prop := J b.core b.world

namespace Triple

variable {E : Environment port World} {K K' : Byte × List Byte → Prop} {Pre : Board → Prop}
  {p : ExceptT X (Semantics.Program transport BootClient) A}
  {f : A → ExceptT X (Semantics.Program transport BootClient) B}
  {PostA : A → Board → Prop} {PostB : B → Board → Prop}

theorem assume (fact : Prop) (known : ∀ b, Pre b → fact)
    (h : fact → Triple E D direct sure K Pre p PostA) : Triple E D direct sure K Pre p PostA := by
  intro s l es x s' l' quiet pre run
  exact h (known _ pre) s l es x s' l' quiet pre run

theorem last (first : Triple E D direct sure K Pre p PostA)
    (rest : ∀ a, Triple E D direct sure (fun _ => False) (PostA a) (f a) PostB) :
    Triple E D direct sure K Pre (p >>= f) PostB :=
  (first.bind rest fun _ _ => id).mono (fun _ => (Or.elim · id False.elim)) (fun _ => id)
    fun _ _ => id

theorem silently (PostA : A → Board → Prop)
    (first : Triple E D direct sure (fun _ => False) Pre p PostA)
    (rest : ∀ a, Triple E D direct sure K (PostA a) (f a) PostB) :
    Triple E D direct sure K Pre (p >>= f) PostB :=
  (first.bind rest fun _ => False.elim).mono (fun _ => (Or.elim · False.elim id)) (fun _ => id)
    fun _ _ => id

theorem seq {cmds cmds' : List Byte}
    (first : Triple E D direct sure (fun k => k.1 ∈ cmds) Pre p PostA)
    (rest : ∀ a, Triple E D direct sure (fun k => k.1 ∈ cmds') (PostA a) (f a) PostB)
    (apart : ∀ cmd ∈ cmds, cmd ∉ cmds') :
    Triple E D direct sure (fun k => k.1 ∈ cmds ++ cmds') Pre (p >>= f) PostB :=
  (first.bind rest fun _ mem => apart _ mem).mono
    (fun _ which => List.mem_append.mpr which) (fun _ => id) fun _ _ => id

theorem check {r : Fallible A} (passes : ∀ b, Pre b → sure → ∃ a, r = .ok a)
    (result : ∀ a b, r = .ok a → Pre b → PostA a b) :
    Triple E D direct sure (fun _ => False) Pre (Flow.check r) PostA := by
  intro s l es x s' l' quiet pre run
  obtain ⟨rfl, rfl, rfl, rfl⟩ := exec_mk.mp run
  refine ⟨nofun, ?_⟩
  cases r with
  | ok a => exact .inl ⟨a, rfl, quiet, result a _ rfl pre⟩
  | error chain =>
    refine .inr ⟨_, rfl, fun certain => ?_⟩
    obtain ⟨a, same⟩ := passes _ pre certain
    cases same

end Triple

/-- A command whose attempts either bring the next phase or change nothing. -/
theorem Performs.of_phase {E : Environment port World} {cmd : Byte} {payload : List Byte}
    {Pre Post : Core → World → Prop} {good : List Byte → Prop} (request : IsRequest cmd)
    (phase : ∀ {c c' : Core} {w w' : World} {seq : Byte} {es : List (Event port)}
      {resp : List Byte} {act : Action}, Pre c w ∨ Post c w →
      (dispatch D cmd payload payload.length seq).Exec E c w es (resp, act) c' w' →
      (∃ rest, resp = finish (cmd ||| cmdRespBit) seq (ok :: rest) ∧
        (ok :: rest).length ≤ maxPayload ∧ Post c' w' ∧ good (ok :: rest)) ∨
      (c' = c ∧ w' = w ∧ ¬ sure ∧
        ∃ status detail, status ≠ ok ∧ resp = errResp cmd seq status detail)) :
    Performs E D cmd payload (fun c w => Pre c w ∨ Post c w) Post good sure where
  request := request
  serve := by
    intro c c' w w' seq es resp act start run
    rcases phase start run with ⟨rest, rfl, fits, post, fine⟩ |
      ⟨rfl, rfl, unsure, status, detail, bad, rfl⟩
    · exact ⟨.inr post, fun _ => post, ok, rest, rfl, fits, fun _ => ⟨post, fine⟩, fun _ => rfl⟩
    · exact ⟨start, id, status, [detail], rfl, (by decide : 2 ≤ maxPayload), fun same => absurd same bad,
        fun certain => absurd certain unsure⟩

theorem Triple.command {E : Environment port World} {cmd : Byte} {payload : Payload} {name : String}
    {timeoutMs : Nat} {policy : RetryPolicy} {Pre Post : Core → World → Prop}
    (performs : Performs E D cmd payload.val (fun c w => Pre c w ∨ Post c w) Post (fun _ => True) sure)
    (permitted : 0 < policy.attempts ∧ policy.attempts ≤ 256) :
    Triple E D direct sure (· = (cmd, payload.val)) (On Pre)
      (do let _ ← BootClient.run name cmd payload timeoutMs policy) fun (_ : Unit) => On Post :=
  Triple.last ((Triple.run performs permitted fun _ _ post _ => post).mono (fun _ => id)
    (fun _ => .inl) fun _ _ => id) fun _ => .pure fun _ => id

theorem retries : 0 < (RetryPolicy.retry maxAttempts).attempts ∧
    (RetryPolicy.retry maxAttempts).attempts ≤ 256 := by decide

theorem Triple.hello {E : Environment port World} {c₀ : Core} {Pre Post : Core → World → Prop}
    (performs : Performs E D cmdHello (helloReqPayload protoMajor protoMinor).val
      (fun c w => Pre c w ∨ Post c w) Post (· = helloPayload D c₀) sure)
    (parses : sure → DeviceInfo.parse (helloPayload D c₀) = .ok (reported D c₀)) :
    Triple E D direct sure (·.1 ∈ [cmdHello]) (On Pre) BootClient.hello
      fun info b => On Post b ∧ info.val = reported D c₀ := by
  have asked : Triple E D direct sure _ _ (BootClient.run "HELLO" cmdHello
      (helloReqPayload protoMajor protoMinor) helloTimeout (.retry maxAttempts))
      fun p b => On Post b ∧ p = helloPayload D c₀ :=
    Triple.run performs retries fun _ _ => And.intro
  refine Triple.last (asked.mono ?_ (fun _ => .inl) fun _ _ => id) fun p => ?_
  · rintro _ rfl
    exact List.mem_singleton_self _
  apply Triple.assume _ (fun _ post => post.2)
  rintro rfl
  split
  · next source failed =>
    apply Triple.throw
    intro _ _ certain
    rw [parses certain] at failed
    cases failed
  · next info parsed =>
    obtain ⟨-, rfl, usable⟩ := DeviceInfo.parse_eq_ok.mp parsed
    rw [if_neg (by rw [fields_helloPayload]; exact not_not_intro rfl)]
    apply Triple.pure
    exact fun b post => ⟨post.1, fields_helloPayload D c₀⟩

theorem helloPayload_fits {c : Core} :
    (ok :: (helloPayload D c).tail).length ≤ maxPayload := by
  rw [List.length_cons, List.length_tail, helloPayload_length]
  decide

theorem Triple.crc {E : Environment port World} {addr len : Word} {Pre Post : Core → World → Prop}
    {Q : Word → Prop} (performs : Performs E D cmdCrc (crcReqPayload addr len).val
      (fun c w => Pre c w ∨ Post c w) Post (fun p => ∃ v, p = ok :: put32 v ∧ Q v) sure) :
    Triple E D direct sure (·.1 ∈ [cmdCrc]) (On Pre) (BootClient.crc addr len)
      fun v b => On Post b ∧ Q v := by
  have asked : Triple E D direct sure _ _ (BootClient.run "CRC" cmdCrc (crcReqPayload addr len)
      crcTimeout (.retry maxAttempts)) fun p b => On Post b ∧ ∃ v, p = ok :: put32 v ∧ Q v :=
    Triple.run performs retries fun _ _ => And.intro
  refine Triple.last (asked.mono ?_ (fun _ => .inl) fun _ _ => id) fun p => ?_
  · rintro _ rfl
    exact List.mem_singleton_self _
  · apply Triple.assume (∃ v, p = ok :: put32 v ∧ Q v) fun b post => post.2
    rintro ⟨v, rfl, fact⟩
    have value : crcRespValue (ok :: put32 v) = .ok v := congrArg Except.ok (get32_put32 v)
    rw [value]
    apply Triple.pure
    exact fun b post => ⟨post.1, fact⟩

theorem erase_triple {n : Nat} {addr len blocks : Word} (at_addr : addr.toNat = D.base target + n)
    (whole : D.block ∣ n) (whole' : D.block ∣ len.toNat) (nonempty : 0 < len.toNat)
    (fits : D.Fits target) (inside : D.base target + n + len.toNat ≤ D.recordAt target) :
    Triple (faultFree D shown) D direct sure (· = (cmdErase, (eraseReqPayload addr len).val))
      (On (Cleared D target gen n)) (BootClient.erase addr len blocks)
      fun _ => On (Cleared D target gen (n + len.toNat)) := by
  apply Triple.command
  · apply Performs.of_phase (by decide)
    intro c c' w w' seq es resp act start run
    have cleared : Cleared D target gen n c w := by
      rcases start with before | after
      · exact before
      · exact after.mono (Nat.le_add_right _ _)
    obtain ⟨rfl, after⟩ := cleared.erase at_addr whole whole' nonempty fits inside run
    exact .inl ⟨[], rfl, by decide, after, trivial⟩
  · exact retries

theorem write_triple {size off stop : Nat} {addr : Word} {chunk : Chunk}
    (at_addr : addr.toNat = D.base target + off)
    (at_chunk : chunk.val = (data.drop off).take (stop - off)) (order : off < stop)
    (room : stop ≤ data.length) (fits : data.length ≤ size) (whole : D.block ∣ size)
    (inside : D.base target + size ≤ D.recordAt target) (usable : D.Fits target)
    (words : sure → 4 ∣ off ∧ 4 ∣ stop - off) :
    Triple (faultFree D shown) D direct sure (· = (cmdWrite, (writeReqPayload addr chunk).val))
      (On (Filled D target gen data size off)) (BootClient.write addr chunk)
      fun _ => On (Filled D target gen data size stop) := by
  have command : Triple (faultFree D shown) D direct sure
      (· = (cmdWrite, (writeReqPayload addr chunk).val)) (On (Filled D target gen data size off))
      (BootClient.write addr chunk) fun _ => On (Written D target gen data size off stop) := by
    apply Triple.command
    · apply Performs.of_phase (by decide)
      intro c c' w w' seq es resp act start run
      rcases write_phase at_addr at_chunk order room fits whole inside usable start run with
        ⟨rfl, after⟩ | ⟨same, still, odd, refused⟩
      · exact .inl ⟨[], rfl, by decide, after, trivial⟩
      · exact .inr ⟨same, still, fun certain => odd (words certain), refused⟩
    · exact retries
  exact command.mono (fun _ => id) (fun _ => id) fun _ _ after => after.toFilled

theorem commit_triple {size : Nat} (inside : D.base target + data.length ≤ D.recordAt target)
    (usable : D.Fits target) (sealable : sure → Sealable D gen data) :
    Triple (faultFree D shown) D direct sure (·.1 ∈ [cmdCommit])
      (On (Filled D target gen data size data.length))
      (BootClient.commit (BitVec.ofNat 32 data.length) (crc32 data))
      fun _ => On (Committed D target data) := by
  have command : Triple (faultFree D shown) D direct sure
      (· = (cmdCommit, (commitReqPayload (BitVec.ofNat 32 data.length) (crc32 data)).val))
      (On (Filled D target gen data size data.length))
      (BootClient.commit (BitVec.ofNat 32 data.length) (crc32 data))
      fun _ => On (Committed D target data) := by
    apply Triple.command
    · apply Performs.of_phase (by decide)
      intro c c' w w' seq es resp act start run
      rcases commit_phase inside usable start run with ⟨rfl, after⟩ | ⟨same, still, unfit, refused⟩
      · exact .inl ⟨[], rfl, by decide, after, trivial⟩
      · exact .inr ⟨same, still, fun certain => unfit (sealable certain), refused⟩
    · exact retries
  exact command.mono (by rintro _ rfl; exact List.mem_singleton_self _) (fun _ => id) fun _ _ => id

theorem crc_triple (small : data.length < 2 ^ 32) :
    Triple (faultFree D shown) D direct sure (·.1 ∈ [cmdCrc]) (On (Committed D target data))
      (BootClient.crc (D.slotBase target) (BitVec.ofNat 32 data.length))
      fun v b => On (Committed D target data) b ∧ (D.crcLive = true → v = crc32 data) := by
  apply Triple.crc
  apply Performs.of_phase (by decide)
  intro c c' w w' seq es resp act start run
  obtain ⟨rfl, rfl, v, rfl, value⟩ := crc_phase (start.elim id id) small run
  exact .inl ⟨put32 v, rfl, (by decide : 5 ≤ maxPayload), start.elim id id, v, rfl, value⟩

theorem boot_triple {mode : BootMode} :
    Triple (faultFree D shown) D direct sure (·.1 ∈ [cmdBoot]) (On (Committed D target data))
      (BootClient.boot mode) fun _ => On (Committed D target data) := by
  have command : Triple (faultFree D shown) D direct sure
      (· = (cmdBoot, (bootReqPayload mode.wire).val)) (On (Committed D target data))
      (BootClient.boot mode) fun _ => On (Committed D target data) := by
    apply Triple.command
    · apply Performs.of_phase (by decide)
      intro c c' w w' seq es resp act start run
      obtain ⟨rfl, after⟩ := boot_phase (start.elim id id) run
      exact .inl ⟨[], rfl, by decide, after, trivial⟩
    · decide
  exact command.mono (by rintro _ rfl; exact List.mem_singleton_self _) (fun _ => id) fun _ _ => id

theorem helloPayload_congr {c c₀ : Core} (active : c.activeSlot = c₀.activeSlot)
    (slot : c.writeSlot = c₀.writeSlot) : helloPayload D c = helloPayload D c₀ := by
  unfold helloPayload
  rw [active, slot]

structure Opening (D : Device) (c₀ c : Core) (w : World) : Prop where
  sound : Sound D false c w
  active : c.activeSlot = c₀.activeSlot
  slot : c.writeSlot = c₀.writeSlot
  gen : c.highestGen = c₀.highestGen

theorem hello_triple {c₀ : Core}
    (parses : sure → DeviceInfo.parse (helloPayload D c₀) = .ok (reported D c₀)) :
    Triple (faultFree D shown) D direct sure (·.1 ∈ [cmdHello]) (On (Opening D c₀)) BootClient.hello
      fun info b => On (Cleared D c₀.writeSlot c₀.highestGen 0) b ∧ info.val = reported D c₀ := by
  have performs : Performs (faultFree D shown) D cmdHello (helloReqPayload protoMajor protoMinor).val
      (fun c w => Opening D c₀ c w ∨ (Cleared D c₀.writeSlot c₀.highestGen 0 c w ∧
        c.activeSlot = c₀.activeSlot))
      (fun c w => Cleared D c₀.writeSlot c₀.highestGen 0 c w ∧ c.activeSlot = c₀.activeSlot)
      (· = helloPayload D c₀) sure := by
    apply Performs.of_phase (by decide)
    intro c c' w w' seq es resp act start run
    have opening : Opening D c₀ c w := by
      rcases start with before | ⟨cleared, active⟩
      · exact before
      · exact ⟨cleared.sound, active, cleared.slot, cleared.gen⟩
    obtain ⟨rfl, cleared, active⟩ := hello_phase opening.sound run
    rw [helloPayload_congr opening.active opening.slot]
    rw [opening.slot, opening.gen] at cleared
    exact .inl ⟨_, rfl, helloPayload_fits, ⟨cleared, active.trans opening.active⟩, rfl⟩
  exact (Triple.hello performs parses).mono (fun _ => id) (fun _ => id)
    fun _ _ post => ⟨post.1.1, post.2⟩

/-! ### The loops -/

def From (cmd : Byte) (lo : Nat) (k : Byte × List Byte) : Prop := k.1 = cmd ∧ lo ≤ (get32 k.2).toNat

theorem eraseLoop_triple {start total chunkLen : Word} {fuel : Nat} (done : Word)
    (at_start : start.toNat = D.base target) (aligned : D.block ∣ total.toNat)
    (whole : D.block ∣ chunkLen.toNat) (some : 0 < chunkLen.toNat) (fits : D.Fits target)
    (inside : D.base target + total.toNat ≤ D.recordAt target) (limit : D.recordAt target < 2 ^ 32)
    (enough : total.toNat ≤ done.toNat + fuel) (on_block : D.block ∣ done.toNat)
    (order : done.toNat ≤ total.toNat) :
    Triple (faultFree D shown) D direct sure (From cmdErase (D.base target + done.toNat))
      (On (Cleared D target gen done.toNat))
      (Host.eraseLoop start total D.eraseBlock chunkLen fuel done)
      fun _ => On (Cleared D target gen total.toNat) := by
  -- on the fuel; every pass clears at least one block
  induction fuel generalizing done with
  | zero =>
    have ended : done.toNat = total.toNat := by omega
    rw [ended]
    exact Triple.pure fun _ => id
  | succ fuel ih =>
    unfold Host.eraseLoop
    by_cases more : done < total
    swap
    · have ended : done.toNat = total.toNat := Nat.le_antisymm order (BitVec.not_lt.mp more)
      rw [if_neg more, ended]
      exact Triple.pure fun _ => id
    rw [if_pos more]
    obtain ⟨len, at_len, nonempty, whole', fit, next⟩ := erase_piece some whole aligned on_block more
    have at_addr : (start + done).toNat = D.base target + done.toNat := by
      rw [BitVec.toNat_add, at_start, Nat.mod_eq_of_lt (by omega)]
    have first : Triple (faultFree D shown) D direct sure
        (· = (cmdErase, (eraseReqPayload (start + done) len).val))
        (On (Cleared D target gen done.toNat))
        (Flow.within ("ERASE @ " ++ hex8 (start + done) ++ " (+" ++ toString len.toNat ++ " B)")
          (BootClient.erase (start + done) len
            (BitVec.ofNat 32 (divCeil len.toNat D.eraseBlock.toNat))))
        fun _ => On (Cleared D target gen (done.toNat + len.toNat)) :=
      (erase_triple at_addr on_block whole' nonempty fits (by omega)).adapt
    have rest := ih (done + len) (by omega) (next ▸ Nat.dvd_add on_block whole') (by omega)
    rw [next] at rest
    have at_pl : get32 (eraseReqPayload (start + done) len).val = start + done := (get32_words _ _).1
    simp only [at_len]
    refine (first.bind (fun _ => rest) ?_).mono ?_ (fun _ => id) fun _ _ => id
    · rintro _ rfl ⟨-, later⟩
      simp only [at_pl, at_addr] at later
      omega
    · rintro k (rfl | ⟨same, later⟩)
      · refine ⟨rfl, ?_⟩
        simp only [at_pl, at_addr]
        exact Nat.le_refl _
      · exact ⟨same, by omega⟩

theorem writeLoop_triple {image : Image} {p : FlashPlan} {size fuel : Nat} (off : Nat)
    (at_base : image.base.toNat = D.base target) (len : p.len = image.bytes.length)
    (chunk : 0 < p.chunk) (words : sure → 4 ∣ p.len ∧ 4 ∣ p.chunk) (fits : image.bytes.length ≤ size)
    (whole : D.block ∣ size) (inside : D.base target + size ≤ D.recordAt target)
    (limit : D.recordAt target < 2 ^ 32) (usable : D.Fits target) (enough : p.len ≤ off + fuel)
    (on_word : off < p.len → sure → 4 ∣ off) (order : off ≤ p.len) :
    Triple (faultFree D shown) D direct sure (From cmdWrite (D.base target + off))
      (On (Filled D target gen image.bytes size off)) (Host.writeLoop image p fuel off)
      fun _ => On (Filled D target gen image.bytes size image.bytes.length) := by
  -- on the fuel; every pass writes at least one byte
  induction fuel generalizing off with
  | zero =>
    have ended : off = image.bytes.length := by omega
    rw [ended]
    exact Triple.pure fun _ => id
  | succ fuel ih =>
    unfold Host.writeLoop
    by_cases more : off < p.len
    swap
    · have ended : off = image.bytes.length := by omega
      rw [if_neg more, ended]
      exact Triple.pure fun _ => id
    rw [if_pos more]
    have at_addr : (image.base + BitVec.ofNat 32 off).toNat = D.base target + off := by
      rw [BitVec.toNat_add, at_base, BitVec.toNat_ofNat, Nat.mod_eq_of_lt (by omega : off < 2 ^ 32),
        Nat.mod_eq_of_lt (by omega)]
    have aligned : sure → 4 ∣ off ∧ 4 ∣ min (off + p.chunk) p.len - off := by
      intro certain
      have words := words certain
      have here := on_word more certain
      omega
    have first : Triple (faultFree D shown) D direct sure
        (· = (cmdWrite, (writeReqPayload (image.base + BitVec.ofNat 32 off)
          (chunkAt image p off)).val))
        (On (Filled D target gen image.bytes size off))
        (Flow.within ("WRITE @ " ++ hex8 (image.base + BitVec.ofNat 32 off))
          (BootClient.write (image.base + BitVec.ofNat 32 off) (chunkAt image p off)))
        fun _ => On (Filled D target gen image.bytes size (min (off + p.chunk) p.len)) :=
      (write_triple at_addr rfl (by omega) (by omega) fits whole inside usable aligned).adapt
    have rest := ih (min (off + p.chunk) p.len) (by omega) (fun more' certain => by
      have words := words certain
      have here := on_word more certain
      omega) (by omega)
    have at_pl : get32 (writeReqPayload (image.base + BitVec.ofNat 32 off) (chunkAt image p off)).val =
      image.base + BitVec.ofNat 32 off := get32_put32_append _ _
    refine (first.bind (fun _ => rest) ?_).mono ?_ (fun _ => id) fun _ _ => id
    · rintro _ rfl ⟨-, later⟩
      simp only [at_pl, at_addr] at later
      omega
    · rintro k (rfl | ⟨same, later⟩)
      · refine ⟨rfl, ?_⟩
        simp only [at_pl, at_addr]
        exact Nat.le_refl _
      · exact ⟨same, by omega⟩

/-! ### The flow -/

theorem verifyFlash_triple {image : Image} {p : FlashPlan} (small : image.bytes.length < 2 ^ 32)
    (base : image.base = D.slotBase target) (len : p.len = image.bytes.length)
    (crc : p.crc = crc32 image.bytes)
    (live : p.verify = .commitPlusLiveCrc → D.crcLive = true) :
    Triple (faultFree D shown) D direct sure (·.1 ∈ [cmdCrc]) (On (Committed D target image.bytes))
      (verifyFlash image p) fun _ => On (Committed D target image.bytes) := by
  unfold verifyFlash
  cases plan : p.verify with
  | skipped => exact Triple.pure fun _ => id
  | commitOnly => exact Triple.pure fun _ => id
  | commitPlusLiveCrc =>
    have asked : Triple (faultFree D shown) D direct sure (·.1 ∈ [cmdCrc])
        (On (Committed D target image.bytes))
        (Flow.plain (BootClient.crc (D.slotBase target) (BitVec.ofNat 32 image.bytes.length)))
        fun v b => On (Committed D target image.bytes) b ∧ (D.crcLive = true → v = crc32 image.bytes) :=
      (crc_triple small).adapt
    rw [← base, ← len] at asked
    refine Triple.last asked fun v => ?_
    apply Triple.assume _ (fun b post => post.2 (live plan))
    intro same
    rw [if_neg (by rw [same, crc]; exact not_not_intro rfl)]
    exact Triple.pure fun _ post => post.1

theorem finishFlash_triple {p : FlashPlan} :
    Triple (faultFree D shown) D direct sure (·.1 ∈ [cmdBoot]) (On (Committed D target data))
      (finishFlash p) fun _ => On (Committed D target data) := by
  unfold finishFlash
  by_cases launch : p.boot = true
  · rw [if_pos launch]
    exact boot_triple.adapt
  rw [if_neg launch]
  have asked : Triple (faultFree D shown) D direct sure (fun _ => False) (On (Committed D target data))
      holdsInBootloader fun _ => On (Committed D target data) := by
    apply Triple.lift
    intro s l es a s' l' run start
    obtain ⟨rfl, rfl, -, rfl⟩ := exec_perform.mp run
    exact ⟨List.forall_mem_singleton.mpr rfl, rfl, start⟩
  refine asked.silently _ fun holds => ?_
  by_cases stays : holds = true
  · rw [if_pos stays]
    exact Triple.pure fun _ => id
  · rw [if_neg stays]
    exact boot_triple.adapt

theorem executeFlash_triple {c₀ : Core} {image : Image} {p : FlashPlan} {opts : FlashOpts}
    {usable : (reported D c₀).Usable} (isSlot : IsSlot c₀.writeSlot)
    (planned : planFlash (reported D c₀) usable image opts = .ok p)
    (sealable : sure → Sealable D c₀.highestGen image.bytes) :
    Triple (faultFree D shown) D direct sure
      (·.1 ∈ [cmdErase] ++ ([cmdWrite] ++ ([cmdCommit] ++ ([cmdCrc] ++ [cmdBoot]))))
      (On (Cleared D c₀.writeSlot c₀.highestGen 0)) (executeFlash image p)
      fun _ b => Landed D c₀.writeSlot image.bytes b.world.flash := by
  obtain ⟨base, window, room, span⟩ := planFlash_isOk.mp ⟨p, planned⟩
  obtain ⟨len, block, eraseLen, crc, chunk, live⟩ := planFlash_fields planned
  rw [← eraseLen] at span
  change image.base = D.slotBase c₀.writeSlot at base
  change D.Fits c₀.writeSlot at window
  change p.block = D.eraseBlock at block
  have cap := D.capacity_eq isSlot window
  have at_base : image.base.toNat = D.base c₀.writeSlot := congrArg BitVec.toNat base
  change image.bytes.length ≤ (D.slotCapacity c₀.writeSlot).toNat at room
  change p.eraseLen.toNat ≤ (D.slotCapacity c₀.writeSlot).toNat at span
  have limit := recordAt_bound (D := D) isSlot
  have inside : D.base c₀.writeSlot + image.bytes.length ≤ D.recordAt c₀.writeSlot := by omega
  -- the image is rounded up to whole blocks, which stay below the record
  obtain ⟨enough, rounded⟩ := divCeil_mul image.bytes.length D.block_pos
  have toNat : p.eraseLen.toNat = divCeil image.bytes.length D.block * D.block := by
    have reserve := D.recordAt_add isSlot
    have top := D.span_lt isSlot
    have small := D.block_le
    have number : divCeil image.bytes.length D.block ≤ divCeil image.bytes.length D.block * D.block :=
      Nat.le_mul_of_pos_right _ D.block_pos
    rw [eraseLen]
    change (BitVec.ofNat 32 (divCeil (BitVec.ofNat 32 image.bytes.length).toNat D.block) *
      D.eraseBlock).toNat = _
    rw [BitVec.toNat_ofNat, Nat.mod_eq_of_lt (by omega : image.bytes.length < 2 ^ 32),
      BitVec.toNat_mul, BitVec.toNat_ofNat, Nat.mod_mul_mod]
    change divCeil image.bytes.length D.block * D.block % 2 ^ 32 = _
    exact Nat.mod_eq_of_lt (by omega)
  have whole : D.block ∣ p.eraseLen.toNat := toNat ▸ Nat.dvd_mul_left _ _
  have fits : image.bytes.length ≤ p.eraseLen.toNat := by omega
  have crc : p.crc = crc32 image.bytes := crc.trans (hash_eq _)
  have erased : Triple (faultFree D shown) D direct sure (·.1 ∈ [cmdErase])
      (On (Cleared D c₀.writeSlot c₀.highestGen 0)) (eraseRegion image.base p.eraseLen p.block)
      fun _ => On (Cleared D c₀.writeSlot c₀.highestGen p.eraseLen.toNat) := by
    rw [block]
    have chunks := eraseChunk_blocks D.block_pos
    exact (eraseLoop_triple 0 at_base whole chunks.1 chunks.2 window (by omega)
      (by omega) (by omega) (Nat.dvd_zero _) (Nat.zero_le _)).mono
        (fun k from_ => List.mem_singleton.mpr from_.1) (fun _ => id) fun _ _ => id
  have chunk_size : p.chunk = maxWriteData := chunk
  have written : Triple (faultFree D shown) D direct sure (·.1 ∈ [cmdWrite])
      (On (Cleared D c₀.writeSlot c₀.highestGen p.eraseLen.toNat)) (writeLoop image p p.len 0)
      fun _ => On (Filled D c₀.writeSlot c₀.highestGen image.bytes p.eraseLen.toNat
        image.bytes.length) := by
    refine (writeLoop_triple 0 at_base len ?_ (fun certain => ?_) fits whole (by omega) (by omega) window
      (by omega) (fun _ _ => Nat.dvd_zero _) (Nat.zero_le _)).mono
        (fun k from_ => List.mem_singleton.mpr from_.1) (fun b cleared => cleared.filled image.bytes)
        fun _ _ => id
    · rw [chunk_size]
      decide
    · rw [len, chunk_size]
      exact ⟨(sealable certain).words, by decide⟩
  have committed : Triple (faultFree D shown) D direct sure (·.1 ∈ [cmdCommit])
      (On (Filled D c₀.writeSlot c₀.highestGen image.bytes p.eraseLen.toNat image.bytes.length))
      ((BootClient.commit (BitVec.ofNat 32 p.len) p.crc).adapt (mapCommitMismatch p.crc))
      fun _ => On (Committed D c₀.writeSlot image.bytes) := by
    rw [len, crc]
    exact (commit_triple inside window sealable).adapt
  have verified : Triple (faultFree D shown) D direct sure (·.1 ∈ [cmdCrc])
      (On (Committed D c₀.writeSlot image.bytes)) (verifyFlash image p)
      fun _ => On (Committed D c₀.writeSlot image.bytes) :=
    verifyFlash_triple (by omega) base len crc live
  have finished : Triple (faultFree D shown) D direct sure (·.1 ∈ [cmdBoot])
      (On (Committed D c₀.writeSlot image.bytes)) (finishFlash p)
      fun _ b => Landed D c₀.writeSlot image.bytes b.world.flash :=
    finishFlash_triple.mono (fun _ => id) (fun _ => id) fun _ b post => post.landed (by omega)
  unfold executeFlash
  exact erased.seq (fun _ => written.seq (fun _ => committed.seq (fun _ =>
    verified.seq (fun _ => finished) (by decide)) (by decide)) (by decide)) (by decide)

/-- A device that accepts an image the host would send, as the loaders produce images. -/
structure Installable (D : Device) (c₀ : Core) (source : Source) (opts : FlashOpts) (image : Image) :
    Prop where
  family : source.checkFamily D.chipFamily (reported D c₀).familyName = .ok ()
  variant : source.forBase (D.slotBase c₀.writeSlot) "device write" = .ok image
  plan : ∃ usable p, planFlash (reported D c₀) usable image opts = .ok p
  sealable : Sealable D c₀.highestGen image.bytes

theorem region_of_fits {slot : Word} (isSlot : IsSlot slot) (fits : D.Fits slot) :
    D.flashAppStart < D.appEnd := by
  have region := (D.fits_iff isSlot).mp fits
  have low := D.appStart_le_base isSlot
  have room := D.slot_room
  rw [BitVec.lt_def]
  omega

theorem flash_triple {c₀ : Core} {source : Source} {opts : FlashOpts} (forced : opts.force = true)
    (isSlot : IsSlot c₀.writeSlot)
    (active : c₀.activeSlot = slotNone ∨ c₀.activeSlot = otherSlot c₀.writeSlot)
    (room : c₀.writeSlot = slotB → D.Fits slotA) :
    Triple (faultFree D shown) D direct (∃ image, Installable D c₀ source opts image)
      (·.1 ∈ [cmdHello] ++ ([cmdErase] ++ ([cmdWrite] ++ ([cmdCommit] ++ ([cmdCrc] ++ [cmdBoot])))))
      (On (Opening D c₀)) (flash source opts)
      fun _ b => ∃ image, source.forBase (D.slotBase c₀.writeSlot) "device write" = .ok image ∧
        image.base = D.slotBase c₀.writeSlot ∧ Landed D c₀.writeSlot image.bytes b.world.flash := by
  have opened : Triple (faultFree D shown) D direct (∃ image, Installable D c₀ source opts image)
      (·.1 ∈ [cmdHello]) (On (Opening D c₀)) (Flow.plain BootClient.hello)
      fun info b => On (Cleared D c₀.writeSlot c₀.highestGen 0) b ∧ info.val = reported D c₀ := by
    refine Triple.adapt (hello_triple fun ⟨image, installable⟩ => ?_)
    obtain ⟨usable, p, planned⟩ := installable.plan
    have window : D.Fits c₀.writeSlot := (planFlash_isOk.mp ⟨p, planned⟩).window
    exact parse_helloPayload isSlot active room (region_of_fits isSlot window)
  unfold flash
  -- HELLO first; family, build and plan are then decided without the device
  refine opened.seq (fun ⟨info, usable⟩ => ?_) (by decide)
  apply Triple.assume _ (fun b post => post.2)
  rintro rfl
  refine Triple.silently (fun _ => On (Cleared D c₀.writeSlot c₀.highestGen 0))
    (Triple.check (fun _ _ ⟨_, installable⟩ => ⟨(), installable.family⟩) fun _ _ _ post => post.1)
    fun _ => ?_
  refine Triple.silently (fun image b => On (Cleared D c₀.writeSlot c₀.highestGen 0) b ∧
      source.forBase (D.slotBase c₀.writeSlot) "device write" = .ok image)
    (Triple.check (fun _ _ ⟨image, installable⟩ => ⟨image, installable.variant⟩)
      fun _ _ found post => ⟨post, found⟩) fun image => ?_
  apply Triple.assume _ (fun b post => post.2)
  intro found
  have same : ∀ {other : Image}, Installable D c₀ source opts other → other = image :=
    fun installable => Except.ok.inj (installable.variant.symm.trans found)
  refine Triple.silently (fun p b => On (Cleared D c₀.writeSlot c₀.highestGen 0) b ∧
      planFlash (reported D c₀) usable image opts = .ok p)
    (Triple.check (fun _ _ ⟨other, installable⟩ => ?_) fun _ _ planned post => ⟨post.1, planned⟩)
    fun p => ?_
  · obtain rfl := same installable
    obtain ⟨_, p, planned⟩ := installable.plan
    exact ⟨p, planned⟩
  apply Triple.assume _ (fun b post => post.2)
  intro planned
  have base : image.base = D.slotBase c₀.writeSlot := (planFlash_isOk.mp ⟨p, planned⟩).base
  -- without force the flow would end here
  rw [forced, if_neg (by decide)]
  refine (executeFlash_triple isSlot planned fun ⟨other, installable⟩ => ?_).mono (fun _ => id)
    (fun _ post => post.1) fun _ b landed => ⟨image, found, base, landed⟩
  obtain rfl := same installable
  exact installable.sealable

/-- The flash flow is all or nothing. From any state the core can be in between two frames,
    over a link that loses, delays and damages frames: if it succeeds, the image the device
    asked for lies in flash under a record of its own; and it succeeds if the device can take
    that image and of the attempts at each command one exchange was completed. -/
theorem flash_all_or_nothing {f : Flash} {ls : List Label} {c : Core} {w : World} {source : Source}
    {opts : FlashOpts} {s s' : BootClient} {l' : Link} {es : List (Event transport)}
    {r : Except FlowError Unit} (reached : (machine D).Run (.off f) ls (.idle c w))
    (forced : opts.force = true)
    (run : (flash source opts).run.Exec (link (faultFree D shown) D direct) s ⟨⟨c, w, false⟩, [], []⟩
      es r s' l') :
    (r = .ok () → ∃ image, source.forBase (D.slotBase c.writeSlot) "device write" = .ok image ∧
      image.base = D.slotBase c.writeSlot ∧
      Landed D c.writeSlot image.bytes l'.server.world.flash) ∧
    ((∃ image, Installable D c source opts image) → Answered es → r = .ok ()) := by
  have sound := (idle_sound reached).1
  obtain ⟨-, outcome⟩ := flash_triple forced sound.slot sound.active (frames_of_run reached).room
    s _ es r s' l' ⟨rfl, rfl⟩ ⟨sound, rfl, rfl, rfl⟩ run
  rcases outcome with ⟨_, rfl, -, image, landed⟩ | ⟨err, rfl, unanswered⟩
  · exact ⟨fun _ => ⟨image, landed⟩, fun _ _ => rfl⟩
  · exact ⟨nofun, fun installable answered => absurd answered (unanswered installable)⟩

/-! ### On the simulated link -/

theorem plan_of_run {f : Flash} {ls : List Label} {c : Core} {w : World} {image : Image}
    {opts : FlashOpts} (reached : (machine D).Run (.off f) ls (.idle c w))
    (plannable : Plannable (reported D c) image) :
    ∃ usable p, planFlash (reported D c) usable image opts = .ok p := by
  have sound := (idle_sound reached).1
  have fits : D.Fits c.writeSlot := plannable.window
  have parsed := parse_helloPayload sound.slot sound.active (frames_of_run reached).room
    (region_of_fits sound.slot fits)
  exact ⟨(DeviceInfo.parse_eq_ok.mp parsed).2.2, planFlash_isOk.mpr plannable⟩

namespace Bench

def flashOpts (force : Bool) : FlashOpts := ⟨force, true, true⟩

def everyFourth (seq : Byte) : Bool := decide (seq.toNat % 4 = 0)

def never (_ : Byte) : Bool := false

def lastButOne (D : Device) : Flash :=
  let record := BootRecord.sealed 0xFFFFFFFE (BitVec.ofNat 32 image.length) (crc32 image)
  programBytes (programBytes blank (D.slotBase slotA) image) (D.slotRecordAddr slotA) record.bytes

/-- A run of the flow on a build that the host plans. -/
structure Flashed (D : Device) (force : Bool) (build : Image) (c : Core) (w : World)
    (es : List (Event transport)) (r : Except FlowError Unit) (l : Link) : Prop where
  reached : ∃ f ls, (machine D).Run (.off f) ls (.idle c w)
  plan : ∃ usable p, planFlash (reported D c) usable build (flashOpts force) = .ok p
  run : ∃ s', (flash (.single build) (flashOpts force)).run.Exec
    (link (faultFree D (simulatedView D)) D false) ⟨0⟩ ⟨⟨c, w, false⟩, [], []⟩ es r s' l
  answered : Answered es

def flashes (D : Device) (f : Flash) (lost : Byte → Bool) (force : Bool) (build : Image)
    (test : Core → List (Event transport) → Except FlowError Unit → Link → Bool) : Bool :=
  (bench D unchecked f bootreqMagic []).any fun s =>
    let out := (flash (.single build) (flashOpts force)).run.run (lossy D lost false) ⟨0⟩
      ⟨⟨s.1, s.2, false⟩, [], []⟩
    decide (Plannable (reported D s.1) build) && (decide (Answered out.1) &&
      test s.1 out.1 out.2.1 out.2.2.2)

theorem flashed_of_flashes {D : Device} {f : Flash} {lost : Byte → Bool} {force : Bool} {build : Image}
    {test : Core → List (Event transport) → Except FlowError Unit → Link → Bool}
    (passes : flashes D f lost force build test = true) :
    ∃ c w es r l, Flashed D force build c w es r l ∧ test c es r l = true := by
  obtain ⟨ls, c, w, reached, tested⟩ := bench_reach passes
  simp only [Bool.and_eq_true, decide_eq_true_eq] at tested
  obtain ⟨plannable, answered, tested⟩ := tested
  have run := Program.exec_run (lossy_sound D lost false)
    (flash (.single build) (flashOpts force)).run ⟨0⟩ ⟨⟨c, w, false⟩, [], []⟩
  exact ⟨c, w, _, _, _, ⟨⟨f, ls, reached⟩, plan_of_run reached plannable, ⟨_, run⟩, answered⟩, tested⟩

end Bench

/-- With every fourth answer lost, the first of HELLO and of the last WRITE among them, the flow
    succeeds and the image lies in slot A. -/
theorem flash_all_or_nothing_lossy : ∃ c w es l,
    Bench.Flashed .ch570 true ⟨0x2000, Bench.longImage⟩ c w es (.ok ()) l ∧
      (∃ e ∈ es, ¬ Completed e) ∧ Landed .ch570 slotA Bench.longImage l.server.world.flash := by
  have passes : Bench.flashes .ch570 Bench.blank Bench.everyFourth true ⟨0x2000, Bench.longImage⟩
      (fun c es _ _ => decide (c.writeSlot = slotA ∧ c.highestGen = 0) &&
        decide (∃ e ∈ es, ¬ Completed e)) = true := by decide +kernel
  obtain ⟨c, w, es, r, l, flashed, tested⟩ := Bench.flashed_of_flashes passes
  simp only [Bool.and_eq_true, decide_eq_true_eq] at tested
  obtain ⟨⟨slot, gen⟩, lost⟩ := tested
  obtain ⟨f, ls, reached⟩ := flashed.reached
  obtain ⟨s', run⟩ := flashed.run
  obtain ⟨landed, succeeds⟩ := flash_all_or_nothing reached rfl run
  have base : Device.ch570.slotBase c.writeSlot = 0x2000 := by rw [slot]; rfl
  have variant : (Source.single ⟨0x2000, Bench.longImage⟩).forBase (Device.ch570.slotBase c.writeSlot)
      "device write" = .ok ⟨0x2000, Bench.longImage⟩ := by rw [base]; rfl
  have sealable : Sealable .ch570 c.highestGen Bench.longImage := by
    rw [gen]
    exact ⟨by decide, by decide, by decide, by decide⟩
  obtain rfl := succeeds ⟨_, rfl, variant, flashed.plan, sealable⟩ flashed.answered
  obtain ⟨image, found, -, landed⟩ := landed rfl
  obtain rfl := Except.ok.inj (variant.symm.trans found)
  rw [slot] at landed
  exact ⟨c, w, es, l, flashed, lost, landed⟩

/-- What the flow does not promise: a dry run writes nothing; the core refuses to COMMIT an
    empty image, one that ends within a word, one past the last generation, and, on a part
    that holds slot A alone, one whose first COMMIT was answered in vain. -/
theorem flash_not_all_or_nothing :
    (∃ c w es l, Bench.Flashed .ch570 false ⟨0x2000, Bench.image⟩ c w es (.ok ()) l ∧
      ¬ Landed .ch570 c.writeSlot Bench.image l.server.world.flash) ∧
    (∃ c w es e l, Bench.Flashed .ch570 true ⟨0x2000, []⟩ c w es (.error e) l) ∧
    (∃ c w es e l, Bench.Flashed .ch570 true ⟨0x2000, [1, 2, 3]⟩ c w es (.error e) l) ∧
    (∃ c w es e l, Bench.Flashed .ch570 true ⟨0x1F000, Bench.image⟩ c w es (.error e) l) ∧
    ∃ c w es e l, Bench.Flashed .ch592OnCh591 true ⟨0x2000, Bench.image⟩ c w es (.error e) l := by
  have fails {D : Device} {build : Image} (f : Flash) (lost : Byte → Bool)
      (passes : Bench.flashes D f lost true build (fun _ _ r _ => !r.isOk) = true) :
      ∃ c w es e l, Bench.Flashed D true build c w es (.error e) l := by
    obtain ⟨c, w, es, r, l, flashed, failed⟩ := Bench.flashed_of_flashes passes
    cases r with
    | ok => cases failed
    | error e => exact ⟨c, w, es, e, l, flashed⟩
  refine ⟨?_, fails Bench.blank Bench.never (by decide +kernel),
    fails Bench.blank Bench.never (by decide +kernel),
    fails (Bench.lastButOne .ch570) Bench.never (by decide +kernel),
    fails Bench.blank Bench.everyFourth (by decide +kernel)⟩
  have passes : Bench.flashes .ch570 Bench.blank Bench.never false ⟨0x2000, Bench.image⟩
      (fun c _ r l => r.isOk && decide (l.server.world.flash.bytes (Device.ch570.base c.writeSlot) 4 ≠
        Bench.image)) = true := by decide +kernel
  obtain ⟨c, w, es, r, l, flashed, tested⟩ := Bench.flashed_of_flashes passes
  simp only [Bool.and_eq_true, decide_eq_true_eq] at tested
  obtain ⟨succeeded, untouched⟩ := tested
  cases r with
  | ok => exact ⟨c, w, es, l, flashed, fun landed => untouched landed.bytes⟩
  | error => cases succeeded

end OpenBoot
