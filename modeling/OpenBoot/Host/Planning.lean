import OpenBoot.Host.Calls
import OpenBoot.Host.Flows
import OpenBoot.Memory.Tiling

/-! What the flash flow plans and sends: the blocks it erases and the chunks it writes, over
any transport. The plan multiplies in 32 bits, and is right unless the product overflows. -/

set_option autoImplicit false

namespace OpenBoot

open Semantics Program Host

variable {W : Type} {T : Environment transport W} {s s' : BootClient} {l l' : W}
  {es : List (Event transport)} {info : DeviceInfo} {image : Image} {p : FlashPlan}
  {opts : FlashOpts}

theorem divCeil_mul (len : Nat) {n : Nat} (pos : 0 < n) :
    len ≤ divCeil len n * n ∧ divCeil len n * n < len + n := by
  unfold divCeil
  have split := Nat.div_add_mod' (len + n - 1) n
  have small := Nat.mod_lt (len + n - 1) pos
  omega

theorem divCeil_least {len n : Nat} (pos : 0 < n) :
    IsLeast {m | n ∣ m ∧ len ≤ m} (divCeil len n * n) := by
  obtain ⟨enough, rounded⟩ := divCeil_mul len pos
  refine ⟨⟨Nat.dvd_mul_left _ _, enough⟩, ?_⟩
  rintro m ⟨⟨k, rfl⟩, fits⟩
  by_contra fewer
  have short : k < divCeil len n := by
    refine Nat.lt_of_mul_lt_mul_left (a := n) ?_
    rw [Nat.mul_comm n (divCeil len n)]
    exact Nat.not_le.mp fewer
  have gap := Nat.mul_le_mul_left n (Nat.succ_le_of_lt short)
  rw [Nat.mul_succ, Nat.mul_comm n (divCeil len n)] at gap
  omega

theorem eraseChunk_blocks {block : Word} (pos : 0 < block.toNat) :
    block.toNat ∣ ((if 1 ≤ eraseChunk / block then eraseChunk / block else 1) * block).toNat ∧
    0 < ((if 1 ≤ eraseChunk / block then eraseChunk / block else 1) * block).toNat := by
  split
  · next some =>
    have some := BitVec.le_def.mp some
    have below := Nat.div_mul_le_self eraseChunk.toNat block.toNat
    have bound := eraseChunk.isLt
    rw [BitVec.toNat_udiv] at some
    rw [BitVec.toNat_mul, BitVec.toNat_udiv, Nat.mod_eq_of_lt (by omega)]
    exact ⟨Nat.dvd_mul_left _ _, Nat.mul_pos some pos⟩
  · have one : (1 : Word) * block = block := BitVec.one_mul _
    rw [one]
    exact ⟨Nat.dvd_refl _, pos⟩

def eraseRequests (pieces : List (Nat × Nat)) : List (Byte × List Byte) :=
  pieces.map fun q => (cmdErase, put32 (BitVec.ofNat 32 q.1) ++ put32 (BitVec.ofNat 32 q.2))

def writeRequests (image : Image) (pieces : List (Nat × Nat)) : List (Byte × List Byte) :=
  pieces.map fun q => (cmdWrite, put32 (BitVec.ofNat 32 (image.base.toNat + q.1)) ++
    (image.bytes.drop q.1).take q.2)

theorem erase_piece {total block chunkLen done : Word} (some : 0 < chunkLen.toNat)
    (whole : block.toNat ∣ chunkLen.toNat) (aligned : block.toNat ∣ total.toNat)
    (on_block : block.toNat ∣ done.toNat) (more : done < total) :
    ∃ len, (if chunkLen ≤ total - done then chunkLen else total - done) = len ∧ 0 < len.toNat ∧
      block.toNat ∣ len.toNat ∧ done.toNat + len.toNat ≤ total.toNat ∧
      (done + len).toNat = done.toNat + len.toNat := by
  have more := BitVec.lt_def.mp more
  have left : (total - done).toNat = total.toNat - done.toNat :=
    BitVec.toNat_sub_of_le (BitVec.le_def.mpr more.le)
  have bound := total.isLt
  refine ⟨_, rfl, ?_⟩
  split
  · next small =>
    rw [BitVec.le_def, left] at small
    rw [BitVec.toNat_add, Nat.mod_eq_of_lt (by omega)]
    exact ⟨some, whole, by omega, rfl⟩
  · rw [BitVec.toNat_add, left, Nat.mod_eq_of_lt (by omega)]
    exact ⟨by omega, Nat.dvd_sub aligned on_block, by omega, rfl⟩

theorem eraseLoop_sends {start total block chunkLen : Word} {fuel : Nat} {done : Word}
    {x : Except FlowError Unit} (some : 0 < chunkLen.toNat) (whole : block.toNat ∣ chunkLen.toNat)
    (aligned : block.toNat ∣ total.toNat) (limit : start.toNat + total.toNat < 2 ^ 32)
    (on_block : block.toNat ∣ done.toNat) (order : done.toNat ≤ total.toNat)
    (enough : total.toNat ≤ done.toNat + fuel)
    (run : (Host.eraseLoop start total block chunkLen fuel done).run.Exec T s l es x s' l') :
    ∃ pieces m, Attempts (eraseRequests pieces) es ∧
      Tiles (start.toNat + done.toNat) (start.toNat + m) pieces ∧
      (∀ q ∈ pieces, block.toNat ∣ q.1 - start.toNat ∧ block.toNat ∣ q.2) ∧ m ≤ total.toNat ∧
      (x = .ok () → m = total.toNat) := by
  -- on the fuel; every pass sends one piece
  induction fuel generalizing done s l es with
  | zero =>
    obtain ⟨rfl, -⟩ := exec_return.mp run
    exact ⟨[], done.toNat, .nil, .nil _, List.forall_mem_nil _, order, fun _ => by omega⟩
  | succ fuel ih =>
    unfold Host.eraseLoop at run
    by_cases more : done < total
    swap
    · rw [if_neg more] at run
      obtain ⟨rfl, -⟩ := exec_return.mp run
      have ended := Nat.not_lt.mp fun below => more (BitVec.lt_def.mpr below)
      exact ⟨[], done.toNat, .nil, .nil _, List.forall_mem_nil _, order, fun _ => by omega⟩
    rw [if_pos more] at run
    obtain ⟨len, at_len, nonempty, blocks, fit, next⟩ := erase_piece some whole aligned on_block more
    simp only [at_len] at run
    have at_addr : (start + done).toNat = start.toNat + done.toNat := by
      rw [BitVec.toNat_add, Nat.mod_eq_of_lt (by omega)]
    have request : eraseRequests [(start.toNat + done.toNat, len.toNat)] =
        [(cmdErase, (eraseReqPayload (start + done) len).val)] := by
      have addr : BitVec.ofNat 32 (start.toNat + done.toNat) = start + done := by
        rw [← at_addr, BitVec.ofNat_toNat, BitVec.setWidth_eq]
      simp only [eraseRequests, List.map_cons, List.map_nil, addr, BitVec.ofNat_toNat,
        BitVec.setWidth_eq]
      rfl
    have piece : block.toNat ∣ start.toNat + done.toNat - start.toNat ∧ block.toNat ∣ len.toNat := by
      rw [Nat.add_sub_cancel_left]
      exact ⟨on_block, blocks⟩
    have retries : 0 < (RetryPolicy.retry maxAttempts).attempts := by decide
    rcases exec_seq.mp run with ⟨_, rfl, sent⟩ | ⟨_, _, _, _, _, rfl, sent, rest⟩
    · have attempts := command_attempts retries sent
      refine ⟨[(start.toNat + done.toNat, len.toNat)], done.toNat + len.toNat, ?_, ?_,
        List.forall_mem_singleton.mpr piece, fit, nofun⟩
      · rw [request]
        exact attempts
      · rw [← Nat.add_assoc]
        exact .single nonempty
    · have attempts := command_attempts retries sent
      obtain ⟨pieces, m, later, tiles, multiples, bound, all⟩ := ih
        (next ▸ Nat.dvd_add on_block blocks) (next ▸ fit) (by omega) rest
      rw [next, ← Nat.add_assoc] at tiles
      refine ⟨_, m, ?_, .cons nonempty tiles, List.forall_mem_cons.mpr ⟨piece, multiples⟩, bound, all⟩
      have both := attempts.append later
      rw [← request] at both
      exact both

theorem writeLoop_sends {fuel off : Nat} {x : Except FlowError Unit} (some : 0 < p.chunk)
    (words : 4 ∣ p.chunk) (whole : 4 ∣ p.len) (on_word : 4 ∣ off) (order : off ≤ p.len)
    (enough : p.len ≤ off + fuel)
    (run : (Host.writeLoop image p fuel off).run.Exec T s l es x s' l') :
    ∃ pieces n, Attempts (writeRequests image pieces) es ∧ Tiles off n pieces ∧
      (∀ q ∈ pieces, 4 ∣ q.2 ∧ q.2 ≤ p.chunk) ∧ n ≤ p.len ∧ (x = .ok () → n = p.len) := by
  -- on the fuel; every pass sends one chunk
  induction fuel generalizing off s l es with
  | zero =>
    obtain ⟨rfl, -⟩ := exec_return.mp run
    exact ⟨[], off, .nil, .nil _, List.forall_mem_nil _, order, fun _ => by omega⟩
  | succ fuel ih =>
    unfold Host.writeLoop at run
    by_cases more : off < p.len
    swap
    · rw [if_neg more] at run
      obtain ⟨rfl, -⟩ := exec_return.mp run
      exact ⟨[], off, .nil, .nil _, List.forall_mem_nil _, order, fun _ => by omega⟩
    rw [if_pos more] at run
    obtain ⟨n, at_n⟩ : ∃ n, min (off + p.chunk) p.len = off + n := ⟨min p.chunk (p.len - off), by omega⟩
    have chunk : 0 < n ∧ 4 ∣ n ∧ n ≤ p.chunk ∧ off + n ≤ p.len := by omega
    obtain ⟨nonempty, aligned, small, fit⟩ := chunk
    have request : writeRequests image [(off, n)] = [(cmdWrite,
        (writeReqPayload (image.base + BitVec.ofNat 32 off) (chunkAt image p off)).val)] := by
      have addr : BitVec.ofNat 32 (image.base.toNat + off) = image.base + BitVec.ofNat 32 off := by
        rw [BitVec.ofNat_add, BitVec.ofNat_toNat, BitVec.setWidth_eq]
      have data : (chunkAt image p off).val = (image.bytes.drop off).take n := by
        change (image.bytes.drop off).take (min (off + p.chunk) p.len - off) = _
        rw [at_n, Nat.add_sub_cancel_left]
      simp only [writeRequests, List.map_cons, List.map_nil, addr, writeReqPayload, data]
    have retries : 0 < (RetryPolicy.retry maxAttempts).attempts := by decide
    rcases exec_seq.mp run with ⟨_, rfl, sent⟩ | ⟨_, _, _, _, _, rfl, sent, rest⟩
    · have attempts := command_attempts retries sent
      refine ⟨[(off, n)], off + n, ?_, .single nonempty,
        List.forall_mem_singleton.mpr ⟨aligned, small⟩, fit, nofun⟩
      rw [request]
      exact attempts
    · have attempts := command_attempts retries sent
      rw [at_n] at rest
      obtain ⟨pieces, m, later, tiles, chunks, bound, all⟩ := ih (Nat.dvd_add on_word aligned) fit
        (by omega) rest
      refine ⟨_, m, ?_, .cons nonempty tiles, List.forall_mem_cons.mpr ⟨⟨aligned, small⟩, chunks⟩,
        bound, all⟩
      have both := attempts.append later
      rw [← request] at both
      exact both

def Spares (e : Event transport) : Prop :=
  ∀ k, asked e = some k → k.1 ≠ cmdErase ∧ k.1 ≠ cmdWrite

def Sparing {A X : Type} (T : Environment transport W)
    (q : ExceptT X (Semantics.Program transport BootClient) A) : Prop :=
  ∀ s l es x s' l', q.run.Exec T s l es x s' l' → ∀ e ∈ es, Spares e

namespace Sparing

variable {A B X Y : Type} {q : ExceptT X (Semantics.Program transport BootClient) A}
  {f : A → ExceptT X (Semantics.Program transport BootClient) B}

theorem pure (a : A) : Sparing T (pure a : ExceptT X (Semantics.Program transport BootClient) A) := by
  intro s l es x s' l' run
  obtain ⟨rfl, -⟩ := exec_return.mp run
  exact List.forall_mem_nil _

theorem throw (e : X) : Sparing T (throw e : ExceptT X (Semantics.Program transport BootClient) A) := by
  intro s l es x s' l' run
  obtain ⟨rfl, -⟩ := exec_throw.mp run
  exact List.forall_mem_nil _

theorem bind (first : Sparing T q) (rest : ∀ a, Sparing T (f a)) : Sparing T (q >>= f) := by
  intro s l es x s' l' run
  rcases exec_seq.mp run with ⟨_, -, failed⟩ | ⟨_, _, _, _, _, rfl, done, later⟩
  · exact first _ _ _ _ _ _ failed
  · exact List.forall_mem_append.mpr ⟨first _ _ _ _ _ _ done, rest _ _ _ _ _ _ _ later⟩

theorem adapt {g : X → Y} (h : Sparing T q) : Sparing T (q.adapt g) := by
  intro s l es x s' l' run
  obtain ⟨_, run, -⟩ := exec_adapt run
  exact h _ _ _ _ _ _ run

theorem run {name : String} {cmd : Byte} {payload : Payload} {timeoutMs : Nat} {policy : RetryPolicy}
    (other : cmd ≠ cmdErase ∧ cmd ≠ cmdWrite) :
    Sparing T (BootClient.run name cmd payload timeoutMs policy) := by
  intro s l es x s' l' run e mem k asks
  obtain rfl := Option.some.inj (((runLoop_attempts run).1 e mem).symm.trans asks)
  exact other

theorem holds : Sparing T holdsInBootloader := by
  intro s l es x s' l' run
  obtain ⟨_, -, run⟩ := exec_lift.mp run
  obtain ⟨rfl, -⟩ := exec_perform.mp run
  exact List.forall_mem_singleton.mpr nofun

theorem boot {mode : BootMode} : Sparing T (bootDevice mode) :=
  ((run (by decide)).bind fun _ => pure _).adapt

theorem verify : Sparing T (verifyFlash image p) := by
  unfold verifyFlash
  split
  · have crc : Sparing T (BootClient.crc image.base (BitVec.ofNat 32 p.len)) := by
      refine (run (by decide)).bind fun resp => ?_
      split
      · exact throw _
      · exact pure _
    refine crc.adapt.bind fun deviceCrc => ?_
    split
    · exact throw _
    · exact pure _
  · exact pure _
  · exact pure _

theorem finish : Sparing T (finishFlash p) := by
  unfold finishFlash
  split
  · exact boot
  · refine holds.bind fun holds => ?_
    split
    · exact pure _
    · exact boot

end Sparing

/-- The pieces an update erases and writes, the first `m` bytes of the one and the first `n`
    of the other. -/
structure Pieces (info : DeviceInfo) (image : Image) (erases writes : List (Nat × Nat)) (m n : Nat) :
    Prop where
  erased : Tiles image.base.toNat (image.base.toNat + m) erases
  apart : erases.Pairwise fun q q' => q.1 + q.2 ≤ q'.1
  cover : ∀ a, (∃ q ∈ erases, q.1 ≤ a ∧ a < q.1 + q.2) ↔
    image.base.toNat ≤ a ∧ a < image.base.toNat + m
  blocks : ∀ q ∈ erases, 0 < q.2 ∧ info.eraseBlock.toNat ∣ q.1 - image.base.toNat ∧
    info.eraseBlock.toNat ∣ q.2
  written : Tiles 0 n writes
  chunks : ∀ q ∈ writes, 0 < q.2 ∧ 4 ∣ q.2 ∧ q.2 ≤ info.maxWriteData.toNat
  data : (writes.map fun q => (image.bytes.drop q.1).take q.2).flatten = image.bytes.take n
  inside : (∀ q ∈ erases, info.writeBase.toNat ≤ q.1 ∧
      q.1 + q.2 ≤ info.writeBase.toNat + info.writeCapacity.toNat) ∧
    ∀ q ∈ writes, info.writeBase.toNat ≤ image.base.toNat + q.1 ∧
      image.base.toNat + q.1 + q.2 ≤ info.writeBase.toNat + info.writeCapacity.toNat

/-- A plan computed without overflow that erases the blocks of the image and writes the image,
    whatever the transport answers: all of it, or as far as it gets. -/
structure Exact (info : DeviceInfo) (image : Image) (p : FlashPlan) : Prop where
  product : p.blocks.toNat * p.block.toNat < 2 ^ 32
  least : IsLeast {m | info.eraseBlock.toNat ∣ m ∧ image.bytes.length ≤ m} p.eraseLen.toNat
  sends : ∀ {W : Type} (T : Environment transport W) s l es x s' l',
    (executeFlash image p).run.Exec T s l es x s' l' →
    ∃ erases writes m n es₁ es₂ es₃, es = es₁ ++ (es₂ ++ es₃) ∧
      Attempts (eraseRequests erases) es₁ ∧ Attempts (writeRequests image writes) es₂ ∧
      (∀ e ∈ es₃, Spares e) ∧ Pieces info image erases writes m n ∧
      m ≤ p.eraseLen.toNat ∧ n ≤ image.bytes.length ∧
      (m = p.eraseLen.toNat ∨ es₂ ++ es₃ = [] ∧ ∃ e, x = .error e) ∧
      (n = image.bytes.length ∨ es₃ = [] ∧ ∃ e, x = .error e)

/-- An image for the write slot that fits it, but not when rounded up in 32 bits. -/
def Overflows (info : DeviceInfo) (image : Image) : Prop :=
  image.base = info.writeBase ∧ info.writeCapacity ≠ 0 ∧
    image.bytes.length ≤ info.writeCapacity.toNat ∧
    2 ^ 32 ≤ divCeil image.bytes.length info.eraseBlock.toNat * info.eraseBlock.toNat

section
variable {usable : info.Usable}

theorem Usable.block_pos (usable : info.Usable) : 0 < info.eraseBlock.toNat :=
  Nat.pos_of_ne_zero fun zero => usable.block (BitVec.eq_of_toNat_eq zero)

theorem divCeil_le (len : Nat) {n : Nat} (pos : 0 < n) : divCeil len n ≤ len := by
  have rounded := (divCeil_mul len pos).2
  by_contra more
  have product := Nat.mul_le_mul_right n (Nat.succ_le_of_lt (Nat.not_le.mp more))
  have grown := Nat.le_mul_of_pos_right len pos
  rw [Nat.succ_mul] at product
  omega

/-- The number of blocks is right, and the span is their product in 32 bits. -/
theorem planned_blocks (usable : info.Usable) (fits : image.bytes.length < 2 ^ 32) :
    (BitVec.ofNat 32 (divCeil (BitVec.ofNat 32 image.bytes.length).toNat
        info.eraseBlock.toNat)).toNat = divCeil image.bytes.length info.eraseBlock.toNat ∧
      (eraseSpan info image).toNat =
        divCeil image.bytes.length info.eraseBlock.toNat * info.eraseBlock.toNat % 2 ^ 32 := by
  have number := divCeil_le image.bytes.length (Usable.block_pos usable)
  unfold eraseSpan
  rw [BitVec.toNat_mul, BitVec.toNat_ofNat image.bytes.length, Nat.mod_eq_of_lt fits,
    BitVec.toNat_ofNat, Nat.mod_eq_of_lt (number.trans_lt fits)]
  exact ⟨rfl, rfl⟩

theorem planFlash_blocks (planned : planFlash info usable image opts = .ok p) :
    p.blocks = BitVec.ofNat 32 (divCeil (BitVec.ofNat 32 image.bytes.length).toNat
      info.eraseBlock.toNat) := by
  unfold planFlash at planned
  obtain ⟨_, -, planned⟩ := bind_eq_ok.mp planned
  obtain ⟨_, -, planned⟩ := bind_eq_ok.mp planned
  obtain rfl := Except.ok.inj planned
  rfl

theorem Pieces.of_tiles {erases writes : List (Nat × Nat)} {m n : Nat}
    (base : image.base = info.writeBase)
    (erased : Tiles image.base.toNat (image.base.toNat + m) erases) (written : Tiles 0 n writes)
    (blocks : ∀ q ∈ erases, info.eraseBlock.toNat ∣ q.1 - image.base.toNat ∧
      info.eraseBlock.toNat ∣ q.2)
    (chunks : ∀ q ∈ writes, 4 ∣ q.2 ∧ q.2 ≤ info.maxWriteData.toNat)
    (span : m ≤ info.writeCapacity.toNat) (room : n ≤ info.writeCapacity.toNat) :
    Pieces info image erases writes m n where
  erased := erased
  apart := erased.apart
  cover a := erased.covers
  blocks q mem := ⟨(erased.inside q mem).2.1, blocks q mem⟩
  written := written
  chunks q mem := ⟨(written.inside q mem).2.1, chunks q mem⟩
  data := by
    have joined := written.flatten image.bytes
    rwa [List.drop_zero, Nat.sub_zero] at joined
  inside := by
    rw [base] at erased ⊢
    constructor
    · intro q mem
      have within := erased.inside q mem
      omega
    · intro q mem
      have within := written.inside q mem
      omega

/-- A plan without overflow sends the blocks and the chunks of the image. -/
theorem executeFlash_sends {s s' : BootClient} {l l' : W} {x : Except FlowError Unit}
    (planned : planFlash info usable image opts = .ok p) (words : 4 ∣ image.bytes.length)
    (exact : p.eraseLen.toNat =
      divCeil image.bytes.length info.eraseBlock.toNat * info.eraseBlock.toNat)
    (run : (executeFlash image p).run.Exec T s l es x s' l') :
    ∃ erases writes m n es₁ es₂ es₃, es = es₁ ++ (es₂ ++ es₃) ∧
      Attempts (eraseRequests erases) es₁ ∧ Attempts (writeRequests image writes) es₂ ∧
      (∀ e ∈ es₃, Spares e) ∧ Pieces info image erases writes m n ∧
      m ≤ p.eraseLen.toNat ∧ n ≤ image.bytes.length ∧
      (m = p.eraseLen.toNat ∨ es₂ ++ es₃ = [] ∧ ∃ e, x = .error e) ∧
      (n = image.bytes.length ∨ es₃ = [] ∧ ∃ e, x = .error e) := by
  obtain ⟨base, window, room, span⟩ := planFlash_isOk.mp ⟨p, planned⟩
  obtain ⟨len, block, eraseLen, -, chunk, -⟩ := planFlash_fields planned
  rw [← eraseLen] at span
  have pos := Usable.block_pos usable
  have region := usable.window.2
  have top := info.appEnd.isLt
  have limit : image.base.toNat + p.eraseLen.toNat < 2 ^ 32 := by
    rw [base]
    omega
  obtain ⟨unit, words'⟩ := usable.chunk
  have some : 0 < p.chunk := by
    rw [chunk]
    exact Nat.pos_of_ne_zero fun zero => unit (BitVec.eq_of_toNat_eq zero)
  have aligned : info.eraseBlock.toNat ∣ p.eraseLen.toNat := exact ▸ Nat.dvd_mul_left _ _
  -- one statement of the erase loop for both ways it can end, and so for the writes
  have erasing : ∀ {es : List (Event transport)} {x : Except FlowError Unit} {s' : BootClient} {l' : W},
      (eraseRegion image.base p.eraseLen p.block).run.Exec T s l es x s' l' →
      ∃ pieces m, Attempts (eraseRequests pieces) es ∧
        Tiles image.base.toNat (image.base.toNat + m) pieces ∧
        (∀ q ∈ pieces, info.eraseBlock.toNat ∣ q.1 - image.base.toNat ∧
          info.eraseBlock.toNat ∣ q.2) ∧ m ≤ p.eraseLen.toNat ∧
        (x = .ok () → m = p.eraseLen.toNat) := by
    intro es x s' l' run
    rw [block] at run
    have chunks := eraseChunk_blocks pos
    exact eraseLoop_sends chunks.2 chunks.1 aligned limit (Nat.dvd_zero _) (Nat.zero_le _)
      (Nat.le_add_left _ _) run
  unfold executeFlash at run
  -- a failure anywhere ends the flow: nothing of the later phases was sent
  rcases exec_seq.mp run with ⟨e, rfl, failed⟩ | ⟨es₁, _, _, _, _, rfl, done, run⟩
  · obtain ⟨erases, m, attempts, tiles, blocks, bound, -⟩ := erasing failed
    exact ⟨erases, [], m, 0, es, [], [], (List.append_nil _).symm, attempts, .nil,
      List.forall_mem_nil _, .of_tiles base tiles (.nil _) blocks (List.forall_mem_nil _) (by omega)
        (Nat.zero_le _), bound, Nat.zero_le _, .inr ⟨rfl, e, rfl⟩, .inr ⟨rfl, e, rfl⟩⟩
  obtain ⟨erases, m, erased, tiles, blocks, -, all⟩ := erasing done
  obtain rfl := all rfl
  have writing : ∀ {es : List (Event transport)} {x : Except FlowError Unit} {s s' : BootClient}
      {l l' : W}, (Host.writeLoop image p p.len 0).run.Exec T s l es x s' l' →
      ∃ pieces n, Attempts (writeRequests image pieces) es ∧ Tiles 0 n pieces ∧
        (∀ q ∈ pieces, 4 ∣ q.2 ∧ q.2 ≤ info.maxWriteData.toNat) ∧ n ≤ image.bytes.length ∧
        (x = .ok () → n = image.bytes.length) := by
    intro es x s s' l l' run
    rw [← chunk, ← len]
    exact writeLoop_sends some (chunk ▸ Nat.dvd_of_mod_eq_zero words') (len ▸ words) (Nat.dvd_zero _)
      (Nat.zero_le _) (Nat.le_add_left _ _) run
  rcases exec_seq.mp run with ⟨e, rfl, failed⟩ | ⟨es₂, es₃, _, _, _, rfl, done, run⟩
  · obtain ⟨writes, n, written, pieces, chunks, bound, -⟩ := writing failed
    exact ⟨erases, writes, _, n, es₁, _, [], by rw [List.append_nil], erased, written,
      List.forall_mem_nil _, .of_tiles base tiles pieces blocks chunks span (by omega), Nat.le_refl _,
      bound, .inl rfl, .inr ⟨rfl, e, rfl⟩⟩
  obtain ⟨writes, n, written, pieces, chunks, -, all⟩ := writing done
  obtain rfl := all rfl
  have commit : Sparing T ((BootClient.commit (BitVec.ofNat 32 p.len) p.crc).adapt
      (mapCommitMismatch p.crc)) := ((Sparing.run (by decide)).bind fun _ => .pure _).adapt
  have spared := commit.bind (fun _ => Sparing.verify.bind fun _ => Sparing.finish (p := p)) _ _ _ _
    _ _ run
  exact ⟨erases, writes, _, _, es₁, es₂, es₃, rfl, erased, written, spared,
    .of_tiles base tiles pieces blocks chunks span room, Nat.le_refl _, Nat.le_refl _, .inl rfl,
    .inl rfl⟩

/-- The flash flow plans and sends exactly the image, unless the whole blocks of an image that
    fits the write slot add up to 2^32 bytes or more: then the product wraps, and the plan
    passes all the same. -/
theorem flash_exact_iff (usable : info.Usable) (image : Image) (opts : FlashOpts)
    (words : 4 ∣ image.bytes.length) :
    (∀ p, planFlash info usable image opts = .ok p → Exact info image p) ↔
      ¬ Overflows info image := by
  have pos := Usable.block_pos usable
  constructor
  · rintro exact ⟨base, window, room, overflow⟩
    have bound := info.writeCapacity.isLt
    have small : image.bytes.length < 2 ^ 32 := by omega
    obtain ⟨number, span⟩ := planned_blocks usable small
    have rounded := (divCeil_mul image.bytes.length pos).2
    have block := info.eraseBlock.isLt
    -- what is left of the product is less than the image
    have wrapped : divCeil image.bytes.length info.eraseBlock.toNat * info.eraseBlock.toNat % 2 ^ 32 =
        divCeil image.bytes.length info.eraseBlock.toNat * info.eraseBlock.toNat - 2 ^ 32 := by
      rw [Nat.mod_eq_sub_mod overflow, Nat.mod_eq_of_lt (by omega)]
    obtain ⟨p, planned⟩ : ∃ p, planFlash info usable image opts = .ok p :=
      planFlash_isOk.mpr ⟨base, window, room, by rw [span, wrapped]; omega⟩
    have product := (exact p planned).product
    rw [planFlash_blocks planned, number, (planFlash_fields planned).2.1] at product
    omega
  · intro fits p planned
    obtain ⟨base, window, room, span⟩ := planFlash_isOk.mp ⟨p, planned⟩
    have bound := info.writeCapacity.isLt
    have small : image.bytes.length < 2 ^ 32 := by omega
    have product : divCeil image.bytes.length info.eraseBlock.toNat * info.eraseBlock.toNat < 2 ^ 32 :=
      Nat.not_le.mp fun overflow => fits ⟨base, window, room, overflow⟩
    obtain ⟨number, spans⟩ := planned_blocks usable small
    obtain ⟨-, block, eraseLen, -⟩ := planFlash_fields planned
    rw [← eraseLen, Nat.mod_eq_of_lt product] at spans
    refine ⟨?_, ?_, fun T s l es x s' l' run => executeFlash_sends planned words spans run⟩
    · rw [planFlash_blocks planned, number, block]
      exact product
    · rw [spans]
      exact divCeil_least pos

end

def partInfo (block capacity : Word) : DeviceInfo where
  protoMajor := protoMajor
  protoMinor := protoMinor
  chipRev := 0
  blVersion := 0
  chipFamily := 1
  transport := 2
  appStart := 0
  appEnd := 0xFFFFFFFF
  eraseBlock := block
  writePage := 256
  writeAlign := 4
  maxWriteData := 48
  features := 0
  uid := 0
  slotCount := 2
  activeSlot := slotIdNone
  writeSlot := 0
  writeBase := 0
  writeCapacity := capacity

theorem partInfo_usable {block capacity : Word} (some : block ≠ 0) :
    (partInfo block capacity).Usable where
  region := (by decide : (0 : Word) < 0xFFFFFFFF)
  block := some
  align := (by decide : (4 : Byte) ≠ 0)
  chunk := (by decide : (48 : Byte) ≠ 0 ∧ (48 : Byte).toNat % 4 = 0)
  ceiling := (by decide : (48 : Byte).toNat ≤ maxWriteData)
  slots := (by decide : (2 : Byte) ≠ 0)
  target := (by decide : (0 : Byte) < 2)
  active := .inl rfl
  window := by
    refine ⟨BitVec.le_refl _, ?_⟩
    have bound := capacity.isLt
    change 0 + capacity.toNat ≤ 0xFFFFFFFF
    omega

/-- Ten thousand bytes on a part with pages of 4 KiB: the last block and the last chunk are not
    full. -/
theorem flash_exact_page : ∃ p, planFlash (partInfo 4096 0x1C000) (partInfo_usable (by decide))
      ⟨0, List.replicate 10000 0x5A⟩ ⟨true, true, true⟩ = .ok p ∧
    p.blocks = 3 ∧ p.len = 208 * p.chunk + 16 ∧
    Exact (partInfo 4096 0x1C000) ⟨0, List.replicate 10000 0x5A⟩ p := by
  have length : (List.replicate 10000 (0x5A : Byte)).length = 10000 := List.length_replicate
  -- two and a half blocks, rounded up to three
  have span : eraseSpan (partInfo 4096 0x1C000) ⟨0, List.replicate 10000 0x5A⟩ = 0x3000 := by
    unfold eraseSpan
    simp only [length]
    decide
  have plannable : Plannable (partInfo 4096 0x1C000) ⟨0, List.replicate 10000 0x5A⟩ := by
    refine ⟨rfl, by decide, ?_, ?_⟩
    · simp only [length]
      decide
    · rw [span]
      decide
  obtain ⟨p, planned⟩ :=
    (@planFlash_isOk _ (partInfo_usable (by decide)) _ ⟨true, true, true⟩).mpr plannable
  have fits : ¬ Overflows (partInfo 4096 0x1C000) ⟨0, List.replicate 10000 0x5A⟩ := by
    rintro ⟨-, -, -, overflow⟩
    simp only [length] at overflow
    exact absurd overflow (by decide)
  obtain ⟨len, -, -, -, chunk, -⟩ := planFlash_fields planned
  refine ⟨p, planned, ?_, ?_, (flash_exact_iff _ _ _ (by simp only [length]; decide)).mpr fits p planned⟩
  · rw [planFlash_blocks planned]
    simp only [length]
    decide
  · rw [len, chunk]
    simp only [length]
    decide

/-- Two blocks of 2 GiB: the plan for one word more than 2 GiB erases nothing. -/
theorem flash_span_wraps : ∃ p, planFlash (partInfo 0x80000000 0x80000004)
      (partInfo_usable (by decide)) ⟨0, List.replicate 0x80000004 0⟩ ⟨true, true, true⟩ = .ok p ∧
    p.eraseLen = 0 ∧
    ¬ Exact (partInfo 0x80000000 0x80000004) ⟨0, List.replicate 0x80000004 0⟩ p := by
  have length : (List.replicate 0x80000004 (0 : Byte)).length = 0x80000004 := List.length_replicate
  have span : eraseSpan (partInfo 0x80000000 0x80000004) ⟨0, List.replicate 0x80000004 0⟩ = 0 := by
    unfold eraseSpan
    simp only [length]
    decide
  have plannable : Plannable (partInfo 0x80000000 0x80000004) ⟨0, List.replicate 0x80000004 0⟩ := by
    refine ⟨rfl, by decide, ?_, ?_⟩
    · simp only [length]
      decide
    · rw [span]
      exact Nat.zero_le _
  obtain ⟨p, planned⟩ :=
    (@planFlash_isOk _ (partInfo_usable (by decide)) _ ⟨true, true, true⟩).mpr plannable
  have eraseLen := (planFlash_fields planned).2.2.1.trans span
  refine ⟨p, planned, eraseLen, fun exact => ?_⟩
  have enough := exact.least.1.2
  rw [eraseLen] at enough
  simp only [length] at enough
  exact absurd enough (by decide)

end OpenBoot
