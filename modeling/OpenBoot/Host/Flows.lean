import OpenBoot.Host.Bundle
import OpenBoot.Host.Client

/-! The flash flow: HELLO, plan, chunked ERASE, sequential WRITE, COMMIT, an optional
cross-check, BOOT. -/

set_option autoImplicit false

namespace OpenBoot.Host

def eraseChunk : Word := 32 * 1024

structure VerifyMismatch where
  localCrc : Word
  /-- `none` when COMMIT was rejected, which does not disclose the device's CRC. -/
  deviceCrc : Option Word
  deriving DecidableEq

/-- Why a flow gave up, with the contexts wrapped around the cause. -/
inductive FlowError where
  | context (message : String) (inner : FlowError)
  | client (e : ClientError)
  | mismatch (m : VerifyMismatch)
  | refused (chain : List String)
  deriving DecidableEq

abbrev Flow := ExceptT FlowError (Semantics.Program transport BootClient)

namespace Flow

def within {A : Type} (message : String) (p : Client A) : Flow A :=
  p.adapt fun e => .context message (.client e)

def plain {A : Type} (p : Client A) : Flow A := p.adapt .client

def check {A : Type} (r : Fallible A) : Flow A := ExceptT.mk (pure (r.mapError .refused))

end Flow

def slotName (slot : Byte) : String :=
  if slot = slotIdNone then "none"
  else if slot.toNat ≤ 25 then String.singleton (Char.ofNat (65 + slot.toNat))
  else toString slot.toNat

/-- The window this session may mutate; a zero capacity means there is none. -/
def writeWindow (info : DeviceInfo) : Fallible (Word × Nat) :=
  if info.writeCapacity = 0 then
    bail ("device reports no writable slot: slot " ++ slotName info.writeSlot ++
      " does not fit this silicon, whose app region ends at " ++ hex8 info.appEnd ++
      ". The bootloader was built for a larger variant of this family.")
  else .ok (info.writeBase, info.writeBase.toNat + info.writeCapacity.toNat)

def checkInWriteWindow (info : DeviceInfo) (base : Word) (len : Nat) : Fallible Unit := do
  let (wbase, wend) ← writeWindow info
  let stop := base.toNat + len
  if base < wbase ∨ stop > wend then
    bail ("[" ++ hex8 base ++ ", 0x" ++ hexPadded 8 stop ++
      ") is outside the device's writable slot " ++ slotName info.writeSlot ++ " window [" ++
      hex8 wbase ++ ", 0x" ++ hexPadded 8 wend ++ ")")

/-- COMMIT attests images that start at the write base, so an offset image could
    never be committed. -/
def checkCommittable (info : DeviceInfo) (image : Image) : Fallible Unit := do
  if image.base ≠ info.writeBase then
    bail ("image base " ++ hex8 image.base ++ " != device write base " ++ hex8 info.writeBase ++
      " (slot " ++ slotName info.writeSlot ++ "); COMMIT attests images starting at the write base," ++
      " so flash and bless need an image linked for that slot")
  checkInWriteWindow info image.base image.bytes.length

structure FlashOpts where
  /-- Without it the plan is printed and nothing is done. -/
  force : Bool
  verify : Bool
  boot : Bool

inductive VerifyPlan where
  | skipped
  | commitOnly
  | commitPlusLiveCrc
  deriving DecidableEq

structure FlashPlan where
  len : Nat
  block : Word
  blocks : Word
  eraseLen : Word
  crc : Word
  chunk : Nat
  writes : Nat
  verify : VerifyPlan
  boot : Bool
  /-- Parsing the device info has enforced the protocol's ceiling. -/
  chunk_fits : chunk ≤ maxWriteData

def divCeil (n d : Nat) : Nat := (n + d - 1) / d

def planFlash (info : DeviceInfo) (usable : info.Usable) (image : Image) (opts : FlashOpts) :
    Fallible FlashPlan := do
  checkCommittable info image
  let len := image.bytes.length
  let block := info.eraseBlock
  let blocks := BitVec.ofNat 32 (divCeil (BitVec.ofNat 32 len).toNat block.toNat)
  let eraseLen := blocks * block
  context "erase span (image rounded up to whole blocks)"
    (checkInWriteWindow info image.base eraseLen.toNat)
  return {
    len := len
    block := block
    blocks := blocks
    eraseLen := eraseLen
    crc := image.crc32
    chunk := info.maxWriteData.toNat
    writes := divCeil len info.maxWriteData.toNat
    verify :=
      if !opts.verify then .skipped
      else if info.crcLive then .commitPlusLiveCrc
      else .commitOnly
    boot := opts.boot
    chunk_fits := usable.ceiling }

theorem checkInWriteWindow_eq_ok {info : DeviceInfo} {base : Word} {len : Nat} :
    checkInWriteWindow info base len = .ok () ↔ info.writeCapacity ≠ 0 ∧ info.writeBase ≤ base ∧
      base.toNat + len ≤ info.writeBase.toNat + info.writeCapacity.toNat := by
  unfold checkInWriteWindow writeWindow
  by_cases none : info.writeCapacity = 0
  · rw [if_pos none]
    exact ⟨nofun, fun accepted => absurd none accepted.1⟩
  · rw [if_neg none]
    change (if _ then bail _ else .ok ()) = _ ↔ _
    rw [ite_bail_eq_ok, not_or, BitVec.not_lt, not_lt]
    exact ⟨fun accepted => ⟨none, accepted.1⟩, fun accepted => ⟨accepted.2, rfl⟩⟩

theorem checkCommittable_eq_ok {info : DeviceInfo} {image : Image} :
    checkCommittable info image = .ok () ↔ image.base = info.writeBase ∧ info.writeCapacity ≠ 0 ∧
      image.bytes.length ≤ info.writeCapacity.toNat := by
  unfold checkCommittable
  by_cases base : image.base = info.writeBase
  swap
  · rw [if_pos base]
    exact ⟨nofun, fun accepted => absurd accepted.1 base⟩
  rw [if_neg (not_not_intro base)]
  change checkInWriteWindow info image.base image.bytes.length = .ok () ↔ _
  rw [checkInWriteWindow_eq_ok, base, Nat.add_le_add_iff_left]
  exact ⟨fun accepted => ⟨rfl, accepted.1, accepted.2.2⟩,
    fun accepted => ⟨accepted.2.1, BitVec.le_refl _, accepted.2.2⟩⟩

def eraseSpan (info : DeviceInfo) (image : Image) : Word :=
  BitVec.ofNat 32 (divCeil (BitVec.ofNat 32 image.bytes.length).toNat info.eraseBlock.toNat) *
    info.eraseBlock

/-- An image that fits the device's window in whole blocks. -/
structure Plannable (info : DeviceInfo) (image : Image) : Prop where
  base : image.base = info.writeBase
  window : info.writeCapacity ≠ 0
  room : image.bytes.length ≤ info.writeCapacity.toNat
  span : (eraseSpan info image).toNat ≤ info.writeCapacity.toNat

instance (info : DeviceInfo) (image : Image) : Decidable (Plannable info image) :=
  decidable_of_iff (image.base = info.writeBase ∧ info.writeCapacity ≠ 0 ∧
      image.bytes.length ≤ info.writeCapacity.toNat ∧
      (eraseSpan info image).toNat ≤ info.writeCapacity.toNat)
    ⟨fun ⟨base, window, room, span⟩ => ⟨base, window, room, span⟩,
      fun h => ⟨h.base, h.window, h.room, h.span⟩⟩

section
variable {info : DeviceInfo} {usable : info.Usable} {image : Image} {opts : FlashOpts} {p : FlashPlan}

/-- Exactly these images are planned. -/
theorem planFlash_isOk : (∃ p, planFlash info usable image opts = .ok p) ↔ Plannable info image := by
  have spans : checkInWriteWindow info image.base (eraseSpan info image).toNat = .ok () ↔
      info.writeCapacity ≠ 0 ∧ info.writeBase ≤ image.base ∧
        image.base.toNat + (eraseSpan info image).toNat ≤
          info.writeBase.toNat + info.writeCapacity.toNat := checkInWriteWindow_eq_ok
  unfold planFlash
  constructor
  · rintro ⟨p, planned⟩
    obtain ⟨_, committable, planned⟩ := bind_eq_ok.mp planned
    obtain ⟨_, spanned, -⟩ := bind_eq_ok.mp planned
    obtain ⟨base, window, room⟩ := checkCommittable_eq_ok.mp committable
    obtain ⟨-, -, span⟩ := spans.mp (context_eq_ok.mp spanned)
    rw [base, Nat.add_le_add_iff_left] at span
    exact ⟨base, window, room, span⟩
  · intro h
    refine ⟨_, bind_eq_ok.mpr ⟨(), checkCommittable_eq_ok.mpr ⟨h.base, h.window, h.room⟩,
      bind_eq_ok.mpr ⟨(), context_eq_ok.mpr (spans.mpr ⟨h.window, ?_, ?_⟩), rfl⟩⟩⟩
    · rw [h.base]
      exact BitVec.le_refl _
    · rw [h.base]
      exact Nat.add_le_add_left h.span _

theorem planFlash_fields (planned : planFlash info usable image opts = .ok p) :
    p.len = image.bytes.length ∧ p.block = info.eraseBlock ∧ p.eraseLen = eraseSpan info image ∧
      p.crc = image.crc32 ∧ p.chunk = info.maxWriteData.toNat ∧
      (p.verify = .commitPlusLiveCrc → info.crcLive = true) := by
  unfold planFlash at planned
  obtain ⟨_, -, planned⟩ := bind_eq_ok.mp planned
  obtain ⟨_, -, planned⟩ := bind_eq_ok.mp planned
  obtain rfl := Except.ok.inj planned
  refine ⟨rfl, rfl, rfl, rfl, rfl, fun live => ?_⟩
  dsimp only at live
  split at live
  · cases live
  · split at live
    · assumption
    · cases live

end

/-- The loop of `erase_region`. Every pass advances, so `total` passes are enough. -/
def eraseLoop (start total block chunkLen : Word) : Nat → Word → Flow Unit
  | 0, _ => return ()
  | fuel + 1, done => do
    if done < total then
      let addr := start + done
      let len := if chunkLen ≤ total - done then chunkLen else total - done
      let blocks := BitVec.ofNat 32 (divCeil len.toNat block.toNat)
      Flow.within ("ERASE @ " ++ hex8 addr ++ " (+" ++ toString len.toNat ++ " B)")
        (BootClient.erase addr len blocks)
      eraseLoop start total block chunkLen fuel (done + len)

def eraseRegion (start total block : Word) : Flow Unit :=
  let blocksPerChunk := if 1 ≤ eraseChunk / block then eraseChunk / block else 1
  eraseLoop start total block (blocksPerChunk * block) total.toNat 0

def chunkAt (image : Image) (p : FlashPlan) (off : Nat) : Chunk where
  val := (image.bytes.drop off).take (min (off + p.chunk) p.len - off)
  property := by
    have fits := p.chunk_fits
    rw [List.length_take]
    omega

def writeLoop (image : Image) (p : FlashPlan) : Nat → Nat → Flow Unit
  | 0, _ => return ()
  | fuel + 1, off => do
    if off < p.len then
      let stop := min (off + p.chunk) p.len
      let addr := image.base + BitVec.ofNat 32 off
      Flow.within ("WRITE @ " ++ hex8 addr) (BootClient.write addr (chunkAt image p off))
      writeLoop image p fuel stop

def mapCommitMismatch (localCrc : Word) (e : ClientError) : FlowError :=
  match e with
  | .device _ source =>
    if source.status = eVerify ∧ source.detail = some detVerifyMismatch then
      .mismatch ⟨localCrc, none⟩
    else .client e
  | e => .client e

def bootDevice (mode : BootMode) : Flow Unit :=
  Flow.within ("BOOT is never retried (a lost response is indistinguishable from a successful" ++
    " boot); re-run `openboot probe` to check the device state") (BootClient.boot mode)

def holdsInBootloader : Flow Bool :=
  ExceptT.lift (Semantics.Program.perform (I := transport) .holdsInBootloader)

def verifyFlash (image : Image) (p : FlashPlan) : Flow Unit := do
  match p.verify with
  | .commitPlusLiveCrc =>
    let deviceCrc ← Flow.plain (BootClient.crc image.base (BitVec.ofNat 32 p.len))
    if deviceCrc ≠ p.crc then throw (.mismatch ⟨p.crc, some deviceCrc⟩)
  | .commitOnly => return ()
  | .skipped => return ()

/-- What the plan says of BOOT. Over a tunnel the session must not be left open, so the
    device is reset into the bootloader. -/
def finishFlash (p : FlashPlan) : Flow Unit := do
  if p.boot then bootDevice .app
  else
    let holds ← holdsInBootloader
    if holds then return ()
    else bootDevice .stay

def executeFlash (image : Image) (p : FlashPlan) : Flow Unit := do
  eraseRegion image.base p.eraseLen p.block
  writeLoop image p p.len 0
  (BootClient.commit (BitVec.ofNat 32 p.len) p.crc).adapt (mapCommitMismatch p.crc)
  verifyFlash image p
  finishFlash p

/-- The full flow. Which build to send is the device's answer. -/
def flash (source : Source) (opts : FlashOpts) : Flow Unit := do
  let ⟨info, usable⟩ ← Flow.plain BootClient.hello
  Flow.check (source.checkFamily info.chipFamily info.familyName)
  let image ← Flow.check (source.forBase info.writeBase "device write")
  let plan ← Flow.check (planFlash info usable image opts)
  if !opts.force then return ()
  executeFlash image plan

end OpenBoot.Host
