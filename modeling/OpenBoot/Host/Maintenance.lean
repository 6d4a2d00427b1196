import OpenBoot.Host.Flows

/-! The flows besides flashing: erase a range, attest an image that is in flash already, and
boot. -/

set_option autoImplicit false

namespace OpenBoot.Host

def eraseTarget (info : DeviceInfo) (all : Bool) (start length : Option Word) :
    Fallible (Word × Word) :=
  if all then do
    let (wbase, wend) ← writeWindow info
    return (wbase, BitVec.ofNat 32 (wend - wbase.toNat))
  else
    match start, length with
    | some s, some l => .ok (s, l)
    | _, _ => bail "erase needs --all, or both --start and --length"

def checkErase (info : DeviceInfo) (start len : Word) : Fallible Unit := do
  if len = 0 then bail "erase length is zero"
  let block := info.eraseBlock
  if start % block ≠ 0 ∨ len % block ≠ 0 then
    bail ("erase range " ++ hex8 start ++ "+0x" ++ hexPadded 1 len.toNat ++
      " is not aligned to the " ++ toString block.toNat ++ "-byte erase block")
  let stop := start.toNat + len.toNat
  let (wbase, wend) ← writeWindow info
  if start < wbase ∨ stop > wend then
    bail ("erase range [" ++ hex8 start ++ ", 0x" ++ hexPadded 8 stop ++
      ") is outside the device's writable slot " ++ slotName info.writeSlot ++ " window [" ++
      hex8 wbase ++ ", 0x" ++ hexPadded 8 wend ++ ")")

/-- Without `force` the plan is printed and nothing is done. -/
def erase (all : Bool) (start length : Option Word) (force : Bool) : Flow Unit := do
  let ⟨info, _⟩ ← Flow.plain BootClient.hello
  let (start, len) ← Flow.check (eraseTarget info all start length)
  Flow.check (checkErase info start len)
  if !force then return ()
  eraseRegion start len info.eraseBlock

/-- BOOT needs a session, so HELLO comes first. -/
def boot (stay : Bool) : Flow Unit := do
  let _ ← Flow.plain BootClient.hello
  bootDevice (if stay then .stay else .app)

/-- COMMIT without a WRITE: the device attests what is in flash already. -/
def bless (source : Source) : Flow Unit := do
  let ⟨info, _⟩ ← Flow.plain BootClient.hello
  Flow.check (source.checkFamily info.chipFamily info.familyName)
  let image ← Flow.check (source.forBase info.writeBase "device write")
  Flow.check (checkCommittable info image)
  (BootClient.commit (BitVec.ofNat 32 image.bytes.length) image.crc32).adapt
    (mapCommitMismatch image.crc32)

structure Erasable (info : DeviceInfo) (start len : Word) : Prop where
  nonempty : len ≠ 0
  aligned : start % info.eraseBlock = 0 ∧ len % info.eraseBlock = 0
  window : info.writeCapacity ≠ 0
  low : info.writeBase ≤ start
  high : start.toNat + len.toNat ≤ info.writeBase.toNat + info.writeCapacity.toNat

variable {info : DeviceInfo} {start len : Word}

theorem checkErase_eq_ok : checkErase info start len = .ok () ↔ Erasable info start len := by
  unfold checkErase writeWindow
  by_cases none : info.writeCapacity = 0
  · rw [if_pos none]
    refine ⟨fun accepted => ?_, fun h => absurd none h.window⟩
    simp only [bail_bind, ite_bail_eq_ok] at accepted
    obtain ⟨-, -, refused⟩ := accepted
    cases refused
  · rw [if_neg none]
    change (if _ then bail _ else if _ then bail _ else if _ then bail _ else .ok ()) = _ ↔ _
    simp only [ite_bail_eq_ok, not_or, BitVec.not_lt, not_lt, Decidable.not_not]
    constructor
    · rintro ⟨nonempty, aligned, ⟨low, high⟩, -⟩
      exact ⟨nonempty, aligned, none, low, high⟩
    · intro h
      exact ⟨h.nonempty, h.aligned, ⟨h.low, h.high⟩, trivial⟩

theorem eraseTarget_all (window : info.writeCapacity ≠ 0) (start length : Option Word) :
    eraseTarget info true start length = .ok (info.writeBase, info.writeCapacity) := by
  unfold eraseTarget writeWindow
  rw [if_neg window]
  change Except.ok (_, BitVec.ofNat 32 (_ + _ - _)) = _
  rw [Nat.add_sub_cancel_left, BitVec.ofNat_toNat, BitVec.setWidth_eq]

end OpenBoot.Host
