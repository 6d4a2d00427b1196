import OpenBoot.Host.Flows

/-! The verify flow: HELLO, the image that should be running, and the CRC of the flash over
its range. -/

set_option autoImplicit false

namespace OpenBoot.Host

def checkInRegion (info : DeviceInfo) (base : Word) (len : Nat) : Fallible Unit :=
  let stop := base.toNat + len
  if base < info.appStart ∨ stop > info.appEnd.toNat then
    bail ("image [" ++ hex8 base ++ ", 0x" ++ hexPadded 8 stop ++
      ") is outside the device app region [" ++ hex8 info.appStart ++ ", " ++ hex8 info.appEnd ++
      ")")
  else .ok ()

/-- The image to compare with what is running: the variant that is not the write target. -/
def Source.forRunningImage (source : Source) (writeBase : Word) : Fallible Image :=
  match source with
  | single image => .ok image
  | bundle b =>
    match b.images.filter fun i => i.base ≠ writeBase with
    | [only] => .ok only
    | [] =>
      bail ("the bundle only carries the build for " ++ hex8 writeBase ++
        ", which is the slot the device is about to WRITE, not the one it is running — verifying" ++
        " it would report on the wrong slot")
    | others =>
      bail ("cannot tell which variant is running: the bundle carries " ++
        toString others.length ++ " builds besides the write target " ++ hex8 writeBase ++
        ". Pass the single image for the slot you want to check.")

/-- Read-only comparison of the device's CRC with the local image. -/
def verify (source : Source) : Flow Unit := do
  let ⟨info, _⟩ ← Flow.plain BootClient.hello
  Flow.check (source.checkFamily info.chipFamily info.familyName)
  let image ← Flow.check (source.forRunningImage info.writeBase)
  Flow.check (checkInRegion info image.base image.bytes.length)
  let localCrc := image.crc32
  let deviceCrc ← Flow.plain (BootClient.crc image.base (BitVec.ofNat 32 image.bytes.length))
  if deviceCrc ≠ localCrc then throw (.mismatch ⟨localCrc, some deviceCrc⟩)

variable {info : DeviceInfo} {base : Word} {len : Nat}

theorem checkInRegion_eq_ok : checkInRegion info base len = .ok () ↔
    info.appStart ≤ base ∧ base.toNat + len ≤ info.appEnd.toNat := by
  unfold checkInRegion
  rw [ite_bail_eq_ok, not_or, BitVec.not_lt, not_lt]
  exact ⟨fun accepted => accepted.1, fun accepted => ⟨accepted, rfl⟩⟩

theorem forRunningImage_eq_ok {b : Bundle} {image : Image} :
    (Source.bundle b).forRunningImage base = .ok image ↔
      (b.images.filter fun i => i.base ≠ base) = [image] := by
  unfold Source.forRunningImage
  simp only
  generalize b.images.filter (fun i => i.base ≠ base) = others
  match others with
  | [] => exact ⟨nofun, nofun⟩
  | [only] =>
    exact ⟨fun same => congrArg (fun i => [i]) (Except.ok.inj same),
      fun same => congrArg Except.ok (List.cons.inj same).1⟩
  | _ :: _ :: _ => exact ⟨nofun, nofun⟩

end OpenBoot.Host
