import OpenBoot.Core.Checksum

/-! What the host's modules share: images, errors with context, and the CRC crate. -/

set_option autoImplicit false

namespace OpenBoot.Host

/-- `crc32fast::hash`, the CRC the crate documents. -/
def hash (data : List Byte) : Word := crc32Hdlc data

theorem hash_eq (data : List Byte) : hash data = crc32 data := (crc32_eq_hdlc data).symm

/-- An error message with the contexts wrapped around it, outermost first. -/
abbrev Fallible := Except (List String)

def bail {A : Type} (message : String) : Fallible A := .error [message]

def context {A : Type} (message : String) : Fallible A → Fallible A
  | .error chain => .error (message :: chain)
  | .ok a => .ok a

@[simp] theorem bail_bind {A B : Type} (message : String) (f : A → Fallible B) :
    (bail message >>= f) = bail message := rfl

@[simp] theorem ite_bail_eq_ok {A : Type} {c : Prop} [Decidable c] {message : String}
    {rest : Fallible A} {a : A} :
    (if c then bail message else rest) = .ok a ↔ ¬ c ∧ rest = .ok a := by
  by_cases h : c <;> simp [h, bail]

theorem bind_eq_ok {A B : Type} {r : Fallible A} {f : A → Fallible B} {b : B} :
    (r >>= f) = .ok b ↔ ∃ a, r = .ok a ∧ f a = .ok b := by
  cases r with
  | error chain => constructor <;> rintro ⟨⟩; next h => cases h.1
  | ok a => exact ⟨fun h => ⟨a, rfl, h⟩, fun ⟨_, same, h⟩ => Except.ok.inj same ▸ h⟩

@[simp] theorem context_eq_ok {A : Type} {message : String} {r : Fallible A} {a : A} :
    context message r = .ok a ↔ r = .ok a := by
  cases r <;> simp [context]

def hexPadded (width n : Nat) : String :=
  let digits := (Nat.toDigits 16 n).map Char.toUpper
  String.ofList (List.replicate (width - digits.length) '0' ++ digits)

def hex8 (w : Word) : String := "0x" ++ hexPadded 8 w.toNat

def hex2 (b : Byte) : String := "0x" ++ hexPadded 2 b.toNat

structure Image where
  base : Word
  bytes : List Byte
  deriving DecidableEq

namespace Image

def crc32 (img : Image) : Word := hash img.bytes

/-- The address after the image, which may lie past the address space. -/
def stop (img : Image) : Nat := img.base.toNat + img.bytes.length

end Image

end OpenBoot.Host
