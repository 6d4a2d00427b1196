import OpenBoot.Memory.Nor
import OpenBoot.Port.Device
import OpenBoot.Semantics.Program

/-! The port hooks the core calls and the simulated part behind them.

The controller sees the true content. An XIP read of a block modified since
reset may, without the live-CRC feature, still serve any content the block had
since then. A failing erase leaves its block as it was or erased; a failing
write has programmed some whole-word prefix; a verify may fail at will but only
succeeds on equal bytes.
-/

set_option autoImplicit false

namespace OpenBoot

inductive PortOp where
  | flashErase (addr len : Word)
  | flashWrite (addr : Word) (buf : List Byte)
  | flashVerify (addr : Word) (buf : List Byte)
  | xipRead32 (addr : Word)
  deriving DecidableEq

/-- Every hook answers with a word: a driver code, 0 for success, or the word read. -/
abbrev port : Semantics.Signature := ⟨PortOp, fun _ => Word⟩

def PortOp.isFlash : PortOp → Bool
  | .xipRead32 _ => false
  | _ => true

abbrev Flash := Nor.Image 8

/-- The byte of the erased word an address shows when erased. -/
def erasedByte (a : Nat) : Byte := (erasedWord >>> (8 * (a % 4))).setWidth 8

def Flash.bytes (f : Flash) (lo len : Nat) : List Byte := Nor.read f lo len

def Flash.read32 (f : Flash) (addr : Word) : Word := get32 (f.bytes addr.toNat 4)

structure World where
  flash : Flash
  /-- Contents since reset, latest first: what a stale XIP view may serve. -/
  past : List Flash
  /-- Blocks erased successfully since reset, by block number. -/
  blkErased : Nat → Bool
  /-- Controller commands since reset with their codes, latest first. -/
  ops : List (PortOp × Word)

namespace World

/-- The part after a reset: only the flash content survives. -/
def reset (f : Flash) : World := ⟨f, [], fun _ => false, []⟩

def touched (w : World) (op : PortOp) (x : Word) (f : Flash) : World :=
  { w with flash := f, past := w.flash :: w.past, ops := (op, x) :: w.ops }

def logged (w : World) (op : PortOp) (x : Word) : World := { w with ops := (op, x) :: w.ops }

def markErased (D : Device) (w : World) (addr len : Word) : World :=
  { w with blkErased := fun b =>
      decide (addr.toNat / D.block ≤ b ∧ b < (addr.toNat + len.toNat) / D.block) || w.blkErased b }

end World

def eraseRange (f : Flash) (addr len : Word) : Flash :=
  Nor.erase erasedByte f addr.toNat len.toNat

def programBytes (f : Flash) (addr : Word) (buf : List Byte) : Flash :=
  Nor.program f addr.toNat buf

/-- A content an XIP read may be served from. -/
def XipView (D : Device) (w : World) (g : Flash) : Prop :=
  g = w.flash ∨ (D.crcLive = false ∧ g ∈ w.past)

inductive PortStep (D : Device) (w : World) : PortOp → Word → World → Prop where
  | erased {addr len : Word} : PortStep D w (.flashErase addr len) 0
      ((w.touched (.flashErase addr len) 0 (eraseRange w.flash addr len)).markErased D addr len)
  | eraseKept {addr len x : Word} : x ≠ 0 →
      PortStep D w (.flashErase addr len) x (w.touched (.flashErase addr len) x w.flash)
  | eraseFailed {addr len x : Word} : x ≠ 0 →
      PortStep D w (.flashErase addr len) x
        (w.touched (.flashErase addr len) x (eraseRange w.flash addr len))
  | wrote {addr : Word} {buf : List Byte} : PortStep D w (.flashWrite addr buf) 0
      (w.touched (.flashWrite addr buf) 0 (programBytes w.flash addr buf))
  | writeFailed {addr x : Word} {buf : List Byte} (k : Nat) : x ≠ 0 →
      PortStep D w (.flashWrite addr buf) x
        (w.touched (.flashWrite addr buf) x (programBytes w.flash addr (buf.take (4 * k))))
  | verified {addr : Word} {buf : List Byte} : w.flash.bytes addr.toNat buf.length = buf →
      PortStep D w (.flashVerify addr buf) 0 (w.logged (.flashVerify addr buf) 0)
  | verifyFailed {addr x : Word} {buf : List Byte} : x ≠ 0 →
      PortStep D w (.flashVerify addr buf) x (w.logged (.flashVerify addr buf) x)
  | read {addr : Word} {g : Flash} : XipView D w g →
      PortStep D w (.xipRead32 addr) (g.read32 addr) w

def portEnv (D : Device) : Semantics.Environment port World :=
  ⟨fun w op x w' => PortStep D w op x w'⟩

theorem portEnv_total (D : Device) : (portEnv D).Total := by
  intro w op
  cases op with
  | flashErase addr len => exact ⟨0, _, .erased⟩
  | flashWrite addr buf => exact ⟨0, _, .wrote⟩
  | flashVerify addr buf => exact ⟨1, _, .verifyFailed (by decide : (1 : Word) ≠ 0)⟩
  | xipRead32 addr => exact ⟨_, w, .read (.inl rfl)⟩

/-- The fault-free part as the host harness simulates it: without live CRC an XIP
    read of a modified block serves its content at reset. -/
def simulate (D : Device) (w : World) : (op : PortOp) → Word × World
  | .flashErase addr len =>
    (0, (w.touched (.flashErase addr len) 0 (eraseRange w.flash addr len)).markErased D addr len)
  | .flashWrite addr buf => (0, w.touched (.flashWrite addr buf) 0 (programBytes w.flash addr buf))
  | .flashVerify addr buf =>
    let x := if w.flash.bytes addr.toNat buf.length = buf then 0 else 0xE5
    (x, w.logged (.flashVerify addr buf) x)
  | .xipRead32 addr =>
    (((if D.crcLive then none else w.past.getLast?).getD w.flash).read32 addr, w)

theorem simulate_sound (D : Device) (w : World) (op : PortOp) :
    (portEnv D).step w op (simulate D w op).1 (simulate D w op).2 := by
  cases op with
  | flashErase addr len => exact .erased
  | flashWrite addr buf => exact .wrote
  | flashVerify addr buf =>
    by_cases same : w.flash.bytes addr.toNat buf.length = buf
    · simp only [simulate, same, if_true]
      exact .verified same
    · simp only [simulate, same, if_false]
      exact .verifyFailed (by decide : (0xE5 : Word) ≠ 0)
  | xipRead32 addr =>
    refine .read ?_
    by_cases live : D.crcLive
    · simp [live, XipView]
    · simp only [live, Bool.false_eq_true, if_false]
      cases last : w.past.getLast? with
      | none => exact .inl rfl
      | some g => exact .inr ⟨by simpa using live, List.mem_of_getLast? last⟩

end OpenBoot
