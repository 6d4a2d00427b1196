import OpenBoot.Port.Flash
import Mathlib.Data.Set.Function
import Mathlib.Order.BooleanAlgebra.Set

/-! What a controller command can do: where it acts, what it leaves alone, and
what its success means. -/

set_option autoImplicit false

namespace OpenBoot

open Semantics

def PortOp.target : PortOp → Set Nat
  | .flashErase addr len => Set.Ico addr.toNat (addr.toNat + len.toNat)
  | .flashWrite addr buf => Set.Ico addr.toNat (addr.toNat + buf.length)
  | _ => ∅

namespace PortStep

variable {D : Device} {w w' : World} {op : PortOp} {x : Word} {addr len : Word} {buf : List Byte}

theorem read_inv (step : PortStep D w (.xipRead32 addr) x w') :
    w' = w ∧ ∃ g, XipView D w g ∧ x = g.read32 addr := by
  cases step with
  | read view => exact ⟨rfl, _, view, rfl⟩

/-- A failing erase leaves its block as it was or erased. -/
theorem erase_inv (step : PortStep D w (.flashErase addr len) x w') :
    w'.flash = eraseRange w.flash addr len ∨ w'.flash = w.flash := by
  cases step with
  | erased => exact .inl rfl
  | eraseKept _ => exact .inr rfl
  | eraseFailed _ => exact .inl rfl

theorem erase_ok (step : PortStep D w (.flashErase addr D.eraseBlock) 0 w') :
    Nor.Erased erasedByte w'.flash addr.toNat D.block ∧
      w'.blkErased (addr.toNat / D.block) = true := by
  cases step with
  | erased =>
    have high : addr.toNat / D.block < (addr.toNat + D.block) / D.block := by
      rw [Nat.add_div_right _ D.block_pos]
      exact Nat.lt_succ_self _
    constructor
    · exact Nor.erase_erased
    · change (decide (_ ≤ _ ∧ _ < (addr.toNat + D.block) / D.block) || _) = true
      simp [high]
  | eraseKept fail => exact absurd rfl fail
  | eraseFailed fail => exact absurd rfl fail

theorem write_inv (step : PortStep D w (.flashWrite addr buf) x w') :
    ∃ k, w'.flash = programBytes w.flash addr (buf.take (4 * k)) := by
  cases step with
  | wrote =>
    refine ⟨buf.length, ?_⟩
    rw [List.take_of_length_le (by omega)]
    rfl
  | writeFailed k _ => exact ⟨k, rfl⟩

theorem write_ok (step : PortStep D w (.flashWrite addr buf) 0 w') :
    w'.flash = programBytes w.flash addr buf := by
  cases step with
  | wrote => rfl
  | writeFailed _ fail => exact absurd rfl fail

theorem verify_inv (step : PortStep D w (.flashVerify addr buf) x w') :
    w' = w.logged (.flashVerify addr buf) x := by
  cases step with
  | verified _ => rfl
  | verifyFailed _ => rfl

theorem verify_ok (step : PortStep D w (.flashVerify addr buf) 0 w') :
    w.flash.bytes addr.toNat buf.length = buf := by
  cases step with
  | verified same => exact same
  | verifyFailed fail => exact absurd rfl fail

theorem outside {s : Set Nat} (step : PortStep D w op x w') (apart : Disjoint s op.target) :
    s.EqOn w'.flash w.flash := by
  rw [Set.disjoint_left] at apart
  cases op with
  | flashErase addr len =>
    have away : s.EqOn (Nor.erase erasedByte w.flash addr.toNat len.toNat) w.flash :=
      Nor.erase_eqOn fun a mem => by
        have := apart mem
        simp only [PortOp.target, Set.mem_Ico, not_and, not_lt] at this
        exact (Nat.lt_or_ge a addr.toNat).imp id this
    rcases erase_inv step with erased | kept
    · rw [erased]
      exact away
    · rw [kept]
      exact Set.eqOn_refl _ _
  | flashWrite addr buf =>
    -- a prefix of the data stays within the range of the whole
    obtain ⟨k, written⟩ := write_inv step
    rw [written]
    refine Nor.program_eqOn fun a mem => ?_
    have := apart mem
    simp only [PortOp.target, Set.mem_Ico, not_and, not_lt] at this
    refine (Nat.lt_or_ge a addr.toNat).imp id fun low => ?_
    rw [List.length_take]
    have := this low
    omega
  | flashVerify addr buf =>
    rw [verify_inv step]
    exact Set.eqOn_refl _ _
  | xipRead32 addr =>
    rw [(read_inv step).1]
    exact Set.eqOn_refl _ _

theorem ops (step : PortStep D w op x w') (command : op.isFlash = true) :
    w'.ops = (op, x) :: w.ops := by
  cases step <;> first | rfl | cases command

theorem blkErased {b : Nat} (step : PortStep D w op x w') (h : w.blkErased b = true) :
    w'.blkErased b = true := by
  cases step with
  | erased => simp [World.markErased, World.touched, h]
  | _ => exact h

/-- Every content XIP may serve afterwards was there before. -/
theorem past {g : Flash} (step : PortStep D w op x w') (mem : g ∈ w'.past) :
    g = w.flash ∨ g ∈ w.past := by
  cases step with
  | verified _ => exact .inr mem
  | verifyFailed _ => exact .inr mem
  | read _ => exact .inr mem
  | _ => exact List.mem_cons.mp mem

end PortStep

def Coherent (D : Device) (w : World) : Prop := ∀ g, XipView D w g → g = w.flash

theorem coherent_reset (D : Device) (f : Flash) : Coherent D (.reset f) := by
  rintro g (rfl | ⟨_, mem⟩)
  · rfl
  · exact (List.not_mem_nil mem).elim

theorem coherent_of_crcLive {D : Device} (live : D.crcLive = true) (w : World) : Coherent D w := by
  rintro g (rfl | ⟨dead, _⟩)
  · rfl
  · rw [live] at dead
    cases dead

def issued (es : List (Event port)) : List (PortOp × Word) :=
  (es.filterMap fun e => if e.op.isFlash then some (e.op, e.reply) else none).reverse

theorem exec_ops {D : Device} {R A : Type} {p : Program port R A} {r r' : R} {w w' : World}
    {es : List (Event port)} {a : A} (run : p.Exec (portEnv D) r w es a r' w') :
    w'.ops = issued es ++ w.ops := by
  induction run with
  | done => rfl
  | load _ ih => exact ih
  | store _ ih => exact ih
  | @call op k r r' w w₁ w' x es a step _ ih =>
    rw [ih]
    cases command : PortOp.isFlash op with
    | true =>
      rw [PortStep.ops step command]
      simp [issued, command]
    | false =>
      cases op with
      | xipRead32 addr =>
        rw [(PortStep.read_inv step).1]
        simp [issued, command]
      | _ => cases command

end OpenBoot
