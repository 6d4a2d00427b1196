import OpenBoot.Core.Checksum
import OpenBoot.Update.Bench

/-! Burst errors on the wire: a request damaged within 32 consecutive bits is
answered as a frame error and does nothing. -/

set_option autoImplicit false

namespace OpenBoot

open Semantics

structure WellFormed (f : List Byte) : Prop where
  length : f.length = frameOverhead + frameLen f
  small : frameLen f ≤ maxPayload
  sealed : crc32 (f.take (frameHdrLen + frameLen f)) = get32 (f.drop (frameHdrLen + frameLen f))

/-- Some bits are flipped, all within 32 consecutive positions in wire order. -/
structure Burst (f f' : List Byte) : Prop where
  length : f'.length = f.length
  window : ∃ lo, ∀ i, wireBit f i ≠ wireBit f' i → lo ≤ i ∧ i < lo + 32
  some : ∃ i, wireBit f i ≠ wireBit f' i

theorem get32_append {trailer : List Byte} (four : trailer.length = 4) (rest : List Byte) :
    get32 (trailer ++ rest) = get32 trailer := by
  have byte : ∀ i, i < 4 → (trailer ++ rest).getD i 0 = trailer.getD i 0 := by
    intro i inside
    exact List.getD_append _ _ _ _ (by omega)
  unfold get32
  rw [byte 0 (by omega), byte 1 (by omega), byte 2 (by omega), byte 3 (by omega)]

/-- A complete frame with a wrong trailer is a frame error, whatever follows it. -/
theorem decodeFrame_unsealed {f : List Byte} (length : f.length = frameOverhead + frameLen f)
    (small : frameLen f ≤ maxPayload)
    (broken : crc32 (f.take (frameHdrLen + frameLen f)) ≠
      get32 (f.drop (frameHdrLen + frameLen f))) (pad : List Byte) :
    decodeFrame (f ++ pad) = .error (finish cmdFrameErr (f.getD 1 0) [eCrc, 0]) := by
  unfold frameLen frameOverhead frameHdrLen at *
  have head : ∀ i, i < 8 → (f ++ pad).getD i 0 = f.getD i 0 := fun i inside =>
    List.getD_append _ _ _ _ (by omega)
  have trailer : (f.drop (4 + (f.getD 2 0).toNat)).length = 4 := by
    rw [List.length_drop]
    omega
  have whole : ¬ (f ++ pad).length < 8 := by rw [List.length_append]; omega
  have fits : ¬ (f.getD 2 0).toNat > maxPayload := by omega
  have complete : ¬ (f ++ pad).length < 8 + (f.getD 2 0).toNat := by
    rw [List.length_append]
    omega
  unfold decodeFrame frameOverhead frameHdrLen
  rw [head 2 (by omega), head 1 (by omega)]
  simp only
  rw [if_neg whole, if_neg fits, if_neg complete, List.take_append_of_le_length (by omega),
    List.drop_append_of_le_length (by omega), get32_append trailer, if_pos broken]

theorem Burst.unsealed {f f' : List Byte} (wf : WellFormed f) (burst : Burst f f')
    (len : f'.getD 2 0 = f.getD 2 0) :
    crc32 (f'.take (frameHdrLen + frameLen f')) ≠ get32 (f'.drop (frameHdrLen + frameLen f')) := by
  have same : frameLen f' = frameLen f := congrArg BitVec.toNat len
  have whole := wf.length
  have whole' := burst.length
  obtain ⟨lo, window⟩ := burst.window
  unfold frameOverhead at whole
  rw [same]
  refine burst_unsealed lo ?_ ?_ ?_ wf.sealed ?_ ?_
  · rw [List.length_drop]
    unfold frameHdrLen
    omega
  · rw [List.length_drop]
    unfold frameHdrLen
    omega
  · simp only [List.length_take, whole']
  · simpa only [List.take_append_drop] using window
  · simpa only [List.take_append_drop] using burst.some

/-- No short burst is executed: whatever the core's state, the damaged request is
    answered with exactly the frame-error report and nothing changes. The buffer
    may be longer than the frame. -/
theorem burst_rejected (D : Device) {f f' : List Byte} (wf : WellFormed f) (burst : Burst f f')
    (len : f'.getD 2 0 = f.getD 2 0) (pad : List Byte) (c c' : Core) (w w' : World)
    (es : List (Event port)) (resp : List Byte) (act : Action) :
    (handleFrame D (f' ++ pad)).Exec (portEnv D) c w es (resp, act) c' w' ↔
      es = [] ∧ resp = finish cmdFrameErr (f'.getD 1 0) [eCrc, 0] ∧ act = .none ∧
        c' = c ∧ w' = w := by
  have same : frameLen f' = frameLen f := congrArg BitVec.toNat len
  have rejected : handleFrame D (f' ++ pad) =
      pure (finish cmdFrameErr (f'.getD 1 0) [eCrc, 0], .none) := by
    rw [handleFrame_eq, decodeFrame_unsealed (by rw [burst.length, wf.length, same])
      (by rw [same]; exact wf.small) (burst.unsealed wf len)]
  rw [rejected]
  constructor
  · rintro ⟨⟩
    exact ⟨rfl, rfl, rfl, rfl, rfl⟩
  · rintro ⟨rfl, rfl, rfl, rfl, rfl⟩
    exact .done

def damagedHello : List Byte := Bench.hello.set 1 1

theorem hello_wellFormed : WellFormed Bench.hello := ⟨by decide, by decide, by decide⟩

theorem hello_burst : Burst Bench.hello damagedHello where
  length := rfl
  window := by
    have first : ∀ i : Fin 112, wireBit Bench.hello i ≠ wireBit damagedHello i → i.val = 8 := by
      decide
    refine ⟨8, fun i differ => ?_⟩
    by_cases inside : i < 112
    · have := first ⟨i, inside⟩ differ
      simp only at this
      omega
    -- past the end there is nothing to differ in
    · refine absurd ?_ differ
      have past : ∀ f : List Byte, f.length = 14 → wireBit f i = false := by
        intro f whole
        unfold wireBit
        rw [List.getD_eq_default _ _ (by omega)]
        exact BitVec.getLsbD_zero
      rw [past _ rfl, past _ rfl]
  some := ⟨8, by decide⟩

theorem burst_rejected_hello :
    (handleFrame .ch570 (damagedHello ++ [])).Exec (portEnv .ch570) (.bss .ch570 0)
      (.reset Bench.blank) [] (finish cmdFrameErr 1 [eCrc, 0], .none) (.bss .ch570 0)
      (.reset Bench.blank) :=
  (burst_rejected .ch570 hello_wellFormed hello_burst rfl [] _ _ _ _ _ _ _).mpr
    ⟨rfl, rfl, rfl, rfl, rfl⟩

end OpenBoot
