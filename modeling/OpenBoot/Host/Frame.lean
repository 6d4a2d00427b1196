import OpenBoot.Core.Records
import OpenBoot.Core.Requests
import OpenBoot.Host.Image

/-! The host's frame codec, with its typed errors. -/

set_option autoImplicit false

namespace OpenBoot.Host

/-- One logical frame. The bound is what `Frame::new` and `encode` assert. -/
structure Frame where
  cmd : Byte
  seq : Byte
  payload : List Byte
  fits : payload.length ≤ maxPayload
  deriving DecidableEq

inductive FrameError where
  | tooShort (got : Nat)
  | payloadTooLong (declared : Byte)
  | truncated (declared : Byte) (available : Nat)
  | badFlags (flags : Byte)
  | badCrc (computed received : Word)
  deriving DecidableEq

namespace Frame

def encode (f : Frame) : List Byte :=
  let out := [f.cmd, f.seq, BitVec.ofNat 8 f.payload.length, 0] ++ f.payload
  out ++ put32 (hash out)

/-- One frame from the start of the buffer; bytes beyond it are ignored. -/
def decode (buf : List Byte) : Except FrameError Frame :=
  if buf.length < frameOverhead then .error (.tooShort buf.length)
  else
    let len := (buf.getD 2 0).toNat
    if long : len > maxPayload then .error (.payloadTooLong (buf.getD 2 0))
    else
      let total := frameOverhead + len
      if buf.length < total then .error (.truncated (buf.getD 2 0) buf.length)
      else if buf.getD 3 0 ≠ 0 then .error (.badFlags (buf.getD 3 0))
      else
        let bodyEnd := frameHdrLen + len
        let computed := hash (buf.take bodyEnd)
        let received := get32 [buf.getD bodyEnd 0, buf.getD (bodyEnd + 1) 0,
          buf.getD (bodyEnd + 2) 0, buf.getD (bodyEnd + 3) 0]
        if computed ≠ received then .error (.badCrc computed received)
        else .ok {
          cmd := buf.getD 0 0
          seq := buf.getD 1 0
          payload := (buf.take bodyEnd).drop frameHdrLen
          fits := by
            rw [List.length_drop, List.length_take]
            exact Nat.le_trans (Nat.sub_le_sub_right (Nat.min_le_left _ _) _)
              (Nat.le_trans (Nat.le_of_eq (Nat.add_sub_cancel_left _ _)) (Nat.not_lt.mp long)) }

def isFrameError (f : Frame) : Bool := f.cmd = cmdFrameErr

def isResponseTo (f req : Frame) : Bool := f.cmd = req.cmd ||| cmdRespBit ∧ f.seq = req.seq

variable {f : Frame}

theorem encode_eq (f : Frame) : f.encode = finish f.cmd f.seq f.payload := by
  simp only [encode, finish, hash_eq]

theorem encode_length (f : Frame) : f.encode.length = frameOverhead + f.payload.length := by
  unfold encode frameOverhead
  simp
  omega

end Frame

theorem length_byte {payload : List Byte} (fits : payload.length ≤ maxPayload) :
    (BitVec.ofNat 8 payload.length).toNat = payload.length := by
  unfold maxPayload at fits
  exact Nat.mod_eq_of_lt (by omega)

/-- What every reader of a frame sees in a sealed one, whatever follows it. -/
structure SealedAt (buf : List Byte) (cmd seq : Byte) (payload pad : List Byte) : Prop where
  at_cmd : buf.getD 0 0 = cmd
  at_seq : buf.getD 1 0 = seq
  len : (buf.getD 2 0).toNat = payload.length
  flags : buf.getD 3 0 = 0
  whole : frameOverhead + payload.length ≤ buf.length
  body : crc32 (buf.take (frameHdrLen + payload.length)) =
    get32 (buf.drop (frameHdrLen + payload.length))
  operands : (buf.take (frameHdrLen + payload.length)).drop frameHdrLen = payload
  rest : ∃ crc : List Byte, buf.drop frameHdrLen = payload ++ (crc ++ pad)

theorem finish_sealed (cmd seq : Byte) {payload : List Byte} (fits : payload.length ≤ maxPayload)
    (pad : List Byte) : SealedAt (finish cmd seq payload ++ pad) cmd seq payload pad := by
  have split : finish cmd seq payload ++ pad =
      ([cmd, seq, BitVec.ofNat 8 payload.length, 0] ++ payload) ++
        (put32 (crc32 ([cmd, seq, BitVec.ofNat 8 payload.length, 0] ++ payload)) ++ pad) := by
    rw [finish, List.append_assoc]
  have body : ([cmd, seq, BitVec.ofNat 8 payload.length, 0] ++ payload).length =
      frameHdrLen + payload.length := by
    simp [frameHdrLen]
    omega
  constructor
  · rfl
  · rfl
  · exact length_byte fits
  · rfl
  · rw [split, List.length_append, body, List.length_append, put32_length]
    unfold frameOverhead frameHdrLen
    omega
  · rw [split, List.take_left' body, List.drop_left' body, get32_put32_append]
  · rw [split, List.take_left' body]
    rfl
  · exact ⟨_, congrArg (List.drop frameHdrLen) split⟩

theorem get32_drop (buf : List Byte) (n : Nat) :
    get32 (buf.drop n) = get32 [buf.getD n 0, buf.getD (n + 1) 0, buf.getD (n + 2) 0,
      buf.getD (n + 3) 0] := by
  have byte : ∀ i, (buf.drop n).getD i 0 = buf.getD (n + i) 0 := by
    intro i
    rw [List.getD_eq_getElem?_getD, List.getElem?_drop, ← List.getD_eq_getElem?_getD]
  unfold get32
  rw [byte 0, byte 1, byte 2, byte 3]
  rfl

/-- A frame is decoded exactly when it is whole, its flags are clear and its CRC is right. -/
theorem Frame.decode_ok {buf : List Byte} {f : Frame} : Frame.decode buf = .ok f ↔
    (buf.getD 2 0).toNat = f.payload.length ∧ frameOverhead + f.payload.length ≤ buf.length ∧
      buf.getD 3 0 = 0 ∧
      crc32 (buf.take (frameHdrLen + f.payload.length)) =
        get32 (buf.drop (frameHdrLen + f.payload.length)) ∧
      buf.getD 0 0 = f.cmd ∧ buf.getD 1 0 = f.seq ∧
      (buf.take (frameHdrLen + f.payload.length)).drop frameHdrLen = f.payload := by
  obtain ⟨cmd, seq, payload, fits⟩ := f
  unfold Frame.decode
  simp only [hash_eq, ← get32_drop]
  constructor
  · intro decoded
    -- short, too long, cut off, flags, checksum
    split at decoded
    · cases decoded
    split at decoded
    · cases decoded
    split at decoded
    · cases decoded
    split at decoded
    · cases decoded
    split at decoded
    · cases decoded
    · next short long cut flags crc =>
      cases decoded
      have whole := Nat.not_lt.mp cut
      have length : ((buf.take (frameHdrLen + (buf.getD 2 0).toNat)).drop frameHdrLen).length =
          (buf.getD 2 0).toNat := by
        rw [List.length_drop, List.length_take]
        unfold frameOverhead at whole
        unfold frameHdrLen
        omega
      simp only [length]
      exact ⟨trivial, whole, Decidable.not_not.mp flags, Decidable.not_not.mp crc, trivial, trivial,
        trivial⟩
  · rintro ⟨len, whole, flags, crc, rfl, rfl, operands⟩
    have long : ¬ buf.length < frameOverhead := by omega
    have small : ¬ (buf.getD 2 0).toNat > maxPayload := by
      rw [len]
      exact Nat.not_lt.mpr fits
    have cut : ¬ buf.length < frameOverhead + (buf.getD 2 0).toNat := by
      rw [len]
      exact Nat.not_lt.mpr whole
    rw [if_neg long, dif_neg small, if_neg cut, if_neg (not_not_intro flags)]
    simp only [len, crc, ne_eq, not_true_eq_false, if_false, operands]

theorem SealedAt.decode {buf pad : List Byte} {f : Frame}
    (h : SealedAt buf f.cmd f.seq f.payload pad) : Frame.decode buf = .ok f :=
  Frame.decode_ok.mpr ⟨h.len, h.whole, h.flags, h.body, h.at_cmd, h.at_seq, h.operands⟩

theorem SealedAt.request {buf pad : List Byte} {f : Frame}
    (h : SealedAt buf f.cmd f.seq f.payload pad) :
    decodeFrame buf = .ok ⟨f.cmd, f.seq, buf.drop frameHdrLen, f.payload.length⟩ := by
  have long := h.whole
  have fits := f.fits
  unfold decodeFrame
  simp only [h.at_cmd, h.at_seq, h.len, h.flags, h.body, ne_eq, not_true_eq_false, if_false]
  rw [if_neg (by omega), if_neg (by omega), if_neg (by omega)]

namespace Frame

theorem encode_sealed (f : Frame) (pad : List Byte) :
    SealedAt (f.encode ++ pad) f.cmd f.seq f.payload pad := by
  rw [encode_eq]
  exact finish_sealed f.cmd f.seq f.fits pad

theorem decode_encode (f : Frame) (pad : List Byte) : decode (f.encode ++ pad) = .ok f :=
  (encode_sealed f pad).decode

theorem encode_prefix {buf : List Byte} {f : Frame} (decoded : decode buf = .ok f) :
    f.encode <+: buf := by
  obtain ⟨len, whole, flags, crc, at_cmd, at_seq, operands⟩ := decode_ok.mp decoded
  unfold frameOverhead at whole
  unfold frameHdrLen at *
  have header : buf.take 4 = [f.cmd, f.seq, BitVec.ofNat 8 f.payload.length, 0] := by
    have long : 4 ≤ buf.length := by omega
    match buf, long, len, flags, at_cmd, at_seq with
    | a :: b :: c :: d :: rest, _, len, flags, at_cmd, at_seq =>
      simp only [List.getD_cons_zero, List.getD_cons_succ] at len flags at_cmd at_seq
      rw [← at_cmd, ← at_seq, ← len, BitVec.ofNat_toNat, BitVec.setWidth_eq, ← flags]
      rfl
  have body : [f.cmd, f.seq, BitVec.ofNat 8 f.payload.length, 0] ++ f.payload =
      buf.take (4 + f.payload.length) := by
    have four : (buf.take (4 + f.payload.length)).take 4 = buf.take 4 := by
      rw [List.take_take, Nat.min_eq_left (Nat.le_add_right _ _)]
    have join := List.take_append_drop 4 (buf.take (4 + f.payload.length))
    rw [operands, four, header] at join
    exact join
  have trailer : put32 (crc32 (buf.take (4 + f.payload.length))) =
      (buf.drop (4 + f.payload.length)).take 4 := by
    rw [crc]
    exact put32_get32_take (by rw [List.length_drop]; omega)
  rw [encode_eq, finish, body, trailer, ← List.take_add]
  exact List.take_prefix _ _

end Frame

end OpenBoot.Host
