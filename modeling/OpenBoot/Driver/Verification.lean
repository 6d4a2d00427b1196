import OpenBoot.Driver.Controller

/-! Flash verifies: the words compared are those of the flash and of the buffer. -/

set_option autoImplicit false

namespace OpenBoot.Driver

open Semantics

variable {flash : BitVec 24 → Byte} {lag fuel : Nat} {F : Config} {log : List Transaction}
  {buf : Buffer} {addr : Word}

/-- The byte of the flash at an offset from this address, of which the bus has 24 bits. -/
def flashByte (flash : BitVec 24 → Byte) (addr : Word) (i : Nat) : Byte :=
  flash (BitVec.ofNat 24 (addr.toNat + i))

def flashWord (flash : BitVec 24 → Byte) (addr : Word) (k : Nat) : Word :=
  get32 [flashByte flash addr (4 * k), flashByte flash addr (4 * k + 1),
    flashByte flash addr (4 * k + 2), flashByte flash addr (4 * k + 3)]

def Buffer.byte (buf : Buffer) (i : Nat) : Byte := (put32 (buf.words (i / 4))).getD (i % 4) 0

def fastRead (flash : BitVec 24 → Byte) (addr : Word) (n : Nat) : Transaction :=
  ⟨0x0B :: (addrBytes addr ++ [0, 0]), [], (List.range n).map (flashByte flash addr)⟩

theorem fastRead_streams {n : Nat} {x : Byte} (streams : (fastRead flash addr n).Streams flash x) :
    (fastRead flash addr n).receive x = fastRead flash addr (n + 1) ∧ x = flashByte flash addr n := by
  have address : (fastRead flash addr n).address = addr.setWidth 24 := address_addrBytes _ _ _ _ _
  have sent : (fastRead flash addr n).sent.length = 6 := rfl
  have got : (fastRead flash addr n).got.length = n := by simp [fastRead]
  have next : x = flashByte flash addr n := by
    rw [streams rfl (by omega), address, sent, got, flashByte]
    congr 1
    apply BitVec.eq_of_toNat_eq
    simp only [BitVec.toNat_add, BitVec.toNat_setWidth, BitVec.toNat_ofNat]
    omega
  refine ⟨?_, next⟩
  rw [next]
  simp [Transaction.receive, fastRead, List.range_succ]

theorem shiftIn_four (word : Word) (a b c d : Byte) :
    shiftIn (shiftIn (shiftIn (shiftIn word a) b) c) d = get32 [a, b, c, d] := by
  apply BitVec.eq_of_getLsbD_eq
  intro i small
  rw [getLsbD_get32 _ small]
  unfold shiftIn
  interval_cases i <;> simp

theorem flashWord_eq_iff (k : Nat) : flashWord flash addr k = buf.words k ↔
    ∀ j < 4, flashByte flash addr (4 * k + j) = buf.byte (4 * k + j) := by
  have byte (j : Nat) (small : j < 4) :
      buf.byte (4 * k + j) = (put32 (buf.words k)).getD j 0 := by
    rw [Buffer.byte, show (4 * k + j) / 4 = k by omega, show (4 * k + j) % 4 = j by omega]
  constructor
  · intro same j small
    rw [byte j small, ← same, flashWord, put32_get32]
    interval_cases j <;> rfl
  · intro same
    have spelled (j : Nat) (small : j < 4) := (same j small).trans (byte j small)
    rw [flashWord, show 4 * k = 4 * k + 0 from rfl, spelled 0 (by decide), spelled 1 (by decide),
      spelled 2 (by decide), spelled 3 (by decide)]
    exact get32_put32 (buf.words k)

theorem words_equal_iff (n : Nat) : (∀ k < n, flashWord flash addr k = buf.words k) ↔
    ∀ i < 4 * n, flashByte flash addr i = buf.byte i := by
  constructor
  · intro same i small
    have word := (flashWord_eq_iff (i / 4)).mp (same (i / 4) (by omega)) (i % 4) (by omega)
    rwa [Nat.div_add_mod] at word
  · intro same k small
    exact (flashWord_eq_iff k).mpr fun j small' => same (4 * k + j) (by omega)

/-- `n` bytes into the stream, with the word buffer as the last of them left it. -/
def Reading (flash : BitVec 24 → Byte) (log : List Transaction) (addr : Word) (n : Nat)
    (Q : Word → Prop) (c : Controller) : Prop :=
  At log (some (fastRead flash addr n)) c ∧ Q c.word

theorem flIn_reading (late : lag < fuel) {n : Nat} {Q : Word → Prop} :
    Does flash lag (Within lag (Reading flash log addr n Q)) (flIn fuel) fun _ =>
      Within lag (Reading flash log addr (n + 1) fun v =>
        ∃ word, Q word ∧ v = shiftIn word (flashByte flash addr n)) := by
  apply (flIn_does late).weaken (fun c h => h)
  rintro x c ⟨soon, inside, streams, word, holds, shifted⟩
  obtain ⟨next, rfl⟩ := fastRead_streams streams
  rw [next] at inside
  exact ⟨soon, inside, word, holds, shifted⟩

/-- The loop takes a word at a time: four bytes, and a comparison after the fourth. -/
theorem verifyBytes_word (n k : Nat) :
    verifyBytes fuel buf (4 * (n + 1)) (BitVec.ofNat 32 (4 * k)) k = (do
      let _ ← flIn fuel
      let _ ← flIn fuel
      let _ ← flIn fuel
      let _ ← flIn fuel
      let word ← access .data32Rd
      if (show Word from word) ≠ buf.words k then return vfErrMismatch
      verifyBytes fuel buf (4 * n) (BitVec.ofNat 32 (4 * (k + 1))) (k + 1)) := by
  have phase (j : Nat) : BitVec.ofNat 32 (4 * k + j) &&& 3 = 3 ↔ j % 4 = 3 := by
    rw [← BitVec.toNat_inj, BitVec.toNat_and, show (3 : Word).toNat = 2 ^ 2 - 1 from rfl,
      Nat.and_two_pow_sub_one_eq_mod, BitVec.toNat_ofNat]
    omega
  have step (j : Nat) : BitVec.ofNat 32 (4 * k + j) + 1 = BitVec.ofNat 32 (4 * k + (j + 1)) :=
    (BitVec.ofNat_add (4 * k + j) 1).symm
  rw [show 4 * (n + 1) = 4 * n + 1 + 1 + 1 + 1 by omega, show 4 * k = 4 * k + 0 from rfl]
  simp only [verifyBytes, step, phase]
  rfl

def FirstDiffers (flash : BitVec 24 → Byte) (addr : Word) (buf : Buffer) (k j : Nat) : Prop :=
  k ≤ j ∧ flashWord flash addr j ≠ buf.words j ∧
    ∀ i, k ≤ i → i < j → flashWord flash addr i = buf.words i

/-- What the loop returns for `n` words from number `k` on, having clocked in `m` words of
    the stream. -/
inductive Found (flash : BitVec 24 → Byte) (addr : Word) (buf : Buffer) (k n : Nat) :
    Word → (m : Nat) → Prop where
  | equal : (∀ j, k ≤ j → j < k + n → flashWord flash addr j = buf.words j) →
      Found flash addr buf k n 0 (k + n)
  | differs {j : Nat} : j < k + n → FirstDiffers flash addr buf k j →
      Found flash addr buf k n vfErrMismatch (j + 1)

theorem Found.after {k n m : Nat} {rc : Word} (found : Found flash addr buf (k + 1) n rc m)
    (same : flashWord flash addr k = buf.words k) : Found flash addr buf k (n + 1) rc m := by
  have step : k + 1 + n = k + (n + 1) := by omega
  have here (i : Nat) (low : k ≤ i)
      (above : k + 1 ≤ i → flashWord flash addr i = buf.words i) :
      flashWord flash addr i = buf.words i := by
    rcases Nat.eq_or_lt_of_le low with rfl | later
    · exact same
    · exact above later
  cases found with
  | equal all =>
    rw [step] at all ⊢
    exact .equal fun j low high => here j low fun later => all j later high
  | differs small first =>
    obtain ⟨low, other, before⟩ := first
    exact .differs (step ▸ small)
      ⟨Nat.le_of_succ_le low, other, fun i least less => here i least fun later => before i later less⟩

theorem verifyBytes_does (late : lag < fuel) (n k : Nat) :
    Does flash lag (Within lag (At log (some (fastRead flash addr (4 * k)))))
      (verifyBytes fuel buf (4 * n) (BitVec.ofNat 32 (4 * k)) k) fun rc c =>
        ∃ m, Found flash addr buf k n rc m ∧
          Within lag (At log (some (fastRead flash addr (4 * m)))) c := by
  induction n generalizing k with
  | zero =>
    apply Triple.pure
    intro c h
    exact ⟨k, .equal fun j low high => absurd high (Nat.not_lt.mpr low), h⟩
  | succ n ih =>
    rw [verifyBytes_word]
    have start : ∀ c, Within lag (At log (some (fastRead flash addr (4 * k)))) c →
        Within lag (Reading flash log addr (4 * k) fun _ => True) c := fun c h => ⟨h.1, h.2, trivial⟩
    refine .bind ((flIn_reading late).weaken start fun _ _ => id) fun _ =>
      .bind (flIn_reading late) fun _ => .bind (flIn_reading late) fun _ =>
      .bind (flIn_reading late) fun _ =>
      .via (fun word c => (show Word from word) = flashWord flash addr k ∧
        Within lag (At log (some (fastRead flash addr (4 * (k + 1))))) c) ?_ fun word => ?_
    · apply Triple.access
      -- the word buffer has the four bytes and nothing of what it held before
      rintro c word _ ⟨soon, inside, _, ⟨_, ⟨_, ⟨held, -, rfl⟩, rfl⟩, rfl⟩, four⟩ ⟨rfl, rfl⟩
      rw [shiftIn_four] at four
      exact ⟨four, soon, inside⟩
    · apply Triple.ite
      · intro other
        apply Triple.pure
        rintro c ⟨read, h⟩
        rw [read] at other
        exact ⟨k + 1, .differs (by omega) ⟨Nat.le_refl k, other, by omega⟩, h⟩
      · intro same
        rintro c ⟨read, h⟩
        have equal := read.symm.trans (not_not.mp same)
        apply (ih (k + 1)).weaken (fun c h => h) ?_ c h
        rintro rc c ⟨m, found, h⟩
        exact ⟨m, found.after equal, h⟩

theorem flashVerify_does (late : lag < fuel) {len : Word} (aligned : addr.toNat % 4 = 0)
    (alignedBuf : buf.ptr.toNat % 4 = 0) (nonzero : len ≠ 0) (whole : len.toNat % 4 = 0)
    (fits : addr.toNat + len.toNat < 2 ^ 32) :
    Does flash lag (Within 0 (At log none)) (flashVerify F fuel addr buf len) fun rc c =>
      ∃ m, Found flash addr buf 0 (len.toNat / 4) rc m ∧
        Within 0 (At (log ++ [resume F, fastRead flash addr (4 * m)]) none) c := by
  refine .ite (fun refused => ?_) fun _ => ?_
  · exact absurd refused (not_refused aligned alignedBuf nonzero whole fits)
  · have words : len.toNat = 4 * (len.toNat / 4) := by omega
    have loop : Does flash lag (Within lag (At (log ++ [resume F]) (some (fastRead flash addr 0))))
        (verifyBytes fuel buf (4 * (len.toNat / 4)) 0 0) fun _ => _ := verifyBytes_does late _ 0
    rw [← words] at loop
    refine .bind (flOpen_does late _) fun _ => .bind (flCmdAddr_read late (by decide) addr)
      fun _ => .bind loop fun rc => ?_
    rintro c ⟨m, found, h⟩
    refine Triple.bind (flEnd_does late) (fun _ => .bind flClose_does fun _ => .pure fun c h => ?_) c h
    exact ⟨m, found, by simpa using h⟩

/-- A flash verify decides equality. In every run on an idle controller whose engine gets ready
    in time, it returns 0 exactly where the flash has the bytes of the buffer. Otherwise it
    returns a mismatch, and the read ended with the first word that differs. -/
theorem flashVerify_decides (F : Config) {fuel lag : Nat} (late : lag < fuel)
    (flash : BitVec 24 → Byte) (addr : Word) (buf : Buffer) (len : Word)
    (aligned : addr.toNat % 4 = 0) (alignedBuf : buf.ptr.toNat % 4 = 0) (nonzero : len ≠ 0)
    (whole : len.toNat % 4 = 0) (fits : addr.toNat + len.toNat < 2 ^ 32) {c c' : Controller}
    (idle : c.Idle) {es : List (Event registers)} {x : Except Hung Word}
    (run : (flashVerify F fuel addr buf len).run.Exec (controller flash lag) () c es x () c') :
    (x = .ok 0 ↔ ∀ i < len.toNat, flashByte flash addr i = buf.byte i) ∧
      (x ≠ .ok 0 → x = .ok vfErrMismatch ∧ ∃ k < len.toNat / 4,
        flashWord flash addr k ≠ buf.words k ∧
        (∀ j < k, flashWord flash addr j = buf.words j) ∧
        c'.log = c.log ++ [resume F, fastRead flash addr (4 * (k + 1))]) := by
  have does := (flashVerify_does late aligned alignedBuf nonzero whole fits).exec idle.start run
  have bytes : len.toNat = 4 * (len.toNat / 4) := by omega
  rw [bytes, ← words_equal_iff, ← bytes]
  cases x with
  | error e => exact (does.2 e rfl).elim
  | ok rc =>
    obtain ⟨m, found, -, log, -⟩ := does.1 rc rfl
    cases found with
    | equal all =>
      rw [Nat.zero_add] at all
      exact ⟨⟨fun _ k small => all k (Nat.zero_le k) small, fun _ => rfl⟩, fun failed => absurd rfl failed⟩
    | @differs k small first =>
      obtain ⟨-, other, before⟩ := first
      rw [Nat.zero_add] at small
      refine ⟨⟨fun ok => absurd ok (by decide), fun all => absurd (all k small) other⟩, fun _ => ?_⟩
      exact ⟨rfl, k, small, other, fun j less => before j (Nat.zero_le j) less, log⟩

/-- A byte that differs in the second word. -/
theorem flashVerify_decides_two :
    ((flashVerify ⟨.ch57x, false, 100000000, nofun⟩ 1 0x1000 ⟨0, fun _ => 0⟩ 8).run.run
      (Controller.prompt fun a => if a = 0x1005 then 1 else 0) () (Controller.start 0)).2.1 =
        .ok vfErrMismatch := by
  have run := Program.exec_run (prompt_sound (fun a => if a = 0x1005 then 1 else 0) 0)
    (flashVerify ⟨.ch57x, false, 100000000, nofun⟩ 1 0x1000 ⟨0, fun _ => 0⟩ 8).run ()
    (Controller.start 0)
  have decides := flashVerify_decides _ Nat.one_pos _ 0x1000 _ 8 rfl rfl (by decide) rfl (by decide)
    ⟨rfl, rfl⟩ run
  refine (decides.2 fun ok => ?_).1
  exact absurd (decides.1.mp ok 5 (by decide)) (by decide)

end OpenBoot.Driver
