import OpenBoot.Transport.Usb

/-! What the requests of endpoint 0 ask for, and what a SETUP packet comes to when nothing
happens on the bus meanwhile. -/

set_option autoImplicit false

namespace OpenBoot.Usb

open Semantics
open Semantics.Program (get modify)

namespace Setup

variable (s : Setup)

def ToHost : Prop := s.bm &&& 0x80 ≠ 0

instance : Decidable s.ToHost := inferInstanceAs (Decidable (_ ≠ _))

def descriptor (T : Board) (serial : List Byte) : Option (List Byte) :=
  match s.vh.toNat, s.vl.toNat with
  | 0x01, _ => some T.devDesc
  | 0x02, _ => some cfgDesc
  | 0x22, _ => some reportDesc
  | 0x03, 0 => some strLang
  | 0x03, 1 | 0x03, 2 => some strOpenboot
  | 0x03, 3 => some serial
  | _, _ => none

def offersStandard (T : Board) (serial : List Byte) (config : Byte) : Option (List Byte) :=
  match s.rq.toNat with
  | 0x00 => some [0, 0]
  | 0x01 => if s.bm &&& 0x1F = 0x02 ∧ s.ixl ≠ 0x81 ∧ s.ixl ≠ 0x01 then none else some []
  | 0x03 | 0x05 | 0x09 => some []
  | 0x06 => s.descriptor T serial
  | 0x08 => some [config]
  | 0x0A => some [0]
  | _ => none

def offers (T : Board) (serial : List Byte) (config : Byte) : Option (List Byte) :=
  if s.kind = 0x20 then if s.rq = hidrqSetIdle then some [] else none
  else if s.kind ≠ 0 then none
  else s.offersStandard T serial config

def reply (T : Board) (serial : List Byte) (config : Byte) : Option (List Byte) :=
  (s.offers T serial config).map fun d => if s.ToHost then d.take s.wlen.toNat else []

end Setup

@[simp] theorem overwrite_get (buf : Packet) (data : List Byte) (i : Nat) (hi : i < 64) :
    (overwrite buf data)[i] = data.getD i buf[i] := by
  simp [overwrite]

variable {allowed : Host → Act → Prop} {T : Board}

@[simp] theorem bus_access (b : Bus) (op : SieOp) : (bus allowed).access b op = b.access op := rfl

@[simp] theorem alone_reg (op : SieOp) (r : Statics) (b : Bus) :
    (bus allowed).alone (reg op) r b = ((b.access op).1, r, (b.access op).2) := rfl

@[simp] theorem alone_editCtrl1 (f : EpCtrl → EpCtrl) (r : Statics) (b : Bus) :
    (bus allowed).alone (editCtrl1 f) r b =
      ((), r, { b with sie := { b.sie with ctrl1 := f b.sie.ctrl1 } }) := rfl

def Served.Meets (x : Served) (buf : Packet) : Option (List Byte) → Prop
  | none => x.err = true
  | some d => x.err = false ∧ x.len = d.length ∧ x.len ≤ 64 ∧
      match x.p with
      | some p => p = d
      | none => buf.toList.take d.length = d

@[simp] theorem Served.meets_of (p : List Byte) (buf : Packet) :
    (Served.of p).Meets buf (some p) ↔ p.length ≤ 64 := by
  simp [Served.of, Served.Meets]

@[simp] theorem Served.meets_stalled (buf : Packet) (d : Option (List Byte)) :
    Served.stalled.Meets buf d ↔ d = none := by
  cases d <;> simp [Served.stalled, Served.Meets]

@[simp] theorem Served.meets_status (buf : Packet) : Served.status.Meets buf (some []) := by
  simp [Served.status, Served.Meets]

theorem alone_getDescriptor (s : Setup) (r : Statics) (b : Bus)
    (serial : r.strSerial.length ≤ 64) :
    ∃ x, (bus allowed).alone (getDescriptor T s.vl s.vh) r b = (x, r, b) ∧
      x.Meets b.sie.ep0 (s.descriptor T r.strSerial) := by
  unfold getDescriptor Setup.descriptor
  simp only [Shared.alone_bind, Shared.alone_get, Shared.alone_ite, Shared.alone_pure,
    BitVec.toNat_eq, BitVec.le_def, BitVec.reduceToNat]
  split_ifs with device configuration report string lang uid name
  · exact ⟨_, rfl, by simp [device, Board.devDesc]⟩
  · exact ⟨_, rfl, by simp [configuration, cfgDesc]⟩
  · exact ⟨_, rfl, by simp [report, reportDesc]⟩
  · exact ⟨_, rfl, by simp [string, lang, strLang]⟩
  · exact ⟨_, rfl, by simpa [string, uid] using serial⟩
  · have : s.vl.toNat = 1 ∨ s.vl.toNat = 2 := by omega
    exact ⟨_, rfl, by rcases this with is | is <;> simp [string, is, strOpenboot]⟩
  · refine ⟨_, rfl, ?_⟩
    rw [Served.meets_stalled]
    split <;> first | rfl | omega
  · refine ⟨_, rfl, ?_⟩
    rw [Served.meets_stalled]
    split <;> first | rfl | omega

theorem take_set_one (buf : Packet) (b : Byte) : (buf.set 0 b).toList.take 1 = [b] := by
  rw [Vector.toList_set]
  obtain ⟨c, rest, same⟩ : ∃ c rest, buf.toList = c :: rest :=
    List.exists_cons_of_length_pos (by simp)
  rw [same]
  rfl

theorem take_set_two (buf : Packet) (b c : Byte) :
    ((buf.set 0 b).set 1 c).toList.take 2 = [b, c] := by
  rw [Vector.toList_set, Vector.toList_set]
  obtain ⟨d, rest, same⟩ : ∃ d rest, buf.toList = d :: rest :=
    List.exists_cons_of_length_pos (by simp)
  obtain ⟨e, rest', same'⟩ : ∃ e rest', rest = e :: rest' :=
    List.exists_cons_of_length_pos (by have := congrArg List.length same; simp at this; omega)
  rw [same, same']
  rfl

@[simp] theorem Served.meets_one (buf : Packet) (b : Byte) :
    (Served.inPlace 1).Meets (buf.set 0 b) (some [b]) := by
  simpa [Served.inPlace, Served.Meets] using take_set_one buf b

@[simp] theorem Served.meets_two (buf : Packet) (b c : Byte) :
    (Served.inPlace 2).Meets ((buf.set 0 b).set 1 c) (some [b, c]) := by
  simpa [Served.inPlace, Served.Meets] using take_set_two buf b c

/-- What a request makes of endpoint 1: the cleared direction is at DATA0. -/
def Setup.Halts (s : Setup) (c c' : EpCtrl) : Prop :=
  c' = c ∨ s.ClearsHalt 0x81 ∧ c' = { c with tTog := false, tRes := .nak } ∨
    s.ClearsHalt 0x01 ∧ c' = { c with rTog := false, rRes := .ack }

/-- What a request comes to: what is offered, and what of the statics and of the controller
    may be another. -/
structure Setup.Serves (s : Setup) (T : Board) (r : Statics) (b : Bus)
    (out : Served × Statics × Bus) : Prop where
  meets : out.1.Meets out.2.2.sie.ep0 (s.offers T r.strSerial r.devConfig)
  statics : out.2.1 = { r with pendAddr := out.2.1.pendAddr, devConfig := out.2.1.devConfig }
  address : s.SetsAddress → out.2.1.pendAddr = s.vl
  config : out.2.1.devConfig = if s.SetsConfiguration then s.vl else r.devConfig
  bus : out.2.2 = { b with sie := { b.sie with
    ep0 := out.2.2.sie.ep0, ctrl1 := out.2.2.sie.ctrl1 } }
  halt : s.Halts b.sie.ctrl1 out.2.2.sie.ctrl1

section
variable {s : Setup} {r : Statics} {b : Bus} {x : Served}

theorem Setup.Serves.buffer {buf : Packet}
    (meets : x.Meets buf (s.offers T r.strSerial r.devConfig)) (address : ¬ s.SetsAddress)
    (config : ¬ s.SetsConfiguration) :
    s.Serves T r b (x, r, { b with sie := { b.sie with ep0 := buf } }) where
  meets := meets
  statics := rfl
  address := fun h => absurd h address
  config := (if_neg config).symm
  bus := rfl
  halt := .inl rfl

theorem Setup.Serves.unchanged (meets : x.Meets b.sie.ep0 (s.offers T r.strSerial r.devConfig))
    (address : ¬ s.SetsAddress) (config : ¬ s.SetsConfiguration) : s.Serves T r b (x, r, b) :=
  .buffer meets address config

theorem Setup.offers_standard (std : s.kind = 0) (serial : List Byte) (config : Byte) :
    s.offers T serial config = s.offersStandard T serial config := by
  rw [Setup.offers, if_neg (by rw [std]; decide), if_neg (not_not.mpr std)]

theorem alone_clearFeature (std : s.kind = 0) (clear : s.rq = rqClearFeature) :
    s.Serves T r b ((bus allowed).alone (clearFeature s.bm s.ixl) r b) := by
  have offers : s.offers T r.strSerial r.devConfig =
      if s.bm &&& 0x1F = 0x02 ∧ s.ixl ≠ 0x81 ∧ s.ixl ≠ 0x01 then none else some [] := by
    rw [Setup.offers_standard std, Setup.offersStandard, clear]
    rfl
  have address : ¬ s.SetsAddress := fun h => absurd (clear.symm.trans h.2) (by decide)
  have config : ¬ s.SetsConfiguration := fun h => absurd (clear.symm.trans h.2) (by decide)
  unfold clearFeature
  -- only the halts of endpoint 1 are there to clear
  by_cases endpoint : s.bm &&& 0x1F = 0x02
  · rw [if_pos endpoint]
    by_cases inn : s.ixl = 0x81
    · rw [if_pos inn]
      refine ⟨?_, rfl, fun h => absurd h address, (if_neg config).symm, rfl,
        .inr (.inl ⟨⟨std, clear, endpoint, inn⟩, rfl⟩)⟩
      rw [offers, if_neg fun h => h.2.1 inn]
      exact Served.meets_status _
    rw [if_neg inn]
    by_cases out : s.ixl = 0x01
    · rw [if_pos out]
      refine ⟨?_, rfl, fun h => absurd h address, (if_neg config).symm, rfl,
        .inr (.inr ⟨⟨std, clear, endpoint, out⟩, rfl⟩)⟩
      rw [offers, if_neg fun h => h.2.2 out]
      exact Served.meets_status _
    rw [if_neg out]
    refine .unchanged ?_ address config
    rw [offers, if_pos ⟨endpoint, inn, out⟩]
    exact (Served.meets_stalled _ _).mpr rfl
  · rw [if_neg endpoint]
    refine .unchanged ?_ address config
    rw [offers, if_neg fun h => endpoint h.1]
    exact Served.meets_status _

theorem alone_serveStandard (s : Setup) (r : Statics) (b : Bus) (std : s.kind = 0)
    (serial : r.strSerial.length ≤ 64) : s.Serves T r b
      ((bus allowed).alone (serveStandard T s.bm s.rq s.vl s.vh s.ixl) r b) := by
  have offers := @Setup.offers_standard T s std r.strSerial r.devConfig
  unfold serveStandard
  -- the requests in the order in which the source tells them apart
  by_cases desc : s.rq = rqGetDescriptor
  · obtain ⟨x, run, meets⟩ := @alone_getDescriptor allowed T s r b serial
    rw [if_pos desc, run]
    refine .unchanged ?_ (fun h => absurd (desc.symm.trans h.2) (by decide))
      fun h => absurd (desc.symm.trans h.2) (by decide)
    rw [offers]
    simpa [Setup.offersStandard, desc, rqGetDescriptor] using meets
  rw [if_neg desc]
  by_cases addr : s.rq = rqSetAddress
  · have config : ¬ s.SetsConfiguration := fun h => absurd (addr.symm.trans h.2) (by decide)
    rw [if_pos addr]
    refine ⟨?_, rfl, fun _ => rfl, (if_neg config).symm, rfl, .inl rfl⟩
    rw [offers]
    simp [Setup.offersStandard, addr, rqSetAddress]
  rw [if_neg addr]
  -- from here on no request sets an address, and after the next none a configuration
  have address : ¬ s.SetsAddress := fun h => addr h.2
  by_cases set : s.rq = rqSetConfiguration
  · rw [if_neg (by rw [set]; decide), if_pos set]
    refine ⟨?_, rfl, fun h => absurd h address, (if_pos ⟨std, set⟩).symm, rfl, .inl rfl⟩
    rw [offers, Setup.offersStandard, set]
    exact Served.meets_status _
  have config : ¬ s.SetsConfiguration := fun h => set h.2
  by_cases report : s.rq = rqGetConfiguration
  · rw [if_pos report]
    refine .buffer ?_ address config
    rw [offers, Setup.offersStandard, report]
    exact Served.meets_one _ _
  rw [if_neg report, if_neg set]
  by_cases interface : s.rq = rqGetInterface
  · rw [if_pos interface]
    refine .buffer ?_ address config
    rw [offers, Setup.offersStandard, interface]
    exact Served.meets_one _ _
  rw [if_neg interface]
  by_cases status : s.rq = rqGetStatus
  · rw [if_pos status]
    refine .buffer ?_ address config
    rw [offers, Setup.offersStandard, status]
    exact Served.meets_two _ _ _
  rw [if_neg status]
  by_cases clear : s.rq = rqClearFeature
  · rw [if_pos clear]
    exact alone_clearFeature std clear
  rw [if_neg clear]
  by_cases feature : s.rq = rqSetFeature
  · rw [if_neg (not_not.mpr feature)]
    refine .unchanged ?_ address config
    rw [offers, Setup.offersStandard, feature]
    exact Served.meets_status _
  rw [if_pos feature]
  refine .unchanged ?_ address config
  rw [offers, Served.meets_stalled]
  -- none of the requests is left, so the table stalls as well
  simp only [rqGetDescriptor, rqSetAddress, rqGetConfiguration, rqSetConfiguration, rqGetInterface,
    rqGetStatus, rqClearFeature, rqSetFeature, BitVec.toNat_eq, BitVec.reduceToNat] at *
  unfold Setup.offersStandard
  split <;> first | rfl | omega

end

theorem alone_serve (s : Setup) (r : Statics) (b : Bus) (serial : r.strSerial.length ≤ 64) :
    s.Serves T r b ((bus allowed).alone (serve T s.bm s.rq s.vl s.vh s.ixl) r b) := by
  unfold serve
  by_cases cls : s.bm &&& 0x60 = 0x20
  · have standard : s.kind ≠ 0 := fun zero => absurd (cls.symm.trans zero) (by decide)
    rw [if_pos cls]
    by_cases idle : s.rq = hidrqSetIdle
    · rw [if_neg (not_not.mpr idle)]
      refine .unchanged ?_ (fun h => standard h.1) fun h => standard h.1
      rw [Setup.offers, if_pos (show s.kind = 0x20 from cls), if_pos idle]
      exact Served.meets_status _
    · rw [if_pos idle]
      refine .unchanged ?_ (fun h => standard h.1) fun h => standard h.1
      rw [Setup.offers, if_pos (show s.kind = 0x20 from cls), if_neg idle]
      exact (Served.meets_stalled _ _).mpr rfl
  rw [if_neg cls]
  by_cases std : s.bm &&& 0x60 = 0x00
  · rw [if_neg (not_not.mpr std)]
    exact alone_serveStandard s r b std serial
  · rw [if_pos std]
    refine .unchanged ?_ (fun h => std h.1) fun h => std h.1
    rw [Setup.offers, if_neg (show ¬ s.kind = 0x20 from cls), if_pos (show s.kind ≠ 0 from std)]
    exact (Served.meets_stalled _ _).mpr rfl

theorem alone_setEp0s (f : Fin 64 → Byte) (is : List (Fin 64)) (r : Statics) (b : Bus) :
    (bus allowed).alone (forM is fun i => reg (.setEp0 i (f i))) r b =
      ((), r, { b with sie := { b.sie with ep0 := setAll b.sie.ep0 f is } }) := by
  induction is generalizing b with
  | nil => rfl
  | cons i is ih =>
    rw [List.forM_cons, Shared.alone_bind, alone_reg, ih]
    rfl

theorem alone_copyIn (p : List Byte) (len : Nat) (r : Statics) (b : Bus) (fits : p.length ≤ 64)
    (short : len ≤ p.length) :
    ∃ buf : Packet, (bus allowed).alone (copyIn p len) r b =
        ((), r, { b with sie := { b.sie with ep0 := buf } }) ∧ buf.toList.take len = p.take len := by
  refine ⟨_, alone_setEp0s _ _ r b, ?_⟩
  refine List.ext_getElem (by simp; omega) fun i left right => ?_
  rw [List.length_take] at left right
  have inside : i < 64 := by omega
  have member : (⟨i, inside⟩ : Fin 64) ∈ (List.finRange 64).take len :=
    List.mem_take_iff_getElem.mpr ⟨i, by simp; omega, by simp⟩
  have byte := setAll_get b.sie.ep0 (fun i => p.getD i 0) _ member
  rw [List.getElem_take, List.getElem_take, Vector.getElem_toList]
  exact byte.trans ((List.getElem_eq_getD 0).symm)

structure Setup.Handled (s : Setup) (T : Board) (r r' : Statics) (b b' : Bus) : Prop where
  statics : r' = { r with
    setupReq := s.rq, pendAddr := r'.pendAddr, devConfig := r'.devConfig }
  address : s.SetsAddress → r'.pendAddr = s.vl
  config : r'.devConfig = if s.SetsConfiguration then s.vl else r.devConfig
  bus : b' = { b with sie := { b.sie with
    ep0 := b'.sie.ep0, ctrl0 := b'.sie.ctrl0, tLen0 := b'.sie.tLen0, ctrl1 := b'.sie.ctrl1 } }
  halt : s.Halts b.sie.ctrl1 b'.sie.ctrl1
  answer : match s.reply T r.strSerial r.devConfig with
    | none => b'.sie.ctrl0 = data1 .stall .stall
    | some d => b'.sie.ctrl0 = data1 .ack .ack ∧ b'.sie.ep0.toList.take b'.sie.tLen0.toNat = d

theorem wlen_bytes (v : BitVec 16) :
    (v.setWidth 8).setWidth 16 ||| ((v >>> 8).setWidth 8).setWidth 16 <<< 8 = v := by
  apply BitVec.eq_of_getLsbD_eq
  intro i hi
  interval_cases i <;> simp

variable {A : Type}

theorem alone_reg_bind (op : SieOp) (f : op.Reply → Code A) (r : Statics) (b : Bus) :
    (bus allowed).alone (reg op >>= f) r b =
      (bus allowed).alone (f (b.access op).1) r (b.access op).2 := rfl

theorem alone_modify_bind (g : Statics → Statics) (f : Unit → Code A) (r : Statics) (b : Bus) :
    (bus allowed).alone (modify g >>= f) r b = (bus allowed).alone (f ()) (g r) b := rfl

theorem alone_ep0Setup (s : Setup) (buf : Packet) (r : Statics) (b : Bus)
    (packet : b.sie.ep0 = overwrite buf s.packet) :
    (bus allowed).alone (ep0Setup T) r b =
      (bus allowed).alone (respond T s.bm s.rq s.vl s.vh s.ixl s.wlen) r b := by
  change (bus allowed).alone (respond T b.sie.ep0[0] b.sie.ep0[1] b.sie.ep0[2] b.sie.ep0[3]
    b.sie.ep0[4] (b.sie.ep0[6].setWidth 16 ||| b.sie.ep0[7].setWidth 16 <<< 8)) r b = _
  simp only [packet, overwrite_get, Setup.packet, List.getD_cons_zero, List.getD_cons_succ]
  rw [wlen_bytes]

theorem alone_armStage_stalled {x : Served} (bm : Byte) (wlen : BitVec 16) (r : Statics) (b : Bus)
    (err : x.err = true) : (bus allowed).alone (armStage bm wlen x) r b =
      ((), r, { b with sie := { b.sie with ctrl0 := data1 .stall .stall } }) := by
  unfold armStage
  rw [if_pos err]
  rfl

theorem alone_armStage {x : Served} {d : List Byte} (s : Setup) (r : Statics) (b : Bus)
    (meets : x.Meets b.sie.ep0 (some d)) : ∃ (buf : Packet) (n : Byte),
      (bus allowed).alone (armStage s.bm s.wlen x) r b = ((), r, { b with sie := { b.sie with
        ep0 := buf, tLen0 := n, ctrl0 := data1 .ack .ack } }) ∧
      buf.toList.take n.toNat = if s.ToHost then d.take s.wlen.toNat else [] := by
  obtain ⟨unstalled, len, fits, held⟩ := meets
  unfold armStage
  rw [if_neg (by simp [unstalled])]
  rw [len] at fits ⊢
  generalize size : (if s.bm &&& 0x80 ≠ 0 then min d.length s.wlen.toNat else 0) = n
  -- to the host the reply is cut to what was asked; otherwise there is only the status stage
  by_cases dir : s.bm &&& 0x80 ≠ 0
  · rw [if_pos dir] at size ⊢
    rw [if_pos (show s.ToHost from dir)]
    have short : (BitVec.ofNat 8 n).toNat = n := by
      rw [BitVec.toNat_ofNat]
      omega
    have whole : d.take n = d.take s.wlen.toNat := by
      rw [← size, Nat.min_comm, ← List.take_take, List.take_length]
    cases p : x.p with
    | some table =>
      rw [p] at held
      subst held
      obtain ⟨buf, run, first⟩ := @alone_copyIn allowed table n r b fits
        (size ▸ Nat.min_le_left _ _)
      refine ⟨buf, BitVec.ofNat 8 n, ?_, ?_⟩
      · rw [Shared.alone_bind, run]
        rfl
      · rw [short, first, whole]
    | none =>
      rw [p] at held
      refine ⟨b.sie.ep0, BitVec.ofNat 8 n, rfl, ?_⟩
      rw [short, ← whole]
      conv_rhs => rw [← held, List.take_take, Nat.min_eq_left (size ▸ Nat.min_le_left _ _)]
  · rw [if_neg dir] at size ⊢
    subst size
    refine ⟨b.sie.ep0, 0, rfl, ?_⟩
    rw [if_neg (show ¬ s.ToHost from dir)]
    rfl

theorem alone_respond (s : Setup) (r : Statics) (b : Bus) (serial : r.strSerial.length ≤ 64) :
    s.Handled T r ((bus allowed).alone (respond T s.bm s.rq s.vl s.vh s.ixl s.wlen) r b).2.1 b
      ((bus allowed).alone (respond T s.bm s.rq s.vl s.vh s.ixl s.wlen) r b).2.2 := by
  unfold respond
  rw [alone_reg_bind, alone_modify_bind, Shared.alone_bind]
  have served := @alone_serve allowed T s { r with setupReq := s.rq }
    (b.access (.setCtrl .ep0 (data1 .ack .nak))).2 serial
  generalize (bus allowed).alone (serve T s.bm s.rq s.vl s.vh s.ixl) { r with setupReq := s.rq }
    (b.access (.setCtrl .ep0 (data1 .ack .nak))).2 = out at served
  obtain ⟨x, r₁, b₁⟩ := out
  obtain ⟨meets, statics, address, config, same, halt⟩ := served
  simp only at meets statics address config same halt ⊢
  cases offers : s.offers T r.strSerial r.devConfig with
  | none =>
    rw [offers] at meets
    rw [alone_armStage_stalled _ _ _ _ meets]
    refine ⟨statics, address, config, ?_, halt, ?_⟩
    · rw [same]
      rfl
    · rw [Setup.reply, offers]
      rfl
  | some d =>
    rw [offers] at meets
    obtain ⟨buf, n, run, packet⟩ := @alone_armStage allowed _ _ s r₁ b₁ meets
    rw [run]
    refine ⟨statics, address, config, ?_, halt, ?_⟩
    · rw [same]
      rfl
    · rw [Setup.reply, offers]
      exact ⟨rfl, packet⟩

end OpenBoot.Usb
