import OpenBoot.Core.Protocol
import OpenBoot.Host.Image

/-! The device info in a HELLO response, as the host validates it. -/

set_option autoImplicit false

namespace OpenBoot.Host

def le16 (b : List Byte) : BitVec 16 :=
  (b.getD 0 0).setWidth 16 ||| (b.getD 1 0).setWidth 16 <<< 8

def le64 (b : List Byte) : BitVec 64 :=
  (get32 b).setWidth 64 ||| (get32 (b.drop 4)).setWidth 64 <<< 32

/-- The status byte included; more may follow. -/
def helloRespLen : Nat := 48

structure DeviceInfo where
  protoMajor : Byte
  protoMinor : Byte
  chipRev : Byte
  blVersion : BitVec 16
  chipFamily : Byte
  transport : Byte
  appStart : Word
  appEnd : Word
  eraseBlock : Word
  writePage : BitVec 16
  writeAlign : Byte
  maxWriteData : Byte
  features : Word
  uid : BitVec 64
  slotCount : Byte
  activeSlot : Byte
  writeSlot : Byte
  writeBase : Word
  writeCapacity : Word
  deriving DecidableEq

namespace DeviceInfo

def fields (payload : List Byte) : DeviceInfo where
  protoMajor := payload.getD 1 0
  protoMinor := payload.getD 2 0
  chipRev := payload.getD 3 0
  blVersion := le16 (payload.drop 4)
  chipFamily := payload.getD 6 0
  transport := payload.getD 7 0
  appStart := get32 (payload.drop 8)
  appEnd := get32 (payload.drop 12)
  eraseBlock := get32 (payload.drop 16)
  writePage := le16 (payload.drop 20)
  writeAlign := payload.getD 22 0
  maxWriteData := payload.getD 23 0
  features := get32 (payload.drop 24)
  uid := le64 (payload.drop 28)
  slotCount := payload.getD 36 0
  activeSlot := payload.getD 37 0
  writeSlot := payload.getD 38 0
  writeBase := get32 (payload.drop 40)
  writeCapacity := get32 (payload.drop 44)

/-- Info the flows cannot safely use is rejected. A zero capacity is not: it is the
    truthful report of a part that cannot hold the slot. -/
def parse (payload : List Byte) : Fallible DeviceInfo :=
  if payload.length < helloRespLen then
    bail ("HELLO response payload is " ++ toString payload.length ++
      " bytes; the device must send at least " ++ toString helloRespLen)
  else
    let info := fields payload
    if info.appStart ≥ info.appEnd then
      bail ("device reported an inverted app region " ++ hex8 info.appStart ++ ".." ++
        hex8 info.appEnd)
    else if info.eraseBlock = 0 then bail "device reported a zero erase block size"
    else if info.writeAlign = 0 then bail "device reported a zero write alignment"
    else if info.maxWriteData = 0 ∨ info.maxWriteData.toNat % 4 ≠ 0 then
      bail ("device reported an unusable max_write_data of " ++
        toString info.maxWriteData.toNat ++ " bytes")
    else if info.maxWriteData.toNat > OpenBoot.maxWriteData then
      bail ("device reported max_write_data of " ++ toString info.maxWriteData.toNat ++
        " bytes, above the protocol maximum of " ++ toString OpenBoot.maxWriteData)
    else if info.slotCount = 0 then bail "device reported zero slots"
    else if info.writeSlot ≥ info.slotCount then
      bail ("device reported write slot " ++ toString info.writeSlot.toNat ++ " with only " ++
        toString info.slotCount.toNat ++ " slot(s)")
    else if info.activeSlot ≠ slotIdNone ∧ info.activeSlot ≥ info.slotCount then
      bail ("device reported active slot " ++ toString info.activeSlot.toNat ++ " with only " ++
        toString info.slotCount.toNat ++ " slot(s)")
    else if info.writeBase < info.appStart ∨
        info.writeBase.toNat + info.writeCapacity.toNat > info.appEnd.toNat then
      bail ("device reported a write window " ++ hex8 info.writeBase ++ "..0x" ++
        hexPadded 8 (info.writeBase.toNat + info.writeCapacity.toNat) ++
        " outside its app region " ++ hex8 info.appStart ++ ".." ++ hex8 info.appEnd)
    else .ok info

def familyName (info : DeviceInfo) : String :=
  if info.chipFamily = 1 then "CH570"
  else if info.chipFamily = 2 then "CH572"
  else if info.chipFamily = 3 then "CH591"
  else if info.chipFamily = 4 then "CH592"
  else "unknown family " ++ hex2 info.chipFamily

def crcLive (info : DeviceInfo) : Bool := info.features &&& featCrcLive ≠ 0

/-- What `parse` vouches for. -/
structure Usable (info : DeviceInfo) : Prop where
  region : info.appStart < info.appEnd
  block : info.eraseBlock ≠ 0
  align : info.writeAlign ≠ 0
  chunk : info.maxWriteData ≠ 0 ∧ info.maxWriteData.toNat % 4 = 0
  ceiling : info.maxWriteData.toNat ≤ OpenBoot.maxWriteData
  slots : info.slotCount ≠ 0
  target : info.writeSlot < info.slotCount
  active : info.activeSlot = slotIdNone ∨ info.activeSlot < info.slotCount
  window : info.appStart ≤ info.writeBase ∧
    info.writeBase.toNat + info.writeCapacity.toNat ≤ info.appEnd.toNat

theorem parse_eq_ok {payload : List Byte} {info : DeviceInfo} : parse payload = .ok info ↔
    helloRespLen ≤ payload.length ∧ info = fields payload ∧ info.Usable := by
  unfold parse
  simp only [ite_bail_eq_ok, Except.ok.injEq, not_or, not_and, Decidable.not_not, not_lt, ge_iff_le,
    gt_iff_lt, BitVec.not_le, BitVec.not_lt]
  constructor
  · rintro ⟨long, region, block, align, chunk, ceiling, slots, target, active, window, rfl⟩
    exact ⟨long, rfl, region, block, align, chunk, ceiling, slots, target,
      (Decidable.em _).imp_right active, window⟩
  · rintro ⟨long, rfl, usable⟩
    exact ⟨long, usable.region, usable.block, usable.align, usable.chunk, usable.ceiling,
      usable.slots, usable.target, usable.active.resolve_left, usable.window, rfl⟩

def Holds (info : DeviceInfo) (addr len : Word) : Prop :=
  0 < len.toNat ∧ info.writeBase.toNat ≤ addr.toNat ∧
    addr.toNat + len.toNat ≤ info.writeBase.toNat + info.writeCapacity.toNat

end DeviceInfo

end OpenBoot.Host
