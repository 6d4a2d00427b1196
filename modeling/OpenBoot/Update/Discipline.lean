import OpenBoot.Core.Requests
import OpenBoot.Core.Selection
import OpenBoot.Port.Effects

/-! The update discipline: every command the core may issue, every change it
may make to its RAM, and every way a frame may end, with their preconditions.

The handlers are proved to follow it once; what holds of the device over whole
runs is derived from it.
-/

set_option autoImplicit false

namespace OpenBoot

open Semantics

def AcceptsErase (D : Device) (c : Core) (buf : List Byte) : Prop :=
  c.s.session = true ∧ ∃ addr len, eraseOf buf = some (addr, len) ∧ addr % D.eraseBlock = 0 ∧
    len % D.eraseBlock = 0 ∧ writeRangeOk D c addr len = true

/-- The flash holds an image with this CRC at the slot's base. -/
def Attests (D : Device) (f : Flash) (slot len crc : Word) : Prop :=
  crc32 (f.bytes (D.base slot) len.toNat) = crc

structure ImageBlock (D : Device) (slot a : Word) : Prop where
  aligned : D.block ∣ a.toNat
  low : D.base slot ≤ a.toNat
  high : a.toNat + D.block ≤ D.recordAt slot

/-- A chunk of image data whose blocks are marked erased. -/
structure ImageChunk (D : Device) (c : Core) (a : Word) (data : List Byte) : Prop where
  aligned : 4 ∣ a.toNat
  words : 4 ∣ data.length
  nonempty : 0 < data.length
  small : data.length ≤ maxWriteData
  low : D.base c.writeSlot ≤ a.toNat
  high : a.toNat + data.length ≤ D.recordAt c.writeSlot
  covered : bitmapCovers D c a (BitVec.ofNat 32 data.length) = true

structure Resend (c : Core) (a : Word) (data : List Byte) : Prop where
  addr : a = c.s.lastAddr
  len : data.length = c.s.lastLen.toNat
  data : data = c.s.lastData.take data.length

/-- An intact run is only ever extended at its end. -/
def KeepsRun (c : Core) (a : Word) (data : List Byte) : Prop :=
  c.s.stream = .run → a = c.s.expectedNext ∨ Resend c a data

/-- A COMMIT that passes every check in this state, of an image that lies in
    flash as claimed. -/
structure AcceptsCommit (D : Device) (c : Core) (w : World) (buf : List Byte) (len crc : Word) :
    Prop where
  request : commitOf buf = some (len, crc)
  session : c.s.session = true
  geometry : Geometry D c.writeSlot len
  unreplayed : ¬ (c.recState = .fresh ∧ c.committedImgLen = len ∧ c.committedImgCrc = crc)
  attestable : attestViaXip D c = true ∨ streamCovers D c len = true
  attests : Attests D w.flash c.writeSlot len crc
  nonzero : c.highestGen + 1 ≠ 0
  below : c.highestGen + 1 ≠ 0xFFFFFFFF

/-- What holds while COMMIT stores the record: it was accepted in the state the
    frame found, and the image has not been touched since. -/
structure Sealing (D : Device) (buf : List Byte) (c₀ : Core) (w₀ : World) (c : Core) (f : Flash)
    (len crc : Word) : Prop where
  accepted : AcceptsCommit D c₀ w₀ buf len crc
  slot : c.writeSlot = c₀.writeSlot
  gen : c.highestGen = c₀.highestGen
  area : (D.imageArea c.writeSlot).EqOn f w₀.flash

def nextRecord (c : Core) (len crc : Word) : BootRecord := .sealed (c.highestGen + 1) len crc

@[simp] theorem nextRecord_length (c : Core) (len crc : Word) :
    (nextRecord c len crc).bytes.length = bootRecordSize := BootRecord.sealed_bytes_length

def recordErased (D : Device) (f : Flash) (slot : Word) : Prop :=
  Nor.Erased erasedByte f (D.recordAt slot) D.block

/-- The commands of the core, each with what holds when it is issued. -/
inductive Command (D : Device) (buf : List Byte) (c₀ : Core) (w₀ : World) (c : Core) (w : World) :
    PortOp → Prop where
  -- the record's own block, before the first mutation of a session or for COMMIT
  | disarm : c.recState = .invalid → c.s.disarmed = false ∨ (commitOf buf).isSome →
      Command D buf c₀ w₀ c w (.flashErase (D.slotRecordAddr c.writeSlot) D.eraseBlock)
  -- never below the cursor of a run that is still to be attested
  | eraseImage {a : Word} : c.s.disarmed = true → commitOf buf = none →
      ImageBlock D c.writeSlot a → (c.s.stream = .run → c.s.expectedNext.toNat ≤ a.toNat) →
      Command D buf c₀ w₀ c w (.flashErase a D.eraseBlock)
  | writeImage {a : Word} {data : List Byte} : c.s.disarmed = true → commitOf buf = none →
      ImageChunk D c a data → KeepsRun c a data → Command D buf c₀ w₀ c w (.flashWrite a data)
  | verifyImage {a : Word} {data : List Byte} : c.s.disarmed = true → ImageChunk D c a data →
      Command D buf c₀ w₀ c w (.flashVerify a data)
  -- onto a block that COMMIT has just erased
  | writeRecord {len crc : Word} : c.recState = .invalid → recordErased D w.flash c.writeSlot →
      w.blkErased (D.recordAt c.writeSlot / D.block) = true →
      Sealing D buf c₀ w₀ c w.flash len crc →
      Command D buf c₀ w₀ c w
        (.flashWrite (D.slotRecordAddr c.writeSlot) (nextRecord c len crc).bytes)
  | verifyRecord {len crc : Word} : c.recState = .invalid →
      Sealing D buf c₀ w₀ c w.flash len crc →
      Command D buf c₀ w₀ c w
        (.flashVerify (D.slotRecordAddr c.writeSlot) (nextRecord c len crc).bytes)

/-- An operation the core may issue while serving a frame: a look inside the
    region, or a command about the write slot the frame began with. -/
inductive Permit (D : Device) (buf : List Byte) (c₀ : Core) (w₀ : World) (c : Core) (w : World) :
    PortOp → Prop where
  | look {op : PortOp} : Reads D.flashAppStart.toNat D.appEnd.toNat op → Permit D buf c₀ w₀ c w op
  | command {op : PortOp} : c.writeSlot = c₀.writeSlot → D.Fits c.writeSlot →
      Command D buf c₀ w₀ c w op → Permit D buf c₀ w₀ c w op

/-- The changes the core may make to its RAM while serving a frame. -/
inductive RamStep (D : Device) (buf : List Byte) (c₀ : Core) (w₀ w : World) (c : Core) :
    Core → Prop where
  | opened : RamStep D buf c₀ w₀ w c (c.sessionOpen D)
  | kept : RamStep D buf c₀ w₀ w c c
  | poisoned : RamStep D buf c₀ w₀ w c c.poison
  -- what is known of a COMMIT is only given up for an ERASE, or for another COMMIT
  | distrusted : c.recState = c₀.recState →
      (c₀.recState = .fresh → AcceptsErase D c₀ buf ∨ D.crcLive = true) →
      RamStep D buf c₀ w₀ w c c.recordBeginWrite
  | disarmed : c.recState = .invalid → recordErased D w.flash c.writeSlot →
      RamStep D buf c₀ w₀ w c (c.setDisarmed true)
  | marked {a : Word} : c.s.disarmed = true → ImageBlock D c.writeSlot a →
      w.blkErased (a.toNat / D.block) = true → RamStep D buf c₀ w₀ w c (c.bitmapMark D a)
  -- the chunk has been verified, so its cells hold exactly the data
  | folded {a : Word} {data : List Byte} : c.s.disarmed = true → ImageChunk D c a data →
      a = c.s.expectedNext → Nor.Settled w.flash a.toNat data →
      RamStep D buf c₀ w₀ w c (c.streamFold a (BitVec.ofNat 32 data.length) data)
  -- the record may have landed although the write failed
  | failed : (commitOf buf).isSome → RamStep D buf c₀ w₀ w c c.recordNoteWriteFailed
  | committed {len crc : Word} : c.recState = .invalid → Sealing D buf c₀ w₀ c w.flash len crc →
      recordOn D w.flash c.writeSlot = some (nextRecord c len crc) →
      RamStep D buf c₀ w₀ w c (c.recordNoteCommitted D len crc (c.highestGen + 1))
  | stayed : RamStep D buf c₀ w₀ w c { c with bootreq := bootreqMagic }

/-- The discipline as a contract on the code that serves one frame. -/
def discipline (D : Device) (buf : List Byte) (c₀ : Core) (w₀ : World) : Contract port Core World :=
  ⟨fun c w op => Permit D buf c₀ w₀ c w op, fun w c c' => RamStep D buf c₀ w₀ w c c'⟩

def AnsweredOk (resp : List Byte) : Prop := resp ≠ [] ∧ respStatus resp = ok

instance (resp : List Byte) : Decidable (AnsweredOk resp) := inferInstanceAs (Decidable (_ ∧ _))

/-- Why BOOT to the application is accepted, by the record state. -/
def Trusts (D : Device) (c : Core) (f : Flash) : Prop :=
  match c.recState with
  | .fresh => True
  | .flash => selectOn D f ≠ slotNone
  | .invalid => c.activeSlot ≠ slotNone

/-- How serving a frame may end, from the state it began in. -/
inductive Ending (D : Device) (buf : List Byte) (c₀ : Core) (w₀ : World) :
    List Byte → Action → Core → World → Prop where
  -- refused, or CRC answered
  | kept {resp : List Byte} : ((commitOf buf).isSome → ¬ AnsweredOk resp) →
      Ending D buf c₀ w₀ resp .none c₀ w₀
  | replayed {resp : List Byte} {len crc : Word} : commitOf buf = some (len, crc) →
      c₀.s.session = true → c₀.recState = .fresh → c₀.committedImgLen = len →
      c₀.committedImgCrc = crc →
      Ending D buf c₀ w₀ resp .none c₀ w₀
  | opened {resp : List Byte} : commitOf buf = none → AnsweredOk resp →
      Ending D buf c₀ w₀ resp .none (c₀.sessionOpen D) w₀
  | stayed {resp : List Byte} : bootOf buf = some bootStay → AnsweredOk resp →
      Ending D buf c₀ w₀ resp .reset { c₀ with bootreq := bootreqMagic } w₀
  | launched {resp : List Byte} : bootOf buf = some bootApp → AnsweredOk resp →
      Trusts D c₀ w₀.flash → Ending D buf c₀ w₀ resp .reset c₀ w₀
  -- ERASE or WRITE done
  | changed {resp : List Byte} {c : Core} {w : World} : commitOf buf = none → AnsweredOk resp →
      c.writeSlot = c₀.writeSlot → c.bootreq = c₀.bootreq → w₀.ops.length < w.ops.length →
      Ending D buf c₀ w₀ resp .none c w
  -- some command failed, and it is the last one issued
  | failed {resp : List Byte} {c : Core} {w : World} {op : PortOp} {x : Word}
      {rest : List (PortOp × Word)} : respStatus resp = eFlash →
      w.ops = (op, x) :: rest → x ≠ 0 → (respDetail resp = 0 → x.setWidth 8 = (0 : Byte)) →
      w₀.ops.length ≤ rest.length → ((commitOf buf).isSome → c.s.disarmed = false ∧
        ∃ len crc, AcceptsCommit D c₀ w₀ buf len crc) →
      c.writeSlot = c₀.writeSlot → c.bootreq = c₀.bootreq → Ending D buf c₀ w₀ resp .none c w
  | committed {resp : List Byte} {c : Core} {w : World} {len crc : Word} :
      AcceptsCommit D c₀ w₀ buf len crc → AnsweredOk resp → c.s.session = true →
      c.recState = .fresh → c.committedImgLen = len → c.committedImgCrc = crc →
      c.s.disarmed = false → c.activeSlot = c₀.writeSlot → c.writeSlot = otherSlot c₀.writeSlot →
      c.bootreq = c₀.bootreq → w₀.ops.length < w.ops.length → Ending D buf c₀ w₀ resp .none c w

end OpenBoot
