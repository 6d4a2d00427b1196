import OpenBoot.Core.Crc32

/-! Wire constants and response frames. -/

set_option autoImplicit false

namespace OpenBoot

def protoMajor : Byte := 0x00
def protoMinor : Byte := 0x02

/-- Bootloader version, major in the high byte. -/
def blVersion : Word := 0x000B

def frameHdrLen : Nat := 4
def frameOverhead : Nat := 8
def maxPayload : Nat := 56
def maxWriteData : Nat := 48

def cmdHello : Byte := 0x01
def cmdErase : Byte := 0x02
def cmdWrite : Byte := 0x03
def cmdCrc : Byte := 0x04
def cmdCommit : Byte := 0x05
def cmdBoot : Byte := 0x06
def cmdRespBit : Byte := 0x80
def cmdFrameErr : Byte := 0xFF

def ok : Byte := 0x00
def eCrc : Byte := 0x01
def eLen : Byte := 0x02
def eCmd : Byte := 0x03
def eState : Byte := 0x04
def eArg : Byte := 0x05
def eAddr : Byte := 0x06
def eNotErased : Byte := 0x07
def eFlash : Byte := 0x08
def eVerify : Byte := 0x09
def eProto : Byte := 0x0A

def detNone : Byte := 0x00
def detAddrRange : Byte := 0x01
def detAddrAlign : Byte := 0x02
def detVerifyMismatch : Byte := 0x01
def detVerifyNonseq : Byte := 0x02
def detVerifyNorecord : Byte := 0x03

/-- "OBP1" as a little-endian word. -/
def helloMagic : Word := 0x3150424F
def helloReqLen : Nat := 6

def slotIdNone : Byte := 0xFF

def featCrcLive : Word := 0x02

def bootApp : Byte := 0x00
def bootStay : Byte := 0x01

/-- "OBR2" as a little-endian word. -/
def recordMagic : Word := 0x3252424F
def bootRecordSize : Nat := 32
def recordRsvdBytes : Nat := 12
def recordCrcLen : Nat := 28

def bootreqMagic : Word := 0xB007CA11

def finish (cmd seq : Byte) (payload : List Byte) : List Byte :=
  let body := [cmd, seq, BitVec.ofNat 8 payload.length, 0] ++ payload
  body ++ put32 (crc32 body)

def errResp (cmd seq status detail : Byte) : List Byte :=
  finish (cmd ||| cmdRespBit) seq [status, detail]

def okResp (cmd seq : Byte) : List Byte := finish (cmd ||| cmdRespBit) seq [ok]

def respStatus (resp : List Byte) : Byte := resp.getD 4 0

def respDetail (resp : List Byte) : Byte := resp.getD 5 0

@[simp] theorem okResp_ne_nil (cmd seq : Byte) : okResp cmd seq ≠ [] := List.cons_ne_nil _ _

@[simp] theorem finish_ne_nil (cmd seq : Byte) (payload : List Byte) :
    finish cmd seq payload ≠ [] := List.cons_ne_nil _ _

end OpenBoot
