import OpenBoot.Core.Words

/-! CRC-32/ISO-HDLC as the firmware computes it, four bits per step. -/

set_option autoImplicit false

namespace OpenBoot

def crc32Tab : List Word :=
  [0x00000000, 0x1DB71064, 0x3B6E20C8, 0x26D930AC,
   0x76DC4190, 0x6B6B51F4, 0x4DB26158, 0x5005713C,
   0xEDB88320, 0xF00F9344, 0xD6D6A3E8, 0xCB61B38C,
   0x9B64C2B0, 0x86D3D2D4, 0xA00AE278, 0xBDBDF21C]

def crc32Nibble (state : Word) : Word :=
  (state >>> 4) ^^^ crc32Tab.getD (state &&& 0x0F).toNat 0

def crc32Byte (state : Word) (b : Byte) : Word :=
  crc32Nibble (crc32Nibble (state ^^^ b.setWidth 32))

def crc32Update (state : Word) (data : List Byte) : Word := data.foldl crc32Byte state

def crc32Init : Word := 0xFFFFFFFF

def crc32Final (state : Word) : Word := state ^^^ 0xFFFFFFFF

def crc32 (data : List Byte) : Word := crc32Final (crc32Update crc32Init data)

example : crc32 [0x31, 0x32, 0x33, 0x34, 0x35, 0x36, 0x37, 0x38, 0x39] = 0xCBF43926 := by decide

theorem crc32Update_append (state : Word) (a b : List Byte) :
    crc32Update state (a ++ b) = crc32Update (crc32Update state a) b := by
  simp [crc32Update]

end OpenBoot
