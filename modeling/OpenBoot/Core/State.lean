import OpenBoot.Port.Flash

/-! The core's RAM and the state transitions its handlers use. -/

set_option autoImplicit false

namespace OpenBoot

/-- How COMMIT may attest without live CRC. `run` is the zero value. -/
inductive Stream where
  | run
  | poisoned
  deriving DecidableEq

inductive RecState where
  | flash
  | invalid
  | fresh
  deriving DecidableEq

/-- The session-scoped part, `s` in the source. -/
structure Session where
  session : Bool
  disarmed : Bool
  stream : Stream
  bitmap : List Byte
  expectedNext : Word
  lastAddr : Word
  lastLen : Word
  crcState : Word
  lastData : List Byte
  deriving DecidableEq

/-- All of the core's variables, with the boot-request word the app shares. -/
structure Core where
  activeSlot : Word
  writeSlot : Word
  s : Session
  recState : RecState
  committedImgLen : Word
  committedImgCrc : Word
  highestGen : Word
  bootreq : Word
  deriving DecidableEq

abbrev Code := Semantics.Program port Core

open Semantics.Program (get modify perform)

def flashErase (addr len : Word) : Code Word := perform (I := port) (.flashErase addr len)

def flashWrite (addr : Word) (buf : List Byte) : Code Word :=
  perform (I := port) (.flashWrite addr buf)

def flashVerify (addr : Word) (buf : List Byte) : Code Word :=
  perform (I := port) (.flashVerify addr buf)

def xipRead32 (addr : Word) : Code Word := perform (I := port) (.xipRead32 addr)

def Session.zero (D : Device) : Session where
  session := false
  disarmed := false
  stream := .run
  bitmap := List.replicate D.bitmapBytes 0
  expectedNext := 0
  lastAddr := 0
  lastLen := 0
  crcState := 0
  lastData := List.replicate maxWriteData 0

/-- RAM as startup leaves it: everything cleared but the boot-request word. -/
def Core.bss (D : Device) (bootreq : Word) : Core where
  activeSlot := 0
  writeSlot := 0
  s := .zero D
  recState := .flash
  committedImgLen := 0
  committedImgCrc := 0
  highestGen := 0
  bootreq := bootreq

end OpenBoot
