import TrustOnboard.AppletModel

/-! `MF`: PIN verification and the elementary files of the file tree. The object has no members of
its own, so it is an applet. -/

namespace TrustOnboard.MF

open Exec Linked SEInterface

variable {σ : Type} (T : Transport σ)

def aid : List UInt8 :=
  [0xA0, 0x00, 0x00, 0x00, 0x87, 0x10, 0x01, 0xFF, 0x33, 0xFF, 0xFF, 0x89, 0x01, 0x01, 0x01, 0x00]

/-- The PIN, padded with `FF` to eight bytes. -/
def pinData (pin : List UInt8) : List UInt8 := pin ++ List.replicate (8 - pin.length) 0xFF

def verifyPin (pin : List UInt8) : Exec (Linked σ Applet) Bool :=
  if 8 < pin.length then pure false
  else Applet.ok (Applet.transmitCase3 T 0x00 .verify SCP1.VERIFYReserved
    (SCP2.BasicSecurityMFKey ||| 0x01) (pinData pin))

/-- The inner loop of `getEFSize`: the `l` bytes from index `i` on, big-endian and modulo `2 ^ 16`. -/
def sizeBytes : Nat → Nat → Nat → Exec (SEInterface σ) Nat
  | 0, _, size => pure size
  | l + 1, i, size => do
      check (i < apduResponseSize)
      let byte ← gets fun s => (s.response i).toNat
      sizeBytes l (i + 1) ((size * 256 + byte) % 65536)

/-- One turn of the walk of `getEFSize` over the TLVs of `_apduResponse`. -/
def efSizeTurn (dataLen : Nat) : Nat → Exec (SEInterface σ) (Turn Nat (Option Nat)) := fun i => do
  if i < dataLen then
    let tag ← gets fun s => s.response i
    let l ← gets fun s => (s.response (i + 1)).toNat
    if tag = SCTag.FCPFileSizeWithoutInfo then
      let size ← sizeBytes l (i + 2) 0
      return .stop (some size)
    else
      return .again ((i + 1 + 1 + l) % 65536)
  else
    return .stop none

/-- The size in the first tag-80 TLV of the FCP template in the response buffer. -/
def getEFSize (dataLen : Nat) : Exec (SEInterface σ) (Option Nat) := do
  if (← gets fun s => s.response 0) = SCTag.FileControlInfoFCP then
    loop (efSizeTurn dataLen) 2
  else
    return none

/-- One turn of the read loop of `readEF`: the next at most 255 bytes, or give up. -/
def readTurn (dataLen : Nat) : Nat × Mem → Exec (Linked σ Applet) (Turn (Nat × Mem) (Bool × Mem)) :=
  fun x => do
    if x.1 < dataLen then
      let toread := if 255 ≤ dataLen - x.1 then 255 else dataLen - x.1
      if ← Applet.ok (Applet.transmitCase2 T 0x00 .readBinary (highByte x.1) (lowByte x.1)
          (lowByte toread)) then
        let data ← gets Applet.getResponse
        return .again ((x.1 + data.length) % 65536, x.2.write x.1 data)
      else
        return .stop (false, x.2)
    else
      return .stop (true, x.2)

/-- The flag, the buffer and `*dataLen`. -/
def readEF (path : List UInt8) (data : Option Mem) (dataLen : Nat) :
    Exec (Linked σ Applet) (Bool × Option Mem × Nat) := do
  if ← Applet.ok (Applet.transmitCase4 T 0x00 .select SCP1.SELECTByPathFromMF
      (SCP2.SELECTFCPTemplate ||| SCP2.SELECTFirstOrOnly) path 0x00) then
    let length ← onSE (gets getResponseLength)
    match ← onSE (getEFSize length) with
    | none => return (false, data, dataLen)
    | some size =>
        match data with
        | none => return (true, none, size)
        | some out =>
            let read ← loop (readTurn T size) (0, out)
            return (read.1, some read.2, size)
  else
    return (false, data, dataLen)

/-- The path is the text in quotes, eight bytes. -/
def readCertificate (data : Option Mem) (dataLen : Nat) : Exec (Linked σ Applet) (Bool × Option Mem × Nat) :=
  readEF T (cstr "7FAA6F01") data dataLen

def readPrivateKey (data : Option Mem) (dataLen : Nat) : Exec (Linked σ Applet) (Bool × Option Mem × Nat) :=
  readEF T (cstr "7FAA6F02") data dataLen

end TrustOnboard.MF
