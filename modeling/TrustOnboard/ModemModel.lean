import TrustOnboard.HexModel
import TrustOnboard.CardSEInterface

/-! `ATInterface` and `GenericModem`: the driver that exchanges APDUs with a modem as `AT+CSIM`
commands over a serial line. Accesses to the line buffer and to the caller's response buffer are
checked; everything else about them is what the modem sends. -/

namespace TrustOnboard

open Exec

/-- The serial line and the buffers of `sendATCSIM`. `input` is what the calls of `recv` have yet to
deliver, `none` being a call that returns false; behind it `recv` returns false for ever (`hangup`) or
does not return. `sent` is what was handed to `send`. -/
structure ATInterface where
  input : List (Option UInt8)
  hangup : Bool
  sent : List (List UInt8)
  buf : Mem
  response : Mem

namespace ATInterface

def bufSize : Nat := 537

/-- `'\n'`. -/
def newline : UInt8 := 0x0A

/-- `recv` of one byte. -/
def recv : Exec ATInterface (Option UInt8) := fun _ s =>
  match s.input with
  | received :: rest => (.done received, { s with input := rest })
  | [] => if s.hangup then (.done none, s) else (.spent, s)

/-! ### Lines -/

/-- One turn of `readLine`: the next byte goes to `data[off]`. -/
def readTurn : Nat → Exec ATInterface (Turn Nat (Option Nat)) := fun off => do
  match ← recv with
  | none => return .stop none
  | some byte =>
      check (off < bufSize)
      modify fun s => { s with buf := s.buf.write off [byte] }
      if byte = newline then
        return .stop (some (off + 1))
      else
        return .again (off + 1)

/-- `*len`, or nothing where `readLine` returns false. -/
def readLine : Exec ATInterface (Option Nat) := loop readTurn 0

/-- `memcmp(buf, text, length) == 0`. -/
def startsWith (buf : Mem) (text : List UInt8) : Bool := buf.slice 0 text.length = text

def errorText : List UInt8 := cstr "ERROR\r\n"
def csimText : List UInt8 := cstr "+CSIM: "
def okText : List UInt8 := cstr "OK\r\n"

/-- One turn of a loop that reads lines until the buffer says what to return. Whether `readLine`
failed is not looked at. -/
def lineTurn {α : Type} (verdict : Mem → Option α) : Unit → Exec ATInterface (Turn Unit α) := fun _ => do
  let _ ← readLine
  let buf ← gets fun s => s.buf
  match verdict buf with
  | some value => return .stop value
  | none => return .again ()

/-- The loop up to the response line gives up at an error. -/
def responseVerdict (buf : Mem) : Option Bool :=
  if startsWith buf errorText then some false
  else if startsWith buf csimText then some true
  else none

/-- The loop up to the final line. -/
def okVerdict (buf : Mem) : Option Unit := if startsWith buf okText then some () else none

/-! ### The response line -/

/-- The value of a `char`, which is signed or not, modulo `2 ^ 16`. -/
def charCode (charSigned : Bool) (c : UInt8) : Nat :=
  if charSigned = true ∧ 128 ≤ c.toNat then c.toNat + 65280 else c.toNat

/-- One turn over the declared length: the position and `*responseLen`, a 16-bit number. -/
def lengthTurn (charSigned : Bool) : Nat × Nat → Exec ATInterface (Turn (Nat × Nat) (Nat × Nat)) :=
  fun x => do
    check (x.1 < bufSize)
    let c ← gets fun s => s.buf x.1
    if c = 0x2C then
      return .stop x
    else
      -- `- '0'` is `+ 65488` modulo `2 ^ 16`
      return .again (x.1 + 1, (x.2 * 10 + charCode charSigned c + 65488) % 65536)

def isHexDigit (c : UInt8) : Bool :=
  (0x30 ≤ c ∧ c ≤ 0x39) ∨ (0x41 ≤ c ∧ c ≤ 0x46) ∨ (0x61 ≤ c ∧ c ≤ 0x66)

/-- One turn of the search for the first digit. -/
def digitTurn : Nat → Exec ATInterface (Turn Nat Nat) := fun off => do
  check (off < bufSize)
  let c ← gets fun s => s.buf off
  if isHexDigit c then
    return .stop off
  else
    return .again (off + 1)

/-- `hexstr[i]`, where `hexstr` points to `buf[off]`. -/
def digitAt (off i : Nat) : Exec ATInterface UInt8 := do
  check (off + i < bufSize)
  gets fun s => s.buf (off + i)

/-- `response[k] = byte`. -/
def storeByte (k : Nat) (byte : UInt8) : Exec ATInterface Unit := do
  check (k < apduResponseSize)
  modify fun s => { s with response := s.response.write k [byte] }

/-- `hexString2BytesArray(&buf[off], hexstrLen, response, ..)`; the result is `*bytesLen`. -/
def hexString2BytesArray (off hexstrLen : Nat) : Exec ATInterface Nat :=
  hexDecode (digitAt off) storeByte hexstrLen

/-- What `sendATCSIM` does with a response line. -/
def readResponse (charSigned : Bool) : Exec ATInterface Nat := do
  let declared ← loop (lengthTurn charSigned) (7, 0)
  let off ← loop digitTurn declared.1
  hexString2BytesArray off declared.2

/-! ### Commands -/

/-- `%d` of a number that is not negative. -/
def decimal (n : Nat) : List UInt8 := (Nat.toDigits 10 n).map fun c => UInt8.ofNat c.toNat

/-- A digit of `%X`. -/
def upperDigit (nibble : UInt8) : UInt8 := if nibble < 10 then 0x30 + nibble else 0x37 + nibble

/-- `%02X` of every byte. -/
def hexUpper (bytes : List UInt8) : List UInt8 :=
  bytes.flatMap fun (byte : UInt8) => [upperDigit (byte >>> 4), upperDigit (byte &&& 0x0F)]

/-- The command line for an APDU. -/
def csimCommand (apdu : List UInt8) : List UInt8 :=
  cstr "AT+CSIM=" ++ decimal (apdu.length * 2) ++ cstr ",\"" ++ hexUpper apdu ++ cstr "\"\r\n"

/-- The result is `*responseLen`, or nothing where `sendATCSIM` returns false. -/
def sendATCSIM (charSigned : Bool) (apdu : List UInt8) : Exec ATInterface (Option Nat) := do
  -- the last `sprintf` puts a NUL behind the command
  check ((csimCommand apdu).length + 1 ≤ bufSize)
  modify fun s => { s with sent := s.sent ++ [csimCommand apdu], buf := Mem.zero }
  if ← loop (lineTurn responseVerdict) () then
    let len ← readResponse charSigned
    loop (lineTurn okVerdict) ()
    return some len
  else
    return none

end ATInterface

namespace GenericModem

/-- `GenericModem::transmitApdu`: the answer, or nothing where it returns false. -/
def transmitApdu (charSigned : Bool) (apdu : List UInt8) : Exec ATInterface (Option (List UInt8)) := do
  match ← ATInterface.sendATCSIM charSigned apdu with
  | none => return none
  | some len => gets fun s => some (s.response.slice 0 len)

/-- One command after the other. -/
def transmitAll (charSigned : Bool) : List (List UInt8) → Exec ATInterface (List (Option (List UInt8)))
  | [] => pure []
  | apdu :: rest => do
      let answer ← transmitApdu charSigned apdu
      let answers ← transmitAll charSigned rest
      return answer :: answers

end GenericModem

end TrustOnboard
