import TrustOnboard.ExecRules
import TrustOnboard.CardIso7816

/-! `SEInterface`: the buffers of the secure-element interface, the virtual `transmitApdu` as an
arbitrary card and transport, and the layer that answers `6Cxx` and `61xx` by itself.

The interface carries a ghost log, newest entry first. It records every APDU put on the wire with
its answer, every command with the answer its follow-ups ended in, and notes of the applet layer. No
modelled function reads it. -/

namespace TrustOnboard

open Exec

/-- Notes of the upper layers in the log. -/
inductive Note where
  | selecting (aid : List UInt8)
  | selected (aid : List UInt8) (channel : UInt8)
  | deselecting (aid : List UInt8)
  | p11Enter
  | p11Leave
  | reading (base size : Nat)
  deriving DecidableEq, Repr

/-- Log entries. -/
inductive Event where
  | exchange (apdu : List UInt8) (answer : Option (List UInt8))
  | answered (command response : List UInt8)
  | unanswered (command : List UInt8)
  | note (n : Note)
  deriving DecidableEq, Repr

/-- `transmitApdu`: the card and the transport in front of it, in state `σ`. `none` is a transmission
that returned false. -/
def Transport (σ : Type) : Type := σ → List UInt8 → Option (List UInt8) × σ

/-- A card that answers from a list, whatever it is asked. -/
def scripted : Transport (List (Option (List UInt8)))
  | [], _ => (none, [])
  | answer :: rest, _ => (answer, rest)

/-- `_apdu[0 .. _apduLen)`, `_apduResponse` (258 bytes), `_apduResponseLen`, and the card behind the
interface. -/
structure SEInterface (σ : Type) where
  card : σ
  apdu : List UInt8
  response : Mem
  responseLen : Nat
  log : List Event

/-- `sizeof(_apdu)`. -/
def apduSize : Nat := 5 + 256 + 1

/-- `sizeof(_apduResponse)`. -/
def apduResponseSize : Nat := 2 + 256

namespace SEInterface

variable {σ : Type} (T : Transport σ)

/-- A newly constructed interface in front of a card; the buffers hold whatever they hold. -/
def create (card : σ) (response : Mem) : SEInterface σ :=
  { card, apdu := [], response, responseLen := 0, log := [] }

def logEvent (event : Event) : Exec (SEInterface σ) Unit :=
  modify fun s => { s with log := event :: s.log }

/-- The APDU is on the wire and the transport has given its answer. -/
def sent (s : SEInterface σ) : SEInterface σ :=
  { s with
    card := (T s.card s.apdu).2
    log := .exchange s.apdu (T s.card s.apdu).1 :: s.log }

/-- The response buffer after `transmitApdu` stored an answer. -/
def stored (answer : List UInt8) (s : SEInterface σ) : SEInterface σ :=
  { s with response := s.response.write 0 answer, responseLen := answer.length }

/-- One call of `transmitApdu`. An answer that does not fit `_apduResponse` is a fault. -/
def transmitApdu : Exec (SEInterface σ) Bool := do
  let answer ← gets fun s => (T s.card s.apdu).1
  modify (sent T)
  match answer with
  | none => return false
  | some answer =>
      check (answer.length ≤ apduResponseSize)
      modify (stored answer)
      return true

/-- `_apdu[4] = _apduResponse[1]`, the APDU growing to five bytes if it is shorter. -/
def resend (s : SEInterface σ) : SEInterface σ :=
  { s with apdu := s.apdu.take 4 ++ s.response 1 :: s.apdu.drop 5 }

/-- The automatic GET RESPONSE. -/
def fetch (s : SEInterface σ) : SEInterface σ :=
  { s with apdu := [0x00 ||| (s.apdu.getD 0 0 &&& 0x03), 0xC0, 0x00, 0x00, s.response 1] }

/-- One call of `transmit(void)`; a bare `6Cxx` or `61xx` is followed up by the next. -/
def transmitTurn : Unit → Exec (SEInterface σ) (Turn Unit Bool) := fun _ => do
  let ok ← transmitApdu T
  if ok then
    let s ← get
    if s.responseLen = 2 ∧ s.response 0 = 0x6C then
      modify resend
      return .again ()
    else if s.responseLen = 2 ∧ s.response 0 = 0x61 then
      modify fetch
      return .again ()
    else
      return .stop true
  else
    return .stop false

/-- `transmit(void)`: the tail calls of the source are turns of a loop. -/
def transmit : Exec (SEInterface σ) Bool := loop (transmitTurn T) ()

/-- The bytes of the last answer. -/
def answer (s : SEInterface σ) : List UInt8 := s.response.slice 0 s.responseLen

/-- Put a command in `_apdu`, transmit it and log what it ended in. -/
def command (apdu : List UInt8) : Exec (SEInterface σ) Bool := do
  modify fun s => { s with apdu := apdu }
  let ok ← transmit T
  if ok then
    let response ← gets answer
    logEvent (.answered apdu response)
    return true
  else
    logEvent (.unanswered apdu)
    return false

def transmitCase1 (cla : UInt8) (ins : SCIns) (p1 p2 : UInt8) : Exec (SEInterface σ) Bool :=
  command T [cla, ins.code, p1, p2]

def transmitCase2 (cla : UInt8) (ins : SCIns) (p1 p2 le : UInt8) : Exec (SEInterface σ) Bool :=
  command T [cla, ins.code, p1, p2, le]

/-- The `memcpy` of the data into `_apdu`. Behind the end of `_apdu` it is a fault; `apdu` then holds all
that was copied. -/
def fill (apdu : List UInt8) : Exec (SEInterface σ) Unit := do
  modify fun s => { s with apdu := apdu }
  check (apdu.length ≤ apduSize)

/-- `dataLen` is the length of `data`. -/
def transmitCase3 (cla : UInt8) (ins : SCIns) (p1 p2 : UInt8) (data : List UInt8) :
    Exec (SEInterface σ) Bool := do
  fill (cla :: ins.code :: p1 :: p2 :: lowByte data.length :: data)
  command T (cla :: ins.code :: p1 :: p2 :: lowByte data.length :: data)

def transmitCase4 (cla : UInt8) (ins : SCIns) (p1 p2 : UInt8) (data : List UInt8) (le : UInt8) :
    Exec (SEInterface σ) Bool := do
  fill (cla :: ins.code :: p1 :: p2 :: lowByte data.length :: (data ++ [le]))
  command T (cla :: ins.code :: p1 :: p2 :: lowByte data.length :: (data ++ [le]))

def getStatusWord (s : SEInterface σ) : Nat :=
  if 2 ≤ s.responseLen then word16 (s.response (s.responseLen - 2)) (s.response (s.responseLen - 1))
  else 0

/-- The data of the last answer: what `getResponse` copies, its length being the return value. -/
def getResponse (s : SEInterface σ) : List UInt8 :=
  if 2 < s.responseLen then s.response.slice 0 (s.responseLen - 2) else []

def getResponseLength (s : SEInterface σ) : Nat := (getResponse s).length

end SEInterface

end TrustOnboard
