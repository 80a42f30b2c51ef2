import TrustOnboard.ModemModel

/-! `LSerial`, the serial port under the modem driver, and the driver on it. The operating system is a parameter: a call of
`read` or `write` may move fewer bytes than it is asked to, none at all, or fail. -/

namespace TrustOnboard

open Exec

/-- The calls of the operating system on ports. `openPort`, `read` and `write` give nothing where they return -1; what
`tcgetattr`, `tcsetattr` and `fcntl` return is not looked at, they are one call. -/
structure Posix (ε : Type) where
  openPort : Option (List UInt8) → ε → Option Nat × ε
  configure : Nat → Nat → ε → ε
  closePort : Nat → ε → ε
  read : Nat → Nat → ε → Option (List UInt8) × ε
  write : Nat → List UInt8 → ε → Option Nat × ε

/-- `LSerial`; `m_uart` is `none` where it is negative. -/
structure LSerial (ε : Type) where
  env : ε
  device : Option (List UInt8)
  baudrate : Int
  m_uart : Option Nat

namespace LSerial

/-- The cases of `start` and the speed that each selects. -/
def speeds : List (Int × Nat) :=
  [(50, 50), (75, 75), (110, 110), (134, 134), (150, 150), (200, 200), (300, 300), (600, 600), (1200, 1200), (1800, 1800),
    (2400, 2400), (4800, 4800), (9600, 9600), (19200, 19200), (38400, 38400), (57600, 57600), (115200, 115200),
    (230400, 230400), (460800, 460800), (500000, 500000), (576000, 576000), (921600, 921600), (1000000, 1000000),
    (11520000, 1152000), (1500000, 1500000), (2000000, 2000000), (2500000, 2500000), (3000000, 3000000),
    (3500000, 3500000), (4000000, 4000000)]

section Port

variable {ε : Type} (posix : Posix ε)

/-- A port as it is constructed. -/
def create (env : ε) (device : Option (List UInt8)) (baudrate : Int) : LSerial ε := ⟨env, device, baudrate, none⟩

/-- A call of the operating system. -/
def syscall {α : Type} (call : ε → α × ε) : Exec (LSerial ε) α :=
  fun _ s => (.done (call s.env).1, { s with env := (call s.env).2 })

/-- `LSerial::start`. -/
def start : Exec (LSerial ε) Bool := do
  let device ← gets fun s => s.device
  let port ← syscall (posix.openPort device)
  modify fun s => { s with m_uart := port }
  match port with
  | none => return false
  | some fd =>
      let baudrate ← gets fun s => s.baudrate
      match speeds.lookup baudrate with
      | none =>
          syscall fun env => ((), posix.closePort fd env)
          modify fun s => { s with m_uart := none }
          return false
      | some speed =>
          syscall fun env => ((), posix.configure fd speed env)
          return true

/-- A turn of `send`: what is left of the data from `data[i]` on. -/
def sendTurn (fd : Nat) (data : List UInt8) (i : Nat) : Exec (LSerial ε) (Turn Nat Bool) := do
  if i < data.length then
    match ← syscall (posix.write fd (data.drop i)) with
    | none => return .stop false
    | some w => return .again (i + w)
  else
    return .stop true

/-- `LSerial::send`. -/
def send (data : List UInt8) : Exec (LSerial ε) Bool := do
  match ← gets fun s => s.m_uart with
  | none => return false
  | some fd => loop (sendTurn posix fd data) 0

/-- A turn of `recv`, with the bytes that were stored so far. -/
def recvTurn (fd toRead : Nat) (data : List UInt8) : Exec (LSerial ε) (Turn (List UInt8) (Bool × List UInt8)) := do
  if data.length < toRead then
    match ← syscall (posix.read fd (toRead - data.length)) with
    | none => return .stop (false, data)
    | some bytes => return .again (data ++ bytes)
  else
    return .stop (true, data)

/-- `LSerial::recv`: its result, and the bytes that it has stored. -/
def recv (toRead : Nat) : Exec (LSerial ε) (Bool × List UInt8) := do
  match ← gets fun s => s.m_uart with
  | none => return (false, [])
  | some fd => loop (recvTurn posix fd toRead) []

/-- `LSerial::stop`. -/
def stop : Exec (LSerial ε) Bool := do
  match ← gets fun s => s.m_uart with
  | none => return true
  | some fd =>
      syscall fun env => ((), posix.closePort fd env)
      return true

end Port

end LSerial

/-- The modem driver with its port. Of `line` only the buffers are used, and the record of what was sent. -/
structure SerialModem (ε : Type) where
  serial : LSerial ε
  line : ATInterface

namespace SerialModem

open ATInterface

section Driver

variable {ε : Type} (posix : Posix ε)

def serialLens : Lens (SerialModem ε) (LSerial ε) where
  get s := s.serial
  set serial s := { s with serial }
  get_set _ _ := rfl
  set_get _ := rfl
  set_set _ _ _ := rfl

def lineLens : Lens (SerialModem ε) ATInterface where
  get s := s.line
  set line s := { s with line }
  get_set _ _ := rfl
  set_get _ := rfl
  set_set _ _ _ := rfl

/-- `data[off ..]` as `recv` leaves it. -/
def storeBytes (off : Nat) (bytes : List UInt8) : Exec ATInterface Unit := do
  check (off + bytes.length ≤ bufSize)
  modify fun s => { s with buf := s.buf.write off bytes }

/-- One turn of `readLine`. -/
def readTurn (off : Nat) : Exec (SerialModem ε) (Turn Nat (Option Nat)) := do
  let received ← zoom serialLens (LSerial.recv posix 1)
  zoom lineLens (storeBytes off received.2)
  if received.1 then
    let buf ← gets fun s => s.line.buf
    if buf off = newline then
      return .stop (some (off + 1))
    else
      return .again (off + 1)
  else
    return .stop none

def readLine : Exec (SerialModem ε) (Option Nat) := loop (readTurn posix) 0

/-- One turn of the two loops over the lines, as in `ATInterface.lineTurn`. -/
def lineTurn {α : Type} (verdict : Mem → Option α) : Unit → Exec (SerialModem ε) (Turn Unit α) := fun _ => do
  let _ ← readLine posix
  let buf ← gets fun s => s.line.buf
  match verdict buf with
  | some value => return .stop value
  | none => return .again ()

/-- `ATInterface::sendATCSIM`. -/
def sendATCSIM (charSigned : Bool) (apdu : List UInt8) : Exec (SerialModem ε) (Option Nat) := do
  check ((csimCommand apdu).length + 1 ≤ bufSize)
  -- whether it was sent is not looked at
  let _ ← zoom serialLens (LSerial.send posix (csimCommand apdu))
  modify fun s => { s with line := { s.line with sent := s.line.sent ++ [csimCommand apdu], buf := Mem.zero } }
  if ← loop (lineTurn posix responseVerdict) () then
    let len ← zoom lineLens (readResponse charSigned)
    loop (lineTurn posix okVerdict) ()
    return some len
  else
    return none

/-- `GenericModem::transmitApdu`. -/
def transmitApdu (charSigned : Bool) (apdu : List UInt8) : Exec (SerialModem ε) (Option (List UInt8)) := do
  match ← sendATCSIM posix charSigned apdu with
  | none => return none
  | some len => gets fun s => some (s.line.response.slice 0 len)

end Driver

end SerialModem

end TrustOnboard
