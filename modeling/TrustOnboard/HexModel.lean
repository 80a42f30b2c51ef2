import TrustOnboard.ExecRules
import TrustOnboard.BytesMemory

/-! The hex decoder that the modem driver and the SDK each have a copy of. Where the digits are read
and the bytes stored is a parameter: the two copies differ in nothing else. -/

namespace TrustOnboard

open Exec

/-- The value of a hex digit in either case; other characters add nothing. -/
def hexNibble (c : UInt8) : UInt8 :=
  if 0x30 ≤ c ∧ c ≤ 0x39 then c - 0x30
  else if 0x61 ≤ c ∧ c ≤ 0x66 then c - 0x61 + 10
  else if 0x41 ≤ c ∧ c ≤ 0x46 then c - 0x41 + 10
  else 0

/-- The byte of two digits. -/
def hexByte (high low : UInt8) : UInt8 := (hexNibble high <<< 4) ||| hexNibble low

variable {S : Type} (read : Nat → Exec S UInt8) (store : Nat → UInt8 → Exec S Unit)

/-- One turn of the outer loop at digit `i`, `count` bytes stored. The bound `j = i + 2` of the inner
loop is a 16-bit number: where it wraps, no digit is read and `i` stays. -/
def hexTurn (hexstrLen : Nat) : Nat × Nat → Exec S (Turn (Nat × Nat) Nat) := fun x => do
  if x.1 < hexstrLen then
    if x.1 < (x.1 + 2) % 65536 then
      let high ← read x.1
      let low ← read (x.1 + 1)
      store x.2 (hexByte high low)
      return .again (x.1 + 2, x.2 + 1)
    else
      store x.2 0
      return .again (x.1, x.2 + 1)
  else
    return .stop (x.2 % 65536)

/-- Decode `hexstrLen` digits; the result is `*bytesLen`. -/
def hexDecode (hexstrLen : Nat) : Exec S Nat := loop (hexTurn read store hexstrLen) (0, 0)

end TrustOnboard
