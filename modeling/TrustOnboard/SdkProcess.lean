import TrustOnboard.SdkModel

/-! A process that uses the SDK: the interface objects it has created, the file-scope objects `_mf`,
`_mias` and `_modem`, and the sequences of `tob*` calls it makes. -/

namespace TrustOnboard

open Exec Linked SEInterface

/-- Interface objects are found at addresses. Both applets are always attached to the same one, whose
address is `current`; whether it is NULL is kept in the applets. -/
structure Process (σ : Type) where
  ifaces : Nat → SEInterface σ
  current : Nat
  mf : Applet
  mias : Mias
  modem : Option Nat

namespace Process

open Sdk

variable {σ : Type} (T : Transport σ)

/-- A process at its start, with a card behind each interface it may create. -/
def start (cards : Nat → σ) (buffers : Nat → Mem) : Process σ :=
  { ifaces := fun address => .create (cards address) (buffers address), current := 0,
    mf := .create MF.aid, mias := .create, modem := none }

/-- What the calls of the API work on. -/
def sdkLens : Lens (Process σ) (Sdk σ) where
  get p := ⟨p.ifaces p.current, p.mf, p.mias⟩
  set s p := { p with ifaces := Function.update p.ifaces p.current s.se, mf := s.mf, mias := s.mias }
  get_set _ _ := by simp
  set_get _ := by simp
  set_set _ _ _ := by simp

/-- The interface at an address. -/
def ifaceLens (address : Nat) : Lens (Process σ) (SEInterface σ) where
  get p := p.ifaces address
  set se p := { p with ifaces := Function.update p.ifaces address se }
  get_set _ _ := by simp
  set_get _ := by simp
  set_set _ _ _ := by simp

/-- `_mias.init` and `_mf.init`. -/
def attach (seiface : Option Nat) (p : Process σ) : Process σ :=
  { p with
    current := seiface.getD p.current
    mf := p.mf.init seiface.isSome
    mias := { p.mias with applet := p.mias.applet.init seiface.isSome } }

def tobInitializeWithInterface (seiface : Option Nat) : Exec (Process σ) Int := do
  match seiface with
  | none => pure ()
  | some address => zoom (ifaceLens address) (Applet.closeAllChannels T)
  modify (attach seiface)
  return 0

/-- `opened` is the address of the interface created for the device if it could be opened. It is
absent for a NULL device, a reader without support for it, and a device that does not open. -/
def tobInitialize (opened : Option Nat) : Exec (Process σ) Int := do
  let modem ← gets (·.modem)
  if modem ≠ none then
    return 0
  else
    match opened with
    | none => return -1
    | some address =>
        modify fun p => { p with modem := some address }
        tobInitializeWithInterface T (some address)

/-- A call of a public function. -/
inductive Call where
  | tobInitializeWithInterface (seiface : Option Nat)
  | tobInitialize (opened : Option Nat)
  | api (call : ApiCall)

/-- What a call returns. -/
inductive Result where
  | code (ret : Int)
  | api (result : ApiResult)

def Call.run : Call → Exec (Process σ) Result
  | .tobInitializeWithInterface seiface => do
      return .code (← Process.tobInitializeWithInterface T seiface)
  | .tobInitialize opened => do return .code (← Process.tobInitialize T opened)
  | .api call => do return .api (← zoom sdkLens (call.run T))

/-- A sequence of calls; one that does not return is the last. -/
def runCalls : List Call → Exec (Process σ) (List Result)
  | [] => pure []
  | call :: calls => do
      let result ← call.run T
      let results ← runCalls calls
      return result :: results

end Process

end TrustOnboard
