import TrustOnboard.CardExchange

/-! `Applet`: selection of an applet on the basic or on a logical channel, and the transmission of
commands on the channel it was selected on. -/

namespace TrustOnboard

open Exec

/-- An object of the library together with the interface it talks through. -/
structure Linked (σ A : Type) where
  se : SEInterface σ
  obj : A

namespace Linked

variable {σ A B : Type}

def seLens : Lens (Linked σ A) (SEInterface σ) where
  get s := s.se
  set se s := { s with se }
  get_set _ _ := rfl
  set_get _ := rfl
  set_set _ _ _ := rfl

/-- Use the interface. -/
def onSE {α : Type} (program : Exec (SEInterface σ) α) : Exec (Linked σ A) α := zoom seLens program

/-- A part of the object, with the same interface. -/
def objLens (part : Lens A B) : Lens (Linked σ A) (Linked σ B) where
  get s := ⟨s.se, part.get s.obj⟩
  set t s := ⟨t.se, part.set t.obj s.obj⟩
  get_set t s := by rw [part.get_set]
  set_get s := by rw [part.set_get]
  set_set t t' s := by rw [part.set_set]

def setObj (update : A → A) : Exec (Linked σ A) Unit := modify fun s => { s with obj := update s.obj }

/-- The note is in the log. -/
def noted (n : Note) (s : Linked σ A) : Linked σ A :=
  { s with se := { s.se with log := .note n :: s.se.log } }

def note (n : Note) : Exec (Linked σ A) Unit := modify (noted n)

end Linked

open Linked SEInterface

/-- `_aid`, `_channel`, `_isSelected`, `_isBasic`; `attached` is `_seiface != NULL`. -/
structure Applet where
  aid : List UInt8
  attached : Bool
  channel : UInt8
  isSelected : Bool
  isBasic : Bool
  deriving DecidableEq, Repr

namespace Applet

/-- The constructor. -/
def create (aid : List UInt8) : Applet :=
  { aid, attached := false, channel := 0, isSelected := false, isBasic := false }

/-- `init`; `present` is whether the interface is non-NULL. -/
def init (applet : Applet) (present : Bool) : Applet := { applet with attached := present }

variable {σ : Type} (T : Transport σ)

/-- `APPLET_MAX_CHANNEL`. -/
def maxChannel : Nat := 13

/-- MANAGE CHANNEL close. -/
def closeChannel (channel : UInt8) : Exec (SEInterface σ) Bool :=
  transmitCase2 T 0x00 .manageChannel SCP1.MANAGECHANNELClose channel 0x01

/-- MANAGE CHANNEL open. -/
def openChannel : Exec (SEInterface σ) Bool :=
  transmitCase2 T 0x00 .manageChannel SCP1.MANAGECHANNELOpen SCP2.MANAGECHANNELAllocateChannel 0x01

def closeChannels : List Nat → Exec (SEInterface σ) Unit
  | [] => pure ()
  | channel :: rest => do
      let _ ← closeChannel T (lowByte channel)
      closeChannels rest

def closeAllChannels : Exec (SEInterface σ) Unit := closeChannels T (List.range' 1 maxChannel)

/-- The two outcomes that `select` takes for success: `9000` and `61xx`. -/
def selectStatusOK (sw : Nat) : Bool := sw = swOK ∨ sw &&& 0xFF00 = swOKLengthInSW2

/-- SELECT by AID with this class byte: transmitted and accepted. -/
def selectAid (cla : UInt8) (aid : List UInt8) : Exec (SEInterface σ) Bool := do
  if ← transmitCase3 T cla .select SCP1.SELECTByDFName
      (SCP2.SELECTFCITemplate ||| SCP2.SELECTFirstOrOnly) aid then
    gets fun s => selectStatusOK (getStatusWord s)
  else
    return false

/-- Transmitted and answered `9000`. -/
def accepted (transmitted : Exec (SEInterface σ) Bool) : Exec (SEInterface σ) Bool := do
  if ← transmitted then
    gets fun s => decide (getStatusWord s = swOK)
  else
    return false

def deselect : Exec (Linked σ Applet) Bool := do
  let applet ← gets (·.obj)
  if applet.attached then
    note (.deselecting applet.aid)
    if applet.isSelected && !applet.isBasic then
      if ← onSE (accepted (closeChannel T applet.channel)) then
        setObj fun a => { a with isSelected := false }
    else if applet.isSelected && applet.isBasic then
      setObj fun a => { a with isSelected := false }
  gets fun s => !s.obj.isSelected

/-- The second half of `select(true)`. -/
def selectBasic : Exec (Linked σ Applet) Bool := do
  setObj fun a => { a with channel := 0 }
  let applet ← gets (·.obj)
  if ← onSE (selectAid T 0x00 applet.aid) then
    setObj fun a => { a with isSelected := true, isBasic := true }
    note (.selected applet.aid applet.channel)
    return true
  else
    return false

/-- SELECT on the channel that was opened; the channel is closed again if that fails. -/
def selectOnChannel : Exec (Linked σ Applet) Bool := do
  let applet ← gets (·.obj)
  if ← onSE (selectAid T (0x00 ||| applet.channel) applet.aid) then
    setObj fun a => { a with isSelected := true, isBasic := false }
    note (.selected applet.aid applet.channel)
    return true
  else
    let _ ← onSE (closeChannel T applet.channel)
    return false

/-- The second half of `select(false)`. `getResponse(&_channel)` copies the data of the answer over
the one byte `_channel`; without data `_channel` keeps its value. -/
def selectLogical : Exec (Linked σ Applet) Bool := do
  if ← onSE (accepted (openChannel T)) then
    let data ← gets fun s => getResponse s.se
    check (data.length ≤ 1)
    setObj fun a => { a with channel := data.headD a.channel }
    selectOnChannel T
  else
    return false

def select (isBasic : Bool) : Exec (Linked σ Applet) Bool := do
  let applet ← gets (·.obj)
  if applet.attached then
    note (.selecting applet.aid)
    let _ ← deselect T
    if isBasic then
      selectBasic T
    else
      selectLogical T
  else
    return false

/-! Commands of a selected applet go to its channel; without selection nothing is sent. -/

/-- Run a transmission with the class byte of the applet's channel, if the applet is selected. -/
def whenSelected (cla : UInt8) (transmitted : UInt8 → Exec (SEInterface σ) Bool) :
    Exec (Linked σ Applet) Bool := do
  let applet ← gets (·.obj)
  if applet.isSelected then
    -- `_seiface` is used without a test for NULL
    check applet.attached
    onSE (transmitted (cla ||| applet.channel))
  else
    return false

def transmitCase1 (cla : UInt8) (ins : SCIns) (p1 p2 : UInt8) : Exec (Linked σ Applet) Bool :=
  whenSelected cla fun cla => SEInterface.transmitCase1 T cla ins p1 p2

def transmitCase2 (cla : UInt8) (ins : SCIns) (p1 p2 le : UInt8) : Exec (Linked σ Applet) Bool :=
  whenSelected cla fun cla => SEInterface.transmitCase2 T cla ins p1 p2 le

def transmitCase3 (cla : UInt8) (ins : SCIns) (p1 p2 : UInt8) (data : List UInt8) :
    Exec (Linked σ Applet) Bool :=
  whenSelected cla fun cla => SEInterface.transmitCase3 T cla ins p1 p2 data

def transmitCase4 (cla : UInt8) (ins : SCIns) (p1 p2 : UInt8) (data : List UInt8) (le : UInt8) :
    Exec (Linked σ Applet) Bool :=
  whenSelected cla fun cla => SEInterface.transmitCase4 T cla ins p1 p2 data le

def getStatusWord (s : Linked σ Applet) : Nat :=
  if s.obj.isSelected then SEInterface.getStatusWord s.se else 0

def getResponse (s : Linked σ Applet) : List UInt8 :=
  if s.obj.isSelected then SEInterface.getResponse s.se else []

def getResponseLength (s : Linked σ Applet) : Nat := (getResponse s).length

/-- The condition of the library's `if (transmit(..)) { if (getStatusWord() == 9000) {`. -/
def ok (transmitted : Exec (Linked σ Applet) Bool) : Exec (Linked σ Applet) Bool := do
  if ← transmitted then
    gets fun s => decide (getStatusWord s = swOK)
  else
    return false

/-- The test of the status word changes nothing. -/
theorem ok_state (transmitted : Exec (Linked σ Applet) Bool) (fuel : Nat) (s : Linked σ Applet) :
    (ok transmitted fuel s).2 = (transmitted fuel s).2 := by
  rw [ok, bind_apply]
  rcases transmitted fuel s with ⟨ok | _ | _, t⟩
  · cases ok <;> rfl
  · rfl
  · rfl

end Applet

end TrustOnboard
