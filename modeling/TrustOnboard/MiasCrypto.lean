import TrustOnboard.MiasObjects

/-! `MIAS`: PIN verification, hashes, signatures and decryption on the card. -/

namespace TrustOnboard.Mias

open Exec Linked SEInterface

variable {σ : Type} (T : Transport σ)

def verifyPin (pin : List UInt8) : Exec (Linked σ Mias) Bool :=
  ok (Applet.transmitCase3 T 0x00 .verify SCP1.VERIFYReserved (SCP2.BasicSecurityDFKey ||| 0x01) pin)

/-- `sizeof(data)` in `changePin`. -/
def pinDataSize : Nat := 1 + 8 * 2

/-- `data` when both PINs are copied; `stack` is what it held before. The second copy starts at the last byte
of the first. -/
def pinData (stack : Mem) (oldPin newPin : List UInt8) : Mem :=
  ((stack.write 0 [lowByte oldPin.length]).write 1 oldPin).write oldPin.length newPin

/-- The length of the data is computed in 16 bits; the copies must stay inside `data`. -/
def changePin (stack : Mem) (oldPin newPin : List UInt8) : Exec (Linked σ Mias) Bool := do
  let dataLen := (1 + oldPin.length + newPin.length) % 65536
  if pinDataSize < dataLen then
    return false
  else
    check (1 + oldPin.length ≤ pinDataSize ∧ oldPin.length + newPin.length ≤ pinDataSize)
    ok (Applet.transmitCase3 T 0x80 .changeReferenceData SCP1.CHANGEREFERENCEDATAOldAndNew
      (SCP2.BasicSecurityDFKey ||| 0x01) ((pinData stack oldPin newPin).slice 0 dataLen))

/-! ### Hashes -/

def mseSetBeforeHash (algorithm : UInt8) : Exec (Linked σ Mias) Bool :=
  ok (Applet.transmitCase3 T 0x00 .manageSecurityEnvironment (SCP1.MSECompDecInt ||| SCP1.MSESet)
    SCP2.MSETemplateHashCode [0x80, 0x01, algorithm])

/-- The block size of a hash algorithm. -/
def blockSize (algorithm : UInt8) : Option Nat :=
  if algorithm = 0x10 ∨ algorithm = 0x30 ∨ algorithm = 0x40 then some 64
  else if algorithm = 0x50 ∨ algorithm = 0x60 then some 128
  else none

/-- One turn of the loop of `psoHashInternally`: the next block of the data, which is sent whole except for
the last. -/
def hashTurn (size : Nat) (data : Mem) (dataLen : Nat) : Nat → Exec (Linked σ Mias) (Turn Nat Bool) := fun i => do
  if i < dataLen then
    let l := if size < dataLen - i then size else dataLen - i
    if ← ok (Applet.transmitCase3 T 0x00 .performSecurityOperation SCP1.PSOHashCode SCP2.PSOPlain (data.slice i l)) then
      return .again (i + l)
    else
      return .stop false
  else
    return .stop true

def psoHashInternally (algorithm : UInt8) (data : Mem) (dataLen : Nat) : Exec (Linked σ Mias) Bool :=
  match blockSize algorithm with
  | none => pure false
  | some size => loop (hashTurn T size data dataLen) 0

def psoHashInternallyFinal (hash : Mem) : Exec (Linked σ Mias) Fetched := do
  if ← ok (Applet.transmitCase4 T 0x00 .performSecurityOperation SCP1.PSOHashCode SCP2.PSOTemplateHash
      [SCTag.PSOHashInt, 0x00] 0x00) then
    let data ← response
    return ⟨true, some (hash.write 0 data), data.length⟩
  else
    return ⟨false, some hash, 0⟩

def hashInit (algorithm : UInt8) : Exec (Linked σ Mias) Bool := do
  setObj fun m => { m with hashAlgo := algorithm }
  mseSetBeforeHash T algorithm

def hashUpdate (data : Mem) (dataLen : Nat) : Exec (Linked σ Mias) Bool := do
  let algorithm ← gets fun s => s.obj.hashAlgo
  psoHashInternally T algorithm data dataLen

def hashFinal (hash : Mem) : Exec (Linked σ Mias) Fetched := psoHashInternallyFinal T hash

/-! ### Signatures and decryption -/

/-- The digest length that `psoHashExternally` sends for an algorithm. -/
def digestLength (algorithm : UInt8) : Option Nat :=
  if algorithm = 0x10 then some 20
  else if algorithm = 0x30 then some 28
  else if algorithm = 0x40 then some 32
  else if algorithm = 0x50 then some 48
  else if algorithm = 0x60 then some 64
  else none

/-- The length of the caller's hash is not looked at; the digest length of the algorithm decides how
many bytes behind the pointer are sent. -/
def psoHashExternally (algorithm : UInt8) (hash : Mem) (_hashLen : Nat) : Exec (Linked σ Mias) Bool :=
  match digestLength algorithm with
  | none => pure false
  | some length =>
      ok (Applet.transmitCase4 T 0x00 .performSecurityOperation SCP1.PSOHashCode SCP2.PSOTemplateHash
        (SCTag.PSOHashExt :: lowByte length :: hash.slice 0 length) 0x00)

/-- MANAGE SECURITY ENVIRONMENT before a signature or a decryption, which differ in the template. -/
def mseSet (template : UInt8) (algorithm key : UInt8) : Exec (Linked σ Mias) Bool :=
  ok (Applet.transmitCase3 T 0x00 .manageSecurityEnvironment (SCP1.MSECompDecInt ||| SCP1.MSESet)
    template [SCTag.MSEAlgReference, 0x01, algorithm, SCTag.MSEPublicKey, 0x01, key])

def mseSetBeforeSignature (algorithm key : UInt8) : Exec (Linked σ Mias) Bool :=
  mseSet T SCP2.MSETemplateSignature algorithm key

def mseSetBeforeDecrypt (algorithm key : UInt8) : Exec (Linked σ Mias) Bool :=
  mseSet T SCP2.MSETemplateConfidentiality algorithm key

/-- The moving buffer pointer, `*signatureLen` and the buffer of the signature loop. -/
structure Gather where
  pos : Nat
  len : Nat
  out : Mem

/-- One turn of the signature loop: take the data of the last answer and, after `61xx`, ask for more. -/
def signatureTurn : Gather → Exec (Linked σ Mias) (Turn Gather Fetched) := fun x => do
  let data ← response
  if data.length ≠ 0 then
    let out := x.out.write x.pos data
    let len := (x.len + data.length) % 65536
    let sw ← onApplet (gets Applet.getStatusWord)
    if sw &&& 0xFF00 = swOKLengthInSW2 then
      if ← onApplet (Applet.transmitCase2 T 0x00 .envelope SCP1.ENVELOPEReserved SCP2.ENVELOPEReserved
          (lowByte sw)) then
        return .again ⟨x.pos + data.length, len, out⟩
      else
        return .stop ⟨false, some out, len⟩
    else
      return .stop ⟨decide (sw = swOK), some out, len⟩
  else
    return .stop ⟨false, some x.out, x.len⟩

def psoComputeDigitalSignature (signature : Mem) : Exec (Linked σ Mias) Fetched := do
  if ← onApplet (Applet.transmitCase2 T 0x00 .performSecurityOperation SCP1.PSOSignature
      SCP2.PSOSignatureInput 0x00) then
    loop (signatureTurn T) ⟨0, 0, signature⟩
  else
    return ⟨false, some signature, 0⟩

/-- What `psoDecipher` does after the ciphertext is sent; `len` is the caller's `*plainLen`. -/
def decipherResult (plain : Mem) (len : Nat) : Exec (Linked σ Mias) Fetched := do
  if (← onApplet (gets Applet.getStatusWord)) = swOK then
    let data ← response
    if data.length = 0 then
      -- no data returned: it is asked for explicitly
      if ← onApplet (Applet.transmitCase1 T 0x00 .getResponse SCP1.ENVELOPEReserved
          SCP2.ENVELOPEReserved) then
        if (← onApplet (gets Applet.getStatusWord)) = swOK then
          let data ← response
          return ⟨true, some (plain.write 0 data), data.length⟩
        else
          return ⟨false, some plain, 0⟩
      else
        return ⟨false, some plain, 0⟩
    else
      return ⟨true, some (plain.write 0 data), data.length⟩
  else
    return ⟨false, some plain, len⟩

def psoDecipher (data : Mem) (dataLen : Nat) (plain : Mem) (len : Nat) : Exec (Linked σ Mias) Fetched := do
  if dataLen < 255 then
    if ← onApplet (Applet.transmitCase3 T 0x00 .performSecurityOperation SCP1.PSOPlain SCP2.PSOPadding
        (SCTag.PSOPaddingProprietary1 :: data.slice 0 dataLen)) then
      decipherResult T plain len
    else
      return ⟨false, some plain, len⟩
  else
    if ← ok (Applet.transmitCase3 T 0x10 .performSecurityOperation SCP1.PSOPlain SCP2.PSOPadding
        (SCTag.PSOPaddingProprietary1 :: data.slice 0 254)) then
      if ← onApplet (Applet.transmitCase3 T 0x00 .performSecurityOperation SCP1.PSOPlain SCP2.PSOPadding
          (data.slice 254 (dataLen - 254))) then
        decipherResult T plain len
      else
        return ⟨false, some plain, len⟩
    else
      return ⟨false, some plain, len⟩

def signInit (algorithm key : UInt8) : Exec (Linked σ Mias) Bool := do
  setObj fun m => { m with signAlgo := algorithm, signKey := key }
  mseSetBeforeSignature T algorithm key

def signFinal (hash : Mem) (hashLen : Nat) (signature : Mem) (len : Nat) :
    Exec (Linked σ Mias) Fetched := do
  let algorithm ← gets fun s => s.obj.signAlgo
  if ← psoHashExternally T (algorithm &&& 0xF0) hash hashLen then
    psoComputeDigitalSignature T signature
  else
    return ⟨false, some signature, len⟩

def decryptInit (algorithm key : UInt8) : Exec (Linked σ Mias) Bool := do
  setObj fun m => { m with decryptAlgo := algorithm, decryptKey := key }
  mseSetBeforeDecrypt T algorithm key

def decryptFinal (data : Mem) (dataLen : Nat) (plain : Mem) (len : Nat) :
    Exec (Linked σ Mias) Fetched :=
  psoDecipher T data dataLen plain len

end TrustOnboard.Mias
