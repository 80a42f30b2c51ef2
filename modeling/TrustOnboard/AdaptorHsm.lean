import TrustOnboard.AdaptorModel

/-! The HSM of `TobAzureHsm.cpp`: one handle with a configuration and with credentials that are read from the SIM on
demand and kept. Next to what the code keeps, a kept credential has its origin here, which the code does not have.
Memory can always be had. -/

namespace TrustOnboard.AzureHsm

open Exec Sdk

/-- `TWILIO_TRUST_ONBOARD_HSM_CONFIG`; `signing` is whether the `int` is not zero. -/
structure HsmConfig where
  devicePath : List UInt8
  simPin : List UInt8
  signing : Bool
  baudrate : Int
  deriving DecidableEq, Repr

/-- What a credential was obtained for: the interface that the SDK worked on, and the PIN and the flag of the handle. -/
structure Origin where
  device : Nat
  pin : Option (List UInt8)
  signing : Bool
  deriving DecidableEq, Repr

/-- A text that is kept. -/
structure Stored where
  text : List UInt8
  origin : Origin
  deriving DecidableEq, Repr

/-- `TWILIO_TRUST_ONBOARD_HSM_INFO`. The signing key has no data but the handle itself, and is given by its origin. -/
structure HsmRecord where
  devicePath : Option (List UInt8)
  simPin : Option (List UInt8)
  signing : Bool
  baudrate : Int
  certificate : Option Stored
  commonName : Option Stored
  key : Option Stored
  signingKey : Option Origin
  deriving DecidableEq, Repr

/-- `custom_hsm_create`. -/
def HsmRecord.create : HsmRecord := ⟨none, none, false, 0, none, none, none, none⟩

/-- An entry of the stack that `PEM_X509_INFO_read_bio` returns. A certificate is given by the text of its common name,
if it has one. -/
structure X509Info where
  x509 : Option (Option (List UInt8))

/-- What the HSM works with: the card, the interfaces that devices open as, what uninitialised variables hold, and the
PEM reader of OpenSSL. -/
structure HsmHost (σ : Type) where
  transport : Transport σ
  opened : Option (List UInt8) → Int → Option Nat
  locals : Locals
  cert : Mem
  certDer : Mem
  pk : Mem
  pkDer : Mem
  pemX509InfoReadBio : List UInt8 → Option (List X509Info)

/-- The process with the SDK, and the handle. -/
structure Hsm (σ : Type) where
  process : Process σ
  info : HsmRecord

section Model

variable {σ : Type} (host : HsmHost σ)

def processLens : Lens (Hsm σ) (Process σ) where
  get s := s.process
  set process s := { s with process }
  get_set _ _ := rfl
  set_get _ := rfl
  set_set _ _ _ := rfl

/-- A call out of the HSM. -/
def outside {α : Type} (program : Exec (Process σ) α) : Exec (Hsm σ) α := zoom processLens program

def updateInfo (update : HsmRecord → HsmRecord) : Exec (Hsm σ) Unit := modify fun s => { s with info := update s.info }

def HsmHost.tob : Tob (Process σ) := Process.tob host.transport host.opened host.locals

/-- What is read now is obtained for this. -/
def Hsm.origin (s : Hsm σ) : Origin := ⟨s.process.current, s.info.simPin, s.info.signing⟩

/-- The text that `subjectName` copies. -/
def subjectCn : Option (List UInt8) → List UInt8
  | none => cstr "** n/a **"
  | some text => text.take 255

/-- `*subjectName` after `subjectName`, if it is set: the common name of the first certificate. -/
def subjectName (cert : List UInt8) : Exec (Hsm σ) (Option (List UInt8)) :=
  match host.pemX509InfoReadBio cert with
  | none => return none
  | some certstack => do
      check (∀ item ∈ certstack, item.x509.isSome)
      return certstack.head?.bind fun item => item.x509.map subjectCn

/-- The reads of `populate_cert`. -/
def readCert : Exec (Hsm σ) Extract := do
  let info ← gets fun s => s.info
  let _ ← outside (host.tob.tobInitialize info.devicePath info.baudrate)
  if info.signing then
    let result ← outside (host.tob.tobExtractSigningCertificate (some host.cert) (some 0)
        (some host.certDer) 0 info.simPin)
    return ⟨result.ret, result.pem, result.pemSize.getD 0⟩
  else
    outside (host.tob.tobExtractAvailableCertificate (some host.cert) 0 info.simPin)

/-- The bytes behind a result. -/
def extracted (buffer : Mem) (result : Extract) : List UInt8 := (result.out.getD buffer).slice 0 result.size.toNat

/-- A certificate that was read is kept. -/
def keepCertificate (cert : Extract) (origin : Origin) : Exec (Hsm σ) Int := do
  if cert.ret ≠ 0 then
    return 1
  else
    check (0 ≤ cert.size)
    updateInfo fun info => { info with certificate := some ⟨extracted host.cert cert, origin⟩ }
    return 0

/-- `subjectName` on the buffer, whatever the read of the certificate returned. -/
def keepCommonName (cert : Extract) (origin : Origin) : Exec (Hsm σ) Unit := do
  match ← subjectName host (extracted host.cert cert) with
  | none => return ()
  | some text => updateInfo fun info => { info with commonName := some ⟨text, origin⟩ }

def populateCert : Exec (Hsm σ) Int := do
  if (← gets fun s => s.info.certificate) ≠ none then
    return 0
  else
    let cert ← readCert host
    let origin ← gets Hsm.origin
    let result ← keepCertificate host cert origin
    keepCommonName host cert origin
    return result

def populateKey : Exec (Hsm σ) Int := do
  if (← gets fun s => s.info.key) ≠ none then
    return 0
  else
    let info ← gets fun s => s.info
    let _ ← outside (host.tob.tobInitialize info.devicePath info.baudrate)
    let pk ← outside (host.tob.tobExtractAvailablePrivateKey (some host.pk) (some 0) (some host.pkDer) 0 info.simPin)
    let origin ← gets Hsm.origin
    if pk.ret ≠ 0 then
      return 1
    else
      let size := pk.pemSize.getD 0
      check (0 ≤ size)
      updateInfo fun info => { info with key := some ⟨extracted host.pk ⟨pk.ret, pk.pem, size⟩, origin⟩ }
      return 0

def populateSigningKey : Exec (Hsm σ) Int := do
  if (← gets fun s => s.info.signingKey) ≠ none then
    return 0
  else
    let info ← gets fun s => s.info
    let _ ← outside (host.tob.tobInitialize info.devicePath info.baudrate)
    let origin ← gets Hsm.origin
    updateInfo fun info => { info with signingKey := some origin }
    return 0

/-! ### The calls of the interface -/

/-- A copy of a text up to its end. -/
def Stored.copied (stored : Stored) : Stored := { stored with text := stored.text.takeWhile (· ≠ 0) }

def customHsmGetCertificate : Exec (Hsm σ) (Option Stored) := do
  if (← gets fun s => s.info.certificate) = none then
    let _ ← populateCert host
    gets fun s => s.info.certificate.map Stored.copied
  else
    gets fun s => s.info.certificate.map Stored.copied

def customHsmGetKey : Exec (Hsm σ) (Option Stored) := do
  if ← gets fun s => s.info.signing then
    return none
  else
    if (← gets fun s => s.info.key) = none then
      let _ ← populateKey host
      gets fun s => s.info.key.map Stored.copied
    else
      gets fun s => s.info.key.map Stored.copied

def customHsmGetKeyCryptodev : Exec (Hsm σ) (Option Origin) := do
  if ← gets fun s => s.info.signing then
    if (← gets fun s => s.info.signingKey) = none then
      let _ ← populateSigningKey host
      gets fun s => s.info.signingKey
    else
      gets fun s => s.info.signingKey
  else
    return none

def customHsmGetCommonName : Exec (Hsm σ) (Option Stored) := do
  if (← gets fun s => s.info.commonName) = none then
    let _ ← populateCert host
    gets fun s => s.info.commonName.map Stored.copied
  else
    gets fun s => s.info.commonName.map Stored.copied

def customHsmSetData (config : HsmConfig) : Exec (Hsm σ) Int := do
  updateInfo fun info =>
    { info with
      devicePath := some config.devicePath
      simPin := some config.simPin
      signing := config.signing
      baudrate := config.baudrate }
  return 0

inductive HsmCall where
  | setData (config : HsmConfig)
  | getCertificate
  | getKey
  | getKeyCryptodev
  | getCommonName

/-- What a call returns. -/
inductive HsmResult where
  | code (ret : Int)
  | text (value : Option Stored)
  | cryptodev (key : Option Origin)

def HsmCall.run : HsmCall → Exec (Hsm σ) HsmResult
  | .setData config => do return .code (← customHsmSetData config)
  | .getCertificate => do return .text (← customHsmGetCertificate host)
  | .getKey => do return .text (← customHsmGetKey host)
  | .getKeyCryptodev => do return .cryptodev (← customHsmGetKeyCryptodev host)
  | .getCommonName => do return .text (← customHsmGetCommonName host)

end Model

end TrustOnboard.AzureHsm
