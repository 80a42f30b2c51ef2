import TrustOnboard.MFModel
import TrustOnboard.MiasCrypto
import TrustOnboard.SdkPem
import TrustOnboard.HexModel

/-! The functions of `BreakoutTrustOnboardSDK.cpp` over the two applet objects `_mf` and `_mias` and
the interface both are attached to. A C string is the list of its characters before the NUL; a NULL
pointer is `none`. -/

namespace TrustOnboard

open Exec Linked SEInterface

/-- What a call of the API works on. -/
structure Sdk (σ : Type) where
  se : SEInterface σ
  mf : Applet
  mias : Mias

namespace Sdk

def ERR_SE_MIAS_READ_OBJECT_ERROR : Int := -0x5400
def ERR_SE_EF_VERIFY_PIN_ERROR : Int := -0x5480
def ERR_SE_EF_INVALID_NAME_ERROR : Int := -0x5500
def ERR_SE_EF_READ_OBJECT_ERROR : Int := -0x5580
def ERR_SE_BAD_KEY_NAME_ERROR : Int := -0x5600

def SE_EF_KEY_NAME_PREFIX : List UInt8 := cstr "SE://EF/"
def SE_MIAS_KEY_NAME_PREFIX : List UInt8 := cstr "SE://MIAS/"
def SE_MIAS_P11_KEY_NAME_PREFIX : List UInt8 := cstr "SE://MIAS_P11/"

def CERT_MIAS_PATH : List UInt8 := SE_MIAS_P11_KEY_NAME_PREFIX ++ cstr "CERT_AVAILABLE"
def PK_MIAS_PATH : List UInt8 := SE_MIAS_P11_KEY_NAME_PREFIX ++ cstr "PRIV_AVAILABLE"
def CERT_MIAS_PATH_LEGACY : List UInt8 := SE_MIAS_P11_KEY_NAME_PREFIX ++ cstr "CERT_TYPE_A"
def PK_MIAS_PATH_LEGACY : List UInt8 := SE_MIAS_P11_KEY_NAME_PREFIX ++ cstr "PRIV_TYPE_A"
def CERT_SIGNING_MIAS_PATH : List UInt8 := SE_MIAS_KEY_NAME_PREFIX ++ cstr "0"

def ALGO_RSA_PKCS1_PADDING : UInt8 := 0x1A

/-- What the uninitialised locals of the functions below hold when a call enters them. -/
structure Locals where
  p11 : Mias.P11Locals
  efSize : UInt16
  readEfRet : Int

/-- The return code, the buffer and the size variable of an extraction. -/
structure Extract where
  ret : Int
  out : Option Mem
  size : Int

variable {σ : Type} (T : Transport σ)

def mfLens : Lens (Sdk σ) (Linked σ Applet) where
  get s := ⟨s.se, s.mf⟩
  set t s := { s with se := t.se, mf := t.obj }
  get_set _ _ := rfl
  set_get _ := rfl
  set_set _ _ _ := rfl

def miasLens : Lens (Sdk σ) (Linked σ Mias) where
  get s := ⟨s.se, s.mias⟩
  set t s := { s with se := t.se, mias := t.obj }
  get_set _ _ := rfl
  set_get _ := rfl
  set_set _ _ _ := rfl

def onMF {α : Type} (program : Exec (Linked σ Applet) α) : Exec (Sdk σ) α := zoom mfLens program

def onMias {α : Type} (program : Exec (Linked σ Mias) α) : Exec (Sdk σ) α := zoom miasLens program

def selectMias : Exec (Sdk σ) Bool := onMias (Mias.onApplet (Applet.select T false))

def deselectMias : Exec (Sdk σ) Bool := onMias (Mias.onApplet (Applet.deselect T))

/-- A string passed as pointer and `strlen`, the length being cut to 16 bits. `strlen` of NULL is a
fault. -/
def withStrlen (text : Option (List UInt8)) : Exec (Sdk σ) (List UInt8) :=
  match text with
  | none => fault
  | some text => pure (text.take (text.length % 65536))

/-! ### Elementary files -/

/-- The part of `se_read_ef` before the applet is deselected. -/
def seReadEfSelected (locals : Locals) (efname : List UInt8) (data : Option Mem)
    (pin : Option (List UInt8)) : Exec (Sdk σ) Extract := do
  if ← onMF (Applet.select T false) then
    let pin ← withStrlen pin
    if ← onMF (MF.verifyPin T pin) then
      let read ← onMF (MF.readEF T efname data 0)
      if read.1 then
        return ⟨0, read.2.1, read.2.2⟩
      else
        return ⟨ERR_SE_EF_READ_OBJECT_ERROR, read.2.1, -1⟩
    else
      return ⟨ERR_SE_EF_VERIFY_PIN_ERROR, data, -1⟩
  else
    -- `ret` is returned as it was found
    return ⟨locals.readEfRet, data, -1⟩

def seReadEf (locals : Locals) (efname : List UInt8) (data : Option Mem) (size : Int)
    (pin : Option (List UInt8)) : Exec (Sdk σ) Extract := do
  if pin = none then
    return ⟨ERR_SE_EF_VERIFY_PIN_ERROR, data, size⟩
  else
    let result ← seReadEfSelected T locals efname data pin
    let _ ← onMF (Applet.deselect T)
    return result

/-- `hex_string_2_bytes_array` into the 32 bytes of `efname`; the stored bytes are collected. -/
def efnameBytes (path : List UInt8) : Exec (List UInt8) Nat :=
  hexDecode (fun i => pure (path.getD i 0))
    (fun i byte => do
      check (i < 32)
      modify fun bytes => bytes ++ [byte])
    path.length

def seReadObject (locals : Locals) (path : List UInt8) (obj : Option Mem) (size : Int)
    (pin : Option (List UInt8)) : Exec (Sdk σ) Extract := do
  if pin = none ∨ path.length % 2 = 1 ∨ 64 < path.length then
    return ⟨ERR_SE_EF_INVALID_NAME_ERROR, obj, size⟩
  else
    let efname ← isolated [] (efnameBytes path)
    seReadEf T locals efname.2 obj size pin

/-! ### Objects and certificates of the MIAS applet -/

/-- The part of `se_p11_read_object` before the applet is deselected. -/
def seP11ReadSelected (locals : Locals) (label : List UInt8) (obj : Option Mem) (size : Int)
    (pin : Option (List UInt8)) : Exec (Sdk σ) Extract := do
  if ← selectMias T then
    let pin ← withStrlen pin
    if ← onMias (Mias.verifyPin T pin) then
      let label ← withStrlen (some label)
      let fetched ← onMias (Mias.p11GetObjectByLabel T locals.p11 label obj)
      if fetched.ok then
        return ⟨0, fetched.out, fetched.len⟩
      else
        return ⟨ERR_SE_MIAS_READ_OBJECT_ERROR, fetched.out, size⟩
    else
      return ⟨ERR_SE_EF_VERIFY_PIN_ERROR, obj, size⟩
  else
    return ⟨if pin = none then ERR_SE_EF_VERIFY_PIN_ERROR else ERR_SE_MIAS_READ_OBJECT_ERROR, obj, size⟩

def seP11ReadObject (locals : Locals) (label : List UInt8) (obj : Option Mem) (size : Int)
    (pin : Option (List UInt8)) : Exec (Sdk σ) Extract := do
  let result ← seP11ReadSelected T locals label obj size pin
  let _ ← deselectMias T
  return result

/-- The number in a container path, as the `uint8_t` `cid` computes it. -/
def containerIdOf (path : List UInt8) : UInt8 := path.foldl (fun cid c => cid * 10 + (c - 0x30)) 0

/-- The part of `tob_x509_crt_extract_se` for `SE://MIAS/` before the applet is deselected. -/
def certificateSelected (locals : Locals) (cid : UInt8) (cert : Option Mem) (size : Int) :
    Exec (Sdk σ) Extract := do
  if ← selectMias T then
    let fetched ← onMias (Mias.getCertificateByContainerId T locals.efSize cid cert 0)
    if fetched.ok then
      return ⟨0, fetched.out, fetched.len⟩
    else
      return ⟨ERR_SE_BAD_KEY_NAME_ERROR, fetched.out, size⟩
  else
    return ⟨ERR_SE_BAD_KEY_NAME_ERROR, cert, size⟩

def tobX509CrtExtractSe (locals : Locals) (cert : Option Mem) (size : Int) (path : List UInt8)
    (pin : Option (List UInt8)) : Exec (Sdk σ) Extract := do
  if SE_EF_KEY_NAME_PREFIX.isPrefixOf path then
    seReadObject T locals (path.drop SE_EF_KEY_NAME_PREFIX.length) cert size pin
  else if SE_MIAS_P11_KEY_NAME_PREFIX.isPrefixOf path then
    seP11ReadObject T locals (path.drop SE_MIAS_P11_KEY_NAME_PREFIX.length) cert size pin
  else if SE_MIAS_KEY_NAME_PREFIX.isPrefixOf path then
    let result ← certificateSelected T locals
      (containerIdOf (path.drop SE_MIAS_KEY_NAME_PREFIX.length)) cert size
    let _ ← deselectMias T
    return result
  else
    return ⟨ERR_SE_BAD_KEY_NAME_ERROR, cert, size⟩

/-- `pk[*pk_size] = '\0'; *pk_size += 1` after a successful read. -/
def appendNul (result : Extract) : Extract :=
  if result.ret = 0 then
    { result with
      out := result.out.map fun pk => pk.write result.size.toNat [0]
      size := result.size + 1 }
  else
    result

@[simp] theorem appendNul_ret (result : Extract) : (appendNul result).ret = result.ret := by
  unfold appendNul
  split <;> rfl

/-- The NUL goes to an index of the buffer. The size is -1 where `ret` was returned as it was found. -/
def nulAppended (result : Extract) : Exec (Sdk σ) Extract := do
  check (result.ret = 0 ∧ result.out.isSome = true → 0 ≤ result.size)
  return appendNul result

theorem nulAppended_evals {result : Extract} (h : result.ret = 0 → 0 ≤ result.size) (s : Sdk σ) :
    Evals (nulAppended result) s (appendNul result) s :=
  (Evals.check fun hread => h hread.1).bind .pure

theorem nulAppended_meets {result : Extract} {s : Sdk σ} {post : Extract → Sdk σ → Prop} {cut : Sdk σ → Prop}
    (h : post (appendNul result) s) (hcut : cut s) : Meets (nulAppended result) s post cut :=
  .check_bind (fun _ => .pure h) fun _ => hcut

theorem nulAppended_stays {R : Sdk σ → Sdk σ → Prop} [IsPreorder (Sdk σ) R] (result : Extract) :
    Stays R (nulAppended result) :=
  .bind (.check _) fun _ => .pure _

theorem nulAppended_eq_done {result last : Extract} {fuel : Nat} {s s' : Sdk σ}
    (h : nulAppended result fuel s = (.done last, s')) : last = appendNul result ∧ s' = s := by
  obtain ⟨_, t, hcheck, hlast⟩ := bind_eq_done h
  obtain ⟨_, rfl⟩ := check_eq_done hcheck
  cases hlast
  exact ⟨rfl, rfl⟩

def tobPkExtractSe (locals : Locals) (pk : Option Mem) (size : Int) (path : List UInt8)
    (pin : Option (List UInt8)) : Exec (Sdk σ) Extract := do
  if SE_EF_KEY_NAME_PREFIX.isPrefixOf path then
    let result ← seReadObject T locals (path.drop SE_EF_KEY_NAME_PREFIX.length) pk size pin
    nulAppended result
  else if SE_MIAS_P11_KEY_NAME_PREFIX.isPrefixOf path then
    let result ← seP11ReadObject T locals (path.drop SE_MIAS_P11_KEY_NAME_PREFIX.length) pk size pin
    nulAppended result
  else
    return ⟨ERR_SE_BAD_KEY_NAME_ERROR, pk, size⟩

/-! ### The extraction functions of the API -/

/-- Crop the chain of a certificate that was read into a buffer. -/
def cropExtract (result : Extract) : Extract :=
  match result.out with
  | some cert =>
      if result.ret = 0 then { result with size := cropPemChain cert result.size.toNat } else result
  | none => result

def tobExtractAvailableCertificate (locals legacyLocals : Locals) (cert : Option Mem) (size : Int)
    (pin : Option (List UInt8)) : Exec (Sdk σ) Extract := do
  let first ← tobX509CrtExtractSe T locals cert size CERT_MIAS_PATH pin
  if first.ret = ERR_SE_MIAS_READ_OBJECT_ERROR then
    let second ← tobX509CrtExtractSe T legacyLocals first.out first.size CERT_MIAS_PATH_LEGACY pin
    return cropExtract second
  else
    return cropExtract first

/-- The buffers and sizes of a PEM and DER extraction; an absent pointer is `none`. -/
structure PemExtract where
  ret : Int
  pem : Option Mem
  pemSize : Option Int
  der : Option Mem
  derSize : Int

/-- The PEM half of an extraction, shared by the signing certificate and the private key. -/
def pemResult (header : List UInt8) (pem : Option Mem) (pemSize : Option Int) (result : Extract) :
    PemExtract :=
  let same : PemExtract := ⟨result.ret, pem, pemSize, result.out, result.size⟩
  if result.ret = 0 then
    match result.out, pem, pemSize with
    | some der, some pemBuf, some _ =>
        let text := convertDerToPem header (der.slice 0 result.size.toNat)
        { same with pem := some (pemBuf.write 0 text), pemSize := some text.length }
    | _, _, some _ => { same with pemSize := some (derToPemLen result.size.toNat header) }
    | _, _, none => same
  else
    same

def tobExtractSigningCertificate (locals : Locals) (pem : Option Mem) (pemSize : Option Int)
    (der : Option Mem) (derSize : Int) (pin : Option (List UInt8)) : Exec (Sdk σ) PemExtract := do
  let result ← tobX509CrtExtractSe T locals der derSize CERT_SIGNING_MIAS_PATH pin
  return pemResult (cstr "CERTIFICATE") pem pemSize result

def tobExtractAvailablePrivateKeyDer (locals legacyLocals : Locals) (pk : Option Mem) (size : Int)
    (pin : Option (List UInt8)) : Exec (Sdk σ) Extract := do
  let first ← tobPkExtractSe T locals pk size PK_MIAS_PATH pin
  if first.ret = ERR_SE_MIAS_READ_OBJECT_ERROR then
    tobPkExtractSe T legacyLocals first.out first.size PK_MIAS_PATH_LEGACY pin
  else
    return first

def tobExtractAvailablePrivateKey (locals legacyLocals : Locals) (pem : Option Mem)
    (pemSize : Option Int) (der : Option Mem) (derSize : Int) (pin : Option (List UInt8)) :
    Exec (Sdk σ) PemExtract := do
  let result ← tobExtractAvailablePrivateKeyDer T locals legacyLocals der derSize pin
  return pemResult (cstr "RSA PRIVATE KEY") pem pemSize result

/-! ### Signing and decryption -/

/-- The scope of a `SelectionGuard` on `_mias`: the body runs if the applet was selected, and the
applet is deselected on every way out. -/
def guarded {α : Type} (body : Exec (Sdk σ) α) (failed : α) : Exec (Sdk σ) α := do
  let selected ← selectMias T
  let result ← if selected then body else pure failed
  let _ ← deselectMias T
  return result

/-- The 16-bit value of an `int` argument. -/
def toUInt16 (n : Int) : Nat := (n % 65536).toNat

def signingContainerId : UInt8 := containerIdOf (CERT_SIGNING_MIAS_PATH.drop SE_MIAS_KEY_NAME_PREFIX.length)

/-- `tobSigningSign` between selection and deselection. -/
def signSelected (algorithm : UInt8) (hash : Mem) (hashLen : Int) (signature : Mem) (len : Int)
    (pin : Option (List UInt8)) : Exec (Sdk σ) Extract := do
  match ← onMias (Mias.getKeyPairByContainerId T signingContainerId) with
  | none => return ⟨ERR_SE_BAD_KEY_NAME_ERROR, some signature, len⟩
  | some index =>
      let pin ← withStrlen pin
      if ← onMias (Mias.verifyPin T pin) then
        let pair ← gets fun s => s.mias.keypairs index
        if ← onMias (Mias.signInit T algorithm pair.kid) then
          let fetched ← onMias (Mias.signFinal T hash (toUInt16 hashLen) signature 0)
          if fetched.ok then
            return ⟨0, fetched.out, fetched.len⟩
          else
            return ⟨ERR_SE_BAD_KEY_NAME_ERROR, fetched.out, len⟩
        else
          return ⟨ERR_SE_BAD_KEY_NAME_ERROR, some signature, len⟩
      else
        return ⟨ERR_SE_EF_VERIFY_PIN_ERROR, some signature, len⟩

def tobSigningSign (algorithm : UInt8) (hash : Mem) (hashLen : Int) (signature : Mem) (len : Int)
    (pin : Option (List UInt8)) : Exec (Sdk σ) Extract :=
  guarded T (signSelected T algorithm hash hashLen signature len pin)
    ⟨ERR_SE_BAD_KEY_NAME_ERROR, some signature, len⟩

/-- `tobSigningDecrypt` between selection and deselection. -/
def decryptSelected (cipher : Mem) (cipherLen : Int) (plain : Mem) (len : Int)
    (pin : Option (List UInt8)) : Exec (Sdk σ) Extract := do
  match ← onMias (Mias.getKeyPairByContainerId T signingContainerId) with
  | none => return ⟨ERR_SE_BAD_KEY_NAME_ERROR, some plain, len⟩
  | some index =>
      let pin ← withStrlen pin
      if ← onMias (Mias.verifyPin T pin) then
        let pair ← gets fun s => s.mias.keypairs index
        if ← onMias (Mias.decryptInit T ALGO_RSA_PKCS1_PADDING pair.kid) then
          let fetched ← onMias (Mias.decryptFinal T cipher (toUInt16 cipherLen) plain 0)
          if fetched.ok then
            return ⟨0, fetched.out, fetched.len⟩
          else
            return ⟨ERR_SE_BAD_KEY_NAME_ERROR, fetched.out, len⟩
        else
          return ⟨ERR_SE_BAD_KEY_NAME_ERROR, some plain, len⟩
      else
        return ⟨ERR_SE_EF_VERIFY_PIN_ERROR, some plain, len⟩

def tobSigningDecrypt (cipher : Mem) (cipherLen : Int) (plain : Mem) (len : Int)
    (pin : Option (List UInt8)) : Exec (Sdk σ) Extract :=
  guarded T (decryptSelected T cipher cipherLen plain len pin)
    ⟨ERR_SE_BAD_KEY_NAME_ERROR, some plain, len⟩

/-- `tobSigningLen` between selection and deselection. -/
def signingLenSelected : Exec (Sdk σ) Int := do
  match ← onMias (Mias.getKeyPairByContainerId T signingContainerId) with
  | none => return ERR_SE_BAD_KEY_NAME_ERROR
  | some index => gets fun s => ((s.mias.keypairs index).sizeInBits / 8 : Nat)

/-- The PIN is not used. -/
def tobSigningLen (_pin : Option (List UInt8)) : Exec (Sdk σ) Int :=
  guarded T (signingLenSelected T) ERR_SE_BAD_KEY_NAME_ERROR

/-! ### The calls of the API -/

/-- A call with its arguments. The last two are not in the public header; the first three go through
them with fixed paths. -/
inductive ApiCall where
  | extractAvailableCertificate (locals legacyLocals : Locals) (cert : Option Mem) (size : Int)
      (pin : Option (List UInt8))
  | extractAvailablePrivateKey (locals legacyLocals : Locals) (pem : Option Mem) (pemSize : Option Int)
      (der : Option Mem) (derSize : Int) (pin : Option (List UInt8))
  | extractSigningCertificate (locals : Locals) (pem : Option Mem) (pemSize : Option Int)
      (der : Option Mem) (derSize : Int) (pin : Option (List UInt8))
  | signingSign (algorithm : UInt8) (hash : Mem) (hashLen : Int) (signature : Mem) (len : Int)
      (pin : Option (List UInt8))
  | signingDecrypt (cipher : Mem) (cipherLen : Int) (plain : Mem) (len : Int) (pin : Option (List UInt8))
  | signingLen (pin : Option (List UInt8))
  | x509CrtExtractSe (locals : Locals) (cert : Option Mem) (size : Int) (path : List UInt8)
      (pin : Option (List UInt8))
  | pkExtractSe (locals : Locals) (pk : Option Mem) (size : Int) (path : List UInt8)
      (pin : Option (List UInt8))

/-- What a call gives back: the return value and the caller's buffers and sizes. -/
inductive ApiResult where
  | extract (result : Extract)
  | pem (result : PemExtract)
  | length (result : Int)

/-- The return value. -/
def ApiResult.code : ApiResult → Int
  | .extract result => result.ret
  | .pem result => result.ret
  | .length result => result

def ApiCall.run : ApiCall → Exec (Sdk σ) ApiResult
  | .extractAvailableCertificate locals legacyLocals cert size pin => do
      return .extract (← tobExtractAvailableCertificate T locals legacyLocals cert size pin)
  | .extractAvailablePrivateKey locals legacyLocals pem pemSize der derSize pin => do
      return .pem (← tobExtractAvailablePrivateKey T locals legacyLocals pem pemSize der derSize pin)
  | .extractSigningCertificate locals pem pemSize der derSize pin => do
      return .pem (← tobExtractSigningCertificate T locals pem pemSize der derSize pin)
  | .signingSign algorithm hash hashLen signature len pin => do
      return .extract (← tobSigningSign T algorithm hash hashLen signature len pin)
  | .signingDecrypt cipher cipherLen plain len pin => do
      return .extract (← tobSigningDecrypt T cipher cipherLen plain len pin)
  | .signingLen pin => do
      return .length (← tobSigningLen T pin)
  | .x509CrtExtractSe locals cert size path pin => do
      return .extract (← tobX509CrtExtractSe T locals cert size path pin)
  | .pkExtractSe locals pk size path pin => do
      return .extract (← tobPkExtractSe T locals pk size path pin)

/-- A session with a card that answers from a list. -/
def sessionOn (answers : List (Option (List UInt8))) : Sdk (List (Option (List UInt8))) :=
  ⟨.create answers .zero, (Applet.create MF.aid).init true,
    { Mias.create with applet := (Applet.create Mias.aid).init true }⟩

end Sdk

end TrustOnboard
