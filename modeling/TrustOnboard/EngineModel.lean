import TrustOnboard.SdkProcess
import TrustOnboard.LockMonitor

/-! The OpenSSL engine of `OpenSSLEngine.cpp`: contexts and keys as objects at addresses, the SIM lock seen through
a log, and the functions OpenSSL calls. The SDK, the C library and OpenSSL are parameters. -/

namespace TrustOnboard

open Exec Sdk

/-- The functions of the SDK as its users call them, in a state `ε`. -/
structure Tob (ε : Type) where
  tobInitialize (device : Option (List UInt8)) (baudrate : Int) : Exec ε Int
  tobExtractAvailableCertificate (cert : Option Mem) (size : Int) (pin : Option (List UInt8)) : Exec ε Extract
  tobExtractAvailablePrivateKey (pem : Option Mem) (pemSize : Option Int) (der : Option Mem) (derSize : Int)
    (pin : Option (List UInt8)) : Exec ε PemExtract
  tobExtractSigningCertificate (pem : Option Mem) (pemSize : Option Int) (der : Option Mem) (derSize : Int)
    (pin : Option (List UInt8)) : Exec ε PemExtract
  tobSigningSign (algorithm : UInt8) (hash : Mem) (hashLen : Int) (signature : Mem) (len : Int)
    (pin : Option (List UInt8)) : Exec ε Extract
  tobSigningDecrypt (cipher : Mem) (cipherLen : Int) (plain : Mem) (len : Int) (pin : Option (List UInt8)) :
    Exec ε Extract

/-- The SDK of a process. `opened` is the interface that a device opens as, and `locals` what uninitialised
variables hold. -/
def Process.tob {σ : Type} (T : Transport σ) (opened : Option (List UInt8) → Int → Option Nat) (locals : Locals) :
    Tob (Process σ) where
  tobInitialize device baudrate := Process.tobInitialize T (opened device baudrate)
  tobExtractAvailableCertificate cert size pin :=
    zoom sdkLens (Sdk.tobExtractAvailableCertificate T locals locals cert size pin)
  tobExtractAvailablePrivateKey pem pemSize der derSize pin :=
    zoom sdkLens (Sdk.tobExtractAvailablePrivateKey T locals locals pem pemSize der derSize pin)
  tobExtractSigningCertificate pem pemSize der derSize pin :=
    zoom sdkLens (Sdk.tobExtractSigningCertificate T locals pem pemSize der derSize pin)
  tobSigningSign algorithm hash hashLen signature len pin :=
    zoom sdkLens (Sdk.tobSigningSign T algorithm hash hashLen signature len pin)
  tobSigningDecrypt cipher cipherLen plain len pin :=
    zoom sdkLens (Sdk.tobSigningDecrypt T cipher cipherLen plain len pin)

/-- The C library and OpenSSL. `allocates` is whether the next object can be had: a context, a string, an entry of
the extra data, a lock, a BIO, a key. -/
structure Host (ε X509 PKey : Type) where
  allocates : Exec ε Bool
  malloc (size : Int) : Exec ε (Option Mem)
  getExNewIndex : Exec ε (Option Nat)
  d2iX509 (der : List UInt8) : Exec ε (Option X509)
  pemReadX509 (pem : List UInt8) : Exec ε (Option X509)
  d2iPrivateKey (der : List UInt8) : Exec ε (Option PKey)
  x509GetPubkey (cert : X509) : Exec ε (Option PKey)
  pkeyGet0RSA (key : PKey) : Option (Nat × Nat)

/-- `tob_ctx_t`. -/
structure TobCtx where
  initialized : Bool
  pin : Option (List UInt8)
  modemDevice : Option (List UInt8)
  modemBaudrate : Int
  simLock : Option Nat
  deriving DecidableEq, Repr

/-- `tob_key_t`; the context is given by its address. -/
structure TobKey where
  tobCtx : Nat
  deriving DecidableEq, Repr

/-- An RSA object: modulus and exponent, and the extra data of the engine. -/
structure Rsa where
  publicKey : Option (Nat × Nat)
  keyInfo : Option TobKey
  deriving DecidableEq, Repr

/-- The protected functions. -/
inductive TobFunction where
  | extractAvailableCertificate
  | extractAvailablePrivateKey
  | extractSigningCertificate
  | signingSign
  | signingDecrypt
  deriving DecidableEq, Repr

/-- The static variables, the extra data of the `ENGINE` (a context), the contexts and RSA objects there are, and the
state of everything else. An address is not used again after its object is freed. -/
structure Engine (ε : Type) where
  env : ε
  exDataIdx : Option Nat
  rsaExDataIdx : Option Nat
  exData : Option Nat
  ctxs : Nat → Option TobCtx
  numCtxs : Nat
  rsas : Nat → Option Rsa
  numRsas : Nat
  numLocks : Nat
  log : List (LockMonitor.Event TobFunction)

namespace Engine

variable {ε X509 PKey : Type} (tob : Tob ε) (host : Host ε X509 PKey)

/-- The engine after `bind`. -/
def bound (env : ε) : Engine ε :=
  { env, exDataIdx := none, rsaExDataIdx := none, exData := none, ctxs := fun _ => none, numCtxs := 0,
    rsas := fun _ => none, numRsas := 0, numLocks := 0, log := [] }

def envLens : Lens (Engine ε) ε where
  get s := s.env
  set env s := { s with env }
  get_set _ _ := rfl
  set_get _ := rfl
  set_set _ _ _ := rfl

/-- A call out of the engine. -/
def outside {α : Type} (program : Exec ε α) : Exec (Engine ε) α := zoom envLens program

def record (event : LockMonitor.Event TobFunction) : Exec (Engine ε) Unit :=
  modify fun s => { s with log := event :: s.log }

/-- A call of a protected function. -/
def calling {α : Type} (function : TobFunction) (program : Exec ε α) : Exec (Engine ε) α := do
  record (.use function)
  outside program

/-- `strdup`. -/
def strdup (text : List UInt8) : Exec (Engine ε) (Option (List UInt8)) := do
  if ← outside host.allocates then return some text else return none

/-- The context at an address; a context that was freed is not read. -/
def ctxAt (address : Nat) : Exec (Engine ε) TobCtx := do
  match ← gets fun s => s.ctxs address with
  | some ctx => return ctx
  | none => fault

def setCtx (address : Nat) (ctx : Option TobCtx) : Exec (Engine ε) Unit :=
  modify fun s => { s with ctxs := Function.update s.ctxs address ctx }

/-! ### The lock -/

def sslLockUniversalNew : Exec (Engine ε) (Option Nat) := do
  if ← outside host.allocates then
    let lock ← gets fun s => s.numLocks
    modify fun s => { s with numLocks := lock + 1 }
    record (.create lock)
    return some lock
  else
    return none

def sslLockUniversalFree (lock : Option Nat) : Exec (Engine ε) Unit := record (.destroy lock)

def sslLockUniversalLock (lock : Option Nat) : Exec (Engine ε) Unit := record (.acquire lock)

def sslLockUniversalUnlock (lock : Option Nat) : Exec (Engine ε) Unit := record (.release lock)

/-! ### The context -/

/-- `calloc` with the fields that are set next. -/
def newCtx (pin modemDevice : Option (List UInt8)) : Exec (Engine ε) Nat := do
  let address ← gets fun s => s.numCtxs
  modify fun s => { s with numCtxs := address + 1 }
  setCtx address (some ⟨false, pin, modemDevice, 115200, none⟩)
  return address

/-- The context, or `none` where the source returns 0. -/
def tobSetCtx : Exec (Engine ε) (Option Nat) := do
  if ← outside host.allocates then
    let pin ← strdup host (cstr "0000")
    let modemDevice ← strdup host (cstr "/dev/ttyACM0")
    let address ← newCtx pin modemDevice
    match ← gets fun s => s.exData with
    | some ctx => return some ctx
    | none =>
        if ← outside host.allocates then
          modify fun s => { s with exData := some address }
          return some address
        else
          return none
  else
    return none

/-- The first use of `ex_data_idx` asks for it. -/
def exDataIndex : Exec (Engine ε) (Option Nat) := do
  match ← gets fun s => s.exDataIdx with
  | some index => return some index
  | none =>
      let index ← outside host.getExNewIndex
      modify fun s => { s with exDataIdx := index }
      return index

def tobGetCtx : Exec (Engine ε) (Option Nat) := do
  match ← exDataIndex host with
  | none => return none
  | some _ =>
      match ← gets fun s => s.exData with
      | some ctx => return some ctx
      | none => tobSetCtx host

/-- The context `tob_engine_init` works on. -/
def initCtx : Exec (Engine ε) (Option Nat) := do
  match ← gets fun s => s.exDataIdx.bind fun _ => s.exData with
  | some ctx => return some ctx
  | none =>
      let ctx ← tobGetCtx host
      modify fun s => { s with exData := ctx }
      return ctx

def tobEngineInit : Exec (Engine ε) Int := do
  match ← initCtx host with
  | none => fault
  | some address =>
      let ctx ← ctxAt address
      if ctx.initialized then
        return 1
      else
        let ret ← outside (tob.tobInitialize ctx.modemDevice ctx.modemBaudrate)
        if ret ≠ 0 then
          return 0
        else
          let lock ← sslLockUniversalNew host
          setCtx address (some { ctx with simLock := lock, initialized := true })
          return 1

def tobEngineFinish : Exec (Engine ε) Int := do
  match ← tobGetCtx host with
  | none => return 1
  | some address =>
      let ctx ← ctxAt address
      -- the pin and the device are freed while the lock is held
      if ctx.simLock ≠ none then sslLockUniversalLock ctx.simLock
      if ctx.simLock ≠ none then
        sslLockUniversalUnlock ctx.simLock
        sslLockUniversalFree ctx.simLock
      setCtx address none
      modify fun s => { s with exData := none }
      return 1

/-! ### Certificates and public keys -/

/-- `certLen` is what the uninitialised `cert_len` holds. -/
def tobExtractCertificate (signing : Bool) (certLen : Int) : Exec (Engine ε) (Option X509) := do
  match ← tobGetCtx host with
  | none => return none
  | some address =>
      let ctx ← ctxAt address
      if signing then
        sslLockUniversalLock ctx.simLock
        let length ← calling .extractSigningCertificate
          (tob.tobExtractSigningCertificate none none none certLen ctx.pin)
        if length.ret ≠ 0 then
          sslLockUniversalUnlock ctx.simLock
          return none
        else
          match ← outside (host.malloc length.derSize) with
          | none =>
              sslLockUniversalUnlock ctx.simLock
              return none
          | some cert =>
              let result ← calling .extractSigningCertificate
                (tob.tobExtractSigningCertificate none none (some cert) length.derSize ctx.pin)
              if result.ret ≠ 0 then
                sslLockUniversalUnlock ctx.simLock
                return none
              else
                sslLockUniversalUnlock ctx.simLock
                if ← outside host.allocates then
                  outside (host.d2iX509 ((result.der.getD cert).slice 0 result.derSize.toNat))
                else
                  return none
      else
        sslLockUniversalLock ctx.simLock
        let length ← calling .extractAvailableCertificate
          (tob.tobExtractAvailableCertificate none certLen ctx.pin)
        if length.ret ≠ 0 then
          sslLockUniversalUnlock ctx.simLock
          return none
        else
          match ← outside (host.malloc length.size) with
          | none =>
              sslLockUniversalUnlock ctx.simLock
              return none
          | some cert =>
              let result ← calling .extractAvailableCertificate
                (tob.tobExtractAvailableCertificate (some cert) length.size ctx.pin)
              if result.ret ≠ 0 then
                sslLockUniversalUnlock ctx.simLock
                return none
              else
                sslLockUniversalUnlock ctx.simLock
                if ← outside host.allocates then
                  outside (host.pemReadX509 ((result.out.getD cert).slice 0 result.size.toNat))
                else
                  return none

def tobEngineLoadPubkey (signing : Bool) (certLen : Int) : Exec (Engine ε) (Option PKey) := do
  match ← tobExtractCertificate tob host signing certLen with
  | none => return none
  | some cert => outside (host.x509GetPubkey cert)

def tobEngineLoadPubkeyFunction (name : List UInt8) (certLen : Int) : Exec (Engine ε) (Option PKey) :=
  if name = cstr "signing" then tobEngineLoadPubkey tob host true certLen
  else if name = cstr "available" then tobEngineLoadPubkey tob host false certLen
  else return none

/-! ### Private keys -/

/-- A private key: one parsed from its encoding, or an RSA object of the engine. -/
inductive PrivKey (PKey : Type) where
  | parsed (key : PKey)
  | token (rsa : Nat)
  deriving DecidableEq, Repr

/-- The first use of `rsa_ex_data_idx` asks for it. -/
def rsaExDataIndex : Exec (Engine ε) (Option Nat) := do
  match ← gets fun s => s.rsaExDataIdx with
  | some index => return some index
  | none =>
      let index ← outside host.getExNewIndex
      modify fun s => { s with rsaExDataIdx := index }
      return index

def setRsa (rsa : Nat) (object : Option Rsa) : Exec (Engine ε) Unit :=
  modify fun s => { s with rsas := Function.update s.rsas rsa object }

/-- `RSA_new`. -/
def rsaNew : Exec (Engine ε) Nat := do
  let rsa ← gets fun s => s.numRsas
  modify fun s => { s with numRsas := rsa + 1 }
  setRsa rsa (some ⟨none, none⟩)
  return rsa

/-- `BN_dup` of both numbers and `RSA_set0_key`, which leaves the key without numbers if one is missing. -/
def dupPublicKey (numbers : Nat × Nat) : Exec (Engine ε) (Option (Nat × Nat)) := do
  if ← outside host.allocates then return some numbers else return none

/-- `RSA_set_ex_data`, whose result its caller does not look at. -/
def rsaSetExData (rsa : Nat) (object : Rsa) (key : TobKey) : Exec (Engine ε) Unit := do
  if ← outside host.allocates then
    setRsa rsa (some { object with keyInfo := some key })

def tobEngineLoadSigningPrivkey (certLen : Int) : Exec (Engine ε) (Option (PrivKey PKey)) := do
  match ← tobGetCtx host with
  | none => return none
  | some ctx =>
      match ← tobEngineLoadPubkey tob host true certLen with
      | none => return none
      | some pubkey =>
          match host.pkeyGet0RSA pubkey with
          | none => return none
          | some numbers =>
              if ← outside host.allocates then
                let rsa ← rsaNew
                let publicKey ← dupPublicKey host numbers
                setRsa rsa (some ⟨publicKey, none⟩)
                match ← rsaExDataIndex host with
                | none => return none
                | some _ =>
                    -- the memory for the `tob_key_t` is not checked
                    if ← outside host.allocates then
                      rsaSetExData host rsa ⟨publicKey, none⟩ ⟨ctx⟩
                      if ← outside host.allocates then
                        return some (.token rsa)
                      else
                        setRsa rsa none
                        return none
                    else
                      fault
              else
                return none

/-- `keyLen` is what the uninitialised `key_len` holds. -/
def tobEngineLoadAvailablePrivkey (keyLen : Int) : Exec (Engine ε) (Option (PrivKey PKey)) := do
  match ← tobGetCtx host with
  | none => return none
  | some address =>
      let ctx ← ctxAt address
      sslLockUniversalLock ctx.simLock
      let length ← calling .extractAvailablePrivateKey
        (tob.tobExtractAvailablePrivateKey none none none keyLen ctx.pin)
      if length.ret ≠ 0 then
        sslLockUniversalUnlock ctx.simLock
        return none
      else
        match ← outside (host.malloc length.derSize) with
        | none =>
            sslLockUniversalUnlock ctx.simLock
            return none
        | some key =>
            let result ← calling .extractAvailablePrivateKey
              (tob.tobExtractAvailablePrivateKey none none (some key) length.derSize ctx.pin)
            if result.ret ≠ 0 then
              sslLockUniversalUnlock ctx.simLock
              return none
            else
              sslLockUniversalUnlock ctx.simLock
              if ← outside host.allocates then
                let parsed ← outside (host.d2iPrivateKey ((result.der.getD key).slice 0 result.derSize.toNat))
                return parsed.map .parsed
              else
                return none

def tobEngineLoadPrivkeyFunction (name : List UInt8) (len : Int) : Exec (Engine ε) (Option (PrivKey PKey)) :=
  if name = cstr "signing" then tobEngineLoadSigningPrivkey tob host len
  else if name = cstr "available" then tobEngineLoadAvailablePrivkey tob host len
  else return none

/-! ### Control commands -/

def ENGINE_CMD_BASE : Int := 200
def CMD_PIN : Int := ENGINE_CMD_BASE
def CMD_MODEM_DEVICE : Int := ENGINE_CMD_BASE + 1
def CMD_MODEM_BAUDRATE : Int := ENGINE_CMD_BASE + 2
def CMD_LOAD_CERT_CTRL : Int := ENGINE_CMD_BASE + 3

/-- What the pointer of a control command points to: a string, or the parameters of `LOAD_CERT_CTRL`. -/
inductive CtrlArg where
  | null
  | text (chars : List UInt8)
  | params (certId : List UInt8)
  deriving DecidableEq, Repr

/-- The string a pointer points to. -/
def CtrlArg.chars : CtrlArg → Exec (Engine ε) (List UInt8)
  | .text chars => return chars
  | _ => fault

/-- A `long` that is stored in an `int`. -/
def intOfLong (i : Int) : Int := i.bmod 4294967296

/-- The return value and `params->cert`. -/
def tobEngineCtrl (cmd i : Int) (p : CtrlArg) (certLen : Int) : Exec (Engine ε) (Int × Option X509) := do
  match ← tobGetCtx host with
  | none => return (0, none)
  | some address =>
      let ctx ← ctxAt address
      if cmd = CMD_PIN then
        match p with
        | .null =>
            setCtx address (some { ctx with pin := none })
            return (1, none)
        | p =>
            let pin ← strdup host (← p.chars)
            setCtx address (some { ctx with pin })
            return (1, none)
      else if cmd = CMD_MODEM_DEVICE then
        let modemDevice ← strdup host (← p.chars)
        setCtx address (some { ctx with modemDevice })
        return (1, none)
      else if cmd = CMD_MODEM_BAUDRATE then
        setCtx address (some { ctx with modemBaudrate := intOfLong i })
        return (1, none)
      else if cmd = CMD_LOAD_CERT_CTRL then
        match p with
        | .params certId =>
            if certId = cstr "signing" then
              let cert ← tobExtractCertificate tob host true certLen
              return (if cert.isSome then 1 else 0, cert)
            else if certId = cstr "available" then
              let cert ← tobExtractCertificate tob host false certLen
              return (if cert.isSome then 1 else 0, cert)
            else
              return (0, none)
        | _ => fault
      else
        return (0, none)

/-! ### The RSA method -/

/-- `RSA_get_ex_data`. -/
def keyInfo (rsa : Nat) (s : Engine ε) : Option TobKey :=
  s.rsaExDataIdx.bind fun _ => (s.rsas rsa).bind (·.keyInfo)

/-- The algorithm for a digest of this length. -/
def signingAlgorithm (length : Nat) : Option UInt8 :=
  if length = 20 then some 0x12 else if length = 32 then some 0x42 else if length = 48 then some 0x52 else none

/-- The context of a key with its PIN, if neither is NULL. -/
def keyCtx (key : Option TobKey) : Exec (Engine ε) (Option (TobCtx × List UInt8)) := do
  match key with
  | none => return none
  | some key =>
      let ctx ← ctxAt key.tobCtx
      return ctx.pin.map fun pin => (ctx, pin)

/-- `sigSize` is what the uninitialised `sig_size` holds. -/
def tobKeySigningSign (m : Mem) (mLength : Nat) (sigret : Mem) (siglen : Int) (sigSize : Int) (key : Option TobKey) :
    Exec (Engine ε) Extract := do
  match ← keyCtx key with
  | none => return ⟨0, some sigret, siglen⟩
  | some (ctx, pin) =>
      match signingAlgorithm mLength with
      | none =>
          sslLockUniversalUnlock ctx.simLock
          return ⟨0, some sigret, siglen⟩
      | some algorithm =>
          sslLockUniversalLock ctx.simLock
          let result ← calling .signingSign (tob.tobSigningSign algorithm m mLength sigret sigSize (some pin))
          if result.ret = 0 ∧ 0 ≤ result.size then
            sslLockUniversalUnlock ctx.simLock
            return ⟨1, result.out, result.size⟩
          else
            sslLockUniversalUnlock ctx.simLock
            return ⟨0, result.out, siglen⟩

/-- `toSize` is what the uninitialised `to_size` holds; the size that the SDK sets is not used. -/
def tobKeySigningDecrypt (flen : Int) (source : Mem) (target : Mem) (toSize : Int) (key : Option TobKey) :
    Exec (Engine ε) (Int × Option Mem) := do
  match ← keyCtx key with
  | none => return (0, some target)
  | some (ctx, pin) =>
      sslLockUniversalLock ctx.simLock
      let result ← calling .signingDecrypt (tob.tobSigningDecrypt source flen target toSize (some pin))
      sslLockUniversalUnlock ctx.simLock
      return (if result.ret = 0 then 1 else 0, result.out)

def tobEngineSigningRsaSign (m : Mem) (mLength : Nat) (sigret : Mem) (siglen sigSize : Int) (rsa : Nat) :
    Exec (Engine ε) Extract := do
  let key ← gets (keyInfo rsa)
  tobKeySigningSign tob m mLength sigret siglen sigSize key

/-- The padding is only compared for a message. -/
def tobEngineSigningRsaDecrypt (flen : Int) (source target : Mem) (toSize : Int) (rsa : Nat) (_padding : Int) :
    Exec (Engine ε) (Int × Option Mem) := do
  let key ← gets (keyInfo rsa)
  tobKeySigningDecrypt tob flen source target toSize key

def tobEngineSigningRsaFinish (rsa : Nat) : Exec (Engine ε) Int := do
  match ← gets fun s => s.rsaExDataIdx with
  | none => return 1
  | some _ =>
      modify fun s => { s with rsas := Function.update s.rsas rsa ((s.rsas rsa).map fun object =>
        { object with keyInfo := none }) }
      return 1

/-! ### Operations -/

/-- What OpenSSL asks of the engine. The last argument of each is what an uninitialised length holds. -/
inductive Op where
  | init
  | finish
  | ctrl (cmd i : Int) (p : CtrlArg) (len : Int)
  | loadPubkey (name : List UInt8) (len : Int)
  | loadPrivkey (name : List UInt8) (len : Int)
  | rsaSign (rsa : Nat) (m : Mem) (mLength : Nat) (sigret : Mem) (siglen : Int) (len : Int)
  | rsaDecrypt (rsa : Nat) (flen : Int) (source target : Mem) (padding : Int) (len : Int)
  | rsaFinish (rsa : Nat)

/-- What an operation returns. -/
inductive OpResult (X509 PKey : Type) where
  | code (ret : Int)
  | cert (ret : Int) (cert : Option X509)
  | pubkey (key : Option PKey)
  | privkey (key : Option (PrivKey PKey))
  | signed (result : Extract)
  | decrypted (ret : Int) (target : Option Mem)

def Op.run : Op → Exec (Engine ε) (OpResult X509 PKey)
  | .init => do return .code (← tobEngineInit tob host)
  | .finish => do return .code (← tobEngineFinish host)
  | .ctrl cmd i p len => do
      let result ← tobEngineCtrl tob host cmd i p len
      return .cert result.1 result.2
  | .loadPubkey name len => do return .pubkey (← tobEngineLoadPubkeyFunction tob host name len)
  | .loadPrivkey name len => do return .privkey (← tobEngineLoadPrivkeyFunction tob host name len)
  | .rsaSign rsa m mLength sigret siglen len => do
      return .signed (← tobEngineSigningRsaSign tob m mLength sigret siglen len rsa)
  | .rsaDecrypt rsa flen source target padding len => do
      let result ← tobEngineSigningRsaDecrypt tob flen source target len rsa padding
      return .decrypted result.1 result.2
  | .rsaFinish rsa => do return .code (← tobEngineSigningRsaFinish rsa)

end Engine

end TrustOnboard
