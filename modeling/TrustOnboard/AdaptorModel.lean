import TrustOnboard.EngineModel

/-! Decryption through the other two TLS adaptors: the RSA-alt shim for mbedTLS of `TobMbedtls.cpp` and the crypto
device of the Azure HSM of `TobAzureHsm.cpp`. What each library reads from the result of its adaptor is stated next
to it. -/

namespace TrustOnboard

open Exec Sdk

/-- The plaintext in a result of `tobSigningDecrypt`, if it is a success. -/
def Sdk.Extract.plaintext (result : Extract) : Option (List UInt8) :=
  if result.ret = 0 then result.out.map fun plain => plain.slice 0 result.size.toNat else none

namespace Mbedtls

def MBEDTLS_ERR_PK_FILE_IO_ERROR : Int := -0x3E00

/-- `tob_mbedtls_ctx`; the PIN is the string in the 16 bytes of the field, the length a `size_t`. -/
structure TobMbedtlsCtx where
  pin : List UInt8
  len : Nat

/-- The context that `tob_mbedtls_setup_key` fills: `strncpy` of 15 characters, and the length of the key. -/
def contextFor (pin : List UInt8) (len : Nat) : TobMbedtlsCtx := ⟨pin.take 15, len⟩

/-- The return value, `*olen` and the output buffer. -/
structure Decrypted where
  ret : Int
  olen : Nat
  output : Option Mem

/-- The value of a `size_t` as an `int`. -/
def asInt (n : Nat) : Int := (n : Int).bmod (2 ^ 32)

/-- `plainLen` is what the uninitialised `plain_len` holds. -/
def tobMbedtlsSigningDecrypt {ε : Type} (tob : Tob ε) (ctx : TobMbedtlsCtx) (olen : Nat) (input output : Mem)
    (plainLen : Int) : Exec ε Decrypted := do
  let result ← tob.tobSigningDecrypt input (asInt ctx.len) output plainLen (some ctx.pin)
  if result.ret ≠ 0 ∨ result.size < 0 then
    return ⟨MBEDTLS_ERR_PK_FILE_IO_ERROR, olen, result.out⟩
  else
    return ⟨0, result.size.toNat, result.out⟩

/-- mbedTLS takes 0 as success with `olen` bytes of output. -/
def Decrypted.plaintext (result : Decrypted) : Option (List UInt8) :=
  if result.ret = 0 then result.output.map fun output => output.slice 0 result.olen else none

end Mbedtls

namespace AzureHsm

/-- `TWILIO_TRUST_ONBOARD_HSM_INFO`, as far as decryption reads it. -/
structure HsmInfo where
  simPin : Option (List UInt8)

/-- The return value, the output buffer and `*plain_len`. -/
def hsmSigningDecrypt {ε : Type} (tob : Tob ε) (cipher : Mem) (cipherLen : Int) (plain : Mem) (plainLen : Int)
    (priv : Option HsmInfo) : Exec ε Extract := do
  match priv with
  | none => return ⟨0, some plain, plainLen⟩
  | some hsmInfo =>
      let result ← tob.tobSigningDecrypt cipher cipherLen plain plainLen hsmInfo.simPin
      return ⟨if result.ret = 0 then 1 else 0, result.out, result.size⟩

/-- The Azure library takes 0 as failure and everything else as success with `*plain_len` bytes. -/
def plaintext (result : Extract) : Option (List UInt8) :=
  if result.ret ≠ 0 then result.out.map fun plain => plain.slice 0 result.size.toNat else none

end AzureHsm

/-- OpenSSL takes the return value of `rsa_priv_dec` as the length of the plaintext; a failure is negative. -/
def Engine.plaintext (result : Int × Option Mem) : Option (List UInt8) :=
  if 0 ≤ result.1 then result.2.map fun target => target.slice 0 result.1.toNat else none

end TrustOnboard
