import TrustOnboard.SdkApdus
import TrustOnboard.TokenService

/-! Which calls of the API send well-formed APDUs only and refuse what no APDU holds. A length is passed on modulo 2 to the
power of 16, so arguments that are much too long may be sent in part, and the call may succeed. -/

namespace TrustOnboard.Sdk

open Exec Linked SEInterface

variable {text : List UInt8}

/-! ### The condition -/

/-- A byte counts the PIN. -/
def PinEncodable (pin : Option (List UInt8)) : Prop := ∀ text, pin = some text → text.length ≤ 255

/-- The arguments of the call go into APDUs: the PIN of the MIAS applet, where the call sends it, and the ciphertext, of
which two APDUs hold 254 and 255 bytes. -/
def ApiCall.Encodable : ApiCall → Prop
  | .extractAvailableCertificate _ _ _ _ pin => PinEncodable pin
  | .extractAvailablePrivateKey _ _ _ _ _ _ pin => PinEncodable pin
  | .signingSign _ _ _ _ _ pin => PinEncodable pin
  | .signingDecrypt _ cipherLen _ _ pin => PinEncodable pin ∧ (pin ≠ none → 0 ≤ cipherLen ∧ cipherLen ≤ 509)
  | .x509CrtExtractSe _ _ _ path pin => ObjectPath path → PinEncodable pin
  | .pkExtractSe _ _ _ path pin => ObjectPath path → PinEncodable pin
  | _ => True

/-- What cannot be encoded is answered by an error. -/
def ApiCall.Refuses (call : ApiCall) : Prop :=
  ¬call.Encodable → ∀ (σ : Type) (T : Transport σ) (s : Sdk σ), Fits s → ∀ fuel result,
    (call.run T fuel s).1 = .done result → result.code ≠ 0

section Passed

variable (hpin : (cut text).length ≤ 255)

include hpin

end Passed

/-! ### The exact condition -/

theorem PinSendable.passed {pin : Option (List UInt8)} (h : PinSendable pin) (hnot : ¬PinEncodable pin) :
    ∃ text, pin = some text ∧ (cut text).length ≤ 255 := by
  obtain ⟨text, htext⟩ := Classical.not_forall.mp hnot
  obtain ⟨heq, _⟩ := Classical.not_imp.mp htext
  exact ⟨text, heq, h.cut_le heq⟩

end TrustOnboard.Sdk
