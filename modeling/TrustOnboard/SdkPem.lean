import TrustOnboard.CardIso7816

/-! The PEM conversions of the SDK: base64 encoding, the PEM frame around it, and the cropping of a
certificate chain. -/

namespace TrustOnboard

/-- The base64 alphabet of `base64.c`. -/
def basis64 : List UInt8 := cstr "ABCDEFGHIJKLMNOPQRSTUVWXYZabcdefghijklmnopqrstuvwxyz0123456789+/"

def base64Digit (n : Nat) : UInt8 := basis64.getD n 0

/-- `owl_base64encode_len`, with the terminating NUL. -/
def owlBase64EncodeLen (len : Nat) : Nat := (len + 2) / 3 * 4 + 1

/-- The characters that `owl_base64encode` writes before its terminating NUL. -/
def owlBase64Encode : List UInt8 → List UInt8
  | [] => []
  | [a] =>
      [base64Digit (a.toNat / 4), base64Digit (a.toNat % 4 * 16), 0x3D, 0x3D]
  | [a, b] =>
      [base64Digit (a.toNat / 4), base64Digit (a.toNat % 4 * 16 + b.toNat / 16),
        base64Digit (b.toNat % 16 * 4), 0x3D]
  | a :: b :: c :: rest =>
      base64Digit (a.toNat / 4) :: base64Digit (a.toNat % 4 * 16 + b.toNat / 16) ::
        base64Digit (b.toNat % 16 * 4 + c.toNat / 64) :: base64Digit (c.toNat % 64) ::
        owlBase64Encode rest

/-- What `convert_der_to_pem` writes, each part over the NUL of the part before. -/
def convertDerToPem (header : List UInt8) (der : List UInt8) : List UInt8 :=
  cstr "-----BEGIN " ++ header ++ cstr "-----\n" ++ owlBase64Encode der ++ cstr "\n-----END " ++
    header ++ cstr "-----"

def derToPemLen (derLen : Nat) (header : List UInt8) : Nat :=
  11 + header.length + 6 + owlBase64EncodeLen derLen + 9 + header.length + 5

def footer : List UInt8 := cstr "-----END CERTIFICATE-----"

/-- The scan of `crop_pem_chain` from index `i` on, `remaining` bytes before the end, with the first
`matched` characters of the footer seen. -/
def cropLoop (pem : Mem) : Nat → Nat → Nat → Nat
  | 0, i, _ => i
  | remaining + 1, i, matched =>
      if pem i = footer.getD matched 0 then
        if matched + 1 = footer.length then i + 1
        else cropLoop pem remaining (i + 1) (matched + 1)
      else cropLoop pem remaining (i + 1) 0

def cropPemChain (pem : Mem) (pemLen : Nat) : Nat := cropLoop pem pemLen 0 0

end TrustOnboard
