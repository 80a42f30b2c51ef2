import TrustOnboard.BytesMemory

/-! The ISO/IEC 7816 codes of `ISO7816.h`. Instructions are an enumeration; the parameter bytes are
combined with `|` and cast from numbers throughout the library, so they are bytes here. -/

namespace TrustOnboard

/-- Instruction codes. -/
inductive SCIns where
  | verify
  | manageSecurityEnvironment
  | changeReferenceData
  | performSecurityOperation
  | manageChannel
  | select
  | readBinary
  | getResponse
  | envelope
  deriving DecidableEq, Repr

def SCIns.code : SCIns → UInt8
  | .verify => 0x20
  | .manageSecurityEnvironment => 0x22
  | .changeReferenceData => 0x24
  | .performSecurityOperation => 0x2A
  | .manageChannel => 0x70
  | .select => 0xA4
  | .readBinary => 0xB0
  | .getResponse => 0xC0
  | .envelope => 0xC2

namespace SCP1
def VERIFYReserved : UInt8 := 0x00
def MSECompDecInt : UInt8 := 0x40
def MSESet : UInt8 := 0x01
def CHANGEREFERENCEDATAOldAndNew : UInt8 := 0x00
def PSOPlain : UInt8 := 0x80
def PSOHashCode : UInt8 := 0x90
def PSOSignature : UInt8 := 0x9E
def MANAGECHANNELOpen : UInt8 := 0x00
def MANAGECHANNELClose : UInt8 := 0x80
def SELECTByDFName : UInt8 := 0x04
def SELECTByPathFromMF : UInt8 := 0x08
def ENVELOPEReserved : UInt8 := 0x00
end SCP1

namespace SCP2
def BasicSecurityMFKey : UInt8 := 0x00
def BasicSecurityDFKey : UInt8 := 0x80
def SELECTFirstOrOnly : UInt8 := 0x00
def SELECTFCITemplate : UInt8 := 0x00
def SELECTFCPTemplate : UInt8 := 0x04
def MSETemplateHashCode : UInt8 := 0xAA
def MSETemplateSignature : UInt8 := 0xB6
def MSETemplateConfidentiality : UInt8 := 0xB8
def PSOPlain : UInt8 := 0x80
def PSOPadding : UInt8 := 0x86
def PSOSignatureInput : UInt8 := 0x9A
def PSOTemplateHash : UInt8 := 0xA0
def MANAGECHANNELAllocateChannel : UInt8 := 0x00
def ENVELOPEReserved : UInt8 := 0x00
end SCP2

namespace SCTag
def FileControlInfoFCP : UInt8 := 0x62
def FCPFileSizeWithoutInfo : UInt8 := 0x80
def FCPFileSizeWithInfo : UInt8 := 0x81
def PSOPaddingProprietary1 : UInt8 := 0x81
def PSOHashInt : UInt8 := 0x80
def PSOHashExt : UInt8 := 0x90
def MSEAlgReference : UInt8 := 0x80
def MSEPublicKey : UInt8 := 0x84
end SCTag

/-- `SCSW1::OKNoQualification | SCSW2::OKNoQualification`. -/
def swOK : Nat := 0x9000

/-- `SCSW1::OKLengthInSW2`, compared with the status word's high byte. -/
def swOKLengthInSW2 : Nat := 0x6100

/-- The characters of a string literal of the source, as bytes without the terminating NUL. -/
def cstr (text : String) : List UInt8 := text.toList.map fun c => UInt8.ofNat c.toNat

end TrustOnboard
