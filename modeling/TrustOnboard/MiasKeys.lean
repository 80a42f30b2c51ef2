import TrustOnboard.AppletModel

/-! `MIAS`: the applet object, the key-pair table built from CONTAINERS_INFO and FILE_DIR, and the
certificates of the key pairs. -/

namespace TrustOnboard

open Exec Linked SEInterface

/-- `mias_key_pair_t`. -/
structure KeyPair where
  kid : UInt8
  flags : Nat
  sizeInBits : Nat
  pubFileId : UInt8 × UInt8
  hasCert : Bool
  deriving DecidableEq, Repr

/-- `mias_file_t`; the two names without the byte after them that is never written. -/
structure File where
  efid : Nat
  dir : List UInt8
  name : List UInt8
  size : Nat
  deriving DecidableEq, Repr

namespace KeyPair

def rsaFlag : Nat := 1
def signatureFlag : Nat := 4
def decryptionFlag : Nat := 8

def zero : KeyPair := { kid := 0, flags := 0, sizeInBits := 0, pubFileId := (0, 0), hasCert := false }

/-- `(kid & 0x0F) - 1`, an `int`: the container a key pair is looked up by. -/
def container (pair : KeyPair) : Int := ((pair.kid &&& 0x0F).toNat : Int) - 1

end KeyPair

/-- The members of `MIAS`. The pools are indexed by position. -/
structure Mias where
  applet : Applet
  keypairs : Nat → KeyPair
  keypairsNum : Int
  files : Nat → File
  filesNum : Nat
  hashAlgo : UInt8
  signAlgo : UInt8
  signKey : UInt8
  decryptAlgo : UInt8
  decryptKey : UInt8

namespace Mias

def keyPoolSize : Nat := 16
def filePoolSize : Nat := 32

def aid : List UInt8 := [0xA0, 0x00, 0x00, 0x00, 0x18, 0x80, 0x00, 0x00, 0x00, 0x06, 0x62, 0x41, 0x51]

def CONTAINERS_INFO_EF : List UInt8 := [0x00, 0x02]
def FILE_DIR_EF : List UInt8 := [0x01, 0x01]

/-- The constructor, in zero-initialised storage. -/
def create : Mias :=
  { applet := .create aid, keypairs := fun _ => .zero, keypairsNum := -1,
    files := fun _ => { efid := 0, dir := [], name := [], size := 0 }, filesNum := 0,
    hashAlgo := 0, signAlgo := 0, signKey := 0, decryptAlgo := 0, decryptKey := 0 }

def appletLens : Lens Mias Applet where
  get m := m.applet
  set a m := { m with applet := a }
  get_set _ _ := rfl
  set_get _ := rfl
  set_set _ _ _ := rfl

variable {σ : Type} (T : Transport σ)

/-- Use the object as an applet. -/
def onApplet {α : Type} (program : Exec (Linked σ Applet) α) : Exec (Linked σ Mias) α :=
  zoom (objLens appletLens) program

/-- A command of the applet that was transmitted and answered `9000`. -/
def ok (transmitted : Exec (Linked σ Applet) Bool) : Exec (Linked σ Mias) Bool :=
  onApplet (Applet.ok transmitted)

/-- The data of the last answer. -/
def response : Exec (Linked σ Mias) (List UInt8) := onApplet (gets Applet.getResponse)

/-- READ BINARY of `le` bytes at a 16-bit offset. -/
def readBinary (offset : Nat) (le : UInt8) : Exec (Linked σ Applet) Bool :=
  Applet.transmitCase2 T 0x00 .readBinary (highByte offset) (lowByte offset) le

/-- SELECT of a file by path from the MF, without an expected length. -/
def selectFile (path : List UInt8) : Exec (Linked σ Applet) Bool :=
  Applet.transmitCase3 T 0x00 .select SCP1.SELECTByPathFromMF
    (SCP2.SELECTFCPTemplate ||| SCP2.SELECTFirstOrOnly) path

/-- SELECT of a file by path from the MF, with an expected length. -/
def selectFileLe (path : List UInt8) (le : UInt8) : Exec (Linked σ Applet) Bool :=
  Applet.transmitCase4 T 0x00 .select SCP1.SELECTByPathFromMF
    (SCP2.SELECTFCPTemplate ||| SCP2.SELECTFirstOrOnly) path le

/-! ### The file size in an FCP template -/

/-- The walk over the template in `_apduResponse`; `i`, `len` and `l` are bytes of the source, so
the walk wraps at 256 and never reads at or beyond index 258. -/
def fcpWalk (len : Nat) : Nat × Nat → Exec (SEInterface σ) (Turn (Nat × Nat) Nat) := fun x => do
  if x.1 < (len + 2) % 256 then
    let t ← gets fun s => s.response x.1
    let l ← gets fun s => (s.response (x.1 + 1)).toNat
    let value ← gets fun s => word16 (s.response (x.1 + 2)) (s.response (x.1 + 3))
    return .again ((x.1 + 2 + l) % 256, if t = SCTag.FCPFileSizeWithInfo then value else x.2)
  else
    return .stop x.2

def fcpFileSize (initial : Nat) : Exec (SEInterface σ) Nat := do
  let len ← gets fun s => (s.response 1).toNat
  loop (fcpWalk len) (2, initial)

/-- The same, where an answer that is no FCP template leaves the size as it was. -/
def templateSize (initial : Nat) : Exec (SEInterface σ) Nat := do
  if (← gets fun s => s.response 0) = SCTag.FileControlInfoFCP then
    fcpFileSize initial
  else
    return initial

/-! ### Key pairs -/

/-- The key pair built from record `i` of CONTAINERS_INFO; `old` is what the pool entry held. -/
def containerPair (i : Nat) (record : Mem) (old : KeyPair) : KeyPair :=
  let signSize := word16 (record 4) (record 5)
  let size := if signSize = 0 then word16 (record 6) (record 7) else signSize
  let kind := if signSize = 0 then KeyPair.signatureFlag ||| KeyPair.decryptionFlag
    else KeyPair.signatureFlag
  let both := KeyPair.signatureFlag ||| KeyPair.decryptionFlag
  let pair := { old with pubFileId := (0, 0), flags := kind, sizeInBits := size, hasCert := false }
  -- RSA 1024-bits exchange keys
  if size = 0x400 ∧ kind &&& both = both then
    { pair with kid := lowByte (0x10 ||| (i + 1)), flags := kind ||| KeyPair.rsaFlag }
  -- RSA 1024-bits signature keys
  else if size = 0x400 ∧ kind &&& both = KeyPair.signatureFlag then
    { pair with kid := lowByte (0x20 ||| (i + 1)), flags := kind ||| KeyPair.rsaFlag }
  -- RSA 2048-bits exchange keys
  else if size = 0x800 ∧ kind &&& both = both then
    { pair with kid := lowByte (0x30 ||| (i + 1)), flags := kind ||| KeyPair.rsaFlag }
  -- RSA 2048-bits signature keys
  else if size = 0x800 ∧ kind &&& both = KeyPair.signatureFlag then
    { pair with kid := lowByte (0x40 ||| (i + 1)), flags := kind ||| KeyPair.rsaFlag }
  else
    pair

/-- Store the pair of record `i` in the next pool entry. -/
def addPair (i : Nat) (record : Mem) (m : Mias) : Mias :=
  let index := (m.keypairsNum + 1).toNat
  { m with
    keypairsNum := m.keypairsNum + 1
    keypairs := Function.update m.keypairs index (containerPair i record (m.keypairs index)) }

/-- One turn of the CONTAINERS_INFO loop at record `i` (a byte) and `offset` (16 bits). A failed
transmission goes on with the next record, another status or a full pool ends the loop. -/
def containerTurn (size : Nat) : Nat × Nat → Exec (Linked σ Mias) (Turn (Nat × Nat) Unit) := fun x => do
  let next := ((x.1 + 1) % 256, (x.2 + 0x0B) % 65536)
  if x.2 < size then
    if ← onApplet (readBinary T x.2 0x0B) then
      if (← onApplet (gets Applet.getStatusWord)) = swOK then
        let record ← gets fun s => s.se.response
        if record 0 ≠ 0 then
          if (keyPoolSize : Int) - 1 ≤ (← gets fun s => s.obj.keypairsNum) then
            return .stop ()
          else
            setObj (addPair x.1 record)
            return .again next
        else
          return .again next
      else
        return .stop ()
    else
      return .again next
  else
    return .stop ()

/-- The container number written in a FILE_DIR record, an `int` of the source. -/
def recordContainer (record : Mem) : Int :=
  (((record 7).toNat : Int) - 0x30) * 10 + (((record 8).toNat : Int) - 0x30)

/-- A record under "mscp" whose name starts with "kxc" or "ksc". Both kinds are linked alike. -/
def isCertificateRecord (record : Mem) : Bool :=
  record.slice 12 4 = cstr "mscp" ∧ (record.slice 4 3 = cstr "kxc" ∨ record.slice 4 3 = cstr "ksc")

/-- The first of the listed key pairs with this container number. -/
def findContainer (m : Mias) (container : Int) : Option Nat :=
  (List.range m.keypairsNum.toNat).find? fun index => (m.keypairs index).container = container

/-- Link the file of a FILE_DIR record to its key pair. -/
def linkRecord (record : Mem) (m : Mias) : Mias :=
  if isCertificateRecord record then
    match m.findContainer (recordContainer record) with
    | some index =>
        { m with
          keypairs := Function.update m.keypairs index
            { m.keypairs index with pubFileId := (record 0, record 1), hasCert := true } }
    | none => m
  else
    m

/-- The FILE_DIR loop over the remaining records. -/
def linkLoop : Nat → Nat → Exec (Linked σ Mias) Unit
  | 0, _ => pure ()
  | remaining + 1, offset => do
      if ← ok (readBinary T offset 0x15) then
        let record ← gets fun s => s.se.response
        setObj (linkRecord record)
      linkLoop remaining ((offset + 0x15) % 65536)

/-- The part of `listKeyPairs` after the key pairs are read. -/
def linkCertificates : Exec (Linked σ Mias) Unit := do
  if ← ok (selectFileLe T FILE_DIR_EF 0x15) then
    if ← ok (readBinary T 0x0000 0x01) then
      let count ← gets fun s => (s.se.response 0).toNat
      linkLoop T count 1

def listKeyPairs : Exec (Linked σ Mias) Bool := do
  if (← gets fun s => s.obj.keypairsNum) ≠ -1 then
    return true
  else if ← ok (selectFileLe T CONTAINERS_INFO_EF 0x15) then
    let length ← onApplet (gets Applet.getResponseLength)
    let tag ← gets fun s => s.se.response 0
    if 2 < length ∧ tag = SCTag.FileControlInfoFCP then
      let size ← onSE (fcpFileSize 0)
      loop (containerTurn T size) (0, 0)
      setObj fun m => { m with keypairsNum := m.keypairsNum + 1 }
      linkCertificates T
      return true
    else
      return false
  else
    return false

/-- The result is the position of the found pair in the pool. -/
def getKeyPairByContainerId (containerId : UInt8) : Exec (Linked σ Mias) (Option Nat) := do
  let _ ← listKeyPairs T
  gets fun s => s.obj.findContainer containerId.toNat

/-! ### Chunked reads -/

/-- `i`, `offset` and the output buffer of a read loop. -/
structure Cursor where
  i : Nat
  offset : Nat
  out : Mem

/-- One turn of the read loops of `getCertificateByContainerId` and `p11GetObjectByLabel`: at most
`0xEE` bytes of the file at `offset` go to position `i` of the buffer. `width` is the range of the
variable `len` that the length of the answer is stored in. A read that fails leaves `len` at the
requested length, and the loop goes on behind the chunk. -/
def chunkTurn (width size : Nat) : Cursor → Exec (Linked σ Mias) (Turn Cursor Mem) := fun x => do
  if x.i < size then
    let len := if size < x.i + 0xEE then size - x.i else 0xEE
    if ← ok (readBinary T x.offset (lowByte len)) then
      let data ← response
      let len := data.length % width
      return .again ⟨(x.i + len) % 65536, (x.offset + len) % 65536, x.out.write x.i data⟩
    else
      return .again ⟨(x.i + len) % 65536, (x.offset + len) % 65536, x.out⟩
  else
    return .stop x.out

def readChunks (width base size : Nat) (out : Mem) : Exec (Linked σ Mias) Mem := do
  note (.reading base size)
  loop (chunkTurn T width size) ⟨0, base, out⟩

/-! ### Certificates -/

/-- The result of a reader: the returned flag, the buffer if there is one, and the length variable. -/
structure Fetched where
  ok : Bool
  out : Option Mem
  len : Nat

/-- `efSize` is what the uninitialised `ef_size` holds on entry, `len` the caller's `*certLen`. -/
def getCertificateByContainerId (efSize : UInt16) (containerId : UInt8) (cert : Option Mem) (len : Nat) :
    Exec (Linked σ Mias) Fetched := do
  match ← getKeyPairByContainerId T containerId with
  | none => return ⟨false, cert, len⟩
  | some index =>
      let pair ← gets fun s => s.obj.keypairs index
      if pair.hasCert then
        if ← ok (selectFileLe T [pair.pubFileId.1, pair.pubFileId.2] 0x1C) then
          let size ← onSE (templateSize efSize.toNat)
          if size ≠ 0 then
            match cert with
            | none => return ⟨true, none, size⟩
            | some out =>
                let out ← readChunks T 256 0 size out
                -- a compressed certificate is refused
                if out 0 = 0x01 ∧ out 1 = 0x00 then
                  return ⟨false, some out, size⟩
                else
                  return ⟨true, some out, size⟩
          else
            return ⟨false, cert, len⟩
        else
          return ⟨false, cert, len⟩
      else
        return ⟨false, cert, len⟩

end Mias

end TrustOnboard
