import TrustOnboard.EngineModel

/-! `TrustOnboardTool`: the options, and the three extractions, each of which asks for sizes, allocates and reads. The SDK,
the allocator and the files that can be opened are parameters. The build is the one without `OPENSSL_SUPPORT`, which
would add the two common names to the JSON object; what goes to `stderr` is left out. -/

namespace TrustOnboard.TrustOnboardTool

open Exec Sdk

/-! ### Options -/

/-- What `getopt_long` delivers. -/
inductive Opt where
  | device (optarg : List UInt8)
  | baudrate (optarg : List UInt8)
  | pin (optarg : List UInt8)
  | availableCert (optarg : List UInt8)
  | availableKey (optarg : List UInt8)
  | signingCert (optarg : List UInt8)
  | json
  | other

/-- The variables that the options set. -/
structure Settings where
  device : Option (List UInt8)
  baudrate : Int
  pin : Option (List UInt8)
  certPath : Option (List UInt8)
  pkPath : Option (List UInt8)
  signingCertPath : Option (List UInt8)
  printJson : Bool

def Settings.initial : Settings := ⟨none, 115200, none, none, none, none, false⟩

def MAX_BAUDRATE : Int := 4000000

def isSpace (c : UInt8) : Bool := c = 0x20 ∨ (0x09 ≤ c ∧ c ≤ 0x0D)

def isDigit (c : UInt8) : Bool := 0x30 ≤ c ∧ c ≤ 0x39

/-- `strtol(text, nullptr, 10)`, a `long` being of 64 bits. -/
def strtol (text : List UInt8) : Int :=
  let rest := text.dropWhile isSpace
  let digits := if rest.head? = some 0x2D ∨ rest.head? = some 0x2B then rest.drop 1 else rest
  let value : Int := (digits.takeWhile isDigit).foldl (fun n c => n * 10 + (c.toNat - 0x30)) 0
  max (-0x8000000000000000) (min 0x7FFFFFFFFFFFFFFF (if rest.head? = some 0x2D then -value else value))

/-- One option; an invalid one ends the program. -/
def Settings.take (settings : Settings) : Opt → Option Settings
  | .device optarg => some { settings with device := some optarg }
  | .baudrate optarg =>
      if strtol optarg < 0 ∨ MAX_BAUDRATE ≤ strtol optarg then none
      else some { settings with baudrate := strtol optarg }
  | .pin optarg => some { settings with pin := some optarg }
  | .availableCert optarg => some { settings with certPath := some optarg }
  | .availableKey optarg => some { settings with pkPath := some optarg }
  | .signingCert optarg => some { settings with signingCertPath := some optarg }
  | .json => some { settings with printJson := true }
  | .other => none

def readSettings (opts : List Opt) : Option Settings := opts.foldlM Settings.take .initial

/-! ### Extraction -/

/-- What the program is run on. `malloc` is by the number of the call, and `fopen` whether a file can be opened for
writing. -/
structure Host where
  malloc : Nat → Int → Option Mem
  fopen : List UInt8 → Bool

/-- The texts of the JSON object. -/
structure Json where
  availableCertificate : List UInt8
  availablePkey : List UInt8
  signingCertificate : List UInt8
  deriving DecidableEq, Repr

/-- The state of the SDK and everything else, the files in the order in which they were written, and what was printed. -/
structure Tool (ε : Type) where
  env : ε
  files : List (List UInt8 × List UInt8)
  printed : Option Json

section Main

variable {ε : Type} (tob : Tob ε) (host : Host)

def envLens : Lens (Tool ε) ε where
  get s := s.env
  set env s := { s with env }
  get_set _ _ := rfl
  set_get _ := rfl
  set_set _ _ _ := rfl

def outside {α : Type} (program : Exec ε α) : Exec (Tool ε) α := zoom envLens program

/-- Write a file if there is a path for it. -/
def writeFile (path : Option (List UInt8)) (content : List UInt8) : Exec (Tool ε) Bool := do
  match path with
  | none => return true
  | some name =>
      if host.fopen name then
        modify fun s => { s with files := s.files ++ [(name, content)] }
        return true
      else
        return false

/-- The available certificate, or the exit code. -/
def availableCertificate (settings : Settings) (pin : List UInt8) : Exec (Tool ε) (Except Int (List UInt8)) := do
  let query ← outside (tob.tobExtractAvailableCertificate none 0 (some pin))
  if query.ret ≠ 0 then
    return .error 1
  else
    match host.malloc 0 query.size with
    | none => return .error 1
    | some cert =>
        let got ← outside (tob.tobExtractAvailableCertificate (some cert) query.size (some pin))
        if got.ret ≠ 0 then
          return .error 1
        else
          let text := (got.out.getD cert).slice 0 got.size.toNat
          if ← writeFile host settings.certPath text then
            return .ok text
          else
            return .error (-1)

/-- The part that the private key and the signing certificate share: a DER and a PEM buffer, the blocks `block` and
`block + 1`; `failed` is the exit code where the read fails. -/
def extractPem (extract : Option Mem → Option Int → Option Mem → Int → Exec ε PemExtract) (block : Nat) (failed : Int)
    (path : Option (List UInt8)) : Exec (Tool ε) (Except Int (List UInt8)) := do
  let query ← outside (extract none (some 0) none 0)
  if query.ret ≠ 0 then
    return .error (-1)
  else
    let size := query.pemSize.getD 0
    match host.malloc block size, host.malloc (block + 1) query.derSize with
    | some pem, some der =>
        let got ← outside (extract (some pem) (some size) (some der) query.derSize)
        if got.ret ≠ 0 then
          return .error failed
        else
          let text := (got.pem.getD pem).slice 0 (got.pemSize.getD 0).toNat
          if ← writeFile host path text then
            return .ok text
          else
            return .error (-1)
    | _, _ => return .error 1

def availablePrivateKey (settings : Settings) (pin : List UInt8) : Exec (Tool ε) (Except Int (List UInt8)) :=
  extractPem host (fun pem pemSize der derSize => tob.tobExtractAvailablePrivateKey pem pemSize der derSize (some pin)) 1 1
    settings.pkPath

def signingCertificate (settings : Settings) (pin : List UInt8) : Exec (Tool ε) (Except Int (List UInt8)) :=
  extractPem host (fun pem pemSize der derSize =>
    tob.tobExtractSigningCertificate pem pemSize der derSize (some pin)) 3 (-1)
    settings.signingCertPath

/-- `main` behind the options. -/
def extractAll (settings : Settings) (device pin : List UInt8) : Exec (Tool ε) Int := do
  let _ ← outside (tob.tobInitialize (some device) settings.baudrate)
  match ← availableCertificate tob host settings pin with
  | .error code => return code
  | .ok cert =>
      match ← availablePrivateKey tob host settings pin with
      | .error code => return code
      | .ok pk =>
          match ← signingCertificate tob host settings pin with
          | .error code => return code
          | .ok signingCert =>
              if settings.printJson then
                modify fun s => { s with printed := some ⟨cert, pk, signingCert⟩ }
                return 0
              else
                return 0

/-- `main`; the result is the exit code. -/
def main (opts : List Opt) : Exec (Tool ε) Int := do
  match readSettings opts with
  | none => return 1
  | some settings =>
      match settings.device, settings.pin with
      | some device, some pin => extractAll tob host settings device pin
      | _, _ => return 1

end Main

end TrustOnboard.TrustOnboardTool
