import TrustOnboard.MiasKeys

/-! `MIAS::p11GetObjectByLabel`: the directory is read into the file pool, the `pubdat*` and
`pridat*` files under "p11" are searched for the label, and the value of the first one that carries
it is read. The 21-byte `record` on the stack is reused by every step, so it is passed along. -/

namespace TrustOnboard.Mias

open Exec Linked SEInterface

variable {σ : Type} (T : Transport σ)

/-- `sizeof(record)`. -/
def recordSize : Nat := 0x15

/-- What the uninitialised locals of `p11GetObjectByLabel` hold on entry. -/
structure P11Locals where
  record : Mem
  size : UInt16

/-- `getResponse(record)`: the returned length and the record. -/
def readRecord (record : Mem) : Exec (Linked σ Mias) (Nat × Mem) := do
  let data ← response
  check (data.length ≤ recordSize)
  return (data.length, record.write 0 data)

/-- Keep the file of a directory record in the next pool entry. -/
def storeFile (record : Mem) (m : Mias) : Mias :=
  { m with
    files := Function.update m.files m.filesNum
      { efid := word16 (record 0) (record 1), size := word16 (record 2) (record 3),
        dir := record.slice 12 8, name := record.slice 4 8 }
    filesNum := m.filesNum + 1 }

/-- The directory loop over the remaining records, from record `i` on. -/
def directoryLoop : Nat → Nat → Mem → Exec (Linked σ Mias) Mem
  | 0, _, record => pure record
  | remaining + 1, i, record => do
      if ← ok (readBinary T (1 + i * 0x15) 0x15) then
        let read ← readRecord record
        if read.1 = 0x15 then
          setObj (storeFile read.2)
          -- the entry that was written must be one of the pool
          check ((← gets fun s => s.obj.filesNum) ≤ filePoolSize)
        directoryLoop remaining (i + 1) read.2
      else
        directoryLoop remaining (i + 1) record

/-- `strcmp(dir, "p11") == 0` and the name starts with "pubdat" or "pridat". -/
def isP11Data (file : File) : Bool :=
  file.dir.take 4 = cstr "p11" ++ [0] ∧
    (file.name.take 6 = cstr "pubdat" ∨ file.name.take 6 = cstr "pridat")

/-- Read the length byte of an L-V pair. -/
def readLength (offset : Nat) (record : Mem) : Exec (Linked σ Mias) (Option UInt8 × Mem) := do
  if ← ok (readBinary T offset 0x01) then
    let read ← readRecord record
    return (if read.1 = 1 then some (read.2 0) else none, read.2)
  else
    return (none, record)

/-- One turn of the trimming loop; `trimPos` is an unsigned 16-bit number, so the test that it is not
negative holds always. -/
def trimTurn (record : Mem) : Nat → Exec (Linked σ Mias) (Turn Nat Nat) := fun trimPos => do
  check (trimPos < recordSize)
  if record trimPos = 0x20 then
    return .again ((trimPos + 65535) % 65536)
  else
    return .stop trimPos

/-- The value length in a CKA_VALUE header and the number of length bytes after the first; `initial`
is what `size` holds before. -/
def valueLength (initial : Nat) (record : Mem) : Nat × Nat :=
  if record 0 < 0x80 then
    ((record 0).toNat, 0)
  else
    let count := (record 0 &&& 0x0F).toNat
    ((List.range count).foldl (fun size i => (size * 256 + (record (1 + i)).toNat) % 65536) initial,
      count)

/-- The file carries the label: skip CKA_APPLICATION and CKA_OBJECT_ID and read CKA_VALUE. The first
component is empty when the search goes on with the next file. -/
def p11ReadValue (initial offset : Nat) (object : Option Mem) (record : Mem) :
    Exec (Linked σ Mias) (Option Fetched × Mem) := do
  match ← readLength T offset record with
  | (none, record) => return (none, record)
  | (some application, record) =>
      let offset := (offset + 1 + application.toNat) % 65536
      match ← readLength T offset record with
      | (none, record) => return (none, record)
      | (some objectId, record) =>
          let offset := (offset + 1 + objectId.toNat) % 65536
          if ← ok (readBinary T offset 0x05) then
            let read ← readRecord record
            if read.1 = 5 then
              let size := (valueLength initial read.2).1
              let offset := (offset + (valueLength initial read.2).2 + 1) % 65536
              match object with
              | none => return (some ⟨true, none, size⟩, read.2)
              | some out =>
                  let out ← readChunks T 65536 offset size out
                  return (some ⟨true, some out, size⟩, read.2)
            else
              return (none, read.2)
          else
            return (none, record)

/-- Look at one `pubdat*` or `pridat*` file. -/
def p11TryFile (initial : Nat) (label : List UInt8) (object : Option Mem) (efid : Nat) (record : Mem) :
    Exec (Linked σ Mias) (Option Fetched × Mem) := do
  if ← ok (selectFile T [highByte efid, lowByte efid]) then
    match ← readLength T 16 record with
    | (none, record) => return (none, record)
    | (some length, record) =>
        if ← ok (readBinary T 17 length) then
          let data ← response
          if data.length = length.toNat then
            -- the label and the NUL behind it must fit the record
            check (data.length < recordSize)
            let record := (record.write 0 data).write data.length [0]
            let trimPos ← loop (trimTurn record) ((data.length + 65535) % 65536)
            let trimLen := (trimPos + 1) % 65536
            if label.length = trimLen ∧ label = record.slice 0 label.length then
              p11ReadValue T initial (17 + data.length) object record
            else
              return (none, record)
          else
            return (none, record)
        else
          return (none, record)
  else
    return (none, record)

/-- The search over the remaining files of the pool, from file `j` on. -/
def p11Search (initial : Nat) (label : List UInt8) (object : Option Mem) :
    Nat → Nat → Mem → Exec (Linked σ Mias) Fetched
  | 0, _, _ => pure ⟨false, object, 0⟩
  | remaining + 1, j, record => do
      let file ← gets fun s => s.obj.files j
      if isP11Data file then
        match ← p11TryFile T initial label object file.efid record with
        | (some fetched, _) => return fetched
        | (none, record) => p11Search initial label object remaining (j + 1) record
      else
        p11Search initial label object remaining (j + 1) record

/-- The body of `p11GetObjectByLabel`. -/
def p11Lookup (locals : P11Locals) (label : List UInt8) (object : Option Mem) :
    Exec (Linked σ Mias) Fetched := do
  setObj fun m => { m with filesNum := 0 }
  if ← ok (selectFile T FILE_DIR_EF) then
    if ← ok (readBinary T 0x0000 0x01) then
      let data ← response
      check (data.length ≤ 1)
      if data.length = 1 then
        let record ← directoryLoop T (data.headD 0).toNat 0 locals.record
        let count ← gets fun s => s.obj.filesNum
        p11Search T locals.size.toNat label object count 0 record
      else
        return ⟨false, object, 0⟩
    else
      return ⟨false, object, 0⟩
  else
    return ⟨false, object, 0⟩

def p11GetObjectByLabel (locals : P11Locals) (label : List UInt8) (object : Option Mem) :
    Exec (Linked σ Mias) Fetched := do
  note .p11Enter
  let fetched ← p11Lookup T locals label object
  note .p11Leave
  return fetched

end TrustOnboard.Mias
