import Mathlib.Data.List.Induction
import TrustOnboard.MiasCard

/-! Object lookup on a well-formed card. The files of the card are described by their fields; what the
lookup returns is read off the description: the value of the first object whose label, without the
spaces behind it, is the requested one. -/

namespace TrustOnboard.Mias

open Exec Linked SEInterface

/-! ### Well-formed object files -/

/-- The fields of a CKO_DATA file. `long` is whether the length of the value is written as `82 hh ll`. -/
structure P11Fields where
  header : List UInt8
  label : List UInt8
  application : List UInt8
  objectId : List UInt8
  long : Bool
  value : List UInt8
  slack : List UInt8

/-- A field behind its length. -/
def lengthValue (field : List UInt8) : List UInt8 := lowByte field.length :: field

/-- A text without the spaces behind it. -/
def trimSpaces (text : List UInt8) : List UInt8 := (text.reverse.dropWhile (· = 0x20)).reverse

namespace P11Fields

variable (file : P11Fields)

/-- The length of the value. -/
def valueHeader : List UInt8 :=
  if file.long then [0x82, highByte file.value.length, lowByte file.value.length]
  else [lowByte file.value.length]

/-- What stands before the value header. -/
def front : List UInt8 :=
  file.header ++ lengthValue file.label ++ lengthValue file.application ++ lengthValue file.objectId

def content : List UInt8 := file.front ++ file.valueHeader ++ file.value ++ file.slack

/-- The offset of the value. -/
def valueStart : Nat := (file.front ++ file.valueHeader).length

/-- The label without the spaces behind it. -/
def trimmed : List UInt8 := trimSpaces file.label

end P11Fields

/-- A well-formed CKO_DATA file. -/
structure P11File extends P11Fields where
  header_length : header.length = 16
  label_length : 1 ≤ label.length ∧ label.length ≤ 20
  label_letter : ∃ c ∈ label, c ≠ 0x20
  application_length : application.length < 256
  objectId_length : objectId.length < 256
  value_length : long = false → value.length < 0x80
  value_present : 5 ≤ (toP11Fields.valueHeader ++ value ++ slack).length
  content_length : toP11Fields.content.length < 32768

/-! ### Well-formed directories -/

/-- A record of an object: its directory is "p11", its name starts with "pubdat" or "pridat". -/
def IsObjectRecord (record : List UInt8) : Prop :=
  nameOf ((record.drop 12).take 8) = cstr "p11" ∧
    (cstr "pubdat" <+: nameOf ((record.drop 4).take 8) ∨ cstr "pridat" <+: nameOf ((record.drop 4).take 8))

instance (record : List UInt8) : Decidable (IsObjectRecord record) := inferInstanceAs (Decidable (_ ∧ _))

/-- The files of a card: the records of FILE_DIR, the contents by file id, and the fields of the object
files. -/
structure P11Image where
  records : List (List UInt8)
  slack : List UInt8
  contents : Nat → List UInt8
  file : Nat → P11File
  records_few : records.length ≤ filePoolSize
  record_length : ∀ record ∈ records, record.length = 0x15
  directory : contents directoryId = lowByte records.length :: records.flatten ++ slack
  directory_length : (contents directoryId).length < 32768
  objects : ∀ record ∈ records, IsObjectRecord record →
    contents (efidOf record) = (file (efidOf record)).content

namespace P11Image

variable {σ : Type} (image : P11Image)

/-- Reads may be short inside the value of an object. -/
def MayBeShort (efid offset : Nat) : Prop := efid ≠ directoryId ∧ (image.file efid).valueStart ≤ offset

/-- The card behind the transport has the files of the image. -/
structure ServedBy (T : Transport σ) (channel : UInt8) (current : σ → Nat) : Prop where
  reads : Serves T channel image.contents current image.MayBeShort
  selects : ∀ card efid, (efid = directoryId ∨ ∃ record ∈ image.records, IsObjectRecord record ∧
      efidOf record = efid) →
    ∃ data card', Settles T card (selectApdu channel efid) (data ++ [0x90, 0x00]) card' ∧ current card' = efid

/-- The record is one of an object with this label. -/
def Carries (label record : List UInt8) : Prop :=
  IsObjectRecord record ∧ (image.file (efidOf record)).trimmed = label

instance (label record : List UInt8) : Decidable (image.Carries label record) := inferInstanceAs (Decidable (_ ∧ _))

/-- The first object in directory order with this label. -/
def lookup (label : List UInt8) : Option P11File :=
  (image.records.find? fun record => image.Carries label record).map fun record => image.file (efidOf record)

end P11Image

/-! ### The file pool -/

/-- The pool entry of a record. -/
def fileOf (record : List UInt8) : File :=
  { efid := efidOf record, size := word16 (record.getD 2 0) (record.getD 3 0),
    dir := (record.drop 12).take 8, name := (record.drop 4).take 8 }

theorem isP11Data_fileOf {record : List UInt8} (hlen : record.length = 0x15) :
    isP11Data (fileOf record) = true ↔ IsObjectRecord record := by
  have hdir : (cstr "p11").length < ((record.drop 12).take 8).length := by
    rw [List.length_take, List.length_drop, hlen]
    decide
  rw [isP11Data, decide_eq_true_eq, IsObjectRecord, nameOf_eq_iff (by decide) hdir,
    nameOf_starts_iff (by decide), nameOf_starts_iff (by decide)]
  rfl

theorem storeFile_write {record : List UInt8} (hlen : record.length = 0x15) (memory : Mem) (m : Mias) :
    storeFile (memory.write 0 record) m =
      { m with files := Function.update m.files m.filesNum (fileOf record), filesNum := m.filesNum + 1 } := by
  have hbyte : ∀ i, i < 4 → (memory.write 0 record) i = record.getD i 0 := by
    intro i hi
    rw [Mem.write_of_mem (Nat.zero_le i) (by omega), Nat.sub_zero]
  rw [storeFile, hbyte 0 (by decide), hbyte 1 (by decide), hbyte 2 (by decide), hbyte 3 (by decide),
    Mem.slice_write_drop memory (by omega), Mem.slice_write_drop memory (by omega)]
  rfl

/-! ### Reading fields -/

section Fields

variable {σ : Type} {T : Transport σ} {channel : UInt8} {contents : Nat → List UInt8} {current : σ → Nat}
  {short : Nat → Nat → Prop} {efid offset : Nat} {m : Mias} {s : Linked σ Mias} {front field back : List UInt8}

theorem readRecord_yields (hready : Ready channel s.obj) {data : List UInt8}
    (hholds : Holds s.se (data ++ [0x90, 0x00])) (hlen : data.length ≤ recordSize) (record : Mem) :
    Yields (readRecord record) s (data.length, record.write 0 data) (· = s) := by
  apply (response_yields hready hholds).bind
  intro s' hs'
  subst hs'
  exact .check_bind hlen (.pure rfl)

theorem readLength_yields (h : Serves T channel contents current short) (hready : Ready channel m)
    (hs : Rests current efid m s) {c : UInt8} (hcontent : contents efid = front ++ [c] ++ back)
    (hsize : (contents efid).length < 32768) (hoffset : offset = front.length) (hfirm : ¬short efid offset)
    (record : Mem) :
    Yields (readLength T offset record) s (some c, record.write 0 [c]) (Rests current efid m) := by
  have hle : (0x01 : UInt8).toNat = [c].length := rfl
  have hread := h.readField hready hs hcontent hsize hoffset hle Nat.one_pos hfirm
  apply hread.bind
  intro s' hs'
  rw [if_pos rfl]
  apply (readRecord_yields (hs'.1.obj_eq ▸ hready) hs'.2 (by simp [recordSize]) record).bind
  intro s'' hs''
  subst hs''
  exact .pure hs'.1

end Fields

/-! ### Labels -/

theorem trimSpaces_space (text : List UInt8) : trimSpaces (text ++ [0x20]) = trimSpaces text := by
  simp [trimSpaces]

theorem trimSpaces_letter (text : List UInt8) {c : UInt8} (hc : c ≠ 0x20) :
    trimSpaces (text ++ [c]) = text ++ [c] := by
  simp [trimSpaces, hc]

theorem trimSpaces_isPrefix (text : List UInt8) : trimSpaces text <+: text := by
  have hsuffix := List.dropWhile_suffix (l := text.reverse) (fun c : UInt8 => decide (c = 0x20))
  simpa [trimSpaces] using List.reverse_prefix.mpr hsuffix

theorem trimSpaces_length_pos {text : List UInt8} (h : ∃ c ∈ text, c ≠ 0x20) : 0 < (trimSpaces text).length := by
  induction text using List.reverseRecOn with
  | nil =>
      obtain ⟨c, hmem, _⟩ := h
      cases hmem
  | append_singleton text c ih =>
      by_cases hc : c = 0x20
      · subst hc
        rw [trimSpaces_space]
        apply ih
        obtain ⟨d, hmem, hd⟩ := h
        rcases List.mem_append.mp hmem with hmem | hmem
        · exact ⟨d, hmem, hd⟩
        · exact absurd (List.mem_singleton.mp hmem) hd
      · rw [trimSpaces_letter text hc]
        simp

/-- The trimming loop stops at the last character that is no space. -/
theorem trim_cycles {σ : Type} {s : Linked σ Mias} {text : List UInt8} {record : Mem}
    (hletter : ∃ c ∈ text, c ≠ 0x20) (hlen : text.length ≤ recordSize)
    (hrecord : ∀ i, i < text.length → record i = text.getD i 0) :
    Cycles (trimTurn record) (text.length - 1) s ((trimSpaces text).length - 1) (· = s) := by
  induction text using List.reverseRecOn with
  | nil =>
      obtain ⟨c, hmem, _⟩ := hletter
      cases hmem
  | append_singleton text c ih =>
      rw [List.length_append, List.length_singleton, Nat.add_sub_cancel] at *
      have hlast : record text.length = c := by
        rw [hrecord text.length (by omega)]
        simp [List.getD_eq_getElem?_getD]
      by_cases hc : c = 0x20
      · subst hc
        rw [trimSpaces_space]
        have hletter' : ∃ c ∈ text, c ≠ 0x20 := by
          obtain ⟨d, hmem, hd⟩ := hletter
          rcases List.mem_append.mp hmem with hmem | hmem
          · exact ⟨d, hmem, hd⟩
          · exact absurd (List.mem_singleton.mp hmem) hd
        have hpos : 0 < text.length := by
          obtain ⟨d, hmem, _⟩ := hletter'
          exact List.length_pos_of_mem hmem
        have hturn : Yields (trimTurn record text.length) s (.again (text.length - 1)) (· = s) := by
          apply Yields.check_bind (by omega)
          rw [if_pos hlast]
          have hwrap : (text.length + 65535) % 65536 = text.length - 1 := by
            simp only [recordSize] at hlen
            omega
          rw [hwrap]
          exact .pure rfl
        refine .again hturn ?_
        rintro s' rfl
        apply ih hletter' (by omega)
        intro i hi
        rw [hrecord i (by omega)]
        simp [List.getD_eq_getElem?_getD, List.getElem?_append_left hi]
      · rw [trimSpaces_letter text hc, List.length_append, List.length_singleton, Nat.add_sub_cancel]
        apply Cycles.stop
        apply Yields.check_bind (by omega)
        rw [if_neg (by rw [hlast]; exact hc)]
        exact .pure rfl

/-! ### Object files -/

/-- The result of a lookup that ends at this object. -/
def found (object : Option Mem) (value : List UInt8) : Fetched :=
  ⟨true, object.map fun out => out.write 0 value, value.length⟩

section Files

variable {σ : Type} {T : Transport σ} {channel : UInt8} {contents : Nat → List UInt8} {current : σ → Nat}
  {short : Nat → Nat → Prop} {efid : Nat} {m : Mias} {s : Linked σ Mias}

theorem P11Fields.valueStart_eq (file : P11Fields) :
    file.valueStart = file.front.length + file.valueHeader.length := List.length_append

theorem P11Fields.valueHeader_length (file : P11Fields) :
    file.valueHeader.length = if file.long then 3 else 1 := by
  unfold P11Fields.valueHeader
  split <;> rfl

theorem P11Fields.content_eq (file : P11Fields) :
    file.content.length = file.valueStart + file.value.length + file.slack.length := by
  simp only [P11Fields.content, P11Fields.valueStart, List.length_append]

theorem P11Fields.front_length (file : P11Fields) :
    file.front.length =
      file.header.length + (1 + file.label.length) + (1 + file.application.length) + (1 + file.objectId.length) := by
  simp only [P11Fields.front, lengthValue, List.length_append, List.length_cons]
  omega

theorem valueLength_short {initial n : Nat} {record : Mem} (hfirst : record 0 = lowByte n) (hn : n < 0x80) :
    valueLength initial record = (n, 0) := by
  have htoNat : (lowByte n).toNat = n := by
    rw [lowByte, UInt8.toNat_ofNat']
    omega
  have hlt : lowByte n < 0x80 := by
    rw [UInt8.lt_iff_toNat_lt, htoNat]
    exact hn
  rw [valueLength, hfirst, if_pos hlt, htoNat]

/-- Two length bytes replace all of what `size` held before. -/
theorem valueLength_long {initial n : Nat} {record : Mem} (hfirst : record 0 = 0x82)
    (hhigh : record 1 = highByte n) (hlow : record 2 = lowByte n) (hn : n < 65536) :
    valueLength initial record = (n, 2) := by
  have hword := word16_bytes hn
  rw [word16] at hword
  have hcount : ((0x82 : UInt8) &&& 0x0F).toNat = 2 := by decide
  have hrange : List.range 2 = [0, 1] := by decide
  rw [valueLength, hfirst, if_neg (by decide)]
  simp only [hcount, hrange, List.foldl_cons, List.foldl_nil, Nat.add_zero, Nat.reduceAdd, hhigh, hlow,
    Prod.mk.injEq, and_true]
  omega

/-- The length of the value is read off the first bytes of its header. -/
theorem valueLength_eq (file : P11File) (initial : Nat) (record : Mem) :
    valueLength initial (record.write 0 ((file.valueHeader ++ file.value ++ file.slack).take 5)) =
      (file.value.length, file.valueHeader.length - 1) := by
  have hsize := file.content_length
  rw [P11Fields.content_eq] at hsize
  have hpresent := file.value_present
  have hbyte : ∀ i, i < file.valueHeader.length →
      (record.write 0 ((file.valueHeader ++ file.value ++ file.slack).take 5)) i = file.valueHeader.getD i 0 := by
    intro i hi
    have hheader := file.valueHeader_length
    have hfive : i < 5 := by split at hheader <;> omega
    rw [Mem.write_of_mem (Nat.zero_le i) (by rw [List.length_take]; omega), Nat.sub_zero,
      List.getD_eq_getElem?_getD, List.getElem?_take_of_lt hfive, List.append_assoc,
      List.getElem?_append_left hi, List.getD_eq_getElem?_getD]
  generalize record.write 0 ((file.valueHeader ++ file.value ++ file.slack).take 5) = record at hbyte ⊢
  rcases hlong : file.long with _ | _
  · have hheader : file.valueHeader = [lowByte file.value.length] := by simp [P11Fields.valueHeader, hlong]
    rw [hheader] at hbyte ⊢
    exact valueLength_short (hbyte 0 Nat.one_pos) (file.value_length hlong)
  · have hheader : file.valueHeader = [0x82, highByte file.value.length, lowByte file.value.length] := by
      simp [P11Fields.valueHeader, hlong]
    rw [hheader] at hbyte ⊢
    exact valueLength_long (hbyte 0 (by simp)) (hbyte 1 (by simp)) (hbyte 2 (by simp)) (by omega)

/-- Behind the label, the application and the object id are skipped and the value is read. -/
theorem p11ReadValue_attains (h : Serves T channel contents current short) (hready : Ready channel m)
    (hs : Rests current efid m s) (file : P11File) (hcontent : contents efid = file.content)
    (hfirm : ∀ offset, offset < file.valueStart → ¬short efid offset) (initial : Nat) (object : Option Mem)
    (record : Mem) :
    Attains (p11ReadValue T initial (17 + file.label.length) object record) s
      fun result s' => Rests current efid m s' ∧ result.1 = some (found object file.value) := by
  have hsize : (contents efid).length < 32768 := by
    rw [hcontent]
    exact file.content_length
  have hlength : (contents efid).length = file.valueStart + file.value.length + file.slack.length := by
    rw [hcontent, P11Fields.content_eq]
  have hstart := file.valueStart_eq
  have hfront := file.front_length
  rw [file.header_length] at hfront
  have hheader : 1 ≤ file.valueHeader.length := by
    rw [file.valueHeader_length]
    split <;> decide
  -- CKA_APPLICATION
  have happlication : contents efid = (file.header ++ lengthValue file.label) ++
      [lowByte file.application.length] ++ (file.application ++ lengthValue file.objectId ++ file.valueHeader ++
        file.value ++ file.slack) := by
    simp [hcontent, P11Fields.content, P11Fields.front, lengthValue]
  apply (readLength_yields h hready hs happlication hsize (by simp [file.header_length, lengthValue]; omega)
    (hfirm _ (by omega)) record).bind_attains
  intro s₁ hs₁
  -- CKA_OBJECT_ID
  have hobjectId : contents efid = (file.header ++ lengthValue file.label ++ lengthValue file.application) ++
      [lowByte file.objectId.length] ++ (file.objectId ++ file.valueHeader ++ file.value ++ file.slack) := by
    simp [hcontent, P11Fields.content, P11Fields.front, lengthValue]
  have hskip : (17 + file.label.length + 1 + file.application.length) % 65536 =
      17 + file.label.length + 1 + file.application.length := Nat.mod_eq_of_lt (by omega)
  simp only [toNat_lowByte file.application_length, hskip]
  apply (readLength_yields h hready hs₁ hobjectId hsize (by simp [file.header_length, lengthValue]; omega)
    (hfirm _ (by omega)) _).bind_attains
  intro s₂ hs₂
  -- CKA_VALUE
  have hskip' : (17 + file.label.length + 1 + file.application.length + 1 + file.objectId.length) % 65536 =
      file.front.length := by
    rw [Nat.mod_eq_of_lt (by omega)]
    omega
  simp only [toNat_lowByte file.objectId_length, hskip']
  have hpresent := file.value_present
  have hvalue : contents efid = file.front ++ (file.valueHeader ++ file.value ++ file.slack).take 5 ++
      (file.valueHeader ++ file.value ++ file.slack).drop 5 := by
    rw [List.append_assoc, List.take_append_drop, hcontent]
    simp [P11Fields.content]
  have hfive : ((file.valueHeader ++ file.value ++ file.slack).take 5).length = 5 := by
    rw [List.length_take]
    omega
  have hle : (0x05 : UInt8).toNat = ((file.valueHeader ++ file.value ++ file.slack).take 5).length := hfive.symm
  apply (h.readField hready hs₂ hvalue hsize rfl hle (by omega) (hfirm _ (by omega))).bind_attains
  intro s₃ hs₃
  rw [if_pos rfl]
  apply (readRecord_yields (hs₃.1.obj_eq ▸ hready) hs₃.2 (by rw [hfive]; decide) _).bind_attains
  intro s₄ hs₄
  subst hs₄
  simp only [if_pos hfive, valueLength_eq]
  cases object with
  | none => exact .pure ⟨hs₃.1, rfl⟩
  | some out =>
      have hbody : contents efid = (file.front ++ file.valueHeader) ++ file.value ++ file.slack := by
        simp [hcontent, P11Fields.content]
      have hwidth : 0xEE < 65536 := by decide
      have hread := h.readChunks hready hs₃.1 hbody hsize rfl hwidth out
      have hoffset : (file.front.length + (file.valueHeader.length - 1) + 1) % 65536 =
          (file.front ++ file.valueHeader).length := by
        rw [List.length_append, Nat.mod_eq_of_lt (by omega)]
        omega
      simp only [hoffset]
      apply hread.bind_attains
      intro s₅ hs₅
      exact .pure ⟨hs₅, rfl⟩

/-- The comparison behind the trimming loop. -/
theorem label_test_iff {label text : List UInt8} (record : Mem) :
    (label.length = (trimSpaces text).length ∧
      label = ((record.write 0 text).write text.length [0]).slice 0 label.length) ↔ trimSpaces text = label := by
  have hprefix := trimSpaces_isPrefix text
  have hslice : ∀ count, count = (trimSpaces text).length →
      ((record.write 0 text).write text.length [0]).slice 0 count = trimSpaces text := by
    rintro count rfl
    rw [Mem.slice_write_behind _ _ (by have := hprefix.length_le; omega),
      Mem.slice_write_take _ _ hprefix.length_le, ← List.prefix_iff_eq_take.mp hprefix]
  constructor
  · rintro ⟨hlen, heq⟩
    rw [heq, hslice _ hlen]
  · intro heq
    rw [hslice _ (by rw [heq]), heq]
    exact ⟨rfl, rfl⟩

theorem selectFile_yields (hready : Ready channel s.obj) {data : List UInt8} {card : σ}
    (h : Settles T s.se.card (selectApdu channel efid) (data ++ [0x90, 0x00]) card) (hcurrent : current card = efid) :
    Yields (ok (selectFile T [highByte efid, lowByte efid])) s true (Rests current efid s.obj) := by
  have hfits : 5 + [highByte efid, lowByte efid].length ≤ apduSize := by
    show 5 + 2 ≤ apduSize
    decide
  refine (transmitCase3_yields hready hfits h).mono ?_
  rintro s' ⟨hobj, hcard, _⟩
  exact ⟨hobj, by rw [hcard]; exact hcurrent⟩

/-- One file: it is the object if its label is the requested one. -/
theorem p11TryFile_attains (h : Serves T channel contents current short)
    (hselect : ∀ card, ∃ data card', Settles T card (selectApdu channel efid) (data ++ [0x90, 0x00]) card' ∧
      current card' = efid) (hready : Ready channel s.obj) (file : P11File)
    (hcontent : contents efid = file.content)
    (hfirm : ∀ offset, offset < file.valueStart → ¬short efid offset) (initial : Nat) (label : List UInt8)
    (object : Option Mem) (record : Mem) :
    Attains (p11TryFile T initial label object efid record) s fun result s' => s'.obj = s.obj ∧
      result.1 = if file.trimmed = label then some (found object file.value) else none := by
  have hsize : (contents efid).length < 32768 := by
    rw [hcontent]
    exact file.content_length
  have hstart := file.valueStart_eq
  have hfront := file.front_length
  rw [file.header_length] at hfront
  obtain ⟨hlow, hhigh⟩ := file.label_length
  have htoNat : (lowByte file.label.length).toNat = file.label.length := toNat_lowByte (by omega)
  obtain ⟨data, card, hsettles, hcurrent⟩ := hselect s.se.card
  apply (selectFile_yields hready hsettles hcurrent).bind_attains
  intro s₁ hs₁
  rw [if_pos rfl]
  -- the length of the label, and the label
  have hlength : contents efid = file.header ++ [lowByte file.label.length] ++ (file.label ++
      lengthValue file.application ++ lengthValue file.objectId ++ file.valueHeader ++ file.value ++
        file.slack) := by
    simp [hcontent, P11Fields.content, P11Fields.front, lengthValue]
  apply (readLength_yields h hready hs₁ hlength hsize file.header_length.symm (hfirm _ (by omega)) record).bind_attains
  intro s₂ hs₂
  have hlabel : contents efid = (file.header ++ [lowByte file.label.length]) ++ file.label ++
      (lengthValue file.application ++ lengthValue file.objectId ++ file.valueHeader ++ file.value ++
        file.slack) := by
    simp [hcontent, P11Fields.content, P11Fields.front, lengthValue]
  dsimp only
  apply (h.readField hready hs₂ hlabel hsize (by simp [file.header_length]) htoNat hlow
    (hfirm _ (by omega))).bind_attains
  intro s₃ hs₃
  rw [if_pos rfl]
  apply (response_yields (hs₃.1.obj_eq ▸ hready) hs₃.2).bind_attains
  intro s₄ hs₄
  subst hs₄
  rw [if_pos htoNat.symm]
  apply Attains.check_bind (by simp only [recordSize]; omega)
  -- the spaces behind the label
  have hwrap : (file.label.length + 65535) % 65536 = file.label.length - 1 := by omega
  have hpos := trimSpaces_length_pos file.label_letter
  have hle := (trimSpaces_isPrefix file.label).length_le
  have htrim : ∀ memory : Mem, Cycles (trimTurn ((memory.write 0 file.label).write file.label.length [0]))
      (file.label.length - 1) s₄ ((trimSpaces file.label).length - 1) (· = s₄) := by
    intro memory
    apply trim_cycles file.label_letter (by simp only [recordSize]; omega)
    intro i hi
    rw [Mem.write_of_lt hi, Mem.write_of_mem (Nat.zero_le i) (by omega), Nat.sub_zero]
  have hcut : ((trimSpaces file.label).length - 1 + 1) % 65536 = (trimSpaces file.label).length := by omega
  simp only [hwrap]
  apply (htrim _).loop.bind_attains
  intro s₅ hs₅
  subst hs₅
  simp only [hcut]
  by_cases hmatch : file.trimmed = label
  · rw [if_pos ((label_test_iff _).mpr hmatch), if_pos hmatch]
    obtain ⟨result, s₆, hrun, hs₆, hfound⟩ := p11ReadValue_attains h hready hs₃.1 file hcontent hfirm initial object
      (((record.write 0 [lowByte file.label.length]).write 0 file.label).write file.label.length [0])
    exact ⟨result, s₆, hrun, hs₆.obj_eq, hfound⟩
  · rw [if_neg (fun htest => hmatch ((label_test_iff _).mp htest)), if_neg hmatch]
    exact .pure ⟨hs₃.1.obj_eq, rfl⟩

end Files

/-! ### The directory -/

section Lookup

variable {σ : Type} {T : Transport σ} {image : P11Image} {channel : UInt8} {current : σ → Nat}
  {s : Linked σ Mias}

/-- The pool holds the files of these records. -/
structure Listed (channel : UInt8) (records : List (List UInt8)) (m : Mias) : Prop where
  ready : Ready channel m
  filesNum_eq : m.filesNum = records.length
  files_eq : ∀ j, j < records.length → m.files j = fileOf (records.getD j [])

theorem Listed.store {records : List (List UInt8)} {m : Mias} (h : Listed channel records m)
    (record : List UInt8) :
    Listed channel (records ++ [record])
      { m with files := Function.update m.files m.filesNum (fileOf record), filesNum := m.filesNum + 1 } where
  ready := h.ready.congr rfl
  filesNum_eq := by simp [h.filesNum_eq]
  files_eq := by
    intro j hj
    rw [List.length_append, List.length_singleton] at hj
    by_cases hlast : j = records.length
    · subst hlast
      simp [← h.filesNum_eq, List.getD_eq_getElem?_getD]
    · have hlt : j < records.length := by omega
      have hne : j ≠ m.filesNum := by
        rw [h.filesNum_eq]
        exact hlast
      show Function.update m.files m.filesNum (fileOf record) j = _
      rw [Function.update_of_ne hne, h.files_eq j hlt, List.getD_eq_getElem?_getD, List.getD_eq_getElem?_getD,
        List.getElem?_append_left hlt]

/-- The directory loop lists the records that are left. -/
theorem directoryLoop_attains (h : image.ServedBy T channel current) {done left : List (List UInt8)}
    (hrecords : image.records = done ++ left) (hlisted : Listed channel done s.obj)
    (hcurrent : current s.se.card = directoryId) (record : Mem) :
    Attains (directoryLoop T left.length done.length record) s
      fun _ s' => Listed channel image.records s'.obj := by
  induction left generalizing done s record with
  | nil =>
      rw [List.append_nil] at hrecords
      rw [hrecords]
      exact .pure hlisted
  | cons next left ih =>
      obtain ⟨hnext, front, behind, hcontent, hoffset⟩ := directory_record image.slack image.record_length hrecords
      rw [← image.directory] at hcontent
      have hle : (0x15 : UInt8).toNat = next.length := by
        rw [hnext]
        rfl
      have hread := h.reads.readField hlisted.ready ⟨rfl, hcurrent⟩ hcontent image.directory_length hoffset hle
        (by omega) (fun hshort => hshort.1 rfl)
      have hfew := image.records_few
      rw [hrecords, List.length_append, List.length_cons] at hfew
      apply hread.bind_attains
      intro s₁ hs₁
      obtain ⟨⟨hobj, hcurrent₁⟩, hholds⟩ := hs₁
      rw [if_pos rfl]
      have hready : Ready channel s₁.obj := hobj ▸ hlisted.ready
      apply (readRecord_yields hready hholds (by rw [hnext]; decide) record).bind_attains
      rintro s₂ rfl
      rw [if_pos hnext]
      have hstored : Listed channel (done ++ [next]) (storeFile (record.write 0 next) s₂.obj) := by
        rw [storeFile_write hnext, hobj]
        exact hlisted.store next
      apply Attains.modify_bind
      apply Attains.gets_bind
      have hroom : (storeFile (record.write 0 next) s₂.obj).filesNum ≤ filePoolSize := by
        rw [hstored.filesNum_eq, List.length_append, List.length_singleton]
        omega
      apply Attains.check_bind hroom
      have hrest := ih (s := ⟨s₂.se, storeFile (record.write 0 next) s₂.obj⟩) (by rw [hrecords]; simp) hstored
        hcurrent₁ (record.write 0 next)
      rw [List.length_append, List.length_singleton] at hrest
      exact hrest

/-- The search goes through the records that are left. -/
theorem p11Search_attains (h : image.ServedBy T channel current) {done left : List (List UInt8)}
    (hrecords : image.records = done ++ left) (hlisted : Listed channel image.records s.obj) (initial : Nat)
    (label : List UInt8) (object : Option Mem) (record : Mem) :
    Attains (p11Search T initial label object left.length done.length record) s fun fetched _ =>
      fetched = match left.find? fun record => image.Carries label record with
        | some record => found object (image.file (efidOf record)).value
        | none => ⟨false, object, 0⟩ := by
  induction left generalizing done s record with
  | nil => exact .pure rfl
  | cons next left ih =>
      have hmem : next ∈ image.records := by
        rw [hrecords]
        simp
      have hfile : s.obj.files done.length = fileOf next := by
        rw [hlisted.files_eq done.length (by rw [hrecords]; simp), hrecords]
        simp [List.getD_eq_getElem?_getD]
      have hrest : ∀ s' : Linked σ Mias, s'.obj = s.obj → ∀ record,
          Attains (p11Search T initial label object left.length (done.length + 1) record) s' fun fetched _ =>
            fetched = match left.find? fun record => image.Carries label record with
              | some record => found object (image.file (efidOf record)).value
              | none => ⟨false, object, 0⟩ := by
        intro s' hobj record
        have hsplit : image.records = (done ++ [next]) ++ left := by
          rw [hrecords]
          simp
        have hgoes := ih hsplit (hobj ▸ hlisted) record
        rw [List.length_append, List.length_singleton] at hgoes
        exact hgoes
      apply Attains.gets_bind
      rw [hfile]
      by_cases hobject : IsObjectRecord next
      · have hfirm : ∀ offset, offset < (image.file (efidOf next)).valueStart →
            ¬image.MayBeShort (efidOf next) offset := fun offset hlt hshort => by
          have := hshort.2
          omega
        have htry := p11TryFile_attains (T := T) h.reads
          (fun card => h.selects card (efidOf next) (.inr ⟨next, hmem, hobject, rfl⟩)) hlisted.ready
          (image.file (efidOf next)) (image.objects next hmem hobject) hfirm initial label object record
        rw [if_pos ((isP11Data_fileOf (image.record_length next hmem)).mpr hobject)]
        apply htry.bind
        rintro ⟨result, record'⟩ s' ⟨hobj, hresult⟩
        by_cases hlabel : (image.file (efidOf next)).trimmed = label
        · have hcarries : image.Carries label next := ⟨hobject, hlabel⟩
          rw [if_pos hlabel] at hresult
          cases hresult
          rw [List.find?_cons_of_pos (by simpa using hcarries)]
          exact .pure rfl
        · have hcarries : ¬image.Carries label next := fun hcarries => hlabel hcarries.2
          rw [if_neg hlabel] at hresult
          cases hresult
          rw [List.find?_cons_of_neg (by simpa using hcarries)]
          exact hrest s' hobj record'
      · have hcarries : ¬image.Carries label next := fun hcarries => hobject hcarries.1
        rw [if_neg (fun htest => hobject ((isP11Data_fileOf (image.record_length next hmem)).mp htest)),
          List.find?_cons_of_neg (by simpa using hcarries)]
        exact hrest s rfl record

/-- The lookup finds the first object with the label. -/
theorem p11Lookup_attains (h : image.ServedBy T channel current) (hready : Ready channel s.obj)
    (locals : P11Locals) (label : List UInt8) (object : Option Mem) :
    Attains (p11Lookup T locals label object) s fun fetched _ =>
      fetched = match image.lookup label with
        | some file => found object file.value
        | none => ⟨false, object, 0⟩ := by
  apply Attains.modify_bind
  have hempty : Listed channel [] { s.obj with filesNum := 0 } :=
    ⟨hready.congr rfl, rfl, fun j hj => absurd hj (Nat.not_lt_zero j)⟩
  obtain ⟨data, card, hsettles, hcurrent⟩ := h.selects s.se.card directoryId (.inl rfl)
  have hselect := selectFile_yields (s := ⟨s.se, { s.obj with filesNum := 0 }⟩) hempty.ready hsettles hcurrent
  apply hselect.bind_attains
  intro s₁ hs₁
  rw [if_pos rfl]
  -- the number of records
  have hcount : image.contents directoryId =
      [] ++ [lowByte image.records.length] ++ (image.records.flatten ++ image.slack) := by
    rw [image.directory]
    simp
  have hle : (0x01 : UInt8).toNat = [lowByte image.records.length].length := rfl
  apply (h.reads.readField hempty.ready hs₁ hcount image.directory_length rfl hle Nat.one_pos
    (fun hshort => hshort.1 rfl)).bind_attains
  intro s₂ hs₂
  obtain ⟨⟨hobj, hcurrent₂⟩, hholds⟩ := hs₂
  rw [if_pos rfl]
  apply (response_yields (hobj ▸ hempty.ready) hholds).bind_attains
  intro s₃ hs₃
  subst hs₃
  apply Attains.check_bind (by simp)
  rw [if_pos (by rfl)]
  have hfew := image.records_few
  simp only [filePoolSize] at hfew
  have htoNat : (([lowByte image.records.length] : List UInt8).headD 0).toNat = image.records.length :=
    toNat_lowByte (by omega)
  rw [htoNat]
  have hsplit : image.records = [] ++ image.records := rfl
  have hlist := directoryLoop_attains h hsplit (hobj ▸ hempty) hcurrent₂ locals.record
  apply hlist.bind
  intro record s₄ hlisted
  apply Attains.gets_bind
  rw [hlisted.filesNum_eq]
  have hsearch := p11Search_attains h hsplit hlisted locals.size.toNat label object record
  obtain ⟨fetched, s₅, hrun, hfetched⟩ := hsearch
  refine ⟨fetched, s₅, hrun, ?_⟩
  rw [hfetched, P11Image.lookup]
  cases image.records.find? fun record => image.Carries label record <;> rfl

/-- **Object lookup is correct**: on a card with the files of an image, it succeeds exactly if some object
carries the label, and then delivers the value of the first one. -/
theorem p11GetObjectByLabel_correct (h : image.ServedBy T channel current) (hready : Ready channel s.obj)
    (locals : P11Locals) (label : List UInt8) (object : Option Mem) :
    ∃ fetched s', Evals (p11GetObjectByLabel T locals label object) s fetched s' ∧
      (fetched.ok = true ↔ ∃ record ∈ image.records, image.Carries label record) ∧
      (fetched.ok = false → fetched.len = 0) ∧
      ∀ file, image.lookup label = some file → fetched.len = file.value.length ∧
        ∀ buffer, object = some buffer → ∃ out, fetched.out = some out ∧
          out.slice 0 fetched.len = file.value ∧ ∀ i, fetched.len ≤ i → out i = buffer i := by
  have hlookup := p11Lookup_attains (s := noted .p11Enter s) h hready locals label object
  obtain ⟨fetched, s', hrun, hfetched⟩ := hlookup
  have hevals : Evals (p11GetObjectByLabel T locals label object) s fetched (noted .p11Leave s') :=
    Evals.modify.bind (hrun.bind (Evals.modify.bind .pure))
  refine ⟨fetched, noted .p11Leave s', hevals, ?_⟩
  rcases hfind : image.records.find? fun record => image.Carries label record with _ | record
  · rw [P11Image.lookup, hfind] at hfetched
    rw [P11Image.lookup, hfind]
    have hnone : ¬∃ record ∈ image.records, image.Carries label record := by
      rintro ⟨record, hmem, hcarries⟩
      exact List.find?_eq_none.mp hfind record hmem (decide_eq_true hcarries)
    subst hfetched
    refine ⟨iff_of_false Bool.false_ne_true hnone, fun _ => rfl, ?_⟩
    intro file hfile
    cases hfile
  · have hcarries : image.Carries label record := by simpa using List.find?_some hfind
    have hsome : ∃ record ∈ image.records, image.Carries label record :=
      ⟨record, List.mem_of_find?_eq_some hfind, hcarries⟩
    rw [P11Image.lookup, hfind, Option.map_some] at hfetched
    rw [P11Image.lookup, hfind]
    subst hfetched
    refine ⟨iff_of_true rfl hsome, fun hfalse => absurd hfalse.symm Bool.false_ne_true, ?_⟩
    intro file hfile
    cases hfile
    refine ⟨rfl, ?_⟩
    rintro buffer rfl
    exact ⟨_, rfl, Mem.slice_write_self buffer 0 _, fun i hi => Mem.write_of_ge (by rw [Nat.zero_add]; exact hi)⟩

end Lookup

/-! ### Cards with the files of an image -/

/-- Every image has a card. -/
theorem P11Image.fileCard_served (image : P11Image) (channel : UInt8) :
    image.ServedBy (fileCard image.contents fun _ => []) channel id where
  reads := fileCard_serves channel _
  selects := by
    intro card efid hefid
    have hlt : efid < 65536 := by
      rcases hefid with rfl | ⟨record, _, _, rfl⟩
      · decide
      · exact word16_lt _ _
    have hselects : Settles (fileCard image.contents fun _ => []) card (selectApdu channel efid ++ []) [0x90, 0x00]
        efid := fileCard_selects channel card hlt (Nat.zero_le _) []
    rw [List.append_nil] at hselects
    exact ⟨[], efid, hselects, rfl⟩

theorem blankHeader_length : (List.replicate 16 (0 : UInt8)).length = 16 := by decide

theorem tobText_length : (cstr "tob").length < 256 := by decide

theorem noId_length : ([] : List UInt8).length < 256 := by decide

/-- A certificate object "CERT" with two spaces behind its label and a value of three bytes. -/
def sampleFile : P11File where
  header := List.replicate 16 0
  label := cstr "CERT  "
  application := cstr "tob"
  objectId := []
  long := true
  value := [0xDE, 0xAD, 0x01]
  slack := []
  header_length := blankHeader_length
  label_length := by decide
  label_letter := by decide
  application_length := tobText_length
  objectId_length := noId_length
  value_length := by decide
  value_present := by decide
  content_length := by decide

/-- A directory with a certificate container and the object. -/
def sampleImage : P11Image where
  records := [[0x20, 0x00, 0x00, 0x10] ++ cstr "kxc00" ++ [0, 0, 0] ++ cstr "mscp" ++ [0, 0, 0, 0, 0],
    [0x20, 0x01, 0x00, 0x20] ++ cstr "pubdat01" ++ cstr "p11" ++ [0, 0, 0, 0, 0, 0]]
  slack := []
  contents := fun efid =>
    if efid = directoryId then
      2 :: ([0x20, 0x00, 0x00, 0x10] ++ cstr "kxc00" ++ [0, 0, 0] ++ cstr "mscp" ++ [0, 0, 0, 0, 0] ++
        ([0x20, 0x01, 0x00, 0x20] ++ cstr "pubdat01" ++ cstr "p11" ++ [0, 0, 0, 0, 0, 0]))
    else sampleFile.content
  file := fun _ => sampleFile
  records_few := by decide
  record_length := by decide
  directory := by decide
  directory_length := by decide
  objects := by
    intro record hmem _
    rw [List.mem_cons, List.mem_singleton] at hmem
    rcases hmem with rfl | rfl <;> decide

theorem p11GetObjectByLabel_sample : ∃ fetched s',
    Evals (p11GetObjectByLabel (fileCard sampleImage.contents fun _ => []) ⟨Mem.zero, 0⟩ (cstr "CERT") (some Mem.zero))
      ⟨.create 0 Mem.zero, selectedMias⟩ fetched s' ∧
    fetched.ok = true ∧ ∃ out, fetched.out = some out ∧ out.slice 0 fetched.len = [0xDE, 0xAD, 0x01] := by
  obtain ⟨fetched, s', hrun, hok, _, hvalue⟩ := p11GetObjectByLabel_correct
    (s := ⟨.create 0 Mem.zero, selectedMias⟩) (sampleImage.fileCard_served 0) selectedMias_ready
    ⟨Mem.zero, 0⟩ (cstr "CERT")
    (some Mem.zero)
  have hlookup : sampleImage.lookup (cstr "CERT") = some sampleFile := by rfl
  obtain ⟨_, hout⟩ := hvalue sampleFile hlookup
  obtain ⟨out, hout, hslice, _⟩ := hout Mem.zero rfl
  refine ⟨fetched, s', hrun, hok.mpr ?_, out, hout, hslice⟩
  decide

end TrustOnboard.Mias
