import TrustOnboard.MiasLookup
import TrustOnboard.MiasReading

/-! The fields of an object file, for every card. The label is compared in the 21-byte record on the stack, the
length of the value is read off its first five bytes. Both parts are taken out of the search of
`p11GetObjectByLabel` as it is modelled, and each is right on just the fields that it was written for. -/

namespace TrustOnboard.Mias

open Exec Linked SEInterface

variable {σ : Type} (T : Transport σ)

/-! ### Labels -/

/-- The part of `p11TryFile` that gets the label field of a file. -/
def readLabel (efid : Nat) (record : Mem) : Exec (Linked σ Mias) (Option (List UInt8) × Mem) := do
  if ← ok (selectFile T [highByte efid, lowByte efid]) then
    match ← readLength T 16 record with
    | (none, record) => return (none, record)
    | (some length, record) =>
        if ← ok (readBinary T 17 length) then
          let data ← response
          return (if data.length = length.toNat then some data else none, record)
        else
          return (none, record)
  else
    return (none, record)

/-- The part of `p11TryFile` that compares the label field with the requested label: is the file accepted, and
the record. -/
def compareLabel (label field : List UInt8) (record : Mem) : Exec (Linked σ Mias) (Bool × Mem) := do
  check (field.length < recordSize)
  let record := (record.write 0 field).write field.length [0]
  let trimPos ← loop (trimTurn record) ((field.length + 65535) % 65536)
  let trimLen := (trimPos + 1) % 65536
  return (decide (label.length = trimLen ∧ label = record.slice 0 label.length), record)

/-- The value of a file is read if the label is accepted. -/
theorem p11TryFile_eq (initial : Nat) (label : List UInt8) (object : Option Mem) (efid : Nat) (record : Mem) :
    p11TryFile T initial label object efid record = (do
      match ← readLabel T efid record with
      | (none, record) => return (none, record)
      | (some field, record) =>
          let compared ← compareLabel label field record
          if compared.1 then p11ReadValue T initial (17 + field.length) object compared.2
          else return (none, compared.2)) := by
  funext fuel s
  simp only [p11TryFile, readLabel, bind_apply]
  rcases ok (selectFile T [highByte efid, lowByte efid]) fuel s with ⟨⟨_ | _⟩ | _ | _, s₁⟩
  · rfl
  · simp only [if_true, bind_apply]
    rcases readLength T 16 record fuel s₁ with ⟨⟨_ | length, record⟩ | _ | _, s₂⟩
    · rfl
    · simp only [bind_apply]
      rcases ok (readBinary T 17 length) fuel s₂ with ⟨⟨_ | _⟩ | _ | _, s₃⟩
      · rfl
      · simp only [if_true, bind_apply]
        rcases response fuel s₃ with ⟨data | _ | _, s₄⟩
        · simp only [pure_apply]
          by_cases hlen : data.length = length.toNat
          · simp only [if_pos hlen, compareLabel, bind_apply, pure_apply]
            rcases check (data.length < recordSize) fuel s₄ with ⟨_ | _ | _, s₅⟩
            · dsimp only
              rcases loop (trimTurn ((record.write 0 data).write data.length [0])) ((data.length + 65535) % 65536)
                fuel s₅ with ⟨_ | _ | _, s₆⟩
              · simp only [decide_eq_true_eq]
              · rfl
              · rfl
            · rfl
            · rfl
          · simp only [if_neg hlen]
        · rfl
        · rfl
      · rfl
      · rfl
    · rfl
    · rfl
  · rfl
  · rfl

section Labels

variable {s : Linked σ Mias} {text : List UInt8} {record : Mem}

/-- Over a label of spaces only, the trimming loop runs out of the record: the position is unsigned. -/
theorem trim_faults (hspaces : ∀ c ∈ text, c = 0x20) (hlen : text.length ≤ recordSize)
    (hrecord : ∀ i, i < text.length → record i = text.getD i 0) :
    Iterates (trimTurn record) ((text.length + 65535) % 65536) s .fault s := by
  induction text using List.reverseRecOn with
  | nil =>
      apply Iterates.fault
      refine .of_eq fun fuel => ?_
      rw [trimTurn, bind_apply, check_neg (by decide)]
  | append_singleton text c ih =>
      rw [List.length_append, List.length_singleton] at *
      have hsize : recordSize = 21 := rfl
      have hstart : (text.length + 1 + 65535) % 65536 = text.length := by omega
      have hlast : record text.length = 0x20 := by
        rw [hrecord text.length (by omega), ← hspaces c (by simp)]
        simp [List.getD_eq_getElem?_getD]
      have hturn : Evals (trimTurn record text.length) s (.again ((text.length + 65535) % 65536)) s := by
        refine .of_eq fun fuel => ?_
        rw [trimTurn, bind_apply, check_pos (by omega)]
        simp only [if_pos hlast]
        rfl
      rw [hstart]
      refine .again hturn (ih (fun d hd => hspaces d (by simp [hd])) (by omega) fun i hi => ?_)
      rw [hrecord i (by omega)]
      simp [List.getD_eq_getElem?_getD, List.getElem?_append_left hi]

/-- The field in the record. -/
theorem labelled_getD (record : Mem) {field : List UInt8} {i : Nat} (hi : i < field.length) :
    ((record.write 0 field).write field.length [0]) i = field.getD i 0 := by
  rw [Mem.write_of_lt hi, Mem.write_of_mem (Nat.zero_le i) (by omega), Nat.sub_zero]

theorem compareLabel_evals (label : List UInt8) {field : List UInt8} (record : Mem) (hlen : field.length < recordSize)
    (hletter : ∃ c ∈ field, c ≠ 0x20) :
    Evals (compareLabel label field record) s
      (decide (trimSpaces field = label), (record.write 0 field).write field.length [0]) s := by
  have hsize : recordSize = 21 := rfl
  have hpos := trimSpaces_length_pos hletter
  have hle := (trimSpaces_isPrefix field).length_le
  obtain ⟨s', hcycles, rfl⟩ := trim_cycles (s := s) hletter (by omega) fun i hi => labelled_getD record hi
  have hwrap : (field.length + 65535) % 65536 = field.length - 1 := by omega
  have hcut : ((trimSpaces field).length - 1 + 1) % 65536 = (trimSpaces field).length := by omega
  apply (Evals.check hlen).bind
  rw [hwrap]
  apply (Evals.loop hcycles).bind
  simp only [hcut, decide_eq_decide.mpr (label_test_iff record)]
  exact .pure

theorem compareLabel_faults (label : List UInt8) {field : List UInt8} (record : Mem)
    (h : ¬(field.length < recordSize ∧ ∃ c ∈ field, c ≠ 0x20)) : Faults (compareLabel label field record) s := by
  by_cases hlen : field.length < recordSize
  · have hspaces : ∀ c ∈ field, c = 0x20 := by
      intro c hc
      by_contra hne
      exact h ⟨hlen, c, hc, hne⟩
    apply (Evals.check hlen).bind_faults
    apply Faults.bind
    exact ⟨s, .loop (trim_faults hspaces (by omega) fun i hi => labelled_getD record hi)⟩
  · exact (Faults.check hlen).bind

/-- The comparison stays in the record, ends, and accepts just the label without the spaces behind it. -/
def ComparesExactly (label field : List UInt8) (record : Mem) (s : Linked σ Mias) : Prop :=
  ∃ accepted record', Evals (compareLabel label field record) s (accepted, record') s ∧
    (accepted = true ↔ trimSpaces field = label)

/-- **A label is compared exactly** if and only if it has at most 20 bytes, one of which is no space. -/
theorem label_compared_iff (label field : List UInt8) (record : Mem) (s : Linked σ Mias) :
    ComparesExactly label field record s ↔ field.length ≤ 20 ∧ ∃ c ∈ field, c ≠ 0x20 := by
  have hsize : field.length ≤ 20 ↔ field.length < recordSize := Nat.lt_succ_iff.symm
  rw [hsize]
  constructor
  · intro hexact
    obtain ⟨accepted, record', hevals, _⟩ := hexact
    by_contra hbad
    obtain ⟨fuel, hfault⟩ := (compareLabel_faults (s := s) label record hbad).exists_fault
    exact hevals.ne_fault fuel hfault
  · intro hgood
    exact ⟨_, _, compareLabel_evals label record hgood.1 hgood.2, decide_eq_true_iff⟩

/-- A label of two spaces, asked for the empty label: the loop reads the record at index 65535. -/
theorem spaces_overrun_record : ¬ComparesExactly [] [0x20, 0x20] Mem.zero (scriptedMias []) := by
  intro hexact
  obtain ⟨accepted, record', hevals, _⟩ := hexact
  exact hevals.ne_fault 3 rfl

end Labels

/-! ### Value lengths -/

/-- The part of `p11ReadValue` behind the header of the value, which is in the record. -/
def takeValue (initial offset : Nat) (object : Option Mem) (record : Mem) :
    Exec (Linked σ Mias) (Option Fetched × Mem) := do
  let size := (valueLength initial record).1
  let offset := (offset + (valueLength initial record).2 + 1) % 65536
  match object with
  | none => return (some ⟨true, none, size⟩, record)
  | some out =>
      let out ← readChunks T 65536 offset size out
      return (some ⟨true, some out, size⟩, record)

theorem p11ReadValue_eq (initial offset : Nat) (object : Option Mem) (record : Mem) :
    p11ReadValue T initial offset object record = (do
      match ← readLength T offset record with
      | (none, record) => return (none, record)
      | (some application, record) =>
          let offset := (offset + 1 + application.toNat) % 65536
          match ← readLength T offset record with
          | (none, record) => return (none, record)
          | (some objectId, record) =>
              let offset := (offset + 1 + objectId.toNat) % 65536
              if ← ok (readBinary T offset 0x05) then
                let read ← readRecord record
                if read.1 = 5 then takeValue T initial offset object read.2 else return (none, read.2)
              else
                return (none, record)) := rfl

/-- The BER length at the start of a header, with the number of length bytes behind the first. There is none if
the form is indefinite, if the length bytes go beyond the header or if the length does not fit 16 bits. -/
def berLength (header : List UInt8) : Option (Nat × Nat) :=
  let count := (header.getD 0 0 &&& 0x7F).toNat
  if header.getD 0 0 < 0x80 then
    some ((header.getD 0 0).toNat, 0)
  else if 0 < count ∧ count < header.length ∧ bigEndian ((header.drop 1).take count) < 65536 then
    some (bigEndian ((header.drop 1).take count), count)
  else
    none

/-- The header is decoded: the length is reported, the value is read from behind the length bytes, and a header
without a length is rejected. -/
structure DecodesHeader (initial : UInt16) (offset : Nat) (header : List UInt8) (record : Mem) (s : Linked σ Mias) :
    Prop where
  reports : ∀ length count, berLength header = some (length, count) →
    takeValue T initial.toNat offset none (record.write 0 header) =
      pure (some ⟨true, none, length⟩, record.write 0 header)
  reads : ∀ length count, berLength header = some (length, count) → ∀ out,
    takeValue T initial.toNat offset (some out) (record.write 0 header) = (do
      let out ← readChunks T 65536 ((offset + 1 + count) % 65536) length out
      return (some ⟨true, some out, length⟩, record.write 0 header))
  rejects : berLength header = none → ∀ object, ∃ record' s',
    Evals (takeValue T initial.toNat offset object (record.write 0 header)) s (none, record') s'

section Headers

variable {T} {initial : UInt16} {offset : Nat} {header : List UInt8} {record : Mem} {s : Linked σ Mias}

/-- The first byte of a header. -/
theorem header_first (h : header.length = 5) (record : Mem) : record.write 0 header 0 = header.getD 0 0 := by
  rw [Mem.write_of_mem (Nat.le_refl 0) (by omega)]

/-- A length of up to four bytes, read on from what `size` held before. -/
theorem valueLength_bytes (initial : UInt16) (record : Mem) (h : header.length = 5)
    (hlong : ¬header.getD 0 0 < 0x80) {count : Nat}
    (hcount : (header.getD 0 0 &&& 0x0F).toNat = count) (hfew : count < 5) :
    valueLength initial.toNat (record.write 0 header) =
      ((initial.toNat * 256 ^ count + bigEndian ((header.drop 1).take count)) % 65536, count) := by
  have hbytes : (record.write 0 header).slice 1 count = (header.drop 1).take count :=
    Mem.slice_write_drop record (by omega)
  have hlength : ((header.drop 1).take count).length = count := by
    rw [List.length_take, List.length_drop]
    omega
  have hfold : (List.range count).foldl
      (fun size i => (size * 256 + ((record.write 0 header) (1 + i)).toNat) % 65536) initial.toNat =
      ((record.write 0 header).slice 1 count).foldl (fun n byte => (n * 256 + byte.toNat) % 65536) initial.toNat := by
    rw [Mem.slice, List.foldl_map]
  rw [valueLength, header_first h, if_neg hlong]
  simp only [hcount]
  rw [hfold, hbytes, foldl_mod _ initial.toNat_lt, hlength]

/-- A header without a length is not rejected. -/
theorem not_decodesHeader (hber : berLength header = none) : ¬DecodesHeader T initial offset header record s := by
  intro hdecodes
  obtain ⟨record', s', hevals⟩ := hdecodes.rejects hber none
  have hreported : Evals (takeValue T initial.toNat offset none (record.write 0 header)) s
      (some ⟨true, none, (valueLength initial.toNat (record.write 0 header)).1⟩, record.write 0 header) s := .pure
  have hsame := hreported.unique hevals
  simp at hsame

/-- A header with a length is decoded if the length comes out. -/
theorem decodesHeader_iff_size {length count : Nat} (hber : berLength header = some (length, count))
    (hcount : (valueLength initial.toNat (record.write 0 header)).2 = count) :
    DecodesHeader T initial offset header record s ↔
      (valueLength initial.toNat (record.write 0 header)).1 = length := by
  constructor
  · intro hdecodes
    have hrun := congrFun (congrFun (hdecodes.reports length count hber) 0) s
    simp only [takeValue, pure_apply, Prod.mk.injEq, Outcome.done.injEq, Option.some.injEq, Fetched.mk.injEq] at hrun
    exact hrun.1.1.2.2
  · intro hsize
    refine ⟨?_, ?_, fun hnone => ?_⟩
    · intro length' count' hber'
      rw [hber] at hber'
      cases hber'
      simp only [takeValue, hsize]
    · intro length' count' hber' out
      rw [hber] at hber'
      cases hber'
      have hoffset : offset + count + 1 = offset + 1 + count := by omega
      simp only [takeValue, hsize, hcount, hoffset]
    · rw [hber] at hnone
      cases hnone

theorem berLength_bytes (h : header.length = 5) (hlong : ¬header.getD 0 0 < 0x80) {count : Nat}
    (hcount : (header.getD 0 0 &&& 0x7F).toNat = count) (hpos : 0 < count) (hfew : count < 5) :
    berLength header = if bigEndian ((header.drop 1).take count) < 65536 then
      some (bigEndian ((header.drop 1).take count), count) else none := by
  rw [berLength]
  simp only [if_neg hlong, hcount, h, hpos, hfew, true_and]

/-- A header with one to four length bytes. -/
theorem decodesHeader_iff_bytes (count : Nat) (h : header.length = 5)
    (hfirst : header.getD 0 0 = lowByte (0x80 + count))
    (hpos : 0 < count) (hfew : count < 5) :
    DecodesHeader T initial offset header record s ↔
      bigEndian ((header.drop 1).take count) < 65536 ∧
        (initial.toNat * 256 ^ count + bigEndian ((header.drop 1).take count)) % 65536 =
          bigEndian ((header.drop 1).take count) := by
  have hmasks : ∀ n, 0 < n → n < 5 → ¬lowByte (0x80 + n) < 0x80 ∧ (lowByte (0x80 + n) &&& 0x7F).toNat = n ∧
      (lowByte (0x80 + n) &&& 0x0F).toNat = n := by
    intro n hn hn'
    have hcases : n = 1 ∨ n = 2 ∨ n = 3 ∨ n = 4 := by omega
    rcases hcases with rfl | rfl | rfl | rfl <;> decide
  obtain ⟨hlong, hall, hlow⟩ := hmasks count hpos hfew
  rw [← hfirst] at hlong hall hlow
  have hber := berLength_bytes h hlong hall hpos hfew
  have hvalue := valueLength_bytes initial record h hlong hlow hfew
  by_cases hfits : bigEndian ((header.drop 1).take count) < 65536
  · rw [if_pos hfits] at hber
    rw [decodesHeader_iff_size hber (by rw [hvalue]), hvalue]
    exact (and_iff_right hfits).symm
  · rw [if_neg hfits] at hber
    exact iff_of_false (not_decodesHeader hber) fun hboth => hfits hboth.1

/-- A header whose first byte announces no length byte or more than there are. -/
theorem berLength_none (h : header.length = 5) (hlong : 0x80 ≤ (header.getD 0 0).toNat)
    (hnone : (header.getD 0 0).toNat = 0x80 ∨ 0x85 ≤ (header.getD 0 0).toNat) : berLength header = none := by
  have hmask : (header.getD 0 0 &&& 0x7F).toNat = (header.getD 0 0).toNat - 0x80 := by
    have hlow : (header.getD 0 0 &&& 0x7F).toNat = (header.getD 0 0).toNat % 128 := by
      rw [UInt8.toNat_and]
      exact Nat.and_two_pow_sub_one_eq_mod _ 7
    have := (header.getD 0 0).toNat_lt
    omega
  have hnot : ¬header.getD 0 0 < 0x80 := by
    rw [UInt8.lt_iff_toNat_lt]
    exact Nat.not_lt.mpr hlong
  rw [berLength]
  simp only [if_neg hnot, hmask, h]
  rw [if_neg]
  omega

/-- **The length of a value is decoded** if and only if it is given by its first byte or by two length bytes, by
one length byte where the low byte of the uninitialised `size` is zero, or by three or four length bytes with
zeros in front of the last two. -/
theorem header_decoded_iff (h : header.length = 5) :
    DecodesHeader T initial offset header record s ↔
      header.getD 0 0 < 0x80 ∨ header.getD 0 0 = 0x82 ∨ (header.getD 0 0 = 0x81 ∧ initial.toNat % 256 = 0) ∨
        (header.getD 0 0 = 0x83 ∧ header.getD 1 0 = 0) ∨
        (header.getD 0 0 = 0x84 ∧ header.getD 1 0 = 0 ∧ header.getD 2 0 = 0) := by
  obtain ⟨a, b, c, d, e, rfl⟩ : ∃ a b c d e, header = [a, b, c, d, e] := by
    match header, h with
    | [a, b, c, d, e], _ => exact ⟨a, b, c, d, e, rfl⟩
  have hzero : ∀ x : UInt8, x = 0 ↔ x.toNat = 0 := fun x => UInt8.toNat_inj.symm
  have hb := b.toNat_lt
  have hc := c.toNat_lt
  have hd := d.toNat_lt
  have he := e.toNat_lt
  have hinitial := initial.toNat_lt
  by_cases hshort : a < 0x80
  · have hvalue : valueLength initial.toNat (record.write 0 [a, b, c, d, e]) = (a.toNat, 0) := by
      rw [valueLength, header_first h]
      exact if_pos hshort
    have hber : berLength [a, b, c, d, e] = some (a.toNat, 0) := if_pos hshort
    refine iff_of_true ((decodesHeader_iff_size hber (by rw [hvalue])).mpr (by rw [hvalue])) (.inl hshort)
  · have hlong : 0x80 ≤ a.toNat := Nat.le_of_not_lt fun hlt => hshort (UInt8.lt_iff_toNat_lt.mpr hlt)
    by_cases hnone : a.toNat = 0x80 ∨ 0x85 ≤ a.toNat
    · -- no length byte, or more than the header has
      refine iff_of_false (not_decodesHeader (berLength_none h hlong hnone)) ?_
      simp only [List.getD_cons_zero, List.getD_cons_succ, ← UInt8.toNat_inj]
      simp only [hshort, false_or, UInt8.reduceToNat]
      omega
    · have hfour : a = 0x81 ∨ a = 0x82 ∨ a = 0x83 ∨ a = 0x84 := by
        simp only [← UInt8.toNat_inj, UInt8.reduceToNat]
        omega
      rcases hfour with rfl | rfl | rfl | rfl
      · rw [decodesHeader_iff_bytes 1 h rfl (by omega) (by omega)]
        simp [bigEndian]
        omega
      · rw [decodesHeader_iff_bytes 2 h rfl (by omega) (by omega)]
        simp [bigEndian]
        omega
      · rw [decodesHeader_iff_bytes 3 h rfl (by omega) (by omega)]
        simp [bigEndian, hzero]
        omega
      · rw [decodesHeader_iff_bytes 4 h rfl (by omega) (by omega)]
        simp [bigEndian, hzero]
        omega

/-- A value of 300 bytes. -/
theorem header_decoded_long : DecodesHeader scripted 7 40 [0x82, 0x01, 0x2C, 0xC0, 0xC1] Mem.zero (scriptedMias []) :=
  (header_decoded_iff rfl).mpr (.inr (.inl rfl))

/-- A value of 128 bytes: with `size` at 1 before, 384 bytes are reported. -/
theorem one_byte_length_keeps_garbage :
    ¬DecodesHeader scripted 1 40 [0x81, 0x80, 0, 0, 0] Mem.zero (scriptedMias []) := by
  intro hdecodes
  have hreported := congrFun (congrFun (hdecodes.reports 128 1 rfl) 0) (scriptedMias [])
  have hlen := congrArg (fun run => run.1.value?.bind fun result => result.1.map Fetched.len) hreported
  exact absurd hlen (by decide)

end Headers

end TrustOnboard.Mias
