import TrustOnboard.MiasCrypto

/-! What the card tells about the length of an object. Each reader of the MIAS applet asks for the length before it
reads data, and takes it from an uninitialised variable where the answer has none. Here the readers are followed up to
the answer; what they return is a function of it and of the variable. -/

namespace TrustOnboard

/-- Bytes in the middle of the last answer; absent if it ends before them. -/
def SEInterface.valueAt {σ : Type} (s : SEInterface σ) (start count : Nat) : Option (List UInt8) :=
  if start + count ≤ getResponseLength s then some (s.response.slice start count) else none

theorem SEInterface.slice_of_valueAt {σ : Type} {s : SEInterface σ} {start count : Nat} {bytes : List UInt8}
    (h : valueAt s start count = some bytes) : bytes = s.response.slice start bytes.length := by
  unfold valueAt at h
  split at h
  · cases h
    rw [Mem.slice_length]
  · cases h

namespace Mias

open Exec Linked SEInterface

variable {σ : Type} (T : Transport σ)

/-! ### Certificates -/

/-- The walk of `fcpWalk`, with the place of the last size it has met. -/
def fcpSearch (len : Nat) : Nat × Option Nat → Exec (SEInterface σ) (Turn (Nat × Option Nat) (Option Nat)) := fun x => do
  if x.1 < (len + 2) % 256 then
    let t ← gets fun s => s.response x.1
    let l ← gets fun s => (s.response (x.1 + 1)).toNat
    return .again ((x.1 + 2 + l) % 256, if t = SCTag.FCPFileSizeWithInfo then some x.1 else x.2)
  else
    return .stop x.2

/-- The place of the size in the FCP template in the response buffer, if there are a template and a size. -/
def templateField : Exec (SEInterface σ) (Option Nat) := do
  if (← gets fun s => s.response 0) = SCTag.FileControlInfoFCP then
    let len ← gets fun s => (s.response 1).toNat
    loop (fcpSearch len) (2, none)
  else
    return none

/-- The two bytes that `ef_size` is taken from. -/
def sizeAt (response : Mem) (place : Nat) : Nat := word16 (response (place + 2)) (response (place + 3))

/-- What the card tells about a certificate. -/
structure Template where
  /-- The value of the size, if there is one and the answer holds all of it. -/
  field : Option (List UInt8)
  /-- The two bytes behind its header. -/
  taken : Option Nat
  /-- The data that was read begins like a compressed certificate. -/
  compressed : Bool

/-- `getCertificateByContainerId`, for what the card tells; absent if it does not get to the template. -/
def certificateTemplate (efSize : UInt16) (containerId : UInt8) (cert : Option Mem) :
    Exec (Linked σ Mias) (Option Template) := do
  match ← getKeyPairByContainerId T containerId with
  | none => return none
  | some index =>
      let pair ← gets fun s => s.obj.keypairs index
      if pair.hasCert then
        if ← ok (selectFileLe T [pair.pubFileId.1, pair.pubFileId.2] 0x1C) then
          let place ← onSE templateField
          let field ← gets fun s => place.bind fun i => s.se.valueAt (i + 2) (s.se.response (i + 1)).toNat
          let taken ← gets fun s => place.map (sizeAt s.se.response)
          if taken.getD efSize.toNat ≠ 0 then
            match cert with
            | none => return some ⟨field, taken, false⟩
            | some out =>
                let out ← readChunks T 256 0 (taken.getD efSize.toNat) out
                return some ⟨field, taken, decide (out 0 = 0x01 ∧ out 1 = 0x00)⟩
          else
            return some ⟨field, taken, false⟩
        else
          return none
      else
        return none

theorem fcpWalk_turns {len initial fuel count i size : Nat} {place : Option Nat} {s s' : SEInterface σ}
    (h : turns (fcpWalk len) fuel count (i, (place.map (sizeAt s.response)).getD initial) s = (.done size, s')) :
    ∃ last, turns (fcpSearch len) fuel count (i, place) s = (.done last, s') ∧ s' = s ∧
      size = (last.map (sizeAt s.response)).getD initial := by
  induction count generalizing i place with
  | zero => cases h
  | succ count ih =>
      unfold turns fcpWalk at h
      unfold turns fcpSearch
      by_cases hin : i < (len + 2) % 256
      · simp only [if_pos hin, bind_apply, gets_apply, pure_apply] at h ⊢
        by_cases htag : s.response i = SCTag.FCPFileSizeWithInfo
        · rw [if_pos htag] at h ⊢
          exact ih h
        · rw [if_neg htag] at h ⊢
          exact ih h
      · simp only [if_neg hin, pure_apply] at h ⊢
        cases h
        exact ⟨place, rfl, rfl, rfl⟩

theorem templateSize_run {initial fuel size : Nat} {s s' : SEInterface σ}
    (h : templateSize initial fuel s = (.done size, s')) :
    ∃ place, templateField fuel s = (.done place, s') ∧ s' = s ∧ size = (place.map (sizeAt s.response)).getD initial := by
  unfold templateSize at h
  unfold templateField
  rw [bind_apply, gets_apply] at h ⊢
  by_cases htag : s.response 0 = SCTag.FileControlInfoFCP
  · simp only [if_pos htag] at h ⊢
    exact fcpWalk_turns h
  · simp only [if_neg htag] at h ⊢
    cases h
    exact ⟨none, rfl, rfl, rfl⟩

theorem bigEndian_slice_two (memory : Mem) (start : Nat) :
    bigEndian (memory.slice start 2) = word16 (memory start) (memory (start + 1)) := by
  simp [Mem.slice, List.range_succ, bigEndian, word16]

/-- A size that is not zero is its own value only in two bytes. -/
theorem bigEndian_slice_eq {memory : Mem} {start count : Nat}
    (h : bigEndian (memory.slice start count) = word16 (memory start) (memory (start + 1)))
    (hsize : word16 (memory start) (memory (start + 1)) ≠ 0) : count = 2 := by
  match count with
  | 0 => exact absurd h.symm hsize
  | 1 =>
      have hone : bigEndian (memory.slice start 1) = (memory start).toNat := by
        simp [Mem.slice, List.range_succ, bigEndian]
      rw [hone, word16] at h
      rw [word16] at hsize
      omega
  | 2 => rfl
  | count + 3 =>
      rw [show count + 3 = 2 + (count + 1) by omega, Mem.slice_add, bigEndian_append, bigEndian_slice_two,
        Mem.slice_length] at h
      have hpow : 256 ≤ 256 ^ (count + 1) := Nat.le_self_pow (by omega) 256
      have hmul : word16 (memory start) (memory (start + 1)) * 256 ≤
          word16 (memory start) (memory (start + 1)) * 256 ^ (count + 1) := Nat.mul_le_mul_left _ hpow
      omega

/-- The size that the reader of certificates goes by. -/
def Template.size (template : Template) (efSize : UInt16) : Nat := template.taken.getD efSize.toNat

/-- The size is taken from where its value begins. -/
def Template.OfAnswer (template : Template) : Prop :=
  ∀ field, template.field = some field → ∃ (response : Mem) (start : Nat),
    field = response.slice start field.length ∧
      template.taken = some (word16 (response start) (response (start + 1)))

theorem Template.told_iff {template : Template} {efSize : UInt16} (h : template.OfAnswer)
    (hsize : template.size efSize ≠ 0) :
    template.field.map bigEndian = some (template.size efSize) ↔
      ∃ field, template.field = some field ∧ field.length = 2 := by
  constructor
  · intro htold
    obtain ⟨field, hfield, hnumber⟩ := Option.map_eq_some_iff.mp htold
    obtain ⟨response, start, hslice, htaken⟩ := h field hfield
    rw [Template.size, htaken, Option.getD_some] at hnumber hsize
    rw [hslice] at hnumber
    exact ⟨field, hfield, bigEndian_slice_eq hnumber hsize⟩
  · rintro ⟨field, hfield, hlength⟩
    obtain ⟨response, start, hslice, htaken⟩ := h field hfield
    rw [hlength] at hslice
    rw [hfield, Option.map_some, hslice, bigEndian_slice_two, Template.size, htaken, Option.getD_some]

/-- **What the reader of certificates returns** is decided by the template, the uninitialised `ef_size`, and the
first two bytes of the data. -/
theorem getCertificateByContainerId_run {efSize : UInt16} {containerId : UInt8} {cert : Option Mem} {len fuel : Nat}
    {s s' : Linked σ Mias} {fetched : Fetched}
    (h : getCertificateByContainerId T efSize containerId cert len fuel s = (.done fetched, s')) :
    ∃ answer t, certificateTemplate T efSize containerId cert fuel s = (.done answer, t) ∧
      match answer with
      | none => fetched.ok = false
      | some template => template.OfAnswer ∧
          (fetched.ok = true ↔ template.size efSize ≠ 0 ∧ template.compressed = false) ∧
          (fetched.ok = true → fetched.len = template.size efSize) := by
  unfold getCertificateByContainerId at h
  unfold certificateTemplate
  obtain ⟨index, s₁, hfind, h⟩ := bind_eq_done h
  rw [bind_done hfind]
  cases index with
  | none =>
      cases h
      exact ⟨none, _, rfl, rfl⟩
  | some index =>
      obtain ⟨pair, _, hpair, h⟩ := bind_eq_done h
      cases hpair
      simp only [bind_apply (gets _), gets_apply]
      by_cases hcert : (s₁.obj.keypairs index).hasCert = true
      · simp only [if_pos hcert] at h ⊢
        obtain ⟨ok, s₂, hselect, h⟩ := bind_eq_done h
        rw [bind_done hselect]
        cases ok with
        | false =>
            cases h
            exact ⟨none, _, rfl, rfl⟩
        | true =>
            obtain ⟨size, s₃, hsize, h⟩ := bind_eq_done h
            obtain ⟨se, hwalk, rfl⟩ := zoom_eq_done hsize
            obtain ⟨place, hplace, rfl, rfl⟩ := templateSize_run hwalk
            have hfield : (onSE templateField : Exec (Linked σ Mias) _) fuel s₂ = (.done place, s₂) :=
              zoom_done hplace
            have hse : seLens.get s₂ = s₂.se := rfl
            have hanswer : ∀ compressed, Template.OfAnswer
                ⟨place.bind fun i => valueAt s₂.se (i + 2) (s₂.se.response (i + 1)).toNat,
                  place.map (sizeAt s₂.se.response), compressed⟩ := by
              intro compressed field hvalue
              obtain ⟨i, rfl, hvalue⟩ := Option.bind_eq_some_iff.mp hvalue
              exact ⟨s₂.se.response, i + 2, slice_of_valueAt hvalue, rfl⟩
            rw [seLens.set_get, hse] at h
            simp only [if_true, bind_done hfield, bind_apply (gets _), gets_apply] at h ⊢
            generalize hread : (place.map (sizeAt s₂.se.response)).getD efSize.toNat = size at h ⊢
            by_cases hzero : size ≠ 0
            · rw [if_pos hzero] at h ⊢
              cases cert with
              | none =>
                  cases h
                  refine ⟨_, _, rfl, hanswer false, ?_, fun _ => hread.symm⟩
                  simpa [Template.size, hread] using hzero
              | some out =>
                  obtain ⟨data, s₄, hchunks, h⟩ := bind_eq_done h
                  refine ⟨_, _, bind_done hchunks, hanswer _, ?_⟩
                  by_cases hcompressed : data 0 = 0x01 ∧ data 1 = 0x00
                  · rw [if_pos hcompressed] at h
                    cases h
                    simp [hcompressed]
                  · rw [if_neg hcompressed] at h
                    cases h
                    simp [Template.size, hread, hcompressed, hzero]
            · rw [if_neg hzero] at h ⊢
              cases h
              refine ⟨_, _, rfl, hanswer false, ?_, fun hok => (by cases hok)⟩
              simpa [Template.size, hread] using hzero
      · simp only [if_neg hcert] at h ⊢
        cases h
        exact ⟨none, _, rfl, rfl⟩

/-! ### Objects -/

/-- The number in the header of a value; absent if the header is not a length of at most four bytes. -/
def headerNumber (record : Mem) : Option Nat :=
  if record 0 < 0x80 then
    some (record 0).toNat
  else if 0x81 ≤ record 0 ∧ record 0 ≤ 0x84 then
    some (bigEndian (record.slice 1 ((record 0).toNat - 0x80)))
  else
    none

/-- The headers that are decoded right whatever `size` held: short ones, and those whose bytes push the old content
out and stay in sixteen bits. One length byte leaves the low byte of the old content standing. -/
def Decoded (initial : Nat) (record : Mem) : Prop :=
  record 0 < 0x80 ∨ (record 0 = 0x81 ∧ initial % 256 = 0) ∨
    ((record 0 = 0x82 ∨ record 0 = 0x83 ∨ record 0 = 0x84) ∧
      bigEndian (record.slice 1 ((record 0).toNat - 0x80)) < 65536)

/-- The decoding in terms of the length bytes. -/
theorem valueLength_bigEndian {initial : Nat} {record : Mem} (hinitial : initial < 65536) (h : ¬record 0 < 0x80) :
    (valueLength initial record).1 = (initial * 256 ^ (record 0 &&& 0x0F).toNat +
      bigEndian (record.slice 1 (record 0 &&& 0x0F).toNat)) % 65536 := by
  have hfold := foldl_mod (record.slice 1 (record 0 &&& 0x0F).toNat) hinitial
  rw [Mem.slice_length] at hfold
  rw [valueLength, if_neg h, ← hfold, Mem.slice, List.foldl_map]

theorem headerNumber_iff {initial : Nat} {record : Mem} (hinitial : initial < 65536) :
    headerNumber record = some (valueLength initial record).1 ↔ Decoded initial record := by
  by_cases hshort : record 0 < 0x80
  · simp [headerNumber, valueLength, Decoded, hshort]
  have hlong := valueLength_bigEndian hinitial hshort
  by_cases h81 : record 0 = 0x81
  · have hone : bigEndian (record.slice 1 1) = (record 1).toNat := by simp [Mem.slice, List.range_succ, bigEndian]
    have hbyte := (record 1).toNat_lt
    simp only [headerNumber, Decoded, hlong, h81]
    simp [hone]
    omega
  by_cases hmore : record 0 = 0x82 ∨ record 0 = 0x83 ∨ record 0 = 0x84
  · have hcount : ∃ count, 2 ≤ count ∧ (record 0 &&& 0x0F).toNat = count ∧ (record 0).toNat - 0x80 = count ∧
        0x81 ≤ record 0 ∧ record 0 ≤ 0x84 := by
      rcases hmore with h | h | h
      · exact ⟨2, by rw [h]; decide⟩
      · exact ⟨3, by rw [h]; decide⟩
      · exact ⟨4, by rw [h]; decide⟩
    obtain ⟨count, htwo, hlow, hfour, hrange⟩ := hcount
    have hout : initial * 256 ^ count % 65536 = 0 := by
      rw [show count = 2 + (count - 2) by omega, Nat.pow_add, Nat.mul_left_comm]
      exact Nat.mul_mod_right 65536 _
    simp only [headerNumber, Decoded, hlong, hlow, hfour, hshort, h81, hmore, hrange]
    simp
    omega
  · have hrange : ¬(0x81 ≤ record 0 ∧ record 0 ≤ 0x84) := by
      simp only [UInt8.le_iff_toNat_le, ← UInt8.toNat_inj] at h81 hmore ⊢
      simp at h81 hmore ⊢
      omega
    simp [headerNumber, Decoded, hshort, h81, hmore, hrange]

/-- `p11Search`, up to the header of the value. -/
def p11SearchHeader (label : List UInt8) : Nat → Nat → Mem → Exec (Linked σ Mias) (Option Mem)
  | 0, _, _ => pure none
  | remaining + 1, j, record => do
      let file ← gets fun s => s.obj.files j
      if isP11Data file then
        match ← p11TryFile T 0 label none file.efid record with
        | (some _, header) => return some header
        | (none, record) => p11SearchHeader label remaining (j + 1) record
      else
        p11SearchHeader label remaining (j + 1) record

/-- `p11GetObjectByLabel` up to the header of the value; absent if no object is found. -/
def p11Header (record : Mem) (label : List UInt8) : Exec (Linked σ Mias) (Option Mem) := do
  note .p11Enter
  setObj fun m => { m with filesNum := 0 }
  if ← ok (selectFile T FILE_DIR_EF) then
    if ← ok (readBinary T 0x0000 0x01) then
      let data ← response
      check (data.length ≤ 1)
      if data.length = 1 then
        let record ← directoryLoop T (data.headD 0).toNat 0 record
        let count ← gets fun s => s.obj.filesNum
        p11SearchHeader T label count 0 record
      else
        return none
    else
      return none
  else
    return none

/-- A run over one file with any `size` and buffer, beside the run that asks for the length only: they end in the same
state if the search goes on, and else the length is decoded from the header that both have read. -/
def Beside (initial : Nat) (full query : Outcome (Option Fetched × Mem) × Linked σ Mias) : Prop :=
  ∀ found record s', full = (.done (found, record), s') →
    (found = none ∧ query = (.done (none, record), s')) ∨
    ∃ fetched asked t, found = some fetched ∧ query = (.done (some asked, record), t) ∧ fetched.ok = true ∧
      fetched.len = (valueLength initial record).1

section Beside

variable {T} {initial fuel : Nat} {s : Linked σ Mias}

theorem Beside.bind {α : Type} {first : Exec (Linked σ Mias) α}
    {next next' : α → Exec (Linked σ Mias) (Option Fetched × Mem)}
    (h : ∀ value t, Beside initial (next value fuel t) (next' value fuel t)) :
    Beside initial ((first >>= next) fuel s) ((first >>= next') fuel s) := by
  intro found record s' hfull
  obtain ⟨value, t, hfirst, hfull⟩ := bind_eq_done hfull
  rw [bind_done hfirst]
  exact h value t found record s' hfull

theorem Beside.none (record : Mem) : Beside initial ((pure (none, record) : Exec (Linked σ Mias) _) fuel s)
    ((pure (none, record) : Exec (Linked σ Mias) _) fuel s) := by
  intro found record' s' hfull
  cases hfull
  exact .inl ⟨rfl, rfl⟩

theorem Beside.ite {c : Prop} [Decidable c] {yes no yes' no' : Exec (Linked σ Mias) (Option Fetched × Mem)}
    (hyes : Beside initial (yes fuel s) (yes' fuel s)) (hno : Beside initial (no fuel s) (no' fuel s)) :
    Beside initial ((if c then yes else no) fuel s) ((if c then yes' else no') fuel s) := by
  split
  · exact hyes
  · exact hno

theorem p11ReadValue_beside (offset : Nat) (object : Option Mem) (record : Mem) :
    Beside initial (p11ReadValue T initial offset object record fuel s) (p11ReadValue T 0 offset none record fuel s) := by
  refine .bind fun application t => ?_
  obtain ⟨application, record⟩ := application
  cases application with
  | none => exact .none _
  | some application =>
      refine .bind fun objectId t => ?_
      obtain ⟨objectId, record⟩ := objectId
      cases objectId with
      | none => exact .none _
      | some objectId =>
          refine .bind fun ok t => .ite (.bind fun read t => .ite ?_ (.none _)) (.none _)
          intro found record' s' hfull
          cases object with
          | none =>
              cases hfull
              exact .inr ⟨_, _, _, rfl, rfl, rfl, rfl⟩
          | some out =>
              obtain ⟨data, t', _, hfull⟩ := bind_eq_done hfull
              cases hfull
              exact .inr ⟨_, _, _, rfl, rfl, rfl, rfl⟩

theorem p11TryFile_beside (label : List UInt8) (object : Option Mem) (efid : Nat) (record : Mem) :
    Beside initial (p11TryFile T initial label object efid record fuel s)
      (p11TryFile T 0 label none efid record fuel s) := by
  refine .bind fun ok t => .ite (.bind fun length t => ?_) (.none _)
  obtain ⟨length, record⟩ := length
  cases length with
  | none => exact .none _
  | some length =>
      refine .bind fun ok t => .ite (.bind fun data t => .ite (.bind fun _ t => ?_) (.none _)) (.none _)
      exact .bind fun trimPos t => .ite (p11ReadValue_beside _ _ _) (.none _)

end Beside

/-- What the search returns is decided by the header and the uninitialised `size`. -/
theorem p11Search_run {initial remaining j fuel : Nat} {label : List UInt8} {object : Option Mem} {record : Mem}
    {s s' : Linked σ Mias} {fetched : Fetched}
    (h : p11Search T initial label object remaining j record fuel s = (.done fetched, s')) :
    ∃ header t, p11SearchHeader T label remaining j record fuel s = (.done header, t) ∧
      match header with
      | none => fetched.ok = false
      | some header => fetched.ok = true ∧ fetched.len = (valueLength initial header).1 := by
  induction remaining generalizing j record s with
  | zero =>
      cases h
      exact ⟨none, _, rfl, rfl⟩
  | succ remaining ih =>
      obtain ⟨file, _, hfile, h⟩ := bind_eq_done h
      cases hfile
      unfold p11SearchHeader
      rw [bind_apply, gets_apply]
      by_cases hdata : isP11Data (s.obj.files j) = true
      · simp only [if_pos hdata] at h ⊢
        obtain ⟨⟨found, record'⟩, s₁, htry, h⟩ := bind_eq_done h
        rcases p11TryFile_beside label object _ record found record' s₁ htry with
          ⟨rfl, hquery⟩ | ⟨got, asked, t, rfl, hquery, hok, hlen⟩
        · rw [bind_done hquery]
          exact ih h
        · rw [bind_done hquery]
          cases h
          exact ⟨some record', t, rfl, hok, hlen⟩
      · simp only [if_neg hdata] at h ⊢
        exact ih h

/-- **What the reader of objects returns** is decided by the header and the uninitialised `size`. -/
theorem p11GetObjectByLabel_run {locals : P11Locals} {label : List UInt8} {object : Option Mem} {fuel : Nat}
    {s s' : Linked σ Mias} {fetched : Fetched}
    (h : p11GetObjectByLabel T locals label object fuel s = (.done fetched, s')) :
    ∃ header t, p11Header T locals.record label fuel s = (.done header, t) ∧
      match header with
      | none => fetched.ok = false
      | some header => fetched.ok = true ∧ fetched.len = (valueLength locals.size.toNat header).1 := by
  obtain ⟨_, s₁, hnote, h⟩ := bind_eq_done h
  obtain ⟨got, s₂, hlookup, h⟩ := bind_eq_done h
  obtain ⟨_, s₃, _, h⟩ := bind_eq_done h
  obtain rfl : got = fetched := by
    cases h
    rfl
  obtain ⟨_, s₄, hset, hlookup⟩ := bind_eq_done hlookup
  obtain ⟨selected, s₅, hselect, hlookup⟩ := bind_eq_done hlookup
  unfold p11Header
  rw [bind_done hnote, bind_done hset, bind_done hselect]
  cases selected with
  | false =>
      cases hlookup
      exact ⟨none, _, rfl, rfl⟩
  | true =>
      obtain ⟨counted, s₆, hcount, hlookup⟩ := bind_eq_done hlookup
      simp only [if_true, bind_done hcount]
      cases counted with
      | false =>
          cases hlookup
          exact ⟨none, _, rfl, rfl⟩
      | true =>
          obtain ⟨data, s₇, hdata, hlookup⟩ := bind_eq_done hlookup
          obtain ⟨_, s₈, hcheck, hlookup⟩ := bind_eq_done hlookup
          simp only [if_true, bind_done hdata, bind_done hcheck]
          by_cases hone : data.length = 1
          · simp only [if_pos hone] at hlookup ⊢
            obtain ⟨record, s₉, hdirectory, hlookup⟩ := bind_eq_done hlookup
            obtain ⟨count, _, hgets, hlookup⟩ := bind_eq_done hlookup
            rw [bind_done hdirectory, bind_done hgets]
            exact p11Search_run T hlookup
          · simp only [if_neg hone] at hlookup ⊢
            cases hlookup
            exact ⟨none, _, rfl, rfl⟩

end Mias

end TrustOnboard
