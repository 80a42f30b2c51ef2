import TrustOnboard.MiasTable

/-! Certificate lookup on a well-formed card. The lookup delivers the file of the last directory record that
looks like the entry of the container; this is the entry itself unless another record looks like it. -/

namespace TrustOnboard.Mias

open Exec Linked SEInterface

/-! ### The lookup -/

/-- A compressed certificate. -/
def IsCompressed (file : List UInt8) : Prop := [0x01, 0x00] <+: file

instance (file : List UInt8) : Decidable (IsCompressed file) := inferInstanceAs (Decidable (_ <+: _))

/-- The file is delivered, or refused for its first two bytes in the buffer. -/
def delivered : Option Mem → List UInt8 → Fetched
  | none, file => ⟨true, none, file.length⟩
  | some buffer, file =>
      ⟨!decide ((buffer.write 0 file) 0 = 0x01 ∧ (buffer.write 0 file) 1 = 0x00), some (buffer.write 0 file),
        file.length⟩

/-- The second byte is tested also where the file has only one; then it is a byte of the caller. -/
theorem refused_iff {file : List UInt8} (hfile : file ≠ []) (buffer : Mem) :
    ((buffer.write 0 file) 0 = 0x01 ∧ (buffer.write 0 file) 1 = 0x00) ↔
      IsCompressed file ∨ file = [0x01] ∧ buffer 1 = 0x00 := by
  match file with
  | [] => exact absurd rfl hfile
  | [c] =>
      have hfirst : (buffer.write 0 [c]) 0 = c := rfl
      have hsecond : (buffer.write 0 [c]) 1 = buffer 1 := rfl
      rw [hfirst, hsecond]
      simp [IsCompressed]
  | c :: d :: rest =>
      have hfirst : (buffer.write 0 (c :: d :: rest)) 0 = c := by simp [Mem.write]
      have hsecond : (buffer.write 0 (c :: d :: rest)) 1 = d := by simp [Mem.write]
      rw [hfirst, hsecond]
      simp [IsCompressed, eq_comm]

theorem efidOf_bytes (record : List UInt8) :
    [highByte (efidOf record), lowByte (efidOf record)] = [record.getD 0 0, record.getD 1 0] := by
  have hhigh := (record.getD 0 0).toNat_lt
  have hlow := (record.getD 1 0).toNat_lt
  have hhighByte : highByte (efidOf record) = record.getD 0 0 := by
    apply UInt8.toNat_inj.mp
    simp only [highByte, efidOf, word16, UInt8.toNat_ofNat']
    omega
  have hlowByte : lowByte (efidOf record) = record.getD 1 0 := by
    apply UInt8.toNat_inj.mp
    simp only [lowByte, efidOf, word16, UInt8.toNat_ofNat']
    omega
  rw [hhighByte, hlowByte]

/-- An entry looks like one. -/
theorem IsEntry.looksLike {container : Nat} {record : List UInt8} (h : IsEntry container record)
    (hlength : record.length = 0x15) : LooksLikeEntry container record := by
  obtain ⟨hlt, hdir, hname⟩ := h
  have hdigits : ∀ n, n < 100 → (0 : UInt8) ∉ cstr "kxc" ++ decimal n ∧ (0 : UInt8) ∉ cstr "ksc" ++ decimal n ∧
      ((decimal n).getD 0 0).toNat = 0x30 + n / 10 ∧ ((decimal n).getD 1 0).toNat = 0x30 + n % 10 := by decide
  obtain ⟨hkxc, hksc, hhigh, hlow⟩ := hdigits container hlt
  have hstart : ∀ {field text : List UInt8}, (0 : UInt8) ∉ text → nameOf field = text →
      field.take text.length = text := by
    intro field text htext heq
    apply (nameOf_starts_iff htext).mp
    exact heq ▸ List.prefix_rfl
  have hdirField : ((record.drop 12).take 8).take 4 = cstr "mscp" := hstart (by decide) hdir
  -- the five characters of the name
  obtain ⟨kind, hkind, hnameField⟩ : ∃ kind, (kind = cstr "kxc" ∨ kind = cstr "ksc") ∧
      ((record.drop 4).take 8).take 5 = kind ++ decimal container := by
    rcases hname with hname | hname
    · exact ⟨_, .inl rfl, hstart hkxc hname⟩
    · exact ⟨_, .inr rfl, hstart hksc hname⟩
  have hkindLength : kind.length = 3 := by rcases hkind with rfl | rfl <;> rfl
  rw [List.take_take] at hdirField hnameField
  have hletters : (record.drop 4).take 3 = kind := by
    have hthree : (kind ++ decimal container).take 3 = kind := by
      rw [List.take_append_of_le_length (by omega), List.take_of_length_le (by omega)]
    rw [← hnameField, List.take_take] at hthree
    exact hthree
  have hbyte : ∀ k, k < 2 → (Mem.zero.write 0 record) (7 + k) = (decimal container).getD k 0 := by
    intro k hk
    have := congrArg (fun name => name.getD (3 + k) 0) hnameField
    simp only [List.getD_eq_getElem?_getD] at this ⊢
    rw [List.getElem?_take_of_lt (by omega), List.getElem?_drop, List.getElem?_append_right (by omega),
      hkindLength, Nat.add_sub_cancel_left] at this
    rw [Mem.write_of_mem (Nat.zero_le _) (by omega), Nat.sub_zero, List.getD_eq_getElem?_getD, ← this]
    congr 2
    omega
  constructor
  · rw [isCertificateRecord, decide_eq_true_eq, Mem.slice_write_drop _ (by omega), Mem.slice_write_drop _ (by omega),
      hletters]
    exact ⟨hdirField, hkind⟩
  · rw [recordContainer, hbyte 0 (by decide), hbyte 1 (by decide), hhigh, hlow]
    omega

section Lookup

variable {σ : Type} {T : Transport σ} {image : CertImage} {channel : UInt8} {current : σ → Nat}
  {s : Linked σ Mias}

theorem CertImage.mem_of_linked {container : Int} {record : List UInt8} (h : image.linked container = some record) :
    record ∈ image.records :=
  (List.mem_filter.mp (List.mem_of_getLast? h)).1

/-- What the lookup delivers, once the table is there. -/
theorem getCertificateByContainerId_attains (h : image.ServedBy T channel current)
    (hlists : Attains (listKeyPairs T) s fun _ s' => Tabled image channel image.records s'.obj)
    (efSize : UInt16) (containerId : UInt8) (cert : Option Mem) (len : Nat) :
    Attains (getCertificateByContainerId T efSize containerId cert len) s fun fetched s' =>
      Tabled image channel image.records s'.obj ∧
      (¬(image.Holder containerId.toNat ∧ ∃ record, image.linked containerId.toNat = some record) →
        fetched = ⟨false, cert, len⟩) ∧
      (image.Holder containerId.toNat → ∀ record, image.linked containerId.toNat = some record →
        fetched = delivered cert (image.fileOf record)) := by
  have hfind : Attains (getKeyPairByContainerId T containerId) s fun found s' =>
      Tabled image channel image.records s'.obj ∧ found = s'.obj.findContainer containerId.toNat := by
    apply hlists.bind
    intro _ s' htabled
    exact ⟨_, s', .gets, htabled, rfl⟩
  apply hfind.bind
  rintro found s₁ ⟨htabled, rfl⟩
  rcases hcase : s₁.obj.findContainer containerId.toNat with _ | index
  · have hnot : ¬image.Holder containerId.toNat := by
      rw [← htabled.found_iff, hcase]
      rintro ⟨j, hj⟩
      cases hj
    exact .pure ⟨htabled, fun _ => rfl, fun hholder => absurd hholder hnot⟩
  · have hholder : image.Holder containerId.toNat := (htabled.found_iff _).mp ⟨index, hcase⟩
    have hlinked := htabled.linked_eq _ index hcase
    apply Attains.gets_bind
    rcases hlast : image.linked containerId.toNat with _ | record
    · rw [CertImage.linked] at hlast
      rw [hlast] at hlinked
      rw [if_neg (by rw [hlinked]; decide)]
      refine .pure ⟨htabled, fun _ => rfl, ?_⟩
      intro _ record hrecord
      cases hrecord
    · have hmem : record ∈ image.records := CertImage.mem_of_linked hlast
      have hfilter := hlast
      rw [CertImage.linked] at hfilter
      rw [hfilter] at hlinked
      obtain ⟨hcert, hid⟩ := hlinked
      have hpresent : image.Present (efidOf record) := .inr (.inr ⟨record, hmem, rfl⟩)
      obtain ⟨htemplate, hpos, hsize⟩ := image.template (efidOf record) hpresent
      -- all that is left is to select and read the file
      suffices Attains _ s₁ fun fetched s' => Rests current (efidOf record) s₁.obj s' ∧
          fetched = delivered cert (image.fileOf record) by
        obtain ⟨fetched, s', hrun, hs', hfetched⟩ := this
        refine ⟨fetched, s', hrun, hs'.obj_eq ▸ htabled, fun hnot => absurd ⟨hholder, record, rfl⟩ hnot, ?_⟩
        intro _ record' hrecord'
        cases hrecord'
        exact hfetched
      rw [if_pos hcert, hid]
      have hselect := selectFileLe_yields h htabled.ready hpresent (.inr rfl)
      rw [efidOf_bytes] at hselect
      apply hselect.bind_attains
      rintro s₂ ⟨hs₂, hholds⟩
      rw [if_pos rfl]
      have hfcp : Yields (onSE (templateSize efSize.toNat)) s₂ (image.contents (efidOf record)).length (· = s₂) := by
        refine Yields.zoom (templateSize_yields htemplate (by omega) hholds _) ?_
        rintro se rfl
        rfl
      apply hfcp.bind_attains
      intro s₃ hs₃
      subst hs₃
      rw [if_pos (by omega)]
      cases cert with
      | none => exact .pure ⟨hs₂, rfl⟩
      | some buffer =>
          have hcontent : image.contents (efidOf record) = [] ++ image.contents (efidOf record) ++ [] := by simp
          have hwidth : 0xEE < 256 := by decide
          have hread := h.reads.readChunks htabled.ready hs₂ hcontent (by omega) rfl hwidth buffer
          apply hread.bind_attains
          intro s₄ hs₄
          by_cases hrefused : (buffer.write 0 (image.contents (efidOf record))) 0 = 0x01 ∧
              (buffer.write 0 (image.contents (efidOf record))) 1 = 0x00
          · rw [if_pos hrefused]
            refine .pure ⟨hs₄, ?_⟩
            rw [delivered, CertImage.fileOf, decide_eq_true hrefused]
            rfl
          · rw [if_neg hrefused]
            refine .pure ⟨hs₄, ?_⟩
            rw [delivered, CertImage.fileOf, decide_eq_false hrefused]
            rfl

end Lookup

/-! ### Which lookups are right -/

/-- The lookup with a buffer and the one without deliver the certificate of the container. -/
structure CertImage.Delivers (image : CertImage) (container : Nat) (null fetched : Fetched) : Prop where
  returns : fetched.ok = true ↔ image.Holder container ∧
    ∃ record ∈ image.records, IsEntry container record ∧ ¬IsCompressed (image.fileOf record)
  delivers : fetched.ok = true → ∀ record ∈ image.records, IsEntry container record →
    fetched.len = (image.fileOf record).length ∧
      ∃ out, fetched.out = some out ∧ out.slice 0 fetched.len = image.fileOf record
  null_returns : null.ok = true ↔ image.Holder container ∧ ∃ record ∈ image.records, IsEntry container record
  null_len : null.ok = true → ∀ record ∈ image.records, IsEntry container record →
    null.len = (image.fileOf record).length

/-- The last record that looks like the entry names the certificate of the entry, and this is not the single
byte that is taken for the start of a compressed one. -/
def CertImage.Distinct (image : CertImage) (container : Nat) (buffer : Mem) : Prop :=
  ∀ record, image.linked container = some record →
    (∃ entry ∈ image.records, IsEntry container entry ∧ (image.fileOf record = image.fileOf entry ∨
      IsCompressed (image.fileOf record) ∧ IsCompressed (image.fileOf entry) ∧
        (image.fileOf record).length = (image.fileOf entry).length)) ∧
    ¬(image.fileOf record = [0x01] ∧ buffer 1 = 0x00)

section Correctness

variable {image : CertImage} {container : Nat} {buffer : Mem} {len : Nat} {record entry : List UInt8}

theorem CertImage.entry_unique (hentry : entry ∈ image.records) (his : IsEntry container entry)
    (hrecord : record ∈ image.records) (his' : IsEntry container record) : record = entry := by
  have hle := image.one_entry container
  have hmem : ∀ {r}, r ∈ image.records → IsEntry container r →
      r ∈ image.records.filter fun record => IsEntry container record := fun hr hir =>
    List.mem_filter.mpr ⟨hr, decide_eq_true hir⟩
  have hin := hmem hentry his
  have hin' := hmem hrecord his'
  match hlist : image.records.filter fun record => IsEntry container record with
  | [] =>
      rw [hlist] at hin
      cases hin
  | [only] =>
      rw [hlist, List.mem_singleton] at hin hin'
      rw [hin, hin']
  | _ :: _ :: _ =>
      rw [hlist] at hle
      simp at hle

theorem CertImage.linked_of_entry (hentry : entry ∈ image.records) (his : IsEntry container entry) :
    ∃ record, image.linked container = some record := by
  have hlooks := his.looksLike (image.record_length entry hentry)
  have hmem : entry ∈ image.records.filter fun record => LooksLikeEntry container record :=
    List.mem_filter.mpr ⟨hentry, decide_eq_true hlooks⟩
  rcases hlast : image.linked container with _ | record
  · rw [CertImage.linked, List.getLast?_eq_none_iff] at hlast
    rw [hlast] at hmem
    cases hmem
  · exact ⟨record, rfl⟩

theorem CertImage.fileOf_ne_nil (h : record ∈ image.records) : image.fileOf record ≠ [] := by
  have hpos := (image.template (efidOf record) (.inr (.inr ⟨record, h, rfl⟩))).2.1
  exact List.length_pos_iff.mp hpos

/-- Without a record that looks like the entry there is nothing to deliver. -/
theorem CertImage.delivers_nothing (h : ¬(image.Holder container ∧ ∃ record, image.linked container = some record)) :
    image.Delivers container ⟨false, none, len⟩ ⟨false, some buffer, len⟩ := by
  have hnone : ¬(image.Holder container ∧ ∃ record ∈ image.records, IsEntry container record) := by
    rintro ⟨hholder, record, hmem, his⟩
    exact h ⟨hholder, image.linked_of_entry hmem his⟩
  refine ⟨iff_of_false Bool.false_ne_true ?_, fun hfalse => absurd hfalse Bool.false_ne_true,
    iff_of_false Bool.false_ne_true hnone, fun hfalse => absurd hfalse Bool.false_ne_true⟩
  rintro ⟨hholder, record, hmem, his, _⟩
  exact hnone ⟨hholder, record, hmem, his⟩

/-- The file of the last record that looks like the entry is the right one exactly if it is as good as the file
of the entry. -/
theorem CertImage.delivers_iff (hholder : image.Holder container) (hlinked : image.linked container = some record) :
    image.Delivers container (delivered none (image.fileOf record)) (delivered (some buffer) (image.fileOf record)) ↔
      (∃ entry ∈ image.records, IsEntry container entry ∧ (image.fileOf record = image.fileOf entry ∨
        IsCompressed (image.fileOf record) ∧ IsCompressed (image.fileOf entry) ∧
          (image.fileOf record).length = (image.fileOf entry).length)) ∧
      ¬(image.fileOf record = [0x01] ∧ buffer 1 = 0x00) := by
  have hrefused := refused_iff (image.fileOf_ne_nil (image.mem_of_linked hlinked)) buffer
  have hok : (delivered (some buffer) (image.fileOf record)).ok = true ↔
      ¬(IsCompressed (image.fileOf record) ∨ image.fileOf record = [0x01] ∧ buffer 1 = 0x00) := by
    rw [← hrefused]
    simp only [delivered, Bool.not_eq_true', decide_eq_false_iff_not]
  have hcompressed : ∀ {file : List UInt8}, IsCompressed file → 2 ≤ file.length := fun h => h.length_le
  constructor
  · intro h
    obtain ⟨_, entry, hentry, his⟩ := h.null_returns.mp rfl
    have hlen : (image.fileOf record).length = (image.fileOf entry).length := h.null_len rfl entry hentry his
    by_cases htrue : (delivered (some buffer) (image.fileOf record)).ok = true
    · obtain ⟨_, out, hout, hslice⟩ := h.delivers htrue entry hentry his
      cases hout
      have hsame : image.fileOf record = image.fileOf entry := by
        rw [← hslice]
        exact (Mem.slice_write_self buffer 0 _).symm
      exact ⟨⟨entry, hentry, his, .inl hsame⟩, fun hone => hok.mp htrue (.inr hone)⟩
    · -- a refusal is right only for a compressed certificate
      have hentryCompressed : IsCompressed (image.fileOf entry) := by
        by_contra hnot
        exact htrue (h.returns.mpr ⟨hholder, entry, hentry, his, hnot⟩)
      have htwo := hcompressed hentryCompressed
      rw [hok, not_not] at htrue
      rcases htrue with hthis | ⟨hone, _⟩
      · refine ⟨⟨entry, hentry, his, .inr ⟨hthis, hentryCompressed, hlen⟩⟩, ?_⟩
        rintro ⟨hone, _⟩
        have := hcompressed hthis
        rw [hone] at this
        simp at this
      · rw [← hlen, hone] at htwo
        simp at htwo
  · rintro ⟨⟨entry, hentry, his, hsame⟩, hone⟩
    have hunique : ∀ r ∈ image.records, IsEntry container r → r = entry := fun r hr hir =>
      image.entry_unique hentry his hr hir
    have hlen : (image.fileOf record).length = (image.fileOf entry).length := by
      rcases hsame with heq | ⟨_, _, hlen⟩
      · rw [heq]
      · exact hlen
    have hboth : IsCompressed (image.fileOf record) ↔ IsCompressed (image.fileOf entry) := by
      rcases hsame with heq | ⟨hthis, hthat, _⟩
      · rw [heq]
      · exact iff_of_true hthis hthat
    have hreturns : (delivered (some buffer) (image.fileOf record)).ok = true ↔
        ¬IsCompressed (image.fileOf entry) := by
      rw [hok, hboth]
      constructor
      · exact fun h hcomp => h (.inl hcomp)
      · exact fun h hcase => hcase.elim h hone
    refine ⟨?_, ?_, iff_of_true rfl ⟨hholder, entry, hentry, his⟩, ?_⟩
    · rw [hreturns]
      constructor
      · exact fun h => ⟨hholder, entry, hentry, his, h⟩
      · rintro ⟨_, r, hr, hir, hnot⟩
        rw [hunique r hr hir] at hnot
        exact hnot
    · intro htrue r hr hir
      rw [hunique r hr hir]
      have heq : image.fileOf record = image.fileOf entry := by
        rcases hsame with heq | ⟨_, hthat, _⟩
        · exact heq
        · exact absurd hthat (hreturns.mp htrue)
      refine ⟨hlen, buffer.write 0 (image.fileOf record), rfl, ?_⟩
      rw [← heq]
      exact Mem.slice_write_self buffer 0 _
    · intro _ r hr hir
      rw [hunique r hr hir]
      exact hlen

/-- **Certificate lookup**: from an empty table, the certificate of a container is delivered exactly if the
container has no key, or no record but its entry decides, and the certificate is not the single byte `01`
in front of a zero byte of the caller. -/
theorem getCertificateByContainerId_delivers_iff {σ : Type} {T : Transport σ} {channel : UInt8} {current : σ → Nat}
    (h : image.ServedBy T channel current) {s : Linked σ Mias} (hready : Ready channel s.obj)
    (hnum : s.obj.keypairsNum = -1) (hzero : ∀ j, s.obj.keypairs j = .zero) (efSize : UInt16) (containerId : UInt8)
    (buffer : Mem) (len : Nat) :
    ∃ null s₁ fetched s₂,
      Evals (getCertificateByContainerId T efSize containerId none len) s null s₁ ∧
      Evals (getCertificateByContainerId T efSize containerId (some buffer) len) s fetched s₂ ∧
      (image.Delivers containerId.toNat null fetched ↔
        (image.Holder containerId.toNat → image.Distinct containerId.toNat buffer)) := by
  have hlists := listKeyPairs_attains h hready hnum hzero
  obtain ⟨null, s₁, hnull, _, hnullNone, hnullSome⟩ :=
    getCertificateByContainerId_attains h hlists efSize containerId none len
  obtain ⟨fetched, s₂, hfetched, _, hfetchedNone, hfetchedSome⟩ :=
    getCertificateByContainerId_attains h hlists efSize containerId (some buffer) len
  refine ⟨null, s₁, fetched, s₂, hnull, hfetched, ?_⟩
  by_cases hcase : image.Holder containerId.toNat ∧ ∃ record, image.linked containerId.toNat = some record
  · obtain ⟨hholder, record, hlinked⟩ := hcase
    rw [hnullSome hholder record hlinked, hfetchedSome hholder record hlinked,
      image.delivers_iff hholder hlinked]
    constructor
    · rintro hdistinct _ record' hlinked'
      rw [hlinked] at hlinked'
      cases hlinked'
      exact hdistinct
    · exact fun hdistinct => hdistinct hholder record hlinked
  · rw [hnullNone hcase, hfetchedNone hcase]
    refine iff_of_true (image.delivers_nothing hcase) ?_
    intro hholder record hlinked
    exact absurd ⟨hholder, record, hlinked⟩ hcase

end Correctness

/-! ### Cards with the files of an image -/

/-- Every image has a card. -/
theorem CertImage.fileCard_served (image : CertImage) (channel : UInt8) :
    image.ServedBy (fileCard image.contents image.templates) channel id where
  reads := fileCard_serves channel _
  selects := by
    intro card efid le hpresent _
    have hlt : efid < 65536 := by
      rcases hpresent with rfl | rfl | ⟨record, _, rfl⟩
      · decide
      · decide
      · exact word16_lt _ _
    have hfit : (image.templates efid).length ≤ 256 := by
      obtain ⟨⟨tlvs, htemplate, hshort, _⟩, _⟩ := image.template efid hpresent
      rw [htemplate]
      simp only [List.length_cons]
      omega
    exact ⟨efid, fileCard_selects channel card hlt hfit [le], rfl⟩

/-- A template with the size only. -/
def sizeTemplate (size : Nat) : List UInt8 := [0x62, 0x04, 0x81, 0x02, highByte size, lowByte size]

theorem sizeTemplate_is (size : Nat) : IsTemplate (sizeTemplate size) size :=
  ⟨[(0x81, [highByte size, lowByte size])], rfl, by simp [tlvBytes], by simp⟩

def containerRecord : List UInt8 := [1, 0, 0, 0, 0x08, 0x00, 0, 0, 0, 0, 0]

def entryRecord : List UInt8 :=
  [0x20, 0x00, 0x00, 0x10] ++ cstr "kxc00" ++ [0, 0, 0] ++ cstr "mscp" ++ [0, 0, 0, 0, 0]

/-- A card with one RSA 2048 signature key and its certificate. -/
def oneCertificate (file : List UInt8) (hpos : 1 ≤ file.length) (hsize : file.length ≤ 32767) : CertImage where
  containers := [containerRecord]
  records := [entryRecord]
  slack := []
  contents := fun efid =>
    if efid = containersId then containerRecord else if efid = directoryId then 1 :: entryRecord else file
  templates := fun efid => sizeTemplate
    (if efid = containersId then containerRecord else if efid = directoryId then 1 :: entryRecord else file).length
  containers_few := by decide
  container_length := by decide
  containers_eq := rfl
  records_few := by decide
  record_length := by decide
  directory := rfl
  one_entry := fun container => List.length_filter_le _ _
  template := by
    intro efid _
    refine ⟨sizeTemplate_is _, ?_⟩
    split
    · decide
    · split
      · decide
      · exact ⟨hpos, hsize⟩

/-- The interface and the object before the first lookup. -/
def beforeLookup : Linked Nat Mias := ⟨.create 0 Mem.zero, selectedMias⟩

theorem getCertificateByContainerId_sample : ∃ null s₁ fetched s₂,
    Evals (getCertificateByContainerId (fileCard (oneCertificate [0x30, 0x03, 0x01] (by decide) (by decide)).contents
      (oneCertificate [0x30, 0x03, 0x01] (by decide) (by decide)).templates) 0 0 none 0) beforeLookup null s₁ ∧
    Evals (getCertificateByContainerId (fileCard (oneCertificate [0x30, 0x03, 0x01] (by decide) (by decide)).contents
      (oneCertificate [0x30, 0x03, 0x01] (by decide) (by decide)).templates) 0 0 (some Mem.zero) 0) beforeLookup
      fetched s₂ ∧
    (oneCertificate [0x30, 0x03, 0x01] (by decide) (by decide)).Delivers 0 null fetched := by
  obtain ⟨null, s₁, fetched, s₂, hnull, hfetched, hdelivers⟩ := getCertificateByContainerId_delivers_iff
    ((oneCertificate [0x30, 0x03, 0x01] (by decide) (by decide)).fileCard_served 0) (s := beforeLookup)
    selectedMias_ready rfl (fun _ => rfl) 0 0 Mem.zero 0
  refine ⟨null, s₁, fetched, s₂, hnull, hfetched, hdelivers.mpr ?_⟩
  intro _ record hrecord
  have hlinked : (oneCertificate [0x30, 0x03, 0x01] (by decide) (by decide)).linked 0 = some entryRecord := by decide
  have hsame : entryRecord = record := Option.some.inj (hlinked.symm.trans hrecord)
  subst hsame
  exact ⟨⟨entryRecord, by decide, by decide, .inl rfl⟩, by decide⟩

/-- A certificate file of the single byte `01` is refused, for the zero behind it in the caller's buffer. -/
theorem getCertificateByContainerId_refuses_byte : ∃ null s₁ fetched s₂,
    Evals (getCertificateByContainerId (fileCard (oneCertificate [0x01] (by decide) (by decide)).contents
      (oneCertificate [0x01] (by decide) (by decide)).templates) 0 0 none 0) beforeLookup null s₁ ∧
    Evals (getCertificateByContainerId (fileCard (oneCertificate [0x01] (by decide) (by decide)).contents
      (oneCertificate [0x01] (by decide) (by decide)).templates) 0 0 (some Mem.zero) 0) beforeLookup fetched s₂ ∧
    ¬(oneCertificate [0x01] (by decide) (by decide)).Delivers 0 null fetched := by
  have hserved := (oneCertificate [0x01] (by decide) (by decide)).fileCard_served 0
  have hlists := listKeyPairs_attains hserved (s := beforeLookup) selectedMias_ready rfl fun _ => rfl
  have hholder : (oneCertificate [0x01] (by decide) (by decide)).Holder 0 := ⟨containerRecord, rfl, by decide⟩
  have hlinked : (oneCertificate [0x01] (by decide) (by decide)).linked 0 = some entryRecord := by decide
  obtain ⟨null, s₁, hnull, _, _, hnullSome⟩ := getCertificateByContainerId_attains hserved hlists 0 0 none 0
  obtain ⟨fetched, s₂, hfetched, _, _, hfetchedSome⟩ :=
    getCertificateByContainerId_attains hserved hlists 0 0 (some Mem.zero) 0
  refine ⟨null, s₁, fetched, s₂, hnull, hfetched, ?_⟩
  rw [hnullSome hholder entryRecord hlinked, hfetchedSome hholder entryRecord hlinked]
  intro hdelivers
  have hfile : (oneCertificate [0x01] (by decide) (by decide)).fileOf entryRecord = [0x01] := by decide
  exact ((CertImage.delivers_iff hholder hlinked).mp hdelivers).2 ⟨hfile, rfl⟩

end TrustOnboard.Mias
