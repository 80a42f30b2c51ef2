import TrustOnboard.MiasCertificates
import TrustOnboard.SdkExport

/-! Sizes that are asked for with NULL buffers, and the extraction that follows. A caller allocates what it was told;
the extraction has to stay below it in every buffer. -/

namespace TrustOnboard.Sdk

open Exec Linked SEInterface

variable {σ α : Type} {T : Transport σ} {channels : UInt8 → Prop} {shows : σ → α} {before after : α}
    {accepted : Bool} {s : Sdk σ}

/-- An extraction into a buffer agrees with the size that was asked for before it. -/
structure Agrees (query : Extract) (buffer : Mem) (got : Extract) : Prop where
  ret : got.ret = 0
  inside : ∃ out, got.out = some out ∧ ∀ i : Nat, query.size ≤ i → out i = buffer i
  size_le : got.size ≤ query.size

theorem cropLoop_le (pem : Mem) (remaining i matched : Nat) : cropLoop pem remaining i matched ≤ i + remaining := by
  induction remaining generalizing i matched with
  | zero => exact Nat.le_refl i
  | succ remaining ih =>
      rw [cropLoop]
      split
      · split
        · omega
        · have := ih (i + 1) (matched + 1)
          omega
      · have := ih (i + 1) 0
        omega

section Objects

variable {image : Mias.P11Image} {current : σ → Nat} {text : List UInt8}

/-- The available certificate on the card, under the first label or else the legacy one. -/
def certificateOn (image : Mias.P11Image) : Option Mias.P11File :=
  (image.lookup (cstr "CERT_AVAILABLE")).or (image.lookup (cstr "CERT_TYPE_A"))

section Visits

variable (hcard : Applet.Admits T channels Mias.aid)
    (hfiles : ∀ channel, channels channel → image.ServedBy T channel current) (hpin : (cut text).length ≤ 257)

include hcard hfiles hpin

theorem tobX509CrtExtractSe_visits {path label : List UInt8} (hpath : path = SE_MIAS_P11_KEY_NAME_PREFIX ++ label)
    (hef : SE_EF_KEY_NAME_PREFIX.isPrefixOf path = false) (hlabel : label.length < 65536)
    (hverdict : PinVerdict T channels shows (cut text) before after accepted) (hinit : Initialized s)
    (hbefore : shows s.se.card = before) (locals : Locals) (cert : Option Mem) (size : Int) :
    Attains (tobX509CrtExtractSe T locals cert size path (some text)) s fun result s' => Visited shows after s s' ∧
      result = p11Answer accepted (image.lookup label) cert size := by
  unfold tobX509CrtExtractSe
  rw [if_neg (by rw [hef]; exact Bool.false_ne_true), hpath,
    if_pos (by rw [List.isPrefixOf_iff_prefix]; exact List.prefix_append _ _), List.drop_left]
  exact seP11ReadObject_visits hcard hverdict hfiles hinit hbefore hpin hlabel locals cert size

theorem tobExtractAvailableCertificate_visits (hverdict : PinVerdict T channels shows (cut text) before after accepted)
    (hagain : accepted = true → PinVerdict T channels shows (cut text) after after true) (hinit : Initialized s)
    (hbefore : shows s.se.card = before) (locals legacyLocals : Locals) (cert : Option Mem) (size : Int) :
    Attains (tobExtractAvailableCertificate T locals legacyLocals cert size (some text)) s fun result s' =>
      Visited shows after s s' ∧ result = cropExtract (p11Answer accepted (certificateOn image) cert size) := by
  have hfirst : Attains (tobX509CrtExtractSe T locals cert size CERT_MIAS_PATH (some text)) s fun result s' =>
      Visited shows after s s' ∧ result = id (p11Answer accepted (image.lookup (cstr "CERT_AVAILABLE")) cert size) :=
    tobX509CrtExtractSe_visits hcard hfiles hpin rfl (by decide) (by decide) hverdict hinit hbefore locals cert size
  have hsecond : accepted = true → ∀ s' : Sdk σ, Visited shows after s s' →
      Attains (tobX509CrtExtractSe T legacyLocals cert size CERT_MIAS_PATH_LEGACY (some text) >>= fun second =>
        pure (cropExtract second)) s' fun result s'' => Visited shows after s s'' ∧
          result = cropExtract (id (p11Answer accepted (image.lookup (cstr "CERT_TYPE_A")) cert size)) := by
    rintro rfl s' hvisited
    have hread : Attains (tobX509CrtExtractSe T legacyLocals cert size CERT_MIAS_PATH_LEGACY (some text))
      s' fun result s'' =>
        Visited shows after s' s'' ∧ result = p11Answer true (image.lookup (cstr "CERT_TYPE_A")) cert size :=
      tobX509CrtExtractSe_visits hcard hfiles hpin rfl (by decide) (by decide) (hagain rfl) hvisited.initialized
        hvisited.shows_eq legacyLocals cert size
    apply hread.bind
    rintro result s₁ ⟨hvisited₁, rfl⟩
    exact .pure ⟨hvisited.trans hvisited₁, rfl⟩
  exact fallback_attains (fun _ _ => rfl) (fun _ => rfl) hfirst hsecond

end Visits

end Objects

/-! ### The signing certificate -/

section Signing

variable {image : Mias.CertImage} {current : σ → Nat}

/-- The table of key pairs is the one of the card. -/
structure Known (image : Mias.CertImage) (m : Mias) : Prop where
  listed : m.keypairsNum ≠ -1
  found_iff : ∀ c : Nat, (∃ j, m.findContainer c = some j) ↔ image.Holder c
  linked_eq : ∀ (container : Int) (j : Nat), m.findContainer container = some j →
    match image.linked container with
    | none => (m.keypairs j).hasCert = false
    | some record => (m.keypairs j).hasCert = true ∧ (m.keypairs j).pubFileId = (record.getD 0 0, record.getD 1 0)

/-- The table is not read yet, or it is the one of the card. -/
def Prepared (image : Mias.CertImage) (m : Mias) : Prop :=
  (m.keypairsNum = -1 ∧ ∀ j, m.keypairs j = .zero) ∨ Known image m

/-- What the read of a certificate returns, from what the applet has delivered. -/
def certificateAnswer (fetched : Mias.Fetched) (size : Int) : Extract :=
  if fetched.ok then ⟨0, fetched.out, fetched.len⟩ else ⟨ERR_SE_BAD_KEY_NAME_ERROR, fetched.out, size⟩

section Visits

variable {P : Mias → Prop} (hcard : Applet.Admits T channels Mias.aid)
  (hspares : Spares T shows)
  (hfiles : ∀ channel, channels channel → image.ServedBy T channel current) (hinit : Initialized s)
  (hsame : ∀ m m', Mias.SameKeys m m' → P m → P m')
  (hlists : ∀ channel (t : Linked σ Mias), channels channel → Mias.Ready channel t.obj → Mias.SameKeys s.mias t.obj →
    Attains (Mias.listKeyPairs T) t fun _ t' => Mias.Tabled image channel image.records t'.obj ∧ P t'.obj)

include hcard hspares hfiles hinit hsame hlists

/-- The read of a certificate, with a property of the table that the listing ends in. -/
theorem certificateSelected_visits (locals : Locals) (cid : UInt8) (cert : Option Mem) (size : Int) :
    Attains (certificateSelected T locals cid cert size) s fun result s' =>
      (Initialized s' ∧ P s'.mias ∧ shows s'.se.card = shows s.se.card) ∧
      (¬(image.Holder cid.toNat ∧ ∃ record, image.linked cid.toNat = some record) →
        result = ⟨ERR_SE_BAD_KEY_NAME_ERROR, cert, size⟩) ∧
      (image.Holder cid.toNat → ∀ record, image.linked cid.toNat = some record →
        result = certificateAnswer (Mias.delivered cert (image.fileOf record)) size) := by
  apply (visit_selects hcard hspares hinit).bind
  rintro ok s₁ ⟨rfl, hvisited, channel, hchannel, hready⟩
  rw [if_pos rfl]
  have hlisted := hlists channel ⟨s₁.se, s₁.mias⟩ hchannel hready hvisited.keys
  have htables : Attains (Mias.listKeyPairs T) (⟨s₁.se, s₁.mias⟩ : Linked σ Mias) fun _ t' =>
      Mias.Tabled image channel image.records t'.obj := by
    obtain ⟨value, t', hrun, htabled, _⟩ := hlisted
    exact ⟨value, t', hrun, htabled⟩
  have hkept : Attains (Mias.listKeyPairs T) (⟨s₁.se, s₁.mias⟩ : Linked σ Mias) fun _ t' => P t'.obj := by
    obtain ⟨value, t', hrun, _, hP⟩ := hlisted
    exact ⟨value, t', hrun, hP⟩
  have hwithin : Stays (Within T Mias.applet (· ≠ .verify) fun _ => True)
      (Mias.getCertificateByContainerId T locals.efSize cid cert 0) :=
    Mias.getCertificateByContainerId_stays Mias.within_bears (by decide) (by decide) (fun _ _ => trivial) _ _ _ _
  have hattains := Mias.getCertificateByContainerId_attains (hfiles channel hchannel) htables locals.efSize cid cert 0
  have hfetch := (hattains.meets
    (Mias.getCertificateByContainerId_keepsKeys hsame hkept locals.efSize cid cert 0)).stays hwithin
  have hfetched : Attains (onMias (Mias.getCertificateByContainerId T locals.efSize cid cert 0)) s₁ fun fetched t =>
      (Initialized t ∧ P t.mias ∧ shows t.se.card = shows s.se.card) ∧
      (¬(image.Holder cid.toNat ∧ ∃ record, image.linked cid.toNat = some record) → fetched = ⟨false, cert, 0⟩) ∧
      (image.Holder cid.toNat → ∀ record, image.linked cid.toNat = some record →
        fetched = Mias.delivered cert (image.fileOf record)) := by
    refine Attains.zoom hfetch ?_
    rintro fetched t ⟨⟨⟨_, hnone, hsome⟩, hP⟩, hgrows⟩
    have happlet := hgrows.1
    refine ⟨⟨⟨?_, ?_⟩, hP, ?_⟩, hnone, hsome⟩
    · rw [← hvisited.initialized.attached]
      exact congrArg Applet.attached happlet
    · rw [← hvisited.initialized.aid_eq]
      exact congrArg Applet.aid happlet
    · exact (shows_onWire hspares hgrows.onWire).trans hvisited.shows_eq
  apply hfetched.bind
  rintro fetched t ⟨hkeeps, hnone, hsome⟩
  have hanswer : Attains (if fetched.ok = true then pure (⟨0, fetched.out, fetched.len⟩ : Extract)
      else pure ⟨ERR_SE_BAD_KEY_NAME_ERROR, fetched.out, size⟩) t fun result s' =>
        result = certificateAnswer fetched size ∧ s' = t := by
    unfold certificateAnswer
    split
    · exact .pure ⟨rfl, rfl⟩
    · exact .pure ⟨rfl, rfl⟩
  obtain ⟨result, t', hrun, rfl, rfl⟩ := hanswer
  refine ⟨_, _, hrun, hkeeps, ?_, ?_⟩
  · intro hnot
    rw [hnone hnot]
    rfl
  · intro hholder record hlinked
    rw [hsome hholder record hlinked]

/-- The certificate of container 0. -/
theorem tobExtractSigningDer_visits (locals : Locals) (der : Option Mem) (size : Int) (pin : Option (List UInt8)) :
    Attains (tobX509CrtExtractSe T locals der size CERT_SIGNING_MIAS_PATH pin) s fun result s' =>
      (Initialized s' ∧ P s'.mias ∧ shows s'.se.card = shows s.se.card) ∧
      (¬(image.Holder 0 ∧ ∃ record, image.linked 0 = some record) → result = ⟨ERR_SE_BAD_KEY_NAME_ERROR, der, size⟩) ∧
      (image.Holder 0 → ∀ record, image.linked 0 = some record →
        result = certificateAnswer (Mias.delivered der (image.fileOf record)) size) := by
  unfold tobX509CrtExtractSe
  rw [if_neg (by decide), if_neg (by decide), if_pos (by decide)]
  have hcid : containerIdOf (CERT_SIGNING_MIAS_PATH.drop SE_MIAS_KEY_NAME_PREFIX.length) = 0 := by decide
  rw [hcid]
  apply (certificateSelected_visits hcard hspares hfiles hinit hsame hlists locals 0 der size).bind
  rintro result s₁ ⟨⟨hinit₁, hP, hshows⟩, hnone, hsome⟩
  apply (visit_deselects hcard hspares hinit₁).bind
  rintro _ s₂ hvisited
  exact .pure ⟨⟨hvisited.initialized, hsame _ _ hvisited.keys hP, hvisited.shows_eq.trans hshows⟩, hnone, hsome⟩

end Visits

theorem Known.same {m m' : Mias} (hsame : Mias.SameKeys m m') (h : Known image m) : Known image m' := by
  have hfind : ∀ container, m'.findContainer container = m.findContainer container := by
    intro container
    unfold Mias.findContainer
    rw [hsame.1, hsame.2]
  refine ⟨by rw [hsame.2]; exact h.listed, fun c => ?_, fun container j => ?_⟩
  · rw [hfind]
    exact h.found_iff c
  · rw [hfind, hsame.1]
    exact h.linked_eq container j

theorem Prepared.same {m m' : Mias} (hsame : Mias.SameKeys m m') (h : Prepared image m) : Prepared image m' := by
  rcases h with ⟨hnum, hzero⟩ | hknown
  · exact .inl ⟨by rw [hsame.2]; exact hnum, by rw [hsame.1]; exact hzero⟩
  · exact .inr (hknown.same hsame)

end Signing

/-! ### Queries and extractions -/

def noLocals : Locals := ⟨⟨Mem.zero, 0⟩, 0, 0⟩

/-- The record of an RSA 2048 key for signatures and decryption. -/
def exchangeRecord : List UInt8 := [1, 0, 0, 0, 0, 0, 0x08, 0x00, 0, 0, 0]

/-- An object "CERT_AVAILABLE" with a value of four bytes. -/
def certificateFile : Mias.P11File where
  header := List.replicate 16 0
  label := cstr "CERT_AVAILABLE"
  application := cstr "tob"
  objectId := []
  long := true
  value := cstr "PEM\n"
  slack := []
  header_length := Mias.blankHeader_length
  label_length := keyFile.label_length
  label_letter := ⟨0x43, List.mem_cons_self, by decide⟩
  application_length := Mias.tobText_length
  objectId_length := Mias.noId_length
  value_length := by rintro ⟨⟩
  value_present := Nat.le_of_ble_eq_true rfl
  content_length := Nat.le_of_ble_eq_true rfl

def certificateRecord : List UInt8 := [0x20, 0x02, 0x00, 0x20] ++ cstr "pubdat02" ++ cstr "p11" ++ [0, 0, 0, 0, 0, 0]

/-- The files of a key with its certificate, and of two objects. -/
def sampleContents (efid : Nat) : List UInt8 :=
  if efid = Mias.containersId then exchangeRecord
  else if efid = Mias.directoryId then 3 :: (Mias.entryRecord ++ keyRecord ++ certificateRecord)
  else if efid = Mias.efidOf keyRecord then keyFile.content
  else if efid = Mias.efidOf certificateRecord then certificateFile.content
  else [0x30, 0x03, 0x01]

theorem sampleContents_bounds (efid : Nat) : 1 ≤ (sampleContents efid).length ∧ (sampleContents efid).length ≤ 32767 := by
  unfold sampleContents
  split
  · decide
  · split
    · decide
    · split
      · decide
      · split <;> decide

theorem sampleRecords_length :
    ∀ record ∈ [Mias.entryRecord, keyRecord, certificateRecord], record.length = 0x15 := by
  intro record hmem
  simp only [List.mem_cons, List.not_mem_nil, or_false] at hmem
  rcases hmem with rfl | rfl | rfl <;> rfl

def sampleCertificates : Mias.CertImage where
  containers := [exchangeRecord]
  records := [Mias.entryRecord, keyRecord, certificateRecord]
  slack := []
  contents := sampleContents
  templates := fun efid => Mias.sizeTemplate (sampleContents efid).length
  containers_few := Nat.le_of_ble_eq_true rfl
  container_length := by simp [exchangeRecord]
  containers_eq := rfl
  records_few := Nat.le_of_ble_eq_true rfl
  record_length := sampleRecords_length
  directory := rfl
  one_entry := by
    intro container
    have hkey : ¬Mias.IsEntry container keyRecord := fun h => absurd h.2.1 (by decide)
    have hcertificate : ¬Mias.IsEntry container certificateRecord := fun h => absurd h.2.1 (by decide)
    rw [List.filter_cons, List.filter_cons_of_neg (by simpa using hkey),
      List.filter_cons_of_neg (by simpa using hcertificate)]
    split <;> simp
  template := fun efid _ => ⟨Mias.sizeTemplate_is _, sampleContents_bounds efid⟩

def sampleObjects : Mias.P11Image where
  records := [Mias.entryRecord, keyRecord, certificateRecord]
  slack := []
  contents := sampleContents
  file := fun efid => if efid = Mias.efidOf certificateRecord then certificateFile else keyFile
  records_few := Nat.le_of_ble_eq_true rfl
  record_length := sampleRecords_length
  directory := rfl
  directory_length := Nat.le_of_ble_eq_true rfl
  objects := by
    intro record hmem hobject
    simp only [List.mem_cons, List.not_mem_nil, or_false] at hmem
    rcases hmem with rfl | rfl | rfl
    · exact absurd hobject (by decide)
    · show sampleContents (Mias.efidOf keyRecord) = _
      decide
    · show sampleContents (Mias.efidOf certificateRecord) = _
      decide

/-- A certificate that says it is compressed. -/
def compressedCertificate : Mias.CertImage := Mias.oneCertificate [0x01, 0x00, 0x03] (by decide) (by decide)

end TrustOnboard.Sdk
