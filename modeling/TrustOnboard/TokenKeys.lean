import TrustOnboard.MiasContainers
import TrustOnboard.SdkQuery

/-! The key pair that the API signs with: the one of container 0, once the table of the card is listed. -/

namespace TrustOnboard

open Exec Linked SEInterface

namespace Mias

/-- The records of the two files, without the certificates. -/
def CertImage.keyFiles (image : CertImage) : KeyFiles where
  containers := image.containers
  records := image.records
  slack := image.slack
  container_length := image.container_length
  containers_size := by
    have hfew := image.containers_few
    rw [flatten_length image.container_length]
    omega
  records_few := image.records_few
  record_length := image.record_length
  directory_size := by
    have hsize := (image.template directoryId (.inr (.inl rfl))).2.2
    rw [image.directory, List.cons_append, List.length_cons] at hsize
    omega

theorem CertImage.keyFiles_contents (image : CertImage) {efid : Nat} (h : efid = containersId ∨ efid = directoryId) :
    image.keyFiles.contents efid = image.contents efid := by
  rcases h with rfl | rfl
  · exact image.containers_eq.symm
  · exact (directory_contents image.keyFiles).trans image.directory.symm

/-- No command to the two files fails. -/
theorem CertImage.ServedBy.heldBy {σ : Type} {T : Transport σ} {image : CertImage} {channel : UInt8} {current : σ → Nat}
    (h : image.ServedBy T channel current) : image.keyFiles.HeldBy T channel current False where
  selectsContainers card := by
    have hpresent : image.Present containersId := .inl rfl
    obtain ⟨card', hsettles, hcurrent⟩ := h.selects card containersId 0x15 hpresent (.inl rfl)
    have haccepted := acceptedResult_append (image.templates containersId)
    have htemplate := (image.template containersId hpresent).1
    rw [image.containers_eq] at htemplate
    refine ⟨some _, card', hsettles, fun hfalse => ?_, fun _ => ⟨hcurrent, _, htemplate, rfl⟩⟩
    rw [haccepted] at hfalse
    cases hfalse
  selectsDirectory card := by
    obtain ⟨card', hsettles, hcurrent⟩ := h.selects card directoryId 0x15 (.inr (.inl rfl)) (.inl rfl)
    have haccepted := acceptedResult_append (image.templates directoryId)
    refine ⟨some _, card', hsettles, fun hfalse => ?_, fun _ => hcurrent⟩
    rw [haccepted] at hfalse
    cases hfalse
  reads card offset le hefid hpos hrange := by
    have hpresent : image.Present (current card) := hefid.elim .inl fun hdirectory => .inr (.inl hdirectory)
    have hsize := (image.template (current card) hpresent).2.2
    rw [image.keyFiles_contents hefid] at hrange ⊢
    obtain ⟨data, card', hsettles, hcurrent, _, _, hwhole⟩ := h.reads card offset le hpos (by omega) hrange
    have hdata := hwhole fun hshort => hefid.elim hshort.1 hshort.2
    have haccepted := acceptedResult_append data
    refine ⟨some _, card', hsettles, hcurrent, fun hfalse => ?_, fun _ => by rw [hdata]⟩
    rw [haccepted] at hfalse
    cases hfalse

/-- Fifteen records have room in the pool. -/
theorem CertImage.validRecords_few (image : CertImage) : (validRecords image.containers).length ≤ keyPoolSize := by
  have hnumbers : ∀ containers : List (List UInt8), ∀ i, (validFrom containers i).length ≤ containers.length := by
    intro containers
    induction containers with
    | nil => exact fun _ => Nat.le_refl 0
    | cons record containers ih =>
        intro i
        have := ih (i + 1)
        unfold validFrom
        split <;> simp only [List.length_cons] <;> omega
  have hfew := image.containers_few
  have hle : (validRecords image.containers).length ≤ image.containers.length := hnumbers image.containers 0
  show _ ≤ 16
  omega

/-- The record of the signing key. -/
def CertImage.signingRecord (image : CertImage) : Option (List UInt8) :=
  image.containers[0]?.filter fun record => IsRsaRecord record

theorem CertImage.signingRecord_iff (image : CertImage) {record : List UInt8} :
    image.signingRecord = some record ↔ image.containers[0]? = some record ∧ IsRsaRecord record := by
  rw [signingRecord, Option.filter_eq_some_iff, decide_eq_true_eq]

theorem CertImage.holder_iff (image : CertImage) : image.Holder 0 ↔ ∃ record, image.signingRecord = some record := by
  constructor
  · rintro ⟨record, hrecord, hrsa⟩
    exact ⟨record, image.signingRecord_iff.mpr ⟨hrecord, hrsa⟩⟩
  · rintro ⟨record, hrecord⟩
    exact ⟨record, image.signingRecord_iff.mp hrecord⟩

end Mias

namespace Sdk

variable {σ : Type} {T : Transport σ} {channels : UInt8 → Prop} {image : Mias.CertImage} {current : σ → Nat} {s : Sdk σ}

/-- The table is the one of the card, and its pairs are those of the records. -/
structure Stock (image : Mias.CertImage) (m : Mias) : Prop where
  known : Known image m
  filled : Mias.Filled image.containers m

/-- The table is not read yet, or it is the one of the card. -/
def Stocked (image : Mias.CertImage) (m : Mias) : Prop :=
  (m.keypairsNum = -1 ∧ ∀ j, m.keypairs j = .zero) ∨ Stock image m

theorem Stock.same {m m' : Mias} (hsame : Mias.SameKeys m m') (h : Stock image m) : Stock image m' := by
  refine ⟨h.known.same hsame, by rw [hsame.2]; exact h.filled.count, fun j k record hget => ?_⟩
  rw [hsame.1]
  exact h.filled.pairs j k record hget

theorem Stocked.same {m m' : Mias} (hsame : Mias.SameKeys m m') (h : Stocked image m) : Stocked image m' := by
  rcases h with ⟨hnum, hzero⟩ | hstock
  · exact .inl ⟨by rw [hsame.2]; exact hnum, by rw [hsame.1]; exact hzero⟩
  · exact .inr (hstock.same hsame)

theorem listKeyPairs_stocks {channel : UInt8} {t : Linked σ Mias} (h : image.ServedBy T channel current)
    (hready : Mias.Ready channel t.obj) (hstocked : Stocked image t.obj) :
    Attains (Mias.listKeyPairs T) t fun _ t' =>
      Mias.Tabled image channel image.records t'.obj ∧ Stock image t'.obj := by
  rcases hstocked with ⟨hnum, hzero⟩ | hstock
  · obtain ⟨t', hrun, hobj⟩ := Mias.listKeyPairs_tables h.heldBy hready hnum
    have htabled := hrun.attains_iff.mp (Mias.listKeyPairs_attains h hready hnum hzero)
    have hfilled : Mias.Filled image.containers t'.obj := by
      rw [hobj]
      exact Mias.tableOf_filled hnum hzero image.validRecords_few
    have hlisted : t'.obj.keypairsNum ≠ -1 := by
      rw [hfilled.count]
      omega
    exact ⟨true, t', hrun, htabled, ⟨hlisted, htabled.found_iff, htabled.linked_eq⟩, hfilled⟩
  · apply Attains.gets_bind
    rw [if_pos hstock.known.listed]
    exact .pure ⟨⟨hready, hstock.known.found_iff, hstock.known.linked_eq⟩, hstock⟩

/-- The pair that is found for container 0 is the one of its record. -/
theorem Stock.signing {m : Mias} (h : Stock image m) :
    match m.findContainer 0 with
    | none => image.signingRecord = none
    | some j => ∃ record, image.signingRecord = some record ∧ (m.keypairs j).kid = Mias.kidOf 0 record ∧
        (m.keypairs j).sizeInBits = Mias.keySize record := by
  have hfound : (∃ j, m.findContainer 0 = some j) ↔ image.Holder 0 := h.known.found_iff 0
  rw [image.holder_iff] at hfound
  cases hfind : m.findContainer 0 with
  | none =>
      cases hrecord : image.signingRecord with
      | none => rfl
      | some record =>
          obtain ⟨j, hj⟩ := hfound.mpr ⟨record, hrecord⟩
          cases hfind.symm.trans hj
  | some j =>
      obtain ⟨record, hrecord⟩ := hfound.mp ⟨j, hfind⟩
      obtain ⟨hfirst, hrsa⟩ := image.signingRecord_iff.mp hrecord
      obtain ⟨i, hi, hget⟩ := h.filled.finds (by decide) hfirst hrsa
      obtain rfl : j = i := Option.some.inj (hfind.symm.trans hi)
      obtain ⟨hkid, _, hsize⟩ := h.filled.rsa hget hrsa.2
      exact ⟨record, hrecord, hkid, hsize⟩

/-- The lookup of the pair, from the selection on. -/
theorem findSigning_visits {α : Type} {shows : σ → α} {channel : UInt8}
    (hspares : Spares T shows)
    (hfiles : image.ServedBy T channel current) (hinit : Initialized s) (hready : Mias.Ready channel s.mias)
    (hstocked : Stocked image s.mias) :
    Attains (onMias (Mias.getKeyPairByContainerId T signingContainerId)) s fun found s' =>
      found = s'.mias.findContainer 0 ∧ Stock image s'.mias ∧ Initialized s' ∧ Mias.Ready channel s'.mias ∧
        shows s'.se.card = shows s.se.card := by
  have hfind : Attains (Mias.getKeyPairByContainerId T signingContainerId) (⟨s.se, s.mias⟩ : Linked σ Mias) fun found t =>
      found = t.obj.findContainer 0 ∧ Stock image t.obj := by
    apply (listKeyPairs_stocks hfiles hready hstocked).bind
    rintro _ t ⟨_, hstock⟩
    exact ⟨_, t, .gets, rfl, hstock⟩
  have hwithin : Stays (Within T Mias.applet (· ≠ .verify) fun _ => True)
      (Mias.getKeyPairByContainerId T signingContainerId) :=
    Mias.getKeyPairByContainerId_stays Mias.within_bears (by decide) (by decide) signingContainerId
  refine Attains.zoom (hfind.stays hwithin) ?_
  rintro found t ⟨⟨hfound, hstock⟩, hgrows⟩
  have happlet : t.obj.applet = s.mias.applet := hgrows.1
  refine ⟨hfound, hstock, ⟨?_, ?_⟩, hready.congr happlet, shows_onWire hspares hgrows.onWire⟩
  · rw [← hinit.attached]
    exact congrArg Applet.attached happlet
  · rw [← hinit.aid_eq]
    exact congrArg Applet.aid happlet

end Sdk

end TrustOnboard
