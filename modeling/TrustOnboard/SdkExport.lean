import TrustOnboard.SdkBase64
import TrustOnboard.SdkCard
import TrustOnboard.SdkCodes

/-! The exported private key. The key is read without a terminating zero; one is put behind it and counted, and the PEM
conversion takes all that is counted for the key. -/

namespace TrustOnboard.Sdk

open Exec Linked SEInterface

variable {σ α : Type} {T : Transport σ} {channels : UInt8 → Prop} {shows : σ → α} {before after : α} {accepted : Bool}
  {image : Mias.P11Image} {current : σ → Nat} {s : Sdk σ} {text : List UInt8}

/-- The private key on the card: the object of the first label, or else of the legacy one. -/
def privateKeyOn (image : Mias.P11Image) : Option Mias.P11File :=
  (image.lookup (cstr "PRIV_AVAILABLE")).or (image.lookup (cstr "PRIV_TYPE_A"))

/-- An extraction that goes on to the legacy label where the first one is not on the card. -/
theorem fallback_attains {first : Exec (Sdk σ) Extract} {second : Extract → Exec (Sdk σ) Extract}
    {wrap last : Extract → Extract}
    {inv : Sdk σ → Prop} {file legacy : Option Mias.P11File} {obj : Option Mem} {size : Int}
    (hwrap : ∀ result, result.ret ≠ 0 → wrap result = result) (hret : ∀ result, (wrap result).ret = result.ret)
    (hfirst : Attains first s fun result s' => inv s' ∧ result = wrap (p11Answer accepted file obj size))
    (hsecond : accepted = true → ∀ s' : Sdk σ, inv s' → Attains (second ⟨ERR_SE_MIAS_READ_OBJECT_ERROR, obj, size⟩) s'
      fun result s'' => inv s'' ∧ result = last (wrap (p11Answer accepted legacy obj size))) :
    Attains (first >>= fun result =>
      if result.ret = ERR_SE_MIAS_READ_OBJECT_ERROR then second result else pure (last result)) s
      fun result s' => inv s' ∧ result = last (wrap (p11Answer accepted (file.or legacy) obj size)) := by
  apply hfirst.bind
  rintro result s₁ ⟨hinv₁, rfl⟩
  cases accepted with
  | false =>
      have hret₁ : (wrap (p11Answer false file obj size)).ret = ERR_SE_EF_VERIFY_PIN_ERROR := hret _
      rw [if_neg (by rw [hret₁]; decide)]
      exact .pure ⟨hinv₁, rfl⟩
  | true =>
      cases file with
      | some file =>
          have hret₁ : (wrap (p11Answer true (some file) obj size)).ret = 0 := hret _
          rw [if_neg (by rw [hret₁]; decide)]
          exact .pure ⟨hinv₁, rfl⟩
      | none =>
          have hmissing : wrap (p11Answer true none obj size) = ⟨ERR_SE_MIAS_READ_OBJECT_ERROR, obj, size⟩ :=
            hwrap (p11Answer true none obj size) (by show ERR_SE_MIAS_READ_OBJECT_ERROR ≠ 0; decide)
          rw [hmissing, if_pos rfl]
          exact hsecond rfl s₁ hinv₁

section Visits

variable (hcard : Applet.Admits T channels Mias.aid)
    (hfiles : ∀ channel, channels channel → image.ServedBy T channel current) (hpin : (cut text).length ≤ 257)

include hcard hfiles hpin

theorem tobPkExtractSe_visits {path label : List UInt8} (hpath : path = SE_MIAS_P11_KEY_NAME_PREFIX ++ label)
    (hef : SE_EF_KEY_NAME_PREFIX.isPrefixOf path = false) (hlabel : label.length < 65536)
    (hverdict : PinVerdict T channels shows (cut text) before after accepted) (hinit : Initialized s)
    (hbefore : shows s.se.card = before) (locals : Locals) (pk : Option Mem) (size : Int) :
    Attains (tobPkExtractSe T locals pk size path (some text)) s fun result s' => Visited shows after s s' ∧
      result = appendNul (p11Answer accepted (image.lookup label) pk size) := by
  unfold tobPkExtractSe
  rw [if_neg (by rw [hef]; exact Bool.false_ne_true), hpath,
    if_pos (by rw [List.isPrefixOf_iff_prefix]; exact List.prefix_append _ _), List.drop_left]
  apply (seP11ReadObject_visits hcard hverdict hfiles hinit hbefore hpin hlabel locals pk size).bind
  rintro result s₁ ⟨hvisited₁, rfl⟩
  exact ⟨_, s₁, nulAppended_evals p11Answer_size s₁, hvisited₁, rfl⟩

/-- A PIN that was accepted is accepted again for the legacy label. -/
theorem tobExtractAvailablePrivateKeyDer_visits (hverdict : PinVerdict T channels shows (cut text) before after accepted)
    (hagain : accepted = true → PinVerdict T channels shows (cut text) after after true) (hinit : Initialized s)
    (hbefore : shows s.se.card = before) (locals legacyLocals : Locals) (pk : Option Mem) (size : Int) :
    Attains (tobExtractAvailablePrivateKeyDer T locals legacyLocals pk size (some text)) s fun result s' =>
      Visited shows after s s' ∧ result = appendNul (p11Answer accepted (privateKeyOn image) pk size) := by
  have hfirst : Attains (tobPkExtractSe T locals pk size PK_MIAS_PATH (some text)) s fun result s' =>
      Visited shows after s s' ∧
      result = appendNul (p11Answer accepted (image.lookup (cstr "PRIV_AVAILABLE")) pk size) :=
    tobPkExtractSe_visits hcard hfiles hpin rfl (by decide) (by decide) hverdict hinit hbefore locals pk size
  have hsecond : accepted = true → ∀ s' : Sdk σ, Visited shows after s s' →
      Attains (tobPkExtractSe T legacyLocals pk size PK_MIAS_PATH_LEGACY (some text))
      s' fun result s'' => Visited shows after s s'' ∧
        result = appendNul (p11Answer accepted (image.lookup (cstr "PRIV_TYPE_A")) pk size) := by
    rintro rfl s' hvisited
    have hread : Attains (tobPkExtractSe T legacyLocals pk size PK_MIAS_PATH_LEGACY (some text)) s' fun result s'' =>
        Visited shows after s' s'' ∧ result = appendNul (p11Answer true (image.lookup (cstr "PRIV_TYPE_A")) pk size) :=
      tobPkExtractSe_visits hcard hfiles hpin rfl (by decide) (by decide) (hagain rfl)
        hvisited.initialized hvisited.shows_eq
        legacyLocals pk size
    obtain ⟨result, s'', hrun, hvisited', hresult⟩ := hread
    exact ⟨result, s'', hrun, hvisited.trans hvisited', hresult⟩
  exact fallback_attains (fun _ hne => if_neg hne) appendNul_ret hfirst hsecond

end Visits

/-- The body of a PEM text of the caption decodes to these bytes. -/
def Exports (bytes : List UInt8) (result : PemExtract) : Prop :=
  ∃ pem size, result.pem = some pem ∧ result.pemSize = some size ∧
    owlBase64Decode (pem.slice (17 + (cstr "RSA PRIVATE KEY").length)
      (size.toNat - (17 + (cstr "RSA PRIVATE KEY").length))) =
      some (bytes, bytes.length)

/-- The text of bytes that were read into a buffer. -/
theorem pemResult_read (header bytes : List UInt8) (pem der : Mem) (pemSize : Int) :
    pemResult header (some pem) (some pemSize) ⟨0, some (der.write 0 bytes), bytes.length⟩ =
      ⟨0, some (pem.write 0 (convertDerToPem header bytes)), some (convertDerToPem header bytes).length,
        some (der.write 0 bytes), bytes.length⟩ := by
  have hslice := Mem.slice_write_self der 0 bytes
  unfold pemResult
  rw [if_pos rfl]
  simp only [Int.toNat_natCast, hslice]

theorem Exports.unique {bytes bytes' : List UInt8} {result : PemExtract} (h : Exports bytes result)
    (h' : Exports bytes' result) :
    bytes = bytes' := by
  obtain ⟨pem, size, hpem, hsize, hdecode⟩ := h
  obtain ⟨pem', size', hpem', hsize', hdecode'⟩ := h'
  rw [hpem] at hpem'
  rw [hsize] at hsize'
  cases hpem'
  cases hsize'
  rw [hdecode] at hdecode'
  cases hdecode'
  rfl

/-- An object "PRIV_AVAILABLE" with a value of three bytes. -/
def keyFile : Mias.P11File where
  header := List.replicate 16 0
  label := cstr "PRIV_AVAILABLE"
  application := cstr "tob"
  objectId := []
  long := true
  value := [0x30, 0x01, 0x05]
  slack := []
  header_length := Mias.blankHeader_length
  label_length := by decide
  label_letter := by decide
  application_length := Mias.tobText_length
  objectId_length := Mias.noId_length
  value_length := by decide
  value_present := by decide
  content_length := by decide

def keyRecord : List UInt8 := [0x20, 0x01, 0x00, 0x20] ++ cstr "pridat01" ++ cstr "p11" ++ [0, 0, 0, 0, 0, 0]

end TrustOnboard.Sdk
