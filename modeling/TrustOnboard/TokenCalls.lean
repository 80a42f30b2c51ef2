import TrustOnboard.SdkProcess
import TrustOnboard.TokenKeys
import TrustOnboard.TokenObject

/-! The public calls on a card that embodies a token and has the files of its keys. What a call returns is decided by the
PIN, the tries that are left for it and what is on the card; of the calls before, nothing else counts. -/

namespace TrustOnboard

open Exec Linked SEInterface

/-- What is on a card: a token, the files of its containers and certificates, and its objects. -/
structure Profile where
  token : Token
  certificates : Mias.CertImage
  objects : Mias.P11Image

/-- A call of a public function with its PIN. Where no PIN is verified there may be none. -/
inductive Request where
  | availableCertificate (locals legacyLocals : Sdk.Locals) (cert : Option Mem) (size : Int) (text : List UInt8)
  | availablePrivateKey (locals legacyLocals : Sdk.Locals) (pem : Option Mem) (pemSize : Option Int) (der : Option Mem)
      (derSize : Int) (text : List UInt8)
  | signingCertificate (locals : Sdk.Locals) (pem : Option Mem) (pemSize : Option Int) (der : Option Mem) (derSize : Int)
      (pin : Option (List UInt8))
  | sign (algorithm : UInt8) (hash : Mem) (hashLen : Int) (signature : Mem) (len : Int) (text : List UInt8)
  | decrypt (cipher : Mem) (cipherLen : Int) (plain : Mem) (len : Int) (text : List UInt8)
  | length (pin : Option (List UInt8))

namespace Request

open Sdk

/-- The call with these arguments. -/
def call : Request → ApiCall
  | availableCertificate locals legacyLocals cert size text =>
      .extractAvailableCertificate locals legacyLocals cert size (some text)
  | availablePrivateKey locals legacyLocals pem pemSize der derSize text =>
      .extractAvailablePrivateKey locals legacyLocals pem pemSize der derSize (some text)
  | signingCertificate locals pem pemSize der derSize pin => .extractSigningCertificate locals pem pemSize der derSize pin
  | sign algorithm hash hashLen signature len text => .signingSign algorithm hash hashLen signature len (some text)
  | decrypt cipher cipherLen plain len text => .signingDecrypt cipher cipherLen plain len (some text)
  | length pin => .signingLen pin

/-- A PIN that goes into one command, where it is sent, and a cryptogram that goes into two. -/
def Fits : Request → Prop
  | availableCertificate _ _ _ _ text => text.length ≤ 255
  | availablePrivateKey _ _ _ _ _ _ text => text.length ≤ 255
  | sign _ _ _ _ _ text => text.length ≤ 255
  | decrypt _ cipherLen _ _ text => text.length ≤ 255 ∧ 0 ≤ cipherLen ∧ cipherLen ≤ 509
  | _ => True

end Request

namespace Profile

open Sdk

variable (profile : Profile)

/-- Whether this is the PIN. -/
def right (text : List UInt8) : Bool := decide (text = profile.token.pin)

/-- The attempts at the PIN that a call makes. Without a signing key none is made for it. -/
def attempts : Request → List Bool
  | .availableCertificate _ _ _ _ text => [profile.right text]
  | .availablePrivateKey _ _ _ _ _ _ text => [profile.right text]
  | .sign _ _ _ _ _ text => if profile.certificates.signingRecord.isSome then [profile.right text] else []
  | .decrypt _ _ _ _ text => if profile.certificates.signingRecord.isSome then [profile.right text] else []
  | _ => []

/-- A value for a buffer, or none. -/
def handed (out : Mem) (len : Int) : Option (List UInt8) → Extract
  | some value => ⟨0, some (out.write 0 value), value.length⟩
  | none => ⟨ERR_SE_BAD_KEY_NAME_ERROR, some out, len⟩

/-- A use of the signing key. -/
def keyed (tries : Nat) (text : List UInt8) (out : Mem) (len : Int) (value : UInt8 → Option (List UInt8)) : Extract :=
  match profile.certificates.signingRecord with
  | none => ⟨ERR_SE_BAD_KEY_NAME_ERROR, some out, len⟩
  | some record =>
      if profile.token.accepts tries text then handed out len (value (Mias.kidOf 0 record))
      else ⟨ERR_SE_EF_VERIFY_PIN_ERROR, some out, len⟩

/-- The signature of the first bytes of `hash`, as many as the algorithm digests to. -/
def signature (algorithm : UInt8) (hash : Mem) (key : UInt8) : Option (List UInt8) := do
  let sign ← profile.token.signer algorithm key
  let size ← Mias.digestLength (algorithm &&& 0xF0)
  return sign (hash.slice 0 size)

def plain (cipher : Mem) (cipherLen : Int) (key : UInt8) : Option (List UInt8) := do
  let decipher ← profile.token.decipherer ALGO_RSA_PKCS1_PADDING key
  decipher (cipher.slice 0 cipherLen.toNat)

/-- The certificate of the signing key. -/
def signingCertificate : Option (List UInt8) := do
  let _ ← profile.certificates.signingRecord
  let record ← profile.certificates.linked 0
  return profile.certificates.fileOf record

/-- What a call returns while so many tries are left. -/
def answer (tries : Nat) : Request → ApiResult
  | .availableCertificate _ _ cert size text =>
      .extract (cropExtract (p11Answer (profile.token.accepts tries text) (certificateOn profile.objects) cert size))
  | .availablePrivateKey _ _ pem pemSize der derSize text =>
      .pem (pemResult (cstr "RSA PRIVATE KEY") pem pemSize
        (appendNul (p11Answer (profile.token.accepts tries text) (privateKeyOn profile.objects) der derSize)))
  | .signingCertificate _ pem pemSize der derSize _ =>
      .pem (pemResult (cstr "CERTIFICATE") pem pemSize
        (match profile.signingCertificate with
          | none => ⟨ERR_SE_BAD_KEY_NAME_ERROR, der, derSize⟩
          | some file => certificateAnswer (Mias.delivered der file) derSize))
  | .sign algorithm hash _ signature len text =>
      .extract (profile.keyed tries text signature len (profile.signature algorithm hash))
  | .decrypt cipher cipherLen plain len text =>
      .extract (profile.keyed tries text plain len (profile.plain cipher cipherLen))
  | .length _ =>
      .length (match profile.certificates.signingRecord with
        | none => ERR_SE_BAD_KEY_NAME_ERROR
        | some record => (Mias.keySize record / 8 : Nat))

/-- The answer, and the tries that are left. -/
def perform (tries : Nat) (request : Request) : ApiResult × Nat :=
  (profile.answer tries request, Retry.after profile.token.limit tries (profile.attempts request))

/-- The card behind the transport. -/
structure CarriedBy {σ : Type} (T : Transport σ) (channels : UInt8 → Prop) (view : σ → Token.State) (current : σ → Nat) :
    Prop where
  admits : Applet.Admits T channels Mias.aid
  token : profile.token.EmbodiedBy T channels view
  certificates : ∀ channel, channels channel → profile.certificates.ServedBy T channel current
  objects : ∀ channel, channels channel → profile.objects.ServedBy T channel current

section Calls

variable {profile : Profile} {σ : Type} {T : Transport σ} {channels : UInt8 → Prop} {view : σ → Token.State}
    {current : σ → Nat}
  {s : Sdk σ} {tries : Nat} {text : List UInt8}

/-- The library is initialised, its table is that of the card, and so many tries are left. -/
structure Represents (profile : Profile) (view : σ → Token.State) (tries : Nat) (s : Sdk σ) : Prop where
  initialized : Initialized s
  stocked : Stocked profile.certificates s.mias
  tries_eq : (view s.se.card).tries = tries

theorem Represents.visited {tries' : Nat} {s' : Sdk σ} (h : profile.Represents view tries s)
    (hvisited : Visited (fun card => (view card).tries) tries' s s') : profile.Represents view tries' s' :=
  ⟨hvisited.initialized, h.stocked.same hvisited.keys, hvisited.shows_eq⟩

theorem accepts_eq (tries : Nat) (text : List UInt8) :
    profile.token.accepts tries text = (decide (0 < tries) && profile.right text) := by
  rw [Token.accepts, right, Bool.decide_and]

/-- Once the PIN was accepted all tries are back, and it is accepted again. -/
theorem accepted_again (h : profile.token.accepts tries text = true) :
    Retry.spend profile.token.limit tries (profile.right text) = profile.token.limit ∧
      profile.token.accepts profile.token.limit text = true ∧
      Retry.spend profile.token.limit profile.token.limit (profile.right text) = profile.token.limit := by
  rw [accepts_eq, Bool.and_eq_true, decide_eq_true_eq] at h
  refine ⟨if_pos h, ?_, if_pos ⟨profile.token.limit_pos, h.2⟩⟩
  rw [accepts_eq, h.2, Bool.and_true]
  exact decide_eq_true profile.token.limit_pos

/-- What an operation of the object leaves alone. -/
structure Leaves (view : σ → Token.State) (t t' : Linked σ Mias) : Prop where
  applet : t'.obj.applet = t.obj.applet
  keys : Mias.SameKeys t.obj t'.obj
  tries : (view t'.se.card).tries = (view t.se.card).tries

/-- Two operations of the object, the second one a reader, behind an accepted PIN. -/
theorem operation_attains {init : Exec (Linked σ Mias) Bool} {final : Exec (Linked σ Mias) Mias.Fetched} {accepted : Bool}
    {t : Linked σ Mias} {out : Mem} {value : Option (List UInt8)} (hinit : Initialized s)
    (hset : Evals init ⟨s.se, s.mias⟩ accepted t) (hleaves : Leaves view ⟨s.se, s.mias⟩ t)
    (hrefused : accepted = false → value = none)
    (hfinal : accepted = true → Yields final t (Token.delivered out 0 value) (Leaves view ⟨s.se, s.mias⟩)) (len : Int) :
    Attains (do
      if ← onMias init then
        let fetched ← onMias final
        if fetched.ok then
          return (⟨0, fetched.out, fetched.len⟩ : Extract)
        else
          return ⟨ERR_SE_BAD_KEY_NAME_ERROR, fetched.out, len⟩
      else
        return ⟨ERR_SE_BAD_KEY_NAME_ERROR, some out, len⟩) s fun result s' =>
      result = handed out len value ∧ Visited (fun card => (view card).tries) (view s.se.card).tries s s' := by
  have hvisited : ∀ t : Linked σ Mias, Leaves view ⟨s.se, s.mias⟩ t →
      Visited (fun card => (view card).tries) (view s.se.card).tries s (miasLens.set t s) := by
    intro t hleaves
    refine ⟨⟨?_, ?_⟩, hleaves.keys, hleaves.tries⟩
    · rw [← hinit.attached]
      exact congrArg Applet.attached hleaves.applet
    · rw [← hinit.aid_eq]
      exact congrArg Applet.aid hleaves.applet
  have hset' : Yields (onMias init) s accepted (· = miasLens.set t s) := ⟨_, .zoom hset, rfl⟩
  apply hset'.bind_attains
  rintro s₁ rfl
  cases haccepted : accepted with
  | false =>
      rw [hrefused haccepted]
      exact .pure ⟨rfl, hvisited t hleaves⟩
  | true =>
      rw [if_pos rfl]
      obtain ⟨u, hread, hleft⟩ := hfinal haccepted
      have hfinal' : Yields (onMias final) (miasLens.set t s) (Token.delivered out 0 value) (· = miasLens.set u s) := by
        refine ⟨_, .zoom (t := u) hread, ?_⟩
        exact miasLens.set_set _ _ _
      apply hfinal'.bind_attains
      rintro s₂ rfl
      cases value with
      | none => exact .pure ⟨rfl, hvisited u hleft⟩
      | some value => exact .pure ⟨rfl, hvisited u hleft⟩

namespace CarriedBy

variable (h : profile.CarriedBy T channels view current)

include h

/-- Other commands than VERIFY leave the tries. -/
theorem spares : Spares T fun card => (view card).tries := h.token.spares

theorem verdict (tries : Nat) (hpin : text.length ≤ 255) :
    PinVerdict T channels (fun card => (view card).tries) text tries
      (Retry.spend profile.token.limit tries (profile.right text)) (profile.token.accepts tries text) where
  verifies card channel hchannel htries := by
    obtain ⟨result, card', hconcludes, hanswers, hview⟩ := h.token.performs card channel (.verify text) hchannel hpin
    refine ⟨result, card', hconcludes, ?_, ?_⟩
    · rw [hanswers.acceptedResult_eq, ← htries]
      show (Token.acceptedIf _ _ _).1.ok = _
      cases profile.token.accepts (view card).tries text <;> rfl
    · show (view card').tries = _
      rw [hview, Token.step_verify, ← htries]
      rfl
  spares := h.spares

/-- The card is one for calls with this PIN. -/
theorem hosts (tries : Nat) (hpin : (cut text).length ≤ 255) :
    Hosts T channels (fun card => (view card).tries) (some text) tries
      (Retry.spend profile.token.limit tries (profile.right (cut text))) (profile.token.accepts tries (cut text)) where
  toAdmits := h.admits
  verdict _ htext := by
    cases htext
    exact h.verdict tries hpin
  again haccepted _ htext := by
    cases htext
    obtain ⟨hspend, haccepts, hagain⟩ := accepted_again haccepted
    have hverdict := h.verdict profile.token.limit hpin
    rw [hagain, haccepts] at hverdict
    rw [hspend]
    exact hverdict

/-- VERIFY on the selected object: what it costs, and that an accepted PIN opens the keys. -/
theorem verifies {channel : UInt8} (hchannel : channels channel) (hready : Mias.Ready channel s.mias)
    (hpin : text.length ≤ 255) (htries : (view s.se.card).tries = tries) :
    Yields (onMias (Mias.verifyPin T text)) s (profile.token.accepts tries text) fun s' => s'.mias = s.mias ∧
      (view s'.se.card).tries = Retry.spend profile.token.limit tries (profile.right text) ∧
      (profile.token.accepts tries text = true → (view s'.se.card).verified = true) := by
  have hperforms := Token.verifyPin_performs (s := ⟨s.se, s.mias⟩) h.token hchannel hready hpin
  have hok : (profile.token.step (view s.se.card) (.verify text)).1.ok = profile.token.accepts tries text := by
    rw [← htries]
    show (Token.acceptedIf _ _ _).1.ok = _
    cases profile.token.accepts (view s.se.card).tries text <;> rfl
  rw [hok] at hperforms
  refine Yields.zoom hperforms fun t hperformed => ⟨hperformed.obj_eq, ?_, fun haccepted => ?_⟩
  · show (view t.se.card).tries = _
    rw [hperformed.view_eq, Token.step_verify, ← htries]
    rfl
  · show (view t.se.card).verified = true
    rw [hperformed.view_eq]
    show (Token.acceptedIf (profile.token.accepts (view s.se.card).tries text) _ _).2.verified = true
    rw [htries, haccepted]
    rfl

section Operations

variable {channel : UInt8} (hchannel : channels channel) (hready : Mias.Ready channel s.mias) (hinit : Initialized s)
  (hverified : (view s.se.card).verified = true)

include hchannel hready hinit hverified

/-- The signature, behind an accepted PIN. -/
theorem signs (algorithm key : UInt8) (hash : Mem) (hashLen : Nat) (signature : Mem) (len : Int) :
    Attains (do
      if ← onMias (Mias.signInit T algorithm key) then
        let fetched ← onMias (Mias.signFinal T hash hashLen signature 0)
        if fetched.ok then
          return (⟨0, fetched.out, fetched.len⟩ : Extract)
        else
          return ⟨ERR_SE_BAD_KEY_NAME_ERROR, fetched.out, len⟩
      else
        return ⟨ERR_SE_BAD_KEY_NAME_ERROR, some signature, len⟩) s fun result s' =>
      result = handed signature len (profile.signature algorithm hash key) ∧
        Visited (fun card => (view card).tries) (view s.se.card).tries s s' := by
  obtain ⟨t, hrun, hperformed⟩ := Token.signInit_performs (s := ⟨s.se, s.mias⟩) h.token hchannel hready algorithm key
  have hview : view t.se.card = (Token.acceptedIf (profile.token.signer algorithm key).isSome
      { view s.se.card with signing := some (algorithm, key), hash := none } (view s.se.card)).2 := hperformed.view_eq
  have hkeys : Mias.SameKeys s.mias t.obj := by
    rw [hperformed.obj_eq]
    exact ⟨rfl, rfl⟩
  have hready' : Mias.Ready channel t.obj := by
    rw [hperformed.obj_eq]
    exact hready.congr rfl
  rw [show (profile.token.step (view s.se.card) (.setSignature algorithm key)).1.ok =
    (profile.token.signer algorithm key).isSome from Token.acceptedIf_ok _ _ _] at hrun
  refine operation_attains hinit hrun ⟨by rw [hperformed.obj_eq], hkeys, ?_⟩ (fun hrefused => ?_) (fun haccepted => ?_) len
  · rw [hview]
    exact Token.acceptedIf_snd Token.State.tries rfl rfl
  · rw [Option.isSome_eq_false_iff, Option.isNone_iff_eq_none] at hrefused
    rw [Profile.signature, hrefused]
    rfl
  · obtain ⟨sign, hsigner⟩ := Option.isSome_iff_exists.mp haccepted
    rw [haccepted] at hview
    have hview' : view t.se.card = { view s.se.card with signing := some (algorithm, key), hash := none } := hview
    have hrep : Token.Represents view channel ⟨view t.se.card, t.obj.hashAlgo, algorithm⟩ t :=
      ⟨hready', rfl, rfl, by rw [hperformed.obj_eq]⟩
    have hfinal := Token.signFinal_yields h.token hchannel hrep hash hashLen signature 0
    have hsigned : Token.signed profile.token ⟨view t.se.card, t.obj.hashAlgo, algorithm⟩ hash signature 0 =
        (Token.delivered signature 0 (profile.signature algorithm hash key), view t.se.card) := by
      rw [Token.signed, Profile.signature, hsigner, hview']
      cases Mias.digestLength (algorithm &&& 0xF0) with
      | none => rfl
      | some size =>
          simp only [Token.signature, Token.State.unlocked, hverified, if_pos]
          show (Token.delivered signature 0 (do
            let sign ← profile.token.signer algorithm key
            return sign (hash.slice 0 size)), _) = _
          rw [hsigner]
          rfl
    rw [hsigned] at hfinal
    refine hfinal.mono fun u hu => ⟨?_, ?_, ?_⟩
    · rw [hu.1, hperformed.obj_eq]
    · rw [hu.1]
      exact hkeys
    · rw [hu.2, hview']

/-- The plain text, behind an accepted PIN. -/
theorem deciphers (key : UInt8) (cipher : Mem) {cipherLen : Int} (hlen : toUInt16 cipherLen ≤ 509) (plain : Mem)
    (len : Int) :
    Attains (do
      if ← onMias (Mias.decryptInit T ALGO_RSA_PKCS1_PADDING key) then
        let fetched ← onMias (Mias.decryptFinal T cipher (toUInt16 cipherLen) plain 0)
        if fetched.ok then
          return (⟨0, fetched.out, fetched.len⟩ : Extract)
        else
          return ⟨ERR_SE_BAD_KEY_NAME_ERROR, fetched.out, len⟩
      else
        return ⟨ERR_SE_BAD_KEY_NAME_ERROR, some plain, len⟩) s fun result s' =>
      result = handed plain len (profile.plain cipher (toUInt16 cipherLen) key) ∧
        Visited (fun card => (view card).tries) (view s.se.card).tries s s' := by
  obtain ⟨t, hrun, hperformed⟩ := Token.decryptInit_performs (s := ⟨s.se, s.mias⟩) h.token hchannel hready
    ALGO_RSA_PKCS1_PADDING key
  have hview : view t.se.card = (Token.acceptedIf (profile.token.decipherer ALGO_RSA_PKCS1_PADDING key).isSome
      { view s.se.card with deciphering := some (ALGO_RSA_PKCS1_PADDING, key), cryptogram := [] } (view s.se.card)).2 :=
    hperformed.view_eq
  have hkeys : Mias.SameKeys s.mias t.obj := by
    rw [hperformed.obj_eq]
    exact ⟨rfl, rfl⟩
  have hready' : Mias.Ready channel t.obj := by
    rw [hperformed.obj_eq]
    exact hready.congr rfl
  rw [show (profile.token.step (view s.se.card) (.setDecipher ALGO_RSA_PKCS1_PADDING key)).1.ok =
    (profile.token.decipherer ALGO_RSA_PKCS1_PADDING key).isSome from Token.acceptedIf_ok _ _ _] at hrun
  refine operation_attains hinit hrun ⟨by rw [hperformed.obj_eq], hkeys, ?_⟩ (fun hrefused => ?_) (fun haccepted => ?_) len
  · rw [hview]
    exact Token.acceptedIf_snd Token.State.tries rfl rfl
  · rw [Option.isSome_eq_false_iff, Option.isNone_iff_eq_none] at hrefused
    rw [Profile.plain, hrefused]
    rfl
  · obtain ⟨decipher, hdecipherer⟩ := Option.isSome_iff_exists.mp haccepted
    rw [haccepted] at hview
    have hview' : view t.se.card =
        { view s.se.card with deciphering := some (ALGO_RSA_PKCS1_PADDING, key), cryptogram := [] } := hview
    have hfinal := Token.psoDecipher_performs h.token hchannel hready' hlen cipher plain 0
    have hplain : profile.token.plain (view t.se.card)
        (SCTag.PSOPaddingProprietary1 :: cipher.slice 0 (toUInt16 cipherLen)) =
          profile.plain cipher (toUInt16 cipherLen) key := by
      rw [hview', Profile.plain, hdecipherer]
      simp only [Token.plain, Token.State.unlocked, hverified, if_pos]
      show (do
        let decipher ← profile.token.decipherer ALGO_RSA_PKCS1_PADDING key
        Token.decipherWith decipher (SCTag.PSOPaddingProprietary1 :: cipher.slice 0 (toUInt16 cipherLen))) = _
      rw [hdecipherer]
      show Token.decipherWith decipher (SCTag.PSOPaddingProprietary1 :: cipher.slice 0 (toUInt16 cipherLen)) =
        decipher (cipher.slice 0 (toUInt16 cipherLen))
      rw [Token.decipherWith, if_pos rfl]
    rw [hplain] at hfinal
    refine hfinal.mono fun u hu => ⟨?_, ?_, ?_⟩
    · rw [hu.1, hperformed.obj_eq]
    · rw [hu.1]
      exact hkeys
    · rw [hu.2, hview']

end Operations

/-- A function between selection and deselection. -/
theorem guarded_attains {α : Type} {body : Exec (Sdk σ) α} (failed : α) {value : α} {tries' : Nat}
    (hrep : profile.Represents view tries s)
    (hbody : ∀ t channel, channels channel → profile.Represents view tries t → Mias.Ready channel t.mias →
      Attains body t fun result t' => result = value ∧ profile.Represents view tries' t') :
    Attains (guarded T body failed) s fun result s' => result = value ∧ profile.Represents view tries' s' := by
  apply (visit_selects h.admits h.spares hrep.initialized).bind
  rintro ok s₁ ⟨rfl, hvisited, channel, hchannel, hready⟩
  have hrep₁ := hrep.visited hvisited
  rw [hrep.tries_eq] at hrep₁
  rw [if_pos rfl]
  apply (hbody s₁ channel hchannel hrep₁ hready).bind
  rintro result s₂ ⟨hresult, hrep₂⟩
  apply (visit_deselects h.admits h.spares hrep₂.initialized).bind
  intro _ s₃ hvisited₃
  have hrep₃ := hrep₂.visited hvisited₃
  rw [hrep₂.tries_eq] at hrep₃
  exact .pure ⟨hresult, hrep₃⟩

/-- The signing key is looked up, the PIN verified, and then the key used. -/
theorem keyed_attains {channel : UInt8} (hchannel : channels channel) (hrep : profile.Represents view tries s)
    (hready : Mias.Ready channel s.mias) (hpin : (cut text).length ≤ 255) {out : Mem} {len : Int}
    {value : UInt8 → Option (List UInt8)} {use : UInt8 → Exec (Sdk σ) Extract}
    (huse : ∀ (t : Sdk σ) (key : UInt8), Mias.Ready channel t.mias → Initialized t → (view t.se.card).verified = true →
      Attains (use key) t fun result t' => result = handed out len (value key) ∧
        Visited (fun card => (view card).tries) (view t.se.card).tries t t') :
    Attains (do
      match ← onMias (Mias.getKeyPairByContainerId T signingContainerId) with
      | none => return (⟨ERR_SE_BAD_KEY_NAME_ERROR, some out, len⟩ : Extract)
      | some index =>
          let pin ← withStrlen (some text)
          if ← onMias (Mias.verifyPin T pin) then
            let pair ← gets fun s => s.mias.keypairs index
            use pair.kid
          else
            return ⟨ERR_SE_EF_VERIFY_PIN_ERROR, some out, len⟩) s fun result s' =>
      result = profile.keyed tries (cut text) out len value ∧ profile.Represents view (Retry.after profile.token.limit tries
        (if profile.certificates.signingRecord.isSome then [profile.right (cut text)] else [])) s' := by
  apply (findSigning_visits h.spares (h.certificates channel hchannel) hrep.initialized hready hrep.stocked).bind
  rintro found s₁ ⟨hfound, hstock, hinit₁, hready₁, htries₁⟩
  have htries : (view s₁.se.card).tries = tries := htries₁.trans hrep.tries_eq
  have hsigning := hstock.signing
  rw [← hfound] at hsigning
  cases found with
  | none =>
      rw [Profile.keyed, hsigning]
      exact .pure ⟨rfl, hinit₁, .inr hstock, htries⟩
  | some index =>
      obtain ⟨record, hrecord, hkid, _⟩ := hsigning
      rw [Profile.keyed, hrecord]
      apply (withStrlen_yields text s₁).bind_attains
      rintro t rfl
      apply (h.verifies hchannel hready₁ hpin htries).bind_attains
      rintro s₂ ⟨hmias, hspent, hverified⟩
      have hinit₂ : Initialized s₂ := ⟨by rw [hmias]; exact hinit₁.attached, by rw [hmias]; exact hinit₁.aid_eq⟩
      have hrep₂ : profile.Represents view (Retry.spend profile.token.limit tries (profile.right (cut text))) s₂ :=
        ⟨hinit₂, .inr (hmias ▸ hstock), hspent⟩
      cases haccepts : profile.token.accepts tries (cut text) with
      | false => exact .pure ⟨rfl, hrep₂⟩
      | true =>
          rw [if_pos rfl]
          apply Attains.gets_bind
          rw [hmias, hkid]
          obtain ⟨result, s₃, hrun, hresult, hvisited⟩ := huse s₂ (Mias.kidOf 0 record) (hmias ▸ hready₁) hinit₂
            (hverified haccepts)
          have hrep₃ := hrep₂.visited hvisited
          rw [hspent] at hrep₃
          exact ⟨result, s₃, hrun, hresult, hrep₃⟩

end CarriedBy

end Calls

/-! ### A card for every profile -/

section Card

/-- The token in front of the files. -/
def card (profile : Profile) : Transport (Token.State × Nat) :=
  profile.token.card (hostCard (Mias.fileCard profile.certificates.contents profile.certificates.templates))

theorem card_settles {state : Token.State} {file file' : Nat} {apdu answer : List UInt8} (hlen : 4 ≤ apdu.length)
    (hins : insOf apdu = SCIns.select.code ∨ insOf apdu = SCIns.readBinary.code)
    (h : Settles (Mias.fileCard profile.certificates.contents profile.certificates.templates) file apdu answer file') :
    Settles profile.card (state, file) apdu answer (state, file') := by
  refine Token.card_settles hlen ?_ ?_ ?_ (hostCard_settles hlen hins h)
  · rcases hins with heq | heq <;> rw [heq] <;> decide
  · rcases hins with heq | heq <;> rw [heq] <;> decide
  · rcases hins with heq | heq <;> rw [heq] <;> decide

theorem card_serves {contents : Nat → List UInt8} {short : Nat → Nat → Prop} {channel : UInt8}
    (h : Mias.Serves (Mias.fileCard profile.certificates.contents profile.certificates.templates)
      channel contents id short) :
    Mias.Serves profile.card channel contents Prod.snd short := by
  rintro ⟨state, file⟩ offset le hpos hsize hrange
  obtain ⟨data, file', hsettles, hrest⟩ := h file offset le hpos hsize hrange
  exact ⟨data, (state, file'), card_settles profile (by simp [Mias.readApdu]) (.inr rfl) hsettles, hrest⟩

/-- MANAGE CHANNEL is answered in front of the files. -/
theorem card_channels {state : Token.State} {file : Nat} {apdu : List UInt8} (hlen : 4 ≤ apdu.length)
    (hins : insOf apdu = SCIns.manageChannel.code) :
    Settles profile.card (state, file) apdu
      (if apdu.getD 2 0 = SCP1.MANAGECHANNELOpen then [0x01, 0x90, 0x00] else [0x90, 0x00]) (state, file) := by
  have hsettles : Settles (hostCard (Mias.fileCard profile.certificates.contents profile.certificates.templates)) file apdu
      (if apdu.getD 2 0 = SCP1.MANAGECHANNELOpen then [0x01, 0x90, 0x00] else [0x90, 0x00]) file := by
    refine .final ?_ ?_ ?_
    · rw [hostCard, if_pos hins]
    · split <;> decide
    · split <;> decide
  exact Token.card_settles hlen (by rw [hins]; decide) (by rw [hins]; decide) (by rw [hins]; decide) hsettles

/-- **Every profile has a card**, if its files are in one place. -/
theorem card_carries (hcontents : profile.objects.contents = profile.certificates.contents)
    (hshort : ∀ efid, (profile.certificates.templates efid).length ≤ 256) :
    profile.CarriedBy profile.card (· = 1) Prod.fst Prod.snd where
  admits := {
    opens := by
      rintro ⟨state, file⟩
      exact ⟨1, (state, file), rfl, card_channels profile (Nat.le_of_ble_eq_true rfl) rfl⟩
    selects := by
      rintro ⟨state, file⟩ channel rfl
      have hselect : Mias.fileCard profile.certificates.contents profile.certificates.templates file
          (selectApdu (0x00 ||| 1) Mias.aid) =
          (some (profile.certificates.templates (word16 (Mias.aid.getD 0 0) (Mias.aid.getD 1 0)) ++ [0x90, 0x00]),
            word16 (Mias.aid.getD 0 0) (Mias.aid.getD 1 0)) := rfl
      have hfit : (profile.certificates.templates (word16 (Mias.aid.getD 0 0) (Mias.aid.getD 1 0)) ++ [0x90, 0x00]).length ≤
          apduResponseSize := by
        have hlen := hshort (word16 (Mias.aid.getD 0 0) (Mias.aid.getD 1 0))
        rw [List.length_append]
        simp only [apduResponseSize, List.length_cons, List.length_nil]
        omega
      refine ⟨_, _, card_settles profile (Nat.le_of_ble_eq_true rfl) (.inl rfl)
        (.final hselect (Mias.not_bare_append _) hfit), ?_⟩
      rw [statusWord_ok]
      decide
    closes := by
      rintro ⟨state, file⟩ channel
      exact ⟨some [0x90, 0x00], (state, file), card_channels profile (Nat.le_of_ble_eq_true rfl) rfl⟩ }
  token := Token.card_embodied
  certificates := by
    intro channel _
    have hserved := profile.certificates.fileCard_served channel
    refine ⟨card_serves profile hserved.reads, ?_⟩
    rintro ⟨state, file⟩ efid le hpresent hle
    obtain ⟨file', hsettles, hcurrent⟩ := hserved.selects file efid le hpresent hle
    exact ⟨(state, file'), card_settles profile (by simp [Mias.selectApdu]) (.inl rfl) hsettles, hcurrent⟩
  objects := by
    intro channel _
    have hreads : Mias.Serves (Mias.fileCard profile.certificates.contents profile.certificates.templates) channel
        profile.objects.contents id profile.objects.MayBeShort := by
      rw [hcontents]
      exact Mias.fileCard_serves channel _
    refine ⟨card_serves profile hreads, ?_⟩
    rintro ⟨state, file⟩ efid hefid
    have hlt : efid < 65536 := by
      rcases hefid with rfl | ⟨record, _, _, rfl⟩
      · decide
      · exact word16_lt _ _
    have hselects : Settles (Mias.fileCard profile.certificates.contents profile.certificates.templates) file
        (Mias.selectApdu channel efid ++ []) (profile.certificates.templates efid ++ [0x90, 0x00]) efid :=
      Mias.fileCard_selects channel file hlt (hshort efid) []
    rw [List.append_nil] at hselects
    exact ⟨profile.certificates.templates efid, (state, efid),
      card_settles profile (by simp [Mias.selectApdu]) (.inl rfl) hselects, rfl⟩

end Card

def sampleProfile : Profile := ⟨Token.sampleToken, sampleCertificates, sampleObjects⟩

theorem sampleProfile_carried : sampleProfile.CarriedBy sampleProfile.card (· = 1) Prod.fst Prod.snd :=
  sampleProfile.card_carries rfl fun _ => Nat.le_of_ble_eq_true rfl

/-- A PIN, a signature with it, a wrong PIN, and the object of the private key. -/
def sampleRequests : List Request :=
  [.sign 0x42 Mem.zero 32 Mem.zero 0 (cstr "0000"), .length none,
    .decrypt Mem.zero 256 Mem.zero 0 (cstr "1234"),
      .availablePrivateKey noLocals noLocals none (some 0) none 0 (cstr "0000")]

theorem sampleRequests_fit : ∀ request ∈ sampleRequests, request.Fits := by
  intro request hmem
  simp only [sampleRequests, List.mem_cons, List.not_mem_nil, or_false] at hmem
  rcases hmem with rfl | rfl | rfl | rfl
  · exact Nat.le_of_ble_eq_true rfl
  · trivial
  · exact ⟨Nat.le_of_ble_eq_true rfl, by decide⟩
  · exact Nat.le_of_ble_eq_true rfl

end Profile

end TrustOnboard
