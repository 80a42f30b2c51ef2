import TrustOnboard.AdaptorHsm

/-! When the credentials of the HSM belong together. `custom_hsm_set_data` changes the configuration and keeps what was
read for the one before, `tobInitialize` keeps the first device, and a failed read may leave a common name: runs
without these are the ones in which a credential is always that of the last configuration. -/

namespace TrustOnboard.AzureHsm

open Exec Sdk

section Credentials

variable {σ : Type}

/-- The origin of what is returned. -/
def HsmResult.origin? : HsmResult → Option Origin
  | .code _ => none
  | .text value => value.map Stored.origin
  | .cryptodev key => key

/-- The origin is the device, the PIN and the flag of a configuration. -/
structure Origin.BelongsTo (host : HsmHost σ) (config : HsmConfig) (origin : Origin) : Prop where
  device : ∃ baudrate, host.opened (some config.devicePath) baudrate = some origin.device
  pin_eq : origin.pin = some config.simPin
  signing_eq : origin.signing = config.signing

/-- The last configuration; the last call is the first of the list. -/
def latest : List HsmCall → Option HsmConfig
  | [] => none
  | .setData config :: _ => some config
  | _ :: calls => latest calls

/-- What a call returns is of the last configuration, and a common name comes with a certificate of its origin. -/
structure Belongs (host : HsmHost σ) (calls : List HsmCall) (call : HsmCall) (result : HsmResult) (s' : Hsm σ) :
    Prop where
  origin : ∀ config origin, latest calls = some config → result.origin? = some origin → origin.BelongsTo host config
  paired : call = .getCommonName → ∀ name, result = .text (some name) →
    ∃ cert, s'.info.certificate = some cert ∧ cert.origin = name.origin

/-- The runs of a handle in a process, with calls that meet a condition. -/
inductive Runs (host : HsmHost σ) (good : HsmCall → Nat → Hsm σ → Prop) (process : Process σ) :
    List HsmCall → Hsm σ → Prop
  | create : Runs host good process [] ⟨process, .create⟩
  | call {calls : List HsmCall} {s s' : Hsm σ} {call : HsmCall} {fuel : Nat} {result : HsmResult}
      (h : Runs host good process calls s) (hgood : good call fuel s)
      (hrun : call.run host fuel s = (.done result, s')) :
      Runs host good process (call :: calls) s'

/-! ### The condition -/

/-- The interface that is read from behind `tobInitialize`. -/
def target (host : HsmHost σ) (s : Hsm σ) : Nat :=
  match s.process.modem, host.opened s.info.devicePath s.info.baudrate with
  | none, some address => address
  | _, _ => s.process.current

/-- It is an interface of the configured device. -/
def Targets (host : HsmHost σ) (s : Hsm σ) : Prop :=
  ∀ path, s.info.devicePath = some path → ∃ baudrate, host.opened (some path) baudrate = some (target host s)

/-- If the certificate cannot be read, no certificate is found in the buffer. -/
def FailsQuietly (host : HsmHost σ) (fuel : Nat) (s : Hsm σ) : Prop :=
  ∀ cert s', readCert host fuel s = (.done cert, s') → cert.ret ≠ 0 →
    ∀ certstack, host.pemX509InfoReadBio (extracted host.cert cert) = some certstack → certstack = []

/-- Nothing is kept. -/
structure HsmRecord.Empty (info : HsmRecord) : Prop where
  certificate : info.certificate = none
  commonName : info.commonName = none
  key : info.key = none
  signingKey : info.signingKey = none

/-- The handle has this device, PIN and flag. -/
structure HsmRecord.Has (info : HsmRecord) (config : HsmConfig) : Prop where
  devicePath : info.devicePath = some config.devicePath
  simPin : info.simPin = some config.simPin
  signing : info.signing = config.signing

/-- A configuration is set while nothing is kept, or it is the same; what is read is read from the configured device;
and a certificate that cannot be read leaves no common name. -/
def Coherent (host : HsmHost σ) (call : HsmCall) (fuel : Nat) (s : Hsm σ) : Prop :=
  match call with
  | .setData config => s.info.Empty ∨ s.info.Has config
  | .getCertificate => s.info.certificate = none → Targets host s ∧ FailsQuietly host fuel s
  | .getCommonName => s.info.commonName = none → s.info.certificate = none → Targets host s ∧ FailsQuietly host fuel s
  | .getKey => s.info.signing = false → s.info.key = none → Targets host s
  | .getKeyCryptodev => s.info.signing = true → s.info.signingKey = none → Targets host s

/-! ### The invariant -/

/-- What is kept. -/
inductive HsmRecord.Keeps (info : HsmRecord) : Origin → Prop
  | certificate {stored : Stored} (h : info.certificate = some stored) : info.Keeps stored.origin
  | commonName {stored : Stored} (h : info.commonName = some stored) : info.Keeps stored.origin
  | key {stored : Stored} (h : info.key = some stored) : info.Keeps stored.origin
  | signingKey {origin : Origin} (h : info.signingKey = some origin) : info.Keeps origin

/-- The handle has the last configuration, what is kept belongs to it, and a common name is kept with its
certificate. -/
structure Kept (host : HsmHost σ) (config? : Option HsmConfig) (info : HsmRecord) : Prop where
  unset : config? = none → info.devicePath = none
  has : ∀ config, config? = some config → info.Has config
  belongs : ∀ config origin, config? = some config → info.Keeps origin → origin.BelongsTo host config
  paired : ∀ name, info.commonName = some name → ∃ cert, info.certificate = some cert ∧ cert.origin = name.origin

variable {host : HsmHost σ} {config? : Option HsmConfig} {fuel : Nat} {s s₁ s' : Hsm σ}

theorem HsmRecord.Empty.not_keeps {info : HsmRecord} (h : info.Empty) {origin : Origin} : ¬info.Keeps origin := by
  intro hkeeps
  cases hkeeps with
  | certificate heq => exact absurd (heq.symm.trans h.certificate) (Option.some_ne_none _)
  | commonName heq => exact absurd (heq.symm.trans h.commonName) (Option.some_ne_none _)
  | key heq => exact absurd (heq.symm.trans h.key) (Option.some_ne_none _)
  | signingKey heq => exact absurd (heq.symm.trans h.signingKey) (Option.some_ne_none _)

theorem create_kept : Kept host none .create where
  unset _ := rfl
  has _ h := nomatch h
  belongs _ _ h := nomatch h
  paired _ h := nomatch h

/-! ### Reads -/

/-- A call of the SDK other than `tobInitialize` stays on the interface. -/
theorem outside_zoom_eq {α : Type} {program : Exec (Sdk σ) α} {value : α}
    (h : outside (zoom Process.sdkLens program) fuel s = (.done value, s')) :
    s'.info = s.info ∧ s'.process.current = s.process.current := by
  obtain ⟨p, hrun, rfl⟩ := zoom_eq_done h
  obtain ⟨t, _, rfl⟩ := zoom_eq_done hrun
  exact ⟨rfl, rfl⟩

/-- `tobInitialize` with the configuration of the handle. -/
theorem tobInitialize_target {code : Int}
    (h : outside (host.tob.tobInitialize s.info.devicePath s.info.baudrate) fuel s = (.done code, s')) :
    s'.info = s.info ∧ s'.process.current = target host s := by
  obtain ⟨p, hrun, rfl⟩ := zoom_eq_done h
  refine ⟨rfl, ?_⟩
  change Process.tobInitialize host.transport (host.opened s.info.devicePath s.info.baudrate) fuel s.process = _ at hrun
  show p.current = _
  unfold target
  unfold Process.tobInitialize at hrun
  rw [bind_done (gets_apply _ fuel _)] at hrun
  rcases hmodem : s.process.modem with _ | modem
  · rw [hmodem, if_neg (by simp)] at hrun
    rcases hopened : host.opened s.info.devicePath s.info.baudrate with _ | address
    · rw [hopened] at hrun
      cases hrun
      rfl
    · rw [hopened] at hrun
      dsimp only at hrun
      rw [bind_done (modify_apply _ fuel _)] at hrun
      obtain ⟨_, p₁, _, hattach⟩ := bind_eq_done hrun
      cases hattach
      rfl
  · rw [hmodem, if_pos (by simp)] at hrun
    cases hrun
    rfl

/-- The reads of the certificate. -/
theorem readCert_target {cert : Extract} (h : readCert host fuel s = (.done cert, s')) :
    s'.info = s.info ∧ s'.process.current = target host s := by
  unfold readCert at h
  rw [bind_done (gets_apply _ fuel s)] at h
  obtain ⟨code, s₁, hinit, hread⟩ := bind_eq_done h
  obtain ⟨hinfo, hcurrent⟩ := tobInitialize_target hinit
  rw [← hinfo, ← hcurrent]
  split at hread
  · obtain ⟨result, s₂, hread, hend⟩ := bind_eq_done hread
    cases hend
    exact outside_zoom_eq hread
  · exact outside_zoom_eq hread

/-- What is read from the configured device belongs to the last configuration. -/
theorem origin_belongs (hkept : Kept host config? s.info) (htargets : Targets host s) (hinfo : s₁.info = s.info)
    (hcurrent : s₁.process.current = target host s) {config : HsmConfig} (hconfig : config? = some config) :
    s₁.origin.BelongsTo host config := by
  have hhas := hkept.has config hconfig
  obtain ⟨baudrate, hopened⟩ := htargets config.devicePath hhas.devicePath
  refine ⟨⟨baudrate, ?_⟩, ?_, ?_⟩
  · show host.opened (some config.devicePath) baudrate = some s₁.process.current
    rw [hopened, hcurrent]
  · show s₁.info.simPin = _
    rw [hinfo, hhas.simPin]
  · show s₁.info.signing = _
    rw [hinfo, hhas.signing]

/-- What `subjectName` sets is the name of a certificate in the text. -/
theorem subjectName_eq_done {cert : List UInt8} {name : Option (List UInt8)}
    (h : subjectName host cert fuel s = (.done name, s')) :
    s' = s ∧ (name ≠ none → ∃ certstack, host.pemX509InfoReadBio cert = some certstack ∧ certstack ≠ []) := by
  unfold subjectName at h
  rcases hstack : host.pemX509InfoReadBio cert with _ | certstack
  · rw [hstack] at h
    cases h
    exact ⟨rfl, fun hsome => absurd rfl hsome⟩
  · rw [hstack] at h
    obtain ⟨_, s₁, hcheck, hend⟩ := bind_eq_done h
    obtain ⟨_, rfl⟩ := check_eq_done hcheck
    cases hend
    refine ⟨rfl, fun hsome => ⟨certstack, rfl, ?_⟩⟩
    rintro rfl
    exact hsome rfl

/-! ### What the calls keep -/

/-- Without a certificate there is no common name. -/
theorem Kept.commonName_none {info : HsmRecord} (h : Kept host config? info) (hnone : info.certificate = none) :
    info.commonName = none := by
  by_contra hsome
  obtain ⟨name, hname⟩ := Option.ne_none_iff_exists'.mp hsome
  obtain ⟨cert, hcert, _⟩ := h.paired name hname
  exact absurd (hcert.symm.trans hnone) (Option.some_ne_none _)

/-- Only what is kept changes, and what is kept anew belongs to the configuration. -/
theorem Kept.change {info info' : HsmRecord} (h : Kept host config? info)
    (hconfig : info' = { info' with devicePath := info.devicePath, simPin := info.simPin, signing := info.signing })
    (hkeeps : ∀ origin, info'.Keeps origin →
      info.Keeps origin ∨ ∀ config, config? = some config → origin.BelongsTo host config)
    (hpaired : ∀ name, info'.commonName = some name → ∃ cert, info'.certificate = some cert ∧
      cert.origin = name.origin) :
    Kept host config? info' where
  unset hnone := by
    rw [hconfig]
    exact h.unset hnone
  has config heq := by
    rw [hconfig]
    exact ⟨(h.has config heq).devicePath, (h.has config heq).simPin, (h.has config heq).signing⟩
  belongs config origin heq hkept := by
    rcases hkeeps origin hkept with hbefore | hnew
    · exact h.belongs config origin heq hbefore
    · exact hnew config heq
  paired := hpaired

theorem Kept.setCertificate {info : HsmRecord} (h : Kept host config? info) (hnone : info.certificate = none)
    (stored : Stored) (hbelongs : ∀ config, config? = some config → stored.origin.BelongsTo host config) :
    Kept host config? { info with certificate := some stored } := by
  refine h.change rfl (fun origin hkeeps => ?_) fun name hname => ?_
  · cases hkeeps with
    | certificate heq =>
        cases heq
        exact .inr hbelongs
    | commonName heq => exact .inl (.commonName heq)
    | key heq => exact .inl (.key heq)
    | signingKey heq => exact .inl (.signingKey heq)
  · exact absurd (hname.symm.trans (h.commonName_none hnone)) (Option.some_ne_none _)

theorem Kept.setCommonName {info : HsmRecord} (h : Kept host config? info) (cert name : Stored)
    (hcert : info.certificate = some cert) (horigin : cert.origin = name.origin) :
    Kept host config? { info with commonName := some name } := by
  refine h.change rfl (fun origin hkeeps => ?_) fun other hother => ?_
  · cases hkeeps with
    | certificate heq => exact .inl (.certificate heq)
    | commonName heq =>
        cases heq
        rw [← horigin]
        exact .inl (.certificate hcert)
    | key heq => exact .inl (.key heq)
    | signingKey heq => exact .inl (.signingKey heq)
  · cases hother
    exact ⟨cert, hcert, horigin⟩

theorem Kept.setKey {info : HsmRecord} (h : Kept host config? info) {stored : Stored}
    (hbelongs : ∀ config, config? = some config → stored.origin.BelongsTo host config) :
    Kept host config? { info with key := some stored } := by
  refine h.change rfl (fun origin hkeeps => ?_) h.paired
  cases hkeeps with
  | certificate heq => exact .inl (.certificate heq)
  | commonName heq => exact .inl (.commonName heq)
  | key heq =>
      cases heq
      exact .inr hbelongs
  | signingKey heq => exact .inl (.signingKey heq)

theorem Kept.setSigningKey {info : HsmRecord} (h : Kept host config? info) {origin : Origin}
    (hbelongs : ∀ config, config? = some config → origin.BelongsTo host config) :
    Kept host config? { info with signingKey := some origin } := by
  refine h.change rfl (fun other hkeeps => ?_) h.paired
  cases hkeeps with
  | certificate heq => exact .inl (.certificate heq)
  | commonName heq => exact .inl (.commonName heq)
  | key heq => exact .inl (.key heq)
  | signingKey heq =>
      cases heq
      exact .inr hbelongs

/-- A certificate that is read, or not, with its common name. -/
theorem populateCert_kept {code : Int} (hkept : Kept host config? s.info) (hnone : s.info.certificate = none)
    (hgood : Targets host s ∧ FailsQuietly host fuel s) (h : populateCert host fuel s = (.done code, s')) :
    Kept host config? s'.info := by
  unfold populateCert at h
  rw [bind_done (gets_apply _ fuel s), if_neg (not_not.mpr hnone)] at h
  obtain ⟨cert, s₁, hread, h⟩ := bind_eq_done h
  obtain ⟨hinfo, hcurrent⟩ := readCert_target hread
  rw [bind_done (gets_apply _ fuel s₁)] at h
  obtain ⟨result, s₂, hstore, h⟩ := bind_eq_done h
  obtain ⟨_, s₃, hname, hend⟩ := bind_eq_done h
  cases hend
  obtain ⟨name, s₄, hfind, hset⟩ := bind_eq_done hname
  obtain ⟨rfl, hfound⟩ := subjectName_eq_done hfind
  have hkept₁ : Kept host config? s₁.info := hinfo ▸ hkept
  have hnone₁ : s₁.info.certificate = none := hinfo ▸ hnone
  unfold keepCertificate at hstore
  by_cases hret : cert.ret ≠ 0
  · -- no name is found
    rw [if_pos hret] at hstore
    cases hstore
    cases name with
    | none =>
        cases hset
        exact hkept₁
    | some text =>
        obtain ⟨certstack, hstack, hne⟩ := hfound (Option.some_ne_none text)
        exact absurd (hgood.2 cert s₁ hread hret certstack hstack) hne
  · rw [if_neg hret] at hstore
    obtain ⟨_, s₅, hcheck, hstore⟩ := bind_eq_done hstore
    obtain ⟨_, rfl⟩ := check_eq_done hcheck
    cases hstore
    have hkept₂ := hkept₁.setCertificate hnone₁ ⟨extracted host.cert cert, s₅.origin⟩
      fun config hconfig => origin_belongs hkept hgood.1 hinfo hcurrent hconfig
    cases name with
    | none =>
        cases hset
        exact hkept₂
    | some text =>
        cases hset
        exact hkept₂.setCommonName ⟨extracted host.cert cert, s₅.origin⟩ ⟨text, s₅.origin⟩ rfl rfl

/-- A key that is read, or not. -/
theorem populateKey_kept {code : Int} (hkept : Kept host config? s.info) (hnone : s.info.key = none)
    (htargets : Targets host s) (h : populateKey host fuel s = (.done code, s')) : Kept host config? s'.info := by
  unfold populateKey at h
  rw [bind_done (gets_apply _ fuel s), if_neg (not_not.mpr hnone), bind_done (gets_apply _ fuel s)] at h
  obtain ⟨_, s₁, hinit, h⟩ := bind_eq_done h
  obtain ⟨hinfo, hcurrent⟩ := tobInitialize_target hinit
  obtain ⟨pk, s₂, hread, h⟩ := bind_eq_done h
  obtain ⟨hinfo₂, hcurrent₂⟩ := outside_zoom_eq hread
  rw [bind_done (gets_apply _ fuel s₂)] at h
  have hkept₂ : Kept host config? s₂.info := (hinfo₂.trans hinfo) ▸ hkept
  by_cases hret : pk.ret ≠ 0
  · rw [if_pos hret] at h
    cases h
    exact hkept₂
  · rw [if_neg hret] at h
    obtain ⟨_, s₃, hcheck, h⟩ := bind_eq_done h
    obtain ⟨_, rfl⟩ := check_eq_done hcheck
    cases h
    exact hkept₂.setKey fun config hconfig =>
      origin_belongs hkept htargets (hinfo₂.trans hinfo) (hcurrent₂.trans hcurrent) hconfig

theorem populateSigningKey_kept {code : Int} (hkept : Kept host config? s.info) (hnone : s.info.signingKey = none)
    (htargets : Targets host s) (h : populateSigningKey host fuel s = (.done code, s')) :
    Kept host config? s'.info := by
  unfold populateSigningKey at h
  rw [bind_done (gets_apply _ fuel s), if_neg (not_not.mpr hnone), bind_done (gets_apply _ fuel s)] at h
  obtain ⟨_, s₁, hinit, h⟩ := bind_eq_done h
  obtain ⟨hinfo, hcurrent⟩ := tobInitialize_target hinit
  cases h
  have hkept₁ : Kept host config? s₁.info := hinfo ▸ hkept
  exact hkept₁.setSigningKey fun config hconfig => origin_belongs hkept htargets hinfo hcurrent hconfig

/-! ### The calls -/

theorem getCertificate_kept {value : Option Stored} (hkept : Kept host config? s.info)
    (hgood : s.info.certificate = none → Targets host s ∧ FailsQuietly host fuel s)
    (h : customHsmGetCertificate host fuel s = (.done value, s')) :
    Kept host config? s'.info ∧ value = s'.info.certificate.map Stored.copied := by
  unfold customHsmGetCertificate at h
  rw [bind_done (gets_apply _ fuel s)] at h
  by_cases hnone : s.info.certificate = none
  · rw [if_pos hnone] at h
    obtain ⟨_, s₁, hpopulate, hget⟩ := bind_eq_done h
    cases hget
    exact ⟨populateCert_kept hkept hnone (hgood hnone) hpopulate, rfl⟩
  · rw [if_neg hnone] at h
    cases h
    exact ⟨hkept, rfl⟩

theorem getCommonName_kept {value : Option Stored} (hkept : Kept host config? s.info)
    (hgood : s.info.commonName = none → s.info.certificate = none → Targets host s ∧ FailsQuietly host fuel s)
    (h : customHsmGetCommonName host fuel s = (.done value, s')) :
    Kept host config? s'.info ∧ value = s'.info.commonName.map Stored.copied := by
  unfold customHsmGetCommonName at h
  rw [bind_done (gets_apply _ fuel s)] at h
  by_cases hnone : s.info.commonName = none
  · rw [if_pos hnone] at h
    obtain ⟨code, s₁, hpopulate, hget⟩ := bind_eq_done h
    cases hget
    refine ⟨?_, rfl⟩
    by_cases hcert : s.info.certificate = none
    · exact populateCert_kept hkept hcert (hgood hnone hcert) hpopulate
    · -- the certificate is there already
      unfold populateCert at hpopulate
      rw [bind_done (gets_apply _ fuel s), if_pos hcert] at hpopulate
      cases hpopulate
      exact hkept
  · rw [if_neg hnone] at h
    cases h
    exact ⟨hkept, rfl⟩

theorem getKey_kept {value : Option Stored} (hkept : Kept host config? s.info)
    (hgood : s.info.signing = false → s.info.key = none → Targets host s)
    (h : customHsmGetKey host fuel s = (.done value, s')) :
    Kept host config? s'.info ∧ (value = none ∨ value = s'.info.key.map Stored.copied) := by
  unfold customHsmGetKey at h
  rw [bind_done (gets_apply _ fuel s)] at h
  by_cases hsigning : s.info.signing = true
  · rw [if_pos hsigning] at h
    cases h
    exact ⟨hkept, .inl rfl⟩
  · rw [if_neg hsigning, bind_done (gets_apply _ fuel s)] at h
    by_cases hnone : s.info.key = none
    · rw [if_pos hnone] at h
      obtain ⟨_, s₁, hpopulate, hget⟩ := bind_eq_done h
      cases hget
      exact ⟨populateKey_kept hkept hnone (hgood (Bool.eq_false_iff.mpr hsigning) hnone) hpopulate, .inr rfl⟩
    · rw [if_neg hnone] at h
      cases h
      exact ⟨hkept, .inr rfl⟩

theorem getKeyCryptodev_kept {value : Option Origin} (hkept : Kept host config? s.info)
    (hgood : s.info.signing = true → s.info.signingKey = none → Targets host s)
    (h : customHsmGetKeyCryptodev host fuel s = (.done value, s')) :
    Kept host config? s'.info ∧ (value = none ∨ value = s'.info.signingKey) := by
  unfold customHsmGetKeyCryptodev at h
  rw [bind_done (gets_apply _ fuel s)] at h
  by_cases hsigning : s.info.signing = true
  · rw [if_pos hsigning, bind_done (gets_apply _ fuel s)] at h
    by_cases hnone : s.info.signingKey = none
    · rw [if_pos hnone] at h
      obtain ⟨_, s₁, hpopulate, hget⟩ := bind_eq_done h
      cases hget
      exact ⟨populateSigningKey_kept hkept hnone (hgood hsigning hnone) hpopulate, .inr rfl⟩
    · rw [if_neg hnone] at h
      cases h
      exact ⟨hkept, .inr rfl⟩
  · rw [if_neg hsigning] at h
    cases h
    exact ⟨hkept, .inl rfl⟩

/-- What is kept does not depend on the configuration. -/
theorem keeps_setData {info : HsmRecord} {config : HsmConfig} {origin : Origin}
    (h : HsmRecord.Keeps { info with
      devicePath := some config.devicePath
      simPin := some config.simPin
      signing := config.signing
      baudrate := config.baudrate } origin) : info.Keeps origin := by
  cases h with
  | certificate heq => exact .certificate heq
  | commonName heq => exact .commonName heq
  | key heq => exact .key heq
  | signingKey heq => exact .signingKey heq

/-- A configuration that is set while nothing is kept, or that was set already. -/
theorem setData_kept {config : HsmConfig} {code : Int} (hkept : Kept host config? s.info)
    (hgood : s.info.Empty ∨ s.info.Has config) (h : customHsmSetData config fuel s = (.done code, s')) :
    Kept host (some config) s'.info := by
  cases h
  refine ⟨nofun, ?_, ?_, hkept.paired⟩
  · intro other hother
    cases hother
    exact ⟨rfl, rfl, rfl⟩
  · intro other origin hother hkeeps
    cases hother
    rcases hgood with hempty | hsame
    · exact absurd (keeps_setData hkeeps) hempty.not_keeps
    · cases hconfig : config? with
      | none => exact absurd (hsame.devicePath.symm.trans (hkept.unset hconfig)) (Option.some_ne_none _)
      | some before =>
          have hhas := hkept.has before hconfig
          have hbelongs := hkept.belongs before origin hconfig (keeps_setData hkeeps)
          have hpath : before.devicePath = config.devicePath :=
            Option.some.inj (hhas.devicePath.symm.trans hsame.devicePath)
          have hpin : some before.simPin = some config.simPin := hhas.simPin.symm.trans hsame.simPin
          have hsigning : before.signing = config.signing := hhas.signing.symm.trans hsame.signing
          exact ⟨hpath ▸ hbelongs.device, hbelongs.pin_eq.trans hpin, hbelongs.signing_eq.trans hsigning⟩

/-- A copy has the origin of what it is a copy of. -/
theorem copied_origin {kept : Option Stored} {origin : Origin}
    (h : (HsmResult.text (kept.map Stored.copied)).origin? = some origin) :
    ∃ stored, kept = some stored ∧ stored.origin = origin := by
  cases kept with
  | none => cases h
  | some stored => exact ⟨stored, rfl, Option.some.inj h⟩

/-- One call keeps the invariant, and what it returns is kept. -/
theorem call_kept {calls : List HsmCall} {call : HsmCall} {result : HsmResult} (hkept : Kept host (latest calls) s.info)
    (hgood : Coherent host call fuel s) (h : call.run host fuel s = (.done result, s')) :
    Kept host (latest (call :: calls)) s'.info ∧ (∀ origin, result.origin? = some origin → s'.info.Keeps origin) ∧
      (call = .getCommonName → result = .text (s'.info.commonName.map Stored.copied)) := by
  cases call with
  | setData config =>
      obtain ⟨code, s₁, hset, hend⟩ := bind_eq_done h
      cases hend
      exact ⟨setData_kept hkept hgood hset, nofun, nofun⟩
  | getCertificate =>
      obtain ⟨value, s₁, hget, hend⟩ := bind_eq_done h
      cases hend
      obtain ⟨hkept', rfl⟩ := getCertificate_kept hkept hgood hget
      refine ⟨hkept', fun origin horigin => ?_, nofun⟩
      obtain ⟨stored, hstored, rfl⟩ := copied_origin horigin
      exact .certificate hstored
  | getKey =>
      obtain ⟨value, s₁, hget, hend⟩ := bind_eq_done h
      cases hend
      obtain ⟨hkept', hvalue⟩ := getKey_kept hkept hgood hget
      refine ⟨hkept', fun origin horigin => ?_, nofun⟩
      rcases hvalue with rfl | rfl
      · cases horigin
      · obtain ⟨stored, hstored, rfl⟩ := copied_origin horigin
        exact .key hstored
  | getKeyCryptodev =>
      obtain ⟨value, s₁, hget, hend⟩ := bind_eq_done h
      cases hend
      obtain ⟨hkept', hvalue⟩ := getKeyCryptodev_kept hkept hgood hget
      refine ⟨hkept', fun origin horigin => ?_, nofun⟩
      rcases hvalue with rfl | rfl
      · cases horigin
      · exact .signingKey horigin
  | getCommonName =>
      obtain ⟨value, s₁, hget, hend⟩ := bind_eq_done h
      cases hend
      obtain ⟨hkept', rfl⟩ := getCommonName_kept hkept hgood hget
      refine ⟨hkept', fun origin horigin => ?_, fun _ => rfl⟩
      obtain ⟨stored, hstored, rfl⟩ := copied_origin horigin
      exact .commonName hstored

theorem Runs.kept {process : Process σ} {calls : List HsmCall} (h : Runs host (Coherent host) process calls s) :
    Kept host (latest calls) s.info := by
  induction h with
  | create => exact create_kept
  | call _ hgood hrun ih => exact (call_kept ih hgood hrun).1

/-- **Azure HSM credentials belong together** in every run whose calls are coherent: what a call returns is of the last
configuration, and a common name comes with a certificate that was read for the same. -/
theorem credentials_belong {process : Process σ} {calls : List HsmCall} {call : HsmCall} {result : HsmResult}
    (h : Runs host (Coherent host) process calls s) (hgood : Coherent host call fuel s)
    (hrun : call.run host fuel s = (.done result, s')) : Belongs host calls call result s' := by
  obtain ⟨hkept, horigin, hname⟩ := call_kept h.kept hgood hrun
  refine ⟨fun config origin hconfig hresult => ?_, fun hcall name hresult => ?_⟩
  · cases call with
    | setData _ =>
        obtain ⟨code, s₁, _, hend⟩ := bind_eq_done hrun
        cases hend
        cases hresult
    | getCertificate => exact hkept.belongs config origin hconfig (horigin origin hresult)
    | getKey => exact hkept.belongs config origin hconfig (horigin origin hresult)
    | getKeyCryptodev => exact hkept.belongs config origin hconfig (horigin origin hresult)
    | getCommonName => exact hkept.belongs config origin hconfig (horigin origin hresult)
  · rw [hname hcall] at hresult
    cases hstored : s'.info.commonName with
    | none =>
        rw [hstored] at hresult
        cases hresult
    | some stored =>
        rw [hstored] at hresult
        cases hresult
        exact hkept.paired stored hstored

end Credentials

/-! ### Two runs -/

section Examples

/-- The channels are closed, the applet is selected and the PIN accepted; the file "CERT_AVAILABLE" has the text
"AB". -/
def certificateAnswers : List (Option (List UInt8)) :=
  List.replicate 13 (some [0x90, 0x00]) ++
    [some [0x01, 0x90, 0x00], some [0x90, 0x00], some [0x90, 0x00], some [0x90, 0x00], some [0x01, 0x90, 0x00],
      some ([0x02, 0x01, 0x00, 0x19] ++ cstr "pubdat00" ++ cstr "p11" ++ [0, 0, 0, 0, 0, 0] ++ [0x90, 0x00]),
      some [0x90, 0x00], some [0x0E, 0x90, 0x00], some (cstr "CERT_AVAILABLE" ++ [0x90, 0x00]), some [0x00, 0x90, 0x00],
      some [0x00, 0x90, 0x00], some [0x02, 0xC0, 0xC1, 0, 0, 0x90, 0x00], some [0x41, 0x42, 0x90, 0x00],
      some [0x90, 0x00]]

/-- One device, and no certificate in the text. -/
def certificateHost : HsmHost (List (Option (List UInt8))) where
  transport := scripted
  opened device _ := if device = some (cstr "/dev/ttyACM1") then some 0 else none
  locals := ⟨⟨Mem.zero, 0⟩, 0, 0⟩
  cert := Mem.zero
  certDer := Mem.zero
  pk := Mem.zero
  pkDer := Mem.zero
  pemX509InfoReadBio _ := some []

def certificateProcess : Process (List (Option (List UInt8))) := .start (fun _ => certificateAnswers) fun _ => Mem.zero

def firstConfig : HsmConfig := ⟨cstr "/dev/ttyACM1", cstr "0000", false, 115200⟩

def secondConfig : HsmConfig := ⟨cstr "/dev/ttyACM2", cstr "1111", false, 115200⟩

/-- The handle behind a call. -/
def after (call : HsmCall) (s : Hsm (List (Option (List UInt8)))) : Hsm (List (Option (List UInt8))) :=
  (call.run certificateHost 6 s).2

def configured : Hsm (List (Option (List UInt8))) := after (.setData firstConfig) ⟨certificateProcess, .create⟩

theorem credentials_belong_certificate : ∃ result s',
    HsmCall.getCertificate.run certificateHost 6 configured = (.done result, s') ∧
      result.origin? = some ⟨0, some (cstr "0000"), false⟩ ∧
      Belongs certificateHost [.setData firstConfig] .getCertificate result s' := by
  obtain ⟨result, hrun, horigin⟩ := done_of_value?
    (show (HsmCall.getCertificate.run certificateHost 6 configured).1.value?.map HsmResult.origin? =
      some (some ⟨0, some (cstr "0000"), false⟩) by decide +kernel)
  have hset : Coherent certificateHost (.setData firstConfig) 6 ⟨certificateProcess, .create⟩ :=
    .inl ⟨rfl, rfl, rfl, rfl⟩
  have hget : Coherent certificateHost .getCertificate 6 configured := by
    refine fun _ => ⟨fun path hpath => ?_, fun cert s' _ _ certstack hstack => ?_⟩
    · cases hpath
      exact ⟨115200, rfl⟩
    · cases hstack
      rfl
  exact ⟨result, _, hrun, horigin, credentials_belong (.call .create hset rfl) hget hrun⟩

/-- The certificate that was read with the first configuration is returned for the second. -/
theorem certificate_of_first_config : ∃ s result s',
    Runs certificateHost (fun _ _ _ => True) certificateProcess
    [.setData secondConfig, .getCertificate, .setData firstConfig] s ∧
      HsmCall.getCertificate.run certificateHost 6 s = (.done result, s') ∧
      ¬Belongs certificateHost [.setData secondConfig, .getCertificate, .setData firstConfig] .getCertificate
      result s' := by
  obtain ⟨first, hread, _⟩ := done_of_value?
    (show (HsmCall.getCertificate.run certificateHost 6 configured).1.value?.map HsmResult.origin? =
      some (some ⟨0, some (cstr "0000"), false⟩) by decide +kernel)
  obtain ⟨result, hrun, horigin⟩ := done_of_value?
    (show (HsmCall.getCertificate.run certificateHost 6
      (after (.setData secondConfig) (after .getCertificate configured))).1.value?.map
      HsmResult.origin? = some (some ⟨0, some (cstr "0000"), false⟩) by decide +kernel)
  have hset : (HsmCall.setData firstConfig).run certificateHost 6 ⟨certificateProcess, .create⟩ =
      (.done (.code 0), configured) :=
    rfl
  have hreset : (HsmCall.setData secondConfig).run certificateHost 6 (after .getCertificate configured) =
      (.done (.code 0), after (.setData secondConfig) (after .getCertificate configured)) := rfl
  refine ⟨_, result, _, .call (.call (.call .create trivial hset) trivial hread) trivial hreset, hrun,
    fun hbelongs => ?_⟩
  have hpin := (hbelongs.origin secondConfig _ rfl horigin).pin_eq
  exact absurd hpin (by decide)

end Examples

end TrustOnboard.AzureHsm
