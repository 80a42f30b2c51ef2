import TrustOnboard.TokenCalls

/-! The API as a service: processes that initialise the library and make any calls, on cards that carry a profile. -/

namespace TrustOnboard

open Exec Linked SEInterface

namespace Profile

open Sdk

variable {profile : Profile} {σ : Type} {T : Transport σ} {channels : UInt8 → Prop} {view : σ → Token.State}
    {current : σ → Nat}
  {s : Sdk σ} {tries : Nat}

/-! ### One call -/

section Calls

variable (h : profile.CarriedBy T channels view current) (hrep : profile.Represents view tries s)

include h hrep

theorem signingCertificate_attains (locals : Locals) (pem : Option Mem) (pemSize : Option Int) (der : Option Mem)
    (derSize : Int) (pin : Option (List UInt8)) :
    Attains (tobExtractSigningCertificate T locals pem pemSize der derSize pin) s fun result s' =>
      result = pemResult (cstr "CERTIFICATE") pem pemSize
        (match profile.signingCertificate with
          | none => ⟨ERR_SE_BAD_KEY_NAME_ERROR, der, derSize⟩
          | some file => certificateAnswer (Mias.delivered der file) derSize) ∧ profile.Represents view tries s' := by
  have hlists : ∀ channel (t : Linked σ Mias), channels channel → Mias.Ready channel t.obj → Mias.SameKeys s.mias t.obj →
      Attains (Mias.listKeyPairs T) t fun _ t' =>
        Mias.Tabled profile.certificates channel profile.certificates.records t'.obj ∧
        Stock profile.certificates t'.obj := fun channel t hchannel hready hsame =>
    listKeyPairs_stocks (h.certificates channel hchannel) hready (hrep.stocked.same hsame)
  apply (tobExtractSigningDer_visits h.admits h.spares h.certificates hrep.initialized
    (fun _ _ hsame hstock => hstock.same hsame)
    hlists locals der derSize pin).bind
  rintro read s₁ ⟨⟨hinit₁, hstock₁, htries₁⟩, hnone, hsome⟩
  refine .pure ⟨?_, hinit₁, .inr hstock₁, htries₁.trans hrep.tries_eq⟩
  rw [Profile.signingCertificate]
  cases hrecord : profile.certificates.signingRecord with
  | none =>
      have hmissing : ¬profile.certificates.Holder 0 := by
        rw [profile.certificates.holder_iff, hrecord]
        rintro ⟨record, hfalse⟩
        cases hfalse
      rw [hnone fun hboth => hmissing hboth.1]
      rfl
  | some record =>
      have hholder : profile.certificates.Holder 0 := profile.certificates.holder_iff.mpr ⟨record, hrecord⟩
      cases hlinked : profile.certificates.linked 0 with
      | none =>
          rw [hnone fun hboth => by
            obtain ⟨_, entry, hentry⟩ := hboth
            rw [hlinked] at hentry
            cases hentry]
          rfl
      | some entry =>
          rw [hsome hholder entry hlinked]
          rfl

theorem signingLen_attains (pin : Option (List UInt8)) :
    Attains (tobSigningLen T pin) s fun result s' =>
      result = (match profile.certificates.signingRecord with
        | none => ERR_SE_BAD_KEY_NAME_ERROR
        | some record => (Mias.keySize record / 8 : Nat)) ∧ profile.Represents view tries s' := by
  refine h.guarded_attains _ hrep fun t channel hchannel hrep hready => ?_
  apply (findSigning_visits h.spares (h.certificates channel hchannel) hrep.initialized hready hrep.stocked).bind
  rintro found s₁ ⟨hfound, hstock, hinit₁, _, htries₁⟩
  have hrep₁ : profile.Represents view tries s₁ := ⟨hinit₁, .inr hstock, htries₁.trans hrep.tries_eq⟩
  have hsigning := hstock.signing
  rw [← hfound] at hsigning
  cases found with
  | none =>
      rw [hsigning]
      exact .pure ⟨rfl, hrep₁⟩
  | some index =>
      obtain ⟨record, hrecord, _, hsize⟩ := hsigning
      rw [hrecord]
      refine ⟨_, s₁, .gets, ?_, hrep₁⟩
      rw [hsize]

end Calls

/-- **A call of the API is a step of the specification.** -/
theorem calls_refine (h : profile.CarriedBy T channels view current) :
    Refines profile.perform (profile.Represents view) Request.Fits fun request => request.call.run T := by
  intro tries s request hrep hfits
  suffices Attains (request.call.run T) s fun result s' => result = profile.answer tries request ∧
      profile.Represents view (Retry.after profile.token.limit tries (profile.attempts request)) s' by
    obtain ⟨result, s', hrun, rfl, hrep'⟩ := this
    exact ⟨s', hrun, hrep'⟩
  cases request with
  | availableCertificate locals legacyLocals cert size text =>
      have hpin : text.length ≤ 255 := hfits
      have hcut : cut text = text := cut_of_lt (by omega)
      have hfit : (cut text).length ≤ 255 := hcut.symm ▸ hpin
      have hcard := h.hosts tries hfit
      apply (tobExtractAvailableCertificate_visits h.admits h.objects (by omega) (hcard.verdict text rfl)
        (fun haccepted => hcard.again haccepted text rfl) hrep.initialized hrep.tries_eq locals legacyLocals cert size).bind
      rintro result s₁ ⟨hvisited, rfl⟩
      rw [hcut] at hvisited ⊢
      exact .pure ⟨rfl, hrep.visited hvisited⟩
  | availablePrivateKey locals legacyLocals pem pemSize der derSize text =>
      have hpin : text.length ≤ 255 := hfits
      have hcut : cut text = text := cut_of_lt (by omega)
      have hfit : (cut text).length ≤ 255 := hcut.symm ▸ hpin
      have hcard := h.hosts tries hfit
      have hread : Attains (tobExtractAvailablePrivateKey T locals legacyLocals pem pemSize der derSize (some text)) s
          fun result s' => result = pemResult (cstr "RSA PRIVATE KEY") pem pemSize
            (appendNul (p11Answer (profile.token.accepts tries text) (privateKeyOn profile.objects) der derSize)) ∧
          Visited (fun card => (view card).tries) (Retry.spend profile.token.limit tries (profile.right text)) s s' := by
        apply (tobExtractAvailablePrivateKeyDer_visits h.admits h.objects (by omega) (hcard.verdict text rfl)
          (fun haccepted => hcard.again haccepted text rfl)
            hrep.initialized hrep.tries_eq locals legacyLocals der derSize).bind
        rintro result s₁ ⟨hvisited, rfl⟩
        rw [hcut] at hvisited ⊢
        exact .pure ⟨rfl, hvisited⟩
      apply hread.bind
      rintro result s₁ ⟨rfl, hvisited⟩
      exact .pure ⟨rfl, hrep.visited hvisited⟩
  | signingCertificate locals pem pemSize der derSize pin =>
      apply (signingCertificate_attains h hrep locals pem pemSize der derSize pin).bind
      rintro result s₁ ⟨rfl, hrep₁⟩
      exact .pure ⟨rfl, hrep₁⟩
  | sign algorithm hash hashLen signature len text =>
      have hpin : text.length ≤ 255 := hfits
      have hcut : cut text = text := cut_of_lt (by omega)
      apply Attains.bind
      · exact h.guarded_attains _ hrep fun t channel hchannel hrep hready => h.keyed_attains hchannel hrep hready
          (hcut.symm ▸ hpin) fun t key hready hinit hverified =>
            h.signs hchannel hready hinit hverified algorithm key hash (toUInt16 hashLen)
            signature len
      · rintro result s₁ ⟨rfl, hrep₁⟩
        rw [hcut] at hrep₁ ⊢
        exact .pure ⟨rfl, hrep₁⟩
  | decrypt cipher cipherLen plain len text =>
      obtain ⟨hpin, hpositive, hlen⟩ := hfits
      have hcut : cut text = text := cut_of_lt (by omega)
      have hcount : toUInt16 cipherLen = cipherLen.toNat := toUInt16_eq hpositive (by omega)
      apply Attains.bind
      · exact h.guarded_attains _ hrep fun t channel hchannel hrep hready => h.keyed_attains hchannel hrep hready
          (hcut.symm ▸ hpin) fun t key hready hinit hverified => h.deciphers hchannel hready hinit hverified key cipher
            (by omega) plain len
      · rintro result s₁ ⟨rfl, hrep₁⟩
        rw [hcut] at hrep₁ ⊢
        rw [hcount]
        exact .pure ⟨rfl, hrep₁⟩
  | length pin =>
      apply (signingLen_attains h hrep pin).bind
      rintro result s₁ ⟨rfl, hrep₁⟩
      exact .pure ⟨rfl, hrep₁⟩

/-! ### Processes -/

/-- The tries after a sequence of calls. -/
theorem specAll_tries (tries : Nat) (requests : List Request) :
    (specAll profile.perform tries requests).2 =
      Retry.after profile.token.limit tries (requests.flatMap profile.attempts) := by
  induction requests generalizing tries with
  | nil => rfl
  | cons request requests ih =>
      rw [specAll, ih, List.flatMap_cons]
      show Retry.after _ (Retry.after _ tries (profile.attempts request)) _ = _
      rw [Retry.after, Retry.after, Retry.after, List.foldl_append]

/-- The calls of a process, one after the other. -/
theorem apis_refine (h : profile.CarriedBy T channels view current) (requests : List Request)
    (hfits : ∀ request ∈ requests, request.Fits) {p : Process σ}
    (hrep : profile.Represents view tries (Process.sdkLens.get p)) :
    Yields (Process.runCalls T (requests.map fun request => .api request.call)) p
      ((specAll profile.perform tries requests).1.map .api) fun p' =>
      profile.Represents view (specAll profile.perform tries requests).2 (Process.sdkLens.get p') := by
  induction requests generalizing p tries with
  | nil => exact .pure hrep
  | cons request requests ih =>
      rw [List.forall_mem_cons] at hfits
      have hcall : Yields ((Process.Call.api request.call).run T) p (.api (profile.perform tries request).1) fun p' =>
          profile.Represents view (profile.perform tries request).2 (Process.sdkLens.get p') := by
        refine Yields.bind (Yields.zoom (calls_refine h tries (Process.sdkLens.get p) request hrep hfits.1) ?_)
          fun p' hrep' => .pure hrep'
        intro s hs
        rw [Process.sdkLens.get_set]
        exact hs
      refine hcall.bind fun p₁ hrep₁ => ?_
      exact (ih hfits.2 hrep₁).bind fun p₂ hrep₂ => .pure hrep₂

/-- Closing all channels ends, and costs no try. -/
theorem CarriedBy.closeAllChannels (h : profile.CarriedBy T channels view current) (se : SEInterface σ) :
    Attains (Applet.closeAllChannels T) se fun _ se' => (view se'.card).tries = (view se.card).tries := by
  have hends : ∀ (list : List Nat) (se : SEInterface σ), Attains (Applet.closeChannels T list) se fun _ _ => True := by
    intro list
    induction list with
    | nil => exact fun _ => .pure trivial
    | cons channel list ih =>
        intro se
        obtain ⟨result, card, hconcludes⟩ := h.admits.closes se.card (lowByte channel)
        exact (command_concludes hconcludes).bind_attains fun se' _ => ih se'
  have hstays : Stays (OnWire T id (Wire (· ≠ .verify) fun _ => True)) (Applet.closeAllChannels T) :=
    Applet.closeAllChannels_grows (by decide)
  obtain ⟨_, se', hrun, _, hgrows⟩ := (hends (List.range' 1 Applet.maxChannel) se).stays hstays
  exact ⟨_, se', hrun, shows_onWire h.spares hgrows⟩

/-- A process that initialises the library with an interface, for the first time. -/
theorem initializeWithInterface_represents (h : profile.CarriedBy T channels view current) {p : Process σ}
    (hmias : p.mias = .create) (address : Nat) :
    Yields (Process.tobInitializeWithInterface T (some address)) p 0 fun p' =>
      profile.Represents view (view (p.ifaces address).card).tries (Process.sdkLens.get p') := by
  obtain ⟨u, hclosed⟩ := h.closeAllChannels (p.ifaces address)
  have hclosed' : Yields (zoom (Process.ifaceLens address) (Applet.closeAllChannels T)) p u fun p' =>
      profile.Represents view (view (p.ifaces address).card).tries
        (Process.sdkLens.get (Process.attach (some address) p')) := by
    refine Yields.zoom hclosed fun se hse => ⟨⟨rfl, ?_⟩, .inl ⟨?_, fun index => ?_⟩, ?_⟩
    · show p.mias.applet.aid = Mias.aid
      rw [hmias]
      rfl
    · show p.mias.keypairsNum = -1
      rw [hmias]
      rfl
    · show p.mias.keypairs index = _
      rw [hmias]
      rfl
    · show (view (Function.update p.ifaces address se address).card).tries = _
      rw [Function.update_self, hse]
  refine hclosed'.bind fun p' hp' => ?_
  apply Yields.modify_bind
  exact .pure hp'

theorem initialize_represents (h : profile.CarriedBy T channels view current) (cards : Nat → σ) (buffers : Nat → Mem)
    (address : Nat) :
    Yields ((Process.Call.tobInitializeWithInterface (some address)).run T) (.start cards buffers) (.code 0) fun p' =>
      profile.Represents view (view (cards address)).tries (Process.sdkLens.get p') :=
  (initializeWithInterface_represents (p := .start cards buffers) h rfl address).bind fun _ hrep => .pure hrep

section Service

variable (h : profile.CarriedBy T channels view current) (cards : Nat → σ) (buffers : Nat → Mem) (address : Nat)
  (requests : List Request) (hfits : ∀ request ∈ requests, request.Fits)

include h hfits

/-- **The API is a service over the token.** After the library was initialised with an interface, any sequence of calls
ends; each returns what the specification returns for the tries that the calls before it have left. -/
theorem service_refines :
    Attains (Process.runCalls T (.tobInitializeWithInterface (some address) :: requests.map fun request =>
    .api request.call))
      (.start cards buffers) fun results p' =>
      results = .code 0 :: (specAll profile.perform (view (cards address)).tries requests).1.map .api ∧
        (view (p'.ifaces p'.current).card).tries =
          Retry.after profile.token.limit (view (cards address)).tries (requests.flatMap profile.attempts) := by
  refine (initialize_represents h cards buffers address).bind_attains fun p₁ hrep₁ => ?_
  refine (apis_refine h requests hfits hrep₁).bind_attains fun p₂ hrep₂ => ?_
  exact .pure ⟨rfl, hrep₂.tries_eq.trans (specAll_tries _ requests)⟩

/-- **What blocks the card.** From a card with some tries left, the calls end in a blocked one exactly if they begin with as
many wrong PINs, or make as many wrong attempts in a row as the card allows. Calls that make no attempt do not count. -/
theorem card_blocked_iff (htries : (view (cards address)).tries ≤ profile.token.limit) :
    Attains (Process.runCalls T (.tobInitializeWithInterface (some address) :: requests.map fun request =>
    .api request.call))
      (.start cards buffers) fun _ p' =>
      (view (p'.ifaces p'.current).card).tries = 0 ↔
        List.replicate (view (cards address)).tries false <+: requests.flatMap profile.attempts ∨
          List.replicate profile.token.limit false <:+: requests.flatMap profile.attempts := by
  obtain ⟨results, p', hrun, _, hleft⟩ := service_refines h cards buffers address requests hfits
  refine ⟨results, p', hrun, ?_⟩
  show (view (p'.ifaces p'.current).card).tries = 0 ↔ _
  rw [hleft]
  exact Retry.after_eq_zero profile.token.limit_pos htries _

end Service

/-- The signature and the object are given, the cryptogram is not deciphered, and all tries are left. -/
theorem service_refines_sampleProfile :
    Attains (Process.runCalls sampleProfile.card
      (.tobInitializeWithInterface (some 0) :: sampleRequests.map fun request => .api request.call))
      (.start (fun _ => (Token.State.fresh, 0)) fun _ => Mem.zero) fun results p' =>
      results = .code 0 :: (specAll sampleProfile.perform 3 sampleRequests).1.map .api ∧
        (p'.ifaces p'.current).card.1.tries = 3 := by
  have htries : Retry.after sampleProfile.token.limit 3 (sampleRequests.flatMap sampleProfile.attempts) = 3 := by decide
  have hrun := service_refines sampleProfile_carried (fun _ => (Token.State.fresh, 0)) (fun _ => Mem.zero) 0 sampleRequests
    sampleRequests_fit
  rw [← htries]
  exact hrun

/-- Three wrong PINs. -/
theorem card_blocked_iff_sampleProfile :
    Attains (Process.runCalls sampleProfile.card (.tobInitializeWithInterface (some 0) ::
      (List.replicate 3 (Request.decrypt Mem.zero 256 Mem.zero 0 (cstr "1234"))).map fun request => .api request.call))
      (.start (fun _ => (Token.State.fresh, 0)) fun _ => Mem.zero) fun _ p' => (p'.ifaces p'.current).card.1.tries = 0 := by
  have hfits : ∀ request ∈ List.replicate 3 (Request.decrypt Mem.zero 256 Mem.zero 0 (cstr "1234")), request.Fits := by
    intro request hmem
    rw [List.eq_of_mem_replicate hmem]
    exact ⟨Nat.le_of_ble_eq_true rfl, by decide⟩
  obtain ⟨results, p', hrun, hblocked⟩ := card_blocked_iff sampleProfile_carried (fun _ => (Token.State.fresh, 0))
    (fun _ => Mem.zero) 0 _ hfits (Nat.le_refl 3)
  exact ⟨results, p', hrun, hblocked.mpr (.inr (List.infix_refl [false, false, false]))⟩

/-! ### What the PIN guards -/

/-- The calls that give what is behind the PIN. -/
def Guarded (text : List UInt8) : Request → Prop
  | .availableCertificate _ _ _ _ text' => text' = text
  | .availablePrivateKey _ _ _ _ _ _ text' => text' = text
  | .sign _ _ _ _ _ text' => text' = text
  | .decrypt _ _ _ _ text' => text' = text
  | _ => False

theorem p11Answer_refused {file : Option Mias.P11File} {obj : Option Mem} {size : Int} {accepted : Bool}
    (h : (p11Answer accepted file obj size).ret = 0) : accepted = true := by
  cases accepted with
  | true => rfl
  | false => exact absurd h (by show ERR_SE_EF_VERIFY_PIN_ERROR ≠ 0; decide)

theorem cropExtract_ret (result : Extract) : (cropExtract result).ret = result.ret := by
  unfold cropExtract
  split
  · split <;> rfl
  · rfl

theorem pemResult_ret (header : List UInt8) (pem : Option Mem) (pemSize : Option Int) (result : Extract) :
    (pemResult header pem pemSize result).ret = result.ret := by
  unfold pemResult
  split
  · split <;> rfl
  · rfl

theorem keyed_accepted {text : List UInt8} {out : Mem} {len : Int} {value : UInt8 → Option (List UInt8)}
    (h : (profile.keyed tries text out len value).ret = 0) : profile.token.accepts tries text = true := by
  unfold Profile.keyed at h
  cases haccepts : profile.token.accepts tries text with
  | true => rfl
  | false =>
      rw [haccepts] at h
      cases hrecord : profile.certificates.signingRecord with
      | none =>
          rw [hrecord] at h
          exact absurd h (by show ERR_SE_BAD_KEY_NAME_ERROR ≠ 0; decide)
      | some record =>
          rw [hrecord] at h
          exact absurd h (by show ERR_SE_EF_VERIFY_PIN_ERROR ≠ 0; decide)

/-- A guarded call that succeeds was made with the PIN, while there were tries. -/
theorem answer_guarded {text : List UInt8} {request : Request} (hguarded : Guarded text request)
    (hret : (profile.answer tries request).code = 0) : profile.right text = true ∧ tries ≠ 0 := by
  suffices profile.token.accepts tries text = true by
    rw [accepts_eq, Bool.and_eq_true, decide_eq_true_eq] at this
    exact ⟨this.2, Nat.pos_iff_ne_zero.mp this.1⟩
  cases request with
  | availableCertificate locals legacyLocals cert size text' =>
      obtain rfl : text' = text := hguarded
      exact p11Answer_refused ((cropExtract_ret _).symm.trans hret)
  | availablePrivateKey locals legacyLocals pem pemSize der derSize text' =>
      obtain rfl : text' = text := hguarded
      exact p11Answer_refused (((pemResult_ret _ _ _ _).trans (appendNul_ret _)).symm.trans hret)
  | sign algorithm hash hashLen signature len text' =>
      obtain rfl : text' = text := hguarded
      exact keyed_accepted hret
  | decrypt cipher cipherLen plain len text' =>
      obtain rfl : text' = text := hguarded
      exact keyed_accepted hret
  | signingCertificate locals pem pemSize der derSize pin => exact hguarded.elim
  | length pin => exact hguarded.elim

/-- **What the PIN guards is given for the PIN only**, in whatever sequence of calls, and never again once the card was
blocked by the calls before. -/
theorem guarded_needs_pin (h : profile.CarriedBy T channels view current) (cards : Nat → σ) (buffers : Nat → Mem)
    (address : Nat)
    (htries : (view (cards address)).tries ≤ profile.token.limit) (before after : List Request) (request : Request)
    (hfits : ∀ other ∈ before ++ request :: after, other.Fits) {text : List UInt8} (hguarded : Guarded text request) :
    Attains (Process.runCalls T (.tobInitializeWithInterface (some address) ::
      (before ++ request :: after).map fun request => .api request.call)) (.start cards buffers) fun results _ =>
      ∀ result, results[before.length + 1]? = some (.api result) → result.code = 0 →
        text = profile.token.pin ∧
        ¬List.replicate (view (cards address)).tries false <+: before.flatMap profile.attempts ∧
        ¬List.replicate profile.token.limit false <:+: before.flatMap profile.attempts := by
  obtain ⟨results, p', hrun, rfl, _⟩ := service_refines h cards buffers address (before ++ request :: after) hfits
  refine ⟨_, p', hrun, fun result hresult hret => ?_⟩
  rw [List.getElem?_cons_succ, List.getElem?_map, specAll_getElem] at hresult
  cases hresult
  obtain ⟨hright, hleft⟩ := answer_guarded hguarded hret
  rw [specAll_tries, ne_eq, Retry.after_eq_zero profile.token.limit_pos htries, not_or] at hleft
  exact ⟨of_decide_eq_true hright, hleft⟩

/-- The object of the private key is given, for the PIN. -/
theorem guarded_needs_pin_sampleProfile :
    (∃ result, (specAll sampleProfile.perform 3 sampleRequests).1[3]? = some result ∧ result.code = 0) ∧
    Attains (Process.runCalls sampleProfile.card
      (.tobInitializeWithInterface (some 0) :: sampleRequests.map fun request => .api request.call))
      (.start (fun _ => (Token.State.fresh, 0)) fun _ => Mem.zero) fun results _ =>
      ∀ result, results[4]? = some (.api result) → result.code = 0 → cstr "0000" = Token.sampleToken.pin ∧
        ¬List.replicate 3 false <+: (sampleRequests.take 3).flatMap sampleProfile.attempts ∧
        ¬List.replicate 3 false <:+: (sampleRequests.take 3).flatMap sampleProfile.attempts :=
  ⟨⟨_, rfl, rfl⟩, guarded_needs_pin sampleProfile_carried (fun _ => (Token.State.fresh, 0)) (fun _ => Mem.zero) 0
    (Nat.le_refl 3) (sampleRequests.take 3) (sampleRequests.drop 4)
    (.availablePrivateKey noLocals noLocals none (some 0) none 0 (cstr "0000")) sampleRequests_fit rfl⟩

end Profile

end TrustOnboard
