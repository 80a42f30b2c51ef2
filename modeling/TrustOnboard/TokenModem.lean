import TrustOnboard.ModemLink
import TrustOnboard.TokenService

/-! The API over a serial modem. What a card needs for the service it keeps behind every transport that conveys it, since no
command of the library is longer than 260 bytes. -/

namespace TrustOnboard

open Exec Linked SEInterface

section Conveyed

variable {σ τ : Type} {T' : Transport τ} {T : Transport σ} {card : τ → σ} {channels : UInt8 → Prop} {channel : UInt8}
  {current : σ → Nat}

theorem Applet.Admits.conveyed (h : Applet.Admits T channels Mias.aid) (hconveys : Conveys T' T card 260) :
    Applet.Admits T' channels Mias.aid where
  opens link := by
    obtain ⟨channel, after, hchannel, hsettles⟩ := h.opens (card link)
    obtain ⟨link', hsettles', _⟩ := hconveys.settles (Nat.le_of_ble_eq_true rfl) (Nat.le_of_ble_eq_true rfl)
      (Nat.le_of_ble_eq_true rfl) hsettles
    exact ⟨channel, link', hchannel, hsettles'⟩
  selects link channel hchannel := by
    obtain ⟨answer, after, hsettles, hselected⟩ := h.selects (card link) channel hchannel
    obtain ⟨link', hsettles', _⟩ := hconveys.settles (Nat.le_of_ble_eq_true rfl) (Nat.le_of_ble_eq_true rfl)
      (Nat.le_of_ble_eq_true rfl) hsettles
    exact ⟨answer, link', hsettles', hselected⟩
  closes link channel := by
    obtain ⟨result, after, hconcludes⟩ := h.closes (card link) channel
    obtain ⟨link', hconcludes', _⟩ := hconveys.concludes (Nat.le_of_ble_eq_true rfl) (Nat.le_of_ble_eq_true rfl)
      (Nat.le_of_ble_eq_true rfl) hconcludes
    exact ⟨result, link', hconcludes'⟩

theorem Token.EmbodiedBy.conveyed {token : Token} {view : σ → Token.State} (h : token.EmbodiedBy T channels view)
    (hconveys : Conveys T' T card 260) : token.EmbodiedBy T' channels fun link => view (card link) where
  performs link channel command hchannel hfits := by
    obtain ⟨result, after, hconcludes, hanswers, hview⟩ := h.performs (card link) channel command hchannel hfits
    obtain ⟨hfour, hlimit⟩ := hfits.apdu_length channel
    obtain ⟨link', hconcludes', rfl⟩ := hconveys.concludes (Nat.le_of_ble_eq_true rfl) hfour hlimit hconcludes
    exact ⟨result, link', hconcludes', hanswers, hview⟩
  spares link apdu hins := by
    rcases hconveys.moves link apdu with hmoved | hsame
    · rw [hmoved]
      exact h.spares (card link) apdu hins
    · rw [hsame]

theorem Mias.serves_conveyed {contents : Nat → List UInt8} {short : Nat → Nat → Prop}
    (h : Mias.Serves T channel contents current short) (hconveys : Conveys T' T card 260) :
    Mias.Serves T' channel contents (fun link => current (card link)) short := by
  intro link offset le hpos hsize hrange
  obtain ⟨data, after, hsettles, hcurrent, hrest⟩ := h (card link) offset le hpos hsize hrange
  obtain ⟨link', hsettles', rfl⟩ := hconveys.settles (Nat.le_of_ble_eq_true rfl) (Nat.le_of_ble_eq_true rfl)
    (Nat.le_of_ble_eq_true rfl) hsettles
  exact ⟨data, link', hsettles', hcurrent, hrest⟩

theorem Mias.CertImage.ServedBy.conveyed {image : Mias.CertImage} (h : image.ServedBy T channel current)
    (hconveys : Conveys T' T card 260) : image.ServedBy T' channel fun link => current (card link) where
  reads := Mias.serves_conveyed h.reads hconveys
  selects link efid le hpresent hle := by
    obtain ⟨after, hsettles, hcurrent⟩ := h.selects (card link) efid le hpresent hle
    obtain ⟨link', hsettles', rfl⟩ := hconveys.settles (Nat.le_of_ble_eq_true rfl) (Nat.le_of_ble_eq_true rfl)
      (Nat.le_of_ble_eq_true rfl) hsettles
    exact ⟨link', hsettles', hcurrent⟩

theorem Mias.P11Image.ServedBy.conveyed {image : Mias.P11Image} (h : image.ServedBy T channel current)
    (hconveys : Conveys T' T card 260) : image.ServedBy T' channel fun link => current (card link) where
  reads := Mias.serves_conveyed h.reads hconveys
  selects link efid hefid := by
    obtain ⟨data, after, hsettles, hcurrent⟩ := h.selects (card link) efid hefid
    obtain ⟨link', hsettles', rfl⟩ := hconveys.settles (Nat.le_of_ble_eq_true rfl) (Nat.le_of_ble_eq_true rfl)
      (Nat.le_of_ble_eq_true rfl) hsettles
    exact ⟨data, link', hsettles', hcurrent⟩

/-- **A card behind another transport carries the profile.** -/
theorem Profile.CarriedBy.conveyed {profile : Profile} {view : σ → Token.State}
    (h : profile.CarriedBy T channels view current) (hconveys : Conveys T' T card 260) :
    profile.CarriedBy T' channels (fun link => view (card link)) fun link => current (card link) where
  admits := h.admits.conveyed hconveys
  token := h.token.conveyed hconveys
  certificates channel hchannel := (h.certificates channel hchannel).conveyed hconveys
  objects channel hchannel := (h.objects channel hchannel).conveyed hconveys

end Conveyed

namespace Profile

open Sdk

/-- **The API over a serial modem is the service of the card in it.** Whatever the modem sends between its replies, the
calls end with the results of the specification, with the tries that it says left on the card. -/
theorem service_over_modem {profile : Profile} {σ μ : Type} {T : Transport σ} {channels : UInt8 → Prop}
    {view : σ → Token.State} {current : σ → Nat} (h : profile.CarriedBy T channels view current) {modem : Modem μ}
    {card : μ → σ} (hmodem : modem.Fronts T card) (charSigned : Bool)
    (links : Nat → {link : ModemLink μ // link.InStep}) (buffers : Nat → Mem) (address : Nat) (requests : List Request)
    (hfits : ∀ request ∈ requests, request.Fits) :
    Attains (Process.runCalls (ModemLink.transport hmodem charSigned)
      (.tobInitializeWithInterface (some address) :: requests.map fun request => .api request.call))
      (.start links buffers) fun results p' =>
      results = .code 0 :: (specAll profile.perform (view (card (links address).1.modem)).tries requests).1.map .api ∧
        (view (card (p'.ifaces p'.current).card.1.modem)).tries =
          Retry.after profile.token.limit (view (card (links address).1.modem)).tries (requests.flatMap profile.attempts) :=
  service_refines (h.conveyed (ModemLink.transport_conveys hmodem charSigned)) links buffers address requests hfits

/-! ### Answers that go over the line -/

theorem card_answers {profile : Profile} (hshort : ∀ efid, (profile.certificates.templates efid).length ≤ 256)
    (state : Token.State × Nat) (apdu answer : List UInt8) (hanswer : (profile.card state apdu).1 = some answer) :
    1 ≤ answer.length ∧ answer.length ≤ apduResponseSize := by
  have hstatus : ∀ data : List UInt8, data.length ≤ 256 → 1 ≤ (data ++ [0x90, 0x00]).length ∧
      (data ++ [0x90, 0x00]).length ≤ apduResponseSize := by
    intro data hdata
    simp only [List.length_append, List.length_cons, List.length_nil, apduResponseSize]
    omega
  rw [Profile.card, Token.card] at hanswer
  cases hcommand : Token.Command.ofApdu apdu with
  | some command =>
      rw [hcommand] at hanswer
      obtain rfl := Option.some.inj hanswer
      refine ⟨?_, Token.step_answer_length profile.token state.1 command⟩
      cases (profile.token.step state.1 command).1 with
      | gives data =>
          show 1 ≤ (data ++ [0x90, 0x00]).length
          rw [List.length_append]
          exact Nat.le_add_left 1 _
      | refused => exact Nat.le_of_ble_eq_true rfl
      | accepted => exact Nat.le_of_ble_eq_true rfl
  | none =>
      rw [hcommand] at hanswer
      change (hostCard _ state.2 apdu).1 = some answer at hanswer
      unfold hostCard at hanswer
      split at hanswer
      · obtain rfl := Option.some.inj hanswer
        split <;> exact ⟨Nat.le_of_ble_eq_true rfl, Nat.le_of_ble_eq_true rfl⟩
      · split at hanswer
        · obtain rfl := Option.some.inj hanswer
          exact ⟨Nat.le_of_ble_eq_true rfl, Nat.le_of_ble_eq_true rfl⟩
        · unfold Mias.fileCard at hanswer
          split at hanswer
          · obtain rfl := Option.some.inj hanswer
            exact hstatus _ (hshort _)
          · obtain rfl := Option.some.inj hanswer
            have hle := (apdu.getD 4 0).toNat_lt
            refine hstatus _ (Nat.le_trans (List.length_take_le _ _) ?_)
            omega

/-- A modem with the sample card that reports its network before each reply, and a call behind the response. -/
def sampleModem : Modem (Token.State × Nat) :=
  Modem.talking [cstr "\r\n", cstr "+CREG: 1\r\n"] [cstr "RING\r\n"] sampleProfile.card

theorem sampleModem_fronts : sampleModem.Fronts sampleProfile.card id := by
  have hline : ∀ front : List UInt8, ATInterface.newline ∉ front → front.length < ATInterface.bufSize →
      ATInterface.IsLine (front ++ [ATInterface.newline]) := by
    intro front hfront hlength
    exact ⟨⟨front, rfl, hfront⟩, by rw [List.length_append, List.length_singleton]; omega⟩
  refine Modem.talking_fronts (card_answers fun _ => Nat.le_of_ble_eq_true rfl) ?_ ?_
  · rintro line hmem
    rcases List.mem_cons.mp hmem with rfl | hmem
    · exact ⟨hline (cstr "\r") (by decide) (by decide), by decide, by decide⟩
    · rw [List.mem_singleton.mp hmem]
      exact ⟨hline (cstr "+CREG: 1\r") (by decide) (by decide), by decide, by decide⟩
  · rintro line hmem
    rw [List.mem_singleton.mp hmem]
    exact ⟨hline (cstr "RING\r") (by decide) (by decide), by decide⟩

def sampleLink : {link : ModemLink (Token.State × Nat) // link.InStep} :=
  ⟨⟨(Token.State.fresh, 0), ATInterface.modemSaying []⟩, rfl⟩

/-- The calls of the sample, with other lines before and between the lines of each reply. -/
theorem service_over_modem_sampleProfile :
    Attains (Process.runCalls (ModemLink.transport sampleModem_fronts true)
      (.tobInitializeWithInterface (some 0) :: sampleRequests.map fun request => .api request.call))
      (.start (fun _ => sampleLink) fun _ => Mem.zero) fun results p' =>
      results = .code 0 :: (specAll sampleProfile.perform 3 sampleRequests).1.map .api ∧
        (p'.ifaces p'.current).card.1.modem.1.tries = 3 := by
  have htries : Retry.after sampleProfile.token.limit 3 (sampleRequests.flatMap sampleProfile.attempts) = 3 := by decide
  have hrun := service_over_modem sampleProfile_carried sampleModem_fronts true (fun _ => sampleLink) (fun _ => Mem.zero) 0
    sampleRequests sampleRequests_fit
  rw [← htries]
  exact hrun

end Profile

end TrustOnboard
