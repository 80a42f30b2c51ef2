import TrustOnboard.CardOutcome

/-! Cards behind other transports. A transport conveys a card if what it shows of the card answers and moves as the card,
for the APDUs that it takes; commands then end on it as they end on the card. -/

namespace TrustOnboard.SEInterface

variable {σ τ : Type}

/-- The first transport, whose states show the states of the second, is a way to it for APDUs of at most this length.
Whatever it is asked, what it shows does not move but by the card. -/
structure Conveys (T' : Transport τ) (T : Transport σ) (card : τ → σ) (limit : Nat) : Prop where
  conveys : ∀ link apdu, 1 ≤ apdu.length → apdu.length ≤ limit →
    (T' link apdu).1 = (T (card link) apdu).1 ∧ card (T' link apdu).2 = (T (card link) apdu).2
  moves : ∀ link apdu, card (T' link apdu).2 = (T (card link) apdu).2 ∨ card (T' link apdu).2 = card link

theorem resendApdu_length {apdu : List UInt8} (hlen : 4 ≤ apdu.length) (le : UInt8) :
    (resendApdu apdu le).length = max 5 apdu.length := by
  rw [resendApdu, List.length_append, List.length_take, List.length_cons, List.length_drop]
  omega

section Conveys

variable {T' : Transport τ} {T : Transport σ} {card : τ → σ} {limit : Nat} {link : τ} {apdu answer : List UInt8}

namespace Conveys

variable (h : Conveys T' T card limit)

include h

/-- One exchange. -/
theorem exchange (hlen : 4 ≤ apdu.length) (hlimit : apdu.length ≤ limit) {result : Option (List UInt8)} {after : σ}
    (hanswer : T (card link) apdu = (result, after)) : ∃ link', T' link apdu = (result, link') ∧ card link' = after := by
  obtain ⟨hresult, hmoved⟩ := h.conveys link apdu (by omega) hlimit
  rw [hanswer] at hresult hmoved
  exact ⟨(T' link apdu).2, Prod.ext hresult rfl, hmoved⟩

/-- The follow-ups of a command are not longer than it, or five bytes long. -/
theorem settles (hfive : 5 ≤ limit) (hlen : 4 ≤ apdu.length) (hlimit : apdu.length ≤ limit) {after : σ}
    (hsettles : Settles T (card link) apdu answer after) :
    ∃ link', Settles T' link apdu answer link' ∧ card link' = after := by
  generalize hcard : card link = before at hsettles
  induction hsettles generalizing link with
  | final hanswer hbare hfit =>
      subst hcard
      obtain ⟨link', hexchange, hafter⟩ := h.exchange hlen hlimit hanswer
      exact ⟨link', .final hexchange hbare hfit, hafter⟩
  | @resend _ card' _ apdu _ le hanswer _ ih =>
      subst hcard
      obtain ⟨link', hexchange, hmoved⟩ := h.exchange hlen hlimit hanswer
      have hagain := resendApdu_length hlen le
      obtain ⟨link'', hrest, hafter⟩ := ih (by omega) (by omega) hmoved
      exact ⟨link'', .resend hexchange hrest, hafter⟩
  | fetch hanswer _ ih =>
      subst hcard
      obtain ⟨link', hexchange, hmoved⟩ := h.exchange hlen hlimit hanswer
      obtain ⟨link'', hrest, hafter⟩ := ih (Nat.le_of_ble_eq_true rfl) hfive hmoved
      exact ⟨link'', .fetch hexchange hrest, hafter⟩

theorem drops (hfive : 5 ≤ limit) (hlen : 4 ≤ apdu.length) (hlimit : apdu.length ≤ limit) {after : σ}
    (hdrops : Drops T (card link) apdu after) : ∃ link', Drops T' link apdu link' ∧ card link' = after := by
  generalize hcard : card link = before at hdrops
  induction hdrops generalizing link with
  | lost hanswer =>
      subst hcard
      obtain ⟨link', hexchange, hafter⟩ := h.exchange hlen hlimit hanswer
      exact ⟨link', .lost hexchange, hafter⟩
  | @resend _ _ _ apdu le hanswer _ ih =>
      subst hcard
      obtain ⟨link', hexchange, hmoved⟩ := h.exchange hlen hlimit hanswer
      have hagain := resendApdu_length hlen le
      obtain ⟨link'', hrest, hafter⟩ := ih (by omega) (by omega) hmoved
      exact ⟨link'', .resend hexchange hrest, hafter⟩
  | fetch hanswer _ ih =>
      subst hcard
      obtain ⟨link', hexchange, hmoved⟩ := h.exchange hlen hlimit hanswer
      obtain ⟨link'', hrest, hafter⟩ := ih (Nat.le_of_ble_eq_true rfl) hfive hmoved
      exact ⟨link'', .fetch hexchange hrest, hafter⟩

/-- **Commands end over the transport as they end on the card.** -/
theorem concludes (hfive : 5 ≤ limit) (hlen : 4 ≤ apdu.length) (hlimit : apdu.length ≤ limit)
    {result : Option (List UInt8)} {after : σ} (hconcludes : Concludes T (card link) apdu result after) :
    ∃ link', Concludes T' link apdu result link' ∧ card link' = after := by
  cases result with
  | none => exact h.drops hfive hlen hlimit hconcludes
  | some answer => exact h.settles hfive hlen hlimit hconcludes

end Conveys

/-- A transport of a transport of a card. -/
theorem Conveys.trans {υ : Type} {T'' : Transport υ} {link' : υ → τ} (h : Conveys T'' T' link' limit)
    (h' : Conveys T' T card limit) : Conveys T'' T (fun outer => card (link' outer)) limit where
  conveys outer apdu hpos hlimit := by
    obtain ⟨hfirst, hmoved⟩ := h.conveys outer apdu hpos hlimit
    obtain ⟨hsecond, hcard⟩ := h'.conveys (link' outer) apdu hpos hlimit
    exact ⟨hfirst.trans hsecond, by rw [hmoved, hcard]⟩
  moves outer apdu := by
    rcases h.moves outer apdu with hmoved | hsame
    · rw [hmoved]
      exact h'.moves (link' outer) apdu
    · exact .inr (by rw [hsame])

end Conveys

open Classical in
/-- What a program delivers and leaves where it ends; where it does not, nothing. -/
noncomputable def Transport.ofProgram (program : List UInt8 → Exec τ (Option (List UInt8))) : Transport τ :=
  fun link apdu =>
  if h : ∃ answer link', Exec.Evals (program apdu) link answer link' then (h.choose, h.choose_spec.choose) else (none, link)

section OfProgram

variable {program : List UInt8 → Exec τ (Option (List UInt8))} {link link' : τ} {apdu : List UInt8}

theorem Transport.ofProgram_evals {answer : Option (List UInt8)} (h : Exec.Evals (program apdu) link answer link') :
    Transport.ofProgram program link apdu = (answer, link') := by
  have hexists : ∃ answer link', Exec.Evals (program apdu) link answer link' := ⟨answer, link', h⟩
  obtain ⟨hanswer, hlink⟩ := h.unique hexists.choose_spec.choose_spec
  rw [Transport.ofProgram, dif_pos hexists, ← hlink]
  cases hanswer
  rfl

theorem Transport.ofProgram_faults (h : Exec.Faults (program apdu) link) :
    Transport.ofProgram program link apdu = (none, link) := by
  rw [Transport.ofProgram, dif_neg]
  rintro ⟨answer, link', hends⟩
  obtain ⟨link'', hfault⟩ := h
  obtain ⟨heq, _⟩ := hfault.unique hends
  cases heq

end OfProgram

/-- A transport on states that it stays in. -/
def Transport.within (T : Transport τ) {inv : τ → Prop} (h : ∀ link apdu, inv link → inv (T link apdu).2) :
    Transport {link // inv link} := fun link apdu => ((T link.1 apdu).1, ⟨(T link.1 apdu).2, h link.1 apdu link.2⟩)

end TrustOnboard.SEInterface
