import TrustOnboard.PcscHandles
import TrustOnboard.TokenModem

/-! The API over a PC/SC reader: what is opened for the index of a reader is a transport of the card in it. -/

namespace TrustOnboard

open Exec SEInterface

namespace Pcsc

variable {ε σ : Type} {library : Library ε}

/-- A reader with a card in it. It is connected to with this handle and protocol, and exchanges APDUs with the card. -/
structure Library.Serves (library : Library ε) (reader : List UInt8) (handle protocol : Nat) (T : Transport σ)
    (card : ε → σ) :
    Prop where
  connects : ∀ context env, (library.connect context reader env).1 = some (handle, protocol) ∧
    card (library.connect context reader env).2 = card env
  transmits : ∀ apdu env, (library.transmit handle (protocol = protocolT0) apdu env).1 = (T (card env) apdu).1 ∧
    card (library.transmit handle (protocol = protocolT0) apdu env).2 = (T (card env) apdu).2
  answers : ∀ state apdu answer, (T state apdu).1 = some answer → answer.length ≤ 65535

/-- Open, with the card of this handle. -/
structure Connected (handle protocol : Nat) (s : PcscSEInterface (Members ε)) : Prop where
  initialized : s.initialized = true
  handle_eq : s.env.cardHandle = handle
  protocol_eq : s.env.protocol = protocol

section Serves

variable {reader : List UInt8} {handle protocol : Nat} {T : Transport σ} {card : ε → σ}

/-- The index of a reader selects its card. -/
theorem openInterface_connects (h : library.Serves reader handle protocol T card) {readers : Readers}
    {s : PcscSEInterface (Members ε)} {m : Members ε} (hclosed : s.initialized = false)
    (hlists : Lists library.winscard readers s m) {i : Nat} (hi : i < readers.names.length) (hidx : s.idx = i)
    (hreader : readers.names[i] = reader) :
    ∃ s', Evals (openInterface library.winscard) s true s' ∧ Connected handle protocol s' ∧
      card s'.env.env = card m.env := by
  have hscan : ∀ s₀ : PcscSEInterface (Members ε),
      Evals (scan readers.multiString s.idx) s₀ (some (joined (readers.names.take i)).length) s₀ := by
    intro s₀
    rw [hidx]
    exact scan_passes readers (Nat.le_of_lt hi)
  have hstring : stringAt readers.multiString (joined (readers.names.take i)).length = some reader := by
    apply stringAt_next _ (readers.names.drop (i + 1))
    rw [← hreader, List.getElem_cons_drop, List.take_append_drop]
  obtain ⟨hfound, hsame⟩ := h.connects m.cardContext m.env
  rcases hcall : library.connect m.cardContext reader m.env with ⟨found, env⟩
  rw [hcall] at hfound hsame
  dsimp only at hfound
  subst hfound
  let s₁ : PcscSEInterface (Members ε) := ⟨m, s.idx, s.initialized, reader :: s.connects⟩
  let s₂ : PcscSEInterface (Members ε) := { s₁ with env := { m with env, cardHandle := handle, protocol } }
  have hcalled : library.winscard.sCardConnect reader s₁.env = (true, { m with env, cardHandle := handle, protocol }) := by
    simp only [Library.winscard, s₁, hcall]
  have hconnect : Evals (connect library.winscard readers.multiString (joined (readers.names.take i)).length)
      { s with env := m } true s₂ := by
    unfold connect
    rw [hstring]
    have hnoted : Evals (modify fun s : PcscSEInterface (Members ε) => { s with connects := reader :: s.connects })
        { s with env := m } () s₁ := .modify
    exact hnoted.bind (outside_evals hcalled)
  have hamong : Evals (openAmong library.winscard readers.multiString) { s with env := m }
      true { s₂ with initialized := true } :=
    Evals.gets.bind ((hscan _).bind (hconnect.bind (Evals.modify.bind .pure)))
  exact ⟨_, openInterface_ends hclosed hlists hamong, ⟨rfl, rfl, rfl⟩, hsame⟩

/-- **One APDU over the reader.** -/
theorem transmitApdu_serves (h : library.Serves reader handle protocol T card) {s : PcscSEInterface (Members ε)}
    (hconnected : Connected handle protocol s) (apdu : List UInt8) :
    ∃ s', Evals (transmitApdu library apdu) s (T (card s.env.env) apdu).1 s' ∧ Connected handle protocol s' ∧
      card s'.env.env = (T (card s.env.env) apdu).2 := by
  obtain ⟨hanswer, hafter⟩ := h.transmits apdu s.env.env
  rw [← hconnected.handle_eq, ← hconnected.protocol_eq] at hanswer hafter
  let s₁ : PcscSEInterface (Members ε) := { s with env := { s.env with
    env := (library.transmit s.env.cardHandle (s.env.protocol = protocolT0) apdu s.env.env).2 } }
  have hcalled : Evals (outside fun m : Members ε =>
    ((library.transmit m.cardHandle (m.protocol = protocolT0) apdu m.env).1,
      { m with env := (library.transmit m.cardHandle (m.protocol = protocolT0) apdu m.env).2 })) s _ s₁ := outside_evals rfl
  rw [hanswer] at hcalled
  refine ⟨s₁, hcalled.bind ?_, ⟨hconnected.initialized, hconnected.handle_eq, hconnected.protocol_eq⟩, hafter⟩
  cases hresult : (T (card s.env.env) apdu).1 with
  | none => exact .pure
  | some answer =>
      dsimp only
      rw [if_neg (Nat.not_lt.mpr (h.answers _ apdu answer hresult))]
      exact .pure

/-- The transport on interfaces that are connected. -/
noncomputable def transport (h : library.Serves reader handle protocol T card) :
    Transport {s : PcscSEInterface (Members ε) // Connected handle protocol s} :=
  Transport.within (Transport.ofProgram (transmitApdu library)) fun s apdu hconnected => by
    obtain ⟨s', hrun, hconnected', _⟩ := transmitApdu_serves h hconnected apdu
    rw [Transport.ofProgram_evals hrun]
    exact hconnected'

/-- **The reader is a transport of the card.** -/
theorem transport_conveys (h : library.Serves reader handle protocol T card) (limit : Nat) :
    Conveys (transport h) T (fun s => card s.1.env.env) limit where
  conveys := by
    rintro ⟨s, hconnected⟩ apdu _ _
    obtain ⟨s', hrun, _, hmoved⟩ := transmitApdu_serves h hconnected apdu
    simp only [transport, Transport.within, Transport.ofProgram_evals hrun, hmoved, and_self]
  moves := by
    rintro ⟨s, hconnected⟩ apdu
    obtain ⟨s', hrun, _, hmoved⟩ := transmitApdu_serves h hconnected apdu
    left
    simp only [transport, Transport.within, Transport.ofProgram_evals hrun, hmoved]

end Serves

end Pcsc

namespace Profile

open Sdk Pcsc

/-- **The API over a reader is the service of the card in it.** An interface with the index of the reader is opened, and the
calls over it end as the specification says. -/
theorem service_over_reader {profile : Profile} {σ ε : Type} {T : Transport σ} {channels : UInt8 → Prop}
    {view : σ → Token.State} {current : σ → Nat} (h : profile.CarriedBy T channels view current) {library : Library ε}
    {reader : List UInt8} {handle protocol : Nat} {card : ε → σ} (hreader : library.Serves reader handle protocol T card)
    {readers : Readers} {s : PcscSEInterface (Members ε)} {m : Members ε} (hclosed : s.initialized = false)
    (hlists : Lists library.winscard readers s m) {i : Nat} (hi : i < readers.names.length) (hidx : s.idx = i)
    (hname : readers.names[i] = reader) :
    ∃ opened : {s : PcscSEInterface (Members ε) // Connected handle protocol s},
      Evals (openInterface library.winscard) s true opened.1 ∧
      ∀ (buffers : Nat → Mem) (address : Nat) (requests : List Request), (∀ request ∈ requests, request.Fits) →
        Attains (Process.runCalls (transport hreader)
          (.tobInitializeWithInterface (some address) :: requests.map fun request => .api request.call))
          (.start (fun _ => opened) buffers) fun results p' =>
          results = .code 0 :: (specAll profile.perform (view (card m.env)).tries requests).1.map .api ∧
            (view (card (p'.ifaces p'.current).card.1.env.env)).tries =
              Retry.after profile.token.limit (view (card m.env)).tries (requests.flatMap profile.attempts) := by
  obtain ⟨s', hopen, hconnected, hcard⟩ := openInterface_connects hreader hclosed hlists hi hidx hname
  refine ⟨⟨s', hconnected⟩, hopen, fun buffers address requests hfits => ?_⟩
  rw [← hcard]
  exact service_refines (h.conveyed (transport_conveys hreader 260)) (fun _ => ⟨s', hconnected⟩)
    buffers address requests hfits

/-- A library with the readers "A" and "B", the sample card in the second. -/
def sampleLibrary : Library (Token.State × Nat) where
  establishContext env := (some 1, env)
  listReadersLen _ env := (some twoReaders.multiString.length, env)
  listReaders _ _ env := (some twoReaders.multiString, env)
  connect _ reader env := (if reader = [66] then some (5, protocolT0) else none, env)
  disconnect _ env := env
  releaseContext _ env := env
  transmit handle _ apdu env := if handle = 5 then sampleProfile.card env apdu else (none, env)

theorem sampleLibrary_serves : sampleLibrary.Serves [66] 5 protocolT0 sampleProfile.card id where
  connects _ _ := ⟨rfl, rfl⟩
  transmits _ _ := ⟨rfl, rfl⟩
  answers state apdu answer hanswer := by
    have hle := (card_answers (fun _ => Nat.le_of_ble_eq_true rfl) state apdu answer hanswer).2
    exact Nat.le_trans hle (by decide)

/-- The interface of the second reader is opened, and the calls of the sample go over it. -/
theorem service_over_reader_sampleProfile :
    ∃ opened : {s : PcscSEInterface (Members (Token.State × Nat)) // Connected 5 protocolT0 s},
      Evals (openInterface sampleLibrary.winscard) ⟨⟨(Token.State.fresh, 0), 0, 0, 0⟩, 1, false, []⟩ true opened.1 ∧
      Attains (Process.runCalls (transport sampleLibrary_serves)
        (.tobInitializeWithInterface (some 0) :: sampleRequests.map fun request => .api request.call))
        (.start (fun _ => opened) fun _ => Mem.zero) fun results p' =>
        results = .code 0 :: (specAll sampleProfile.perform 3 sampleRequests).1.map .api ∧
          (p'.ifaces p'.current).card.1.env.env.1.tries = 3 := by
  have hlists : Lists sampleLibrary.winscard twoReaders ⟨⟨(Token.State.fresh, 0), 0, 0, 0⟩, 1, false, []⟩
      ⟨(Token.State.fresh, 0), 0, 1, 0⟩ := ⟨_, _, _, rfl, rfl, rfl⟩
  obtain ⟨opened, hopen, hserves⟩ := service_over_reader sampleProfile_carried sampleLibrary_serves rfl hlists
    (Nat.le_of_ble_eq_true rfl : 1 < twoReaders.names.length) rfl rfl
  have htries : Retry.after sampleProfile.token.limit 3 (sampleRequests.flatMap sampleProfile.attempts) = 3 := by decide
  have hrun := hserves (fun _ => Mem.zero) 0 sampleRequests sampleRequests_fit
  rw [← htries]
  exact ⟨opened, hopen, hrun⟩

end Profile

end TrustOnboard
