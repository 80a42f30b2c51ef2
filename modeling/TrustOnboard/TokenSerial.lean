import TrustOnboard.SerialLink
import TrustOnboard.TokenModem

/-! The API down to the calls of `read` and `write`: a port with a modem at its other end, a card in the modem. -/

namespace TrustOnboard

open Exec SEInterface ATInterface

/-! ### A port for every modem -/

/-- A cable that moves at most two bytes at a time, and nothing between two calls that move some. -/
structure SlowCable (μ : Type) where
  cable : Cable μ
  resting : Bool

namespace SlowCable

variable {μ : Type} (modem : Modem μ)

/-- The operating system with the cable at the port 3. -/
def posix : Posix (SlowCable μ) where
  openPort device env := (device.map fun _ => 3, env)
  configure _ _ env := env
  closePort _ env := env
  read _ n env :=
    if env.resting then (some [], { env with resting := false })
    else
      (some (env.cable.unread.take (min n 2)),
        ⟨{ env.cable with unread := env.cable.unread.drop (min n 2) }, true⟩)
  write _ data env :=
    if env.resting then (some 0, { env with resting := false })
    else (some (min data.length 2), ⟨(data.take (min data.length 2)).foldl (Cable.feed modem) env.cable, true⟩)

/-- One call moves nothing while the cable rests. -/
def lag (env : SlowCable μ) : Nat := if env.resting then 1 else 0

theorem posix_attaches : (posix modem).Attaches 3 modem SlowCable.cable lag where
  reads := by
    rintro ⟨cable, resting⟩ n hn hunread
    cases resting with
    | true => exact ⟨[], ⟨cable, false⟩, rfl, Nat.zero_le n, rfl, fun _ => Nat.zero_lt_one⟩
    | false =>
        refine ⟨cable.unread.take (min n 2), ⟨{ cable with unread := cable.unread.drop (min n 2) }, true⟩, rfl, ?_, ?_, ?_⟩
        · exact Nat.le_trans (List.length_take_le _ _) (Nat.min_le_left n 2)
        · simp only [List.take_append_drop]
        · intro hnil
          rcases List.take_eq_nil_iff.mp hnil with hzero | hempty
          · omega
          · exact absurd hempty hunread
  writes := by
    rintro ⟨cable, resting⟩ data hdata
    have hpos := List.length_pos_iff.mpr hdata
    cases resting with
    | true => exact ⟨0, ⟨cable, false⟩, rfl, Nat.zero_le _, rfl, fun _ => Nat.zero_lt_one⟩
    | false =>
        refine ⟨min data.length 2, _, rfl, Nat.min_le_left _ _, rfl, ?_⟩
        intro hzero
        omega

end SlowCable

namespace Profile

open Sdk

/-- **The API over a port is the service of the card behind it**, however the data are cut by `read` and `write`. Nothing is
lost or sent twice, and after each command the cable is idle again. -/
theorem service_over_port {profile : Profile} {σ μ ε : Type} {T : Transport σ} {channels : UInt8 → Prop}
    {view : σ → Token.State} {current : σ → Nat} (h : profile.CarriedBy T channels view current) {modem : Modem μ}
    {card : μ → σ} (hmodem : modem.Fronts T card) {posix : Posix ε} {fd : Nat} {cable : ε → Cable μ} {lag : ε → Nat}
    (hport : posix.Attaches fd modem cable lag) (charSigned : Bool)
    (ports : Nat → {c : SerialModem ε // SerialModem.Idle cable fd c}) (buffers : Nat → Mem) (address : Nat)
    (requests : List Request) (hfits : ∀ request ∈ requests, request.Fits) :
    Attains (Process.runCalls (SerialModem.transport hport hmodem charSigned)
      (.tobInitializeWithInterface (some address) :: requests.map fun request => .api request.call))
      (.start ports buffers) fun results p' =>
      results = .code 0 :: (specAll profile.perform (view (card (cable (ports address).1.serial.env).modem)).tries
          requests).1.map .api ∧
        (view (card (cable (p'.ifaces p'.current).card.1.serial.env).modem)).tries =
          Retry.after profile.token.limit (view (card (cable (ports address).1.serial.env).modem)).tries
            (requests.flatMap profile.attempts) := by
  have hconveys := (SerialModem.transport_conveys hport hmodem charSigned).trans
    (ModemLink.transport_conveys hmodem charSigned)
  exact service_refines (h.conveyed hconveys) ports buffers address requests hfits

/-- The sample card in a modem at a slow cable, the port not yet open. -/
def samplePort : SerialModem (SlowCable (Token.State × Nat)) :=
  ⟨.create ⟨⟨(Token.State.fresh, 0), [], []⟩, false⟩ (some (cstr "/dev/ttyUSB0")) 115200, ATInterface.modemSaying []⟩

/-- The port is opened, and the calls of the sample go over it. -/
theorem service_over_port_sampleProfile :
    ∃ port : {c : SerialModem (SlowCable (Token.State × Nat)) // SerialModem.Idle SlowCable.cable 3 c},
      Evals (zoom SerialModem.serialLens (LSerial.start (SlowCable.posix sampleModem))) samplePort true
        port.1 ∧
      Attains (Process.runCalls (SerialModem.transport (SlowCable.posix_attaches sampleModem)
          sampleModem_fronts true)
        (.tobInitializeWithInterface (some 0) :: sampleRequests.map fun request => .api request.call))
        (.start (fun _ => port) fun _ => Mem.zero) fun results p' =>
        results = .code 0 :: (specAll sampleProfile.perform 3 sampleRequests).1.map .api ∧
          (p'.ifaces p'.current).card.1.serial.env.cable.modem.1.tries = 3 := by
  obtain ⟨c, hstart, hidle, hlink⟩ : ∃ c, Evals (zoom SerialModem.serialLens
      (LSerial.start (SlowCable.posix sampleModem))) samplePort true c ∧
      SerialModem.Idle SlowCable.cable 3 c ∧
      SerialModem.link SlowCable.cable c = ⟨(Token.State.fresh, 0), samplePort.line⟩ :=
    SerialModem.start_idle (SlowCable.posix sampleModem) 3 SlowCable.cable samplePort rfl rfl rfl rfl rfl rfl
  refine ⟨⟨c, hidle⟩, hstart, ?_⟩
  have hmodem : c.serial.env.cable.modem = (Token.State.fresh, 0) := congrArg ModemLink.modem hlink
  have htries : Retry.after sampleProfile.token.limit 3 (sampleRequests.flatMap sampleProfile.attempts) = 3 := by decide
  have hrun := service_over_port sampleProfile_carried sampleModem_fronts
    (SlowCable.posix_attaches sampleModem) true (fun _ => ⟨c, hidle⟩) (fun _ => Mem.zero) 0
    sampleRequests sampleRequests_fit
  simp only [hmodem, id] at hrun
  rw [show (Token.State.fresh, 0).1.tries = 3 from rfl, htries] at hrun
  exact hrun

end Profile

end TrustOnboard
