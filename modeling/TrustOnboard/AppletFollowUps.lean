import TrustOnboard.AppletModel
import TrustOnboard.CardResend

/-! The channel of follow-ups. An applet puts its channel number into the low nibble of the class byte of its
commands; a resend keeps the class byte, but the automatic GET RESPONSE keeps only two bits of it. -/

namespace TrustOnboard.Applet

open Exec Linked SEInterface

/-- The four overloads of `Applet::transmit`. -/
def transmitRequest {σ : Type} (T : Transport σ) (request : Request) : Exec (Linked σ Applet) Bool :=
  whenSelected request.cla fun cla => Request.transmit T { request with cla := cla }

/-- The four forms in which the library uses them. -/
theorem transmitRequest_eq {σ : Type} (T : Transport σ) (cla p1 p2 le : UInt8) (ins : SCIns) (data : List UInt8) :
    transmitRequest T ⟨cla, ins.code, p1, p2, .case1⟩ = transmitCase1 T cla ins p1 p2 ∧
    transmitRequest T ⟨cla, ins.code, p1, p2, .case2 le⟩ = transmitCase2 T cla ins p1 p2 le ∧
    transmitRequest T ⟨cla, ins.code, p1, p2, .case3 data⟩ = transmitCase3 T cla ins p1 p2 data ∧
    transmitRequest T ⟨cla, ins.code, p1, p2, .case4 data le⟩ = transmitCase4 T cla ins p1 p2 data le :=
  ⟨rfl, rfl, rfl, rfl⟩

/-- A command of a selected applet is sent with the channel in its class byte. -/
theorem transmitRequest_log {σ : Type} {T : Transport σ} {request : Request} {s : Linked σ Applet}
    (hselected : s.obj.isSelected = true) (hattached : s.obj.attached = true) (hdata : request.data.length ≤ 255)
    (fuel : Nat) :
    (transmitRequest T request fuel s).2.se.log =
      (SEInterface.command T (Request.apdu { request with cla := request.cla ||| s.obj.channel }) fuel
        { s.se with apdu := Request.apdu { request with cla := request.cla ||| s.obj.channel } }).2.log := by
  let sent : Request := { request with cla := request.cla ||| s.obj.channel }
  rw [← @Request.transmit_apply σ T sent hdata fuel s.se, transmitRequest, whenSelected, bind_apply, gets_apply]
  simp only [if_pos hselected]
  rw [bind_done (check_pos hattached fuel s)]
  rfl

/-! ### Class bytes -/

/-- The low nibble of a class byte. -/
def channelOf (cla : UInt8) : UInt8 := cla &&& 0x0F

theorem channelOf_or {cla channel : UInt8} (hcla : channelOf cla = 0) (hchannel : channel < 16) :
    channelOf (cla ||| channel) = channel := by
  have hsmall : ∀ n, n < 16 → UInt8.ofNat n &&& 0x0F = UInt8.ofNat n := by decide
  have hself : channel &&& 0x0F = channel := by
    have := hsmall channel.toNat hchannel
    rwa [UInt8.ofNat_toNat] at this
  have hdistrib : (cla ||| channel) &&& 0x0F = (cla &&& 0x0F) ||| (channel &&& 0x0F) := by
    apply UInt8.toBitVec_inj.mp
    simp only [UInt8.toBitVec_and, UInt8.toBitVec_or]
    exact BitVec.and_or_distrib_right
  rw [channelOf] at hcla ⊢
  rw [hdistrib, hcla, hself, UInt8.zero_or]

/-- GET RESPONSE goes to the channel modulo four. -/
theorem channelOf_fetch (apdu : List UInt8) (le : UInt8) :
    channelOf ((fetchApdu apdu le).getD 0 0) = channelOf (apdu.getD 0 0) &&& 0x03 := by
  show (0x00 ||| (apdu.getD 0 0 &&& 0x03)) &&& 0x0F = (apdu.getD 0 0 &&& 0x0F) &&& 0x03
  rw [UInt8.zero_or, UInt8.and_assoc, UInt8.and_assoc, UInt8.and_comm 0x03 0x0F]

theorem and_three_eq_iff {channel : UInt8} (hchannel : channel < 16) : channel &&& 0x03 = channel ↔ channel < 4 := by
  have hsmall : ∀ n, n < 16 → (UInt8.ofNat n &&& 0x03 = UInt8.ofNat n ↔ UInt8.ofNat n < 4) := by decide
  have := hsmall channel.toNat hchannel
  rwa [UInt8.ofNat_toNat] at this

theorem channelOf_resend {apdu : List UInt8} (hlen : 4 ≤ apdu.length) (le : UInt8) :
    channelOf ((resendApdu apdu le).getD 0 0) = channelOf (apdu.getD 0 0) := by
  have hfirst : ∀ bytes : List UInt8, bytes.getD 0 0 = (bytes.take 4).getD 0 0 := by
    intro bytes
    simp [List.getD_eq_getElem?_getD]
  rw [hfirst, resendApdu_take hlen, ← hfirst]

/-! ### Commands of a channel -/

section FollowUps

variable {σ : Type} {T : Transport σ} {request : Request} {command : List UInt8} {start : σ}

/-- In every run of the command, every APDU on the wire carries the channel of the applet. -/
def StaysOnChannel (T : Transport σ) (request : Request) (s : Linked σ Applet) : Prop :=
  ∀ fuel later sent answer earlier,
    (transmitRequest T request fuel s).2.se.log = later ++ .exchange sent answer :: (earlier ++ s.se.log) →
    channelOf (sent.getD 0 0) = s.obj.channel

/-- The command and its resends, each with the card that is sent it, as far as the card answers `6Cxx`. -/
inductive Resent (T : Transport σ) (command : List UInt8) (start : σ) : List UInt8 → σ → Prop
  | self : Resent T command start command start
  | again {apdu : List UInt8} {card card' : σ} {le : UInt8} (h : Resent T command start apdu card)
      (hanswer : T card apdu = (some [0x6C, le], card')) : Resent T command start (resendApdu apdu le) card'

theorem Resent.channel {apdu : List UInt8} {card : σ} (h : Resent T command start apdu card)
    (hlen : 4 ≤ command.length) :
    4 ≤ apdu.length ∧ channelOf (apdu.getD 0 0) = channelOf (command.getD 0 0) := by
  induction h with
  | self => exact ⟨hlen, rfl⟩
  | @again apdu _ _ le _ _ ih =>
      refine ⟨by simp [resendApdu]; omega, ?_⟩
      rw [channelOf_resend ih.1, ih.2]

theorem Resent.puts {apdu : List UInt8} {card : σ} (h : Resent T command start apdu card) :
    ∃ earlier, Puts T command start apdu card earlier := by
  induction h with
  | self => exact ⟨[], .first⟩
  | @again apdu card card' le _ hanswer ih =>
      obtain ⟨earlier, hputs⟩ := ih
      have hnext : nextApdu apdu (T card apdu).1 = some (resendApdu apdu le) := by
        rw [hanswer]
        rfl
      have hresent := hputs.next hnext
      rw [hanswer] at hresent
      exact ⟨_, hresent⟩

/-- A next APDU is a resend or a GET RESPONSE. -/
theorem nextApdu_cases {apdu next : List UInt8} {answer : Option (List UInt8)} (h : nextApdu apdu answer = some next) :
    (∃ le, answer = some [0x6C, le] ∧ next = resendApdu apdu le) ∨
      ∃ le, answer = some [0x61, le] ∧ next = fetchApdu apdu le := by
  rcases answer with _ | answer
  · cases h
  · have htwo : answer.length = 2 → answer = [answer.getD 0 0, answer.getD 1 0] := by
      intro hlen
      match answer, hlen with
      | [a, b], _ => rfl
    rw [nextApdu] at h
    split_ifs at h with h6C h61
    · cases h
      refine .inl ⟨answer.getD 1 0, ?_, rfl⟩
      rw [htwo h6C.1, h6C.2]
      rfl
    · cases h
      refine .inr ⟨answer.getD 1 0, ?_, rfl⟩
      rw [htwo h61.1, h61.2]
      rfl

/-- On the first four channels every follow-up stays on the channel. -/
theorem Puts.channel_of_low {sent : List UInt8} {card : σ} {earlier : List Event}
    (h : Puts T command start sent card earlier) (hlen : 4 ≤ command.length)
    (hlow : channelOf (command.getD 0 0) &&& 0x03 = channelOf (command.getD 0 0)) :
    4 ≤ sent.length ∧ channelOf (sent.getD 0 0) = channelOf (command.getD 0 0) := by
  induction h with
  | first => exact ⟨hlen, rfl⟩
  | next _ hnext ih =>
      obtain ⟨hfour, hsame⟩ := ih
      rcases nextApdu_cases hnext with ⟨le, _, rfl⟩ | ⟨le, _, rfl⟩
      · refine ⟨by simp [resendApdu]; omega, ?_⟩
        rw [channelOf_resend hfour, hsame]
      · refine ⟨by simp [fetchApdu], ?_⟩
        rw [channelOf_fetch, hsame, hlow]

/-- Without a bare `61xx` there are only resends. -/
theorem Puts.resent_of_unfetched {sent : List UInt8} {card : σ} {earlier : List Event}
    (h : Puts T command start sent card earlier)
    (hnone : ∀ apdu card le, Resent T command start apdu card → (T card apdu).1 ≠ some [0x61, le]) :
    Resent T command start sent card := by
  induction h with
  | first => exact .self
  | @next apdu _ card _ _ hnext ih =>
      rcases nextApdu_cases hnext with ⟨le, hanswer, rfl⟩ | ⟨le, hanswer, _⟩
      · exact .again ih (Prod.ext hanswer rfl)
      · exact (hnone apdu card le ih hanswer).elim

theorem header_le_apdu_length (request : Request) : 4 ≤ request.apdu.length := by
  rcases request with ⟨cla, ins, p1, p2, _ | le | data | ⟨data, le⟩⟩ <;> simp [Request.apdu, Request.header]

theorem apdu_first (request : Request) : request.apdu.getD 0 0 = request.cla := by
  rcases request with ⟨cla, ins, p1, p2, _ | le | data | ⟨data, le⟩⟩ <;> rfl

/-- **Follow-ups stay on the channel** exactly on the first four channels, or if the card answers neither the
command nor a resend of it with a bare `61xx`. -/
theorem staysOnChannel_iff {s : Linked σ Applet} (hselected : s.obj.isSelected = true)
    (hattached : s.obj.attached = true) (hchannel : 1 ≤ s.obj.channel ∧ s.obj.channel.toNat ≤ maxChannel)
    (hcla : channelOf request.cla = 0) (hdata : request.data.length ≤ 255) :
    StaysOnChannel T request s ↔ s.obj.channel < 4 ∨
      ∀ apdu card le, Resent T (Request.apdu { request with cla := request.cla ||| s.obj.channel }) s.se.card apdu card →
        (T card apdu).1 ≠ some [0x61, le] := by
  let sent : Request := { request with cla := request.cla ||| s.obj.channel }
  have hsmall : s.obj.channel < 16 := by
    have := hchannel.2
    rw [UInt8.lt_iff_toNat_lt]
    simp only [maxChannel] at this
    show s.obj.channel.toNat < 16
    omega
  have hclass : channelOf (sent.apdu.getD 0 0) = s.obj.channel := by
    rw [apdu_first]
    exact channelOf_or hcla hsmall
  have hlen := header_le_apdu_length sent
  have hrun : ∀ fuel, (transmitRequest T request fuel s).2.se.log =
      (SEInterface.command T sent.apdu fuel { s.se with apdu := sent.apdu }).2.log :=
    transmitRequest_log hselected hattached hdata
  constructor
  · intro hstays
    by_contra hneither
    rw [not_or] at hneither
    obtain ⟨hhigh, hfetched⟩ := hneither
    push Not at hfetched
    obtain ⟨apdu, card, le, hresent, hanswer⟩ := hfetched
    obtain ⟨earlier, hputs⟩ := hresent.puts
    have hnext : nextApdu apdu (T card apdu).1 = some (fetchApdu apdu le) := by
      rw [hanswer]
      rfl
    obtain ⟨fuel, later, hlog⟩ := puts_command (s := { s.se with apdu := sent.apdu }) (hputs.next hnext)
    rw [← hrun] at hlog
    have hbad := hstays fuel later _ _ _ hlog
    rw [channelOf_fetch, (hresent.channel hlen).2, hclass] at hbad
    exact hhigh ((and_three_eq_iff hsmall).mp hbad)
  · intro hcase fuel later apdu answer earlier hlog
    rw [hrun] at hlog
    obtain ⟨card, hputs, _⟩ := command_puts (s := { s.se with apdu := sent.apdu }) hlog
    rcases hcase with hlow | hnone
    · have hthree : channelOf (sent.apdu.getD 0 0) &&& 0x03 = channelOf (sent.apdu.getD 0 0) := by
        rw [hclass]
        exact (and_three_eq_iff hsmall).mpr hlow
      exact (Puts.channel_of_low hputs hlen hthree).2.trans hclass
    · exact ((Puts.resent_of_unfetched hputs hnone).channel hlen).2.trans hclass

/-- An applet that the card put on this channel. -/
def onChannel (channel : UInt8) : Applet :=
  { create [] with attached := true, channel := channel, isSelected := true }

theorem staysOnChannel_one : StaysOnChannel scripted ⟨0x00, 0xB0, 0x00, 0x00, .case2 0x05⟩
    ⟨.create [some [0x61, 0x05], some [1, 2, 3, 4, 5, 0x90, 0x00]] Mem.zero, onChannel 1⟩ :=
  (staysOnChannel_iff rfl rfl (by decide) (by decide) (by decide)).mpr (.inl (by decide))

/-- READ BINARY on channel 4, answered `6105`: GET RESPONSE goes to channel 0. -/
theorem fetch_leaves_channel : ¬StaysOnChannel scripted ⟨0x00, 0xB0, 0x00, 0x00, .case2 0x05⟩
    ⟨.create [some [0x61, 0x05]] Mem.zero, onChannel 4⟩ := by
  intro hstays
  have hfetch := hstays 2 [.unanswered [0x04, 0xB0, 0x00, 0x00, 0x05]] [0x00, 0xC0, 0x00, 0x00, 0x05] none
    [.exchange [0x04, 0xB0, 0x00, 0x00, 0x05] (some [0x61, 0x05])] rfl
  exact absurd hfetch (by decide)

end FollowUps

end TrustOnboard.Applet
