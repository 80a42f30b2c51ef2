import TrustOnboard.CardWire

/-! Resends after `6Cxx`. The interface puts the length that the card asks for into byte 4 of the APDU. That
is Le in the short forms of a command, but Lc in the forms with data, where Le is to be the last byte. -/

namespace TrustOnboard.SEInterface

open Exec

/-- The four cases of ISO 7816-3. -/
inductive Form where
  | case1
  | case2 (le : UInt8)
  | case3 (data : List UInt8)
  | case4 (data : List UInt8) (le : UInt8)

/-- The arguments of `SEInterface::transmit`. -/
structure Request where
  cla : UInt8
  ins : UInt8
  p1 : UInt8
  p2 : UInt8
  form : Form

namespace Request

def header (request : Request) : List UInt8 := [request.cla, request.ins, request.p1, request.p2]

def data (request : Request) : List UInt8 :=
  match request.form with
  | .case1 | .case2 _ => []
  | .case3 data | .case4 data _ => data

/-- What `transmit` builds. -/
def apdu (request : Request) : List UInt8 :=
  match request.form with
  | .case1 => request.header
  | .case2 le => request.header ++ [le]
  | .case3 data => request.header ++ lowByte data.length :: data
  | .case4 data le => request.header ++ lowByte data.length :: (data ++ [le])

/-- The same command with this expected length. -/
def withLe (request : Request) (le : UInt8) : List UInt8 :=
  match request.form with
  | .case1 | .case2 _ => request.header ++ [le]
  | .case3 data | .case4 data _ => request.header ++ lowByte data.length :: (data ++ [le])

variable {σ : Type} (T : Transport σ)

/-- The four overloads of `transmit`. -/
def transmit (request : Request) : Exec (SEInterface σ) Bool :=
  match request.form with
  | .case1 | .case2 _ => command T request.apdu
  | .case3 _ | .case4 _ _ => do
      fill request.apdu
      command T request.apdu

/-- The four forms in which the library uses them. -/
theorem transmit_eq (cla p1 p2 le : UInt8) (ins : SCIns) (data : List UInt8) :
    transmit T ⟨cla, ins.code, p1, p2, .case1⟩ = transmitCase1 T cla ins p1 p2 ∧
    transmit T ⟨cla, ins.code, p1, p2, .case2 le⟩ = transmitCase2 T cla ins p1 p2 le ∧
    transmit T ⟨cla, ins.code, p1, p2, .case3 data⟩ = transmitCase3 T cla ins p1 p2 data ∧
    transmit T ⟨cla, ins.code, p1, p2, .case4 data le⟩ = transmitCase4 T cla ins p1 p2 data le :=
  ⟨rfl, rfl, rfl, rfl⟩

theorem apdu_length_le {request : Request} (h : request.data.length ≤ 255) : request.apdu.length ≤ apduSize := by
  rcases request with ⟨cla, ins, p1, p2, form⟩
  have hsize : apduSize = 262 := rfl
  cases form with
  | case1 => exact Nat.le_of_ble_eq_true rfl
  | case2 le => exact Nat.le_of_ble_eq_true rfl
  | case3 data =>
      have hdata : data.length ≤ 255 := h
      simp only [apdu, header, List.length_append, List.length_cons, List.length_nil]
      omega
  | case4 data le =>
      have hdata : data.length ≤ 255 := h
      simp only [apdu, header, List.length_append, List.length_cons, List.length_nil]
      omega

/-- A command whose data fits is sent as it was built. -/
theorem transmit_apply {request : Request} (h : request.data.length ≤ 255) (fuel : Nat) (s : SEInterface σ) :
    transmit T request fuel s = command T request.apdu fuel { s with apdu := request.apdu } := by
  have hfill : fill request.apdu fuel s = (.done (), { s with apdu := request.apdu }) := by
    rw [fill, bind_apply, modify_apply]
    exact check_pos (apdu_length_le h) fuel _
  rcases hform : request.form with _ | le | data | ⟨data, le⟩
  · simp only [transmit, hform]
    rfl
  · simp only [transmit, hform]
    rfl
  · simp only [transmit, hform]
    rw [bind_done hfill]
  · simp only [transmit, hform]
    rw [bind_done hfill]

/-- The lengths for which the resent APDU is the command with that expected length. -/
def Allows (request : Request) (le : UInt8) : Prop :=
  match request.form with
  | .case1 | .case2 _ => True
  | .case3 _ => False
  | .case4 data own => le = lowByte data.length ∧ le = own

theorem resend_eq_iff (request : Request) (le : UInt8) :
    resendApdu request.apdu le = request.withLe le ↔ request.Allows le := by
  rcases request with ⟨cla, ins, p1, p2, form⟩
  cases form with
  | case1 => exact iff_of_true rfl trivial
  | case2 own => exact iff_of_true rfl trivial
  | case3 data =>
      -- the resent APDU has no byte for Le
      refine iff_of_false (fun heq => ?_) id
      have := congrArg List.length heq
      simp [resendApdu, apdu, withLe, header] at this
  | case4 data own =>
      have hresend : resendApdu (apdu ⟨cla, ins, p1, p2, .case4 data own⟩) le =
          [cla, ins, p1, p2] ++ le :: (data ++ [own]) := rfl
      rw [hresend]
      simp only [withLe, header, Allows, List.append_cancel_left_eq, List.cons.injEq, and_true]
      constructor
      · exact fun h => ⟨h.1, h.2.symm⟩
      · exact fun h => ⟨h.1, h.2.symm⟩

/-- A short command keeps its form. -/
theorem resend_withLe {request : Request} (hshort : ∀ le, request.Allows le) (first le : UInt8) :
    resendApdu (request.withLe first) le = request.withLe le := by
  rcases request with ⟨cla, ins, p1, p2, form⟩
  cases form with
  | case1 => rfl
  | case2 own => rfl
  | case3 data => exact (hshort 0).elim
  | case4 data own => exact absurd ((hshort 0).2.trans (hshort 1).2.symm) (by decide)

/-- A command with data that is resent with a length it allows is resent as it was. -/
theorem resend_self {request : Request} {le : UInt8} (hlong : ¬∀ le, request.Allows le) (h : request.Allows le) :
    request.withLe le = request.apdu := by
  rcases request with ⟨cla, ins, p1, p2, form⟩
  cases form with
  | case1 => exact (hlong fun _ => trivial).elim
  | case2 own => exact (hlong fun _ => trivial).elim
  | case3 data => exact h.elim
  | case4 data own => simp only [withLe, apdu, h.2]

end Request

section Resends

variable {σ : Type} {T : Transport σ} {request : Request} {start : σ}

/-- A bare `6Cxx`. -/
def IsWrongLength (event : Event) : Prop := ∃ apdu le, event = .exchange apdu (some [0x6C, le])

/-- In every run of the command, an APDU that follows nothing but `6Cxx` answers is the command with the
length of the last of them. -/
def ResendsKeep (T : Transport σ) (request : Request) (s : SEInterface σ) : Prop :=
  ∀ fuel later sent answer before le earlier,
    (request.transmit T fuel s).2.log =
      later ++ .exchange sent answer :: (.exchange before (some [0x6C, le]) :: earlier ++ s.log) →
    (∀ event ∈ earlier, IsWrongLength event) → sent = request.withLe le

/-- The card, sent this APDU again and again, answers `6Cxx` with these lengths, the last one first. -/
inductive Refuses (T : Transport σ) (apdu : List UInt8) (start : σ) : List UInt8 → σ → Prop
  | nil : Refuses T apdu start [] start
  | cons {lengths : List UInt8} {card card' : σ} {le : UInt8} (h : Refuses T apdu start lengths card)
      (hanswer : T card apdu = (some [0x6C, le], card')) : Refuses T apdu start (le :: lengths) card'

theorem nextApdu_wrongLength (apdu : List UInt8) (le : UInt8) :
    nextApdu apdu (some [0x6C, le]) = some (resendApdu apdu le) := rfl

/-- The APDU that is to stand behind these `6Cxx` answers. -/
def Request.behind (request : Request) : List Event → List UInt8
  | .exchange _ (some [_, le]) :: _ => request.withLe le
  | _ => request.apdu

/-- What is on the wire behind `6Cxx` answers, if the card asks only for lengths that the command allows. -/
theorem Puts.resent {sent : List UInt8} {card : σ} {earlier : List Event}
    (h : Puts T request.apdu start sent card earlier) (hwrong : ∀ event ∈ earlier, IsWrongLength event)
    (hallows : ∀ lengths card, Refuses T request.apdu start lengths card → ∀ le ∈ lengths, request.Allows le) :
    sent = request.behind earlier := by
  by_cases hshort : ∀ le, request.Allows le
  · induction h with
    | first => rfl
    | @next apdu apdu' card earlier _ hnext ih =>
        rw [List.forall_mem_cons] at hwrong
        obtain ⟨⟨before, le, hevent⟩, hrest⟩ := hwrong
        rw [Event.exchange.injEq] at hevent
        rw [hevent.2, nextApdu_wrongLength, Option.some.injEq, ih hrest] at hnext
        rw [hevent.2, ← hnext]
        show resendApdu (request.behind earlier) le = request.withLe le
        unfold Request.behind
        split
        · exact Request.resend_withLe hshort _ le
        · exact (request.resend_eq_iff le).mpr (hshort le)
  · -- every resend is the command itself, so the card refuses it again and again
    suffices ∃ lengths, Refuses T request.apdu start lengths card ∧ sent = request.apdu ∧
        request.behind earlier = request.apdu by
      obtain ⟨lengths, _, hsent, hbehind⟩ := this
      rw [hsent, hbehind]
    induction h with
    | first => exact ⟨[], .nil, rfl, rfl⟩
    | @next apdu apdu' card earlier _ hnext ih =>
        rw [List.forall_mem_cons] at hwrong
        obtain ⟨⟨before, le, hevent⟩, hrest⟩ := hwrong
        rw [Event.exchange.injEq] at hevent
        obtain ⟨lengths, hrefuses, hself, _⟩ := ih hrest
        rw [hevent.2, nextApdu_wrongLength, Option.some.injEq] at hnext
        subst hself
        have hagain : Refuses T request.apdu start (le :: lengths) (T card request.apdu).2 :=
          .cons hrefuses (Prod.ext hevent.2 rfl)
        have hle := hallows _ _ hagain le List.mem_cons_self
        have hsame := Request.resend_self hshort hle
        refine ⟨le :: lengths, hagain, ?_, ?_⟩
        · rw [← hnext, (request.resend_eq_iff le).mpr hle, hsame]
        · rw [hevent.2]
          exact hsame

/-- **Resends keep the command** exactly if the card asks only for lengths that the command allows: any for a
command without data, none for one with data and no Le, and for one with both its own Lc if it is its Le. -/
theorem resendsKeep_iff (hdata : request.data.length ≤ 255) (s : SEInterface σ) :
    ResendsKeep T request s ↔
      ∀ lengths card, Refuses T request.apdu s.card lengths card → ∀ le ∈ lengths, request.Allows le := by
  constructor
  · intro hkeep lengths card hrefuses
    suffices (∀ le ∈ lengths, request.Allows le) ∧ ((∀ le, request.Allows le) ∨
        ∃ events, Puts T request.apdu s.card request.apdu card events ∧ ∀ event ∈ events, IsWrongLength event) from
      this.1
    by_cases hshort : ∀ le, request.Allows le
    · exact ⟨fun le _ => hshort le, .inl hshort⟩
    induction hrefuses with
    | nil => exact ⟨fun le hmem => (by cases hmem), .inr ⟨[], .first, fun event hmem => by cases hmem⟩⟩
    | @cons lengths card card' le _ hanswer ih =>
        obtain ⟨hallows, hall | ⟨events, hputs, hwrong⟩⟩ := ih
        · exact (hshort hall).elim
        -- the next APDU is on the wire in some run
        have hnext : nextApdu request.apdu (T card request.apdu).1 = some (resendApdu request.apdu le) := by
          rw [hanswer]
          rfl
        have hresent := hputs.next hnext
        rw [hanswer] at hresent
        obtain ⟨fuel, later, hlog⟩ := puts_command (s := { s with apdu := request.apdu }) hresent
        rw [← Request.transmit_apply T hdata] at hlog
        have hle : request.Allows le :=
          (request.resend_eq_iff le).mp (hkeep fuel later _ _ _ _ _ hlog hwrong)
        refine ⟨List.forall_mem_cons.mpr ⟨hle, hallows⟩,
          .inr ⟨.exchange request.apdu (some [0x6C, le]) :: events, ?_, ?_⟩⟩
        · rw [(request.resend_eq_iff le).mpr hle, Request.resend_self hshort hle] at hresent
          exact hresent
        · exact List.forall_mem_cons.mpr ⟨⟨_, le, rfl⟩, hwrong⟩
  · intro hallows fuel later sent answer before le earlier hlog hwrong
    rw [Request.transmit_apply T hdata] at hlog
    have hsplit : (command T request.apdu fuel { s with apdu := request.apdu }).2.log =
        later ++ .exchange sent answer :: ((.exchange before (some [0x6C, le]) :: earlier) ++ s.log) := hlog
    obtain ⟨card, hputs, _⟩ := command_puts (s := { s with apdu := request.apdu }) hsplit
    exact hputs.resent (List.forall_mem_cons.mpr ⟨⟨before, le, rfl⟩, hwrong⟩) hallows

/-- A command without data may be asked for any length. -/
theorem resendsKeep_read : ResendsKeep scripted ⟨0x00, 0xB0, 0x00, 0x00, .case2 0x10⟩
    (.create [some [0x6C, 0x04], some [1, 2, 3, 4, 0x90, 0x00]] Mem.zero) :=
  (resendsKeep_iff (by decide) _).mpr fun _ _ _ _ _ => trivial

/-- SELECT of CONTAINERS_INFO with Le `15`, which the card wants to be `1A`: the `1A` becomes Lc. -/
theorem resend_clobbers_lc : ¬ResendsKeep scripted ⟨0x00, 0xA4, 0x08, 0x04, .case4 [0x00, 0x02] 0x15⟩
    (.create [some [0x6C, 0x1A]] Mem.zero) := by
  intro hkeep
  have hresent := hkeep 2 [.unanswered [0x00, 0xA4, 0x08, 0x04, 0x02, 0x00, 0x02, 0x15]]
    [0x00, 0xA4, 0x08, 0x04, 0x1A, 0x00, 0x02, 0x15] none [0x00, 0xA4, 0x08, 0x04, 0x02, 0x00, 0x02, 0x15] 0x1A []
    rfl (fun event hmem => by cases hmem)
  exact absurd hresent (by decide)

end Resends

end TrustOnboard.SEInterface
