import TrustOnboard.CardSEInterface

/-! What one command does. `FollowUp` lists the APDUs the interface may put on the wire for a
command; `command_meets` says what a command leaves in the log and in the response buffer, for every
card; `command_evals` says that a command whose follow-ups end does end, with the last answer. -/

namespace TrustOnboard

open Exec

/-! ### Answers -/

/-- The status word of an answer, as `getStatusWord` computes it. -/
def statusWord (answer : List UInt8) : Nat :=
  if 2 ≤ answer.length then
    word16 (answer.getD (answer.length - 2) 0) (answer.getD (answer.length - 1) 0)
  else 0

/-- The data of an answer, as `getResponse` copies it. -/
def responseData (answer : List UInt8) : List UInt8 := answer.take (answer.length - 2)

/-- A bare `6Cxx` or `61xx`, which the interface follows up. -/
def Bare (answer : List UInt8) : Prop :=
  answer.length = 2 ∧ (answer.getD 0 0 = 0x6C ∨ answer.getD 0 0 = 0x61)

instance (answer : List UInt8) : Decidable (Bare answer) := inferInstanceAs (Decidable (_ ∧ _))

theorem responseData_length (answer : List UInt8) :
    (responseData answer).length = answer.length - 2 := by
  rw [responseData, List.length_take]
  omega

theorem statusWord_append (data : List UInt8) (sw1 sw2 : UInt8) :
    statusWord (data ++ [sw1, sw2]) = word16 sw1 sw2 := by
  simp [statusWord, List.getD_eq_getElem?_getD]

/-- Data followed by `9000`. -/
theorem statusWord_ok (data : List UInt8) : statusWord (data ++ [0x90, 0x00]) = swOK := by
  rw [statusWord_append]
  decide

theorem responseData_append (data : List UInt8) (sw1 sw2 : UInt8) :
    responseData (data ++ [sw1, sw2]) = data := by
  simp [responseData]

/-! ### APDUs -/

/-- The instruction byte of an APDU. -/
def insOf (apdu : List UInt8) : UInt8 := apdu.getD 1 0

/-- The APDU resent after `6Cxx`. -/
def resendApdu (apdu : List UInt8) (le : UInt8) : List UInt8 := apdu.take 4 ++ le :: apdu.drop 5

/-- The GET RESPONSE sent after `61xx`. -/
def fetchApdu (apdu : List UInt8) (le : UInt8) : List UInt8 :=
  [0x00 ||| (apdu.getD 0 0 &&& 0x03), 0xC0, 0x00, 0x00, le]

/-- The APDUs that may be put on the wire for a command. -/
inductive FollowUp (command : List UInt8) : List UInt8 → Prop
  | self : FollowUp command command
  | resend {apdu : List UInt8} (le : UInt8) (h : FollowUp command apdu) :
      FollowUp command (resendApdu apdu le)
  | fetch {apdu : List UInt8} (le : UInt8) (h : FollowUp command apdu) :
      FollowUp command (fetchApdu apdu le)

theorem resendApdu_take {apdu : List UInt8} (h : 4 ≤ apdu.length) (le : UInt8) :
    (resendApdu apdu le).take 4 = apdu.take 4 := by
  rw [resendApdu, List.take_append_of_le_length (by simp; omega), List.take_take, Nat.min_self]

/-- A follow-up keeps the four header bytes or is a GET RESPONSE. -/
theorem FollowUp.header {command apdu : List UInt8} (h : FollowUp command apdu)
    (hlen : 4 ≤ command.length) :
    4 ≤ apdu.length ∧ (apdu.take 4 = command.take 4 ∨ insOf apdu = SCIns.getResponse.code) := by
  induction h with
  | self => exact ⟨hlen, Or.inl rfl⟩
  | @resend apdu le _ ih =>
      obtain ⟨hfour, hheader⟩ := ih
      have htake := resendApdu_take hfour le
      refine ⟨by simp [resendApdu]; omega, ?_⟩
      rcases hheader with heq | hget
      · exact Or.inl (htake.trans heq)
      · refine Or.inr ?_
        have hins : ∀ a : List UInt8, insOf a = (a.take 4).getD 1 0 := by
          intro a
          simp [insOf, List.getD_eq_getElem?_getD]
        rw [hins, htake, ← hins, hget]
  | fetch => exact ⟨by simp [fetchApdu], Or.inr rfl⟩

theorem insOf_eq_of_take {left right : List UInt8} (h : left.take 4 = right.take 4) :
    insOf left = insOf right := by
  have := congrArg (fun a : List UInt8 => a.getD 1 0) h
  simpa [insOf, List.getD_eq_getElem?_getD] using this

theorem FollowUp.ins {command apdu : List UInt8} (h : FollowUp command apdu)
    (hlen : 4 ≤ command.length) :
    insOf apdu = insOf command ∨ insOf apdu = SCIns.getResponse.code := by
  rcases (h.header hlen).2 with heq | hget
  · exact Or.inl (insOf_eq_of_take heq)
  · exact Or.inr hget

namespace SEInterface

variable {σ : Type} {T : Transport σ}

/-! ### The response buffer -/

/-- The buffer holds this answer. -/
def Holds (s : SEInterface σ) (answer : List UInt8) : Prop :=
  s.responseLen = answer.length ∧ ∀ k, k < answer.length → s.response k = answer.getD k 0

theorem holds_stored (answer : List UInt8) (s : SEInterface σ) : Holds (stored answer s) answer := by
  refine ⟨rfl, fun k hk => ?_⟩
  show s.response.write 0 answer k = _
  rw [Mem.write_of_mem (Nat.zero_le k) (by omega), Nat.sub_zero]

/-- The data of an answer in the buffer. -/
theorem Holds.data_eq {s : SEInterface σ} {data : List UInt8} {sw1 sw2 : UInt8} (h : Holds s (data ++ [sw1, sw2])) {k : Nat}
    (hk : k < data.length) : s.response k = data.getD k 0 := by
  rw [h.2 k (by rw [List.length_append]; omega), List.getD_eq_getElem?_getD, List.getElem?_append_left hk,
    List.getD_eq_getElem?_getD]

theorem Holds.answer_eq {s : SEInterface σ} {r : List UInt8} (h : Holds s r) : answer s = r := by
  obtain ⟨hlen, hbytes⟩ := h
  rw [answer, hlen]
  apply List.ext_getElem
  · simp
  · intro k hk hr
    simp only [Mem.slice, List.getElem_map, List.getElem_range, Nat.zero_add]
    rw [hbytes k hr, List.getD_eq_getElem?_getD, List.getElem?_eq_getElem hr, Option.getD_some]

theorem Holds.getStatusWord {s : SEInterface σ} {r : List UInt8} (h : Holds s r) :
    getStatusWord s = statusWord r := by
  obtain ⟨hlen, hbytes⟩ := h
  rw [SEInterface.getStatusWord, statusWord, hlen]
  split
  · rw [hbytes _ (by omega), hbytes _ (by omega)]
  · rfl

theorem Holds.getResponse {s : SEInterface σ} {r : List UInt8} (h : Holds s r) :
    getResponse s = responseData r := by
  have hanswer := h.answer_eq
  obtain ⟨hlen, hbytes⟩ := h
  rw [SEInterface.getResponse, responseData, hlen]
  split
  · rw [← hanswer, answer, hlen]
    simp only [Mem.slice, ← List.map_take, List.take_range]
    rw [Nat.min_eq_left (by simp), List.length_map, List.length_range]
  · rw [show r.length - 2 = 0 by omega, List.take_zero]

/-! ### What a command leaves behind -/

/-- The exchanges of a command so far, each answered by a bare `6Cxx` or `61xx`, newest first, and the
APDU that is to be sent next. -/
inductive Chain (command : List UInt8) : List UInt8 → List Event → Prop
  | start : Chain command command []
  | resend {apdu answer : List UInt8} {events : List Event} (h : Chain command apdu events)
      (hbare : Bare answer) :
      Chain command (resendApdu apdu (answer.getD 1 0)) (.exchange apdu (some answer) :: events)
  | fetch {apdu answer : List UInt8} {events : List Event} (h : Chain command apdu events)
      (hbare : Bare answer) :
      Chain command (fetchApdu apdu (answer.getD 1 0)) (.exchange apdu (some answer) :: events)

/-- An exchange of a command that was answered by a bare `6Cxx` or `61xx`. -/
def FollowedUp (command : List UInt8) (event : Event) : Prop :=
  ∃ apdu answer, event = .exchange apdu (some answer) ∧ FollowUp command apdu ∧ Bare answer

theorem Chain.followUp {command apdu : List UInt8} {events : List Event} (h : Chain command apdu events) :
    FollowUp command apdu := by
  induction h with
  | start => exact .self
  | resend _ _ ih => exact .resend _ ih
  | fetch _ _ ih => exact .fetch _ ih

theorem Chain.followedUp {command apdu : List UInt8} {events : List Event} (h : Chain command apdu events) :
    ∀ event ∈ events, FollowedUp command event := by
  induction h with
  | start =>
      intro event hmem
      cases hmem
  | resend h hbare ih =>
      rw [List.forall_mem_cons]
      exact ⟨⟨_, _, rfl, h.followUp, hbare⟩, ih⟩
  | fetch h hbare ih =>
      rw [List.forall_mem_cons]
      exact ⟨⟨_, _, rfl, h.followUp, hbare⟩, ih⟩

/-- The log a command has written so far: exchanges of the command, all but possibly the newest
answered by `6Cxx` or `61xx`. -/
inductive Underway (command : List UInt8) : List Event → Prop
  | waiting {apdu : List UInt8} {events : List Event} (h : Chain command apdu events) :
      Underway command events
  | last {apdu : List UInt8} {events : List Event} (answer : Option (List UInt8))
      (h : Chain command apdu events) : Underway command (.exchange apdu answer :: events)

/-- The log of a command that has ended. -/
def Ended (command : List UInt8) (result : Option (List UInt8)) (events : List Event) : Prop :=
  ∃ apdu earlier, Chain command apdu earlier ∧
    match result with
    | some answer =>
        ¬Bare answer ∧ events = .answered command answer :: .exchange apdu (some answer) :: earlier
    | none => events = .unanswered command :: .exchange apdu none :: earlier

/-- The oldest exchange of a command is the command. -/
theorem Chain.oldest {command apdu : List UInt8} {events : List Event} (h : Chain command apdu events)
    (answer : Option (List UInt8)) :
    ∃ later first, .exchange apdu answer :: events = later ++ [.exchange command first] := by
  induction h generalizing answer with
  | start => exact ⟨[], answer, rfl⟩
  | @resend apdu answer' events _ _ ih =>
      obtain ⟨later, first, hevents⟩ := ih (some answer')
      exact ⟨_ :: later, first, by rw [hevents, List.cons_append]⟩
  | @fetch apdu answer' events _ _ ih =>
      obtain ⟨later, first, hevents⟩ := ih (some answer')
      exact ⟨_ :: later, first, by rw [hevents, List.cons_append]⟩

theorem Ended.oldest {command : List UInt8} {result : Option (List UInt8)} {events : List Event}
    (h : Ended command result events) : ∃ later first, events = later ++ [.exchange command first] := by
  obtain ⟨apdu, earlier, hchain, hevents⟩ := h
  obtain ⟨later, first, holdest⟩ := hchain.oldest result
  cases result with
  | none => exact ⟨_ :: later, first, by rw [hevents, holdest, List.cons_append]⟩
  | some answer => exact ⟨_ :: later, first, by rw [hevents.2, holdest, List.cons_append]⟩

theorem Underway.oldest {command : List UInt8} {events : List Event} (h : Underway command events) :
    events = [] ∨ ∃ later first, events = later ++ [.exchange command first] := by
  cases h with
  | waiting hchain =>
      cases hchain with
      | start => exact .inl rfl
      | @resend apdu answer events hchain => exact .inr (hchain.oldest (some answer))
      | @fetch apdu answer events hchain => exact .inr (hchain.oldest (some answer))
  | last answer hchain => exact .inr (hchain.oldest answer)

theorem transmitApdu_apply (T : Transport σ) (fuel : Nat) (s : SEInterface σ) :
    transmitApdu T fuel s =
      match (T s.card s.apdu).1 with
      | none => (.done false, sent T s)
      | some answer =>
          if answer.length ≤ apduResponseSize then (.done true, stored answer (sent T s))
          else (.fault, sent T s) := by
  simp only [transmitApdu, bind_apply, gets_apply, modify_apply]
  cases (T s.card s.apdu).1 with
  | none => rfl
  | some answer =>
      by_cases hfit : answer.length ≤ apduResponseSize
      · simp only [bind_apply, check_pos hfit, modify_apply, pure_apply, if_pos hfit]
      · simp only [bind_apply, check_neg hfit, if_neg hfit]

theorem bare_of_holds {s : SEInterface σ} {r : List UInt8} (h : Holds s r) :
    (s.responseLen = 2 ∧ s.response 0 = 0x6C) ∨ (s.responseLen = 2 ∧ s.response 0 = 0x61) ↔
      Bare r := by
  obtain ⟨hlen, hbytes⟩ := h
  rw [hlen, Bare, ← and_or_left]
  refine and_congr_right fun htwo => ?_
  rw [hbytes 0 (by omega)]

/-- **One command, for every card.** It ends with an answer that the buffer then holds, or without
one; cut short it has written exchanges of its own only. -/
theorem command_meets (T : Transport σ) (apdu : List UInt8) (s : SEInterface σ) :
    Meets (command T apdu) s
      (fun ok s' => ∃ result events, Ended apdu result events ∧ s'.log = events ++ s.log ∧
        ok = result.isSome ∧ ∀ answer, result = some answer →
          Holds s' answer ∧ answer.length ≤ apduResponseSize)
      (fun s' => ∃ events, Underway apdu events ∧ s'.log = events ++ s.log) := by
  -- the invariant of the follow-up loop: every exchange so far was answered by `6Cxx` or `61xx`
  let inv : Unit → SEInterface σ → Prop := fun _ t =>
    ∃ events, Chain apdu t.apdu events ∧ t.log = events ++ s.log
  let cut : SEInterface σ → Prop := fun t => ∃ events, Underway apdu events ∧ t.log = events ++ s.log
  let post : Bool → SEInterface σ → Prop := fun ok t =>
    ∃ last earlier, Chain apdu last earlier ∧
      ∃ result, t.log = .exchange last result :: earlier ++ s.log ∧ ok = result.isSome ∧
        ∀ answer, result = some answer → ¬Bare answer ∧ Holds t answer ∧ answer.length ≤ apduResponseSize
  have hloop : Meets (transmit T) { s with apdu := apdu } post cut := by
    refine Meets.loop inv ?_ ?_ ?_
    · rintro _ t ⟨events, hchain, hlog⟩
      exact ⟨events, .waiting hchain, hlog⟩
    · rintro ⟨⟩ t ⟨events, hchain, hlog⟩ fuel
      have hsent : (sent T t).log = .exchange t.apdu (T t.card t.apdu).1 :: events ++ s.log := by
        rw [sent, hlog]
        rfl
      rw [transmitTurn, bind_apply, transmitApdu_apply]
      cases hT : (T t.card t.apdu).1 with
      | none =>
          rw [hT] at hsent
          exact ⟨t.apdu, events, hchain, none, hsent, rfl, fun _ h => by cases h⟩
      | some r =>
          rw [hT] at hsent
          by_cases hfit : r.length ≤ apduResponseSize
          · have hholds := holds_stored r (sent T t)
            have hbare := bare_of_holds hholds
            have hle : Bare r → (stored r (sent T t)).response 1 = r.getD 1 0 := fun h =>
              hholds.2 1 (by have := h.1; omega)
            simp only [if_pos hfit, if_true, bind_apply, get_apply]
            split_ifs with h6C h61
            · have h := hbare.mp (Or.inl h6C)
              have hnext : (resend (stored r (sent T t))).apdu = resendApdu t.apdu (r.getD 1 0) := by
                rw [← hle h]
                rfl
              refine ⟨.exchange t.apdu (some r) :: events, ?_, hsent⟩
              rw [hnext]
              exact .resend hchain h
            · have h := hbare.mp (Or.inr h61)
              have hnext : (fetch (stored r (sent T t))).apdu = fetchApdu t.apdu (r.getD 1 0) := by
                rw [← hle h]
                rfl
              refine ⟨.exchange t.apdu (some r) :: events, ?_, hsent⟩
              rw [hnext]
              exact .fetch hchain h
            · refine ⟨t.apdu, events, hchain, some r, hsent, rfl, ?_⟩
              intro answer heq
              cases heq
              exact ⟨fun h => (hbare.mpr h).elim h6C h61, hholds, hfit⟩
          · simp only [if_neg hfit]
            exact ⟨_, .last (some r) hchain, hsent⟩
    · exact ⟨[], .start, rfl⟩
  refine Meets.modify_bind (Meets.bind hloop ?_)
  rintro ok t ⟨last, earlier, hchain, result, hlog, rfl, hanswer⟩ fuel
  cases result with
  | none =>
      refine ⟨none, _, ⟨last, earlier, hchain, rfl⟩, ?_, rfl, fun _ h => by cases h⟩
      change _ :: t.log = _
      rw [hlog]
      rfl
  | some r =>
      obtain ⟨hbare, hholds, hfit⟩ := hanswer r rfl
      refine ⟨some r, _, ⟨last, earlier, hchain, hbare, rfl⟩, ?_, rfl, ?_⟩
      · change Event.answered apdu (answer t) :: t.log = _
        rw [hholds.answer_eq, hlog]
        rfl
      · intro answer heq
        cases heq
        exact ⟨hholds, hfit⟩

/-! ### Commands whose follow-ups end -/

/-- The card answers an APDU, after finitely many bare `6Cxx` and `61xx` that the interface follows
up, with this final answer. -/
inductive Settles (T : Transport σ) : σ → List UInt8 → List UInt8 → σ → Prop
  | final {card card' : σ} {apdu answer : List UInt8} (h : T card apdu = (some answer, card'))
      (hbare : ¬Bare answer) (hfit : answer.length ≤ apduResponseSize) :
      Settles T card apdu answer card'
  | resend {card card' card'' : σ} {apdu answer : List UInt8} {le : UInt8}
      (h : T card apdu = (some [0x6C, le], card'))
      (hrest : Settles T card' (resendApdu apdu le) answer card'') : Settles T card apdu answer card''
  | fetch {card card' card'' : σ} {apdu answer : List UInt8} {le : UInt8}
      (h : T card apdu = (some [0x61, le], card'))
      (hrest : Settles T card' (fetchApdu apdu le) answer card'') : Settles T card apdu answer card''

theorem Settles.fits {T : Transport σ} {card card' : σ} {apdu answer : List UInt8}
    (h : Settles T card apdu answer card') : answer.length ≤ apduResponseSize := by
  induction h with
  | final _ _ hfit => exact hfit
  | resend _ _ ih => exact ih
  | fetch _ _ ih => exact ih

/-- A bare `6Cxx`: the command is sent again with the length that the card gives. -/
theorem transmitTurn_resends {T : Transport σ} {card' : σ} {le : UInt8} {s : SEInterface σ}
    (h : T s.card s.apdu = (some [0x6C, le], card')) :
    ∃ t, Evals (transmitTurn T ()) s (.again ()) t ∧ t.card = card' ∧ t.apdu = resendApdu s.apdu le := by
  refine ⟨SEInterface.resend (stored [0x6C, le] (sent T s)), .of_eq fun fuel => ?_, ?_, rfl⟩
  · simp only [transmitTurn, bind_apply, transmitApdu_apply, h]
    rfl
  · simp only [SEInterface.resend, stored, sent, h]

/-- A bare `61xx`: the answer is fetched. -/
theorem transmitTurn_fetches {T : Transport σ} {card' : σ} {le : UInt8} {s : SEInterface σ}
    (h : T s.card s.apdu = (some [0x61, le], card')) :
    ∃ t, Evals (transmitTurn T ()) s (.again ()) t ∧ t.card = card' ∧ t.apdu = fetchApdu s.apdu le := by
  refine ⟨SEInterface.fetch (stored [0x61, le] (sent T s)), .of_eq fun fuel => ?_, ?_, rfl⟩
  · simp only [transmitTurn, bind_apply, transmitApdu_apply, h]
    rfl
  · simp only [SEInterface.fetch, stored, sent, h]

theorem Settles.iterates {T : Transport σ} {card card' : σ} {apdu r : List UInt8}
    (h : Settles T card apdu r card') (s : SEInterface σ) (hcard : s.card = card)
    (hapdu : s.apdu = apdu) :
    ∃ s', Evals (transmit T) s true s' ∧ s'.card = card' ∧ Holds s' r := by
  suffices ∃ s', Iterates _ () s (.done true) s' ∧ s'.card = card' ∧ Holds s' r by
    obtain ⟨s', hit, hend⟩ := this
    exact ⟨s', .loop hit, hend⟩
  induction h generalizing s with
  | @final card card' apdu answer h hbare hfit =>
      subst hcard hapdu
      refine ⟨stored answer (sent T s), .stop (.of_eq fun fuel => ?_), ?_, holds_stored _ _⟩
      · have hneg := mt (bare_of_holds (holds_stored answer (sent T s))).mp hbare
        rw [not_or] at hneg
        simp only [transmitTurn, bind_apply, transmitApdu_apply, h, if_pos hfit, if_true, get_apply, if_neg hneg.1,
          if_neg hneg.2, pure_apply]
      · simp only [stored, sent, h]
  | @resend card card' card'' apdu answer le h _ ih =>
      subst hcard hapdu
      obtain ⟨t, hturn, hcard, hapdu⟩ := transmitTurn_resends h
      obtain ⟨s', hit, hend⟩ := ih t hcard hapdu
      exact ⟨s', .again hturn hit, hend⟩
  | @fetch card card' card'' apdu answer le h _ ih =>
      subst hcard hapdu
      obtain ⟨t, hturn, hcard, hapdu⟩ := transmitTurn_fetches h
      obtain ⟨s', hit, hend⟩ := ih t hcard hapdu
      exact ⟨s', .again hturn hit, hend⟩

/-- A command that settles is answered, and the buffer holds the final answer. -/
theorem command_evals {T : Transport σ} {apdu r : List UInt8} {card' : σ} {s : SEInterface σ}
    (h : Settles T s.card apdu r card') :
    ∃ s', Evals (command T apdu) s true s' ∧ s'.card = card' ∧ Holds s' r := by
  obtain ⟨t, hrun, hcard, hholds⟩ := h.iterates { s with apdu := apdu } rfl rfl
  refine ⟨{ t with log := .answered apdu (answer t) :: t.log }, ?_, hcard, hholds⟩
  refine .bind .modify (.bind hrun ?_)
  exact .of_eq fun _ => rfl

end SEInterface

end TrustOnboard
