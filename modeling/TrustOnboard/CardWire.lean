import TrustOnboard.CardTrace

/-! The APDUs of one command on the wire, one after the other. `Puts` lists them by what the card answers;
`command_puts` and `puts_command` say that these are the exchanges of a run of the command, no others and
all of them. -/

namespace TrustOnboard.SEInterface

open Exec

variable {σ : Type} {T : Transport σ}

/-- The next APDU for a command, after this answer to the last one. -/
def nextApdu (apdu : List UInt8) : Option (List UInt8) → Option (List UInt8)
  | none => none
  | some answer =>
      if answer.length = 2 ∧ answer.getD 0 0 = 0x6C then some (resendApdu apdu (answer.getD 1 0))
      else if answer.length = 2 ∧ answer.getD 0 0 = 0x61 then some (fetchApdu apdu (answer.getD 1 0))
      else none

/-- The command puts `apdu` on the wire after the exchanges `earlier`, newest first, which leave the card in
state `card`. -/
inductive Puts (T : Transport σ) (command : List UInt8) (start : σ) : List UInt8 → σ → List Event → Prop
  | first : Puts T command start command start []
  | next {apdu apdu' : List UInt8} {card : σ} {earlier : List Event} (h : Puts T command start apdu card earlier)
      (hnext : nextApdu apdu (T card apdu).1 = some apdu') :
      Puts T command start apdu' (T card apdu).2 (.exchange apdu (T card apdu).1 :: earlier)

/-- The first APDU is the command. -/
theorem Puts.eq_command {command apdu : List UInt8} {start card : σ} (h : Puts T command start apdu card []) :
    apdu = command := by
  cases h
  rfl

/-- A turn that goes on has sent one APDU and prepared the next. -/
theorem transmitTurn_next {s : SEInterface σ} {apdu : List UInt8}
    (h : nextApdu s.apdu (T s.card s.apdu).1 = some apdu) :
    ∃ t, (∀ fuel, transmitTurn T () fuel s = (.done (.again ()), t)) ∧ t.apdu = apdu ∧
      t.card = (T s.card s.apdu).2 ∧ t.log = .exchange s.apdu (T s.card s.apdu).1 :: s.log := by
  rcases hanswer : (T s.card s.apdu).1 with _ | answer
  · rw [hanswer] at h
    cases h
  · rw [hanswer, nextApdu] at h
    have hlog : (stored answer (sent T s)).log = .exchange s.apdu (some answer) :: s.log := by
      rw [← hanswer]
      rfl
    have hholds := holds_stored answer (sent T s)
    have hfit : answer.length = 2 → answer.length ≤ apduResponseSize := fun htwo => by
      rw [htwo]
      decide
    have hle : answer.length = 2 → (stored answer (sent T s)).response 1 = answer.getD 1 0 := fun htwo =>
      hholds.2 1 (by omega)
    have hfirst : answer.length = 2 → (stored answer (sent T s)).response 0 = answer.getD 0 0 := fun htwo =>
      hholds.2 0 (by omega)
    have hlen : (stored answer (sent T s)).responseLen = answer.length := rfl
    split_ifs at h with h6C h61
    · cases h
      refine ⟨SEInterface.resend (stored answer (sent T s)), fun fuel => ?_, ?_, rfl, hlog⟩
      · rw [transmitTurn, bind_apply, transmitApdu_apply, hanswer]
        simp only [if_pos (hfit h6C.1), if_true, bind_apply, get_apply, hlen, hfirst h6C.1, if_pos h6C,
          modify_apply, pure_apply]
      · show _ ++ (stored answer (sent T s)).response 1 :: _ = _
        rw [hle h6C.1]
        rfl
    · cases h
      refine ⟨SEInterface.fetch (stored answer (sent T s)), fun fuel => ?_, ?_, rfl, hlog⟩
      · rw [transmitTurn, bind_apply, transmitApdu_apply, hanswer]
        simp only [if_pos (hfit h61.1), if_true, bind_apply, get_apply, hlen, hfirst h61.1, if_neg h6C, if_pos h61,
          modify_apply, pure_apply]
      · show [_, _, _, _, (stored answer (sent T s)).response 1] = _
        rw [hle h61.1]
        rfl

/-- A turn sends one APDU, and goes on only where there is a next one. -/
theorem transmitTurn_meets (s : SEInterface σ) :
    Meets (transmitTurn T ()) s
      (fun turn t => t.log = .exchange s.apdu (T s.card s.apdu).1 :: s.log ∧
        (turn = .again () → t.card = (T s.card s.apdu).2 ∧
          nextApdu s.apdu (T s.card s.apdu).1 = some t.apdu))
      (fun t => t.log = .exchange s.apdu (T s.card s.apdu).1 :: s.log) := by
  intro fuel
  rcases hnext : nextApdu s.apdu (T s.card s.apdu).1 with _ | apdu
  · rw [transmitTurn, bind_apply, transmitApdu_apply]
    rcases hanswer : (T s.card s.apdu).1 with _ | answer
    · dsimp only
      exact ⟨by rw [← hanswer]; rfl, fun heq => by cases heq⟩
    · have hlog : (sent T s).log = .exchange s.apdu (some answer) :: s.log := by
        rw [← hanswer]
        rfl
      by_cases hfit : answer.length ≤ apduResponseSize
      · rw [hanswer, nextApdu] at hnext
        have hlen : (stored answer (sent T s)).responseLen = answer.length := rfl
        have hfirst : answer.length = 2 → (stored answer (sent T s)).response 0 = answer.getD 0 0 := fun htwo =>
          (holds_stored answer (sent T s)).2 0 (by omega)
        have h6C : ¬(answer.length = 2 ∧ (stored answer (sent T s)).response 0 = 0x6C) := by
          rintro ⟨htwo, heq⟩
          rw [hfirst htwo] at heq
          rw [if_pos ⟨htwo, heq⟩] at hnext
          cases hnext
        have h61 : ¬(answer.length = 2 ∧ (stored answer (sent T s)).response 0 = 0x61) := by
          rintro ⟨htwo, heq⟩
          rw [hfirst htwo] at heq
          rw [if_neg (by rw [heq]; exact fun h => absurd h.2 (by decide)), if_pos ⟨htwo, heq⟩] at hnext
          cases hnext
        simp only [if_pos hfit, if_true, bind_apply, get_apply, hlen, if_neg h6C, if_neg h61, pure_apply]
        exact ⟨hlog, fun heq => by cases heq⟩
      · simp only [if_neg hfit]
        exact hlog
  · obtain ⟨t, hturn, hapdu, hcard, hlog⟩ := transmitTurn_next hnext
    rw [hturn]
    exact ⟨hlog, fun _ => ⟨hcard, by rw [hapdu]⟩⟩

/-- Every exchange of these events is one that the command puts on the wire. -/
def OnlyPuts (T : Transport σ) (command : List UInt8) (start : σ) (events : List Event) : Prop :=
  ∀ later apdu answer earlier, events = later ++ .exchange apdu answer :: earlier →
    ∃ card, Puts T command start apdu card earlier ∧ answer = (T card apdu).1

theorem OnlyPuts.nil {command : List UInt8} {start : σ} : OnlyPuts T command start [] := by
  intro later apdu answer earlier heq
  simp at heq

theorem OnlyPuts.exchange {command apdu : List UInt8} {start card : σ} {events : List Event}
    (h : OnlyPuts T command start events) (hputs : Puts T command start apdu card events) :
    OnlyPuts T command start (.exchange apdu (T card apdu).1 :: events) := by
  intro later apdu' answer earlier heq
  cases later with
  | nil =>
      rw [List.nil_append, List.cons.injEq, Event.exchange.injEq] at heq
      obtain ⟨⟨rfl, rfl⟩, rfl⟩ := heq
      exact ⟨card, hputs, rfl⟩
  | cons event later =>
      rw [List.cons_append, List.cons.injEq] at heq
      exact h later apdu' answer earlier heq.2

theorem OnlyPuts.silent {command : List UInt8} {start : σ} {event : Event} {events : List Event}
    (h : OnlyPuts T command start events) (hevent : ∀ apdu answer, event ≠ .exchange apdu answer) :
    OnlyPuts T command start (event :: events) := by
  intro later apdu answer earlier heq
  cases later with
  | nil =>
      rw [List.nil_append, List.cons.injEq] at heq
      exact (hevent apdu answer heq.1).elim
  | cons _ later =>
      rw [List.cons_append, List.cons.injEq] at heq
      exact h later apdu answer earlier heq.2

/-- What a command logs, however its run ends. -/
theorem command_onlyPuts (T : Transport σ) (apdu : List UInt8) (fuel : Nat) (s : SEInterface σ) :
    ∃ events, (command T apdu fuel s).2.log = events ++ s.log ∧ OnlyPuts T apdu s.card events := by
  let logged : SEInterface σ → Prop := fun t => ∃ events, t.log = events ++ s.log ∧ OnlyPuts T apdu s.card events
  have hloop : Meets (transmit T) { s with apdu := apdu } (fun _ t => logged t) logged := by
    -- the exchanges so far, and the APDU that is next
    let inv : Unit → SEInterface σ → Prop := fun _ t => ∃ events, t.log = events ++ s.log ∧
      OnlyPuts T apdu s.card events ∧ Puts T apdu s.card t.apdu t.card events
    refine Meets.loop inv ?_ ?_ ?_
    · rintro _ t ⟨events, hlog, honly, _⟩
      exact ⟨events, hlog, honly⟩
    · rintro ⟨⟩ t ⟨events, hlog, honly, hputs⟩
      refine (transmitTurn_meets t).mono ?_ ?_
      · rintro turn t' ⟨hlog', hagain⟩
        rw [hlog] at hlog'
        cases turn with
        | again =>
            obtain ⟨hcard, hnext⟩ := hagain rfl
            refine ⟨_, hlog', honly.exchange hputs, ?_⟩
            rw [hcard]
            exact .next hputs hnext
        | stop => exact ⟨_, hlog', honly.exchange hputs⟩
      · intro t' hlog'
        rw [hlog] at hlog'
        exact ⟨_, hlog', honly.exchange hputs⟩
    · exact ⟨[], rfl, .nil, .first⟩
  have hcommand : Meets (command T apdu) s (fun _ t => logged t) logged := by
    refine Meets.modify_bind (hloop.bind ?_)
    rintro ok t ⟨events, hlog, honly⟩ fuel
    cases ok with
    | true =>
        refine ⟨.answered apdu (answer t) :: events, ?_, honly.silent fun _ _ heq => by cases heq⟩
        show _ :: t.log = _
        rw [hlog]
        rfl
    | false =>
        refine ⟨.unanswered apdu :: events, ?_, honly.silent fun _ _ heq => by cases heq⟩
        show _ :: t.log = _
        rw [hlog]
        rfl
  have hrun := hcommand fuel
  rcases hcase : command T apdu fuel s with ⟨outcome, t⟩
  rw [hcase] at hrun
  cases outcome <;> exact hrun

/-- **Nothing else is on the wire**: every exchange in the log of a command is one that it puts there. -/
theorem command_puts {apdu sent : List UInt8} {answer : Option (List UInt8)} {later earlier : List Event}
    {fuel : Nat} {s : SEInterface σ}
    (h : (command T apdu fuel s).2.log = later ++ .exchange sent answer :: (earlier ++ s.log)) :
    ∃ card, Puts T apdu s.card sent card earlier ∧ answer = (T card sent).1 := by
  obtain ⟨events, hlog, honly⟩ := command_onlyPuts T apdu fuel s
  rw [hlog, ← List.cons_append, ← List.append_assoc] at h
  exact honly later sent answer earlier (List.append_cancel_right h)

/-- The turns up to an APDU on the wire. -/
theorem turns_puts {command apdu : List UInt8} {card : σ} {earlier : List Event} {s : SEInterface σ}
    (h : Puts T command s.card apdu card earlier) (hcommand : s.apdu = command) :
    ∃ t, t.apdu = apdu ∧ t.card = card ∧ t.log = earlier ++ s.log ∧
      ∀ fuel count, turns (transmitTurn T) fuel (earlier.length + count) () s =
        turns (transmitTurn T) fuel count () t := by
  induction h with
  | first => exact ⟨s, hcommand, rfl, rfl, fun fuel count => by rw [List.length_nil, Nat.zero_add]⟩
  | @next apdu apdu' card earlier _ hnext ih =>
      obtain ⟨t, hapdu, hcard, hlog, hturns⟩ := ih
      rw [← hapdu, ← hcard] at hnext
      obtain ⟨t', hturn, hapdu', hcard', hlog'⟩ := transmitTurn_next hnext
      refine ⟨t', hapdu', ?_, ?_, ?_⟩
      · rw [hcard', hapdu, hcard]
      · rw [hlog', hlog, hapdu, hcard]
        rfl
      · intro fuel count
        rw [List.length_cons, Nat.add_assoc, Nat.add_comm 1 count, hturns, turns, hturn]

/-- **All of them are on the wire**: with enough fuel the log has every exchange. -/
theorem puts_command {apdu sent : List UInt8} {card : σ} {earlier : List Event} {s : SEInterface σ}
    (h : Puts T apdu s.card sent card earlier) :
    ∃ fuel later, (command T apdu fuel s).2.log =
      later ++ .exchange sent (T card sent).1 :: (earlier ++ s.log) := by
  have hputs : Puts T apdu (SEInterface.card { s with apdu := apdu }) sent card earlier := h
  obtain ⟨t, hapdu, hcard, hlog, hturns⟩ := turns_puts hputs rfl
  have hlast := transmitTurn_meets (T := T) t (earlier.length + 1)
  rw [hapdu, hcard, hlog] at hlast
  -- the log of `transmit` with this fuel
  have htransmit : ∃ outcome t', transmit T (earlier.length + 1) { s with apdu := apdu } = (outcome, t') ∧
      t'.log = .exchange sent (T card sent).1 :: (earlier ++ s.log) := by
    rw [transmit, loop, hturns, turns]
    rcases hrun : transmitTurn T () (earlier.length + 1) t with ⟨outcome, t'⟩
    rw [hrun] at hlast
    cases outcome with
    | done turn => cases turn <;> exact ⟨_, t', rfl, hlast.1⟩
    | fault => exact ⟨_, t', rfl, hlast⟩
    | spent => exact ⟨_, t', rfl, hlast⟩
  obtain ⟨outcome, t', hrun, hlog'⟩ := htransmit
  refine ⟨earlier.length + 1, ?_⟩
  rw [command, bind_apply, modify_apply]
  simp only [bind_apply, hrun]
  cases outcome with
  | done ok =>
      cases ok with
      | true => exact ⟨[.answered apdu (answer t')], by rw [← hlog']; rfl⟩
      | false => exact ⟨[.unanswered apdu], by rw [← hlog']; rfl⟩
  | fault => exact ⟨[], hlog'⟩
  | spent => exact ⟨[], hlog'⟩

end TrustOnboard.SEInterface
