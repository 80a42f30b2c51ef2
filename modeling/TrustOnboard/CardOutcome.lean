import TrustOnboard.AppletTrace

/-! How commands ended. A command ends in an answer or in a transmission that failed; the log of a program shows
the commands it issued with how each of them ended. -/

namespace TrustOnboard

open Exec

namespace SEInterface

variable {σ : Type} {T : Transport σ}

/-- The transmission of an APDU fails, after finitely many follow-ups. -/
inductive Drops (T : Transport σ) : σ → List UInt8 → σ → Prop
  | lost {card card' : σ} {apdu : List UInt8} (h : T card apdu = (none, card')) : Drops T card apdu card'
  | resend {card card' card'' : σ} {apdu : List UInt8} {le : UInt8} (h : T card apdu = (some [0x6C, le], card'))
      (hrest : Drops T card' (resendApdu apdu le) card'') : Drops T card apdu card''
  | fetch {card card' card'' : σ} {apdu : List UInt8} {le : UInt8} (h : T card apdu = (some [0x61, le], card'))
      (hrest : Drops T card' (fetchApdu apdu le) card'') : Drops T card apdu card''

/-- The outcome of an APDU after the follow-ups. -/
def Concludes (T : Transport σ) (card : σ) (apdu : List UInt8) : Option (List UInt8) → σ → Prop
  | some answer, card' => Settles T card apdu answer card'
  | none, card' => Drops T card apdu card'

theorem acceptedResult_append (data : List UInt8) : Applet.acceptedResult (some (data ++ [0x90, 0x00])) = true :=
  decide_eq_true (statusWord_ok data)

theorem Drops.iterates {card card' : σ} {apdu : List UInt8} (h : Drops T card apdu card') (s : SEInterface σ)
    (hcard : s.card = card) (hapdu : s.apdu = apdu) : ∃ s', Evals (transmit T) s false s' ∧ s'.card = card' := by
  suffices ∃ s', Iterates _ () s (.done false) s' ∧ s'.card = card' by
    obtain ⟨s', hit, hend⟩ := this
    exact ⟨s', .loop hit, hend⟩
  induction h generalizing s with
  | @lost card card' apdu h =>
      subst hcard hapdu
      refine ⟨sent T s, .stop (.of_eq fun fuel => ?_), ?_⟩
      · simp only [transmitTurn, bind_apply, transmitApdu_apply, h]
        rfl
      · simp only [sent, h]
  | @resend card card' card'' apdu le h _ ih =>
      subst hcard hapdu
      obtain ⟨t, hturn, hcard, hapdu⟩ := transmitTurn_resends h
      obtain ⟨s', hit, hend⟩ := ih t hcard hapdu
      exact ⟨s', .again hturn hit, hend⟩
  | @fetch card card' card'' apdu le h _ ih =>
      subst hcard hapdu
      obtain ⟨t, hturn, hcard, hapdu⟩ := transmitTurn_fetches h
      obtain ⟨s', hit, hend⟩ := ih t hcard hapdu
      exact ⟨s', .again hturn hit, hend⟩

theorem command_evals_of_drops {apdu : List UInt8} {card' : σ} {s : SEInterface σ} (h : Drops T s.card apdu card') :
    ∃ s', Evals (command T apdu) s false s' ∧ s'.card = card' := by
  obtain ⟨t, hrun, hcard⟩ := h.iterates { s with apdu := apdu } rfl rfl
  refine ⟨{ t with log := .unanswered apdu :: t.log }, ?_, hcard⟩
  refine .bind .modify (.bind hrun ?_)
  exact .of_eq fun _ => rfl

/-! ### Outcomes in the log -/

/-- A command with how it ended. -/
structure Concluded where
  command : List UInt8
  result : Option (List UInt8)
  deriving DecidableEq, Repr

/-- Answered `9000`. -/
def Concluded.ok (issued : Concluded) : Bool := Applet.acceptedResult issued.result

/-- The commands of a log part, newest first. -/
def outcomes (events : List Event) : List Concluded :=
  events.filterMap fun
    | .answered command answer => some ⟨command, some answer⟩
    | .unanswered command => some ⟨command, none⟩
    | _ => none

theorem outcomes_append (later earlier : List Event) : outcomes (later ++ earlier) = outcomes later ++ outcomes earlier :=
  List.filterMap_append

theorem Chain.outcomes {command apdu : List UInt8} {events : List Event} (h : Chain command apdu events) :
    outcomes events = [] := by
  induction h with
  | start => rfl
  | resend _ _ ih => exact ih
  | fetch _ _ ih => exact ih

theorem Ended.outcomes {command : List UInt8} {result : Option (List UInt8)} {events : List Event}
    (h : Ended command result events) : outcomes events = [⟨command, result⟩] := by
  obtain ⟨apdu, earlier, hchain, hevents⟩ := h
  cases result with
  | none =>
      rw [hevents]
      exact congrArg _ hchain.outcomes
  | some answer =>
      rw [hevents.2]
      exact congrArg _ hchain.outcomes

/-- The interface went on from one state to the other by these commands. -/
def Reports (s s' : SEInterface σ) (list : List Concluded) : Prop :=
  ∃ events, s'.log = events ++ s.log ∧ outcomes events = list

theorem Reports.refl (s : SEInterface σ) : Reports s s [] := ⟨[], rfl, rfl⟩

theorem Reports.unique {s s' : SEInterface σ} {list list' : List Concluded} (h : Reports s s' list)
    (h' : Reports s s' list') : list = list' := by
  obtain ⟨events, hlog, rfl⟩ := h
  obtain ⟨events', hlog', rfl⟩ := h'
  rw [List.append_cancel_right (hlog.symm.trans hlog')]

theorem Reports.trans {s₁ s₂ s₃ : SEInterface σ} {earlier later : List Concluded} (h : Reports s₁ s₂ earlier)
    (h' : Reports s₂ s₃ later) : Reports s₁ s₃ (later ++ earlier) := by
  obtain ⟨events, hlog, rfl⟩ := h
  obtain ⟨events', hlog', rfl⟩ := h'
  exact ⟨events' ++ events, by rw [hlog', hlog, List.append_assoc], outcomes_append _ _⟩

theorem Reports.of_grows {kind : Event → Prop} {s s' : SEInterface σ} (h : Grows T kind s s') :
    ∃ list, Reports s s' list := by
  obtain ⟨events, hlog, _⟩ := h
  exact ⟨outcomes events, events, hlog, rfl⟩

/-- A command ended in this outcome. -/
structure After (command : List UInt8) (result : Option (List UInt8)) (card : σ) (s s' : SEInterface σ) : Prop where
  card_eq : s'.card = card
  reports : Reports s s' [⟨command, result⟩]
  holds : ∀ answer, result = some answer → Holds s' answer

/-- A command whose outcome is known ends in it. -/
theorem command_concludes {apdu : List UInt8} {result : Option (List UInt8)} {card : σ} {s : SEInterface σ}
    (h : Concludes T s.card apdu result card) : Yields (command T apdu) s result.isSome (After apdu result card s) := by
  cases result with
  | none =>
      obtain ⟨s', hevals, hcard⟩ := command_evals_of_drops h
      obtain ⟨result, events, hended, hlog, hok, _⟩ := hevals.of_meets (command_meets T apdu s)
      cases result with
      | none => exact ⟨s', hevals, hcard, ⟨events, hlog, hended.outcomes⟩, fun _ heq => by cases heq⟩
      | some answer => cases hok
  | some answer =>
      obtain ⟨s', hevals, hcard, hholds⟩ := command_evals h
      obtain ⟨result, events, hended, hlog, hok, hanswer⟩ := hevals.of_meets (command_meets T apdu s)
      cases result with
      | none => cases hok
      | some answer' =>
          have hsame : answer' = answer := by rw [← (hanswer answer' rfl).1.answer_eq, hholds.answer_eq]
          subst hsame
          refine ⟨s', hevals, hcard, ⟨events, hlog, hended.outcomes⟩, ?_⟩
          intro answer heq
          cases heq
          exact hholds

end SEInterface

namespace Applet

open SEInterface

variable {σ : Type} {T : Transport σ} {cla : UInt8} {transmitted : UInt8 → Exec (SEInterface σ) Bool} {s : Linked σ Applet}
  {command : List UInt8} {result : Option (List UInt8)} {card : σ}

/-- A command of a selected applet ends as the interface ends it. -/
theorem whenSelected_concludes (hselected : s.obj.isSelected = true) (hattached : s.obj.attached = true)
    (h : Yields (transmitted (cla ||| s.obj.channel)) s.se result.isSome (After command result card s.se)) :
    Yields (whenSelected cla transmitted) s result.isSome
      fun s' => s'.obj = s.obj ∧ After command result card s.se s'.se := by
  obtain ⟨se, hrun, hafter⟩ := h
  refine ⟨⟨se, s.obj⟩, ?_, rfl, hafter⟩
  apply Evals.gets.bind
  rw [if_pos hselected]
  apply (Evals.check hattached).bind
  exact .zoom hrun

theorem ok_concludes (hselected : s.obj.isSelected = true) (hattached : s.obj.attached = true)
    (h : Yields (transmitted (cla ||| s.obj.channel)) s.se result.isSome (After command result card s.se)) :
    Yields (ok (whenSelected cla transmitted)) s (Applet.acceptedResult result)
      fun s' => s'.obj = s.obj ∧ After command result card s.se s'.se := by
  obtain ⟨s', hsent, hobj, hafter⟩ := whenSelected_concludes hselected hattached h
  refine ⟨s', hsent.bind (Ends.of_eq fun fuel => ?_), hobj, hafter⟩
  cases result with
  | none => rfl
  | some answer =>
      rw [Option.isSome_some, if_pos rfl, gets_apply, getStatusWord, hobj, if_pos hselected,
        (hafter.holds answer rfl).getStatusWord]
      rfl

end Applet

end TrustOnboard
