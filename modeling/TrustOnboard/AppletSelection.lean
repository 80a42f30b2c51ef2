import TrustOnboard.AppletTrace

/-! What `select` and `deselect` leave behind, for every card: the trace of their commands and the
selection state, as one inductive case for each way through the failure tree of the source. -/

namespace TrustOnboard

open Exec Linked SEInterface

/-! ### Commands of the selection -/

def openApdu : List UInt8 := [0x00, 0x70, 0x00, 0x00, 0x01]

def closeApdu (channel : UInt8) : List UInt8 := [0x00, 0x70, 0x80, channel, 0x01]

def selectApdu (cla : UInt8) (aid : List UInt8) : List UInt8 :=
  cla :: 0xA4 :: 0x04 :: 0x00 :: lowByte aid.length :: aid

/-- Answered with a status that `select` takes for success. -/
def selectedResult : Option (List UInt8) → Bool
  | some answer => Applet.selectStatusOK (statusWord answer)
  | none => false

section Commands

variable {σ : Type} (T : Transport σ)

theorem accepted_meets {apdu : List UInt8} {program : Exec (SEInterface σ) Bool}
    (h : Transmits T apdu program) (s : SEInterface σ) :
    Meets (Applet.accepted program) s
      (fun ok s' => ∃ result events, Ran T apdu s s' result events ∧ ok = Applet.acceptedResult result)
      (fun _ => True) := by
  refine .bind ((h s).mono (fun _ _ h => h) fun _ _ => trivial) ?_
  rintro ok s' ⟨result, events, hran, rfl⟩ fuel
  cases result with
  | none => exact ⟨none, events, hran, rfl⟩
  | some answer =>
      refine ⟨some answer, events, hran, ?_⟩
      show decide (SEInterface.getStatusWord s' = swOK) = decide (statusWord answer = swOK)
      rw [(hran.holds answer rfl).getStatusWord]

theorem selectAid_meets (cla : UInt8) (aid : List UInt8) (s : SEInterface σ) :
    Meets (Applet.selectAid T cla aid) s
      (fun ok s' => ∃ result events, Ran T (selectApdu cla aid) s s' result events ∧
        ok = selectedResult result)
      (fun _ => True) := by
  have hcommand : Transmits T (selectApdu cla aid) (SEInterface.transmitCase3 T cla .select
      SCP1.SELECTByDFName (SCP2.SELECTFCITemplate ||| SCP2.SELECTFirstOrOnly) aid) :=
    fill_transmits (command_transmits T _)
  refine .bind ((hcommand s).mono (fun _ _ h => h) fun _ _ => trivial) ?_
  rintro ok s' ⟨result, events, hran, rfl⟩ fuel
  cases result with
  | none => exact ⟨none, events, hran, rfl⟩
  | some answer =>
      refine ⟨some answer, events, hran, ?_⟩
      show Applet.selectStatusOK (SEInterface.getStatusWord s') = selectedResult (some answer)
      rw [(hran.holds answer rfl).getStatusWord, selectedResult]

end Commands

namespace Applet

/-! ### Traces -/

/-- What `deselect` does to an applet, with the events it logs. -/
inductive DeselectTrace (applet : Applet) : List Event → Applet → Prop
  | detached (hattached : applet.attached = false) : DeselectTrace applet [] applet
  | idle (hattached : applet.attached = true)
      (hidle : applet.isSelected = false ∨ applet.isBasic = true) :
      DeselectTrace applet [.note (.deselecting applet.aid)] { applet with isSelected := false }
  | close {result : Option (List UInt8)} {events : List Event} (hattached : applet.attached = true)
      (hselected : applet.isSelected = true) (hlogical : applet.isBasic = false)
      (hclose : Ended (closeApdu applet.channel) result events) :
      DeselectTrace applet (events ++ [.note (.deselecting applet.aid)])
        { applet with isSelected := !acceptedResult result }

/-- What happens on the channel that was opened. -/
inductive OnChannel (applet : Applet) : Bool → List Event → Applet → Prop
  | ok {result : Option (List UInt8)} {events : List Event}
      (hselect : Ended (selectApdu (0x00 ||| applet.channel) applet.aid) result events)
      (hok : selectedResult result = true) :
      OnChannel applet true (.note (.selected applet.aid applet.channel) :: events)
        { applet with isSelected := true, isBasic := false }
  | refused {result closed : Option (List UInt8)} {events events' : List Event}
      (hselect : Ended (selectApdu (0x00 ||| applet.channel) applet.aid) result events)
      (hno : selectedResult result = false) (hclose : Ended (closeApdu applet.channel) closed events') :
      OnChannel applet false (events' ++ events) applet

/-- What the second half of `select` does: the flag is `isBasic`, the next one the result. -/
inductive SelectHalf (applet : Applet) : Bool → Bool → List Event → Applet → Prop
  | basicOk {result : Option (List UInt8)} {events : List Event}
      (hselect : Ended (selectApdu 0x00 applet.aid) result events) (hok : selectedResult result = true) :
      SelectHalf applet true true (.note (.selected applet.aid 0) :: events)
        { applet with channel := 0, isSelected := true, isBasic := true }
  | basicRefused {result : Option (List UInt8)} {events : List Event}
      (hselect : Ended (selectApdu 0x00 applet.aid) result events) (hno : selectedResult result = false) :
      SelectHalf applet true false events { applet with channel := 0 }
  | openRefused {result : Option (List UInt8)} {events : List Event}
      (hopen : Ended openApdu result events) (hno : acceptedResult result = false) :
      SelectHalf applet false false events applet
  | logical {ok : Bool} {answer : List UInt8} {events events' : List Event} {channel : UInt8} {last : Applet}
      (hopen : Ended openApdu (some answer) events) (hsw : statusWord answer = swOK)
      (hlen : (responseData answer).length ≤ 1)
      (hchannel : channel = (responseData answer).headD applet.channel)
      (hselect : OnChannel { applet with channel } ok events' last) :
      SelectHalf applet false ok (events' ++ events) last

/-- What `select` does. -/
inductive SelectTrace (applet : Applet) (isBasic : Bool) : Bool → List Event → Applet → Prop
  | detached (hattached : applet.attached = false) : SelectTrace applet isBasic false [] applet
  | attached {ok : Bool} {first second : List Event} {middle last : Applet}
      (hattached : applet.attached = true) (hdeselect : DeselectTrace applet first middle)
      (hhalf : SelectHalf middle isBasic ok second last) :
      SelectTrace applet isBasic ok (second ++ (first ++ [.note (.selecting applet.aid)])) last

section Traces

variable {applet last : Applet} {isBasic ok : Bool} {events : List Event}

/-- Selection changes neither the AID nor the interface. -/
theorem DeselectTrace.identity (h : DeselectTrace applet events last) :
    last.aid = applet.aid ∧ last.attached = applet.attached := by
  cases h <;> exact ⟨rfl, rfl⟩

theorem OnChannel.identity (h : OnChannel applet ok events last) :
    last.aid = applet.aid ∧ last.attached = applet.attached := by
  cases h <;> exact ⟨rfl, rfl⟩

theorem SelectHalf.identity (h : SelectHalf applet isBasic ok events last) :
    last.aid = applet.aid ∧ last.attached = applet.attached := by
  cases h with
  | basicOk | basicRefused | openRefused => exact ⟨rfl, rfl⟩
  | logical _ _ _ _ hselect => exact hselect.identity

theorem SelectTrace.identity (h : SelectTrace applet isBasic ok events last) :
    last.aid = applet.aid ∧ last.attached = applet.attached := by
  cases h with
  | detached => exact ⟨rfl, rfl⟩
  | attached _ hdeselect hhalf =>
      exact ⟨hhalf.identity.1.trans hdeselect.identity.1, hhalf.identity.2.trans hdeselect.identity.2⟩

/-- A selection that succeeds ends with its note. -/
theorem SelectHalf.selected (h : SelectHalf applet isBasic true events last) :
    last.isSelected = true ∧ ∃ rest, events = .note (.selected applet.aid last.channel) :: rest := by
  cases h with
  | basicOk => exact ⟨rfl, _, rfl⟩
  | logical _ _ _ _ hselect =>
      cases hselect with
      | ok => exact ⟨rfl, _, rfl⟩

theorem SelectTrace.selected (h : SelectTrace applet isBasic true events last) :
    last.isSelected = true ∧ ∃ rest, events = .note (.selected applet.aid last.channel) :: rest := by
  cases h with
  | attached _ hdeselect hhalf =>
      obtain ⟨hselected, rest, hevents⟩ := hhalf.selected
      rw [hdeselect.identity.1] at hevents
      rw [hevents]
      exact ⟨hselected, _, rfl⟩

end Traces

/-! ### The functions follow their traces -/

variable {σ : Type} (T : Transport σ)

/-- From `s` to `s'` the log grew by `events` and the card went through them. -/
def Moves (s s' : Linked σ Applet) (events : List Event) : Prop :=
  s'.se.log = events ++ s.se.log ∧ Replay T s.se.card events s'.se.card

theorem deselect_meets (s : Linked σ Applet) :
    Meets (deselect T) s
      (fun ok s' => ∃ events, DeselectTrace s.obj events s'.obj ∧ Moves T s s' events ∧
        ok = !s'.obj.isSelected)
      (fun _ => True) := by
  have hnote : Replay T s.se.card [.note (.deselecting s.obj.aid)] s.se.card :=
    .silent .nil fun _ _ heq => by cases heq
  refine .gets_bind (.ite (fun hattached => ?_) fun hattached => ?_)
  · refine .modify_bind (.ite (fun hselected => ?_) fun hselected => ?_)
    · rw [Bool.and_eq_true, Bool.not_eq_true'] at hselected
      refine .zoom_bind (accepted_meets T (command_transmits T (closeApdu s.obj.channel)) _) (fun _ _ => trivial) ?_
      rintro ok t ⟨result, events, ⟨hclose, hlog, hplay, _⟩, rfl⟩ fuel
      have htrace := DeselectTrace.close hattached hselected.1 hselected.2 hclose
      have hmoves : ∀ obj, Moves T s ⟨t, obj⟩ (events ++ [.note (.deselecting s.obj.aid)]) := by
        intro obj
        refine ⟨?_, hnote.append hplay⟩
        rw [hlog, List.append_assoc]
        rfl
      cases hresult : acceptedResult result with
      | true =>
          rw [hresult] at htrace
          exact ⟨_, htrace, hmoves _, rfl⟩
      | false =>
          rw [hresult, Bool.not_false, ← hselected.1] at htrace
          exact ⟨_, htrace, hmoves _, rfl⟩
    · refine .ite (fun hbasic => ?_) fun hbasic => ?_
      · rw [Bool.and_eq_true] at hbasic
        exact fun fuel => ⟨_, .idle hattached (.inr hbasic.2), ⟨rfl, hnote⟩, rfl⟩
      · have hidle : s.obj.isSelected = false := by
          cases hsel : s.obj.isSelected with
          | false => rfl
          | true =>
              rw [hsel, Bool.true_and, Bool.not_eq_true] at hbasic
              rw [hsel, hbasic] at hselected
              exact absurd rfl hselected
        have htrace := DeselectTrace.idle hattached (.inl hidle)
        rw [← hidle] at htrace
        exact fun fuel => ⟨_, htrace, ⟨rfl, hnote⟩, rfl⟩
  · rw [Bool.not_eq_true] at hattached
    exact fun fuel => ⟨[], .detached hattached, ⟨rfl, .nil⟩, rfl⟩

theorem selectBasic_meets (s : Linked σ Applet) :
    Meets (selectBasic T) s
      (fun ok s' => ∃ events, SelectHalf s.obj true ok events s'.obj ∧ Moves T s s' events)
      (fun _ => True) := by
  refine .modify_bind (.gets_bind ?_)
  refine .zoom_bind (selectAid_meets T 0x00 s.obj.aid _) (fun _ _ => trivial) ?_
  rintro ok t ⟨result, events, ⟨hselect, hlog, hplay, _⟩, rfl⟩ fuel
  cases hresult : selectedResult result with
  | true =>
      refine ⟨_, .basicOk hselect hresult, ?_, .silent hplay fun _ _ heq => by cases heq⟩
      show Event.note _ :: t.log = _
      rw [hlog]
      rfl
  | false => exact ⟨_, .basicRefused hselect hresult, hlog, hplay⟩

theorem selectOnChannel_meets (s : Linked σ Applet) :
    Meets (selectOnChannel T) s
      (fun ok s' => ∃ events, OnChannel s.obj ok events s'.obj ∧ Moves T s s' events)
      (fun _ => True) := by
  refine .gets_bind (.zoom_bind (selectAid_meets T (0x00 ||| s.obj.channel) s.obj.aid s.se)
    (fun _ _ => trivial) ?_)
  rintro ok t ⟨result, events, ⟨hselect, hlog, hplay, _⟩, rfl⟩
  cases hresult : selectedResult result with
  | true =>
      refine fun fuel => ⟨_, .ok hselect hresult, ?_, .silent hplay fun _ _ heq => by cases heq⟩
      show Event.note _ :: t.log = _
      rw [hlog]
      rfl
  | false =>
      rw [if_neg Bool.false_ne_true]
      refine .zoom_bind (command_transmits T (closeApdu s.obj.channel) t) (fun _ _ => trivial) ?_
      rintro ok u ⟨closed, events', ⟨hclose, hlog', hplay', _⟩, _⟩ fuel
      refine ⟨_, .refused hselect hresult hclose, ?_, hplay.append hplay'⟩
      show u.log = _
      rw [hlog', hlog, List.append_assoc]

theorem selectLogical_meets (s : Linked σ Applet) :
    Meets (selectLogical T) s
      (fun ok s' => ∃ events, SelectHalf s.obj false ok events s'.obj ∧ Moves T s s' events)
      (fun _ => True) := by
  refine .zoom_bind (accepted_meets T (command_transmits T openApdu) _) (fun _ _ => trivial) ?_
  rintro ok t ⟨result, events, ⟨hopen, hlog, hplay, hholds⟩, rfl⟩
  cases hresult : acceptedResult result with
  | false => exact fun fuel => ⟨_, .openRefused hopen hresult, hlog, hplay⟩
  | true =>
      obtain ⟨answer, rfl, hsw⟩ := answer_of_accepted hresult
      rw [if_pos rfl]
      refine .gets_bind (.check_bind (fun hlen => ?_) fun _ => trivial)
      change (SEInterface.getResponse t).length ≤ 1 at hlen
      have hdata := (hholds answer rfl).getResponse
      rw [hdata] at hlen
      refine .modify_bind ((selectOnChannel_meets T _).mono ?_ fun _ _ => trivial)
      rintro ok s' ⟨events', htrace, hlog', hplay'⟩
      have hmoves : Moves T s s' (events' ++ events) := by
        refine ⟨?_, hplay.append hplay'⟩
        change s'.se.log = events' ++ t.log at hlog'
        rw [hlog', hlog, List.append_assoc]
        rfl
      change OnChannel { s.obj with channel := (SEInterface.getResponse t).headD s.obj.channel } _ _ _ at htrace
      rw [hdata] at htrace
      exact ⟨_, .logical hopen hsw hlen rfl htrace, hmoves⟩

theorem select_meets (isBasic : Bool) (s : Linked σ Applet) :
    Meets (select T isBasic) s
      (fun ok s' => ∃ events, SelectTrace s.obj isBasic ok events s'.obj ∧ Moves T s s' events)
      (fun _ => True) := by
  refine .gets_bind (.ite (fun hattached => ?_) fun hattached => ?_)
  · have hnote : Replay T s.se.card [.note (.selecting s.obj.aid)] s.se.card :=
      .silent .nil fun _ _ heq => by cases heq
    refine .modify_bind (.bind (deselect_meets T _) ?_)
    rintro _ t ⟨first, hdeselect, ⟨hlog, hplay⟩, _⟩
    have hhalf : Meets (if isBasic = true then selectBasic T else selectLogical T) t
        (fun ok s' => ∃ events, SelectHalf t.obj isBasic ok events s'.obj ∧ Moves T t s' events)
        (fun _ => True) := by
      cases isBasic with
      | true => exact selectBasic_meets T t
      | false => exact selectLogical_meets T t
    refine hhalf.mono ?_ fun _ _ => trivial
    rintro ok s' ⟨second, hhalf, hlog', hplay'⟩
    refine ⟨_, .attached hattached hdeselect hhalf, ?_, (hnote.append hplay).append hplay'⟩
    rw [hlog', hlog, List.append_assoc, List.append_assoc]
    rfl
  · rw [Bool.not_eq_true] at hattached
    exact fun fuel => ⟨[], .detached hattached, rfl, .nil⟩

end Applet

end TrustOnboard
