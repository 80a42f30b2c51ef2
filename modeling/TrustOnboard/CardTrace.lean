import TrustOnboard.CardExchange

/-! The log as the trace of the card. `Replay` runs the card through the exchanges of a log part, so
that what the card has become can be read off the log; `Grows` says of what kind the events are that
a program adds. A program is only ever described by the commands it may issue: every fact about
traces further up follows from the kinds of the events. -/

namespace TrustOnboard

open Exec

namespace SEInterface

variable {σ : Type} {T : Transport σ}

/-- The card's way from `start` through a log part, newest event first. -/
inductive Replay (T : Transport σ) (start : σ) : List Event → σ → Prop
  | nil : Replay T start [] start
  | exchange {events : List Event} {card : σ} (apdu : List UInt8) (h : Replay T start events card) :
      Replay T start (.exchange apdu (T card apdu).1 :: events) (T card apdu).2
  | silent {events : List Event} {card : σ} {event : Event} (h : Replay T start events card)
      (hevent : ∀ apdu answer, event ≠ .exchange apdu answer) : Replay T start (event :: events) card

theorem Replay.append {first second : List Event} {start middle card : σ}
    (h : Replay T start first middle) (h' : Replay T middle second card) :
    Replay T start (second ++ first) card := by
  induction h' with
  | nil => exact h
  | exchange apdu _ ih => exact .exchange apdu ih
  | silent _ hevent ih => exact .silent ih hevent

theorem Replay.exchange_inv {start card' : σ} {apdu : List UInt8} {answer : Option (List UInt8)}
    {events : List Event} (h : Replay T start (.exchange apdu answer :: events) card') :
    ∃ card, Replay T start events card ∧ answer = (T card apdu).1 ∧ card' = (T card apdu).2 := by
  cases h with
  | exchange _ h => exact ⟨_, h, rfl, rfl⟩
  | silent _ hevent => exact (hevent _ _ rfl).elim

theorem Replay.silent_inv {start card' : σ} {event : Event} {events : List Event}
    (h : Replay T start (event :: events) card') (hevent : ∀ apdu answer, event ≠ .exchange apdu answer) :
    Replay T start events card' := by
  cases h with
  | exchange => exact (hevent _ _ rfl).elim
  | silent h => exact h

theorem Replay.nil_inv {start card : σ} (h : Replay T start [] card) : card = start := by
  cases h
  rfl

theorem Replay.note_inv {start card : σ} {n : Note} (h : Replay T start [.note n] card) : card = start := by
  exact (h.silent_inv fun _ _ heq => by cases heq).nil_inv

theorem Replay.append_inv {first second : List Event} {start card : σ}
    (h : Replay T start (second ++ first) card) :
    ∃ middle, Replay T start first middle ∧ Replay T middle second card := by
  generalize hevents : second ++ first = events at h
  induction h generalizing second with
  | nil =>
      obtain ⟨rfl, rfl⟩ := List.append_eq_nil_iff.mp hevents
      exact ⟨start, .nil, .nil⟩
  | exchange apdu h ih =>
      cases second with
      | nil =>
          rw [List.nil_append] at hevents
          rw [hevents]
          exact ⟨_, .exchange apdu h, .nil⟩
      | cons event second =>
          obtain ⟨rfl, hrest⟩ := List.cons.inj hevents
          obtain ⟨middle, hfirst, hsecond⟩ := ih hrest
          exact ⟨middle, hfirst, .exchange apdu hsecond⟩
  | silent h hevent ih =>
      cases second with
      | nil =>
          rw [List.nil_append] at hevents
          rw [hevents]
          exact ⟨_, .silent h hevent, .nil⟩
      | cons event second =>
          obtain ⟨rfl, hrest⟩ := List.cons.inj hevents
          obtain ⟨middle, hfirst, hsecond⟩ := ih hrest
          exact ⟨middle, hfirst, .silent hsecond hevent⟩

/-- What the exchanges of a log part do to an observation of the card. -/
theorem Replay.keeps {α : Type} (observe : σ → α) {events : List Event} {start card : σ}
    (h : Replay T start events card)
    (hkeep : ∀ apdu answer, .exchange apdu answer ∈ events →
      ∀ card, observe (T card apdu).2 = observe card) :
    observe card = observe start := by
  induction h with
  | nil => rfl
  | exchange apdu _ ih =>
      rw [hkeep apdu _ (.head _)]
      exact ih fun apdu answer hmem => hkeep apdu answer (.tail _ hmem)
  | silent _ _ ih => exact ih fun apdu answer hmem => hkeep apdu answer (.tail _ hmem)

/-- The log grew by events of this kind, and the card went through their exchanges. -/
def Grows (T : Transport σ) (kind : Event → Prop) (s s' : SEInterface σ) : Prop :=
  ∃ events, s'.log = events ++ s.log ∧ Replay T s.card events s'.card ∧ ∀ event ∈ events, kind event

instance (kind : Event → Prop) : IsPreorder (SEInterface σ) (Grows T kind) where
  refl _ := ⟨[], rfl, .nil, fun _ hmem => by cases hmem⟩
  trans := by
    rintro a b c ⟨first, hlog, hplay, hkind⟩ ⟨second, hlog', hplay', hkind'⟩
    refine ⟨second ++ first, ?_, hplay.append hplay', ?_⟩
    · rw [hlog', hlog, List.append_assoc]
    · intro event hmem
      rcases List.mem_append.mp hmem with hmem | hmem
      · exact hkind' event hmem
      · exact hkind event hmem

theorem Grows.mono {kind kind' : Event → Prop} {s s' : SEInterface σ} (h : Grows T kind s s')
    (hle : ∀ event, kind event → kind' event) : Grows T kind' s s' := by
  obtain ⟨events, hlog, hplay, hkind⟩ := h
  exact ⟨events, hlog, hplay, fun event hmem => hle event (hkind event hmem)⟩

theorem silent_grows {kind : Event → Prop} {event : Event} (hkind : kind event)
    (hevent : ∀ apdu answer, event ≠ .exchange apdu answer) (s : SEInterface σ) :
    Grows T kind s { s with log := event :: s.log } := by
  refine ⟨[event], rfl, .silent .nil hevent, ?_⟩
  intro other hmem
  rw [List.mem_singleton.mp hmem]
  exact hkind

theorem note_grows {kind : Event → Prop} {n : Note} (hkind : kind (.note n)) (s : SEInterface σ) :
    Grows T kind s { s with log := .note n :: s.log } :=
  silent_grows hkind (fun _ _ heq => by cases heq) s

theorem logEvent_grows {kind : Event → Prop} {event : Event} (hkind : kind event)
    (hevent : ∀ apdu answer, event ≠ .exchange apdu answer) :
    Stays (Grows T kind) (logEvent event : Exec (SEInterface σ) Unit) :=
  .modify (silent_grows hkind hevent)

/-! ### One command -/

/-- The events of a command. -/
def OfCommand (command : List UInt8) : Event → Prop
  | .exchange apdu _ => FollowUp command apdu
  | .answered apdu _ => apdu = command
  | .unanswered apdu => apdu = command
  | .note _ => False

theorem FollowedUp.ofCommand {command : List UInt8} {event : Event} (h : FollowedUp command event) :
    OfCommand command event := by
  obtain ⟨apdu, answer, rfl, hform, _⟩ := h
  exact hform

theorem Chain.ofCommand {command apdu : List UInt8} {events : List Event} (h : Chain command apdu events) :
    ∀ event ∈ events, OfCommand command event :=
  fun event hmem => (h.followedUp event hmem).ofCommand

theorem Underway.ofCommand {command : List UInt8} {events : List Event} (h : Underway command events) :
    ∀ event ∈ events, OfCommand command event := by
  cases h with
  | waiting h => exact h.ofCommand
  | last answer h =>
      rw [List.forall_mem_cons]
      exact ⟨h.followUp, h.ofCommand⟩

theorem Ended.ofCommand {command : List UInt8} {result : Option (List UInt8)} {events : List Event}
    (h : Ended command result events) : ∀ event ∈ events, OfCommand command event := by
  obtain ⟨apdu, earlier, hchain, hevents⟩ := h
  cases result with
  | none =>
      rw [hevents, List.forall_mem_cons, List.forall_mem_cons]
      exact ⟨rfl, hchain.followUp, hchain.ofCommand⟩
  | some answer =>
      rw [hevents.2, List.forall_mem_cons, List.forall_mem_cons]
      exact ⟨rfl, hchain.followUp, hchain.ofCommand⟩

theorem transmitApdu_replays (T : Transport σ) : Stays (Grows T fun _ => True) (transmitApdu T) := by
  intro fuel s
  have hsent : Replay T s.card [.exchange s.apdu (T s.card s.apdu).1] (T s.card s.apdu).2 :=
    .exchange s.apdu .nil
  rw [transmitApdu_apply]
  cases hanswer : (T s.card s.apdu).1 with
  | none => exact ⟨_, rfl, hsent, fun _ _ => trivial⟩
  | some answer =>
      by_cases hfit : answer.length ≤ apduResponseSize
      · simp only [if_pos hfit]
        exact ⟨_, rfl, hsent, fun _ _ => trivial⟩
      · simp only [if_neg hfit]
        exact ⟨_, rfl, hsent, fun _ _ => trivial⟩

theorem command_replays (T : Transport σ) (apdu : List UInt8) :
    Stays (Grows T fun _ => True) (command T apdu) := by
  have hsame : ∀ s s' : SEInterface σ, s'.log = s.log → s'.card = s.card → Grows T (fun _ => True) s s' := by
    intro s s' hlog hcard
    exact ⟨[], hlog, by rw [hcard]; exact .nil, fun _ hmem => by cases hmem⟩
  have htransmit : Stays (Grows T fun _ => True) (transmit T) := by
    refine .loop (fun _ => .bind (transmitApdu_replays T) fun ok => .ite ?_ (.pure _)) ()
    refine .bind .get fun s => .ite ?_ (.ite ?_ (.pure _))
    · exact .bind (.modify fun s => hsame _ _ rfl rfl) fun _ => .pure _
    · exact .bind (.modify fun s => hsame _ _ rfl rfl) fun _ => .pure _
  refine .bind (.modify fun s => hsame _ _ rfl rfl) fun _ => .bind htransmit fun ok => .ite ?_ ?_
  · refine .bind (.gets _) fun response => .bind (logEvent_grows trivial ?_) fun _ => .pure _
    exact fun _ _ heq => by cases heq
  · exact .bind (logEvent_grows trivial fun _ _ heq => by cases heq) fun _ => .pure _

/-- A command ran to its end: what it logged, where it left the card and, if it was answered, what
the buffer holds. -/
structure Ran (T : Transport σ) (apdu : List UInt8) (s s' : SEInterface σ) (result : Option (List UInt8))
    (events : List Event) : Prop where
  ended : Ended apdu result events
  log_eq : s'.log = events ++ s.log
  replay : Replay T s.card events s'.card
  holds : ∀ answer, result = some answer → Holds s' answer

/-- A command was cut: what it has logged. -/
def Cut (T : Transport σ) (apdu : List UInt8) (s s' : SEInterface σ) : Prop :=
  ∃ events, Underway apdu events ∧ s'.log = events ++ s.log ∧ Replay T s.card events s'.card

/-- The program transmits this command and returns whether it was answered. -/
def Transmits (T : Transport σ) (apdu : List UInt8) (program : Exec (SEInterface σ) Bool) : Prop :=
  ∀ s, Meets program s (fun ok s' => ∃ result events, Ran T apdu s s' result events ∧ ok = result.isSome)
    (Cut T apdu s)

/-- **One command, for every card.** -/
theorem command_transmits (T : Transport σ) (apdu : List UInt8) : Transmits T apdu (command T apdu) := by
  intro s
  refine ((command_meets T apdu s).and_stays (command_replays T apdu)).mono ?_ ?_
  · rintro ok s' ⟨⟨result, events, hended, hlog, hok, hanswer⟩, events', hlog', hplay, _⟩
    have heq : events' = events := List.append_cancel_right (hlog'.symm.trans hlog)
    rw [heq] at hplay
    exact ⟨result, events, ⟨hended, hlog, hplay, fun answer h => (hanswer answer h).1⟩, hok⟩
  · rintro s' ⟨⟨events, hunderway, hlog⟩, events', hlog', hplay, _⟩
    have heq : events' = events := List.append_cancel_right (hlog'.symm.trans hlog)
    rw [heq] at hplay
    exact ⟨events, hunderway, hlog, hplay⟩

/-- Nothing is followed up if the first answer is not. -/
theorem Chain.immediate {command apdu : List UInt8} {events : List Event} {card card' : σ}
    (h : Chain command apdu events) (hplay : Replay T card events card')
    (hfirst : ∀ answer, (T card command).1 = some answer → ¬Bare answer) :
    events = [] ∧ apdu = command ∧ card' = card := by
  induction h generalizing card' with
  | start =>
      cases hplay
      exact ⟨rfl, rfl, rfl⟩
  | resend _ hbare ih =>
      obtain ⟨middle, hplay, hanswer, _⟩ := hplay.exchange_inv
      obtain ⟨_, rfl, rfl⟩ := ih hplay
      exact (hfirst _ hanswer.symm hbare).elim
  | fetch _ hbare ih =>
      obtain ⟨middle, hplay, hanswer, _⟩ := hplay.exchange_inv
      obtain ⟨_, rfl, rfl⟩ := ih hplay
      exact (hfirst _ hanswer.symm hbare).elim

/-- A command whose first answer is not followed up ends with that answer. -/
theorem Ended.immediate {command : List UInt8} {result : Option (List UInt8)} {events : List Event}
    {card card' : σ} (h : Ended command result events) (hplay : Replay T card events card')
    (hfirst : ∀ answer, (T card command).1 = some answer → ¬Bare answer) :
    result = (T card command).1 ∧ card' = (T card command).2 := by
  obtain ⟨apdu, earlier, hchain, hevents⟩ := h
  obtain ⟨event, hevent, hplay⟩ : ∃ event, (∀ a r, event ≠ .exchange a r) ∧
      Replay T card (event :: .exchange apdu result :: earlier) card' := by
    cases result with
    | none =>
        rw [hevents] at hplay
        exact ⟨_, fun _ _ heq => (by cases heq), hplay⟩
    | some answer =>
        rw [hevents.2] at hplay
        exact ⟨_, fun _ _ heq => (by cases heq), hplay⟩
  obtain ⟨middle, hplay, hresult, hcard⟩ := (hplay.silent_inv hevent).exchange_inv
  obtain ⟨_, rfl, rfl⟩ := hchain.immediate hplay hfirst
  exact ⟨hresult, hcard⟩

/-- The two forms of `transmit` with data fill `_apdu` first. -/
theorem fill_transmits {T : Transport σ} {apdu copied : List UInt8} {program : Exec (SEInterface σ) Bool}
    (h : Transmits T apdu program) : Transmits T apdu (fill copied >>= fun _ => program) := by
  intro s
  have hfill : Meets (fill copied) s (fun _ s' => s' = { s with apdu := copied })
      (fun s' => s' = { s with apdu := copied }) := by
    refine .modify_bind fun fuel => ?_
    by_cases hfits : copied.length ≤ apduSize
    · rw [check_pos hfits]
    · rw [check_neg hfits]
  refine (hfill.mono (fun _ _ h => h) ?_).bind ?_
  · rintro s' rfl
    exact ⟨[], .waiting .start, rfl, .nil⟩
  · rintro _ s' rfl
    refine (h _).mono ?_ fun _ hcut => hcut
    rintro ok s' ⟨result, events, hran, hok⟩
    exact ⟨result, events, ⟨hran.ended, hran.log_eq, hran.replay, hran.holds⟩, hok⟩

theorem fill_grows {kind : Event → Prop} (copied : List UInt8) :
    Stays (Grows T kind) (fill copied : Exec (SEInterface σ) Unit) :=
  .bind (.modify fun s => ⟨[], rfl, .nil, fun _ hmem => by cases hmem⟩) fun _ => .check _

theorem command_grows {kind : Event → Prop} {apdu : List UInt8}
    (hkind : ∀ event, OfCommand apdu event → kind event) : Stays (Grows T kind) (command T apdu) := by
  intro fuel s
  have hspec := command_transmits T apdu s fuel
  rcases hrun : command T apdu fuel s with ⟨outcome, s'⟩
  rw [hrun] at hspec
  cases outcome with
  | done ok =>
      obtain ⟨result, events, hran, _⟩ := hspec
      exact ⟨events, hran.log_eq, hran.replay, fun event hmem => hkind event (hran.ended.ofCommand event hmem)⟩
  | fault =>
      obtain ⟨events, hunderway, hlog, hplay⟩ := hspec
      exact ⟨events, hlog, hplay, fun event hmem => hkind event (hunderway.ofCommand event hmem)⟩
  | spent =>
      obtain ⟨events, hunderway, hlog, hplay⟩ := hspec
      exact ⟨events, hlog, hplay, fun event hmem => hkind event (hunderway.ofCommand event hmem)⟩

/-! ### Commands in a log -/

/-- The commands of a log with what they ended in, newest first. -/
def commandsOf : List Event → List (List UInt8 × Option (List UInt8))
  | [] => []
  | .answered command answer :: earlier => (command, some answer) :: commandsOf earlier
  | .unanswered command :: earlier => (command, none) :: commandsOf earlier
  | .exchange _ _ :: earlier => commandsOf earlier
  | .note _ :: earlier => commandsOf earlier

theorem commandsOf_append (later earlier : List Event) :
    commandsOf (later ++ earlier) = commandsOf later ++ commandsOf earlier := by
  induction later with
  | nil => rfl
  | cons event later ih => cases event <;> simp [commandsOf, ih]

theorem Chain.commandsOf {command apdu : List UInt8} {events : List Event} (h : Chain command apdu events) :
    commandsOf events = [] := by
  induction h with
  | start => rfl
  | resend _ _ ih => exact ih
  | fetch _ _ ih => exact ih

theorem Ended.commandsOf {command : List UInt8} {result : Option (List UInt8)} {events : List Event}
    (h : Ended command result events) : commandsOf events = [(command, result)] := by
  obtain ⟨apdu, earlier, hchain, hevents⟩ := h
  have hnone := Chain.commandsOf hchain
  cases result with
  | none =>
      rw [hevents]
      simp [SEInterface.commandsOf, hnone]
  | some answer =>
      rw [hevents.2]
      simp [SEInterface.commandsOf, hnone]

/-! ### Commands of a channel -/

/-- A command with one of these instructions whose class byte addresses the channel. -/
def Issued (ins : SCIns → Prop) (channel : UInt8) (command : List UInt8) : Prop :=
  ∃ cla i rest, (cla = 0x00 ∨ cla = 0x10) ∧ ins i ∧ 2 ≤ rest.length ∧
    command = (cla ||| channel) :: i.code :: rest

/-- The events of such commands, and notes of these kinds. -/
def OfChannel (ins : SCIns → Prop) (notes : Note → Prop) (channel : UInt8) : Event → Prop
  | .exchange apdu _ => ∃ command, Issued ins channel command ∧ FollowUp command apdu
  | .answered command _ => Issued ins channel command
  | .unanswered command => Issued ins channel command
  | .note n => notes n

section Channel

variable {ins : SCIns → Prop} {notes : Note → Prop} {channel cla : UInt8} {i : SCIns}

theorem OfCommand.ofChannel {command : List UInt8} (h : Issued ins channel command) (event : Event)
    (hevent : OfCommand command event) : OfChannel ins notes channel event := by
  cases event with
  | exchange apdu answer => exact ⟨command, h, hevent⟩
  | answered apdu answer =>
      cases hevent
      exact h
  | unanswered apdu =>
      cases hevent
      exact h
  | note n => cases hevent

theorem OfChannel.mono {ins' : SCIns → Prop} {notes' : Note → Prop} (hins : ∀ i, ins i → ins' i)
    (hnotes : ∀ n, notes n → notes' n) (event : Event) (h : OfChannel ins notes channel event) :
    OfChannel ins' notes' channel event := by
  have hissued : ∀ command, Issued ins channel command → Issued ins' channel command := by
    rintro command ⟨cla, i, rest, hcla, hi, hrest⟩
    exact ⟨cla, i, rest, hcla, hins i hi, hrest⟩
  cases event with
  | exchange apdu answer =>
      obtain ⟨command, hcommand, hform⟩ := h
      exact ⟨command, hissued command hcommand, hform⟩
  | answered command answer => exact hissued command h
  | unanswered command => exact hissued command h
  | note n => exact hnotes n h

theorem issued_grows (hcla : cla = 0x00 ∨ cla = 0x10) (hins : ins i) {rest : List UInt8}
    (hrest : 2 ≤ rest.length) :
    Stays (Grows T (OfChannel ins notes channel)) (command T ((cla ||| channel) :: i.code :: rest)) :=
  command_grows (OfCommand.ofChannel ⟨cla, i, rest, hcla, hins, hrest, rfl⟩)

theorem transmitCase1_grows (hcla : cla = 0x00 ∨ cla = 0x10) (hins : ins i) (p1 p2 : UInt8) :
    Stays (Grows T (OfChannel ins notes channel)) (transmitCase1 T (cla ||| channel) i p1 p2) :=
  issued_grows hcla hins (by simp)

theorem transmitCase2_grows (hcla : cla = 0x00 ∨ cla = 0x10) (hins : ins i) (p1 p2 le : UInt8) :
    Stays (Grows T (OfChannel ins notes channel)) (transmitCase2 T (cla ||| channel) i p1 p2 le) :=
  issued_grows hcla hins (by simp)

theorem transmitCase3_grows (hcla : cla = 0x00 ∨ cla = 0x10) (hins : ins i) (p1 p2 : UInt8)
    (data : List UInt8) :
    Stays (Grows T (OfChannel ins notes channel)) (transmitCase3 T (cla ||| channel) i p1 p2 data) :=
  .bind (fill_grows _) fun _ => issued_grows hcla hins (by simp)

theorem transmitCase4_grows (hcla : cla = 0x00 ∨ cla = 0x10) (hins : ins i) (p1 p2 : UInt8)
    (data : List UInt8) (le : UInt8) :
    Stays (Grows T (OfChannel ins notes channel)) (transmitCase4 T (cla ||| channel) i p1 p2 data le) :=
  .bind (fill_grows _) fun _ => issued_grows hcla hins (by simp)

/-- What is on the wire for commands of a channel: the instruction is one of theirs, in the class of
the channel, or GET RESPONSE. -/
theorem OfChannel.exchange_ins {apdu : List UInt8} {answer : Option (List UInt8)}
    (h : OfChannel ins notes channel (.exchange apdu answer)) :
    (∃ cla i, (cla = 0x00 ∨ cla = 0x10) ∧ ins i ∧ insOf apdu = i.code ∧ apdu.getD 0 0 = cla ||| channel) ∨
      insOf apdu = SCIns.getResponse.code := by
  obtain ⟨command, ⟨cla, i, rest, hcla, hi, hrest, rfl⟩, hform⟩ := h
  rcases (hform.header (by simp; omega)).2 with heq | hget
  · refine Or.inl ⟨cla, i, hcla, hi, insOf_eq_of_take heq, ?_⟩
    have := congrArg (fun a : List UInt8 => a.getD 0 0) heq
    simpa [List.getD_eq_getElem?_getD] using this
  · exact Or.inr hget

end Channel

end SEInterface

end TrustOnboard
