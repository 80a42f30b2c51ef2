import TrustOnboard.AppletSelection

/-! Sequences of `select` and `deselect` on one applet, and when its flags are in step with the card.
`select` goes on after its own `deselect` failed, and takes an accepted MANAGE CHANNEL open without a
data byte for one that named a channel; in runs where neither happens the flags are right. -/

namespace TrustOnboard

open Exec Linked SEInterface

theorem openApdu_ne (cla : UInt8) (aid : List UInt8) : selectApdu cla aid ≠ openApdu := by
  intro h
  have hins := congrArg insOf h
  revert hins
  exact (by decide : (0xA4 : UInt8) ≠ 0x70)

theorem closeApdu_ne (cla channel : UInt8) (aid : List UInt8) : selectApdu cla aid ≠ closeApdu channel := by
  intro h
  have hins := congrArg insOf h
  revert hins
  exact (by decide : (0xA4 : UInt8) ≠ 0x70)

namespace Applet

/-- The channel was returned by an accepted open, the AID was selected on it right after that, and no
close of it has been answered `9000` since. -/
def OnOpenChannel (aid : List UInt8) (channel : UInt8) (log : List Event) : Prop :=
  ∃ since before opened selected,
    commandsOf log =
      since ++ (selectApdu (0x00 ||| channel) aid, some selected) :: (openApdu, some opened) :: before ∧
    responseData opened = [channel] ∧ statusWord opened = swOK ∧
    selectStatusOK (statusWord selected) = true ∧
    ∀ closed, (closeApdu channel, some closed) ∈ since → statusWord closed ≠ swOK

/-- What the card answers in one `select` such that the flags stay right: the close that a selected
applet starts with is accepted, unless the applet is selected anew, and an accepted open carries one
data byte. -/
structure FineSelect (applet : Applet) (events : List Event) : Prop where
  closes : applet.isSelected = true → applet.isBasic = false →
    (∃ answer, (commandsOf events).getLast? = some (closeApdu applet.channel, some answer) ∧
      statusWord answer = swOK) ∨
    ∃ cla answer, (selectApdu cla applet.aid, some answer) ∈ commandsOf events ∧
      selectStatusOK (statusWord answer) = true
  names : ∀ answer, (openApdu, some answer) ∈ commandsOf events → statusWord answer = swOK →
    (responseData answer).length = 1

inductive SelectionCall where
  | select (isBasic : Bool)
  | deselect

variable {σ : Type} (T : Transport σ)

def SelectionCall.run : SelectionCall → Exec (Linked σ Applet) Bool
  | .select isBasic => Applet.select T isBasic
  | .deselect => Applet.deselect T

/-- The condition on one step of a run; `deselect` may be answered in any way. -/
def FineStep (call : SelectionCall) (s s' : Linked σ Applet) : Prop :=
  match call with
  | .select _ => ∀ events, s'.se.log = events ++ s.se.log → FineSelect s.obj events
  | .deselect => True

/-- The states that calls reach from `start`, all of whose steps are fine. -/
inductive FineRun (start : Linked σ Applet) : Linked σ Applet → Prop
  | start : FineRun start start
  | step {s s' : Linked σ Applet} {call : SelectionCall} {fuel : Nat} {ok : Bool} (hrun : FineRun start s)
      (hcall : call.run T fuel s = (.done ok, s')) (hfine : FineStep call s s') : FineRun start s'

/-! ### What a step keeps -/

/-- The flags are right. -/
structure InStep (s : Linked σ Applet) : Prop where
  channel : s.obj.isSelected = true → s.obj.isBasic = false →
    OnOpenChannel s.obj.aid s.obj.channel s.se.log
  detached : s.obj.attached = false → s.obj.isSelected = false

variable {T} {s s' : Linked σ Applet}

theorem deselect_inStep (h : InStep s) {events : List Event} (htrace : DeselectTrace s.obj events s'.obj)
    (hlog : s'.se.log = events ++ s.se.log) : InStep s' := by
  rcases s' with ⟨se, applet⟩
  cases htrace with
  | detached hattached =>
      refine ⟨fun hselected => ?_, h.detached⟩
      change s.obj.isSelected = true at hselected
      rw [h.detached hattached] at hselected
      cases hselected
  | idle => exact ⟨fun hselected => (by cases hselected), fun _ => rfl⟩
  | @close result events hattached hselected hlogical hclose =>
      refine ⟨fun hstill _ => ?_, fun hdetached => ?_⟩
      · change (!acceptedResult result) = true at hstill
        obtain ⟨since, before, opened, selected, hcommands, hopened, hsw, hok, hclosed⟩ :=
          h.channel hselected hlogical
        refine ⟨(closeApdu s.obj.channel, result) :: since, before, opened, selected, ?_, hopened, hsw, hok, ?_⟩
        · change se.log = _ at hlog
          change commandsOf se.log = _
          rw [hlog, List.append_assoc, commandsOf_append, Ended.commandsOf hclose, commandsOf_append, hcommands]
          rfl
        · intro closed hmem
          rcases List.mem_cons.mp hmem with heq | hmem
          · cases heq
            rw [Bool.not_eq_true', acceptedResult, decide_eq_false_iff_not] at hstill
            exact hstill
          · exact hclosed closed hmem
      · change s.obj.attached = false at hdetached
        rw [hattached] at hdetached
        cases hdetached

/-- A selection that fails leaves the flag alone, and no SELECT of the applet was accepted in it. -/
theorem refused_half {applet last : Applet} {isBasic : Bool} {events : List Event}
    (h : SelectHalf applet isBasic false events last) :
    last.isSelected = applet.isSelected ∧
      ∀ cla answer, (selectApdu cla applet.aid, some answer) ∈ commandsOf events →
        selectStatusOK (statusWord answer) = false := by
  cases h with
  | basicRefused hselect hno =>
      refine ⟨rfl, fun cla answer hmem => ?_⟩
      rw [Ended.commandsOf hselect, List.mem_singleton, Prod.mk.injEq] at hmem
      rw [← hmem.2] at hno
      exact hno
  | openRefused hopen hno =>
      refine ⟨rfl, fun cla answer hmem => ?_⟩
      rw [Ended.commandsOf hopen, List.mem_singleton, Prod.mk.injEq] at hmem
      exact absurd hmem.1 (openApdu_ne cla _)
  | logical hopen hsw hlen hchannel honchannel =>
      cases honchannel with
      | refused hselect hno hclose =>
          refine ⟨rfl, fun cla answer hmem => ?_⟩
          rw [commandsOf_append, commandsOf_append, Ended.commandsOf hclose, Ended.commandsOf hselect,
            Ended.commandsOf hopen] at hmem
          simp only [List.cons_append, List.nil_append, List.mem_cons, Prod.mk.injEq, List.not_mem_nil,
            or_false] at hmem
          rcases hmem with hmem | hmem | hmem
          · exact absurd hmem.1 (closeApdu_ne cla _ _)
          · rw [← hmem.2] at hno
            exact hno
          · exact absurd hmem.1 (openApdu_ne cla _)

/-- After the `deselect` inside of a `select` that fails, the flag is down. -/
theorem refused_deselect {applet middle : Applet} {first second : List Event}
    (hattached : applet.attached = true) (htrace : DeselectTrace applet first middle)
    (hfine : FineSelect applet (second ++ (first ++ [.note (.selecting applet.aid)])))
    (hsecond : ∀ cla answer, (selectApdu cla applet.aid, some answer) ∈ commandsOf second →
      selectStatusOK (statusWord answer) = false) : middle.isSelected = false := by
  cases htrace with
  | detached hdetached =>
      rw [hattached] at hdetached
      cases hdetached
  | idle => rfl
  | @close result events _ hselected hlogical hclose =>
      have hcommands : commandsOf (second ++ (events ++ [.note (.deselecting applet.aid)] ++
          [.note (.selecting applet.aid)])) = commandsOf second ++ [(closeApdu applet.channel, result)] := by
        rw [commandsOf_append, commandsOf_append, commandsOf_append, Ended.commandsOf hclose]
        rfl
      show (!acceptedResult result) = false
      rcases hfine.closes hselected hlogical with ⟨answer, hfirst, hsw⟩ | ⟨cla, answer, hmem, hok⟩
      · rw [hcommands, List.getLast?_concat, Option.some.injEq, Prod.mk.injEq] at hfirst
        rw [hfirst.2, acceptedResult, decide_eq_true hsw]
        rfl
      · rw [hcommands, List.mem_append, List.mem_singleton, Prod.mk.injEq] at hmem
        rcases hmem with hmem | hmem
        · rw [hsecond cla answer hmem] at hok
          cases hok
        · exact absurd hmem.1 (closeApdu_ne cla _ _)

theorem selected_channel {applet last : Applet} {isBasic : Bool} {events log : List Event}
    (h : SelectHalf applet isBasic true events last) (hlogical : last.isBasic = false)
    (hnames : ∀ answer, (openApdu, some answer) ∈ commandsOf events → statusWord answer = swOK →
      (responseData answer).length = 1) : OnOpenChannel last.aid last.channel (events ++ log) := by
  cases h with
  | basicOk => cases hlogical
  | @logical _ answer openEvents selectEvents channel _ hopen hsw hlen hchannel honchannel =>
      cases honchannel with
      | @ok result events hselect hok =>
          have hcommands : commandsOf (.note (.selected applet.aid channel) :: events ++ openEvents) =
              [(selectApdu (0x00 ||| channel) applet.aid, result), (openApdu, some answer)] := by
            rw [commandsOf_append, SEInterface.commandsOf, Ended.commandsOf hselect, Ended.commandsOf hopen]
            rfl
          have hone := hnames answer (by rw [hcommands]; simp) hsw
          have hdata : responseData answer = [channel] := by
            obtain ⟨byte, hbyte⟩ := List.length_eq_one_iff.mp hone
            rw [hbyte] at hchannel
            rw [hbyte, hchannel]
            rfl
          cases result with
          | none => cases hok
          | some selected =>
              refine ⟨[], commandsOf log, answer, selected, ?_, hdata, hsw, hok, fun _ hmem => by cases hmem⟩
              rw [commandsOf_append]
              change commandsOf (.note (.selected applet.aid channel) :: events ++ openEvents) ++ _ = _
              rw [hcommands]
              rfl

theorem select_inStep (h : InStep s) {isBasic ok : Bool} {events : List Event}
    (htrace : SelectTrace s.obj isBasic ok events s'.obj) (hlog : s'.se.log = events ++ s.se.log)
    (hfine : FineSelect s.obj events) : InStep s' ∧ (ok = true ↔ s'.obj.isSelected = true) := by
  rcases s' with ⟨se, applet⟩
  change se.log = events ++ s.se.log at hlog
  cases htrace with
  | detached hattached =>
      have hidle := h.detached hattached
      refine ⟨⟨fun hselected => ?_, fun _ => hidle⟩, fun hok => (by cases hok), fun hselected => ?_⟩
      · change s.obj.isSelected = true at hselected
        rw [hidle] at hselected
        cases hselected
      · change s.obj.isSelected = true at hselected
        rw [hidle] at hselected
        cases hselected
  | @attached _ first second middle _ hattached hdeselect hhalf =>
      have hdetached : applet.attached = true :=
        hhalf.identity.2.trans (hdeselect.identity.2.trans hattached)
      have hcommands : ∀ command, command ∈ commandsOf second →
          command ∈ commandsOf (second ++ (first ++ [.note (.selecting s.obj.aid)])) := by
        intro command hmem
        rw [commandsOf_append]
        exact List.mem_append_left _ hmem
      cases ok with
      | true =>
          obtain ⟨hselected, _⟩ := hhalf.selected
          refine ⟨⟨fun _ hlogical => ?_, fun hno => ?_⟩, fun _ => hselected, fun _ => rfl⟩
          · change OnOpenChannel applet.aid applet.channel se.log
            rw [hlog, List.append_assoc]
            exact selected_channel hhalf hlogical fun answer hmem => hfine.names answer (hcommands _ hmem)
          · change applet.attached = false at hno
            rw [hdetached] at hno
            cases hno
      | false =>
          obtain ⟨hsame, hrefused⟩ := refused_half hhalf
          rw [hdeselect.identity.1] at hrefused
          have hidle : applet.isSelected = false :=
            hsame.trans (refused_deselect hattached hdeselect hfine hrefused)
          refine ⟨⟨fun hselected => ?_, fun _ => hidle⟩, fun hok => (by cases hok), fun hselected => ?_⟩
          · change applet.isSelected = true at hselected
            rw [hidle] at hselected
            cases hselected
          · change applet.isSelected = true at hselected
            rw [hidle] at hselected
            cases hselected

theorem step_inStep (h : InStep s) {call : SelectionCall} {fuel : Nat} {ok : Bool}
    (hcall : call.run T fuel s = (.done ok, s')) (hfine : FineStep call s s') :
    InStep s' ∧ ((∃ isBasic, call = .select isBasic) → (ok = true ↔ s'.obj.isSelected = true)) := by
  cases call with
  | select isBasic =>
      obtain ⟨events, htrace, hlog, _⟩ := (select_meets T isBasic s).done hcall
      obtain ⟨hinStep, hok⟩ := select_inStep h htrace hlog (hfine events hlog)
      exact ⟨hinStep, fun _ => hok⟩
  | deselect =>
      obtain ⟨events, htrace, ⟨hlog, _⟩, _⟩ := (deselect_meets T s).done hcall
      exact ⟨deselect_inStep h htrace hlog, fun ⟨_, hcall⟩ => by cases hcall⟩

theorem FineRun.inStep {start : Linked σ Applet} (hstart : InStep start) (h : FineRun T start s) : InStep s := by
  induction h with
  | start => exact hstart
  | step _ hcall hfine ih => exact (step_inStep ih hcall hfine).1

/-- **The flags are in step with the card** after every call of a run of `select` and `deselect` on a
new applet, attached or not, all of whose steps are fine. -/
theorem selection_in_step (T : Transport σ) (aid : List UInt8) (present : Bool) (card : σ) (buffer : Mem)
    (s s' : Linked σ Applet) (call : SelectionCall) (fuel : Nat) (ok : Bool)
    (hrun : FineRun T ⟨.create card buffer, (create aid).init present⟩ s)
    (hcall : call.run T fuel s = (.done ok, s')) (hfine : FineStep call s s') :
    ((∃ isBasic, call = .select isBasic) → (ok = true ↔ s'.obj.isSelected = true)) ∧
      (s'.obj.isSelected = true → s'.obj.isBasic = false →
        OnOpenChannel s'.obj.aid s'.obj.channel s'.se.log) := by
  have hstart : InStep (⟨.create card buffer, (create aid).init present⟩ : Linked σ Applet) :=
    ⟨fun hselected => (by cases hselected), fun _ => rfl⟩
  obtain ⟨hinStep, hok⟩ := step_inStep (hrun.inStep hstart) hcall hfine
  exact ⟨hok, hinStep.channel⟩

/-- A new applet in front of a card that answers from a list. -/
def scriptedApplet (answers : List (Option (List UInt8))) : Linked (List (Option (List UInt8))) Applet :=
  ⟨.create answers Mem.zero, (create [0xA0, 0x00]).init true⟩

/-- Two selections, both on a channel of their own. -/
def selectedTwice : Linked (List (Option (List UInt8))) Applet :=
  scriptedApplet [some [1, 0x90, 0x00], some [0x90, 0x00], some [0x90, 0x00], some [2, 0x90, 0x00], some [0x90, 0x00]]

/-- The second `select` closes channel 1 and is in step on channel 2. -/
theorem selection_in_step_second : ∃ s s', Applet.select scripted false 2 selectedTwice = (.done true, s) ∧
    s.obj.channel = 1 ∧ Applet.select scripted false 2 s = (.done true, s') ∧ s'.obj.isSelected = true ∧
    OnOpenChannel s'.obj.aid 2 s'.se.log := by
  obtain ⟨ok, hfirst, rfl⟩ : ∃ ok, Applet.select scripted false 2 selectedTwice =
      (.done ok, (Applet.select scripted false 2 selectedTwice).2) ∧ ok = true := done_of_value? (by decide +kernel)
  generalize hs : (Applet.select scripted false 2 selectedTwice).2 = s at hfirst
  obtain ⟨ok, hsecond, rfl⟩ : ∃ ok, Applet.select scripted false 2 s =
      (.done ok, (Applet.select scripted false 2 s).2) ∧ ok = true := done_of_value? (by subst hs; decide +kernel)
  generalize hs' : (Applet.select scripted false 2 s).2 = s' at hsecond
  have hstate : s.obj.isSelected = true ∧ s.obj.channel = 1 ∧ s'.obj.isSelected = true ∧ s'.obj.isBasic = false ∧
      s'.obj.channel = 2 := by
    subst hs' hs
    decide +kernel
  have hlogs : commandsOf s.se.log =
        [(selectApdu 1 [0xA0, 0x00], some [0x90, 0x00]), (openApdu, some [1, 0x90, 0x00])] ∧
      commandsOf s'.se.log =
        [(selectApdu 2 [0xA0, 0x00], some [0x90, 0x00]), (openApdu, some [2, 0x90, 0x00]),
          (closeApdu 1, some [0x90, 0x00])] ++ commandsOf s.se.log := by
    subst hs' hs
    decide +kernel
  obtain ⟨_, hone, hselected, hlogical, htwo⟩ := hstate
  have hrun : FineRun scripted selectedTwice s := by
    have hcall : SelectionCall.run scripted (.select false) 2 selectedTwice = (.done true, s) := hfirst
    refine .step .start hcall fun events hlog => ⟨fun hno => (by cases hno), ?_⟩
    intro answer hmem _
    have hevents : commandsOf events = commandsOf s.se.log := by
      rw [hlog, commandsOf_append]
      exact (List.append_nil _).symm
    rw [hevents, hlogs.1] at hmem
    rcases List.mem_cons.mp hmem with heq | hmem
    · cases heq
    · cases List.mem_singleton.mp hmem
      rfl
  refine ⟨s, s', hfirst, hone, hsecond, hselected, htwo ▸ ?_⟩
  refine (selection_in_step scripted [0xA0, 0x00] true _ Mem.zero s s' (.select false) 2 true hrun hsecond ?_).2
    hselected hlogical
  intro events hlog
  have hevents : commandsOf events = [(selectApdu 2 [0xA0, 0x00], some [0x90, 0x00]),
      (openApdu, some [2, 0x90, 0x00]), (closeApdu 1, some [0x90, 0x00])] := by
    refine (List.append_left_inj (commandsOf s.se.log)).mp ?_
    rw [← hlogs.2, hlog, commandsOf_append]
  constructor
  · refine fun _ _ => .inl ⟨[0x90, 0x00], ?_, rfl⟩
    rw [hevents, hone]
    rfl
  · intro answer hmem _
    rw [hevents] at hmem
    rcases List.mem_cons.mp hmem with heq | hmem
    · cases heq
    · rcases List.mem_cons.mp hmem with heq | hmem
      · cases heq
        rfl
      · cases List.mem_singleton.mp hmem

/-- The close of the second `select` is refused, its open is refused too, and it returns false with the
applet still marked as selected. -/
theorem selection_out_of_step : ∃ s s', Applet.select scripted false 2
      (scriptedApplet [some [1, 0x90, 0x00], some [0x90, 0x00], some [0x6A, 0x86], some [0x6A, 0x81]]) =
        (.done true, s) ∧
    Applet.select scripted false 2 s = (.done false, s') ∧ s'.obj.isSelected = true :=
  ⟨_, _, rfl, rfl, rfl⟩

end Applet

end TrustOnboard
