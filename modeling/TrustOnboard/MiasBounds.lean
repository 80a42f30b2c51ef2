import TrustOnboard.MiasListing
import TrustOnboard.MiasSignature

/-! How many follow-ups there are. The library sends one for each answer that asks for one and has no bound of its own:
a command takes one APDU more than the card asks to follow up, a signature one command more. -/

namespace TrustOnboard

open Exec Linked SEInterface

variable {σ : Type} {T : Transport σ} {k : Nat}

/-- Every answer of the card fits the response buffer. -/
def Fits (T : Transport σ) : Prop :=
  ∀ card apdu answer, (T card apdu).1 = some answer → answer.length ≤ apduResponseSize

/-! ### Commands -/

namespace SEInterface

/-- The exchanges among the events. -/
def exchanges (events : List Event) : List Event :=
  events.filter fun
    | .exchange _ _ => true
    | _ => false

/-- Sent this command, the card answers at most `k` APDUs in a row with a bare `6Cxx` or `61xx`. -/
def AsksAtMost (T : Transport σ) (command : List UInt8) (start : σ) (k : Nat) : Prop :=
  ∀ sent card earlier, Puts T command start sent card earlier → earlier.length ≤ k

section Commands

variable {command sent : List UInt8} {start card : σ} {earlier : List Event}

theorem not_bare_of_nextApdu {apdu answer : List UInt8} (h : nextApdu apdu (some answer) = none) : ¬Bare answer := by
  rintro ⟨hlen, hfirst⟩
  rw [nextApdu] at h
  rcases hfirst with hfirst | hfirst
  · rw [if_pos ⟨hlen, hfirst⟩] at h
    cases h
  · have hother : ¬(answer.length = 2 ∧ answer.getD 0 0 = 0x6C) := by
      rw [hfirst]
      exact fun hboth => absurd hboth.2 (by decide)
    rw [if_neg hother, if_pos ⟨hlen, hfirst⟩] at h
    cases h

/-- An APDU on the wire is concluded, by induction on the follow-ups that the card may still ask for. -/
theorem Puts.concludes (hfits : Fits T) (hk : AsksAtMost T command start k)
    (h : Puts T command start sent card earlier) :
    ∃ result card', Concludes T card sent result card' := by
  induction hleft : k + 1 - earlier.length generalizing sent card earlier with
  | zero =>
      have hfew := hk sent card earlier h
      omega
  | succ left ih =>
      have hfew := hk sent card earlier h
      rcases hnext : nextApdu sent (T card sent).1 with _ | next
      · rcases hanswer : (T card sent).1 with _ | answer
        · exact ⟨none, (T card sent).2, .lost (Prod.ext hanswer rfl)⟩
        · rw [hanswer] at hnext
          exact ⟨some answer, (T card sent).2,
            .final (Prod.ext hanswer rfl) (not_bare_of_nextApdu hnext) (hfits card sent answer hanswer)⟩
      · have hmore := h.next hnext
        obtain ⟨result, card', hrest⟩ := ih hmore (by rw [List.length_cons]; omega)
        rcases Applet.nextApdu_cases hnext with ⟨le, hanswer, rfl⟩ | ⟨le, hanswer, rfl⟩
        · cases result with
          | none => exact ⟨none, card', .resend (Prod.ext hanswer rfl) hrest⟩
          | some answer => exact ⟨some answer, card', .resend (Prod.ext hanswer rfl) hrest⟩
        · cases result with
          | none => exact ⟨none, card', .fetch (Prod.ext hanswer rfl) hrest⟩
          | some answer => exact ⟨some answer, card', .fetch (Prod.ext hanswer rfl) hrest⟩

theorem exchanges_length_le {events : List Event}
    (h : ∀ later apdu answer earlier, events = later ++ .exchange apdu answer :: earlier → earlier.length ≤ k) :
    (exchanges events).length ≤ k + 1 := by
  induction events with
  | nil => exact Nat.zero_le _
  | cons event events ih =>
      have hrest : (exchanges events).length ≤ k + 1 :=
        ih fun later apdu answer earlier heq => h (event :: later) apdu answer earlier (by rw [heq, List.cons_append])
      cases event with
      | exchange apdu answer =>
          have hall := h [] apdu answer events rfl
          have hfilter : (exchanges events).length ≤ events.length := List.length_filter_le _ _
          show (exchanges events).length + 1 ≤ k + 1
          omega
      | answered => exact hrest
      | unanswered => exact hrest
      | note => exact hrest

/-- One APDU more than the card asks to follow up, however the run ends. -/
theorem command_exchanges (hk : AsksAtMost T command start k) (fuel : Nat) {s : SEInterface σ}
    (hcard : s.card = start) :
    ∃ events, (SEInterface.command T command fuel s).2.log = events ++ s.log ∧ (exchanges events).length ≤ k + 1 := by
  subst hcard
  obtain ⟨events, hlog, honly⟩ := command_onlyPuts T command fuel s
  refine ⟨events, hlog, exchanges_length_le fun later apdu answer earlier heq => ?_⟩
  obtain ⟨card, hputs, _⟩ := honly later apdu answer earlier heq
  exact hk apdu card earlier hputs

/-- A run that ends shows how often the card asks: with less fuel than follow-ups the turns do not suffice. -/
theorem asksAtMost_of_done {fuel : Nat} {ok : Bool} {s s' : SEInterface σ}
    (h : SEInterface.command T command fuel s = (.done ok, s')) : AsksAtMost T command s.card fuel := by
  intro sent card earlier hputs
  by_contra hmany
  -- one APDU among them comes after `fuel` others
  have hprefix : ∀ {sent card earlier}, Puts T command s.card sent card earlier → fuel ≤ earlier.length →
      ∃ sent card earlier, Puts T command s.card sent card earlier ∧ earlier.length = fuel := by
    intro sent card earlier hputs hlong
    induction hputs with
    | first => exact ⟨_, _, [], .first, (Nat.le_zero.mp hlong).symm⟩
    | @next apdu apdu' card earlier hputs hnext ih =>
        by_cases hexact : fuel = earlier.length + 1
        · exact ⟨_, _, _, hputs.next hnext, hexact.symm⟩
        · rw [List.length_cons] at hlong
          exact ih (by omega)
  obtain ⟨sent, card, earlier, hputs, hlength⟩ := hprefix hputs (by omega)
  have hstart : Puts T command (SEInterface.card { s with apdu := command }) sent card earlier := hputs
  obtain ⟨t, _, _, _, hturns⟩ := turns_puts hstart rfl
  have hspent : (transmit T fuel { s with apdu := command }).1 = .spent := by
    have hall := hturns fuel 0
    rw [hlength, Nat.add_zero] at hall
    rw [transmit, loop, hall]
    rfl
  obtain ⟨_, _, hmodify, hrest⟩ := bind_eq_done h
  cases hmodify
  obtain ⟨_, _, htransmit, _⟩ := bind_eq_done hrest
  rw [htransmit] at hspent
  cases hspent

theorem Puts.exchanges {sent : List UInt8} {card : σ} {earlier : List Event} (h : Puts T command start sent card earlier) :
    exchanges earlier = earlier := by
  induction h with
  | first => rfl
  | next _ _ ih =>
      show _ :: SEInterface.exchanges _ = _
      rw [ih]

/-- The command takes at most `k` APDUs more than the first, at every point of every run, and ends. -/
structure FollowsAtMost (T : Transport σ) (command : List UInt8) (k : Nat) (s : SEInterface σ) : Prop where
  bounded : ∀ fuel, ∃ events, (SEInterface.command T command fuel s).2.log = events ++ s.log ∧
    (SEInterface.exchanges events).length ≤ k + 1
  ends : ∃ ok s', Evals (SEInterface.command T command) s ok s'

theorem followsAtMost_iff (hfits : Fits T) (s : SEInterface σ) :
    FollowsAtMost T command k s ↔ AsksAtMost T command s.card k := by
  constructor
  · intro h sent card earlier hputs
    obtain ⟨fuel, later, hlog⟩ := puts_command hputs
    obtain ⟨events, hevents, hfew⟩ := h.bounded fuel
    have hsame : events = later ++ .exchange sent (T card sent).1 :: earlier := by
      refine (List.append_left_inj s.log).mp ?_
      rw [← hevents, hlog, List.append_assoc, List.cons_append]
    have hsplit : SEInterface.exchanges events =
        SEInterface.exchanges later ++ .exchange sent (T card sent).1 :: SEInterface.exchanges earlier := by
      rw [hsame]
      exact List.filter_append ..
    rw [hsplit, hputs.exchanges, List.length_append, List.length_cons] at hfew
    omega
  · intro hk
    obtain ⟨result, card, hconcludes⟩ := Puts.first.concludes hfits hk
    obtain ⟨s', hrun, _⟩ := command_concludes hconcludes
    exact ⟨fun fuel => command_exchanges hk fuel rfl, result.isSome, s', hrun⟩

/-- A command is concluded exactly if the card stops asking. -/
theorem concludes_iff_asks (hfits : Fits T) :
    (∃ result card, Concludes T start command result card) ↔ ∃ k, AsksAtMost T command start k := by
  constructor
  · rintro ⟨result, card, h⟩
    obtain ⟨s', hrun, _⟩ := command_concludes (s := .create start .zero) h
    obtain ⟨fuel, hdone⟩ := hrun.reached
    exact ⟨fuel, asksAtMost_of_done hdone⟩
  · rintro ⟨k, hk⟩
    exact Puts.first.concludes hfits hk

/-- A command is concluded in one way. -/
theorem Concludes.unique {result result' : Option (List UInt8)} {card card' : σ}
    (h : Concludes T start command result card) (h' : Concludes T start command result' card') :
    result = result' ∧ card = card' := by
  obtain ⟨s, hrun, hafter⟩ := command_concludes (s := .create start .zero) h
  obtain ⟨s', hrun', hafter'⟩ := command_concludes (s := .create start .zero) h'
  obtain ⟨_, rfl⟩ := hrun.unique hrun'
  have hlist := hafter.reports.unique hafter'.reports
  cases hlist
  exact ⟨rfl, hafter.card_eq.symm.trans hafter'.card_eq⟩

end Commands

end SEInterface

/-! ### Signatures -/

namespace Mias

/-- An answer to which the signature loop sends one command more. -/
def Continues (answer : List UInt8) : Prop :=
  responseData answer ≠ [] ∧ statusWord answer &&& 0xFF00 = swOKLengthInSW2

/-- The command behind such an answer. -/
def nextEnvelope (channel : UInt8) (answer : List UInt8) : List UInt8 :=
  envelopeApdu channel (lowByte (statusWord answer))

/-- The commands for a signature, with the card that is sent them: each but the first follows an answer with data and
`61xx`. The number is that of these answers. -/
inductive Asks (T : Transport σ) (channel : UInt8) (start : σ) : List UInt8 → σ → Nat → Prop
  | first : Asks T channel start (signatureApdu channel) start 0
  | next {command answer : List UInt8} {card card' : σ} {n : Nat} (h : Asks T channel start command card n)
      (hconcludes : Concludes T card command (some answer) card') (hmore : Continues answer) :
      Asks T channel start (nextEnvelope channel answer) card' (n + 1)

/-- Asked for a signature, the card answers at most `k` commands in a row with data and `61xx`, and each of them after
finitely many bare `6Cxx` and `61xx`. -/
def SignsWithin (T : Transport σ) (channel : UInt8) (start : σ) (k : Nat) : Prop :=
  ∀ command card n, Asks T channel start command card n → n ≤ k ∧ ∃ j, AsksAtMost T command card j

/-- From this command on the signature takes so many commands. -/
inductive SignEnds (T : Transport σ) (channel : UInt8) : List UInt8 → σ → Nat → Prop
  | last {command : List UInt8} {result : Option (List UInt8)} {card card' : σ}
      (hconcludes : Concludes T card command result card') (hlast : ∀ answer, result = some answer → ¬Continues answer) :
      SignEnds T channel command card 1
  | more {command answer : List UInt8} {card card' : σ} {n : Nat}
      (hconcludes : Concludes T card command (some answer) card') (hmore : Continues answer)
      (hrest : SignEnds T channel (nextEnvelope channel answer) card' n) : SignEnds T channel command card (n + 1)

section Signatures

variable {channel : UInt8} {start card : σ} {s : Linked σ Mias} {command answer : List UInt8} {n : Nat}

/-- The ENVELOPE behind a fragment. -/
theorem envelope_yields (hready : Ready channel s.obj) {result : Option (List UInt8)} {le : UInt8}
    (h : Concludes T s.se.card (envelopeApdu channel le) result card) :
    Yields (onApplet (Applet.transmitCase2 T 0x00 .envelope SCP1.ENVELOPEReserved SCP2.ENVELOPEReserved le)) s
      result.isSome fun s' => s'.obj = s.obj ∧ After (envelopeApdu channel le) result card s.se s'.se := by
  unfold Applet.transmitCase2
  exact sent_concludes hready (command_concludes h)

/-- A turn at an answer with data and `61xx` asks for more. -/
theorem signatureTurn_asks (hready : Ready channel s.obj) (hholds : Holds s.se answer) (hmore : Continues answer)
    {ok : Bool} {s₁ : Linked σ Mias}
    (hsent : Evals (onApplet (Applet.transmitCase2 T 0x00 .envelope SCP1.ENVELOPEReserved SCP2.ENVELOPEReserved
      (lowByte (statusWord answer)))) s ok s₁) (x : Gather) :
    Evals (signatureTurn T x) s
      (if ok then .again ⟨x.pos + (responseData answer).length, (x.len + (responseData answer).length) % 65536,
          x.out.write x.pos (responseData answer)⟩
        else .stop ⟨false, some (x.out.write x.pos (responseData answer)),
          (x.len + (responseData answer).length) % 65536⟩)
      s₁ := by
  have hsome : (responseData answer).length ≠ 0 := fun hzero => hmore.1 (List.length_eq_zero_iff.mp hzero)
  apply Evals.bind (.of_eq (response_done hready.isSelected hholds))
  rw [if_pos hsome]
  apply Evals.bind (.of_eq (statusWord_done hready.isSelected hholds))
  rw [if_pos hmore.2]
  apply hsent.bind
  cases ok <;> exact .pure

/-- A turn at any other answer stops. -/
theorem signatureTurn_stops (hready : Ready channel s.obj) (hholds : Holds s.se answer) (hlast : ¬Continues answer)
    (x : Gather) :
    ∃ fetched, Evals (signatureTurn T x) s (.stop fetched) s := by
  have hresponse : Evals response s (responseData answer) s := .of_eq (response_done hready.isSelected hholds)
  by_cases hsome : (responseData answer).length ≠ 0
  · have hword : Evals (onApplet (gets Applet.getStatusWord)) s (statusWord answer) s :=
      .of_eq (statusWord_done hready.isSelected hholds)
    have hother : ¬(statusWord answer &&& 0xFF00 = swOKLengthInSW2) :=
      fun hmore => hlast ⟨fun hnil => hsome (List.length_eq_zero_iff.mpr hnil), hmore⟩
    refine ⟨⟨decide (statusWord answer = swOK), some (x.out.write x.pos (responseData answer)),
      (x.len + (responseData answer).length) % 65536⟩, hresponse.bind ?_⟩
    rw [if_pos hsome]
    apply hword.bind
    rw [if_neg hother]
    exact .pure
  · refine ⟨⟨false, some x.out, x.len⟩, hresponse.bind ?_⟩
    rw [if_neg hsome]
    exact .pure

/-- The loop at an answer with data and `61xx` ends, with the commands that are left. -/
theorem SignEnds.loop (h : SignEnds T channel command card n) (hready : Ready channel s.obj) (hcard : s.se.card = card)
    (hholds : Holds s.se answer) (hmore : Continues answer) (hcommand : command = nextEnvelope channel answer)
    (x : Gather) :
    ∃ fetched s', Iterates (signatureTurn T) x s (.done fetched) s' ∧
      ∃ commands, Reports s.se s'.se commands ∧ commands.length = n := by
  induction h generalizing s answer x with
  | @last command result card card' hconcludes hlast =>
      subst hcard hcommand
      obtain ⟨s₁, hsent, hobj, hafter⟩ := envelope_yields hready hconcludes
      have hturn := signatureTurn_asks hready hholds hmore hsent x
      cases result with
      | none => exact ⟨_, s₁, .stop hturn, _, hafter.reports, rfl⟩
      | some answer' =>
          rw [← hobj] at hready
          obtain ⟨fetched, hstop⟩ := signatureTurn_stops (T := T) hready (hafter.holds answer' rfl) (hlast answer' rfl)
            ⟨x.pos + (responseData answer).length, (x.len + (responseData answer).length) % 65536,
              x.out.write x.pos (responseData answer)⟩
          exact ⟨fetched, s₁, .again hturn (.stop hstop), _, hafter.reports, rfl⟩
  | @more command answer' card card' n hconcludes hmore' _ ih =>
      subst hcard hcommand
      obtain ⟨s₁, hsent, hobj, hafter⟩ := envelope_yields hready hconcludes
      have hturn := signatureTurn_asks hready hholds hmore hsent x
      rw [← hobj] at hready
      obtain ⟨fetched, s', hrest, commands, hreports, hcount⟩ := ih hready hafter.card_eq (hafter.holds answer' rfl) hmore'
        rfl ⟨x.pos + (responseData answer).length, (x.len + (responseData answer).length) % 65536,
          x.out.write x.pos (responseData answer)⟩
      refine ⟨fetched, s', .again hturn hrest, _, hafter.reports.trans hreports, ?_⟩
      rw [List.length_append, hcount]
      rfl

/-- The first command of a signature. -/
theorem signature_yields (hready : Ready channel s.obj) {result : Option (List UInt8)}
    (h : Concludes T s.se.card (signatureApdu channel) result card) :
    Yields (onApplet (Applet.transmitCase2 T 0x00 .performSecurityOperation SCP1.PSOSignature SCP2.PSOSignatureInput 0x00))
      s result.isSome fun s' => s'.obj = s.obj ∧ After (signatureApdu channel) result card s.se s'.se := by
  unfold Applet.transmitCase2
  exact sent_concludes hready (command_concludes h)

/-- A signature ends with its commands. -/
theorem SignEnds.attains (h : SignEnds T channel (signatureApdu channel) s.se.card n) (hready : Ready channel s.obj)
    (signature : Mem) :
    Attains (psoComputeDigitalSignature T signature) s fun _ s' =>
      ∃ commands, Reports s.se s'.se commands ∧ commands.length = n := by
  cases h with
  | @last _ result _ card hconcludes hlast =>
      refine (signature_yields hready hconcludes).bind_attains fun s₁ hs₁ => ?_
      obtain ⟨hobj, hafter⟩ := hs₁
      cases result with
      | none => exact .pure ⟨_, hafter.reports, rfl⟩
      | some answer =>
          rw [← hobj] at hready
          obtain ⟨fetched, hstop⟩ := signatureTurn_stops (T := T) hready (hafter.holds answer rfl) (hlast answer rfl)
            ⟨0, 0, signature⟩
          exact ⟨fetched, s₁, .loop (.stop hstop), _, hafter.reports, rfl⟩
  | @more _ answer _ card n hconcludes hmore hrest =>
      refine (signature_yields hready hconcludes).bind_attains fun s₁ hs₁ => ?_
      obtain ⟨hobj, hafter⟩ := hs₁
      rw [← hobj] at hready
      obtain ⟨fetched, s', hiterates, commands, hreports, hcount⟩ :=
        hrest.loop hready hafter.card_eq (hafter.holds answer rfl) hmore rfl ⟨0, 0, signature⟩
      refine ⟨fetched, s', .loop hiterates, _, hafter.reports.trans hreports, ?_⟩
      rw [List.length_append, hcount]
      rfl

/-! ### Signatures that end -/

/-- A command of a selected applet that ended has ended at the interface. -/
theorem whenSelected_done {cla : UInt8} {transmitted : UInt8 → Exec (SEInterface σ) Bool} {t t' : Linked σ Applet}
    (hselected : t.obj.isSelected = true) (hattached : t.obj.attached = true) {fuel : Nat} {ok : Bool}
    (h : Applet.whenSelected cla transmitted fuel t = (.done ok, t')) :
    ∃ se, transmitted (cla ||| t.obj.channel) fuel t.se = (.done ok, se) := by
  unfold Applet.whenSelected at h
  obtain ⟨_, _, hgets, hrun⟩ := bind_eq_done h
  cases hgets
  rw [if_pos hselected] at hrun
  obtain ⟨_, _, hcheck, hrun⟩ := bind_eq_done hrun
  rw [check_pos hattached] at hcheck
  cases hcheck
  obtain ⟨se, hcommand, _⟩ := zoom_eq_done hrun
  exact ⟨se, hcommand⟩

/-- A command that ended with this fuel shows how often the card asks. -/
theorem sent_asks {cla p1 p2 le : UInt8} {ins : SCIns} (hready : Ready channel s.obj) {fuel : Nat} {ok : Bool}
    {s' : Linked σ Mias} (h : onApplet (Applet.transmitCase2 T cla ins p1 p2 le) fuel s = (.done ok, s')) :
    AsksAtMost T [cla ||| channel, ins.code, p1, p2, le] s.se.card fuel := by
  obtain ⟨t, hrun, _⟩ := zoom_eq_done h
  obtain ⟨se, hcommand⟩ := whenSelected_done (t := ⟨s.se, s.obj.applet⟩) hready.isSelected hready.attached hrun
  rw [← hready.channel_eq]
  exact asksAtMost_of_done hcommand

/-- The turns of a signature that ended are commands. -/
theorem signEnds_of_turns (hfits : Fits T) {fuel count : Nat} {x : Gather} {fetched : Fetched} {s' : Linked σ Mias}
    (hready : Ready channel s.obj) (hholds : Holds s.se answer) (hmore : Continues answer)
    (h : turns (signatureTurn T) fuel count x s = (.done fetched, s')) :
    ∃ n, SignEnds T channel (nextEnvelope channel answer) s.se.card n := by
  induction count generalizing s answer x with
  | zero => cases h
  | succ count ih =>
      rw [turns] at h
      rcases hturn : signatureTurn T x fuel s with ⟨_ | _ | _, s₁⟩
      · -- the ENVELOPE of this turn was concluded
        have hasks : AsksAtMost T (nextEnvelope channel answer) s.se.card fuel := by
          have hsome : (responseData answer).length ≠ 0 := fun hzero => hmore.1 (List.length_eq_zero_iff.mp hzero)
          obtain ⟨_, _, hdata, hrun⟩ := bind_eq_done hturn
          rw [response_done hready.isSelected hholds] at hdata
          cases hdata
          rw [if_pos hsome] at hrun
          obtain ⟨_, _, hword, hrun⟩ := bind_eq_done hrun
          rw [statusWord_done hready.isSelected hholds] at hword
          cases hword
          rw [if_pos hmore.2] at hrun
          obtain ⟨_, _, hsent, _⟩ := bind_eq_done hrun
          exact sent_asks hready hsent
        obtain ⟨result, card', hconcludes⟩ := (concludes_iff_asks hfits).mpr ⟨fuel, hasks⟩
        obtain ⟨s₂, hsent, hobj, hafter⟩ := envelope_yields hready hconcludes
        obtain ⟨heq, rfl⟩ := (signatureTurn_asks hready hholds hmore hsent x).of_done hturn
        cases result with
        | none => exact ⟨1, .last hconcludes fun answer' heq => by cases heq⟩
        | some answer' =>
            by_cases hmore' : Continues answer'
            · cases heq
              rw [hturn] at h
              rw [← hobj] at hready
              obtain ⟨n, hrest⟩ := ih hready (hafter.holds answer' rfl) hmore' h
              rw [hafter.card_eq] at hrest
              exact ⟨n + 1, .more hconcludes hmore' hrest⟩
            · refine ⟨1, .last hconcludes fun answer'' heq => ?_⟩
              cases heq
              exact hmore'
      · rw [hturn] at h
        cases h
      · rw [hturn] at h
        cases h

theorem signEnds_of_done (hfits : Fits T) (hready : Ready channel s.obj) {signature : Mem} {fuel : Nat}
    {fetched : Fetched} {s' : Linked σ Mias}
    (h : psoComputeDigitalSignature T signature fuel s = (.done fetched, s')) :
    ∃ n, SignEnds T channel (signatureApdu channel) s.se.card n := by
  obtain ⟨ok, s₁, hsent, hrest⟩ := bind_eq_done h
  obtain ⟨result, card, hconcludes⟩ := (concludes_iff_asks hfits).mpr ⟨fuel, sent_asks hready hsent⟩
  obtain ⟨s₂, hrun, hobj, hafter⟩ := signature_yields hready hconcludes
  obtain ⟨heq, rfl⟩ := hrun.of_done hsent
  cases heq
  cases result with
  | none => exact ⟨1, .last hconcludes fun answer' heq => by cases heq⟩
  | some answer =>
      by_cases hmore : Continues answer
      · rw [← hobj] at hready
        obtain ⟨n, hends⟩ := signEnds_of_turns hfits hready (hafter.holds answer rfl) hmore hrest
        rw [hafter.card_eq] at hends
        exact ⟨n + 1, .more hconcludes hmore hends⟩
      · refine ⟨1, .last hconcludes fun answer' heq => ?_⟩
        cases heq
        exact hmore

theorem SignEnds.pos (h : SignEnds T channel command card n) :
    0 < n ∧ ∃ result card', Concludes T card command result card' := by
  cases h with
  | last hconcludes => exact ⟨Nat.one_pos, _, _, hconcludes⟩
  | more hconcludes => exact ⟨Nat.succ_pos _, _, _, hconcludes⟩

/-- The commands of a signature that ends are those that the card asks for. -/
theorem Asks.left {m : Nat} (h : Asks T channel start command card n)
    (hends : SignEnds T channel (signatureApdu channel) start m) :
    ∃ left, left + n = m ∧ SignEnds T channel command card left := by
  induction h with
  | first => exact ⟨m, rfl, hends⟩
  | next _ hconcludes hmore ih =>
      obtain ⟨left, hleft, hends⟩ := ih
      cases hends with
      | last hconcludes' hlast =>
          obtain ⟨rfl, _⟩ := hconcludes'.unique hconcludes
          exact (hlast _ rfl hmore).elim
      | more hconcludes' _ hrest =>
          obtain ⟨heq, rfl⟩ := hconcludes'.unique hconcludes
          cases heq
          exact ⟨_, by omega, hrest⟩

theorem SignsWithin.ends (hfits : Fits T) (hsigns : SignsWithin T channel start k)
    (h : Asks T channel start command card n) : ∃ left, left + n ≤ k + 1 ∧ SignEnds T channel command card left := by
  induction hleft : k - n using Nat.strongRecOn generalizing command card n with
  | ind _ ih =>
      obtain ⟨hle, j, hasks⟩ := hsigns command card n h
      obtain ⟨result, card', hconcludes⟩ := (concludes_iff_asks hfits).mpr ⟨j, hasks⟩
      by_cases hmore : ∃ answer, result = some answer ∧ Continues answer
      · obtain ⟨answer, rfl, hmore⟩ := hmore
        have hnext := Asks.next h hconcludes hmore
        have hfew := (hsigns _ _ _ hnext).1
        obtain ⟨left, hsum, hends⟩ := ih _ (by omega) hnext rfl
        exact ⟨left + 1, by omega, .more hconcludes hmore hends⟩
      · exact ⟨1, by omega, .last hconcludes fun answer heq hcontinues => hmore ⟨answer, heq, hcontinues⟩⟩

/-- The signature takes at most `k` commands more than the first, and ends. -/
def SignatureFollowsAtMost (T : Transport σ) (signature : Mem) (k : Nat) (s : Linked σ Mias) : Prop :=
  Attains (psoComputeDigitalSignature T signature) s fun _ s' =>
    ∃ commands, Reports s.se s'.se commands ∧ commands.length ≤ k + 1

theorem signatureFollowsAtMost_iff (hfits : Fits T) (hready : Ready channel s.obj) (signature : Mem) :
    SignatureFollowsAtMost T signature k s ↔ SignsWithin T channel s.se.card k := by
  constructor
  · rintro ⟨fetched, s', hrun, commands, hreports, hfew⟩ command card n hasks
    obtain ⟨fuel, hdone⟩ := hrun.reached
    obtain ⟨m, hends⟩ := signEnds_of_done hfits hready hdone
    -- the run has just as many commands
    obtain ⟨_, t, hrun', commands', hreports', hcount⟩ := hends.attains hready signature
    obtain ⟨_, rfl⟩ := hrun.unique hrun'
    rw [hreports.unique hreports', hcount] at hfew
    obtain ⟨left, hleft, hrest⟩ := hasks.left hends
    obtain ⟨hpos, hconcludes⟩ := hrest.pos
    exact ⟨by omega, (concludes_iff_asks hfits).mp hconcludes⟩
  · intro hsigns
    obtain ⟨m, hfew, hends⟩ := hsigns.ends hfits .first
    obtain ⟨fetched, s', hrun, commands, hreports, hcount⟩ := hends.attains hready signature
    exact ⟨fetched, s', hrun, commands, hreports, by omega⟩

end Signatures

end Mias

/-! ### The bounds -/

/-- **Follow-ups are bounded by the card.** A command ends, with at most `k` follow-ups, exactly if the card answers
at most `k` of its APDUs in a row with a bare `6Cxx` or `61xx`. A signature ends, with at most `k` commands behind the
first, exactly if the card answers at most `k` of them in a row with data and `61xx`, each after finitely many
follow-ups. -/
theorem follow_ups_bounded_iff (hfits : Fits T) :
    (∀ command (s : SEInterface σ) k, FollowsAtMost T command k s ↔ AsksAtMost T command s.card k) ∧
    (∀ channel (s : Linked σ Mias) k signature, Mias.Ready channel s.obj →
      (Mias.SignatureFollowsAtMost T signature k s ↔ Mias.SignsWithin T channel s.se.card k)) :=
  ⟨fun _ s _ => followsAtMost_iff hfits s, fun _ _ _ signature hready =>
    Mias.signatureFollowsAtMost_iff hfits hready signature⟩

/-- A card that answers the first APDU with `6C02`, the next with data and `6101`, and all others with the rest. -/
def twoPartCard : Transport Nat
  | 0, _ => (some [0x6C, 0x02], 1)
  | 1, _ => (some [0xAA, 0x61, 0x01], 2)
  | n + 2, _ => (some [0xBB, 0x90, 0x00], n + 2)

theorem twoPartCard_fits : Fits twoPartCard := by
  intro card apdu answer h
  match card with
  | 0 => cases h; decide
  | 1 => cases h; decide
  | n + 2 => cases h; decide

theorem twoPartCard_asks (command : List UInt8) (start : Nat) : AsksAtMost twoPartCard command start 1 := by
  suffices ∀ {sent card earlier}, Puts twoPartCard command start sent card earlier →
      earlier.length ≤ 1 ∧ (earlier = [] ∨ card = 1) from fun _ _ _ hputs => (this hputs).1
  intro sent card earlier hputs
  induction hputs with
  | first => exact ⟨Nat.zero_le 1, .inl rfl⟩
  | @next _ _ card earlier _ hnext ih =>
      match card with
      | 0 =>
          obtain rfl := ih.2.resolve_right (by decide)
          exact ⟨Nat.le_refl 1, .inr rfl⟩
      | 1 => cases hnext
      | n + 2 => cases hnext

theorem twoPartCard_first (command : List UInt8) : Concludes twoPartCard 0 command (some [0xAA, 0x61, 0x01]) 2 := by
  have hresent : Settles twoPartCard 1 (resendApdu command 0x02) [0xAA, 0x61, 0x01] 2 :=
    .final rfl (by decide) (by decide)
  exact .resend rfl hresent

theorem twoPartCard_second (command : List UInt8) : Concludes twoPartCard 2 command (some [0xBB, 0x90, 0x00]) 2 :=
  .final rfl (by decide) (by decide)

theorem twoPartCard_signs : Mias.SignsWithin twoPartCard 0 0 1 := by
  suffices ∀ {command card n}, Mias.Asks twoPartCard 0 0 command card n → n = 0 ∧ card = 0 ∨ n = 1 ∧ card = 2 by
    intro command card n hasks
    refine ⟨?_, 1, twoPartCard_asks command card⟩
    rcases this hasks with ⟨rfl, _⟩ | ⟨rfl, _⟩ <;> decide
  intro command card n hasks
  induction hasks with
  | first => exact .inl ⟨rfl, rfl⟩
  | @next command answer _ _ _ _ hconcludes hmore ih =>
      rcases ih with ⟨rfl, rfl⟩ | ⟨rfl, rfl⟩
      · exact .inr ⟨rfl, (hconcludes.unique (twoPartCard_first command)).2⟩
      · obtain ⟨heq, _⟩ := hconcludes.unique (twoPartCard_second command)
        cases heq
        exact absurd hmore.2 (by decide)

/-- A command after one resend, and a signature of two fragments, the first of them after one resend. -/
theorem follow_ups_bounded_twoParts :
    FollowsAtMost twoPartCard [0x00, 0xB0, 0x00, 0x00, 0x10] 1 (.create 0 .zero) ∧
    Mias.SignatureFollowsAtMost twoPartCard Mem.zero 1 ⟨.create 0 .zero, Mias.selectedMias⟩ :=
  ⟨((follow_ups_bounded_iff twoPartCard_fits).1 _ (.create 0 .zero) 1).mpr (twoPartCard_asks _ 0),
    ((follow_ups_bounded_iff twoPartCard_fits).2 0 ⟨.create 0 .zero, Mias.selectedMias⟩ 1 Mem.zero
      Mias.selectedMias_ready).mpr twoPartCard_signs⟩

/-- A card that answers everything with `6C00`. -/
def wrongLengthCard : Transport Unit := fun _ _ => (some [0x6C, 0x00], ())

theorem wrongLengthCard_puts (command : List UInt8) (n : Nat) :
    ∃ sent earlier, Puts wrongLengthCard command () sent () earlier ∧ earlier.length = n := by
  induction n with
  | zero => exact ⟨command, [], .first, rfl⟩
  | succ n ih =>
      obtain ⟨sent, earlier, hputs, hlen⟩ := ih
      have hnext : nextApdu sent (wrongLengthCard () sent).1 = some (resendApdu sent 0x00) := rfl
      exact ⟨_, _, hputs.next hnext, by rw [List.length_cons, hlen]⟩

/-- A card that answers everything with a byte of data and `6101`. -/
def endlessCard : Transport Unit := fun _ _ => (some [0xAA, 0x61, 0x01], ())

theorem endlessCard_asks (n : Nat) : ∃ command, Mias.Asks endlessCard 0 () command () n := by
  induction n with
  | zero => exact ⟨_, .first⟩
  | succ n ih =>
      obtain ⟨command, hasks⟩ := ih
      have hconcludes : Concludes endlessCard () command (some [0xAA, 0x61, 0x01]) () :=
        .final rfl (by decide) (by decide)
      exact ⟨_, hasks.next hconcludes ⟨by decide, by decide⟩⟩

/-- No number bounds the APDUs of a command to the one card, and none the commands of a signature to the other. -/
theorem follow_ups_unbounded :
    (¬∃ k, FollowsAtMost wrongLengthCard [0x00, 0xB0, 0x00, 0x00, 0x10] k (.create () .zero)) ∧
    ¬∃ k, Mias.SignatureFollowsAtMost endlessCard Mem.zero k ⟨.create () .zero, Mias.selectedMias⟩ := by
  constructor
  · rintro ⟨k, hfollows⟩
    have hfits : Fits wrongLengthCard := fun _ _ _ h => by cases h; decide
    obtain ⟨sent, earlier, hputs, hlen⟩ := wrongLengthCard_puts [0x00, 0xB0, 0x00, 0x00, 0x10] (k + 1)
    have hfew := (followsAtMost_iff hfits _).mp hfollows _ _ _ hputs
    omega
  · rintro ⟨k, hfollows⟩
    have hfits : Fits endlessCard := fun _ _ _ h => by cases h; decide
    obtain ⟨command, hasks⟩ := endlessCard_asks (k + 1)
    have hfew := ((Mias.signatureFollowsAtMost_iff hfits Mias.selectedMias_ready Mem.zero).mp hfollows _ _ _ hasks).1
    omega

end TrustOnboard
