import TrustOnboard.SdkTrace
import TrustOnboard.SdkProcess

/-! No use of protected material before authentication. Three monitors read the log: the open session
of the MIAS applet, whether a VERIFY has succeeded in it, and whether `p11GetObjectByLabel` is
running. `Protected` says that each guarded command was sent in an authenticated session. -/

namespace TrustOnboard.Sdk

open Exec Linked SEInterface

/-! ### Monitors -/

/-- The channel of the MIAS session that is open after a log: from a successful `select` to the next
`select` or `deselect` of the applet. The newest event is the first. -/
def session : List Event → Option UInt8
  | [] => none
  | .note (.selected aid channel) :: earlier => if aid = Mias.aid then some channel else session earlier
  | .note (.selecting aid) :: earlier => if aid = Mias.aid then none else session earlier
  | .note (.deselecting aid) :: earlier => if aid = Mias.aid then none else session earlier
  | _ :: earlier => session earlier

/-- A VERIFY was answered `9000` in the open session, on its channel. -/
def authenticated : List Event → Bool
  | [] => false
  | .note (.selected aid _) :: earlier => if aid = Mias.aid then false else authenticated earlier
  | .note (.selecting aid) :: earlier => if aid = Mias.aid then false else authenticated earlier
  | .note (.deselecting aid) :: earlier => if aid = Mias.aid then false else authenticated earlier
  | .answered command answer :: earlier =>
      decide (insOf command = SCIns.verify.code ∧ statusWord answer = swOK ∧
        session earlier = some (command.getD 0 0)) || authenticated earlier
  | _ :: earlier => authenticated earlier

/-- `p11GetObjectByLabel` has been entered and not left. -/
def inP11 : List Event → Bool
  | [] => false
  | .note .p11Enter :: _ => true
  | .note .p11Leave :: _ => false
  | _ :: earlier => inP11 earlier

/-- The commands that use protected material. -/
def Guarded (apdu : List UInt8) (earlier : List Event) : Prop :=
  insOf apdu = SCIns.manageSecurityEnvironment.code ∨
    insOf apdu = SCIns.performSecurityOperation.code ∨
    (insOf apdu = SCIns.readBinary.code ∧ inP11 earlier = true)

/-- The APDU was sent in an authenticated session and addresses its channel. -/
def Authorised (apdu : List UInt8) (earlier : List Event) : Prop :=
  ∃ channel cla, session earlier = some channel ∧ authenticated earlier = true ∧
    (cla = 0x00 ∨ cla = 0x10) ∧ apdu.getD 0 0 = cla ||| channel

/-- Every guarded command of a log was authorised by what was logged before it. -/
def Protected (log : List Event) : Prop :=
  ∀ later apdu answer earlier, log = later ++ .exchange apdu answer :: earlier → Guarded apdu earlier →
    Authorised apdu earlier

theorem protected_nil : Protected [] := by
  intro later apdu answer earlier hlog
  cases later <;> cases hlog

theorem protected_cons {event : Event} {log : List Event} (h : Protected log)
    (hevent : ∀ apdu answer, event = .exchange apdu answer → Guarded apdu log → Authorised apdu log) :
    Protected (event :: log) := by
  intro later apdu answer earlier hlog
  cases later with
  | nil =>
      cases hlog
      exact hevent apdu answer rfl
  | cons other later =>
      cases hlog
      exact h later apdu answer earlier rfl

/-- The notes written between selection and deselection. -/
def InnerNote : Note → Prop
  | .reading _ _ => True
  | .p11Enter => True
  | .p11Leave => True
  | _ => False

def ReadingNote : Note → Prop
  | .reading _ _ => True
  | _ => False

/-- The instructions that are guarded wherever they stand. -/
def protectedIns : List SCIns := [.manageSecurityEnvironment, .performSecurityOperation]

section Events

variable {ins : SCIns → Prop} {notes : Note → Prop} {channel : UInt8} {events log : List Event} {event : Event}

/-- Events without selection notes keep the session and what was verified in it. -/
theorem session_event (log : List Event) (h : OfChannel ins notes channel event) (hnotes : ∀ n, notes n → InnerNote n) :
    session (event :: log) = session log ∧ (authenticated log = true → authenticated (event :: log) = true) := by
  cases event with
  | exchange apdu answer => exact ⟨rfl, id⟩
  | answered command answer =>
      refine ⟨rfl, fun hauth => ?_⟩
      rw [authenticated, hauth, Bool.or_true]
  | unanswered command => exact ⟨rfl, id⟩
  | note n =>
      have hinner := hnotes n h
      cases n with
      | selecting | selected | deselecting => cases hinner
      | p11Enter | p11Leave | reading => exact ⟨rfl, id⟩

theorem session_events (log : List Event) (h : ∀ event ∈ events, OfChannel ins notes channel event)
    (hnotes : ∀ n, notes n → InnerNote n) :
    session (events ++ log) = session log ∧
      (authenticated log = true → authenticated (events ++ log) = true) := by
  induction events with
  | nil => exact ⟨rfl, id⟩
  | cons event events ih =>
      rw [List.forall_mem_cons] at h
      obtain ⟨hsession, hauth⟩ := ih h.2
      obtain ⟨hsession', hauth'⟩ := session_event (events ++ log) h.1 hnotes
      exact ⟨hsession'.trans hsession, fun hlog => hauth' (hauth hlog)⟩

theorem guarded_exchange {apdu : List UInt8} {answer : Option (List UInt8)}
    (h : OfChannel ins notes channel (.exchange apdu answer)) (hguarded : Guarded apdu log) :
    ∃ cla i, (cla = 0x00 ∨ cla = 0x10) ∧ ins i ∧ insOf apdu = i.code ∧ apdu.getD 0 0 = cla ||| channel := by
  rcases h.exchange_ins with hins | hget
  · exact hins
  · rw [Guarded, hget] at hguarded
    rcases hguarded with h | h | h
    · exact absurd h (by decide)
    · exact absurd h (by decide)
    · exact absurd h.1 (by decide)

/-- In an authenticated session every command of its channel is authorised. -/
theorem protected_of_authenticated (h : ∀ event ∈ events, OfChannel ins notes channel event)
    (hnotes : ∀ n, notes n → InnerNote n) (hlog : Protected log) (hsession : session log = some channel)
    (hauth : authenticated log = true) : Protected (events ++ log) := by
  induction events with
  | nil => exact hlog
  | cons event events ih =>
      rw [List.forall_mem_cons] at h
      obtain ⟨hsame, hkeep⟩ := session_events log h.2 hnotes
      refine protected_cons (ih h.2) ?_
      rintro apdu answer rfl hguarded
      obtain ⟨cla, _, hcla, _, _, hclass⟩ := guarded_exchange h.1 hguarded
      exact ⟨channel, cla, hsame.trans hsession, hkeep hauth, hcla, hclass⟩

/-- Outside of `p11GetObjectByLabel`, commands other than the two guarded ones need no session. -/
theorem protected_of_plain (h : ∀ event ∈ events, Wire (· ∉ protectedIns) (· ≠ .p11Enter) event)
    (hlog : Protected log) (hp11 : inP11 log = false) :
    Protected (events ++ log) ∧ inP11 (events ++ log) = false := by
  induction events with
  | nil => exact ⟨hlog, hp11⟩
  | cons event events ih =>
      rw [List.forall_mem_cons] at h
      obtain ⟨hrest, hp11'⟩ := ih h.2
      obtain ⟨⟨channel, hevent⟩, _⟩ := h
      refine ⟨protected_cons hrest ?_, ?_⟩
      · rintro apdu answer rfl hguarded
        obtain ⟨_, i, _, hi, hins, _⟩ := guarded_exchange hevent hguarded
        rw [Guarded, hins] at hguarded
        rcases hguarded with hcode | hcode | ⟨_, hp11''⟩
        · cases i <;> first | exact absurd (by decide) hi | exact absurd hcode (by decide)
        · cases i <;> first | exact absurd (by decide) hi | exact absurd hcode (by decide)
        · change inP11 (events ++ log) = true at hp11''
          rw [hp11'] at hp11''
          cases hp11''
      · cases event with
        | note n =>
            cases n with
            | p11Enter => exact absurd rfl hevent
            | p11Leave => rfl
            | _ => exact hp11'
        | _ => exact hp11'

end Events

/-! ### Assertions along a call -/

variable {σ : Type} {T : Transport σ} {s s' : Sdk σ} {channel : UInt8}

/-- Between calls, and during a call outside of a session. -/
structure Idle (s : Sdk σ) : Prop where
  log : Protected s.se.log
  outside : inP11 s.se.log = false
  aid : s.mias.applet.aid = Mias.aid

/-- The MIAS applet is selected on the channel of the open session. -/
structure Opened (channel : UInt8) (s : Sdk σ) : Prop extends Idle s where
  session : session s.se.log = some channel
  channel : s.mias.applet.channel = channel

/-- The PIN was verified in the open session. -/
structure Ready (channel : UInt8) (s : Sdk σ) : Prop extends Opened channel s where
  verified : authenticated s.se.log = true

/-- What holds of a run that is cut. -/
def CutSafe (s : Sdk σ) : Prop := Protected s.se.log

theorem Idle.grows (h : Idle s)
    (hgrows : OnWire T Sdk.se (Wire (· ∉ protectedIns) (· ≠ .p11Enter)) s s')
    (haid : s'.mias.applet.aid = s.mias.applet.aid) : Idle s' := by
  obtain ⟨events, hlog, _, hkind⟩ := hgrows
  obtain ⟨hprotected, hp11⟩ := protected_of_plain hkind h.log h.outside
  rw [← hlog] at hprotected hp11
  exact ⟨hprotected, hp11, haid.trans h.aid⟩

theorem cutSafe_of_plain (h : Idle s)
    (hgrows : OnWire T Sdk.se (Wire (· ∉ protectedIns) (· ≠ .p11Enter)) s s') : CutSafe s' := by
  obtain ⟨events, hlog, _, hkind⟩ := hgrows
  rw [CutSafe, hlog]
  exact (protected_of_plain hkind h.log h.outside).1

theorem p11_of_selectionNote (n : Note) (h : SelectionNote n) : n ≠ .p11Enter := by
  rintro rfl
  exact h

theorem inner_of_reading (n : Note) (h : ReadingNote n) : InnerNote n := by
  cases n with
  | reading base size => trivial
  | _ => cases h

theorem inP11_of_reading {ins : SCIns → Prop} {log events : List Event}
    (h : ∀ event ∈ events, OfChannel ins ReadingNote channel event) : inP11 (events ++ log) = inP11 log := by
  induction events with
  | nil => rfl
  | cons event events ih =>
      rw [List.forall_mem_cons] at h
      rw [List.cons_append, ← ih h.2]
      cases event with
      | note n =>
          have hreading : ReadingNote n := h.1
          cases n with
          | reading base size => rfl
          | _ => cases hreading
      | _ => rfl

/-- Functions of the MF applet leave the MIAS object alone. -/
theorem onMF_idle {α : Type} {program : Exec (Linked σ Applet) α} (h : Idle s)
    (hprogram : Stays (OnWire T Linked.se (Wire (· ∉ protectedIns) (· ≠ .p11Enter))) program) :
    Meets (onMF program) s (fun _ s' => Idle s') CutSafe := by
  have hwire : Stays (OnWire T Sdk.se (Wire (· ∉ protectedIns) (· ≠ .p11Enter))) (onMF program) :=
    onMF_onWire hprogram
  have hmias : Stays (fun s s' : Sdk σ => s'.mias = s.mias) (onMF program) := fun _ _ => rfl
  refine ((hwire.meets s).and_stays hmias).mono (fun _ s' hrun => ?_) fun s' hrun => ?_
  · exact h.grows hrun.1 (by rw [hrun.2])
  · exact cutSafe_of_plain h hrun.1

theorem selectMias_meets (h : Idle s) :
    Meets (selectMias T) s (fun ok s' => Idle s' ∧ (ok = true → ∃ channel, Opened channel s')) CutSafe := by
  have hwire : Stays (OnWire T Linked.se (Wire (· ∉ protectedIns) (· ≠ .p11Enter))) (Applet.select T false) :=
    Applet.select_onWire (by decide) (by decide) p11_of_selectionNote false
  refine .zoom (.zoom (((Applet.select_meets T false _).and_stays hwire).mono ?_ ?_))
  · rintro ok t ⟨⟨events, htrace, hlog, _⟩, hgrows⟩
    have hidle : Idle (setMiasApplet t s) := h.grows hgrows htrace.identity.1
    refine ⟨hidle, fun hok => ⟨t.obj.channel, hidle, ?_, rfl⟩⟩
    rw [hok] at htrace
    obtain ⟨_, rest, hevents⟩ := htrace.selected
    change session t.se.log = _
    rw [hlog, hevents]
    change (if s.mias.applet.aid = Mias.aid then _ else _) = _
    rw [if_pos h.aid]
  · rintro t ⟨_, hgrows⟩
    show CutSafe (setMiasApplet t s)
    exact cutSafe_of_plain h hgrows

theorem deselectMias_meets (h : Idle s) : Meets (deselectMias T) s (fun _ s' => Idle s') CutSafe := by
  have hwire : Stays (OnWire T Linked.se (Wire (· ∉ protectedIns) (· ≠ .p11Enter))) (Applet.deselect T) :=
    Applet.deselect_onWire (by decide) p11_of_selectionNote
  refine .zoom (.zoom (((Applet.deselect_meets T _).and_stays hwire).mono ?_ ?_))
  · rintro ok t ⟨⟨events, htrace, _⟩, hgrows⟩
    show Idle (setMiasApplet t s)
    exact h.grows hgrows htrace.identity.1
  · rintro t ⟨_, hgrows⟩
    show CutSafe (setMiasApplet t s)
    exact cutSafe_of_plain h hgrows

/-- What the MIAS object does in its session, as a step of the whole. -/
theorem onMias_meets {α : Type} {program : Exec (Linked σ Mias) α} {ins : SCIns → Prop} {notes : Note → Prop}
    (hprogram : Stays (Within T Mias.applet ins notes) program) (s : Sdk σ) :
    Meets (onMias program) s
      (fun _ s' => s'.mias.applet = s.mias.applet ∧
        Grows T (OfChannel ins notes s.mias.applet.channel) s.se s'.se)
      (fun s' => Grows T (OfChannel ins notes s.mias.applet.channel) s.se s'.se) :=
  .zoom ((hprogram.meets _).mono (fun _ _ hwithin => hwithin) fun _ hwithin => hwithin.2)

/-- Plain reads in the session before the PIN is verified. -/
theorem onMias_opened {α : Type} {program : Exec (Linked σ Mias) α} (h : Opened channel s)
    (hprogram : Stays (Within T Mias.applet (· ∉ protectedIns) ReadingNote) program) :
    Meets (onMias program) s (fun _ s' => Opened channel s') CutSafe := by
  have hplain : ∀ s', Grows T (OfChannel (· ∉ protectedIns) ReadingNote s.mias.applet.channel) s.se s'.se →
      OnWire T Sdk.se (Wire (· ∉ protectedIns) (· ≠ .p11Enter)) s s' := by
    intro s' hgrows
    refine hgrows.mono fun event hevent => ⟨_, hevent.mono (fun _ hi => hi) ?_⟩
    rintro n hn rfl
    exact hn
  refine (onMias_meets hprogram s).mono ?_ fun s' hgrows => cutSafe_of_plain h.toIdle (hplain s' hgrows)
  rintro _ s' ⟨happlet, hgrows⟩
  have hidle := h.toIdle.grows (hplain s' hgrows) (by rw [happlet])
  obtain ⟨events, hlog, _, hkind⟩ := hgrows
  refine ⟨hidle, ?_, by rw [happlet, h.channel]⟩
  rw [hlog, (session_events s.se.log hkind inner_of_reading).1, h.session]

/-- In the authenticated session anything goes; whether `p11GetObjectByLabel` has been left again is
a matter of its own. -/
theorem onMias_ready {α : Type} {program : Exec (Linked σ Mias) α} {ins : SCIns → Prop} {notes : Note → Prop}
    (h : Ready channel s) (hprogram : Stays (Within T Mias.applet ins notes) program)
    (hnotes : ∀ n, notes n → InnerNote n)
    (houtside : Meets (onMias program) s (fun _ s' => inP11 s'.se.log = false) (fun _ => True)) :
    Meets (onMias program) s (fun _ s' => Ready channel s') CutSafe := by
  have hsafe : ∀ s' : Sdk σ, Grows T (OfChannel ins notes s.mias.applet.channel) s.se s'.se →
      Protected s'.se.log := by
    rintro s' ⟨events, hlog, _, hkind⟩
    rw [h.channel] at hkind
    rw [hlog]
    exact protected_of_authenticated hkind hnotes h.log h.session h.verified
  refine ((onMias_meets hprogram s).and houtside).mono ?_ fun s' hcut => hsafe s' hcut.1
  rintro _ s' ⟨⟨happlet, hgrows⟩, hleft⟩
  have hprotected := hsafe s' hgrows
  obtain ⟨events, hlog, _, hkind⟩ := hgrows
  obtain ⟨hsame, hkeep⟩ := session_events s.se.log hkind hnotes
  rw [← hlog] at hsame hkeep
  exact ⟨⟨⟨hprotected, hleft, by rw [happlet, h.aid]⟩, hsame.trans h.session, by rw [happlet, h.channel]⟩,
    hkeep h.verified⟩

theorem onMias_ready_reading {α : Type} {program : Exec (Linked σ Mias) α} (h : Ready channel s)
    (hprogram : Stays (Within T Mias.applet (fun _ => True) ReadingNote) program) :
    Meets (onMias program) s (fun _ s' => Ready channel s') CutSafe := by
  refine onMias_ready h hprogram inner_of_reading ((onMias_meets hprogram s).mono ?_ fun _ _ => trivial)
  rintro _ s' ⟨_, events, hlog, _, hkind⟩
  rw [hlog, inP11_of_reading hkind, h.outside]

theorem p11GetObjectByLabel_ready (h : Ready channel s) (locals : Mias.P11Locals) (label : List UInt8)
    (object : Option Mem) :
    Meets (onMias (Mias.p11GetObjectByLabel T locals label object)) s (fun _ s' => Ready channel s')
      CutSafe := by
  have hlookup : Stays (Within T Mias.applet (fun _ => True) InnerNote)
      (Mias.p11GetObjectByLabel T locals label object) := by
    refine .bind (note_within trivial) fun _ => .bind (Mias.p11Lookup_stays Mias.within_bears trivial trivial
      (fun _ _ => trivial) _ _ _) fun fetched => ?_
    exact .bind (note_within trivial) fun _ => .pure _
  refine onMias_ready h hlookup (fun _ hn => hn) (.zoom (.modify_bind ?_))
  -- the last note is that the function was left
  refine .bind (((Mias.p11Lookup_stays Mias.within_bears trivial trivial
    (fun _ _ => trivial) locals label object).meets _).mono
    (fun _ _ h => h) fun _ _ => trivial) fun fetched t (_ : Within T _ (fun _ => True) InnerNote _ t) => ?_
  exact .modify_bind (.pure rfl)

/-- A VERIFY answered `9000` authenticates the open session. -/
theorem verifyPin_opened (h : Opened channel s) (pin : List UInt8) :
    Meets (onMias (Mias.verifyPin T pin)) s
      (fun ok s' => Opened channel s' ∧ (ok = true → Ready channel s')) CutSafe := by
  have hanswer : Meets (onMias (Mias.verifyPin T pin)) s
      (fun ok s' => ok = true → ∃ rest command answer, s'.se.log = .answered command answer :: rest ∧
        insOf command = SCIns.verify.code ∧ command.getD 0 0 = 0x00 ||| s.mias.applet.channel ∧
        statusWord answer = swOK)
      (fun _ => True) := by
    refine .zoom (.zoom ((Applet.ok_meets (fill_transmits (command_transmits T _))).mono ?_ fun _ _ => trivial))
    rintro ok t ⟨_, ⟨rfl, _⟩ | ⟨_, result, events, hran, rfl⟩⟩ hok
    · cases hok
    · obtain ⟨answer, rfl, hsw⟩ := Applet.answer_of_accepted hok
      obtain ⟨last, earlier, _, _, hevents⟩ := hran.ended
      have hlog := hran.log_eq
      rw [hevents] at hlog
      exact ⟨_, _, _, hlog, rfl, rfl, hsw⟩
  have hwithin : Stays (Within T Mias.applet (· ∉ protectedIns) ReadingNote) (Mias.verifyPin T pin) :=
    Mias.verifyPin_stays Mias.within_bears (by decide) trivial
  have hopened := onMias_opened h hwithin
  refine (hopened.and hanswer).mono ?_ fun _ hcut => hcut.1
  rintro ok s' ⟨hopened, hanswer⟩
  refine ⟨hopened, fun hok => ⟨hopened, ?_⟩⟩
  obtain ⟨rest, command, answer, hlog, hins, hclass, hsw⟩ := hanswer hok
  have hsession := hopened.session
  rw [hlog] at hsession ⊢
  rw [h.channel, UInt8.zero_or] at hclass
  rw [authenticated, Bool.or_eq_true, decide_eq_true_eq]
  refine .inl ⟨hins, hsw, ?_⟩
  rw [hclass]
  exact hsession

/-! ### The calls -/

theorem seReadObject_idle (h : Idle s) (locals : Locals) (path : List UInt8) (obj : Option Mem)
    (size : Int) (pin : Option (List UInt8)) :
    Meets (seReadObject T locals path obj size pin) s (fun _ s' => Idle s') CutSafe := by
  refine .ite (fun _ => .pure h) fun _ => ?_
  refine .bind (.isolated (fun _ => h) h.log) fun efname t (h : Idle t) => ?_
  refine .ite (fun _ => .pure h) fun _ => ?_
  have hselected : Meets (seReadEfSelected T locals efname.2 obj pin) t (fun _ s' => Idle s') CutSafe := by
    refine .bind (onMF_idle h (Applet.select_onWire (by decide) (by decide) p11_of_selectionNote false))
      fun selected t h => .ite (fun _ => ?_) fun _ => .pure h
    refine .bind (withStrlen_meets h h.log pin) fun pin t h => ?_
    refine .bind (onMF_idle h ((MF.verifyPin_within (by decide) pin).mono fun _ _ hwithin => hwithin.onWire))
      fun ok t h => .ite (fun _ => ?_) fun _ => .pure h
    refine .bind (onMF_idle h ((MF.readEF_within (by decide) (by decide) _ _ _).mono
      fun _ _ hwithin => hwithin.onWire)) fun read t h => ?_
    exact .ite (fun _ => .pure h) fun _ => .pure h
  refine .bind hselected fun result t h => .bind (onMF_idle h (Applet.deselect_onWire (by decide)
    p11_of_selectionNote)) fun _ t h => .pure h

theorem seP11ReadObject_idle (h : Idle s) (locals : Locals) (label : List UInt8) (obj : Option Mem)
    (size : Int) (pin : Option (List UInt8)) :
    Meets (seP11ReadObject T locals label obj size pin) s (fun _ s' => Idle s') CutSafe := by
  have hselected : Meets (seP11ReadSelected T locals label obj size pin) s (fun _ s' => Idle s') CutSafe := by
    refine .bind (selectMias_meets h) fun selected t h => .ite (fun hok => ?_) fun _ => .pure h.1
    obtain ⟨channel, hopened⟩ := h.2 hok
    refine .bind (withStrlen_meets hopened hopened.log pin) fun pin t hopened => ?_
    refine .bind (verifyPin_opened hopened pin) fun ok t h => .ite (fun hok => ?_) fun _ => .pure h.1.toIdle
    refine .bind (withStrlen_meets (h.2 hok) h.1.log (some label)) fun label t hready => ?_
    refine .bind (p11GetObjectByLabel_ready hready _ _ _) fun fetched t hready => ?_
    exact .ite (fun _ => .pure hready.toIdle) fun _ => .pure hready.toIdle
  exact .bind hselected fun result t h => .bind (deselectMias_meets h) fun _ t h => .pure h

theorem tobX509CrtExtractSe_idle (h : Idle s) (locals : Locals) (cert : Option Mem) (size : Int)
    (path : List UInt8) (pin : Option (List UInt8)) :
    Meets (tobX509CrtExtractSe T locals cert size path pin) s (fun _ s' => Idle s') CutSafe := by
  refine .ite (fun _ => seReadObject_idle h _ _ _ _ _) fun _ => ?_
  refine .ite (fun _ => seP11ReadObject_idle h _ _ _ _ _) fun _ => ?_
  refine .ite (fun _ => ?_) fun _ => .pure h
  have hselected : Meets (certificateSelected T locals
      (containerIdOf (path.drop SE_MIAS_KEY_NAME_PREFIX.length)) cert size) s (fun _ s' => Idle s') CutSafe := by
    refine .bind (selectMias_meets h) fun selected t h => .ite (fun hok => ?_) fun _ => .pure h.1
    obtain ⟨channel, hopened⟩ := h.2 hok
    refine .bind (onMias_opened hopened
      (Mias.getCertificateByContainerId_stays Mias.within_bears (by decide) (by decide)
        (fun _ _ => trivial) _ _ _ _)) fun fetched t h => ?_
    exact .ite (fun _ => .pure h.toIdle) fun _ => .pure h.toIdle
  exact .bind hselected fun result t h => .bind (deselectMias_meets h) fun _ t h => .pure h

theorem tobPkExtractSe_idle (h : Idle s) (locals : Locals) (pk : Option Mem) (size : Int)
    (path : List UInt8) (pin : Option (List UInt8)) :
    Meets (tobPkExtractSe T locals pk size path pin) s (fun _ s' => Idle s') CutSafe := by
  refine .ite (fun _ => ?_) fun _ => .ite (fun _ => ?_) fun _ => .pure h
  · exact .bind (seReadObject_idle h _ _ _ _ _) fun _ t h => nulAppended_meets h h.log
  · exact .bind (seP11ReadObject_idle h _ _ _ _ _) fun _ t h => nulAppended_meets h h.log

theorem guarded_idle {α : Type} {body : Exec (Sdk σ) α} {failed : α} (h : Idle s)
    (hbody : ∀ channel t, Opened channel t → Meets body t (fun _ s' => Idle s') CutSafe) :
    Meets (guarded T body failed) s (fun _ s' => Idle s') CutSafe := by
  refine .bind (selectMias_meets h) fun selected t h => .ite (fun hok => ?_) fun _ => ?_
  · obtain ⟨channel, hopened⟩ := h.2 hok
    exact .bind (hbody channel t hopened) fun _ t h => .bind (deselectMias_meets h) fun _ t h => .pure h
  · exact .bind (.pure h.1) fun _ t h => .bind (deselectMias_meets h) fun _ t h => .pure h

theorem getKeyPairByContainerId_opened (h : Opened channel s) (containerId : UInt8) :
    Meets (onMias (Mias.getKeyPairByContainerId T containerId)) s (fun _ s' => Opened channel s') CutSafe :=
  onMias_opened h (Mias.getKeyPairByContainerId_stays Mias.within_bears (by decide) (by decide) containerId)

theorem verifyPin_idle (pin : List UInt8) (s : Sdk σ) (h : Opened channel s) :
    Meets (onMias (Mias.verifyPin T pin)) s (fun ok s' => Idle s' ∧ (ok = true → Ready channel s')) CutSafe :=
  (verifyPin_opened h pin).mono (fun _ _ hpost => ⟨hpost.1.toIdle, hpost.2⟩) fun _ hcut => hcut

theorem tobSigningSign_idle (h : Idle s) (algorithm : UInt8) (hash : Mem) (hashLen : Int)
    (signature : Mem) (len : Int) (pin : Option (List UInt8)) :
    Meets (tobSigningSign T algorithm hash hashLen signature len pin) s (fun _ s' => Idle s') CutSafe := by
  refine guarded_idle h fun channel t hopened => ?_
  refine keyOperation_meets (getKeyPairByContainerId_opened hopened _) (fun _ ht => ht.log) verifyPin_idle ?_ ?_
    (fun _ ht => ht.toIdle) fun _ ht => ht.toIdle
  · exact fun kid t ht => onMias_ready_reading ht (Mias.signInit_stays Mias.within_bears trivial _ _)
  · exact fun t ht => onMias_ready_reading ht (Mias.signFinal_stays Mias.within_bears trivial trivial _ _ _ _)

theorem tobSigningDecrypt_idle (h : Idle s) (cipher : Mem) (cipherLen : Int) (plain : Mem) (len : Int)
    (pin : Option (List UInt8)) :
    Meets (tobSigningDecrypt T cipher cipherLen plain len pin) s (fun _ s' => Idle s') CutSafe := by
  refine guarded_idle h fun channel t hopened => ?_
  refine keyOperation_meets (getKeyPairByContainerId_opened hopened _) (fun _ ht => ht.log) verifyPin_idle ?_ ?_
    (fun _ ht => ht.toIdle) fun _ ht => ht.toIdle
  · exact fun kid t ht => onMias_ready_reading ht (Mias.decryptInit_stays Mias.within_bears trivial _ _)
  · exact fun t ht => onMias_ready_reading ht (Mias.decryptFinal_stays Mias.within_bears trivial trivial _ trivial _ _)

theorem tobSigningLen_idle (h : Idle s) (pin : Option (List UInt8)) :
    Meets (tobSigningLen T pin) s (fun _ s' => Idle s') CutSafe := by
  refine guarded_idle h fun channel t hopened => ?_
  refine .bind (getKeyPairByContainerId_opened hopened _) fun found t hopened => ?_
  cases found with
  | none => exact .pure hopened.toIdle
  | some index => exact .gets hopened.toIdle

theorem apiCall_idle (h : Idle s) (call : ApiCall) :
    Meets (call.run T) s (fun _ s' => Idle s') CutSafe := by
  cases call with
  | extractAvailableCertificate locals legacyLocals cert size pin =>
      refine .bind ?_ fun _ _ h => .pure h
      refine .bind (tobX509CrtExtractSe_idle h _ _ _ _ _) fun first t h => .ite (fun _ => ?_) fun _ => .pure h
      exact .bind (tobX509CrtExtractSe_idle h _ _ _ _ _) fun second t h => .pure h
  | extractAvailablePrivateKey locals legacyLocals pem pemSize der derSize pin =>
      refine .bind (.bind ?_ fun _ _ h => .pure h) fun _ _ h => .pure h
      refine .bind (tobPkExtractSe_idle h _ _ _ _ _) fun first t h => .ite (fun _ => ?_) fun _ => .pure h
      exact tobPkExtractSe_idle h _ _ _ _ _
  | extractSigningCertificate locals pem pemSize der derSize pin =>
      refine .bind (.bind (tobX509CrtExtractSe_idle h _ _ _ _ _) fun _ _ h => .pure h) fun _ _ h => .pure h
  | signingSign algorithm hash hashLen signature len pin =>
      exact .bind (tobSigningSign_idle h _ _ _ _ _ _) fun _ _ h => .pure h
  | signingDecrypt cipher cipherLen plain len pin =>
      exact .bind (tobSigningDecrypt_idle h _ _ _ _ _) fun _ _ h => .pure h
  | signingLen pin => exact .bind (tobSigningLen_idle h _) fun _ _ h => .pure h
  | x509CrtExtractSe locals cert size path pin =>
      exact .bind (tobX509CrtExtractSe_idle h _ _ _ _ _) fun _ _ h => .pure h
  | pkExtractSe locals pk size path pin =>
      exact .bind (tobPkExtractSe_idle h _ _ _ _ _) fun _ _ h => .pure h

end TrustOnboard.Sdk

/-! ### Sequences of calls -/

namespace TrustOnboard.Process

open Exec Linked SEInterface Sdk

variable {σ : Type} {T : Transport σ} {p : Process σ}

/-- Between the calls of a process: nothing on any of its interfaces was sent without
authentication. -/
structure Sound (p : Process σ) : Prop where
  log : ∀ address, Protected (p.ifaces address).log
  outside : ∀ address, inP11 (p.ifaces address).log = false
  aid : p.mias.applet.aid = Mias.aid

def CutSound (p : Process σ) : Prop := ∀ address, Protected (p.ifaces address).log

theorem forall_update {P : SEInterface σ → Prop} {ifaces : Nat → SEInterface σ} (h : ∀ address, P (ifaces address))
    {address : Nat} {se : SEInterface σ} (hse : P se) (other : Nat) :
    P (Function.update ifaces address se other) := by
  by_cases heq : other = address
  · rw [heq, Function.update_self]
    exact hse
  · rw [Function.update_of_ne heq]
    exact h other

theorem tobInitializeWithInterface_sound (h : Sound p) (seiface : Option Nat) :
    Meets (tobInitializeWithInterface T seiface) p (fun _ p' => Sound p') CutSound := by
  cases seiface with
  | none => exact fun _ => ⟨h.log, h.outside, h.aid⟩
  | some address =>
      have hclose : Stays (Grows T (Wire (· ∉ protectedIns) (· ≠ .p11Enter))) (Applet.closeAllChannels T) :=
        Applet.closeAllChannels_grows (by decide)
      have hiface : ∀ se : SEInterface σ,
          Grows T (Wire (· ∉ protectedIns) (· ≠ .p11Enter)) (p.ifaces address) se →
          Protected se.log ∧ inP11 se.log = false := by
        rintro se ⟨events, hlog, _, hkind⟩
        rw [hlog]
        exact protected_of_plain hkind (h.log address) (h.outside address)
      refine .zoom_bind (hclose.meets _) (fun se hgrows => ?_) fun _ se hgrows => .modify_bind (.pure ?_)
      · exact forall_update (P := fun se => Protected se.log) h.log (hiface se hgrows).1
      · exact ⟨forall_update (P := fun se => Protected se.log) h.log (hiface se hgrows).1,
          forall_update (P := fun se => inP11 se.log = false) h.outside (hiface se hgrows).2, h.aid⟩

theorem tobInitialize_sound (h : Sound p) (opened : Option Nat) :
    Meets (tobInitialize T opened) p (fun _ p' => Sound p') CutSound := by
  refine .gets_bind (.ite (fun _ => .pure h) fun _ => ?_)
  cases opened with
  | none => exact .pure h
  | some address =>
      have hmodem : Sound { p with modem := some address } := ⟨h.log, h.outside, h.aid⟩
      exact .modify_bind (tobInitializeWithInterface_sound hmodem _)

theorem call_sound (h : Sound p) (call : Call) :
    Meets (call.run T) p (fun _ p' => Sound p') CutSound := by
  cases call with
  | tobInitializeWithInterface seiface =>
      exact .bind (tobInitializeWithInterface_sound h seiface) fun _ _ h => .pure h
  | tobInitialize opened => exact .bind (tobInitialize_sound h opened) fun _ _ h => .pure h
  | api call =>
      have hidle : Idle (sdkLens.get p) := ⟨h.log p.current, h.outside p.current, h.aid⟩
      refine .zoom_bind (apiCall_idle hidle call) (fun s hsafe => ?_) fun _ s hidle => .pure ?_
      · exact forall_update (P := fun se => Protected se.log) h.log hsafe
      · exact ⟨forall_update (P := fun se => Protected se.log) h.log hidle.log,
          forall_update (P := fun se => inP11 se.log = false) h.outside hidle.outside, hidle.aid⟩

theorem runCalls_sound (h : Sound p) (calls : List Call) :
    Meets (runCalls T calls) p (fun _ p' => Sound p') CutSound := by
  induction calls generalizing p with
  | nil => exact .pure h
  | cons call calls ih =>
      exact .bind (call_sound h call) fun _ p h => .bind (ih h) fun _ p h => .pure h

/-- **No use of protected material before authentication.** In every sequence of calls of a process
that starts with `tobInitializeWithInterface`, for all cards and however the last call ends: each
guarded command in the log of an interface was sent in a session of the MIAS applet in which a VERIFY
had been answered `9000`, on the channel of that session. -/
theorem no_use_before_authentication (T : Transport σ) (cards : Nat → σ) (buffers : Nat → Mem)
    (seiface : Option Nat) (calls : List Call) (fuel address : Nat) :
    Protected ((runCalls T (.tobInitializeWithInterface seiface :: calls) fuel
      (start cards buffers)).2.ifaces address).log := by
  have hstart : Sound (start cards buffers) := ⟨fun _ => protected_nil, fun _ => rfl, rfl⟩
  have hrun := runCalls_sound (T := T) hstart (.tobInitializeWithInterface seiface :: calls) fuel
  rcases hend : runCalls T (.tobInitializeWithInterface seiface :: calls) fuel (start cards buffers) with
    ⟨outcome, p'⟩
  rw [hend] at hrun
  cases outcome with
  | done results => exact hrun.log address
  | fault => exact hrun address
  | spent => exact hrun address

end TrustOnboard.Process
