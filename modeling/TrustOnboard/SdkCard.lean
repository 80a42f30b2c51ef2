import TrustOnboard.AppletSelection
import TrustOnboard.MiasFrame
import TrustOnboard.MiasListing
import TrustOnboard.MiasLookup
import TrustOnboard.RetryCounter
import TrustOnboard.SdkTrace

/-! Calls of the API on a card that can be worked with: it opens channels, selects the application on them and answers
VERIFY by the PIN. What a read of an object returns is then decided by the PIN and the files. -/

namespace TrustOnboard

open Exec Linked SEInterface

variable {σ : Type} {T : Transport σ}

/-- Another card, with this one in its state, that answers a command and its follow-ups in the same way. -/
theorem SEInterface.Settles.transfer {τ : Type} {T' : Transport τ} {card card' : σ} {command apdu answer : List UInt8}
    (h : Settles T card apdu answer card') (put : σ → τ)
    (hsame : ∀ card apdu, FollowUp command apdu → T' (put card) apdu = ((T card apdu).1, put (T card apdu).2))
    (hfollow : FollowUp command apdu) : Settles T' (put card) apdu answer (put card') := by
  induction h with
  | final h hbare hfit => exact .final (by rw [hsame _ _ hfollow, h]) hbare hfit
  | resend h _ ih => exact .resend (by rw [hsame _ _ hfollow, h]) (ih (.resend _ hfollow))
  | fetch h _ ih => exact .fetch (by rw [hsame _ _ hfollow, h]) (ih (.fetch _ hfollow))

namespace Applet

/-- A card that opens these channels and selects the application on them. Closing a channel may fail. -/
structure Admits (T : Transport σ) (channels : UInt8 → Prop) (aid : List UInt8) : Prop where
  opens : ∀ card, ∃ channel card', channels channel ∧ Settles T card openApdu [channel, 0x90, 0x00] card'
  selects : ∀ card channel, channels channel → ∃ answer card',
    Settles T card (selectApdu (0x00 ||| channel) aid) answer card' ∧ selectStatusOK (statusWord answer) = true
  closes : ∀ card channel, ∃ result card', Concludes T card (closeApdu channel) result card'

section Selection

variable {channels : UInt8 → Prop} {s : Linked σ Applet}

theorem accepted_concludes {program : Exec (SEInterface σ) Bool} {s : SEInterface σ} {command : List UInt8}
    {result : Option (List UInt8)} {card : σ} (h : Yields program s result.isSome (After command result card s)) :
    Yields (accepted program) s (acceptedResult result) (After command result card s) := by
  obtain ⟨s', hrun, hafter⟩ := h
  refine ⟨s', hrun.bind (Ends.of_eq fun fuel => ?_), hafter⟩
  cases result with
  | none => rfl
  | some answer =>
      rw [Option.isSome_some, if_pos rfl, gets_apply, (hafter.holds answer rfl).getStatusWord]
      rfl

/-- Only the selection flag may have changed. -/
def Reflagged (applet applet' : Applet) : Prop := ∃ flag, applet' = { applet with isSelected := flag }

/-- The end of `deselect`. -/
theorem deselected_attains {t : Linked σ Applet} (h : Reflagged s.obj t.obj) :
    Attains (gets fun s : Linked σ Applet => !s.obj.isSelected) t fun _ s' => Reflagged s.obj s'.obj :=
  ⟨_, t, .gets, h⟩

theorem unselect_attains {t : Linked σ Applet} (h : t.obj = s.obj) :
    Attains (setObj (fun a : Applet => { a with isSelected := false }) >>= fun _ => gets fun s => !s.obj.isSelected) t
      fun _ s' => Reflagged s.obj s'.obj := by
  apply Attains.modify_bind
  exact deselected_attains ⟨false, by rw [h]⟩

theorem deselect_attains {aid : List UInt8} (h : Admits T channels aid) (s : Linked σ Applet) :
    Attains (deselect T) s fun _ s' => Reflagged s.obj s'.obj := by
  apply Attains.gets_bind
  by_cases hattached : s.obj.attached = true
  · rw [if_pos hattached]
    apply Attains.modify_bind
    by_cases hlogical : (s.obj.isSelected && !s.obj.isBasic) = true
    · rw [if_pos hlogical]
      obtain ⟨result, card, hconcludes⟩ := h.closes s.se.card s.obj.channel
      have hclose := accepted_concludes (command_concludes (s := (noted (.deselecting s.obj.aid) s).se) hconcludes)
      have hclosed : Yields (onSE (accepted (closeChannel T s.obj.channel))) (noted (.deselecting s.obj.aid) s)
          (acceptedResult result) fun t => t.obj = s.obj := Yields.zoom hclose fun _ _ => rfl
      apply hclosed.bind_attains
      intro t hobj
      cases acceptedResult result with
      | true => exact unselect_attains hobj
      | false => exact deselected_attains ⟨s.obj.isSelected, hobj⟩
    · rw [if_neg hlogical]
      by_cases hbasic : (s.obj.isSelected && s.obj.isBasic) = true
      · rw [if_pos hbasic]
        exact unselect_attains rfl
      · rw [if_neg hbasic]
        exact deselected_attains ⟨s.obj.isSelected, rfl⟩
  · rw [if_neg hattached]
    exact deselected_attains ⟨s.obj.isSelected, rfl⟩

theorem selectAid_yields {cla : UInt8} {aid answer : List UInt8} {card : σ} {s : SEInterface σ} (haid : aid.length ≤ 255)
    (h : Settles T s.card (selectApdu cla aid) answer card) (hstatus : selectStatusOK (statusWord answer) = true) :
    Yields (selectAid T cla aid) s true fun _ => True := by
  have hsent : Answers (SEInterface.transmitCase3 T cla .select SCP1.SELECTByDFName
      (SCP2.SELECTFCITemplate ||| SCP2.SELECTFirstOrOnly) aid) s answer card := by
    refine Yields.bind (fill_yields ?_) fun t ht => ?_
    · simp only [List.length_cons, apduSize]
      omega
    · subst ht
      exact command_answers h
  obtain ⟨s', hrun, _, hholds⟩ := hsent
  refine ⟨s', hrun.bind (Ends.of_eq fun fuel => ?_), trivial⟩
  rw [if_pos rfl, gets_apply, hholds.getStatusWord, hstatus]

theorem selectOnChannel_attains {channel : UInt8} (h : Admits T channels s.obj.aid) (haid : s.obj.aid.length ≤ 255)
    (hchannel : channels channel) (heq : s.obj.channel = channel) :
    Attains (selectOnChannel T) s fun ok s' => ok = true ∧
      s'.obj = { s.obj with isSelected := true, isBasic := false } := by
  obtain ⟨answer, card, hsettles, hstatus⟩ := h.selects s.se.card channel hchannel
  rw [← heq] at hsettles
  have hselect : Yields (onSE (selectAid T (0x00 ||| s.obj.channel) s.obj.aid)) s true fun t => t.obj = s.obj :=
    Yields.zoom (selectAid_yields haid hsettles hstatus) fun _ _ => rfl
  apply Attains.gets_bind
  apply hselect.bind_attains
  intro t hobj
  rw [if_pos rfl]
  apply Attains.modify_bind
  apply Attains.modify_bind
  exact .pure ⟨rfl, by rw [← hobj]; rfl⟩

/-- On such a card an attached applet is selected on one of the channels. -/
theorem select_attains (h : Admits T channels s.obj.aid) (haid : s.obj.aid.length ≤ 255)
    (hattached : s.obj.attached = true) :
    Attains (select T false) s fun ok s' => ok = true ∧ ∃ channel, channels channel ∧
      s'.obj = { s.obj with channel, isSelected := true, isBasic := false } := by
  apply Attains.gets_bind
  rw [if_pos hattached]
  apply Attains.modify_bind
  apply (deselect_attains h (noted (.selecting s.obj.aid) s)).bind
  rintro _ t ⟨flag, hflag⟩
  have hobj : t.obj = { s.obj with isSelected := flag } := hflag
  rw [if_neg Bool.false_ne_true]
  obtain ⟨channel, card, hchannel, hsettles⟩ := h.opens t.se.card
  have hconcludes : Concludes T t.se.card openApdu (some [channel, 0x90, 0x00]) card := hsettles
  have haccepted : acceptedResult (some [channel, 0x90, 0x00]) = true := acceptedResult_append [channel]
  have hopen := accepted_concludes (command_concludes hconcludes)
  rw [haccepted] at hopen
  have hopened : Yields (onSE (accepted (openChannel T))) t true fun u =>
      u.obj = t.obj ∧ Holds u.se [channel, 0x90, 0x00] :=
    Yields.zoom hopen fun _ hafter => ⟨rfl, hafter.holds _ rfl⟩
  apply hopened.bind_attains
  rintro u ⟨hobj', hholds⟩
  rw [if_pos rfl]
  apply Attains.gets_bind
  have hdata : SEInterface.getResponse u.se = [channel] := hholds.getResponse
  rw [hdata]
  apply Attains.check_bind (Nat.le_refl 1)
  apply Attains.modify_bind
  have hsame : u.obj = { s.obj with isSelected := flag } := hobj'.trans hobj
  have hselect := selectOnChannel_attains (s := { u with obj := { u.obj with channel := channel } })
    (by rw [hsame]; exact h) (by rw [hsame]; exact haid) hchannel rfl
  obtain ⟨ok, v, hrun, hok, hend⟩ := hselect
  refine ⟨ok, v, hrun, hok, channel, hchannel, ?_⟩
  rw [hend, hsame]

end Selection

end Applet

namespace Mias

/-- VERIFY with this PIN. -/
def verifyApdu (channel : UInt8) (pin : List UInt8) : List UInt8 :=
  (0x00 ||| channel) :: SCIns.verify.code :: SCP1.VERIFYReserved :: (SCP2.BasicSecurityDFKey ||| 0x01) ::
    lowByte pin.length :: pin

section Objects

variable {channel : UInt8} {s : Linked σ Mias} {pin : List UInt8}

theorem verifyPin_concludes (hready : Ready channel s.obj) (hpin : pin.length ≤ 257)
    {result : Option (List UInt8)} {card : σ} (h : Concludes T s.se.card (verifyApdu channel pin) result card) :
    Yields (verifyPin T pin) s (Applet.acceptedResult result) fun s' => s'.obj = s.obj ∧ s'.se.card = card := by
  have hsent : Yields (SEInterface.transmitCase3 T (0x00 ||| channel) .verify SCP1.VERIFYReserved
      (SCP2.BasicSecurityDFKey ||| 0x01) pin) s.se result.isSome (After (verifyApdu channel pin) result card s.se) := by
    refine Yields.bind (Applet.fill_yields ?_) fun t ht => ?_
    · simp only [List.length_cons, apduSize]
      omega
    · subst ht
      obtain ⟨t, hrun, hafter⟩ := command_concludes (s := { s.se with apdu := verifyApdu channel pin }) h
      exact ⟨t, hrun, hafter.card_eq, hafter.reports, hafter.holds⟩
  exact (ok_concludes hready hsent).mono fun _ hafter => ⟨hafter.1, hafter.2.card_eq⟩

/-- The lookup, with what it leaves of the object. -/
theorem p11GetObjectByLabel_attains {image : P11Image} {current : σ → Nat} (h : image.ServedBy T channel current)
    (hready : Ready channel s.obj) (locals : P11Locals) (label : List UInt8) (object : Option Mem) :
    Attains (p11GetObjectByLabel T locals label object) s fun fetched s' => s'.obj.applet = s.obj.applet ∧
      fetched = match image.lookup label with
        | some file => found object file.value
        | none => ⟨false, object, 0⟩ := by
  have hlookup := p11Lookup_attains (s := noted .p11Enter s) h hready locals label object
  have hwithin : Stays (Within T Mias.applet (fun _ => True) fun _ => True) (p11Lookup T locals label object) :=
    p11Lookup_stays within_bears trivial trivial (fun _ _ => trivial) locals label object
  apply Attains.modify_bind
  apply (hlookup.stays hwithin).bind
  rintro fetched t ⟨hfetched, happlet, _⟩
  apply Attains.modify_bind
  exact .pure ⟨happlet, hfetched⟩

end Objects

end Mias

namespace Sdk

/-- What is passed on of a string with a 16-bit length. -/
def cut (text : List UInt8) : List UInt8 := text.take (text.length % 65536)

theorem cut_of_lt {text : List UInt8} (h : text.length < 65536) : cut text = text := by
  rw [cut, Nat.mod_eq_of_lt h, List.take_length]

theorem toUInt16_eq {n : Int} (h : 0 ≤ n) (hlt : n < 65536) : toUInt16 n = n.toNat := by
  rw [toUInt16, Int.emod_eq_of_lt h hlt]

/-- The library is initialised with an interface. -/
structure Initialized (s : Sdk σ) : Prop where
  attached : s.mias.applet.attached = true
  aid_eq : s.mias.applet.aid = Mias.aid

/-- Only VERIFY changes what a card shows. -/
def Spares {α : Type} (T : Transport σ) (shows : σ → α) : Prop :=
  ∀ card apdu, insOf apdu ≠ SCIns.verify.code → shows (T card apdu).2 = shows card

/-- VERIFY with this PIN, on the cards that show one thing: whether it is accepted, and what the card shows then. -/
structure PinVerdict {α : Type} (T : Transport σ) (channels : UInt8 → Prop) (shows : σ → α) (pin : List UInt8)
    (before after : α) (accepted : Bool) : Prop where
  verifies : ∀ card channel, channels channel → shows card = before → ∃ result card',
    Concludes T card (Mias.verifyApdu channel pin) result card' ∧ Applet.acceptedResult result = accepted ∧
      shows card' = after
  spares : Spares T shows

/-- A card with the application on these channels, for calls with this PIN from where it shows `before`: the PIN is
accepted or not, and an accepted one is accepted again. -/
structure Hosts {α : Type} (T : Transport σ) (channels : UInt8 → Prop) (shows : σ → α) (pin : Option (List UInt8))
    (before after : α) (accepted : Bool) : Prop extends Applet.Admits T channels Mias.aid where
  verdict : ∀ text, pin = some text → PinVerdict T channels shows (cut text) before after accepted
  again : accepted = true → ∀ text, pin = some text → PinVerdict T channels shows (cut text) after after true

/-- Runs without VERIFY. -/
theorem shows_onWire {α S : Type} {shows : σ → α} {notes : Note → Prop} {se : S → SEInterface σ}
    (hspares : Spares T shows) {s s' : S}
    (h : OnWire T se (Wire (· ≠ .verify) notes) s s') : shows (se s').card = shows (se s).card := by
  obtain ⟨events, _, hplay, hkind⟩ := h
  refine hplay.keeps shows fun apdu answer hmem card => hspares card apdu ?_
  obtain ⟨channel, hevent⟩ := hkind _ hmem
  rcases hevent.exchange_ins with ⟨_, i, _, hi, hins, _⟩ | hins
  · rw [hins]
    cases i <;> first | exact absurd rfl hi | decide
  · rw [hins]
    decide

section Calls

variable {channels : UInt8 → Prop} {s : Sdk σ}

/-- Selection changes the applet only. -/
theorem selectMias_attains (hcard : Applet.Admits T channels Mias.aid) (hinit : Initialized s) :
    Attains (selectMias T) s fun ok s' => ok = true ∧ ∃ channel, channels channel ∧ Mias.Ready channel s'.mias ∧
      Initialized s' ∧ s'.mias = { s.mias with applet := s'.mias.applet } := by
  have hadmits : Applet.Admits T channels s.mias.applet.aid := by
    rw [hinit.aid_eq]
    exact hcard
  have haid : s.mias.applet.aid.length ≤ 255 := by
    rw [hinit.aid_eq]
    decide
  have hselect := Applet.select_attains (s := ⟨s.se, s.mias.applet⟩) hadmits haid hinit.attached
  have happlet : Attains (Mias.onApplet (Applet.select T false)) ⟨s.se, s.mias⟩ fun ok t => ok = true ∧ ∃ channel,
      channels channel ∧ t.obj = { s.mias with applet :=
        { s.mias.applet with channel, isSelected := true, isBasic := false } } := by
    refine Attains.zoom hselect ?_
    rintro ok t ⟨hok, channel, hchannel, hobj⟩
    refine ⟨hok, channel, hchannel, ?_⟩
    show { s.mias with applet := t.obj } = _
    rw [hobj]
  refine Attains.zoom happlet ?_
  rintro ok t ⟨hok, channel, hchannel, hobj⟩
  have hmias : (miasLens.set t s).mias = t.obj := rfl
  refine ⟨hok, channel, hchannel, ?_, ?_, ?_⟩
  · rw [hmias, hobj]
    exact ⟨rfl, hinit.attached, rfl⟩
  · constructor
    · rw [hmias, hobj]
      exact hinit.attached
    · rw [hmias, hobj]
      exact hinit.aid_eq
  · rw [hmias, hobj]

theorem deselectMias_attains (hcard : Applet.Admits T channels Mias.aid) (hinit : Initialized s) :
    Attains (deselectMias T) s fun _ s' => Initialized s' ∧ s'.mias = { s.mias with applet := s'.mias.applet } := by
  have hdeselect := Applet.deselect_attains hcard ⟨s.se, s.mias.applet⟩
  have happlet : Attains (Mias.onApplet (Applet.deselect T)) ⟨s.se, s.mias⟩ fun _ t => ∃ flag,
      t.obj = { s.mias with applet := { s.mias.applet with isSelected := flag } } := by
    refine Attains.zoom hdeselect ?_
    rintro _ t ⟨flag, hobj⟩
    refine ⟨flag, ?_⟩
    show { s.mias with applet := t.obj } = _
    rw [hobj]
  refine Attains.zoom happlet ?_
  rintro _ t ⟨flag, hobj⟩
  have hmias : (miasLens.set t s).mias = t.obj := rfl
  refine ⟨⟨?_, ?_⟩, ?_⟩
  · rw [hmias, hobj]
    exact hinit.attached
  · rw [hmias, hobj]
    exact hinit.aid_eq
  · rw [hmias, hobj]

/-- What the read of an object returns. -/
def p11Answer (accepted : Bool) (file : Option Mias.P11File) (obj : Option Mem) (size : Int) : Extract :=
  if accepted then
    match file with
    | some file => ⟨0, obj.map fun out => out.write 0 file.value, file.value.length⟩
    | none => ⟨ERR_SE_MIAS_READ_OBJECT_ERROR, obj, size⟩
  else
    ⟨ERR_SE_EF_VERIFY_PIN_ERROR, obj, size⟩

theorem p11Answer_size {accepted : Bool} {file : Option Mias.P11File} {obj : Option Mem} {size : Int}
    (h : (p11Answer accepted file obj size).ret = 0) : 0 ≤ (p11Answer accepted file obj size).size := by
  cases accepted with
  | false => exact absurd h (by show ERR_SE_EF_VERIFY_PIN_ERROR ≠ 0; decide)
  | true =>
      cases file with
      | none => exact absurd h (by show ERR_SE_MIAS_READ_OBJECT_ERROR ≠ 0; decide)
      | some file => exact Int.natCast_nonneg _

section Objects

variable {image : Mias.P11Image} {current : σ → Nat} {label text : List UInt8}

theorem withStrlen_yields (text : List UInt8) (s : Sdk σ) : Yields (withStrlen (some text)) s (cut text) (· = s) :=
  ⟨s, .pure, rfl⟩

theorem p11GetObjectByLabel_wire {ins : SCIns → Prop} (hselect : ins .select) (hread : ins .readBinary)
    (locals : Mias.P11Locals) (label : List UInt8) (obj : Option Mem) :
    Stays (OnWire T Sdk.se (Wire ins fun _ => True)) (onMias (Mias.p11GetObjectByLabel T locals label obj)) := by
  refine onMias_wire (.bind (note_within trivial) fun _ => .bind ?_ fun _ => .bind (note_within trivial) fun _ => .pure _)
  exact Mias.p11Lookup_stays Mias.within_bears hselect hread (fun _ _ => trivial) _ _ _

/-- What a visit of the card leaves: the library as it is initialised, the table of key pairs, and what the card shows. -/
structure Visited {α : Type} (shows : σ → α) (after : α) (s s' : Sdk σ) : Prop where
  initialized : Initialized s'
  keys : Mias.SameKeys s.mias s'.mias
  shows_eq : shows s'.se.card = after

section Visits

variable {α : Type} {shows : σ → α} {before after : α} {accepted : Bool}

theorem Visited.trans {s' s'' : Sdk σ} (h : Visited shows before s s') (h' : Visited shows after s' s'') :
    Visited shows after s s'' :=
  ⟨h'.initialized, ⟨h'.keys.1.trans h.keys.1, h'.keys.2.trans h.keys.2⟩, h'.shows_eq⟩

variable (hcard : Applet.Admits T channels Mias.aid)
  (hspares : Spares T shows)

include hcard hspares

theorem visit_selects (hinit : Initialized s) :
    Attains (selectMias T) s fun ok s' => ok = true ∧ Visited shows (shows s.se.card) s s' ∧
      ∃ channel, channels channel ∧ Mias.Ready channel s'.mias := by
  have hwire : Stays (OnWire T Sdk.se (Wire (· ≠ .verify) fun _ => True)) (selectMias T) :=
    selectMias_wire (by decide) (by decide) fun _ _ => trivial
  obtain ⟨ok, s', hrun, ⟨rfl, channel, hchannel, hready, hinit', hmias⟩, hgrows⟩ :=
    (selectMias_attains hcard hinit).stays hwire
  refine ⟨true, s', hrun, rfl, ⟨hinit', ?_, shows_onWire hspares hgrows⟩, channel, hchannel, hready⟩
  rw [hmias]
  exact ⟨rfl, rfl⟩

theorem visit_deselects (hinit : Initialized s) :
    Attains (deselectMias T) s fun _ s' => Visited shows (shows s.se.card) s s' := by
  have hwire : Stays (OnWire T Sdk.se (Wire (· ≠ .verify) fun _ => True)) (deselectMias T) :=
    deselectMias_wire (by decide) fun _ _ => trivial
  obtain ⟨ok, s', hrun, ⟨hinit', hmias⟩, hgrows⟩ := (deselectMias_attains hcard hinit).stays hwire
  refine ⟨ok, s', hrun, hinit', ?_, shows_onWire hspares hgrows⟩
  rw [hmias]
  exact ⟨rfl, rfl⟩

end Visits

theorem visit_verifies {α : Type} {shows : σ → α} {before after : α} {accepted : Bool} {channel : UInt8}
    (hverifies : PinVerdict T channels shows text before after accepted) (hchannel : channels channel)
    (hready : Mias.Ready channel s.mias) (hinit : Initialized s) (hbefore : shows s.se.card = before)
    (hpin : text.length ≤ 257) :
    Yields (onMias (Mias.verifyPin T text)) s accepted fun s' => s'.mias = s.mias ∧ Visited shows after s s' := by
  obtain ⟨result, card, hconcludes, haccepted, hafter⟩ := hverifies.verifies s.se.card channel hchannel hbefore
  rw [← haccepted]
  refine Yields.zoom (Mias.verifyPin_concludes (s := ⟨s.se, s.mias⟩) hready hpin hconcludes) ?_
  rintro t ⟨hobj, hcard⟩
  have hmias : (miasLens.set t s).mias = s.mias := hobj
  refine ⟨hmias, ⟨?_, ?_⟩, ?_, ?_⟩
  · rw [hmias]
    exact hinit.attached
  · rw [hmias]
    exact hinit.aid_eq
  · rw [hmias]
    exact ⟨rfl, rfl⟩
  · show shows t.se.card = after
    rw [hcard, hafter]

/-- **The read of an object** returns what the PIN and the files decide. -/
theorem p11Selected_visits {α : Type} {shows : σ → α} {before after : α} {accepted : Bool}
    (hcard : Applet.Admits T channels Mias.aid) (hverifies : PinVerdict T channels shows (cut text) before after accepted)
    (hfiles : ∀ channel, channels channel → image.ServedBy T channel current) (hinit : Initialized s)
    (hbefore : shows s.se.card = before) (hpin : (cut text).length ≤ 257) (hlabel : label.length < 65536) (locals : Locals)
    (obj : Option Mem) (size : Int) :
    Attains (seP11ReadSelected T locals label obj size (some text)) s fun result s' => Visited shows after s s' ∧
      result = p11Answer accepted (image.lookup label) obj size := by
  apply (visit_selects hcard hverifies.spares hinit).bind
  rintro ok s₁ ⟨rfl, hvisited₁, channel, hchannel, hready⟩
  rw [if_pos rfl]
  apply (withStrlen_yields text s₁).bind_attains
  rintro t rfl
  apply (visit_verifies hverifies hchannel hready hvisited₁.initialized (hvisited₁.shows_eq.trans hbefore)
    hpin).bind_attains
  rintro s₂ ⟨hmias, hvisited₂⟩
  have hvisited := hvisited₁.trans hvisited₂
  cases accepted with
  | false => exact .pure ⟨hvisited, rfl⟩
  | true =>
      rw [if_pos rfl]
      apply (withStrlen_yields label s₂).bind_attains
      rintro t rfl
      rw [cut_of_lt hlabel]
      have hlookup := Mias.p11GetObjectByLabel_attains (s := ⟨t.se, t.mias⟩) (hfiles channel hchannel) (hmias ▸ hready)
        locals.p11 label obj
      have hlooked : Attains (onMias (Mias.p11GetObjectByLabel T locals.p11 label obj)) t fun fetched u =>
          (Initialized u ∧ Mias.SameKeys t.mias u.mias) ∧ fetched = match image.lookup label with
            | some file => Mias.found obj file.value
            | none => ⟨false, obj, 0⟩ := by
        refine Attains.zoom (hlookup.stays (Mias.p11GetObjectByLabel_keepsKeys locals.p11 label obj)) ?_
        rintro fetched u ⟨⟨happlet, hfetched⟩, hkeys⟩
        refine ⟨⟨⟨?_, ?_⟩, hkeys⟩, hfetched⟩
        · rw [← hvisited.initialized.attached, ← happlet]
          rfl
        · rw [← hvisited.initialized.aid_eq, ← happlet]
          rfl
      have hwire : Stays (OnWire T Sdk.se (Wire (· ≠ .verify) fun _ => True))
          (onMias (Mias.p11GetObjectByLabel T locals.p11 label obj)) :=
        p11GetObjectByLabel_wire (by decide) (by decide) _ _ _
      apply (hlooked.stays hwire).bind
      rintro fetched u ⟨⟨⟨hinit₃, hkeys⟩, rfl⟩, hgrows⟩
      have hshows := shows_onWire hverifies.spares hgrows
      have hvisited₃ := hvisited.trans ⟨hinit₃, hkeys, hshows.trans hvisited.shows_eq⟩
      cases image.lookup label with
      | none => exact .pure ⟨hvisited₃, rfl⟩
      | some file => exact .pure ⟨hvisited₃, rfl⟩

theorem seP11ReadObject_visits {α : Type} {shows : σ → α} {before after : α} {accepted : Bool}
    (hcard : Applet.Admits T channels Mias.aid) (hverifies : PinVerdict T channels shows (cut text) before after accepted)
    (hfiles : ∀ channel, channels channel → image.ServedBy T channel current) (hinit : Initialized s)
    (hbefore : shows s.se.card = before) (hpin : (cut text).length ≤ 257) (hlabel : label.length < 65536) (locals : Locals)
    (obj : Option Mem) (size : Int) :
    Attains (seP11ReadObject T locals label obj size (some text)) s fun result s' => Visited shows after s s' ∧
      result = p11Answer accepted (image.lookup label) obj size := by
  apply (p11Selected_visits hcard hverifies hfiles hinit hbefore hpin hlabel locals obj size).bind
  rintro result s₁ ⟨hvisited₁, hresult⟩
  apply (visit_deselects hcard hverifies.spares hvisited₁.initialized).bind
  intro _ s₂ hvisited₂
  rw [hvisited₁.shows_eq] at hvisited₂
  exact .pure ⟨hvisited₁.trans hvisited₂, hresult⟩

end Objects

end Calls

/-! ### Cards -/

/-- A card with these files that opens channel 1 and accepts every PIN. -/
def hostCard (files : Transport σ) : Transport σ := fun card apdu =>
  if insOf apdu = SCIns.manageChannel.code then
    (some (if apdu.getD 2 0 = SCP1.MANAGECHANNELOpen then [0x01, 0x90, 0x00] else [0x90, 0x00]), card)
  else if insOf apdu = SCIns.verify.code then
    (some [0x90, 0x00], card)
  else
    files card apdu

/-- Commands to the files go through, with their follow-ups. -/
theorem hostCard_settles {files : Transport σ} {card card' : σ} {apdu answer : List UInt8} (hlen : 4 ≤ apdu.length)
    (hins : insOf apdu = SCIns.select.code ∨ insOf apdu = SCIns.readBinary.code)
    (h : Settles files card apdu answer card') :
    Settles (hostCard files) card apdu answer card' := by
  have hsame : ∀ card sent, FollowUp apdu sent →
    hostCard files (id card) sent = ((files card sent).1, id (files card sent).2) := by
    intro card sent hfollow
    have hsent : insOf sent = SCIns.select.code ∨ insOf sent = SCIns.readBinary.code ∨
        insOf sent = SCIns.getResponse.code := by
      rcases hfollow.ins hlen with heq | hget
      · rw [heq]
        exact hins.elim .inl fun hread => .inr (.inl hread)
      · exact .inr (.inr hget)
    have hchannel : insOf sent ≠ SCIns.manageChannel.code := by
      rcases hsent with heq | heq | heq <;> rw [heq] <;> decide
    have hverify : insOf sent ≠ SCIns.verify.code := by
      rcases hsent with heq | heq | heq <;> rw [heq] <;> decide
    rw [hostCard, if_neg hchannel, if_neg hverify]
    rfl
  exact h.transfer id hsame .self

section PinCard

variable {limit : Nat} {secret : List UInt8} {files : Transport σ}

end PinCard

end Sdk

end TrustOnboard
