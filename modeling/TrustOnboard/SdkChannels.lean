import Mathlib.Data.Set.Insert
import Mathlib.Order.BooleanAlgebra.Set
import TrustOnboard.SdkTrace
import TrustOnboard.SdkProcess

/-! No logical channel leaks. A card that hands out closed channels and closes open ones is described
by the set of its open channels; an applet that is selected holds exactly one channel more than there
were before, and gives it back when it is deselected. -/

namespace TrustOnboard

open Exec Linked SEInterface

variable {σ : Type} {T : Transport σ} {opened : σ → Set UInt8}

/-- The card opens channels that are closed or refuses with an error, closes open channels with a bare
`9000`, and no other command opens or closes channels. What it answers to anything else is free. -/
structure ChannelCard (T : Transport σ) (opened : σ → Set UInt8) : Prop where
  opens : ∀ card,
    (∃ channel, (T card openApdu).1 = some [channel, 0x90, 0x00] ∧ channel ∉ opened card ∧
      opened (T card openApdu).2 = insert channel (opened card)) ∨
    ∃ answer, (T card openApdu).1 = some answer ∧ statusWord answer ≠ swOK ∧ ¬Bare answer ∧
      opened (T card openApdu).2 = opened card
  closes : ∀ card channel, channel ∈ opened card →
    (T card (closeApdu channel)).1 = some [0x90, 0x00] ∧
      opened (T card (closeApdu channel)).2 = opened card \ {channel}
  keeps : ∀ card apdu, insOf apdu ≠ SCIns.manageChannel.code → opened (T card apdu).2 = opened card

/-- One data byte and `9000`. -/
theorem accepted_open (channel : UInt8) : Applet.acceptedResult (some [channel, 0x90, 0x00]) = true := by
  rw [Applet.acceptedResult, decide_eq_true_eq]
  exact statusWord_ok [channel]

namespace ChannelCard

variable (hcard : ChannelCard T opened)

include hcard

/-- Commands other than MANAGE CHANNEL. -/
theorem replay_keeps {events : List Event} {card card' : σ} (hplay : Replay T card events card')
    (hevents : ∀ apdu answer, .exchange apdu answer ∈ events → insOf apdu ≠ SCIns.manageChannel.code) :
    opened card' = opened card :=
  hplay.keeps opened fun apdu answer hmem card => hcard.keeps card apdu (hevents apdu answer hmem)

theorem grows_keeps {notes : Note → Prop} {s s' : SEInterface σ}
    (h : Grows T (Wire (· ≠ .manageChannel) notes) s s') : opened s'.card = opened s.card := by
  obtain ⟨events, _, hplay, hkind⟩ := h
  refine hcard.replay_keeps hplay fun apdu answer hmem => ?_
  obtain ⟨channel, hevent⟩ := hkind _ hmem
  rcases hevent.exchange_ins with ⟨_, i, _, hi, hins, _⟩ | hins
  · rw [hins]
    cases i <;> first | exact absurd rfl hi | decide
  · rw [hins]
    decide

theorem selectAid_keeps {cla : UInt8} {aid : List UInt8} {result : Option (List UInt8)} {events : List Event}
    {card card' : σ} (hended : Ended (selectApdu cla aid) result events) (hplay : Replay T card events card') :
    opened card' = opened card := by
  refine hcard.replay_keeps hplay fun apdu answer hmem => ?_
  have hform : FollowUp (selectApdu cla aid) apdu := hended.ofCommand _ hmem
  rcases hform.ins (by simp [selectApdu]) with hins | hins
  · rw [hins]
    exact (by decide : SCIns.select.code ≠ SCIns.manageChannel.code)
  · rw [hins]
    decide

/-- An accepted open names a channel that was closed; a refused one changes nothing. -/
theorem open_ended {result : Option (List UInt8)} {events : List Event} {card card' : σ}
    (hended : Ended openApdu result events) (hplay : Replay T card events card') :
    (∃ channel, result = some [channel, 0x90, 0x00] ∧ channel ∉ opened card ∧
      opened card' = insert channel (opened card)) ∨
    (Applet.acceptedResult result = false ∧ opened card' = opened card) := by
  rcases hcard.opens card with ⟨channel, hanswer, hclosed, hopened⟩ | ⟨answer, hanswer, hsw, hbare, hopened⟩
  · obtain ⟨hresult, hnext⟩ := hended.immediate hplay fun answer heq => by
      rw [hanswer] at heq
      cases heq
      exact fun hbare => absurd hbare.1 (by simp)
    rw [hresult, hnext, hanswer]
    exact .inl ⟨channel, rfl, hclosed, hopened⟩
  · obtain ⟨hresult, hnext⟩ := hended.immediate hplay fun other heq => by
      rw [hanswer] at heq
      cases heq
      exact hbare
    rw [hresult, hnext, hanswer]
    exact .inr ⟨decide_eq_false hsw, hopened⟩

theorem close_ended {channel : UInt8} {result : Option (List UInt8)} {events : List Event} {card card' : σ}
    (hended : Ended (closeApdu channel) result events) (hplay : Replay T card events card')
    (hchannel : channel ∈ opened card) :
    Applet.acceptedResult result = true ∧ opened card' = opened card \ {channel} := by
  obtain ⟨hanswer, hopened⟩ := hcard.closes card channel hchannel
  obtain ⟨hresult, hnext⟩ := hended.immediate hplay fun answer heq => by
    rw [hanswer] at heq
    cases heq
    decide
  rw [hresult, hnext, hanswer]
  exact ⟨by decide, hopened⟩

end ChannelCard

/-! ### One applet -/

/-- The applet holds a channel that was closed when `before` were the open ones. -/
structure Holding (opened : σ → Set UInt8) (before : Set UInt8) (s : Linked σ Applet) : Prop where
  selected : s.obj.isSelected = true
  attached : s.obj.attached = true
  logical : s.obj.isBasic = false
  fresh : s.obj.channel ∉ before
  opened : opened s.se.card = insert s.obj.channel before

/-- The applet is not selected and the open channels are those of before. -/
def Parked (opened : σ → Set UInt8) (before : Set UInt8) (s : Linked σ Applet) : Prop :=
  s.obj.isSelected = false ∧ opened s.se.card = before

namespace Applet

variable (hcard : ChannelCard T opened) {before : Set UInt8} {s : Linked σ Applet}

include hcard

omit hcard in
/-- Deselecting an applet that is not selected does nothing to the card. -/
theorem deselectTrace_idle {events : List Event} {last : Applet} {card card' : σ}
    (htrace : DeselectTrace s.obj events last) (hplay : Replay T card events card')
    (hidle : s.obj.isSelected = false) : last.isSelected = false ∧ card' = card := by
  cases htrace with
  | detached =>
      cases hplay
      exact ⟨hidle, rfl⟩
  | idle => exact ⟨rfl, hplay.note_inv⟩
  | close _ hselected =>
      rw [hidle] at hselected
      cases hselected

theorem select_channels (h : Parked opened before s) :
    Meets (select T false) s
      (fun ok s' => if ok then Holding opened before s' else Parked opened before s') (fun _ => True) := by
  refine (select_meets T false s).mono ?_ fun _ _ => trivial
  rintro ok ⟨se, applet⟩ ⟨events, htrace, _, hplay⟩
  obtain ⟨hidle, hbefore⟩ := h
  cases htrace with
  | detached =>
      have hsame : se.card = s.se.card := hplay.nil_inv
      exact ⟨hidle, by rw [hsame, hbefore]⟩
  | @attached _ first second middle _ hattached hdeselect hhalf =>
      obtain ⟨card, hplay, hsecond⟩ := hplay.append_inv
      obtain ⟨_, hnote, hfirst⟩ := hplay.append_inv
      obtain ⟨hmiddle, rfl⟩ := deselectTrace_idle hdeselect hfirst hidle
      rw [hnote.note_inv] at hsecond
      have hatt : middle.attached = true := hdeselect.identity.2.trans hattached
      cases hhalf with
      | openRefused hopen hno =>
          rcases hcard.open_ended hopen hsecond with ⟨channel, rfl, _⟩ | ⟨_, hsame⟩
          · rw [accepted_open] at hno
            cases hno
          · exact ⟨hmiddle, hsame.trans hbefore⟩
      | logical hopen hsw hlen hchannel hselect =>
          obtain ⟨card', hopened, hthird⟩ := hsecond.append_inv
          rcases hcard.open_ended hopen hopened with ⟨channel, heq, hfresh, hinsert⟩ | ⟨hno, _⟩
          · cases heq
            obtain rfl : _ = channel := hchannel
            rw [hbefore] at hfresh hinsert
            cases hselect with
            | ok hselect =>
                have hsame := hcard.selectAid_keeps hselect (hthird.silent_inv fun _ _ heq => by cases heq)
                exact ⟨rfl, hatt, rfl, hfresh, hsame.trans hinsert⟩
            | refused hselect _ hclose =>
                obtain ⟨card'', hselected, hclosed⟩ := hthird.append_inv
                have hsame := (hcard.selectAid_keeps hselect hselected).trans hinsert
                have hclosed := (hcard.close_ended hclose hclosed (by rw [hsame]; exact Set.mem_insert _ _)).2
                rw [hsame, Set.insert_sdiff_self_of_notMem hfresh] at hclosed
                exact ⟨hmiddle, hclosed⟩
          · exact absurd hsw (of_decide_eq_false hno)

/-- Deselecting gives the channel back. -/
theorem deselect_holding (h : Holding opened before s) :
    Meets (deselect T) s (fun _ s' => Parked opened before s') (fun _ => True) := by
  refine (deselect_meets T s).mono ?_ fun _ _ => trivial
  rintro ok ⟨se, applet⟩ ⟨events, htrace, ⟨_, hplay⟩, _⟩
  cases htrace with
  | detached hattached =>
      rw [h.attached] at hattached
      cases hattached
  | idle _ hidle =>
      rw [h.selected, h.logical] at hidle
      rcases hidle with hidle | hidle <;> cases hidle
  | close _ _ _ hclose =>
      obtain ⟨card, hnote, hclosed⟩ := hplay.append_inv
      rw [hnote.note_inv] at hclosed
      obtain ⟨haccepted, hopened⟩ := hcard.close_ended hclose hclosed
        (by rw [h.opened]; exact Set.mem_insert _ _)
      rw [h.opened, Set.insert_sdiff_self_of_notMem h.fresh] at hopened
      refine ⟨?_, hopened⟩
      show (!acceptedResult _) = false
      rw [haccepted]
      rfl

omit hcard in
theorem deselect_parked (h : Parked opened before s) :
    Meets (deselect T) s (fun _ s' => Parked opened before s') (fun _ => True) := by
  refine (deselect_meets T s).mono ?_ fun _ _ => trivial
  rintro ok ⟨se, applet⟩ ⟨events, htrace, ⟨_, hplay⟩, _⟩
  obtain ⟨hidle, hsame⟩ := deselectTrace_idle htrace hplay h.1
  have hopened := h.2
  rw [← hsame] at hopened
  exact ⟨hidle, hopened⟩

end Applet

/-! ### One call -/

namespace Sdk

variable (hcard : ChannelCard T opened) {before : Set UInt8} {s : Sdk σ}

/-- The MIAS applet of a state, with its interface. -/
def miasApplet (s : Sdk σ) : Linked σ Applet := ⟨s.se, s.mias.applet⟩

def mfApplet (s : Sdk σ) : Linked σ Applet := ⟨s.se, s.mf⟩

/-- Neither applet is selected, and the open channels are those of before. -/
structure Released (opened : σ → Set UInt8) (before : Set UInt8) (s : Sdk σ) : Prop where
  mf : s.mf.isSelected = false
  mias : s.mias.applet.isSelected = false
  opened : opened s.se.card = before

/-- The MIAS applet holds a channel and the MF applet does not. -/
structure MiasHolds (opened : σ → Set UInt8) (before : Set UInt8) (s : Sdk σ) : Prop where
  mf : s.mf.isSelected = false
  mias : Holding opened before (miasApplet s)

structure MFHolds (opened : σ → Set UInt8) (before : Set UInt8) (s : Sdk σ) : Prop where
  mf : Holding opened before (mfApplet s)
  mias : s.mias.applet.isSelected = false

include hcard

theorem selectMias_channels (h : Released opened before s) :
    Meets (selectMias T) s
      (fun ok s' => if ok then MiasHolds opened before s' else Released opened before s') (fun _ => True) := by
  have hparked : Parked opened before (miasApplet s) := ⟨h.mias, h.opened⟩
  refine .zoom (.zoom ((Applet.select_channels hcard hparked).mono ?_ fun _ _ => trivial))
  intro ok t hpost
  cases ok with
  | true => exact ⟨h.mf, hpost⟩
  | false => exact ⟨h.mf, hpost.1, hpost.2⟩

/-- Whether the applet was selected or not, deselecting it releases what the call holds. -/
theorem deselectMias_channels (h : MiasHolds opened before s ∨ Released opened before s) :
    Meets (deselectMias T) s (fun _ s' => Released opened before s') (fun _ => True) := by
  rcases h with h | h
  · exact .zoom (.zoom ((Applet.deselect_holding hcard h.mias).mono (fun _ _ hpost => ⟨h.mf, hpost.1, hpost.2⟩)
      fun _ _ => trivial))
  · have hparked : Parked opened before (miasApplet s) := ⟨h.mias, h.opened⟩
    exact .zoom (.zoom ((Applet.deselect_parked hparked).mono (fun _ _ hpost => ⟨h.mf, hpost.1, hpost.2⟩)
      fun _ _ => trivial))

/-- Work of the MIAS applet on its channel. -/
theorem onMias_holding {α : Type} {program : Exec (Linked σ Mias) α} (h : MiasHolds opened before s)
    (hprogram : Stays (Within T Mias.applet (· ≠ .manageChannel) fun _ => True) program) :
    Meets (onMias program) s (fun _ s' => MiasHolds opened before s') (fun _ => True) := by
  refine .zoom ((hprogram.meets _).mono ?_ fun _ _ => trivial)
  rintro _ t ⟨happlet, hgrows⟩
  have hsame := hcard.grows_keeps (hgrows.mono fun event hevent => ⟨_, hevent⟩)
  change t.obj.applet = s.mias.applet at happlet
  change opened t.se.card = opened s.se.card at hsame
  refine ⟨h.mf, ?_⟩
  change Holding opened before ⟨t.se, t.obj.applet⟩
  rw [happlet]
  exact ⟨h.mias.selected, h.mias.attached, h.mias.logical, h.mias.fresh, hsame.trans h.mias.opened⟩

theorem onMF_holding {α : Type} {program : Exec (Linked σ Applet) α} (h : MFHolds opened before s)
    (hprogram : Stays (Within T id (· ≠ .manageChannel) fun _ => True) program) :
    Meets (onMF program) s (fun _ s' => MFHolds opened before s') (fun _ => True) := by
  refine .zoom ((hprogram.meets _).mono ?_ fun _ _ => trivial)
  rintro _ t ⟨happlet, hgrows⟩
  have hsame := hcard.grows_keeps (hgrows.mono fun event hevent => ⟨_, hevent⟩)
  change t.obj = s.mf at happlet
  change opened t.se.card = opened s.se.card at hsame
  refine ⟨?_, h.mias⟩
  change Holding opened before ⟨t.se, t.obj⟩
  rw [happlet]
  exact ⟨h.mf.selected, h.mf.attached, h.mf.logical, h.mf.fresh, hsame.trans h.mf.opened⟩

theorem seReadObject_released (h : Released opened before s) (locals : Locals) (path : List UInt8)
    (obj : Option Mem) (size : Int) (pin : Option (List UInt8)) :
    Meets (seReadObject T locals path obj size pin) s (fun _ s' => Released opened before s')
      (fun _ => True) := by
  refine .ite (fun _ => .pure h) fun _ => ?_
  refine .bind (.isolated (fun _ => h) trivial) fun efname t (h : Released opened before t) => ?_
  refine .ite (fun _ => .pure h) fun _ => ?_
  have hparked : Parked opened before (mfApplet t) := ⟨h.mf, h.opened⟩
  have hselect : Meets (onMF (Applet.select T false)) t
      (fun ok s' => if ok then MFHolds opened before s' else Released opened before s') (fun _ => True) := by
    refine .zoom ((Applet.select_channels hcard hparked).mono ?_ fun _ _ => trivial)
    intro ok u hpost
    cases ok with
    | true => exact ⟨hpost, h.mias⟩
    | false => exact ⟨hpost.1, h.mias, hpost.2⟩
  have hdeselect : ∀ u, (MFHolds opened before u ∨ Released opened before u) →
      Meets (onMF (Applet.deselect T)) u (fun _ s' => Released opened before s') (fun _ => True) := by
    rintro u (hu | hu)
    · exact .zoom ((Applet.deselect_holding hcard hu.mf).mono (fun _ _ hpost => ⟨hpost.1, hu.mias, hpost.2⟩)
        fun _ _ => trivial)
    · have hparked : Parked opened before (mfApplet u) := ⟨hu.mf, hu.opened⟩
      exact .zoom ((Applet.deselect_parked hparked).mono (fun _ _ hpost => ⟨hpost.1, hu.mias, hpost.2⟩)
        fun _ _ => trivial)
  have hselected : Meets (seReadEfSelected T locals efname.2 obj pin) t
      (fun _ s' => MFHolds opened before s' ∨ Released opened before s') (fun _ => True) := by
    refine .bind hselect fun selected u hu => .ite (fun hok => ?_) fun hno => ?_
    · rw [if_pos hok] at hu
      refine .bind (withStrlen_meets hu trivial pin) fun pin u hu => ?_
      refine .bind (onMF_holding hcard hu (MF.verifyPin_within (by decide) pin)) fun ok u hu =>
        .ite (fun _ => ?_) fun _ => .pure (.inl hu)
      refine .bind (onMF_holding hcard hu (MF.readEF_within (by decide) (by decide) _ _ _)) fun read u hu => ?_
      exact .ite (fun _ => .pure (.inl hu)) fun _ => .pure (.inl hu)
    · rw [if_neg hno] at hu
      exact .pure (.inr hu)
  exact .bind hselected fun result u hu => .bind (hdeselect u hu) fun _ u hu => .pure hu

theorem seP11ReadObject_released (h : Released opened before s) (locals : Locals) (label : List UInt8)
    (obj : Option Mem) (size : Int) (pin : Option (List UInt8)) :
    Meets (seP11ReadObject T locals label obj size pin) s (fun _ s' => Released opened before s')
      (fun _ => True) := by
  have hlookup : ∀ label, Stays (Within T Mias.applet (· ≠ .manageChannel) fun _ => True)
      (Mias.p11GetObjectByLabel T locals.p11 label obj) := by
    intro label
    refine .bind (note_within trivial) fun _ => .bind (Mias.p11Lookup_stays Mias.within_bears (by decide) (by decide)
      (fun _ _ => trivial) _ _ _) fun fetched => ?_
    exact .bind (note_within trivial) fun _ => .pure _
  have hselected : Meets (seP11ReadSelected T locals label obj size pin) s
      (fun _ s' => MiasHolds opened before s' ∨ Released opened before s') (fun _ => True) := by
    refine .bind (selectMias_channels hcard h) fun selected t ht => .ite (fun hok => ?_) fun hno => ?_
    · rw [if_pos hok] at ht
      refine .bind (withStrlen_meets ht trivial pin) fun pin t ht => ?_
      refine .bind (onMias_holding hcard ht (Mias.verifyPin_stays Mias.within_bears (by decide) trivial)) fun ok t ht =>
        .ite (fun _ => ?_) fun _ => .pure (.inl ht)
      refine .bind (withStrlen_meets ht trivial (some label)) fun label t ht => ?_
      refine .bind (onMias_holding hcard ht (hlookup label)) fun fetched t ht => ?_
      exact .ite (fun _ => .pure (.inl ht)) fun _ => .pure (.inl ht)
    · rw [if_neg hno] at ht
      exact .pure (.inr ht)
  exact .bind hselected fun result t ht => .bind (deselectMias_channels hcard ht) fun _ t ht => .pure ht

theorem tobX509CrtExtractSe_released (h : Released opened before s) (locals : Locals) (cert : Option Mem)
    (size : Int) (path : List UInt8) (pin : Option (List UInt8)) :
    Meets (tobX509CrtExtractSe T locals cert size path pin) s (fun _ s' => Released opened before s')
      (fun _ => True) := by
  refine .ite (fun _ => seReadObject_released hcard h _ _ _ _ _) fun _ => ?_
  refine .ite (fun _ => seP11ReadObject_released hcard h _ _ _ _ _) fun _ => ?_
  refine .ite (fun _ => ?_) fun _ => .pure h
  have hselected : Meets (certificateSelected T locals
      (containerIdOf (path.drop SE_MIAS_KEY_NAME_PREFIX.length)) cert size) s
      (fun _ s' => MiasHolds opened before s' ∨ Released opened before s') (fun _ => True) := by
    refine .bind (selectMias_channels hcard h) fun selected t ht => .ite (fun hok => ?_) fun hno => ?_
    · rw [if_pos hok] at ht
      refine .bind (onMias_holding hcard ht
        (Mias.getCertificateByContainerId_stays Mias.within_bears (by decide) (by decide)
          (fun _ _ => trivial) _ _ _ _)) fun fetched t ht => ?_
      exact .ite (fun _ => .pure (.inl ht)) fun _ => .pure (.inl ht)
    · rw [if_neg hno] at ht
      exact .pure (.inr ht)
  exact .bind hselected fun result t ht => .bind (deselectMias_channels hcard ht) fun _ t ht => .pure ht

theorem tobPkExtractSe_released (h : Released opened before s) (locals : Locals) (pk : Option Mem) (size : Int)
    (path : List UInt8) (pin : Option (List UInt8)) :
    Meets (tobPkExtractSe T locals pk size path pin) s (fun _ s' => Released opened before s')
      (fun _ => True) := by
  refine .ite (fun _ => ?_) fun _ => .ite (fun _ => ?_) fun _ => .pure h
  · exact .bind (seReadObject_released hcard h _ _ _ _ _) fun _ t ht => nulAppended_meets ht trivial
  · exact .bind (seP11ReadObject_released hcard h _ _ _ _ _) fun _ t ht => nulAppended_meets ht trivial

theorem guarded_released {α : Type} {body : Exec (Sdk σ) α} {failed : α} (h : Released opened before s)
    (hbody : ∀ t, MiasHolds opened before t →
      Meets body t (fun _ s' => MiasHolds opened before s') (fun _ => True)) :
    Meets (guarded T body failed) s (fun _ s' => Released opened before s') (fun _ => True) := by
  refine .bind (selectMias_channels hcard h) fun selected t ht => .ite (fun hok => ?_) fun hno => ?_
  · rw [if_pos hok] at ht
    exact .bind (hbody t ht) fun _ t ht => .bind (deselectMias_channels hcard (.inl ht)) fun _ t ht => .pure ht
  · rw [if_neg hno] at ht
    exact .bind (.pure ht) fun _ t ht => .bind (deselectMias_channels hcard (.inr ht)) fun _ t ht => .pure ht

theorem getKeyPairByContainerId_holding (h : MiasHolds opened before s) (containerId : UInt8) :
    Meets (onMias (Mias.getKeyPairByContainerId T containerId)) s (fun _ s' => MiasHolds opened before s')
      (fun _ => True) :=
  onMias_holding hcard h (Mias.getKeyPairByContainerId_stays Mias.within_bears (by decide) (by decide) containerId)

theorem verifyPin_holding (pin : List UInt8) (s : Sdk σ) (h : MiasHolds opened before s) :
    Meets (onMias (Mias.verifyPin T pin)) s
      (fun ok s' => MiasHolds opened before s' ∧ (ok = true → MiasHolds opened before s')) (fun _ => True) :=
  (onMias_holding hcard h (Mias.verifyPin_stays Mias.within_bears (by decide) trivial)).mono
    (fun _ _ hpost => ⟨hpost, fun _ => hpost⟩) fun _ _ => trivial

theorem tobSigningSign_released (h : Released opened before s) (algorithm : UInt8) (hash : Mem)
    (hashLen : Int) (signature : Mem) (len : Int) (pin : Option (List UInt8)) :
    Meets (tobSigningSign T algorithm hash hashLen signature len pin) s
      (fun _ s' => Released opened before s') (fun _ => True) := by
  refine guarded_released hcard h fun t ht => ?_
  refine keyOperation_meets (getKeyPairByContainerId_holding hcard ht _) (fun _ _ => trivial)
    (verifyPin_holding hcard) ?_ ?_
    (fun _ ht => ht) fun _ ht => ht
  · exact fun kid t ht => onMias_holding hcard ht (Mias.signInit_stays Mias.within_bears (by decide) _ _)
  · exact fun t ht => onMias_holding hcard ht (Mias.signFinal_stays Mias.within_bears (by decide) (by decide) _ _ _ _)

theorem tobSigningDecrypt_released (h : Released opened before s) (cipher : Mem) (cipherLen : Int)
    (plain : Mem) (len : Int) (pin : Option (List UInt8)) :
    Meets (tobSigningDecrypt T cipher cipherLen plain len pin) s
      (fun _ s' => Released opened before s') (fun _ => True) := by
  refine guarded_released hcard h fun t ht => ?_
  refine keyOperation_meets (getKeyPairByContainerId_holding hcard ht _) (fun _ _ => trivial)
    (verifyPin_holding hcard) ?_ ?_
    (fun _ ht => ht) fun _ ht => ht
  · exact fun kid t ht => onMias_holding hcard ht (Mias.decryptInit_stays Mias.within_bears (by decide) _ _)
  · exact fun t ht =>
      onMias_holding hcard ht (Mias.decryptFinal_stays Mias.within_bears (by decide) (by decide) _ trivial _ _)

theorem tobSigningLen_released (h : Released opened before s) (pin : Option (List UInt8)) :
    Meets (tobSigningLen T pin) s (fun _ s' => Released opened before s') (fun _ => True) := by
  refine guarded_released hcard h fun t ht => ?_
  refine .bind (getKeyPairByContainerId_holding hcard ht _) fun found t ht => ?_
  cases found with
  | none => exact .pure ht
  | some index => exact .gets ht

theorem apiCall_released (h : Released opened before s) (call : ApiCall) :
    Meets (call.run T) s (fun _ s' => Released opened before s') (fun _ => True) := by
  cases call with
  | extractAvailableCertificate locals legacyLocals cert size pin =>
      refine .bind ?_ fun _ _ h => .pure h
      refine .bind (tobX509CrtExtractSe_released hcard h _ _ _ _ _) fun first t h =>
        .ite (fun _ => ?_) fun _ => .pure h
      exact .bind (tobX509CrtExtractSe_released hcard h _ _ _ _ _) fun second t h => .pure h
  | extractAvailablePrivateKey locals legacyLocals pem pemSize der derSize pin =>
      refine .bind (.bind ?_ fun _ _ h => .pure h) fun _ _ h => .pure h
      refine .bind (tobPkExtractSe_released hcard h _ _ _ _ _) fun first t h =>
        .ite (fun _ => ?_) fun _ => .pure h
      exact tobPkExtractSe_released hcard h _ _ _ _ _
  | extractSigningCertificate locals pem pemSize der derSize pin =>
      exact .bind (.bind (tobX509CrtExtractSe_released hcard h _ _ _ _ _) fun _ _ h => .pure h)
        fun _ _ h => .pure h
  | signingSign algorithm hash hashLen signature len pin =>
      exact .bind (tobSigningSign_released hcard h _ _ _ _ _ _) fun _ _ h => .pure h
  | signingDecrypt cipher cipherLen plain len pin =>
      exact .bind (tobSigningDecrypt_released hcard h _ _ _ _ _) fun _ _ h => .pure h
  | signingLen pin => exact .bind (tobSigningLen_released hcard h _) fun _ _ h => .pure h
  | x509CrtExtractSe locals cert size path pin =>
      exact .bind (tobX509CrtExtractSe_released hcard h _ _ _ _ _) fun _ _ h => .pure h
  | pkExtractSe locals pk size path pin =>
      exact .bind (tobPkExtractSe_released hcard h _ _ _ _ _) fun _ _ h => .pure h

end Sdk

/-! ### Sequences of calls -/

namespace Process

open Sdk

variable {p : Process σ}

def Unselected (p : Process σ) : Prop := p.mf.isSelected = false ∧ p.mias.applet.isSelected = false

theorem tobInitializeWithInterface_unselected (h : Unselected p) (seiface : Option Nat) :
    Meets (tobInitializeWithInterface T seiface) p (fun _ p' => Unselected p') (fun _ => True) := by
  cases seiface with
  | none => exact fun _ => h
  | some address =>
      have hany : Meets (Applet.closeAllChannels T) (p.ifaces address) (fun _ _ => True) (fun _ => True) := by
        intro fuel
        rcases Applet.closeAllChannels T fuel (p.ifaces address) with ⟨_ | _ | _, _⟩ <;> trivial
      exact .zoom_bind hany (fun _ _ => trivial) fun _ _ _ => .modify_bind (.pure h)

section Calls

variable (hcard : ChannelCard T opened)

include hcard

/-- One call of the API leaves the set of open channels as it was. -/
theorem api_channels (h : Unselected p) (call : ApiCall) :
    Meets ((Call.api call).run T) p
      (fun _ p' => opened (p'.ifaces p'.current).card = opened (p.ifaces p.current).card ∧ Unselected p')
      (fun _ => True) := by
  have hreleased : Released opened (opened (p.ifaces p.current).card) (sdkLens.get p) := ⟨h.1, h.2, rfl⟩
  refine .zoom_bind (apiCall_released hcard hreleased call) (fun _ _ => trivial) fun _ s hs =>
    .pure ⟨?_, hs.mf, hs.mias⟩
  change opened (Function.update p.ifaces p.current s.se p.current).card = _
  rw [Function.update_self]
  exact hs.opened

theorem apis_unselected (h : Unselected p) (calls : List ApiCall) :
    Meets (runCalls T (calls.map .api)) p (fun _ p' => Unselected p') (fun _ => True) := by
  induction calls generalizing p with
  | nil => exact .pure h
  | cons call calls ih =>
      exact .bind (api_channels hcard h call) fun _ _ hp => .bind (ih hp.2) fun _ _ hp => .pure hp

/-- **No logical channel leaks.** After `tobInitializeWithInterface` and any calls of the API that
returned, the next call that returns leaves exactly those channels open that were open before it, and
neither applet selected. -/
theorem no_channel_leaks (cards : Nat → σ) (buffers : Nat → Mem) (seiface : Option Nat)
    (calls : List ApiCall) (call : ApiCall) (fuel fuel' : Nat) (p' p'' : Process σ) (results : List Result)
    (result : Result)
    (hcalls : runCalls T (.tobInitializeWithInterface seiface :: calls.map .api) fuel (start cards buffers) =
      (.done results, p'))
    (hcall : (Call.api call).run T fuel' p' = (.done result, p'')) :
    opened (p''.ifaces p''.current).card = opened (p'.ifaces p'.current).card ∧
      p''.mf.isSelected = false ∧ p''.mias.applet.isSelected = false := by
  have hstart : Unselected (start cards buffers) := ⟨rfl, rfl⟩
  have hrun : Meets (runCalls T (.tobInitializeWithInterface seiface :: calls.map .api)) (start cards buffers)
      (fun _ p' => Unselected p') (fun _ => True) := by
    have hinit : Meets ((Call.tobInitializeWithInterface seiface).run T) (start cards buffers)
        (fun _ p' => Unselected p') (fun _ => True) :=
      .bind (tobInitializeWithInterface_unselected hstart seiface) fun _ _ hp => .pure hp
    exact .bind hinit fun _ _ hp => .bind (apis_unselected hcard hp calls) fun _ _ hp => .pure hp
  exact (api_channels hcard (hrun.done hcalls) call).done hcall

end Calls

/-- A card with one logical channel and nothing on it. -/
def oneChannelCard : Transport Bool := fun isOpen apdu =>
  if apdu = openApdu then if isOpen then (some [0x6A, 0x81], true) else (some [1, 0x90, 0x00], true)
  else if apdu = closeApdu 1 then (some [0x90, 0x00], false)
  else (some [0x6D, 0x00], isOpen)

def oneChannelOpened (isOpen : Bool) : Set UInt8 := { channel | isOpen = true ∧ channel = 1 }

theorem oneChannelCard_channels : ChannelCard oneChannelCard oneChannelOpened where
  opens isOpen := by
    cases isOpen with
    | true => exact .inr ⟨[0x6A, 0x81], by decide, by decide, by decide, rfl⟩
    | false =>
        refine .inl ⟨1, by decide, fun h => (by cases h.1), ?_⟩
        ext channel
        simp [oneChannelCard, oneChannelOpened]
  closes := by
    rintro isOpen channel ⟨rfl, rfl⟩
    refine ⟨by decide, ?_⟩
    have hclosed : (oneChannelCard true (closeApdu 1)).2 = false := by decide
    ext channel
    simp [hclosed, oneChannelOpened]
  keeps isOpen apdu hins := by
    have hopen : apdu ≠ openApdu := by
      rintro rfl
      exact hins rfl
    have hclose : apdu ≠ closeApdu 1 := by
      rintro rfl
      exact hins rfl
    rw [oneChannelCard, if_neg hopen, if_neg hclose]

theorem no_channel_leaks_oneChannelCard : ∃ results p' result p'',
    runCalls oneChannelCard [.tobInitializeWithInterface (some 0)] 2
      (start (fun _ => true) fun _ => Mem.zero) = (.done results, p') ∧
    (Call.api (.signingLen (some []))).run oneChannelCard 2 p' = (.done result, p'') ∧
    oneChannelOpened (p''.ifaces p''.current).card = oneChannelOpened (p'.ifaces p'.current).card :=
  ⟨_, _, _, _, rfl, rfl, (no_channel_leaks oneChannelCard_channels (fun _ => true) (fun _ => Mem.zero) (some 0)
    [] (.signingLen (some [])) 2 2 _ _ _ _ rfl rfl).1⟩

end Process

end TrustOnboard
