import Mathlib.Data.List.Basic
import TrustOnboard.ExecRelations
import TrustOnboard.AppletSelection

/-! Two runs of an applet. Commands of an applet that is not selected are not sent, so the applets may differ
then; one that is selected must be the same in both runs. -/

namespace TrustOnboard

open Exec Linked SEInterface

variable {σ : Type} {T : Transport σ}

/-- The interface is the same and the objects are related. -/
def SameSE {A : Type} (rel : A → A → Prop) (s t : Linked σ A) : Prop := s.se = t.se ∧ rel s.obj t.obj

theorem SameSE.onSE {A α : Type} {rel : A → A → Prop} (program : Exec (SEInterface σ) α) :
    Respects (SameSE rel) (onSE program : Exec (Linked σ A) α) := by
  have hsame : Relates Eq (fun _ => Eq) program := .of_eq (fun _ _ heq => heq) fun _ _ => rfl
  refine hsame.zoom (fun s t hst => hst.1) ?_
  intro value s t a b hst hab
  exact ⟨hab, hst.2⟩

theorem SameSE.setObj {A : Type} {rel rel' : A → A → Prop} {update : A → A}
    (h : ∀ a b, rel a b → rel' (update a) (update b)) :
    Relates (SameSE rel) (fun _ => SameSE rel') (setObj update : Exec (Linked σ A) Unit) :=
  .modify fun _ _ hst => ⟨hst.1, h _ _ hst.2⟩

theorem SameSE.note {A : Type} {rel : A → A → Prop} (n : Note) :
    Respects (SameSE rel) (note n : Exec (Linked σ A) Unit) := by
  refine .modify fun s t hst => ⟨?_, hst.2⟩
  show { s.se with log := .note n :: s.se.log } = { t.se with log := .note n :: t.se.log }
  rw [hst.1]

namespace Applet

/-- Related applets are selected alike, and are the same when they are selected. -/
structure Tied (rel : Applet → Applet → Prop) : Prop where
  selected_eq : ∀ {a b}, rel a b → a.isSelected = b.isSelected
  eq_of_selected : ∀ {a b}, rel a b → a.isSelected = true → a = b

theorem tied_eq : Tied Eq where
  selected_eq := by
    rintro a b rfl
    rfl
  eq_of_selected := fun heq _ => heq

/-- A command does not change the applet. -/
theorem whenSelected_obj (cla : UInt8) (transmitted : UInt8 → Exec (SEInterface σ) Bool) (fuel : Nat)
    (s : Linked σ Applet) : (whenSelected cla transmitted fuel s).2.obj = s.obj := by
  rw [whenSelected, bind_apply, gets_apply]
  dsimp only
  split
  · by_cases hattached : s.obj.attached = true
    · rw [bind_done (check_pos hattached fuel s)]
      rfl
    · rw [bind_apply, check_neg hattached]
  · rfl

section Tied

variable {rel : Applet → Applet → Prop} (h : Tied rel) {s t : Linked σ Applet}

include h

theorem Tied.whenSelected (cla : UInt8) (transmitted : UInt8 → Exec (SEInterface σ) Bool) :
    Respects (SameSE rel) (whenSelected cla transmitted) := by
  rintro fuel ⟨se, a⟩ ⟨se', b⟩ ⟨hse, hrel⟩
  obtain rfl : se = se' := hse
  cases hselected : a.isSelected with
  | true =>
      obtain rfl := h.eq_of_selected hrel hselected
      refine ⟨rfl, fun _ _ => ⟨rfl, ?_⟩⟩
      rw [whenSelected_obj]
      exact hrel
  | false =>
      have hother : b.isSelected = false := (h.selected_eq hrel).symm.trans hselected
      simp only [Applet.whenSelected, bind_apply, gets_apply, hselected, hother]
      exact ⟨rfl, fun _ _ => ⟨rfl, hrel⟩⟩

theorem Tied.getStatusWord_eq (hst : SameSE rel s t) : getStatusWord s = getStatusWord t := by
  rw [getStatusWord, getStatusWord, hst.1, h.selected_eq hst.2]

theorem Tied.getResponse_eq (hst : SameSE rel s t) : getResponse s = getResponse t := by
  rw [getResponse, getResponse, hst.1, h.selected_eq hst.2]

theorem Tied.ok {transmitted : Exec (Linked σ Applet) Bool} (hsent : Respects (SameSE rel) transmitted) :
    Respects (SameSE rel) (ok transmitted) :=
  hsent.bind fun _ => .ite (fun _ => Respects.gets fun _ _ hst => by rw [h.getStatusWord_eq hst])
    fun _ => Respects.pure _

end Tied

/-! ### Selection -/

/-- Two applets with one AID that are attached and selected alike, and are the same when they are selected. -/
structure Alike (a b : Applet) : Prop where
  aid_eq : a.aid = b.aid
  attached_eq : a.attached = b.attached
  selected_eq : a.isSelected = b.isSelected
  eq_of_selected : a.isSelected = true → a = b

theorem tied_alike : Tied Alike := ⟨Alike.selected_eq, Alike.eq_of_selected⟩

theorem Alike.refl (a : Applet) : Alike a a := ⟨rfl, rfl, rfl, fun _ => rfl⟩

/-- The card does not accept MANAGE CHANNEL open without telling the channel. -/
def TellsChannel (T : Transport σ) : Prop := ∀ card apdu, FollowUp openApdu apdu → (T card apdu).1 ≠ some [0x90, 0x00]

/-- Unselected applets on the same channel. -/
structure Ported (a b : Applet) : Prop extends Alike a b where
  channel_eq : a.channel = b.channel
  unselected : a.isSelected = false

theorem selectOnChannel_respects : Relates (SameSE Ported) (fun _ => SameSE Alike) (selectOnChannel T) := by
  refine .gets_bind (fun s t hst => by rw [hst.2.channel_eq, hst.2.aid_eq]) fun applet => ?_
  refine (SameSE.onSE _).bind fun ok => .ite (fun _ => ?_) fun _ => ?_
  · refine (SameSE.setObj fun a b hab => ?_).bind fun _ => (SameSE.note _).bind fun _ => Respects.pure _
    refine ⟨hab.aid_eq, hab.attached_eq, rfl, fun _ => ?_⟩
    show Applet.mk a.aid a.attached a.channel true false = Applet.mk b.aid b.attached b.channel true false
    rw [hab.aid_eq, hab.attached_eq, hab.channel_eq]
  · exact (SameSE.onSE _).bind fun _ => .pure fun s t hst => ⟨hst.1, hst.2.toAlike⟩

/-- An answer `9000` that is not bare carries data. -/
theorem responseData_ne_nil {answer : List UInt8} (hok : statusWord answer = swOK) (hne : answer ≠ [0x90, 0x00]) :
    responseData answer ≠ [] := by
  have hlen : 2 ≤ answer.length := by
    by_contra hshort
    rw [statusWord, if_neg hshort] at hok
    cases hok
  intro hnil
  have htwo : answer.length = 2 := by
    have := responseData_length answer
    rw [hnil, List.length_nil] at this
    omega
  obtain ⟨sw1, sw2, rfl⟩ := List.length_eq_two.mp htwo
  have hword : word16 sw1 sw2 = swOK := hok
  have hlow := sw2.toNat_lt
  simp only [word16, swOK] at hword
  apply hne
  rw [← UInt8.ofNat_toNat (x := sw1), ← UInt8.ofNat_toNat (x := sw2), show sw1.toNat = 0x90 by omega,
    show sw2.toNat = 0x00 by omega]
  rfl

theorem openChannel_tells (h : TellsChannel T) (s : SEInterface σ) :
    Meets (accepted (openChannel T)) s (fun ok s' => ok = true → SEInterface.getResponse s' ≠ []) fun _ => True := by
  refine (accepted_meets T (command_transmits T openApdu) s).mono ?_ fun _ hcut => hcut
  rintro ok s' ⟨result, events, hran, rfl⟩ hok
  obtain ⟨answer, rfl, hsw⟩ := answer_of_accepted hok
  obtain ⟨apdu, earlier, hchain, _, hevents⟩ := hran.ended
  have hplay := hran.replay
  rw [hevents] at hplay
  obtain ⟨card, _, hanswer, _⟩ := (hplay.silent_inv fun _ _ heq => by cases heq).exchange_inv
  rw [(hran.holds answer rfl).getResponse]
  apply responseData_ne_nil hsw
  intro hbare
  rw [hbare] at hanswer
  exact h card apdu hchain.followUp hanswer.symm

/-- Unselected applets. -/
def Loose (a b : Applet) : Prop := Alike a b ∧ a.isSelected = false

theorem selectLogical_respects (h : TellsChannel T) :
    Relates (SameSE Loose) (fun _ => SameSE Alike) (selectLogical T) := by
  have hopen : Relates (SameSE Loose)
      (fun ok s t => SameSE Loose s t ∧ (ok = true → SEInterface.getResponse s.se ≠ []))
      (onSE (accepted (openChannel T)) : Exec (Linked σ Applet) Bool) := by
    have htells : ∀ s : Linked σ Applet, Meets (onSE (accepted (openChannel T))) s
        (fun ok s' => ok = true → SEInterface.getResponse s'.se ≠ []) fun _ => True :=
      fun s => .zoom (openChannel_tells h s.se)
    exact (SameSE.onSE _).and_meets fun s t _ => htells s
  refine hopen.bind fun ok => .ite (fun hok => ?_) fun _ => .pure fun s t hst => ⟨hst.1.1, hst.1.2.1⟩
  refine .bind (Q := fun data s t => SameSE Loose s t ∧ data ≠ []) (.gets ?_ ?_) fun data => ?_
  · rintro s t ⟨hst, _⟩
    rw [hst.1]
  · exact fun s t hst => ⟨hst.1, hst.2 hok⟩
  · refine (Respects.check _).bind fun _ => .bind (Q := fun _ => SameSE Ported) (.modify ?_) fun _ =>
      selectOnChannel_respects
    rintro s t ⟨⟨hse, hab, hfree⟩, hdata⟩
    obtain ⟨channel, rest, rfl⟩ := List.exists_cons_of_ne_nil hdata
    refine ⟨hse, ⟨⟨hab.aid_eq, hab.attached_eq, hab.selected_eq, ?_⟩, rfl, hfree⟩⟩
    intro hselected
    exact absurd (hfree.symm.trans hselected) (by decide)

theorem deselect_unselected {s : Linked σ Applet} (h : s.obj.isSelected = false) (fuel : Nat) :
    deselect T fuel s = (.done true, if s.obj.attached then noted (.deselecting s.obj.aid) s else s) := by
  rw [deselect, bind_apply, gets_apply]
  dsimp only
  split
  · simp only [bind_apply, note, modify_apply, gets_apply, h, Bool.false_and, Bool.false_eq_true, if_false, noted,
      Bool.not_false]
  · simp only [gets_apply, h, Bool.not_false]

/-- Programs of related applets, of which the selected ones are the same. -/
theorem respects_alike {α : Type} {program : Exec (Linked σ Applet) α}
    (h : Relates (SameSE Loose) (fun _ => SameSE Alike) program) : Respects (SameSE Alike) program := by
  intro fuel s t hst
  cases hselected : s.obj.isSelected with
  | true =>
      obtain rfl : s = t := by
        rcases s with ⟨se, a⟩
        rcases t with ⟨se', b⟩
        obtain rfl : se = se' := hst.1
        obtain rfl : a = b := hst.2.eq_of_selected hselected
        rfl
      exact ⟨rfl, fun _ _ => ⟨rfl, .refl _⟩⟩
  | false => exact h fuel s t ⟨hst.1, hst.2, hselected⟩

theorem deselect_loose : Respects (SameSE Loose) (deselect T) := by
  intro fuel s t hst
  obtain ⟨hse, hab, hfree⟩ := hst
  rw [deselect_unselected hfree, deselect_unselected (hab.selected_eq.symm.trans hfree),
    ← hab.attached_eq, ← hab.aid_eq]
  refine ⟨rfl, fun _ _ => ?_⟩
  split
  · refine ⟨?_, hab, hfree⟩
    simp only [noted, hse]
  · exact ⟨hse, hab, hfree⟩

theorem deselect_respects : Respects (SameSE Alike) (deselect T) :=
  respects_alike (deselect_loose.mono (fun _ _ hst => hst) fun _ _ _ hst => ⟨hst.1, hst.2.1⟩)

theorem select_respects (h : TellsChannel T) : Respects (SameSE Alike) (select T false) := by
  apply respects_alike
  refine .gets_bind (fun s t hst => ?_) fun applet => .ite (fun _ => ?_) fun _ => ?_
  · rw [hst.2.1.attached_eq, hst.2.1.aid_eq]
  · exact (SameSE.note _).bind fun _ => deselect_loose.bind fun _ => selectLogical_respects h
  · exact .pure fun s t hst => ⟨hst.1, hst.2.1⟩

end Applet

end TrustOnboard
