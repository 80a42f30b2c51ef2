import TrustOnboard.CardTrace
import TrustOnboard.AppletModel

/-! What the functions of an applet may put on the wire. Everything that is not selection goes through
`whenSelected`: it keeps the selection state and issues commands of its instructions on the channel
of the applet, which is what `Within` says. -/

namespace TrustOnboard

open Exec Linked SEInterface

section Within

variable {σ A : Type} {T : Transport σ} {applet : A → Applet} {ins : SCIns → Prop} {notes : Note → Prop}

/-- The selection state is kept and the log grew by commands of the applet's channel. -/
def Within (T : Transport σ) (applet : A → Applet) (ins : SCIns → Prop) (notes : Note → Prop)
    (s s' : Linked σ A) : Prop :=
  applet s'.obj = applet s.obj ∧ Grows T (OfChannel ins notes (applet s.obj).channel) s.se s'.se

instance : IsPreorder (Linked σ A) (Within T applet ins notes) where
  refl s := ⟨rfl, refl s.se⟩
  trans := by
    rintro a b c ⟨happlet, hgrows⟩ ⟨happlet', hgrows'⟩
    rw [happlet] at hgrows'
    exact ⟨happlet'.trans happlet, Trans.trans hgrows hgrows'⟩

theorem onSE_within {α : Type} {program : Exec (SEInterface σ) α}
    (h : ∀ channel, Stays (Grows T (OfChannel ins notes channel)) program) :
    Stays (Within T applet ins notes) (onSE program : Exec (Linked σ A) α) :=
  fun fuel s => ⟨rfl, h (applet s.obj).channel fuel s.se⟩

theorem note_within {n : Note} (hn : notes n) :
    Stays (Within T applet ins notes) (note n : Exec (Linked σ A) Unit) :=
  .modify fun s => ⟨rfl, note_grows hn s.se⟩

theorem setObj_within {update : A → A} (h : ∀ obj, applet (update obj) = applet obj) :
    Stays (Within T applet ins notes) (setObj update : Exec (Linked σ A) Unit) :=
  .modify fun s => ⟨h s.obj, refl s.se⟩

end Within

namespace Applet

variable {σ : Type} {T : Transport σ} {ins : SCIns → Prop} {notes : Note → Prop} {cla : UInt8} {i : SCIns}

theorem whenSelected_within {transmitted : UInt8 → Exec (SEInterface σ) Bool}
    (h : ∀ channel, Stays (Grows T (OfChannel ins notes channel)) (transmitted (cla ||| channel))) :
    Stays (Within T id ins notes) (whenSelected cla transmitted) := by
  intro fuel s
  rw [whenSelected, bind_apply, gets_apply]
  by_cases hselected : s.obj.isSelected = true
  · simp only [if_pos hselected, bind_apply]
    by_cases hattached : s.obj.attached = true
    · rw [check_pos hattached]
      exact ⟨rfl, h s.obj.channel fuel s.se⟩
    · rw [check_neg hattached]
      exact refl s
  · simp only [if_neg hselected]
    exact refl s

/-- Answered `9000`. -/
def acceptedResult : Option (List UInt8) → Bool
  | some answer => decide (statusWord answer = swOK)
  | none => false

theorem answer_of_accepted {result : Option (List UInt8)} (h : acceptedResult result = true) :
    ∃ answer, result = some answer ∧ statusWord answer = swOK := by
  cases result with
  | none => cases h
  | some answer => exact ⟨answer, rfl, of_decide_eq_true h⟩

/-- **A command of an applet, for every card**: without selection nothing is sent, else the command is
transmitted. -/
theorem whenSelected_meets {transmitted : UInt8 → Exec (SEInterface σ) Bool} {apdu : List UInt8}
    {s : Linked σ Applet} (h : Transmits T apdu (transmitted (cla ||| s.obj.channel))) :
    Meets (whenSelected cla transmitted) s
      (fun ok s' => s'.obj = s.obj ∧ ((ok = false ∧ s' = s ∧ s.obj.isSelected = false) ∨
        s.obj.isSelected = true ∧ ∃ result events, Ran T apdu s.se s'.se result events ∧ ok = result.isSome))
      (fun s' => s'.obj = s.obj ∧ Cut T apdu s.se s'.se) := by
  refine .gets_bind (.ite (fun hselected => .check_bind (fun _ => .zoom ?_) fun _ => ?_) fun hselected => ?_)
  · exact (h s.se).mono (fun _ _ hpost => ⟨rfl, .inr ⟨hselected, hpost⟩⟩) fun _ hcut => ⟨rfl, hcut⟩
  · exact ⟨rfl, [], .waiting .start, rfl, .nil⟩
  · exact .pure ⟨rfl, .inl ⟨rfl, rfl, Bool.not_eq_true _ ▸ hselected⟩⟩

/-- The same with the test of the status word: the result is whether it was answered `9000`. -/
theorem ok_meets {transmitted : UInt8 → Exec (SEInterface σ) Bool} {apdu : List UInt8} {s : Linked σ Applet}
    (h : Transmits T apdu (transmitted (cla ||| s.obj.channel))) :
    Meets (ok (whenSelected cla transmitted)) s
      (fun ok s' => s'.obj = s.obj ∧ ((ok = false ∧ s' = s ∧ s.obj.isSelected = false) ∨
        s.obj.isSelected = true ∧
          ∃ result events, Ran T apdu s.se s'.se result events ∧ ok = acceptedResult result))
      (fun s' => s'.obj = s.obj ∧ Cut T apdu s.se s'.se) := by
  refine .bind (whenSelected_meets h) ?_
  rintro answered s' ⟨hobj, ⟨rfl, rfl, hselected⟩ | ⟨hselected, result, events, hran, rfl⟩⟩ fuel
  · exact ⟨rfl, .inl ⟨rfl, rfl, hselected⟩⟩
  · cases result with
    | none => exact ⟨hobj, .inr ⟨hselected, none, events, hran, rfl⟩⟩
    | some answer =>
        refine ⟨hobj, .inr ⟨hselected, some answer, events, hran, ?_⟩⟩
        show decide (Applet.getStatusWord s' = swOK) = decide (statusWord answer = swOK)
        rw [Applet.getStatusWord, hobj, if_pos hselected, (hran.holds answer rfl).getStatusWord]

theorem transmitCase1_within (hcla : cla = 0x00 ∨ cla = 0x10) (hins : ins i) (p1 p2 : UInt8) :
    Stays (Within T id ins notes) (transmitCase1 T cla i p1 p2) :=
  whenSelected_within fun _ => transmitCase1_grows hcla hins p1 p2

theorem transmitCase2_within (hcla : cla = 0x00 ∨ cla = 0x10) (hins : ins i) (p1 p2 le : UInt8) :
    Stays (Within T id ins notes) (transmitCase2 T cla i p1 p2 le) :=
  whenSelected_within fun _ => transmitCase2_grows hcla hins p1 p2 le

theorem transmitCase3_within (hcla : cla = 0x00 ∨ cla = 0x10) (hins : ins i) (p1 p2 : UInt8)
    (data : List UInt8) : Stays (Within T id ins notes) (transmitCase3 T cla i p1 p2 data) :=
  whenSelected_within fun _ => transmitCase3_grows hcla hins p1 p2 data

theorem transmitCase4_within (hcla : cla = 0x00 ∨ cla = 0x10) (hins : ins i) (p1 p2 : UInt8)
    (data : List UInt8) (le : UInt8) :
    Stays (Within T id ins notes) (transmitCase4 T cla i p1 p2 data le) :=
  whenSelected_within fun _ => transmitCase4_grows hcla hins p1 p2 data le

theorem ok_within {transmitted : Exec (Linked σ Applet) Bool} (h : Stays (Within T id ins notes) transmitted) :
    Stays (Within T id ins notes) (ok transmitted) :=
  .bind h fun _ => .ite (.gets _) (.pure _)

end Applet

/-! ### Events whatever the channel -/

/-- The events of commands with these instructions on any channel. -/
def Wire (ins : SCIns → Prop) (notes : Note → Prop) (event : Event) : Prop :=
  ∃ channel, OfChannel ins notes channel event

section OnWire

variable {S σ A : Type} {T : Transport σ} {se : S → SEInterface σ} {ins : SCIns → Prop} {notes : Note → Prop}

/-- The log of the interface that is part of a state grew by events of this kind. -/
def OnWire (T : Transport σ) (se : S → SEInterface σ) (kind : Event → Prop) (s s' : S) : Prop :=
  Grows T kind (se s) (se s')

instance (kind : Event → Prop) : IsPreorder S (OnWire T se kind) where
  refl s := refl (se s)
  trans a b c h h' := IsTrans.trans (r := Grows T kind) (se a) (se b) (se c) h h'

theorem Within.onWire {applet : A → Applet} {s s' : Linked σ A} (h : Within T applet ins notes s s') :
    OnWire T Linked.se (Wire ins notes) s s' :=
  h.2.mono fun _ hevent => ⟨_, hevent⟩

/-- The notes that `select` and `deselect` write. -/
def SelectionNote : Note → Prop
  | .selecting _ => True
  | .selected _ _ => True
  | .deselecting _ => True
  | _ => False

end OnWire

namespace Applet

variable {σ : Type} {T : Transport σ} {ins : SCIns → Prop} {notes : Note → Prop}

section Selection

variable (hchannel : ins .manageChannel) (hselect : ins .select) (hnotes : ∀ n, SelectionNote n → notes n)

theorem onSE_onWire {α : Type} {kind : Event → Prop} {program : Exec (SEInterface σ) α}
    (h : Stays (Grows T kind) program) :
    Stays (OnWire T Linked.se kind) (onSE program : Exec (Linked σ Applet) α) :=
  fun fuel s => h fuel s.se

theorem whenSelected_onWire {kind : Event → Prop} {transmitted : UInt8 → Exec (SEInterface σ) Bool}
    (h : ∀ cla, Stays (Grows T kind) (transmitted cla)) (cla : UInt8) :
    Stays (OnWire T Linked.se kind) (whenSelected cla transmitted) :=
  .bind (.gets _) fun _ => .ite (.bind (.check _) fun _ => onSE_onWire (h _)) (.pure _)

theorem ok_onWire {kind : Event → Prop} {transmitted : Exec (Linked σ Applet) Bool}
    (h : Stays (OnWire T Linked.se kind) transmitted) : Stays (OnWire T Linked.se kind) (ok transmitted) :=
  .bind h fun _ => .ite (.gets _) (.pure _)

theorem note_onWire {kind : Event → Prop} {n : Note} (hkind : kind (.note n)) :
    Stays (OnWire T Linked.se kind) (note n : Exec (Linked σ Applet) Unit) :=
  .modify fun s => note_grows hkind s.se

theorem setObj_onWire {kind : Event → Prop} (update : Applet → Applet) :
    Stays (OnWire T Linked.se kind) (setObj update : Exec (Linked σ Applet) Unit) :=
  .modify fun s => refl s.se

include hchannel in
theorem manageChannel_grows (p1 p2 le : UInt8) :
    Stays (Grows T (Wire ins notes)) (SEInterface.transmitCase2 T 0x00 .manageChannel p1 p2 le) := by
  have h : Stays (Grows T (OfChannel ins notes 0))
      (SEInterface.transmitCase2 T (0x00 ||| 0) .manageChannel p1 p2 le) :=
    SEInterface.transmitCase2_grows (.inl rfl) hchannel p1 p2 le
  exact h.mono fun _ _ h => h.mono fun _ hevent => ⟨0, hevent⟩

include hchannel in
theorem closeAllChannels_grows : Stays (Grows T (Wire ins notes)) (closeAllChannels T) := by
  have hall : ∀ channels, Stays (Grows T (Wire ins notes)) (closeChannels T channels) := by
    intro channels
    induction channels with
    | nil => exact .pure _
    | cons channel channels ih => exact .bind (manageChannel_grows hchannel _ _ _) fun _ => ih
  exact hall _

include hselect in
theorem selectAid_grows (channel : UInt8) (aid : List UInt8) :
    Stays (Grows T (Wire ins notes)) (selectAid T (0x00 ||| channel) aid) :=
  .bind ((SEInterface.transmitCase3_grows (.inl rfl) hselect _ _ _).mono
    fun _ _ h => h.mono fun _ hevent => ⟨channel, hevent⟩) fun _ => .ite (.gets _) (.pure _)

theorem accepted_grows {kind : Event → Prop} {transmitted : Exec (SEInterface σ) Bool}
    (h : Stays (Grows T kind) transmitted) : Stays (Grows T kind) (accepted transmitted) :=
  .bind h fun _ => .ite (.gets _) (.pure _)

include hchannel hnotes

theorem deselect_onWire : Stays (OnWire T Linked.se (Wire ins notes)) (deselect T) := by
  refine .bind (.gets _) fun applet => .ite ?_ (.gets _)
  refine .bind (note_onWire ⟨0, hnotes _ trivial⟩) fun _ => .ite ?_ (.ite ?_ (.gets _))
  · refine .bind (onSE_onWire (accepted_grows (manageChannel_grows hchannel _ _ _))) fun ok => .ite ?_ (.gets _)
    exact .bind (setObj_onWire _) fun _ => .gets _
  · exact .bind (setObj_onWire _) fun _ => .gets _

include hselect

theorem select_onWire (isBasic : Bool) :
    Stays (OnWire T Linked.se (Wire ins notes)) (select T isBasic) := by
  refine .bind (.gets _) fun applet => .ite ?_ (.pure _)
  refine .bind (note_onWire ⟨0, hnotes _ trivial⟩) fun _ => ?_
  refine .bind (deselect_onWire hchannel hnotes) fun _ => .ite ?_ ?_
  · refine .bind (setObj_onWire _) fun _ => .bind (.gets _) fun applet => ?_
    refine .bind (onSE_onWire (selectAid_grows hselect 0 _)) fun ok => .ite ?_ (.pure _)
    refine .bind (setObj_onWire _) fun _ => ?_
    exact .bind (note_onWire ⟨0, hnotes _ trivial⟩) fun _ => .pure _
  · refine .bind (onSE_onWire (accepted_grows (manageChannel_grows hchannel _ _ _))) fun ok => .ite ?_ (.pure _)
    refine .bind (.gets _) fun data => .bind (.check _) fun _ => .bind (setObj_onWire _) fun _ => ?_
    refine .bind (.gets _) fun applet => ?_
    refine .bind (onSE_onWire (selectAid_grows hselect _ _)) fun ok => .ite ?_ ?_
    · refine .bind (setObj_onWire _) fun _ => ?_
      exact .bind (note_onWire ⟨0, hnotes _ trivial⟩) fun _ => .pure _
    · exact .bind (onSE_onWire (manageChannel_grows hchannel _ _ _)) fun _ => .pure _

end Selection

end Applet

end TrustOnboard
