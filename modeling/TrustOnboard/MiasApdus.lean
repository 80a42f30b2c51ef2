import TrustOnboard.CardApdus
import TrustOnboard.MiasTrace

/-! Orderly runs of the applet objects: every data field that a byte can count is sent in order, and only a PIN, a path
and a ciphertext come from outside. -/

namespace TrustOnboard

open Exec Linked SEInterface

variable {σ A : Type} {T : Transport σ}

/-- The buffer is in bounds, and so is the name of the applet. -/
def Linked.Fits (aid : A → List UInt8) (s : Linked σ A) : Prop := Bounded s.se ∧ (aid s.obj).length ≤ 255

section Linked

variable {aid : A → List UInt8}

theorem onSE_orderly {α : Type} {program : Exec (SEInterface σ) α} (h : Stays (Orderly Bounded id) program) :
    Stays (Orderly (Fits aid) Linked.se) (onSE program : Exec (Linked σ A) α) := by
  intro fuel s hfits
  obtain ⟨hbounded, hsends⟩ := h fuel s.se hfits.1
  exact ⟨⟨hbounded, hfits.2⟩, hsends⟩

theorem note_orderly (n : Note) : Stays (Orderly (Fits aid) Linked.se) (note n : Exec (Linked σ A) Unit) := by
  refine .modify fun s hfits => ⟨hfits, [.note n], rfl, ?_⟩
  intro apdu hmem
  cases hmem

theorem setObj_orderly {update : A → A} (h : ∀ obj, aid (update obj) = aid obj) :
    Stays (Orderly (Fits aid) Linked.se) (setObj update : Exec (Linked σ A) Unit) := by
  refine .modify fun s hfits => ⟨⟨hfits.1, ?_⟩, .of_log_eq rfl⟩
  show (aid (update s.obj)).length ≤ 255
  rw [h]
  exact hfits.2

/-- A program that goes on with the object as it is may rely on the name being in bounds. -/
theorem gets_orderly {α : Type} {next : A → Exec (Linked σ A) α}
    (h : ∀ obj, (aid obj).length ≤ 255 → Stays (Orderly (Fits aid) Linked.se) (next obj)) :
    Stays (Orderly (Fits aid) Linked.se) (gets (·.obj) >>= next) :=
  fun fuel s hfits => h s.obj hfits.2 fuel s hfits

end Linked

namespace Applet

theorem whenSelected_orderly {cla : UInt8} {transmitted : UInt8 → Exec (SEInterface σ) Bool}
    (h : ∀ cla, Stays (Orderly Bounded id) (transmitted cla)) :
    Stays (Orderly (Fits Applet.aid) Linked.se) (whenSelected cla transmitted) :=
  .bind (.gets _) fun _ => .ite (.bind (.check _) fun _ => onSE_orderly (h _)) (.pure _)

theorem ok_orderly {transmitted : Exec (Linked σ Applet) Bool}
    (h : Stays (Orderly (Fits Applet.aid) Linked.se) transmitted) :
    Stays (Orderly (Fits Applet.aid) Linked.se) (ok transmitted) :=
  .bind h fun _ => .ite (.gets _) (.pure _)

section Cases

variable (cla : UInt8) (ins : SCIns) (p1 p2 : UInt8)

theorem transmitCase1_orderly : Stays (Orderly (Fits Applet.aid) Linked.se) (transmitCase1 T cla ins p1 p2) :=
  whenSelected_orderly fun cla => SEInterface.transmitCase1_orderly cla ins p1 p2

theorem transmitCase2_orderly (le : UInt8) :
    Stays (Orderly (Fits Applet.aid) Linked.se) (transmitCase2 T cla ins p1 p2 le) :=
  whenSelected_orderly fun cla => SEInterface.transmitCase2_orderly cla ins p1 p2 le

theorem transmitCase3_orderly {data : List UInt8} (h : data.length ≤ 255) :
    Stays (Orderly (Fits Applet.aid) Linked.se) (transmitCase3 T cla ins p1 p2 data) :=
  whenSelected_orderly fun cla => SEInterface.transmitCase3_orderly cla ins p1 p2 h

theorem transmitCase4_orderly {data : List UInt8} (h : data.length ≤ 255) (le : UInt8) :
    Stays (Orderly (Fits Applet.aid) Linked.se) (transmitCase4 T cla ins p1 p2 data le) :=
  whenSelected_orderly fun cla => SEInterface.transmitCase4_orderly cla ins p1 p2 h le

end Cases

/-! ### Selection -/

theorem closeChannel_orderly (channel : UInt8) : Stays (Orderly Bounded id) (closeChannel T channel) :=
  SEInterface.transmitCase2_orderly _ _ _ _ _

theorem accepted_orderly {transmitted : Exec (SEInterface σ) Bool} (h : Stays (Orderly Bounded id) transmitted) :
    Stays (Orderly Bounded id) (accepted transmitted) :=
  .bind h fun _ => .ite (.gets _) (.pure _)

theorem selectAid_orderly (cla : UInt8) {aid : List UInt8} (h : aid.length ≤ 255) :
    Stays (Orderly Bounded id) (selectAid T cla aid) :=
  .bind (SEInterface.transmitCase3_orderly _ _ _ _ h) fun _ => .ite (.gets _) (.pure _)

theorem deselect_orderly : Stays (Orderly (Fits Applet.aid) Linked.se) (deselect T) := by
  refine .bind (.gets _) fun applet => .ite ?_ (.gets _)
  refine .bind (note_orderly _) fun _ => .ite ?_ (.ite ?_ (.gets _))
  · refine .bind (onSE_orderly (accepted_orderly (closeChannel_orderly _))) fun ok => .ite ?_ (.gets _)
    exact .bind (setObj_orderly fun _ => rfl) fun _ => .gets _
  · exact .bind (setObj_orderly fun _ => rfl) fun _ => .gets _

theorem selectBasic_orderly : Stays (Orderly (Fits Applet.aid) Linked.se) (selectBasic T) := by
  refine .bind (setObj_orderly fun _ => rfl) fun _ => gets_orderly fun applet haid => ?_
  refine .bind (onSE_orderly (selectAid_orderly _ haid)) fun ok => .ite ?_ (.pure _)
  exact .bind (setObj_orderly fun _ => rfl) fun _ => .bind (note_orderly _) fun _ => .pure _

theorem selectOnChannel_orderly : Stays (Orderly (Fits Applet.aid) Linked.se) (selectOnChannel T) := by
  refine gets_orderly fun applet haid => ?_
  refine .bind (onSE_orderly (selectAid_orderly _ haid)) fun ok => .ite ?_ ?_
  · exact .bind (setObj_orderly fun _ => rfl) fun _ => .bind (note_orderly _) fun _ => .pure _
  · exact .bind (onSE_orderly (closeChannel_orderly _)) fun _ => .pure _

theorem selectLogical_orderly : Stays (Orderly (Fits Applet.aid) Linked.se) (selectLogical T) := by
  refine .bind (onSE_orderly (accepted_orderly (SEInterface.transmitCase2_orderly _ _ _ _ _))) fun ok =>
    .ite ?_ (.pure _)
  refine .bind (.gets _) fun data => .bind (.check _) fun _ => ?_
  exact .bind (setObj_orderly fun _ => rfl) fun _ => selectOnChannel_orderly

theorem select_orderly (isBasic : Bool) : Stays (Orderly (Fits Applet.aid) Linked.se) (select T isBasic) := by
  refine .bind (.gets _) fun applet => .ite ?_ (.pure _)
  refine .bind (note_orderly _) fun _ => .bind deselect_orderly fun _ => ?_
  exact .ite selectBasic_orderly selectLogical_orderly

end Applet

/-! ### Elementary files -/

namespace MF

/-- A PIN that is longer than eight bytes is refused. -/
theorem verifyPin_orderly (pin : List UInt8) : Stays (Orderly (Fits Applet.aid) Linked.se) (verifyPin T pin) := by
  unfold verifyPin
  split
  · exact .pure _
  · refine Applet.ok_orderly (Applet.transmitCase3_orderly _ _ _ _ ?_)
    simp only [pinData, List.length_append, List.length_replicate]
    omega

theorem readEF_orderly {path : List UInt8} (h : path.length ≤ 255) (data : Option Mem) (dataLen : Nat) :
    Stays (Orderly (Fits Applet.aid) Linked.se) (readEF T path data dataLen) := by
  have hsize : ∀ length, Stays (Orderly Bounded id) (getEFSize length : Exec (SEInterface σ) (Option Nat)) := by
    intro length
    refine .bind (.gets _) fun tag => .ite (.loop (fun i => .ite ?_ (.pure _)) 2) (.pure _)
    refine .bind (.gets _) fun tag => .bind (.gets _) fun l => .ite ?_ (.pure _)
    exact .bind (.refl_run (sizeBytes_same l (i + 2) 0)) fun _ => .pure _
  refine .bind (Applet.ok_orderly (Applet.transmitCase4_orderly _ _ _ _ h _)) fun ok => .ite ?_ (.pure _)
  refine .bind (onSE_orderly (.gets _)) fun length => .bind (onSE_orderly (hsize length)) fun size => ?_
  cases size with
  | none => exact .pure _
  | some size =>
      cases data with
      | none => exact .pure _
      | some out =>
          refine .bind (.loop (fun x => .ite ?_ (.pure _)) _) fun _ => .pure _
          refine .bind (Applet.ok_orderly (Applet.transmitCase2_orderly _ _ _ _ _)) fun ok => .ite ?_ (.pure _)
          exact .bind (.gets _) fun _ => .pure _

end MF

/-! ### The MIAS applet -/

namespace Mias

/-- The name of the applet. -/
def name (m : Mias) : List UInt8 := m.applet.aid

theorem onApplet_orderly {α : Type} {program : Exec (Linked σ Applet) α}
    (h : Stays (Orderly (Fits Applet.aid) Linked.se) program) :
    Stays (Orderly (Fits name) Linked.se) (onApplet program) :=
  .zoom h fun _ _ horderly => horderly

/-- What the functions send is in order, if a byte can count the PIN and the second part of the ciphertext. -/
theorem orderly_bears : Bears T (fun _ => True) (fun bytes => bytes.length ≤ 255) (fun _ => True)
    (Orderly (Fits name) Linked.se) where
  short _ hshort := hshort
  case1 _ _ _ _ := onApplet_orderly (Applet.transmitCase1_orderly _ _ _ _)
  case2 _ _ _ _ _ := onApplet_orderly (Applet.transmitCase2_orderly _ _ _ _ _)
  case3 _ _ _ hshort _ _ := onApplet_orderly (Applet.transmitCase3_orderly _ _ _ _ hshort)
  case4 _ _ _ hshort _ _ _ := onApplet_orderly (Applet.transmitCase4_orderly _ _ _ _ hshort _)
  note _ := note_orderly _
  setObj happlet := setObj_orderly fun obj => congrArg Applet.aid (happlet obj)

end Mias

end TrustOnboard
