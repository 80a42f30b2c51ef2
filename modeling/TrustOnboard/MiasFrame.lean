import TrustOnboard.MiasTrace

/-! What the reads of objects and certificates leave alone. Commands and notes keep the members of the object; the lookup
of an object fills the pool of files, and does not touch the table of key pairs. -/

namespace TrustOnboard.Mias

open Exec Linked SEInterface

variable {σ : Type} {T : Transport σ}

/-! ### What reads leave alone -/

/-- Commands and notes keep to this relation. -/
structure Frames (R : Linked σ Mias → Linked σ Mias → Prop) : Prop where
  applet : ∀ {α : Type} (program : Exec (Linked σ Applet) α), Stays R (onApplet program)
  note : ∀ n, Stays R (note n)

namespace Frames

variable {R : Linked σ Mias → Linked σ Mias → Prop} (h : Frames R)

include h

theorem ok (transmitted : Exec (Linked σ Applet) Bool) : Stays R (ok transmitted) := h.applet _

theorem response : Stays R (response : Exec (Linked σ Mias) (List UInt8)) := h.applet _

variable [IsPreorder (Linked σ Mias) R]

theorem readChunks (width base size : Nat) (out : Mem) : Stays R (readChunks T width base size out) := by
  refine .bind (h.note _) fun _ => .loop (fun x => .ite ?_ (.pure _)) _
  exact .bind (h.ok _) fun ok => .ite (.bind h.response fun _ => .pure _) (.pure _)

theorem readRecord (record : Mem) : Stays R (readRecord record : Exec (Linked σ Mias) (Nat × Mem)) :=
  .bind h.response fun _ => .bind (.check _) fun _ => .pure _

theorem readLength (offset : Nat) (record : Mem) : Stays R (readLength T offset record) :=
  .bind (h.ok _) fun _ => .ite (.bind (h.readRecord record) fun _ => .pure _) (.pure _)

theorem p11ReadValue (initial offset : Nat) (object : Option Mem) (record : Mem) :
    Stays R (p11ReadValue T initial offset object record) := by
  refine .bind (h.readLength offset record) fun application => ?_
  rcases application with ⟨_ | application, record⟩
  · exact .pure _
  refine .bind (h.readLength _ record) fun objectId => ?_
  rcases objectId with ⟨_ | objectId, record⟩
  · exact .pure _
  refine .bind (h.ok _) fun ok => .ite ?_ (.pure _)
  refine .bind (h.readRecord record) fun read => .ite ?_ (.pure _)
  cases object with
  | none => exact .pure _
  | some out => exact .bind (h.readChunks _ _ _ out) fun _ => .pure _

theorem p11TryFile (initial : Nat) (label : List UInt8) (object : Option Mem) (efid : Nat) (record : Mem) :
    Stays R (p11TryFile T initial label object efid record) := by
  refine .bind (h.ok _) fun ok => .ite ?_ (.pure _)
  refine .bind (h.readLength 16 record) fun length => ?_
  rcases length with ⟨_ | length, record⟩
  · exact .pure _
  refine .bind (h.ok _) fun ok => .ite ?_ (.pure _)
  refine .bind h.response fun data => .ite (.bind (.check _) fun _ => ?_) (.pure _)
  refine .bind (.loop (fun trimPos => .bind (.check _) fun _ => .ite (.pure _) (.pure _)) _) fun trimPos => ?_
  exact .ite (h.p11ReadValue _ _ _ _) (.pure _)

theorem p11Search (initial : Nat) (label : List UInt8) (object : Option Mem) (remaining j : Nat) (record : Mem) :
    Stays R (p11Search T initial label object remaining j record) := by
  induction remaining generalizing j record with
  | zero => exact .pure _
  | succ remaining ih =>
      refine .bind (.gets _) fun file => .ite ?_ (ih _ _)
      refine .bind (h.p11TryFile _ _ _ _ _) fun tried => ?_
      rcases tried with ⟨_ | fetched, record⟩
      · exact ih _ _
      · exact .pure _

end Frames

/-! ### The table of key pairs -/

/-- The table of key pairs is the same. -/
def SameKeys (m m' : Mias) : Prop := m'.keypairs = m.keypairs ∧ m'.keypairsNum = m.keypairsNum

/-- A run that leaves the table alone. -/
def KeepsKeys (s s' : Linked σ Mias) : Prop := SameKeys s.obj s'.obj

instance : IsPreorder (Linked σ Mias) KeepsKeys where
  refl _ := ⟨rfl, rfl⟩
  trans _ _ _ h h' := ⟨h'.1.trans h.1, h'.2.trans h.2⟩

theorem frames_keepsKeys : Frames (KeepsKeys (σ := σ)) where
  applet _ _ _ := ⟨rfl, rfl⟩
  note _ := .modify fun _ => ⟨rfl, rfl⟩

theorem directoryLoop_keepsKeys (remaining i : Nat) (record : Mem) :
    Stays KeepsKeys (directoryLoop T remaining i record) := by
  induction remaining generalizing i record with
  | zero => exact .pure _
  | succ remaining ih =>
      refine .bind (frames_keepsKeys.ok _) fun ok => .ite ?_ (ih _ _)
      refine .bind (frames_keepsKeys.readRecord record) fun read => .ite ?_ (ih _ _)
      -- the pool of files is no part of the table
      refine .bind (.modify fun _ => ⟨rfl, rfl⟩) fun _ => ?_
      exact .bind (.gets _) fun num => .bind (.check _) fun _ => ih _ _

/-- The lookup of an object does not touch the table. -/
theorem p11GetObjectByLabel_keepsKeys (locals : P11Locals) (label : List UInt8) (object : Option Mem) :
    Stays KeepsKeys (p11GetObjectByLabel T locals label object) := by
  refine .bind (frames_keepsKeys.note _) fun _ => .bind ?_ fun _ => .bind (frames_keepsKeys.note _) fun _ => .pure _
  refine .bind (.modify fun _ => ⟨rfl, rfl⟩) fun _ => ?_
  refine .bind (frames_keepsKeys.ok _) fun ok => .ite ?_ (.pure _)
  refine .bind (frames_keepsKeys.ok _) fun ok => .ite ?_ (.pure _)
  refine .bind frames_keepsKeys.response fun data => .bind (.check _) fun _ => .ite ?_ (.pure _)
  refine .bind (directoryLoop_keepsKeys _ _ _) fun record => .bind (.gets _) fun count => ?_
  exact frames_keepsKeys.p11Search _ _ _ _ _ _

/-- What the listing has made of the table, the read of a certificate leaves. -/
theorem getCertificateByContainerId_keepsKeys {P : Mias → Prop} (hsame : ∀ m m', SameKeys m m' → P m → P m')
    {s : Linked σ Mias}
    (hlists : Attains (listKeyPairs T) s fun _ s' => P s'.obj) (efSize : UInt16) (containerId : UInt8) (cert : Option Mem)
    (len : Nat) :
    Meets (getCertificateByContainerId T efSize containerId cert len) s (fun _ s' => P s'.obj) fun _ => True := by
  have hfind : Attains (getKeyPairByContainerId T containerId) s fun _ s' => P s'.obj :=
    hlists.bind fun _ s' hP => ⟨_, s', .gets, hP⟩
  obtain ⟨found, hfound⟩ := hfind
  refine hfound.bind_meets fun s₁ hP => ?_
  suffices hkeeps : ∀ program : Exec (Linked σ Mias) Fetched, Stays KeepsKeys program →
      Meets program s₁ (fun _ s' => P s'.obj) fun _ => True by
    apply hkeeps
    cases found with
    | none => exact .pure _
    | some index =>
        refine .bind (.gets _) fun pair => .ite ?_ (.pure _)
        refine .bind (frames_keepsKeys.ok _) fun ok => .ite ?_ (.pure _)
        refine .bind (.refl_run fun fuel s => ?_) fun size => .ite ?_ (.pure _)
        · show { s with se := (templateSize efSize.toNat fuel s.se).2 } = s
          rw [templateSize_same]
        · cases cert with
          | none => exact .pure _
          | some out => exact .bind (frames_keepsKeys.readChunks 256 0 size out) fun out => .ite (.pure _) (.pure _)
  intro program hstays
  exact (hstays.meets s₁).mono (fun _ s' hkeys => hsame _ _ hkeys hP) fun _ _ => trivial

end TrustOnboard.Mias
