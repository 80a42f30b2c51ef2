import TrustOnboard.AppletTrace
import TrustOnboard.MFModel
import TrustOnboard.MiasCrypto

/-! What the functions of the two applet objects may put on the wire: which instructions, on which
channel, and that none of them touches the selection state. -/

namespace TrustOnboard

open Exec Linked SEInterface

variable {σ : Type} {T : Transport σ} {ins : SCIns → Prop} {notes : Note → Prop}

namespace MF

theorem sizeBytes_same (l i size : Nat) (fuel : Nat) (s : SEInterface σ) :
    (sizeBytes l i size fuel s).2 = s := by
  induction l generalizing i size with
  | zero => rfl
  | succ l ih =>
      rw [sizeBytes, bind_apply]
      by_cases hrange : i < apduResponseSize
      · rw [check_pos hrange]
        exact ih _ _
      · rw [check_neg hrange]

theorem getEFSize_grows {kind : Event → Prop} (dataLen : Nat) :
    Stays (Grows T kind) (getEFSize dataLen : Exec (SEInterface σ) (Option Nat)) := by
  refine .bind (.gets _) fun tag => .ite (.loop (fun i => .ite ?_ (.pure _)) 2) (.pure _)
  refine .bind (.gets _) fun tag => .bind (.gets _) fun l => .ite ?_ (.pure _)
  exact .bind (.refl_run (sizeBytes_same l (i + 2) 0)) fun _ => .pure _

theorem verifyPin_within (hverify : ins .verify) (pin : List UInt8) :
    Stays (Within T id ins notes) (verifyPin T pin) :=
  .ite (.pure _) (Applet.ok_within (Applet.transmitCase3_within (.inl rfl) hverify _ _ _))

theorem readTurn_within (hread : ins .readBinary) (size : Nat) (x : Nat × Mem) :
    Stays (Within T id ins notes) (readTurn T size x) := by
  refine .ite ?_ (.pure _)
  refine .bind (Applet.ok_within (Applet.transmitCase2_within (.inl rfl) hread _ _ _)) fun ok => .ite ?_ (.pure _)
  exact .bind (.gets _) fun _ => .pure _

/-- `readEF` after the file is selected. -/
theorem readSize_within (hread : ins .readBinary) (data : Option Mem) (dataLen : Nat) (size : Option Nat) :
    Stays (Within T id ins notes) (match size with
      | none => (pure (false, data, dataLen) : Exec (Linked σ Applet) _)
      | some size =>
          match data with
          | none => pure (true, none, size)
          | some out => do
              let read ← loop (readTurn T size) (0, out)
              return (read.1, some read.2, size)) := by
  cases size with
  | none => exact .pure _
  | some size =>
      cases data with
      | none => exact .pure _
      | some out => exact .bind (.loop (readTurn_within hread size) _) fun _ => .pure _

theorem readEF_within (hselect : ins .select) (hread : ins .readBinary) (path : List UInt8)
    (data : Option Mem) (dataLen : Nat) : Stays (Within T id ins notes) (readEF T path data dataLen) := by
  refine .bind (Applet.ok_within (Applet.transmitCase4_within (.inl rfl) hselect _ _ _ _)) fun ok =>
    .ite ?_ (.pure _)
  exact .bind (onSE_within fun _ => .gets _) fun length =>
    .bind (onSE_within fun _ => getEFSize_grows _) fun size => readSize_within hread data dataLen size

end MF

namespace Mias

theorem fcpFileSize_same (initial fuel : Nat) (s : SEInterface σ) : (fcpFileSize initial fuel s).2 = s := by
  have hsame : Stays Eq (fcpFileSize initial : Exec (SEInterface σ) Nat) := by
    refine .bind (.gets _) fun len => .loop (fun x => .ite ?_ (.pure _)) _
    exact .bind (.gets _) fun _ => .bind (.gets _) fun _ => .bind (.gets _) fun _ => .pure _
  exact (hsame fuel s).symm

theorem templateSize_same (initial fuel : Nat) (s : SEInterface σ) : (templateSize initial fuel s).2 = s := by
  have hsame : Stays Eq (templateSize initial : Exec (SEInterface σ) Nat) := by
    refine .bind (.gets _) fun _ => .ite ?_ (.pure _)
    exact fun fuel s => (fcpFileSize_same initial fuel s).symm
  exact (hsame fuel s).symm

theorem linkRecord_applet (record : Mem) (m : Mias) : (linkRecord record m).applet = m.applet := by
  unfold linkRecord
  split
  · split <;> rfl
  · rfl

/-! ### What the functions need of a relation -/

/-- What a relation on the states has to bear for the runs of the object's functions to stay in it: commands of these
instructions with data of this kind, these notes, and updates that leave the applet alone. -/
structure Bears (T : Transport σ) (ins : SCIns → Prop) (data : List UInt8 → Prop) (notes : Note → Prop)
    (R : Linked σ Mias → Linked σ Mias → Prop) : Prop where
  short : ∀ bytes : List UInt8, bytes.length ≤ 255 → data bytes
  case1 : ∀ {cla : UInt8} {i : SCIns}, cla = 0x00 ∨ cla = 0x10 → ins i → ∀ p1 p2,
    Stays R (onApplet (Applet.transmitCase1 T cla i p1 p2))
  case2 : ∀ {cla : UInt8} {i : SCIns}, cla = 0x00 ∨ cla = 0x10 → ins i → ∀ p1 p2 le,
    Stays R (onApplet (Applet.transmitCase2 T cla i p1 p2 le))
  case3 : ∀ {cla : UInt8} {i : SCIns}, cla = 0x00 ∨ cla = 0x10 → ins i → ∀ {bytes : List UInt8}, data bytes → ∀ p1 p2,
    Stays R (onApplet (Applet.transmitCase3 T cla i p1 p2 bytes))
  case4 : ∀ {cla : UInt8} {i : SCIns}, cla = 0x00 ∨ cla = 0x10 → ins i → ∀ {bytes : List UInt8}, data bytes → ∀ p1 p2 le,
    Stays R (onApplet (Applet.transmitCase4 T cla i p1 p2 bytes le))
  note : ∀ {n : Note}, notes n → Stays R (note n)
  setObj : ∀ {update : Mias → Mias}, (∀ obj, (update obj).applet = obj.applet) → Stays R (setObj update)

section Bears

variable {R : Linked σ Mias → Linked σ Mias → Prop} {data : List UInt8 → Prop}

/-- The test of the status word changes nothing. -/
theorem ok_stays {transmitted : Exec (Linked σ Applet) Bool} (h : Stays R (onApplet transmitted)) :
    Stays R (ok transmitted) := by
  intro fuel s
  have hsame : (ok transmitted fuel s).2 = (onApplet transmitted fuel s).2 := by
    show (objLens appletLens).set (Applet.ok transmitted fuel ⟨s.se, s.obj.applet⟩).2 s = _
    rw [Applet.ok_state]
    rfl
  rw [hsame]
  exact h fuel s

variable [IsPreorder (Linked σ Mias) R]

theorem response_stays : Stays R (response : Exec (Linked σ Mias) (List UInt8)) := .refl_run fun _ _ => rfl

/-- Reading the response buffer. -/
theorem onSE_stays {α : Type} {program : Exec (SEInterface σ) α} (h : ∀ fuel s, (program fuel s).2 = s) :
    Stays R (onSE program : Exec (Linked σ Mias) α) := by
  refine .refl_run fun fuel s => ?_
  show { s with se := (program fuel s.se).2 } = s
  rw [h]

theorem getStatusWord_stays : Stays R (onApplet (gets Applet.getStatusWord) : Exec (Linked σ Mias) Nat) :=
  .refl_run fun _ _ => rfl

variable (h : Bears T ins data notes R)

section Reads

variable (hselect : ins .select) (hread : ins .readBinary)

section

include h hread

omit [IsPreorder (Linked σ Mias) R] in
theorem readBinary_stays (offset : Nat) (le : UInt8) : Stays R (onApplet (readBinary T offset le)) :=
  h.case2 (.inl rfl) hread _ _ _

theorem containerTurn_stays (size : Nat) (x : Nat × Nat) : Stays R (containerTurn T size x) := by
  refine .ite ?_ (.pure _)
  refine .bind (readBinary_stays h hread _ _) fun ok => .ite ?_ (.pure _)
  refine .bind getStatusWord_stays fun sw => .ite ?_ (.pure _)
  refine .bind (.gets _) fun record => .ite ?_ (.pure _)
  refine .bind (.gets _) fun num => .ite (.pure _) ?_
  exact .bind (h.setObj fun _ => rfl) fun _ => .pure _

theorem linkLoop_stays (remaining offset : Nat) : Stays R (linkLoop T remaining offset) := by
  induction remaining generalizing offset with
  | zero => exact .pure _
  | succ remaining ih =>
      refine .bind (ok_stays (readBinary_stays h hread _ _)) fun ok => .ite ?_ (ih _)
      exact .bind (.gets _) fun record => .bind (h.setObj (linkRecord_applet record)) fun _ => ih _

theorem readChunks_stays (hreading : ∀ base size, notes (.reading base size)) (width base size : Nat) (out : Mem) :
    Stays R (readChunks T width base size out) := by
  refine .bind (h.note (hreading _ _)) fun _ => .loop (fun x => .ite ?_ (.pure _)) _
  refine .bind (ok_stays (readBinary_stays h hread _ _)) fun ok => .ite ?_ (.pure _)
  exact .bind response_stays fun _ => .pure _

end

include h hselect

omit [IsPreorder (Linked σ Mias) R] in
/-- A path of one file identifier. -/
theorem selectFile_stays (high low : UInt8) : Stays R (onApplet (selectFile T [high, low])) :=
  h.case3 (.inl rfl) hselect (h.short _ (Nat.le_of_ble_eq_true rfl)) _ _

omit [IsPreorder (Linked σ Mias) R] in
theorem selectFileLe_stays (high low le : UInt8) : Stays R (onApplet (selectFileLe T [high, low] le)) :=
  h.case4 (.inl rfl) hselect (h.short _ (Nat.le_of_ble_eq_true rfl)) _ _ _

include hread

theorem linkCertificates_stays : Stays R (linkCertificates T) := by
  refine .bind (ok_stays (selectFileLe_stays h hselect _ _ _)) fun ok => .ite ?_ (.pure _)
  refine .bind (ok_stays (readBinary_stays h hread _ _)) fun ok => .ite ?_ (.pure _)
  exact .bind (.gets _) fun count => linkLoop_stays h hread count 1

theorem listKeyPairs_stays : Stays R (listKeyPairs T) := by
  refine .bind (.gets _) fun num => .ite (.pure _) ?_
  refine .bind (ok_stays (selectFileLe_stays h hselect _ _ _)) fun ok => .ite ?_ (.pure _)
  refine .bind (.refl_run fun _ _ => rfl) fun length => .bind (.gets _) fun tag => .ite ?_ (.pure _)
  refine .bind (onSE_stays (fcpFileSize_same 0)) fun size => ?_
  refine .bind (.loop (containerTurn_stays h hread size) _) fun _ => ?_
  exact .bind (h.setObj fun _ => rfl) fun _ => .bind (linkCertificates_stays h hselect hread) fun _ => .pure _

theorem getKeyPairByContainerId_stays (containerId : UInt8) : Stays R (getKeyPairByContainerId T containerId) :=
  .bind (listKeyPairs_stays h hselect hread) fun _ => .gets _

theorem getCertificateByContainerId_stays (hreading : ∀ base size, notes (.reading base size)) (efSize : UInt16)
    (containerId : UInt8) (cert : Option Mem) (len : Nat) :
    Stays R (getCertificateByContainerId T efSize containerId cert len) := by
  refine .bind (getKeyPairByContainerId_stays h hselect hread containerId) fun found => ?_
  cases found with
  | none => exact .pure _
  | some index =>
      refine .bind (.gets _) fun pair => .ite ?_ (.pure _)
      refine .bind (ok_stays (selectFileLe_stays h hselect _ _ _)) fun ok => .ite ?_ (.pure _)
      refine .bind (onSE_stays (templateSize_same efSize.toNat)) fun size => .ite ?_ (.pure _)
      cases cert with
      | none => exact .pure _
      | some out => exact .bind (readChunks_stays h hread hreading 256 0 size out) fun out => .ite (.pure _) (.pure _)

/-! ### Objects -/

omit h hselect hread in
theorem readRecord_stays (record : Mem) : Stays R (readRecord record : Exec (Linked σ Mias) (Nat × Mem)) :=
  .bind response_stays fun _ => .bind (.check _) fun _ => .pure _

omit hselect in
theorem directoryLoop_stays (remaining i : Nat) (record : Mem) : Stays R (directoryLoop T remaining i record) := by
  induction remaining generalizing i record with
  | zero => exact .pure _
  | succ remaining ih =>
      refine .bind (ok_stays (readBinary_stays h hread _ _)) fun ok => .ite ?_ (ih _ _)
      refine .bind (readRecord_stays record) fun read => .ite ?_ (ih _ _)
      refine .bind (h.setObj fun _ => rfl) fun _ => ?_
      exact .bind (.gets _) fun num => .bind (.check _) fun _ => ih _ _

omit hselect in
theorem readLength_stays (offset : Nat) (record : Mem) : Stays R (readLength T offset record) := by
  refine .bind (ok_stays (readBinary_stays h hread _ _)) fun ok => .ite ?_ (.pure _)
  exact .bind (readRecord_stays record) fun _ => .pure _

omit hselect in
theorem p11ReadValue_stays (hreading : ∀ base size, notes (.reading base size)) (initial offset : Nat)
    (object : Option Mem) (record : Mem) : Stays R (p11ReadValue T initial offset object record) := by
  refine .bind (readLength_stays h hread offset record) fun application => ?_
  rcases application with ⟨_ | application, record⟩
  · exact .pure _
  refine .bind (readLength_stays h hread _ record) fun objectId => ?_
  rcases objectId with ⟨_ | objectId, record⟩
  · exact .pure _
  refine .bind (ok_stays (readBinary_stays h hread _ _)) fun ok => .ite ?_ (.pure _)
  refine .bind (readRecord_stays record) fun read => .ite ?_ (.pure _)
  cases object with
  | none => exact .pure _
  | some out => exact .bind (readChunks_stays h hread hreading _ _ _ out) fun _ => .pure _

theorem p11TryFile_stays (hreading : ∀ base size, notes (.reading base size)) (initial : Nat) (label : List UInt8)
    (object : Option Mem) (efid : Nat) (record : Mem) : Stays R (p11TryFile T initial label object efid record) := by
  refine .bind (ok_stays (selectFile_stays h hselect _ _)) fun ok => .ite ?_ (.pure _)
  refine .bind (readLength_stays h hread 16 record) fun length => ?_
  rcases length with ⟨_ | length, record⟩
  · exact .pure _
  refine .bind (ok_stays (readBinary_stays h hread _ _)) fun ok => .ite ?_ (.pure _)
  refine .bind response_stays fun data => .ite (.bind (.check _) fun _ => ?_) (.pure _)
  refine .bind (.loop (fun trimPos => .bind (.check _) fun _ => .ite (.pure _) (.pure _)) _) fun trimPos => ?_
  exact .ite (p11ReadValue_stays h hread hreading _ _ _ _) (.pure _)

theorem p11Search_stays (hreading : ∀ base size, notes (.reading base size)) (initial : Nat) (label : List UInt8)
    (object : Option Mem) (remaining j : Nat) (record : Mem) :
    Stays R (p11Search T initial label object remaining j record) := by
  induction remaining generalizing j record with
  | zero => exact .pure _
  | succ remaining ih =>
      refine .bind (.gets _) fun file => .ite ?_ (ih _ _)
      refine .bind (p11TryFile_stays h hselect hread hreading _ _ _ _ _) fun tried => ?_
      rcases tried with ⟨_ | fetched, record⟩
      · exact ih _ _
      · exact .pure _

theorem p11Lookup_stays (hreading : ∀ base size, notes (.reading base size)) (locals : P11Locals) (label : List UInt8)
    (object : Option Mem) : Stays R (p11Lookup T locals label object) := by
  refine .bind (h.setObj fun _ => rfl) fun _ => ?_
  refine .bind (ok_stays (selectFile_stays h hselect _ _)) fun ok => .ite ?_ (.pure _)
  refine .bind (ok_stays (readBinary_stays h hread _ _)) fun ok => .ite ?_ (.pure _)
  refine .bind response_stays fun data => .bind (.check _) fun _ => .ite ?_ (.pure _)
  refine .bind (directoryLoop_stays h hread _ _ _) fun record => .bind (.gets _) fun count => ?_
  exact p11Search_stays h hselect hread hreading _ _ _ _ _ _

end Reads

/-! ### Verification, signatures and decryption -/

include h

omit [IsPreorder (Linked σ Mias) R] in
theorem verifyPin_stays (hverify : ins .verify) {pin : List UInt8} (hpin : data pin) : Stays R (verifyPin T pin) :=
  ok_stays (h.case3 (.inl rfl) hverify hpin _ _)

omit [IsPreorder (Linked σ Mias) R] in
theorem mseSet_stays (hmse : ins .manageSecurityEnvironment) (template algorithm key : UInt8) :
    Stays R (mseSet T template algorithm key) :=
  ok_stays (h.case3 (.inl rfl) hmse (h.short _ (Nat.le_of_ble_eq_true rfl)) _ _)

theorem signInit_stays (hmse : ins .manageSecurityEnvironment) (algorithm key : UInt8) :
    Stays R (signInit T algorithm key) :=
  .bind (h.setObj fun _ => rfl) fun _ => mseSet_stays h hmse _ _ _

theorem decryptInit_stays (hmse : ins .manageSecurityEnvironment) (algorithm key : UInt8) :
    Stays R (decryptInit T algorithm key) :=
  .bind (h.setObj fun _ => rfl) fun _ => mseSet_stays h hmse _ _ _

omit h in
theorem digestLength_le {algorithm : UInt8} {n : Nat} (hn : digestLength algorithm = some n) : n ≤ 64 := by
  unfold digestLength at hn
  split_ifs at hn <;> cases hn <;> decide

/-- The length of the data is that of the digest, whatever the caller's length is. -/
theorem psoHashExternally_stays (hpso : ins .performSecurityOperation) (algorithm : UInt8) (hash : Mem) (hashLen : Nat) :
    Stays R (psoHashExternally T algorithm hash hashLen) := by
  unfold psoHashExternally
  split
  · exact .pure _
  · rename_i length hlength
    have hle := digestLength_le hlength
    refine ok_stays (h.case4 (.inl rfl) hpso (h.short _ ?_) _ _ _)
    simp only [List.length_cons, Mem.slice_length]
    omega

theorem signFinal_stays (hpso : ins .performSecurityOperation) (henvelope : ins .envelope) (hash : Mem) (hashLen : Nat)
    (signature : Mem) (len : Nat) : Stays R (signFinal T hash hashLen signature len) := by
  refine .bind (.gets _) fun algorithm => .bind (psoHashExternally_stays h hpso _ _ _) fun ok => .ite ?_ (.pure _)
  refine .bind (h.case2 (.inl rfl) hpso _ _ _) fun ok => .ite (.loop (fun x => ?_) _) (.pure _)
  refine .bind response_stays fun data => .ite ?_ (.pure _)
  refine .bind getStatusWord_stays fun sw => .ite ?_ (.pure _)
  exact .bind (h.case2 (.inl rfl) henvelope _ _ _) fun ok => .ite (.pure _) (.pure _)

theorem decipherResult_stays (hget : ins .getResponse) (plain : Mem) (len : Nat) :
    Stays R (decipherResult T plain len) := by
  refine .bind getStatusWord_stays fun sw => .ite ?_ (.pure _)
  refine .bind response_stays fun data => .ite ?_ (.pure _)
  refine .bind (h.case1 (.inl rfl) hget _ _) fun ok => .ite ?_ (.pure _)
  refine .bind getStatusWord_stays fun sw => .ite ?_ (.pure _)
  exact .bind response_stays fun data => .pure _

/-- The second APDU takes all that is left behind the first 254 bytes. -/
theorem decryptFinal_stays (hpso : ins .performSecurityOperation) (hget : ins .getResponse) (cipher : Mem) {dataLen : Nat}
    (hrest : data (cipher.slice 254 (dataLen - 254))) (plain : Mem) (len : Nat) :
    Stays R (decryptFinal T cipher dataLen plain len) := by
  unfold decryptFinal psoDecipher
  split
  · refine .bind (h.case3 (.inl rfl) hpso (h.short _ ?_) _ _) fun ok =>
      .ite (decipherResult_stays h hget plain len) (.pure _)
    simp only [List.length_cons, Mem.slice_length]
    omega
  · refine .bind (ok_stays (h.case3 (.inr rfl) hpso (h.short _ ?_) _ _)) fun ok => .ite ?_ (.pure _)
    · simp only [List.length_cons, Mem.slice_length]
      omega
    · exact .bind (h.case3 (.inl rfl) hpso hrest _ _) fun ok => .ite (decipherResult_stays h hget plain len) (.pure _)

end Bears

/-! ### The channel of the applet -/

theorem onApplet_within {α : Type} {program : Exec (Linked σ Applet) α}
    (h : Stays (Within T id ins notes) program) :
    Stays (Within T Mias.applet ins notes) (onApplet program) :=
  .zoom h fun _ _ hwithin => hwithin

theorem within_bears : Bears T ins (fun _ => True) notes (Within T Mias.applet ins notes) where
  short _ _ := trivial
  case1 hcla hins _ _ := onApplet_within (Applet.transmitCase1_within hcla hins _ _)
  case2 hcla hins _ _ _ := onApplet_within (Applet.transmitCase2_within hcla hins _ _ _)
  case3 hcla hins _ _ _ _ := onApplet_within (Applet.transmitCase3_within hcla hins _ _ _)
  case4 hcla hins _ _ _ _ _ := onApplet_within (Applet.transmitCase4_within hcla hins _ _ _ _)
  note := note_within
  setObj := setObj_within

end Mias

end TrustOnboard
