import TrustOnboard.AppletRelations
import TrustOnboard.MiasCrypto
import Mathlib.Data.List.Find

/-! Two runs of the MIAS object. Entries of the pools that are not in use, and members that a function sets
before it reads them, may differ between the runs: no result depends on them. -/

namespace TrustOnboard.Mias

open Exec Linked SEInterface

variable {σ : Type} {T : Transport σ} {rel : Applet → Applet → Prop} {keys sign hash files : Prop}

/-- Related applets; on request the same key pairs in the pool, the same algorithms and the same files. -/
structure SameTables (rel : Applet → Applet → Prop) (keys sign hash files : Prop) (m n : Mias) : Prop where
  applet : rel m.applet n.applet
  keypairsNum_eq : keys → m.keypairsNum = n.keypairsNum
  keypairs_eq : keys → ∀ i, i < keyPoolSize → m.keypairs i = n.keypairs i
  low : keys → -1 ≤ m.keypairsNum
  high : keys → m.keypairsNum ≤ keyPoolSize
  signAlgo_eq : sign → m.signAlgo = n.signAlgo
  hashAlgo_eq : hash → m.hashAlgo = n.hashAlgo
  files_eq : files → m.filesNum = n.filesNum ∧ m.filesNum ≤ filePoolSize ∧ ∀ j, j < m.filesNum → m.files j = n.files j

/-- The relation of two runs. -/
abbrev Paired (rel : Applet → Applet → Prop) (keys sign hash files : Prop) : Linked σ Mias → Linked σ Mias → Prop :=
  SameSE (SameTables rel keys sign hash files)

/-- A relation of objects that is about their applets no more than that they are related. -/
structure Rides (rel : Applet → Applet → Prop) (X : Mias → Mias → Prop) : Prop where
  tied : Applet.Tied rel
  applet : ∀ {m n}, X m n → rel m.applet n.applet
  with_applet : ∀ {m n a b}, X m n → rel a b → X { m with applet := a } { n with applet := b }

theorem SameTables.rides (htied : Applet.Tied rel) : Rides rel (SameTables rel keys sign hash files) where
  tied := htied
  applet h := h.applet
  with_applet h hrel := { h with applet := hrel }

section Commands

variable {X : Mias → Mias → Prop} (h : Rides rel X)

include h

theorem Rides.onApplet {α : Type} {program : Exec (Linked σ Applet) α} (hprogram : Respects (SameSE rel) program) :
    Respects (SameSE X) (onApplet program) := by
  refine hprogram.zoom (fun s t hst => ⟨hst.1, h.applet hst.2⟩) ?_
  intro value s t a b hst hab
  exact ⟨hab.1, h.with_applet hst.2 hab.2⟩

theorem Rides.sent (cla : UInt8) (transmitted : UInt8 → Exec (SEInterface σ) Bool) :
    Respects (SameSE X) (Mias.onApplet (Applet.whenSelected cla transmitted)) :=
  h.onApplet (h.tied.whenSelected cla transmitted)

theorem Rides.ok (cla : UInt8) (transmitted : UInt8 → Exec (SEInterface σ) Bool) :
    Respects (SameSE X) (ok (Applet.whenSelected cla transmitted)) :=
  h.onApplet (h.tied.ok (h.tied.whenSelected cla transmitted))

theorem Rides.readBinary (offset : Nat) (le : UInt8) : Respects (SameSE X) (Mias.ok (readBinary T offset le)) := by
  unfold Mias.readBinary Applet.transmitCase2
  exact h.ok _ _

theorem Rides.selectFile (path : List UInt8) : Respects (SameSE X) (Mias.ok (selectFile T path)) := by
  unfold Mias.selectFile Applet.transmitCase3
  exact h.ok _ _

theorem Rides.selectFileLe (path : List UInt8) (le : UInt8) :
    Respects (SameSE X) (Mias.ok (selectFileLe T path le)) := by
  unfold Mias.selectFileLe Applet.transmitCase4
  exact h.ok _ _

theorem Rides.response : Respects (SameSE X) (response : Exec (Linked σ Mias) _) :=
  h.onApplet (Respects.gets fun _ _ hst => h.tied.getResponse_eq hst)

theorem Rides.statusWord :
    Respects (SameSE X) (Mias.onApplet (gets Applet.getStatusWord) : Exec (Linked σ Mias) _) :=
  h.onApplet (Respects.gets fun _ _ hst => h.tied.getStatusWord_eq hst)

theorem Rides.responseLength :
    Respects (SameSE X) (Mias.onApplet (gets Applet.getResponseLength) : Exec (Linked σ Mias) _) := by
  refine h.onApplet (Respects.gets fun s t hst => ?_)
  rw [Applet.getResponseLength, Applet.getResponseLength, h.tied.getResponse_eq hst]

end Commands

/-! ### The key-pair table -/

theorem findContainer_eq {m n : Mias} (h : SameTables rel True sign hash files m n) (container : Int) :
    m.findContainer container = n.findContainer container := by
  rw [findContainer, findContainer, ← h.keypairsNum_eq trivial]
  have hhigh : m.keypairsNum.toNat ≤ keyPoolSize := by
    have := h.high trivial
    omega
  apply List.find?_congr
  intro i hi
  rw [h.keypairs_eq trivial i (lt_of_lt_of_le (List.mem_range.mp hi) hhigh)]

theorem findContainer_lt {m n : Mias} (h : SameTables rel True sign hash files m n) {container : Int} {index : Nat}
    (hfound : m.findContainer container = some index) : index < keyPoolSize := by
  have hmem := List.mem_range.mp (List.mem_of_find?_eq_some hfound)
  have := h.high trivial
  omega

/-- A change of one key pair. -/
theorem SameTables.update {m n : Mias} (h : SameTables rel True sign hash files m n) {index : Nat} {pair pair' : KeyPair}
    (hpair : pair = pair') :
    SameTables rel True sign hash files { m with keypairs := Function.update m.keypairs index pair }
      { n with keypairs := Function.update n.keypairs index pair' } := by
  refine { h with keypairs_eq := fun _ i hi => ?_ }
  show Function.update m.keypairs index pair i = Function.update n.keypairs index pair' i
  by_cases hindex : i = index
  · rw [hindex, Function.update_self, Function.update_self, hpair]
  · rw [Function.update_of_ne hindex, Function.update_of_ne hindex, h.keypairs_eq trivial i hi]

theorem linkRecord_same (record : Mem) {m n : Mias} (h : SameTables rel True sign hash files m n) :
    SameTables rel True sign hash files (linkRecord record m) (linkRecord record n) := by
  rw [linkRecord, linkRecord, ← findContainer_eq h]
  split
  · split
    · rename_i index hfound
      exact h.update (by rw [h.keypairs_eq trivial index (findContainer_lt h hfound)])
    · exact h
  · exact h

/-- While the table is filled there is room for one more pair. -/
def Filling (rel : Applet → Applet → Prop) (sign hash files : Prop) (m n : Mias) : Prop :=
  SameTables rel True sign hash files m n ∧ m.keypairsNum < keyPoolSize

theorem addPair_same (i : Nat) (record : Mem) {m n : Mias} (h : SameTables rel True sign hash files m n)
    (hroom : m.keypairsNum + 1 < keyPoolSize) :
    Filling rel sign hash files (addPair i record m) (addPair i record n) := by
  have hindex : (m.keypairsNum + 1).toNat < keyPoolSize := by
    have := h.low trivial
    omega
  have hlow := h.low trivial
  refine ⟨{ h with
    keypairsNum_eq := fun _ => ?_, keypairs_eq := fun _ j hj => ?_, low := fun _ => ?_, high := fun _ => ?_ }, ?_⟩
  · show m.keypairsNum + 1 = n.keypairsNum + 1
    rw [h.keypairsNum_eq trivial]
  · show Function.update m.keypairs _ _ j = Function.update n.keypairs _ _ j
    rw [← h.keypairsNum_eq trivial]
    exact (h.update (by rw [h.keypairs_eq trivial _ hindex])).keypairs_eq trivial j hj
  · show -1 ≤ m.keypairsNum + 1
    omega
  · show m.keypairsNum + 1 ≤ keyPoolSize
    omega
  · exact hroom

theorem Filling.rides (htied : Applet.Tied rel) : Rides rel (Filling rel sign hash files) where
  tied := htied
  applet h := h.1.applet
  with_applet h hrel := ⟨{ h.1 with applet := hrel }, h.2⟩

section Programs

variable (htied : Applet.Tied rel)

include htied

theorem containerTurn_respects (size : Nat) (x : Nat × Nat) :
    Respects (SameSE (Filling rel sign hash files)) (containerTurn T size x) := by
  have hrides : Rides rel (Filling rel sign hash files) := Filling.rides htied
  unfold containerTurn Mias.readBinary Applet.transmitCase2
  refine .ite (fun _ => ?_) fun _ => Respects.pure _
  refine (hrides.sent _ _).bind fun ok => .ite (fun _ => ?_) fun _ => Respects.pure _
  refine hrides.statusWord.bind fun sw => .ite (fun _ => ?_) fun _ => Respects.pure _
  refine .bind (Respects.gets fun s t hst => by rw [hst.1]) fun record => .ite (fun _ => ?_) fun _ => Respects.pure _
  refine .bind (.gets (Q := fun num s t => SameSE (Filling rel sign hash files) s t ∧ num = s.obj.keypairsNum)
    (fun s t hst => hst.2.1.keypairsNum_eq trivial) fun s t hst => ⟨hst, rfl⟩) fun num => .ite (fun _ => ?_) fun hroom => ?_
  · exact .pure fun s t hst => hst.1
  · refine .bind (.modify (R := SameSE (Filling rel sign hash files)) ?_) fun _ => Respects.pure _
    rintro s t ⟨⟨hse, htables, _⟩, rfl⟩
    exact ⟨hse, addPair_same x.1 record htables (by omega)⟩

theorem linkLoop_respects (remaining offset : Nat) :
    Respects (Paired rel True sign hash files) (linkLoop T remaining offset) := by
  induction remaining generalizing offset with
  | zero => exact Respects.pure _
  | succ remaining ih =>
      refine ((SameTables.rides htied).readBinary _ _).bind fun ok => .ite (fun _ => ?_) fun _ => ih _
      refine .bind (Respects.gets fun s t hst => by rw [hst.1]) fun record => ?_
      exact (SameSE.setObj fun m n h => linkRecord_same record h).bind fun _ => ih _

theorem linkCertificates_respects : Respects (Paired rel True sign hash files) (linkCertificates T) := by
  refine ((SameTables.rides htied).selectFileLe _ _).bind fun ok => .ite (fun _ => ?_) fun _ => Respects.pure _
  refine ((SameTables.rides htied).readBinary _ _).bind fun ok => .ite (fun _ => ?_) fun _ => Respects.pure _
  exact .bind (Respects.gets fun s t hst => by rw [hst.1]) fun count => linkLoop_respects htied _ _

theorem listKeyPairs_respects : Respects (Paired rel True sign hash files) (listKeyPairs T) := by
  refine .bind (.gets (Q := fun num s t => Paired rel True sign hash files s t ∧ num = s.obj.keypairsNum)
    (fun s t hst => hst.2.keypairsNum_eq trivial) fun s t hst => ⟨hst, rfl⟩) fun num => .ite (fun _ => ?_) fun hnum => ?_
  · exact .pure fun s t hst => hst.1
  · -- the table is empty, so there is room
    have hempty : num = -1 := not_not.mp hnum
    have hfilling : ∀ s t : Linked σ Mias, Paired rel True sign hash files s t ∧ num = s.obj.keypairsNum →
        SameSE (Filling rel sign hash files) s t := by
      rintro s t ⟨hst, hnum⟩
      exact ⟨hst.1, hst.2, by rw [← hnum, hempty]; decide⟩
    have hrides : Rides rel (Filling rel sign hash files) := Filling.rides htied
    have hpaired : ∀ s t : Linked σ Mias, SameSE (Filling rel sign hash files) s t →
        Paired rel True sign hash files s t := fun s t hst => ⟨hst.1, hst.2.1⟩
    refine ((hrides.selectFileLe _ _).mono hfilling fun _ _ _ hst => hst).bind fun ok =>
      .ite (fun _ => ?_) fun _ => .pure hpaired
    refine hrides.responseLength.bind fun length => .bind (Respects.gets fun s t hst => by rw [hst.1]) fun tag => ?_
    refine .ite (fun _ => ?_) fun _ => .pure hpaired
    refine (SameSE.onSE _).bind fun size => (Respects.loop (containerTurn_respects htied size) _).bind fun _ => ?_
    refine (SameSE.setObj fun m n h => ?_).bind fun _ => (linkCertificates_respects htied).bind fun _ => Respects.pure _
    obtain ⟨htables, hroom⟩ := h
    have hlow := htables.low trivial
    refine { htables with keypairsNum_eq := fun _ => ?_, low := fun _ => ?_, high := fun _ => ?_ }
    · show m.keypairsNum + 1 = n.keypairsNum + 1
      rw [htables.keypairsNum_eq trivial]
    · show -1 ≤ m.keypairsNum + 1
      omega
    · show m.keypairsNum + 1 ≤ keyPoolSize
      omega

/-- The position of a found pair is one of the pool. -/
theorem getKeyPairByContainerId_relates (containerId : UInt8) :
    Relates (Paired rel True sign hash files)
      (fun found s t => Paired rel True sign hash files s t ∧ ∀ index, found = some index → index < keyPoolSize)
      (getKeyPairByContainerId T containerId) :=
  (listKeyPairs_respects htied).bind fun _ => .gets (fun _ _ hst => findContainer_eq hst.2 _)
    fun _ _ hst => ⟨hst, fun _ hfound => findContainer_lt hst.2 hfound⟩

end Programs

/-! ### Reads -/

section Reads

variable {X : Mias → Mias → Prop} (h : Rides rel X)

include h

theorem Rides.readChunks (width base size : Nat) (out : Mem) :
    Respects (SameSE X) (Mias.readChunks T width base size out) := by
  refine (SameSE.note _).bind fun _ => Respects.loop (fun x => ?_) _
  refine .ite (fun _ => ?_) fun _ => Respects.pure _
  refine (h.readBinary _ _).bind fun ok => .ite (fun _ => ?_) fun _ => Respects.pure _
  exact h.response.bind fun _ => Respects.pure _

theorem Rides.readRecord (record : Mem) :
    Respects (SameSE X) (Mias.readRecord record : Exec (Linked σ Mias) (Nat × Mem)) :=
  h.response.bind fun _ => (Respects.check _).bind fun _ => Respects.pure _

theorem Rides.readLength (offset : Nat) (record : Mem) : Respects (SameSE X) (Mias.readLength T offset record) :=
  (h.readBinary _ _).bind fun _ => .ite (fun _ => (h.readRecord _).bind fun _ => Respects.pure _)
    fun _ => Respects.pure _

theorem Rides.p11ReadValue (initial offset : Nat) (object : Option Mem) (record : Mem) :
    Respects (SameSE X) (Mias.p11ReadValue T initial offset object record) := by
  refine (h.readLength _ _).bind fun application => ?_
  rcases application with ⟨_ | application, record⟩
  · exact Respects.pure _
  refine (h.readLength _ _).bind fun objectId => ?_
  rcases objectId with ⟨_ | objectId, record⟩
  · exact Respects.pure _
  refine (h.readBinary _ _).bind fun ok => .ite (fun _ => ?_) fun _ => Respects.pure _
  refine (h.readRecord _).bind fun read => .ite (fun _ => ?_) fun _ => Respects.pure _
  cases object with
  | none => exact Respects.pure _
  | some out => exact (h.readChunks _ _ _ _).bind fun _ => Respects.pure _

theorem Rides.p11TryFile (initial : Nat) (label : List UInt8) (object : Option Mem) (efid : Nat) (record : Mem) :
    Respects (SameSE X) (Mias.p11TryFile T initial label object efid record) := by
  refine (h.selectFile _).bind fun ok => .ite (fun _ => ?_) fun _ => Respects.pure _
  refine (h.readLength _ _).bind fun length => ?_
  rcases length with ⟨_ | length, record⟩
  · exact Respects.pure _
  refine (h.readBinary _ _).bind fun ok => .ite (fun _ => ?_) fun _ => Respects.pure _
  refine h.response.bind fun data => .ite (fun _ => ?_) fun _ => Respects.pure _
  refine (Respects.check _).bind fun _ => .bind (Respects.loop (fun x => ?_) _) fun trimPos => ?_
  · exact (Respects.check _).bind fun _ => .ite (fun _ => Respects.pure _) fun _ => Respects.pure _
  · exact .ite (fun _ => h.p11ReadValue _ _ _ _) fun _ => Respects.pure _

end Reads

/-- A file is stored behind the files that are the same. -/
theorem storeFile_same (record : Mem) {m n : Mias} (h : SameTables rel keys sign hash True m n) :
    SameTables rel keys sign hash False (storeFile record m) (storeFile record n) ∧
      (storeFile record m).filesNum = (storeFile record n).filesNum ∧
      ∀ j, j < (storeFile record m).filesNum → (storeFile record m).files j = (storeFile record n).files j := by
  obtain ⟨hnum, _, hsame⟩ := h.files_eq trivial
  refine ⟨{ h with files_eq := False.elim }, ?_, fun j hj => ?_⟩
  · show m.filesNum + 1 = n.filesNum + 1
    rw [hnum]
  · show Function.update m.files m.filesNum _ j = Function.update n.files n.filesNum _ j
    rw [← hnum]
    change j < m.filesNum + 1 at hj
    by_cases hlast : j = m.filesNum
    · rw [hlast, Function.update_self, Function.update_self]
    · rw [Function.update_of_ne hlast, Function.update_of_ne hlast, hsame j (by omega)]

section Objects

variable (htied : Applet.Tied rel)

include htied

theorem getCertificateByContainerId_respects (efSize : UInt16) (containerId : UInt8) (cert : Option Mem) (len : Nat) :
    Respects (Paired rel True sign hash files) (getCertificateByContainerId T efSize containerId cert len) := by
  have hrides : Rides rel (SameTables rel True sign hash files) := SameTables.rides htied
  refine (getKeyPairByContainerId_relates htied containerId).bind fun found => ?_
  cases found with
  | none => exact .pure fun s t hst => hst.1
  | some index =>
      refine Relates.of_fact (fun s t hst => hst.2 index rfl) fun hindex => ?_
      refine .bind (.gets (Q := fun _ => Paired rel True sign hash files) (fun s t hst => ?_) fun s t hst => hst.1)
        fun pair => .ite (fun _ => ?_) fun _ => Respects.pure _
      · exact hst.1.2.keypairs_eq trivial index hindex
      refine (hrides.selectFileLe _ _).bind fun ok => .ite (fun _ => ?_) fun _ => Respects.pure _
      refine (SameSE.onSE _).bind fun size => .ite (fun _ => ?_) fun _ => Respects.pure _
      cases cert with
      | none => exact Respects.pure _
      | some out =>
          refine (hrides.readChunks _ _ _ _).bind fun out => ?_
          exact .ite (fun _ => Respects.pure _) fun _ => Respects.pure _

theorem directoryLoop_respects (remaining i : Nat) (record : Mem) :
    Respects (Paired rel keys sign hash True) (directoryLoop T remaining i record) := by
  have hrides : Rides rel (SameTables rel keys sign hash True) := SameTables.rides htied
  induction remaining generalizing i record with
  | zero => exact Respects.pure _
  | succ remaining ih =>
      refine (hrides.readBinary _ _).bind fun ok => .ite (fun _ => ?_) fun _ => ih _ _
      refine (hrides.readRecord _).bind fun read => .ite (fun _ => ?_) fun _ => ih _ _
      -- the number of files is tested behind the store
      let stored : Linked σ Mias → Linked σ Mias → Prop := SameSE fun m n =>
        SameTables rel keys sign hash False m n ∧ m.filesNum = n.filesNum ∧
          ∀ j, j < m.filesNum → m.files j = n.files j
      refine .bind (Q := fun _ => stored) (SameSE.setObj fun m n h => storeFile_same read.2 h) fun _ => ?_
      refine .bind (.gets (Q := fun num s t => stored s t ∧ num = s.obj.filesNum) (fun s t hst => hst.2.2.1)
        fun s t hst => ⟨hst, rfl⟩) fun num => ?_
      refine .bind ((Relates.check _).mono (fun _ _ hst => hst) fun _ s t hst => ?_) fun _ => ih _ _
      obtain ⟨⟨⟨hse, htables, hnum, hsame⟩, rfl⟩, hrange⟩ := hst
      exact ⟨hse, { htables with files_eq := fun _ => ⟨hnum, hrange, hsame⟩ }⟩

/-- The files that are searched. -/
def Searching (rel : Applet → Applet → Prop) (keys sign hash : Prop) (count : Nat) (m n : Mias) : Prop :=
  SameTables rel keys sign hash True m n ∧ m.filesNum = count

omit htied in
theorem Searching.rides (htied : Applet.Tied rel) (count : Nat) : Rides rel (Searching rel keys sign hash count) where
  tied := htied
  applet h := h.1.applet
  with_applet h hrel := ⟨{ h.1 with applet := hrel }, h.2⟩

theorem p11Search_respects (initial : Nat) (label : List UInt8) (object : Option Mem) (count remaining j : Nat)
    (hrange : j + remaining ≤ count) (record : Mem) :
    Respects (SameSE (Searching rel keys sign hash count)) (p11Search T initial label object remaining j record) := by
  have hrides : Rides rel (Searching rel keys sign hash count) := Searching.rides htied count
  induction remaining generalizing j record with
  | zero => exact Respects.pure _
  | succ remaining ih =>
      refine .bind (Respects.gets fun s t hst => ?_) fun file => .ite (fun _ => ?_) fun _ => ih _ (by omega) _
      · obtain ⟨_, htables, hcount⟩ := hst
        exact (htables.files_eq trivial).2.2 j (by omega)
      refine (hrides.p11TryFile _ _ _ _ _).bind fun result => ?_
      rcases result with ⟨_ | fetched, record⟩
      · exact ih _ (by omega) _
      · exact Respects.pure _

theorem p11GetObjectByLabel_respects (locals : P11Locals) (label : List UInt8) (object : Option Mem) :
    Relates (Paired rel keys sign hash files) (fun _ => Paired rel keys sign hash True)
      (p11GetObjectByLabel T locals label object) := by
  have hrides : Rides rel (SameTables rel keys sign hash True) := SameTables.rides htied
  have hlookup : Relates (Paired rel keys sign hash files) (fun _ => Paired rel keys sign hash True)
      (p11Lookup T locals label object) := by
    refine .bind (Q := fun _ => Paired rel keys sign hash True) (SameSE.setObj fun m n h => ?_) fun _ => ?_
    · exact { h with files_eq := fun _ => ⟨rfl, Nat.zero_le _, fun j hj => absurd hj (Nat.not_lt_zero j)⟩ }
    refine (hrides.selectFile _).bind fun ok => .ite (fun _ => ?_) fun _ => Respects.pure _
    refine (hrides.readBinary _ _).bind fun ok => .ite (fun _ => ?_) fun _ => Respects.pure _
    refine hrides.response.bind fun data => (Respects.check _).bind fun _ => .ite (fun _ => ?_) fun _ => Respects.pure _
    refine (directoryLoop_respects htied _ _ _).bind fun record => ?_
    refine .bind (.gets (Q := fun count => SameSE (Searching rel keys sign hash count))
      (fun s t hst => (hst.2.files_eq trivial).1) fun s t hst => ⟨hst.1, hst.2, rfl⟩) fun count => ?_
    exact (p11Search_respects htied _ _ _ count count 0 (by omega) _).mono (fun _ _ hst => hst)
      fun _ _ _ hst => ⟨hst.1, hst.2.1⟩
  exact (SameSE.note _).bind fun _ => hlookup.bind fun _ => (SameSE.note _).bind fun _ => Respects.pure _

end Objects

/-! ### PINs, hashes, signatures, decryption -/

section Crypto

variable {X : Mias → Mias → Prop} (h : Rides rel X)

include h

theorem Rides.okCase3 (cla : UInt8) (ins : SCIns) (p1 p2 : UInt8) (data : List UInt8) :
    Respects (SameSE X) (Mias.ok (Applet.transmitCase3 T cla ins p1 p2 data)) := h.ok _ _

theorem Rides.okCase4 (cla : UInt8) (ins : SCIns) (p1 p2 : UInt8) (data : List UInt8) (le : UInt8) :
    Respects (SameSE X) (Mias.ok (Applet.transmitCase4 T cla ins p1 p2 data le)) := h.ok _ _

theorem Rides.verifyPin (pin : List UInt8) : Respects (SameSE X) (Mias.verifyPin T pin) := h.okCase3 _ _ _ _ _

theorem Rides.changePin (stack : Mem) (oldPin newPin : List UInt8) :
    Respects (SameSE X) (Mias.changePin T stack oldPin newPin) :=
  .ite (fun _ => Respects.pure _) fun _ => (Respects.check _).bind fun _ => h.okCase3 _ _ _ _ _

theorem Rides.psoHashInternally (algorithm : UInt8) (data : Mem) (dataLen : Nat) :
    Respects (SameSE X) (Mias.psoHashInternally T algorithm data dataLen) := by
  unfold Mias.psoHashInternally
  split
  · exact Respects.pure _
  · refine Respects.loop (fun i => .ite (fun _ => ?_) fun _ => Respects.pure _) _
    exact (h.okCase3 _ _ _ _ _).bind fun ok => .ite (fun _ => Respects.pure _) fun _ => Respects.pure _

theorem Rides.hashFinal (hash : Mem) : Respects (SameSE X) (Mias.hashFinal T hash) := by
  refine (h.okCase4 _ _ _ _ _ _).bind fun ok => .ite (fun _ => ?_) fun _ => Respects.pure _
  exact h.response.bind fun _ => Respects.pure _

theorem Rides.psoHashExternally (algorithm : UInt8) (hash : Mem) (hashLen : Nat) :
    Respects (SameSE X) (Mias.psoHashExternally T algorithm hash hashLen) := by
  unfold Mias.psoHashExternally
  split
  · exact Respects.pure _
  · exact h.okCase4 _ _ _ _ _ _

theorem Rides.psoComputeDigitalSignature (signature : Mem) :
    Respects (SameSE X) (Mias.psoComputeDigitalSignature T signature) := by
  unfold Mias.psoComputeDigitalSignature Applet.transmitCase2
  refine (h.sent _ _).bind fun ok => .ite (fun _ => ?_) fun _ => Respects.pure _
  refine Respects.loop (fun x => h.response.bind fun data => .ite (fun _ => ?_) fun _ => Respects.pure _) _
  refine h.statusWord.bind fun sw => .ite (fun _ => ?_) fun _ => Respects.pure _
  unfold Applet.transmitCase2
  exact (h.sent _ _).bind fun ok => .ite (fun _ => Respects.pure _) fun _ => Respects.pure _

theorem Rides.decipherResult (plain : Mem) (len : Nat) : Respects (SameSE X) (Mias.decipherResult T plain len) := by
  unfold Mias.decipherResult Applet.transmitCase1
  refine h.statusWord.bind fun sw => .ite (fun _ => ?_) fun _ => Respects.pure _
  refine h.response.bind fun data => .ite (fun _ => ?_) fun _ => Respects.pure _
  refine (h.sent _ _).bind fun ok => .ite (fun _ => ?_) fun _ => Respects.pure _
  refine h.statusWord.bind fun sw => .ite (fun _ => ?_) fun _ => Respects.pure _
  exact h.response.bind fun data => Respects.pure _

theorem Rides.decryptFinal (data : Mem) (dataLen : Nat) (plain : Mem) (len : Nat) :
    Respects (SameSE X) (Mias.decryptFinal T data dataLen plain len) := by
  unfold Mias.decryptFinal Mias.psoDecipher
  refine .ite (fun _ => ?_) fun _ => ?_
  · unfold Applet.transmitCase3
    exact (h.sent _ _).bind fun ok => .ite (fun _ => h.decipherResult _ _) fun _ => Respects.pure _
  · refine (h.okCase3 _ _ _ _ _).bind fun ok => .ite (fun _ => ?_) fun _ => Respects.pure _
    unfold Applet.transmitCase3
    exact (h.sent _ _).bind fun ok => .ite (fun _ => h.decipherResult _ _) fun _ => Respects.pure _

end Crypto

section Modes

variable (htied : Applet.Tied rel)

include htied

theorem hashInit_respects (algorithm : UInt8) :
    Relates (Paired rel keys sign hash files) (fun _ => Paired rel keys sign True files) (hashInit T algorithm) := by
  refine .bind (SameSE.setObj fun m n h => ?_) fun _ => (SameTables.rides htied).okCase3 _ _ _ _ _
  exact { h with hashAlgo_eq := fun _ => rfl }

theorem hashUpdate_respects (data : Mem) (dataLen : Nat) :
    Respects (Paired rel keys sign True files) (hashUpdate T data dataLen) :=
  .bind (Respects.gets fun _ _ hst => hst.2.hashAlgo_eq trivial) fun _ =>
    (SameTables.rides htied).psoHashInternally _ _ _

theorem signInit_respects (algorithm key : UInt8) :
    Relates (Paired rel keys sign hash files) (fun _ => Paired rel keys True hash files) (signInit T algorithm key) := by
  refine .bind (SameSE.setObj fun m n h => ?_) fun _ => (SameTables.rides htied).okCase3 _ _ _ _ _
  exact { h with signAlgo_eq := fun _ => rfl }

theorem signFinal_respects (digest : Mem) (hashLen : Nat) (signature : Mem) (len : Nat) :
    Respects (Paired rel keys True hash files) (signFinal T digest hashLen signature len) := by
  have hrides : Rides rel (SameTables rel keys True hash files) := SameTables.rides htied
  refine .bind (Respects.gets fun _ _ hst => hst.2.signAlgo_eq trivial) fun algorithm => ?_
  refine (hrides.psoHashExternally _ _ _).bind fun ok => .ite (fun _ => ?_) fun _ => Respects.pure _
  exact hrides.psoComputeDigitalSignature _

theorem decryptInit_respects (algorithm key : UInt8) :
    Respects (Paired rel keys sign hash files) (decryptInit T algorithm key) := by
  refine .bind (SameSE.setObj fun m n h => ?_) fun _ => (SameTables.rides htied).okCase3 _ _ _ _ _
  exact { h with }

end Modes

end TrustOnboard.Mias
