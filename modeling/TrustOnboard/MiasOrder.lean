import Mathlib.Data.List.Perm.Basic
import TrustOnboard.MiasCertificates
import TrustOnboard.MiasContainers

/-! Whether the link of a key pair depends on the order of the directory. Both kinds of entries are linked alike, and
the last one of a container wins. -/

namespace TrustOnboard.Mias

open Exec Linked SEInterface

/-! ### Links -/

/-- The file of a record. -/
def idOf (record : List UInt8) : UInt8 × UInt8 := (record.getD 0 0, record.getD 1 0)

/-- `has_cert` and `pub_file_id`. -/
def linkOf (pair : KeyPair) : Bool × UInt8 × UInt8 := (pair.hasCert, pair.pubFileId)

/-- The container of a pair in a table of at most fifteen records: the number of an RSA record, -1 for another key. -/
def HasPair (containers : List (List UInt8)) (container : Int) : Prop :=
  ∃ (k : Nat) (record : List UInt8), containers[k]? = some record ∧ record.getD 0 0 ≠ 0 ∧
    container = if keySize record = 1024 ∨ keySize record = 2048 then (k : Int) else -1

/-- All entries of a container that has a key pair give one file. -/
def OneFile (files : KeyFiles) : Prop :=
  ∀ container, HasPair files.containers container → ∀ left ∈ files.records, ∀ right ∈ files.records,
    LooksLikeEntry container left → LooksLikeEntry container right → idOf left = idOf right

section Links

variable {containers records records' : List (List UInt8)} {m : Mias} {container : Int} {j : Nat}

/-- A pair that is not the first of its container keeps what it has. -/
theorem linkRecord_keypairs_of_ne (memory : Mem) (hj : m.findContainer (m.keypairs j).container ≠ some j) :
    (linkRecord memory m).keypairs j = m.keypairs j := by
  unfold linkRecord
  split
  · split
    · rename_i index hindex
      have hne : j ≠ index := by
        rintro rfl
        apply hj
        rw [container_of_findContainer hindex]
        exact hindex
      simp only [Function.update_of_ne hne]
    · rfl
  · rfl

theorem linkAll_keypairs_of_ne (records : List (List UInt8)) (hj : m.findContainer (m.keypairs j).container ≠ some j) :
    (linkAll records m).keypairs j = m.keypairs j := by
  induction records using List.reverseRecOn with
  | nil => rfl
  | append_singleton records record ih =>
      rw [linkAll_concat, linkRecord_keypairs_of_ne _ (by rw [linkAll_findContainer, ih]; exact hj), ih]

theorem mem_of_lastEntry {record : List UInt8} (h : lastEntry records container = some record) :
    record ∈ records ∧ LooksLikeEntry container record := by
  have hmem := List.mem_filter.mp (List.mem_of_getLast? h)
  exact ⟨hmem.1, of_decide_eq_true hmem.2⟩

theorem lastEntry_eq_none_iff : lastEntry records container = none ↔
    ∀ record ∈ records, ¬LooksLikeEntry container record := by
  rw [lastEntry, List.getLast?_eq_none_iff, List.filter_eq_nil_iff]
  simp only [decide_eq_true_eq]

theorem lastEntry_concat {record : List UInt8} (h : LooksLikeEntry container record) :
    lastEntry (records ++ [record]) container = some record := by
  rw [lastEntry, List.filter_append, List.filter_cons_of_pos (by simpa using h), List.filter_nil, List.getLast?_concat]

/-- Where the entries of a container give one file the order does not matter. -/
theorem relink_lastEntry_perm (hperm : records'.Perm records)
    (hone : ∀ left ∈ records, ∀ right ∈ records, LooksLikeEntry container left → LooksLikeEntry container right →
      idOf left = idOf right) (pair : KeyPair) :
    relink (lastEntry records' container) pair = relink (lastEntry records container) pair := by
  cases hlast : lastEntry records container with
  | none =>
      have hnone : lastEntry records' container = none :=
        lastEntry_eq_none_iff.mpr fun record hmem => lastEntry_eq_none_iff.mp hlast record (hperm.mem_iff.mp hmem)
      rw [hnone]
  | some record =>
      obtain ⟨hmem, hlooks⟩ := mem_of_lastEntry hlast
      cases hlast' : lastEntry records' container with
      | none => exact absurd hlooks (lastEntry_eq_none_iff.mp hlast' record (hperm.mem_iff.mpr hmem))
      | some record' =>
          obtain ⟨hmem', hlooks'⟩ := mem_of_lastEntry hlast'
          have hid := hone record' (hperm.mem_iff.mp hmem') record hmem hlooks' hlooks
          have hpair : ∀ r, relink (some r) pair = { pair with pubFileId := idOf r, hasCert := true } := fun _ => rfl
          rw [hpair, hpair, hid]

/-- The table before the links. -/
def pairsOf (containers : List (List UInt8)) (m : Mias) : Mias :=
  { collect containers 0 m with keypairsNum := (collect containers 0 m).keypairsNum + 1 }

theorem tableOf_eq (containers records : List (List UInt8)) (m : Mias) :
    tableOf containers records m = linkAll records (pairsOf containers m) := rfl

theorem validRecords_length_le (containers : List (List UInt8)) : (validRecords containers).length ≤ containers.length := by
  have hle : ∀ (containers : List (List UInt8)) i, (validFrom containers i).length ≤ containers.length := by
    intro containers
    induction containers with
    | nil => exact fun _ => Nat.le_refl 0
    | cons record rest ih =>
        intro i
        have hrest := ih (i + 1)
        rw [validFrom]
        split_ifs <;> simp only [List.length_cons] <;> omega
  exact hle containers 0

/-- With at most 15 records no pair is lost. -/
theorem pairsOf_filled (hnum : m.keypairsNum = -1) (hzero : ∀ j, m.keypairs j = .zero) (hfew : containers.length ≤ 15) :
    Filled containers (pairsOf containers m) := by
  have hpool : (validRecords containers).length ≤ keyPoolSize :=
    calc (validRecords containers).length ≤ containers.length := validRecords_length_le containers
      _ ≤ 15 := hfew
      _ ≤ keyPoolSize := by decide
  have hfilled : Filled containers (tableOf containers [] m) := tableOf_filled hnum hzero hpool
  exact hfilled

/-- The containers of the pairs, up to fifteen records. -/
theorem Filled.hasPair_iff (h : Filled containers m) (hfew : containers.length ≤ 15) :
    (∃ j, m.findContainer container = some j) ↔ HasPair containers container := by
  have hcontainer : ∀ {j k : Nat} {record : List UInt8}, (validRecords containers)[j]? = some (k, record) →
      (m.keypairs j).container = if keySize record = 1024 ∨ keySize record = 2048 then (k : Int) else -1 := by
    intro j k record hget
    have hk : k < containers.length :=
      (List.getElem?_eq_some_iff.mp (mem_validRecords.mp (List.mem_of_getElem? hget)).1).1
    rw [h.container hget, Nat.mod_eq_of_lt (by omega)]
    split <;> omega
  constructor
  · rintro ⟨j, hfind⟩
    obtain ⟨hj, heq, _⟩ := h.find_iff.mp hfind
    rcases hget : (validRecords containers)[j]? with _ | ⟨k, record⟩
    · rw [List.getElem?_eq_none_iff] at hget
      omega
    · obtain ⟨hrecord, hvalid⟩ := mem_validRecords.mp (List.mem_of_getElem? hget)
      exact ⟨k, record, hrecord, hvalid, by rw [← heq, hcontainer hget]⟩
  · rintro ⟨k, record, hrecord, hvalid, heq⟩
    obtain ⟨j, hget⟩ := List.mem_iff_getElem?.mp (mem_validRecords.mpr ⟨hrecord, hvalid⟩)
    have hj : j < (validRecords containers).length := (List.getElem?_eq_some_iff.mp hget).1
    rw [← Option.isSome_iff_exists, findContainer, List.find?_isSome, h.count, Int.toNat_natCast]
    exact ⟨j, List.mem_range.mpr hj, decide_eq_true (by rw [heq, hcontainer hget])⟩

end Links

/-- Two objects with the same table. -/
def SameTable (m m' : Mias) : Prop := m.keypairs = m'.keypairs ∧ m.keypairsNum = m'.keypairsNum

section SameTable

variable {m m' : Mias}

theorem SameTable.addPair (h : SameTable m m') (i : Nat) (memory : Mem) :
    SameTable (addPair i memory m) (Mias.addPair i memory m') := by
  unfold SameTable Mias.addPair
  rw [h.1, h.2]
  exact ⟨rfl, rfl⟩

theorem SameTable.linkRecord (h : SameTable m m') (memory : Mem) :
    SameTable (linkRecord memory m) (Mias.linkRecord memory m') := by
  have hfind : m.findContainer (recordContainer memory) = m'.findContainer (recordContainer memory) := by
    rw [findContainer, findContainer, h.1, h.2]
  unfold SameTable Mias.linkRecord
  rw [hfind]
  split
  · split
    · exact ⟨by rw [h.1], h.2⟩
    · exact h
  · exact h

theorem SameTable.collect (h : SameTable m m') (containers : List (List UInt8)) (i : Nat) :
    SameTable (collect containers i m) (Mias.collect containers i m') := by
  induction containers generalizing i m m' with
  | nil => exact h
  | cons record rest ih =>
      rw [Mias.collect, Mias.collect, h.2]
      split_ifs
      · exact h
      · exact ih (h.addPair i (recordMem record)) _
      · exact ih h _

theorem SameTable.tableOf (h : SameTable m m') (containers records : List (List UInt8)) :
    SameTable (tableOf containers records m) (Mias.tableOf containers records m') := by
  rw [tableOf_eq, tableOf_eq]
  have hcollected := h.collect containers 0
  induction records using List.reverseRecOn with
  | nil => exact ⟨hcollected.1, by rw [linkAll_keypairsNum, linkAll_keypairsNum, pairsOf, pairsOf, hcollected.2]⟩
  | append_singleton records record ih =>
      rw [linkAll_concat, linkAll_concat]
      exact ih.linkRecord (recordMem record)

end SameTable

/-! ### Permuted directories -/

/-- The same files but for the order of the directory. -/
def Permuted (files files' : KeyFiles) : Prop :=
  files'.containers = files.containers ∧ files'.records.Perm files.records

/-- An entry "kxcNN" or "kscNN" under "mscp". -/
def IsEntryOf (kind : List UInt8) (container : Nat) (record : List UInt8) : Prop :=
  container < 100 ∧ nameOf ((record.drop 12).take 8) = cstr "mscp" ∧
    nameOf ((record.drop 4).take 8) = kind ++ decimal container

/-- A container with both entries has the one for the usage of its key. -/
def LinkedByUsage (records : List (List UInt8)) (m : Mias) : Prop :=
  ∀ (c j : Nat), m.findContainer c = some j → ∀ kxc ∈ records, ∀ ksc ∈ records,
    IsEntryOf (cstr "kxc") c kxc → IsEntryOf (cstr "ksc") c ksc →
    linkOf (m.keypairs j) = (true, if (m.keypairs j).flags &&& KeyPair.decryptionFlag = 0 then idOf ksc else idOf kxc)

/-- Listing gives every pair the same link in whatever order the directory is, and the one for its usage. -/
def OrderFree (files : KeyFiles) : Prop :=
  ∃ link : Nat → Bool × UInt8 × UInt8, ∀ (files' : KeyFiles), Permuted files files' →
    ∀ (σ : Type) (T : Transport σ) (channel : UInt8) (current : σ → Nat) (s : Linked σ Mias),
      files'.HeldBy T channel current False → Ready channel s.obj → s.obj.keypairsNum = -1 →
      (∀ j, s.obj.keypairs j = .zero) →
      Yields (listKeyPairs T) s true fun s' =>
        (∀ j : Nat, (j : Int) < s'.obj.keypairsNum → linkOf (s'.obj.keypairs j) = link j) ∧
        LinkedByUsage files'.records s'.obj

theorem IsEntryOf.isEntry {kind : List UInt8} (hkind : kind = cstr "kxc" ∨ kind = cstr "ksc") {container : Nat}
    {record : List UInt8} (h : IsEntryOf kind container record) : IsEntry container record := by
  obtain ⟨hlt, hdir, hname⟩ := h
  refine ⟨hlt, hdir, ?_⟩
  rcases hkind with rfl | rfl
  · exact .inl hname
  · exact .inr hname

section Order

variable {files files' : KeyFiles} {m : Mias} {j : Nat}

/-- The order of the directory with a record moved to its end. -/
def KeyFiles.moveLast (files : KeyFiles) {record : List UInt8} (hmem : record ∈ files.records) : KeyFiles where
  containers := files.containers
  records := files.records.erase record ++ [record]
  slack := files.slack
  container_length := files.container_length
  containers_size := files.containers_size
  records_few := by
    have hperm := (List.perm_append_singleton record (files.records.erase record)).trans (List.perm_cons_erase hmem).symm
    rw [hperm.length_eq]
    exact files.records_few
  record_length := by
    have hperm := (List.perm_append_singleton record (files.records.erase record)).trans (List.perm_cons_erase hmem).symm
    exact fun other hother => files.record_length other (hperm.mem_iff.mp hother)
  directory_size := by
    have hperm := (List.perm_append_singleton record (files.records.erase record)).trans (List.perm_cons_erase hmem).symm
    have hsize := files.directory_size
    rw [List.length_append] at hsize ⊢
    rw [hperm.flatten.length_eq]
    exact hsize

theorem KeyFiles.moveLast_permuted (files : KeyFiles) {record : List UInt8} (hmem : record ∈ files.records) :
    Permuted files (files.moveLast hmem) :=
  ⟨rfl, (List.perm_append_singleton record (files.records.erase record)).trans (List.perm_cons_erase hmem).symm⟩

/-- What the order cannot change in a table. -/
theorem OneFile.keypairs_eq (hone : OneFile files) (hpermuted : Permuted files files') (hfew : files.containers.length ≤ 15)
    (hnum : m.keypairsNum = -1) (hzero : ∀ j, m.keypairs j = .zero) (j : Nat) :
    (tableOf files'.containers files'.records m).keypairs j = (tableOf files.containers files.records m).keypairs j := by
  obtain ⟨hcontainers, hperm⟩ := hpermuted
  have hfilled := pairsOf_filled hnum hzero hfew
  rw [tableOf_eq, tableOf_eq, hcontainers]
  by_cases hj : (pairsOf files.containers m).findContainer ((pairsOf files.containers m).keypairs j).container = some j
  · rw [linkAll_keypairs _ hj, linkAll_keypairs _ hj]
    exact relink_lastEntry_perm hperm (hone _ ((hfilled.hasPair_iff hfew).mp ⟨j, hj⟩)) _
  · rw [linkAll_keypairs_of_ne _ hj, linkAll_keypairs_of_ne _ hj]

/-- A pair with an entry is linked to the last one. -/
theorem tableOf_linked {containers records : List (List UInt8)} {container : Int} {record : List UInt8}
    (hfind : (pairsOf containers m).findContainer container = some j) (hlast : lastEntry records container = some record) :
    linkOf ((tableOf containers records m).keypairs j) = (true, idOf record) := by
  rw [tableOf_eq, linkAll_keypairs _ hfind, hlast]
  rfl

theorem OneFile.linkedByUsage (hone : OneFile files) (hpermuted : Permuted files files')
    (hfew : files.containers.length ≤ 15) (hnum : m.keypairsNum = -1) (hzero : ∀ j, m.keypairs j = .zero) :
    LinkedByUsage files'.records (tableOf files'.containers files'.records m) := by
  intro c j hfind kxc hkxc ksc hksc hiskxc hisksc
  obtain ⟨hcontainers, hperm⟩ := hpermuted
  have hfilled := pairsOf_filled hnum hzero hfew
  rw [hcontainers] at hfind ⊢
  rw [tableOf_eq, linkAll_findContainer] at hfind
  have hlooksKxc := (hiskxc.isEntry (.inl rfl)).looksLike (files'.record_length kxc hkxc)
  have hlooksKsc := (hisksc.isEntry (.inr rfl)).looksLike (files'.record_length ksc hksc)
  cases hlast : lastEntry files'.records c with
  | none => exact absurd hlooksKxc (lastEntry_eq_none_iff.mp hlast kxc hkxc)
  | some record =>
      obtain ⟨hmem, hlooks⟩ := mem_of_lastEntry hlast
      have hpair := (hfilled.hasPair_iff hfew).mp ⟨j, hfind⟩
      have hidKxc := hone c hpair record (hperm.mem_iff.mp hmem) kxc (hperm.mem_iff.mp hkxc) hlooks hlooksKxc
      have hidKsc := hone c hpair record (hperm.mem_iff.mp hmem) ksc (hperm.mem_iff.mp hksc) hlooks hlooksKsc
      rw [tableOf_linked hfind hlast, ← hidKxc, ← hidKsc, ite_self]

/-- In an order free directory two entries of a pair give one file: each of them may be the last. -/
theorem OrderFree.oneFile (h : OrderFree files) (hfew : files.containers.length ≤ 15) : OneFile files := by
  obtain ⟨link, hlink⟩ := h
  have hfilled : Filled files.containers (pairsOf files.containers selectedMias) :=
    pairsOf_filled rfl (fun _ => rfl) hfew
  intro container hpair left hleft right hright hlooksLeft hlooksRight
  obtain ⟨j, hfind⟩ := (hfilled.hasPair_iff hfew).mpr hpair
  have hlast : ∀ record ∈ files.records, LooksLikeEntry container record → link j = (true, idOf record) := by
    intro record hmem hlooks
    have hheld : (files.moveLast hmem).HeldBy
        (fileCard (files.moveLast hmem).contents (files.moveLast hmem).templates) 0 id
        False := fileCard_heldBy _ 0
    obtain ⟨s', hrun, hlinks, _⟩ := hlink (files.moveLast hmem) (files.moveLast_permuted hmem) Nat _ 0 id
      ⟨.create 0 Mem.zero, selectedMias⟩ hheld selectedMias_ready rfl fun _ => rfl
    obtain ⟨s'', hrun', hobj⟩ :=
      listKeyPairs_tables (s := ⟨.create 0 Mem.zero, selectedMias⟩) hheld selectedMias_ready rfl
    have hattains : Attains (listKeyPairs (fileCard (files.moveLast hmem).contents (files.moveLast hmem).templates))
        ⟨.create 0 Mem.zero, selectedMias⟩ fun _ t => t.obj = s''.obj := ⟨true, s'', hrun', rfl⟩
    have hsame : s'.obj = s''.obj := hrun.attains_iff.mp hattains
    have hcount : (j : Int) < s'.obj.keypairsNum := by
      rw [hsame, hobj]
      show (j : Int) < (linkAll _ (pairsOf files.containers selectedMias)).keypairsNum
      rw [linkAll_keypairsNum, hfilled.count]
      have hj := (hfilled.find_iff.mp hfind).1
      omega
    rw [← hlinks j hcount, hsame, hobj]
    exact tableOf_linked hfind (lastEntry_concat hlooks)
  have heq := (hlast left hleft hlooksLeft).symm.trans (hlast right hright hlooksRight)
  exact congrArg Prod.snd heq

end Order

/-- **The links do not depend on the order of the directory exactly if the entries of each listed container give one
file.** -/
theorem links_orderFree_iff (files : KeyFiles) (hfew : files.containers.length ≤ 15) : OrderFree files ↔ OneFile files := by
  constructor
  · exact fun h => h.oneFile hfew
  · intro hone
    refine ⟨fun j => linkOf ((tableOf files.containers files.records create).keypairs j), ?_⟩
    intro files' hpermuted σ T channel current s hheld hready hnum hzero
    obtain ⟨s', hrun, hobj⟩ := listKeyPairs_tables hheld hready hnum
    have hsame : SameTable s.obj create := ⟨funext hzero, hnum⟩
    refine ⟨s', hrun, ?_, ?_⟩
    · intro j _
      rw [hobj, hone.keypairs_eq hpermuted hfew hnum hzero, (hsame.tableOf files.containers files.records).1]
    · rw [hobj]
      exact hone.linkedByUsage hpermuted hfew hnum hzero

/-- The links of both containers are the same in every order of the three entries. -/
theorem links_orderFree_twoContainers : OrderFree twoContainers := by
  refine (links_orderFree_iff twoContainers (by decide)).mpr ?_
  have hentry : ∀ record ∈ twoContainers.records, ∃ container, recordContainer (Mem.zero.write 0 record) = container ∧
      idOf record = if container = 0 then idOf (mscpRecord [0x01, 0x10] (cstr "kxc00"))
        else idOf (mscpRecord [0x01, 0x12] (cstr "kxc01")) := by
    intro record hmem
    simp only [twoContainers, List.mem_cons, List.not_mem_nil, or_false] at hmem
    rcases hmem with rfl | rfl | rfl <;> exact ⟨_, rfl, by decide +kernel⟩
  intro container _ left hleft right hright hlooksLeft hlooksRight
  obtain ⟨_, rfl, hidLeft⟩ := hentry left hleft
  obtain ⟨_, rfl, hidRight⟩ := hentry right hright
  rw [hidLeft, hidRight, hlooksLeft.2, hlooksRight.2]

/-- "kxc00" and "ksc00" under "mscp", with a file each. -/
def bothEntries : KeyFiles where
  containers := oneContainer.containers
  records := [mscpRecord [0x01, 0x10] (cstr "kxc00"), mscpRecord [0x01, 0x11] (cstr "ksc00")]
  slack := []
  container_length := by decide
  containers_size := by decide
  records_few := by decide
  record_length := by decide +kernel
  directory_size := by decide +kernel

/-- The names are distinct, and the link is that of the entry that comes last. -/
theorem links_depend_on_order : (bothEntries.records.map fun record => (record.drop 4).take 16).Nodup ∧
    ¬OrderFree bothEntries := by
  refine ⟨by decide +kernel, fun h => ?_⟩
  have hone := h.oneFile (by decide)
  have hpair : HasPair bothEntries.containers 0 :=
    ⟨0, [0x01, 0x00, 0x00, 0x00, 0x04, 0x00, 0x00, 0x00, 0x00, 0x00, 0x00], rfl, by decide, by decide +kernel⟩
  have hid := hone 0 hpair _ (List.mem_cons_self) _ (List.mem_cons_of_mem _ List.mem_cons_self) (by decide +kernel)
    (by decide +kernel)
  exact absurd hid (by decide +kernel)

end TrustOnboard.Mias
