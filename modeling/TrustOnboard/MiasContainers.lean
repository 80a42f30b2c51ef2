import TrustOnboard.MiasEntries

/-! Which container a key pair is found under. The number of a record goes into the low nibble of the key id, so that
the records whose numbers differ by a multiple of 16 share it, and a record whose number plus one is a multiple of 16
has none. -/

namespace TrustOnboard.Mias

open Exec Linked SEInterface

/-! ### The pair of a record -/

/-- The flags of the usage that a record gives. -/
def usageFlags (record : List UInt8) : Nat :=
  if word16 (record.getD 4 0) (record.getD 5 0) = 0 then KeyPair.signatureFlag ||| KeyPair.decryptionFlag
  else KeyPair.signatureFlag

/-- The type nibble for the size and the usage of an RSA key. -/
def typeNibble (record : List UInt8) : Nat :=
  if keySize record = 1024 then
    if word16 (record.getD 4 0) (record.getD 5 0) = 0 then 0x10 else 0x20
  else
    if word16 (record.getD 4 0) (record.getD 5 0) = 0 then 0x30 else 0x40

/-- The key id of an RSA record. -/
def kidOf (number : Nat) (record : List UInt8) : UInt8 := lowByte (typeNibble record ||| (number + 1))

theorem containerPair_rsa {record : List UInt8} (hsize : keySize record = 1024 ∨ keySize record = 2048) (i : Nat)
    (old : KeyPair) : containerPair i (recordMem record) old =
      { kid := kidOf i record, flags := usageFlags record ||| KeyPair.rsaFlag, sizeInBits := keySize record,
        pubFileId := (0, 0), hasCert := false } := by
  have hkind : (KeyPair.signatureFlag ||| KeyPair.decryptionFlag) &&&
      (KeyPair.signatureFlag ||| KeyPair.decryptionFlag) =
      KeyPair.signatureFlag ||| KeyPair.decryptionFlag := by decide
  have hsign : KeyPair.signatureFlag &&& (KeyPair.signatureFlag ||| KeyPair.decryptionFlag) =
      KeyPair.signatureFlag := by
    decide
  have hne : KeyPair.signatureFlag ≠ KeyPair.signatureFlag ||| KeyPair.decryptionFlag := by decide
  unfold containerPair kidOf typeNibble usageFlags
  simp only [recordMem_apply]
  by_cases hzero : word16 (record.getD 4 0) (record.getD 5 0) = 0
  · have hkey : keySize record = word16 (record.getD 6 0) (record.getD 7 0) := by rw [keySize, if_pos hzero]
    simp only [if_pos hzero, hkind, ← hkey, and_true]
    rcases hsize with hsize | hsize
    · rw [if_pos hsize, if_pos hsize]
    · have hother : ¬keySize record = 1024 := by omega
      rw [if_neg hother, if_neg fun h => hother h.1, if_pos hsize, if_neg hother]
  · have hkey : keySize record = word16 (record.getD 4 0) (record.getD 5 0) := by rw [keySize, if_neg hzero]
    simp only [if_neg hzero, hsign, hne, and_false, if_false, and_true]
    simp only [← hkey]
    rcases hsize with hsize | hsize
    · rw [if_pos hsize, if_pos hsize]
    · have hother : ¬keySize record = 1024 := by omega
      rw [if_neg hother, if_pos hsize, if_neg hother]

theorem containerPair_other {record : List UInt8} (hsize : ¬(keySize record = 1024 ∨ keySize record = 2048)) (i : Nat)
    (old : KeyPair) : (containerPair i (recordMem record) old).kid = old.kid := by
  have h1024 : ¬keySize record = 1024 := fun h => hsize (.inl h)
  have h2048 : ¬keySize record = 2048 := fun h => hsize (.inr h)
  have hkey : keySize record = if word16 (recordMem record 4) (recordMem record 5) = 0 then
      word16 (recordMem record 6) (recordMem record 7) else word16 (recordMem record 4) (recordMem record 5) := by
    simp only [recordMem_apply]
    rfl
  unfold containerPair
  simp only [← hkey, h1024, h2048, false_and, if_false]

/-- The low nibble of a key id, and that it is not zero. -/
theorem kidOf_nibble {number : Nat} (hnumber : number < 256) (record : List UInt8) :
    (kidOf number record &&& 0x0F).toNat = (number + 1) % 16 ∧ kidOf number record ≠ 0 := by
  have hbits : ∀ number, number < 256 → ∀ high ∈ [0x10, 0x20, 0x30, 0x40],
      (lowByte (high ||| (number + 1)) &&& 0x0F).toNat = (number + 1) % 16 ∧ lowByte (high ||| (number + 1)) ≠ 0 := by
    decide +kernel
  refine hbits number hnumber (typeNibble record) ?_
  unfold typeNibble
  split <;> split <;> simp

/-! ### The lookup -/

section Lookup

variable {containers records : List (List UInt8)} {m : Mias} {j k : Nat} {record : List UInt8}

/-- The table is one of these files from a table that held nothing, and the pool was large enough. -/
structure Filled (containers : List (List UInt8)) (m : Mias) : Prop where
  count : m.keypairsNum = (validRecords containers).length
  pairs : ∀ j k record, (validRecords containers)[j]? = some (k, record) →
    unlinked (m.keypairs j) = containerPair (k % 256) (recordMem record) .zero

theorem tableOf_filled (hnum : m.keypairsNum = -1) (hzero : ∀ j, m.keypairs j = .zero)
    (hfew : (validRecords containers).length ≤ keyPoolSize) : Filled containers (tableOf containers records m) := by
  obtain ⟨hcount, hpairs⟩ := tableOf_pairs containers records hnum
  rw [Nat.min_eq_right hfew] at hcount
  refine ⟨hcount, ?_⟩
  intro j k record hget
  have hj : j < (validRecords containers).length := (List.getElem?_eq_some_iff.mp hget).1
  rw [hpairs j k record hget (by omega), hzero]

theorem Filled.rsa (h : Filled containers m) (hget : (validRecords containers)[j]? = some (k, record))
    (hsize : keySize record = 1024 ∨ keySize record = 2048) :
    (m.keypairs j).kid = kidOf (k % 256) record ∧ (m.keypairs j).flags = usageFlags record ||| KeyPair.rsaFlag ∧
      (m.keypairs j).sizeInBits = keySize record := by
  have hpair := h.pairs j k record hget
  rw [containerPair_rsa hsize] at hpair
  exact ⟨congrArg KeyPair.kid hpair, congrArg KeyPair.flags hpair, congrArg KeyPair.sizeInBits hpair⟩

theorem Filled.other (h : Filled containers m) (hget : (validRecords containers)[j]? = some (k, record))
    (hsize : ¬(keySize record = 1024 ∨ keySize record = 2048)) : (m.keypairs j).kid = 0 := by
  have hpair := congrArg KeyPair.kid (h.pairs j k record hget)
  rw [containerPair_other hsize] at hpair
  exact hpair

/-- The container of a pair is the low nibble of the number of its record. -/
theorem Filled.container (h : Filled containers m) (hget : (validRecords containers)[j]? = some (k, record)) :
    (m.keypairs j).container =
      if keySize record = 1024 ∨ keySize record = 2048 then (((k + 1) % 16 : Nat) : Int) - 1 else -1 := by
  have hmod : k % 256 < 256 := Nat.mod_lt k (by decide)
  by_cases hsize : keySize record = 1024 ∨ keySize record = 2048
  · rw [if_pos hsize, KeyPair.container, (h.rsa hget hsize).1, (kidOf_nibble hmod record).1]
    congr 2
    omega
  · rw [if_neg hsize, KeyPair.container, h.other hget hsize]
    decide

theorem Filled.find_iff (h : Filled containers m) {container : Int} :
    m.findContainer container = some j ↔ j < (validRecords containers).length ∧ (m.keypairs j).container = container ∧
      ∀ i, i < j → (m.keypairs i).container ≠ container := by
  rw [findContainer, h.count, Int.toNat_natCast, List.find?_range_eq_some, List.mem_range]
  simp only [decide_eq_true_eq, Bool.not_eq_true', decide_eq_false_iff_not]
  exact and_left_comm

/-- What is found under a container is an RSA record of its nibble. -/
theorem Filled.found (h : Filled containers m) {c : Nat} (hfind : m.findContainer c = some j) :
    ∃ k record, (validRecords containers)[j]? = some (k, record) ∧ IsRsaRecord record ∧ (k + 1) % 16 = c + 1 := by
  obtain ⟨hj, hcontainer, _⟩ := h.find_iff.mp hfind
  rcases hget : (validRecords containers)[j]? with _ | ⟨k, record⟩
  · rw [List.getElem?_eq_none_iff] at hget
    omega
  · have hmem := (mem_validRecords.mp (List.mem_of_getElem? hget)).2
    rw [h.container hget] at hcontainer
    by_cases hsize : keySize record = 1024 ∨ keySize record = 2048
    · rw [if_pos hsize] at hcontainer
      exact ⟨k, record, rfl, ⟨hmem, hsize⟩, by omega⟩
    · rw [if_neg hsize] at hcontainer
      omega

/-- The records of a nibble come in the order of their numbers. -/
theorem validRecords_lt {i i' k k' : Nat} {record record' : List UInt8}
    (hget : (validRecords containers)[i]? = some (k, record)) (hget' : (validRecords containers)[i']? = some (k', record'))
    (hlt : i < i') : k < k' := by
  obtain ⟨hi, heq⟩ := List.getElem?_eq_some_iff.mp hget
  obtain ⟨hi', heq'⟩ := List.getElem?_eq_some_iff.mp hget'
  have hpair := List.pairwise_iff_getElem.mp (validFrom_pairwise containers 0) i i' hi hi' hlt
  have hleft : (validFrom containers 0)[i] = (k, record) := heq
  have hright : (validFrom containers 0)[i'] = (k', record') := heq'
  rw [hleft, hright] at hpair
  exact hpair

/-- An RSA record with one of the first fifteen numbers is found under its number. -/
theorem Filled.finds (h : Filled containers m) {c : Nat} (hc : c < 15) (hrecord : containers[c]? = some record)
    (hrsa : IsRsaRecord record) :
    ∃ j, m.findContainer c = some j ∧ (validRecords containers)[j]? = some (c, record) := by
  obtain ⟨j, hget⟩ := List.mem_iff_getElem?.mp (mem_validRecords.mpr ⟨hrecord, hrsa.1⟩)
  have hj : j < (validRecords containers).length := (List.getElem?_eq_some_iff.mp hget).1
  refine ⟨j, h.find_iff.mpr ⟨hj, ?_, ?_⟩, hget⟩
  · rw [h.container hget, if_pos hrsa.2, Nat.mod_eq_of_lt (by omega)]
    omega
  · intro i hi hcontainer
    -- an earlier record has a smaller number, and so another nibble
    rcases hget' : (validRecords containers)[i]? with _ | ⟨k, record'⟩
    · rw [List.getElem?_eq_none_iff] at hget'
      omega
    · have hlt := validRecords_lt hget' hget hi
      rw [h.container hget'] at hcontainer
      split at hcontainer
      · rw [Nat.mod_eq_of_lt (by omega)] at hcontainer
        omega
      · omega

/-- What a lookup is for: it finds the pair of the record with that number, if that is a valid RSA record, and no other
pair has its key id. -/
structure Named (containers : List (List UInt8)) (c : UInt8) (found : Option Nat) (m : Mias) : Prop where
  found_iff : (∃ j, found = some j) ↔ ∃ record, containers[c.toNat]? = some record ∧ IsRsaRecord record
  built : ∀ j record, found = some j → containers[c.toNat]? = some record →
    (m.keypairs j).sizeInBits = keySize record ∧ (m.keypairs j).flags = usageFlags record ||| KeyPair.rsaFlag ∧
      (m.keypairs j).kid = kidOf c.toNat record
  distinct : ∀ j j' : Nat, found = some j → (j' : Int) < m.keypairsNum → j' ≠ j → (m.keypairs j').kid ≠ (m.keypairs j).kid

/-- A valid RSA record has one of the first fifteen numbers, or one that no container id can have; then its nibble is
none, or that of a valid RSA record with another key id among the first fifteen. -/
def Unambiguous (containers : List (List UInt8)) : Prop :=
  ∀ k record, containers[k]? = some record → IsRsaRecord record → k < 15 ∨ 256 ≤ k ∧ ((k + 1) % 16 = 0 ∨
    ∃ first, containers[(k + 1) % 16 - 1]? = some first ∧ IsRsaRecord first ∧
      kidOf ((k + 1) % 16 - 1) first ≠ kidOf (k % 256) record)

/-- A table in which every container is found as it should be has records of that kind only. -/
theorem Filled.unambiguous (h : Filled containers m)
    (hnamed : ∀ c : UInt8, Named containers c (m.findContainer c.toNat) m) : Unambiguous containers := by
  intro k record hrecord hrsa
  obtain ⟨j, hget⟩ := List.mem_iff_getElem?.mp (mem_validRecords.mpr ⟨hrecord, hrsa.1⟩)
  have hj : j < (validRecords containers).length := (List.getElem?_eq_some_iff.mp hget).1
  by_cases hlow : k < 15
  · exact .inl hlow
  by_cases hbyte : k < 256
  · -- an id of its own, but no pair is found under it
    have hc : (UInt8.ofNat k).toNat = k := by
      rw [UInt8.toNat_ofNat']
      omega
    have hfound := ((hnamed (UInt8.ofNat k)).found_iff.mpr ⟨record, by rw [hc]; exact hrecord, hrsa⟩)
    obtain ⟨j', hfind⟩ := hfound
    rw [hc] at hfind
    obtain ⟨k', _, _, _, hnibble⟩ := h.found hfind
    omega
  · refine .inr ⟨by omega, ?_⟩
    by_cases hnone : (k + 1) % 16 = 0
    · exact .inl hnone
    · -- the pair is one of the container of its nibble
      have hc : (UInt8.ofNat ((k + 1) % 16 - 1)).toNat = (k + 1) % 16 - 1 := by
        rw [UInt8.toNat_ofNat']
        omega
      have hcontainer : (m.keypairs j).container = ((k + 1) % 16 - 1 : Nat) := by
        rw [h.container hget, if_pos hrsa.2]
        omega
      have hname := hnamed (UInt8.ofNat ((k + 1) % 16 - 1))
      rw [hc] at hname
      have hfound : ∃ j', m.findContainer ((k + 1) % 16 - 1 : Nat) = some j' := by
        rw [← Option.isSome_iff_exists, findContainer, List.find?_isSome]
        refine ⟨j, List.mem_range.mpr ?_, decide_eq_true hcontainer⟩
        rw [h.count, Int.toNat_natCast]
        exact hj
      obtain ⟨j', hfind⟩ := hfound
      obtain ⟨first, hfirst, hfirstRsa⟩ := hname.found_iff.mp ⟨j', hfind⟩
      rw [hc] at hfirst
      obtain ⟨i, hfind', hget'⟩ := h.finds (by omega) hfirst hfirstRsa
      have hne : j ≠ i := by
        rintro rfl
        have hsame : k = (k + 1) % 16 - 1 := congrArg Prod.fst (Option.some.inj (hget.symm.trans hget'))
        omega
      refine .inr ⟨first, hfirst, hfirstRsa, ?_⟩
      have hkid := hname.distinct i j hfind' (by rw [h.count]; omega) hne
      rw [(h.rsa hget hrsa.2).1, (h.rsa hget' hfirstRsa.2).1,
        Nat.mod_eq_of_lt (by omega : (k + 1) % 16 - 1 < 256)] at hkid
      exact fun heq => hkid heq.symm

/-- Among records of that kind every container is found as it should be. -/
theorem Filled.named (h : Filled containers m) (hkind : Unambiguous containers) (c : UInt8) :
    Named containers c (m.findContainer c.toNat) m := by
  -- the pair that is found is the one of the record with that number
  have hfound : ∀ j, m.findContainer c.toNat = some j →
      ∃ record, (validRecords containers)[j]? = some (c.toNat, record) ∧
      containers[c.toNat]? = some record ∧ IsRsaRecord record ∧ c.toNat < 15 := by
    intro j hfind
    obtain ⟨k, record, hget, hrsa, hnibble⟩ := h.found hfind
    have hrecord := (mem_validRecords.mp (List.mem_of_getElem? hget)).1
    have hholder : ∃ first, containers[c.toNat]? = some first ∧ IsRsaRecord first := by
      rcases hkind k record hrecord hrsa with hlow | ⟨_, hnone | ⟨first, hfirst, hfirstRsa, _⟩⟩
      · have hsame : k = c.toNat := by omega
        exact ⟨record, hsame ▸ hrecord, hrsa⟩
      · omega
      · have hsame : (k + 1) % 16 - 1 = c.toNat := by omega
        exact ⟨first, hsame ▸ hfirst, hfirstRsa⟩
    obtain ⟨first, hfirst, hfirstRsa⟩ := hholder
    obtain ⟨i, hfind', hget'⟩ := h.finds (by omega) hfirst hfirstRsa
    rw [hfind] at hfind'
    cases hfind'
    exact ⟨first, hget', hfirst, hfirstRsa, by omega⟩
  have hmod : c.toNat % 256 = c.toNat := Nat.mod_eq_of_lt c.toNat_lt
  refine ⟨⟨?_, ?_⟩, ?_, ?_⟩
  · rintro ⟨j, hfind⟩
    obtain ⟨record, _, hrecord, hrsa, _⟩ := hfound j hfind
    exact ⟨record, hrecord, hrsa⟩
  · rintro ⟨record, hrecord, hrsa⟩
    have hlow : c.toNat < 15 := by
      have := c.toNat_lt
      rcases hkind c.toNat record hrecord hrsa with hlow | ⟨hhigh, _⟩ <;> omega
    obtain ⟨j, hfind, _⟩ := h.finds hlow hrecord hrsa
    exact ⟨j, hfind⟩
  · intro j record hfind hrecord
    obtain ⟨record', hget, hrecord', hrsa, _⟩ := hfound j hfind
    rw [hrecord] at hrecord'
    cases hrecord'
    obtain ⟨hkid, hflags, hsize⟩ := h.rsa hget hrsa.2
    rw [hmod] at hkid
    exact ⟨hsize, hflags, hkid⟩
  · intro j j' hfind hj' hne heq
    obtain ⟨record, hget, hrecord, hrsa, hlow⟩ := hfound j hfind
    have hkid := (h.rsa hget hrsa.2).1
    have hnibble := kidOf_nibble (Nat.mod_lt c.toNat (by decide)) record
    rw [← hkid, hmod] at hnibble
    rw [h.count] at hj'
    rcases hget' : (validRecords containers)[j']? with _ | ⟨k', record'⟩
    · rw [List.getElem?_eq_none_iff] at hget'
      omega
    by_cases hsize' : keySize record' = 1024 ∨ keySize record' = 2048
    · obtain ⟨hrecord', hvalid'⟩ := mem_validRecords.mp (List.mem_of_getElem? hget')
      have hkid' := (h.rsa hget' hsize').1
      have hnibble' := (kidOf_nibble (Nat.mod_lt k' (by decide)) record').1
      rw [← hkid', heq, hnibble.1] at hnibble'
      have hother : k' ≠ c.toNat := by
        rintro rfl
        rcases Nat.lt_or_gt_of_ne hne with hlt | hlt
        · exact Nat.lt_irrefl _ (validRecords_lt hget' hget hlt)
        · exact Nat.lt_irrefl _ (validRecords_lt hget hget' hlt)
      -- another record of the nibble has a number that is no container id, and another key id
      rcases hkind k' record' hrecord' ⟨hvalid', hsize'⟩ with hlow' | ⟨_, hnone | ⟨first, hfirst, _, hdiffers⟩⟩
      · omega
      · omega
      · have hsame : (k' + 1) % 16 - 1 = c.toNat := by omega
        rw [hsame, hrecord] at hfirst
        cases hfirst
        rw [hsame] at hdiffers
        rw [hmod] at hkid
        exact hdiffers (by rw [← hkid, ← hkid', heq])
    · rw [h.other hget' hsize'] at heq
      exact hnibble.2 heq.symm

end Lookup

/-- **Containers never alias exactly if no valid RSA record has a number that the low nibble cannot hold.** -/
theorem containers_named_iff {σ : Type} {T : Transport σ} {files : KeyFiles} {channel : UInt8} {current : σ → Nat}
    {s : Linked σ Mias} (h : files.HeldBy T channel current False)
    (hfew : (validRecords files.containers).length ≤ keyPoolSize) (hready : Ready channel s.obj)
    (hnum : s.obj.keypairsNum = -1) (hzero : ∀ j, s.obj.keypairs j = .zero) :
    (∀ c : UInt8, Attains (getKeyPairByContainerId T c) s fun found s' => Named files.containers c found s'.obj) ↔
      Unambiguous files.containers := by
  have hfilled : Filled files.containers (tableOf files.containers files.records s.obj) :=
    tableOf_filled hnum hzero hfew
  have hlookup := getKeyPairByContainerId_tables h hready hnum
  constructor
  · intro hnamed
    apply hfilled.unambiguous
    intro c
    obtain ⟨s', hobj, hrun⟩ := hlookup c
    have hname := hrun.attains_iff.mp (hnamed c)
    rw [hobj] at hname
    exact hname
  · intro hkind c
    obtain ⟨s', hobj, hrun⟩ := hlookup c
    rw [hrun.attains_iff, hobj]
    exact hfilled.named hkind c

/-- Both containers are found under their numbers, and no other. -/
theorem containers_named_twoContainers : Unambiguous twoContainers.containers ∧
    ∀ c : UInt8, Attains (getKeyPairByContainerId (fileCard twoContainers.contents twoContainers.templates) c)
      ⟨.create 0 Mem.zero, selectedMias⟩ fun found s' => Named twoContainers.containers c found s'.obj := by
  have hkind : Unambiguous twoContainers.containers := by
    intro k record hrecord _
    have hk : k < twoContainers.containers.length := (List.getElem?_eq_some_iff.mp hrecord).1
    exact .inl (Nat.lt_trans hk (by decide))
  refine ⟨hkind, (containers_named_iff (fileCard_heldBy twoContainers 0) ?_ selectedMias_ready rfl fun _ => rfl).mpr hkind⟩
  decide

/-- Sixteen records that are not valid, and one that is. -/
def seventeenth : KeyFiles where
  containers := List.replicate 16 (List.replicate 11 0x00) ++
    [[0x01, 0x00, 0x00, 0x00, 0x04, 0x00, 0x00, 0x00, 0x00, 0x00, 0x00]]
  records := []
  slack := []
  container_length := by decide +kernel
  containers_size := by decide +kernel
  records_few := noRecords_few
  record_length := noRecord_length
  directory_size := noDirectory_size

/-- Container 0 is the pair of record 16. -/
theorem containers_alias : ¬∀ c : UInt8,
    Attains (getKeyPairByContainerId (fileCard seventeenth.contents seventeenth.templates) c)
      ⟨.create 0 Mem.zero, selectedMias⟩ fun found s' => Named seventeenth.containers c found s'.obj := by
  intro h
  obtain ⟨s', hobj, hrun⟩ := getKeyPairByContainerId_tables (s := ⟨.create 0 Mem.zero, selectedMias⟩)
    (fileCard_heldBy seventeenth 0) selectedMias_ready rfl 0
  have hname := hrun.attains_iff.mp (h 0)
  rw [hobj] at hname
  have hfound : (tableOf seventeenth.containers seventeenth.records selectedMias).findContainer
      (0 : UInt8).toNat = some 0 := by
    decide +kernel
  obtain ⟨record, hrecord, hrsa⟩ := hname.found_iff.mp ⟨0, hfound⟩
  have hfirst : seventeenth.containers[(0 : UInt8).toNat]? = some (List.replicate 11 0x00) := by decide
  rw [hfirst] at hrecord
  cases hrecord
  exact absurd hrsa (by decide)

end TrustOnboard.Mias
