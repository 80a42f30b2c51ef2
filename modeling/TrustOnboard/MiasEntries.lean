import Mathlib.Data.List.Induction
import TrustOnboard.MiasListing

/-! The table of two files. Every valid record of CONTAINERS_INFO has its pair, in order, until the pool is full; every
pair is linked to the last directory record that looks like the entry of its container. -/

namespace TrustOnboard.Mias

/-! ### Valid records -/

/-- The valid records from number `i` on, with their numbers. -/
def validFrom : List (List UInt8) → Nat → List (Nat × List UInt8)
  | [], _ => []
  | record :: rest, i => if record.getD 0 0 ≠ 0 then (i, record) :: validFrom rest (i + 1) else validFrom rest (i + 1)

def validRecords (containers : List (List UInt8)) : List (Nat × List UInt8) := validFrom containers 0

theorem mem_validFrom {containers : List (List UInt8)} {i k : Nat} {record : List UInt8} :
    (k, record) ∈ validFrom containers i ↔ i ≤ k ∧ containers[k - i]? = some record ∧ record.getD 0 0 ≠ 0 := by
  induction containers generalizing i with
  | nil => simp [validFrom]
  | cons first rest ih =>
      have hrest : (k, record) ∈ validFrom rest (i + 1) ↔ i < k ∧ (first :: rest)[k - i]? = some record ∧
          record.getD 0 0 ≠ 0 := by
        rw [ih]
        refine and_congr_right fun hlt => ?_
        rw [show k - i = k - (i + 1) + 1 by omega, List.getElem?_cons_succ]
      by_cases hfirst : first.getD 0 0 ≠ 0
      · rw [validFrom, if_pos hfirst, List.mem_cons, hrest]
        constructor
        · rintro (heq | ⟨hlt, hget⟩)
          · cases heq
            exact ⟨Nat.le_refl k, by simp, hfirst⟩
          · exact ⟨Nat.le_of_lt hlt, hget⟩
        · rintro ⟨hle, hget, hvalid⟩
          rcases Nat.lt_or_eq_of_le hle with hlt | rfl
          · exact .inr ⟨hlt, hget, hvalid⟩
          · rw [Nat.sub_self] at hget
            cases hget
            exact .inl rfl
      · rw [validFrom, if_neg hfirst, hrest]
        constructor
        · exact fun h => ⟨Nat.le_of_lt h.1, h.2⟩
        · rintro ⟨hle, hget, hvalid⟩
          rcases Nat.lt_or_eq_of_le hle with hlt | rfl
          · exact ⟨hlt, hget, hvalid⟩
          · rw [Nat.sub_self] at hget
            cases hget
            exact absurd hvalid hfirst

theorem mem_validRecords {containers : List (List UInt8)} {k : Nat} {record : List UInt8} :
    (k, record) ∈ validRecords containers ↔ containers[k]? = some record ∧ record.getD 0 0 ≠ 0 := by
  rw [validRecords, mem_validFrom]
  simp

/-- The numbers grow. -/
theorem validFrom_pairwise (containers : List (List UInt8)) (i : Nat) :
    (validFrom containers i).Pairwise fun left right => left.1 < right.1 := by
  induction containers generalizing i with
  | nil => exact .nil
  | cons first rest ih =>
      rw [validFrom]
      split_ifs
      · refine .cons ?_ (ih (i + 1))
        rintro ⟨k, record⟩ hmem
        exact (mem_validFrom.mp hmem).1
      · exact ih (i + 1)

/-! ### The pairs -/

/-- What the CONTAINERS_INFO loop leaves of a table of `n` pairs. -/
theorem collect_pairs {containers : List (List UInt8)} {i n : Nat} {m : Mias} (hnum : m.keypairsNum = (n : Int) - 1)
    (hn : n ≤ keyPoolSize) :
    (collect containers (i % 256) m).keypairsNum = (min keyPoolSize (n + (validFrom containers i).length) : Nat) - 1 ∧
    (∀ j, j < n → (collect containers (i % 256) m).keypairs j = m.keypairs j) ∧
    ∀ j k record, (validFrom containers i)[j]? = some (k, record) → n + j < keyPoolSize →
      (collect containers (i % 256) m).keypairs (n + j) =
        containerPair (k % 256) (recordMem record) (m.keypairs (n + j)) := by
  induction containers generalizing i n m with
  | nil =>
      refine ⟨?_, fun _ _ => rfl, fun j k record hget => by cases hget⟩
      rw [collect, validFrom, List.length_nil, hnum, Nat.add_zero, Nat.min_eq_right hn]
  | cons first rest ih =>
      have hstep : (i % 256 + 1) % 256 = (i + 1) % 256 := by omega
      by_cases hfirst : first.getD 0 0 ≠ 0
      · rw [validFrom, if_pos hfirst, collect, if_pos hfirst]
        by_cases hfull : (keyPoolSize : Int) - 1 ≤ m.keypairsNum
        · rw [if_pos hfull]
          have hend : n = keyPoolSize := by omega
          refine ⟨?_, fun _ _ => rfl, fun j k record _ hlt => by omega⟩
          rw [List.length_cons, hnum, Nat.min_eq_left (by omega), hend]
        · rw [if_neg hfull, hstep]
          have hindex : (m.keypairsNum + 1).toNat = n := by omega
          have hpairs : (addPair (i % 256) (recordMem first) m).keypairs =
              Function.update m.keypairs n (containerPair (i % 256) (recordMem first) (m.keypairs n)) := by
            rw [addPair]
            simp only [hindex]
          have hadded : (addPair (i % 256) (recordMem first) m).keypairsNum = ((n + 1 : Nat) : Int) - 1 := by
            show m.keypairsNum + 1 = _
            omega
          obtain ⟨hcount, hbefore, hafter⟩ := ih hadded (by omega)
          refine ⟨?_, ?_, ?_⟩
          · rw [hcount, List.length_cons, Nat.add_right_comm, Nat.add_assoc]
          · intro j hj
            rw [hbefore j (by omega), hpairs, Function.update_of_ne (by omega)]
          · intro j k record hget hlt
            cases j with
            | zero =>
                cases hget
                have hpair := hbefore n (Nat.lt_succ_self n)
                rw [hpairs, Function.update_self] at hpair
                exact hpair
            | succ j =>
                rw [List.getElem?_cons_succ] at hget
                have hpair := hafter j k record hget (by omega)
                rw [show n + (j + 1) = n + 1 + j by omega, hpair, hpairs, Function.update_of_ne (by omega)]
      · rw [validFrom, if_neg hfirst, collect, if_neg hfirst, hstep]
        exact ih hnum hn

/-! ### The links -/

/-- What a directory record gives a pair: its file, or nothing new. -/
def relink (record : Option (List UInt8)) (pair : KeyPair) : KeyPair :=
  match record with
  | some record => { pair with pubFileId := (record.getD 0 0, record.getD 1 0), hasCert := true }
  | none => pair

/-- The last record that looks like the entry of the container. -/
def lastEntry (records : List (List UInt8)) (container : Int) : Option (List UInt8) :=
  (records.filter fun record => LooksLikeEntry container record).getLast?

theorem recordMem_apply (record : List UInt8) (k : Nat) : recordMem record k = record.getD k 0 := by
  by_cases hk : k < record.length
  · rw [recordMem, Mem.write_of_mem (Nat.zero_le k) (by omega), Nat.sub_zero]
  · rw [recordMem, Mem.write_of_ge (by omega), List.getD_eq_getElem?_getD, List.getElem?_eq_none (by omega)]
    rfl

theorem linkRecord_keypairs (record : List UInt8) {m : Mias} {container : Int} {j : Nat}
    (hj : m.findContainer container = some j) :
    (linkRecord (recordMem record) m).keypairs j =
      relink (if LooksLikeEntry container record then some record else none) (m.keypairs j) := by
  by_cases hlooks : LooksLikeEntry container record
  · have hcertificate : isCertificateRecord (recordMem record) = true := hlooks.1
    have hnumber : recordContainer (recordMem record) = container := hlooks.2
    rw [if_pos hlooks, linkRecord, if_pos hcertificate, hnumber, hj]
    simp only [Function.update_self, recordMem_apply, relink]
  · rw [if_neg hlooks, relink]
    unfold linkRecord
    split
    · rename_i hcertificate
      split
      · rename_i index hindex
        have hne : j ≠ index := by
          rintro rfl
          apply hlooks
          refine ⟨hcertificate, ?_⟩
          rw [← container_of_findContainer hj, container_of_findContainer hindex]
          rfl
        simp only [Function.update_of_ne hne]
      · rfl
    · rfl

theorem linkAll_concat (records : List (List UInt8)) (record : List UInt8) (m : Mias) :
    linkAll (records ++ [record]) m = linkRecord (recordMem record) (linkAll records m) := by
  rw [linkAll, List.foldl_append]
  rfl

theorem linkAll_findContainer (records : List (List UInt8)) (m : Mias) (container : Int) :
    (linkAll records m).findContainer container = m.findContainer container := by
  induction records using List.reverseRecOn with
  | nil => rfl
  | append_singleton records record ih => rw [linkAll_concat, linkRecord_findContainer, ih]

/-- A pair that is found is linked to the last entry of its container. -/
theorem linkAll_keypairs (records : List (List UInt8)) {m : Mias} {container : Int} {j : Nat}
    (hj : m.findContainer container = some j) :
    (linkAll records m).keypairs j = relink (lastEntry records container) (m.keypairs j) := by
  induction records using List.reverseRecOn with
  | nil => rfl
  | append_singleton records record ih =>
      rw [linkAll_concat, linkRecord_keypairs record (by rw [linkAll_findContainer]; exact hj), ih,
        lastEntry, lastEntry,
        List.filter_append]
      by_cases hlooks : LooksLikeEntry container record
      · rw [if_pos hlooks, List.filter_cons_of_pos (by simpa using hlooks), List.filter_nil, List.getLast?_concat]
        cases (records.filter fun record => LooksLikeEntry container record).getLast? <;> rfl
      · rw [if_neg hlooks, List.filter_cons_of_neg (by simpa using hlooks), List.filter_nil, List.append_nil]
        rfl

/-- Linking changes nothing else. -/
def unlinked (pair : KeyPair) : KeyPair := { pair with pubFileId := (0, 0), hasCert := false }

theorem linkRecord_unlinked (memory : Mem) (m : Mias) (j : Nat) :
    unlinked ((linkRecord memory m).keypairs j) = unlinked (m.keypairs j) := by
  unfold linkRecord
  split
  · split
    · rename_i index _
      by_cases hj : j = index
      · simp only [hj, Function.update_self]
        rfl
      · simp only [Function.update_of_ne hj]
    · rfl
  · rfl

theorem linkRecord_keypairsNum (memory : Mem) (m : Mias) : (linkRecord memory m).keypairsNum = m.keypairsNum := by
  unfold linkRecord
  split
  · split <;> rfl
  · rfl

theorem linkAll_unlinked (records : List (List UInt8)) (m : Mias) (j : Nat) :
    unlinked ((linkAll records m).keypairs j) = unlinked (m.keypairs j) := by
  induction records using List.reverseRecOn with
  | nil => rfl
  | append_singleton records record ih => rw [linkAll_concat, linkRecord_unlinked, ih]

theorem linkAll_keypairsNum (records : List (List UInt8)) (m : Mias) : (linkAll records m).keypairsNum = m.keypairsNum := by
  induction records using List.reverseRecOn with
  | nil => rfl
  | append_singleton records record ih => rw [linkAll_concat, linkRecord_keypairsNum, ih]

theorem containerPair_unlinked (i : Nat) (memory : Mem) (old : KeyPair) :
    unlinked (containerPair i memory old) = containerPair i memory old := by
  unfold containerPair
  simp only [apply_ite unlinked]
  rfl

/-- The table of two files, from an empty one. -/
theorem tableOf_pairs (containers records : List (List UInt8)) {m : Mias} (hnum : m.keypairsNum = -1) :
    (tableOf containers records m).keypairsNum = (min keyPoolSize (validRecords containers).length : Nat) ∧
    ∀ j k record, (validRecords containers)[j]? = some (k, record) → j < keyPoolSize →
      unlinked ((tableOf containers records m).keypairs j) = containerPair (k % 256) (recordMem record) (m.keypairs j) := by
  obtain ⟨hcount, _, hpairs⟩ := collect_pairs (i := 0) (n := 0) (m := m) hnum (Nat.zero_le _)
  rw [tableOf]
  refine ⟨?_, ?_⟩
  · rw [linkAll_keypairsNum]
    show (collect containers (0 % 256) m).keypairsNum + 1 = _
    rw [hcount, Nat.zero_add, validRecords]
    omega
  · intro j k record hget hlt
    have hpair := hpairs j k record hget (by omega)
    rw [Nat.zero_add] at hpair
    rw [linkAll_unlinked]
    show unlinked ((collect containers (0 % 256) m).keypairs j) = _
    rw [hpair, containerPair_unlinked]

end TrustOnboard.Mias
