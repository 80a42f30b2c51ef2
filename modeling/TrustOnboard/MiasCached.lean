import TrustOnboard.MiasEntries

/-! When a failed listing is cached. Only the SELECT of CONTAINERS_INFO is reported: behind it a failed transmission is
skipped, another status ends a loop, and the listing is taken for complete. -/

namespace TrustOnboard.Mias

open Exec Linked SEInterface

variable {σ : Type} {T : Transport σ} {s s' : Linked σ Mias}

/-! ### For every card -/

/-- The SELECT of a file, for every card. -/
theorem selectFileLe_meets (path : List UInt8) (le : UInt8) :
    Meets (ok (selectFileLe T path le)) s
      (fun ok s' => s'.obj = s.obj ∧ ∃ list, Reports s.se s'.se list ∧
        if ok then ∃ issued, issued.ok = true ∧ list = [issued] else list.length ≤ 1)
      (fun _ => True) := by
  unfold selectFileLe Applet.transmitCase4
  refine (ok_meets (fill_transmits (command_transmits T _))).mono ?_ fun _ _ => trivial
  rintro ok s' ⟨hobj, ⟨rfl, rfl, _⟩ | ⟨_, result, events, hran, rfl⟩⟩
  · exact ⟨rfl, [], .refl _, Nat.zero_le 1⟩
  · refine ⟨hobj, _, ⟨events, hran.log_eq, hran.ended.outcomes⟩, ?_⟩
    cases haccepted : Applet.acceptedResult result with
    | true => exact ⟨⟨_, result⟩, haccepted, rfl⟩
    | false => exact Nat.le_refl 1

/-- A listing that fails has issued no more than the first command, one that succeeds has had it accepted. -/
theorem listKeyPairs_meets (hnum : s.obj.keypairsNum = -1) :
    Meets (listKeyPairs T) s
      (fun result s' => ∃ list, Reports s.se s'.se list ∧
        if result then ∃ later first, first.ok = true ∧ list = later ++ [first]
        else s'.obj.keypairsNum = -1 ∧ list.length ≤ 1)
      (fun _ => True) := by
  refine .gets_bind ?_
  rw [if_neg (by rw [hnum]; simp)]
  refine .bind (selectFileLe_meets _ _) ?_
  rintro ok s₁ ⟨hobj, list, hreports, hlist⟩
  cases ok with
  | false =>
      rw [if_neg Bool.false_ne_true]
      exact .pure ⟨list, hreports, by rw [hobj]; exact hnum, hlist⟩
  | true =>
      obtain ⟨first, hfirst, rfl⟩ := hlist
      rw [if_pos rfl]
      have hlength : ∀ fuel, onApplet (gets Applet.getResponseLength) fuel s₁ =
          (.done (Applet.getResponseLength ⟨s₁.se, s₁.obj.applet⟩), s₁) := fun _ => rfl
      refine .done_bind hlength (.gets_bind (.ite (fun _ => ?_) fun _ => ?_))
      · -- from here on the log only grows
        let started : Linked σ Mias → Prop := Within T Mias.applet (fun _ => True) (fun _ => True) s₁
        have hstart : started s₁ := refl (r := Within T Mias.applet (fun _ => True) fun _ => True) s₁
        have hgoes : ∀ {α : Type} {program : Exec (Linked σ Mias) α} {t : Linked σ Mias},
            Stays (Within T Mias.applet (fun _ => True) fun _ => True) program → started t →
            Meets program t (fun _ => started) fun _ => True :=
          fun hstays ht => (hstays.meets_from ht).mono (fun _ _ h => h) fun _ _ => trivial
        refine .bind (hgoes (onSE_stays (fcpFileSize_same 0)) hstart) fun size t ht => ?_
        refine .bind (hgoes (.loop (containerTurn_stays within_bears trivial size) _) ht) fun _ t ht => ?_
        refine .bind (hgoes (setObj_within fun _ => rfl) ht) fun _ t ht => ?_
        refine .bind (hgoes (linkCertificates_stays within_bears trivial trivial) ht) fun _ t ht => ?_
        obtain ⟨later, hlater⟩ := Reports.of_grows ht.2
        exact .pure ⟨later ++ [first], hreports.trans hlater, later, first, hfirst, rfl⟩
      · exact .pure ⟨_, hreports, by rw [hobj]; exact hnum, Nat.le_refl 1⟩

/-! ### What a listing is for -/

/-- A command of the list failed. -/
def Failed (list : List Concluded) : Prop := ∃ outcome ∈ list, outcome.ok = false

instance (list : List Concluded) : Decidable (Failed list) := inferInstanceAs (Decidable (∃ outcome ∈ list, _))

/-- A listing with a failed command fails, and the next one lists again. -/
def Uncached (list : List Concluded) (result : Bool) (m : Mias) : Prop :=
  Failed list → result = false ∧ m.keypairsNum = -1

/-- The table has the pair of every valid record, as many as the pool takes, and every pair has the file of its
entry. -/
structure TableComplete (files : KeyFiles) (old m : Mias) : Prop where
  count : m.keypairsNum = (min keyPoolSize (validRecords files.containers).length : Nat)
  pairs : ∀ j k record, (validRecords files.containers)[j]? = some (k, record) → j < keyPoolSize →
    unlinked (m.keypairs j) = containerPair (k % 256) (recordMem record) (old.keypairs j)
  links : ∀ container j, m.findContainer container = some j → ∀ record ∈ files.records, LooksLikeEntry container record →
    (m.keypairs j).hasCert = true ∧ ∃ last, lastEntry files.records container = some last ∧
      (m.keypairs j).pubFileId = (last.getD 0 0, last.getD 1 0)

theorem tableOf_tableComplete (files : KeyFiles) {m : Mias} (hnum : m.keypairsNum = -1) :
    TableComplete files m (tableOf files.containers files.records m) := by
  obtain ⟨hcount, hpairs⟩ := tableOf_pairs files.containers files.records hnum
  refine ⟨hcount, hpairs, ?_⟩
  intro container j hj record hmem hlooks
  have hfound := hj
  rw [tableOf, linkAll_findContainer] at hfound
  have hsome : ∃ last, lastEntry files.records container = some last := by
    rw [lastEntry, ← Option.isSome_iff_exists, List.getLast?_isSome]
    exact List.ne_nil_of_mem (List.mem_filter.mpr ⟨hmem, decide_eq_true hlooks⟩)
  obtain ⟨last, hlast⟩ := hsome
  have hpair := linkAll_keypairs files.records hfound
  rw [hlast] at hpair
  rw [tableOf, hpair]
  exact ⟨rfl, last, hlast, rfl⟩

theorem uncached_listed_iff {later : List Concluded} {first : Concluded} (hfirst : first.ok = true) {m : Mias} :
    Uncached (later ++ [first]) true m ↔ ¬Failed later := by
  constructor
  · rintro huncached ⟨outcome, hmem, hfalse⟩
    exact Bool.noConfusion (huncached ⟨outcome, List.mem_append_left _ hmem, hfalse⟩).1
  · rintro hnot ⟨outcome, hmem, hfalse⟩
    rcases List.mem_append.mp hmem with hmem | hmem
    · exact (hnot ⟨outcome, hmem, hfalse⟩).elim
    · rw [List.mem_singleton.mp hmem, hfirst] at hfalse
      cases hfalse

theorem not_failed_nil : ¬Failed [] := by decide

/-- **A failed listing is not cached exactly if it failed at its first command.** On a card with files the listing ends,
and then the table is complete too. -/
theorem failed_listing_uncached_iff (hnum : s.obj.keypairsNum = -1) :
    (∀ fuel result s', listKeyPairs T fuel s = (.done result, s') →
      ∃ list, Reports s.se s'.se list ∧ (Uncached list result s'.obj ↔ ¬Failed list.dropLast)) ∧
    ∀ (files : KeyFiles) (channel : UInt8) (current : σ → Nat), files.HeldBy T channel current True → Ready channel s.obj →
      Attains (listKeyPairs T) s fun result s' => ∃ list, Reports s.se s'.se list ∧
        (Uncached list result s'.obj ∧ (result = true → TableComplete files s.obj s'.obj) ↔ ¬Failed list.dropLast) := by
  constructor
  · intro fuel result s' hrun
    obtain ⟨list, hreports, hlist⟩ := (listKeyPairs_meets hnum).done hrun
    refine ⟨list, hreports, ?_⟩
    cases result with
    | false =>
        obtain ⟨hkept, hlength⟩ := hlist
        have hnil : list.dropLast = [] := List.length_eq_zero_iff.mp (by rw [List.length_dropLast]; omega)
        rw [hnil]
        exact ⟨fun _ => not_failed_nil, fun _ _ => ⟨rfl, hkept⟩⟩
    | true =>
        obtain ⟨later, first, hfirst, rfl⟩ := hlist
        rw [List.dropLast_concat]
        exact uncached_listed_iff hfirst
  · intro files channel current hheld hready
    obtain ⟨result, s', hrun, hlisting⟩ := listKeyPairs_listing hheld hready hnum
    refine ⟨result, s', hrun, ?_⟩
    cases hlisting with
    | refused issued hreports _ hobj =>
        refine ⟨_, hreports, fun _ => not_failed_nil, fun _ => ⟨fun _ => ⟨rfl, ?_⟩, fun hfalse => by cases hfalse⟩⟩
        rw [hobj]
        exact hnum
    | listed first hfirst hreports hwent =>
        obtain ⟨later, hlater, _, htable⟩ := hwent
        refine ⟨later ++ [first], hreports.trans hlater, ?_⟩
        rw [List.dropLast_concat, uncached_listed_iff hfirst]
        refine and_iff_left_of_imp fun hnot _ => ?_
        have hall : ∀ outcome ∈ later, outcome.ok = true := fun outcome hmem => by
          cases hok : outcome.ok with
          | true => rfl
          | false => exact (hnot ⟨outcome, hmem, hok⟩).elim
        rw [htable hall]
        exact tableOf_tableComplete files hnum

/-- CONTAINERS_INFO is selected, the read of its record is lost, and so is the SELECT of FILE_DIR. -/
def lostRecord : Linked (List (Option (List UInt8))) Mias :=
  ⟨.create [some [0x62, 0x04, 0x81, 0x02, 0x00, 0x0B, 0x90, 0x00], none, none] Mem.zero, selectedMias⟩

/-- A listing that fails behind its first command is cached; on a card with two containers nothing fails. -/
theorem failed_listing_uncached_twoContainers :
    (∃ result s' list, listKeyPairs scripted 3 lostRecord = (.done result, s') ∧ Reports lostRecord.se s'.se list ∧
      Failed list ∧ (Uncached list result s'.obj ↔ ¬Failed list.dropLast)) ∧
    Attains (listKeyPairs (fileCard twoContainers.contents twoContainers.templates))
      ⟨.create 0 Mem.zero, selectedMias⟩ fun result s' => ∃ list, Reports (.create 0 Mem.zero) s'.se list ∧
        (Uncached list result s'.obj ∧ (result = true → TableComplete twoContainers selectedMias s'.obj) ↔
          ¬Failed list.dropLast) := by
  constructor
  · obtain ⟨ok, hrun, rfl⟩ :
      ∃ ok, listKeyPairs scripted 3 lostRecord = (.done ok, (listKeyPairs scripted 3 lostRecord).2) ∧
        ok = true := done_of_value? (by decide +kernel)
    obtain ⟨list, hreports, hiff⟩ := (failed_listing_uncached_iff (s := lostRecord) rfl).1 3 _ _ hrun
    have hall : Reports lostRecord.se (listKeyPairs scripted 3 lostRecord).2.se
        (outcomes (listKeyPairs scripted 3 lostRecord).2.se.log) := ⟨_, (List.append_nil _).symm, rfl⟩
    refine ⟨true, _, list, hrun, hreports, ?_, hiff⟩
    rw [hreports.unique hall]
    decide +kernel
  · exact (failed_listing_uncached_iff (s := ⟨.create 0 Mem.zero, selectedMias⟩) rfl).2 twoContainers 0 id
      (fileCard_heldBy twoContainers 0) selectedMias_ready

/-- The listing succeeds, and an empty table is cached. -/
theorem failed_listing_cached : ∃ s' list, listKeyPairs scripted 3 lostRecord = (.done true, s') ∧
    Reports lostRecord.se s'.se list ∧ Failed list ∧ s'.obj.keypairsNum = 0 := by
  obtain ⟨ok, hrun, rfl⟩ :
    ∃ ok, listKeyPairs scripted 3 lostRecord = (.done ok, (listKeyPairs scripted 3 lostRecord).2) ∧
      ok = true := done_of_value? (by decide +kernel)
  refine ⟨_, _, hrun, ⟨(listKeyPairs scripted 3 lostRecord).2.se.log, ?_, rfl⟩, ?_, ?_⟩
  · exact (List.append_nil _).symm
  · decide +kernel
  · decide +kernel

end TrustOnboard.Mias
