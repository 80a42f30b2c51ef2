import TrustOnboard.CardOutcome
import TrustOnboard.MiasReading
import TrustOnboard.MiasTable

/-! `listKeyPairs` on a card whose commands may fail. The table that the records give is a function of the two files,
`tableOf`; a listing in which no command fails ends in it. -/

namespace TrustOnboard.Mias

open Exec Linked SEInterface

/-! ### The table of two files -/

/-- A record in memory. -/
def recordMem (record : List UInt8) : Mem := Mem.zero.write 0 record

/-- What the CONTAINERS_INFO loop makes of the records from number `i` on; `i` is a byte of the source. -/
def collect : List (List UInt8) → Nat → Mias → Mias
  | [], _, m => m
  | record :: rest, i, m =>
      if record.getD 0 0 ≠ 0 then
        if (keyPoolSize : Int) - 1 ≤ m.keypairsNum then m else collect rest ((i + 1) % 256) (addPair i (recordMem record) m)
      else
        collect rest ((i + 1) % 256) m

/-- What the FILE_DIR loop makes of the records. -/
def linkAll (records : List (List UInt8)) (m : Mias) : Mias :=
  records.foldl (fun m record => linkRecord (recordMem record) m) m

def tableOf (containers records : List (List UInt8)) (m : Mias) : Mias :=
  let collected := collect containers 0 m
  linkAll records { collected with keypairsNum := collected.keypairsNum + 1 }

theorem recordMem_eq {memory : Mem} {record : List UInt8} {k : Nat} (h : memory k = record.getD k 0)
    (hk : k < record.length) :
    memory k = recordMem record k := by
  rw [h, recordMem, Mem.write_of_mem (Nat.zero_le k) (by omega), Nat.sub_zero]

/-- The bytes that a key pair is built from. -/
theorem addPair_congr {memory memory' : Mem} (h : ∀ k, k < 0x0B → memory k = memory' k) (i : Nat) (m : Mias) :
    addPair i memory m = addPair i memory' m := by
  unfold addPair containerPair
  rw [h 4 (by decide), h 5 (by decide), h 6 (by decide), h 7 (by decide)]

theorem linkRecord_congr {memory memory' : Mem} (h : ∀ k, k < 0x15 → memory k = memory' k) (m : Mias) :
    linkRecord memory m = linkRecord memory' m := by
  obtain ⟨hkind, hnumber⟩ := isCertificateRecord_congr h
  unfold linkRecord
  rw [hkind, hnumber, h 0 (by decide), h 1 (by decide)]

/-! ### Cards that may fail -/

/-- The records of CONTAINERS_INFO and of FILE_DIR. -/
structure KeyFiles where
  containers : List (List UInt8)
  records : List (List UInt8)
  slack : List UInt8
  container_length : ∀ record ∈ containers, record.length = 0x0B
  containers_size : containers.flatten.length < 65536
  records_few : records.length ≤ 255
  record_length : ∀ record ∈ records, record.length = 0x15
  directory_size : (records.flatten ++ slack).length + 1 < 65536

namespace KeyFiles

variable {σ : Type} (files : KeyFiles)

def contents (efid : Nat) : List UInt8 :=
  if efid = containersId then files.containers.flatten
  else lowByte files.records.length :: files.records.flatten ++ files.slack

/-- A card with these files. A command fails, if commands may fail, or it is answered from the files. -/
structure HeldBy (T : Transport σ) (channel : UInt8) (current : σ → Nat) (mayFail : Prop) : Prop where
  selectsContainers : ∀ card, ∃ result card', Concludes T card (selectApdu channel containersId ++ [0x15]) result card' ∧
    (Applet.acceptedResult result = false → mayFail) ∧
    (Applet.acceptedResult result = true → current card' = containersId ∧
      ∃ template, IsTemplate template files.containers.flatten.length ∧ result = some (template ++ [0x90, 0x00]))
  selectsDirectory : ∀ card, ∃ result card', Concludes T card (selectApdu channel directoryId ++ [0x15]) result card' ∧
    (Applet.acceptedResult result = false → mayFail) ∧ (Applet.acceptedResult result = true → current card' = directoryId)
  reads : ∀ card offset (le : UInt8), current card = containersId ∨ current card = directoryId → 0 < le.toNat →
    offset + le.toNat ≤ (files.contents (current card)).length →
    ∃ result card', Concludes T card (readApdu channel offset le) result card' ∧ current card' = current card ∧
      (Applet.acceptedResult result = false → mayFail) ∧
      (Applet.acceptedResult result = true →
        result = some (((files.contents (current card)).drop offset).take le.toNat ++ [0x90, 0x00]))

end KeyFiles

/-! ### Commands of the object -/

section Commands

variable {σ : Type} {T : Transport σ} {s : Linked σ Mias} {cla channel : UInt8} {command : List UInt8}
  {transmitted : UInt8 → Exec (SEInterface σ) Bool} {result : Option (List UInt8)} {card : σ}

theorem sent_concludes (hready : Ready channel s.obj)
    (h : Yields (transmitted (cla ||| channel)) s.se result.isSome (After command result card s.se)) :
    Yields (onApplet (Applet.whenSelected cla transmitted)) s result.isSome
      fun s' => s'.obj = s.obj ∧ After command result card s.se s'.se := by
  rw [← hready.channel_eq] at h
  refine Yields.zoom (Applet.whenSelected_concludes (s := ⟨s.se, s.obj.applet⟩) hready.isSelected hready.attached h) ?_
  rintro t ⟨hobj, hafter⟩
  refine ⟨?_, hafter⟩
  show { s.obj with applet := t.obj } = s.obj
  rw [hobj]

theorem ok_concludes (hready : Ready channel s.obj)
    (h : Yields (transmitted (cla ||| channel)) s.se result.isSome (After command result card s.se)) :
    Yields (ok (Applet.whenSelected cla transmitted)) s (Applet.acceptedResult result)
      fun s' => s'.obj = s.obj ∧ After command result card s.se s'.se := by
  rw [← hready.channel_eq] at h
  refine Yields.zoom (Applet.ok_concludes (s := ⟨s.se, s.obj.applet⟩) hready.isSelected hready.attached h) ?_
  rintro t ⟨hobj, hafter⟩
  refine ⟨?_, hafter⟩
  show { s.obj with applet := t.obj } = s.obj
  rw [hobj]

theorem selectFileLe_concludes (hready : Ready channel s.obj) {efid : Nat} {le : UInt8}
    (h : Concludes T s.se.card (selectApdu channel efid ++ [le]) result card) :
    Yields (ok (selectFileLe T [highByte efid, lowByte efid] le)) s (Applet.acceptedResult result)
      fun s' => s'.obj = s.obj ∧ After (selectApdu channel efid ++ [le]) result card s.se s'.se := by
  have hsent : Yields (SEInterface.transmitCase4 T (0x00 ||| channel) .select SCP1.SELECTByPathFromMF
      (SCP2.SELECTFCPTemplate ||| SCP2.SELECTFirstOrOnly) [highByte efid, lowByte efid] le) s.se result.isSome
      (After (selectApdu channel efid ++ [le]) result card s.se) := by
    refine Yields.bind (Applet.fill_yields (by simp [apduSize])) fun t ht => ?_
    subst ht
    obtain ⟨t, hrun, hafter⟩ := command_concludes (s := { s.se with apdu := selectApdu channel efid ++ [le] }) h
    exact ⟨t, hrun, hafter.card_eq, hafter.reports, hafter.holds⟩
  unfold selectFileLe Applet.transmitCase4
  exact ok_concludes hready hsent

theorem readBinary_concludes (hready : Ready channel s.obj) {offset : Nat} {le : UInt8}
    (h : Concludes T s.se.card (readApdu channel offset le) result card) :
    Yields (onApplet (readBinary T offset le)) s result.isSome
      fun s' => s'.obj = s.obj ∧ After (readApdu channel offset le) result card s.se s'.se := by
  have hsent : Yields (SEInterface.transmitCase2 T (0x00 ||| channel) .readBinary (highByte offset)
      (lowByte offset) le) s.se
      result.isSome (After (readApdu channel offset le) result card s.se) := command_concludes h
  unfold readBinary Applet.transmitCase2
  exact sent_concludes hready hsent

theorem okReadBinary_concludes (hready : Ready channel s.obj) {offset : Nat} {le : UInt8}
    (h : Concludes T s.se.card (readApdu channel offset le) result card) :
    Yields (ok (readBinary T offset le)) s (Applet.acceptedResult result)
      fun s' => s'.obj = s.obj ∧ After (readApdu channel offset le) result card s.se s'.se := by
  have hsent : Yields (SEInterface.transmitCase2 T (0x00 ||| channel) .readBinary (highByte offset)
      (lowByte offset) le) s.se
      result.isSome (After (readApdu channel offset le) result card s.se) := command_concludes h
  unfold readBinary Applet.transmitCase2
  exact ok_concludes hready hsent

/-- Every READ BINARY ends, in whatever state the card is. -/
def ReadsEnd (T : Transport σ) (channel : UInt8) : Prop :=
  ∀ card offset le, offset < 65536 → ∃ result card', Concludes T card (readApdu channel offset le) result card'

theorem getStatusWord_evals (hready : Ready channel s.obj) {answer : List UInt8} (hholds : Holds s.se answer) :
    Evals (onApplet (gets Applet.getStatusWord)) s (statusWord answer) s := by
  refine .of_eq fun fuel => ?_
  show (Outcome.done (Applet.getStatusWord ⟨s.se, s.obj.applet⟩), s) = _
  rw [Applet.getStatusWord, if_pos hready.isSelected, hholds.getStatusWord]

end Commands

section Loops

variable {σ : Type} {T : Transport σ} {files : KeyFiles} {channel : UInt8} {current : σ → Nat} {mayFail : Prop}
  {s : Linked σ Mias}

/-- How a part of the listing went: the commands it issued, and the table that it leaves if none of them failed. -/
def Went (mayFail : Prop) (s s' : Linked σ Mias) (table : Mias) : Prop :=
  ∃ list, Reports s.se s'.se list ∧ (∀ outcome ∈ list, outcome.ok = false → mayFail) ∧
    ((∀ outcome ∈ list, outcome.ok = true) → s'.obj = table)

theorem Went.refl (s : Linked σ Mias) : Went mayFail s s s.obj :=
  ⟨[], .refl _, fun _ hmem => (List.not_mem_nil hmem).elim, fun _ => rfl⟩

/-- One command more at the front. -/
theorem Went.after {s₁ s' : Linked σ Mias} {table table' : Mias} {issued : Concluded} (hrest : Went mayFail s₁ s' table')
    (hfirst : Reports s.se s₁.se [issued]) (hmay : issued.ok = false → mayFail)
    (htable : issued.ok = true → table' = table) :
    Went mayFail s s' table := by
  obtain ⟨list, hreports, hfails, hall⟩ := hrest
  refine ⟨list ++ [issued], hfirst.trans hreports, ?_, ?_⟩
  · intro outcome hmem
    rcases List.mem_append.mp hmem with hmem | hmem
    · exact hfails outcome hmem
    · rw [List.mem_singleton.mp hmem]
      exact hmay
  · intro hok
    rw [hall fun outcome hmem => hok outcome (List.mem_append_left _ hmem)]
    exact htable (hok _ (List.mem_append_right _ (List.mem_singleton_self _)))

/-- A read of a field. -/
theorem KeyFiles.HeldBy.read (h : files.HeldBy T channel current mayFail) {card : σ} {efid : Nat}
    (hcurrent : current card = efid) (hefid : efid = containersId ∨ efid = directoryId) {front field back : List UInt8}
    (hcontent : files.contents efid = front ++ field ++ back) {offset : Nat} (hoffset : offset = front.length) {le : UInt8}
    (hle : le.toNat = field.length) (hpos : 0 < field.length) :
    ∃ result card', Concludes T card (readApdu channel offset le) result card' ∧ current card' = efid ∧
      (Applet.acceptedResult result = false → mayFail) ∧
      (Applet.acceptedResult result = true → result = some (field ++ [0x90, 0x00])) := by
  subst hcurrent
  have hrange : offset + le.toNat ≤ (files.contents (current card)).length := by
    rw [hcontent, List.length_append, List.length_append]
    omega
  have hfield : ((files.contents (current card)).drop offset).take le.toNat = field := by
    rw [hcontent, hoffset, hle, List.append_assoc, List.drop_left, List.take_left]
  have hread := h.reads card offset le hefid (by omega) hrange
  rwa [hfield] at hread

/-- The table behind one more record, if the command that read it did not fail. -/
def Goes (mayFail : Prop) (s s' : Linked σ Mias) (i : Nat) (record : List UInt8) : Prop :=
  ∀ left s'', Went mayFail s' s'' (collect left ((i + 1) % 256) s'.obj) →
    Went mayFail s s'' (collect (record :: left) i s.obj)

/-- What a turn at a record leaves: the loop goes on behind the record, or the table is complete. -/
def Turned (current : σ → Nat) (mayFail : Prop) (s : Linked σ Mias) (i offset : Nat) (record : List UInt8)
    (turn : Turn (Nat × Nat) Unit) (s' : Linked σ Mias) : Prop :=
  match turn with
  | .again x => x = ((i + 1) % 256, (offset + 0x0B) % 65536) ∧ current s'.se.card = containersId ∧
    Goes mayFail s s' i record
  | .stop _ => ∀ left, Went mayFail s s' (collect (record :: left) i s.obj)

section Turns

variable {i offset size : Nat} {record : List UInt8} {s₁ : Linked σ Mias} {command : List UInt8} {card : σ}

/-- A transmission that fails goes on with the next record. -/
theorem containerTurn_unanswered (hmore : offset < size) (hrun : Evals (onApplet (readBinary T offset 0x0B)) s false s₁)
    (hready : Ready channel s₁.obj) (hcurrent : current s₁.se.card = containersId)
    (hafter : After command none card s.se s₁.se) (hmay : mayFail) :
    Attains (containerTurn T size (i, offset)) s fun turn s' => Ready channel s'.obj ∧
      Turned current mayFail s i offset record turn s' := by
  have hturn : Evals (containerTurn T size (i, offset)) s (.again ((i + 1) % 256, (offset + 0x0B) % 65536)) s₁ := by
    unfold containerTurn
    rw [if_pos hmore]
    exact hrun.bind (.of_eq fun _ => rfl)
  refine ⟨_, s₁, hturn, hready, rfl, hcurrent, fun left s'' hwent => ?_⟩
  exact hwent.after hafter.reports (fun _ => hmay) fun hfalse => by cases hfalse

/-- A status other than `9000` ends the loop. -/
theorem containerTurn_refused (hmore : offset < size) {answer : List UInt8}
    (hrun : Evals (onApplet (readBinary T offset 0x0B)) s true s₁) (hready : Ready channel s₁.obj)
    (hafter : After command (some answer) card s.se s₁.se) (hstatus : statusWord answer ≠ swOK) (hmay : mayFail) :
    Attains (containerTurn T size (i, offset)) s fun turn s' => Ready channel s'.obj ∧
      Turned current mayFail s i offset record turn s' := by
  have hfailed : Applet.acceptedResult (some answer) = false := decide_eq_false hstatus
  have hword := getStatusWord_evals hready (hafter.holds answer rfl)
  refine ⟨.stop (), s₁, ?_, hready, fun left => (Went.refl s₁).after hafter.reports (fun _ => hmay) fun htrue => ?_⟩
  · unfold containerTurn
    rw [if_pos hmore]
    apply hrun.bind
    rw [if_pos rfl]
    apply hword.bind
    rw [if_neg hstatus]
    exact .pure
  · exact Bool.noConfusion (hfailed.symm.trans htrue)

/-- A record that was read is added to the table, unless it is empty or the table is full. -/
theorem containerTurn_stored (hmore : offset < size) (hrun : Evals (onApplet (readBinary T offset 0x0B)) s true s₁)
    (hobj : s₁.obj = s.obj) (hready : Ready channel s₁.obj) (hcurrent : current s₁.se.card = containersId)
    (hafter : After command (some (record ++ [0x90, 0x00])) card s.se s₁.se) (hlength : record.length = 0x0B)
    (hmay : Applet.acceptedResult (some (record ++ [0x90, 0x00])) = false → mayFail) :
    Attains (containerTurn T size (i, offset)) s fun turn s' => Ready channel s'.obj ∧
      Turned current mayFail s i offset record turn s' := by
  have hholds := hafter.holds _ rfl
  have hmemory : ∀ k, k < 0x0B → s₁.se.response k = record.getD k 0 := fun k hk => hholds.data_eq (by omega)
  have hword := getStatusWord_evals hready hholds
  rw [statusWord_ok] at hword
  suffices Attains (recordTurn (i, offset) s₁.se.response) s₁ fun turn s' => Ready channel s'.obj ∧
      Turned current mayFail s i offset record turn s' by
    obtain ⟨turn, hyields⟩ := this
    exact ⟨turn, containerTurn_accepted (x := (i, offset)) hmore hrun hword hyields⟩
  unfold recordTurn
  rw [hmemory 0 (by decide)]
  by_cases hvalid : record.getD 0 0 ≠ 0
  · rw [if_pos hvalid]
    apply Attains.gets_bind
    by_cases hfull : (keyPoolSize : Int) - 1 ≤ s₁.obj.keypairsNum
    · rw [if_pos hfull]
      refine .pure ⟨hready, fun left => (Went.refl s₁).after hafter.reports hmay fun _ => ?_⟩
      rw [collect, if_pos hvalid, ← hobj, if_pos hfull]
    · rw [if_neg hfull]
      apply Attains.modify_bind
      refine .pure ⟨hready.congr rfl, rfl, hcurrent, fun left s'' hwent => ?_⟩
      have hrest : Went mayFail ⟨s₁.se, addPair i s₁.se.response s₁.obj⟩ s''
          (collect left ((i + 1) % 256) (addPair i s₁.se.response s₁.obj)) := hwent
      refine hrest.after hafter.reports hmay fun _ => ?_
      rw [collect, if_pos hvalid, ← hobj, if_neg hfull, ← addPair_congr fun k hk =>
        recordMem_eq (hmemory k hk) (by omega)]
  · rw [if_neg hvalid]
    refine .pure ⟨hready, rfl, hcurrent, fun left s'' hwent => hwent.after hafter.reports hmay fun _ => ?_⟩
    rw [collect, if_neg hvalid, hobj]

/-- One turn of the CONTAINERS_INFO loop, whatever becomes of its command. -/
theorem containerTurn_turned (h : files.HeldBy T channel current mayFail) (hready : Ready channel s.obj)
    (hcurrent : current s.se.card = containersId) {front back : List UInt8}
    (hcontent : files.contents containersId = front ++ record ++ back) (hoffset : offset = front.length)
    (hlength : record.length = 0x0B) (hmore : offset < size) :
    Attains (containerTurn T size (i, offset)) s fun turn s' => Ready channel s'.obj ∧
      Turned current mayFail s i offset record turn s' := by
  have hle : (0x0B : UInt8).toNat = record.length := by
    rw [hlength]
    rfl
  obtain ⟨result, card, hconcludes, hcard, hmay, hdata⟩ := h.read hcurrent (.inl rfl) hcontent hoffset hle (by omega)
  obtain ⟨s₁, hrun, hobj, hafter⟩ := readBinary_concludes hready hconcludes
  have hready₁ : Ready channel s₁.obj := hobj ▸ hready
  have hcurrent₁ : current s₁.se.card = containersId := by rw [hafter.card_eq, hcard]
  cases result with
  | none => exact containerTurn_unanswered hmore hrun hready₁ hcurrent₁ hafter (hmay rfl)
  | some answer =>
      by_cases hstatus : statusWord answer = swOK
      · obtain rfl : answer = record ++ [0x90, 0x00] := Option.some.inj (hdata (decide_eq_true hstatus))
        exact containerTurn_stored hmore hrun hobj hready₁ hcurrent₁ hafter hlength hmay
      · exact containerTurn_refused hmore hrun hready₁ hafter hstatus (hmay (decide_eq_false hstatus))

end Turns

/-- The CONTAINERS_INFO loop over the records that are left. -/
theorem containerTurn_went (h : files.HeldBy T channel current mayFail) {done left : List (List UInt8)}
    (hsplit : files.containers = done ++ left) (hready : Ready channel s.obj)
    (hcurrent : current s.se.card = containersId) :
    Cycles (containerTurn T files.containers.flatten.length) (done.length % 256, done.length * 0x0B) s ()
      fun s' => Ready channel s'.obj ∧ Went mayFail s s' (collect left (done.length % 256) s.obj) := by
  have hsize : files.containers.flatten.length = files.containers.length * 0x0B := flatten_length files.container_length
  have hfit := files.containers_size
  induction left generalizing done s with
  | nil =>
      rw [List.append_nil] at hsplit
      apply Cycles.stop
      unfold containerTurn
      rw [if_neg (by rw [hsize, hsplit]; simp)]
      exact .pure ⟨hready, .refl s⟩
  | cons next left ih =>
      have hlength : files.containers.length = done.length + (left.length + 1) := by
        rw [hsplit, List.length_append, List.length_cons]
      have hnext : next.length = 0x0B := files.container_length next (by rw [hsplit]; simp)
      have hdone : ∀ r ∈ done, r.length = 0x0B := fun r hmem =>
        files.container_length r (by rw [hsplit]; exact List.mem_append_left _ hmem)
      have hcontent : files.contents containersId = done.flatten ++ next ++ left.flatten := by
        rw [KeyFiles.contents, if_pos rfl, hsplit]
        simp
      have hmore : done.length * 0x0B < files.containers.flatten.length := by omega
      obtain ⟨turn, hyields⟩ := containerTurn_turned (i := done.length % 256) h hready hcurrent hcontent
        (flatten_length hdone).symm hnext hmore
      cases turn with
      | stop value => exact .stop (hyields.mono fun _ hturned => ⟨hturned.1, hturned.2 left⟩)
      | again x =>
          refine .again hyields ?_
          rintro s' ⟨hready', rfl, hcurrent', hgoes⟩
          have hlist : files.containers = (done ++ [next]) ++ left := by
            rw [hsplit]
            simp
          have hnumber : (done.length % 256 + 1) % 256 = (done ++ [next]).length % 256 := by
            rw [List.length_append, List.length_singleton]
            omega
          have hoffset : (done.length * 0x0B + 0x0B) % 65536 = (done ++ [next]).length * 0x0B := by
            rw [List.length_append, List.length_singleton]
            omega
          obtain ⟨s'', hrest, hready'', hwent⟩ := ih hlist hready' hcurrent'
          rw [← hnumber] at hrest hwent
          rw [← hoffset] at hrest
          exact ⟨s'', hrest, hready'', hgoes left s'' hwent⟩

theorem directory_contents (files : KeyFiles) :
    files.contents directoryId = lowByte files.records.length :: files.records.flatten ++ files.slack :=
  if_neg (by decide)

/-- The FILE_DIR loop over the records that are left. -/
theorem linkLoop_went (h : files.HeldBy T channel current mayFail) {done left : List (List UInt8)}
    (hsplit : files.records = done ++ left) (hready : Ready channel s.obj) (hcurrent : current s.se.card = directoryId) :
    Yields (linkLoop T left.length (1 + done.length * 0x15)) s () fun s' => Went mayFail s s' (linkAll left s.obj) := by
  induction left generalizing done s with
  | nil => exact .pure (.refl s)
  | cons next left ih =>
      have hfew := files.records_few
      rw [hsplit, List.length_append, List.length_cons] at hfew
      obtain ⟨hnext, front, behind, hcontent, hoffset⟩ := directory_record files.slack files.record_length hsplit
      rw [← directory_contents] at hcontent
      have hle : (0x15 : UInt8).toNat = next.length := by
        rw [hnext]
        rfl
      obtain ⟨result, card, hconcludes, hcard, hmay, hdata⟩ :=
        h.read hcurrent (.inr rfl) hcontent hoffset hle (by omega)
      have hgoes : ∀ s' : Linked σ Mias, Ready channel s'.obj → current s'.se.card = directoryId →
          Yields (linkLoop T left.length ((1 + done.length * 0x15 + 0x15) % 65536)) s' ()
            fun s'' => Went mayFail s' s'' (linkAll left s'.obj) := by
        intro s' hready' hcurrent'
        have hlist : files.records = (done ++ [next]) ++ left := by
          rw [hsplit]
          simp
        have hstep : (1 + done.length * 0x15 + 0x15) % 65536 = 1 + (done ++ [next]).length * 0x15 := by
          rw [List.length_append, List.length_singleton]
          omega
        rw [hstep]
        exact ih hlist hready' hcurrent'
      refine (okReadBinary_concludes hready hconcludes).bind ?_
      rintro s₁ ⟨hobj, hafter⟩
      have hready₁ : Ready channel s₁.obj := hobj ▸ hready
      have hcurrent₁ : current s₁.se.card = directoryId := by rw [hafter.card_eq, hcard]
      by_cases hok : Applet.acceptedResult result = true
      · have hholds := hafter.holds _ (hdata hok)
        have hmemory : ∀ k, k < 0x15 → s₁.se.response k = next.getD k 0 := fun k hk => hholds.data_eq (by omega)
        have hready₂ : Ready channel (linkRecord s₁.se.response s₁.obj) := hready₁.congr (linkRecord_applet _ _)
        obtain ⟨s', hrest, hwent⟩ := hgoes ⟨s₁.se, linkRecord s₁.se.response s₁.obj⟩ hready₂ hcurrent₁
        rw [if_pos hok]
        refine .gets_bind (.modify_bind ⟨s', hrest, hwent.after hafter.reports hmay fun _ => ?_⟩)
        rw [linkRecord_congr fun k hk => recordMem_eq (hmemory k hk) (by omega), hobj]
        rfl
      · obtain ⟨s', hrest, hwent⟩ := hgoes s₁ hready₁ hcurrent₁
        rw [if_neg hok]
        exact ⟨s', hrest, hwent.after hafter.reports hmay fun htrue => absurd htrue hok⟩

theorem linkCertificates_went (h : files.HeldBy T channel current mayFail) (hready : Ready channel s.obj) :
    Yields (linkCertificates T) s () fun s' => Went mayFail s s' (linkAll files.records s.obj) := by
  obtain ⟨result, card, hconcludes, hmay, hcurrent⟩ := h.selectsDirectory s.se.card
  refine (selectFileLe_concludes hready hconcludes).bind ?_
  rintro s₁ ⟨hobj, hafter⟩
  by_cases hok : Applet.acceptedResult result = true
  · have hready₁ : Ready channel s₁.obj := hobj ▸ hready
    have hcurrent₁ : current s₁.se.card = directoryId := by rw [hafter.card_eq, hcurrent hok]
    have hcontent : files.contents directoryId =
        [] ++ [lowByte files.records.length] ++ (files.records.flatten ++ files.slack) := by
      rw [directory_contents]
      simp
    have hoffset : 0x0000 = ([] : List UInt8).length := rfl
    have hle : (0x01 : UInt8).toNat = [lowByte files.records.length].length := rfl
    obtain ⟨result₂, card₂, hconcludes₂, hcard₂, hmay₂, hdata₂⟩ :=
      h.read hcurrent₁ (.inr rfl) hcontent hoffset hle Nat.one_pos
    rw [if_pos hok]
    refine (okReadBinary_concludes hready₁ hconcludes₂).bind ?_
    rintro s₂ ⟨hobj₂, hafter₂⟩
    by_cases hok₂ : Applet.acceptedResult result₂ = true
    · have hfew := files.records_few
      have hholds := hafter₂.holds _ (hdata₂ hok₂)
      have hcount : (s₂.se.response 0).toNat = files.records.length := by
        rw [hholds.2 0 (by simp)]
        exact toNat_lowByte (by omega)
      rw [if_pos hok₂]
      refine .gets_bind ?_
      rw [hcount]
      have hsplit : files.records = [] ++ files.records := rfl
      obtain ⟨s', hrest, hwent⟩ := linkLoop_went (s := s₂) h hsplit (hobj₂ ▸ hready₁) (by rw [hafter₂.card_eq, hcard₂])
      have hwent₂ : Went mayFail s₁ s' (linkAll files.records s₁.obj) :=
        hwent.after hafter₂.reports hmay₂ fun _ => by rw [hobj₂]
      exact ⟨s', hrest, hwent₂.after hafter.reports hmay fun _ => by rw [hobj]⟩
    · rw [if_neg hok₂]
      have hwent₂ : Went mayFail s₁ s₂ (linkAll files.records s.obj) :=
        (Went.refl s₂).after hafter₂.reports hmay₂ fun htrue => absurd htrue hok₂
      exact .pure (hwent₂.after hafter.reports hmay fun _ => rfl)
  · rw [if_neg hok]
    exact .pure ((Went.refl s₁).after hafter.reports hmay fun htrue => absurd htrue hok)

/-- How a listing ended: the SELECT of CONTAINERS_INFO failed and the object is as it was, or it did not fail and the
listing went on. -/
inductive Listing (mayFail : Prop) (s s' : Linked σ Mias) (table : Mias) : Bool → Prop
  | refused (issued : Concluded) (hreports : Reports s.se s'.se [issued]) (hmay : mayFail) (hobj : s'.obj = s.obj) :
      Listing mayFail s s' table false
  | listed {s₁ : Linked σ Mias} (issued : Concluded) (hok : issued.ok = true) (hreports : Reports s.se s₁.se [issued])
      (hwent : Went mayFail s₁ s' table) : Listing mayFail s s' table true

theorem listKeyPairs_listing (h : files.HeldBy T channel current mayFail) (hready : Ready channel s.obj)
    (hnum : s.obj.keypairsNum = -1) :
    Attains (listKeyPairs T) s fun result s' =>
      Listing mayFail s s' (tableOf files.containers files.records s.obj) result := by
  apply Attains.gets_bind
  rw [if_neg (by rw [hnum]; simp)]
  obtain ⟨result, card, hconcludes, hmay, hselected⟩ := h.selectsContainers s.se.card
  refine (selectFileLe_concludes hready hconcludes).bind_attains ?_
  rintro s₁ ⟨hobj, hafter⟩
  by_cases hok : Applet.acceptedResult result = true
  · obtain ⟨hcurrent, template, htemplate, rfl⟩ := hselected hok
    have hholds := hafter.holds _ rfl
    have hready₁ : Ready channel s₁.obj := hobj ▸ hready
    rw [if_pos hok]
    have hlength : Yields (onApplet (gets Applet.getResponseLength)) s₁ template.length (· = s₁) := by
      refine ⟨s₁, .of_eq fun fuel => ?_, rfl⟩
      show (Outcome.done (Applet.getResponseLength ⟨s₁.se, s₁.obj.applet⟩), s₁) = _
      rw [Applet.getResponseLength, Applet.getResponse, if_pos hready₁.isSelected, hholds.getResponse,
        responseData_append]
    apply hlength.bind_attains
    intro s₂ hs₂
    subst hs₂
    apply Attains.gets_bind
    have htag : s₂.se.response 0 = SCTag.FileControlInfoFCP := by
      obtain ⟨tlvs, rfl, _⟩ := htemplate
      rw [hholds.2 0 (by simp)]
      rfl
    rw [if_pos ⟨htemplate.two_lt_length, htag⟩]
    have hfcp : Yields (onSE (fcpFileSize 0)) s₂ files.containers.flatten.length (· = s₂) := by
      refine Yields.zoom (fcpFileSize_yields htemplate files.containers_size hholds 0) ?_
      rintro se rfl
      rfl
    apply hfcp.bind_attains
    intro s₃ hs₃
    subst hs₃
    have hsplit : files.containers = [] ++ files.containers := rfl
    apply (containerTurn_went h hsplit hready₁ (by rw [hafter.card_eq, hcurrent])).loop.bind_attains
    rintro s₄ ⟨hready₄, hwent₄⟩
    apply Attains.modify_bind
    refine (linkCertificates_went (s := ⟨s₄.se, { s₄.obj with keypairsNum := s₄.obj.keypairsNum + 1 }⟩) h
      (hready₄.congr rfl)).bind_attains ?_
    intro s' hwent'
    refine .pure (.listed ⟨selectApdu channel containersId ++ [0x15], _⟩ hok hafter.reports ?_)
    -- the two loops one after the other
    obtain ⟨list, hreports₄, hfails₄, hall₄⟩ := hwent₄
    obtain ⟨list', hreports', hfails', hall'⟩ := hwent'
    refine ⟨list' ++ list, hreports₄.trans hreports', ?_, ?_⟩
    · intro outcome hmem
      rcases List.mem_append.mp hmem with hmem | hmem
      · exact hfails' outcome hmem
      · exact hfails₄ outcome hmem
    · intro hall
      rw [hall' fun outcome hmem => hall outcome (List.mem_append_left _ hmem),
        hall₄ fun outcome hmem => hall outcome (List.mem_append_right _ hmem), hobj]
      rfl
  · have hfalse : Applet.acceptedResult result = false := by simpa using hok
    rw [if_neg hok]
    exact .pure (.refused _ hafter.reports (hmay hfalse) hobj)

/-! ### A card that never fails -/

/-- Where no command fails the listing gives the table of the files. -/
theorem listKeyPairs_tables (h : files.HeldBy T channel current False) (hready : Ready channel s.obj)
    (hnum : s.obj.keypairsNum = -1) :
    Yields (listKeyPairs T) s true fun s' => s'.obj = tableOf files.containers files.records s.obj := by
  obtain ⟨result, s', hrun, hlisting⟩ := listKeyPairs_listing h hready hnum
  cases hlisting with
  | refused _ _ hmay => exact hmay.elim
  | listed _ _ _ hwent =>
      obtain ⟨list, _, hfails, htable⟩ := hwent
      refine ⟨s', hrun, htable fun outcome hmem => ?_⟩
      cases hok : outcome.ok with
      | true => rfl
      | false => exact (hfails outcome hmem hok).elim

theorem getKeyPairByContainerId_tables (h : files.HeldBy T channel current False) (hready : Ready channel s.obj)
    (hnum : s.obj.keypairsNum = -1) (c : UInt8) :
    ∃ s', s'.obj = tableOf files.containers files.records s.obj ∧
      Evals (getKeyPairByContainerId T c) s (s'.obj.findContainer c.toNat) s' := by
  obtain ⟨s', hrun, hobj⟩ := listKeyPairs_tables h hready hnum
  exact ⟨s', hobj, hrun.bind .gets⟩

/-- The FCP template of a file. -/
def KeyFiles.templates (files : KeyFiles) (efid : Nat) : List UInt8 :=
  [0x62, 0x04, 0x81, 0x02, highByte (files.contents efid).length, lowByte (files.contents efid).length]

theorem KeyFiles.isTemplate (files : KeyFiles) (efid : Nat) :
    IsTemplate (files.templates efid) (files.contents efid).length :=
  ⟨[(0x81, [highByte (files.contents efid).length, lowByte (files.contents efid).length])], rfl,
    Nat.le_of_ble_eq_true rfl, rfl⟩

theorem KeyFiles.contents_length (files : KeyFiles) (efid : Nat) : (files.contents efid).length < 65536 := by
  have hcontainers := files.containers_size
  have hdirectory := files.directory_size
  unfold KeyFiles.contents
  split
  · exact hcontainers
  · simpa using hdirectory

theorem fileCard_heldBy (files : KeyFiles) (channel : UInt8) :
    files.HeldBy (fileCard files.contents files.templates) channel id mayFail where
  selectsContainers card := by
    have hselect : Settles (fileCard files.contents files.templates) card (selectApdu channel containersId ++ [0x15])
        (files.templates containersId ++ [0x90, 0x00]) containersId :=
      fileCard_selects channel card (by decide) (Nat.le_of_ble_eq_true rfl) [0x15]
    have haccepted := acceptedResult_append (files.templates containersId)
    refine ⟨some (files.templates containersId ++ [0x90, 0x00]), containersId, hselect, fun hfalse => ?_, fun _ => ?_⟩
    · rw [haccepted] at hfalse
      cases hfalse
    · exact ⟨rfl, _, files.isTemplate containersId, rfl⟩
  selectsDirectory card := by
    have hselect : Settles (fileCard files.contents files.templates) card (selectApdu channel directoryId ++ [0x15])
        (files.templates directoryId ++ [0x90, 0x00]) directoryId :=
      fileCard_selects channel card (by decide) (Nat.le_of_ble_eq_true rfl) [0x15]
    have haccepted := acceptedResult_append (files.templates directoryId)
    refine ⟨some (files.templates directoryId ++ [0x90, 0x00]), directoryId, hselect, fun hfalse => ?_, fun _ => rfl⟩
    rw [haccepted] at hfalse
    cases hfalse
  reads card offset le _ _ hrange := by
    have hsize := files.contents_length card
    have hread : Settles (fileCard files.contents files.templates) card (readApdu channel offset le)
        (((files.contents card).drop offset).take le.toNat ++ [0x90, 0x00]) card :=
      fileCard_reads channel card (by simp only [id] at hrange; omega) le
    have haccepted := acceptedResult_append (((files.contents card).drop offset).take le.toNat)
    refine ⟨some (((files.contents card).drop offset).take le.toNat ++ [0x90, 0x00]), card, hread, rfl,
      fun hfalse => ?_,
      fun _ => rfl⟩
    rw [haccepted] at hfalse
    cases hfalse

/-! A directory without an entry. -/

theorem noRecords_few : ([] : List (List UInt8)).length ≤ 255 := by decide

theorem noRecord_length : ∀ record ∈ ([] : List (List UInt8)), record.length = 0x15 := by decide

theorem noDirectory_size : (([] : List (List UInt8)).flatten ++ []).length + 1 < 65536 := by decide

/-- One record, and no directory entry. -/
def oneContainer : KeyFiles where
  containers := [[0x01, 0x00, 0x00, 0x00, 0x04, 0x00, 0x00, 0x00, 0x00, 0x00, 0x00]]
  records := []
  slack := []
  container_length := by decide
  containers_size := by decide
  records_few := noRecords_few
  record_length := noRecord_length
  directory_size := noDirectory_size

/-- A directory entry under "mscp", with its file id. -/
def mscpRecord (efid : List UInt8) (name : List UInt8) : List UInt8 :=
  efid ++ [0x00, 0x00] ++ name ++ [0x00, 0x00, 0x00] ++ cstr "mscp" ++ [0x00, 0x00, 0x00, 0x00, 0x00]

/-- Two RSA records. The first container has a "kxc" and a "ksc" entry of one file, the second a "kxc" entry. -/
def twoContainers : KeyFiles where
  containers := [[0x01, 0x00, 0x00, 0x00, 0x04, 0x00, 0x00, 0x00, 0x00, 0x00, 0x00],
    [0x01, 0x00, 0x00, 0x00, 0x00, 0x00, 0x08, 0x00, 0x00, 0x00, 0x00]]
  records := [mscpRecord [0x01, 0x10] (cstr "kxc00"), mscpRecord [0x01, 0x12] (cstr "kxc01"),
    mscpRecord [0x01, 0x10] (cstr "ksc00")]
  slack := []
  container_length := by decide
  containers_size := by decide
  records_few := by decide
  record_length := by decide +kernel
  directory_size := by decide +kernel

end Loops

end TrustOnboard.Mias
