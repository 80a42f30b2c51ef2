import TrustOnboard.ExecRecords
import TrustOnboard.AppletFollowUps
import TrustOnboard.MiasCrypto
import TrustOnboard.MiasReading

/-! Hashing on the card. `hashUpdate` cuts its data into blocks and passes each of them to the applet as one PSO HASH;
over any number of calls the card is to see the bytes of the caller, in their order and nothing else. -/

namespace TrustOnboard.Mias

open Exec Linked SEInterface

variable {σ : Type} {T : Transport σ}

/-! ### Calls with a record -/

/-- A command passed to `Applet::transmit`, and whether it was answered `9000` if the call ended. -/
abbrev Passed := Request × Option Bool

/-- PSO HASH of a block. -/
def hashRequest (block : List UInt8) : Request :=
  ⟨0x00, SCIns.performSecurityOperation.code, SCP1.PSOHashCode, SCP2.PSOPlain, .case3 block⟩

section Recorded

variable (T : Transport σ)

/-- Pass a command to `Applet::transmit`. -/
def pass (request : Request) : Exec (Linked σ Mias × List Passed) Bool :=
  recorded request (ok (Applet.transmitRequest T request))

/-- `hashTurn` with a record of the commands passed. -/
def hashTurnRecorded (size : Nat) (data : Mem) (dataLen : Nat) :
    Nat → Exec (Linked σ Mias × List Passed) (Turn Nat Bool) := fun i => do
  if i < dataLen then
    let l := if size < dataLen - i then size else dataLen - i
    if ← pass T (hashRequest (data.slice i l)) then
      return .again (i + l)
    else
      return .stop false
  else
    return .stop true

def psoHashInternallyRecorded (algorithm : UInt8) (data : Mem) (dataLen : Nat) :
    Exec (Linked σ Mias × List Passed) Bool :=
  match blockSize algorithm with
  | none => pure false
  | some size => loop (hashTurnRecorded T size data dataLen) 0

def hashUpdateRecorded (data : Mem) (dataLen : Nat) : Exec (Linked σ Mias × List Passed) Bool := do
  let algorithm ← beside (gets fun s => s.obj.hashAlgo)
  psoHashInternallyRecorded T algorithm data dataLen

/-- Calls of `hashUpdate` one after the other, up to the first that returns false. -/
def hashUpdates : List (Mem × Nat) → Exec (Linked σ Mias) Bool
  | [] => pure true
  | call :: calls => do
      if ← hashUpdate T call.1 call.2 then
        hashUpdates calls
      else
        return false

/-- The same with a record for each call. -/
def hashUpdatesRecorded : List (Mem × Nat) → Exec (Linked σ Mias × List (List Passed)) Bool
  | [] => pure true
  | call :: calls => do
      if ← grouped (hashUpdateRecorded T call.1 call.2) then
        hashUpdatesRecorded calls
      else
        return false

end Recorded

theorem hashUpdate_records (T : Transport σ) (data : Mem) (dataLen : Nat) :
    Records (hashUpdateRecorded T data dataLen) (hashUpdate T data dataLen) := by
  refine .bind (.beside _) fun algorithm => ?_
  unfold psoHashInternallyRecorded psoHashInternally
  cases blockSize algorithm with
  | none => exact .pure _
  | some size =>
      refine .loop (fun i => .ite ?_ (.pure _)) 0
      exact .bind (.recorded _ _) fun ok => .ite (.pure _) (.pure _)

theorem hashUpdates_records (T : Transport σ) (calls : List (Mem × Nat)) :
    Records (hashUpdatesRecorded T calls) (hashUpdates T calls) := by
  induction calls with
  | nil => exact .pure _
  | cons call calls ih => exact .bind (.grouped (hashUpdate_records T call.1 call.2)) fun ok => .ite ih (.pure _)

/-! ### Blocks -/

/-- The data fields of commands, one behind the other. -/
def dataOf (group : List Passed) : List UInt8 := (group.map fun passed => passed.1.data).flatten

@[simp] theorem dataOf_append (group later : List Passed) : dataOf (group ++ later) = dataOf group ++ dataOf later := by
  simp [dataOf]

@[simp] theorem dataOf_hashRequest (block : List UInt8) (result : Option Bool) :
    dataOf [(hashRequest block, result)] = block := List.append_nil block

/-- A PSO HASH of at least one byte and at most a block. -/
def IsBlock (size : Nat) (request : Request) : Prop :=
  ∃ block, request = hashRequest block ∧ block ≠ [] ∧ block.length ≤ size

theorem blockSize_pos {algorithm : UInt8} {size : Nat} (h : blockSize algorithm = some size) : 0 < size := by
  unfold blockSize at h
  split_ifs at h <;> cases h <;> decide

/-- The commands of one call with this data. `ended` is what it returned, if it did. -/
structure OfCall (size : Nat) (data : List UInt8) (ended : Option Bool) (group : List Passed) : Prop where
  part : dataOf group <+: data
  whole : ended = some true → dataOf group = data ∧ ∀ passed ∈ group, passed.2 = some true
  failed : ended = some false → ∃ request, group.getLast? = some (request, some false)
  accepted : ∀ passed ∈ group.dropLast, passed.2 = some true
  blocks : ∀ passed ∈ group, IsBlock size passed.1
  full : ∀ passed ∈ group.dropLast, passed.1.data.length = size

/-- The commands up to position `i` of the data, all of them accepted. Only the one that reaches the end of the data
may be short. -/
structure Hashing (size : Nat) (data : Mem) (dataLen i : Nat) (group : List Passed) : Prop where
  pos : i ≤ dataLen
  sent : dataOf group = data.slice 0 i
  accepted : ∀ passed ∈ group, passed.2 = some true
  blocks : ∀ passed ∈ group, IsBlock size passed.1
  full : ∀ passed ∈ group.dropLast, passed.1.data.length = size
  more : i < dataLen → ∀ passed ∈ group, passed.1.data.length = size

section Blocks

variable {size dataLen i l : Nat} {data : Mem} {group : List Passed}

theorem Hashing.start : Hashing size data dataLen 0 [] where
  pos := Nat.zero_le dataLen
  sent := rfl
  accepted := by simp
  blocks := by simp
  full := by simp
  more := by simp

theorem slice_prefix (data : Mem) {i dataLen : Nat} (h : i ≤ dataLen) : data.slice 0 i <+: data.slice 0 dataLen :=
  ⟨data.slice i (dataLen - i), (data.slice_split h).symm⟩

/-- The loop stops behind the last block. -/
theorem Hashing.stop (h : Hashing size data dataLen i group) (hend : ¬i < dataLen) :
    OfCall size (data.slice 0 dataLen) (some true) group := by
  obtain rfl : i = dataLen := by
    have := h.pos
    omega
  exact {
    part := h.sent ▸ List.prefix_rfl
    whole := fun _ => ⟨h.sent, h.accepted⟩
    failed := nofun
    accepted := fun passed hmem => h.accepted passed (List.dropLast_subset group hmem)
    blocks := h.blocks
    full := h.full }

/-- A call may be cut between two commands. -/
theorem Hashing.cut (h : Hashing size data dataLen i group) : OfCall size (data.slice 0 dataLen) none group where
  part := h.sent ▸ slice_prefix data h.pos
  whole := nofun
  failed := nofun
  accepted := fun passed hmem => h.accepted passed (List.dropLast_subset group hmem)
  blocks := h.blocks
  full := h.full

variable (hsize : 0 < size) (h : Hashing size data dataLen i group) (hmore : i < dataLen)
  (hl : l = if size < dataLen - i then size else dataLen - i)
include hsize h hmore hl

/-- With the next block the data is sent up to its end. -/
theorem Hashing.sent_next (result : Option Bool) :
    i + l ≤ dataLen ∧ dataOf (group ++ [(hashRequest (data.slice i l), result)]) = data.slice 0 (i + l) ∧
      ∀ passed ∈ group ++ [(hashRequest (data.slice i l), result)], IsBlock size passed.1 := by
  have hrange : 0 < l ∧ l ≤ size ∧ i + l ≤ dataLen := by
    split_ifs at hl <;> omega
  refine ⟨hrange.2.2, ?_, ?_⟩
  · rw [dataOf_append, h.sent, dataOf_hashRequest, data.slice_add 0 i l, Nat.zero_add]
  · intro passed hmem
    rcases List.mem_append.mp hmem with hearlier | hlast
    · exact h.blocks passed hearlier
    · rw [List.mem_singleton.mp hlast]
      refine ⟨_, rfl, ?_, ?_⟩
      · rw [← List.length_pos_iff, Mem.slice_length]
        exact hrange.1
      · rw [Mem.slice_length]
        exact hrange.2.1

/-- A block that was accepted. -/
theorem Hashing.next :
    Hashing size data dataLen (i + l) (group ++ [(hashRequest (data.slice i l), some true)]) := by
  obtain ⟨hpos, hsent, hblocks⟩ := h.sent_next hsize hmore hl (some true)
  refine ⟨hpos, hsent, ?_, hblocks, ?_, fun hrest => ?_⟩
  · simp only [List.forall_mem_append, List.forall_mem_singleton, and_true]
    exact h.accepted
  · rw [List.dropLast_concat]
    exact h.more hmore
  · -- more data is left, so this block was full
    have hfull : l = size := by
      split_ifs at hl <;> omega
    simp only [List.forall_mem_append, List.forall_mem_singleton]
    exact ⟨h.more hmore, by rw [hashRequest, Request.data, Mem.slice_length, hfull]⟩

/-- A block that was not accepted ends the call. -/
theorem Hashing.last {result : Option Bool} (hresult : result ≠ some true) :
    OfCall size (data.slice 0 dataLen) result (group ++ [(hashRequest (data.slice i l), result)]) := by
  obtain ⟨hpos, hsent, hblocks⟩ := h.sent_next hsize hmore hl result
  exact {
    part := hsent ▸ slice_prefix data hpos
    whole := fun htrue => absurd htrue hresult
    failed := fun hfalse => ⟨hashRequest (data.slice i l), by rw [List.getLast?_concat, hfalse]⟩
    accepted := by
      rw [List.dropLast_concat]
      exact h.accepted
    blocks := hblocks
    full := by
      rw [List.dropLast_concat]
      exact h.more hmore }

end Blocks

/-! ### One call -/

/-- What the interface has logged since `start` are the commands that were passed, if the applet is selected, and
nothing otherwise. -/
structure Issued (obj : Mias) (start : List Event) (passed : List Passed) (s : Linked σ Mias) : Prop where
  kept : s.obj = obj
  logged : ∃ commands, Logged start commands s ∧
    (commands.reverse.map fun command => (command.1, some (Applet.acceptedResult command.2))) =
      if obj.applet.isSelected then
        passed.map fun passed => (Request.apdu { passed.1 with cla := passed.1.cla ||| obj.applet.channel }, passed.2)
      else []

theorem Issued.start (s : Linked σ Mias) : Issued s.obj s.se.log [] s where
  kept := rfl
  logged := ⟨[], ⟨[], rfl, rfl⟩, by simp⟩

section Calls

variable {obj : Mias} {start : List Event} {s : Linked σ Mias}

/-- **A block on its way to the card.** -/
theorem pass_meets {x : Linked σ Mias × List Passed} (h : Issued obj start x.2 x.1) (block : List UInt8) :
    Meets (pass T (hashRequest block)) x
      (fun ok x' => Issued obj start x'.2 x'.1 ∧ x'.2 = x.2 ++ [(hashRequest block, some ok)])
      fun x' => x'.2 = x.2 ++ [(hashRequest block, none)] := by
  obtain ⟨s, passed⟩ := x
  obtain ⟨rfl, commands, hlogged, hcommands⟩ := h
  have hok : Meets (ok (Applet.transmitRequest T (hashRequest block))) s _ _ :=
    ok_meets (fill_transmits (command_transmits T
      (Request.apdu { hashRequest block with cla := (hashRequest block).cla ||| s.obj.applet.channel })))
  refine (hok.recorded (hashRequest block) passed).mono ?_ fun _ hcut => hcut.2
  rintro ok ⟨s', passed'⟩ ⟨⟨hobj, hcases⟩, hpassed⟩
  obtain rfl : passed' = passed ++ [(hashRequest block, some ok)] := hpassed
  refine ⟨⟨hobj, ?_⟩, rfl⟩
  rcases hcases with ⟨_, rfl, hno⟩ | ⟨hselected, result, events, hran, rfl⟩
  · refine ⟨commands, hlogged, ?_⟩
    rw [hcommands, hno]
    rfl
  · refine ⟨_, hlogged.ran hran, ?_⟩
    rw [if_pos hselected] at hcommands ⊢
    rw [List.reverse_cons, List.map_append, List.map_append, hcommands]
    rfl

theorem hashUpdate_meets {size : Nat} (hsize : blockSize s.obj.hashAlgo = some size) (data : Mem) (dataLen : Nat) :
    Meets (hashUpdateRecorded T data dataLen) (s, [])
      (fun ok x => OfCall size (data.slice 0 dataLen) (some ok) x.2 ∧ Issued s.obj s.se.log x.2 x.1)
      fun x => OfCall size (data.slice 0 dataLen) none x.2 := by
  have hpos := blockSize_pos hsize
  have hloop : Meets (loop (hashTurnRecorded T size data dataLen) 0) (s, [])
      (fun ok x => OfCall size (data.slice 0 dataLen) (some ok) x.2 ∧ Issued s.obj s.se.log x.2 x.1)
      fun x => OfCall size (data.slice 0 dataLen) none x.2 := by
    refine .loop (fun i x => Hashing size data dataLen i x.2 ∧ Issued s.obj s.se.log x.2 x.1)
      (fun _ _ hinv => hinv.1.cut) ?_ ⟨.start, .start s⟩
    rintro i x ⟨hhashing, hissued⟩
    refine .ite (fun hmore => ?_) fun hend => .pure ⟨hhashing.stop hend, hissued⟩
    refine .bind ((pass_meets hissued _).mono (fun _ _ h => h) ?_) ?_
    · intro x' hcut
      rw [hcut]
      exact hhashing.last hpos hmore rfl nofun
    rintro ok x' ⟨hissued', hpassed⟩
    refine .ite (fun hok => .pure ⟨?_, hissued'⟩) fun hrefused => .pure ⟨?_, hissued'⟩
    · rw [hpassed, hok]
      exact hhashing.next hpos hmore rfl
    · have hfalse : ok = false := by simpa using hrefused
      rw [hpassed, hfalse]
      exact hhashing.last hpos hmore rfl nofun
  apply Meets.beside_gets_bind
  unfold psoHashInternallyRecorded
  rw [hsize]
  exact hloop

end Calls

/-! ### Any number of calls -/

/-- The data of calls, one behind the other. -/
def givenData (calls : List (Mem × Nat)) : List UInt8 := (calls.map fun call => call.1.slice 0 call.2).flatten

theorem givenData_cons (call : Mem × Nat) (calls : List (Mem × Nat)) :
    givenData (call :: calls) = call.1.slice 0 call.2 ++ givenData calls := rfl

/-- Calls one after the other with the commands of each: all of them returned true, or the last one made did not. -/
inductive Course (size : Nat) : List (Mem × Nat) → Option Bool → List (List Passed) → Prop
  | done : Course size [] (some true) []
  | next {call : Mem × Nat} {calls : List (Mem × Nat)} {ended : Option Bool} {group : List Passed}
      {groups : List (List Passed)} (hcall : OfCall size (call.1.slice 0 call.2) (some true) group)
      (hrest : Course size calls ended groups) : Course size (call :: calls) ended (group :: groups)
  | stopped {call : Mem × Nat} {calls : List (Mem × Nat)} {ended : Option Bool} {group : List Passed}
      (hcall : OfCall size (call.1.slice 0 call.2) ended group) (hended : ended ≠ some true) :
      Course size (call :: calls) ended [group]

/-- The card sees the bytes of the caller. `groups` are the commands passed in each call that was made, `ended` is what
the last call returned, if it did. -/
structure SeesData (size : Nat) (calls : List (Mem × Nat)) (ended : Option Bool) (groups : List (List Passed)) :
    Prop where
  part : dataOf groups.flatten <+: givenData (calls.take groups.length)
  whole : ended = some true → groups.length = calls.length ∧ dataOf groups.flatten = givenData calls ∧
    ∀ passed ∈ groups.flatten, passed.2 = some true
  failed : ended = some false → ∃ request, groups.flatten.getLast? = some (request, some false)
  accepted : ∀ passed ∈ groups.flatten.dropLast, passed.2 = some true
  blocks : ∀ passed ∈ groups.flatten, IsBlock size passed.1
  full : ∀ group ∈ groups, ∀ passed ∈ group.dropLast, passed.1.data.length = size

theorem mem_dropLast_append {α : Type} {front back : List α} {x : α} (h : x ∈ (front ++ back).dropLast) :
    x ∈ front ∨ x ∈ back.dropLast := by
  rw [List.dropLast_append] at h
  split at h
  · exact .inl (List.dropLast_subset front h)
  · exact List.mem_append.mp h

section Course

variable {size : Nat} {call : Mem × Nat} {calls : List (Mem × Nat)} {ended : Option Bool} {group : List Passed}
  {groups : List (List Passed)}

/-- A call that returned true in front of others. -/
theorem SeesData.next (hcall : OfCall size (call.1.slice 0 call.2) (some true) group)
    (hrest : SeesData size calls ended groups) : SeesData size (call :: calls) ended (group :: groups) := by
  obtain ⟨hdata, haccepted⟩ := hcall.whole rfl
  exact {
    part := by
      rw [List.flatten_cons, dataOf_append, List.length_cons, List.take_succ_cons, givenData_cons, hdata]
      exact (List.prefix_append_right_inj _).mpr hrest.part
    whole := fun htrue => by
      obtain ⟨hlength, hgiven, hall⟩ := hrest.whole htrue
      refine ⟨by rw [List.length_cons, List.length_cons, hlength], ?_, ?_⟩
      · rw [List.flatten_cons, dataOf_append, hdata, hgiven, givenData_cons]
      · rw [List.flatten_cons, List.forall_mem_append]
        exact ⟨haccepted, hall⟩
    failed := fun hfalse => by
      obtain ⟨request, hlast⟩ := hrest.failed hfalse
      exact ⟨request, by rw [List.flatten_cons, List.getLast?_append, hlast, Option.some_or]⟩
    accepted := fun passed hmem => by
      rw [List.flatten_cons] at hmem
      rcases mem_dropLast_append hmem with hfirst | hrest'
      · exact haccepted passed hfirst
      · exact hrest.accepted passed hrest'
    blocks := by
      rw [List.flatten_cons, List.forall_mem_append]
      exact ⟨hcall.blocks, hrest.blocks⟩
    full := by
      rw [List.forall_mem_cons]
      exact ⟨hcall.full, hrest.full⟩ }

/-- A call that did not return true is the last. -/
theorem SeesData.stopped (hcall : OfCall size (call.1.slice 0 call.2) ended group) (hended : ended ≠ some true) :
    SeesData size (call :: calls) ended [group] := by
  have hflat : [group].flatten = group := by simp
  exact {
    part := by
      have hgiven : givenData ((call :: calls).take [group].length) = call.1.slice 0 call.2 := by simp [givenData]
      rw [hflat, hgiven]
      exact hcall.part
    whole := fun htrue => absurd htrue hended
    failed := hflat.symm ▸ hcall.failed
    accepted := hflat.symm ▸ hcall.accepted
    blocks := hflat.symm ▸ hcall.blocks
    full := by
      rw [List.forall_mem_singleton]
      exact hcall.full }

theorem Course.seesData (h : Course size calls ended groups) : SeesData size calls ended groups := by
  induction h with
  | done =>
      exact {
        part := List.prefix_rfl
        whole := fun _ => ⟨rfl, rfl, by simp⟩
        failed := nofun
        accepted := by simp
        blocks := by simp
        full := by simp }
  | next hcall _ ih => exact ih.next hcall
  | stopped hcall hended => exact .stopped hcall hended

end Course

/-- What one call has issued, and then others. -/
theorem Issued.append {obj : Mias} {start : List Event} {earlier later : List Passed} {s s' : Linked σ Mias}
    (h : Issued obj start earlier s) (hlater : Issued s.obj s.se.log later s') :
    Issued obj start (earlier ++ later) s' := by
  obtain ⟨rfl, commands, ⟨events, hlog, rfl⟩, hcommands⟩ := h
  obtain ⟨hobj, commands', ⟨events', hlog', rfl⟩, hcommands'⟩ := hlater
  refine ⟨hobj, _, ⟨events' ++ events, ?_, commandsOf_append events' events⟩, ?_⟩
  · rw [hlog', hlog, List.append_assoc]
  · rw [List.reverse_append, List.map_append, hcommands, hcommands']
    split
    · rw [List.map_append]
    · rfl

theorem hashUpdates_meets {size : Nat} (calls : List (Mem × Nat)) (s : Linked σ Mias)
    (hsize : blockSize s.obj.hashAlgo = some size) (groups : List (List Passed)) :
    Meets (hashUpdatesRecorded T calls) (s, groups)
      (fun ok x => ∃ later, x.2 = groups ++ later ∧ Course size calls (some ok) later ∧
        Issued s.obj s.se.log later.flatten x.1)
      fun x => ∃ later, x.2 = groups ++ later ∧ Course size calls none later := by
  induction calls generalizing s groups with
  | nil => exact .pure ⟨[], (List.append_nil groups).symm, .done, .start s⟩
  | cons call calls ih =>
      refine .bind (((hashUpdate_meets hsize call.1 call.2).grouped groups).mono (fun _ _ h => h) ?_) ?_
      · rintro ⟨s', groups'⟩ ⟨group, hcall, rfl⟩
        exact ⟨[group], rfl, .stopped hcall nofun⟩
      rintro ok ⟨s', groups'⟩ ⟨group, ⟨hcall, hissued⟩, rfl⟩
      refine .ite (fun hok => ?_) fun hrefused => .pure ?_
      · subst hok
        have hsize' : blockSize s'.obj.hashAlgo = some size := by
          rw [hissued.kept]
          exact hsize
        refine (ih s' hsize' (groups ++ [group])).mono ?_ ?_
        · rintro ok x ⟨later, hgroups, hcourse, hissued'⟩
          refine ⟨group :: later, by rw [hgroups, List.append_assoc]; rfl, .next hcall hcourse, ?_⟩
          rw [List.flatten_cons]
          exact hissued.append hissued'
        · rintro x ⟨later, hgroups, hcourse⟩
          exact ⟨group :: later, by rw [hgroups, List.append_assoc]; rfl, .next hcall hcourse⟩
      · obtain rfl : ok = false := by simpa using hrefused
        refine ⟨[group], rfl, .stopped hcall nofun, ?_⟩
        rw [List.flatten_cons, List.flatten_nil, List.append_nil]
        exact hissued

/-- **The card sees exactly the bytes of the caller**, over any sequence of calls and whatever it answers. -/
theorem hashUpdates_sees_data (T : Transport σ) (s : Linked σ Mias) {size : Nat}
    (h : blockSize s.obj.hashAlgo = some size) (calls : List (Mem × Nat)) :
    Records (hashUpdatesRecorded T calls) (hashUpdates T calls) ∧
    Meets (hashUpdatesRecorded T calls) (s, [])
      (fun ok x => SeesData size calls (some ok) x.2 ∧ Issued s.obj s.se.log x.2.flatten x.1)
      fun x => SeesData size calls none x.2 := by
  refine ⟨hashUpdates_records T calls, (hashUpdates_meets calls s h []).mono ?_ ?_⟩
  · rintro ok x ⟨later, rfl, hcourse, hissued⟩
    exact ⟨hcourse.seesData, hissued⟩
  · rintro x ⟨later, rfl, hcourse⟩
    exact hcourse.seesData

/-- SHA-256 in front of a card that answers from a list. -/
def hashing (answers : List (Option (List UInt8))) : Linked (List (Option (List UInt8))) Mias :=
  { scriptedMias answers with obj := { (scriptedMias answers).obj with hashAlgo := 0x40 } }

/-- Of 65 bytes and 2 more, the card takes a block and refuses the byte behind it: the second call is not made. -/
theorem hashUpdates_sees_data_refused : ∃ x, hashUpdatesRecorded scripted [(Mem.zero, 65), (Mem.zero, 2)] 3
      (hashing [some [0x90, 0x00], some [0x6A, 0x80], some [0x90, 0x00]], []) = (.done false, x) ∧
    x.2.map (fun group => group.map fun passed => (passed.1.data.length, passed.2)) =
      [[(64, some true), (1, some false)]] ∧
    SeesData 64 [(Mem.zero, 65), (Mem.zero, 2)] (some false) x.2 := by
  let calls : List (Mem × Nat) := [(Mem.zero, 65), (Mem.zero, 2)]
  let s := hashing [some [0x90, 0x00], some [0x6A, 0x80], some [0x90, 0x00]]
  have hvalue : (hashUpdatesRecorded scripted calls 3 (s, [])).1.value?.map id = some false := by decide +kernel
  obtain ⟨ok, hrun, rfl⟩ := done_of_value? hvalue
  refine ⟨_, hrun, by decide +kernel, ?_⟩
  exact ((hashUpdates_sees_data scripted s rfl calls).2.done hrun).1

end TrustOnboard.Mias
