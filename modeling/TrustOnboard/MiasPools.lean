import TrustOnboard.MiasFrame
import TrustOnboard.MiasRelations
import TrustOnboard.MiasReading
import Mathlib.Data.List.TakeWhile

/-! The two pools of the MIAS object, against any card. The loop over CONTAINERS_INFO stops when the key pool is
full; the loop over the directory does not look at the size of the file pool, so a directory of more than
`filePoolSize` records is written past it. -/

namespace TrustOnboard.Mias

open Exec Linked SEInterface

/-! ### Calls -/

/-- A call of a member function; the locals and the stack are what they happen to be. -/
inductive MiasCall where
  | select (isBasic : Bool)
  | deselect
  | verifyPin (pin : List UInt8)
  | changePin (stack : Mem) (oldPin newPin : List UInt8)
  | getKeyPairByContainerId (containerId : UInt8)
  | getCertificateByContainerId (efSize : UInt16) (containerId : UInt8) (cert : Option Mem) (len : Nat)
  | p11GetObjectByLabel (locals : P11Locals) (label : List UInt8) (object : Option Mem)
  | hashInit (algorithm : UInt8)
  | hashUpdate (data : Mem) (dataLen : Nat)
  | hashFinal (hash : Mem)
  | signInit (algorithm key : UInt8)
  | signFinal (hash : Mem) (hashLen : Nat) (signature : Mem) (len : Nat)
  | decryptInit (algorithm key : UInt8)
  | decryptFinal (data : Mem) (dataLen : Nat) (plain : Mem) (len : Nat)
  | listKeyPairs

inductive MiasResult where
  | flag (ok : Bool)
  | pair (index : Option Nat)
  | fetched (result : Fetched)

variable {σ : Type} (T : Transport σ)

def MiasCall.run : MiasCall → Exec (Linked σ Mias) MiasResult
  | .select isBasic => do return .flag (← onApplet (Applet.select T isBasic))
  | .deselect => do return .flag (← onApplet (Applet.deselect T))
  | .verifyPin pin => do return .flag (← Mias.verifyPin T pin)
  | .changePin stack oldPin newPin => do return .flag (← Mias.changePin T stack oldPin newPin)
  | .getKeyPairByContainerId containerId => do return .pair (← Mias.getKeyPairByContainerId T containerId)
  | .getCertificateByContainerId efSize containerId cert len => do
      return .fetched (← Mias.getCertificateByContainerId T efSize containerId cert len)
  | .p11GetObjectByLabel locals label object => do
      return .fetched (← Mias.p11GetObjectByLabel T locals label object)
  | .hashInit algorithm => do return .flag (← Mias.hashInit T algorithm)
  | .hashUpdate data dataLen => do return .flag (← Mias.hashUpdate T data dataLen)
  | .hashFinal hash => do return .fetched (← Mias.hashFinal T hash)
  | .signInit algorithm key => do return .flag (← Mias.signInit T algorithm key)
  | .signFinal hash hashLen signature len => do return .fetched (← Mias.signFinal T hash hashLen signature len)
  | .decryptInit algorithm key => do return .flag (← Mias.decryptInit T algorithm key)
  | .decryptFinal data dataLen plain len => do return .fetched (← Mias.decryptFinal T data dataLen plain len)
  | .listKeyPairs => do return .flag (← Mias.listKeyPairs T)

/-- States reached by calls, each with the events it logs. A call may be cut short anywhere. -/
inductive Reaches (allowed : MiasCall → List Event → Prop) (start : Linked σ Mias) : Linked σ Mias → Prop
  | start : Reaches allowed start start
  | call {s : Linked σ Mias} {events : List Event} (h : Reaches allowed start s) (call : MiasCall) (fuel : Nat)
      (hlog : (call.run T fuel s).2.se.log = events ++ s.se.log) (hallowed : allowed call events) :
      Reaches allowed start (call.run T fuel s).2

/-! ### Ranges -/

/-- Both counters are in range. -/
structure InRange (m : Mias) : Prop where
  files : m.filesNum ≤ filePoolSize
  low : -1 ≤ m.keypairsNum
  high : m.keypairsNum ≤ keyPoolSize

/-- Nothing is written behind the pools. -/
structure Untouched (m n : Mias) : Prop where
  keypairs_eq : ∀ i, keyPoolSize ≤ i → n.keypairs i = m.keypairs i
  files_eq : ∀ j, filePoolSize ≤ j → n.files j = m.files j

theorem Untouched.refl (m : Mias) : Untouched m m := ⟨fun _ _ => rfl, fun _ _ => rfl⟩

theorem Untouched.trans {m n k : Mias} (h : Untouched m n) (h' : Untouched n k) : Untouched m k :=
  ⟨fun i hi => (h'.keypairs_eq i hi).trans (h.keypairs_eq i hi), fun j hj => (h'.files_eq j hj).trans (h.files_eq j hj)⟩

/-- The object differs at most in what is behind the pools. -/
structure InPools (m n : Mias) : Prop where
  keypairs_eq : ∀ i, i < keyPoolSize → m.keypairs i = n.keypairs i
  files_eq : ∀ j, j < filePoolSize → m.files j = n.files j
  rest : n = { m with keypairs := n.keypairs, files := n.files }

/-! ### Directories -/

/-- A command that was answered with a whole directory record. -/
def isRecord (command : List UInt8 × Option (List UInt8)) : Bool :=
  match command.2 with
  | some answer => statusWord answer = swOK ∧ (responseData answer).length = 0x15
  | none => false

/-- The reads of directory records in a call of `p11GetObjectByLabel`: they stand behind the SELECT of the
directory and the read of its first byte, in front of the SELECT of the first file. -/
def directoryReads (events : List Event) : Commands :=
  ((commandsOf events).reverse.drop 2).takeWhile fun command => insOf command.1 = SCIns.readBinary.code

/-- No more records than there are entries in the pool. -/
def RecordsFit (events : List Event) : Prop := (directoryReads events).countP isRecord ≤ filePoolSize

instance (events : List Event) : Decidable (RecordsFit events) := inferInstanceAs (Decidable (_ ≤ _))

/-- The calls that keep the pools: all but those of a directory that is too long. -/
def Fitting : MiasCall → List Event → Prop
  | .p11GetObjectByLabel _ _ _, events => RecordsFit events
  | _, _ => True

/-! ### What the calls keep -/

/-- The counters stay in range, the number of key pairs at most `cap`, and nothing is written behind the pools. -/
def Keeps (cap : Int) (s s' : Linked σ Mias) : Prop :=
  InRange s.obj → s.obj.keypairsNum ≤ cap → InRange s'.obj ∧ s'.obj.keypairsNum ≤ cap ∧ Untouched s.obj s'.obj

instance (cap : Int) : IsPreorder (Linked σ Mias) (Keeps cap) where
  refl s hrange hcap := ⟨hrange, hcap, .refl s.obj⟩
  trans := by
    intro a b c hab hbc hrange hcap
    obtain ⟨hrange', hcap', hsame⟩ := hab hrange hcap
    obtain ⟨hrange'', hcap'', hsame'⟩ := hbc hrange' hcap'
    exact ⟨hrange'', hcap'', hsame.trans hsame'⟩

section Keeps

variable {T : Transport σ} {cap : Int}

theorem setObj_keeps {update : Mias → Mias} (h : ∀ m, (update m).keypairs = m.keypairs ∧
    (update m).keypairsNum = m.keypairsNum ∧ (update m).files = m.files ∧ (update m).filesNum = m.filesNum) :
    Stays (Keeps cap) (setObj update : Exec (Linked σ Mias) Unit) := by
  refine .modify fun s hrange hcap => ?_
  obtain ⟨hkeys, hnum, hfiles, hfnum⟩ := h s.obj
  refine ⟨⟨?_, ?_, ?_⟩, ?_, ⟨fun i _ => by rw [hkeys], fun j _ => by rw [hfiles]⟩⟩
  · rw [hfnum]
    exact hrange.files
  · rw [hnum]
    exact hrange.low
  · rw [hnum]
    exact hrange.high
  · rw [hnum]
    exact hcap

theorem onApplet_keeps {α : Type} (program : Exec (Linked σ Applet) α) : Stays (Keeps cap) (onApplet program) :=
  fun _ _ hrange hcap => ⟨⟨hrange.files, hrange.low, hrange.high⟩, hcap, ⟨fun _ _ => rfl, fun _ _ => rfl⟩⟩

theorem ok_keeps (transmitted : Exec (Linked σ Applet) Bool) : Stays (Keeps cap) (ok transmitted) := onApplet_keeps _

theorem response_keeps : Stays (Keeps cap) (response : Exec (Linked σ Mias) (List UInt8)) := onApplet_keeps _

theorem onSE_keeps {α : Type} (program : Exec (SEInterface σ) α) :
    Stays (Keeps cap) (onSE program : Exec (Linked σ Mias) α) := fun _ s hrange hcap => ⟨hrange, hcap, .refl s.obj⟩

theorem note_keeps (n : Note) : Stays (Keeps cap) (note n : Exec (Linked σ Mias) Unit) :=
  .modify fun s hrange hcap => ⟨hrange, hcap, .refl s.obj⟩

theorem frames_keeps : Frames (Keeps (σ := σ) cap) := ⟨onApplet_keeps, note_keeps⟩

/-! The key-pair table. -/

theorem linkRecord_keeps (record : Mem) : Stays (Keeps cap) (setObj (linkRecord record) : Exec (Linked σ Mias) Unit) := by
  refine .modify fun s hrange hcap => ?_
  show InRange (linkRecord record s.obj) ∧ (linkRecord record s.obj).keypairsNum ≤ cap ∧
    Untouched s.obj (linkRecord record s.obj)
  unfold linkRecord
  split
  · split
    · rename_i index hfound
      have hindex := List.mem_range.mp (List.mem_of_find?_eq_some hfound)
      have hhigh := hrange.high
      refine ⟨⟨hrange.files, hrange.low, hrange.high⟩, hcap, ⟨fun i hi => ?_, fun _ _ => rfl⟩⟩
      exact Function.update_of_ne (by omega) _ _
    · exact ⟨hrange, hcap, .refl _⟩
  · exact ⟨hrange, hcap, .refl _⟩

theorem linkLoop_keeps (remaining offset : Nat) : Stays (Keeps cap) (linkLoop T remaining offset) := by
  induction remaining generalizing offset with
  | zero => exact .pure _
  | succ remaining ih =>
      refine .bind (ok_keeps _) fun ok => .ite ?_ (ih _)
      exact .bind (.gets _) fun record => .bind (linkRecord_keeps record) fun _ => ih _

theorem linkCertificates_keeps : Stays (Keeps cap) (linkCertificates T) :=
  .bind (ok_keeps _) fun _ => .ite (.bind (ok_keeps _) fun _ => .ite (.bind (.gets _) fun _ => linkLoop_keeps _ _)
    (.pure _)) (.pure _)

theorem addPair_keeps {i : Nat} {record : Mem} {s : Linked σ Mias} (hroom : s.obj.keypairsNum + 1 < keyPoolSize) :
    Keeps (keyPoolSize - 1) s { s with obj := addPair i record s.obj } := by
  intro hrange _
  have hlow := hrange.low
  refine ⟨⟨hrange.files, ?_, ?_⟩, ?_, ⟨fun j hj => ?_, fun _ _ => rfl⟩⟩
  · show -1 ≤ s.obj.keypairsNum + 1
    omega
  · show s.obj.keypairsNum + 1 ≤ keyPoolSize
    omega
  · show s.obj.keypairsNum + 1 ≤ keyPoolSize - 1
    omega
  · exact Function.update_of_ne (by omega) _ _

/-- The guard of the loop leaves room for the pair that is added. -/
theorem containerTurn_keeps (size : Nat) (x : Nat × Nat) :
    Stays (Keeps (keyPoolSize - 1)) (containerTurn T size x) := by
  refine .ite (.bind (onApplet_keeps _) fun ok => .ite ?_ (.pure _)) (.pure _)
  refine .bind (onApplet_keeps _) fun sw => .ite (.bind (.gets _) fun record => .ite ?_ (.pure _)) (.pure _)
  intro fuel s
  rw [bind_apply, gets_apply]
  dsimp only
  split
  · exact refl s
  · rename_i hroom
    exact addPair_keeps (by omega)

/-- Kept since the object was `m`. -/
def KeptSince (cap : Int) (m : Mias) (s : Linked σ Mias) : Prop :=
  InRange s.obj ∧ s.obj.keypairsNum ≤ cap ∧ Untouched m s.obj

theorem KeptSince.meets {α : Type} {program : Exec (Linked σ Mias) α} {m : Mias} {s : Linked σ Mias}
    (h : KeptSince cap m s) (hprogram : Stays (Keeps cap) program) :
    Meets program s (fun _ => KeptSince cap m) (KeptSince cap m) := by
  have hstep : ∀ s', Keeps cap s s' → KeptSince cap m s' := by
    intro s' hkeeps
    obtain ⟨hrange, hcap, hsame⟩ := hkeeps h.1 h.2.1
    exact ⟨hrange, hcap, h.2.2.trans hsame⟩
  exact (hprogram.meets s).mono (fun _ => hstep) hstep

theorem listKeyPairs_keeps : Stays (Keeps keyPoolSize) (listKeyPairs T) := by
  intro fuel s hrange hcap
  have hstart : KeptSince keyPoolSize s.obj s := ⟨hrange, hcap, .refl s.obj⟩
  suffices h : Meets (listKeyPairs T) s (fun _ => KeptSince keyPoolSize s.obj) (KeptSince keyPoolSize s.obj) from
    h.state fuel
  refine .gets_bind (.ite (fun _ => .pure hstart) fun hnum => ?_)
  -- the table is empty; until it is counted there is room for one pair more
  have hroom : KeptSince (keyPoolSize - 1) s.obj s := by
    refine ⟨hrange, ?_, .refl s.obj⟩
    rw [not_not.mp hnum]
    decide
  have hless : ∀ t : Linked σ Mias, KeptSince (keyPoolSize - 1) s.obj t → KeptSince keyPoolSize s.obj t :=
    fun t ht => ⟨ht.1, ht.1.high, ht.2.2⟩
  have hpart : ∀ {α : Type} {program : Exec (Linked σ Mias) α} {t : Linked σ Mias},
      KeptSince (keyPoolSize - 1) s.obj t → Stays (Keeps (keyPoolSize - 1)) program →
      Meets program t (fun _ => KeptSince (keyPoolSize - 1) s.obj) (KeptSince keyPoolSize s.obj) :=
    fun ht hprogram => (ht.meets hprogram).mono (fun _ _ h => h) hless
  refine .bind (hpart hroom (ok_keeps _)) fun ok t ht => .ite (fun _ => ?_) fun _ => .pure (hless t ht)
  refine .bind (hpart ht (onApplet_keeps _)) fun length t ht =>
    .gets_bind (.ite (fun _ => ?_) fun _ => .pure (hless t ht))
  refine .bind (hpart ht (onSE_keeps _)) fun size t ht => ?_
  refine .bind (hpart ht (.loop (containerTurn_keeps size) _)) fun _ t ht => ?_
  have hcounted : KeptSince keyPoolSize s.obj { t with obj :=
    { t.obj with keypairsNum := t.obj.keypairsNum + 1 } } := by
    obtain ⟨hrange, hcap, hsame⟩ := ht
    have hlow := hrange.low
    refine ⟨⟨hrange.files, ?_, ?_⟩, ?_, ⟨hsame.keypairs_eq, hsame.files_eq⟩⟩
    · show -1 ≤ t.obj.keypairsNum + 1
      omega
    · show t.obj.keypairsNum + 1 ≤ keyPoolSize
      omega
    · show t.obj.keypairsNum + 1 ≤ keyPoolSize
      omega
  exact .modify_bind (.bind (hcounted.meets linkCertificates_keeps) fun _ t ht => .pure ht)

theorem getKeyPairByContainerId_keeps (containerId : UInt8) :
    Stays (Keeps keyPoolSize) (getKeyPairByContainerId T containerId) :=
  .bind listKeyPairs_keeps fun _ => .gets _

theorem getCertificateByContainerId_keeps (efSize : UInt16) (containerId : UInt8) (cert : Option Mem) (len : Nat) :
    Stays (Keeps keyPoolSize) (getCertificateByContainerId T efSize containerId cert len) := by
  refine .bind (getKeyPairByContainerId_keeps containerId) fun found => ?_
  cases found with
  | none => exact .pure _
  | some index =>
      refine .bind (.gets _) fun pair => .ite (.bind (ok_keeps _) fun ok => .ite ?_ (.pure _)) (.pure _)
      refine .bind (onSE_keeps _) fun size => .ite ?_ (.pure _)
      cases cert with
      | none => exact .pure _
      | some out => exact .bind (frames_keeps.readChunks _ _ _ _) fun out => .ite (.pure _) (.pure _)

/-! Hashes, signatures and decryption. -/

theorem psoHashInternally_keeps (algorithm : UInt8) (data : Mem) (dataLen : Nat) :
    Stays (Keeps cap) (psoHashInternally T algorithm data dataLen) := by
  unfold psoHashInternally
  split
  · exact .pure _
  · exact .loop (fun i => .ite (.bind (ok_keeps _) fun ok => .ite (.pure _) (.pure _)) (.pure _)) _

theorem signFinal_keeps (hash : Mem) (hashLen : Nat) (signature : Mem) (len : Nat) :
    Stays (Keeps cap) (signFinal T hash hashLen signature len) := by
  have hhash : ∀ algorithm, Stays (Keeps cap) (psoHashExternally T algorithm hash hashLen) := by
    intro algorithm
    unfold psoHashExternally
    split
    · exact .pure _
    · exact ok_keeps _
  refine .bind (.gets _) fun algorithm => .bind (hhash _) fun ok => .ite ?_ (.pure _)
  refine .bind (onApplet_keeps _) fun ok => .ite (.loop (fun x => ?_) _) (.pure _)
  refine .bind response_keeps fun data => .ite ?_ (.pure _)
  refine .bind (onApplet_keeps _) fun sw => .ite ?_ (.pure _)
  exact .bind (onApplet_keeps _) fun ok => .ite (.pure _) (.pure _)

theorem decipherResult_keeps (plain : Mem) (len : Nat) : Stays (Keeps cap) (decipherResult T plain len) := by
  refine .bind (onApplet_keeps _) fun sw => .ite (.bind response_keeps fun data => .ite ?_ (.pure _)) (.pure _)
  refine .bind (onApplet_keeps _) fun ok => .ite (.bind (onApplet_keeps _) fun sw => .ite ?_ (.pure _)) (.pure _)
  exact .bind response_keeps fun data => .pure _

theorem decryptFinal_keeps (data : Mem) (dataLen : Nat) (plain : Mem) (len : Nat) :
    Stays (Keeps cap) (decryptFinal T data dataLen plain len) := by
  refine .ite (.bind (onApplet_keeps _) fun ok => .ite (decipherResult_keeps _ _) (.pure _)) ?_
  refine .bind (ok_keeps _) fun ok => .ite (.bind (onApplet_keeps _) fun ok => ?_) (.pure _)
  exact .ite (decipherResult_keeps _ _) (.pure _)

end Keeps

/-! ### The directory loop -/

section Directory

variable {T : Transport σ} {m : Mias} {start : List Event} {s : Linked σ Mias}

/-- The state in the directory loop: the records that were read since `start` are the files of the pool. -/
structure Reading (start : List Event) (m : Mias) (s : Linked σ Mias) : Prop where
  kept : KeptSince keyPoolSize m s
  commands : ∃ events reads first second, s.se.log = events ++ start ∧ commandsOf events = reads ++ [second, first] ∧
    (∀ read ∈ reads, insOf read.1 = SCIns.readBinary.code) ∧ s.obj.filesNum = reads.countP isRecord

/-- Everything is kept, or there were too many records. -/
def KeptOrFull (start : List Event) (m : Mias) (s : Linked σ Mias) : Prop :=
  KeptSince keyPoolSize m s ∨ ∃ events, s.se.log = events ++ start ∧ ¬RecordsFit events

theorem directoryReads_eq {events : List Event} {reads : Commands} {first second : List UInt8 × Option (List UInt8)}
    (h : commandsOf events = reads ++ [second, first])
    (hreads : ∀ read ∈ reads, insOf read.1 = SCIns.readBinary.code) : directoryReads events = reads.reverse := by
  have hdrop : (commandsOf events).reverse.drop 2 = reads.reverse := by
    rw [h, List.reverse_append]
    rfl
  rw [directoryReads, hdrop, List.takeWhile_eq_self_iff]
  intro read hread
  exact decide_eq_true (hreads read (List.mem_reverse.mp hread))

/-- One more record: there is an entry for it, or the directory is too long. -/
theorem storeFile_kept (record : Mem) {events : List Event} {reads : Commands}
    {first second : List UInt8 × Option (List UInt8)} (h : KeptSince keyPoolSize m s)
    (hlog : s.se.log = events ++ start) (hcommands : commandsOf events = reads ++ [second, first])
    (hreads : ∀ read ∈ reads, insOf read.1 = SCIns.readBinary.code)
    (hcount : s.obj.filesNum + 1 = reads.countP isRecord) :
    KeptOrFull start m { s with obj := storeFile record s.obj } := by
  by_cases hfits : s.obj.filesNum < filePoolSize
  · obtain ⟨hrange, hcap, hsame⟩ := h
    refine .inl ⟨⟨hfits, hrange.low, hrange.high⟩, hcap, ⟨hsame.keypairs_eq, fun j hj => ?_⟩⟩
    rw [← hsame.files_eq j hj]
    exact Function.update_of_ne (by omega) _ _
  · refine .inr ⟨events, hlog, ?_⟩
    rw [RecordsFit, directoryReads_eq hcommands hreads, List.countP_reverse]
    omega

theorem readRecord_meets {answer : List UInt8} (hselected : s.obj.applet.isSelected = true)
    (hholds : Holds s.se answer) (record : Mem) :
    Meets (readRecord record) s (fun read t => t = s ∧ read.1 = (responseData answer).length) (· = s) :=
  .done_bind (response_done hselected hholds) (.check_bind (fun _ => .pure ⟨rfl, rfl⟩) fun _ => rfl)

theorem directoryLoop_meets (remaining i : Nat) (record : Mem) (h : Reading start m s) :
    Meets (directoryLoop T remaining i record) s (fun _ => KeptSince keyPoolSize m) (KeptOrFull start m) := by
  induction remaining generalizing i record s with
  | zero => exact .pure h.kept
  | succ remaining ih =>
      have hkeeps : ∀ s', Keeps keyPoolSize s s' → KeptSince keyPoolSize m s' := by
        intro s' hs'
        obtain ⟨hrange, hcap, hsame⟩ := hs' h.kept.1 h.kept.2.1
        exact ⟨hrange, hcap, h.kept.2.2.trans hsame⟩
      refine .bind (((readBinary_meets _ _).and_stays (ok_keeps _)).mono (fun _ _ hpost => hpost)
        fun s' hs' => .inl (hkeeps s' hs'.2)) ?_
      rintro ok s' ⟨⟨hobj, hcases⟩, hs'⟩
      have hkept := hkeeps s' hs'
      obtain ⟨events, reads, first, second, hlog, hcommands, hreads, hcount⟩ := h.commands
      rcases hcases with ⟨rfl, rfl, _⟩ | ⟨hselected, result, added, hran, rfl⟩
      · exact ih _ _ h
      have hlog' : s'.se.log = added ++ events ++ start := by
        rw [hran.log_eq, hlog, List.append_assoc]
      have hcommands' := commandsOf_append added events
      rw [hran.ended.commandsOf, hcommands, ← List.append_assoc] at hcommands'
      have hreads' : ∀ read ∈ [(readApdu s.obj.applet.channel (1 + i * 0x15) 0x15, result)] ++ reads,
          insOf read.1 = SCIns.readBinary.code := List.forall_mem_cons.mpr ⟨rfl, hreads⟩
      have hcount' : ([(readApdu s.obj.applet.channel (1 + i * 0x15) 0x15, result)] ++ reads).countP isRecord =
          s'.obj.filesNum + if isRecord (readApdu s.obj.applet.channel (1 + i * 0x15) 0x15, result) then 1 else 0 := by
        rw [hobj, hcount]
        exact List.countP_cons
      -- a read that gives no record leaves the pool alone
      have hnone : isRecord (readApdu s.obj.applet.channel (1 + i * 0x15) 0x15, result) = false →
          Reading start m s' := by
        intro hfalse
        rw [hfalse] at hcount'
        exact ⟨hkept, _, _, first, second, hlog', hcommands', hreads', hcount'.symm⟩
      cases result with
      | none => exact ih _ _ (hnone rfl)
      | some answer =>
          by_cases hok : statusWord answer = swOK
          · have haccepted : Applet.acceptedResult (some answer) = true := decide_eq_true hok
            rw [if_pos haccepted]
            refine .bind ((readRecord_meets (by rw [hobj]; exact hselected) (hran.holds answer rfl) record).mono
              (fun _ _ hpost => hpost) fun t ht => .inl (by rw [ht]; exact hkept)) ?_
            rintro read t ⟨rfl, hlen⟩
            refine .ite (fun hwhole => ?_) fun hshort => ?_
            · have hrecord : isRecord (readApdu s.obj.applet.channel (1 + i * 0x15) 0x15, some answer) = true :=
                decide_eq_true ⟨hok, hlen.symm.trans hwhole⟩
              rw [hrecord] at hcount'
              have hstored := storeFile_kept read.2 hkept hlog' hcommands' hreads' hcount'.symm
              refine .modify_bind (.gets_bind (.check_bind (fun hrange => ?_) fun _ => hstored))
              rcases hstored with hinside | ⟨all, hall, hlong⟩
              · exact ih _ _ ⟨hinside, _, _, first, second, hlog', hcommands', hreads', hcount'.symm⟩
              · exfalso
                obtain rfl := List.append_cancel_right (hall.symm.trans hlog')
                rw [RecordsFit, directoryReads_eq hcommands' hreads', List.countP_reverse, hcount'] at hlong
                exact hlong hrange
            · refine ih _ _ (hnone (decide_eq_false fun h => hshort (hlen.trans h.2)))
          · have haccepted : ¬Applet.acceptedResult (some answer) = true := fun h => hok (of_decide_eq_true h)
            rw [if_neg haccepted]
            exact ih _ _ (hnone (decide_eq_false fun h => hok h.1))

theorem KeptSince.meets_full {α : Type} {program : Exec (Linked σ Mias) α} (h : KeptSince keyPoolSize m s)
    (hprogram : Stays (Keeps keyPoolSize) program) :
    Meets program s (fun _ => KeptSince keyPoolSize m) (KeptOrFull start m) :=
  (h.meets hprogram).mono (fun _ _ h => h) fun _ h => .inl h

theorem ok_logged {cla : UInt8} {transmitted : UInt8 → Exec (SEInterface σ) Bool} {apdu : List UInt8}
    {commands : Commands} (h : Transmits T apdu (transmitted (cla ||| s.obj.applet.channel)))
    (hkept : KeptSince keyPoolSize m s) (hlogged : Logged start commands s) :
    Meets (ok (Applet.whenSelected cla transmitted)) s
      (fun ok s' => KeptSince keyPoolSize m s' ∧ s'.obj = s.obj ∧
        (ok = true → ∃ result, Logged start ((apdu, result) :: commands) s')) (KeptOrFull start m) := by
  have hkeeps : ∀ s', Keeps keyPoolSize s s' → KeptSince keyPoolSize m s' := by
    intro s' hs'
    obtain ⟨hrange, hcap, hsame⟩ := hs' hkept.1 hkept.2.1
    exact ⟨hrange, hcap, hkept.2.2.trans hsame⟩
  refine ((ok_meets h).and_stays (ok_keeps _)).mono ?_ fun s' hs' => .inl (hkeeps s' hs'.2)
  rintro ok s' ⟨⟨hobj, hcases⟩, hs'⟩
  refine ⟨hkeeps s' hs', hobj, ?_⟩
  rcases hcases with ⟨rfl, _⟩ | ⟨_, result, added, hran, _⟩
  · exact fun hfalse => by cases hfalse
  · exact fun _ => ⟨result, hlogged.ran hran⟩

theorem p11Lookup_meets (locals : P11Locals) (label : List UInt8) (object : Option Mem)
    (hkept : KeptSince keyPoolSize m s) (hlogged : Logged start [] s) :
    Meets (p11Lookup T locals label object) s (fun _ => KeptSince keyPoolSize m) (KeptOrFull start m) := by
  have hreset : KeptSince keyPoolSize m { s with obj := { s.obj with filesNum := 0 } } :=
    ⟨⟨Nat.zero_le _, hkept.1.low, hkept.1.high⟩, hkept.2.1, ⟨hkept.2.2.keypairs_eq, hkept.2.2.files_eq⟩⟩
  unfold p11Lookup selectFile Applet.transmitCase3 readBinary Applet.transmitCase2
  refine .modify_bind (.bind (ok_logged (fill_transmits (command_transmits T _)) hreset hlogged) ?_)
  rintro ok s' ⟨hkept', hobj', hlogged'⟩
  refine .ite (fun hok => ?_) fun _ => .pure hkept'
  obtain ⟨first, hlogged'⟩ := hlogged' hok
  refine .bind (ok_logged (command_transmits T _) hkept' hlogged') ?_
  rintro ok s'' ⟨hkept'', hobj'', hlogged''⟩
  refine .ite (fun hok => ?_) fun _ => .pure hkept''
  obtain ⟨second, events, hlog, hcommands⟩ := hlogged'' hok
  have hreading : Reading start m s'' := by
    refine ⟨hkept'', events, [], _, _, hlog, hcommands, ?_, ?_⟩
    · intro read hread
      cases hread
    · rw [hobj'', hobj']
      rfl
  refine .done_bind (fun _ => rfl)
    (.check_bind (fun _ => .ite (fun _ => ?_) fun _ => .pure hkept'') fun _ => .inl hkept'')
  refine .bind (directoryLoop_meets _ _ _ hreading) fun record t ht => .gets_bind ?_
  exact ht.meets_full (frames_keeps.p11Search _ _ _ _ _ _)

theorem p11GetObjectByLabel_meets (locals : P11Locals) (label : List UInt8) (object : Option Mem)
    (hkept : KeptSince keyPoolSize m s) :
    Meets (p11GetObjectByLabel T locals label object) s (fun _ => KeptSince keyPoolSize m)
      (KeptOrFull s.se.log m) := by
  have hentered : KeptSince keyPoolSize m (noted .p11Enter s) := hkept
  have hlogged : Logged s.se.log [] (noted .p11Enter s) := ⟨[.note .p11Enter], rfl, rfl⟩
  refine .modify_bind (.bind (p11Lookup_meets locals label object hentered hlogged) fun fetched t ht => ?_)
  exact .modify_bind (.pure ht)

end Directory

/-! ### All calls -/

section Calls

variable {T : Transport σ} {s : Linked σ Mias}

/-- A call keeps the pools, unless it is for a directory that is too long. -/
theorem MiasCall.kept (call : MiasCall) (fuel : Nat) {events : List Event} (hrange : InRange s.obj)
    (hlog : (call.run T fuel s).2.se.log = events ++ s.se.log) (hfits : Fitting call events) :
    InRange (call.run T fuel s).2.obj ∧ Untouched s.obj (call.run T fuel s).2.obj := by
  have hstart : KeptSince keyPoolSize s.obj s := ⟨hrange, hrange.high, .refl s.obj⟩
  have hstays : Stays (Keeps keyPoolSize) (call.run T) →
      InRange (call.run T fuel s).2.obj ∧ Untouched s.obj (call.run T fuel s).2.obj := by
    intro hcall
    obtain ⟨hrange', _, hsame⟩ := hcall fuel s hrange hrange.high
    exact ⟨hrange', hsame⟩
  cases call with
  | p11GetObjectByLabel locals label object =>
      have hmeets : Meets (run T (.p11GetObjectByLabel locals label object)) s (fun _ => KeptOrFull s.se.log s.obj)
          (KeptOrFull s.se.log s.obj) :=
        .bind (p11GetObjectByLabel_meets locals label object hstart) fun _ _ ht => .pure (.inl ht)
      rcases hmeets.state fuel with ⟨hrange', _, hsame⟩ | ⟨all, hall, hlong⟩
      · exact ⟨hrange', hsame⟩
      · obtain rfl := List.append_cancel_right (hall.symm.trans hlog)
        exact (hlong hfits).elim
  | select isBasic => exact hstays (.bind (onApplet_keeps _) fun _ => .pure _)
  | deselect => exact hstays (.bind (onApplet_keeps _) fun _ => .pure _)
  | verifyPin pin => exact hstays (.bind (ok_keeps _) fun _ => .pure _)
  | changePin stack oldPin newPin =>
      exact hstays (.bind (.ite (.pure _) (.bind (.check _) fun _ => ok_keeps _)) fun _ => .pure _)
  | getKeyPairByContainerId containerId =>
      exact hstays (.bind (getKeyPairByContainerId_keeps containerId) fun _ => .pure _)
  | getCertificateByContainerId efSize containerId cert len =>
      exact hstays (.bind (getCertificateByContainerId_keeps efSize containerId cert len) fun _ => .pure _)
  | hashInit algorithm =>
      exact hstays (.bind (.bind (setObj_keeps fun _ => ⟨rfl, rfl, rfl, rfl⟩) fun _ => ok_keeps _) fun _ => .pure _)
  | hashUpdate data dataLen =>
      exact hstays (.bind (.bind (.gets _) fun _ => psoHashInternally_keeps _ _ _) fun _ => .pure _)
  | hashFinal hash =>
      exact hstays (.bind (.bind (ok_keeps _) fun _ => .ite (.bind response_keeps fun _ => .pure _) (.pure _))
        fun _ => .pure _)
  | signInit algorithm key =>
      exact hstays (.bind (.bind (setObj_keeps fun _ => ⟨rfl, rfl, rfl, rfl⟩) fun _ => ok_keeps _) fun _ => .pure _)
  | signFinal hash hashLen signature len => exact hstays (.bind (signFinal_keeps _ _ _ _) fun _ => .pure _)
  | decryptInit algorithm key =>
      exact hstays (.bind (.bind (setObj_keeps fun _ => ⟨rfl, rfl, rfl, rfl⟩) fun _ => ok_keeps _) fun _ => .pure _)
  | decryptFinal data dataLen plain len => exact hstays (.bind (decryptFinal_keeps _ _ _ _) fun _ => .pure _)
  | listKeyPairs => exact hstays (.bind listKeyPairs_keeps fun _ => .pure _)

/-- No result depends on what is behind the pools. -/
theorem MiasCall.respects (call : MiasCall) :
    Relates (Paired Eq True True True False) (fun _ _ _ => True) (call.run T) := by
  have htied := Applet.tied_eq
  have hrides : Rides Eq (SameTables Eq True True True False) := SameTables.rides htied
  have hany : ∀ {α : Type} {result : α → MiasResult} {P : Linked σ Mias → Linked σ Mias → Prop}
      {program : Exec (Linked σ Mias) α}, Relates (Paired Eq True True True False) (fun _ => P) program →
      Relates (Paired Eq True True True False) (fun _ _ _ => True) (program >>= fun value => pure (result value)) :=
    fun h => h.bind fun _ => .pure fun _ _ _ => trivial
  have happlet : ∀ {α : Type} (program : Exec (Linked σ Applet) α),
      Respects (Paired Eq True True True False) (onApplet program) := by
    intro α program
    refine hrides.onApplet (.of_eq ?_ fun _ s => ⟨rfl, rfl⟩)
    rintro ⟨se, a⟩ ⟨se', b⟩ ⟨hse, hobj⟩
    obtain rfl : se = se' := hse
    obtain rfl : a = b := hobj
    rfl
  cases call with
  | select isBasic => exact hany (happlet _)
  | deselect => exact hany (happlet _)
  | verifyPin pin => exact hany (hrides.verifyPin pin)
  | changePin stack oldPin newPin => exact hany (hrides.changePin stack oldPin newPin)
  | getKeyPairByContainerId containerId =>
      exact (getKeyPairByContainerId_relates htied containerId).bind fun _ => .pure fun _ _ _ => trivial
  | getCertificateByContainerId efSize containerId cert len =>
      exact hany (getCertificateByContainerId_respects htied efSize containerId cert len)
  | p11GetObjectByLabel locals label object => exact hany (p11GetObjectByLabel_respects htied locals label object)
  | hashInit algorithm => exact hany (hashInit_respects htied algorithm)
  | hashUpdate data dataLen => exact hany (hashUpdate_respects htied data dataLen)
  | hashFinal hash => exact hany (hrides.hashFinal hash)
  | signInit algorithm key => exact hany (signInit_respects htied algorithm key)
  | signFinal hash hashLen signature len => exact hany (signFinal_respects htied hash hashLen signature len)
  | decryptInit algorithm key => exact hany (decryptInit_respects htied algorithm key)
  | decryptFinal data dataLen plain len => exact hany (hrides.decryptFinal data dataLen plain len)
  | listKeyPairs => exact hany (listKeyPairs_respects htied)

theorem InPools.same {m n : Mias} (h : InPools m n) (hrange : InRange m) : SameTables Eq True True True False m n := by
  have hrest := h.rest
  refine ⟨?_, fun _ => ?_, fun _ => h.keypairs_eq, fun _ => hrange.low, fun _ => hrange.high, fun _ => ?_, fun _ => ?_,
    False.elim⟩
  all_goals rw [hrest]

/-- A newly constructed object, attached to an interface or not. -/
def fresh (card : σ) (buffer : Mem) (present : Bool) : Linked σ Mias :=
  ⟨.create card buffer, { create with applet := create.applet.init present }⟩

/-- **The pools are kept**: in every run without a directory that is too long, the counters are in range in every
state, nothing is written behind the pools, and no call depends on what is there. -/
theorem pools_in_range {card : σ} {buffer : Mem} {present : Bool}
    (h : Reaches T Fitting (fresh card buffer present) s) :
    InRange s.obj ∧ Untouched (fresh card buffer present).obj s.obj ∧
      ∀ call fuel t, t.se = s.se → InPools s.obj t.obj → (MiasCall.run T call fuel s).1 = (call.run T fuel t).1 := by
  have hkept : InRange s.obj ∧ Untouched (fresh card buffer present).obj s.obj := by
    induction h with
    | start => exact ⟨⟨Nat.zero_le _, Int.le_refl (-1), by show (-1 : Int) ≤ 16; decide⟩, .refl _⟩
    | call _ call fuel hlog hallowed ih =>
        obtain ⟨hrange, hsame⟩ := call.kept fuel ih.1 hlog hallowed
        exact ⟨hrange, ih.2.trans hsame⟩
  refine ⟨hkept.1, hkept.2, fun call fuel t hse hpools => ?_⟩
  exact (call.respects fuel s t ⟨hse.symm, hpools.same hkept.1⟩).1

/-- The answers of a card whose directory has this many records. -/
def directoryAnswers (count : UInt8) : List (Option (List UInt8)) :=
  [some [0x90, 0x00], some [0x90, 0x00], some [count, 0x90, 0x00]] ++
    List.replicate count.toNat (some (List.replicate 21 0x41 ++ [0x90, 0x00]))

/-- The two calls of a run: the applet is selected and an object is looked for. -/
def lookupCall : MiasCall := .p11GetObjectByLabel ⟨Mem.zero, 0⟩ (cstr "A") none

def selectedState (count : UInt8) : Linked (List (Option (List UInt8))) Mias :=
  (MiasCall.run scripted (.select true) 2 (fresh (directoryAnswers count) Mem.zero true)).2

/-- What the second call logs. -/
def lookupEvents (count : UInt8) : List Event :=
  (lookupCall.run scripted 2 (selectedState count)).2.se.log.take
    ((lookupCall.run scripted 2 (selectedState count)).2.se.log.length - (selectedState count).se.log.length)

/-- A directory of 32 records fills the pool. -/
theorem pools_in_range_full : (lookupCall.run scripted 2 (selectedState 32)).2.obj.filesNum = 32 ∧
    InRange (lookupCall.run scripted 2 (selectedState 32)).2.obj := by
  have hselect : Reaches scripted Fitting (fresh (directoryAnswers 32) Mem.zero true) (selectedState 32) :=
    .call .start _ 2 (List.append_nil _).symm trivial
  have hlog : (lookupCall.run scripted 2 (selectedState 32)).2.se.log =
      lookupEvents 32 ++ (selectedState 32).se.log := by decide +kernel
  exact ⟨by decide +kernel, (pools_in_range (.call hselect lookupCall 2 hlog (by show RecordsFit _; decide +kernel))).1⟩

/-- A directory of 33 records is stored in a pool of 32 entries. -/
theorem directory_overruns_pool : ∃ s, Reaches scripted (fun _ _ => True)
    (fresh (directoryAnswers 33) Mem.zero true) s ∧ ¬InRange s.obj := by
  have hselect : Reaches scripted (fun _ _ => True) (fresh (directoryAnswers 33) Mem.zero true) (selectedState 33) :=
    .call .start _ 2 (List.append_nil _).symm trivial
  have hlog : (lookupCall.run scripted 2 (selectedState 33)).2.se.log =
      lookupEvents 33 ++ (selectedState 33).se.log := by decide +kernel
  have hfull : (lookupCall.run scripted 2 (selectedState 33)).2.obj.filesNum = 33 := by decide +kernel
  refine ⟨_, .call hselect lookupCall 2 hlog trivial, fun hrange => ?_⟩
  have := hrange.files
  rw [hfull] at this
  exact absurd this (by decide)

end Calls

end TrustOnboard.Mias
