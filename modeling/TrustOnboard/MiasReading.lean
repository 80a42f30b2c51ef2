import TrustOnboard.MiasTrace
import TrustOnboard.MiasCard

/-! Read integrity of the two credential readers. The chunks of a credential are the commands logged
since the note that its read loop was entered. A chunk that is not answered `9000` is skipped by the
loop, not reported: the bytes of the output are the bytes of the file exactly if no chunk failed. -/

namespace TrustOnboard.Mias

open Exec Linked SEInterface

/-! ### The reads of a credential -/

/-- The part of a log written since a read loop was last entered. -/
def sinceReading : List Event → List Event
  | [] => []
  | .note (.reading _ _) :: _ => []
  | event :: earlier => event :: sinceReading earlier

/-- The file offset of the first byte and the size of the credential that was read last. -/
def readingMark : List Event → Option (Nat × Nat)
  | [] => none
  | .note (.reading base size) :: _ => some (base, size)
  | _ :: earlier => readingMark earlier

/-- Commands with what they ended in. -/
abbrev Commands := List (List UInt8 × Option (List UInt8))

/-- The commands of the read loop that was entered last. -/
def readsOf (log : List Event) : Commands := commandsOf (sinceReading log)

/-- The file offset of a READ BINARY. -/
def offsetOf (command : List UInt8) : Nat := word16 (command.getD 2 0) (command.getD 3 0)

/-- Byte `k` of the credential was copied from a READ BINARY answered `9000`, from the byte of its data
that stands for file offset `base + k`. -/
def Covered (reads : Commands) (base k : Nat) (byte : UInt8) : Prop :=
  ∃ command answer t, (command, some answer) ∈ reads ∧ insOf command = SCIns.readBinary.code ∧
    statusWord answer = swOK ∧ t < (responseData answer).length ∧ offsetOf command + t = base + k ∧
    byte = (responseData answer).getD t 0

/-- No hole in the credential. -/
def Intact (reads : Commands) (base size : Nat) (out : Mem) : Prop :=
  ∀ k, k < size → Covered reads base k (out k)

/-- Every chunk was answered `9000`. -/
def AllAccepted (reads : Commands) : Prop := ∀ read ∈ reads, Applet.acceptedResult read.2 = true

/-- No answer carries more data than was asked for. -/
def AtMostRequested (reads : Commands) : Prop :=
  ∀ command answer, (command, some answer) ∈ reads → statusWord answer = swOK →
    (responseData answer).length ≤ (command.getD 4 0).toNat

/-- A credential below offset `65536` is intact if every chunk was answered `9000`, and only then if the
card returns no more than it is asked for. -/
def Verdict (reads : Commands) (base size : Nat) (out : Mem) : Prop :=
  base + size ≤ 65536 → (AllAccepted reads → Intact reads base size out) ∧
    (AtMostRequested reads → Intact reads base size out → AllAccepted reads)

/-- A reader that succeeded has entered a read loop since `start`, at a place of the file where the
credential may begin, and reports its size; the reads of the loop tell how good the buffer is. -/
def Judged (start : List Event) (place : Nat → Prop) (fetched : Fetched) (log : List Event) : Prop :=
  fetched.ok = true → ∃ events base out, log = events ++ start ∧ fetched.out = some out ∧ place base ∧
    readingMark events = some (base, fetched.len) ∧ Verdict (readsOf events) base fetched.len out

theorem Covered.cons {reads : Commands} {base k : Nat} {byte : UInt8} (h : Covered reads base k byte)
    (read : List UInt8 × Option (List UInt8)) : Covered (read :: reads) base k byte := by
  obtain ⟨command, answer, t, hmem, hrest⟩ := h
  exact ⟨command, answer, t, List.mem_cons_of_mem _ hmem, hrest⟩

theorem AllAccepted.tail {reads : Commands} {read : List UInt8 × Option (List UInt8)}
    (h : AllAccepted (read :: reads)) : AllAccepted reads :=
  fun other hmem => h other (List.mem_cons_of_mem _ hmem)

theorem AtMostRequested.tail {reads : Commands} {read : List UInt8 × Option (List UInt8)}
    (h : AtMostRequested (read :: reads)) : AtMostRequested reads :=
  fun command answer hmem => h command answer (List.mem_cons_of_mem _ hmem)

/-! ### One command of the applet -/

variable {σ : Type} {T : Transport σ} {s : Linked σ Mias}

/-- A program of the applet, with what it leaves of the interface. -/
theorem onApplet_meets {program : Exec (Linked σ Applet) Bool} {P : Bool → SEInterface σ → Prop}
    {Q : SEInterface σ → Prop}
    (h : Meets program ⟨s.se, s.obj.applet⟩
      (fun ok t => t.obj = s.obj.applet ∧ ((ok = false ∧ t = ⟨s.se, s.obj.applet⟩ ∧ s.obj.applet.isSelected = false) ∨
        s.obj.applet.isSelected = true ∧ P ok t.se))
      fun t => t.obj = s.obj.applet ∧ Q t.se) :
    Meets (onApplet program) s
      (fun ok s' => s'.obj = s.obj ∧ ((ok = false ∧ s' = s ∧ s.obj.applet.isSelected = false) ∨
        s.obj.applet.isSelected = true ∧ P ok s'.se))
      fun s' => s'.obj = s.obj ∧ Q s'.se := by
  refine .zoom (h.mono ?_ ?_)
  · rintro ok ⟨se, applet⟩ ⟨hobj, hcases⟩
    change applet = s.obj.applet at hobj
    subst hobj
    refine ⟨rfl, ?_⟩
    rcases hcases with ⟨rfl, hsame, hselected⟩ | hpost
    · refine .inl ⟨rfl, ?_, hselected⟩
      rw [hsame]
      rfl
    · exact .inr hpost
  · rintro ⟨se, applet⟩ ⟨hobj, hcut⟩
    change applet = s.obj.applet at hobj
    subst hobj
    exact ⟨rfl, hcut⟩

/-- A command of the MIAS object: the object is kept, and the command was sent if the applet is
selected. -/
theorem ok_meets {cla : UInt8} {transmitted : UInt8 → Exec (SEInterface σ) Bool} {apdu : List UInt8}
    (h : Transmits T apdu (transmitted (cla ||| s.obj.applet.channel))) :
    Meets (ok (Applet.whenSelected cla transmitted)) s
      (fun ok s' => s'.obj = s.obj ∧ ((ok = false ∧ s' = s ∧ s.obj.applet.isSelected = false) ∨
        s.obj.applet.isSelected = true ∧
          ∃ result events, Ran T apdu s.se s'.se result events ∧ ok = Applet.acceptedResult result))
      (fun s' => s'.obj = s.obj ∧ Cut T apdu s.se s'.se) :=
  onApplet_meets (P := fun ok t => ∃ result events, Ran T apdu s.se t result events ∧ ok = Applet.acceptedResult result)
    (Q := Cut T apdu s.se) (Applet.ok_meets (s := ⟨s.se, s.obj.applet⟩) h)

/-- The same without the test of the status word. -/
theorem sent_meets {cla : UInt8} {transmitted : UInt8 → Exec (SEInterface σ) Bool} {apdu : List UInt8}
    (h : Transmits T apdu (transmitted (cla ||| s.obj.applet.channel))) :
    Meets (onApplet (Applet.whenSelected cla transmitted)) s
      (fun ok s' => s'.obj = s.obj ∧ ((ok = false ∧ s' = s ∧ s.obj.applet.isSelected = false) ∨
        s.obj.applet.isSelected = true ∧
          ∃ result events, Ran T apdu s.se s'.se result events ∧ ok = result.isSome))
      (fun s' => s'.obj = s.obj ∧ Cut T apdu s.se s'.se) :=
  onApplet_meets (P := fun ok t => ∃ result events, Ran T apdu s.se t result events ∧ ok = result.isSome)
    (Q := Cut T apdu s.se) (Applet.whenSelected_meets (s := ⟨s.se, s.obj.applet⟩) h)

theorem readBinary_meets (offset : Nat) (le : UInt8) :
    Meets (ok (readBinary T offset le)) s
      (fun ok s' => s'.obj = s.obj ∧ ((ok = false ∧ s' = s ∧ s.obj.applet.isSelected = false) ∨
        s.obj.applet.isSelected = true ∧ ∃ result events,
          Ran T (readApdu s.obj.applet.channel offset le) s.se s'.se result events ∧
            ok = Applet.acceptedResult result))
      (fun _ => True) := by
  unfold readBinary Applet.transmitCase2
  exact (ok_meets (command_transmits T _)).mono (fun _ _ h => h) fun _ _ => trivial

/-- The commands logged since `start`. -/
def Logged (start : List Event) (commands : Commands) (s : Linked σ Mias) : Prop :=
  ∃ events, s.se.log = events ++ start ∧ commandsOf events = commands

theorem Logged.ran {start : List Event} {commands : Commands} {s' : Linked σ Mias} {apdu : List UInt8}
    {result : Option (List UInt8)} {events : List Event} (h : Logged start commands s)
    (hran : Ran T apdu s.se s'.se result events) : Logged start ((apdu, result) :: commands) s' := by
  obtain ⟨earlier, hlog, hcommands⟩ := h
  refine ⟨events ++ earlier, ?_, ?_⟩
  · rw [hran.log_eq, hlog, List.append_assoc]
  · rw [commandsOf_append, hran.ended.commandsOf, hcommands]
    rfl

theorem offsetOf_readApdu (channel : UInt8) {offset : Nat} (h : offset < 65536) (le : UInt8) :
    offsetOf (readApdu channel offset le) = offset := word16_bytes h

/-! ### The read loop -/

/-- What the chunks that a loop has asked for so far amount to, at cursor `x`. The last three fields
are about cards that never return more than was asked for: a chunk that failed leaves a hole, and the
answers are disjoint, so that nothing fills it. -/
structure Progress (base size : Nat) (reads : Commands) (x : Cursor) : Prop where
  offset : x.offset = (base + x.i) % 65536
  covered : AllAccepted reads → base + size ≤ 65536 →
    ∀ k, k < x.i → k < size → Covered reads base k (x.out k)
  within : AtMostRequested reads → x.i ≤ size
  spans : AtMostRequested reads → base + size ≤ 65536 → ∀ command answer, (command, some answer) ∈ reads →
    statusWord answer = swOK → offsetOf command + (responseData answer).length ≤ base + x.i
  hole : AtMostRequested reads → base + size ≤ 65536 → ¬AllAccepted reads →
    ∃ k, k < x.i ∧ ∀ byte, ¬Covered reads base k byte

section Steps

variable {base size width : Nat} {reads : Commands} {x : Cursor} {channel : UInt8}

/-- A read adds a cover only at or after its own offset. -/
theorem not_covered_cons {k : Nat} {command : List UInt8} {result : Option (List UInt8)}
    (hold : ∀ byte, ¬Covered reads base k byte)
    (hnew : ∀ answer, result = some answer → statusWord answer = swOK → base + k < offsetOf command) :
    ∀ byte, ¬Covered ((command, result) :: reads) base k byte := by
  rintro byte ⟨other, answer, t, hmem, hins, hsw, ht, hoffset, hbyte⟩
  rcases List.mem_cons.mp hmem with heq | hmem
  · cases heq
    have hlt := hnew answer rfl hsw
    omega
  · exact hold byte ⟨other, answer, t, hmem, hins, hsw, ht, hoffset, hbyte⟩

theorem Progress.accepted (h : Progress base size reads x) (hsize : size < 65536) (hwidth : 0xEE < width)
    (hx : x.i < size) {answer : List UInt8} (hsw : statusWord answer = swOK) :
    Progress base size
      ((readApdu channel x.offset (lowByte (chunkLen size x.i)), some answer) :: reads)
      ⟨(x.i + (responseData answer).length % width) % 65536,
        (x.offset + (responseData answer).length % width) % 65536, x.out.write x.i (responseData answer)⟩ := by
  have hoffset := h.offset
  have hrange : x.offset < 65536 := by omega
  have hlen := chunkLen_le hx
  have hle := Nat.mod_le (responseData answer).length width
  -- the length of the answer, if it is at most what was asked for
  have hexact : AtMostRequested
      ((readApdu channel x.offset (lowByte (chunkLen size x.i)), some answer) :: reads) →
      (responseData answer).length ≤ chunkLen size x.i ∧
        (responseData answer).length % width = (responseData answer).length := by
    intro hmost
    have hbound := hmost _ answer (List.mem_cons_self ..) hsw
    change (responseData answer).length ≤ (lowByte (chunkLen size x.i)).toNat at hbound
    rw [lowByte_chunkLen hx] at hbound
    exact ⟨hbound, Nat.mod_eq_of_lt (by omega)⟩
  have hstart : base + size ≤ 65536 →
      offsetOf (readApdu channel x.offset (lowByte (chunkLen size x.i))) = base + x.i := by
    intro hfits
    rw [offsetOf_readApdu channel hrange, hoffset]
    omega
  refine ⟨?_, ?_, ?_, ?_, ?_⟩
  · show (x.offset + (responseData answer).length % width) % 65536 =
      (base + (x.i + (responseData answer).length % width) % 65536) % 65536
    omega
  · intro hall hfits k hk hlt
    change k < (x.i + (responseData answer).length % width) % 65536 at hk
    show Covered _ base k (x.out.write x.i (responseData answer) k)
    by_cases hnew : x.i ≤ k
    · have hk' : k < x.i + (responseData answer).length := by omega
      rw [Mem.write_of_mem hnew hk']
      refine ⟨_, answer, k - x.i, List.mem_cons_self .., rfl, hsw, by omega, ?_, rfl⟩
      rw [hstart hfits]
      omega
    · rw [Mem.write_of_lt (by omega)]
      exact (h.covered hall.tail hfits k (by omega) hlt).cons _
  · intro hmost
    obtain ⟨hbound, hmod⟩ := hexact hmost
    show (x.i + (responseData answer).length % width) % 65536 ≤ size
    omega
  · intro hmost hfits command other hmem hother
    obtain ⟨hbound, hmod⟩ := hexact hmost
    show offsetOf command + (responseData other).length ≤
      base + (x.i + (responseData answer).length % width) % 65536
    rcases List.mem_cons.mp hmem with heq | hmem
    · cases heq
      rw [hstart hfits]
      omega
    · have hspan := h.spans hmost.tail hfits command other hmem hother
      omega
  · intro hmost hfits hfailed
    obtain ⟨hbound, hmod⟩ := hexact hmost
    have hold : ¬AllAccepted reads := by
      intro hall
      apply hfailed
      intro read hmem
      rcases List.mem_cons.mp hmem with rfl | hmem
      · exact decide_eq_true hsw
      · exact hall read hmem
    obtain ⟨k, hk, hhole⟩ := h.hole hmost.tail hfits hold
    refine ⟨k, ?_, not_covered_cons hhole fun _ _ _ => ?_⟩
    · show k < (x.i + (responseData answer).length % width) % 65536
      omega
    · rw [hstart hfits]
      omega

theorem Progress.failed (h : Progress base size reads x) (hsize : size < 65536) (hx : x.i < size)
    {command : List UInt8} {result : Option (List UInt8)} (hno : Applet.acceptedResult result = false) :
    Progress base size ((command, result) :: reads)
      ⟨(x.i + chunkLen size x.i) % 65536, (x.offset + chunkLen size x.i) % 65536, x.out⟩ := by
  have hoffset := h.offset
  have hlen := chunkLen_le hx
  have hrefused : ∀ answer, result = some answer → statusWord answer ≠ swOK := by
    rintro answer rfl
    exact of_decide_eq_false hno
  refine ⟨?_, ?_, ?_, ?_, ?_⟩
  · show (x.offset + chunkLen size x.i) % 65536 = (base + (x.i + chunkLen size x.i) % 65536) % 65536
    omega
  · intro hall
    have haccepted := hall _ (List.mem_cons_self ..)
    rw [hno] at haccepted
    cases haccepted
  · intro _
    show (x.i + chunkLen size x.i) % 65536 ≤ size
    omega
  · intro hmost hfits other answer hmem hsw
    show offsetOf other + (responseData answer).length ≤ base + (x.i + chunkLen size x.i) % 65536
    rcases List.mem_cons.mp hmem with heq | hmem
    · cases heq
      exact absurd hsw (hrefused answer rfl)
    · have hspan := h.spans hmost.tail hfits other answer hmem hsw
      omega
  · intro hmost hfits _
    have hnew : ∀ k byte, ¬Covered reads base k byte → ¬Covered ((command, result) :: reads) base k byte := by
      rintro k byte hold ⟨other, answer, t, hmem, hrest⟩
      rcases List.mem_cons.mp hmem with heq | hmem
      · cases heq
        exact hrefused answer rfl hrest.2.1
      · exact hold ⟨other, answer, t, hmem, hrest⟩
    by_cases hall : AllAccepted reads
    · -- the first chunk that failed: nothing before it reaches as far
      refine ⟨x.i, ?_, fun byte => hnew x.i byte ?_⟩
      · show x.i < (x.i + chunkLen size x.i) % 65536
        omega
      · rintro ⟨other, answer, t, hmem, _, hsw, ht, heq, _⟩
        have hspan := h.spans hmost.tail hfits other answer hmem hsw
        omega
    · obtain ⟨k, hk, hhole⟩ := h.hole hmost.tail hfits hall
      refine ⟨k, ?_, fun byte => hnew k byte (hhole byte)⟩
      show k < (x.i + chunkLen size x.i) % 65536
      omega

theorem Progress.start (hbase : base < 65536) (out : Mem) : Progress base size [] ⟨0, base, out⟩ where
  offset := (Nat.mod_eq_of_lt hbase).symm
  covered _ _ k hk := absurd hk (Nat.not_lt_zero k)
  within _ := Nat.zero_le size
  spans _ _ command answer hmem := by cases hmem
  hole _ _ hfailed := (hfailed fun read hmem => by cases hmem).elim

theorem Progress.verdict (h : Progress base size reads x) (hend : size ≤ x.i) :
    Verdict reads base size x.out := by
  intro hfits
  constructor
  · intro hall k hk
    exact h.covered hall hfits k (by omega) hk
  · intro hmost hintact
    by_contra hfailed
    obtain ⟨k, hk, hhole⟩ := h.hole hmost hfits hfailed
    have hwithin := h.within hmost
    exact hhole _ (hintact k (by omega))

end Steps

/-- Events of commands, no notes. -/
def Noteless (events : List Event) : Prop := ∀ event ∈ events, ∀ n, event ≠ .note n

theorem noteless_of_ended {command : List UInt8} {result : Option (List UInt8)} {events : List Event}
    (h : Ended command result events) : Noteless events := by
  rintro _ hmem n rfl
  exact h.ofCommand _ hmem

theorem Noteless.append {later earlier : List Event} (h : Noteless later) (h' : Noteless earlier) :
    Noteless (later ++ earlier) := by
  intro event hmem
  rcases List.mem_append.mp hmem with hmem | hmem
  · exact h event hmem
  · exact h' event hmem

theorem Noteless.reading {events : List Event} (h : Noteless events) (base size : Nat) (log : List Event) :
    sinceReading (events ++ .note (.reading base size) :: log) = events ∧
      readingMark (events ++ .note (.reading base size) :: log) = some (base, size) := by
  induction events with
  | nil => exact ⟨rfl, rfl⟩
  | cons event events ih =>
      obtain ⟨hsince, hmark⟩ := ih fun other hmem => h other (List.mem_cons_of_mem _ hmem)
      have hevent := h event (List.mem_cons_self ..)
      cases event with
      | note n => exact (hevent n rfl).elim
      | exchange apdu answer => exact ⟨congrArg _ hsince, hmark⟩
      | answered command answer => exact ⟨congrArg _ hsince, hmark⟩
      | unanswered command => exact ⟨congrArg _ hsince, hmark⟩

/-- One turn of the loop: a chunk that was answered `9000`, or one that failed and is skipped. -/
theorem chunkTurn_meets {base size width : Nat} (hsize : size < 65536) (hwidth : 0xEE < width)
    (hselected : s.obj.applet.isSelected = true) {reads : Commands} {x : Cursor}
    (hprogress : Progress base size reads x) :
    Meets (chunkTurn T width size x) s
      (fun turn s' => match turn with
        | .again x' => s'.obj = s.obj ∧ ∃ events, s'.se.log = events ++ s.se.log ∧ Noteless events ∧
            Progress base size (commandsOf events ++ reads) x'
        | .stop out => s' = s ∧ out = x.out ∧ size ≤ x.i)
      (fun _ => True) := by
  refine .ite (fun hx => ?_) fun hx => .pure ⟨rfl, rfl, Nat.le_of_not_lt hx⟩
  refine .bind (readBinary_meets x.offset (lowByte (chunkLen size x.i))) ?_
  rintro ok s' ⟨hobj, ⟨_, _, hno⟩ | ⟨_, result, events, hran, rfl⟩⟩
  · rw [hselected] at hno
    cases hno
  have hnoteless := noteless_of_ended hran.ended
  have hcommands := hran.ended.commandsOf
  refine .ite (fun hok => ?_) fun hno => ?_
  · obtain ⟨answer, rfl, hsw⟩ := Applet.answer_of_accepted hok
    intro fuel
    rw [bind_done (response_done (hobj ▸ hselected) (hran.holds answer rfl) fuel)]
    refine ⟨hobj, events, hran.log_eq, hnoteless, ?_⟩
    rw [hcommands]
    exact hprogress.accepted hsize hwidth hx hsw
  · refine .pure ⟨hobj, events, hran.log_eq, hnoteless, ?_⟩
    rw [hcommands]
    exact hprogress.failed hsize hx (Bool.not_eq_true _ ▸ hno)

/-- **The read loop, for every card.** -/
theorem readChunks_meets {base size width : Nat} (hbase : base < 65536) (hsize : size < 65536)
    (hwidth : 0xEE < width) (hselected : s.obj.applet.isSelected = true) (out : Mem) :
    Meets (readChunks T width base size out) s
      (fun out s' => ∃ events, s'.se.log = events ++ .note (.reading base size) :: s.se.log ∧
        Noteless events ∧ Verdict (commandsOf events) base size out)
      (fun _ => True) := by
  refine .modify_bind (.loop (fun x t => t.obj = s.obj ∧ ∃ events,
    t.se.log = events ++ .note (.reading base size) :: s.se.log ∧ Noteless events ∧
      Progress base size (commandsOf events) x) (fun _ _ _ => trivial) ?_ ?_)
  · rintro x t ⟨hobj, events, hlog, hnoteless, hprogress⟩
    refine (chunkTurn_meets hsize hwidth (hobj ▸ hselected) hprogress).mono ?_ fun _ _ => trivial
    rintro (x' | out) t' hturn
    · obtain ⟨hobj', events', hlog', hnoteless', hprogress'⟩ := hturn
      refine ⟨hobj'.trans hobj, events' ++ events, ?_, hnoteless'.append hnoteless, ?_⟩
      · rw [hlog', hlog, List.append_assoc]
      · rw [commandsOf_append]
        exact hprogress'
    · obtain ⟨rfl, rfl, hend⟩ := hturn
      exact ⟨events, hlog, hnoteless, hprogress.verdict hend⟩
  · have hnone : Noteless [] := fun _ hmem => by cases hmem
    exact ⟨rfl, [], rfl, hnone, .start hbase out⟩

/-! ### The readers -/

variable {start : List Event}

/-- Whatever is not selection itself keeps the selection, and the log only grows. -/
theorem follows_meets (T : Transport σ) {α : Type} {program : Exec (Linked σ Mias) α}
    (h : Stays (Within T Mias.applet (fun _ => True) fun _ => True) program) (hstart : start <:+ s.se.log) :
    Meets program s
      (fun _ s' => start <:+ s'.se.log ∧ s'.obj.applet.isSelected = s.obj.applet.isSelected)
      (fun _ => True) := by
  refine (h.meets s).mono ?_ fun _ _ => trivial
  rintro _ s' ⟨happlet, events, hlog, _⟩
  rw [happlet, hlog]
  exact ⟨hstart.trans (List.suffix_append _ _), rfl⟩

/-- An accepted command shows that the applet is selected. -/
theorem accepted_meets {cla : UInt8} {transmitted : UInt8 → Exec (SEInterface σ) Bool} {apdu : List UInt8}
    (h : Transmits T apdu (transmitted (cla ||| s.obj.applet.channel))) (hstart : start <:+ s.se.log) :
    Meets (ok (Applet.whenSelected cla transmitted)) s
      (fun ok s' => start <:+ s'.se.log ∧ (ok = true → s'.obj.applet.isSelected = true)) (fun _ => True) := by
  refine (ok_meets h).mono ?_ fun _ _ => trivial
  rintro ok s' ⟨hobj, ⟨rfl, rfl, _⟩ | ⟨hselected, result, events, hran, _⟩⟩
  · exact ⟨hstart, fun hok => by cases hok⟩
  · rw [hobj, hran.log_eq]
    exact ⟨hstart.trans (List.suffix_append _ _), fun _ => hselected⟩

theorem selectFile_accepted (path : List UInt8) (hstart : start <:+ s.se.log) :
    Meets (ok (selectFile T path)) s
      (fun ok s' => start <:+ s'.se.log ∧ (ok = true → s'.obj.applet.isSelected = true)) (fun _ => True) := by
  unfold selectFile Applet.transmitCase3
  exact accepted_meets (fill_transmits (command_transmits T _)) hstart

theorem selectFileLe_accepted (path : List UInt8) (le : UInt8) (hstart : start <:+ s.se.log) :
    Meets (ok (selectFileLe T path le)) s
      (fun ok s' => start <:+ s'.se.log ∧ (ok = true → s'.obj.applet.isSelected = true)) (fun _ => True) := by
  unfold selectFileLe Applet.transmitCase4
  exact accepted_meets (fill_transmits (command_transmits T _)) hstart

theorem valueLength_lt {initial : Nat} (h : initial < 65536) (record : Mem) :
    (valueLength initial record).1 < 65536 := by
  unfold valueLength
  split
  · have := (record 0).toNat_lt
    show (record 0).toNat < 65536
    omega
  · show List.foldl _ initial (List.range _) < 65536
    generalize List.range _ = indices
    induction indices generalizing initial with
    | nil => exact h
    | cons i indices ih => exact ih (Nat.mod_lt _ (by omega))

theorem templateSize_lt {initial : Nat} (h : initial < 65536) (se : SEInterface σ) :
    Meets (templateSize initial) se (fun size t => size < 65536 ∧ t = se) (fun _ => True) := by
  refine .gets_bind (.ite (fun _ => .gets_bind ?_) fun _ => .pure ⟨h, rfl⟩)
  refine .loop (fun x t => x.2 < 65536 ∧ t = se) (fun _ _ _ => trivial) ?_ ⟨h, rfl⟩
  rintro x t ⟨hx, rfl⟩
  refine .ite (fun _ => .gets_bind (.gets_bind (.gets_bind (.pure ⟨?_, rfl⟩)))) fun _ => .pure ⟨hx, rfl⟩
  show (if _ then _ else x.2) < 65536
  split
  · exact word16_lt _ _
  · exact hx

section Readers

variable {initial base size width : Nat} (hstart : start <:+ s.se.log) (buffer : Mem)

include hstart

/-- The read loop of a reader, in the part of the log that the reader writes. -/
theorem readChunks_judged (hbase : base < 65536) (hsize : size < 65536) (hwidth : 0xEE < width)
    (hselected : s.obj.applet.isSelected = true) :
    Meets (readChunks T width base size buffer) s
      (fun out s' => ∃ events, s'.se.log = events ++ start ∧ readingMark events = some (base, size) ∧
        Verdict (readsOf events) base size out)
      (fun _ => True) := by
  refine (readChunks_meets hbase hsize hwidth hselected buffer).mono ?_ fun _ _ => trivial
  rintro out s' ⟨events, hlog, hnoteless, hverdict⟩
  obtain ⟨earlier, hearlier⟩ := hstart
  obtain ⟨hsince, hmark⟩ := hnoteless.reading base size earlier
  refine ⟨events ++ .note (.reading base size) :: earlier, ?_, hmark, ?_⟩
  · rw [hlog, ← hearlier]
    simp
  · rw [readsOf, hsince]
    exact hverdict

theorem p11ReadValue_judged (hinitial : initial < 65536) (hselected : s.obj.applet.isSelected = true)
    (offset : Nat) (record : Mem) :
    Meets (p11ReadValue T initial offset (some buffer) record) s
      (fun found s' => ∀ fetched, found.1 = some fetched →
        Judged start (fun _ => True) fetched s'.se.log)
      (fun _ => True) := by
  refine .bind (follows_meets T (readLength_stays within_bears trivial _ _) hstart) ?_
  rintro ⟨_ | application, record⟩ s₁ ⟨hstart, hsame₁⟩
  · exact .pure fun _ heq => by cases heq
  refine .bind (follows_meets T (readLength_stays within_bears trivial _ _) hstart) ?_
  rintro ⟨_ | objectId, record⟩ s₂ ⟨hstart, hsame₂⟩
  · exact .pure fun _ heq => by cases heq
  refine .bind (follows_meets T (ok_stays (readBinary_stays within_bears trivial _ _)) hstart) ?_
  rintro ok s₃ ⟨hstart, hsame₃⟩
  refine .ite (fun _ => ?_) fun _ => .pure fun _ heq => by cases heq
  refine .bind (follows_meets T (readRecord_stays record) hstart) ?_
  rintro read s₄ ⟨hstart, hsame₄⟩
  refine .ite (fun _ => ?_) fun _ => .pure fun _ heq => by cases heq
  refine .bind (readChunks_judged hstart buffer (Nat.mod_lt _ (by omega)) (valueLength_lt hinitial _)
    (by omega) ?_) ?_
  · rw [hsame₄, hsame₃, hsame₂, hsame₁]
    exact hselected
  · rintro out s₅ ⟨events, hlog, hmark, hverdict⟩
    refine .pure ?_
    rintro fetched heq
    cases heq
    exact fun _ => ⟨events, _, out, hlog, rfl, trivial, hmark, hverdict⟩

theorem p11TryFile_judged (hinitial : initial < 65536) (label : List UInt8) (efid : Nat) (record : Mem) :
    Meets (p11TryFile T initial label (some buffer) efid record) s
      (fun found s' => ∀ fetched, found.1 = some fetched →
        Judged start (fun _ => True) fetched s'.se.log)
      (fun _ => True) := by
  refine .bind (selectFile_accepted _ hstart) ?_
  rintro ok s₁ ⟨hstart, hselected⟩
  refine .ite (fun hok => ?_) fun _ => .pure fun _ heq => by cases heq
  refine .bind (follows_meets T (readLength_stays within_bears trivial _ _) hstart) ?_
  rintro ⟨_ | length, record⟩ s₂ ⟨hstart, hsame₂⟩
  · exact .pure fun _ heq => by cases heq
  refine .bind (follows_meets T (ok_stays (readBinary_stays within_bears trivial _ _)) hstart) ?_
  rintro ok s₃ ⟨hstart, hsame₃⟩
  refine .ite (fun _ => ?_) fun _ => .pure fun _ heq => by cases heq
  refine .bind (follows_meets T response_stays hstart) ?_
  rintro data s₄ ⟨hstart, hsame₄⟩
  refine .ite (fun _ => .check_bind (fun _ => ?_) fun _ => trivial) fun _ => .pure fun _ heq => by cases heq
  refine .bind (follows_meets T (.loop (fun trimPos => .bind (.check _) fun _ =>
    .ite (.pure _) (.pure _)) _) hstart) ?_
  rintro trimPos s₅ ⟨hstart, hsame₅⟩
  refine .ite (fun _ => p11ReadValue_judged hstart buffer hinitial ?_ _ _) fun _ =>
    .pure fun _ heq => by cases heq
  rw [hsame₅, hsame₄, hsame₃, hsame₂]
  exact hselected hok

theorem p11Search_judged (hinitial : initial < 65536) (label : List UInt8) (remaining j : Nat)
    (record : Mem) :
    Meets (p11Search T initial label (some buffer) remaining j record) s
      (fun fetched s' => Judged start (fun _ => True) fetched s'.se.log) (fun _ => True) := by
  induction remaining generalizing s j record with
  | zero => exact .pure fun hok => by cases hok
  | succ remaining ih =>
      refine .gets_bind (.ite (fun _ => ?_) fun _ => ih hstart (j + 1) record)
      have htried := (p11TryFile_judged (T := T) hstart buffer hinitial label (s.obj.files j).efid record).and
        (follows_meets T (p11TryFile_stays within_bears trivial trivial (fun _ _ => trivial) _ _ _ _ _) hstart)
      refine .bind (htried.mono (fun _ _ h => h) fun _ _ => trivial) ?_
      rintro ⟨_ | fetched, record⟩ s' ⟨hjudged, hstart, _⟩
      · exact ih hstart (j + 1) record
      · exact .pure (hjudged fetched rfl)

theorem p11Lookup_judged (locals : P11Locals) (label : List UInt8) :
    Meets (p11Lookup T locals label (some buffer)) s
      (fun fetched s' => Judged start (fun _ => True) fetched s'.se.log) (fun _ => True) := by
  refine .modify_bind (.bind (selectFile_accepted _ hstart) ?_)
  rintro ok s₁ ⟨hstart, _⟩
  refine .ite (fun _ => ?_) fun _ => .pure fun hok => by cases hok
  refine .bind (follows_meets T (ok_stays (readBinary_stays within_bears trivial _ _)) hstart) ?_
  rintro ok s₂ ⟨hstart, _⟩
  refine .ite (fun _ => .bind (follows_meets T response_stays hstart) ?_) fun _ => .pure fun hok => by cases hok
  rintro data s₃ ⟨hstart, _⟩
  refine .check_bind (fun _ => .ite (fun _ => ?_) fun _ => .pure fun hok => by cases hok) fun _ => trivial
  refine .bind (follows_meets T (directoryLoop_stays within_bears trivial _ _ _) hstart) ?_
  rintro record s₄ ⟨hstart, _⟩
  exact .gets_bind (p11Search_judged hstart buffer locals.size.toNat_lt label _ _ _)

end Readers

theorem Judged.leave {place : Nat → Prop} {fetched : Fetched} {log : List Event}
    (h : Judged start place fetched log) : Judged start place fetched (.note .p11Leave :: log) := by
  intro hok
  obtain ⟨events, base, out, rfl, hout, hplace, hmark, hverdict⟩ := h hok
  exact ⟨.note .p11Leave :: events, base, out, rfl, hout, hplace, hmark, hverdict⟩

theorem p11GetObjectByLabel_judged (locals : P11Locals) (label : List UInt8) (buffer : Mem) :
    Meets (p11GetObjectByLabel T locals label (some buffer)) s
      (fun fetched s' => Judged s.se.log (fun _ => True) fetched s'.se.log) (fun _ => True) := by
  refine .modify_bind (.bind (p11Lookup_judged (List.suffix_cons _ _) buffer locals label) ?_)
  intro fetched s' hjudged
  exact .modify_bind (.pure hjudged.leave)

theorem getCertificateByContainerId_judged (efSize : UInt16) (containerId : UInt8) (buffer : Mem)
    (len : Nat) :
    Meets (getCertificateByContainerId T efSize containerId (some buffer) len) s
      (fun fetched s' => Judged s.se.log (· = 0) fetched s'.se.log) (fun _ => True) := by
  refine .bind (follows_meets T (getKeyPairByContainerId_stays within_bears trivial trivial _) (List.suffix_refl _)) ?_
  rintro (_ | index) s₁ ⟨hstart, _⟩
  · exact .pure fun hok => by cases hok
  refine .gets_bind (.ite (fun _ => ?_) fun _ => .pure fun hok => by cases hok)
  refine .bind (selectFileLe_accepted _ _ hstart) ?_
  rintro ok s₂ ⟨hstart, hselected⟩
  refine .ite (fun hok => ?_) fun _ => .pure fun hok => by cases hok
  refine .zoom_bind (templateSize_lt efSize.toNat_lt _) (fun _ _ => trivial) ?_
  rintro size _ ⟨hsize, rfl⟩
  refine .ite (fun _ => ?_) fun _ => .pure fun hok => by cases hok
  refine .bind (readChunks_judged hstart buffer (by decide : 0 < 65536) hsize (by decide : 0xEE < 256)
    (hselected hok)) ?_
  rintro out s₃ ⟨events, hlog, hmark, hverdict⟩
  refine .ite (fun _ => .pure fun hok => by cases hok) fun _ => .pure fun _ => ?_
  exact ⟨events, 0, out, hlog, rfl, rfl, hmark, hverdict⟩

/-! ### Read integrity -/

/-- The two readers of credentials with their arguments. -/
inductive Reader where
  | certificate (efSize : UInt16) (containerId : UInt8) (len : Nat)
  | object (locals : P11Locals) (label : List UInt8)

/-- A certificate is a file, an object begins somewhere in its file. -/
def Reader.Place : Reader → Nat → Prop
  | .certificate _ _ _, base => base = 0
  | .object _ _, _ => True

/-- Call a reader with an output buffer. -/
def Reader.run (T : Transport σ) (buffer : Mem) : Reader → Exec (Linked σ Mias) Fetched
  | .certificate efSize containerId len => getCertificateByContainerId T efSize containerId (some buffer) len
  | .object locals label => p11GetObjectByLabel T locals label (some buffer)

/-- **Read integrity.** A reader that returns true has written every byte of the credential from a
READ BINARY answered `9000` at the byte's offset, if no chunk failed; if a chunk failed, it has returned
true over a hole. -/
theorem read_intact_iff_no_chunk_failed (T : Transport σ) (reader : Reader) (buffer : Mem)
    (s s' : Linked σ Mias) (fuel : Nat) (fetched : Fetched)
    (hrun : reader.run T buffer fuel s = (.done fetched, s')) (hok : fetched.ok = true) :
    ∃ events base out, s'.se.log = events ++ s.se.log ∧ fetched.out = some out ∧ reader.Place base ∧
      readingMark events = some (base, fetched.len) ∧
      (base + fetched.len ≤ 65536 →
        (AllAccepted (readsOf events) → Intact (readsOf events) base fetched.len out) ∧
        (AtMostRequested (readsOf events) → Intact (readsOf events) base fetched.len out →
          AllAccepted (readsOf events))) := by
  cases reader with
  | certificate efSize containerId len =>
      exact (getCertificateByContainerId_judged efSize containerId buffer len).done hrun hok
  | object locals label => exact (p11GetObjectByLabel_judged locals label buffer).done hrun hok

/-- A selected applet in front of a card that answers from a list. -/
def scriptedMias (answers : List (Option (List UInt8))) : Linked (List (Option (List UInt8))) Mias :=
  ⟨.create answers .zero,
    { create with applet := { Applet.create aid with attached := true, isSelected := true, isBasic := true } }⟩

/-- A directory with the file `0201`, "pubdat00" in "p11", and the file up to the header of a value of
two bytes. -/
def labelledFile : List (Option (List UInt8)) :=
  [some [0x90, 0x00], some [1, 0x90, 0x00],
    some ([2, 1, 0, 25] ++ cstr "pubdat00" ++ cstr "p11" ++ [0, 0, 0, 0, 0, 0] ++ [0x90, 0x00]),
    some [0x90, 0x00], some [1, 0x90, 0x00], some [0x41, 0x90, 0x00], some [0, 0x90, 0x00],
    some [0, 0x90, 0x00], some [2, 0xC0, 0xC1, 0, 0, 0x90, 0x00]]

/-- The object reader for label "A". -/
def readLabelled (answers : List (Option (List UInt8))) :
    Outcome Fetched × Linked (List (Option (List UInt8))) Mias :=
  (Reader.object ⟨.zero, 0⟩ [0x41]).run scripted .zero 4 (scriptedMias (labelledFile ++ answers))

/-- What is compared of a result. -/
def Fetched.view (fetched : Fetched) : Bool × Nat × Bool := (fetched.ok, fetched.len, fetched.out.isSome)

theorem read_intact_one_chunk : ∃ fetched s' base out,
    readLabelled [some [0xC0, 0xC1, 0x90, 0x00]] = (.done fetched, s') ∧ fetched.ok = true ∧
    fetched.out = some out ∧ Intact (readsOf s'.se.log) base fetched.len out := by
  have hview : (readLabelled [some [0xC0, 0xC1, 0x90, 0x00]]).1.value?.map Fetched.view =
      some (true, 2, true) := by decide +kernel
  have hmark : readingMark (readLabelled [some [0xC0, 0xC1, 0x90, 0x00]]).2.se.log = some (21, 2) := by
    decide +kernel
  have hreads : readsOf (readLabelled [some [0xC0, 0xC1, 0x90, 0x00]]).2.se.log =
      [([0x00, 0xB0, 0x00, 0x15, 0x02], some [0xC0, 0xC1, 0x90, 0x00])] := by decide +kernel
  obtain ⟨fetched, hrun, hseen⟩ := done_of_value? hview
  have hok : fetched.ok = true := congrArg Prod.fst hseen
  obtain ⟨events, base, out, hlog, hout, _, hmark', hverdict⟩ :=
    read_intact_iff_no_chunk_failed scripted (.object ⟨.zero, 0⟩ [0x41]) .zero
      (scriptedMias (labelledFile ++ [some [0xC0, 0xC1, 0x90, 0x00]])) _ 4 fetched hrun hok
  have hevents : (readLabelled [some [0xC0, 0xC1, 0x90, 0x00]]).2.se.log = events :=
    hlog.trans (List.append_nil events)
  rw [← hevents] at hverdict hmark'
  rw [hmark] at hmark'
  obtain ⟨hbase, hlen⟩ : 21 = base ∧ 2 = fetched.len := by simpa using hmark'
  refine ⟨fetched, _, base, out, hrun, hok, hout, (hverdict ?_).1 ?_⟩
  · omega
  · rw [hreads]
    intro read hmem
    rw [List.mem_singleton.mp hmem]
    decide

/-- The one chunk of the value is refused, and the reader returns true with two bytes that were never
read. -/
theorem refused_chunk_reported_as_read : ∃ fetched s' out,
    readLabelled [some [0x6F, 0x00]] = (.done fetched, s') ∧ fetched.ok = true ∧ fetched.len = 2 ∧
    fetched.out = some out ∧ readingMark s'.se.log = some (21, 2) ∧
    ¬Intact (readsOf s'.se.log) 21 2 out := by
  have hview : (readLabelled [some [0x6F, 0x00]]).1.value?.map Fetched.view = some (true, 2, true) := by
    decide +kernel
  have hmark : readingMark (readLabelled [some [0x6F, 0x00]]).2.se.log = some (21, 2) := by decide +kernel
  have hreads : readsOf (readLabelled [some [0x6F, 0x00]]).2.se.log =
      [([0x00, 0xB0, 0x00, 0x15, 0x02], some [0x6F, 0x00])] := by decide +kernel
  obtain ⟨⟨ok, out, len⟩, hrun, hseen⟩ := done_of_value? hview
  obtain ⟨rfl, rfl, hsome⟩ : ok = true ∧ len = 2 ∧ out.isSome = true := by
    simpa [Fetched.view] using hseen
  obtain ⟨out, rfl⟩ := Option.isSome_iff_exists.mp hsome
  refine ⟨_, _, out, hrun, rfl, rfl, rfl, hmark, ?_⟩
  intro hintact
  obtain ⟨command, answer, t, hmem, _, hsw, _⟩ := hintact 0 (by decide)
  rw [hreads] at hmem
  cases List.mem_singleton.mp hmem
  exact absurd hsw (by decide)

end TrustOnboard.Mias
