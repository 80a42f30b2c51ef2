import TrustOnboard.ExecRules

/-! The choice of a card reader in `Pcsc.cpp`. The names of the readers come one after another, each with a NUL, and a
NUL behind the last; `PcscSEInterface::open` counts through them up to the index it was created with. Its test for the
end is on a pointer that is only ever incremented, so that an index without a name runs out of the names. -/

namespace TrustOnboard.Pcsc

open Exec

/-! ### Strings in a buffer -/

/-- The string at a place of a buffer, if it ends inside. -/
def stringAt (buffer : List UInt8) (p : Nat) : Option (List UInt8) :=
  if 0 ∈ buffer.drop p then some ((buffer.drop p).takeWhile (· ≠ 0)) else none

/-- Strings one after another, each with its NUL. -/
def joined (names : List (List UInt8)) : List UInt8 := names.flatMap fun name => name ++ [0]

/-- The names of readers, as PC/SC delivers them. -/
structure Readers where
  names : List (List UInt8)
  nonempty : ∀ name ∈ names, name ≠ []
  without_nul : ∀ name ∈ names, 0 ∉ name

def Readers.multiString (readers : Readers) : List UInt8 := joined readers.names ++ [0]

section Strings

theorem takeWhile_nul {name : List UInt8} (h : 0 ∉ name) (rest : List UInt8) :
    (name ++ 0 :: rest).takeWhile (· ≠ 0) = name := by
  induction name with
  | nil => rfl
  | cons c name ih =>
      have hc : c ≠ 0 := fun heq => h (heq ▸ List.mem_cons_self)
      rw [List.cons_append, List.takeWhile_cons_of_pos (by simpa using hc), ih fun hmem =>
        h (List.mem_cons_of_mem c hmem)]

/-- A string is found behind what is in front of it. -/
theorem stringAt_append (front : List UInt8) {name : List UInt8} (h : 0 ∉ name) (rest : List UInt8) :
    stringAt (front ++ (name ++ 0 :: rest)) front.length = some name := by
  rw [stringAt, List.drop_left, if_pos (List.mem_append_right _ List.mem_cons_self), takeWhile_nul h]

theorem stringAt_end (buffer : List UInt8) : stringAt buffer buffer.length = none := by
  rw [stringAt, List.drop_length, if_neg List.not_mem_nil]

theorem joined_append (names : List (List UInt8)) (name : List UInt8) :
    (joined (names ++ [name])).length = (joined names).length + name.length + 1 := by
  simp [joined]
  omega

end Strings

/-! ### The interface -/

/-- The functions of the PC/SC library: whether a call succeeds, and what it delivers. -/
structure Winscard (ε : Type) where
  sCardEstablishContext : ε → Bool × ε
  sCardListReadersLen : ε → Option Nat × ε
  sCardListReaders (lenReaders : Nat) : ε → Option (List UInt8) × ε
  sCardConnect (reader : List UInt8) : ε → Bool × ε

/-- `PcscSEInterface`, the state of everything else, and the readers that `SCardConnect` was called with, the last one
first. -/
structure PcscSEInterface (ε : Type) where
  env : ε
  idx : Int
  initialized : Bool
  connects : List (List UInt8)

section Model

variable {ε : Type} (winscard : Winscard ε)

/-- A call of the library. -/
def outside {α : Type} (call : ε → α × ε) : Exec (PcscSEInterface ε) α :=
  fun _ s => (.done (call s.env).1, { s with env := (call s.env).2 })

/-- `strlen`; a string that does not end in the buffer is not read. -/
def strlen (readerNames : List UInt8) (p : Nat) : Exec (PcscSEInterface ε) Nat :=
  match stringAt readerNames p with
  | none => fault
  | some name => pure name.length

/-- A turn of the loop over the names at a place `p` of the buffer and at a position. NULL is `none`; there is no place
to which a pointer is incremented from the buffer that is NULL. -/
def scanTurn (readerNames : List UInt8) (idx : Int) (x : Option Nat × Int) :
    Exec (PcscSEInterface ε) (Turn (Option Nat × Int) (Option Nat)) := do
  match x.1 with
  | none => return .stop none
  | some p =>
      if x.2 = idx then
        return .stop (some p)
      else
        let len ← strlen readerNames p
        return .again (some (p + (len + 1)), x.2 + 1)

def scan (readerNames : List UInt8) (idx : Int) : Exec (PcscSEInterface ε) (Option Nat) :=
  loop (scanTurn readerNames idx) (some 0, 0)

/-- `SCardConnect` with the string at `p`. -/
def connect (readerNames : List UInt8) (p : Nat) : Exec (PcscSEInterface ε) Bool :=
  match stringAt readerNames p with
  | none => fault
  | some reader => do
      modify fun s => { s with connects := reader :: s.connects }
      outside (winscard.sCardConnect reader)

/-- `open` behind the names of the readers. -/
def openAmong (readerNames : List UInt8) : Exec (PcscSEInterface ε) Bool := do
  let idx ← gets fun s => s.idx
  match ← scan readerNames idx with
  | none => return false
  | some p =>
      if ← connect winscard readerNames p then
        modify fun s => { s with initialized := true }
        return true
      else
        return false

/-- `PcscSEInterface::open`. -/
def openInterface : Exec (PcscSEInterface ε) Bool := do
  if ← gets fun s => s.initialized then
    return true
  else
    if ← outside winscard.sCardEstablishContext then
      match ← outside winscard.sCardListReadersLen with
      | none => return false
      | some lenReaders =>
          match ← outside (winscard.sCardListReaders lenReaders) with
          | none => return false
          | some readerNames => openAmong winscard readerNames
    else
      return false

end Model

/-! ### The scan -/

section Scan

variable {ε : Type} {winscard : Winscard ε} {readers : Readers} {s : PcscSEInterface ε} {idx : Int}

/-- A turn at a name that is not the one that is looked for. -/
theorem scanTurn_again {buffer name : List UInt8} {p : Nat} {pos : Int} (hstring : stringAt buffer p = some name)
    (hpos : pos ≠ idx) :
    Evals (scanTurn buffer idx (some p, pos)) s (.again (some (p + (name.length + 1)), pos + 1)) s := by
  refine .of_eq fun fuel => ?_
  unfold scanTurn strlen
  dsimp only
  rw [if_neg hpos, hstring]
  rfl

theorem scanTurn_stop {buffer : List UInt8} {p : Nat} :
    Evals (scanTurn buffer idx (some p, idx)) s (.stop (some p)) s := by
  refine .of_eq fun fuel => ?_
  unfold scanTurn
  dsimp only
  rw [if_pos rfl]
  rfl

/-- The name behind those that are passed. -/
theorem stringAt_next (passed left : List (List UInt8)) {name : List UInt8}
    (hsplit : readers.names = passed ++ name :: left) :
    stringAt readers.multiString (joined passed).length = some name := by
  have hnul : 0 ∉ name := readers.without_nul name (by rw [hsplit]; simp)
  have hbuffer : readers.multiString = joined passed ++ (name ++ 0 :: (joined left ++ [0])) := by
    simp [Readers.multiString, joined, hsplit]
  rw [hbuffer, stringAt_append _ hnul]

/-- The empty name behind the last one. -/
theorem stringAt_last : stringAt readers.multiString (joined readers.names).length = some [] :=
  stringAt_append (joined readers.names) List.not_mem_nil []

/-- The scan passes the names one by one up to the position `i`. -/
theorem scan_passes (readers : Readers) {i : Nat} (hi : i ≤ readers.names.length) :
    Evals (scan readers.multiString i) s (some (joined (readers.names.take i)).length) s := by
  suffices hall : ∀ left passed, readers.names = passed ++ left → passed.length ≤ i →
      Iterates (scanTurn readers.multiString i) (some (joined passed).length, (passed.length : Int)) s
        (.done (some (joined (readers.names.take i)).length)) s by
    exact .loop (hall readers.names [] rfl (Nat.zero_le i))
  intro left
  induction left with
  | nil =>
      intro passed hsplit hpassed
      rw [List.append_nil] at hsplit
      obtain rfl : i = passed.length := Nat.le_antisymm (hsplit ▸ hi) hpassed
      rw [hsplit, List.take_length]
      exact .stop scanTurn_stop
  | cons name left ih =>
      intro passed hsplit hpassed
      by_cases hhere : passed.length = i
      · subst hhere
        rw [hsplit, List.take_left]
        exact .stop scanTurn_stop
      · have hne : (passed.length : Int) ≠ i := by omega
        have hrest := ih (passed ++ [name]) (by rw [hsplit, List.append_assoc]; rfl)
          (by rw [List.length_append, List.length_singleton]; omega)
        rw [joined_append, List.length_append, List.length_singleton] at hrest
        exact .again (scanTurn_again (stringAt_next passed left hsplit) hne) hrest

/-- The scan passes all names if none is at the index. -/
theorem scan_runs_out (hidx : ¬(0 ≤ idx ∧ idx ≤ readers.names.length)) {outcome : Outcome (Option Nat)}
    (hend : Iterates (scanTurn readers.multiString idx)
      (some readers.multiString.length, (readers.names.length + 1 : Int)) s outcome s) :
    Ends (scan readers.multiString idx) s outcome s := by
  suffices hall : ∀ left passed, readers.names = passed ++ left →
      Iterates (scanTurn readers.multiString idx) (some (joined passed).length, (passed.length : Int)) s outcome s by
    exact .loop (hall readers.names [] rfl)
  intro left
  induction left with
  | nil =>
      intro passed hsplit
      rw [List.append_nil] at hsplit
      have hne : (readers.names.length : Int) ≠ idx := by omega
      have hlength : readers.multiString.length = (joined readers.names).length + (([] : List UInt8).length + 1) := by
        simp [Readers.multiString]
      rw [hlength] at hend
      rw [← hsplit]
      exact .again (scanTurn_again stringAt_last hne) hend
  | cons name left ih =>
      intro passed hsplit
      have hcount := congrArg List.length hsplit
      rw [List.length_append, List.length_cons] at hcount
      have hne : (passed.length : Int) ≠ idx := by omega
      have hrest := ih (passed ++ [name]) (by rw [hsplit, List.append_assoc]; rfl)
      rw [joined_append, List.length_append, List.length_singleton] at hrest
      exact .again (scanTurn_again (stringAt_next passed left hsplit) hne) hrest

end Scan

/-! ### The selection -/

section Selection

variable {ε : Type} {winscard : Winscard ε} {readers : Readers} {s : PcscSEInterface ε} {env : ε}

/-- Up to the names of these readers the library calls succeed; `env` is the state behind them. -/
def Lists (winscard : Winscard ε) (readers : Readers) (s : PcscSEInterface ε) (env : ε) : Prop :=
  ∃ e₁ e₂ lenReaders, winscard.sCardEstablishContext s.env = (true, e₁) ∧
    winscard.sCardListReadersLen e₁ = (some lenReaders, e₂) ∧
    winscard.sCardListReaders lenReaders e₂ = (some readers.multiString, env)

/-- `open` connects to the reader at the index, fails without a call of `SCardConnect` if there is none, and the scan
ends inside the names. -/
structure SelectsExactly (winscard : Winscard ε) (readers : Readers) (s : PcscSEInterface ε) (env : ε) : Prop where
  chosen : ∀ i (hi : i < readers.names.length), s.idx = i →
    ∃ s', Evals (openInterface winscard) s (winscard.sCardConnect readers.names[i] env).1 s' ∧
      s'.connects = readers.names[i] :: s.connects
  refused : ¬(0 ≤ s.idx ∧ s.idx < readers.names.length) →
    ∃ s', Evals (openInterface winscard) s false s' ∧ s'.connects = s.connects
  scans : ∃ p, Evals (scan readers.multiString s.idx) s p s

theorem outside_evals {α : Type} {call : ε → α × ε} {value : α} {env' : ε} (h : call s.env = (value, env')) :
    Evals (outside call) s value { s with env := env' } := by
  refine .of_eq fun fuel => ?_
  show (Outcome.done (call s.env).1, ({ s with env := (call s.env).2 } : PcscSEInterface ε)) = _
  rw [h]

/-- A closed interface goes on behind the names of the readers. -/
theorem openInterface_ends (hclosed : s.initialized = false) (hlists : Lists winscard readers s env)
    {outcome : Outcome Bool}
    {s' : PcscSEInterface ε} (h : Ends (openAmong winscard readers.multiString) { s with env := env } outcome s') :
    Ends (openInterface winscard) s outcome s' := by
  obtain ⟨e₁, e₂, lenReaders, hestablish, hlength, hlist⟩ := hlists
  have hnames : Evals (outside (winscard.sCardListReaders lenReaders)) { s with env := e₂ } (some readers.multiString)
      { s with env := env } := outside_evals (s := { s with env := e₂ }) hlist
  have hlen : Evals (outside winscard.sCardListReadersLen) { s with env := e₁ } (some lenReaders)
      { s with env := e₂ } :=
    outside_evals (s := { s with env := e₁ }) hlength
  apply Evals.gets.bind_ends
  rw [if_neg (by rw [hclosed]; exact Bool.false_ne_true)]
  apply (outside_evals hestablish).bind_ends
  rw [if_pos rfl]
  apply hlen.bind_ends
  exact hnames.bind_ends h

/-- With a name at the place, it is connected to. -/
theorem openAmong_evals (winscard : Winscard ε) {p : Nat} {reader : List UInt8}
    (hscan : Evals (scan readers.multiString s.idx) s (some p) s)
    (hstring : stringAt readers.multiString p = some reader) :
    ∃ s', Evals (openAmong winscard readers.multiString) s (winscard.sCardConnect reader s.env).1 s' ∧
      s'.connects = reader :: s.connects := by
  rcases hcall : winscard.sCardConnect reader s.env with ⟨connected, env'⟩
  let s₁ : PcscSEInterface ε := ⟨env', s.idx, s.initialized, reader :: s.connects⟩
  have hconnect : Evals (connect winscard readers.multiString p) s connected s₁ := by
    unfold connect
    rw [hstring]
    exact Evals.modify.bind (outside_evals (s := { s with connects := reader :: s.connects }) hcall)
  cases connected with
  | true =>
      let s₂ : PcscSEInterface ε := { s₁ with initialized := true }
      exact ⟨s₂, Evals.gets.bind (hscan.bind (hconnect.bind (Evals.modify.bind .pure))), rfl⟩
  | false => exact ⟨s₁, Evals.gets.bind (hscan.bind (hconnect.bind .pure)), rfl⟩

/-- An index behind the names, or below zero, runs out of the buffer: in the scan, or in the call with the place at its
end. -/
theorem openAmong_faults (winscard : Winscard ε) (hidx : ¬(0 ≤ s.idx ∧ s.idx ≤ readers.names.length)) :
    Faults (openAmong winscard readers.multiString) s := by
  apply Evals.gets.bind_faults
  by_cases hnext : s.idx = readers.names.length + 1
  · have hstop : Iterates (scanTurn readers.multiString s.idx)
        (some readers.multiString.length, (readers.names.length + 1 : Int)) s
        (.done (some readers.multiString.length)) s := by
      rw [hnext]
      exact .stop scanTurn_stop
    apply Evals.bind_faults (scan_runs_out hidx hstop)
    apply Faults.bind
    unfold connect
    rw [stringAt_end]
    exact ⟨s, .of_eq fun _ => rfl⟩
  · have hout : Ends (scanTurn readers.multiString s.idx
        (some readers.multiString.length, (readers.names.length + 1 : Int))) s
        .fault s := by
      refine .of_eq fun fuel => ?_
      unfold scanTurn strlen
      dsimp only
      rw [if_neg (Ne.symm hnext), stringAt_end]
      rfl
    exact Faults.bind ⟨s, scan_runs_out hidx (.fault hout)⟩

/-- Behind the last name `open` connects to the reader with the empty name. -/
theorem openInterface_empty_name (hclosed : s.initialized = false) (hlists : Lists winscard readers s env)
    (hidx : s.idx = readers.names.length) :
    ∃ s', Evals (openInterface winscard) s (winscard.sCardConnect [] env).1 s' ∧ s'.connects = [] :: s.connects := by
  have hscan : Evals (scan readers.multiString s.idx) { s with env := env } (some (joined readers.names).length)
      { s with env := env } := by
    have hpasses := scan_passes readers (s := { s with env := env }) (Nat.le_refl _)
    rwa [List.take_length, ← hidx] at hpasses
  obtain ⟨s', hamong, hconnects⟩ := openAmong_evals winscard (s := { s with env := env }) hscan stringAt_last
  exact ⟨s', openInterface_ends hclosed hlists hamong, hconnects⟩

/-- A missing reader is never refused. -/
theorem SelectsExactly.index (hselects : SelectsExactly winscard readers s env) (hclosed : s.initialized = false)
    (hlists : Lists winscard readers s env) : 0 ≤ s.idx ∧ s.idx < readers.names.length := by
  by_contra hidx
  obtain ⟨s', hopen, hconnects⟩ := hselects.refused hidx
  by_cases hlast : 0 ≤ s.idx ∧ s.idx ≤ readers.names.length
  · have hequal : s.idx = (readers.names.length : Int) := by omega
    obtain ⟨s₁, hempty, hcalled⟩ := openInterface_empty_name hclosed hlists hequal
    obtain ⟨_, hsame⟩ := hempty.unique hopen
    rw [hsame, hconnects] at hcalled
    exact absurd (congrArg List.length hcalled) (by simp)
  · obtain ⟨s₁, hfault⟩ := openAmong_faults winscard (s := { s with env := env }) hlast
    obtain ⟨hended, _⟩ := (openInterface_ends hclosed hlists hfault).unique hopen
    cases hended

/-- **Reader selection is exact** for just the indices of readers. -/
theorem selectsExactly_iff (hclosed : s.initialized = false) (hlists : Lists winscard readers s env) :
    SelectsExactly winscard readers s env ↔ 0 ≤ s.idx ∧ s.idx < readers.names.length := by
  constructor
  · intro hselects
    exact hselects.index hclosed hlists
  · rintro ⟨hlow, hhigh⟩
    obtain ⟨i, hi⟩ := Int.eq_ofNat_of_zero_le hlow
    have hbound : i < readers.names.length := by omega
    have hscan : ∀ s₀ : PcscSEInterface ε,
        Evals (scan readers.multiString s.idx) s₀ (some (joined (readers.names.take i)).length) s₀ := by
      intro s₀
      rw [hi]
      exact scan_passes readers (Nat.le_of_lt hbound)
    have hstring : stringAt readers.multiString (joined (readers.names.take i)).length = some readers.names[i] := by
      apply stringAt_next _ (readers.names.drop (i + 1))
      rw [List.getElem_cons_drop, List.take_append_drop]
    constructor
    · intro j hj hidx
      obtain rfl : j = i := by omega
      obtain ⟨s', hamong, hconnects⟩ :=
        openAmong_evals winscard (s := { s with env := env }) (hscan { s with env := env }) hstring
      exact ⟨s', openInterface_ends hclosed hlists hamong, hconnects⟩
    · intro hout
      exact absurd ⟨hlow, hhigh⟩ hout
    · exact ⟨some _, hscan s⟩

/-- Two readers, "A" and "B". -/
def twoReaders : Readers where
  names := [[65], [66]]
  nonempty := by decide
  without_nul := by decide

/-- A library with these readers, where no other one can be connected to. -/
def twoWinscard : Winscard Unit where
  sCardEstablishContext env := (true, env)
  sCardListReadersLen env := (some twoReaders.multiString.length, env)
  sCardListReaders _ env := (some twoReaders.multiString, env)
  sCardConnect reader env := (decide (reader ∈ twoReaders.names), env)

/-- An interface as it is created. -/
def created (reader_idx : Int) : PcscSEInterface Unit := ⟨(), reader_idx, false, []⟩

theorem twoWinscard_lists (idx : Int) : Lists twoWinscard twoReaders (created idx) () :=
  ⟨(), (), twoReaders.multiString.length, rfl, rfl, rfl⟩

theorem selectsExactly_second : SelectsExactly twoWinscard twoReaders (created 1) () :=
  (selectsExactly_iff rfl (twoWinscard_lists 1)).2 ⟨by decide, by decide⟩

/-- With two readers neither the third one nor the one below zero is refused. -/
theorem missing_reader_not_refused :
    ¬SelectsExactly twoWinscard twoReaders (created 2) () ∧
    ¬SelectsExactly twoWinscard twoReaders (created (-1)) () := by
  constructor
  · intro hselects
    exact absurd (hselects.index rfl (twoWinscard_lists 2)) (by decide)
  · intro hselects
    exact absurd (hselects.index rfl (twoWinscard_lists (-1))) (by decide)

end Selection

end TrustOnboard.Pcsc
