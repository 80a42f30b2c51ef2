import Mathlib
import TrustOnboard.ExecRefinement
import TrustOnboard.HandleSlot
import TrustOnboard.CardSimulation
import TrustOnboard.PcscReaders

/-! `PcscSEInterface` with its handles: `close`, the destructor and `transmitApdu`, and what runs of its calls leave open.
The opened interface is a transport of the card in the reader that was selected. -/

namespace TrustOnboard.Pcsc

open Exec HandleSlot SEInterface

/-- The functions of the PC/SC library with the handles that they take and give. A call that fails gives nothing;
`connect` gives a card handle and a protocol. What `disconnect` and `releaseContext` return is not looked at. -/
structure Library (ε : Type) where
  establishContext : ε → Option Nat × ε
  listReadersLen : Nat → ε → Option Nat × ε
  listReaders : Nat → Nat → ε → Option (List UInt8) × ε
  connect : Nat → List UInt8 → ε → Option (Nat × Nat) × ε
  disconnect : Nat → ε → ε
  releaseContext : Nat → ε → ε
  transmit : Nat → Bool → List UInt8 → ε → Option (List UInt8) × ε

/-- The members that the library stores into, next to everything else. Before they are stored into they have any value. -/
structure Members (ε : Type) where
  env : ε
  cardHandle : Nat
  cardContext : Nat
  protocol : Nat

/-- `SCARD_PROTOCOL_T0`. -/
def protocolT0 : Nat := 1

section Model

variable {ε : Type} (library : Library ε)

/-- The library as `open` calls it, with the members that it passes and stores. -/
def Library.winscard : Winscard (Members ε) where
  sCardEstablishContext m :=
    match library.establishContext m.env with
    | (none, env) => (false, { m with env })
    | (some context, env) => (true, { m with env, cardContext := context })
  sCardListReadersLen m :=
    ((library.listReadersLen m.cardContext m.env).1, { m with env := (library.listReadersLen m.cardContext m.env).2 })
  sCardListReaders lenReaders m :=
    ((library.listReaders m.cardContext lenReaders m.env).1,
      { m with env := (library.listReaders m.cardContext lenReaders m.env).2 })
  sCardConnect reader m :=
    match library.connect m.cardContext reader m.env with
    | (none, env) => (false, { m with env })
    | (some (handle, protocol), env) => (true, { m with env, cardHandle := handle, protocol })

/-- `PcscSEInterface::close`. -/
def closeInterface : Exec (PcscSEInterface (Members ε)) Unit := do
  outside fun m => ((), { m with env := library.disconnect m.cardHandle m.env })
  outside fun m => ((), { m with env := library.releaseContext m.cardContext m.env })
  modify fun s => { s with initialized := false }

/-- The destructor. -/
def destroy : Exec (PcscSEInterface (Members ε)) Unit := do
  if ← gets fun s => s.initialized then
    closeInterface library
  else
    return ()

/-- `PcscSEInterface::transmitApdu`. -/
def transmitApdu (apdu : List UInt8) : Exec (PcscSEInterface (Members ε)) (Option (List UInt8)) := do
  let response ← outside fun m =>
    ((library.transmit m.cardHandle (m.protocol = protocolT0) apdu m.env).1,
      { m with env := (library.transmit m.cardHandle (m.protocol = protocolT0) apdu m.env).2 })
  match response with
  | none => return none
  | some answer =>
      if 65535 < answer.length then
        return none
      else
        return some answer

end Model

/-! ### Runs of the calls -/

/-- The calls of an interface. -/
inductive Call where
  | openInterface
  | closeInterface
  | transmitApdu (apdu : List UInt8)

/-- Whether a call returned true, and whether it has established a context. -/
structure Returned where
  ok : Bool
  established : Bool

section Calls

variable {ε : Type} (library : Library ε)

def Call.run : Call → Exec (PcscSEInterface (Members ε)) Returned
  | .openInterface => do
      let established ← gets fun s => !s.initialized && (library.establishContext s.env.env).1.isSome
      let ok ← Pcsc.openInterface library.winscard
      return ⟨ok, established⟩
  | .closeInterface => do
      Pcsc.closeInterface library
      return ⟨true, false⟩
  | .transmitApdu apdu => do
      let response ← Pcsc.transmitApdu library apdu
      return ⟨response.isSome, false⟩

/-- What a call does with the context. -/
def Call.kinds : Call → Returned → List Kind
  | .openInterface, result => if result.established then [.acquire] else []
  | .closeInterface, _ => [.release]
  | .transmitApdu _, _ => []

/-- Whether the interface is open behind calls. -/
def isOpen : Bool → List Call → List Returned → Bool
  | _, .openInterface :: calls, result :: results => isOpen result.ok calls results
  | _, .closeInterface :: calls, _ :: results => isOpen false calls results
  | wasOpen, .transmitApdu _ :: calls, _ :: results => isOpen wasOpen calls results
  | wasOpen, _, _ => wasOpen

/-- A whole life: the calls, and the destructor. -/
def lifetime (calls : List Call) : Exec (PcscSEInterface (Members ε)) (List Returned) := do
  let results ← runAll (Call.run library) calls
  destroy library
  return results

/-- What a whole life does with the context: the destructor of an interface that is not open forgets it. -/
def lifeKinds (calls : List Call) (results : List Returned) : List Kind :=
  kindsOf Call.kinds calls results ++ [if isOpen false calls results then .release else .forget]

end Calls

/-- The contexts and the card handles that are live. -/
structure Library.Tracks {ε : Type} (library : Library ε) (contexts cards : ε → Finset Nat) : Prop where
  establishes : ∀ env, cards (library.establishContext env).2 = cards env ∧
    match (library.establishContext env).1 with
    | none => contexts (library.establishContext env).2 = contexts env
    | some context => context ∉ contexts env ∧ contexts (library.establishContext env).2 = insert context (contexts env)
  sizes : ∀ context env, contexts (library.listReadersLen context env).2 = contexts env ∧
    cards (library.listReadersLen context env).2 = cards env
  lists : ∀ context len env, contexts (library.listReaders context len env).2 = contexts env ∧
    cards (library.listReaders context len env).2 = cards env
  connects : ∀ context reader env, contexts (library.connect context reader env).2 = contexts env ∧
    match (library.connect context reader env).1 with
    | none => cards (library.connect context reader env).2 = cards env
    | some found => found.1 ∉ cards env ∧ cards (library.connect context reader env).2 = insert found.1 (cards env)
  disconnects : ∀ handle env, contexts (library.disconnect handle env) = contexts env ∧
    cards (library.disconnect handle env) = (cards env).erase handle
  releases : ∀ context env, contexts (library.releaseContext context env) = (contexts env).erase context ∧
    cards (library.releaseContext context env) = cards env
  transmits : ∀ handle t0 apdu env, contexts (library.transmit handle t0 apdu env).2 = contexts env ∧
    cards (library.transmit handle t0 apdu env).2 = cards env

section Tracks

variable {ε : Type} {library : Library ε} {contexts cards : ε → Finset Nat} {s : PcscSEInterface (Members ε)}

/-- The live contexts, and the one of the interface. -/
def contextSlot (contexts : ε → Finset Nat) (s : PcscSEInterface (Members ε)) : Slot Nat :=
  ⟨contexts s.env.env, some s.env.cardContext⟩

/-- The live card handles, and the one of the interface. -/
def cardSlot (cards : ε → Finset Nat) (s : PcscSEInterface (Members ε)) : Slot Nat :=
  ⟨cards s.env.env, some s.env.cardHandle⟩

theorem outside_meets {α : Type} {call : Members ε → α × Members ε} {value : α} {m : Members ε}
    {post : α → PcscSEInterface (Members ε) → Prop} {cut : PcscSEInterface (Members ε) → Prop}
    (hcall : call s.env = (value, m)) (h : post value { s with env := m }) : Meets (outside call) s post cut := by
  intro fuel
  rw [outside, hcall]
  exact h

theorem outside_bind {α β : Type} {call : Members ε → α × Members ε} {value : α} {m : Members ε}
    {next : α → Exec (PcscSEInterface (Members ε)) β} {post : β → PcscSEInterface (Members ε) → Prop}
    {cut : PcscSEInterface (Members ε) → Prop} (hcall : call s.env = (value, m))
    (h : Meets (next value) { s with env := m } post cut) : Meets (outside call >>= next) s post cut :=
  Meets.done_bind (fun fuel => by rw [outside, hcall]) h

theorem outside_next {α β : Type} {call : Members ε → α × Members ε} {next : α → Exec (PcscSEInterface (Members ε)) β}
    {post : β → PcscSEInterface (Members ε) → Prop} {cut : PcscSEInterface (Members ε) → Prop}
    (h : Meets (next (call s.env).1) { s with env := (call s.env).2 } post cut) :
    Meets (outside call >>= next) s post cut := h

/-- Nothing of the state is changed. -/
def Same (s s' : PcscSEInterface (Members ε)) : Prop := s' = s

instance : IsPreorder (PcscSEInterface (Members ε)) Same where
  refl _ := rfl
  trans _ _ _ h h' := h'.trans h

/-- The scan over the names does not change anything. -/
theorem scan_rests (readerNames : List UInt8) (idx : Int) :
    Stays (Same : PcscSEInterface (Members ε) → _ → Prop) (scan readerNames idx) := by
  apply Stays.loop
  rintro ⟨p, pos⟩
  unfold scanTurn
  cases p with
  | none => exact .pure _
  | some p =>
      refine .ite (.pure _) (Stays.bind ?_ fun _ => .pure _)
      unfold strlen
      cases stringAt readerNames p with
      | none => exact .fault
      | some name => exact .pure _

/-- What the calls of `open` behind the context do: the context stays, and a card handle is acquired or not. -/
structure Opened (contexts cards : ε → Finset Nat) (s : PcscSEInterface (Members ε)) (ok : Bool)
    (s' : PcscSEInterface (Members ε)) : Prop where
  context_eq : contextSlot contexts s' = contextSlot contexts s
  card_step : if ok then Step (cardSlot cards s) .acquire (cardSlot cards s') else cardSlot cards s' = cardSlot cards s

section Laws

variable (h : library.Tracks contexts cards)

include h

theorem connect_opens (readerNames : List UInt8) (p : Nat) :
    Meets (connect library.winscard readerNames p) s
      (fun ok s' => s'.initialized = s.initialized ∧ Opened contexts cards s ok s') (fun _ => True) := by
  unfold connect
  cases stringAt readerNames p with
  | none => exact fun _ => True.intro
  | some reader =>
      obtain ⟨hcontexts, hcards⟩ := h.connects s.env.cardContext reader s.env.env
      apply Meets.modify_bind
      rcases hcall : library.connect s.env.cardContext reader s.env.env with ⟨_ | ⟨handle, protocol⟩, env⟩
      · rw [hcall] at hcontexts hcards
        have hcalled : library.winscard.sCardConnect reader s.env = (false, { s.env with env }) := by
          simp only [Library.winscard, hcall]
        exact outside_meets hcalled ⟨rfl, by simp only [contextSlot, hcontexts], by simpa [cardSlot] using hcards⟩
      · rw [hcall] at hcontexts hcards
        have hcalled : library.winscard.sCardConnect reader s.env =
            (true, { s.env with env, cardHandle := handle, protocol }) := by
          simp only [Library.winscard, hcall]
        refine outside_meets hcalled ⟨rfl, by simp only [contextSlot, hcontexts], ?_⟩
        simp only [cardSlot, hcards.2, if_true]
        exact .acquire hcards.1

theorem openAmong_opens (hclosed : s.initialized = false) (readerNames : List UInt8) :
    Meets (openAmong library.winscard readerNames) s (fun ok s' => s'.initialized = ok ∧ Opened contexts cards s ok s')
      (fun _ => True) := by
  have hnothing : Opened contexts cards s false s := ⟨rfl, by simp⟩
  apply Meets.gets_bind
  refine (((scan_rests readerNames s.idx).meets s).mono (fun _ _ hsame => hsame) fun _ _ => True.intro).bind ?_
  rintro place s' rfl
  cases place with
  | none => exact .pure ⟨hclosed, hnothing⟩
  | some p =>
      refine (connect_opens h readerNames p).bind ?_
      rintro ok s₁ ⟨hsame, hopened⟩
      cases ok with
      | true =>
          rw [if_pos rfl]
          apply Meets.modify_bind
          exact .pure ⟨rfl, hopened.context_eq, hopened.card_step⟩
      | false =>
          rw [if_neg Bool.false_ne_true]
          exact .pure ⟨hsame.trans hclosed, hopened⟩

omit h in
/-- Names that are only read. -/
theorem Opened.of_same {s₁ s' : PcscSEInterface (Members ε)} {ok : Bool}
    (hcontext : contextSlot contexts s₁ = contextSlot contexts s) (hcard : cardSlot cards s₁ = cardSlot cards s)
    (hopened : Opened contexts cards s₁ ok s') : Opened contexts cards s ok s' := by
  obtain ⟨hcontext', hcard'⟩ := hopened
  rw [hcard] at hcard'
  exact ⟨hcontext'.trans hcontext, hcard'⟩

/-- `open` behind the context. -/
theorem names_open (hclosed : s.initialized = false) :
    Meets (do
      match ← outside library.winscard.sCardListReadersLen with
      | none => return false
      | some lenReaders =>
          match ← outside (library.winscard.sCardListReaders lenReaders) with
          | none => return false
          | some readerNames => openAmong library.winscard readerNames) s
      (fun ok s' => s'.initialized = ok ∧ Opened contexts cards s ok s') (fun _ => True) := by
  obtain ⟨hcontexts, hcards⟩ := h.sizes s.env.cardContext s.env.env
  apply outside_next
  dsimp only [Library.winscard]
  cases (library.listReadersLen s.env.cardContext s.env.env).1 with
  | none => exact .pure ⟨hclosed, by simp only [contextSlot, hcontexts], by simp [cardSlot, hcards]⟩
  | some lenReaders =>
      obtain ⟨hcontexts', hcards'⟩ := h.lists s.env.cardContext lenReaders
        (library.listReadersLen s.env.cardContext s.env.env).2
      apply outside_next
      dsimp only
      cases (library.listReaders s.env.cardContext lenReaders (library.listReadersLen s.env.cardContext s.env.env).2).1 with
      | none =>
          exact .pure ⟨hclosed, by simp only [contextSlot, hcontexts', hcontexts], by simp [cardSlot, hcards', hcards]⟩
      | some readerNames =>
          refine (openAmong_opens h (by exact hclosed) readerNames).mono ?_ fun _ _ => True.intro
          rintro ok s' ⟨hinitialized, hopened⟩
          exact ⟨hinitialized, hopened.of_same (by simp only [contextSlot, hcontexts', hcontexts])
            (by simp only [cardSlot, hcards', hcards])⟩

/-- `open` on an interface that is not open: a context is acquired where one is established, and a card handle where it
returns true. -/
theorem openInterface_opens (hclosed : s.initialized = false) :
    Meets (openInterface library.winscard) s (fun ok s' => s'.initialized = ok ∧
      (if (library.establishContext s.env.env).1.isSome then
        Step (contextSlot contexts s) .acquire (contextSlot contexts s')
        else contextSlot contexts s' = contextSlot contexts s) ∧
      if ok then Step (cardSlot cards s) .acquire (cardSlot cards s') else cardSlot cards s' = cardSlot cards s)
      (fun _ => True) := by
  obtain ⟨hcards, hcontexts⟩ := h.establishes s.env.env
  apply Meets.gets_bind
  rw [if_neg (by rw [hclosed]; exact Bool.false_ne_true)]
  rcases hcall : library.establishContext s.env.env with ⟨_ | context, env⟩
  · rw [hcall] at hcards hcontexts
    have hcalled : library.winscard.sCardEstablishContext s.env = (false, { s.env with env }) := by
      simp only [Library.winscard, hcall]
    apply outside_bind hcalled
    rw [if_neg Bool.false_ne_true]
    refine .pure ⟨hclosed, ?_, ?_⟩
    · simpa [contextSlot] using hcontexts
    · simpa [cardSlot] using hcards
  · rw [hcall] at hcards hcontexts
    obtain ⟨hfresh, hlive⟩ := hcontexts
    have hcalled : library.winscard.sCardEstablishContext s.env = (true, { s.env with env, cardContext := context }) := by
      simp only [Library.winscard, hcall]
    apply outside_bind hcalled
    rw [if_pos rfl]
    refine (names_open h (by exact hclosed)).mono ?_ fun _ _ => True.intro
    rintro ok s' ⟨hinitialized, hcontext, hcard⟩
    refine ⟨hinitialized, ?_, ?_⟩
    · rw [Option.isSome_some, if_pos rfl, hcontext]
      simp only [contextSlot, hlive]
      exact .acquire hfresh
    · simpa [cardSlot, hcards] using hcard

/-- `close` gives back the context and the card handle. -/
theorem closeInterface_closes :
    Meets (closeInterface library) s (fun _ s' => s'.initialized = false ∧
      Step (contextSlot contexts s) .release (contextSlot contexts s') ∧
        Step (cardSlot cards s) .release (cardSlot cards s'))
      (fun _ => True) := by
  obtain ⟨hcontexts, hcards⟩ := h.disconnects s.env.cardHandle s.env.env
  obtain ⟨hcontexts', hcards'⟩ := h.releases s.env.cardContext (library.disconnect s.env.cardHandle s.env.env)
  apply outside_next
  apply outside_next
  apply Meets.modify
  have hcontext := Step.release (s := contextSlot contexts s)
  have hcard := Step.release (s := cardSlot cards s)
  refine ⟨rfl, ?_, ?_⟩
  · simpa [contextSlot, hcontexts', hcontexts] using hcontext
  · simpa [cardSlot, hcards', hcards] using hcard

theorem transmitApdu_touches (apdu : List UInt8) :
    Meets (transmitApdu library apdu) s (fun _ s' => s'.initialized = s.initialized ∧
      contextSlot contexts s' = contextSlot contexts s ∧ cardSlot cards s' = cardSlot cards s) (fun _ => True) := by
  obtain ⟨hcontexts, hcards⟩ := h.transmits s.env.cardHandle (s.env.protocol = protocolT0) apdu s.env.env
  apply outside_next
  have hsame : ∀ response : Option (List UInt8), Meets
      (match response with
        | none => pure none
        | some answer => if 65535 < answer.length then pure none else pure (some answer) : Exec _ (Option (List UInt8)))
      { s with env := { s.env with
        env := (library.transmit s.env.cardHandle (s.env.protocol = protocolT0) apdu s.env.env).2 } }
      (fun _ s' => s'.initialized = s.initialized ∧ contextSlot contexts s' = contextSlot contexts s ∧
        cardSlot cards s' = cardSlot cards s) (fun _ => True) := by
    rintro (_ | answer)
    · exact .pure ⟨rfl, by simp only [contextSlot, hcontexts], by simp only [cardSlot, hcards]⟩
    · refine .ite (fun _ => .pure ?_) (fun _ => .pure ?_) <;>
        exact ⟨rfl, by simp only [contextSlot, hcontexts], by simp only [cardSlot, hcards]⟩
  exact hsame _

/-- The interface has a card handle exactly while it is open, and there are no others but these. -/
structure Holds (cards : ε → Finset Nat) (others : Finset Nat) (s : PcscSEInterface (Members ε)) : Prop where
  holds_eq : (cardSlot cards s).holds = s.initialized
  card_eq : (cards s.env.env).card = others.card + s.initialized.toNat
  spares : (cardSlot cards s).Spares others

/-- One call. -/
theorem call_keeps {others : Finset Nat} (hholds : Holds cards others s) (call : Call) :
    Meets (call.run library) s (fun result s' =>
      Run (contextSlot contexts s) (call.kinds result) (contextSlot contexts s') ∧
      Holds cards others s' ∧ s'.initialized = isOpen s.initialized [call] [result]) (fun _ => True) := by
  obtain ⟨hheld, hcount, hspares⟩ := hholds
  cases call with
  | openInterface =>
      apply Meets.gets_bind
      cases hinitialized : s.initialized with
      | true =>
          have hopen : Meets (openInterface library.winscard) s (fun ok s' => ok = true ∧ s' = s) (fun _ => True) := by
            apply Meets.gets_bind
            rw [hinitialized, if_pos rfl]
            exact .pure ⟨rfl, rfl⟩
          refine hopen.bind ?_
          rintro ok s' ⟨rfl, rfl⟩
          exact .pure ⟨.nil, ⟨hheld, hcount, hspares⟩, hinitialized⟩
      | false =>
          refine (openInterface_opens h hinitialized).bind ?_
          rintro ok s' ⟨hok, hcontext, hcard⟩
          refine .pure ⟨?_, ?_, hok⟩
          · simp only [Call.kinds, Bool.not_false, Bool.true_and]
            split at hcontext
            · rw [if_pos ‹_›]
              exact .cons hcontext .nil
            · rw [if_neg ‹_›, hcontext]
              exact .nil
          · cases ok with
            | true =>
                rw [if_pos rfl] at hcard
                have hsum : (cards s'.env.env).card + (cardSlot cards s).holds.toNat =
                    (cards s.env.env).card + loses (cardSlot cards s).holds .acquire + (cardSlot cards s').holds.toNat :=
                  hcard.card
                rw [hheld, hinitialized, hcard.holds_eq, hcount, hinitialized] at hsum
                exact ⟨hcard.holds_eq.trans hok.symm, by rw [hok]; exact hsum, hcard.spares hspares⟩
            | false =>
                rw [if_neg Bool.false_ne_true] at hcard
                have hlive : cards s'.env.env = cards s.env.env := congrArg Slot.live hcard
                exact ⟨by rw [hcard, hheld, hinitialized, hok], by rw [hlive, hcount, hinitialized, hok],
                  by rw [hcard]; exact hspares⟩
  | closeInterface =>
      refine (closeInterface_closes h).bind ?_
      rintro _ s' ⟨hclosed, hcontext, hcard⟩
      have hsum : (cards s'.env.env).card + (cardSlot cards s).holds.toNat =
          (cards s.env.env).card + loses (cardSlot cards s).holds .release + (cardSlot cards s').holds.toNat := hcard.card
      rw [hheld, hcard.holds_eq, hcount] at hsum
      simp only [loses, if_true, Kind.holds, Bool.toNat_false] at hsum
      refine .pure ⟨.cons hcontext .nil, ⟨hcard.holds_eq.trans hclosed.symm, ?_, hcard.spares hspares⟩, hclosed⟩
      rw [hclosed, Bool.toNat_false]
      omega
  | transmitApdu apdu =>
      refine (transmitApdu_touches h apdu).bind ?_
      rintro response s' ⟨hinitialized, hcontext, hcard⟩
      have hlive : cards s'.env.env = cards s.env.env := congrArg Slot.live hcard
      refine .pure ⟨?_, ⟨?_, ?_, ?_⟩, hinitialized⟩
      · rw [hcontext]
        exact .nil
      · rw [hcard, hheld, hinitialized]
      · rw [hlive, hcount, hinitialized]
      · rw [hcard]
        exact hspares

omit h in
theorem isOpen_cons (wasOpen : Bool) (call : Call) (result : Returned) (calls : List Call) (results : List Returned) :
    isOpen wasOpen (call :: calls) (result :: results) = isOpen (isOpen wasOpen [call] [result]) calls results := by
  cases call <;> simp only [isOpen]

theorem calls_keep {others : Finset Nat} (hholds : Holds cards others s) (calls : List Call) :
    Meets (runAll (Call.run library) calls) s (fun results s' =>
      Run (contextSlot contexts s) (kindsOf Call.kinds calls results) (contextSlot contexts s') ∧ Holds cards others s' ∧
        s'.initialized = isOpen s.initialized calls results) (fun _ => True) := by
  induction calls generalizing s with
  | nil => exact .pure ⟨.nil, hholds, rfl⟩
  | cons call calls ih =>
      refine (call_keeps h hholds call).bind ?_
      rintro result s₁ ⟨hfirst, hholds₁, hopen₁⟩
      refine (ih hholds₁).bind ?_
      rintro results s₂ ⟨hrest, hholds₂, hopen₂⟩
      refine .pure ⟨hfirst.append hrest, hholds₂, ?_⟩
      rw [isOpen_cons, ← hopen₁, hopen₂]

/-- The destructor gives back what an open interface has, and forgets what one has that is not open. -/
theorem destroy_leaves {others : Finset Nat} (hholds : Holds cards others s) :
    Meets (destroy library) s (fun _ s' => cards s'.env.env = others ∧
      ∃ after : Slot Nat, Step (contextSlot contexts s) (if s.initialized then .release else .forget) after ∧
        after.live = contexts s'.env.env) (fun _ => True) := by
  obtain ⟨hheld, hcount, hspares⟩ := hholds
  apply Meets.gets_bind
  cases hinitialized : s.initialized with
  | true =>
      rw [if_pos rfl]
      refine (closeInterface_closes h).mono ?_ fun _ _ => True.intro
      rintro _ s' ⟨_, hcontext, hcard⟩
      have hsum : (cards s'.env.env).card + (cardSlot cards s).holds.toNat =
          (cards s.env.env).card + loses (cardSlot cards s).holds .release + (cardSlot cards s').holds.toNat := hcard.card
      rw [hheld, hcard.holds_eq, hcount] at hsum
      simp only [loses, if_true, Kind.holds, Bool.toNat_false] at hsum
      have hothers : others = cards s'.env.env :=
        Finset.eq_of_subset_of_card_le (hcard.spares hspares).live (by omega)
      exact ⟨hothers.symm, contextSlot contexts s', hcontext, rfl⟩
  | false =>
      rw [if_neg Bool.false_ne_true]
      rw [hinitialized] at hcount
      have hothers : others = cards s.env.env := Finset.eq_of_subset_of_card_le hspares.live hcount.le
      exact .pure ⟨hothers.symm, ⟨contexts s.env.env, none⟩, .forget, rfl⟩

/-- **What an interface leaves open** at the end of its life, whatever is called before and whatever it returns: no card
handle, and one context for each `open` that established one and was not followed by `close` before the next such `open`
or, if it failed, before the destructor. None is left exactly if there is no such `open`. What was live before is live
behind it. -/
theorem lifetime_leaves (env : ε) (reader_idx : Int) {cardHandle cardContext protocol : Nat}
    (hcontext : cardContext ∉ contexts env) (hcard : cardHandle ∉ cards env) (calls : List Call) :
    Meets (lifetime library calls) ⟨⟨env, cardHandle, cardContext, protocol⟩, reader_idx, false, []⟩
      (fun results s' => cards s'.env.env = cards env ∧ contexts env ⊆ contexts s'.env.env ∧
        (contexts s'.env.env).card = (contexts env).card + lost false (lifeKinds calls results) ∧
        ((contexts s'.env.env).card = (contexts env).card ↔
          ¬[Kind.acquire, .acquire] <:+: lifeKinds calls results ∧ ¬[Kind.acquire, .forget] <:+: lifeKinds calls results))
      (fun _ => True) := by
  let start : PcscSEInterface (Members ε) := ⟨⟨env, cardHandle, cardContext, protocol⟩, reader_idx, false, []⟩
  have hidle : (cardSlot cards start).holds = false := by simp [start, cardSlot, Slot.holds, hcard]
  have hholds : Holds cards (cards env) start := ⟨hidle, rfl, Slot.spares_live hidle⟩
  have hnone : (contextSlot contexts start).holds = false := by simp [start, contextSlot, Slot.holds, hcontext]
  refine (calls_keep h hholds calls).bind ?_
  rintro results s₁ ⟨hrun, hholds₁, hopen⟩
  refine (destroy_leaves h hholds₁).bind ?_
  rintro _ s₂ ⟨hcards, after, hstep, hlive⟩
  rw [hopen] at hstep
  have hlife : Run (contextSlot contexts start) (lifeKinds calls results) after := hrun.append (.cons hstep .nil)
  have hsum := hlife.card
  rw [hnone, hstep.holds_eq] at hsum
  have hends : (if isOpen start.initialized calls results then Kind.release else .forget).holds = false := by
    split <;> rfl
  have hcount : (contexts s₂.env.env).card = (contexts env).card + lost false (lifeKinds calls results) := by
    rw [hends, hlive] at hsum
    exact hsum
  have hkept : contexts env ⊆ after.live := (hlife.spares (Slot.spares_live hnone)).live
  refine .pure ⟨hcards, hlive ▸ hkept, hcount, ?_⟩
  rw [← lost_eq_zero_iff]
  omega

end Laws

end Tracks

/-! ### A library with a reader -/

/-- The live contexts and card handles, and whether the card is in the reader. -/
structure Desk where
  contexts : Finset Nat
  cards : Finset Nat
  inserted : Bool

/-- Contexts and card handles are numbered. There is one reader, and its card is put in when it was missed. -/
def oneReader : Library Desk where
  establishContext desk :=
    (some (desk.contexts.sup id + 1), { desk with contexts := insert (desk.contexts.sup id + 1) desk.contexts })
  listReadersLen _ desk := (some 3, desk)
  listReaders _ _ desk := (some [65, 0, 0], desk)
  connect _ _ desk :=
    if desk.inserted then
      (some (desk.cards.sup id + 1, protocolT0), { desk with cards := insert (desk.cards.sup id + 1) desk.cards })
    else (none, { desk with inserted := true })
  disconnect handle desk := { desk with cards := desk.cards.erase handle }
  releaseContext context desk := { desk with contexts := desk.contexts.erase context }
  transmit _ _ _ desk := (some [0x90, 0x00], desk)

theorem sup_succ_fresh (live : Finset Nat) : live.sup id + 1 ∉ live := by
  intro hmem
  have hle : id (live.sup id + 1) ≤ live.sup id := Finset.le_sup hmem
  exact absurd hle (Nat.not_succ_le_self _)

theorem oneReader_tracks : oneReader.Tracks Desk.contexts Desk.cards where
  establishes desk := ⟨rfl, sup_succ_fresh desk.contexts, rfl⟩
  sizes _ _ := ⟨rfl, rfl⟩
  lists _ _ _ := ⟨rfl, rfl⟩
  connects _ _ desk := by
    cases hinserted : desk.inserted with
    | false => simp [oneReader, hinserted]
    | true => simp [oneReader, hinserted, sup_succ_fresh desk.cards]
  disconnects _ _ := ⟨rfl, rfl⟩
  releases _ _ := ⟨rfl, rfl⟩
  transmits _ _ _ _ := ⟨rfl, rfl⟩

/-- An `open` that misses the card leaves a context behind; the next one, a command and the destructor leave nothing, and
what others have open stays open. -/
theorem lifetime_leaves_oneReader :
    ∃ s', lifetime oneReader [.openInterface, .openInterface, .transmitApdu [0x00, 0xA4]] 2
        ⟨⟨⟨{3}, {3}, false⟩, 0, 0, 0⟩, 0, false, []⟩ = (.done [⟨false, true⟩, ⟨true, true⟩, ⟨true, false⟩], s') ∧
      s'.env.env.cards = {3} ∧ {3} ⊆ s'.env.env.contexts ∧ s'.env.env.contexts.card = 2 := by
  have hrun : ∃ s', lifetime oneReader [.openInterface, .openInterface, .transmitApdu [0x00, 0xA4]] 2
      ⟨⟨⟨{3}, {3}, false⟩, 0, 0, 0⟩, 0, false, []⟩ = (.done [⟨false, true⟩, ⟨true, true⟩, ⟨true, false⟩], s') := ⟨_, rfl⟩
  obtain ⟨s', hdone⟩ := hrun
  obtain ⟨hcards, hkept, hcontexts, _⟩ :=
    (lifetime_leaves oneReader_tracks ⟨{3}, {3}, false⟩ 0 (by decide) (by decide) _).done hdone
  exact ⟨s', hdone, hcards, hkept, hcontexts⟩

end TrustOnboard.Pcsc
