import Mathlib.Data.List.Induction
import TrustOnboard.TokenObject

/-! Whole runs of the MIAS object on a token: what a sequence of operations returns, that hashing, signing and
deciphering do not see each other, and that nothing is signed or deciphered without the PIN. -/

namespace TrustOnboard.Token

open Exec Linked SEInterface

variable {σ : Type} {token : Token} {T : Transport σ} {channels : UInt8 → Prop} {view : σ → State} {channel : UInt8}
  {s : Linked σ Mias}

/-- The state of the object and the card. -/
def sessionOf (view : σ → State) (s : Linked σ Mias) : Session := ⟨view s.se.card, s.obj.hashAlgo, s.obj.signAlgo⟩

/-- **Runs return what the specification says**: for every sequence of operations and every card that embodies a token. -/
theorem runs_refine (h : token.EmbodiedBy T channels view) (hchannel : channels channel) (hready : Mias.Ready channel s.obj)
    (ops : List Operation) (hfits : ∀ op ∈ ops, op.Fits) :
    Yields (runAll (Operation.run T) ops) s (specAll (perform token) (sessionOf view s) ops).1
      (Represents view channel (specAll (perform token) (sessionOf view s) ops).2) :=
  (operations_refine h hchannel).runAll ops hfits ⟨hready, rfl, rfl, rfl⟩

/-- The object on channel 1, with the sample token behind it. -/
def onToken : Linked (State × Unit) Mias :=
  ⟨.create (State.fresh, ()) Mem.zero,
    { Mias.create with applet := { Mias.create.applet with isSelected := true, attached := true, channel := 1 } }⟩

/-- Nothing but the token. -/
def bareCard : Transport (State × Unit) := sampleToken.card fun card _ => (none, card)

theorem bareCard_embodied : sampleToken.EmbodiedBy bareCard (· = 1) Prod.fst := card_embodied

theorem onToken_ready : Mias.Ready 1 onToken.obj := ⟨rfl, rfl, rfl⟩

/-- A hash in two pieces, with a signature between them. -/
def sampleRun : List Operation :=
  [.verifyPin (cstr "0000"), .hashInit 0x40, .hashUpdate Mem.zero 70, .signInit 0x42 0x31,
    .signFinal Mem.zero 32 Mem.zero 0, .hashUpdate Mem.zero 3, .hashFinal Mem.zero]

theorem sampleRun_fits : ∀ op ∈ sampleRun, op.Fits := by
  simp [sampleRun, Operation.Fits, cstr]

theorem runs_refine_bareCard : Yields (runAll (Operation.run bareCard) sampleRun) onToken
    (specAll (perform sampleToken) (sessionOf Prod.fst onToken) sampleRun).1
    (Represents Prod.fst 1 (specAll (perform sampleToken) (sessionOf Prod.fst onToken) sampleRun).2) :=
  runs_refine bareCard_embodied rfl onToken_ready sampleRun sampleRun_fits

/-! ### Isolation -/

/-- What an operation is about. -/
inductive Purpose where
  | hashing
  | signing
  | deciphering
  deriving DecidableEq, Repr

/-- VERIFY is for both uses of the keys. -/
def Operation.serves : Operation → Purpose → Bool
  | .verifyPin _, purpose => decide (purpose ≠ .hashing)
  | .hashInit _, purpose | .hashUpdate _ _, purpose | .hashFinal _, purpose => decide (purpose = .hashing)
  | .signInit _ _, purpose | .signFinal _ _ _ _, purpose => decide (purpose = .signing)
  | .decryptInit _ _, purpose | .decryptFinal _ _ _ _, purpose => decide (purpose = .deciphering)

/-- What a purpose sees of a state; the rest is blanked. -/
def Purpose.sees (purpose : Purpose) (x : Session) : Session :=
  match purpose with
  | .hashing => ⟨⟨0, false, x.state.hashing, none, none, none, []⟩, x.hashAlgo, 0⟩
  | .signing => ⟨⟨x.state.tries, x.state.verified, none, x.state.signing, x.state.hash, none, []⟩, 0, x.signAlgo⟩
  | .deciphering =>
      ⟨⟨x.state.tries, x.state.verified, none, none, none, x.state.deciphering, x.state.cryptogram⟩, 0, 0⟩

theorem acceptedIf_eq (condition : Bool) (accepted refused : State) :
    acceptedIf condition accepted refused = (if condition then .accepted else .refused,
    if condition then accepted else refused) := by
  cases condition <;> rfl

/-- An operation returns and changes what its purpose sees. -/
theorem perform_sees {purpose : Purpose} {op : Operation} (h : op.serves purpose = true) (x : Session) :
    (perform token x op).1 = (perform token (purpose.sees x) op).1 ∧
      purpose.sees (perform token x op).2 = purpose.sees (perform token (purpose.sees x) op).2 := by
  have hpurpose : ∀ {other}, decide (purpose = other) = true → purpose = other := of_decide_eq_true
  cases op with
  | verifyPin pin =>
      have hne : purpose ≠ .hashing := of_decide_eq_true h
      cases purpose with
      | hashing => exact absurd rfl hne
      | signing =>
          simp only [perform, flagged, step, acceptedIf_eq, Purpose.sees]
          split <;> exact ⟨trivial, rfl⟩
      | deciphering =>
          simp only [perform, flagged, step, acceptedIf_eq, Purpose.sees]
          split <;> exact ⟨trivial, rfl⟩
  | hashInit algorithm =>
      obtain rfl := hpurpose h
      simp only [perform, flagged, step, acceptedIf_eq, Purpose.sees]
      split <;> exact ⟨trivial, rfl⟩
  | hashUpdate data dataLen =>
      obtain rfl := hpurpose h
      simp only [perform, updated, step, acceptedIf_eq, Purpose.sees]
      split
      · exact ⟨rfl, rfl⟩
      · split
        · exact ⟨rfl, rfl⟩
        · split <;> exact ⟨rfl, rfl⟩
  | hashFinal hash =>
      obtain rfl := hpurpose h
      exact ⟨rfl, rfl⟩
  | signInit algorithm key =>
      obtain rfl := hpurpose h
      simp only [perform, flagged, step, acceptedIf_eq, Purpose.sees]
      split <;> exact ⟨trivial, rfl⟩
  | signFinal hash hashLen signature len =>
      obtain rfl := hpurpose h
      simp only [perform, signed, Purpose.sees]
      split <;> exact ⟨rfl, rfl⟩
  | decryptInit algorithm key =>
      obtain rfl := hpurpose h
      simp only [perform, flagged, step, acceptedIf_eq, Purpose.sees]
      split <;> exact ⟨trivial, rfl⟩
  | decryptFinal data dataLen plain len =>
      obtain rfl := hpurpose h
      exact ⟨rfl, rfl⟩

/-- An operation for something else changes nothing of it. -/
theorem perform_spares {purpose : Purpose} {op : Operation} (h : op.serves purpose = false) (x : Session) :
    purpose.sees (perform token x op).2 = purpose.sees x := by
  have hpurpose : ∀ {other}, decide (purpose = other) = false → purpose ≠ other := of_decide_eq_false
  cases op with
  | verifyPin pin =>
      obtain rfl : purpose = .hashing := by
        by_contra hne
        exact of_decide_eq_false h hne
      simp only [perform, flagged, step, acceptedIf_eq, Purpose.sees]
      split <;> rfl
  | hashInit algorithm =>
      have hne := hpurpose h
      simp only [perform, flagged, step, acceptedIf_eq]
      cases purpose <;> split <;> first | rfl | exact absurd rfl hne
  | hashUpdate data dataLen =>
      have hne := hpurpose h
      simp only [perform, updated, step, acceptedIf_eq]
      cases purpose <;> split <;> first | rfl | exact absurd rfl hne | skip
      all_goals split <;> first | rfl | skip
      all_goals split <;> rfl
  | hashFinal hash =>
      have hne := hpurpose h
      cases purpose <;> first | rfl | exact absurd rfl hne
  | signInit algorithm key =>
      have hne := hpurpose h
      simp only [perform, flagged, step, acceptedIf_eq]
      cases purpose <;> split <;> first | rfl | exact absurd rfl hne
  | signFinal hash hashLen signature len =>
      have hne := hpurpose h
      simp only [perform, signed]
      cases purpose <;> split <;> first | rfl | exact absurd rfl hne
  | decryptInit algorithm key =>
      have hne := hpurpose h
      simp only [perform, flagged, step, acceptedIf_eq]
      cases purpose <;> split <;> first | rfl | exact absurd rfl hne
  | decryptFinal data dataLen plain len =>
      have hne := hpurpose h
      cases purpose <;> first | rfl | exact absurd rfl hne

/-- **Hashing, signing and deciphering do not see each other**: in a run of any operations, those for one purpose return
what they return in the run without the others. -/
theorem operations_isolated (h : token.EmbodiedBy T channels view) (hchannel : channels channel)
    (hready : Mias.Ready channel s.obj) (ops : List Operation) (hfits : ∀ op ∈ ops, op.Fits) (purpose : Purpose) :
    Attains (runAll (Operation.run T) ops) s fun outputs _ =>
      Attains (runAll (Operation.run T) (ops.filter (·.serves purpose))) s fun alone _ =>
        resultsOf (·.serves purpose) ops outputs = alone := by
  have hkeep : ∀ x y (op : Operation), op.serves purpose = true → purpose.sees x = purpose.sees y →
      (perform token x op).1 = (perform token y op).1 ∧
        purpose.sees (perform token x op).2 = purpose.sees (perform token y op).2 := by
    intro x y op hop hsame
    obtain ⟨hleft, hleft'⟩ := perform_sees hop x
    obtain ⟨hright, hright'⟩ := perform_sees hop y
    rw [hsame] at hleft hleft'
    exact ⟨hleft.trans hright.symm, hleft'.trans hright'.symm⟩
  have hskip : ∀ x y (op : Operation), op.serves purpose = false → purpose.sees x = purpose.sees y →
      purpose.sees (perform token x op).2 = purpose.sees y :=
    fun x _ _ hop hsame => (perform_spares hop x).trans hsame
  have hrest : ∀ op ∈ ops.filter (·.serves purpose), op.Fits := fun op hmem => hfits op (List.mem_of_mem_filter hmem)
  refine ⟨_, (runs_refine h hchannel hready ops hfits).mono fun _ _ => ?_⟩
  exact ⟨_, (runs_refine h hchannel hready _ hrest).mono fun _ _ => specAll_filter hkeep hskip ops rfl⟩

theorem operations_isolated_bareCard : Attains (runAll (Operation.run bareCard) sampleRun) onToken fun outputs _ =>
    Attains (runAll (Operation.run bareCard) (sampleRun.filter (·.serves .hashing))) onToken fun alone _ =>
      resultsOf (·.serves .hashing) sampleRun outputs = alone :=
  operations_isolated bareCard_embodied rfl onToken_ready sampleRun sampleRun_fits .hashing

/-! ### Digests -/

/-- The data of the updates. -/
def hashedData (ops : List Operation) : List UInt8 :=
  (ops.map fun
    | .hashUpdate data dataLen => data.slice 0 dataLen
    | _ => []).flatten

theorem hashedData_cons (op : Operation) (ops : List Operation) :
    hashedData (op :: ops) = hashedData [op] ++ hashedData ops := by
  simp [hashedData]

/-- Neither begins nor ends a hash. -/
def Operation.Continues : Operation → Prop
  | .hashInit _ | .hashFinal _ => False
  | _ => True

/-- A hash that was begun goes on, whatever is done besides. -/
theorem perform_hashing {algorithm : UInt8} {size : Nat} (hsize : Mias.blockSize algorithm = some size) {done : List UInt8}
    {x : Session} (hhash : x.hashAlgo = algorithm ∧ x.state.hashing = some (algorithm, done)) {op : Operation}
    (hop : op.Continues) : (perform token x op).2.hashAlgo = algorithm ∧
      (perform token x op).2.state.hashing = some (algorithm, done ++ hashedData [op]) := by
  have hother : op.serves .hashing = false → hashedData [op] = [] → (perform token x op).2.hashAlgo = algorithm ∧
      (perform token x op).2.state.hashing = some (algorithm, done ++ hashedData [op]) := by
    intro hserves hnone
    have hsees : Purpose.hashing.sees (perform token x op).2 = Purpose.hashing.sees x := perform_spares hserves x
    rw [hnone, List.append_nil]
    exact ⟨(congrArg Session.hashAlgo hsees).trans hhash.1, (congrArg (fun y => y.state.hashing) hsees).trans hhash.2⟩
  cases op with
  | hashInit algorithm => exact hop.elim
  | hashFinal hash => exact hop.elim
  | hashUpdate data dataLen =>
      have hdata : hashedData [.hashUpdate data dataLen] = data.slice 0 dataLen := List.append_nil _
      have hknown : ¬Mias.blockSize x.hashAlgo = none := by
        rw [hhash.1, hsize]
        exact fun heq => by cases heq
      rw [hdata]
      simp only [perform, updated, if_neg hknown]
      by_cases hempty : dataLen = 0
      · rw [if_pos hempty, hempty]
        exact ⟨hhash.1, by rw [hhash.2]; exact congrArg (fun d => some (algorithm, d)) (List.append_nil done).symm⟩
      · rw [if_neg hempty]
        refine ⟨hhash.1, ?_⟩
        show (acceptedIf x.state.hashing.isSome _ _).2.hashing = _
        rw [hhash.2]
        rfl
  | verifyPin pin => exact hother rfl rfl
  | signInit algorithm key => exact hother rfl rfl
  | signFinal hash hashLen signature len => exact hother rfl rfl
  | decryptInit algorithm key => exact hother rfl rfl
  | decryptFinal data dataLen plain len => exact hother rfl rfl

theorem specAll_hashing {algorithm : UInt8} {size : Nat} (hsize : Mias.blockSize algorithm = some size)
    (ops : List Operation) (hops : ∀ op ∈ ops, op.Continues) {done : List UInt8} {x : Session}
    (hhash : x.hashAlgo = algorithm ∧ x.state.hashing = some (algorithm, done)) :
    (specAll (perform token) x ops).2.state.hashing = some (algorithm, done ++ hashedData ops) := by
  induction ops generalizing done x with
  | nil =>
      rw [show hashedData [] = [] from rfl, List.append_nil]
      exact hhash.2
  | cons op ops ih =>
      rw [List.forall_mem_cons] at hops
      rw [hashedData_cons, ← List.append_assoc]
      exact ih hops.2 (perform_hashing hsize hhash hops.1)

/-- **The digest is the hash of what was given**, in whatever pieces it came and whatever was done between them. -/
theorem interleaved_digest (h : token.EmbodiedBy T channels view) (hchannel : channels channel)
    (hready : Mias.Ready channel s.obj) {algorithm : UInt8} {size : Nat} (hsize : Mias.blockSize algorithm = some size)
    {digest : List UInt8 → List UInt8} (hdigest : token.digest algorithm = some digest) (before ops after : List Operation)
    (hops : ∀ op ∈ ops, op.Continues) (hash : Mem)
    (hfits : ∀ op ∈ before ++ .hashInit algorithm :: ops ++ .hashFinal hash :: after, op.Fits) :
    Attains (runAll (Operation.run T) (before ++ .hashInit algorithm :: ops ++ .hashFinal hash :: after)) s fun outputs _ =>
      outputs[(before ++ .hashInit algorithm :: ops).length]? =
        some (.fetched ⟨true, some (hash.write 0 (digest (hashedData ops))), (digest (hashedData ops)).length⟩) := by
  obtain ⟨x, hx⟩ : ∃ x, (specAll (perform token) (sessionOf view s) before).2 = x := ⟨_, rfl⟩
  have hbegun : (perform token x (.hashInit algorithm)).2.hashAlgo = algorithm ∧
      (perform token x (.hashInit algorithm)).2.state.hashing = some (algorithm, []) := by
    refine ⟨rfl, ?_⟩
    show (acceptedIf (token.digest algorithm).isSome _ _).2.hashing = _
    rw [hdigest]
    rfl
  have hhashed : token.hashed (specAll (perform token) (sessionOf view s) (before ++ .hashInit algorithm :: ops)).2.state =
      some (digest (hashedData ops)) := by
    rw [specAll_append, hx, specAll, hashed, specAll_hashing hsize ops hops hbegun, List.nil_append]
    simp only [Option.bind_eq_bind, Option.bind_some, hdigest]
    rfl
  have houtput : (specAll (perform token) _ _).1[_]? = some (perform token _ _).1 :=
    specAll_getElem (sessionOf view s) (before ++ .hashInit algorithm :: ops) after (.hashFinal hash)
  refine ⟨_, (runs_refine h hchannel hready _ hfits).mono fun _ _ => houtput.trans ?_⟩
  show some (Output.fetched (delivered hash 0 (token.hashed _))) = _
  rw [hhashed]
  rfl

theorem interleaved_digest_bareCard : Attains (runAll (Operation.run bareCard) sampleRun) onToken fun outputs _ =>
    outputs[6]? = some (.fetched ⟨true, some (Mem.zero.write 0 (0x40 :: List.replicate 64 0)), 65⟩) :=
  interleaved_digest bareCard_embodied rfl onToken_ready (rfl : Mias.blockSize 0x40 = some 64)
    rfl [.verifyPin (cstr "0000")]
    [.hashUpdate Mem.zero 70, .signInit 0x42 0x31, .signFinal Mem.zero 32 Mem.zero 0, .hashUpdate Mem.zero 3] []
    (by simp [Operation.Continues]) Mem.zero sampleRun_fits

/-! ### The PIN -/

def Operation.IsVerify : Operation → Prop
  | .verifyPin _ => True
  | _ => False

/-- The operations that give something made with a key. -/
def Operation.UsesKey : Operation → Prop
  | .signFinal _ _ _ _ | .decryptFinal _ _ _ _ => True
  | _ => False

theorem perform_verified (x : Session) {op : Operation} (h : ¬op.IsVerify) :
    (perform token x op).2.state.verified = x.state.verified := by
  cases op with
  | verifyPin pin => exact absurd trivial h
  | hashInit algorithm => exact acceptedIf_snd State.verified rfl rfl
  | hashUpdate data dataLen =>
      simp only [perform, updated]
      split
      · rfl
      · split
        · rfl
        · exact acceptedIf_snd State.verified rfl rfl
  | hashFinal hash => rfl
  | signInit algorithm key => exact acceptedIf_snd State.verified rfl rfl
  | signFinal hash hashLen signature len =>
      simp only [perform, signed]
      split <;> rfl
  | decryptInit algorithm key => exact acceptedIf_snd State.verified rfl rfl
  | decryptFinal data dataLen plain len => rfl

/-- Where the PIN counts as verified, the last VERIFY was one with the right PIN. -/
theorem specAll_verified {x : Session} (hunverified : x.state.verified = false) (ops : List Operation)
    (h : (specAll (perform token) x ops).2.state.verified = true) :
    ∃ earlier later, ops = earlier ++ .verifyPin token.pin :: later ∧ (∀ op ∈ later, ¬op.IsVerify) ∧
      (perform token (specAll (perform token) x earlier).2 (.verifyPin token.pin)).1 = .flag true := by
  induction ops using List.reverseRecOn with
  | nil =>
      rw [specAll, hunverified] at h
      cases h
  | append_singleton ops op ih =>
      rw [specAll_append] at h
      by_cases hverify : op.IsVerify
      · cases op with
        | verifyPin pin =>
            obtain ⟨y, hy⟩ : ∃ y, (specAll (perform token) x ops).2 = y := ⟨_, rfl⟩
            rw [hy] at h
            have haccepts : token.accepts y.state.tries pin = true := by
              by_contra hrefused
              have hstep : (acceptedIf (token.accepts y.state.tries pin) { y.state with
                  tries := token.limit, verified := true } { y.state with
                  tries := y.state.tries - 1, verified := false }).2.verified = true := h
              rw [eq_false_of_ne_true hrefused] at hstep
              cases hstep
            obtain ⟨_, rfl⟩ := of_decide_eq_true haccepts
            refine ⟨ops, [], rfl, fun _ hmem => (List.not_mem_nil hmem).elim, ?_⟩
            rw [hy]
            show Output.flag (acceptedIf (token.accepts y.state.tries token.pin) _ _).1.ok = _
            rw [haccepts]
            rfl
        | _ => exact hverify.elim
      · have hsame : (specAll (perform token) x ops).2.state.verified = true := (perform_verified _ hverify).symm.trans h
        obtain ⟨earlier, later, rfl, hlater, hflag⟩ := ih hsame
        refine ⟨earlier, later ++ [op], by simp, fun other hmem => ?_, hflag⟩
        rcases List.mem_append.mp hmem with hmem | hmem
        · exact hlater other hmem
        · rw [List.mem_singleton.mp hmem]
          exact hverify

theorem unlocked_some {α : Type} {x : State} {value : Option α} {a : α} (h : x.unlocked value = some a) :
    x.verified = true := by
  by_contra hlocked
  rw [State.unlocked, if_neg hlocked] at h
  cases h

theorem delivered_ok {out : Mem} {len : Nat} {data : Option (List UInt8)} (h : (delivered out len data).ok = true) :
    ∃ value, data = some value := by
  cases data with
  | none => cases h
  | some value => exact ⟨value, rfl⟩

/-- Without the PIN a key gives nothing. -/
theorem perform_usesKey {x : Session} {op : Operation} (h : op.UsesKey) {result : Mias.Fetched}
    (houtput : (perform token x op).1 = .fetched result) (hok : result.ok = true) : x.state.verified = true := by
  cases op with
  | signFinal hash hashLen signature len =>
      cases houtput
      rw [signed] at hok
      split at hok
      · cases hok
      · obtain ⟨value, hvalue⟩ := delivered_ok hok
        obtain ⟨_, hunlocked, _⟩ := Option.bind_eq_some_iff.mp hvalue
        exact unlocked_some hunlocked
  | decryptFinal data dataLen plain len =>
      cases houtput
      obtain ⟨value, hvalue⟩ := delivered_ok hok
      obtain ⟨_, hunlocked, _⟩ := Option.bind_eq_some_iff.mp hvalue
      exact unlocked_some hunlocked
  | _ => exact h.elim

/-- **Nothing is signed or deciphered without the PIN**: in every run on a token that is not unlocked yet, a use of a key
that succeeds comes behind a VERIFY with the PIN of the token which succeeded, and no other VERIFY is between them. -/
theorem keys_need_pin (h : token.EmbodiedBy T channels view) (hchannel : channels channel)
    (hready : Mias.Ready channel s.obj)
    (hunverified : (view s.se.card).verified = false) (before after : List Operation) (op : Operation) (hop : op.UsesKey)
    (hfits : ∀ other ∈ before ++ op :: after, other.Fits) :
    Attains (runAll (Operation.run T) (before ++ op :: after)) s fun outputs _ =>
      ∀ result, outputs[before.length]? = some (.fetched result) → result.ok = true →
        ∃ earlier later, before = earlier ++ .verifyPin token.pin :: later ∧ (∀ other ∈ later, ¬other.IsVerify) ∧
          outputs[earlier.length]? = some (.flag true) := by
  refine ⟨_, (runs_refine h hchannel hready _ hfits).mono fun _ _ result hresult hok => ?_⟩
  rw [specAll_getElem] at hresult
  have hverified := perform_usesKey hop (Option.some.inj hresult) hok
  obtain ⟨earlier, later, rfl, hlater, hflag⟩ := specAll_verified hunverified before hverified
  refine ⟨earlier, later, rfl, hlater, ?_⟩
  rw [List.append_assoc, List.cons_append, specAll_getElem, hflag]

/-- The signature of the run is made, and comes behind VERIFY. -/
theorem keys_need_pin_bareCard :
    (∃ result, (specAll (perform sampleToken) (sessionOf Prod.fst onToken) sampleRun).1[4]? = some (.fetched result) ∧
      result.ok = true) ∧
    Attains (runAll (Operation.run bareCard) sampleRun) onToken fun outputs _ =>
      ∀ result, outputs[4]? = some (.fetched result) → result.ok = true →
        ∃ earlier later, sampleRun.take 4 = earlier ++ .verifyPin sampleToken.pin :: later ∧
          (∀ other ∈ later, ¬other.IsVerify) ∧ outputs[earlier.length]? = some (.flag true) :=
  ⟨⟨_, rfl, rfl⟩, keys_need_pin bareCard_embodied rfl onToken_ready rfl (sampleRun.take 4) (sampleRun.drop 5)
    (.signFinal Mem.zero 32 Mem.zero 0) trivial sampleRun_fits⟩

end TrustOnboard.Token
