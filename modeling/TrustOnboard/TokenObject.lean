import TrustOnboard.ExecRefinement
import TrustOnboard.MiasHashing
import TrustOnboard.TokenCommands

/-! The MIAS object and the token as one machine. The object remembers the algorithms that were set, the token the rest;
what any sequence of operations returns is a function of both. -/

namespace TrustOnboard.Token

open Exec Linked SEInterface

/-! ### Operations of the object -/

/-- A call of one of the functions behind the PIN and the keys, with its arguments. -/
inductive Operation where
  | verifyPin (pin : List UInt8)
  | hashInit (algorithm : UInt8)
  | hashUpdate (data : Mem) (dataLen : Nat)
  | hashFinal (hash : Mem)
  | signInit (algorithm key : UInt8)
  | signFinal (hash : Mem) (hashLen : Nat) (signature : Mem) (len : Nat)
  | decryptInit (algorithm key : UInt8)
  | decryptFinal (data : Mem) (dataLen : Nat) (plain : Mem) (len : Nat)

/-- What it returns. -/
inductive Output where
  | flag (ok : Bool)
  | fetched (result : Mias.Fetched)

def Operation.run {σ : Type} (T : Transport σ) : Operation → Exec (Linked σ Mias) Output
  | .verifyPin pin => do return .flag (← Mias.verifyPin T pin)
  | .hashInit algorithm => do return .flag (← Mias.hashInit T algorithm)
  | .hashUpdate data dataLen => do return .flag (← Mias.hashUpdate T data dataLen)
  | .hashFinal hash => do return .fetched (← Mias.hashFinal T hash)
  | .signInit algorithm key => do return .flag (← Mias.signInit T algorithm key)
  | .signFinal hash hashLen signature len => do return .fetched (← Mias.signFinal T hash hashLen signature len)
  | .decryptInit algorithm key => do return .flag (← Mias.decryptInit T algorithm key)
  | .decryptFinal data dataLen plain len => do return .fetched (← Mias.decryptFinal T data dataLen plain len)

/-- PINs and ciphertexts that go into commands. -/
def Operation.Fits : Operation → Prop
  | .verifyPin pin => pin.length ≤ 255
  | .decryptFinal _ dataLen _ _ => dataLen ≤ 509
  | _ => True

/-! ### The specification -/

/-- The token, and the algorithms that the object has in mind. -/
structure Session where
  state : State
  hashAlgo : UInt8
  signAlgo : UInt8

/-- A command that is accepted or not. -/
def flagged (token : Token) (x : Session) (command : Command) : Output × Session :=
  (.flag (token.step x.state command).1.ok, { x with state := (token.step x.state command).2 })

/-- Data is hashed as one block. -/
def updated (token : Token) (x : Session) (data : Mem) (dataLen : Nat) : Bool × State :=
  if Mias.blockSize x.hashAlgo = none then (false, x.state)
  else if dataLen = 0 then (true, x.state)
  else ((token.step x.state (.hashBlock (data.slice 0 dataLen))).1.ok,
    (token.step x.state (.hashBlock (data.slice 0 dataLen))).2)

/-- The digest is as long as the algorithm says. -/
def signed (token : Token) (x : Session) (hash signature : Mem) (len : Nat) : Mias.Fetched × State :=
  match Mias.digestLength (x.signAlgo &&& 0xF0) with
  | none => (⟨false, some signature, len⟩, x.state)
  | some size =>
      (delivered signature 0 (token.signature { x.state with hash := some (hash.slice 0 size) }),
        { x.state with hash := none })

/-- What an operation returns, and what it leaves. -/
def perform (token : Token) (x : Session) : Operation → Output × Session
  | .verifyPin pin => flagged token x (.verify pin)
  | .hashInit algorithm => flagged token { x with hashAlgo := algorithm } (.setHash algorithm)
  | .hashUpdate data dataLen =>
      (.flag (updated token x data dataLen).1, { x with state := (updated token x data dataLen).2 })
  | .hashFinal hash =>
      (.fetched (delivered hash 0 (token.hashed x.state)), { x with state := { x.state with hashing := none } })
  | .signInit algorithm key => flagged token { x with signAlgo := algorithm } (.setSignature algorithm key)
  | .signFinal hash _ signature len =>
      (.fetched (signed token x hash signature len).1, { x with state := (signed token x hash signature len).2 })
  | .decryptInit algorithm key => flagged token x (.setDecipher algorithm key)
  | .decryptFinal data dataLen plain len =>
      (.fetched (delivered plain len (token.plain x.state (SCTag.PSOPaddingProprietary1 :: data.slice 0 dataLen))),
        { x with state := { x.state with cryptogram := [] } })

section Run

variable {σ : Type} {token : Token} {T : Transport σ} {channels : UInt8 → Prop} {view : σ → State} {channel : UInt8}
  {s : Linked σ Mias}

/-- The object is selected, and the two are in this state. -/
structure Represents (view : σ → State) (channel : UInt8) (x : Session) (s : Linked σ Mias) : Prop where
  ready : Mias.Ready channel s.obj
  state_eq : view s.se.card = x.state
  hashAlgo_eq : s.obj.hashAlgo = x.hashAlgo
  signAlgo_eq : s.obj.signAlgo = x.signAlgo

theorem Represents.moved {x x' : Session} {s' : Linked σ Mias} (h : Represents view channel x s) (hobj : s'.obj = s.obj)
    (hview : view s'.se.card = x'.state) (hhash : x'.hashAlgo = x.hashAlgo) (hsign : x'.signAlgo = x.signAlgo) :
    Represents view channel x' s' where
  ready := hobj ▸ h.ready
  state_eq := hview
  hashAlgo_eq := by rw [hobj, h.hashAlgo_eq, hhash]
  signAlgo_eq := by rw [hobj, h.signAlgo_eq, hsign]

/-- Functions that come to one command, after the object was set. -/
theorem Represents.flagged {x : Session} {command : Command} {program : Exec (Linked σ Mias) Bool} {t : Linked σ Mias}
    (h : Represents view channel x s)
    (hrun : Yields program t (token.step (view s.se.card) command).1.ok (Performed token view command s)) :
    Yields (program >>= fun ok => pure (Output.flag ok)) t (Token.flagged token x command).1
      (Represents view channel (Token.flagged token x command).2) := by
  rw [h.state_eq] at hrun
  refine hrun.bind fun s' hperformed => ?_
  have hview := hperformed.view_eq
  rw [h.state_eq] at hview
  exact .pure (h.moved hperformed.obj_eq hview rfl rfl)

/-! ### Blocks -/

theorem blockSize_le {algorithm : UInt8} {size : Nat} (h : Mias.blockSize algorithm = some size) :
    0 < size ∧ size ≤ 128 := by
  unfold Mias.blockSize at h
  split_ifs at h <;> cases h <;> decide

section Blocks

variable (h : token.EmbodiedBy T channels view) (hchannel : channels channel) {size : Nat} (hsize : 0 < size ∧ size ≤ 128)
  (data : Mem) (dataLen : Nat)

include h hchannel hsize

/-- The blocks from position `i` on, by induction on the bytes that are left. -/
theorem hashTurn_cycles {m : Mias} {start : State} {algorithm : UInt8} {done : List UInt8} (hready : Mias.Ready channel m)
    (left i : Nat) (s : Linked σ Mias) (hleft : dataLen - i ≤ left) (hi : i ≤ dataLen) (hobj : s.obj = m)
    (hview : view s.se.card = { start with hashing := some (algorithm, done ++ data.slice 0 i) }) :
    Cycles (Mias.hashTurn T size data dataLen) i s true fun s' => s'.obj = m ∧
      view s'.se.card = { start with hashing := some (algorithm, done ++ data.slice 0 dataLen) } := by
  induction left generalizing i s with
  | zero =>
      obtain rfl : i = dataLen := by omega
      apply Cycles.stop
      unfold Mias.hashTurn
      rw [if_neg (Nat.lt_irrefl i)]
      exact .pure ⟨hobj, hview⟩
  | succ left ih =>
      by_cases hmore : i < dataLen
      · obtain ⟨l, hl, hpos, hle, hend⟩ : ∃ l, l = (if size < dataLen - i then size else dataLen - i) ∧ 0 < l ∧ l ≤ 128 ∧
            i + l ≤ dataLen := by
          refine ⟨_, rfl, ?_⟩
          split <;> omega
        have hblock : (data.slice i l).length ≤ 255 := by
          rw [Mem.slice_length]
          omega
        have hrun := hashBlock_performs h hchannel (hobj ▸ hready) hblock
        have hnext : token.step (view s.se.card) (.hashBlock (data.slice i l)) =
            (.accepted, { start with hashing := some (algorithm, done ++ data.slice 0 (i + l)) }) := by
          rw [hview, Mem.slice_add, Nat.zero_add, ← List.append_assoc]
          rfl
        rw [hnext] at hrun
        have hturn : Yields (Mias.hashTurn T size data dataLen i) s (.again (i + l)) fun s' => s'.obj = m ∧
            view s'.se.card = { start with hashing := some (algorithm, done ++ data.slice 0 (i + l)) } := by
          unfold Mias.hashTurn
          rw [if_pos hmore, ← hl]
          refine hrun.bind fun s' hperformed => ?_
          have hview' := hperformed.view_eq
          rw [hnext] at hview'
          exact .pure ⟨hperformed.obj_eq.trans hobj, hview'⟩
        exact .again hturn fun s' hs' => ih (i + l) s' (by omega) hend hs'.1 hs'.2
      · obtain rfl : i = dataLen := by omega
        apply Cycles.stop
        unfold Mias.hashTurn
        rw [if_neg (Nat.lt_irrefl i)]
        exact .pure ⟨hobj, hview⟩

/-- The blocks come to one block, however they are cut. -/
theorem hashLoop_performs (hready : Mias.Ready channel s.obj) (hdata : dataLen ≠ 0) :
    Yields (loop (Mias.hashTurn T size data dataLen) 0) s
      (token.step (view s.se.card) (.hashBlock (data.slice 0 dataLen))).1.ok fun s' => s'.obj = s.obj ∧
        view s'.se.card = (token.step (view s.se.card) (.hashBlock (data.slice 0 dataLen))).2 := by
  obtain ⟨start, hstart⟩ : ∃ start, view s.se.card = start := ⟨_, rfl⟩
  rw [hstart]
  cases hhashing : start.hashing with
  | none =>
      -- the first block is refused
      have hrefused : ∀ block, token.step start (.hashBlock block) = (.refused, start) := by
        intro block
        show acceptedIf start.hashing.isSome _ _ = _
        rw [hhashing]
        rfl
      rw [hrefused]
      obtain ⟨l, hl, hle⟩ : ∃ l, l = (if size < dataLen - 0 then size else dataLen - 0) ∧ l ≤ 128 := by
        refine ⟨_, rfl, ?_⟩
        split <;> omega
      have hblock : (data.slice 0 l).length ≤ 255 := by
        rw [Mem.slice_length]
        omega
      have hrun := hashBlock_performs h hchannel hready hblock
      rw [hstart, hrefused] at hrun
      have hturn : Yields (Mias.hashTurn T size data dataLen 0) s (.stop false) fun s' => s'.obj = s.obj ∧
          view s'.se.card = start := by
        unfold Mias.hashTurn
        rw [if_pos (Nat.pos_of_ne_zero hdata), ← hl]
        refine hrun.bind fun s' hperformed => ?_
        have hview := hperformed.view_eq
        rw [hstart, hrefused] at hview
        exact .pure ⟨hperformed.obj_eq, hview⟩
      exact (Cycles.stop hturn).loop
  | some hashing =>
      obtain ⟨algorithm, done⟩ := hashing
      have haccepted : token.step start (.hashBlock (data.slice 0 dataLen)) =
          (.accepted, { start with hashing := some (algorithm, done ++ data.slice 0 dataLen) }) := by
        show acceptedIf start.hashing.isSome _ _ = _
        rw [hhashing]
        rfl
      rw [haccepted]
      have hhere : view s.se.card = { start with hashing := some (algorithm, done ++ data.slice 0 0) } := by
        have hnone : data.slice 0 0 = [] := rfl
        rw [hstart, hnone, List.append_nil, ← hhashing]
      exact (hashTurn_cycles h hchannel hsize data dataLen hready dataLen 0 s (by omega) (Nat.zero_le _) rfl hhere).loop

end Blocks

/-! ### Refinement -/

section Refinement

variable {x : Session} (h : token.EmbodiedBy T channels view) (hchannel : channels channel)
    (hrep : Represents view channel x s)

include h hchannel hrep

theorem hashUpdate_yields (data : Mem) (dataLen : Nat) :
    Yields (Mias.hashUpdate T data dataLen) s (updated token x data dataLen).1 fun s' => s'.obj = s.obj ∧
      view s'.se.card = (updated token x data dataLen).2 := by
  apply Yields.gets_bind
  rw [hrep.hashAlgo_eq, Mias.psoHashInternally, updated]
  cases hsize : Mias.blockSize x.hashAlgo with
  | none =>
      rw [if_pos rfl]
      exact .pure ⟨rfl, hrep.state_eq⟩
  | some size =>
      have hsome : ¬(some size : Option Nat) = none := fun heq => by cases heq
      rw [if_neg hsome]
      by_cases hdata : dataLen = 0
      · rw [if_pos hdata]
        refine (Cycles.stop ?_).loop
        unfold Mias.hashTurn
        rw [if_neg (by omega)]
        exact .pure ⟨rfl, hrep.state_eq⟩
      · rw [if_neg hdata, ← hrep.state_eq]
        exact hashLoop_performs h hchannel (blockSize_le hsize) data dataLen hrep.ready hdata

theorem signFinal_yields (hash : Mem) (hashLen : Nat) (signature : Mem) (len : Nat) :
    Yields (Mias.signFinal T hash hashLen signature len) s (signed token x hash signature len).1 fun s' => s'.obj = s.obj ∧
      view s'.se.card = (signed token x hash signature len).2 := by
  apply Yields.gets_bind
  rw [hrep.signAlgo_eq, signed]
  cases hsize : Mias.digestLength (x.signAlgo &&& 0xF0) with
  | none =>
      simp only [Mias.psoHashExternally, hsize]
      exact .pure ⟨rfl, hrep.state_eq⟩
  | some size =>
      refine (psoHashExternally_performs h hchannel hrep.ready hsize hash hashLen).bind fun s₁ hperformed => ?_
      rw [if_pos rfl]
      have hview : view s₁.se.card = { x.state with hash := some (hash.slice 0 size) } := by
        rw [hperformed.view_eq, hrep.state_eq]
        rfl
      have hsign := psoComputeDigitalSignature_performs h hchannel (hperformed.obj_eq ▸ hrep.ready) signature
      rw [hview] at hsign
      exact hsign.mono fun s₂ hs₂ => ⟨hs₂.1.trans hperformed.obj_eq, hs₂.2⟩

end Refinement

/-- **The object and the token are one machine**: every sequence of operations, on every card that embodies a token, ends
and returns what the specification returns. -/
theorem operations_refine (h : token.EmbodiedBy T channels view) (hchannel : channels channel) :
    Refines (perform token) (Represents view channel) Operation.Fits (Operation.run T) := by
  intro x s op hrep hfits
  cases op with
  | verifyPin pin => exact hrep.flagged (verifyPin_performs h hchannel hrep.ready hfits)
  | hashInit algorithm =>
      have hset : Represents view channel { x with hashAlgo := algorithm } ⟨s.se, { s.obj with hashAlgo := algorithm }⟩ :=
        ⟨hrep.ready.congr rfl, hrep.state_eq, rfl, hrep.signAlgo_eq⟩
      exact hset.flagged (mseSetBeforeHash_performs h hchannel hset.ready algorithm).modify_bind
  | hashUpdate data dataLen =>
      exact (hashUpdate_yields h hchannel hrep data dataLen).bind fun s' hs' => .pure (hrep.moved hs'.1 hs'.2 rfl rfl)
  | hashFinal hash =>
      have hfinal := psoHashInternallyFinal_performs h hchannel hrep.ready hash
      rw [hrep.state_eq] at hfinal
      exact hfinal.bind fun s' hs' => .pure (hrep.moved hs'.1 hs'.2 rfl rfl)
  | signInit algorithm key =>
      have hset : Represents view channel { x with signAlgo := algorithm }
          ⟨s.se, { s.obj with signAlgo := algorithm, signKey := key }⟩ :=
        ⟨hrep.ready.congr rfl, hrep.state_eq, hrep.hashAlgo_eq, rfl⟩
      exact hset.flagged (signInit_performs h hchannel hrep.ready algorithm key)
  | signFinal hash hashLen signature len =>
      exact (signFinal_yields h hchannel hrep hash hashLen signature len).bind fun s' hs' =>
        .pure (hrep.moved hs'.1 hs'.2 rfl rfl)
  | decryptInit algorithm key =>
      have hset : Represents view channel x ⟨s.se, { s.obj with decryptAlgo := algorithm, decryptKey := key }⟩ :=
        ⟨hrep.ready.congr rfl, hrep.state_eq, hrep.hashAlgo_eq, hrep.signAlgo_eq⟩
      exact hset.flagged (decryptInit_performs h hchannel hrep.ready algorithm key)
  | decryptFinal data dataLen plain len =>
      have hfinal := psoDecipher_performs h hchannel hrep.ready hfits data plain len
      rw [hrep.state_eq] at hfinal
      exact hfinal.bind fun s' hs' => .pure (hrep.moved hs'.1 hs'.2 rfl rfl)

end Run

end TrustOnboard.Token
