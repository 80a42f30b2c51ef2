import TrustOnboard.AdaptorModel

/-! The key contexts of the mbedTLS shim. `tob_mbedtls_setup_key` takes one of 16 static contexts for a key and keeps
it, whatever the calls behind it return; the sequences of calls in which the table agrees with the keys are the ones in
which these calls succeed. -/

namespace TrustOnboard.Mbedtls

open Exec Sdk

def TOB_MBEDTLS_MAX_KEYS : Nat := 16

/-- The functions of the SDK and of mbedTLS that `tob_mbedtls_setup_key` calls. A key `pk` is given by its address, a
context by its index. -/
structure KeyCalls (ε : Type) where
  tobSigningLen (pin : Option (List UInt8)) : Exec ε Int
  tobExtractAvailablePrivateKey (pem : Option Mem) (pemSize : Option Int) (der : Option Mem) (derSize : Int)
    (pin : Option (List UInt8)) : Exec ε PemExtract
  mbedtlsPkSetupRsaAlt (pk ctx : Nat) : Exec ε Int
  mbedtlsPkParseKey (pk : Nat) (key : Mem) (keyLen : Nat) : Exec ε Int

/-- The static variables of the shim, and the state of everything else. -/
structure Shim (ε : Type) where
  env : ε
  contexts : Nat → TobMbedtlsCtx
  numContexts : Nat
  keyBuf : Mem

def Shim.create {ε : Type} (env : ε) : Shim ε := ⟨env, fun _ => ⟨[], 0⟩, 0, Mem.zero⟩

/-- The value of an `int` as a `size_t`. -/
def toSizeT : Int → Nat
  | .ofNat n => n
  | .negSucc n => 2 ^ 64 - (n + 1)

section Calls

variable {ε : Type} (calls : KeyCalls ε)

def envLens : Lens (Shim ε) ε where
  get s := s.env
  set env s := { s with env }
  get_set _ _ := rfl
  set_get _ := rfl
  set_set _ _ _ := rfl

/-- A call out of the shim. -/
def outside {α : Type} (program : Exec ε α) : Exec (Shim ε) α := zoom envLens program

def updateCtx (ctx : Nat) (update : TobMbedtlsCtx → TobMbedtlsCtx) : Exec (Shim ε) Unit :=
  modify fun s => { s with contexts := Function.update s.contexts ctx (update (s.contexts ctx)) }

/-- `keySize` is what the uninitialised `key_size` holds. -/
def tobMbedtlsSetupKey (keySize : Int) (pk : Nat) (pin : Option (List UInt8)) (signing : Bool) :
    Exec (Shim ε) Bool := do
  if signing then
    let ctx ← gets fun s => s.numContexts
    if TOB_MBEDTLS_MAX_KEYS ≤ ctx then
      return false
    else
      modify fun s => { s with numContexts := ctx + 1 }
      match pin with
      | none => fault
      | some chars =>
          -- `strncpy` of 15 characters
          updateCtx ctx fun c => { c with pin := chars.take 15 }
          let len ← outside (calls.tobSigningLen pin)
          updateCtx ctx fun c => { c with len := toSizeT len }
          if (← outside (calls.mbedtlsPkSetupRsaAlt pk ctx)) ≠ 0 then
            -- `delete` of an element of a static array
            fault
          else
            return true
  else
    let keyBuf ← gets fun s => s.keyBuf
    let key ← outside (calls.tobExtractAvailablePrivateKey none none (some keyBuf) keySize pin)
    modify fun s => { s with keyBuf := key.der.getD keyBuf }
    if key.ret ≠ 0 then
      return false
    else
      if (← outside (calls.mbedtlsPkParseKey pk (key.der.getD keyBuf) (toSizeT key.derSize))) ≠ 0 then
        return false
      else
        return true

end Calls

section Setup

variable {ε : Type} {calls : KeyCalls ε} {fuel pk : Nat} {keySize : Int} {pin : Option (List UInt8)} {s s' : Shim ε}

/-- The contexts in use and their number are as before. -/
structure Unchanged (s s' : Shim ε) : Prop where
  numContexts_eq : s'.numContexts = s.numContexts
  kept : ∀ i, i < s.numContexts → s'.contexts i = s.contexts i

/-- One context more is in use. It was handed to mbedTLS and holds the whole PIN and the length that the card
reported. -/
structure Claimed (calls : KeyCalls ε) (fuel pk : Nat) (pin : Option (List UInt8)) (s s' : Shim ε) : Prop where
  numContexts_eq : s'.numContexts = s.numContexts + 1
  kept : ∀ i, i < s.numContexts → s'.contexts i = s.contexts i
  handed : ∃ ctx chars len e₁ e₂, s.numContexts ≤ ctx ∧ ctx < s'.numContexts ∧ pin = some chars ∧
    calls.tobSigningLen pin fuel s.env = (.done len, e₁) ∧ 0 < len ∧
    calls.mbedtlsPkSetupRsaAlt pk ctx fuel e₁ = (.done 0, e₂) ∧
    (s'.contexts ctx).pin = chars ∧ ((s'.contexts ctx).len : Int) = len

/-- A call that sets up a signing key does it all or nothing. -/
def SetsUp (calls : KeyCalls ε) (keySize : Int) (fuel pk : Nat) (pin : Option (List UInt8)) (s : Shim ε)
    (result : Bool) (s' : Shim ε) : Prop :=
  tobMbedtlsSetupKey calls keySize pk pin true fuel s = (.done result, s') ∧
    if result then Claimed calls fuel pk pin s s' else Unchanged s s'

/-- The table is full, or the PIN fits, the card reports a length and mbedTLS takes the context. -/
def Takes (calls : KeyCalls ε) (fuel pk : Nat) (pin : Option (List UInt8)) (s : Shim ε) : Prop :=
  TOB_MBEDTLS_MAX_KEYS ≤ s.numContexts ∨
    ∃ chars len e₁ e₂, pin = some chars ∧ chars.length ≤ 15 ∧
      calls.tobSigningLen pin fuel s.env = (.done len, e₁) ∧ 0 < len ∧
      calls.mbedtlsPkSetupRsaAlt pk s.numContexts fuel e₁ = (.done 0, e₂)

theorem toSizeT_of_pos {n : Int} (h : 0 < n) : (toSizeT n : Int) = n := by
  cases n with
  | ofNat n => rfl
  | negSucc n => exact absurd h (by omega)

/-- A full table refuses. -/
theorem setup_full (h : TOB_MBEDTLS_MAX_KEYS ≤ s.numContexts) :
    tobMbedtlsSetupKey calls keySize pk pin true fuel s = (.done false, s) := by
  unfold tobMbedtlsSetupKey
  rw [if_pos rfl, bind_done (gets_apply _ fuel s), if_pos h]
  rfl

theorem updateCtx_apply (ctx : Nat) (update : TobMbedtlsCtx → TobMbedtlsCtx) (fuel : Nat) (s : Shim ε) :
    updateCtx ctx update fuel s =
      (.done (), { s with contexts := Function.update s.contexts ctx (update (s.contexts ctx)) }) := rfl

/-- A context is taken and holds the PIN. -/
def Shim.pinned (s : Shim ε) (chars : List UInt8) : Shim ε :=
  ⟨s.env, Function.update s.contexts s.numContexts ⟨chars.take 15, (s.contexts s.numContexts).len⟩, s.numContexts + 1,
    s.keyBuf⟩

/-- The context holds the length too. -/
def Shim.filled (s : Shim ε) (chars : List UInt8) (len : Int) (env : ε) : Shim ε :=
  ⟨env, Function.update s.contexts s.numContexts (contextFor chars (toSizeT len)), s.numContexts + 1, s.keyBuf⟩

/-- With room, a context is taken before the calls. -/
theorem setup_pinned {chars : List UInt8} (hroom : ¬TOB_MBEDTLS_MAX_KEYS ≤ s.numContexts) :
    tobMbedtlsSetupKey calls keySize pk (some chars) true fuel s =
      (outside (calls.tobSigningLen (some chars)) >>= fun len =>
        updateCtx s.numContexts (fun c => { c with len := toSizeT len }) >>=
        fun _ => outside (calls.mbedtlsPkSetupRsaAlt pk s.numContexts) >>= fun code =>
        if code ≠ 0 then fault else pure true) fuel
        (s.pinned chars) := by
  unfold tobMbedtlsSetupKey
  rw [if_pos rfl, bind_done (gets_apply _ fuel s), if_neg hroom, bind_done (modify_apply _ fuel s)]
  exact bind_done (updateCtx_apply s.numContexts (fun c => { c with pin := chars.take 15 }) fuel _)

/-- With the length, the context is handed to mbedTLS. -/
theorem setup_filled {chars : List UInt8} {len : Int} {e₁ : ε} (hroom : ¬TOB_MBEDTLS_MAX_KEYS ≤ s.numContexts)
    (hlen : calls.tobSigningLen (some chars) fuel s.env = (.done len, e₁)) :
    tobMbedtlsSetupKey calls keySize pk (some chars) true fuel s =
      (outside (calls.mbedtlsPkSetupRsaAlt pk s.numContexts) >>= fun code => if code ≠ 0 then fault else pure true) fuel
        (s.filled chars len e₁) := by
  have hasked : outside (calls.tobSigningLen (some chars)) fuel (s.pinned chars) =
      (.done len, { s.pinned chars with env := e₁ }) := zoom_done hlen
  rw [setup_pinned hroom, bind_done hasked, bind_done (updateCtx_apply _ _ fuel _)]
  have hpinned : (s.pinned chars).contexts s.numContexts = ⟨chars.take 15, (s.contexts s.numContexts).len⟩ :=
    Function.update_self ..
  have hfilled : Function.update (s.pinned chars).contexts s.numContexts
      ⟨((s.pinned chars).contexts s.numContexts).pin, toSizeT len⟩ = (s.filled chars len e₁).contexts := by
    rw [hpinned]
    exact Function.update_idem ..
  dsimp only
  rw [hfilled]
  rfl

theorem setup_taken {chars : List UInt8} {len : Int} {e₁ e₂ : ε} (hroom : ¬TOB_MBEDTLS_MAX_KEYS ≤ s.numContexts)
    (hlen : calls.tobSigningLen (some chars) fuel s.env = (.done len, e₁))
    (hset : calls.mbedtlsPkSetupRsaAlt pk s.numContexts fuel e₁ = (.done 0, e₂)) :
    tobMbedtlsSetupKey calls keySize pk (some chars) true fuel s = (.done true, s.filled chars len e₂) := by
  have hhanded : outside (calls.mbedtlsPkSetupRsaAlt pk s.numContexts) fuel (s.filled chars len e₁) =
      (.done 0, s.filled chars len e₂) := zoom_done hset
  rw [setup_filled hroom hlen, bind_done hhanded]
  rfl

/-- A call with room that returns was given a PIN, and both calls behind it returned. -/
theorem setup_room {result : Bool} (hroom : ¬TOB_MBEDTLS_MAX_KEYS ≤ s.numContexts)
    (h : tobMbedtlsSetupKey calls keySize pk pin true fuel s = (.done result, s')) :
    ∃ chars len e₁ e₂, pin = some chars ∧ calls.tobSigningLen pin fuel s.env = (.done len, e₁) ∧
      calls.mbedtlsPkSetupRsaAlt pk s.numContexts fuel e₁ = (.done 0, e₂) ∧ result = true ∧
      s' = s.filled chars len e₂ := by
  cases pin with
  | none =>
      unfold tobMbedtlsSetupKey at h
      rw [if_pos rfl, bind_done (gets_apply _ fuel s), if_neg hroom, bind_done (modify_apply _ fuel s)] at h
      cases h
  | some chars =>
      obtain ⟨len, s₁, hasked, _⟩ := bind_eq_done ((setup_pinned hroom).symm.trans h)
      obtain ⟨e₁, hlen, _⟩ := zoom_eq_done hasked
      obtain ⟨code, s₂, hhanded, hend⟩ := bind_eq_done ((setup_filled hroom hlen).symm.trans h)
      obtain ⟨e₂, hset, rfl⟩ := zoom_eq_done hhanded
      by_cases hcode : code ≠ 0
      · rw [if_pos hcode] at hend
        cases hend
      · rw [if_neg hcode] at hend
        obtain rfl : code = 0 := not_not.mp hcode
        cases hend
        exact ⟨chars, len, e₁, e₂, rfl, hlen, hset, rfl, rfl⟩

/-- The contexts in use are not the one that is filled. -/
theorem filled_kept (chars : List UInt8) (len : Int) (env : ε) {i : Nat} (hi : i < s.numContexts) :
    (s.filled chars len env).contexts i = s.contexts i :=
  Function.update_of_ne (Nat.ne_of_lt hi) ..

theorem filled_context (chars : List UInt8) (len : Int) (env : ε) :
    (s.filled chars len env).contexts s.numContexts = contextFor chars (toSizeT len) :=
  Function.update_self ..

/-- One call. -/
theorem setsUp_iff : (∃ result s', SetsUp calls keySize fuel pk pin s result s') ↔ Takes calls fuel pk pin s := by
  by_cases hroom : TOB_MBEDTLS_MAX_KEYS ≤ s.numContexts
  · exact ⟨fun _ => .inl hroom, fun _ => ⟨false, s, setup_full hroom, rfl, fun _ _ => rfl⟩⟩
  · constructor
    · rintro ⟨result, s', hrun, hsets⟩
      obtain ⟨chars, len, e₁, e₂, rfl, hlen, hset, rfl, rfl⟩ := setup_room hroom hrun
      have hclaimed : Claimed calls fuel pk (some chars) s (s.filled chars len e₂) := hsets
      obtain ⟨ctx, chars', len', e₁', _, hlow, hhigh, hpin, hlen', hpos, _, hwhole, _⟩ := hclaimed.handed
      have hctx : ctx = s.numContexts := Nat.le_antisymm (Nat.lt_succ_iff.mp hhigh) hlow
      obtain rfl : chars = chars' := Option.some.inj hpin
      rw [hctx, filled_context] at hwhole
      rw [hlen] at hlen'
      cases hlen'
      have hfits : (chars.take 15).length = chars.length := congrArg List.length hwhole
      rw [List.length_take] at hfits
      exact .inr ⟨chars, len, e₁, e₂, rfl, by omega, hlen, hpos, hset⟩
    · rintro (hfull | ⟨chars, len, e₁, e₂, rfl, hfits, hlen, hpos, hset⟩)
      · exact absurd hfull hroom
      · refine ⟨true, s.filled chars len e₂, setup_taken hroom hlen hset, rfl, fun i hi =>
          filled_kept chars len e₂ hi, ?_⟩
        refine ⟨s.numContexts, chars, len, e₁, e₂, Nat.le_refl _, Nat.lt_succ_self _, rfl, hlen, hpos, hset, ?_, ?_⟩
        · rw [filled_context, contextFor, List.take_of_length_le hfits]
        · rw [filled_context]
          exact toSizeT_of_pos hpos

end Setup

/-! ### Sequences of calls -/

section Sequences

variable {ε : Type}

/-- The number of contexts is that of the calls that returned true and within the table, and every call to come does
all or nothing. -/
def AllOrNothing (calls : KeyCalls ε) (keySize : Int) (fuel : Nat) :
    List (Nat × Option (List UInt8)) → Nat → Shim ε → Prop
  | [], succeeded, s => s.numContexts = succeeded ∧ succeeded ≤ TOB_MBEDTLS_MAX_KEYS
  | (pk, pin) :: rest, succeeded, s =>
      (s.numContexts = succeeded ∧ succeeded ≤ TOB_MBEDTLS_MAX_KEYS) ∧
        ∃ result s', SetsUp calls keySize fuel pk pin s result s' ∧
          AllOrNothing calls keySize fuel rest (if result then succeeded + 1 else succeeded) s'

/-- Every call of the sequence finds the table full, or is taken. -/
def TakesAll (calls : KeyCalls ε) (keySize : Int) (fuel : Nat) : List (Nat × Option (List UInt8)) → Shim ε → Prop
  | [], _ => True
  | (pk, pin) :: rest, s =>
      Takes calls fuel pk pin s ∧
        ∀ result s', tobMbedtlsSetupKey calls keySize pk pin true fuel s = (.done result, s') →
          TakesAll calls keySize fuel rest s'

/-- One call keeps the count. -/
theorem SetsUp.count {calls : KeyCalls ε} {keySize : Int} {fuel pk : Nat} {pin : Option (List UInt8)} {s s' : Shim ε}
    {result : Bool} (h : SetsUp calls keySize fuel pk pin s result s') (hcount : s.numContexts ≤ TOB_MBEDTLS_MAX_KEYS) :
    s'.numContexts = (if result then s.numContexts + 1 else s.numContexts) ∧ s'.numContexts ≤ TOB_MBEDTLS_MAX_KEYS := by
  obtain ⟨hrun, hsets⟩ := h
  cases result with
  | false =>
      have hunchanged : Unchanged s s' := hsets
      rw [hunchanged.numContexts_eq]
      exact ⟨rfl, hcount⟩
  | true =>
      have hclaimed : Claimed calls fuel pk pin s s' := hsets
      rw [hclaimed.numContexts_eq]
      refine ⟨rfl, ?_⟩
      by_contra hfull
      rw [setup_full (by omega)] at hrun
      cases hrun

theorem allOrNothing_iff_takesAll {calls : KeyCalls ε} {keySize : Int} {fuel : Nat}
    {sequence : List (Nat × Option (List UInt8))}
    {s : Shim ε} (hcount : s.numContexts ≤ TOB_MBEDTLS_MAX_KEYS) :
    AllOrNothing calls keySize fuel sequence s.numContexts s ↔ TakesAll calls keySize fuel sequence s := by
  induction sequence generalizing s with
  | nil => exact ⟨fun _ => trivial, fun _ => ⟨rfl, hcount⟩⟩
  | cons call rest ih =>
      obtain ⟨pk, pin⟩ := call
      constructor
      · rintro ⟨_, result, s', hsets, hrest⟩
        refine ⟨setsUp_iff.mp ⟨result, s', hsets⟩, fun other s'' hrun => ?_⟩
        obtain ⟨hnumber, hbound⟩ := hsets.count hcount
        rw [hsets.1] at hrun
        cases hrun
        rw [← hnumber] at hrest
        exact (ih hbound).mp hrest
      · rintro ⟨htakes, hrest⟩
        obtain ⟨result, s', hsets⟩ := setsUp_iff.mpr htakes
        obtain ⟨hnumber, hbound⟩ := hsets.count hcount
        refine ⟨⟨rfl, hcount⟩, result, s', hsets, ?_⟩
        rw [← hnumber]
        exact (ih hbound).mpr (hrest result s' hsets.1)

/-- **mbedTLS key setup is atomic** in just the sequences of calls in which each finds the table full, or gives a PIN
of at most 15 characters for which the card reports a length above zero and mbedTLS takes the context. -/
theorem setup_key_atomic_iff (calls : KeyCalls ε) (keySize : Int) (fuel : Nat)
    (sequence : List (Nat × Option (List UInt8)))
    (env : ε) :
    AllOrNothing calls keySize fuel sequence 0 (.create env) ↔ TakesAll calls keySize fuel sequence (.create env) :=
  allOrNothing_iff_takesAll (s := .create env) (Nat.zero_le _)

end Sequences

/-- The SDK, and an mbedTLS that takes every key. -/
def sdkCalls {σ : Type} (T : Transport σ) (locals : Locals) : KeyCalls (Sdk σ) where
  tobSigningLen := Sdk.tobSigningLen T
  tobExtractAvailablePrivateKey := Sdk.tobExtractAvailablePrivateKey T locals locals
  mbedtlsPkSetupRsaAlt _ _ := pure 0
  mbedtlsPkParseKey _ _ _ := pure 0

/-- Without a card the length is an error code, and the key is set up with it. -/
theorem setup_key_without_card :
    ¬AllOrNothing (sdkCalls scripted ⟨⟨Mem.zero, 0⟩, 0, 0⟩) 0 2 [(0, some (cstr "1234"))] 0
      (.create (sessionOn [])) := by
  intro hall
  rcases (allOrNothing_iff_takesAll (s := .create (sessionOn [])) (Nat.zero_le _)).mp hall with
    ⟨hfull | ⟨chars, len, e₁, e₂, hpin, _, hlen, hpos, _⟩, _⟩
  · exact absurd hfull (by decide)
  · obtain rfl : cstr "1234" = chars := Option.some.inj hpin
    have herror : (Sdk.tobSigningLen scripted (some (cstr "1234")) 2 (sessionOn [])).1 =
        .done ERR_SE_BAD_KEY_NAME_ERROR := by
      decide +kernel
    rw [show Sdk.tobSigningLen scripted (some (cstr "1234")) 2 (sessionOn []) = _ from hlen] at herror
    cases herror
    exact absurd hpos (by decide)

end TrustOnboard.Mbedtls
