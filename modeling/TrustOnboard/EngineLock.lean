import TrustOnboard.EngineModel

/-! The SIM lock of the engine. Every function that takes it gives it back on each of its ways out; the one exception
is the branch of `tob_key_signing_sign` for digests of another length, which gives back a lock it has not taken. -/

namespace TrustOnboard.Engine

open Exec Sdk LockMonitor

variable {ε X509 PKey α : Type} {tob : Tob ε} {host : Host ε X509 PKey} {s s₀ : Engine ε} {held : Bool}

/-- The lock of the context that OpenSSL holds for the engine. -/
def simLock (s : Engine ε) : Option Nat := (s.exData.bind s.ctxs).bind TobCtx.simLock

/-- The discipline was kept so far. -/
def Disciplined (s : Engine ε) : Prop := after s.log ≠ none

/-- Between two operations: the discipline was kept, the lock is free, and it belongs to the current context. -/
structure Settled (s : Engine ε) : Prop where
  status : after s.log = some ⟨s.simLock, false⟩
  others : ∀ address ctx, s.ctxs address = some ctx → s.exData ≠ some address → ctx.simLock = none
  blank : ∀ address ctx, s.ctxs address = some ctx → ctx.initialized = false → ctx.simLock = none
  fresh : ∀ address, s.numCtxs ≤ address → s.ctxs address = none
  indexed : s.exDataIdx = none → s.exData = none

theorem Settled.disciplined (h : Settled s) : Disciplined s := by
  unfold Disciplined
  rw [h.status]
  exact Option.some_ne_none _

/-- The contexts are the same. -/
structure Kept (s₀ s : Engine ε) : Prop where
  ctxs_eq : s.ctxs = s₀.ctxs
  numCtxs_eq : s.numCtxs = s₀.numCtxs
  exData_eq : s.exData = s₀.exData
  indexed : s₀.exDataIdx ≠ none → s.exDataIdx ≠ none

theorem Kept.trans {s₁ s₂ : Engine ε} (h : Kept s s₁) (h' : Kept s₁ s₂) : Kept s s₂ :=
  ⟨h'.ctxs_eq.trans h.ctxs_eq, h'.numCtxs_eq.trans h.numCtxs_eq, h'.exData_eq.trans h.exData_eq,
    fun hthere => h'.indexed (h.indexed hthere)⟩

/-- Within an operation that started in `s₀`: the contexts are the same, and the lock is held or free. -/
structure Within (s₀ : Engine ε) (held : Bool) (s : Engine ε) : Prop extends Kept s₀ s where
  status : after s.log = some ⟨s₀.simLock, held⟩

theorem Within.disciplined (h : Within s₀ held s) : Disciplined s := by
  unfold Disciplined
  rw [h.status]
  exact Option.some_ne_none _

theorem Within.simLock_eq (h : Within s₀ held s) : s.simLock = s₀.simLock := by
  unfold simLock
  rw [h.exData_eq, h.ctxs_eq]

theorem Settled.within (h : Settled s) : Within s false s := ⟨⟨rfl, rfl, rfl, id⟩, h.status⟩

/-- An operation that leaves the contexts alone and gives the lock back keeps the state settled. -/
theorem Within.settled (h : Within s₀ false s) (h₀ : Settled s₀) : Settled s where
  status := by rw [h.status, h.simLock_eq]
  others := by
    rw [h.ctxs_eq, h.exData_eq]
    exact h₀.others
  blank := by
    rw [h.ctxs_eq]
    exact h₀.blank
  fresh := by
    rw [h.ctxs_eq, h.numCtxs_eq]
    exact h₀.fresh
  indexed := by
    intro hnone
    rw [h.exData_eq]
    refine h₀.indexed ?_
    by_contra hthere
    exact h.indexed hthere hnone

/-! ### The pieces of the operations -/

/-- Runs within an operation, with the lock free or held before and after. -/
def Passes (s₀ : Engine ε) (before later : Bool) (program : Exec (Engine ε) α) : Prop :=
  ∀ s, Within s₀ before s → Meets program s (fun _ s' => Within s₀ later s') Disciplined

theorem Passes.pure (value : α) : Passes s₀ held held (pure value) := fun _ h => .pure h

theorem Passes.bind {before middle later : Bool} {β : Type} {program : Exec (Engine ε) α} {next : α → Exec (Engine ε) β}
    (h : Passes s₀ before middle program) (hnext : ∀ value, Passes s₀ middle later (next value)) :
    Passes s₀ before later (program >>= next) :=
  fun s hs => (h s hs).bind fun value s' hs' => hnext value s' hs'

theorem Passes.ite {before later : Bool} {c : Prop} [Decidable c] {yes no : Exec (Engine ε) α}
    (hyes : c → Passes s₀ before later yes) (hno : ¬c → Passes s₀ before later no) :
    Passes s₀ before later (if c then yes else no) := by
  split
  · exact hyes ‹_›
  · exact hno ‹_›

theorem Passes.fault {before later : Bool} : Passes s₀ before later (fault : Exec (Engine ε) α) :=
  fun _ h _ => h.disciplined

theorem Passes.gets (read : Engine ε → α) : Passes s₀ held held (gets read) := fun _ h => .gets h

/-- Everything but the contexts and the log may be changed. -/
theorem Passes.modify {update : Engine ε → Engine ε}
    (h : ∀ s, Kept s (update s) ∧ (update s).log = s.log) : Passes s₀ held held (modify update) := by
  intro s hs
  obtain ⟨hkept, hlog⟩ := h s
  exact .modify ⟨hs.toKept.trans hkept, by rw [hlog, hs.status]⟩

theorem outside_passes (program : Exec ε α) : Passes s₀ held held (outside program) := by
  intro s hs
  refine .zoom ?_
  have hkept : ∀ env : ε, Within s₀ held (envLens.set env s) :=
    fun _ => ⟨hs.toKept.trans ⟨rfl, rfl, rfl, id⟩, hs.status⟩
  exact (Meets.trivial program _).mono (fun _ env _ => hkept env) fun env _ => (hkept env).disciplined

/-- A log entry that the monitor accepts. -/
theorem record_passes {before later : Bool} {event : LockMonitor.Event TobFunction}
    (h : ∀ log, after log = some ⟨s₀.simLock, before⟩ → after (event :: log) = some ⟨s₀.simLock, later⟩) :
    Passes s₀ before later (record event) :=
  fun s hs => .modify ⟨hs.toKept.trans ⟨rfl, rfl, rfl, id⟩, h s.log hs.status⟩

/-- **Protected functions** are called while the lock is held. -/
theorem calling_passes (function : TobFunction) (program : Exec ε α) :
    Passes s₀ true true (calling function program) :=
  (record_passes fun _ hlog => after_use hlog).bind fun _ => outside_passes program

section Lock

variable {lock : Nat} (hlock : s₀.simLock = some lock)

include hlock

theorem lock_passes : Passes s₀ false true (sslLockUniversalLock (some lock)) := by
  refine record_passes fun log hlog => ?_
  rw [hlock] at hlog ⊢
  exact after_acquire hlog

theorem unlock_passes : Passes s₀ true false (sslLockUniversalUnlock (some lock)) := by
  refine record_passes fun log hlog => ?_
  rw [hlock] at hlog ⊢
  exact after_release hlog

/-- A way out. -/
theorem unlock_return (value : α) :
    Passes s₀ true false (sslLockUniversalUnlock (some lock) >>= fun _ => Pure.pure value) :=
  (unlock_passes hlock).bind fun _ => .pure _

end Lock

/-- The context with this address has a lock. -/
def Lockable (s : Engine ε) (address : Nat) : Prop := ∃ ctx, s.ctxs address = some ctx ∧ ctx.simLock ≠ none

/-- The lock of a context is the lock of the engine. -/
theorem Settled.simLock_eq (h : Settled s) {address : Nat} {ctx : TobCtx} (hctx : s.ctxs address = some ctx)
    (hlock : ctx.simLock ≠ none) : s.simLock = ctx.simLock := by
  have hdata : s.exData = some address := by
    by_contra hother
    exact hlock (h.others address ctx hctx hother)
  simp [simLock, hdata, hctx]

/-- What follows a read of a context is run with that context. -/
theorem ctxAt_bind_passes {before later : Bool} {address : Nat} {next : TobCtx → Exec (Engine ε) α}
    (h : ∀ ctx, s₀.ctxs address = some ctx → Passes s₀ before later (next ctx)) :
    Passes s₀ before later (ctxAt address >>= next) := by
  intro s hs
  have hread : Meets (ctxAt address) s (fun ctx s' => Within s₀ before s' ∧ s₀.ctxs address = some ctx)
      Disciplined := by
    refine .gets_bind ?_
    rw [hs.ctxs_eq]
    rcases s₀.ctxs address with _ | ctx
    · exact fun _ => hs.disciplined
    · exact .pure ⟨hs, rfl⟩
  exact hread.bind fun ctx s' hs' => h ctx hs'.2 s' hs'.1

/-- The index is there afterwards if it is returned, and it was not there before if it is not. -/
theorem exDataIndex_meets (h : Within s₀ held s) :
    Meets (exDataIndex host) s
      (fun index s' => Within s₀ held s' ∧ s'.exDataIdx = index ∧ (index = none → s₀.exDataIdx = none)) Disciplined := by
  refine .gets_bind ?_
  cases hindex : s.exDataIdx with
  | some index => exact .pure ⟨h, hindex, fun hnone => by cases hnone⟩
  | none =>
      have hbefore : s₀.exDataIdx = none := by
        by_contra hthere
        exact h.indexed hthere hindex
      refine (outside_passes host.getExNewIndex s h).bind fun index s' hs' =>
        .modify_bind (.pure ⟨?_, rfl, fun _ => hbefore⟩)
      exact ⟨⟨hs'.ctxs_eq, hs'.numCtxs_eq, hs'.exData_eq, fun hthere => absurd hbefore hthere⟩, hs'.status⟩

/-- What follows a look for the context is run with the one there is, or without one. -/
theorem tobGetCtx_bind_passes {before later : Bool} {address : Nat} {next : Option Nat → Exec (Engine ε) α}
    (hdata : s₀.exData = some address) (hnone : Passes s₀ before later (next none))
    (hsome : Passes s₀ before later (next (some address))) :
    Passes s₀ before later (tobGetCtx host >>= next) := by
  intro s hs
  have hfound : Meets (tobGetCtx host) s
      (fun found s' => Within s₀ before s' ∧ (found = none ∨ found = some address)) Disciplined := by
    refine (exDataIndex_meets hs).bind fun index s' hs' => ?_
    cases index with
    | none => exact .pure ⟨hs'.1, .inl rfl⟩
    | some index =>
        refine .gets_bind ?_
        rw [hs'.1.exData_eq, hdata]
        exact .pure ⟨hs'.1, .inr rfl⟩
  refine hfound.bind fun found s' hs' => ?_
  rcases hs'.2 with rfl | rfl
  · exact hnone s' hs'.1
  · exact hsome s' hs'.1

/-! ### Extraction -/

/-- The functions that ask for a size, get memory of it and extract: the lock is held up to the end of the extraction,
and given back on each way out. -/
theorem extraction_passes {γ δ ν : Type} {lock : Nat} (hlock : s₀.simLock = some lock) {function : TobFunction}
    {query : Exec ε γ} {refused : γ → Prop} [DecidablePred refused] {size : γ → Int} {extract : γ → Mem → Exec ε δ}
    {failed : δ → Prop} [DecidablePred failed] {parse : δ → Mem → Exec (Engine ε) (Option ν)}
    (hparse : ∀ result memory, Passes s₀ false false (parse result memory)) :
    Passes s₀ false false (do
      sslLockUniversalLock (some lock)
      let length ← calling function query
      if refused length then
        sslLockUniversalUnlock (some lock)
        return none
      else
        match ← outside (host.malloc (size length)) with
        | none =>
            sslLockUniversalUnlock (some lock)
            return none
        | some memory =>
            let result ← calling function (extract length memory)
            if failed result then
              sslLockUniversalUnlock (some lock)
              return none
            else
              sslLockUniversalUnlock (some lock)
              if ← outside host.allocates then
                parse result memory
              else
                return none) := by
  refine (lock_passes hlock).bind fun _ => (calling_passes _ _).bind fun length => ?_
  refine .ite (fun _ => unlock_return hlock _) fun _ => (outside_passes _).bind fun memory => ?_
  cases memory with
  | none => exact unlock_return hlock _
  | some memory =>
      refine (calling_passes _ _).bind fun result => .ite (fun _ => unlock_return hlock _) fun _ => ?_
      refine (unlock_passes hlock).bind fun _ => (outside_passes _).bind fun bio => ?_
      exact .ite (fun _ => hparse _ _) fun _ => .pure _

/-- The engine has a context with a lock. -/
def Open (s : Engine ε) : Prop := ∃ address, s.exData = some address ∧ Lockable s address

section Extraction

variable (h₀ : Settled s₀)

include h₀

theorem tobExtractCertificate_passes (hopen : Open s₀) (signing : Bool) (certLen : Int) :
    Passes s₀ false false (tobExtractCertificate tob host signing certLen) := by
  obtain ⟨address, hdata, ctx, hctx, hset⟩ := hopen
  refine tobGetCtx_bind_passes hdata (.pure _) (ctxAt_bind_passes fun ctx' hctx' => ?_)
  obtain rfl : ctx' = ctx := Option.some.inj (hctx'.symm.trans hctx)
  obtain ⟨lock, hlock⟩ := Option.ne_none_iff_exists'.mp hset
  have hsim : s₀.simLock = some lock := (h₀.simLock_eq hctx hset).trans hlock
  rw [hlock]
  refine .ite (fun _ => ?_) fun _ => ?_
  · exact extraction_passes hsim fun _ _ => outside_passes _
  · exact extraction_passes hsim fun _ _ => outside_passes _

theorem tobEngineLoadPubkey_passes (hopen : Open s₀) (signing : Bool) (certLen : Int) :
    Passes s₀ false false (tobEngineLoadPubkey tob host signing certLen) := by
  refine (tobExtractCertificate_passes h₀ hopen _ _).bind fun cert => ?_
  cases cert with
  | none => exact .pure _
  | some cert => exact outside_passes _

theorem tobEngineLoadAvailablePrivkey_passes (hopen : Open s₀) (keyLen : Int) :
    Passes s₀ false false (tobEngineLoadAvailablePrivkey tob host keyLen) := by
  obtain ⟨address, hdata, ctx, hctx, hset⟩ := hopen
  refine tobGetCtx_bind_passes hdata (.pure _) (ctxAt_bind_passes fun ctx' hctx' => ?_)
  obtain rfl : ctx' = ctx := Option.some.inj (hctx'.symm.trans hctx)
  obtain ⟨lock, hlock⟩ := Option.ne_none_iff_exists'.mp hset
  have hsim : s₀.simLock = some lock := (h₀.simLock_eq hctx hset).trans hlock
  rw [hlock]
  exact extraction_passes hsim fun _ _ => (outside_passes _).bind fun _ => .pure _

omit h₀ in
theorem setRsa_passes (rsa : Nat) (object : Option Rsa) : Passes s₀ held held (setRsa rsa object) :=
  .modify fun _ => ⟨⟨rfl, rfl, rfl, id⟩, rfl⟩

omit h₀ in
theorem rsaExDataIndex_passes : Passes s₀ held held (rsaExDataIndex host) := by
  refine (Passes.gets _).bind fun index => ?_
  cases index with
  | some index => exact .pure _
  | none =>
      exact (outside_passes _).bind fun index => .bind (.modify fun _ => ⟨⟨rfl, rfl, rfl, id⟩, rfl⟩) fun _ => .pure _

omit h₀ in
theorem dupPublicKey_passes (numbers : Nat × Nat) : Passes s₀ held held (dupPublicKey host numbers) :=
  (outside_passes _).bind fun _ => .ite (fun _ => .pure _) fun _ => .pure _

omit h₀ in
theorem rsaNew_passes : Passes s₀ held held (rsaNew : Exec (Engine ε) Nat) :=
  (Passes.gets _).bind fun _ => .bind (.modify fun _ => ⟨⟨rfl, rfl, rfl, id⟩, rfl⟩) fun _ =>
    (setRsa_passes _ _).bind fun _ => .pure _

omit h₀ in
theorem rsaSetExData_passes (rsa : Nat) (object : Rsa) (key : TobKey) :
    Passes s₀ held held (rsaSetExData host rsa object key) :=
  (outside_passes _).bind fun _ => .ite (fun _ => setRsa_passes _ _) fun _ => .pure _

theorem tobEngineLoadSigningPrivkey_passes (hopen : Open s₀) (certLen : Int) :
    Passes s₀ false false (tobEngineLoadSigningPrivkey tob host certLen) := by
  obtain ⟨address, hdata, _⟩ := id hopen
  refine tobGetCtx_bind_passes hdata (.pure _) ?_
  refine (tobEngineLoadPubkey_passes h₀ hopen _ _).bind fun pubkey => ?_
  cases pubkey with
  | none => exact .pure _
  | some pubkey =>
      dsimp only
      cases host.pkeyGet0RSA pubkey with
      | none => exact .pure _
      | some numbers =>
          refine (outside_passes _).bind fun _ => .ite (fun _ => ?_) fun _ => .pure _
          refine rsaNew_passes.bind fun rsa => (dupPublicKey_passes _).bind fun _ =>
            (setRsa_passes _ _).bind fun _ => ?_
          refine rsaExDataIndex_passes.bind fun index => ?_
          cases index with
          | none => exact .pure _
          | some index =>
              refine (outside_passes _).bind fun _ => .ite (fun _ => ?_) fun _ => .fault
              refine (rsaSetExData_passes _ _ _).bind fun _ => (outside_passes _).bind fun _ =>
                .ite (fun _ => .pure _) fun _ => ?_
              exact (setRsa_passes _ _).bind fun _ => .pure _

end Extraction

/-! ### Changing the contexts -/

theorem Passes.settled {program : Exec (Engine ε) α} (h : Passes s false false program) (hs : Settled s) :
    Meets program s (fun _ s' => Within s false s' ∧ Settled s') Disciplined :=
  (h s hs.within).mono (fun _ _ hs' => ⟨hs', hs'.settled hs⟩) fun _ hcut => hcut

/-- An operation that gives the lock back keeps the state settled. -/
theorem Passes.meets {program : Exec (Engine ε) α} (h : Passes s false false program) (hs : Settled s) :
    Meets program s (fun _ s' => Settled s') Disciplined :=
  (h.settled hs).mono (fun _ _ hs' => hs'.2) fun _ hcut => hcut

theorem Within.open (h : Within s₀ held s) (hopen : Open s₀) : Open s := by
  obtain ⟨address, hdata, ctx, hctx, hset⟩ := hopen
  exact ⟨address, h.exData_eq.trans hdata, ctx, by rw [h.ctxs_eq, hctx], hset⟩

/-- What is found after a context was stored. -/
theorem update_some {ctxs : Nat → Option TobCtx} {address other : Nat} {ctx found : TobCtx}
    (h : Function.update ctxs address (some ctx) other = some found) :
    other = address ∧ found = ctx ∨ other ≠ address ∧ ctxs other = some found := by
  by_cases hother : other = address
  · subst hother
    rw [Function.update_self] at h
    exact .inl ⟨rfl, (Option.some.inj h).symm⟩
  · rw [Function.update_of_ne hother] at h
    exact .inr ⟨hother, h⟩

/-- A context may be changed but for its lock and its flag. -/
theorem Settled.setCtx (h : Settled s) {address : Nat} {ctx ctx' : TobCtx} (hctx : s.ctxs address = some ctx)
    (hlock : ctx'.simLock = ctx.simLock) (hflag : ctx'.initialized = ctx.initialized) :
    Settled { s with ctxs := Function.update s.ctxs address (some ctx') } := by
  refine ⟨?_, ?_, ?_, ?_, h.indexed⟩
  · rw [h.status]
    unfold simLock
    cases hdata : s.exData with
    | none => rfl
    | some current =>
        by_cases hcurrent : current = address
        · simp [hcurrent, hctx, hlock]
        · simp [hcurrent]
  · intro other found hfound hdata
    rcases update_some hfound with ⟨rfl, rfl⟩ | ⟨_, hold⟩
    · exact hlock.trans (h.others other ctx hctx hdata)
    · exact h.others other found hold hdata
  · intro other found hfound hblank
    rcases update_some hfound with ⟨rfl, rfl⟩ | ⟨_, hold⟩
    · exact hlock.trans (h.blank other ctx hctx (hflag.symm.trans hblank))
    · exact h.blank other found hold hblank
  · intro other hfresh
    have hne : other ≠ address := by
      rintro rfl
      rw [h.fresh other hfresh] at hctx
      cases hctx
    exact (Function.update_of_ne hne _ _).trans (h.fresh other hfresh)

/-- A context without a lock may be added. -/
theorem Settled.addCtx (h : Settled s) {ctx : TobCtx} (hlock : ctx.simLock = none) :
    Settled { s with numCtxs := s.numCtxs + 1, ctxs := Function.update s.ctxs s.numCtxs (some ctx) } := by
  refine ⟨?_, ?_, ?_, ?_, h.indexed⟩
  · rw [h.status]
    unfold simLock
    cases hdata : s.exData with
    | none => rfl
    | some current =>
        by_cases hcurrent : current = s.numCtxs
        · simp [hcurrent, h.fresh s.numCtxs (Nat.le_refl _), hlock]
        · simp [hcurrent]
  · intro other found hfound hdata
    rcases update_some hfound with ⟨_, rfl⟩ | ⟨_, hold⟩
    · exact hlock
    · exact h.others other found hold hdata
  · intro other found hfound hblank
    rcases update_some hfound with ⟨_, rfl⟩ | ⟨_, hold⟩
    · exact hlock
    · exact h.blank other found hold hblank
  · intro other hfresh
    have hfresh : s.numCtxs + 1 ≤ other := hfresh
    exact (Function.update_of_ne (by omega) _ _).trans (h.fresh other (by omega))

theorem newCtx_meets (h : Settled s) (pin modemDevice : Option (List UInt8)) :
    Meets (newCtx pin modemDevice) s
      (fun address s' => Settled s' ∧ s'.exData = s.exData ∧ s'.exDataIdx = s.exDataIdx ∧
        ∃ ctx, s'.ctxs address = some ctx ∧ ctx.simLock = none) Disciplined :=
  .gets_bind (.modify_bind (.modify_bind (.pure ⟨h.addCtx rfl, rfl, rfl, _, Function.update_self _ _ _, rfl⟩)))

theorem strdup_passes (text : List UInt8) : Passes s₀ held held (strdup host text) :=
  (outside_passes _).bind fun _ => .ite (fun _ => .pure _) fun _ => .pure _

/-- A context without a lock may become the current one if there was none. -/
theorem Settled.setExData (h : Settled s) {address : Nat} {ctx : TobCtx} (hdata : s.exData = none)
    (hindex : s.exDataIdx ≠ none) (hctx : s.ctxs address = some ctx) (hlock : ctx.simLock = none) :
    Settled { s with exData := some address } := by
  refine ⟨?_, ?_, h.blank, h.fresh, fun hnone => absurd hnone hindex⟩
  · rw [h.status]
    simp [simLock, hdata, hctx, hlock]
  · intro other found hfound _
    refine h.others other found hfound ?_
    rw [hdata]
    exact fun hsome => by cases hsome

theorem tobSetCtx_meets (h : Settled s) (hdata : s.exData = none) (hindex : s.exDataIdx ≠ none) :
    Meets (tobSetCtx host) s (fun found s' => Settled s' ∧ s'.exData = found) Disciplined := by
  refine ((outside_passes host.allocates).settled h).bind fun ok s₁ hs₁ => .ite (fun _ => ?_)
    fun _ => .pure ⟨hs₁.2, hs₁.1.exData_eq.trans hdata⟩
  refine ((strdup_passes (cstr "0000")).settled hs₁.2).bind fun pin s₂ hs₂ => ?_
  refine ((strdup_passes (cstr "/dev/ttyACM0")).settled hs₂.2).bind fun device s₃ hs₃ => ?_
  have hdata₃ : s₃.exData = none := by rw [hs₃.1.exData_eq, hs₂.1.exData_eq, hs₁.1.exData_eq, hdata]
  have hindex₃ : s₃.exDataIdx ≠ none := hs₃.1.indexed (hs₂.1.indexed (hs₁.1.indexed hindex))
  refine (newCtx_meets hs₃.2 pin device).bind fun address s₄ hs₄ => .gets_bind ?_
  obtain ⟨hsettled, hsame, hindex₄, ctx, hctx, hlock⟩ := hs₄
  rw [hsame, hdata₃]
  refine ((outside_passes host.allocates).settled hsettled).bind fun ok s₅ hs₅ => .ite (fun _ => ?_)
    fun _ => .pure ⟨hs₅.2, by rw [hs₅.1.exData_eq, hsame, hdata₃]⟩
  refine .modify_bind (.pure ⟨hs₅.2.setExData ?_ ?_ ?_ hlock, rfl⟩)
  · rw [hs₅.1.exData_eq, hsame, hdata₃]
  · refine hs₅.1.indexed ?_
    rwa [hindex₄]
  · rw [hs₅.1.ctxs_eq, hctx]

/-- The current context, a new one if there was none. -/
theorem tobGetCtx_meets (h : Settled s) :
    Meets (tobGetCtx host) s (fun found s' => Settled s' ∧ s'.exData = found ∧ (Open s → Open s')) Disciplined := by
  refine (exDataIndex_meets h.within).bind fun index s₁ hs₁ => ?_
  obtain ⟨hwithin, hindex, hmissing⟩ := hs₁
  cases index with
  | none => exact .pure ⟨hwithin.settled h, hwithin.exData_eq.trans (h.indexed (hmissing rfl)), hwithin.open⟩
  | some index =>
      refine .gets_bind ?_
      cases hdata : s₁.exData with
      | some ctx => exact .pure ⟨hwithin.settled h, hdata, hwithin.open⟩
      | none =>
          refine (tobSetCtx_meets (hwithin.settled h) hdata ?_).mono ?_ fun _ hcut => hcut
          · rw [hindex]
            exact Option.some_ne_none _
          · rintro found s₂ ⟨hsettled, hfound⟩
            refine ⟨hsettled, hfound, ?_⟩
            rintro ⟨address, hthere, _⟩
            rw [← hwithin.exData_eq, hdata] at hthere
            cases hthere

/-- A context is read as it is. -/
theorem ctxAt_bind_meets {address : Nat} {next : TobCtx → Exec (Engine ε) α} {post : α → Engine ε → Prop}
    (hs : Settled s) (h : ∀ ctx, s.ctxs address = some ctx → Meets (next ctx) s post Disciplined) :
    Meets (ctxAt address >>= next) s post Disciplined := by
  have hread : Meets (ctxAt address) s (fun ctx s' => s' = s ∧ s.ctxs address = some ctx) Disciplined := by
    refine .gets_bind ?_
    rcases s.ctxs address with _ | ctx
    · exact fun _ => hs.disciplined
    · exact .pure ⟨rfl, rfl⟩
  refine hread.bind ?_
  rintro ctx _ ⟨rfl, hctx⟩
  exact h ctx hctx

/-! ### Initialisation, end and control -/

theorem initCtx_meets (h : Settled s) :
    Meets (initCtx host) s (fun found s' => Settled s' ∧ s'.exData = found) Disciplined := by
  refine .gets_bind ?_
  cases hfound : s.exDataIdx.bind fun _ => s.exData with
  | some ctx =>
      obtain ⟨_, _, hdata⟩ := Option.bind_eq_some_iff.mp hfound
      exact .pure ⟨h, hdata⟩
  | none =>
      refine (tobGetCtx_meets h).bind fun ctx s₁ hs₁ => .modify_bind (.pure ?_)
      obtain ⟨hsettled, rfl, _⟩ := hs₁
      exact ⟨hsettled, rfl⟩

theorem sslLockUniversalNew_meets (h : Settled s) (hnone : s.simLock = none) :
    Meets (sslLockUniversalNew host) s (fun lock s' => Kept s s' ∧ after s'.log = some ⟨lock, false⟩) Disciplined := by
  refine (outside_passes host.allocates s h.within).bind fun ok s₁ hs₁ => ?_
  have hfree : after s₁.log = some ⟨none, false⟩ := by rw [hs₁.status, hnone]
  refine .ite (fun _ => ?_) fun _ => .pure ⟨hs₁.toKept, hfree⟩
  exact .gets_bind (.modify_bind (.modify_bind (.pure ⟨hs₁.toKept.trans ⟨rfl, rfl, rfl, id⟩, after_create hfree⟩)))

/-- The lock that the current context is given becomes the lock of the engine. -/
theorem Settled.giveLock {s' : Engine ε} {address : Nat} {ctx : TobCtx} {lock : Option Nat} (h : Settled s)
    (hdata : s.exData = some address) (hctx : s.ctxs address = some ctx) (hkept : Kept s s')
    (hstatus : after s'.log = some ⟨lock, false⟩) :
    Settled { s' with
      ctxs := Function.update s'.ctxs address (some { ctx with simLock := lock, initialized := true }) } := by
  rw [hkept.ctxs_eq]
  refine ⟨?_, ?_, ?_, ?_, ?_⟩
  · simp [simLock, hkept.exData_eq, hdata, hstatus]
  · intro other found hfound hother
    rcases update_some hfound with ⟨rfl, rfl⟩ | ⟨_, hold⟩
    · exact absurd (hkept.exData_eq.trans hdata) hother
    · exact h.others other found hold (hkept.exData_eq ▸ hother)
  · intro other found hfound hflag
    rcases update_some hfound with ⟨rfl, rfl⟩ | ⟨_, hold⟩
    · cases hflag
    · exact h.blank other found hold hflag
  · intro other hfresh
    have hnew : s.ctxs other = none := h.fresh other (hkept.numCtxs_eq ▸ hfresh)
    have hne : other ≠ address := by
      rintro rfl
      rw [hnew] at hctx
      cases hctx
    exact (Function.update_of_ne hne _ _).trans hnew
  · intro hmissing
    have hbefore : s.exDataIdx = none := by
      by_contra hthere
      exact hkept.indexed hthere hmissing
    rw [h.indexed hbefore] at hdata
    cases hdata

theorem tobEngineInit_meets (h : Settled s) :
    Meets (tobEngineInit tob host) s (fun _ s' => Settled s') Disciplined := by
  refine (initCtx_meets h).bind fun found s₁ hs₁ => ?_
  obtain ⟨hsettled, hdata⟩ := hs₁
  cases found with
  | none => exact fun _ => hsettled.disciplined
  | some address =>
      refine ctxAt_bind_meets hsettled fun ctx hctx => .ite (fun _ => .pure hsettled) fun hblank => ?_
      refine ((outside_passes _).settled hsettled).bind fun ret s₂ hs₂ => .ite (fun _ => .pure hs₂.2) fun _ => ?_
      have hdata₂ : s₂.exData = some address := hs₂.1.exData_eq.trans hdata
      have hctx₂ : s₂.ctxs address = some ctx := by rw [hs₂.1.ctxs_eq, hctx]
      have hnone : s₂.simLock = none := by
        simp [simLock, hdata₂, hctx₂, hs₂.2.blank address ctx hctx₂ (Bool.eq_false_iff.mpr hblank)]
      refine (sslLockUniversalNew_meets hs₂.2 hnone).bind fun lock s₃ hs₃ => .modify_bind (.pure ?_)
      exact hs₂.2.giveLock hdata₂ hctx₂ hs₃.1 hs₃.2

/-- The current context is freed after its lock. -/
theorem Settled.freeCtx {log : List (LockMonitor.Event TobFunction)} {address : Nat} (h : Settled s)
    (hdata : s.exData = some address) (hstatus : after log = some ⟨none, false⟩) :
    Settled { s with log := log, ctxs := Function.update s.ctxs address none, exData := none } := by
  have hat : ∀ {other : Nat} {found : TobCtx}, Function.update s.ctxs address none other = some found →
      s.ctxs other = some found ∧ other ≠ address := by
    intro other found hfound
    by_cases hother : other = address
    · subst hother
      rw [Function.update_self] at hfound
      cases hfound
    · exact ⟨(Function.update_of_ne hother _ _).symm.trans hfound, hother⟩
  refine ⟨hstatus, ?_, ?_, ?_, fun _ => rfl⟩
  · intro other found hfound _
    obtain ⟨hold, hother⟩ := hat hfound
    refine h.others other found hold ?_
    rw [hdata]
    exact fun heq => hother (Option.some.inj heq).symm
  · intro other found hfound hflag
    exact h.blank other found (hat hfound).1 hflag
  · intro other hfresh
    by_cases hother : other = address
    · subst hother
      exact Function.update_self _ _ _
    · exact (Function.update_of_ne hother _ _).trans (h.fresh other hfresh)

theorem tobEngineFinish_meets (h : Settled s) :
    Meets (tobEngineFinish host) s (fun _ s' => Settled s') Disciplined := by
  refine (tobGetCtx_meets h).bind fun found s₁ hs₁ => ?_
  obtain ⟨hsettled, hdata, _⟩ := hs₁
  cases found with
  | none => exact .pure hsettled
  | some address =>
      refine ctxAt_bind_meets hsettled fun ctx hctx => ?_
      have hsim : s₁.simLock = ctx.simLock := by simp [simLock, hdata, hctx]
      have hstatus := hsettled.status
      rw [hsim] at hstatus
      cases hlock : ctx.simLock with
      | none =>
          rw [hlock] at hstatus
          exact .modify_bind (.modify_bind (.pure (hsettled.freeCtx hdata hstatus)))
      | some lock =>
          rw [hlock] at hstatus
          have hfreed := after_destroy (after_release (after_acquire hstatus))
          exact .modify_bind (.modify_bind (.modify_bind (.modify_bind (.modify_bind
            (.pure (hsettled.freeCtx hdata hfreed))))))

theorem chars_passes (p : CtrlArg) : Passes s₀ held held (p.chars : Exec (Engine ε) (List UInt8)) := by
  cases p with
  | text chars => exact .pure _
  | null => exact .fault
  | params certId => exact .fault

/-- A string of the command is copied to the context. -/
theorem storeText_meets (h : Settled s) {address : Nat} {ctx : TobCtx} (hctx : s.ctxs address = some ctx) (p : CtrlArg)
    (store : Option (List UInt8) → TobCtx)
    (hstore : ∀ text, (store text).simLock = ctx.simLock ∧ (store text).initialized = ctx.initialized) (value : α) :
    Meets (do
      let text ← strdup host (← p.chars)
      setCtx address (some (store text))
      return value) s (fun _ s' => Settled s') Disciplined := by
  refine ((chars_passes p).settled h).bind fun chars s₁ hs₁ => ?_
  refine ((strdup_passes chars).settled hs₁.2).bind fun text s₂ hs₂ => .modify_bind (.pure ?_)
  have hctx₂ : s₂.ctxs address = some ctx := by rw [hs₂.1.ctxs_eq, hs₁.1.ctxs_eq, hctx]
  exact hs₂.2.setCtx hctx₂ (hstore text).1 (hstore text).2

/-- A certificate or key is asked for by one of the two names. -/
def Known (name : List UInt8) : Prop := name = cstr "signing" ∨ name = cstr "available"

theorem tobEngineCtrl_meets (h : Settled s) {cmd i certLen : Int} {p : CtrlArg}
    (hload : ∀ certId, cmd = CMD_LOAD_CERT_CTRL → p = .params certId → Known certId → Open s) :
    Meets (tobEngineCtrl tob host cmd i p certLen) s (fun _ s' => Settled s') Disciplined := by
  refine (tobGetCtx_meets h).bind fun found s₁ hs₁ => ?_
  obtain ⟨hsettled, hdata, hopen⟩ := hs₁
  cases found with
  | none => exact .pure hsettled
  | some address =>
      refine ctxAt_bind_meets hsettled fun ctx hctx => .ite (fun _ => ?_) fun _ => .ite (fun _ => ?_) fun _ =>
        .ite (fun _ => ?_) fun _ => .ite (fun hcmd => ?_) fun _ => .pure hsettled
      · cases p with
        | null => exact .modify_bind (.pure (hsettled.setCtx hctx rfl rfl))
        | text chars => exact storeText_meets hsettled hctx _ (fun pin => { ctx with pin }) (fun _ => ⟨rfl, rfl⟩) _
        | params certId => exact storeText_meets hsettled hctx _ (fun pin => { ctx with pin }) (fun _ => ⟨rfl, rfl⟩) _
      · exact storeText_meets hsettled hctx p (fun modemDevice => { ctx with modemDevice }) (fun _ => ⟨rfl, rfl⟩) _
      · exact .modify_bind (.pure (hsettled.setCtx hctx rfl rfl))
      · cases p with
        | null => exact fun _ => hsettled.disciplined
        | text chars => exact fun _ => hsettled.disciplined
        | params certId =>
            have hextract : ∀ signing, Open s₁ →
                Meets (tobExtractCertificate tob host signing certLen) s₁ (fun _ s' => Settled s') Disciplined :=
              fun signing hopen₁ => (tobExtractCertificate_passes hsettled hopen₁ signing certLen).meets hsettled
            refine .ite (fun hname => ?_) fun _ => .ite (fun hname => ?_) fun _ => .pure hsettled
            · exact (hextract true (hopen (hload certId hcmd rfl (.inl hname)))).bind fun _ _ hs' => .pure hs'
            · exact (hextract false (hopen (hload certId hcmd rfl (.inr hname)))).bind fun _ _ hs' => .pure hs'

/-! ### The RSA method -/

/-- The key cannot be used, or its context has a lock. -/
def KeyLockable (s : Engine ε) (rsa : Nat) : Prop :=
  ∀ key, s.keyInfo rsa = some key → ∃ ctx, s.ctxs key.tobCtx = some ctx ∧ (ctx.pin ≠ none → ctx.simLock ≠ none)

/-- What follows is run with the context of the key, or without one. -/
theorem keyCtx_bind_meets {key : Option TobKey} {next : Option (TobCtx × List UInt8) → Exec (Engine ε) α}
    {post : α → Engine ε → Prop} (hs : Settled s) (hnone : Meets (next none) s post Disciplined)
    (hsome : ∀ key' ctx pin, key = some key' → s.ctxs key'.tobCtx = some ctx → ctx.pin = some pin →
      Meets (next (some (ctx, pin))) s post Disciplined) : Meets (keyCtx key >>= next) s post Disciplined := by
  have hread : Meets (keyCtx key) s (fun found s' => s' = s ∧ (found = none ∨ ∃ key' ctx pin, key = some key' ∧
      s.ctxs key'.tobCtx = some ctx ∧ ctx.pin = some pin ∧ found = some (ctx, pin))) Disciplined := by
    cases key with
    | none => exact .pure ⟨rfl, .inl rfl⟩
    | some key' =>
        refine ctxAt_bind_meets hs fun ctx hctx => .pure ⟨rfl, ?_⟩
        cases hpin : ctx.pin with
        | none => exact .inl rfl
        | some pin => exact .inr ⟨key', ctx, pin, rfl, hctx, hpin, rfl⟩
  refine hread.bind ?_
  rintro found _ ⟨rfl, rfl | ⟨key', ctx, pin, hkey, hctx, hpin, rfl⟩⟩
  · exact hnone
  · exact hsome key' ctx pin hkey hctx hpin

/-- The lock of a usable key is the lock of the engine. -/
theorem Settled.keyLock (h : Settled s) {rsa : Nat} {key : TobKey} {ctx : TobCtx} {pin : List UInt8}
    (hlockable : KeyLockable s rsa) (hkey : s.keyInfo rsa = some key) (hctx : s.ctxs key.tobCtx = some ctx)
    (hpin : ctx.pin = some pin) : ∃ lock, ctx.simLock = some lock ∧ s.simLock = some lock := by
  obtain ⟨ctx', hctx', hset⟩ := hlockable key hkey
  obtain rfl : ctx' = ctx := Option.some.inj (hctx'.symm.trans hctx)
  have hthere : ctx'.simLock ≠ none := hset (by rw [hpin]; exact Option.some_ne_none _)
  obtain ⟨lock, hlock⟩ := Option.ne_none_iff_exists'.mp hthere
  exact ⟨lock, hlock, (h.simLock_eq hctx hthere).trans hlock⟩

/-- The digest has one of the lengths that are signed, if the key can be used. -/
def DigestFits (s : Engine ε) (rsa length : Nat) : Prop :=
  ∀ key ctx, s.keyInfo rsa = some key → s.ctxs key.tobCtx = some ctx → ctx.pin ≠ none → signingAlgorithm length ≠ none

theorem tobEngineSigningRsaSign_meets (h : Settled s) {rsa mLength : Nat} {m sigret : Mem} {siglen sigSize : Int}
    (hlockable : KeyLockable s rsa) (hfits : DigestFits s rsa mLength) :
    Meets (tobEngineSigningRsaSign tob m mLength sigret siglen sigSize rsa) s (fun _ s' => Settled s') Disciplined := by
  refine .gets_bind (keyCtx_bind_meets h (.pure h) fun key ctx pin hkey hctx hpin => ?_)
  obtain ⟨lock, hlock, hsim⟩ := h.keyLock hlockable hkey hctx hpin
  have hsigned := hfits key ctx hkey hctx (by rw [hpin]; exact Option.some_ne_none _)
  obtain ⟨algorithm, halgorithm⟩ := Option.ne_none_iff_exists'.mp hsigned
  simp only [halgorithm, hlock]
  have hpasses : Passes s false false (do
      sslLockUniversalLock (some lock)
      let result ← calling .signingSign (tob.tobSigningSign algorithm m mLength sigret sigSize (some pin))
      if result.ret = 0 ∧ 0 ≤ result.size then
        sslLockUniversalUnlock (some lock)
        return (⟨1, result.out, result.size⟩ : Extract)
      else
        sslLockUniversalUnlock (some lock)
        return ⟨0, result.out, siglen⟩) :=
    (lock_passes hsim).bind fun _ => (calling_passes _ _).bind fun _ =>
      .ite (fun _ => unlock_return hsim _) fun _ => unlock_return hsim _
  exact hpasses.meets h

theorem tobEngineSigningRsaDecrypt_meets (h : Settled s) {rsa : Nat} {flen toSize padding : Int} {source target : Mem}
    (hlockable : KeyLockable s rsa) :
    Meets (tobEngineSigningRsaDecrypt tob flen source target toSize rsa padding) s (fun _ s' => Settled s')
      Disciplined := by
  refine .gets_bind (keyCtx_bind_meets h (.pure h) fun key ctx pin hkey hctx hpin => ?_)
  obtain ⟨lock, hlock, hsim⟩ := h.keyLock hlockable hkey hctx hpin
  simp only [hlock]
  have hpasses : Passes s false false (do
      sslLockUniversalLock (some lock)
      let result ← calling .signingDecrypt (tob.tobSigningDecrypt source flen target toSize (some pin))
      sslLockUniversalUnlock (some lock)
      return ((if result.ret = 0 then 1 else 0 : Int), result.out)) :=
    (lock_passes hsim).bind fun _ => (calling_passes _ _).bind fun _ => unlock_return hsim _
  exact hpasses.meets h

/-! ### Runs -/

/-- The condition on an operation in the state it starts in: one that takes the lock finds a live context with a
lock, and a digest that is signed has one of the three lengths. -/
def Proper (s : Engine ε) : Op → Prop
  | .init => True
  | .finish => True
  | .ctrl cmd _ p _ => ∀ certId, cmd = CMD_LOAD_CERT_CTRL → p = .params certId → Known certId → Open s
  | .loadPubkey name _ => Known name → Open s
  | .loadPrivkey name _ => Known name → Open s
  | .rsaSign rsa _ mLength _ _ _ => KeyLockable s rsa ∧ DigestFits s rsa mLength
  | .rsaDecrypt rsa _ _ _ _ _ => KeyLockable s rsa
  | .rsaFinish _ => True

/-- **One operation** keeps the discipline, cut anywhere, and leaves the lock free. -/
theorem op_meets (h : Settled s) {op : Op} (hproper : Proper s op) :
    Meets (op.run tob host) s (fun _ s' => Settled s') Disciplined := by
  cases op with
  | init => exact (tobEngineInit_meets h).bind fun _ _ hs' => .pure hs'
  | finish => exact (tobEngineFinish_meets h).bind fun _ _ hs' => .pure hs'
  | ctrl cmd i p len => exact (tobEngineCtrl_meets h hproper).bind fun _ _ hs' => .pure hs'
  | loadPubkey name len =>
      have hload : Passes s false false (tobEngineLoadPubkeyFunction tob host name len) :=
        .ite (fun hname => tobEngineLoadPubkey_passes h (hproper (.inl hname)) _ _) fun _ =>
          .ite (fun hname => tobEngineLoadPubkey_passes h (hproper (.inr hname)) _ _) fun _ => .pure _
      exact (hload.meets h).bind fun _ _ hs' => .pure hs'
  | loadPrivkey name len =>
      have hload : Passes s false false (tobEngineLoadPrivkeyFunction tob host name len) :=
        .ite (fun hname => tobEngineLoadSigningPrivkey_passes h (hproper (.inl hname)) _) fun _ =>
          .ite (fun hname => tobEngineLoadAvailablePrivkey_passes h (hproper (.inr hname)) _) fun _ => .pure _
      exact (hload.meets h).bind fun _ _ hs' => .pure hs'
  | rsaSign rsa m mLength sigret siglen len =>
      exact (tobEngineSigningRsaSign_meets h hproper.1 hproper.2).bind fun _ _ hs' => .pure hs'
  | rsaDecrypt rsa flen source target padding len =>
      exact (tobEngineSigningRsaDecrypt_meets h hproper).bind fun _ _ hs' => .pure hs'
  | rsaFinish rsa =>
      have hfinish : Passes s false false (tobEngineSigningRsaFinish rsa : Exec (Engine ε) Int) := by
        refine (Passes.gets _).bind fun index => ?_
        cases index with
        | none => exact .pure _
        | some index => exact .bind (.modify fun _ => ⟨⟨rfl, rfl, rfl, id⟩, rfl⟩) fun _ => .pure _
      exact (hfinish.meets h).bind fun _ _ hs' => .pure hs'

/-- States reached by operations that return, each of which meets the condition. -/
inductive Reaches (tob : Tob ε) (host : Host ε X509 PKey) (cond : Engine ε → Op → Prop) : Engine ε → Engine ε → Prop
  | refl (s : Engine ε) : Reaches tob host cond s s
  | step {s s' s'' : Engine ε} {op : Op} {fuel : Nat} {result : OpResult X509 PKey} (run : Reaches tob host cond s s')
      (holds : cond s' op) (returns : op.run tob host fuel s' = (.done result, s'')) : Reaches tob host cond s s''

theorem bound_settled (env : ε) : Settled (bound env) where
  status := rfl
  others := by
    intro address ctx hctx
    cases hctx
  blank := by
    intro address ctx hctx
    cases hctx
  fresh _ _ := rfl
  indexed _ := rfl

theorem Reaches.settled {env : ε} (h : Reaches tob host Proper (bound env) s) : Settled s := by
  generalize hstart : bound env = start at h
  induction h with
  | refl =>
      subst hstart
      exact bound_settled env
  | step _ hproper hreturns ih => exact (op_meets ih hproper).done hreturns

/-- **The SIM lock is balanced** in every run whose operations meet the condition: between operations it is free,
and within one it is taken and given back in turn, with every protected function called while it is held. -/
theorem sim_lock_balanced {env : ε} (h : Reaches tob host Proper (bound env) s) :
    after s.log = some ⟨s.simLock, false⟩ ∧
      ∀ op fuel, Proper s op → after (op.run tob host fuel s).2.log ≠ none := by
  refine ⟨h.settled.status, fun op fuel hproper => ?_⟩
  refine Meets.state ((op_meets h.settled hproper).mono ?_ fun _ hcut => hcut) fuel
  exact fun _ _ hs' => hs'.disciplined

/-- An SDK that always succeeds, with certificates, keys and signatures of one byte. -/
def workingTob : Tob Unit where
  tobInitialize _ _ := pure 0
  tobExtractAvailableCertificate cert _ _ := pure ⟨0, cert, 1⟩
  tobExtractAvailablePrivateKey pem pemSize der _ _ := pure ⟨0, pem, pemSize, der, 1⟩
  tobExtractSigningCertificate pem pemSize der _ _ := pure ⟨0, pem, pemSize, der, 1⟩
  tobSigningSign _ _ _ signature _ _ := pure ⟨0, some signature, 1⟩
  tobSigningDecrypt _ _ plain _ _ := pure ⟨0, some plain, 1⟩

/-- Memory is never short and everything can be parsed. -/
def workingHost : Host Unit Unit Unit where
  allocates := pure true
  malloc _ := pure (some Mem.zero)
  getExNewIndex := pure (some 0)
  d2iX509 _ := pure (some ())
  pemReadX509 _ := pure (some ())
  d2iPrivateKey _ := pure (some ())
  x509GetPubkey _ := pure (some ())
  pkeyGet0RSA _ := some (3233, 17)

/-- The engine after it was initialised and the signing key was loaded. -/
def withKey : Engine Unit :=
  ((Op.loadPrivkey (cstr "signing") 0).run workingTob workingHost 0
    (Op.init.run workingTob workingHost 0 (bound ())).2).2

/-- The signature of a digest of this length with the loaded key. -/
def signDigest (length : Nat) : Op := .rsaSign 0 Mem.zero length Mem.zero 0 0

theorem withKey_reached : ∃ key, Op.init.run workingTob workingHost 0 (bound ()) =
      (.done (.code 1), (Op.init.run workingTob workingHost 0 (bound ())).2) ∧
    (Op.loadPrivkey (cstr "signing") 0).run workingTob workingHost 0
      (Op.init.run workingTob workingHost 0 (bound ())).2 = (.done (.privkey (some key)), withKey) :=
  ⟨.token 0, rfl, rfl⟩

theorem sim_lock_after_digest :
    after ((signDigest 20).run workingTob workingHost 0 withKey).2.log ≠ none := by
  obtain ⟨key, hinit, hload⟩ := withKey_reached
  have hproper : Proper (bound ()) .init := trivial
  have hproper' : Proper (Op.init.run workingTob workingHost 0 (bound ())).2 (.loadPrivkey (cstr "signing") 0) :=
    fun _ => ⟨0, rfl, _, rfl, by decide⟩
  have hreached : Reaches workingTob workingHost Proper (bound ()) withKey :=
    .step (.step (.refl _) hproper hinit) hproper' hload
  have hlockable : KeyLockable withKey 0 := by
    rintro key' hkey'
    obtain rfl : (⟨0⟩ : TobKey) = key' := Option.some.inj hkey'
    exact ⟨_, rfl, fun _ => by decide⟩
  exact (sim_lock_balanced hreached).2 (signDigest 20) 0 ⟨hlockable, fun _ _ _ _ _ => by decide⟩

/-- A digest of 28 bytes makes the engine give back a lock that it does not hold. -/
theorem other_digest_unbalances : ∃ s result s', Reaches workingTob workingHost (fun _ _ => True) (bound ()) s ∧
    (signDigest 28).run workingTob workingHost 0 s = (.done result, s') ∧ after s'.log = none := by
  obtain ⟨key, hinit, hload⟩ := withKey_reached
  exact ⟨withKey, _, _, .step (.step (.refl _) trivial hinit) trivial hload, rfl, by decide⟩

end TrustOnboard.Engine
