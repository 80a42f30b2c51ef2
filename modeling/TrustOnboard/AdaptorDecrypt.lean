import TrustOnboard.AdaptorModel

/-! What the three TLS adaptors make of one decryption. Two of them hand on the plaintext and its length; the OpenSSL
engine returns 1 for every plaintext and 0 for every failure, which OpenSSL reads as lengths. -/

namespace TrustOnboard

open Exec Sdk

variable {σ : Type} {T : Transport σ}

namespace Sdk

/-- The size variable keeps its value in a failed call. -/
def Extract.keepSize (len : Int) (result : Extract) : Extract :=
  if result.ret = 0 then result else { result with size := len }

theorem Extract.keepSize_plaintext (len : Int) (result : Extract) :
    (result.keepSize len).plaintext = result.plaintext := by
  unfold Extract.keepSize
  split
  · rfl
  · next hret => simp [Extract.plaintext, hret]

/-- The value of the size variable before the call is seen after a failed call only. -/
theorem decryptSelected_size (cipher plain : Mem) (cipherLen len : Int) (pin : Option (List UInt8)) :
    decryptSelected T cipher cipherLen plain len pin =
      decryptSelected T cipher cipherLen plain 0 pin >>= fun result => pure (result.keepSize len) := by
  unfold decryptSelected
  rw [bind_bind]
  apply bind_congr
  intro found
  cases found with
  | none => rfl
  | some index =>
      simp only [bind_bind]
      refine bind_congr fun pin => bind_congr fun verified => ?_
      cases verified with
      | false => rfl
      | true =>
          simp only [if_true, bind_bind]
          refine bind_congr fun pair => bind_congr fun ready => ?_
          cases ready with
          | false => rfl
          | true =>
              simp only [if_true, bind_bind]
              apply bind_congr
              intro fetched
              cases fetched.ok with
              | false => rfl
              | true => rfl

/-- What is computed from the result can be computed before the applet is deselected. -/
theorem guarded_bind_pure {α β : Type} (body : Exec (Sdk σ) α) (failed : α) (f : α → β) :
    guarded T (body >>= fun result => pure (f result)) (f failed) =
      guarded T body failed >>= fun result => pure (f result) := by
  unfold guarded
  rw [bind_bind]
  apply bind_congr
  intro selected
  cases selected with
  | false =>
      show (deselectMias T >>= fun _ => pure (f failed)) = (deselectMias T >>= fun _ => pure failed) >>= _
      rw [bind_bind]
      rfl
  | true =>
      show (body >>= _) >>= (fun result => deselectMias T >>= fun _ => pure result) =
        (body >>= fun result => deselectMias T >>= fun _ => pure result) >>= _
      simp only [bind_bind]
      rfl

theorem tobSigningDecrypt_size (cipher plain : Mem) (cipherLen len : Int) (pin : Option (List UInt8)) :
    tobSigningDecrypt T cipher cipherLen plain len pin =
      tobSigningDecrypt T cipher cipherLen plain 0 pin >>= fun result => pure (result.keepSize len) := by
  unfold tobSigningDecrypt
  rw [decryptSelected_size cipher plain cipherLen len, ← guarded_bind_pure]
  rfl

/-- There is an output buffer, and the size of a plaintext is not negative. -/
def Extract.Sized (result : Extract) : Prop := result.out ≠ none ∧ (result.ret = 0 → 0 ≤ result.size)

theorem Extract.Sized.keepSize {result : Extract} (h : result.Sized) (len : Int) : (result.keepSize len).Sized := by
  unfold Extract.keepSize
  split
  · exact h
  · next hret => exact ⟨h.1, fun hzero => absurd hzero hret⟩

/-- A result that holds whatever the called functions do. -/
theorem guarded_result {α : Type} {body : Exec (Sdk σ) α} {failed : α} {Q : α → Prop} {s : Sdk σ}
    (hbody : ∀ s, Meets body s (fun result _ => Q result) fun _ => True) (hfailed : Q failed) :
    Meets (guarded T body failed) s (fun result _ => Q result) fun _ => True := by
  have hend : ∀ result (s : Sdk σ), Q result →
      Meets (deselectMias T >>= fun _ => pure result) s (fun result _ => Q result) fun _ => True :=
    fun result s hresult => (Meets.trivial _ s).bind fun _ _ _ => .pure hresult
  refine (Meets.trivial (selectMias T) s).bind fun selected s₁ _ => .ite (fun _ => ?_) fun _ => ?_
  · exact (hbody s₁).bind fun result s₂ hresult => hend result s₂ hresult
  · exact hend failed s₁ hfailed

theorem decipherResult_out (plain : Mem) (len : Nat) (s : Linked σ Mias) :
    Meets (Mias.decipherResult T plain len) s (fun fetched _ => fetched.out ≠ none) fun _ => True := by
  have hsome : ∀ {out : Mem}, some out ≠ none := Option.some_ne_none _
  refine (Meets.trivial _ s).bind fun sw s₁ _ => .ite (fun _ => ?_) fun _ => .pure hsome
  refine (Meets.trivial _ s₁).bind fun data s₂ _ => .ite (fun _ => ?_) fun _ => .pure hsome
  refine (Meets.trivial _ s₂).bind fun sent s₃ _ => .ite (fun _ => ?_) fun _ => .pure hsome
  refine (Meets.trivial _ s₃).bind fun sw s₄ _ => .ite (fun _ => ?_) fun _ => .pure hsome
  exact (Meets.trivial _ s₄).bind fun data s₅ _ => .pure hsome

theorem decryptFinal_out (data : Mem) (dataLen : Nat) (plain : Mem) (len : Nat) (s : Linked σ Mias) :
    Meets (Mias.decryptFinal T data dataLen plain len) s (fun fetched _ => fetched.out ≠ none) fun _ => True := by
  have hsome : ∀ {out : Mem}, some out ≠ none := Option.some_ne_none _
  refine .ite (fun _ => ?_) fun _ => ?_
  · refine (Meets.trivial _ s).bind fun sent s₁ _ => .ite (fun _ => ?_) fun _ => .pure hsome
    exact decipherResult_out plain len s₁
  · refine (Meets.trivial _ s).bind fun first s₁ _ => .ite (fun _ => ?_) fun _ => .pure hsome
    refine (Meets.trivial _ s₁).bind fun sent s₂ _ => .ite (fun _ => ?_) fun _ => .pure hsome
    exact decipherResult_out plain len s₂

theorem decryptSelected_sized (cipher plain : Mem) (cipherLen len : Int) (pin : Option (List UInt8)) (s : Sdk σ) :
    Meets (decryptSelected T cipher cipherLen plain len pin) s (fun result _ => result.Sized) fun _ => True := by
  have hfailed : ∀ {ret size : Int} {out : Mem}, ret ≠ 0 → (⟨ret, some out, size⟩ : Extract).Sized :=
    fun hret => ⟨Option.some_ne_none _, fun hzero => absurd hzero hret⟩
  have hcode : ERR_SE_BAD_KEY_NAME_ERROR ≠ 0 := by decide
  refine (Meets.trivial _ s).bind fun found s₁ _ => ?_
  cases found with
  | none => exact .pure (hfailed (by decide))
  | some index =>
      refine (Meets.trivial _ s₁).bind fun pin s₂ _ => (Meets.trivial _ s₂).bind fun verified s₃ _ => ?_
      refine .ite (fun _ => ?_) fun _ => .pure (hfailed (by decide))
      refine (Meets.trivial _ s₃).bind fun pair s₄ _ => (Meets.trivial _ s₄).bind fun ready s₅ _ => ?_
      refine .ite (fun _ => ?_) fun _ => .pure (hfailed (by decide))
      have hfinal : Meets (onMias (Mias.decryptFinal T cipher (toUInt16 cipherLen) plain 0)) s₅
          (fun fetched _ => fetched.out ≠ none) fun _ => True :=
        .zoom (decryptFinal_out cipher _ plain 0 _)
      refine hfinal.bind fun fetched s₆ hout => .ite (fun _ => .pure ?_) fun _ => .pure ?_
      · exact ⟨hout, fun _ => Int.natCast_nonneg _⟩
      · exact ⟨hout, fun hzero => absurd hzero hcode⟩

theorem tobSigningDecrypt_sized (cipher plain : Mem) (cipherLen len : Int) (pin : Option (List UInt8)) (s : Sdk σ) :
    Meets (tobSigningDecrypt T cipher cipherLen plain len pin) s (fun result _ => result.Sized) fun _ => True :=
  have hcode : ERR_SE_BAD_KEY_NAME_ERROR ≠ 0 := by decide
  guarded_result (fun s => decryptSelected_sized cipher plain cipherLen len pin s)
    ⟨Option.some_ne_none _, fun hzero => absurd hzero hcode⟩

/-- Only the low 16 bits of the length count. -/
theorem tobSigningDecrypt_asInt (cipher plain : Mem) (cipherLen : Nat) (len : Int) (pin : Option (List UInt8)) :
    tobSigningDecrypt T cipher (Mbedtls.asInt cipherLen) plain len pin =
      tobSigningDecrypt T cipher cipherLen plain len pin := by
  have hlen : toUInt16 (Mbedtls.asInt cipherLen) = toUInt16 cipherLen := by
    unfold toUInt16 Mbedtls.asInt
    rw [Int.bmod_def]
    split <;> omega
  unfold tobSigningDecrypt decryptSelected
  rw [hlen]

end Sdk

/-! ### What the libraries read -/

namespace Process

variable (opened : Option (List UInt8) → Int → Option Nat) (locals : Locals) {cipher plain : Mem} {cipherLen fuel : Nat}
  {pin : List UInt8} {p : Process σ}

/-- What a run has returned, as the reader sees it. -/
def reading {S α : Type} (plaintext : α → Option (List UInt8)) (run : Outcome α × S) : Option (Option (List UInt8)) :=
  run.1.value?.map plaintext

/-- The decryption itself: `some (some plaintext)` is a success, `some none` a failure. -/
def decryption (T : Transport σ) (cipher : Mem) (cipherLen : Nat) (plain : Mem) (pin : List UInt8) (fuel : Nat)
    (p : Process σ) : Option (Option (List UInt8)) :=
  reading Extract.plaintext (zoom sdkLens (tobSigningDecrypt T cipher cipherLen plain 0 (some pin)) fuel p)

/-- The call of an adaptor, for any value of its size variable, beside the decryption. -/
theorem tobSigningDecrypt_run (len : Int) :
    (∃ result p', Extract.Sized result ∧ decryption T cipher cipherLen plain pin fuel p = some result.plaintext ∧
      (tob T opened locals).tobSigningDecrypt cipher cipherLen plain len (some pin) fuel p = (.done result, p')) ∨
    (decryption T cipher cipherLen plain pin fuel p = none ∧
      ((tob T opened locals).tobSigningDecrypt cipher cipherLen plain len (some pin) fuel p).1.value? = none) := by
  have hkeep : (tob T opened locals).tobSigningDecrypt cipher cipherLen plain len (some pin) =
      zoom sdkLens (tobSigningDecrypt T cipher cipherLen plain 0 (some pin) >>= fun result =>
        pure (result.keepSize len)) := congrArg (zoom sdkLens) (tobSigningDecrypt_size cipher plain cipherLen len _)
  rcases hsdk : tobSigningDecrypt T cipher cipherLen plain 0 (some pin) fuel (sdkLens.get p) with ⟨outcome, s⟩
  cases outcome with
  | done result =>
      have hsized := (tobSigningDecrypt_sized cipher plain cipherLen 0 (some pin) _).done hsdk
      have hrun : (tobSigningDecrypt T cipher cipherLen plain 0 (some pin) >>= fun result =>
          pure (result.keepSize len)) fuel (sdkLens.get p) = (.done (result.keepSize len), s) := by
        rw [bind_done hsdk]
        rfl
      refine .inl ⟨result.keepSize len, sdkLens.set s p, hsized.keepSize len, ?_, ?_⟩
      · rw [Extract.keepSize_plaintext, decryption, zoom_done hsdk]
        rfl
      · rw [hkeep, zoom_done hrun]
  | fault => exact .inr (by simp [decryption, reading, hkeep, zoom, bind_apply, hsdk, Outcome.value?])
  | spent => exact .inr (by simp [decryption, reading, hkeep, zoom, bind_apply, hsdk, Outcome.value?])

/-- An adaptor that only translates the result. -/
theorem translated_reading {α : Type} {translate : Extract → α} {plaintext : α → Option (List UInt8)}
    (h : ∀ result : Extract, result.Sized → plaintext (translate result) = result.plaintext) (len : Int) :
    reading plaintext (((tob T opened locals).tobSigningDecrypt cipher cipherLen plain len (some pin) >>= fun result =>
      pure (translate result)) fuel p) = decryption T cipher cipherLen plain pin fuel p := by
  rcases tobSigningDecrypt_run opened locals len with ⟨result, p', hsized, hvalue, hrun⟩ | ⟨hvalue, hrun⟩
  · rw [bind_done hrun, hvalue, ← h result hsized]
    rfl
  · rw [hvalue, reading, bind_apply]
    rcases hcall : (tob T opened locals).tobSigningDecrypt cipher cipherLen plain len (some pin) fuel p
      with ⟨_ | _ | _, p'⟩
    · rw [hcall] at hrun
      cases hrun
    · rfl
    · rfl

/-- The Azure HSM hands on the result. -/
theorem hsm_reading (len : Int) : reading AzureHsm.plaintext
    (AzureHsm.hsmSigningDecrypt (tob T opened locals) cipher cipherLen plain len (some ⟨some pin⟩) fuel p) =
      decryption T cipher cipherLen plain pin fuel p := by
  refine translated_reading opened locals (fun result _ => ?_) len
  by_cases hret : result.ret = 0
  · simp [AzureHsm.plaintext, Extract.plaintext, hret]
  · simp [AzureHsm.plaintext, Extract.plaintext, hret]

/-- The mbedTLS shim hands on the result of the decryption with the PIN it keeps. -/
theorem mbedtls_reading (olen : Nat) (len : Int) : reading Mbedtls.Decrypted.plaintext
    (Mbedtls.tobMbedtlsSigningDecrypt (tob T opened locals) (Mbedtls.contextFor pin cipherLen) olen cipher plain len
      fuel p) = decryption T cipher cipherLen plain (pin.take 15) fuel p := by
  have hcall : Mbedtls.tobMbedtlsSigningDecrypt (tob T opened locals) (Mbedtls.contextFor pin cipherLen) olen cipher
      plain len = (tob T opened locals).tobSigningDecrypt cipher cipherLen plain len (some (pin.take 15)) >>=
        fun result => pure (if result.ret ≠ 0 ∨ result.size < 0 then
          ⟨Mbedtls.MBEDTLS_ERR_PK_FILE_IO_ERROR, olen, result.out⟩ else ⟨0, result.size.toNat, result.out⟩) := by
    unfold Mbedtls.tobMbedtlsSigningDecrypt
    show zoom sdkLens (tobSigningDecrypt T cipher (Mbedtls.asInt cipherLen) plain len (some (pin.take 15))) >>= _ = _
    rw [tobSigningDecrypt_asInt]
    refine bind_congr fun result => ?_
    split <;> rfl
  rw [hcall]
  refine translated_reading opened locals (fun result hsized => ?_) len
  by_cases hret : result.ret = 0
  · have hsize : ¬result.size < 0 := Int.not_lt.mpr (hsized.2 hret)
    simp [Mbedtls.Decrypted.plaintext, Extract.plaintext, hret, hsize]
  · simp [Mbedtls.Decrypted.plaintext, Extract.plaintext, hret, Mbedtls.MBEDTLS_ERR_PK_FILE_IO_ERROR]

/-- The key works with this PIN. -/
def UsesPin (engine : Engine (Process σ)) (rsa : Nat) (pin : List UInt8) : Prop :=
  ∃ key ctx, engine.keyInfo rsa = some key ∧ engine.ctxs key.tobCtx = some ctx ∧ ctx.pin = some pin

variable {engine : Engine (Process σ)} {rsa : Nat}

theorem keyCtx_run (h : UsesPin engine rsa pin) (fuel : Nat) :
    ∃ ctx, Engine.keyCtx (engine.keyInfo rsa) fuel engine = (.done (some (ctx, pin)), engine) := by
  obtain ⟨key, ctx, hkey, hctx, hpin⟩ := h
  refine ⟨ctx, ?_⟩
  simp [hkey, Engine.keyCtx, Engine.ctxAt, bind_apply, hctx, hpin]

/-- The engine makes lengths of success and failure, and drops the size. -/
theorem engine_reading {value : Option (List UInt8)} (hpin : UsesPin engine rsa pin)
    (h : decryption T cipher cipherLen plain pin fuel engine.env = some value) (len padding : Int) :
    ∃ result : Extract, result.out ≠ none ∧ result.plaintext = value ∧ reading Engine.plaintext
      (Engine.tobEngineSigningRsaDecrypt (tob T opened locals) cipherLen cipher plain len rsa padding fuel engine) =
        some (result.out.map fun target => target.slice 0 (if result.ret = 0 then 1 else 0)) := by
  rcases tobSigningDecrypt_run opened locals len with ⟨result, p', hsized, hvalue, hrun⟩ | ⟨hvalue, _⟩
  · obtain ⟨ctx, hkey⟩ := keyCtx_run hpin fuel
    refine ⟨result, hsized.1, Option.some.inj (hvalue.symm.trans h), ?_⟩
    have hcall : ∀ log, Engine.outside ((tob T opened locals).tobSigningDecrypt cipher cipherLen plain len (some pin))
        fuel { engine with log } = (.done result, { engine with log, env := p' }) := fun log => zoom_done hrun
    unfold Engine.tobEngineSigningRsaDecrypt Engine.tobKeySigningDecrypt reading
    rw [bind_done (gets_apply _ _ _), bind_done hkey]
    simp only [Engine.sslLockUniversalLock, Engine.sslLockUniversalUnlock, Engine.record, Engine.calling, bind_apply,
      modify_apply, hcall, pure_apply, Outcome.value?, Option.map_some]
    by_cases hret : result.ret = 0
    · simp [Engine.plaintext, hret]
    · simp [Engine.plaintext, hret]
  · rw [h] at hvalue
    cases hvalue

/-- **All adaptors deliver the result**: the shim for mbedTLS, set up with the PIN and the length of the ciphertext,
the Azure HSM with the PIN, and the key of the engine. -/
structure Delivers (T : Transport σ) (opened : Option (List UInt8) → Int → Option Nat) (locals : Locals)
    (engine : Engine (Process σ)) (rsa : Nat) (cipher : Mem) (cipherLen : Nat) (plain : Mem) (pin : List UInt8)
    (fuel : Nat) (value : Option (List UInt8)) : Prop where
  mbedtls : ∀ olen len, reading Mbedtls.Decrypted.plaintext (Mbedtls.tobMbedtlsSigningDecrypt (tob T opened locals)
    (Mbedtls.contextFor pin cipherLen) olen cipher plain len fuel engine.env) = some value
  azure : ∀ len, reading AzureHsm.plaintext (AzureHsm.hsmSigningDecrypt (tob T opened locals) cipher cipherLen plain
    len (some ⟨some pin⟩) fuel engine.env) = some value
  openssl : ∀ len padding, reading Engine.plaintext (Engine.tobEngineSigningRsaDecrypt (tob T opened locals) cipherLen
    cipher plain len rsa padding fuel engine) = some value

/-- What the engine returns is right for a plaintext of one byte only. -/
theorem engine_length_iff {result : Extract} (hout : result.out ≠ none) :
    (result.out.map fun target => target.slice 0 (if result.ret = 0 then 1 else 0)) = result.plaintext ↔
      ∃ byte, result.plaintext = some [byte] := by
  obtain ⟨target, htarget⟩ := Option.ne_none_iff_exists'.mp hout
  by_cases hret : result.ret = 0
  · simp only [htarget, hret, Extract.plaintext, if_true, Option.map_some, Option.some.injEq]
    constructor
    · intro heq
      exact ⟨target 0, heq.symm⟩
    · rintro ⟨byte, hbyte⟩
      have hlength := congrArg List.length hbyte
      simp only [Mem.slice_length, List.length_singleton] at hlength
      rw [hlength]
  · simp [htarget, hret, Extract.plaintext]

/-- The adaptors deliver exactly the plaintexts of one byte, if the PIN that the shim keeps gives them too. -/
theorem adaptors_deliver_iff {value : Option (List UInt8)} (hpin : UsesPin engine rsa pin)
    (hreturns : decryption T cipher cipherLen plain pin fuel engine.env = some value) :
    Delivers T opened locals engine rsa cipher cipherLen plain pin fuel value ↔
      ∃ byte, decryption T cipher cipherLen plain pin fuel engine.env = some (some [byte]) ∧
        decryption T cipher cipherLen plain (pin.take 15) fuel engine.env = some (some [byte]) := by
  constructor
  · intro h
    obtain ⟨result, hout, rfl, hengine⟩ := engine_reading opened locals hpin hreturns 0 0
    have hopenssl := Option.some.inj (hengine.symm.trans (h.openssl 0 0))
    obtain ⟨byte, hbyte⟩ := (engine_length_iff hout).mp hopenssl
    refine ⟨byte, by rw [hreturns, hbyte], ?_⟩
    rw [← mbedtls_reading opened locals 0 0, h.mbedtls 0 0, hbyte]
  · rintro ⟨byte, hfull, hkept⟩
    obtain rfl : some [byte] = value := Option.some.inj (hfull.symm.trans hreturns)
    refine ⟨fun olen len => ?_, fun len => ?_, fun len padding => ?_⟩
    · rw [mbedtls_reading, hkept]
    · rw [hsm_reading, hfull]
    · obtain ⟨result, hout, hvalue, hengine⟩ := engine_reading opened locals hpin hreturns len padding
      rw [hengine, (engine_length_iff hout).mpr ⟨byte, hvalue⟩, hvalue]

/-- A card with one key that deciphers everything to the same plaintext. -/
def deciphering (plaintext : List UInt8) : Process (List (Option (List UInt8))) :=
  attach (some 0) (start (fun _ => [some [0x01, 0x90, 0x00], some [0x90, 0x00],
    some [0x62, 0x04, 0x81, 0x02, 0x00, 0x0B, 0x90, 0x00],
    some [0x01, 0x00, 0x00, 0x00, 0x04, 0x00, 0x00, 0x00, 0x00, 0x00, 0x00, 0x90, 0x00],
    some [0x6A, 0x82], some [0x90, 0x00], some [0x90, 0x00], some (plaintext ++ [0x90, 0x00]), some [0x90, 0x00]])
    fun _ => Mem.zero)

/-- The engine with a loaded key, on such a card. -/
def engineOn (plaintext : List UInt8) : Engine (Process (List (Option (List UInt8)))) :=
  { Engine.bound (deciphering plaintext) with
    exDataIdx := some 0, exData := some 0, rsaExDataIdx := some 0, numCtxs := 1, numRsas := 1, numLocks := 1
    ctxs := Function.update (fun _ => none) 0
      (some ⟨true, some (cstr "1234"), some (cstr "/dev/ttyACM0"), 115200, some 0⟩)
    rsas := Function.update (fun _ => none) 0 (some ⟨some (3233, 17), some ⟨0⟩⟩) }

/-- What the uninitialised variables hold. -/
def zeroLocals : Locals := ⟨⟨Mem.zero, 0⟩, 0, 0⟩

theorem engineOn_usesPin (plaintext : List UInt8) : UsesPin (engineOn plaintext) 0 (cstr "1234") :=
  ⟨⟨0⟩, _, rfl, rfl, rfl⟩

theorem one_byte_delivered : Delivers scripted (fun _ _ => none) zeroLocals (engineOn [0xAA]) 0 Mem.zero 1 Mem.zero
    (cstr "1234") 2 (some [0xAA]) := by
  have hreturns : decryption scripted Mem.zero 1 Mem.zero (cstr "1234") 2 (engineOn [0xAA]).env =
      some (some [0xAA]) := by
    decide +kernel
  exact (adaptors_deliver_iff _ _ (engineOn_usesPin _) hreturns).mpr ⟨0xAA, hreturns, hreturns⟩

/-- A plaintext of two bytes is decrypted, but OpenSSL is told that it has one. -/
theorem two_bytes_not_delivered :
    decryption scripted Mem.zero 1 Mem.zero (cstr "1234") 2 (engineOn [0xAA, 0xBB]).env = some (some [0xAA, 0xBB]) ∧
      ¬Delivers scripted (fun _ _ => none) zeroLocals (engineOn [0xAA, 0xBB]) 0 Mem.zero 1 Mem.zero (cstr "1234") 2
        (some [0xAA, 0xBB]) := by
  refine ⟨by decide +kernel, fun h => ?_⟩
  have hopenssl := h.openssl 0 1
  revert hopenssl
  decide +kernel

end Process

end TrustOnboard
