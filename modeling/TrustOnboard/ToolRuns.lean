import TrustOnboard.SdkCrop
import TrustOnboard.TokenService
import TrustOnboard.ToolModel

/-! Runs of the tool on a card that carries a profile. The exit code, the files and what is printed are
decided by the profile and by what the host allows. -/

namespace TrustOnboard.TrustOnboardTool

open Exec Sdk

/-! ### What the tool makes of a profile -/

/-- The part of a text up to the first footer. -/
def firstCertificate (text : List UInt8) : List UInt8 :=
  text.take ((ScanRestart.scan footer 0 text).getD text.length)

section Outcome

variable (host : Host)

/-- The text, if it can be saved. -/
def saved (path : Option (List UInt8)) (text : List UInt8) : Except Int (List UInt8) :=
  if path.all host.fopen then .ok text else .error (-1)

/-- The PEM text of these bytes, if there are any and they can be read; `failed` is the exit code where
they cannot. -/
def pemOutcome (header : List UInt8) (block : Nat) (failed : Int) (path : Option (List UInt8))
    (readable : Mem → Bool) :
    Option (List UInt8) → Except Int (List UInt8)
  | none => .error (-1)
  | some bytes =>
      match host.malloc block (derToPemLen bytes.length header) with
      | none => .error 1
      | some _ =>
          match host.malloc (block + 1) bytes.length with
          | none => .error 1
          | some der =>
              if readable der then saved host path (convertDerToPem header bytes) else .error failed

variable (profile : Profile) (settings : Settings)

/-- The available certificate, behind an accepted PIN. -/
def certificateOutcome (accepted : Bool) : Except Int (List UInt8) :=
  match accepted, certificateOn profile.objects with
  | true, some file =>
      if (host.malloc 0 file.value.length).isSome then
        saved host settings.certPath (firstCertificate file.value)
      else .error 1
  | _, _ => .error 1

/-- The available key; its text encodes the zero byte behind it, too. -/
def keyOutcome : Except Int (List UInt8) :=
  pemOutcome host (cstr "RSA PRIVATE KEY") 1 1 settings.pkPath (fun _ => true)
    ((privateKeyOn profile.objects).map fun file => file.value ++ [0])

def signingOutcome : Except Int (List UInt8) :=
  pemOutcome host (cstr "CERTIFICATE") 3 (-1) settings.signingCertPath
    (fun der => profile.signingCertificate.all fun file => (Mias.delivered (some der) file).ok)
    profile.signingCertificate

/-- The exit code of parts that come one after the other. -/
def exitCode : List (Option (List UInt8) × Except Int (List UInt8)) → Int
  | (_, .ok _) :: parts => exitCode parts
  | (_, .error code) :: _ => code
  | [] => 0

/-- The files that they leave. -/
def written : List (Option (List UInt8) × Except Int (List UInt8)) → List (List UInt8 × List UInt8)
  | (path, .ok text) :: parts => (path.toList.map fun name => (name, text)) ++ written parts
  | _ => []

/-- The three parts. -/
def parts (accepted : Bool) : List (Option (List UInt8) × Except Int (List UInt8)) :=
  [(settings.certPath, certificateOutcome host profile settings accepted),
    (settings.pkPath, keyOutcome host profile settings),
    (settings.signingCertPath, signingOutcome host profile settings)]

/-- The JSON object, where all parts are there. -/
def json : List (Option (List UInt8) × Except Int (List UInt8)) → Option Json
  | [(_, .ok cert), (_, .ok pk), (_, .ok signingCert)] => some ⟨cert, pk, signingCert⟩
  | _ => none

/-- The tool has come to its end: its exit code, the files it has written, what it has printed. -/
structure Finished {ε : Type} (accepted : Bool) (s : Tool ε) (code : Int) (s' : Tool ε) : Prop where
  code_eq : code = exitCode (parts host profile settings accepted)
  files_eq : s'.files = s.files ++ written (parts host profile settings accepted)
  printed_eq : s'.printed =
    (if settings.printJson then json (parts host profile settings accepted) else none).or s.printed

end Outcome

/-! ### The calls -/

section Calls

variable {profile : Profile} {σ : Type} {T : Transport σ} {channels : UInt8 → Prop}
  {view : σ → Token.State} {current : σ → Nat} {tries : Nat} {pin : List UInt8}

/-- The library in the process is initialised, and so many tries are left. -/
def Ready (profile : Profile) (view : σ → Token.State) (tries : Nat) (s : Tool (Process σ)) :
    Prop :=
  profile.Represents view tries (Process.sdkLens.get s.env)

/-- Only the state of the SDK has changed. -/
def Aside (s s' : Tool (Process σ)) : Prop := s'.files = s.files ∧ s'.printed = s.printed

theorem api_yields {α : Type} {program : Exec (Sdk σ) α} {s : Tool (Process σ)} {value : α}
    {tries' : Nat}
    (h : Yields program (Process.sdkLens.get s.env) value (profile.Represents view tries')) :
    Yields (outside (zoom Process.sdkLens program)) s value fun s' =>
      Ready profile view tries' s' ∧ Aside s s' := by
  obtain ⟨t, hrun, hrep⟩ := h
  refine ⟨_, .zoom (.zoom hrun), ?_, rfl, rfl⟩
  show profile.Represents view tries' (Process.sdkLens.get (Process.sdkLens.set t s.env))
  rw [Process.sdkLens.get_set]
  exact hrep

variable (opened : Option (List UInt8) → Int → Option Nat) (locals : Locals)
  (h : profile.CarriedBy T channels view current) (hpin : pin.length ≤ 255) {s : Tool (Process σ)}
  (hready : Ready profile view tries s)

include h hready

theorem extractSigningCertificate_yields (pem : Option Mem) (pemSize : Option Int)
    (der : Option Mem) (derSize : Int) :
    Yields (outside ((Process.tob T opened locals).tobExtractSigningCertificate pem pemSize der
        derSize (some pin))) s
      (pemResult (cstr "CERTIFICATE") pem pemSize
        (match profile.signingCertificate with
          | none => ⟨ERR_SE_BAD_KEY_NAME_ERROR, der, derSize⟩
          | some file => certificateAnswer (Mias.delivered der file) derSize)) fun s' =>
      Ready profile view tries s' ∧ Aside s s' := by
  have hinj : Function.Injective ApiResult.pem := fun _ _ heq => ApiResult.pem.inj heq
  have hcall := Profile.calls_refine h tries _
    (.signingCertificate locals pem pemSize der derSize (some pin)) hready trivial
  exact api_yields (hcall.of_map hinj)

include hpin

theorem extractCertificate_yields (cert : Option Mem) (size : Int) :
    Yields (outside
        ((Process.tob T opened locals).tobExtractAvailableCertificate cert size (some pin))) s
      (cropExtract
        (p11Answer (profile.token.accepts tries pin) (certificateOn profile.objects) cert size))
      fun s' =>
        Ready profile view (Retry.spend profile.token.limit tries (profile.right pin)) s' ∧
          Aside s s' := by
  have hinj : Function.Injective ApiResult.extract := fun _ _ heq => ApiResult.extract.inj heq
  have hcall := Profile.calls_refine h tries _
    (.availableCertificate locals locals cert size pin) hready hpin
  exact api_yields (hcall.of_map hinj)

theorem extractPrivateKey_yields (pem : Option Mem) (pemSize : Option Int) (der : Option Mem)
    (derSize : Int) :
    Yields (outside
        ((Process.tob T opened locals).tobExtractAvailablePrivateKey pem pemSize der derSize
          (some pin))) s
      (pemResult (cstr "RSA PRIVATE KEY") pem pemSize
        (appendNul
          (p11Answer (profile.token.accepts tries pin) (privateKeyOn profile.objects) der derSize)))
      fun s' =>
        Ready profile view (Retry.spend profile.token.limit tries (profile.right pin)) s' ∧
          Aside s s' := by
  have hinj : Function.Injective ApiResult.pem := fun _ _ heq => ApiResult.pem.inj heq
  have hcall := Profile.calls_refine h tries _
    (.availablePrivateKey locals locals pem pemSize der derSize pin) hready hpin
  exact api_yields (hcall.of_map hinj)

end Calls

/-! ### The parts -/

section Parts

variable {ε : Type} {host : Host} {s : Tool ε}

/-- A part has written its file, if it came to it. -/
def Leaves (path : Option (List UInt8)) (result : Except Int (List UInt8)) (s s' : Tool ε) : Prop :=
  s'.files = s.files ++ written [(path, result)] ∧ s'.printed = s.printed

theorem leaves_error {path : Option (List UInt8)} {code : Int} {s s' : Tool ε}
    (h : s'.files = s.files ∧ s'.printed = s.printed) :
    Leaves path (.error code) s s' := ⟨h.1.trans (List.append_nil _).symm, h.2⟩

/-- The end of a part that has a text. -/
theorem writeFile_yields (path : Option (List UInt8)) (text : List UInt8) :
    Yields (do
      if ← writeFile host path text then
        return .ok text
      else
        return .error (-1)) s (saved host path text) fun s' => s'.env = s.env ∧
          Leaves path (saved host path text) s s' := by
  cases path with
  | none => exact .pure ⟨rfl, (List.append_nil _).symm, rfl⟩
  | some name =>
      cases hopen : host.fopen name with
      | true =>
          have hsaved : saved host (some name) text = .ok text := if_pos hopen
          rw [hsaved]
          refine ⟨{ s with files := s.files ++ [(name, text)] }, .of_eq fun fuel => ?_, rfl, rfl,
            rfl⟩
          simp only [writeFile, hopen, if_true, bind_apply, modify_apply, pure_apply]
      | false =>
          have hsaved : saved host (some name) text = .error (-1) := if_neg (by simp [hopen])
          rw [hsaved]
          refine ⟨_, .of_eq fun fuel => ?_, rfl, leaves_error ⟨rfl, rfl⟩⟩
          simp only [writeFile, hopen, bind_apply, Bool.false_eq_true, if_false, pure_apply]

/-- A query and a read of PEM text, for the bytes that are there or not. -/
theorem extractPem_yields {inv : Tool ε → Prop} (hinv : ∀ s s', s'.env = s.env → inv s → inv s')
    {header : List UInt8}
    {extract : Option Mem → Option Int → Option Mem → Int → Exec ε PemExtract}
    {bytes : Option (List UInt8)} {readable : Mem → Bool}
    (hquery : ∀ s, inv s → ∃ query, Yields (outside (extract none (some 0) none 0)) s query
      (fun s' => inv s' ∧ s'.files = s.files ∧ s'.printed = s.printed) ∧
      match bytes with
      | none => query.ret ≠ 0
      | some bytes => query = pemResult header none (some 0) ⟨0, none, bytes.length⟩)
    (hread : ∀ s pem size der content, bytes = some content → inv s → ∃ got,
      Yields (outside (extract (some pem) (some size) (some der) content.length)) s got
        (fun s' => inv s' ∧ s'.files = s.files ∧ s'.printed = s.printed) ∧
      if readable der then got = pemResult header (some pem) (some size)
        ⟨0, some (der.write 0 content), content.length⟩
      else got.ret ≠ 0)
    (block : Nat) (failed : Int) (path : Option (List UInt8)) (hs : inv s) :
    Yields (extractPem host extract block failed path) s
      (pemOutcome host header block failed path readable bytes) fun s' =>
      inv s' ∧ Leaves path (pemOutcome host header block failed path readable bytes) s s' := by
  obtain ⟨query, hqueried, hbytes⟩ := hquery s hs
  refine hqueried.bind ?_
  rintro s₁ ⟨hinv₁, hfiles₁, hprinted₁⟩
  cases bytes with
  | none =>
      rw [if_pos hbytes]
      exact .pure ⟨hinv₁, leaves_error ⟨hfiles₁, hprinted₁⟩⟩
  | some content =>
      obtain rfl : query = ⟨0, none, some (derToPemLen content.length header : Nat), none,
        content.length⟩ := by
        rw [hbytes]
        unfold pemResult
        rw [if_pos rfl]
        simp only [Int.toNat_natCast]
      rw [if_neg (fun hne => hne rfl)]
      simp only [Option.getD_some]
      cases hpem : host.malloc block (derToPemLen content.length header : Nat) with
      | none =>
          have hout :
              pemOutcome host header block failed path readable (some content) = .error 1 := by
            simp only [pemOutcome, hpem]
          rw [hout]
          exact .pure ⟨hinv₁, leaves_error ⟨hfiles₁, hprinted₁⟩⟩
      | some pem =>
          cases hder : host.malloc (block + 1) content.length with
          | none =>
              have hout :
                  pemOutcome host header block failed path readable (some content) = .error 1 := by
                simp only [pemOutcome, hpem, hder]
              rw [hout]
              exact .pure ⟨hinv₁, leaves_error ⟨hfiles₁, hprinted₁⟩⟩
          | some der =>
              have hout : pemOutcome host header block failed path readable (some content) =
                  if readable der then saved host path (convertDerToPem header content)
                  else .error failed := by
                simp only [pemOutcome, hpem, hder]
              rw [hout]
              obtain ⟨got, hgot, hresult⟩ :=
                hread s₁ pem (derToPemLen content.length header : Nat) der content rfl hinv₁
              refine hgot.bind ?_
              rintro s₂ ⟨hinv₂, hfiles₂, hprinted₂⟩
              cases hreadable : readable der with
              | false =>
                  rw [hreadable, if_neg Bool.false_ne_true] at hresult
                  rw [if_pos hresult, if_neg Bool.false_ne_true]
                  exact .pure
                    ⟨hinv₂, leaves_error ⟨hfiles₂.trans hfiles₁, hprinted₂.trans hprinted₁⟩⟩
              | true =>
                  rw [hreadable, if_pos rfl, pemResult_read] at hresult
                  subst hresult
                  rw [if_neg (fun hne => hne rfl), if_pos rfl]
                  simp only [Option.getD_some, Int.toNat_natCast, Mem.slice_write_self]
                  refine (writeFile_yields path (convertDerToPem header content)).mono ?_
                  rintro s₃ ⟨henv, hfiles₃, hprinted₃⟩
                  refine ⟨hinv _ _ henv hinv₂, ?_, ?_⟩
                  · rw [hfiles₃, hfiles₂, hfiles₁]
                  · rw [hprinted₃, hprinted₂, hprinted₁]

end Parts

section Carried

variable {profile : Profile} {σ : Type} {T : Transport σ} {channels : UInt8 → Prop}
  {view : σ → Token.State} {current : σ → Nat}
  {opened : Option (List UInt8) → Int → Option Nat} {locals : Locals} {host : Host}
  {settings : Settings} {tries : Nat} {pin : List UInt8} {s : Tool (Process σ)}

/-- What is left of a certificate that was read and cropped. -/
theorem cropped_text (cert : Mem) (value : List UInt8) :
    (cert.write 0 value).slice 0 (cropPemChain (cert.write 0 value) value.length) =
      firstCertificate value := by
  have hle : cropPemChain (cert.write 0 value) value.length ≤ value.length := by
    have hle := cropLoop_le (cert.write 0 value) value.length 0 0
    rwa [Nat.zero_add] at hle
  rw [Mem.slice_write_take cert 0 hle, cropPemChain_eq_scan, Mem.slice_write_self]
  rfl

theorem Ready.of_env {s s' : Tool (Process σ)} (h : Ready profile view tries s)
    (henv : s'.env = s.env) :
    Ready profile view tries s' := by
  unfold Ready
  rw [henv]
  exact h

variable (h : profile.CarriedBy T channels view current) (hpin : pin.length ≤ 255)
  (hready : Ready profile view tries s)

include h hready

theorem signingCertificate_yields :
    Yields (signingCertificate (Process.tob T opened locals) host settings pin) s
      (signingOutcome host profile settings) fun s' =>
      Ready profile view tries s' ∧
        Leaves settings.signingCertPath (signingOutcome host profile settings) s s' := by
  refine extractPem_yields (fun _ _ henv hready => hready.of_env henv) ?_ ?_ 3 (-1)
    settings.signingCertPath hready
  · intro s hready
    refine ⟨_, extractSigningCertificate_yields opened locals h hready none (some 0) none 0, ?_⟩
    cases profile.signingCertificate with
    | none => exact fun hret => absurd hret (by show ERR_SE_BAD_KEY_NAME_ERROR ≠ 0; decide)
    | some file => rfl
  · intro s pem size der content hfile hready
    refine ⟨_, extractSigningCertificate_yields opened locals h hready (some pem) (some size)
      (some der) content.length, ?_⟩
    rw [hfile]
    simp only [Option.all_some]
    cases hok : (Mias.delivered (some der) content).ok with
    | true =>
        rw [if_pos rfl, certificateAnswer, hok, if_pos rfl]
        rfl
    | false =>
        rw [if_neg Bool.false_ne_true, certificateAnswer, hok, if_neg Bool.false_ne_true]
        exact fun hret => absurd hret (by show ERR_SE_BAD_KEY_NAME_ERROR ≠ 0; decide)

include hpin

/-- Behind a PIN that was accepted all tries are left, and stay. -/
theorem acceptedKey_yields (haccepts : profile.token.accepts tries pin = true)
    (htries : tries = profile.token.limit)
    (pem : Option Mem) (pemSize : Option Int) (der : Option Mem) (derSize : Int) :
    Yields (outside ((Process.tob T opened locals).tobExtractAvailablePrivateKey pem pemSize der
        derSize (some pin))) s
      (pemResult (cstr "RSA PRIVATE KEY") pem pemSize
        (appendNul (p11Answer true (privateKeyOn profile.objects) der derSize))) fun s' =>
      Ready profile view tries s' ∧ Aside s s' := by
  have hspend : Retry.spend profile.token.limit tries (profile.right pin) = tries := by
    rw [(Profile.accepted_again haccepts).1, htries]
  have hcall := extractPrivateKey_yields opened locals h hpin hready pem pemSize der derSize
  rw [haccepts, hspend] at hcall
  exact hcall

theorem availablePrivateKey_yields (haccepts : profile.token.accepts tries pin = true)
    (htries : tries = profile.token.limit) :
    Yields (availablePrivateKey (Process.tob T opened locals) host settings pin) s
      (keyOutcome host profile settings) fun s' =>
      Ready profile view tries s' ∧
        Leaves settings.pkPath (keyOutcome host profile settings) s s' := by
  refine extractPem_yields (fun _ _ henv hready => hready.of_env henv) ?_ ?_ 1 1 settings.pkPath
    hready
  · intro s hready
    refine ⟨_, acceptedKey_yields h hpin hready haccepts htries none (some 0) none 0, ?_⟩
    cases privateKeyOn profile.objects with
    | none => exact fun hret => absurd hret (by show ERR_SE_MIAS_READ_OBJECT_ERROR ≠ 0; decide)
    | some file =>
        show _ = pemResult _ none (some 0) ⟨0, none, ((file.value ++ [0]).length : Nat)⟩
        rw [List.length_append]
        rfl
  · intro s pem size der content hfile hready
    refine ⟨_, acceptedKey_yields h hpin hready haccepts htries (some pem) (some size) (some der)
      content.length, ?_⟩
    obtain ⟨file, hkey, rfl⟩ := Option.map_eq_some_iff.mp hfile
    have hwrite : (der.write 0 file.value).write file.value.length [0] =
        der.write 0 (file.value ++ [0]) := by
      have happend := Mem.write_append der 0 file.value [0]
      rwa [Nat.zero_add] at happend
    rw [if_pos rfl, hkey, ← hwrite, List.length_append]
    rfl

theorem availableCertificate_yields :
    Yields (availableCertificate (Process.tob T opened locals) host settings pin) s
      (certificateOutcome host profile settings (profile.token.accepts tries pin)) fun s' =>
      Ready profile view (Retry.spend profile.token.limit tries (profile.right pin)) s' ∧
        Leaves settings.certPath 
          (certificateOutcome host profile settings (profile.token.accepts tries pin)) s s' := by
  refine (extractCertificate_yields opened locals h hpin hready none 0).bind ?_
  rintro s₁ ⟨hready₁, hfiles₁, hprinted₁⟩
  cases haccepts : profile.token.accepts tries pin with
  | false =>
      rw [if_pos (by show ERR_SE_EF_VERIFY_PIN_ERROR ≠ 0; decide)]
      exact .pure ⟨hready₁, leaves_error ⟨hfiles₁, hprinted₁⟩⟩
  | true =>
      cases hfile : certificateOn profile.objects with
      | none =>
          have hout : certificateOutcome host profile settings true = .error 1 := by
            simp only [certificateOutcome, hfile]
          rw [hout, if_pos (by show ERR_SE_MIAS_READ_OBJECT_ERROR ≠ 0; decide)]
          exact .pure ⟨hready₁, leaves_error ⟨hfiles₁, hprinted₁⟩⟩
      | some file =>
          have hout : certificateOutcome host profile settings true =
              if (host.malloc 0 file.value.length).isSome then
                saved host settings.certPath (firstCertificate file.value)
              else .error 1 := by
            simp only [certificateOutcome, hfile]
          rw [hout]
          have hquery : cropExtract (p11Answer true (some file) none 0) =
              ⟨0, none, file.value.length⟩ := rfl
          rw [hquery, if_neg (fun hne => hne rfl)]
          simp only
          cases hcert : host.malloc 0 file.value.length with
          | none => exact .pure ⟨hready₁, leaves_error ⟨hfiles₁, hprinted₁⟩⟩
          | some cert =>
              obtain ⟨hspend, hagain, hstays⟩ := Profile.accepted_again haccepts
              rw [hspend] at hready₁
              have hread : Yields (outside
                ((Process.tob T opened locals).tobExtractAvailableCertificate (some cert)
                  file.value.length (some pin))) s₁ _ _ :=
                extractCertificate_yields opened locals h hpin hready₁ (some cert) file.value.length
              rw [hagain, hstays, hfile] at hread
              refine hread.bind ?_
              rintro s₂ ⟨hready₂, hfiles₂, hprinted₂⟩
              have hgot : cropExtract (p11Answer true (some file) (some cert) file.value.length) =
                  ⟨0, some (cert.write 0 file.value),
                    cropPemChain (cert.write 0 file.value) file.value.length⟩ := rfl
              rw [hgot, if_neg (fun hne => hne rfl)]
              simp only [Option.getD_some, Int.toNat_natCast, cropped_text, Option.isSome_some,
                if_true]
              refine (writeFile_yields settings.certPath (firstCertificate file.value)).mono ?_
              rintro s₃ ⟨henv, hfiles₃, hprinted₃⟩
              rw [hspend]
              exact ⟨hready₂.of_env henv, by rw [hfiles₃, hfiles₂, hfiles₁],
                by rw [hprinted₃, hprinted₂, hprinted₁]⟩

end Carried

/-! ### The whole program -/

section Main

variable {profile : Profile} {σ : Type} {T : Transport σ} {channels : UInt8 → Prop}
  {view : σ → Token.State} {current : σ → Nat}
  {opened : Option (List UInt8) → Int → Option Nat} {locals : Locals} {host : Host}
  {settings : Settings} {device pin : List UInt8} {address : Nat}

/-- `tobInitialize` with a device that can be opened. -/
theorem initialize_yields (h : profile.CarriedBy T channels view current) (locals : Locals)
    {s : Tool (Process σ)} (hmias : s.env.mias = .create) (hmodem : s.env.modem = none)
    {baudrate : Int}
    (hopened : opened (some device) baudrate = some address) :
    Yields (outside ((Process.tob T opened locals).tobInitialize (some device) baudrate)) s 0
      fun s' => Ready profile view (view (s.env.ifaces address).card).tries s' ∧ Aside s s' := by
  have hinit : Yields (Process.tobInitialize T (opened (some device) baudrate)) s.env 0 fun p =>
      profile.Represents view (view (s.env.ifaces address).card).tries (Process.sdkLens.get p) := by
    rw [hopened]
    apply Yields.gets_bind
    rw [hmodem, if_neg (fun hne => hne rfl)]
    apply Yields.modify_bind
    exact Profile.initializeWithInterface_represents (p := { s.env with modem := some address })
      h hmias address
  exact Yields.zoom hinit fun _ hrep => ⟨hrep, rfl, rfl⟩

/-- The tool behind its initialisation. -/
theorem extractAll_attains (h : profile.CarriedBy T channels view current) (hpin : pin.length ≤ 255)
    (locals : Locals) (host : Host) (settings : Settings) {s : Tool (Process σ)}
    (hmias : s.env.mias = .create) (hmodem : s.env.modem = none)
    (hopened : opened (some device) settings.baudrate = some address) :
    Attains (extractAll (Process.tob T opened locals) host settings device pin) s fun code s' =>
      Finished host profile settings
          (profile.token.accepts (view (s.env.ifaces address).card).tries pin) s code s' ∧
        (view (s'.env.ifaces s'.env.current).card).tries =
          Retry.spend profile.token.limit (view (s.env.ifaces address).card).tries
            (profile.right pin) := by
  refine (initialize_yields h locals hmias hmodem hopened).bind_attains ?_
  rintro s₁ ⟨hready₁, hfiles₁, hprinted₁⟩
  refine (availableCertificate_yields h hpin hready₁).bind_attains ?_
  rintro s₂ ⟨hready₂, hfiles₂, hprinted₂⟩
  rw [hfiles₁] at hfiles₂
  rw [hprinted₁] at hprinted₂
  cases hcert : certificateOutcome host profile settings
      (profile.token.accepts (view (s.env.ifaces address).card).tries pin) with
  | error code =>
      rw [hcert] at hfiles₂
      refine .pure ⟨⟨?_, ?_, ?_⟩, hready₂.tries_eq⟩
      · simp only [parts, hcert, exitCode]
      · simp only [parts, hcert]
        exact hfiles₂
      · simp only [parts, hcert, json, ite_self, Option.none_or]
        exact hprinted₂
  | ok cert =>
      have haccepts :
          profile.token.accepts (view (s.env.ifaces address).card).tries pin = true := by
        by_contra hrefused
        rw [Bool.not_eq_true] at hrefused
        rw [hrefused] at hcert
        simp only [certificateOutcome] at hcert
        cases hcert
      rw [haccepts] at hcert ⊢
      rw [haccepts, hcert] at hfiles₂
      obtain ⟨hspend, hagain, _⟩ := Profile.accepted_again haccepts
      rw [hspend] at hready₂ ⊢
      refine (availablePrivateKey_yields h hpin hready₂ hagain rfl).bind_attains ?_
      rintro s₃ ⟨hready₃, hfiles₃, hprinted₃⟩
      rw [hfiles₂] at hfiles₃
      rw [hprinted₂] at hprinted₃
      cases hkey : keyOutcome host profile settings with
      | error code =>
          rw [hkey] at hfiles₃
          refine .pure ⟨⟨?_, ?_, ?_⟩, hready₃.tries_eq⟩
          · simp only [parts, hcert, hkey, exitCode]
          · simp only [hfiles₃, parts, hcert, hkey, written, List.append_nil]
          · simp only [parts, hcert, hkey, json, ite_self, Option.none_or]
            exact hprinted₃
      | ok pk =>
          refine (signingCertificate_yields h hready₃).bind_attains ?_
          rintro s₄ ⟨hready₄, hfiles₄, hprinted₄⟩
          rw [hfiles₃, hkey] at hfiles₄
          rw [hprinted₃] at hprinted₄
          have hfiles : s₄.files = s.files ++ written (parts host profile settings true) := by
            rw [hfiles₄]
            cases hsigning : signingOutcome host profile settings <;>
              simp only [parts, hcert, hkey, hsigning, written, List.append_nil, List.append_assoc]
          cases hsigning : signingOutcome host profile settings with
          | error code =>
              refine .pure ⟨⟨?_, hfiles, ?_⟩, hready₄.tries_eq⟩
              · simp only [parts, hcert, hkey, hsigning, exitCode]
              · simp only [parts, hcert, hkey, hsigning, json, ite_self, Option.none_or]
                exact hprinted₄
          | ok signingCert =>
              have hcode : (0 : Int) = exitCode (parts host profile settings true) := by
                simp only [parts, hcert, hkey, hsigning, exitCode]
              have hjson :
                  json (parts host profile settings true) = some ⟨cert, pk, signingCert⟩ := by
                simp only [parts, hcert, hkey, hsigning, json]
              simp only
              cases hprint : settings.printJson with
              | false =>
                  rw [if_neg Bool.false_ne_true]
                  refine .pure ⟨⟨hcode, hfiles, ?_⟩, hready₄.tries_eq⟩
                  rw [hprint, if_neg Bool.false_ne_true, Option.none_or]
                  exact hprinted₄
              | true =>
                  rw [if_pos rfl]
                  apply Attains.modify_bind
                  refine .pure ⟨⟨hcode, hfiles, ?_⟩, hready₄.tries_eq⟩
                  rw [hprint, if_pos rfl, hjson, Option.some_or]

end Main

/-! ### Runs of the program -/

/-- A run of the program: its options, which set a device and a PIN, and what it is run on. -/
structure Session where
  opts : List Opt
  host : Host
  settings : Settings
  device : List UInt8
  pin : List UInt8
  read : readSettings opts = some settings
  device_eq : settings.device = some device
  pin_eq : settings.pin = some pin
  fits : pin.length ≤ 255

section Sessions

variable {profile : Profile} {σ : Type} {T : Transport σ} {channels : UInt8 → Prop}
  {view : σ → Token.State} {current : σ → Nat}
  (opened : Option (List UInt8) → Int → Option Nat)

def Session.run {ε : Type} (session : Session) (tob : Tob ε) : Exec (Tool ε) Int :=
  main tob session.host session.opts

/-- **What a run of the tool comes to**: the exit code, the files and the JSON object are those of the
profile, and the PIN is tried once. -/
theorem session_finishes (h : profile.CarriedBy T channels view current) (session : Session)
    (locals : Locals) (cards : Nat → σ) (buffers : Nat → Mem) {address : Nat}
    (hopened : opened (some session.device) session.settings.baudrate = some address) :
    Attains (session.run (Process.tob T opened locals)) ⟨.start cards buffers, [], none⟩
      fun code s' =>
        Finished session.host profile session.settings
            (profile.token.accepts (view (cards address)).tries session.pin)
            ⟨.start cards buffers, [], none⟩ code s' ∧
          (view (s'.env.ifaces s'.env.current).card).tries =
            Retry.spend profile.token.limit (view (cards address)).tries
              (profile.right session.pin) := by
  have hrun : session.run (Process.tob T opened locals) =
      extractAll (Process.tob T opened locals) session.host session.settings session.device
        session.pin := by
    rw [Session.run, main, session.read]
    simp only [session.device_eq, session.pin_eq]
  rw [hrun]
  exact extractAll_attains h session.fits locals session.host session.settings rfl rfl hopened

/-- A run that saves the signing certificate and prints everything, on a host that allows all. -/
def sampleSession (pin : List UInt8) (fits : pin.length ≤ 255) : Session where
  opts := [.device (cstr "/dev/ttyUSB0"), .pin pin,
    .signingCert (cstr "signing-certificate.pem"), .json]
  host := ⟨fun _ _ => some Mem.zero, fun _ => true⟩
  settings := ⟨some (cstr "/dev/ttyUSB0"), 115200, some pin, none, none,
    some (cstr "signing-certificate.pem"), true⟩
  device := cstr "/dev/ttyUSB0"
  pin := pin
  read := rfl
  device_eq := rfl
  pin_eq := rfl
  fits := fits

/-- With the PIN of the card, one file is written, and the certificate is printed as it is on the
card. -/
theorem session_finishes_sampleProfile :
    Attains ((sampleSession (cstr "0000") (Nat.le_of_ble_eq_true rfl)).run
      (Process.tob Profile.sampleProfile.card (fun _ _ => some 0) noLocals))
      ⟨.start (fun _ => (Token.State.fresh, 0)) fun _ => Mem.zero, [], none⟩ fun code s' =>
      code = 0 ∧ s'.files.map Prod.fst = [cstr "signing-certificate.pem"] ∧
        s'.printed.map Json.availableCertificate = some (cstr "PEM\n") ∧
        (s'.env.ifaces s'.env.current).card.1.tries = 3 := by
  obtain ⟨code, s', hrun, hfinished, htries⟩ :=
    session_finishes (fun _ _ => some 0) Profile.sampleProfile_carried
      (sampleSession (cstr "0000") (Nat.le_of_ble_eq_true rfl)) noLocals
      (fun _ => (Token.State.fresh, 0)) (fun _ => Mem.zero) rfl
  refine ⟨code, s', hrun, ?_, ?_, ?_, ?_⟩
  · rw [hfinished.code_eq]
    rfl
  · rw [hfinished.files_eq]
    rfl
  · rw [hfinished.printed_eq]
    rfl
  · rw [htries]
    rfl

/-- Runs of the tool, one after the other, on one card. -/
inductive Runs (T : Transport σ) (opened : Option (List UInt8) → Int → Option Nat)
    (locals : Locals) (buffers : Nat → Mem) : σ → List Session → List Int → σ → Prop
  | nil {card : σ} : Runs T opened locals buffers card [] [] card
  | cons {card card' : σ} {session : Session} {sessions : List Session} {code : Int}
      {codes : List Int} {s' : Tool (Process σ)}
      (hrun : Evals (session.run (Process.tob T opened locals))
        ⟨.start (fun _ => card) buffers, [], none⟩ code s')
      (hrest : Runs T opened locals buffers (s'.env.ifaces s'.env.current).card sessions codes
        card') :
      Runs T opened locals buffers card (session :: sessions) (code :: codes) card'

/-- Each run tries its PIN once. -/
theorem sessions_run (h : profile.CarriedBy T channels view current) (locals : Locals)
    (buffers : Nat → Mem) (sessions : List Session)
    (hopened : ∀ session ∈ sessions,
      (opened (some session.device) session.settings.baudrate).isSome) (card : σ) :
    ∃ codes card', Runs T opened locals buffers card sessions codes card' ∧
      (view card').tries =
        Retry.after profile.token.limit (view card).tries
          (sessions.map fun session => profile.right session.pin) := by
  induction sessions generalizing card with
  | nil => exact ⟨[], card, .nil, rfl⟩
  | cons session sessions ih =>
      rw [List.forall_mem_cons] at hopened
      obtain ⟨address, haddress⟩ := Option.isSome_iff_exists.mp hopened.1
      obtain ⟨code, s', hrun, _, htries⟩ :=
        session_finishes opened h session locals (fun _ => card) buffers haddress
      obtain ⟨codes, card', hrest, hleft⟩ := ih hopened.2 (s'.env.ifaces s'.env.current).card
      refine ⟨code :: codes, card', .cons hrun hrest, ?_⟩
      rw [hleft, htries]
      rfl

/-- **When runs of the tool block the card**: exactly if they begin with as many wrong PINs as there are
tries, or make as many wrong attempts in a row as the card allows. -/
theorem sessions_block_iff (h : profile.CarriedBy T channels view current) (locals : Locals)
    (buffers : Nat → Mem) (sessions : List Session)
    (hopened : ∀ session ∈ sessions,
      (opened (some session.device) session.settings.baudrate).isSome) (card : σ)
    (htries : (view card).tries ≤ profile.token.limit) :
    ∃ codes card', Runs T opened locals buffers card sessions codes card' ∧
      ((view card').tries = 0 ↔
        List.replicate (view card).tries false <+:
            sessions.map (fun session => profile.right session.pin) ∨
          List.replicate profile.token.limit false <:+:
            sessions.map fun session => profile.right session.pin) := by
  obtain ⟨codes, card', hruns, hleft⟩ := sessions_run opened h locals buffers sessions hopened card
  refine ⟨codes, card', hruns, ?_⟩
  rw [hleft]
  exact Retry.after_eq_zero profile.token.limit_pos htries _

end Sessions

/-- Three runs with a wrong PIN. -/
theorem sessions_block_iff_sampleProfile :
    ∃ codes card', Runs Profile.sampleProfile.card (fun _ _ => some 0) noLocals (fun _ => Mem.zero)
        (Token.State.fresh, 0)
        (List.replicate 3 (sampleSession (cstr "1234") (Nat.le_of_ble_eq_true rfl))) codes card' ∧
      card'.1.tries = 0 := by
  obtain ⟨codes, card', hruns, hblocked⟩ := sessions_block_iff (fun _ _ => some 0)
    Profile.sampleProfile_carried noLocals (fun _ => Mem.zero)
    (List.replicate 3 (sampleSession (cstr "1234") (Nat.le_of_ble_eq_true rfl)))
    (fun _ _ => rfl) (Token.State.fresh, 0) (Nat.le_refl 3)
  exact ⟨codes, card', hruns, hblocked.mpr (.inr (List.infix_refl [false, false, false]))⟩

end TrustOnboard.TrustOnboardTool
