import TrustOnboard.AppletFollowUps
import TrustOnboard.SdkTrace

/-! Which bytes of the caller's hash are sent. `psoHashExternally` takes as many as the digest of the algorithm has; the
length that the caller gives is not looked at. -/

namespace TrustOnboard

open Exec Linked SEInterface

variable {σ : Type} {T : Transport σ}

/-! ### PSO HASH on the wire -/

/-- A PSO HASH command. -/
def IsHash (apdu : List UInt8) : Prop :=
  insOf apdu = SCIns.performSecurityOperation.code ∧ apdu.getD 2 0 = SCP1.PSOHashCode ∧ apdu.getD 3 0 = SCP2.PSOTemplateHash

theorem isHash_of_take {left right : List UInt8} (h : left.take 4 = right.take 4) : IsHash left ↔ IsHash right := by
  have hbyte : ∀ i, i < 4 → left.getD i 0 = right.getD i 0 := by
    intro i hi
    have hget := congrArg (fun a : List UInt8 => a.getD i 0) h
    simpa [List.getD_eq_getElem?_getD, List.getElem?_take, hi] using hget
  simp only [IsHash, insOf, hbyte 1 (by omega), hbyte 2 (by omega), hbyte 3 (by omega)]

/-- Behind the five header bytes a resend is the command. -/
theorem FollowUp.payload {command apdu : List UInt8} (h : FollowUp command apdu) (hlen : 4 ≤ command.length)
    (hhash : IsHash apdu) : IsHash command ∧ apdu.drop 5 = command.drop 5 := by
  induction h with
  | self => exact ⟨hhash, rfl⟩
  | @resend apdu le h ih =>
      have hfour := (h.header hlen).1
      obtain ⟨hcommand, hdrop⟩ := ih ((isHash_of_take (resendApdu_take hfour le)).mp hhash)
      have hshort : (apdu.take 4).length ≤ 5 := Nat.le_trans (List.length_take_le 4 apdu) (by decide)
      refine ⟨hcommand, ?_⟩
      rw [← hdrop, resendApdu, List.drop_append, List.drop_eq_nil_of_le hshort, List.nil_append, List.length_take,
        Nat.min_eq_left hfour]
      rfl
  | fetch => exact absurd hhash.1 (by simp [insOf, fetchApdu, SCIns.code])

/-- Every PSO HASH carries this payload, and there is none without a payload. -/
def Carries (payload : Option (List UInt8)) : Event → Prop
  | .exchange apdu _ => IsHash apdu → ∃ bytes, payload = some bytes ∧ apdu.drop 5 = bytes ++ [0x00]
  | _ => True

/-- A command that is no PSO HASH, or has the payload. -/
theorem carries_of_command {payload : Option (List UInt8)} {command : List UInt8} (hlen : 4 ≤ command.length)
    (h : IsHash command → ∃ bytes, payload = some bytes ∧ command.drop 5 = bytes ++ [0x00]) :
    Stays (Grows T (Carries payload)) (SEInterface.command T command) := by
  refine command_grows fun event hevent => ?_
  cases event with
  | exchange apdu answer =>
      intro hhash
      have hfollow : FollowUp command apdu := hevent
      obtain ⟨hcommand, hdrop⟩ := hfollow.payload hlen hhash
      obtain ⟨bytes, hpayload, hbytes⟩ := h hcommand
      exact ⟨bytes, hpayload, hdrop.trans hbytes⟩
  | answered => trivial
  | unanswered => trivial
  | note => trivial

theorem carries_of_wire {payload : Option (List UInt8)} {notes : Note → Prop} {event : Event}
    (h : Wire (· ≠ .performSecurityOperation) notes event) : Carries payload event := by
  obtain ⟨channel, hevent⟩ := h
  cases event with
  | exchange apdu answer =>
      intro hhash
      rcases hevent.exchange_ins with ⟨_, i, _, hi, hins, _⟩ | hins
      · have hcode := hins.symm.trans hhash.1
        cases i <;> first | exact absurd rfl hi | exact absurd hcode (by decide)
      · exact absurd (hins.symm.trans hhash.1) (by decide)
  | answered => trivial
  | unanswered => trivial
  | note => trivial

namespace Mias

theorem onApplet_onWire {α : Type} {kind : Event → Prop} {program : Exec (Linked σ Applet) α}
    (h : Stays (OnWire T Linked.se kind) program) : Stays (OnWire T Linked.se kind) (onApplet program) :=
  .zoom h fun _ _ hgrows => hgrows

/-- The data field of PSO HASH for an algorithm. -/
def hashPayload (algorithm : UInt8) (hash : Mem) : Option (List UInt8) :=
  (digestLength algorithm).map fun n => SCTag.PSOHashExt :: lowByte n :: hash.slice 0 n

theorem psoHashExternally_carries (algorithm : UInt8) (hash : Mem) (hashLen : Nat) :
    Stays (OnWire T Linked.se (Carries (hashPayload algorithm hash))) (psoHashExternally T algorithm hash hashLen) := by
  unfold psoHashExternally hashPayload
  cases digestLength algorithm with
  | none => exact .pure _
  | some n =>
      refine onApplet_onWire (Applet.ok_onWire (Applet.whenSelected_onWire (fun cla => ?_) _))
      exact .bind (fill_grows _) fun _ => carries_of_command (by simp) fun _ => ⟨_, rfl, rfl⟩

theorem psoComputeDigitalSignature_carries (payload : Option (List UInt8)) (signature : Mem) :
    Stays (OnWire T Linked.se (Carries payload)) (psoComputeDigitalSignature T signature) := by
  have hsign : Stays (OnWire T Linked.se (Carries payload)) (onApplet (Applet.transmitCase2 T 0x00
      .performSecurityOperation SCP1.PSOSignature SCP2.PSOSignatureInput 0x00)) := by
    refine onApplet_onWire (Applet.whenSelected_onWire (fun cla => ?_) _)
    exact carries_of_command (by simp) fun hhash => absurd hhash.2.1 (by simp [SCP1.PSOSignature, SCP1.PSOHashCode])
  refine .bind hsign fun ok => .ite (.loop (fun x => ?_) _) (.pure _)
  refine .bind (onApplet_onWire (.gets _)) fun data => .ite ?_ (.pure _)
  refine .bind (onApplet_onWire (.gets _)) fun sw => .ite ?_ (.pure _)
  have henvelope : Stays (OnWire T Linked.se (Carries payload)) (onApplet (Applet.transmitCase2 T 0x00 .envelope
      SCP1.ENVELOPEReserved SCP2.ENVELOPEReserved (lowByte sw))) := by
    refine onApplet_onWire (Applet.whenSelected_onWire (fun cla => ?_) _)
    exact carries_of_command (by simp) fun hhash => absurd hhash.1 (by simp [insOf, SCIns.code])
  exact .bind henvelope fun ok => .ite (.pure _) (.pure _)

/-- What is signed is decided by the algorithm that `signInit` has stored. -/
theorem signFinal_carries (hash : Mem) (hashLen : Nat) (signature : Mem) (len : Nat) (s : Linked σ Mias) :
    Meets (signFinal T hash hashLen signature len) s
      (fun fetched s' => OnWire T Linked.se (Carries (hashPayload (s.obj.signAlgo &&& 0xF0) hash)) s s' ∧
        (fetched.ok = true → digestLength (s.obj.signAlgo &&& 0xF0) ≠ none))
      (fun s' => OnWire T Linked.se (Carries (hashPayload (s.obj.signAlgo &&& 0xF0) hash)) s s') := by
  refine .gets_bind ?_
  have hhash : Meets (psoHashExternally T (s.obj.signAlgo &&& 0xF0) hash hashLen) s
      (fun ok s' => OnWire T Linked.se (Carries (hashPayload (s.obj.signAlgo &&& 0xF0) hash)) s s' ∧
        (ok = true → digestLength (s.obj.signAlgo &&& 0xF0) ≠ none))
      (fun s' => OnWire T Linked.se (Carries (hashPayload (s.obj.signAlgo &&& 0xF0) hash)) s s') := by
    have hnone : Meets (psoHashExternally T (s.obj.signAlgo &&& 0xF0) hash hashLen) s
        (fun ok _ => ok = true → digestLength (s.obj.signAlgo &&& 0xF0) ≠ none) (fun _ => True) := by
      unfold psoHashExternally
      cases digestLength (s.obj.signAlgo &&& 0xF0) with
      | none => exact .pure fun hfalse => by cases hfalse
      | some n => exact (Meets.trivial _ s).mono (fun _ _ _ _ heq => by cases heq) fun _ _ => trivial
    exact (((psoHashExternally_carries _ hash hashLen).meets s).and hnone).mono (fun _ _ h => h) fun _ h => h.1
  refine .bind hhash fun ok t hsent => .ite (fun hok => ?_) fun _ => .pure ⟨hsent.1, fun hfalse => by cases hfalse⟩
  exact ((psoComputeDigitalSignature_carries _ signature).meets_from hsent.1).mono
    (fun _ _ h => ⟨h, fun _ => hsent.2 hok⟩) fun _ h => h

theorem signInit_signAlgo (algorithm key : UInt8) (s : Linked σ Mias) :
    Meets (signInit T algorithm key) s (fun _ s' => s'.obj.signAlgo = algorithm) (fun _ => True) := by
  refine .modify_bind (.zoom ?_)
  exact (Meets.trivial _ _).mono (fun _ _ _ => rfl) fun _ _ => trivial

theorem command_scripted_log {s : SEInterface (List (Option (List UInt8)))} {rest : List (Option (List UInt8))}
    (h : s.card = some [0x90, 0x00] :: rest) (apdu : List UInt8) :
    (SEInterface.command scripted apdu 2 { s with apdu := apdu }).2.log =
      .answered apdu [0x90, 0x00] :: .exchange apdu (some [0x90, 0x00]) :: s.log := by
  rcases s with ⟨card, _, response, responseLen, log⟩
  subst h
  rfl

/-- A card that takes the digest has been sent it. -/
theorem signFinal_sends {s : Linked (List (Option (List UInt8))) Mias} {rest : List (Option (List UInt8))} {n : Nat}
    (hselected : s.obj.applet.isSelected = true) (hattached : s.obj.applet.attached = true)
    (hcard : s.se.card = some [0x90, 0x00] :: rest) (hn : digestLength (s.obj.signAlgo &&& 0xF0) = some n) (hash : Mem)
    (hashLen : Nat) (signature : Mem) (len : Nat) :
    ∃ later apdu answer, (signFinal scripted hash hashLen signature len 2 s).2.se.log =
      later ++ .exchange apdu answer :: s.se.log ∧ IsHash apdu := by
  have hsmall : n ≤ 64 := by
    unfold digestLength at hn
    split_ifs at hn <;> cases hn <;> decide
  have hpso : psoHashExternally scripted (s.obj.signAlgo &&& 0xF0) hash hashLen =
      ok (Applet.transmitCase4 scripted 0x00 .performSecurityOperation SCP1.PSOHashCode SCP2.PSOTemplateHash
        (SCTag.PSOHashExt :: lowByte n :: hash.slice 0 n) 0x00) := by
    rw [psoHashExternally, hn]
  -- what the digest command logs, and that nothing is taken back
  have hlog : ∃ apdu, (psoHashExternally scripted (s.obj.signAlgo &&& 0xF0) hash hashLen 2 s).2.se.log =
      .answered apdu [0x90, 0x00] :: .exchange apdu (some [0x90, 0x00]) :: s.se.log ∧ IsHash apdu := by
    have hdata : (⟨0x00, SCIns.performSecurityOperation.code, SCP1.PSOHashCode, SCP2.PSOTemplateHash,
        .case4 (SCTag.PSOHashExt :: lowByte n :: hash.slice 0 n) 0x00⟩ : Request).data.length ≤ 255 := by
      simp only [Request.data, List.length_cons, Mem.slice_length]
      omega
    have hsent := Applet.transmitRequest_log (T := scripted) (s := ⟨s.se, s.obj.applet⟩) hselected hattached hdata 2
    rw [hpso]
    refine ⟨_, ((congrArg (fun t => Linked.se t |>.log) (Applet.ok_state _ 2 ⟨s.se, s.obj.applet⟩)).trans hsent).trans
      (command_scripted_log hcard _), ?_⟩
    exact ⟨rfl, rfl, rfl⟩
  have hafter : OnWire scripted Linked.se (Carries none)
      (psoHashExternally scripted (s.obj.signAlgo &&& 0xF0) hash hashLen 2 s).2
      (signFinal scripted hash hashLen signature len 2 s).2 :=
    Stays.after (fun ok => .ite (psoComputeDigitalSignature_carries none signature) (.pure _)) 2 s
  obtain ⟨apdu, hfirst, hhash⟩ := hlog
  obtain ⟨later, hlater, _⟩ := hafter
  rw [hfirst] at hlater
  exact ⟨later ++ [.answered apdu [0x90, 0x00]], apdu, some [0x90, 0x00], by rw [hlater]; simp, hhash⟩

end Mias

namespace Sdk

/-- What a call may log: a PSO HASH has the caller's hash, all of it and nothing else, and for a length that is not that
of the digest there is none and the call fails. -/
structure DigestOnly (algorithm : UInt8) (hash : Mem) (hashLen : Int) (events : List Event) (success : Prop) : Prop where
  data : ∀ apdu answer, .exchange apdu answer ∈ events → IsHash apdu →
    ∃ n : Nat, (n : Int) = hashLen ∧ apdu.drop 5 = (SCTag.PSOHashExt :: lowByte n :: hash.slice 0 n) ++ [0x00]
  fails : (∀ n : Nat, (n : Int) = hashLen → Mias.digestLength (algorithm &&& 0xF0) ≠ some n) →
    (∀ apdu answer, .exchange apdu answer ∈ events → ¬IsHash apdu) ∧ ¬success

theorem digestOnly_of_carries {algorithm : UInt8} {hash : Mem} {hashLen : Int} {events : List Event} {success : Prop}
    (hlength : ∀ n : Nat, Mias.digestLength (algorithm &&& 0xF0) = some n → hashLen = n)
    (hevents : ∀ event ∈ events, Carries (Mias.hashPayload (algorithm &&& 0xF0) hash) event)
    (hsuccess : success → Mias.digestLength (algorithm &&& 0xF0) ≠ none) :
    DigestOnly algorithm hash hashLen events success := by
  have hsent : ∀ apdu answer, .exchange apdu answer ∈ events → IsHash apdu → ∃ n,
      Mias.digestLength (algorithm &&& 0xF0) = some n ∧
        apdu.drop 5 = (SCTag.PSOHashExt :: lowByte n :: hash.slice 0 n) ++ [0x00] := by
    intro apdu answer hmem hhash
    obtain ⟨bytes, hpayload, hdrop⟩ := hevents _ hmem hhash
    obtain ⟨n, hn, rfl⟩ := Option.map_eq_some_iff.mp hpayload
    exact ⟨n, hn, hdrop⟩
  constructor
  · intro apdu answer hmem hhash
    obtain ⟨n, hn, hdrop⟩ := hsent apdu answer hmem hhash
    exact ⟨n, (hlength n hn).symm, hdrop⟩
  · intro hdiffers
    have hnone : Mias.digestLength (algorithm &&& 0xF0) = none := by
      cases hdigest : Mias.digestLength (algorithm &&& 0xF0) with
      | none => rfl
      | some n => exact absurd hdigest (hdiffers n (hlength n hdigest).symm)
    refine ⟨fun apdu answer hmem hhash => ?_, fun hdone => hsuccess hdone hnone⟩
    obtain ⟨n, hn, _⟩ := hsent apdu answer hmem hhash
    rw [hnone] at hn
    cases hn

section Sign

variable {payload : Option (List UInt8)} {s : Sdk σ}

theorem wire_carries {α : Type} {program : Exec (Sdk σ) α}
    (h : Stays (OnWire T Sdk.se (Wire (· ≠ .performSecurityOperation) fun _ => True)) program) :
    Stays (OnWire T Sdk.se (Carries payload)) program :=
  h.mono fun _ _ hgrows => Grows.mono hgrows fun _ => carries_of_wire

/-- `tobSigningSign` between selection and deselection. -/
theorem signSelected_carries {start : Sdk σ} (algorithm : UInt8) (hash : Mem) (hashLen : Int) (signature : Mem) (len : Int)
    (pin : Option (List UInt8))
    (hstart : OnWire T Sdk.se (Carries (Mias.hashPayload (algorithm &&& 0xF0) hash)) start s) :
    Meets (signSelected T algorithm hash hashLen signature len pin) s
      (fun result s' => OnWire T Sdk.se (Carries (Mias.hashPayload (algorithm &&& 0xF0) hash)) start s' ∧
        (result.ret = 0 → Mias.digestLength (algorithm &&& 0xF0) ≠ none))
      (OnWire T Sdk.se (Carries (Mias.hashPayload (algorithm &&& 0xF0) hash)) start) := by
  have hbad : ERR_SE_BAD_KEY_NAME_ERROR ≠ 0 := by decide
  have hpin : ERR_SE_EF_VERIFY_PIN_ERROR ≠ 0 := by decide
  refine .bind ((wire_carries
    (onMias_wire (Mias.getKeyPairByContainerId_stays Mias.within_bears (by decide) (by decide) _))).meets_from
    hstart) fun found t hwire => ?_
  cases found with
  | none => exact .pure ⟨hwire, fun hret => absurd hret hbad⟩
  | some index =>
      refine .bind ((wire_carries (withStrlen_wire pin)).meets_from hwire) fun pin t hwire => ?_
      refine .bind ((wire_carries
        (onMias_wire (Mias.verifyPin_stays Mias.within_bears (by decide) trivial))).meets_from hwire) fun ok t hwire =>
        .ite (fun _ => .gets_bind ?_) fun _ => .pure ⟨hwire, fun hret => absurd hret hpin⟩
      have hinit : Meets (onMias (Mias.signInit T algorithm (t.mias.keypairs index).kid)) t
          (fun _ t' => OnWire T Sdk.se (Carries (Mias.hashPayload (algorithm &&& 0xF0) hash)) start t' ∧
            t'.mias.signAlgo = algorithm)
          (OnWire T Sdk.se (Carries (Mias.hashPayload (algorithm &&& 0xF0) hash)) start) := by
        have halgo : Meets (onMias (Mias.signInit T algorithm (t.mias.keypairs index).kid)) t
            (fun _ t' => t'.mias.signAlgo = algorithm) (fun _ => True) :=
          .zoom ((Mias.signInit_signAlgo algorithm _ _).mono (fun _ _ h => h) fun _ h => h)
        exact (((wire_carries
            (onMias_wire (Mias.signInit_stays Mias.within_bears (by decide) _ _))).meets_from hwire).and halgo).mono
          (fun _ _ h => h) fun _ h => h.1
      refine .bind hinit fun ok u hu => .ite (fun _ => ?_) fun _ => .pure ⟨hu.1, fun hret => absurd hret hbad⟩
      have hfinal : Meets (onMias (Mias.signFinal T hash (toUInt16 hashLen) signature 0)) u
          (fun fetched u' => OnWire T Sdk.se (Carries (Mias.hashPayload (algorithm &&& 0xF0) hash)) start u' ∧
            (fetched.ok = true → Mias.digestLength (algorithm &&& 0xF0) ≠ none))
          (OnWire T Sdk.se (Carries (Mias.hashPayload (algorithm &&& 0xF0) hash)) start) := by
        have hcarries := Mias.signFinal_carries (T := T) hash (toUInt16 hashLen) signature 0 (miasLens.get u)
        have halgo : (miasLens.get u).obj.signAlgo = algorithm := hu.2
        have hfrom : ∀ t, OnWire T Linked.se (Carries (Mias.hashPayload (algorithm &&& 0xF0) hash)) (miasLens.get u) t →
            OnWire T Sdk.se (Carries (Mias.hashPayload (algorithm &&& 0xF0) hash)) start (miasLens.set t u) := by
          intro t h
          have hstep : OnWire T Sdk.se (Carries (Mias.hashPayload (algorithm &&& 0xF0) hash)) u (miasLens.set t u) := h
          exact Trans.trans hu.1 hstep
        rw [halgo] at hcarries
        exact .zoom (hcarries.mono (fun _ t h => ⟨hfrom t h.1, h.2⟩) hfrom)
      refine .bind hfinal fun fetched u' hsent => .ite (fun hok => ?_) fun _ =>
        .pure ⟨hsent.1, fun hret => absurd hret hbad⟩
      exact .pure ⟨hsent.1, fun _ => hsent.2 hok⟩

/-- What `tobSigningSign` signs is decided by the algorithm. -/
theorem tobSigningSign_carries (algorithm : UInt8) (hash : Mem) (hashLen : Int) (signature : Mem) (len : Int)
    (pin : Option (List UInt8)) (s : Sdk σ) :
    Meets (tobSigningSign T algorithm hash hashLen signature len pin) s
      (fun result s' => OnWire T Sdk.se (Carries (Mias.hashPayload (algorithm &&& 0xF0) hash)) s s' ∧
        (result.ret = 0 → Mias.digestLength (algorithm &&& 0xF0) ≠ none))
      (OnWire T Sdk.se (Carries (Mias.hashPayload (algorithm &&& 0xF0) hash)) s) := by
  have hbad : ERR_SE_BAD_KEY_NAME_ERROR ≠ 0 := by decide
  have hend : ∀ (result : Extract) (t : Sdk σ),
      OnWire T Sdk.se (Carries (Mias.hashPayload (algorithm &&& 0xF0) hash)) s t ∧
        (result.ret = 0 → Mias.digestLength (algorithm &&& 0xF0) ≠ none) →
      Meets (do let _ ← deselectMias T; return result) t
        (fun result s' => OnWire T Sdk.se (Carries (Mias.hashPayload (algorithm &&& 0xF0) hash)) s s' ∧
          (result.ret = 0 → Mias.digestLength (algorithm &&& 0xF0) ≠ none))
        (OnWire T Sdk.se (Carries (Mias.hashPayload (algorithm &&& 0xF0) hash)) s) := fun result t hsent =>
    .bind ((wire_carries (deselectMias_wire (by decide) fun _ _ => trivial)).meets_from hsent.1) fun _ _ hend =>
      .pure ⟨hend, hsent.2⟩
  refine .bind ((wire_carries (selectMias_wire (by decide) (by decide) fun _ _ => trivial)).meets s)
    fun selected t hwire => .ite (fun _ => ?_) fun _ => ?_
  · exact .bind (signSelected_carries algorithm hash hashLen signature len pin hwire) hend
  · exact .bind (.pure ⟨hwire, fun hret => absurd hret hbad⟩) hend

end Sign

/-! ### A card that takes the digest -/

/-- The channel is opened, the applet selected, container 0 is an RSA key of 1024 bits, and everything is accepted. -/
def signing : List (Option (List UInt8)) :=
  [some [0x01, 0x90, 0x00], some [0x90, 0x00], some [0x62, 0x04, 0x81, 0x02, 0x00, 0x0B, 0x90, 0x00],
    some [0x01, 0x00, 0x00, 0x00, 0x04, 0x00, 0x00, 0x00, 0x00, 0x00, 0x00, 0x90, 0x00], some [0x6A, 0x82],
    some [0x90, 0x00], some [0x90, 0x00], some [0x90, 0x00], some [0x90, 0x00]]

/-- The session on that card behind the selection, the look-up of the key pair, the PIN and `signInit`. -/
def selected : Sdk (List (Option (List UInt8))) := (selectMias scripted 2 (sessionOn signing)).2

def located : Sdk (List (Option (List UInt8))) :=
  (onMias (Mias.getKeyPairByContainerId scripted signingContainerId) 2 selected).2

def verified : Sdk (List (Option (List UInt8))) := (onMias (Mias.verifyPin scripted (cstr "1234")) 2 located).2

def initialised (algorithm : UInt8) : Sdk (List (Option (List UInt8))) :=
  (onMias (Mias.signInit scripted algorithm (verified.mias.keypairs 0).kid) 2 verified).2

theorem signInit_verified : ∀ algorithm : UInt8,
    (onMias (Mias.signInit scripted algorithm (verified.mias.keypairs 0).kid) 2 verified).1 = .done true :=
  forall_byte (by decide +kernel)

/-- What `signSelected` returns for what `signFinal` fetched. -/
def reported (len : Int) (fetched : Mias.Fetched) : Exec (Sdk σ) Extract :=
  if fetched.ok then return ⟨0, fetched.out, fetched.len⟩ else return ⟨ERR_SE_BAD_KEY_NAME_ERROR, fetched.out, len⟩

theorem signSelected_signing (algorithm : UInt8) (hash : Mem) (hashLen : Int) (signature : Mem) (len : Int) :
    signSelected scripted algorithm hash hashLen signature len (some (cstr "1234")) 2 selected =
      (onMias (Mias.signFinal scripted hash (toUInt16 hashLen) signature 0) >>= reported len) 2
        (initialised algorithm) := by
  have hpair : onMias (Mias.getKeyPairByContainerId scripted signingContainerId) 2 selected =
      (.done (some 0), located) := rfl
  have hstrlen : withStrlen (some (cstr "1234")) 2 located = (.done (cstr "1234"), located) := rfl
  have hpin : onMias (Mias.verifyPin scripted (cstr "1234")) 2 located = (.done true, verified) := rfl
  have hinit : onMias (Mias.signInit scripted algorithm (verified.mias.keypairs 0).kid) 2 verified =
      (.done true, initialised algorithm) := Prod.ext (signInit_verified algorithm) rfl
  -- only what each step returned is used from here on
  generalize initialised algorithm = initialised at *
  generalize verified = verified at *
  generalize located = located at *
  rw [signSelected, bind_done hpair]
  refine (bind_done hstrlen).trans ((bind_done hpin).trans ?_)
  exact bind_done hinit

/-- The call on that card sends a PSO HASH for every algorithm that has a digest. -/
theorem tobSigningSign_sends {algorithm : UInt8} {n : Nat} (hn : Mias.digestLength (algorithm &&& 0xF0) = some n)
    (hash : Mem)
    (hashLen : Int) (signature : Mem) (len : Int) : ∃ later apdu answer earlier,
      (tobSigningSign scripted algorithm hash hashLen signature len (some (cstr "1234")) 2 (sessionOn signing)).2.se.log =
        later ++ .exchange apdu answer :: earlier ∧ IsHash apdu := by
  have hcard : (miasLens.get (initialised algorithm)).se.card = some [0x90, 0x00] :: [some [0x90, 0x00]] := rfl
  have halgo : (miasLens.get (initialised algorithm)).obj.signAlgo = algorithm := rfl
  rw [← halgo] at hn
  obtain ⟨later, apdu, answer, hlog, hhash⟩ := Mias.signFinal_sends rfl rfl hcard hn hash (toUInt16 hashLen) signature 0
  have hselect : selectMias scripted 2 (sessionOn signing) = (.done true, selected) := rfl
  have hreport : OnWire scripted Sdk.se (Wire (· ≠ .performSecurityOperation) fun _ => True)
      (onMias (Mias.signFinal scripted hash (toUInt16 hashLen) signature 0) 2 (initialised algorithm)).2
      (signSelected scripted algorithm hash hashLen signature len (some (cstr "1234")) 2 selected).2 := by
    rw [signSelected_signing]
    exact Stays.after (fun fetched => .ite (.pure _) (.pure _)) 2 (initialised algorithm)
  have hdeselect : OnWire scripted Sdk.se (Wire (· ≠ .performSecurityOperation) fun _ => True)
      (signSelected scripted algorithm hash hashLen signature len (some (cstr "1234")) 2 selected).2
      (tobSigningSign scripted algorithm hash hashLen signature len (some (cstr "1234")) 2 (sessionOn signing)).2 := by
    rw [tobSigningSign, guarded, bind_done hselect]
    generalize selected = selected
    exact Stays.after (fun result => .bind (deselectMias_wire (by decide) fun _ _ => trivial) fun _ =>
      .pure _) 2 selected
  obtain ⟨events, hevents, _⟩ := Trans.trans hreport hdeselect
  have hsent : (onMias (Mias.signFinal scripted hash (toUInt16 hashLen) signature 0) 2
      (initialised algorithm)).2.se.log =
      later ++ .exchange apdu answer :: (initialised algorithm).se.log := hlog
  rw [hsent] at hevents
  exact ⟨events ++ later, apdu, answer, _, by rw [hevents, List.append_assoc], hhash⟩

/-- `tobSigningSign` sends the caller's digest only, whatever the card, the PIN and the state of the session. -/
def SignsDigestOnly (algorithm : UInt8) (hash : Mem) (hashLen : Int) : Prop :=
  ∀ (σ : Type) (T : Transport σ) (signature : Mem) (len : Int) (pin : Option (List UInt8)) (fuel : Nat) (s : Sdk σ),
    ∃ events, (tobSigningSign T algorithm hash hashLen signature len pin fuel s).2.se.log = events ++ s.se.log ∧
      DigestOnly algorithm hash hashLen events
        (∃ result, (tobSigningSign T algorithm hash hashLen signature len pin fuel s).1 = .done result ∧ result.ret = 0)

/-- `MIAS::signFinal` does, after `signInit` has stored the algorithm. -/
def FinalDigestOnly (algorithm : UInt8) (hash : Mem) (hashLen : Nat) : Prop :=
  ∀ (σ : Type) (T : Transport σ) (signature : Mem) (len fuel : Nat) (s : Linked σ Mias), s.obj.signAlgo = algorithm →
    ∃ events, (Mias.signFinal T hash hashLen signature len fuel s).2.se.log = events ++ s.se.log ∧
      DigestOnly algorithm hash hashLen events
        (∃ fetched, (Mias.signFinal T hash hashLen signature len fuel s).1 = .done fetched ∧ fetched.ok = true)

theorem signsDigestOnly_of_length {algorithm : UInt8} {hashLen : Int}
    (hlength : ∀ n : Nat, Mias.digestLength (algorithm &&& 0xF0) = some n → hashLen = n) (hash : Mem) :
    SignsDigestOnly algorithm hash hashLen := by
  intro σ T signature len pin fuel s
  obtain ⟨⟨events, hlog, _, hevents⟩, hsuccess⟩ :=
    (tobSigningSign_carries (T := T) algorithm hash hashLen signature len pin s).run fuel
  exact ⟨events, hlog, digestOnly_of_carries hlength hevents hsuccess⟩

theorem finalDigestOnly_of_length {algorithm : UInt8} {hashLen : Nat}
    (hlength : ∀ n : Nat, Mias.digestLength (algorithm &&& 0xF0) = some n → (hashLen : Int) = n) (hash : Mem) :
    FinalDigestOnly algorithm hash hashLen := by
  intro σ T signature len fuel s halgo
  have hcarries := Mias.signFinal_carries (T := T) hash hashLen signature len s
  rw [halgo] at hcarries
  obtain ⟨⟨events, hlog, _, hevents⟩, hsuccess⟩ := hcarries.run fuel
  exact ⟨events, hlog, digestOnly_of_carries hlength hevents hsuccess⟩

/-- A log with a PSO HASH allows no other length. -/
theorem DigestOnly.length_eq {algorithm : UInt8} {hash : Mem} {hashLen : Int} {events : List Event} {success : Prop}
    (h : DigestOnly algorithm hash hashLen events success) {apdu : List UInt8} {answer : Option (List UInt8)}
    (hmem : .exchange apdu answer ∈ events) (hhash : IsHash apdu) {n : Nat}
    (hn : Mias.digestLength (algorithm &&& 0xF0) = some n) : hashLen = n := by
  by_contra hne
  refine (h.fails fun m hm hdigest => hne ?_).1 apdu answer hmem hhash
  rw [hn] at hdigest
  cases hdigest
  exact hm.symm

theorem length_eq_of_signsDigestOnly {algorithm : UInt8} {hash : Mem} {hashLen : Int}
    (h : SignsDigestOnly algorithm hash hashLen) {n : Nat} (hn : Mias.digestLength (algorithm &&& 0xF0) = some n) :
    hashLen = n := by
  obtain ⟨events, hlog, honly⟩ := h _ scripted Mem.zero 0 (some (cstr "1234")) 2 (sessionOn signing)
  obtain ⟨later, apdu, answer, earlier, hsent, hhash⟩ := tobSigningSign_sends hn hash hashLen Mem.zero 0
  have hnil : (sessionOn signing).se.log = [] := rfl
  have hevents : events = later ++ .exchange apdu answer :: earlier := by
    rw [← hsent, hlog, hnil, List.append_nil]
  have hmem : .exchange apdu answer ∈ events := by
    rw [hevents]
    exact List.mem_append_right later List.mem_cons_self
  exact honly.length_eq hmem hhash hn

theorem length_eq_of_finalDigestOnly {algorithm : UInt8} {hash : Mem} {hashLen : Nat}
    (h : FinalDigestOnly algorithm hash hashLen) {n : Nat} (hn : Mias.digestLength (algorithm &&& 0xF0) = some n) :
    (hashLen : Int) = n := by
  have halgo : (miasLens.get (initialised algorithm)).obj.signAlgo = algorithm := rfl
  have hcard : (miasLens.get (initialised algorithm)).se.card = some [0x90, 0x00] :: [some [0x90, 0x00]] := rfl
  obtain ⟨events, hlog, honly⟩ := h _ scripted Mem.zero 0 2 (miasLens.get (initialised algorithm)) halgo
  obtain ⟨later, apdu, answer, hsent, hhash⟩ :=
    Mias.signFinal_sends rfl rfl hcard (halgo.symm ▸ hn) hash hashLen Mem.zero 0
  have hevents : later ++ [.exchange apdu answer] = events := by
    apply List.append_cancel_right
    rw [← hlog, hsent, List.append_assoc]
    rfl
  have hmem : .exchange apdu answer ∈ events := by
    rw [← hevents]
    exact List.mem_append_right later List.mem_cons_self
  exact honly.length_eq hmem hhash hn

/-- The caller's digest and nothing else is signed exactly if the caller's length is the one that the algorithm
implies. -/
theorem digest_only_iff (algorithm : UInt8) (hash : Mem) :
    (∀ hashLen : Int, SignsDigestOnly algorithm hash hashLen ↔
      ∀ n : Nat, Mias.digestLength (algorithm &&& 0xF0) = some n → hashLen = n) ∧
    (∀ hashLen : Nat, FinalDigestOnly algorithm hash hashLen ↔
      ∀ n : Nat, Mias.digestLength (algorithm &&& 0xF0) = some n → hashLen = n) := by
  constructor
  · intro hashLen
    exact ⟨fun h n hn => length_eq_of_signsDigestOnly h hn, fun h => signsDigestOnly_of_length h hash⟩
  · intro hashLen
    constructor
    · intro h n hn
      exact_mod_cast length_eq_of_finalDigestOnly h hn
    · intro h
      exact finalDigestOnly_of_length (fun n hn => by exact_mod_cast h n hn) hash

/-- Twenty bytes under SHA-256 with PKCS 1 padding: thirty-two are sent and signed. -/
theorem digest_overrun : ¬SignsDigestOnly 0x42 Mem.zero 20 := by
  intro h
  have hlength := length_eq_of_signsDigestOnly h (n := 32) (by decide)
  exact absurd hlength (by decide)

end Sdk

end TrustOnboard
