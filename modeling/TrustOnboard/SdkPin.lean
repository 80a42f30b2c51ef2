import TrustOnboard.SdkTrace

/-! A wrong PIN costs one try. Within one call, no sensitive command follows a VERIFY that was
rejected: `PinSafe` says so of the part of the log that a call writes, and is proved along the
program from two facts: only the PIN functions send VERIFY, and after they fail only MANAGE CHANNEL
and what follows it up is sent. -/

namespace TrustOnboard.Sdk

open Exec Linked SEInterface

/-! ### Rejected PINs in a log -/

/-- A VERIFY on the wire that was left unanswered, or answered with a status word other than `9000`,
`6Cxx` and `61xx`. -/
def rejectedVerify : Event → Bool
  | .exchange apdu none => insOf apdu = SCIns.verify.code
  | .exchange apdu (some answer) =>
      insOf apdu = SCIns.verify.code ∧ statusWord answer ≠ swOK ∧ statusWord answer / 256 ≠ 0x6C ∧
        statusWord answer / 256 ≠ 0x61
  | _ => false

def sensitiveIns : List SCIns :=
  [.verify, .manageSecurityEnvironment, .performSecurityOperation, .readBinary]

/-- A VERIFY, MANAGE SECURITY ENVIRONMENT, PERFORM SECURITY OPERATION or READ BINARY on the wire. -/
def sensitive : Event → Bool
  | .exchange apdu _ => sensitiveIns.any fun i => i.code = insOf apdu
  | _ => false

def Calm (events : List Event) : Prop := ∀ event ∈ events, rejectedVerify event = false

def Quiet (events : List Event) : Prop := ∀ event ∈ events, sensitive event = false

/-- No sensitive command comes after a rejected VERIFY. The newest event is the first. -/
def PinSafe : List Event → Prop
  | [] => True
  | event :: earlier => (sensitive event = true → Calm earlier) ∧ PinSafe earlier

theorem Calm.append {first second : List Event} (h : Calm first) (h' : Calm second) :
    Calm (second ++ first) := by
  intro event hmem
  rcases List.mem_append.mp hmem with hmem | hmem
  · exact h' event hmem
  · exact h event hmem

theorem Calm.pinSafe {events : List Event} (h : Calm events) : PinSafe events := by
  induction events with
  | nil => trivial
  | cons event earlier ih =>
      have hearlier : Calm earlier := fun other hmem => h other (.tail _ hmem)
      exact ⟨fun _ => hearlier, ih hearlier⟩

theorem PinSafe.after_calm {first second : List Event} (h : Calm first) (h' : PinSafe second) :
    PinSafe (second ++ first) := by
  induction second with
  | nil => exact h.pinSafe
  | cons event second ih => exact ⟨fun hsensitive => h.append (h'.1 hsensitive), ih h'.2⟩

theorem PinSafe.before_quiet {first second : List Event} (h : PinSafe first) (h' : Quiet second) :
    PinSafe (second ++ first) := by
  induction second with
  | nil => exact h
  | cons event second ih =>
      refine ⟨fun hsensitive => ?_, ih fun other hmem => h' other (.tail _ hmem)⟩
      rw [h' event (.head _)] at hsensitive
      cases hsensitive

theorem sensitive_of_rejected {event : Event} (h : rejectedVerify event = true) : sensitive event = true := by
  cases event with
  | exchange apdu answer =>
      have hins : insOf apdu = SCIns.verify.code := by
        cases answer with
        | none => exact of_decide_eq_true h
        | some answer => exact (of_decide_eq_true h).1
      simp [sensitive, sensitiveIns, hins]
  | answered => cases h
  | unanswered => cases h
  | note => cases h

theorem countP_of_calm {events : List Event} (h : Calm events) : events.countP rejectedVerify = 0 := by
  rw [List.countP_eq_zero]
  intro event hmem
  rw [h event hmem]
  exact Bool.false_ne_true

/-- The two halves of what a call promises, read off `PinSafe`. -/
theorem PinSafe.countP_le {events : List Event} (h : PinSafe events) : events.countP rejectedVerify ≤ 1 := by
  induction events with
  | nil => exact Nat.zero_le _
  | cons event earlier ih =>
      rw [List.countP_cons]
      split
      · next hrejected =>
          have hzero := countP_of_calm (h.1 (sensitive_of_rejected hrejected))
          omega
      · exact ih h.2

theorem PinSafe.split {later earlier : List Event} {event : Event}
    (h : PinSafe (later ++ event :: earlier)) (hrejected : rejectedVerify event = true) : Quiet later := by
  induction later with
  | nil =>
      intro other hmem
      cases hmem
  | cons other later ih =>
      have hother : sensitive other = false := by
        by_contra hsensitive
        rw [Bool.not_eq_false] at hsensitive
        have hcalm := h.1 hsensitive event (by simp)
        rw [hcalm] at hrejected
        cases hrejected
      intro last hmem
      rcases List.mem_cons.mp hmem with rfl | hmem
      · exact hother
      · exact ih h.2 last hmem

/-! ### Kinds of events -/

theorem rejectedVerify_of_wire {notes : Note → Prop} {event : Event} (h : Wire (· ≠ .verify) notes event) :
    rejectedVerify event = false := by
  obtain ⟨channel, hevent⟩ := h
  cases event with
  | exchange apdu answer =>
      have hins : insOf apdu ≠ SCIns.verify.code := by
        rcases hevent.exchange_ins with ⟨_, i, _, hi, hins, _⟩ | hins
        · rw [hins]
          cases i <;> first | exact absurd rfl hi | decide
        · rw [hins]
          decide
      cases answer with
      | none => exact decide_eq_false hins
      | some answer => exact decide_eq_false fun h => hins h.1
  | answered => rfl
  | unanswered => rfl
  | note => rfl

theorem sensitive_of_wire {notes : Note → Prop} {event : Event}
    (h : Wire (· ∉ sensitiveIns) notes event) : sensitive event = false := by
  obtain ⟨channel, hevent⟩ := h
  cases event with
  | exchange apdu answer =>
      rcases hevent.exchange_ins with ⟨_, i, _, hi, hins, _⟩ | hins
      · rw [sensitive, hins]
        cases i <;> first | exact absurd (by decide) hi | decide
      · rw [sensitive, hins]
        decide
  | answered => rfl
  | unanswered => rfl
  | note => rfl

theorem rejectedVerify_of_followedUp {command : List UInt8} {event : Event}
    (h : SEInterface.FollowedUp command event) : rejectedVerify event = false := by
  obtain ⟨apdu, answer, rfl, _, hlen, hfirst⟩ := h
  have hhigh : statusWord answer / 256 = (answer.getD 0 0).toNat := by
    have hlow := (answer.getD 1 0).toNat_lt
    rw [statusWord, if_pos (by omega), hlen]
    change ((answer.getD 0 0).toNat * 256 + (answer.getD 1 0).toNat) / 256 = _
    omega
  refine decide_eq_false ?_
  rintro ⟨_, _, h6C, h61⟩
  rw [hhigh] at h6C h61
  rcases hfirst with hfirst | hfirst
  · exact h6C (by rw [hfirst]; rfl)
  · exact h61 (by rw [hfirst]; rfl)

/-! ### One call -/

variable {σ : Type} {T : Transport σ} {base : List Event} {s : Sdk σ}

/-- Since the log was `base`, no VERIFY was rejected. -/
def CalmSince (base : List Event) (s : Sdk σ) : Prop :=
  ∃ events, s.se.log = events ++ base ∧ Calm events

def SafeSince (base : List Event) (s : Sdk σ) : Prop :=
  ∃ events, s.se.log = events ++ base ∧ PinSafe events

/-- What holds when a reader has returned: the code that makes the caller try the legacy label is
only returned if no VERIFY was rejected. -/
def PinPost (base : List Event) (ret : Int) (s : Sdk σ) : Prop :=
  SafeSince base s ∧ (ret = ERR_SE_MIAS_READ_OBJECT_ERROR → CalmSince base s)

theorem CalmSince.safe (h : CalmSince base s) : SafeSince base s := by
  obtain ⟨events, hlog, hcalm⟩ := h
  exact ⟨events, hlog, hcalm.pinSafe⟩

theorem CalmSince.post (h : CalmSince base s) (ret : Int) : PinPost base ret s := ⟨h.safe, fun _ => h⟩

theorem CalmSince.grows {s' : Sdk σ} (h : CalmSince base s)
    (hgrows : OnWire T Sdk.se (Wire (· ≠ .verify) fun _ => True) s s') : CalmSince base s' := by
  obtain ⟨events, hlog, hcalm⟩ := h
  obtain ⟨more, hlog', _, hkind⟩ := hgrows
  refine ⟨more ++ events, ?_, hcalm.append fun event hmem => rejectedVerify_of_wire (hkind event hmem)⟩
  rw [hlog', hlog, List.append_assoc]

theorem SafeSince.grows {s' : Sdk σ} (h : SafeSince base s)
    (hgrows : OnWire T Sdk.se (Wire (· ∉ sensitiveIns) fun _ => True) s s') : SafeSince base s' := by
  obtain ⟨events, hlog, hsafe⟩ := h
  obtain ⟨more, hlog', _, hkind⟩ := hgrows
  refine ⟨more ++ events, ?_, hsafe.before_quiet fun event hmem => sensitive_of_wire (hkind event hmem)⟩
  rw [hlog', hlog, List.append_assoc]

/-- A program that never sends VERIFY keeps the log calm. -/
theorem calm_meets {α : Type} {program : Exec (Sdk σ) α} (h : CalmSince base s)
    (hprogram : Stays (OnWire T Sdk.se (Wire (· ≠ .verify) fun _ => True)) program) :
    Meets program s (fun _ s' => CalmSince base s') (SafeSince base) :=
  (hprogram.meets s).mono (fun _ _ hgrows => h.grows hgrows) fun _ hgrows => (h.grows hgrows).safe

/-- A program that sends nothing sensitive keeps what a reader has promised. -/
theorem quiet_meets {α : Type} {program : Exec (Sdk σ) α} {ret : Int} (h : PinPost base ret s)
    (hprogram : Stays (OnWire T Sdk.se (Wire (· ∉ sensitiveIns) fun _ => True)) program) :
    Meets program s (fun _ s' => PinPost base ret s') (SafeSince base) := by
  refine (hprogram.meets s).mono (fun _ s' hgrows => ⟨h.1.grows hgrows, fun hret => ?_⟩) fun _ hgrows =>
    h.1.grows hgrows
  refine (h.2 hret).grows (hgrows.mono ?_)
  rintro event ⟨channel, hevent⟩
  refine ⟨channel, hevent.mono ?_ (fun _ h => h)⟩
  rintro i hi rfl
  exact hi (by decide)

theorem pin_error_ne : ERR_SE_EF_VERIFY_PIN_ERROR ≠ ERR_SE_MIAS_READ_OBJECT_ERROR := by decide

theorem deselect_ins : SCIns.manageChannel ∉ sensitiveIns := by decide

/-- Only the last exchange of a VERIFY command can be a rejection. -/
theorem verify_meets {apdu : List UInt8} {transmitted : UInt8 → Exec (SEInterface σ) Bool} {cla : UInt8}
    {t : Linked σ Applet} (h : Transmits T apdu (transmitted (cla ||| t.obj.channel))) :
    Meets (Applet.ok (Applet.whenSelected cla transmitted)) t
      (fun ok t' => ∃ events, t'.se.log = events ++ t.se.log ∧ PinSafe events ∧ (ok = true → Calm events))
      (fun t' => ∃ events, t'.se.log = events ++ t.se.log ∧ PinSafe events) := by
  have hcalm : ∀ next events, Chain apdu next events → Calm events :=
    fun next events hchain event hmem => rejectedVerify_of_followedUp (hchain.followedUp event hmem)
  refine (Applet.ok_meets h).mono ?_ ?_
  · rintro ok t' ⟨_, ⟨rfl, rfl, _⟩ | ⟨_, result, events, hran, rfl⟩⟩
    · exact ⟨[], rfl, trivial, fun h => by cases h⟩
    · refine ⟨events, hran.log_eq, ?_⟩
      obtain ⟨last, earlier, hchain, hevents⟩ := hran.ended
      have hearlier := hcalm last earlier hchain
      cases result with
      | none =>
          rw [hevents]
          exact ⟨⟨fun h => (by cases h), fun _ => hearlier, (hearlier).pinSafe⟩,
            fun h => by cases h⟩
      | some answer =>
          rw [hevents.2]
          refine ⟨⟨fun h => (by cases h), fun _ => hearlier,
            (hearlier).pinSafe⟩, fun hok => ?_⟩
          have hsw : statusWord answer = swOK := of_decide_eq_true hok
          intro event hmem
          rcases List.mem_cons.mp hmem with rfl | hmem
          · rfl
          rcases List.mem_cons.mp hmem with rfl | hmem
          · exact decide_eq_false fun h => h.2.1 hsw
          · exact hearlier event hmem
  · rintro t' ⟨_, events, hunderway, hlog, _⟩
    refine ⟨events, hlog, ?_⟩
    cases hunderway with
    | waiting hchain => exact (hcalm _ _ hchain).pinSafe
    | last answer hchain => exact ⟨fun _ => hcalm _ _ hchain, (hcalm _ _ hchain).pinSafe⟩

/-- The same seen from an earlier log without a rejected VERIFY. -/
theorem verify_since (hcalm : CalmSince base s) {apdu : List UInt8}
    {transmitted : UInt8 → Exec (SEInterface σ) Bool} {cla : UInt8} {t : Linked σ Applet} (hse : t.se = s.se)
    (h : Transmits T apdu (transmitted (cla ||| t.obj.channel))) :
    Meets (Applet.ok (Applet.whenSelected cla transmitted)) t
      (fun ok t' => (∃ events, t'.se.log = events ++ base ∧ PinSafe events) ∧
        (ok = true → ∃ events, t'.se.log = events ++ base ∧ Calm events))
      (fun t' => ∃ events, t'.se.log = events ++ base ∧ PinSafe events) := by
  obtain ⟨first, hfirst, hcalm⟩ := hcalm
  have hmore : ∀ events, events ++ t.se.log = (events ++ first) ++ base := by
    intro events
    rw [hse, hfirst, List.append_assoc]
  refine (verify_meets h).mono ?_ ?_
  · rintro ok t' ⟨events, hlog, hsafe, hok⟩
    rw [hmore] at hlog
    exact ⟨⟨_, hlog, hsafe.after_calm hcalm⟩, fun htrue => ⟨_, hlog, hcalm.append (hok htrue)⟩⟩
  · rintro t' ⟨events, hlog, hsafe⟩
    rw [hmore] at hlog
    exact ⟨_, hlog, hsafe.after_calm hcalm⟩

theorem miasVerifyPin_meets (h : CalmSince base s) (pin : List UInt8) :
    Meets (onMias (Mias.verifyPin T pin)) s
      (fun ok s' => SafeSince base s' ∧ (ok = true → CalmSince base s')) (SafeSince base) :=
  .zoom (.zoom (verify_since h rfl (fill_transmits (command_transmits T _))))

theorem mfVerifyPin_meets (h : CalmSince base s) (pin : List UInt8) :
    Meets (onMF (MF.verifyPin T pin)) s
      (fun ok s' => SafeSince base s' ∧ (ok = true → CalmSince base s')) (SafeSince base) := by
  refine .zoom (.ite (fun _ => .pure ⟨h.safe, fun h => by cases h⟩) fun _ => ?_)
  exact verify_since h rfl (fill_transmits (command_transmits T _))

/-! The functions of the SDK, each from a log without a rejected VERIFY. -/

theorem seReadEf_meets (h : CalmSince base s) (locals : Locals) (efname : List UInt8) (data : Option Mem)
    (size : Int) (pin : Option (List UInt8)) :
    Meets (seReadEf T locals efname data size pin) s (fun r s' => PinPost base r.ret s') (SafeSince base) := by
  refine .ite (fun _ => .pure (h.post _)) fun _ => ?_
  have hselected : Meets (seReadEfSelected T locals efname data pin) s
      (fun r s' => PinPost base r.ret s') (SafeSince base) := by
    refine .bind (calm_meets h (onMF_onWire (Applet.select_onWire (by decide) (by decide)
      (fun _ _ => trivial) false))) fun selected t hcalm => .ite (fun _ => ?_) fun _ => .pure (hcalm.post _)
    refine .bind (calm_meets (T := T) hcalm (withStrlen_wire pin)) fun pin t hcalm => ?_
    refine .bind (mfVerifyPin_meets hcalm pin) fun ok t hverify => .ite (fun hok => ?_) fun _ => ?_
    · refine .bind (calm_meets (hverify.2 hok) (onMF_wire (MF.readEF_within (by decide) (by decide) _ _ _)))
        fun read t hcalm => ?_
      exact .ite (fun _ => .pure (hcalm.post _)) fun _ => .pure (hcalm.post _)
    · exact .pure ⟨hverify.1, fun hret => absurd hret pin_error_ne⟩
  refine .bind hselected fun result t hpost => .bind (quiet_meets hpost (onMF_onWire
    (Applet.deselect_onWire deselect_ins fun _ _ => trivial))) fun _ t hpost => .pure hpost

theorem seReadObject_meets (h : CalmSince base s) (locals : Locals) (path : List UInt8) (obj : Option Mem)
    (size : Int) (pin : Option (List UInt8)) :
    Meets (seReadObject T locals path obj size pin) s (fun r s' => PinPost base r.ret s') (SafeSince base) := by
  refine .ite (fun _ => .pure (h.post _)) fun _ => ?_
  exact .bind (calm_meets (T := T) h (.isolated _ _)) fun efname t hcalm => seReadEf_meets hcalm _ _ _ _ _

theorem seP11ReadObject_meets (h : CalmSince base s) (locals : Locals) (label : List UInt8)
    (obj : Option Mem) (size : Int) (pin : Option (List UInt8)) :
    Meets (seP11ReadObject T locals label obj size pin) s (fun r s' => PinPost base r.ret s')
      (SafeSince base) := by
  have hselected : Meets (seP11ReadSelected T locals label obj size pin) s
      (fun r s' => PinPost base r.ret s') (SafeSince base) := by
    refine .bind (calm_meets h (selectMias_wire (by decide) (by decide) fun _ _ => trivial))
      fun selected t hcalm => .ite (fun _ => ?_) fun _ => .pure (hcalm.post _)
    refine .bind (calm_meets (T := T) hcalm (withStrlen_wire pin)) fun pin t hcalm => ?_
    refine .bind (miasVerifyPin_meets hcalm pin) fun ok t hverify => .ite (fun hok => ?_) fun _ => ?_
    · refine .bind (calm_meets (T := T) (hverify.2 hok) (withStrlen_wire (some label)))
        fun label t hcalm => ?_
      have hlookup : Stays (Within T Mias.applet (· ≠ .verify) fun _ => True)
          (Mias.p11GetObjectByLabel T locals.p11 label obj) := by
        refine .bind (note_within trivial) fun _ =>
          .bind (Mias.p11Lookup_stays Mias.within_bears (by decide) (by decide)
            (fun _ _ => trivial) _ _ _) fun fetched => ?_
        exact .bind (note_within trivial) fun _ => .pure _
      refine .bind (calm_meets hcalm (onMias_wire hlookup)) fun fetched t hcalm => ?_
      exact .ite (fun _ => .pure (hcalm.post _)) fun _ => .pure (hcalm.post _)
    · exact .pure ⟨hverify.1, fun hret => absurd hret pin_error_ne⟩
  refine .bind hselected fun result t hpost => .bind (quiet_meets hpost
    (deselectMias_wire deselect_ins fun _ _ => trivial)) fun _ t hpost => .pure hpost

theorem tobX509CrtExtractSe_meets (h : CalmSince base s) (locals : Locals) (cert : Option Mem) (size : Int)
    (path : List UInt8) (pin : Option (List UInt8)) :
    Meets (tobX509CrtExtractSe T locals cert size path pin) s (fun r s' => PinPost base r.ret s')
      (SafeSince base) := by
  refine .ite (fun _ => seReadObject_meets h _ _ _ _ _) fun _ => ?_
  refine .ite (fun _ => seP11ReadObject_meets h _ _ _ _ _) fun _ => ?_
  refine .ite (fun _ => ?_) fun _ => .pure (h.post _)
  have hselected : Stays (OnWire T Sdk.se (Wire (· ≠ .verify) fun _ => True))
      (certificateSelected T locals (containerIdOf (path.drop SE_MIAS_KEY_NAME_PREFIX.length)) cert size) := by
    refine .bind (selectMias_wire (by decide) (by decide) fun _ _ => trivial) fun selected =>
      .ite ?_ (.pure _)
    refine .bind (onMias_wire (Mias.getCertificateByContainerId_stays Mias.within_bears (by decide) (by decide)
      (fun _ _ => trivial) _ _ _ _)) fun fetched => .ite (.pure _) (.pure _)
  refine .bind (calm_meets h hselected) fun result t hcalm => ?_
  exact .bind (calm_meets hcalm (deselectMias_wire (by decide) fun _ _ => trivial)) fun _ t hcalm =>
    .pure (hcalm.post _)

theorem tobPkExtractSe_meets (h : CalmSince base s) (locals : Locals) (pk : Option Mem) (size : Int)
    (path : List UInt8) (pin : Option (List UInt8)) :
    Meets (tobPkExtractSe T locals pk size path pin) s (fun r s' => PinPost base r.ret s')
      (SafeSince base) := by
  have hnul : ∀ (result : Extract) (t : Sdk σ), PinPost base result.ret t →
      PinPost base (appendNul result).ret t := by
    intro result t hpost
    rw [appendNul_ret]
    exact hpost
  refine .ite (fun _ => ?_) fun _ => .ite (fun _ => ?_) fun _ => .pure (h.post _)
  · exact .bind (seReadObject_meets h _ _ _ _ _) fun result t hpost => nulAppended_meets (hnul result t hpost) hpost.1
  · exact .bind (seP11ReadObject_meets h _ _ _ _ _) fun result t hpost => nulAppended_meets (hnul result t hpost) hpost.1

/-- A body under the selection guard. -/
theorem guarded_meets {α : Type} {body : Exec (Sdk σ) α} {failed : α} (h : CalmSince base s)
    (hbody : ∀ t, CalmSince base t → Meets body t (fun _ s' => SafeSince base s') (SafeSince base)) :
    Meets (guarded T body failed) s (fun _ s' => SafeSince base s') (SafeSince base) := by
  -- the return code does not matter here, so any code other than the one that makes a caller retry does
  have hdeselect : ∀ t : Sdk σ, SafeSince base t →
      Meets (deselectMias T) t (fun _ s' => PinPost base 0 s') (SafeSince base) := fun t hsafe =>
    quiet_meets ⟨hsafe, fun hret => absurd hret (by decide)⟩ (deselectMias_wire deselect_ins fun _ _ => trivial)
  refine .bind (calm_meets h (selectMias_wire (by decide) (by decide) fun _ _ => trivial))
    fun selected t hcalm => .ite (fun _ => ?_) fun _ => ?_
  · refine .bind (hbody t hcalm) fun result t hsafe => ?_
    exact .bind (hdeselect t hsafe) fun _ t hpost => .pure hpost.1
  · exact .bind (.pure hcalm.safe) fun result t hsafe => .bind (hdeselect t hsafe) fun _ t hpost =>
      .pure hpost.1

theorem getKeyPairByContainerId_meets (h : CalmSince base s) (containerId : UInt8) :
    Meets (onMias (Mias.getKeyPairByContainerId T containerId)) s (fun _ s' => CalmSince base s') (SafeSince base) :=
  calm_meets h (onMias_wire (Mias.getKeyPairByContainerId_stays Mias.within_bears (by decide) (by decide) _))

theorem tobSigningSign_meets (h : CalmSince base s) (algorithm : UInt8) (hash : Mem) (hashLen : Int)
    (signature : Mem) (len : Int) (pin : Option (List UInt8)) :
    Meets (tobSigningSign T algorithm hash hashLen signature len pin) s (fun _ s' => SafeSince base s')
      (SafeSince base) := by
  refine guarded_meets h fun t hcalm => ?_
  refine keyOperation_meets (getKeyPairByContainerId_meets hcalm _) (fun _ ht => ht.safe)
    (fun pin _ ht => miasVerifyPin_meets ht pin) ?_ ?_ (fun _ ht => ht.safe) fun _ ht => ht.safe
  · exact fun kid t ht => calm_meets ht (onMias_wire (Mias.signInit_stays Mias.within_bears (by decide) _ _))
  · exact fun t ht => calm_meets ht
      (onMias_wire (Mias.signFinal_stays Mias.within_bears (by decide) (by decide) _ _ _ _))

theorem tobSigningDecrypt_meets (h : CalmSince base s) (cipher : Mem) (cipherLen : Int) (plain : Mem)
    (len : Int) (pin : Option (List UInt8)) :
    Meets (tobSigningDecrypt T cipher cipherLen plain len pin) s (fun _ s' => SafeSince base s')
      (SafeSince base) := by
  refine guarded_meets h fun t hcalm => ?_
  refine keyOperation_meets (getKeyPairByContainerId_meets hcalm _) (fun _ ht => ht.safe)
    (fun pin _ ht => miasVerifyPin_meets ht pin) ?_ ?_ (fun _ ht => ht.safe) fun _ ht => ht.safe
  · exact fun kid t ht => calm_meets ht (onMias_wire (Mias.decryptInit_stays Mias.within_bears (by decide) _ _))
  · exact fun t ht =>
      calm_meets ht (onMias_wire (Mias.decryptFinal_stays Mias.within_bears (by decide) (by decide) _ trivial _ _))

theorem tobSigningLen_meets (h : CalmSince base s) (pin : Option (List UInt8)) :
    Meets (tobSigningLen T pin) s (fun _ s' => SafeSince base s') (SafeSince base) := by
  refine guarded_meets h fun t hcalm => ?_
  refine .bind (getKeyPairByContainerId_meets hcalm _) fun found t hcalm => ?_
  cases found with
  | none => exact .pure hcalm.safe
  | some index => exact .gets hcalm.safe

/-- The two extractions with a legacy label try it only after a log without a rejected VERIFY. -/
theorem tobExtractAvailableCertificate_meets (h : CalmSince base s) (locals legacyLocals : Locals)
    (cert : Option Mem) (size : Int) (pin : Option (List UInt8)) :
    Meets (tobExtractAvailableCertificate T locals legacyLocals cert size pin) s
      (fun _ s' => SafeSince base s') (SafeSince base) := by
  refine .bind (tobX509CrtExtractSe_meets h _ _ _ _ _) fun first t hpost => .ite (fun hret => ?_) fun _ =>
    .pure hpost.1
  exact .bind (tobX509CrtExtractSe_meets (hpost.2 hret) _ _ _ _ _) fun second t hpost => .pure hpost.1

theorem tobExtractAvailablePrivateKey_meets (h : CalmSince base s) (locals legacyLocals : Locals)
    (pem : Option Mem) (pemSize : Option Int) (der : Option Mem) (derSize : Int) (pin : Option (List UInt8)) :
    Meets (tobExtractAvailablePrivateKey T locals legacyLocals pem pemSize der derSize pin) s
      (fun _ s' => SafeSince base s') (SafeSince base) := by
  have hder : Meets (tobExtractAvailablePrivateKeyDer T locals legacyLocals der derSize pin) s
      (fun _ s' => SafeSince base s') (SafeSince base) := by
    refine .bind (tobPkExtractSe_meets h _ _ _ _ _) fun first t hpost => .ite (fun hret => ?_) fun _ =>
      .pure hpost.1
    exact (tobPkExtractSe_meets (hpost.2 hret) _ _ _ _ _).mono (fun _ _ hpost => hpost.1) fun _ h => h
  exact .bind hder fun result t hsafe => .pure hsafe

theorem apiCall_meets (h : CalmSince base s) (call : ApiCall) :
    Meets (call.run T) s (fun _ s' => SafeSince base s') (SafeSince base) := by
  cases call with
  | extractAvailableCertificate locals legacyLocals cert size pin =>
      exact .bind (tobExtractAvailableCertificate_meets h _ _ _ _ _) fun _ _ hsafe => .pure hsafe
  | extractAvailablePrivateKey locals legacyLocals pem pemSize der derSize pin =>
      exact .bind (tobExtractAvailablePrivateKey_meets h _ _ _ _ _ _ _) fun _ _ hsafe => .pure hsafe
  | extractSigningCertificate locals pem pemSize der derSize pin =>
      refine .bind ?_ fun _ _ hsafe => .pure hsafe
      exact .bind (tobX509CrtExtractSe_meets h _ _ _ _ _) fun _ _ hpost => .pure hpost.1
  | signingSign algorithm hash hashLen signature len pin =>
      exact .bind (tobSigningSign_meets h _ _ _ _ _ _) fun _ _ hsafe => .pure hsafe
  | signingDecrypt cipher cipherLen plain len pin =>
      exact .bind (tobSigningDecrypt_meets h _ _ _ _ _) fun _ _ hsafe => .pure hsafe
  | signingLen pin => exact .bind (tobSigningLen_meets h _) fun _ _ hsafe => .pure hsafe
  | x509CrtExtractSe locals cert size path pin =>
      exact .bind (tobX509CrtExtractSe_meets h _ _ _ _ _) fun _ _ hpost => .pure hpost.1
  | pkExtractSe locals pk size path pin =>
      exact .bind (tobPkExtractSe_meets h _ _ _ _ _) fun _ _ hpost => .pure hpost.1

/-- **A wrong PIN costs at most one try per call**: in what a call adds to the log of any state, for
every card and PIN and however the call ends, at most one VERIFY was rejected, and nothing sensitive
was sent after it. -/
theorem wrong_pin_costs_one_try (T : Transport σ) (call : ApiCall) (s : Sdk σ) (fuel : Nat) :
    ∃ events, (call.run T fuel s).2.se.log = events ++ s.se.log ∧
      events.countP rejectedVerify ≤ 1 ∧
      ∀ later event earlier, events = later ++ event :: earlier → rejectedVerify event = true →
        ∀ other ∈ later, sensitive other = false := by
  have hstart : CalmSince s.se.log s := ⟨[], rfl, fun _ hmem => by cases hmem⟩
  have hrun := apiCall_meets (T := T) hstart call fuel
  obtain ⟨events, hlog, hsafe⟩ : SafeSince s.se.log (call.run T fuel s).2 := by
    rcases hend : call.run T fuel s with ⟨outcome, s'⟩
    rw [hend] at hrun
    cases outcome <;> exact hrun
  refine ⟨events, hlog, hsafe.countP_le, ?_⟩
  rintro later event earlier rfl hrejected
  exact hsafe.split hrejected

end TrustOnboard.Sdk
