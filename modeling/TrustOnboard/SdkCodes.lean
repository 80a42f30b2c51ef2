import TrustOnboard.MiasLengths
import TrustOnboard.SdkTrace

/-! The return codes of `tob_x509_crt_extract_se` and `tob_pk_extract_se`. A call is followed up to what the card says
about the length of the object; a return value of 0 is sound if that is the length the call reports. -/

namespace TrustOnboard

open Exec Linked SEInterface

variable {σ : Type} {T : Transport σ}

namespace MF

/-! ### Elementary files -/

/-- The walk of `getEFSize`, to the place and the length of the size. -/
def efFieldTurn (dataLen : Nat) : Nat → Exec (SEInterface σ) (Turn Nat (Option (Nat × Nat))) := fun i => do
  if i < dataLen then
    let tag ← gets fun s => s.response i
    let l ← gets fun s => (s.response (i + 1)).toNat
    if tag = SCTag.FCPFileSizeWithoutInfo then
      return .stop (some (i + 2, l))
    else
      return .again ((i + 1 + 1 + l) % 65536)
  else
    return .stop none

def efField (dataLen : Nat) : Exec (SEInterface σ) (Option (Nat × Nat)) := do
  if (← gets fun s => s.response 0) = SCTag.FileControlInfoFCP then
    loop (efFieldTurn dataLen) 2
  else
    return none

/-- The number at a place of the response buffer, in sixteen bits. -/
def sizeAt (response : Mem) (place : Nat × Nat) : Nat := bigEndian (response.slice place.1 place.2) % 65536

/-- What the card tells about a file. -/
structure Template where
  /-- The value of the size, if the answer holds all of it. -/
  field : Option (List UInt8)
  /-- Every READ BINARY was answered; there is none without a buffer. -/
  served : Bool

/-- `readEF`, for what the card tells; absent if there is no size. -/
def efTemplate (T : Transport σ) (path : List UInt8) (data : Option Mem) : Exec (Linked σ Applet) (Option Template) := do
  if ← Applet.ok (Applet.transmitCase4 T 0x00 .select SCP1.SELECTByPathFromMF
      (SCP2.SELECTFCPTemplate ||| SCP2.SELECTFirstOrOnly) path 0x00) then
    let length ← onSE (gets getResponseLength)
    match ← onSE (efField length) with
    | none => return none
    | some place =>
        let field ← gets fun s => s.se.valueAt place.1 place.2
        let size ← gets fun s => sizeAt s.se.response place
        match data with
        | none => return some ⟨field, true⟩
        | some out =>
            let read ← loop (readTurn T size) (0, out)
            return some ⟨field, read.1⟩
  else
    return none

theorem sizeBytes_run {l i size fuel n : Nat} {s s' : SEInterface σ} (h : sizeBytes l i size fuel s = (.done n, s')) :
    s' = s ∧ n = (s.response.slice i l).foldl (fun n byte => (n * 256 + byte.toNat) % 65536) size := by
  induction l generalizing i size with
  | zero =>
      cases h
      exact ⟨rfl, rfl⟩
  | succ l ih =>
      obtain ⟨_, s₁, hcheck, hrest⟩ := bind_eq_done h
      obtain ⟨_, rfl⟩ := check_eq_done hcheck
      rw [Mem.slice_succ, List.foldl_cons]
      exact ih hrest

theorem getEFSize_turns {dataLen fuel count i : Nat} {size : Option Nat} {s s' : SEInterface σ}
    (h : turns (efSizeTurn dataLen) fuel count i s = (.done size, s')) :
    ∃ place, turns (efFieldTurn dataLen) fuel count i s = (.done place, s) ∧ s' = s ∧
      size = place.map (sizeAt s.response) := by
  induction count generalizing i with
  | zero => cases h
  | succ count ih =>
      unfold turns efSizeTurn at h
      unfold turns efFieldTurn
      by_cases hin : i < dataLen
      · simp only [if_pos hin, bind_apply (gets _), gets_apply] at h ⊢
        by_cases htag : s.response i = SCTag.FCPFileSizeWithoutInfo
        · simp only [if_pos htag] at h ⊢
          rcases hbytes : sizeBytes (s.response (i + 1)).toNat (i + 2) 0 fuel s with ⟨n | _ | _, s₁⟩
          · rw [bind_done hbytes] at h
            cases h
            obtain ⟨rfl, rfl⟩ := sizeBytes_run hbytes
            refine ⟨_, rfl, rfl, ?_⟩
            rw [foldl_mod _ (by decide), Nat.zero_mul, Nat.zero_add]
            rfl
          · rw [bind_apply, hbytes] at h
            cases h
          · rw [bind_apply, hbytes] at h
            cases h
        · simp only [if_neg htag, pure_apply] at h ⊢
          exact ih h
      · simp only [if_neg hin, pure_apply] at h ⊢
        cases h
        exact ⟨none, rfl, rfl, rfl⟩

theorem getEFSize_run {dataLen fuel : Nat} {size : Option Nat} {s s' : SEInterface σ}
    (h : getEFSize dataLen fuel s = (.done size, s')) :
    ∃ place, efField dataLen fuel s = (.done place, s) ∧ s' = s ∧ size = place.map (sizeAt s.response) := by
  unfold getEFSize at h
  unfold efField
  rw [bind_apply, gets_apply] at h ⊢
  by_cases htag : s.response 0 = SCTag.FileControlInfoFCP
  · simp only [if_pos htag] at h ⊢
    exact getEFSize_turns h
  · simp only [if_neg htag] at h ⊢
    cases h
    exact ⟨none, rfl, rfl, rfl⟩

/-- **What the reader of files returns** is decided by the template and by the READ BINARY commands. -/
theorem readEF_run {path : List UInt8} {data : Option Mem} {dataLen fuel : Nat} {s s' : Linked σ Applet}
    {read : Bool × Option Mem × Nat} (h : readEF T path data dataLen fuel s = (.done read, s')) :
    ∃ answer t, efTemplate T path data fuel s = (.done answer, t) ∧
      match answer with
      | none => read.1 = false
      | some template => read.1 = template.served ∧
          ∀ field, template.field = some field → read.2.2 = bigEndian field % 65536 := by
  unfold readEF at h
  unfold efTemplate
  obtain ⟨ok, s₁, hselect, h⟩ := bind_eq_done h
  rw [bind_done hselect]
  cases ok with
  | false =>
      cases h
      exact ⟨none, _, rfl, rfl⟩
  | true =>
      obtain ⟨length, s₂, hlength, h⟩ := bind_eq_done h
      obtain ⟨size, s₃, hsize, h⟩ := bind_eq_done h
      obtain ⟨se, hwalk, rfl⟩ := zoom_eq_done hsize
      obtain ⟨place, hplace, rfl, rfl⟩ := getEFSize_run hwalk
      have hfield : (onSE (efField length) : Exec (Linked σ Applet) _) fuel s₂ = (.done place, s₂) := zoom_done hplace
      rw [if_pos rfl, bind_done hlength, bind_done hfield]
      cases place with
      | none =>
          cases h
          exact ⟨none, _, rfl, rfl⟩
      | some place =>
          have hnumber : ∀ field, s₂.se.valueAt place.1 place.2 = some field →
              sizeAt s₂.se.response place = bigEndian field % 65536 := by
            intro field hvalue
            unfold valueAt at hvalue
            split at hvalue
            · cases hvalue
              rfl
            · cases hvalue
          cases data with
          | none =>
              cases h
              exact ⟨_, _, rfl, rfl, hnumber⟩
          | some out =>
              obtain ⟨last, s₄, hread, h⟩ := bind_eq_done h
              cases h
              exact ⟨_, _, bind_done hread, rfl, hnumber⟩

end MF

namespace Applet

/-- Commands leave no notes. -/
theorem note_notMem {command : List UInt8} {result : Option (List UInt8)} {events : List Event} {n : Note}
    (h : Ended command result events) : .note n ∉ events := fun hmem => h.ofCommand _ hmem

theorem DeselectTrace.unselected {applet last : Applet} {events : List Event} (h : DeselectTrace applet events last)
    (aid : List UInt8) (channel : UInt8) : .note (.selected aid channel) ∉ events := by
  cases h with
  | detached => exact List.not_mem_nil
  | idle => simp
  | close _ _ _ hclose => simp [note_notMem hclose]

/-- A selection that fails leaves no note of a success. -/
theorem SelectTrace.unselected {applet last : Applet} {isBasic : Bool} {events : List Event}
    (h : SelectTrace applet isBasic false events last) (aid : List UInt8) (channel : UInt8) :
    .note (.selected aid channel) ∉ events := by
  cases h with
  | detached => exact List.not_mem_nil
  | attached _ hdeselect hhalf =>
      have hfirst := hdeselect.unselected aid channel
      cases hhalf with
      | basicRefused hselect => simp [note_notMem hselect, hfirst]
      | openRefused hopen => simp [note_notMem hopen, hfirst]
      | logical hopen _ _ _ hchannel =>
          cases hchannel with
          | refused hselect _ hclose => simp [note_notMem hselect, note_notMem hclose, note_notMem hopen, hfirst]

end Applet

namespace Sdk

/-! ### What happened in a call -/

/-- The log only grew. -/
def Grew (s s' : Sdk σ) : Prop := s.se.log <:+ s'.se.log

/-- An event of this kind was logged between the two states. -/
def Happened (kind : Event → Prop) (s s' : Sdk σ) : Prop :=
  ∃ events, s'.se.log = events ++ s.se.log ∧ ∃ event ∈ events, kind event

/-- The applet with this AID was selected. -/
def IsSelected (aid : List UInt8) (event : Event) : Prop := ∃ channel, event = .note (.selected aid channel)

/-- The card accepted a PIN. -/
def IsVerified (event : Event) : Prop :=
  ∃ command answer, event = .answered command answer ∧ insOf command = SCIns.verify.code ∧ statusWord answer = swOK

section Happened

variable {kind : Event → Prop} {s s₁ s₂ : Sdk σ}

theorem Happened.later (h : Happened kind s s₁) (hgrew : Grew s₁ s₂) : Happened kind s s₂ := by
  obtain ⟨events, hlog, event, hmem, hkind⟩ := h
  obtain ⟨more, hmore⟩ := hgrew
  refine ⟨more ++ events, ?_, event, List.mem_append_right _ hmem, hkind⟩
  rw [← hmore, hlog, List.append_assoc]

theorem Happened.earlier (h : Happened kind s₁ s₂) (hgrew : Grew s s₁) : Happened kind s s₂ := by
  obtain ⟨events, hlog, event, hmem, hkind⟩ := h
  obtain ⟨more, hmore⟩ := hgrew
  refine ⟨events ++ more, ?_, event, List.mem_append_left _ hmem, hkind⟩
  rw [hlog, ← hmore, List.append_assoc]

theorem Grew.of_wire {α : Type} {kind : Event → Prop} {program : Exec (Sdk σ) α} {fuel : Nat} {value : α}
    (h : Stays (OnWire T Sdk.se kind) program) (hrun : program fuel s = (.done value, s₁)) : Grew s s₁ := by
  obtain ⟨events, hlog, _⟩ := h fuel s
  rw [hrun] at hlog
  exact ⟨events, hlog.symm⟩

theorem Grew.trans (h : Grew s s₁) (h' : Grew s₁ s₂) : Grew s s₂ := List.IsSuffix.trans h h'

theorem Happened.grew (h : Happened kind s s₁) : Grew s s₁ := by
  obtain ⟨events, hlog, _⟩ := h
  exact ⟨events, hlog.symm⟩

/-- A selection that succeeded has left its note. -/
theorem selectTrace_happened {applet last : Applet} {isBasic : Bool} {events : List Event}
    (h : Applet.SelectTrace applet isBasic true events last) : ∃ event ∈ events, IsSelected applet.aid event := by
  obtain ⟨_, rest, rfl⟩ := h.selected
  exact ⟨_, .head _, last.channel, rfl⟩

theorem selectMF_happened {fuel : Nat} (h : onMF (Applet.select T false) fuel s = (.done true, s₁)) :
    Happened (IsSelected s.mf.aid) s s₁ := by
  obtain ⟨t, hrun, rfl⟩ := zoom_eq_done h
  have hspec := Applet.select_meets T false (mfLens.get s) fuel
  rw [hrun] at hspec
  obtain ⟨events, htrace, hlog, _⟩ := hspec
  exact ⟨events, hlog, selectTrace_happened htrace⟩

theorem selectMias_happened {fuel : Nat} (h : selectMias T fuel s = (.done true, s₁)) :
    Happened (IsSelected s.mias.applet.aid) s s₁ := by
  obtain ⟨t, hrun, rfl⟩ := zoom_eq_done h
  obtain ⟨u, happlet, rfl⟩ := zoom_eq_done hrun
  have hspec := Applet.select_meets T false ((objLens Mias.appletLens).get (miasLens.get s)) fuel
  rw [happlet] at hspec
  obtain ⟨events, htrace, hlog, _⟩ := hspec
  exact ⟨events, hlog, selectTrace_happened htrace⟩

/-- A VERIFY that succeeded was answered `9000`. -/
theorem verify_happened {apdu : List UInt8} {transmitted : UInt8 → Exec (SEInterface σ) Bool} {cla : UInt8} {fuel : Nat}
    {t t' : Linked σ Applet} (h : Transmits T apdu (transmitted (cla ||| t.obj.channel)))
    (hins : insOf apdu = SCIns.verify.code)
    (hrun : Applet.ok (Applet.whenSelected cla transmitted) fuel t = (.done true, t')) :
    ∃ events, t'.se.log = events ++ t.se.log ∧ ∃ event ∈ events, IsVerified event := by
  have hspec := Applet.ok_meets h fuel
  rw [hrun] at hspec
  obtain ⟨_, ⟨hfalse, _⟩ | ⟨_, result, events, hran, haccepted⟩⟩ := hspec
  · cases hfalse
  · obtain ⟨last, earlier, _, hevents⟩ := hran.ended
    obtain ⟨answer, rfl, hsw⟩ := Applet.answer_of_accepted haccepted.symm
    refine ⟨events, hran.log_eq, .answered apdu answer, ?_, apdu, answer, rfl, hins, hsw⟩
    rw [hevents.2]
    exact .head _

theorem verifyMF_happened {fuel : Nat} {pin : List UInt8} (h : onMF (MF.verifyPin T pin) fuel s = (.done true, s₁)) :
    Happened IsVerified s s₁ := by
  obtain ⟨t, hrun, rfl⟩ := zoom_eq_done h
  unfold MF.verifyPin at hrun
  split at hrun
  · cases hrun
  · exact verify_happened (fill_transmits (command_transmits T _)) rfl hrun

theorem verifyMias_happened {fuel : Nat} {pin : List UInt8}
    (h : onMias (Mias.verifyPin T pin) fuel s = (.done true, s₁)) : Happened IsVerified s s₁ := by
  obtain ⟨t, hrun, rfl⟩ := zoom_eq_done h
  obtain ⟨u, happlet, rfl⟩ := zoom_eq_done hrun
  exact verify_happened (fill_transmits (command_transmits T _)) rfl happlet

end Happened

/-! ### What the card tells in a call -/

/-- What a call has heard from the card when it decides what to return. -/
inductive Answer where
  /-- The call has ended before, with a code of its own. -/
  | refused
  /-- The file tree could not be selected. -/
  | unselected
  | file (template : MF.Template)
  | header (record : Mem)
  | certificate (template : Mias.Template)

/-- The length of the object as the card tells it. -/
def Answer.told : Answer → Option Nat
  | .refused => none
  | .unselected => none
  | .file template => template.field.map bigEndian
  | .header record => Mias.headerNumber record
  | .certificate template => template.field.map bigEndian

/-- The codes of the header file. -/
def documented : List Int :=
  [ERR_SE_MIAS_READ_OBJECT_ERROR, ERR_SE_EF_VERIFY_PIN_ERROR, ERR_SE_EF_INVALID_NAME_ERROR, ERR_SE_EF_READ_OBJECT_ERROR,
    ERR_SE_BAD_KEY_NAME_ERROR]

/-- The answers, and the contents of the uninitialised locals, that a call returns a sound code for. -/
def Answer.Decides (locals : Locals) : Answer → Prop
  | .refused => True
  | .unselected => locals.readEfRet ∈ documented
  | .file template => template.served = false ∨ ∃ field, template.field = some field ∧ bigEndian field < 65536
  | .header record => Mias.Decoded locals.p11.size.toNat record
  | .certificate template => template.size locals.efSize = 0 ∨ template.compressed = true ∨
      ∃ field, template.field = some field ∧ field.length = 2

variable (T)

/-- `se_read_ef` up to the answer. -/
def answerEf (efname : List UInt8) (data : Option Mem) (pin : Option (List UInt8)) : Exec (Sdk σ) Answer := do
  if ← onMF (Applet.select T false) then
    let pin ← withStrlen pin
    if ← onMF (MF.verifyPin T pin) then
      match ← onMF (MF.efTemplate T efname data) with
      | none => return .refused
      | some template => return .file template
    else
      return .refused
  else
    return .unselected

/-- `se_read_object` up to the answer. -/
def answerObject (path : List UInt8) (obj : Option Mem) (pin : Option (List UInt8)) : Exec (Sdk σ) Answer := do
  if pin = none ∨ path.length % 2 = 1 ∨ 64 < path.length then
    return .refused
  else
    let efname ← isolated [] (efnameBytes path)
    answerEf T efname.2 obj pin

/-- `se_p11_read_object` up to the answer. -/
def answerP11 (locals : Locals) (label : List UInt8) (pin : Option (List UInt8)) : Exec (Sdk σ) Answer := do
  if ← selectMias T then
    let pin ← withStrlen pin
    if ← onMias (Mias.verifyPin T pin) then
      let label ← withStrlen (some label)
      match ← onMias (Mias.p11Header T locals.p11.record label) with
      | none => return .refused
      | some record => return .header record
    else
      return .refused
  else
    return .refused

/-- The branch of `tob_x509_crt_extract_se` for `SE://MIAS/` up to the answer. -/
def answerCertificate (locals : Locals) (cid : UInt8) (cert : Option Mem) : Exec (Sdk σ) Answer := do
  if ← selectMias T then
    match ← onMias (Mias.certificateTemplate T locals.efSize cid cert) with
    | none => return .refused
    | some template => return .certificate template
  else
    return .refused

variable {T}

/-- What a return value says of the answer it was decided by. -/
def Decided (locals : Locals) (result : Extract) : Answer → Prop
  | .refused => result.ret ∈ documented
  | .unselected => result.ret = locals.readEfRet
  | .file template => result.ret = (if template.served then 0 else ERR_SE_EF_READ_OBJECT_ERROR) ∧
      (template.served = true → ∀ field, template.field = some field → result.size = (bigEndian field % 65536 : Nat))
  | .header record => result.ret = 0 ∧ result.size = (Mias.valueLength locals.p11.size.toNat record).1
  | .certificate template => template.OfAnswer ∧
      result.ret =
        (if template.size locals.efSize ≠ 0 ∧ template.compressed = false then 0 else ERR_SE_BAD_KEY_NAME_ERROR) ∧
      (result.ret = 0 → result.size = template.size locals.efSize)

/-- The return value and the size are what the card has told. -/
def Told (answer : Answer) (result : Extract) : Prop :=
  (result.ret = 0 → ∃ n : Nat, answer.told = some n ∧ result.size = n) ∧ (result.ret ≠ 0 → result.ret ∈ documented)

theorem zero_notMem_documented : (0 : Int) ∉ documented := by decide

theorem told_of_documented {answer : Answer} {result : Extract} (h : result.ret ∈ documented) : Told answer result := by
  have hret : result.ret ≠ 0 := fun hzero => zero_notMem_documented (hzero ▸ h)
  exact ⟨fun hzero => absurd hzero hret, fun _ => h⟩

/-- With the return value 0 all is in the size. -/
theorem told_of_zero {answer : Answer} {result : Extract} {size : Nat} (hret : result.ret = 0)
    (hsize : result.size = size) :
    Told answer result ↔ answer.told = some size := by
  constructor
  · rintro ⟨hzero, _⟩
    obtain ⟨n, htold, hn⟩ := hzero hret
    rw [hsize] at hn
    rw [htold, Int.ofNat_inj.mp hn]
  · intro htold
    exact ⟨fun _ => ⟨size, htold, hsize⟩, fun hne => absurd hret hne⟩

theorem told_unselected {locals : Locals} {result : Extract} (h : result.ret = locals.readEfRet) :
    Told .unselected result ↔ locals.readEfRet ∈ documented := by
  constructor
  · rintro ⟨hzero, hcode⟩
    rw [← h]
    apply hcode
    intro hret
    obtain ⟨n, htold, _⟩ := hzero hret
    cases htold
  · intro hcode
    rw [← h] at hcode
    exact told_of_documented hcode

theorem told_file {locals : Locals} {result : Extract} {template : MF.Template}
    (h : Decided locals result (.file template)) :
    Told (.file template) result ↔ Answer.Decides locals (.file template) := by
  obtain ⟨hret, hsize⟩ := h
  cases hserved : template.served with
  | false =>
      rw [hserved] at hret
      have hcode : result.ret ∈ documented := by
        rw [hret]
        decide
      exact iff_of_true (told_of_documented hcode) (.inl hserved)
  | true =>
      rw [hserved] at hret
      simp only [Answer.Decides, hserved, Bool.true_eq_false, false_or]
      constructor
      · rintro ⟨hzero, _⟩
        obtain ⟨n, htold, hn⟩ := hzero hret
        obtain ⟨field, hfield, rfl⟩ := Option.map_eq_some_iff.mp htold
        rw [hsize hserved field hfield] at hn
        exact ⟨field, hfield, by omega⟩
      · rintro ⟨field, hfield, hlt⟩
        rw [told_of_zero hret (hsize hserved field hfield), Answer.told, hfield, Option.map_some, Nat.mod_eq_of_lt hlt]

theorem told_header {locals : Locals} {result : Extract} {record : Mem} (h : Decided locals result (.header record)) :
    Told (.header record) result ↔ Answer.Decides locals (.header record) := by
  rw [told_of_zero h.1 h.2]
  exact Mias.headerNumber_iff locals.p11.size.toNat_lt

theorem told_certificate {locals : Locals} {result : Extract} {template : Mias.Template}
    (h : Decided locals result (.certificate template)) :
    Told (.certificate template) result ↔ Answer.Decides locals (.certificate template) := by
  obtain ⟨hanswer, hret, hsize⟩ := h
  by_cases hok : template.size locals.efSize ≠ 0 ∧ template.compressed = false
  · rw [if_pos hok] at hret
    rw [told_of_zero hret (hsize hret), Answer.told, Mias.Template.told_iff hanswer hok.1]
    simp [Answer.Decides, hok.1, hok.2]
  · rw [if_neg hok] at hret
    have hcode : result.ret ∈ documented := by
      rw [hret]
      decide
    refine iff_of_true (told_of_documented hcode) ?_
    by_cases hzero : template.size locals.efSize = 0
    · exact .inl hzero
    · exact .inr (.inl (by simpa [hzero] using hok))

/-- **The condition is exact**, whatever the answer was. -/
theorem told_iff_decides {locals : Locals} {result : Extract} {answer : Answer} (h : Decided locals result answer) :
    Told answer result ↔ answer.Decides locals := by
  cases answer with
  | refused => exact iff_of_true (told_of_documented h) trivial
  | unselected => exact told_unselected h
  | file template => exact told_file h
  | header record => exact told_header h
  | certificate template => exact told_certificate h

/-! ### The three schemes -/

section Schemes

variable {locals : Locals} {fuel : Nat} {s s' : Sdk σ} {result : Extract}

/-- In a call that returns 0 the applet was selected and, if the scheme asks for it, the PIN accepted. -/
def Allowed (aid : List UInt8) (verifies : Prop) (s s' : Sdk σ) : Prop :=
  Happened (IsSelected aid) s s' ∧ (verifies → Happened IsVerified s s')

theorem withStrlen_same {text : Option (List UInt8)} {value : List UInt8}
    (h : (withStrlen text : Exec (Sdk σ) _) fuel s = (.done value, s')) : s' = s := by
  cases text with
  | none => cases h
  | some text =>
      cases h
      rfl

theorem deselectMF_grew {ok : Bool} (h : onMF (Applet.deselect T) fuel s = (.done ok, s')) : Grew s s' := by
  have hwire : Stays (OnWire T Sdk.se (Wire (fun _ => True) fun _ => True)) (onMF (Applet.deselect T)) :=
    onMF_onWire (Applet.deselect_onWire trivial fun _ _ => trivial)
  exact .of_wire hwire h

theorem deselectMias_grew {ok : Bool} (h : deselectMias T fuel s = (.done ok, s')) : Grew s s' := by
  have hwire : Stays (OnWire T Sdk.se (Wire (fun _ => True) fun _ => True)) (deselectMias T) :=
    deselectMias_wire trivial fun _ _ => trivial
  exact .of_wire hwire h

theorem seReadEf_decided {efname : List UInt8} {data : Option Mem} {size : Int} {pin : Option (List UInt8)}
    (hpin : pin ≠ none) (h : seReadEf T locals efname data size pin fuel s = (.done result, s')) :
    ∃ answer t, answerEf T efname data pin fuel s = (.done answer, t) ∧ Decided locals result answer ∧
      (result.ret = 0 → answer ≠ .unselected → Allowed s.mf.aid True s s') := by
  rw [seReadEf, if_neg hpin] at h
  obtain ⟨got, s₅, hread, h⟩ := bind_eq_done h
  obtain ⟨_, s₆, hdeselect, h⟩ := bind_eq_done h
  cases h
  have hend := deselectMF_grew hdeselect
  obtain ⟨selected, s₁, hselect, hread⟩ := bind_eq_done hread
  unfold answerEf
  rw [bind_done hselect]
  cases selected with
  | false =>
      cases hread
      exact ⟨.unselected, _, rfl, rfl, fun _ hne => absurd rfl hne⟩
  | true =>
      obtain ⟨pin, s₂, hstrlen, hread⟩ := bind_eq_done hread
      obtain ⟨verified, s₃, hverify, hread⟩ := bind_eq_done hread
      rw [if_pos rfl, bind_done hstrlen, bind_done hverify]
      obtain rfl := withStrlen_same hstrlen
      cases verified with
      | false =>
          cases hread
          refine ⟨.refused, _, rfl, (by decide : ERR_SE_EF_VERIFY_PIN_ERROR ∈ documented), fun hret => ?_⟩
          cases hret
      | true =>
          obtain ⟨read, s₄, hef, hread⟩ := bind_eq_done hread
          have hwire : Stays (OnWire T Sdk.se (Wire (fun _ => True) fun _ => True))
              (onMF (MF.readEF T efname data 0)) :=
            onMF_wire (MF.readEF_within trivial trivial _ _ _)
          have hselected := selectMF_happened hselect
          have hverified := verifyMF_happened hverify
          have hlast : Grew s₃ s₄ := .of_wire hwire hef
          obtain ⟨t, hrun, rfl⟩ := zoom_eq_done hef
          obtain ⟨answer, u, htemplate, hdecided⟩ := MF.readEF_run hrun
          have hzoom : onMF (MF.efTemplate T efname data) fuel s₃ = (.done answer, mfLens.set u s₃) :=
            zoom_done htemplate
          rw [if_pos rfl, bind_done hzoom]
          cases answer with
          | none =>
              rw [hdecided] at hread
              cases hread
              refine ⟨.refused, _, rfl, (by decide : ERR_SE_EF_READ_OBJECT_ERROR ∈ documented), fun hret => ?_⟩
              cases hret
          | some template =>
              obtain ⟨hok, hnumber⟩ := hdecided
              rw [hok] at hread
              cases hserved : template.served with
              | false =>
                  rw [hserved] at hread
                  cases hread
                  refine ⟨.file template, _, rfl, ⟨by rw [hserved]; rfl, fun htrue => ?_⟩, fun hret => (by cases hret)⟩
                  rw [hserved] at htrue
                  cases htrue
              | true =>
                  rw [hserved] at hread
                  cases hread
                  refine ⟨.file template, _, rfl, ⟨by rw [hserved]; rfl, fun _ field hfield => ?_⟩, fun _ _ => ?_⟩
                  · exact congrArg Nat.cast (hnumber field hfield)
                  · exact ⟨hselected.later (hverified.grew.trans (hlast.trans hend)), fun _ =>
                      (hverified.earlier hselected.grew).later (hlast.trans hend)⟩

theorem seReadObject_decided {path : List UInt8} {obj : Option Mem} {size : Int} {pin : Option (List UInt8)}
    (h : seReadObject T locals path obj size pin fuel s = (.done result, s')) :
    ∃ answer t, answerObject T path obj pin fuel s = (.done answer, t) ∧ Decided locals result answer ∧
      (result.ret = 0 → answer ≠ .unselected → Allowed s.mf.aid True s s') := by
  unfold seReadObject at h
  unfold answerObject
  by_cases hbad : pin = none ∨ path.length % 2 = 1 ∨ 64 < path.length
  · rw [if_pos hbad] at h ⊢
    cases h
    refine ⟨.refused, _, rfl, (by decide : ERR_SE_EF_INVALID_NAME_ERROR ∈ documented), fun hret => ?_⟩
    cases hret
  · rw [if_neg hbad] at h ⊢
    obtain ⟨efname, s₁, hname, h⟩ := bind_eq_done h
    rw [bind_done hname]
    have hsame := (Stays.isolated [] (efnameBytes path) :
        Stays Eq (isolated [] (efnameBytes path) : Exec (Sdk σ) _)) fuel s
    rw [hname] at hsame
    obtain rfl : s = s₁ := hsame
    exact seReadEf_decided (fun hpin => hbad (.inl hpin)) h

theorem p11GetObjectByLabel_grew {label : List UInt8} {obj : Option Mem} {fetched : Mias.Fetched}
    (h : onMias (Mias.p11GetObjectByLabel T locals.p11 label obj) fuel s = (.done fetched, s')) : Grew s s' := by
  have hlookup : Stays (Within T Mias.applet (fun _ => True) fun _ => True)
      (Mias.p11GetObjectByLabel T locals.p11 label obj) := by
    refine .bind (note_within trivial) fun _ => .bind (Mias.p11Lookup_stays Mias.within_bears trivial trivial
      (fun _ _ => trivial) _ _ _) fun fetched => ?_
    exact .bind (note_within trivial) fun _ => .pure _
  exact .of_wire (onMias_wire hlookup) h

theorem seP11ReadObject_decided {label : List UInt8} {obj : Option Mem} {size : Int} {pin : Option (List UInt8)}
    (h : seP11ReadObject T locals label obj size pin fuel s = (.done result, s')) :
    ∃ answer t, answerP11 T locals label pin fuel s = (.done answer, t) ∧ Decided locals result answer ∧
      (result.ret = 0 → Allowed s.mias.applet.aid True s s') := by
  obtain ⟨got, s₅, hread, h⟩ := bind_eq_done h
  obtain ⟨_, s₆, hdeselect, h⟩ := bind_eq_done h
  cases h
  have hend := deselectMias_grew hdeselect
  obtain ⟨selected, s₁, hselect, hread⟩ := bind_eq_done hread
  unfold answerP11
  rw [bind_done hselect]
  cases selected with
  | false =>
      cases hread
      have hcode : (if pin = none then ERR_SE_EF_VERIFY_PIN_ERROR else ERR_SE_MIAS_READ_OBJECT_ERROR) ∈ documented := by
        split <;> decide
      exact ⟨.refused, _, rfl, hcode, fun hret => absurd (hret ▸ hcode) zero_notMem_documented⟩
  | true =>
      obtain ⟨pin, s₂, hstrlen, hread⟩ := bind_eq_done hread
      obtain ⟨verified, s₃, hverify, hread⟩ := bind_eq_done hread
      rw [if_pos rfl, bind_done hstrlen, bind_done hverify]
      obtain rfl := withStrlen_same hstrlen
      cases verified with
      | false =>
          cases hread
          refine ⟨.refused, _, rfl, (by decide : ERR_SE_EF_VERIFY_PIN_ERROR ∈ documented), fun hret => ?_⟩
          cases hret
      | true =>
          have hselected := selectMias_happened hselect
          have hverified := verifyMias_happened hverify
          obtain ⟨label, _, hlabel, hread⟩ := bind_eq_done hread
          obtain ⟨fetched, s₄, hfetch, hread⟩ := bind_eq_done hread
          rw [if_pos rfl, bind_done hlabel]
          obtain rfl := withStrlen_same hlabel
          have hlast := p11GetObjectByLabel_grew hfetch
          obtain ⟨t, hrun, rfl⟩ := zoom_eq_done hfetch
          obtain ⟨header, u, hheader, hdecided⟩ := Mias.p11GetObjectByLabel_run T hrun
          have hzoom : onMias (Mias.p11Header T locals.p11.record label) fuel _ = (.done header, miasLens.set u _) :=
            zoom_done hheader
          rw [bind_done hzoom]
          cases header with
          | none =>
              rw [hdecided] at hread
              cases hread
              refine ⟨.refused, _, rfl, (by decide : ERR_SE_MIAS_READ_OBJECT_ERROR ∈ documented), fun hret => ?_⟩
              cases hret
          | some header =>
              obtain ⟨hok, hlen⟩ := hdecided
              rw [hok, if_pos rfl] at hread
              cases hread
              refine ⟨.header header, _, rfl, ⟨rfl, congrArg Nat.cast hlen⟩, fun _ => ?_⟩
              exact ⟨hselected.later (hverified.grew.trans (hlast.trans hend)), fun _ =>
                (hverified.earlier hselected.grew).later (hlast.trans hend)⟩

theorem certificateSelected_decided {cid : UInt8} {cert : Option Mem} {size : Int} {ok : Bool} {s₁ : Sdk σ}
    (h : certificateSelected T locals cid cert size fuel s = (.done result, s₁))
    (hdeselect : deselectMias T fuel s₁ = (.done ok, s')) :
    ∃ answer t, answerCertificate T locals cid cert fuel s = (.done answer, t) ∧ Decided locals result answer ∧
      (result.ret = 0 → Allowed s.mias.applet.aid False s s') := by
  have hend := deselectMias_grew hdeselect
  obtain ⟨selected, s₂, hselect, h⟩ := bind_eq_done h
  unfold answerCertificate
  rw [bind_done hselect]
  cases selected with
  | false =>
      cases h
      refine ⟨.refused, _, rfl, (by decide : ERR_SE_BAD_KEY_NAME_ERROR ∈ documented), fun hret => ?_⟩
      cases hret
  | true =>
      have hselected := selectMias_happened hselect
      obtain ⟨fetched, s₃, hfetch, h⟩ := bind_eq_done h
      have hwire : Stays (OnWire T Sdk.se (Wire (fun _ => True) fun _ => True))
          (onMias (Mias.getCertificateByContainerId T locals.efSize cid cert 0)) :=
        onMias_wire (Mias.getCertificateByContainerId_stays Mias.within_bears trivial trivial
          (fun _ _ => trivial) _ _ _ _)
      have hlast : Grew s₂ s₃ := .of_wire hwire hfetch
      obtain ⟨t, hrun, rfl⟩ := zoom_eq_done hfetch
      obtain ⟨answer, u, htemplate, hdecided⟩ := Mias.getCertificateByContainerId_run T hrun
      have hzoom : onMias (Mias.certificateTemplate T locals.efSize cid cert) fuel s₂ =
          (.done answer, miasLens.set u s₂) := zoom_done htemplate
      rw [if_pos rfl, bind_done hzoom]
      cases answer with
      | none =>
          rw [hdecided] at h
          cases h
          refine ⟨.refused, _, rfl, (by decide : ERR_SE_BAD_KEY_NAME_ERROR ∈ documented), fun hret => ?_⟩
          cases hret
      | some template =>
          obtain ⟨hanswer, hok, hlen⟩ := hdecided
          cases hfetched : fetched.ok with
          | false =>
              have hnot : ¬(template.size locals.efSize ≠ 0 ∧ template.compressed = false) := fun hboth => by
                rw [hok.mpr hboth] at hfetched
                cases hfetched
              rw [hfetched] at h
              cases h
              exact ⟨.certificate template, _, rfl, ⟨hanswer, (if_neg hnot).symm, fun hret => by cases hret⟩,
                fun hret => by cases hret⟩
          | true =>
              rw [hfetched, if_pos rfl] at h
              cases h
              refine ⟨.certificate template, _, rfl,
                ⟨hanswer, (if_pos (hok.mp hfetched)).symm, fun _ => ?_⟩, fun _ => ?_⟩
              · exact congrArg Nat.cast (hlen hfetched)
              · exact ⟨hselected.later (hlast.trans hend), fun hfalse => hfalse.elim⟩

/-! ### The two functions -/

/-- `tob_x509_crt_extract_se` and `tob_pk_extract_se`. -/
inductive Reader where
  | x509Crt
  | pk
  deriving DecidableEq

def Reader.run (T : Transport σ) : Reader → Locals → Option Mem → Int → List UInt8 → Option (List UInt8) →
    Exec (Sdk σ) Extract
  | .x509Crt => tobX509CrtExtractSe T
  | .pk => tobPkExtractSe T

/-- What is added to the length: a NUL for keys. -/
def Reader.added : Reader → Int
  | .x509Crt => 0
  | .pk => 1

/-- What the card tells in a call. -/
def Reader.answer (T : Transport σ) (reader : Reader) (locals : Locals) (obj : Option Mem) (path : List UInt8)
    (pin : Option (List UInt8)) : Exec (Sdk σ) Answer :=
  if SE_EF_KEY_NAME_PREFIX.isPrefixOf path then
    answerObject T (path.drop SE_EF_KEY_NAME_PREFIX.length) obj pin
  else if SE_MIAS_P11_KEY_NAME_PREFIX.isPrefixOf path then
    answerP11 T locals (path.drop SE_MIAS_P11_KEY_NAME_PREFIX.length) pin
  else if SE_MIAS_KEY_NAME_PREFIX.isPrefixOf path ∧ reader = .x509Crt then
    answerCertificate T locals (containerIdOf (path.drop SE_MIAS_KEY_NAME_PREFIX.length)) obj
  else
    pure .refused

/-- The schemes that verify the PIN. -/
def Verifies (path : List UInt8) : Prop :=
  SE_EF_KEY_NAME_PREFIX.isPrefixOf path = true ∨ SE_MIAS_P11_KEY_NAME_PREFIX.isPrefixOf path = true

/-- The AID of the applet that a path leads to. -/
def pathAid (s : Sdk σ) (path : List UInt8) : List UInt8 :=
  if SE_EF_KEY_NAME_PREFIX.isPrefixOf path then s.mf.aid else s.mias.applet.aid

/-- A return code is sound: 0 says that the applet was selected, the PIN accepted and the length told by the card, and
every other code is documented. -/
structure SoundCode (reader : Reader) (path : List UInt8) (answer : Answer) (result : Extract) (s s' : Sdk σ) : Prop where
  selected : result.ret = 0 → Happened (IsSelected (pathAid s path)) s s'
  verified : result.ret = 0 → Verifies path → Happened IsVerified s s'
  length : result.ret = 0 → ∃ n : Nat, answer.told = some n ∧ result.size = n + reader.added
  code : result.ret ≠ 0 → result.ret ∈ documented

/-- A reading ends in a state of the answer. -/
theorem soundCode_iff {reader : Reader} {path : List UInt8} {answer : Answer} {got : Extract}
    (hdecided : Decided locals got answer) (hret : result.ret = got.ret)
    (hsize : got.ret = 0 → result.size = got.size + reader.added)
    (hallowed : got.ret = 0 → answer ≠ .unselected → Allowed (pathAid s path) (Verifies path) s s') :
    SoundCode reader path answer result s s' ↔ answer.Decides locals := by
  rw [← told_iff_decides hdecided]
  constructor
  · intro h
    constructor
    · intro hzero
      obtain ⟨n, htold, hn⟩ := h.length (hret.trans hzero)
      refine ⟨n, htold, ?_⟩
      rw [hsize hzero] at hn
      omega
    · intro hne
      rw [← hret] at hne ⊢
      exact h.code hne
  · rintro ⟨hzero, hcode⟩
    have hselected : result.ret = 0 → answer ≠ .unselected := by
      rintro hres rfl
      obtain ⟨n, htold, _⟩ := hzero (hret ▸ hres)
      cases htold
    refine ⟨fun hres => ?_, fun hres => ?_, fun hres => ?_, fun hne => ?_⟩
    · exact (hallowed (hret ▸ hres) (hselected hres)).1
    · exact (hallowed (hret ▸ hres) (hselected hres)).2
    · obtain ⟨n, htold, hn⟩ := hzero (hret ▸ hres)
      exact ⟨n, htold, by rw [hsize (hret ▸ hres), hn]⟩
    · rw [hret] at hne ⊢
      exact hcode hne

theorem appendNul_size {got : Extract} (h : got.ret = 0) : (appendNul got).size = got.size + 1 := by
  rw [appendNul, if_pos h]

theorem tobX509CrtExtractSe_decided {cert : Option Mem} {size : Int} {path : List UInt8} {pin : Option (List UInt8)}
    (h : tobX509CrtExtractSe T locals cert size path pin fuel s = (.done result, s')) :
    ∃ answer t, Reader.x509Crt.answer T locals cert path pin fuel s = (.done answer, t) ∧ Decided locals result answer ∧
      (result.ret = 0 → answer ≠ .unselected → Allowed (pathAid s path) (Verifies path) s s') := by
  unfold tobX509CrtExtractSe at h
  unfold Reader.answer Verifies pathAid
  by_cases hEf : SE_EF_KEY_NAME_PREFIX.isPrefixOf path = true
  · simp only [hEf, if_true, true_or] at h ⊢
    exact seReadObject_decided h
  simp only [hEf, Bool.false_eq_true, if_false, false_or] at h ⊢
  by_cases hP11 : SE_MIAS_P11_KEY_NAME_PREFIX.isPrefixOf path = true
  · simp only [hP11, if_true] at h ⊢
    obtain ⟨answer, t, hanswer, hdecided, hallowed⟩ := seP11ReadObject_decided h
    exact ⟨answer, t, hanswer, hdecided, fun hret _ => hallowed hret⟩
  simp only [hP11, Bool.false_eq_true, if_false] at h ⊢
  by_cases hMias : SE_MIAS_KEY_NAME_PREFIX.isPrefixOf path = true
  · simp only [hMias, true_and, if_true] at h ⊢
    obtain ⟨got, s₁, hselected, h⟩ := bind_eq_done h
    obtain ⟨ok, s₂, hdeselect, h⟩ := bind_eq_done h
    cases h
    obtain ⟨answer, t, hanswer, hdecided, hallowed⟩ := certificateSelected_decided hselected hdeselect
    exact ⟨answer, t, hanswer, hdecided, fun hret _ => hallowed hret⟩
  · simp only [hMias, Bool.false_eq_true, false_and, if_false] at h ⊢
    cases h
    have hcode : ERR_SE_BAD_KEY_NAME_ERROR ∈ documented := by decide
    exact ⟨.refused, _, rfl, hcode, fun hret => by cases hret⟩

theorem tobPkExtractSe_decided {pk : Option Mem} {size : Int} {path : List UInt8} {pin : Option (List UInt8)}
    (h : tobPkExtractSe T locals pk size path pin fuel s = (.done result, s')) :
    ∃ answer t got, Reader.pk.answer T locals pk path pin fuel s = (.done answer, t) ∧ Decided locals got answer ∧
      result.ret = got.ret ∧ (got.ret = 0 → result.size = got.size + 1) ∧
      (got.ret = 0 → answer ≠ .unselected → Allowed (pathAid s path) (Verifies path) s s') := by
  unfold tobPkExtractSe at h
  unfold Reader.answer Verifies pathAid
  by_cases hEf : SE_EF_KEY_NAME_PREFIX.isPrefixOf path = true
  · simp only [hEf, if_true, true_or] at h ⊢
    obtain ⟨got, s₁, hread, h⟩ := bind_eq_done h
    obtain ⟨rfl, rfl⟩ := nulAppended_eq_done h
    obtain ⟨answer, t, hanswer, hdecided, hallowed⟩ := seReadObject_decided hread
    exact ⟨answer, t, got, hanswer, hdecided, appendNul_ret got, appendNul_size, hallowed⟩
  simp only [hEf, Bool.false_eq_true, if_false, false_or] at h ⊢
  by_cases hP11 : SE_MIAS_P11_KEY_NAME_PREFIX.isPrefixOf path = true
  · simp only [hP11, if_true] at h ⊢
    obtain ⟨got, s₁, hread, h⟩ := bind_eq_done h
    obtain ⟨rfl, rfl⟩ := nulAppended_eq_done h
    obtain ⟨answer, t, hanswer, hdecided, hallowed⟩ := seP11ReadObject_decided hread
    exact ⟨answer, t, got, hanswer, hdecided, appendNul_ret got, appendNul_size, fun hret _ => hallowed hret⟩
  simp only [hP11, Bool.false_eq_true, if_false] at h ⊢
  cases h
  have hcode : ERR_SE_BAD_KEY_NAME_ERROR ∈ documented := by decide
  refine ⟨.refused, s, ⟨ERR_SE_BAD_KEY_NAME_ERROR, pk, size⟩, ?_, hcode, rfl, fun hret =>
    (by cases hret), fun hret => by cases hret⟩
  rw [if_neg (fun h => by cases h.2)]
  rfl

/-- **The return codes of the two functions are sound exactly if the answer decides them**: for every path, PIN, card,
content of the uninitialised locals and buffer, and every run that returns. -/
theorem return_code_sound_iff {reader : Reader} {obj : Option Mem} {size : Int} {path : List UInt8}
    {pin : Option (List UInt8)} (h : reader.run T locals obj size path pin fuel s = (.done result, s')) :
    ∃ answer t, reader.answer T locals obj path pin fuel s = (.done answer, t) ∧
      (SoundCode reader path answer result s s' ↔ answer.Decides locals) := by
  cases reader with
  | x509Crt =>
      obtain ⟨answer, t, hanswer, hdecided, hallowed⟩ := tobX509CrtExtractSe_decided h
      exact ⟨answer, t, hanswer, soundCode_iff hdecided rfl (fun _ => (Int.add_zero _).symm) hallowed⟩
  | pk =>
      obtain ⟨answer, t, got, hanswer, hdecided, hret, hsize, hallowed⟩ := tobPkExtractSe_decided h
      exact ⟨answer, t, hanswer, soundCode_iff hdecided hret hsize hallowed⟩

end Schemes

/-! ### Two runs -/

/-- The channel is opened, the file tree selected, the PIN accepted, and the file has sixteen bytes. -/
def sixteenBytes : List (Option (List UInt8)) :=
  [some [0x01, 0x90, 0x00], some [0x90, 0x00], some [0x90, 0x00], some [0x62, 0x04, 0x80, 0x02, 0x00, 0x10, 0x90, 0x00],
    some [0x90, 0x00]]

theorem return_code_sound_sixteenBytes : ∃ result s' answer t,
    Reader.pk.run scripted ⟨⟨.zero, 0⟩, 0, 0⟩ none 0 (cstr "SE://EF/6F01") (some (cstr "0000")) 9 (sessionOn sixteenBytes) =
      (.done result, s') ∧ result.ret = 0 ∧ result.size = 17 ∧
    Reader.pk.answer scripted ⟨⟨.zero, 0⟩, 0, 0⟩ none (cstr "SE://EF/6F01") (some (cstr "0000")) 9
      (sessionOn sixteenBytes) =
      (.done answer, t) ∧ answer.told = some 16 ∧
    (SoundCode .pk (cstr "SE://EF/6F01") answer result (sessionOn sixteenBytes) s' ↔
      answer.Decides ⟨⟨.zero, 0⟩, 0, 0⟩) := by
  obtain ⟨result, hrun, hresult⟩ := done_of_value?
    (show (Reader.pk.run scripted ⟨⟨.zero, 0⟩, 0, 0⟩ none 0 (cstr "SE://EF/6F01") (some (cstr "0000")) 9
      (sessionOn sixteenBytes)).1.value?.map (fun result => (result.ret, result.size)) = some (0, 17) by decide +kernel)
  obtain ⟨answer, t, hanswer, hsound⟩ := return_code_sound_iff hrun
  have htold : (Reader.pk.answer scripted ⟨⟨.zero, 0⟩, 0, 0⟩ none (cstr "SE://EF/6F01") (some (cstr "0000")) 9
      (sessionOn sixteenBytes)).1.value?.map Answer.told = some (some 16) := by decide +kernel
  rw [hanswer] at htold
  exact ⟨result, _, answer, t, hrun, congrArg Prod.fst hresult, congrArg Prod.snd hresult, hanswer,
    Option.some.inj htold, hsound⟩

/-- The note of a selection. -/
def isSelectedNote : Event → Bool
  | .note (.selected _ _) => true
  | _ => false

/-- The card does not open a channel, nothing is selected, and the call returns what `ret` happened to hold. -/
theorem return_code_zero_unselected : ∃ result s',
    Reader.x509Crt.run scripted ⟨⟨.zero, 0⟩, 0, 0⟩ none 0 (cstr "SE://EF/6F01") (some (cstr "0000")) 9 (sessionOn []) =
      (.done result, s') ∧ result.ret = 0 ∧
    ∀ answer, ¬SoundCode .x509Crt (cstr "SE://EF/6F01") answer result (sessionOn []) s' := by
  obtain ⟨result, hrun, hret⟩ := done_of_value?
    (show (Reader.x509Crt.run scripted ⟨⟨.zero, 0⟩, 0, 0⟩ none 0 (cstr "SE://EF/6F01") (some (cstr "0000")) 9
      (sessionOn [])).1.value?.map Extract.ret = some 0 by decide +kernel)
  refine ⟨result, _, hrun, hret, fun answer hsound => ?_⟩
  obtain ⟨events, hlog, event, hmem, channel, rfl⟩ := hsound.selected hret
  have hselected : .note (.selected (pathAid (sessionOn []) (cstr "SE://EF/6F01")) channel) ∈
      (Reader.x509Crt.run scripted
        ⟨⟨.zero, 0⟩, 0, 0⟩ none 0 (cstr "SE://EF/6F01") (some (cstr "0000")) 9 (sessionOn [])).2.se.log := by
    rw [hlog]
    exact List.mem_append_left _ hmem
  have hnone : ∀ event ∈ (Reader.x509Crt.run scripted ⟨⟨.zero, 0⟩, 0, 0⟩ none 0 (cstr "SE://EF/6F01")
      (some (cstr "0000")) 9
      (sessionOn [])).2.se.log, isSelectedNote event = false := by
    decide +kernel
  cases hnone _ hselected

end Sdk

end TrustOnboard
