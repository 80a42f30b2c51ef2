import TrustOnboard.MiasApdus
import TrustOnboard.MiasDigest
import TrustOnboard.SdkCard

/-! Which calls of the API keep to `_apdu` and send well-formed APDUs only. Of the PIN of the MIAS applet and of a
ciphertext so much is passed on as 16 bits count, and a byte has to count the PIN and the second chunk; all other data
fields are short. -/

namespace TrustOnboard.Sdk

open Exec Linked SEInterface

variable {σ : Type} {T : Transport σ}

/-- The buffer is in bounds, and so are the names of the two applets. -/
structure Fits (s : Sdk σ) : Prop where
  bounded : Bounded s.se
  mf_aid : s.mf.aid.length ≤ 255
  mias_aid : s.mias.applet.aid.length ≤ 255

theorem onMF_orderly {α : Type} {program : Exec (Linked σ Applet) α}
    (h : Stays (Orderly (Linked.Fits Applet.aid) Linked.se) program) : Stays (Orderly Fits Sdk.se) (onMF program) := by
  refine .zoom h fun s t horderly hfits => ?_
  obtain ⟨hlinked, hsends⟩ := horderly ⟨hfits.bounded, hfits.mf_aid⟩
  exact ⟨⟨hlinked.1, hlinked.2, hfits.mias_aid⟩, hsends⟩

theorem onMias_orderly {α : Type} {program : Exec (Linked σ Mias) α}
    (h : Stays (Orderly (Linked.Fits Mias.name) Linked.se) program) : Stays (Orderly Fits Sdk.se) (onMias program) := by
  refine .zoom h fun s t horderly hfits => ?_
  obtain ⟨hlinked, hsends⟩ := horderly ⟨hfits.bounded, hfits.mias_aid⟩
  exact ⟨⟨hlinked.1, hfits.mf_aid, hlinked.2⟩, hsends⟩

theorem selectMias_orderly : Stays (Orderly Fits Sdk.se) (selectMias T) :=
  onMias_orderly (Mias.onApplet_orderly (Applet.select_orderly false))

theorem deselectMias_orderly : Stays (Orderly Fits Sdk.se) (deselectMias T) :=
  onMias_orderly (Mias.onApplet_orderly Applet.deselect_orderly)

/-- A program that takes a string with its length goes on with what is left of it. -/
theorem withStrlen_stays {α : Type} {R : Sdk σ → Sdk σ → Prop} [IsPreorder (Sdk σ) R] {text : Option (List UInt8)}
    {next : List UInt8 → Exec (Sdk σ) α} (h : ∀ own, text = some own → Stays R (next (cut own))) :
    Stays R (withStrlen text >>= next) := by
  cases text with
  | none => exact fun _ s => refl s
  | some own => exact h own rfl

/-! ### Elementary files -/

/-- A decoded path has at most 32 bytes. -/
theorem efnameBytes_length (path : List UInt8) :
    Meets (efnameBytes path) [] (fun _ bytes => bytes.length ≤ 32) fun _ => True := by
  refine Meets.loop (fun x bytes => bytes.length = x.2 ∧ x.2 ≤ 32) (fun _ _ _ => trivial) ?_ ⟨rfl, Nat.zero_le _⟩
  have hstore : ∀ (count : Nat) (bytes : List UInt8) (byte : UInt8), bytes.length = count →
      Meets (do check (count < 32); modify fun bytes => bytes ++ [byte]) bytes
        (fun _ bytes' => bytes'.length = count + 1 ∧ count + 1 ≤ 32) fun _ => True := by
    intro count bytes byte hlength
    refine .check_bind (fun hroom => .modify ⟨?_, hroom⟩) fun _ => trivial
    rw [List.length_append, List.length_singleton, hlength]
  rintro x bytes ⟨hlength, hle⟩
  refine .ite (fun _ => .ite (fun _ => ?_) fun _ => ?_) fun _ => ?_
  · refine .done_bind (fun _ => rfl) (.done_bind (fun _ => rfl) ?_)
    exact .bind (hstore x.2 bytes _ hlength) fun _ _ hstored => .pure hstored
  · exact .bind (hstore x.2 bytes _ hlength) fun _ _ hstored => .pure hstored
  · exact .pure (le_of_eq_of_le hlength hle)

theorem seReadEf_orderly (locals : Locals) {efname : List UInt8} (h : efname.length ≤ 32) (data : Option Mem) (size : Int)
    (pin : Option (List UInt8)) : Stays (Orderly Fits Sdk.se) (seReadEf T locals efname data size pin) := by
  have hselected : Stays (Orderly Fits Sdk.se) (seReadEfSelected T locals efname data pin) := by
    refine .bind (onMF_orderly (Applet.select_orderly false)) fun ok => .ite ?_ (.pure _)
    refine withStrlen_stays fun text _ => .bind (onMF_orderly (MF.verifyPin_orderly _)) fun ok => .ite ?_ (.pure _)
    exact .bind (onMF_orderly (MF.readEF_orderly (Nat.le_trans h (by decide)) _ _)) fun read => .ite (.pure _) (.pure _)
  refine .ite (.pure _) (.bind hselected fun result => ?_)
  exact .bind (onMF_orderly Applet.deselect_orderly) fun _ => .pure _

theorem seReadObject_orderly (locals : Locals) (path : List UInt8) (obj : Option Mem) (size : Int)
    (pin : Option (List UInt8)) : Stays (Orderly Fits Sdk.se) (seReadObject T locals path obj size pin) := by
  refine .ite (.pure _) ?_
  intro fuel s
  have hlength := efnameBytes_length path fuel
  rw [bind_apply, isolated]
  rcases hrun : efnameBytes path fuel [] with ⟨outcome, bytes⟩
  rw [hrun] at hlength
  cases outcome with
  | done count => exact seReadEf_orderly locals hlength obj size pin fuel s
  | fault => exact refl s
  | spent => exact refl s

/-! ### Objects, certificates and keys of the MIAS applet -/

/-- The length that is passed on of the PIN fits a byte. -/
def PinSendable (pin : Option (List UInt8)) : Prop := ∀ text, pin = some text → text.length % 65536 ≤ 255

theorem cut_length (text : List UInt8) : (cut text).length = text.length % 65536 := by
  rw [cut, List.length_take]
  have := Nat.mod_le text.length 65536
  omega

theorem PinSendable.cut_le {pin : Option (List UInt8)} (h : PinSendable pin) {text : List UInt8} (htext : pin = some text) :
    (cut text).length ≤ 255 := by
  rw [cut_length]
  exact h text htext

section Pin

variable {pin : Option (List UInt8)}

theorem seP11ReadObject_orderly (hpin : PinSendable pin) (locals : Locals) (label : List UInt8) (obj : Option Mem)
    (size : Int) : Stays (Orderly Fits Sdk.se) (seP11ReadObject T locals label obj size pin) := by
  have hselected : Stays (Orderly Fits Sdk.se) (seP11ReadSelected T locals label obj size pin) := by
    refine .bind selectMias_orderly fun ok => .ite (withStrlen_stays fun text htext => ?_) (.pure _)
    refine .bind (onMias_orderly (Mias.verifyPin_stays Mias.orderly_bears trivial (hpin.cut_le htext))) fun ok =>
      .ite ?_ (.pure _)
    refine withStrlen_stays fun label _ => .bind (onMias_orderly ?_) fun fetched => .ite (.pure _) (.pure _)
    refine .bind (note_orderly _) fun _ => .bind ?_ fun _ => .bind (note_orderly _) fun _ => .pure _
    exact Mias.p11Lookup_stays Mias.orderly_bears trivial trivial (fun _ _ => trivial) _ _ _
  exact .bind hselected fun result => .bind deselectMias_orderly fun _ => .pure _

/-- A path to an object, which is read behind the PIN. -/
def ObjectPath (path : List UInt8) : Prop := SE_MIAS_P11_KEY_NAME_PREFIX.isPrefixOf path = true

instance (path : List UInt8) : Decidable (ObjectPath path) := inferInstanceAs (Decidable (_ = true))

theorem not_efPath {path : List UInt8} (h : ObjectPath path) : ¬SE_EF_KEY_NAME_PREFIX.isPrefixOf path = true := by
  obtain ⟨rest, rfl⟩ := List.isPrefixOf_iff_prefix.mp h
  exact Bool.false_ne_true

theorem tobX509CrtExtractSe_object {path : List UInt8} (h : ObjectPath path) (locals : Locals) (cert : Option Mem)
    (size : Int)
    (pin : Option (List UInt8)) : tobX509CrtExtractSe T locals cert size path pin =
      seP11ReadObject T locals (path.drop SE_MIAS_P11_KEY_NAME_PREFIX.length) cert size pin := by
  have hprefix : SE_MIAS_P11_KEY_NAME_PREFIX.isPrefixOf path = true := h
  rw [tobX509CrtExtractSe, if_neg (not_efPath h), if_pos hprefix]

theorem tobPkExtractSe_object {path : List UInt8} (h : ObjectPath path) (locals : Locals) (pk : Option Mem) (size : Int)
    (pin : Option (List UInt8)) : tobPkExtractSe T locals pk size path pin =
      seP11ReadObject T locals (path.drop SE_MIAS_P11_KEY_NAME_PREFIX.length) pk size pin >>= nulAppended := by
  have hprefix : SE_MIAS_P11_KEY_NAME_PREFIX.isPrefixOf path = true := h
  rw [tobPkExtractSe, if_neg (not_efPath h), if_pos hprefix]

theorem tobX509CrtExtractSe_orderly {path : List UInt8} (hpin : ObjectPath path → PinSendable pin) (locals : Locals)
    (cert : Option Mem) (size : Int) : Stays (Orderly Fits Sdk.se) (tobX509CrtExtractSe T locals cert size path pin) := by
  unfold tobX509CrtExtractSe
  split
  · exact seReadObject_orderly locals _ cert size pin
  split
  · exact seP11ReadObject_orderly (hpin ‹_›) locals _ cert size
  · refine .ite (.bind ?_ fun result => .bind deselectMias_orderly fun _ => .pure _) (.pure _)
    refine .bind selectMias_orderly fun ok => .ite ?_ (.pure _)
    refine .bind (onMias_orderly ?_) fun fetched => .ite (.pure _) (.pure _)
    exact Mias.getCertificateByContainerId_stays Mias.orderly_bears trivial trivial (fun _ _ => trivial) _ _ _ _

theorem tobPkExtractSe_orderly {path : List UInt8} (hpin : ObjectPath path → PinSendable pin) (locals : Locals)
    (pk : Option Mem) (size : Int) : Stays (Orderly Fits Sdk.se) (tobPkExtractSe T locals pk size path pin) := by
  unfold tobPkExtractSe
  split
  · exact .bind (seReadObject_orderly locals _ pk size pin) fun _ => nulAppended_stays _
  split
  · exact .bind (seP11ReadObject_orderly (hpin ‹_›) locals _ pk size) fun _ => nulAppended_stays _
  · exact .pure _

theorem guarded_orderly {α : Type} {body : Exec (Sdk σ) α} (h : Stays (Orderly Fits Sdk.se) body) (failed : α) :
    Stays (Orderly Fits Sdk.se) (guarded T body failed) := by
  refine .bind selectMias_orderly fun selected => .ite ?_ ?_
  · exact .bind h fun _ => .bind deselectMias_orderly fun _ => .pure _
  · exact .bind (.pure _) fun _ => .bind deselectMias_orderly fun _ => .pure _

theorem signSelected_orderly (hpin : PinSendable pin) (algorithm : UInt8) (hash : Mem) (hashLen : Int) (signature : Mem)
    (len : Int) : Stays (Orderly Fits Sdk.se) (signSelected T algorithm hash hashLen signature len pin) := by
  refine .bind (onMias_orderly (Mias.getKeyPairByContainerId_stays Mias.orderly_bears trivial trivial _))
    fun found => ?_
  cases found with
  | none => exact .pure _
  | some index =>
      refine withStrlen_stays fun text htext => ?_
      refine .bind (onMias_orderly (Mias.verifyPin_stays Mias.orderly_bears trivial (hpin.cut_le htext))) fun ok =>
        .ite ?_ (.pure _)
      refine .bind (.gets _) fun pair => .bind (onMias_orderly (Mias.signInit_stays Mias.orderly_bears trivial _ _))
        fun ok => .ite ?_ (.pure _)
      exact .bind (onMias_orderly (Mias.signFinal_stays Mias.orderly_bears trivial trivial _ _ _ _)) fun fetched =>
        .ite (.pure _) (.pure _)

theorem decryptSelected_orderly (hpin : PinSendable pin) {cipherLen : Int} (hlen : pin ≠ none → toUInt16 cipherLen ≤ 509)
    (cipher plain : Mem) (len : Int) : Stays (Orderly Fits Sdk.se) (decryptSelected T cipher cipherLen plain len pin) := by
  refine .bind (onMias_orderly (Mias.getKeyPairByContainerId_stays Mias.orderly_bears trivial trivial _))
    fun found => ?_
  cases found with
  | none => exact .pure _
  | some index =>
      refine withStrlen_stays fun text htext => ?_
      have hfits : toUInt16 cipherLen ≤ 509 := hlen (by rw [htext]; exact Option.some_ne_none text)
      have hrest : (cipher.slice 254 (toUInt16 cipherLen - 254)).length ≤ 255 := by
        rw [Mem.slice_length]
        omega
      refine .bind (onMias_orderly (Mias.verifyPin_stays Mias.orderly_bears trivial (hpin.cut_le htext))) fun ok =>
        .ite ?_ (.pure _)
      refine .bind (.gets _) fun pair => .bind (onMias_orderly (Mias.decryptInit_stays Mias.orderly_bears trivial _ _))
        fun ok => .ite ?_ (.pure _)
      exact .bind (onMias_orderly (Mias.decryptFinal_stays Mias.orderly_bears trivial trivial _ hrest _ _))
        fun fetched => .ite (.pure _) (.pure _)

end Pin

/-! ### Calls -/

/-- What is passed on of the arguments can be sent: the PIN of the MIAS applet, where the call sends it, and the
ciphertext, of which the second APDU takes what the first leaves. -/
def ApiCall.Sendable : ApiCall → Prop
  | .extractAvailableCertificate _ _ _ _ pin => PinSendable pin
  | .extractAvailablePrivateKey _ _ _ _ _ _ pin => PinSendable pin
  | .extractSigningCertificate _ _ _ _ _ _ => True
  | .signingSign _ _ _ _ _ pin => PinSendable pin
  | .signingDecrypt _ cipherLen _ _ pin => PinSendable pin ∧ (pin ≠ none → toUInt16 cipherLen ≤ 509)
  | .signingLen _ => True
  | .x509CrtExtractSe _ _ _ path pin => ObjectPath path → PinSendable pin
  | .pkExtractSe _ _ _ path pin => ObjectPath path → PinSendable pin

theorem run_orderly {call : ApiCall} (h : call.Sendable) : Stays (Orderly Fits Sdk.se) (call.run T) := by
  cases call with
  | extractAvailableCertificate locals legacyLocals cert size pin =>
      have hread : ∀ path locals cert size,
          Stays (Orderly Fits Sdk.se) (tobX509CrtExtractSe T locals cert size path pin) :=
        fun path locals cert size => tobX509CrtExtractSe_orderly (fun _ => h) locals cert size
      refine .bind (.bind (hread _ _ _ _) fun first => .ite ?_ (.pure _)) fun _ => .pure _
      exact .bind (hread _ _ _ _) fun second => .pure _
  | extractAvailablePrivateKey locals legacyLocals pem pemSize der derSize pin =>
      have hread : ∀ path locals pk size, Stays (Orderly Fits Sdk.se) (tobPkExtractSe T locals pk size path pin) :=
        fun path locals pk size => tobPkExtractSe_orderly (fun _ => h) locals pk size
      refine .bind (.bind (.bind (hread _ _ _ _) fun first => .ite ?_ (.pure _)) fun _ => .pure _) fun _ => .pure _
      exact hread _ _ _ _
  | extractSigningCertificate locals pem pemSize der derSize pin =>
      refine .bind (.bind (tobX509CrtExtractSe_orderly (fun hobject => ?_) _ _ _) fun _ => .pure _) fun _ => .pure _
      exact absurd hobject (by decide)
  | signingSign algorithm hash hashLen signature len pin =>
      exact .bind (guarded_orderly (signSelected_orderly h algorithm hash hashLen signature len) _) fun _ => .pure _
  | signingDecrypt cipher cipherLen plain len pin =>
      exact .bind (guarded_orderly (decryptSelected_orderly h.1 h.2 cipher plain len) _) fun _ => .pure _
  | signingLen pin =>
      refine .bind (guarded_orderly (.bind
        (onMias_orderly (Mias.getKeyPairByContainerId_stays Mias.orderly_bears trivial trivial _)) fun found => ?_) _)
        fun _ => .pure _
      cases found with
      | none => exact .pure _
      | some index => exact .gets _
  | x509CrtExtractSe locals cert size path pin =>
      exact .bind (tobX509CrtExtractSe_orderly h locals cert size) fun _ => .pure _
  | pkExtractSe locals pk size path pin =>
      exact .bind (tobPkExtractSe_orderly h locals pk size) fun _ => .pure _

/-! ### Runs that spoil an APDU -/

section Spoiled

variable {S α β : Type} {se : S → SEInterface σ}

/-- The run wrote past `_apdu`, or it sent an APDU that is not well formed. -/
def Spoiled (se : S → SEInterface σ) (run : Outcome α × S) : Prop :=
  (run.1 = .fault ∧ ¬Bounded (se run.2)) ∨ ∃ apdu ∈ initialSends (se run.2).log, ¬WellFormed apdu

/-- The log only grew. -/
def Lengthens (se : S → SEInterface σ) (s s' : S) : Prop := ∃ events, (se s').log = events ++ (se s).log

instance : IsPreorder S (Lengthens se) where
  refl _ := ⟨[], rfl⟩
  trans := by
    rintro a b c ⟨first, hlog⟩ ⟨second, hlog'⟩
    exact ⟨second ++ first, by rw [hlog', hlog, List.append_assoc]⟩

theorem lengthens_of_onWire {kind : Event → Prop} {program : Exec S α} (h : Stays (OnWire T se kind) program) :
    Stays (Lengthens se) program :=
  h.mono fun _ _ ⟨events, hlog, _⟩ => ⟨events, hlog⟩

/-- What comes later does not mend it. -/
theorem Spoiled.bind {program : Exec S α} {next : α → Exec S β} {fuel : Nat} {s : S} (h : Spoiled se (program fuel s))
    (hnext : ∀ value, Stays (Lengthens se) (next value)) :
    Spoiled se ((program >>= next) fuel s) := by
  rcases h with ⟨hfault, hlong⟩ | ⟨apdu, hmem, hform⟩
  · rw [bind_apply]
    rcases hrun : program fuel s with ⟨outcome, s'⟩
    rw [hrun] at hfault hlong
    cases hfault
    exact Or.inl ⟨rfl, hlong⟩
  · obtain ⟨events, hlog⟩ := Stays.after hnext fuel s
    refine Or.inr ⟨apdu, ?_, hform⟩
    rw [hlog]
    exact initialSends_append_right events hmem

end Spoiled

/-! ### A card that answers from a list -/

section Script

variable {answers : List (Option (List UInt8))} {cla p1 p2 : UInt8} {ins : SCIns} {data : List UInt8}

/-- Data that a byte cannot count: 256 or 257 bytes are sent with a wrong Lc, more do not fit `_apdu`. -/
theorem transmitCase3_spoiled {s : SEInterface (List (Option (List UInt8)))} {event : Event} {earlier : List Event}
    (hcard : s.card = []) (hlog : s.log = event :: earlier) (hsilent : Silent event) (hlong : 255 < data.length) :
    Spoiled id (SEInterface.transmitCase3 scripted cla ins p1 p2 data 2 s) := by
  let apdu := cla :: ins.code :: p1 :: p2 :: lowByte data.length :: data
  have hrun : SEInterface.transmitCase3 scripted cla ins p1 p2 data 2 s =
      (fill apdu >>= fun _ => SEInterface.command scripted apdu) 2 s := rfl
  rw [hrun]
  by_cases hfits : apdu.length ≤ apduSize
  · have hfill : fill apdu 2 s = (.done (), { s with apdu := apdu }) := check_pos hfits 2 _
    have hsent : (SEInterface.command scripted apdu 2 { s with apdu := apdu }).2.log =
        .unanswered apdu :: .exchange apdu none :: s.log := by
      rcases s with ⟨card, _, response, responseLen, log⟩
      cases hcard
      rfl
    refine Or.inr ⟨apdu, ?_, not_wellFormed hlong⟩
    rw [bind_done hfill, id, hsent, hlog]
    exact mem_initialSends hsilent apdu none earlier
  · have hfill : fill apdu 2 s = (.fault, { s with apdu := apdu }) := check_neg hfits 2 _
    rw [bind_apply, hfill]
    exact Or.inl ⟨rfl, hfits⟩

/-- A command that the card accepts. -/
theorem transmitCase3_scripted {s : SEInterface (List (Option (List UInt8)))}
    (hcard : s.card = some [0x90, 0x00] :: answers) (hshort : data.length ≤ 255) :
    ∃ s', SEInterface.transmitCase3 scripted cla ins p1 p2 data 2 s = (.done true, s') ∧ s'.card = answers ∧
      SEInterface.getStatusWord s' = swOK ∧ ∃ event earlier, s'.log = event :: earlier ∧ Silent event := by
  let request : Request := ⟨cla, ins.code, p1, p2, .case3 data⟩
  have hdata : request.data.length ≤ 255 := hshort
  have hrun : SEInterface.transmitCase3 scripted cla ins p1 p2 data 2 s =
      SEInterface.command scripted request.apdu 2 { s with apdu := request.apdu } :=
      Request.transmit_apply scripted hdata 2 s
  have hstatus : word16 0x90 0x00 = swOK := by decide
  rcases s with ⟨card, _, response, responseLen, log⟩
  cases hcard
  exact ⟨_, hrun, rfl, hstatus, .answered request.apdu [0x90, 0x00], _, rfl, fun _ _ heq => by cases heq⟩

/-- The applet is selected, the card has these answers left, and the last event is no exchange. -/
structure Standing (answers : List (Option (List UInt8))) (s : Linked (List (Option (List UInt8))) Applet) : Prop where
  isSelected : s.obj.isSelected = true
  attached : s.obj.attached = true
  card_eq : s.se.card = answers
  silent : ∃ event earlier, s.se.log = event :: earlier ∧ Silent event

variable {s : Linked (List (Option (List UInt8))) Applet}

theorem Standing.transmitCase3_eq (h : Standing answers s) :
    Applet.transmitCase3 scripted cla ins p1 p2 data 2 s =
      onSE (SEInterface.transmitCase3 scripted (cla ||| s.obj.channel) ins p1 p2 data) 2 s := by
  rw [Applet.transmitCase3, Applet.whenSelected, bind_apply, gets_apply]
  simp only [if_pos h.isSelected, bind_apply, check_pos h.attached]

theorem Standing.spoiled (h : Standing [] s) (hlong : 255 < data.length) :
    Spoiled Linked.se (Applet.transmitCase3 scripted cla ins p1 p2 data 2 s) := by
  obtain ⟨event, earlier, hlog, hsilent⟩ := h.silent
  rw [h.transmitCase3_eq]
  exact transmitCase3_spoiled h.card_eq hlog hsilent hlong

theorem Standing.ok_spoiled (h : Standing [] s) (hlong : 255 < data.length) :
    Spoiled Linked.se (Applet.ok (Applet.transmitCase3 scripted cla ins p1 p2 data) 2 s) :=
  (h.spoiled hlong).bind fun _ => .ite (.gets _) (.pure _)

theorem Standing.accepted (h : Standing (some [0x90, 0x00] :: answers) s) (hshort : data.length ≤ 255) :
    ∃ s', Applet.ok (Applet.transmitCase3 scripted cla ins p1 p2 data) 2 s = (.done true, s') ∧ s'.obj = s.obj ∧
      Standing answers s' := by
  obtain ⟨t, hrun, hcard, hstatus, hsilent⟩ := transmitCase3_scripted h.card_eq hshort
  have hsent : Applet.transmitCase3 scripted cla ins p1 p2 data 2 s = (.done true, ⟨t, s.obj⟩) :=
    h.transmitCase3_eq.trans (zoom_done hrun)
  refine ⟨⟨t, s.obj⟩, ?_, rfl, h.isSelected, h.attached, hcard, hsilent⟩
  rw [Applet.ok, bind_done hsent, if_pos rfl, gets_apply, Applet.getStatusWord, if_pos h.isSelected, hstatus,
    decide_eq_true rfl]

/-- The same from the MIAS object. -/
theorem ok_accepted {s : Linked (List (Option (List UInt8))) Mias}
    (h : Standing (some [0x90, 0x00] :: answers) ⟨s.se, s.obj.applet⟩) (hshort : data.length ≤ 255) :
    ∃ s', Mias.ok (Applet.transmitCase3 scripted cla ins p1 p2 data) 2 s = (.done true, s') ∧
      Standing answers ⟨s'.se, s'.obj.applet⟩ := by
  obtain ⟨t, hrun, _, hstanding⟩ := h.accepted hshort
  exact ⟨(objLens Mias.appletLens).set t s, zoom_done hrun, hstanding⟩

/-- A ciphertext of which the second APDU cannot take the rest. -/
theorem decryptFinal_spoiled {s : Linked (List (Option (List UInt8))) Mias}
    (h : Standing [some [0x90, 0x00]] ⟨s.se, s.obj.applet⟩) {dataLen : Nat} (hlong : 509 < dataLen) (cipher plain : Mem)
    (len : Nat) :
    Spoiled Linked.se (Mias.decryptFinal scripted cipher dataLen plain len 2 s) := by
  have hlength : (SCTag.PSOPaddingProprietary1 :: cipher.slice 0 254).length = 255 := by
    rw [List.length_cons, Mem.slice_length]
  have hrest : 255 < (cipher.slice 254 (dataLen - 254)).length := by
    rw [Mem.slice_length]
    omega
  have hresult : ∀ sent : Bool, Stays (Lengthens Linked.se)
      (if sent = true then Mias.decipherResult scripted plain len else return ⟨false, some plain, len⟩) := by
    have hwithin : Stays (Within scripted Mias.applet (fun _ => True) fun _ => True)
        (Mias.decipherResult scripted plain len) :=
      Mias.decipherResult_stays Mias.within_bears trivial plain len
    exact fun _ => .ite (lengthens_of_onWire (hwithin.mono fun _ _ h => h.onWire)) (.pure _)
  obtain ⟨t, hrun, hstanding⟩ := ok_accepted h (Nat.le_of_eq hlength)
  rw [Mias.decryptFinal, Mias.psoDecipher, if_neg (by omega), bind_done hrun, if_pos rfl]
  have hsent : Spoiled Linked.se
      (Mias.onApplet (Applet.transmitCase3 scripted 0x00 .performSecurityOperation SCP1.PSOPlain
        SCP2.PSOPadding (cipher.slice 254 (dataLen - 254))) 2 t) := hstanding.spoiled hrest
  exact hsent.bind hresult

end Script

/-! ### Calls that spoil an APDU -/

section Calls

variable {answers : List (Option (List UInt8))} {s : Sdk (List (Option (List UInt8)))} {pin text : List UInt8}

theorem onMias_accepted {cla p1 p2 : UInt8} {ins : SCIns} {data : List UInt8}
    (h : Standing (some [0x90, 0x00] :: answers) ⟨s.se, s.mias.applet⟩) (hshort : data.length ≤ 255) :
    ∃ s', onMias (Mias.ok (Applet.transmitCase3 scripted cla ins p1 p2 data)) 2 s = (.done true, s') ∧
      Standing answers ⟨s'.se, s'.mias.applet⟩ := by
  obtain ⟨t, hrun, hstanding⟩ := ok_accepted (s := ⟨s.se, s.mias⟩) h hshort
  exact ⟨miasLens.set t s, zoom_done hrun, hstanding⟩

theorem verifyPin_spoiled (h : Standing [] ⟨s.se, s.mias.applet⟩) (hlong : 255 < pin.length) :
    Spoiled Sdk.se (onMias (Mias.verifyPin scripted pin) 2 s) := h.ok_spoiled hlong

theorem deselectMias_lengthens : Stays (Lengthens Sdk.se) (deselectMias T) := by
  have hwire : Stays (OnWire T Sdk.se (Wire (fun _ => True) fun _ => True)) (deselectMias T) :=
    deselectMias_wire trivial fun _ _ => trivial
  exact lengthens_of_onWire hwire

theorem onMias_lengthens {α : Type} {program : Exec (Linked σ Mias) α}
    (h : Stays (Within T Mias.applet (fun _ => True) fun _ => True) program) : Stays (Lengthens Sdk.se) (onMias program) :=
  lengthens_of_onWire (onMias_wire h)

/-- `seP11ReadSelected` behind the verification of the PIN. -/
theorem p11Verified_lengthens (locals : Locals) (label : List UInt8) (obj : Option Mem) (size : Int) (ok : Bool) :
    Stays (Lengthens Sdk.se) (if ok = true then do
        let label ← withStrlen (some label)
        let fetched ← onMias (Mias.p11GetObjectByLabel T locals.p11 label obj)
        if fetched.ok then
          return ⟨0, fetched.out, fetched.len⟩
        else
          return ⟨ERR_SE_MIAS_READ_OBJECT_ERROR, fetched.out, size⟩
      else
        return (⟨ERR_SE_EF_VERIFY_PIN_ERROR, obj, size⟩ : Extract)) := by
  have hget : ∀ label, Stays (Within T Mias.applet (fun _ => True) fun _ => True)
      (Mias.p11GetObjectByLabel T locals.p11 label obj) := by
    intro label
    refine .bind (note_within trivial) fun _ => .bind ?_ fun _ => .bind (note_within trivial) fun _ => .pure _
    exact Mias.p11Lookup_stays Mias.within_bears trivial trivial (fun _ _ => trivial) _ _ _
  refine .ite (withStrlen_stays fun label _ => ?_) (.pure _)
  exact .bind (onMias_lengthens (hget _)) fun fetched => .ite (.pure _) (.pure _)

theorem seP11ReadObject_lengthens (locals : Locals) (label : List UInt8) (obj : Option Mem) (size : Int)
    (pin : Option (List UInt8)) : Stays (Lengthens Sdk.se) (seP11ReadObject T locals label obj size pin) := by
  refine .bind ?_ fun _ => .bind deselectMias_lengthens fun _ => .pure _
  have hwire : Stays (OnWire T Sdk.se (Wire (fun _ => True) fun _ => True)) (selectMias T) :=
    selectMias_wire trivial trivial fun _ _ => trivial
  refine .bind (lengthens_of_onWire hwire) fun ok => .ite (withStrlen_stays fun text _ => ?_) (.pure _)
  exact .bind (onMias_lengthens (Mias.verifyPin_stays Mias.within_bears trivial trivial))
    (p11Verified_lengthens locals label obj size)

/-- A card that opens a channel, selects the applet on it and is then silent. -/
def admission : List (Option (List UInt8)) := [some [0x01, 0x90, 0x00], some [0x90, 0x00]]

theorem seP11ReadObject_spoiled (hlong : 255 < (cut text).length) (locals : Locals) (label : List UInt8) (obj : Option Mem)
    (size : Int) :
    Spoiled Sdk.se (seP11ReadObject scripted locals label obj size (some text) 2 (sessionOn admission)) := by
  let admitted := (selectMias scripted 2 (sessionOn admission)).2
  have hselect : selectMias scripted 2 (sessionOn admission) = (.done true, admitted) := rfl
  have hstanding : Standing [] ⟨admitted.se, admitted.mias.applet⟩ :=
    ⟨rfl, rfl, rfl, .note (.selected Mias.aid 1), _, rfl, fun _ _ heq => by cases heq⟩
  have hselected : Spoiled Sdk.se
      (seP11ReadSelected scripted locals label obj size (some text) 2 (sessionOn admission)) := by
    rw [seP11ReadSelected, bind_done hselect]
    exact (verifyPin_spoiled hstanding hlong).bind (p11Verified_lengthens locals label obj size)
  exact hselected.bind fun _ => .bind deselectMias_lengthens fun _ => .pure _

/-- A card with one container, an RSA key of 1024 bits, that accepts so many commands after the look-up and is then
silent. -/
def keyAnswers (accepted : Nat) : List (Option (List UInt8)) := signing.take (5 + accepted)

/-- The session on that card behind the selection and behind the look-up of the key pair. -/
def keySelected (accepted : Nat) : Sdk (List (Option (List UInt8))) :=
  (selectMias scripted 2 (sessionOn (keyAnswers accepted))).2

def keyLocated (accepted : Nat) : Sdk (List (Option (List UInt8))) :=
  (onMias (Mias.getKeyPairByContainerId scripted signingContainerId) 2 (keySelected accepted)).2

theorem keySelected_eq (accepted : Fin 4) :
    selectMias scripted 2 (sessionOn (keyAnswers accepted)) = (.done true, keySelected accepted) := by
  have hall : ∀ n : Fin 4, (selectMias scripted 2 (sessionOn (keyAnswers n))).1 = .done true := by decide +kernel
  exact Prod.ext (hall accepted) rfl

theorem keyLocated_eq (accepted : Fin 4) :
    onMias (Mias.getKeyPairByContainerId scripted signingContainerId) 2 (keySelected accepted) =
      (.done (some 0), keyLocated accepted) := by
  have hall : ∀ n : Fin 4, (onMias (Mias.getKeyPairByContainerId scripted signingContainerId) 2 (keySelected n)).1 =
      .done (some 0) := by decide +kernel
  exact Prod.ext (hall accepted) rfl

theorem keyLocated_standing (accepted : Fin 4) : Standing (List.replicate accepted (some [0x90, 0x00]))
    ⟨(keyLocated accepted).se, (keyLocated accepted).mias.applet⟩ := by
  have happlet : ∀ n : Fin 4, (keyLocated n).mias.applet.isSelected = true ∧
      (keyLocated n).mias.applet.attached = true := by
    decide +kernel
  have hcard : ∀ n : Fin 4, (keyLocated n).se.card = List.replicate n (some [0x90, 0x00]) := by decide +kernel
  have hhead : ∀ n : Fin 4, (keyLocated n).se.log.head? =
      some (.answered [0x01, 0xA4, 0x08, 0x04, 0x02, 0x01, 0x01, 0x15] [0x6A, 0x82]) := by decide +kernel
  obtain ⟨earlier, hlog⟩ := List.head?_eq_some_iff.mp (hhead accepted)
  exact ⟨(happlet accepted).1, (happlet accepted).2, hcard accepted, _, earlier, hlog, fun _ _ heq => by cases heq⟩

/-- The scope of the guard on that card. -/
theorem guarded_spoiled {α : Type} {body : Exec (Sdk (List (Option (List UInt8)))) α} {failed : α} (accepted : Fin 4)
    (h : Spoiled Sdk.se (body 2 (keySelected accepted))) :
    Spoiled Sdk.se (guarded scripted body failed 2 (sessionOn (keyAnswers accepted))) := by
  rw [guarded, bind_done (keySelected_eq accepted)]
  exact h.bind fun _ => .bind deselectMias_lengthens fun _ => .pure _

theorem tobSigningSign_spoiled (hlong : 255 < (cut text).length) (algorithm : UInt8) (hash : Mem) (hashLen : Int)
    (signature : Mem) (len : Int) :
    Spoiled Sdk.se (tobSigningSign scripted algorithm hash hashLen signature len (some text) 2
      (sessionOn (keyAnswers 0))) := by
  apply guarded_spoiled 0
  rw [signSelected, bind_done (keyLocated_eq 0)]
  refine (verifyPin_spoiled (keyLocated_standing 0) hlong).bind fun ok =>
    .ite (.bind (.gets _) fun pair => ?_) (.pure _)
  refine .bind (onMias_lengthens (Mias.signInit_stays Mias.within_bears trivial _ _)) fun ok => .ite ?_ (.pure _)
  exact .bind (onMias_lengthens (Mias.signFinal_stays Mias.within_bears trivial trivial _ _ _ _)) fun fetched =>
    .ite (.pure _) (.pure _)

/-- `decryptSelected` behind the verification of the PIN. -/
theorem decryptVerified_lengthens (cipher : Mem) (cipherLen : Int) (plain : Mem) (len : Int) (index : Nat) (ok : Bool) :
    Stays (Lengthens Sdk.se) (if ok = true then do
        let pair ← gets fun s : Sdk σ => s.mias.keypairs index
        if ← onMias (Mias.decryptInit T ALGO_RSA_PKCS1_PADDING pair.kid) then
          let fetched ← onMias (Mias.decryptFinal T cipher (toUInt16 cipherLen) plain 0)
          if fetched.ok then
            return ⟨0, fetched.out, fetched.len⟩
          else
            return ⟨ERR_SE_BAD_KEY_NAME_ERROR, fetched.out, len⟩
        else
          return ⟨ERR_SE_BAD_KEY_NAME_ERROR, some plain, len⟩
      else
        return (⟨ERR_SE_EF_VERIFY_PIN_ERROR, some plain, len⟩ : Extract)) := by
  refine .ite (.bind (.gets _) fun pair => ?_) (.pure _)
  refine .bind (onMias_lengthens (Mias.decryptInit_stays Mias.within_bears trivial _ _)) fun ok => .ite ?_ (.pure _)
  exact .bind (onMias_lengthens (Mias.decryptFinal_stays Mias.within_bears trivial trivial _ trivial _ _))
    fun fetched => .ite (.pure _) (.pure _)

theorem tobSigningDecrypt_spoiled_pin (hlong : 255 < (cut text).length) (cipher : Mem) (cipherLen : Int) (plain : Mem)
    (len : Int) :
    Spoiled Sdk.se (tobSigningDecrypt scripted cipher cipherLen plain len (some text) 2 (sessionOn (keyAnswers 0))) := by
  apply guarded_spoiled 0
  rw [decryptSelected, bind_done (keyLocated_eq 0)]
  exact (verifyPin_spoiled (keyLocated_standing 0) hlong).bind (decryptVerified_lengthens cipher cipherLen plain len 0)

/-- With a PIN that can be sent the ciphertext is reached. -/
theorem tobSigningDecrypt_spoiled_cipher (hshort : (cut text).length ≤ 255) (cipher : Mem) {cipherLen : Int}
    (hlong : 509 < toUInt16 cipherLen) (plain : Mem) (len : Int) :
    Spoiled Sdk.se (tobSigningDecrypt scripted cipher cipherLen plain len (some text) 2 (sessionOn (keyAnswers 3))) := by
  obtain ⟨verified, hverify, hstanding⟩ : ∃ verified, onMias (Mias.verifyPin scripted (cut text)) 2 (keyLocated 3) =
      (.done true, verified) ∧ Standing (List.replicate 2 (some [0x90, 0x00])) ⟨verified.se, verified.mias.applet⟩ :=
    onMias_accepted (keyLocated_standing 3) hshort
  obtain ⟨prepared, hinit, hprepared⟩ : ∃ prepared, onMias (Mias.decryptInit scripted ALGO_RSA_PKCS1_PADDING
      (verified.mias.keypairs 0).kid) 2 verified = (.done true, prepared) ∧
      Standing [some [0x90, 0x00]] ⟨prepared.se, prepared.mias.applet⟩ := by
    let mias := { verified.mias with
      decryptAlgo := ALGO_RSA_PKCS1_PADDING, decryptKey := (verified.mias.keypairs 0).kid }
    have hsix : [SCTag.MSEAlgReference, 0x01, ALGO_RSA_PKCS1_PADDING, SCTag.MSEPublicKey, 0x01,
      (verified.mias.keypairs 0).kid].length ≤ 255 := Nat.le_of_ble_eq_true rfl
    exact onMias_accepted (s := { verified with mias := mias }) hstanding hsix
  have hfinal : Spoiled Sdk.se (onMias (Mias.decryptFinal scripted cipher (toUInt16 cipherLen) plain 0) 2 prepared) :=
    decryptFinal_spoiled hprepared hlong cipher plain 0
  apply guarded_spoiled 3
  rw [decryptSelected, bind_done (keyLocated_eq 3)]
  refine (congrArg (Spoiled Sdk.se) ((bind_done hverify).trans (bind_done hinit))).mpr ?_
  exact hfinal.bind fun fetched => .ite (.pure _) (.pure _)

theorem tobX509CrtExtractSe_spoiled {path : List UInt8} (hpath : ObjectPath path) (hlong : 255 < (cut text).length)
    (locals : Locals) (cert : Option Mem) (size : Int) :
    Spoiled Sdk.se (tobX509CrtExtractSe scripted locals cert size path (some text) 2 (sessionOn admission)) := by
  rw [tobX509CrtExtractSe_object hpath]
  exact seP11ReadObject_spoiled hlong locals _ cert size

theorem tobPkExtractSe_spoiled {path : List UInt8} (hpath : ObjectPath path) (hlong : 255 < (cut text).length)
    (locals : Locals) (pk : Option Mem) (size : Int) :
    Spoiled Sdk.se (tobPkExtractSe scripted locals pk size path (some text) 2 (sessionOn admission)) := by
  rw [tobPkExtractSe_object hpath]
  exact (seP11ReadObject_spoiled hlong locals _ pk size).bind fun _ => nulAppended_stays _

theorem tobExtractAvailableCertificate_spoiled (hlong : 255 < (cut text).length) (locals legacyLocals : Locals)
    (cert : Option Mem) (size : Int) : Spoiled Sdk.se
      (tobExtractAvailableCertificate scripted locals legacyLocals cert size (some text) 2 (sessionOn admission)) := by
  have hlegacy : ObjectPath CERT_MIAS_PATH_LEGACY := by decide
  refine (tobX509CrtExtractSe_spoiled (by decide) hlong locals cert size).bind fun first => .ite ?_ (.pure _)
  rw [tobX509CrtExtractSe_object hlegacy]
  exact .bind (seP11ReadObject_lengthens _ _ _ _ _) fun _ => .pure _

theorem tobExtractAvailablePrivateKey_spoiled (hlong : 255 < (cut text).length) (locals legacyLocals : Locals)
    (pem : Option Mem) (pemSize : Option Int) (der : Option Mem) (derSize : Int) : Spoiled Sdk.se
      (tobExtractAvailablePrivateKey scripted locals legacyLocals pem pemSize der derSize (some text) 2
        (sessionOn admission)) := by
  have hlegacy : ObjectPath PK_MIAS_PATH_LEGACY := by decide
  have hder : Spoiled Sdk.se (tobExtractAvailablePrivateKeyDer scripted locals legacyLocals der derSize (some text) 2
      (sessionOn admission)) := by
    refine (tobPkExtractSe_spoiled (by decide) hlong locals der derSize).bind fun first => .ite ?_ (.pure _)
    rw [tobPkExtractSe_object hlegacy]
    exact .bind (seP11ReadObject_lengthens _ _ _ _ _) fun _ => nulAppended_stays _
  exact hder.bind fun _ => .pure _

end Calls

/-! ### The exact condition -/

/-- Whatever the card and the state of the session: the call keeps to `_apdu`, and each of its initial sends is well
formed. -/
def ApiCall.SendsInOrder (call : ApiCall) : Prop :=
  ∀ (σ : Type) (T : Transport σ) (s : Sdk σ), Fits s → ∀ fuel,
    Bounded (call.run T fuel s).2.se ∧ SendsWell s.se (call.run T fuel s).2.se

theorem sendsInOrder_of_sendable {call : ApiCall} (h : call.Sendable) : call.SendsInOrder := by
  intro σ T s hfits fuel
  obtain ⟨hfits', hsends⟩ := run_orderly h fuel s hfits
  exact ⟨hfits'.bounded, hsends⟩

/-- A new session with a card that answers from a list. -/
theorem sessionOn_fits (answers : List (Option (List UInt8))) : Fits (sessionOn answers) where
  bounded := Nat.zero_le _
  mf_aid := Nat.le_of_ble_eq_true rfl
  mias_aid := Nat.le_of_ble_eq_true rfl

theorem Spoiled.not_sendsInOrder {call : ApiCall} {answers : List (Option (List UInt8))} {fuel : Nat}
    (h : Spoiled Sdk.se (call.run scripted fuel (sessionOn answers))) : ¬call.SendsInOrder := by
  intro hkeeps
  obtain ⟨hbounded, events, hlog, hevents⟩ := hkeeps _ scripted (sessionOn answers) (sessionOn_fits answers) fuel
  have hnil : (sessionOn answers).se.log = [] := rfl
  rw [hnil, List.append_nil] at hlog
  rcases h with ⟨_, hlong⟩ | ⟨apdu, hmem, hform⟩
  · exact hlong hbounded
  · rw [hlog] at hmem
    exact hform (hevents apdu hmem)

/-- A PIN that cannot be sent is one that is passed on with more than 255 bytes. -/
theorem not_pinSendable {pin : Option (List UInt8)} (h : ¬PinSendable pin) :
    ∃ text, pin = some text ∧ 255 < (cut text).length := by
  by_contra hnone
  apply h
  intro text htext
  by_contra hlong
  exact hnone ⟨text, htext, by rw [cut_length]; omega⟩

/-- The call of a function that spoils an APDU does. -/
theorem not_sendsInOrder {α : Type} {call : ApiCall} {program : Exec (Sdk (List (Option (List UInt8)))) α}
    {view : α → ApiResult} {answers : List (Option (List UInt8))} (h : Spoiled Sdk.se (program 2 (sessionOn answers)))
    (hcall : call.run scripted = program >>= fun result => pure (view result)) : ¬call.SendsInOrder := by
  have hrun : Spoiled Sdk.se (call.run scripted 2 (sessionOn answers)) := by
    rw [hcall]
    exact h.bind fun _ => .pure _
  exact hrun.not_sendsInOrder

theorem sendable_of_sendsInOrder {call : ApiCall} (h : call.SendsInOrder) : call.Sendable := by
  by_contra hnot
  cases call with
  | extractAvailableCertificate locals legacyLocals cert size pin =>
      obtain ⟨text, rfl, hlong⟩ := not_pinSendable hnot
      exact not_sendsInOrder (tobExtractAvailableCertificate_spoiled hlong locals legacyLocals cert size) rfl h
  | extractAvailablePrivateKey locals legacyLocals pem pemSize der derSize pin =>
      obtain ⟨text, rfl, hlong⟩ := not_pinSendable hnot
      exact not_sendsInOrder
        (tobExtractAvailablePrivateKey_spoiled hlong locals legacyLocals pem pemSize der derSize) rfl h
  | extractSigningCertificate locals pem pemSize der derSize pin => exact hnot trivial
  | signingSign algorithm hash hashLen signature len pin =>
      obtain ⟨text, rfl, hlong⟩ := not_pinSendable hnot
      exact not_sendsInOrder (tobSigningSign_spoiled hlong algorithm hash hashLen signature len) rfl h
  | signingDecrypt cipher cipherLen plain len pin =>
      by_cases hpin : PinSendable pin
      · have hcipher : pin ≠ none ∧ 509 < toUInt16 cipherLen := by
          by_contra hfits
          exact hnot ⟨hpin, fun hsome => Nat.le_of_not_lt fun hlong => hfits ⟨hsome, hlong⟩⟩
        obtain ⟨text, rfl⟩ := Option.ne_none_iff_exists'.mp hcipher.1
        exact not_sendsInOrder (tobSigningDecrypt_spoiled_cipher (hpin.cut_le rfl) cipher hcipher.2 plain len) rfl h
      · obtain ⟨text, rfl, hlong⟩ := not_pinSendable hpin
        exact not_sendsInOrder (tobSigningDecrypt_spoiled_pin hlong cipher cipherLen plain len) rfl h
  | signingLen pin => exact hnot trivial
  | x509CrtExtractSe locals cert size path pin =>
      obtain ⟨hpath, hpin⟩ := Classical.not_imp.mp hnot
      obtain ⟨text, rfl, hlong⟩ := not_pinSendable hpin
      exact not_sendsInOrder (tobX509CrtExtractSe_spoiled hpath hlong locals cert size) rfl h
  | pkExtractSe locals pk size path pin =>
      obtain ⟨hpath, hpin⟩ := Classical.not_imp.mp hnot
      obtain ⟨text, rfl, hlong⟩ := not_pinSendable hpin
      exact not_sendsInOrder (tobPkExtractSe_spoiled hpath hlong locals pk size) rfl h

/-- A call keeps to `_apdu` and sends well-formed APDUs only, exactly if a byte counts what is passed on. -/
theorem sendsInOrder_iff (call : ApiCall) : call.SendsInOrder ↔ call.Sendable :=
  ⟨sendable_of_sendsInOrder, sendsInOrder_of_sendable⟩

end TrustOnboard.Sdk
