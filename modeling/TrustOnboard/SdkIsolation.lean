import TrustOnboard.MiasRelations
import TrustOnboard.SdkProcess
import TrustOnboard.SdkQuery

/-! Initialising a second interface. The objects are attached to it but not constructed anew: what the first card
left in them is used with the second. The later calls do not depend on the first card if there is nothing left
that they read. -/

namespace TrustOnboard.Sdk

open Exec Linked SEInterface Applet

variable {σ : Type} {T : Transport σ} {F M : Applet → Applet → Prop} {keys sign : Prop}

/-- The same interface; applets that are related, on request with the same key pairs. -/
structure Same (F M : Applet → Applet → Prop) (keys sign : Prop) (s t : Sdk σ) : Prop where
  se_eq : s.se = t.se
  mf : F s.mf t.mf
  mias : Mias.SameTables M keys sign False False s.mias t.mias

/-- Related applets stay related when they are selected and deselected. -/
structure Selectable (T : Transport σ) (rel : Applet → Applet → Prop) : Prop where
  tied : Tied rel
  select : Respects (SameSE rel) (Applet.select T false)
  deselect : Respects (SameSE rel) (Applet.deselect T)

theorem onMF_respects {α : Type} {program : Exec (Linked σ Applet) α}
    (h : Respects (SameSE F) program) : Respects (Same F M keys sign) (onMF program) := by
  refine h.zoom (fun s t hst => ⟨hst.se_eq, hst.mf⟩) ?_
  intro value s t a b hst hab
  exact ⟨hab.1, hab.2, hst.mias⟩

theorem onMias_relates {α : Type} {program : Exec (Linked σ Mias) α}
    {Q : α → Mias → Mias → Prop} {Q' : α → Sdk σ → Sdk σ → Prop}
    (h : Relates (Mias.Paired M keys sign False False) (fun value => SameSE (Q value)) program)
    (hpost : ∀ value (s t : Sdk σ) m n se, Same F M keys sign s t → Q value m n →
      Q' value { s with se := se, mias := m } { t with se := se, mias := n }) :
    Relates (Same F M keys sign) Q' (onMias program) := by
  refine h.zoom (fun s t hst => ⟨hst.se_eq, hst.mias⟩) ?_
  rintro value s t ⟨se, m⟩ ⟨se', n⟩ hst ⟨hse, hmn⟩
  obtain rfl : se = se' := hse
  exact hpost value s t m n se hst hmn

theorem onMias_respects {α : Type} {program : Exec (Linked σ Mias) α}
    (h : Respects (Mias.Paired M keys sign False False) program) : Respects (Same F M keys sign) (onMias program) :=
  onMias_relates h fun _ _ _ _ _ _ hst hmn => ⟨rfl, hst.mf, hmn⟩

theorem withStrlen_respects (text : Option (List UInt8)) :
    Respects (Same F M keys sign) (withStrlen text : Exec (Sdk σ) (List UInt8)) := by
  cases text with
  | none => exact .fault
  | some text => exact Respects.pure _

/-! ### Elementary files -/

section Files

variable (htied : Tied F)

include htied

theorem mfVerifyPin_respects (pin : List UInt8) : Respects (SameSE F) (MF.verifyPin T pin) :=
  .ite (fun _ => Respects.pure _) fun _ => htied.ok (htied.whenSelected _ _)

theorem readEF_respects (path : List UInt8) (data : Option Mem) (dataLen : Nat) :
    Respects (SameSE F) (MF.readEF T path data dataLen) := by
  unfold MF.readEF Applet.transmitCase4
  refine (htied.ok (htied.whenSelected _ _)).bind fun ok => .ite (fun _ => ?_) fun _ => Respects.pure _
  refine (SameSE.onSE _).bind fun length => (SameSE.onSE _).bind fun size => ?_
  cases size with
  | none => exact Respects.pure _
  | some size =>
      cases data with
      | none => exact Respects.pure _
      | some out =>
          refine .bind (Respects.loop (fun x => .ite (fun _ => ?_) fun _ => Respects.pure _) _)
            fun _ => Respects.pure _
          unfold Applet.transmitCase2
          refine (htied.ok (htied.whenSelected _ _)).bind fun ok => .ite (fun _ => ?_) fun _ => Respects.pure _
          exact .bind (Respects.gets fun _ _ hst => htied.getResponse_eq hst) fun _ => Respects.pure _

end Files

theorem seReadObject_respects (hF : Selectable T F) (locals : Locals) (path : List UInt8) (obj : Option Mem) (size : Int)
    (pin : Option (List UInt8)) : Respects (Same F M keys False) (seReadObject T locals path obj size pin) := by
  refine .ite (fun _ => Respects.pure _) fun _ => (Respects.isolated _ _).bind fun efname => ?_
  refine .ite (fun _ => Respects.pure _) fun _ => .bind ?_ fun _ => (onMF_respects hF.deselect).bind
    fun _ => Respects.pure _
  refine (onMF_respects hF.select).bind fun ok => .ite (fun _ => ?_) fun _ => Respects.pure _
  refine (withStrlen_respects pin).bind fun pin => (onMF_respects (mfVerifyPin_respects hF.tied _)).bind fun ok => ?_
  refine .ite (fun _ => ?_) fun _ => Respects.pure _
  refine (onMF_respects (readEF_respects hF.tied _ _ _)).bind fun read => ?_
  exact .ite (fun _ => Respects.pure _) fun _ => Respects.pure _

/-! ### What a call works on -/

/-- A path to an elementary file. -/
def FilePath (path : List UInt8) : Prop := SE_EF_KEY_NAME_PREFIX.isPrefixOf path = true

instance (path : List UInt8) : Decidable (FilePath path) := inferInstanceAs (Decidable (_ = true))

/-- A path to the certificate of a container, which is looked up in the table of key pairs. -/
def TablePath (path : List UInt8) : Prop := SE_MIAS_KEY_NAME_PREFIX.isPrefixOf path = true

instance (path : List UInt8) : Decidable (TablePath path) := inferInstanceAs (Decidable (_ = true))

/-- The call works on the MF applet; any other works on the MIAS applet. -/
def ApiCall.WorksOnMF : ApiCall → Prop
  | .x509CrtExtractSe _ _ _ path _ => FilePath path
  | .pkExtractSe _ _ _ path _ => FilePath path
  | _ => False

/-- The call reads the table of key pairs. -/
def ApiCall.ReadsKeys : ApiCall → Prop
  | .extractAvailableCertificate _ _ _ _ _ => False
  | .extractAvailablePrivateKey _ _ _ _ _ _ _ => False
  | .x509CrtExtractSe _ _ _ path _ => TablePath path
  | .pkExtractSe _ _ _ _ _ => False
  | _ => True

/-! ### The functions of the API -/

section Functions

variable (hM : Selectable T M)

include hM

theorem Selectable.rides : Mias.Rides M (Mias.SameTables M keys sign False False) := Mias.SameTables.rides hM.tied

theorem deselectMias_respects : Respects (Same F M keys sign) (deselectMias T) :=
  onMias_respects (hM.rides.onApplet hM.deselect)

theorem selectMias_respects : Respects (Same F M keys sign) (selectMias T) :=
  onMias_respects (hM.rides.onApplet hM.select)

/-- A key pair that was found is read later in the call. -/
theorem getKeyPair_relates :
    Relates (Same F M True False) (fun found s t => Same F M True False s t ∧
      ∀ index, found = some index → index < Mias.keyPoolSize)
      (onMias (Mias.getKeyPairByContainerId T signingContainerId)) := by
  refine onMias_relates (Q := fun found m n => Mias.SameTables M True False False False m n ∧
    ∀ index, found = some index → index < Mias.keyPoolSize) ?_ ?_
  · exact (Mias.getKeyPairByContainerId_relates hM.tied _).mono (fun _ _ hst => hst)
      fun _ _ _ hst => ⟨hst.1.1, hst.1.2, hst.2⟩
  · intro found s t m n se hst hmn
    exact ⟨⟨rfl, hst.mf, hmn.1⟩, hmn.2⟩

omit hM in
/-- The body of a call that works with the key pair it finds. -/
theorem withPair_respects {found : Option Nat} {failed : Extract} {use : Nat → Exec (Sdk σ) Extract}
    (h : ∀ index, index < Mias.keyPoolSize → Respects (Same F M True False) (use index)) :
    Relates (fun s t => Same F M True False s t ∧ ∀ index, found = some index → index < Mias.keyPoolSize)
      (fun _ => Same F M True False) (match found with | none => pure failed | some index => use index) := by
  cases found with
  | none => exact .pure fun _ _ hst => hst.1
  | some index =>
      refine Relates.of_fact (fun _ _ hst => hst.2 index rfl) fun hindex => ?_
      exact (h index hindex).mono (fun _ _ hst => hst.1) fun _ _ _ hst => hst

theorem signSelected_respects (algorithm : UInt8) (hash : Mem) (hashLen : Int) (signature : Mem) (len : Int)
    (pin : Option (List UInt8)) :
    Respects (Same F M True False) (signSelected T algorithm hash hashLen signature len pin) := by
  have hless : ∀ s t : Sdk σ, Same F M True True s t → Same F M True False s t :=
    fun s t hst => ⟨hst.se_eq, hst.mf, { hst.mias with signAlgo_eq := False.elim }⟩
  have hinit : ∀ key, Relates (Same F M True False) (fun _ => Same F M True True)
      (onMias (Mias.signInit T algorithm key)) :=
    fun key => onMias_relates (Mias.signInit_respects hM.tied _ _) fun _ _ _ _ _ _ hst hmn => ⟨rfl, hst.mf, hmn⟩
  refine (getKeyPair_relates hM).bind fun found => withPair_respects fun index hindex => ?_
  refine (withStrlen_respects pin).bind fun pin => (onMias_respects (hM.rides.verifyPin _)).bind fun ok => ?_
  refine .ite (fun _ => ?_) fun _ => Respects.pure _
  refine .bind (Respects.gets fun _ _ hst => hst.mias.keypairs_eq trivial index hindex) fun pair => ?_
  refine (hinit pair.kid).bind fun ok => .ite (fun _ => ?_) fun _ => .pure hless
  refine (onMias_respects (Mias.signFinal_respects hM.tied _ _ _ _)).bind fun fetched => ?_
  exact .ite (fun _ => .pure hless) fun _ => .pure hless

theorem decryptSelected_respects (cipher : Mem) (cipherLen : Int) (plain : Mem) (len : Int)
    (pin : Option (List UInt8)) : Respects (Same F M True False) (decryptSelected T cipher cipherLen plain len pin) := by
  refine (getKeyPair_relates hM).bind fun found => withPair_respects fun index hindex => ?_
  refine (withStrlen_respects pin).bind fun pin => (onMias_respects (hM.rides.verifyPin _)).bind fun ok => ?_
  refine .ite (fun _ => ?_) fun _ => Respects.pure _
  refine .bind (Respects.gets fun _ _ hst => hst.mias.keypairs_eq trivial index hindex) fun pair => ?_
  refine (onMias_respects (Mias.decryptInit_respects hM.tied _ _)).bind fun ok => ?_
  refine .ite (fun _ => ?_) fun _ => Respects.pure _
  refine (onMias_respects (hM.rides.decryptFinal _ _ _ _)).bind fun fetched => ?_
  exact .ite (fun _ => Respects.pure _) fun _ => Respects.pure _

theorem signingLenSelected_respects : Respects (Same F M True False) (signingLenSelected T) := by
  refine (getKeyPair_relates hM).bind fun found => ?_
  cases found with
  | none => exact .pure fun _ _ hst => hst.1
  | some index =>
      refine .gets (fun s t hst => ?_) fun _ _ hst => hst.1
      rw [hst.1.mias.keypairs_eq trivial index (hst.2 index rfl)]

theorem seP11ReadObject_respects (locals : Locals) (label : List UInt8) (obj : Option Mem) (size : Int)
    (pin : Option (List UInt8)) : Respects (Same F M keys False) (seP11ReadObject T locals label obj size pin) := by
  refine .bind ?_ fun _ => (deselectMias_respects hM).bind fun _ => Respects.pure _
  refine (selectMias_respects hM).bind fun ok => .ite (fun _ => ?_) fun _ => Respects.pure _
  refine (withStrlen_respects pin).bind fun pin => (onMias_respects (hM.rides.verifyPin _)).bind fun ok => ?_
  refine .ite (fun _ => ?_) fun _ => Respects.pure _
  have hlookup : ∀ label, Respects (Same F M keys False) (onMias (Mias.p11GetObjectByLabel T locals.p11 label obj)) :=
    fun label => onMias_respects ((Mias.p11GetObjectByLabel_respects hM.tied _ _ _).mono (fun _ _ hst => hst)
      fun _ _ _ hst => ⟨hst.1, { hst.2 with files_eq := False.elim }⟩)
  refine (withStrlen_respects _).bind fun label => (hlookup label).bind fun fetched => ?_
  exact .ite (fun _ => Respects.pure _) fun _ => Respects.pure _

omit hM

theorem tobX509CrtExtractSe_respects {path : List UInt8} (hF : FilePath path → Selectable T F)
    (hM : ¬FilePath path → Selectable T M) (hkeys : TablePath path → keys) (locals : Locals) (cert : Option Mem)
    (size : Int)
    (pin : Option (List UInt8)) : Respects (Same F M keys False) (tobX509CrtExtractSe T locals cert size path pin) := by
  refine .ite (fun hfile => seReadObject_respects (hF hfile) _ _ _ _ _) fun hfile => ?_
  have hM := hM hfile
  refine .ite (fun _ => seP11ReadObject_respects hM _ _ _ _ _) fun _ => .ite (fun htable => ?_) fun _ => Respects.pure _
  obtain rfl : keys = True := eq_true (hkeys htable)
  refine .bind ?_ fun _ => (deselectMias_respects hM).bind fun _ => Respects.pure _
  refine (selectMias_respects hM).bind fun ok => .ite (fun _ => ?_) fun _ => Respects.pure _
  refine (onMias_respects (Mias.getCertificateByContainerId_respects hM.tied _ _ _ _)).bind fun fetched => ?_
  exact .ite (fun _ => Respects.pure _) fun _ => Respects.pure _

theorem tobPkExtractSe_respects {path : List UInt8} (hF : FilePath path → Selectable T F)
    (hM : ¬FilePath path → Selectable T M) (locals : Locals) (pk : Option Mem) (size : Int) (pin : Option (List UInt8)) :
    Respects (Same F M keys False) (tobPkExtractSe T locals pk size path pin) := by
  have hnul : ∀ result, Respects (Same F M keys False) (nulAppended result : Exec (Sdk σ) Extract) :=
    fun result => (Respects.check _).bind fun _ => Respects.pure _
  refine .ite (fun hfile => (seReadObject_respects (hF hfile) _ _ _ _ _).bind hnul) fun hfile => ?_
  exact .ite (fun _ => (seP11ReadObject_respects (hM hfile) _ _ _ _ _).bind hnul) fun _ => Respects.pure _

theorem guarded_respects {α : Type} {body : Exec (Sdk σ) α} (hM : Selectable T M) (failed : α)
    (h : Respects (Same F M keys False) body) : Respects (Same F M keys False) (guarded T body failed) := by
  have hend : ∀ result : α, Respects (Same F M keys False) (deselectMias T >>= fun _ => pure result) :=
    fun result => (deselectMias_respects hM).bind fun _ => Respects.pure _
  exact (selectMias_respects hM).bind fun ok => .ite (fun _ => h.bind hend) fun _ => (Respects.pure failed).bind hend

/-- A call depends on the applet that it works on, and on the key pairs if it reads them. -/
theorem apiCall_respects {call : ApiCall} (hF : call.WorksOnMF → Selectable T F) (hM : ¬call.WorksOnMF → Selectable T M)
    (hkeys : call.ReadsKeys → keys) : Respects (Same F M keys False) (call.run T) := by
  cases call with
  | extractAvailableCertificate locals legacyLocals cert size pin =>
      have hread : ∀ path locals cert size, ¬FilePath path → ¬TablePath path →
          Respects (Same F M keys False) (tobX509CrtExtractSe T locals cert size path pin) :=
        fun path locals cert size hfile htable => tobX509CrtExtractSe_respects (fun h => absurd h hfile) (fun _ => hM id)
          (fun h => absurd h htable) locals cert size pin
      refine .bind (.bind (hread _ _ _ _ (by decide) (by decide)) fun first => .ite (fun _ => ?_) fun _ => Respects.pure _)
        fun _ => Respects.pure _
      exact (hread _ _ _ _ (by decide) (by decide)).bind fun _ => Respects.pure _
  | extractAvailablePrivateKey locals legacyLocals pem pemSize der derSize pin =>
      have hread : ∀ path locals pk size, ¬FilePath path →
          Respects (Same F M keys False) (tobPkExtractSe T locals pk size path pin) :=
        fun path locals pk size hfile => tobPkExtractSe_respects (fun h => absurd h hfile) (fun _ => hM id)
          locals pk size pin
      refine .bind (.bind (.bind (hread _ _ _ _ (by decide)) fun first => .ite (fun _ => ?_) fun _ => Respects.pure _)
        fun _ => Respects.pure _) fun _ => Respects.pure _
      exact hread _ _ _ _ (by decide)
  | extractSigningCertificate locals pem pemSize der derSize pin =>
      have hfile : ¬FilePath CERT_SIGNING_MIAS_PATH := by decide
      refine .bind (.bind ?_ fun _ => Respects.pure _) fun _ => Respects.pure _
      exact tobX509CrtExtractSe_respects (fun h => absurd h hfile) (fun _ => hM id) (fun _ => hkeys trivial) _ _ _ _
  | signingSign algorithm hash hashLen signature len pin =>
      obtain rfl : keys = True := eq_true (hkeys trivial)
      exact (guarded_respects (hM id) _ (signSelected_respects (hM id) _ _ _ _ _ _)).bind fun _ => Respects.pure _
  | signingDecrypt cipher cipherLen plain len pin =>
      obtain rfl : keys = True := eq_true (hkeys trivial)
      exact (guarded_respects (hM id) _ (decryptSelected_respects (hM id) _ _ _ _ _)).bind fun _ => Respects.pure _
  | signingLen pin =>
      obtain rfl : keys = True := eq_true (hkeys trivial)
      exact (guarded_respects (hM id) _ (signingLenSelected_respects (hM id))).bind fun _ => Respects.pure _
  | x509CrtExtractSe locals cert size path pin =>
      exact (tobX509CrtExtractSe_respects hF hM hkeys _ _ _ _).bind fun _ => Respects.pure _
  | pkExtractSe locals pk size path pin =>
      exact (tobPkExtractSe_respects hF hM _ _ _ _).bind fun _ => Respects.pure _

end Functions

/-! ### Relations of applets -/

theorem selectable_eq (T : Transport σ) : Selectable T Eq := by
  have hall : ∀ {α : Type} (program : Exec (Linked σ Applet) α), Respects (SameSE Eq) program := by
    intro α program
    refine .of_eq ?_ fun _ _ => ⟨rfl, rfl⟩
    rintro ⟨se, a⟩ ⟨se', b⟩ ⟨hse, hobj⟩
    obtain rfl : se = se' := hse
    obtain rfl : a = b := hobj
    rfl
  exact ⟨tied_eq, hall _, hall _⟩

theorem selectable_alike (htells : TellsChannel T) : Selectable T Alike :=
  ⟨tied_alike, select_respects htells, deselect_respects⟩

/-- One applet with this AID. -/
def Named (aid : List UInt8) (a b : Applet) : Prop := a = b ∧ a.aid = aid

theorem selectable_named (T : Transport σ) (aid : List UInt8) : Selectable T (Named aid) := by
  have hall : ∀ {program : Exec (Linked σ Applet) Bool},
      (∀ s, Meets program s (fun _ s' => s'.obj.aid = s.obj.aid) fun _ => True) →
      Respects (SameSE (Named aid)) program := by
    rintro program hkeeps fuel ⟨se, a⟩ ⟨se', b⟩ ⟨hse, hobj, haid⟩
    obtain rfl : se = se' := hse
    obtain rfl : a = b := hobj
    exact ⟨rfl, fun value hdone => ⟨rfl, rfl, ((hkeeps ⟨se, a⟩).done (Prod.ext hdone rfl)).trans haid⟩⟩
  refine ⟨⟨?_, fun h _ => h.1⟩, hall fun s => ?_, hall fun s => ?_⟩
  · rintro a b ⟨rfl, _⟩
    rfl
  · refine (select_meets T false s).mono ?_ fun _ hcut => hcut
    rintro ok s' ⟨events, htrace, _⟩
    exact htrace.identity.1
  · refine (deselect_meets T s).mono ?_ fun _ hcut => hcut
    rintro ok s' ⟨events, htrace, _⟩
    exact htrace.identity.1

end TrustOnboard.Sdk

namespace TrustOnboard.Process

open Exec Linked SEInterface Applet Sdk

variable {σ : Type} {T : Transport σ} {p q : Process σ} {F M : Applet → Applet → Prop} {keys : Prop}

/-! ### The first interface -/

/-- The call does not name this interface. -/
def Call.Avoids (address : Nat) : Call → Prop
  | .tobInitializeWithInterface seiface => seiface ≠ some address
  | .tobInitialize opened => opened ≠ some address
  | .api _ => True

/-- The objects are the two of the library, with a table that fits, and work on another interface. -/
structure Apart (address : Nat) (p : Process σ) : Prop where
  mf : p.mf.aid = MF.aid
  mias : p.mias.applet.aid = Mias.aid
  low : -1 ≤ p.mias.keypairsNum
  high : p.mias.keypairsNum ≤ Mias.keyPoolSize
  current : p.current ≠ address

theorem api_apart {address fuel : Nat} {call : ApiCall} {result : ApiResult} (h : Apart address p)
    (hrun : zoom sdkLens (call.run T) fuel p = (.done result, q)) :
    Apart address q ∧ q.ifaces address = p.ifaces address := by
  obtain ⟨s, hcall, rfl⟩ := zoom_eq_done hrun
  have hsame : Same (Named MF.aid) (Named Mias.aid) True False (sdkLens.get p) (sdkLens.get p) := by
    refine ⟨rfl, ⟨rfl, h.mf⟩, ⟨⟨rfl, h.mias⟩, fun _ => rfl, fun _ _ _ => rfl, fun _ => h.low, fun _ => h.high, False.elim,
      False.elim, False.elim⟩⟩
  have hrespects : Respects (Same (Named MF.aid) (Named Mias.aid) True False) (call.run T) :=
    apiCall_respects (fun _ => selectable_named T MF.aid) (fun _ => selectable_named T Mias.aid) fun _ => trivial
  obtain ⟨_, hrel⟩ := hrespects fuel _ _ hsame
  rw [hcall] at hrel
  have hlast := hrel result rfl
  refine ⟨⟨hlast.mf.2, hlast.mias.applet.2, hlast.mias.low trivial, hlast.mias.high trivial,
    h.current⟩, ?_⟩
  exact Function.update_of_ne (Ne.symm h.current) _ _

theorem tobInitializeWithInterface_apart {address fuel : Nat} {seiface : Option Nat} {ret : Int} (h : Apart address p)
    (havoids : seiface ≠ some address)
    (hrun : Process.tobInitializeWithInterface T seiface fuel p = (.done ret, q)) :
    Apart address q ∧ q.ifaces address = p.ifaces address := by
  cases seiface with
  | none =>
      cases hrun
      exact ⟨⟨h.mf, h.mias, h.low, h.high, h.current⟩, rfl⟩
  | some other =>
      obtain ⟨_, p', hclose, hrest⟩ := bind_eq_done hrun
      obtain ⟨se, _, rfl⟩ := zoom_eq_done hclose
      cases hrest
      have hother : other ≠ address := fun heq => havoids (by rw [heq])
      exact ⟨⟨h.mf, h.mias, h.low, h.high, hother⟩, Function.update_of_ne (Ne.symm hother) _ _⟩

theorem call_apart {address fuel : Nat} {call : Call} {result : Result} (h : Apart address p)
    (havoids : call.Avoids address) (hrun : call.run T fuel p = (.done result, q)) :
    Apart address q ∧ q.ifaces address = p.ifaces address := by
  cases call with
  | tobInitializeWithInterface seiface =>
      obtain ⟨ret, p', hinit, hrest⟩ := bind_eq_done hrun
      cases hrest
      exact tobInitializeWithInterface_apart h havoids hinit
  | tobInitialize opened =>
      obtain ⟨ret, p', hinit, hrest⟩ := bind_eq_done hrun
      cases hrest
      obtain ⟨modem, p'', hgets, hinit⟩ := bind_eq_done hinit
      cases hgets
      by_cases hmodem : p.modem ≠ none
      · rw [if_pos hmodem] at hinit
        cases hinit
        exact ⟨h, rfl⟩
      · rw [if_neg hmodem] at hinit
        cases opened with
        | none =>
            cases hinit
            exact ⟨h, rfl⟩
        | some other =>
            have hmarked : Apart address { p with modem := some other } := ⟨h.mf, h.mias, h.low, h.high, h.current⟩
            have hlast := tobInitializeWithInterface_apart hmarked havoids hinit
            exact hlast
  | api call =>
      obtain ⟨result, p', hapi, hrest⟩ := bind_eq_done hrun
      cases hrest
      exact api_apart h hapi

/-- A history on other interfaces does not touch this one. -/
theorem runCalls_apart {address fuel : Nat} {history : List Call} {results : List Result} (h : Apart address p)
    (havoids : ∀ call ∈ history, call.Avoids address) (hrun : runCalls T history fuel p = (.done results, q)) :
    Apart address q ∧ q.ifaces address = p.ifaces address := by
  induction history generalizing p results with
  | nil =>
      cases hrun
      exact ⟨h, rfl⟩
  | cons call history ih =>
      rw [List.forall_mem_cons] at havoids
      obtain ⟨result, p', hcall, hrun⟩ := bind_eq_done hrun
      obtain ⟨rest, p'', hrest, hlast⟩ := bind_eq_done hrun
      cases hlast
      obtain ⟨hapart, hsame⟩ := call_apart h havoids.1 hcall
      obtain ⟨hapart', hsame'⟩ := ih hapart havoids.2 hrest
      exact ⟨hapart', hsame'.trans hsame⟩

/-! ### The second interface -/

/-- Both processes work on the same interface, with related objects. -/
def Together (F M : Applet → Applet → Prop) (keys : Prop) (p q : Process σ) : Prop :=
  p.current = q.current ∧ Same F M keys False (sdkLens.get p) (sdkLens.get q)

/-- Nothing else than what is related is read by the calls. -/
structure Suffices (T : Transport σ) (F M : Applet → Applet → Prop) (keys : Prop) (later : List ApiCall) : Prop where
  mf : (∃ call ∈ later, call.WorksOnMF) → Selectable T F
  mias : (∃ call ∈ later, ¬call.WorksOnMF) → Selectable T M
  keys : (∃ call ∈ later, call.ReadsKeys) → keys

theorem apis_together {calls later : List ApiCall} (h : Suffices T F M keys later) (hsub : ∀ call ∈ calls, call ∈ later) :
    Respects (Together F M keys) (runCalls T (calls.map .api)) := by
  induction calls with
  | nil => exact Respects.pure _
  | cons call calls ih =>
      rw [List.forall_mem_cons] at hsub
      have hapi : Respects (Same F M keys False) (call.run T) :=
        apiCall_respects (fun hmf => h.mf ⟨call, hsub.1, hmf⟩) (fun hmias => h.mias ⟨call, hsub.1, hmias⟩)
          fun hkeys => h.keys ⟨call, hsub.1, hkeys⟩
      have hcall : Respects (Together F M keys) (Call.run T (.api call)) := by
        refine .bind (Q := fun _ => Together F M keys) (hapi.zoom (fun p q hpq => hpq.2) ?_) fun _ => Respects.pure _
        intro result p q a b hpq hab
        refine ⟨hpq.1, ?_⟩
        rw [sdkLens.get_set, sdkLens.get_set]
        exact hab
      exact hcall.bind fun _ => (ih hsub.2).bind fun _ => Respects.pure _

/-- Ready to be attached to the interface at `address`. -/
structure Attachable (F M : Applet → Applet → Prop) (keys : Prop) (address : Nat) (p q : Process σ) : Prop where
  iface : p.ifaces address = q.ifaces address
  mf : F (p.mf.init true) (q.mf.init true)
  mias : Mias.SameTables M keys False False False { p.mias with applet := p.mias.applet.init true }
    { q.mias with applet := q.mias.applet.init true }

theorem tobInitializeWithInterface_together (address : Nat) :
    Relates (Attachable F M keys address) (fun _ => Together F M keys)
      (Process.tobInitializeWithInterface T (some address)) := by
  have hsame : Relates Eq (fun _ => Eq) (closeAllChannels T) := .of_eq (fun _ _ heq => heq) fun _ _ => rfl
  have hclose : Relates (Attachable F M keys address) (fun _ => Attachable F M keys address)
      (zoom (ifaceLens address) (closeAllChannels T)) := by
    refine hsame.zoom (fun p q hpq => hpq.iface) ?_
    intro value p q a b hpq hab
    refine ⟨?_, hpq.mf, hpq.mias⟩
    show Function.update p.ifaces address a address = Function.update q.ifaces address b address
    rw [Function.update_self, Function.update_self, hab]
  refine hclose.bind fun _ => .bind (Q := fun _ => Together F M keys) (.modify fun p q hpq => ?_) fun _ => Respects.pure _
  exact ⟨rfl, hpq.iface, hpq.mf, hpq.mias⟩

theorem tobInitialize_together (address : Nat) :
    Relates (fun p q => Attachable F M keys address p q ∧ p.modem = none ∧ q.modem = none) (fun _ => Together F M keys)
      (Process.tobInitialize T (some address)) := by
  refine .bind (Q := fun modem p q => Attachable F M keys address p q ∧ modem = none) (.gets ?_ ?_) fun modem => ?_
  · intro p q hpq
    rw [hpq.2.1, hpq.2.2]
  · intro p q hpq
    exact ⟨hpq.1, hpq.2.1⟩
  · refine .of_fact (fun _ _ hpq => hpq.2) fun hmodem => ?_
    rw [if_neg (not_not_intro hmodem)]
    refine .bind (Q := fun _ => Attachable F M keys address) (.modify ?_) fun _ =>
      tobInitializeWithInterface_together address
    intro p q hpq
    exact ⟨hpq.1.iface, hpq.1.mf, hpq.1.mias⟩

/-- An applet as it was constructed, but for the interface. -/
def AsBuilt (aid : List UInt8) (applet : Applet) : Prop := applet.init true = (Applet.create aid).init true

/-- Nothing is left in the applet that is read: it is as it was constructed, or it is not selected and the card tells a
channel before one is used. -/
def Unmarked (T : Transport σ) (aid : List UInt8) (applet : Applet) : Prop :=
  AsBuilt aid applet ∨ (applet.isSelected = false ∧ TellsChannel T)

/-- Nothing is left that a later call reads: of each applet that the later calls work on, and of the table of key pairs, if
one of them reads it. -/
structure Clean (T : Transport σ) (later : List ApiCall) (p : Process σ) : Prop where
  mf : (∃ call ∈ later, call.WorksOnMF) → Unmarked T MF.aid p.mf
  mias : (∃ call ∈ later, ¬call.WorksOnMF) → Unmarked T Mias.aid p.mias.applet
  keys : (∃ call ∈ later, call.ReadsKeys) →
    p.mias.keypairsNum = -1 ∧ ∀ i, i < Mias.keyPoolSize → p.mias.keypairs i = .zero

theorem alike_asBuilt {applet : Applet} {aid : List UInt8} (haid : applet.aid = aid) (hfree : applet.isSelected = false) :
    Alike (applet.init true) ((Applet.create aid).init true) :=
  ⟨haid, rfl, hfree, fun hselected => absurd (hfree.symm.trans hselected) (by decide)⟩

/-- An applet in which nothing is left, or that is not used, is related to a new one. -/
theorem Unmarked.related {applet : Applet} {aid : List UInt8} {used : Prop} (h : used → Unmarked T aid applet)
    (haid : applet.aid = aid) :
    ∃ rel, (used → Selectable T rel) ∧ rel (applet.init true) ((Applet.create aid).init true) := by
  by_cases hused : used
  · rcases h hused with hbuilt | ⟨hfree, htells⟩
    · exact ⟨Eq, fun _ => selectable_eq T, hbuilt⟩
    · exact ⟨Alike, fun _ => selectable_alike htells, alike_asBuilt haid hfree⟩
  · exact ⟨fun _ _ => True, fun h => absurd h hused, trivial⟩

theorem Clean.attachable {address : Nat} {cards : Nat → σ} {buffers : Nat → Mem} {later : List ApiCall}
    (h : Clean T later p)
    (hapart : Apart address p) (hiface : p.ifaces address = (start cards buffers).ifaces address) :
    ∃ F M keys, Suffices T F M keys later ∧ Attachable F M keys address p (start cards buffers) := by
  obtain ⟨F, hF, hmf⟩ := Unmarked.related h.mf hapart.mf
  obtain ⟨M, hM, hmias⟩ := Unmarked.related h.mias hapart.mias
  refine ⟨F, M, ∃ call ∈ later, call.ReadsKeys, ⟨hF, hM, id⟩, hiface, hmf, ?_⟩
  exact ⟨hmias, fun hread => (h.keys hread).1, fun hread => (h.keys hread).2, fun _ => hapart.low, fun _ => hapart.high,
    False.elim, False.elim, False.elim⟩

/-- A call that initialises the second interface; `tobInitialize` does so only if it has no modem yet. -/
def Initialises (address : Nat) (p : Process σ) (call : Call) : Prop :=
  call = .tobInitializeWithInterface (some address) ∨ (call = .tobInitialize (some address) ∧ p.modem = none)

theorem Initialises.modem_eq {address : Nat} {opened : Option Nat}
    (h : Initialises address p (.tobInitialize opened)) : p.modem = none := by
  rcases h with hcall | ⟨_, hmodem⟩
  · cases hcall
  · exact hmodem

/-- **The later calls are those of a new process**, if nothing is left that they read when the second interface is
initialised. -/
theorem reinitialised_like_new {cards : Nat → σ} {buffers : Nat → Mem} {history : List Call} {results : List Result}
    {second : Call} {later : List ApiCall} {address fuel : Nat} (haddress : address ≠ 0)
    (hhistory : ∀ call ∈ history, call.Avoids address)
    (hrun : runCalls T history fuel (start cards buffers) = (.done results, p))
    (hclean : Clean T later p) (hsecond : Initialises address p second) (fuel' : Nat) :
    (runCalls T (second :: later.map .api) fuel' p).1 =
      (runCalls T (second :: later.map .api) fuel' (start cards buffers)).1 := by
  have hstart : Apart address (start cards buffers) :=
    ⟨rfl, rfl, Int.le_refl (-1), by show (-1 : Int) ≤ 16; decide, Ne.symm haddress⟩
  obtain ⟨hapart, hiface⟩ := runCalls_apart hstart hhistory hrun
  obtain ⟨F, M, keys, hsuffices, hattach⟩ := hclean.attachable hapart hiface
  have hinit : Relates (fun p q => Attachable F M keys address p q ∧ Initialises address p second ∧ q.modem = none)
      (fun _ => Together F M keys) (second.run T) := by
    rcases hsecond with rfl | ⟨rfl, _⟩
    · exact ((tobInitializeWithInterface_together address).mono (fun _ _ hpq => hpq.1) fun _ _ _ hpq => hpq).bind
        fun _ => Respects.pure _
    · refine .bind ((tobInitialize_together address).mono ?_ fun _ _ _ hpq => hpq) fun _ => Respects.pure _
      rintro p q ⟨hattach, hinit, hmodem⟩
      exact ⟨hattach, hinit.modem_eq, hmodem⟩
  have hall : Relates (fun p q => Attachable F M keys address p q ∧ Initialises address p second ∧ q.modem = none)
      (fun _ => Together F M keys) (runCalls T (second :: later.map .api)) :=
    hinit.bind fun _ => (apis_together hsuffices fun _ hmem => hmem).bind fun _ => Respects.pure _
  exact (hall fuel' p (start cards buffers) ⟨hattach, hsecond, rfl⟩).1

/-- Two cards: one with keys and objects, the other with a key and a certificate. GET RESPONSE has nothing to give. -/
def twoCards : Transport (Bool × Nat) := fun card apdu =>
  if insOf apdu = SCIns.getResponse.code then
    (some [0x6D, 0x00], card)
  else
    let image := if card.1 then sampleCertificates else compressedCertificate
    let (answer, under) := hostCard (Mias.fileCard image.contents image.templates) card.2 apdu
    (answer, card.1, under)

theorem twoCards_tells : TellsChannel twoCards := by
  intro card apdu hfollow
  unfold twoCards
  split
  · exact fun heq => absurd (Option.some.inj heq) (by decide)
  · have htake : apdu.take 4 = openApdu.take 4 := (hfollow.header (by decide)).2.resolve_right ‹_›
    have hins : insOf apdu = SCIns.manageChannel.code := insOf_eq_of_take htake
    have hopen : apdu.getD 2 0 = SCP1.MANAGECHANNELOpen := by
      have hget : (apdu.take 4)[2]? = some SCP1.MANAGECHANNELOpen := congrArg (·[2]?) htake
      rw [List.getElem?_take_of_lt (by decide)] at hget
      rw [List.getD_eq_getElem?_getD, hget]
      rfl
    simp only [hostCard, if_pos hins, if_pos hopen]
    decide

/-- A process that has the first card at 1, at its start and behind a call on that card. -/
def unused : Process (Bool × Nat) := start (fun address => (decide (address = 1), 0)) fun _ => Mem.zero

def firstUsed (call : ApiCall) : Outcome (List Result) × Process (Bool × Nat) :=
  runCalls twoCards [.tobInitializeWithInterface (some 1), .api call] 20 unused

/-- The calls have returned. -/
def returned : Outcome (List Result) → Bool
  | .done _ => true
  | _ => false

theorem firstUsed_done {call : ApiCall} (h : returned (firstUsed call).1 = true) :
    ∃ results, firstUsed call = (.done results, (firstUsed call).2) := by
  rcases hrun : firstUsed call with ⟨outcome, q⟩
  rw [hrun] at h
  cases outcome with
  | done results => exact ⟨results, rfl⟩
  | fault => cases h
  | spent => cases h

/-- The certificate object of the first card, and the length of its key. -/
def readObject : ApiCall := .extractAvailableCertificate noLocals noLocals (some Mem.zero) 0 (some (cstr "1234"))

def readTable : ApiCall := .signingLen none

/-- The call has returned, no applet is selected, and no key pair was read if the table must be blank. -/
def leftClean (blank : Bool) (call : ApiCall) : Bool :=
  let p := (firstUsed call).2
  returned (firstUsed call).1 && !p.mias.applet.isSelected && (!blank || (p.mias.keypairsNum == -1 &&
    (List.range Mias.keyPoolSize).all fun i => p.mias.keypairs i == .zero))

theorem leftClean_spec {blank : Bool} {call later : ApiCall} (h : leftClean blank call = true) (hlater : ¬later.WorksOnMF)
    (hblank : later.ReadsKeys → blank = true) :
    (∃ results, firstUsed call = (.done results, (firstUsed call).2)) ∧ Clean twoCards [later] (firstUsed call).2 := by
  simp only [leftClean, Bool.and_eq_true, Bool.or_eq_true, Bool.not_eq_true', beq_iff_eq, List.all_eq_true,
    List.mem_range] at h
  obtain ⟨⟨hdone, hfree⟩, hkeys⟩ := h
  refine ⟨firstUsed_done hdone, ?_, fun _ => .inr ⟨hfree, twoCards_tells⟩, ?_⟩
  · rintro ⟨other, hmem, hworks⟩
    rw [List.mem_singleton] at hmem
    exact absurd (hmem ▸ hworks) hlater
  · rintro ⟨other, hmem, hreads⟩
    rw [List.mem_singleton] at hmem
    rw [hblank (hmem ▸ hreads)] at hkeys
    exact hkeys.resolve_left (by decide)

theorem firstUsed_avoids (call : ApiCall) : ∀ other ∈ [Call.tobInitializeWithInterface (some 1), .api call],
    other.Avoids 2 := by
  intro other hmem
  rw [List.mem_pair] at hmem
  rcases hmem with rfl | rfl
  · exact fun heq => by cases heq
  · trivial

/-- Objects were read on the first card, and the second is asked for its key; or the other way round. -/
theorem reinitialised_like_new_twoCards :
    (runCalls twoCards (.tobInitializeWithInterface (some 2) :: [readTable].map .api) 20 (firstUsed readObject).2).1 =
        (runCalls twoCards (.tobInitializeWithInterface (some 2) :: [readTable].map .api) 20 unused).1 ∧
      (runCalls twoCards (.tobInitializeWithInterface (some 2) :: [readObject].map .api) 20 (firstUsed readTable).2).1 =
        (runCalls twoCards (.tobInitializeWithInterface (some 2) :: [readObject].map .api) 20 unused).1 := by
  have hobject : leftClean true readObject = true := by decide +kernel
  have htable : leftClean false readTable = true := by decide +kernel
  obtain ⟨⟨_, hrun⟩, hclean⟩ : (∃ results, firstUsed readObject = (.done results, (firstUsed readObject).2)) ∧
      Clean twoCards [readTable] (firstUsed readObject).2 := leftClean_spec hobject id fun _ => rfl
  obtain ⟨⟨_, hrun'⟩, hclean'⟩ : (∃ results, firstUsed readTable = (.done results, (firstUsed readTable).2)) ∧
      Clean twoCards [readObject] (firstUsed readTable).2 := leftClean_spec htable id False.elim
  exact ⟨reinitialised_like_new (by decide) (firstUsed_avoids readObject) hrun hclean (.inl rfl) 20,
    reinitialised_like_new (by decide) (firstUsed_avoids readTable) hrun' hclean' (.inl rfl) 20⟩

/-- The first card has an RSA 1024-bit key in container 0, the others have no keys. -/
def answers : Nat → List (Option (List UInt8))
  | 1 => List.replicate 13 (some [0x90, 0x00]) ++ [some [0x01, 0x90, 0x00], some [0x90, 0x00],
      some [0x62, 0x04, 0x81, 0x02, 0x00, 0x0B, 0x90, 0x00],
      some [0x01, 0x00, 0x00, 0x00, 0x04, 0x00, 0x00, 0x00, 0x00, 0x00, 0x00, 0x90, 0x00],
      some [0x6A, 0x82], some [0x90, 0x00]]
  | _ => List.replicate 13 (some [0x90, 0x00]) ++
      [some [0x01, 0x90, 0x00], some [0x90, 0x00], some [0x6A, 0x82], some [0x90, 0x00]]

/-- A process with these cards after the calls. -/
def processAfter (history : List Call) : Outcome (List Result) × Process (List (Option (List UInt8))) :=
  runCalls scripted history 20 (start answers fun _ => Mem.zero)

/-- The second interface is initialised and the length of its signing key is asked for. -/
def secondCard : List Call := [.tobInitializeWithInterface (some 2), .api (.signingLen none)]

/-- The lengths among the results. -/
def lengths : Outcome (List Result) → List Int
  | .done results => results.filterMap fun
      | .api (.length n) => some n
      | _ => none
  | _ => []

/-- The length of the first card's key is returned for the second card, where a new process finds no key. -/
theorem first_card_shows_through : ∃ results p,
    processAfter [.tobInitializeWithInterface (some 1), .api (.signingLen none)] = (.done results, p) ∧
      (runCalls scripted secondCard 20 p).1 ≠
        (runCalls scripted secondCard 20 (start answers fun _ => Mem.zero)).1 := by
  refine ⟨_, _, rfl, fun heq => ?_⟩
  have hlengths := congrArg lengths heq
  revert hlengths
  decide +kernel

end TrustOnboard.Process
