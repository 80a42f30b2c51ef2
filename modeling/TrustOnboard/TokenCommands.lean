import TrustOnboard.MiasListing
import TrustOnboard.TokenCard

/-! The functions of the MIAS object on a card that embodies a token: each of them performs its command and returns what
the token replies. -/

namespace TrustOnboard

open Exec Linked SEInterface

namespace SEInterface

variable {σ : Type} {T : Transport σ}

/-- The program transmits this command and ends as the command does. -/
def Sends (T : Transport σ) (apdu : List UInt8) (program : Exec (SEInterface σ) Bool) : Prop :=
  ∀ s result card, Concludes T s.card apdu result card → Yields program s result.isSome (After apdu result card s)

theorem command_sends (T : Transport σ) (apdu : List UInt8) : Sends T apdu (command T apdu) :=
  fun _ _ _ h => command_concludes h

theorem fill_sends {apdu : List UInt8} (hfit : apdu.length ≤ apduSize) :
    Sends T apdu (fill apdu >>= fun _ => command T apdu) := by
  intro s result card h
  refine (Applet.fill_yields hfit).bind fun t ht => ?_
  subst ht
  obtain ⟨t, hrun, hafter⟩ := command_concludes (s := { s with apdu }) h
  exact ⟨t, hrun, hafter.card_eq, hafter.reports, hafter.holds⟩

theorem transmitCase3_sends {cla p1 p2 : UInt8} {ins : SCIns} {field : List UInt8} (hfield : field.length ≤ 257) :
    Sends T (cla :: ins.code :: p1 :: p2 :: lowByte field.length :: field) (transmitCase3 T cla ins p1 p2 field) :=
  fill_sends (by simp only [List.length_cons, apduSize]; omega)

theorem transmitCase4_sends {cla p1 p2 le : UInt8} {ins : SCIns} {field : List UInt8} (hfield : field.length ≤ 256) :
    Sends T (cla :: ins.code :: p1 :: p2 :: lowByte field.length :: (field ++ [le]))
      (transmitCase4 T cla ins p1 p2 field le) :=
  fill_sends (by simp only [List.length_cons, List.length_append, List.length_nil, apduSize]; omega)

end SEInterface

namespace Token

variable {σ : Type} {token : Token} {T : Transport σ} {channels : UInt8 → Prop} {view : σ → State} {channel : UInt8}
  {s : Linked σ Mias} {command : Command}

theorem acceptedIf_ok (condition : Bool) (accepted refused : State) :
    (acceptedIf condition accepted refused).1.ok = condition := by
  cases condition <;> rfl

/-- The command was performed: the object is as it was, the card is the token after the step, and the answer is there. -/
structure Performed (token : Token) (view : σ → State) (command : Command) (s s' : Linked σ Mias) : Prop where
  obj_eq : s'.obj = s.obj
  view_eq : view s'.se.card = (token.step (view s.se.card) command).2
  answered : ∃ result, (token.step (view s.se.card) command).1.Answers result ∧
    ∀ answer, result = some answer → Holds s'.se answer

theorem EmbodiedBy.ok_yields (h : token.EmbodiedBy T channels view) (command : Command) (hchannel : channels channel)
    (hready : Mias.Ready channel s.obj) (hfits : command.Fits) {cla : UInt8}
    {transmitted : UInt8 → Exec (SEInterface σ) Bool}
    (hsends : Sends T (command.apdu channel) (transmitted (cla ||| channel))) :
    Yields (Mias.ok (Applet.whenSelected cla transmitted)) s (token.step (view s.se.card) command).1.ok
      (Performed token view command s) := by
  obtain ⟨result, card, hconcludes, hanswers, hview⟩ := h.performs s.se.card channel command hchannel hfits
  rw [← hanswers.acceptedResult_eq]
  refine (Mias.ok_concludes hready (hsends s.se result card hconcludes)).mono ?_
  rintro s' ⟨hobj, hafter⟩
  exact ⟨hobj, by rw [hafter.card_eq, hview], result, hanswers, hafter.holds⟩

theorem EmbodiedBy.sent_yields (h : token.EmbodiedBy T channels view) (command : Command) (hchannel : channels channel)
    (hready : Mias.Ready channel s.obj) (hfits : command.Fits) {cla : UInt8}
    {transmitted : UInt8 → Exec (SEInterface σ) Bool}
    (hsends : Sends T (command.apdu channel) (transmitted (cla ||| channel))) :
    ∃ result, (token.step (view s.se.card) command).1.Answers result ∧
      Yields (Mias.onApplet (Applet.whenSelected cla transmitted)) s result.isSome fun s' => s'.obj = s.obj ∧
        view s'.se.card = (token.step (view s.se.card) command).2 ∧
        ∀ answer, result = some answer → Holds s'.se answer := by
  obtain ⟨result, card, hconcludes, hanswers, hview⟩ := h.performs s.se.card channel command hchannel hfits
  refine ⟨result, hanswers, (Mias.sent_concludes hready (hsends s.se result card hconcludes)).mono ?_⟩
  rintro s' ⟨hobj, hafter⟩
  exact ⟨hobj, by rw [hafter.card_eq, hview], hafter.holds⟩

/-! ### Commands that are accepted or not -/

section Accepted

variable (h : token.EmbodiedBy T channels view) (hchannel : channels channel) (hready : Mias.Ready channel s.obj)

include h hchannel hready

theorem verifyPin_performs {pin : List UInt8} (hpin : pin.length ≤ 255) :
    Yields (Mias.verifyPin T pin) s (token.step (view s.se.card) (.verify pin)).1.ok
      (Performed token view (.verify pin) s) :=
  h.ok_yields (.verify pin) hchannel hready hpin (transmitCase3_sends (by omega))

/-- MANAGE SECURITY ENVIRONMENT, whichever command it stands for. -/
theorem environment_performs {template : UInt8} {field : List UInt8} (hfield : field.length ≤ 6)
    (hcommand : command.apdu channel = Command.environmentApdu channel template field) (hfits : command.Fits) :
    Yields (Mias.ok (Applet.transmitCase3 T 0x00 .manageSecurityEnvironment (SCP1.MSECompDecInt ||| SCP1.MSESet) template
      field)) s (token.step (view s.se.card) command).1.ok (Performed token view command s) := by
  have hsends : Sends T (command.apdu channel) (SEInterface.transmitCase3 T (0x00 ||| channel) .manageSecurityEnvironment
      (SCP1.MSECompDecInt ||| SCP1.MSESet) template field) := by
    rw [hcommand]
    exact transmitCase3_sends (by omega)
  exact h.ok_yields _ hchannel hready hfits hsends

theorem mseSetBeforeHash_performs (algorithm : UInt8) :
    Yields (Mias.mseSetBeforeHash T algorithm) s (token.step (view s.se.card) (.setHash algorithm)).1.ok
      (Performed token view (.setHash algorithm) s) :=
  environment_performs h hchannel hready (Nat.le_of_ble_eq_true rfl) rfl trivial

theorem mseSetBeforeSignature_performs (algorithm key : UInt8) :
    Yields (Mias.mseSetBeforeSignature T algorithm key) s (token.step (view s.se.card) (.setSignature algorithm key)).1.ok
      (Performed token view (.setSignature algorithm key) s) :=
  environment_performs h hchannel hready (Nat.le_of_ble_eq_true rfl) rfl trivial

theorem mseSetBeforeDecrypt_performs (algorithm key : UInt8) :
    Yields (Mias.mseSetBeforeDecrypt T algorithm key) s (token.step (view s.se.card) (.setDecipher algorithm key)).1.ok
      (Performed token view (.setDecipher algorithm key) s) :=
  environment_performs h hchannel hready (Nat.le_of_ble_eq_true rfl) rfl trivial

/-- The algorithm and the key are kept in the object. -/
theorem signInit_performs (algorithm key : UInt8) :
    Yields (Mias.signInit T algorithm key) s (token.step (view s.se.card) (.setSignature algorithm key)).1.ok
      (Performed token view (.setSignature algorithm key)
        ⟨s.se, { s.obj with signAlgo := algorithm, signKey := key }⟩) := by
  have hready' : Mias.Ready channel { s.obj with signAlgo := algorithm, signKey := key } := hready.congr rfl
  exact (mseSetBeforeSignature_performs (s := ⟨s.se, { s.obj with signAlgo := algorithm, signKey := key }⟩)
    h hchannel hready'
    algorithm key).modify_bind

theorem decryptInit_performs (algorithm key : UInt8) :
    Yields (Mias.decryptInit T algorithm key) s (token.step (view s.se.card) (.setDecipher algorithm key)).1.ok
      (Performed token view (.setDecipher algorithm key)
        ⟨s.se, { s.obj with decryptAlgo := algorithm, decryptKey := key }⟩) := by
  have hready' : Mias.Ready channel { s.obj with decryptAlgo := algorithm, decryptKey := key } := hready.congr rfl
  exact (mseSetBeforeDecrypt_performs (s := ⟨s.se, { s.obj with decryptAlgo := algorithm, decryptKey := key }⟩)
    h hchannel hready'
    algorithm key).modify_bind

theorem hashBlock_performs {data : List UInt8} (hdata : data.length ≤ 255) :
    Yields (Mias.ok (Applet.transmitCase3 T 0x00 .performSecurityOperation SCP1.PSOHashCode SCP2.PSOPlain data)) s
      (token.step (view s.se.card) (.hashBlock data)).1.ok (Performed token view (.hashBlock data) s) :=
  h.ok_yields (.hashBlock data) hchannel hready hdata (transmitCase3_sends (by omega))

/-- The digest is what stands behind the pointer, in the length of the algorithm. -/
theorem psoHashExternally_performs {algorithm : UInt8} {size : Nat} (hsize : Mias.digestLength algorithm = some size)
    (hash : Mem) (hashLen : Nat) :
    Yields (Mias.psoHashExternally T algorithm hash hashLen) s true
      (Performed token view (.putHash (hash.slice 0 size)) s) := by
  have hsmall : size ≤ 64 := by
    unfold Mias.digestLength at hsize
    split_ifs at hsize <;> cases hsize <;> decide
  have hlength := Mem.slice_length hash 0 size
  have hsends : Sends T (Command.apdu channel (.putHash (hash.slice 0 size)))
      (SEInterface.transmitCase4 T (0x00 ||| channel)
        .performSecurityOperation SCP1.PSOHashCode SCP2.PSOTemplateHash
        (SCTag.PSOHashExt :: lowByte size :: hash.slice 0 size) 0x00) := by
    have hapdu : Command.apdu channel (.putHash (hash.slice 0 size)) = (0x00 ||| channel) ::
        SCIns.performSecurityOperation.code :: SCP1.PSOHashCode :: SCP2.PSOTemplateHash ::
        lowByte (SCTag.PSOHashExt :: lowByte size :: hash.slice 0 size).length ::
        ((SCTag.PSOHashExt :: lowByte size :: hash.slice 0 size) ++ [0x00]) := by
      show Mias.hashApdu channel (hash.slice 0 size) = _
      rw [Mias.hashApdu, hlength, List.length_cons, List.length_cons, hlength]
    rw [hapdu]
    exact transmitCase4_sends (by simp only [List.length_cons, hlength]; omega)
  have hfits : Command.Fits (.putHash (hash.slice 0 size)) := by
    show (hash.slice 0 size).length ≤ 252
    omega
  simp only [Mias.psoHashExternally, hsize]
  exact h.ok_yields _ hchannel hready hfits hsends

end Accepted

/-! ### Commands that give data -/

/-- What a reader returns for data that was given, or not. -/
def delivered (out : Mem) (len : Nat) : Option (List UInt8) → Mias.Fetched
  | some data => ⟨true, some (out.write 0 data), data.length⟩
  | none => ⟨false, some out, len⟩

/-- A refusal has no data. -/
theorem refused_response {result : Option (List UInt8)} {answer : List UInt8} (hanswers : Reply.refused.Answers result)
    (hresult : result = some answer) {s : Linked σ Mias} (hready : Mias.Ready channel s.obj) (hholds : Holds s.se answer)
    (fuel : Nat) : Mias.response fuel s = (.done [], s) := by
  have hlen := hanswers.2 answer hresult
  rw [Mias.response_done hready.isSelected hholds, responseData, hlen, Nat.sub_self, List.take_zero]

/-- The plain text is taken from the answer, or there is none. -/
theorem decipherResult_yields {text : Option (List UInt8)} {next : State} {result : Option (List UInt8)}
    (hanswers : (given text next).1.Answers result) (hready : Mias.Ready channel s.obj)
    (hholds : ∀ answer, result = some answer → Holds s.se answer) (hpos : ∀ value, text = some value → 0 < value.length)
    (plain : Mem) (len : Nat) :
    Yields (if result.isSome = true then Mias.decipherResult T plain len else pure ⟨false, some plain, len⟩) s
      (delivered plain len text) (· = s) := by
  have hword : ∀ answer, result = some answer →
      Yields (Mias.onApplet (gets Applet.getStatusWord)) s (statusWord answer) (· = s) := fun answer heq =>
    ⟨s, .of_eq fun fuel => Mias.statusWord_done hready.isSelected (hholds answer heq) fuel, rfl⟩
  cases text with
  | none =>
      cases result with
      | none => exact .pure rfl
      | some answer =>
          have hrefused : ¬statusWord answer = swOK := of_decide_eq_false hanswers.1
          refine (hword answer rfl).bind fun t ht => ?_
          rw [if_neg hrefused]
          exact .pure ht
  | some value =>
      obtain rfl : result = some (value ++ [0x90, 0x00]) := hanswers
      have hne : ¬value.length = 0 := Nat.pos_iff_ne_zero.mp (hpos value rfl)
      refine (hword _ rfl).bind fun t ht => ?_
      subst ht
      rw [statusWord_ok, if_pos rfl]
      refine Yields.bind (Mias.response_yields hready (hholds _ rfl)) fun u hu => ?_
      subst hu
      rw [if_neg hne]
      exact .pure rfl

/-- What comes in two commands is deciphered as what comes in one. -/
theorem plain_append (s : State) (first second : List UInt8) :
    token.plain { s with cryptogram := s.cryptogram ++ first } second = token.plain s (first ++ second) := by
  unfold plain
  rw [List.append_assoc]
  rfl

section Given

variable (h : token.EmbodiedBy T channels view) (hchannel : channels channel) (hready : Mias.Ready channel s.obj)

theorem Performed.given {data : Option (List UInt8)} {s' : Linked σ Mias} {next : State}
    (hstep : token.step (view s.se.card) command = Token.given data next) (h : Performed token view command s s') :
    s'.obj = s.obj ∧ view s'.se.card = next ∧ ∀ value, data = some value → Holds s'.se (value ++ [0x90, 0x00]) := by
  obtain ⟨hobj, hview, result, hanswers, hholds⟩ := h
  rw [hstep] at hview hanswers
  refine ⟨hobj, hview.trans (given_snd id rfl), ?_⟩
  rintro value rfl
  exact hholds _ hanswers

include h hchannel hready

theorem psoHashInternallyFinal_performs (hash : Mem) :
    Yields (Mias.psoHashInternallyFinal T hash) s (delivered hash 0 (token.hashed (view s.se.card))) fun s' =>
      s'.obj = s.obj ∧ view s'.se.card = { view s.se.card with hashing := none } := by
  have hsends : Sends T _ (SEInterface.transmitCase4 T (0x00 ||| channel) .performSecurityOperation SCP1.PSOHashCode
      SCP2.PSOTemplateHash [SCTag.PSOHashInt, 0x00] 0x00) := transmitCase4_sends (Nat.le_of_ble_eq_true rfl)
  have hrun : Yields (Mias.ok (Applet.transmitCase4 T 0x00 .performSecurityOperation SCP1.PSOHashCode SCP2.PSOTemplateHash
      [SCTag.PSOHashInt, 0x00] 0x00)) s _ _ := h.ok_yields .hashFinal hchannel hready trivial hsends
  have hstep : token.step (view s.se.card) .hashFinal =
      given (token.hashed (view s.se.card)) { view s.se.card with hashing := none } := rfl
  refine Yields.bind hrun fun s₁ hperformed => ?_
  obtain ⟨hobj, hview, hholds⟩ := hperformed.given hstep
  rw [hstep]
  cases hhashed : token.hashed (view s.se.card) with
  | none => exact .pure ⟨hobj, hview⟩
  | some value =>
      refine Yields.bind (Mias.response_yields (hobj ▸ hready) (hholds value hhashed)) fun s₂ hs₂ => ?_
      subst hs₂
      exact .pure ⟨hobj, hview⟩

theorem psoComputeDigitalSignature_performs (signature : Mem) :
    Yields (Mias.psoComputeDigitalSignature T signature) s (delivered signature 0 (token.signature (view s.se.card)))
      fun s' => s'.obj = s.obj ∧ view s'.se.card = { view s.se.card with hash := none } := by
  have hsends : Sends T _ (SEInterface.transmitCase2 T (0x00 ||| channel) .performSecurityOperation SCP1.PSOSignature
      SCP2.PSOSignatureInput 0x00) := command_sends T _
  obtain ⟨result, hanswers, hrun⟩ : ∃ result, (token.step (view s.se.card) .sign).1.Answers result ∧
      Yields (Mias.onApplet (Applet.transmitCase2 T 0x00 .performSecurityOperation SCP1.PSOSignature
        SCP2.PSOSignatureInput 0x00)) s (Option.isSome result) fun s' => s'.obj = s.obj ∧
          view s'.se.card = (token.step (view s.se.card) .sign).2 ∧ ∀ answer, result = some answer → Holds s'.se answer :=
    h.sent_yields .sign hchannel hready trivial hsends
  have hstep : token.step (view s.se.card) .sign =
      given (token.signature (view s.se.card)) { view s.se.card with hash := none } := rfl
  refine Yields.bind hrun fun s₁ hsent => ?_
  obtain ⟨hobj, hview, hholds⟩ := hsent
  rw [hstep] at hanswers hview
  have hview₁ := hview.trans (given_snd id rfl)
  have hready₁ : Mias.Ready channel s₁.obj := hobj ▸ hready
  cases hsignature : token.signature (view s.se.card) with
  | none =>
      rw [hsignature] at hanswers
      cases result with
      | none => exact .pure ⟨hobj, hview₁⟩
      | some answer =>
          have hturn : Evals (Mias.signatureTurn T ⟨0, 0, signature⟩) s₁ (.stop ⟨false, some signature, 0⟩) s₁ := by
            refine .of_eq fun fuel => ?_
            rw [Mias.signatureTurn, bind_done (refused_response hanswers rfl hready₁ (hholds _ rfl) fuel)]
            rfl
          exact ⟨s₁, .loop (.stop hturn), hobj, hview₁⟩
  | some value =>
      rw [hsignature] at hanswers
      obtain rfl : result = some (value ++ [0x90, 0x00]) := hanswers
      have hbounds := signature_bounds hsignature
      have hne : value.length ≠ 0 := by omega
      have hturn : Evals (Mias.signatureTurn T ⟨0, 0, signature⟩) s₁
          (.stop ⟨true, some (signature.write 0 value), value.length⟩) s₁ := by
        refine .of_eq fun fuel => ?_
        rw [Mias.signatureTurn, bind_done (Mias.response_done hready₁.isSelected (hholds _ rfl) fuel), responseData_append,
          if_pos hne, bind_done (Mias.statusWord_done hready₁.isSelected (hholds _ rfl) fuel), statusWord_ok,
          if_neg (by decide), decide_eq_true rfl, Nat.zero_add, Nat.mod_eq_of_lt (by omega)]
        rfl
      exact ⟨s₁, .loop (.stop hturn), hobj, hview₁⟩

/-- The last command of a chain. -/
theorem decipher_performs {cla : UInt8} (hcla : cla = 0x00) {field : List UInt8} (hfield : field.length ≤ 255) (plain : Mem)
    (len : Nat) :
    Yields (do
      if ← Mias.onApplet (Applet.transmitCase3 T cla .performSecurityOperation SCP1.PSOPlain SCP2.PSOPadding field) then
        Mias.decipherResult T plain len
      else
        return ⟨false, some plain, len⟩) s (delivered plain len (token.plain (view s.se.card) field))
      fun s' => s'.obj = s.obj ∧ view s'.se.card = { view s.se.card with cryptogram := [] } := by
  subst hcla
  have hsends : Sends T _ (SEInterface.transmitCase3 T (0x00 ||| channel) .performSecurityOperation SCP1.PSOPlain
      SCP2.PSOPadding field) := transmitCase3_sends (by omega)
  obtain ⟨result, hanswers, hrun⟩ : ∃ result, (token.step (view s.se.card) (.decipher true field)).1.Answers result ∧
      Yields (Mias.onApplet (Applet.transmitCase3 T 0x00 .performSecurityOperation SCP1.PSOPlain SCP2.PSOPadding field)) s
        (Option.isSome result) fun s' => s'.obj = s.obj ∧
          view s'.se.card = (token.step (view s.se.card) (.decipher true field)).2 ∧
          ∀ answer, result = some answer → Holds s'.se answer :=
    h.sent_yields (.decipher true field) hchannel hready hfield hsends
  have hstep : token.step (view s.se.card) (.decipher true field) =
      given (token.plain (view s.se.card) field) { view s.se.card with cryptogram := [] } := rfl
  rw [hstep] at hanswers
  refine Yields.bind hrun fun s₁ hsent => ?_
  obtain ⟨hobj, hview, hholds⟩ := hsent
  rw [hstep] at hview
  refine (decipherResult_yields hanswers (hobj ▸ hready) hholds (fun value hvalue => (plain_bounds hvalue).1) plain
    len).mono ?_
  rintro s' rfl
  exact ⟨hobj, hview.trans (given_snd id rfl)⟩

theorem psoDecipher_performs {dataLen : Nat} (hdata : dataLen ≤ 509) (data plain : Mem) (len : Nat) :
    Yields (Mias.psoDecipher T data dataLen plain len) s
      (delivered plain len (token.plain (view s.se.card) (SCTag.PSOPaddingProprietary1 :: data.slice 0 dataLen)))
      fun s' => s'.obj = s.obj ∧ view s'.se.card = { view s.se.card with cryptogram := [] } := by
  unfold Mias.psoDecipher
  by_cases hshort : dataLen < 255
  · rw [if_pos hshort]
    have hfield : (SCTag.PSOPaddingProprietary1 :: data.slice 0 dataLen).length ≤ 255 := by
      rw [List.length_cons, Mem.slice_length]
      omega
    exact decipher_performs h hchannel hready rfl hfield plain len
  · rw [if_neg hshort]
    have hfirst : (SCTag.PSOPaddingProprietary1 :: data.slice 0 254).length ≤ 255 := by
      rw [List.length_cons, Mem.slice_length]
    have hsecond : (data.slice 254 (dataLen - 254)).length ≤ 255 := by
      rw [Mem.slice_length]
      omega
    have hwhole : data.slice 0 254 ++ data.slice 254 (dataLen - 254) = data.slice 0 dataLen :=
      (Mem.slice_split data (by omega)).symm
    have hsends : Sends T _ (SEInterface.transmitCase3 T (0x10 ||| channel) .performSecurityOperation SCP1.PSOPlain
        SCP2.PSOPadding (SCTag.PSOPaddingProprietary1 :: data.slice 0 254)) := transmitCase3_sends (by omega)
    have hchained : Yields (Mias.ok (Applet.transmitCase3 T 0x10 .performSecurityOperation SCP1.PSOPlain SCP2.PSOPadding
        (SCTag.PSOPaddingProprietary1 :: data.slice 0 254))) s true _ :=
      h.ok_yields (.decipher false (SCTag.PSOPaddingProprietary1 :: data.slice 0 254)) hchannel hready hfirst hsends
    refine Yields.bind hchained fun s₁ hperformed => ?_
    have hview : view s₁.se.card = { view s.se.card with
        cryptogram := (view s.se.card).cryptogram ++ (SCTag.PSOPaddingProprietary1 :: data.slice 0 254) } :=
      hperformed.view_eq
    rw [if_pos rfl]
    have hlast := decipher_performs h hchannel (hperformed.obj_eq ▸ hready) rfl hsecond plain len
    rw [hview, plain_append, List.cons_append, hwhole] at hlast
    refine hlast.mono ?_
    rintro s' ⟨hobj, hview'⟩
    exact ⟨hobj.trans hperformed.obj_eq, hview'⟩

end Given

end Token

end TrustOnboard
