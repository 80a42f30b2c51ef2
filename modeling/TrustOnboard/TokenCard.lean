import TrustOnboard.MiasDecipher
import TrustOnboard.MiasSignature
import TrustOnboard.SdkCard
import TrustOnboard.TokenModel

/-! Tokens behind APDUs. A card embodies a token if each command, sent as its APDU, is answered as the token does and
leaves the card as the token; every token has a card. -/

namespace TrustOnboard.Token

open Exec Linked SEInterface

/-! ### APDUs -/

namespace Command

/-- MANAGE SECURITY ENVIRONMENT with a template. -/
def environmentApdu (channel template : UInt8) (field : List UInt8) : List UInt8 :=
  (0x00 ||| channel) :: SCIns.manageSecurityEnvironment.code :: (SCP1.MSECompDecInt ||| SCP1.MSESet) :: template ::
    lowByte field.length :: field

/-- An algorithm and a key. -/
def keyField (algorithm key : UInt8) : List UInt8 :=
  [SCTag.MSEAlgReference, 0x01, algorithm, SCTag.MSEPublicKey, 0x01, key]

/-- The APDU of a command on a channel. -/
def apdu (channel : UInt8) : Command → List UInt8
  | .verify pin => Mias.verifyApdu channel pin
  | .setHash algorithm => environmentApdu channel SCP2.MSETemplateHashCode [SCTag.MSEAlgReference, 0x01, algorithm]
  | .hashBlock data =>
      (0x00 ||| channel) :: SCIns.performSecurityOperation.code :: SCP1.PSOHashCode :: SCP2.PSOPlain ::
        lowByte data.length :: data
  | .hashFinal =>
      [0x00 ||| channel, SCIns.performSecurityOperation.code, SCP1.PSOHashCode, SCP2.PSOTemplateHash, lowByte 2,
        SCTag.PSOHashInt, 0x00, 0x00]
  | .setSignature algorithm key => environmentApdu channel SCP2.MSETemplateSignature (keyField algorithm key)
  | .putHash hash => Mias.hashApdu channel hash
  | .sign => Mias.signatureApdu channel
  | .setDecipher algorithm key => environmentApdu channel SCP2.MSETemplateConfidentiality (keyField algorithm key)
  | .decipher last field => Mias.Decipher.apdu channel ⟨if last then 0x00 else 0x10, field⟩

/-- The data goes into one command, and the command into 260 bytes. -/
def Fits : Command → Prop
  | .verify pin => pin.length ≤ 255
  | .hashBlock data => data.length ≤ 255
  | .putHash hash => hash.length ≤ 252
  | .decipher _ field => field.length ≤ 255
  | _ => True

theorem Fits.apdu_length {command : Command} (h : command.Fits) (channel : UInt8) :
    4 ≤ (command.apdu channel).length ∧ (command.apdu channel).length ≤ 260 := by
  cases command with
  | verify pin =>
      have hpin : pin.length ≤ 255 := h
      simp only [apdu, Mias.verifyApdu, List.length_cons]
      omega
  | hashBlock data =>
      have hdata : data.length ≤ 255 := h
      simp only [apdu, List.length_cons]
      omega
  | putHash hash =>
      have hhash : hash.length ≤ 252 := h
      simp only [apdu, Mias.hashApdu, List.length_cons, List.length_append, List.length_nil]
      omega
  | decipher last field =>
      have hfield : field.length ≤ 255 := h
      simp only [apdu, Mias.Decipher.apdu, List.length_cons]
      omega
  | _ => exact ⟨Nat.le_of_ble_eq_true rfl, Nat.le_of_ble_eq_true rfl⟩

end Command

/-- How a command ended, for a reply. A refusal comes with a status word only, or there is no answer. -/
def Reply.Answers : Reply → Option (List UInt8) → Prop
  | .refused, result => Applet.acceptedResult result = false ∧ ∀ answer, result = some answer → answer.length = 2
  | .accepted, result => ∃ data, result = some (data ++ [0x90, 0x00])
  | .gives data, result => result = some (data ++ [0x90, 0x00])

def Reply.ok : Reply → Bool
  | .refused => false
  | _ => true

theorem Reply.Answers.acceptedResult_eq {reply : Reply} {result : Option (List UInt8)} (h : reply.Answers result) :
    Applet.acceptedResult result = reply.ok := by
  cases reply with
  | refused => exact h.1
  | accepted =>
      obtain ⟨data, rfl⟩ := h
      exact acceptedResult_append data
  | gives data =>
      obtain rfl : result = some (data ++ [0x90, 0x00]) := h
      exact acceptedResult_append data

/-- The card behind the transport is the token, as far as `view` shows it. Commands with other instructions leave the
retry counter alone. -/
structure EmbodiedBy {σ : Type} (token : Token) (T : Transport σ) (channels : UInt8 → Prop) (view : σ → State) : Prop where
  performs : ∀ card channel (command : Command), channels channel → command.Fits → ∃ result card',
    Concludes T card (command.apdu channel) result card' ∧ (token.step (view card) command).1.Answers result ∧
      view card' = (token.step (view card) command).2
  spares : ∀ card apdu, insOf apdu ≠ SCIns.verify.code → (view (T card apdu).2).tries = (view card).tries

/-! ### A card for every token -/

/-- The command that an APDU stands for. -/
def Command.ofApdu : List UInt8 → Option Command
  | cla :: ins :: p1 :: p2 :: _ :: field =>
      if ins = SCIns.verify.code then some (.verify field)
      else if ins = SCIns.manageSecurityEnvironment.code then
        if p2 = SCP2.MSETemplateHashCode then some (.setHash (field.getD 2 0))
        else if p2 = SCP2.MSETemplateSignature then some (.setSignature (field.getD 2 0) (field.getD 5 0))
        else some (.setDecipher (field.getD 2 0) (field.getD 5 0))
      else if ins = SCIns.performSecurityOperation.code then
        if p1 = SCP1.PSOHashCode then
          if p2 = SCP2.PSOPlain then some (.hashBlock field)
          else if field.getD 0 0 = SCTag.PSOHashExt then some (.putHash (field.drop 2).dropLast)
          else some .hashFinal
        else if p1 = SCP1.PSOSignature then some .sign
        else some (.decipher (decide (cla &&& 0x10 = 0)) field)
      else none
  | _ => none

/-- On channel 1 the APDU of a command is read as the command. -/
theorem Command.ofApdu_apdu (command : Command) : ofApdu (command.apdu 1) = some command := by
  cases command with
  | putHash hash =>
      have hfield : ((SCTag.PSOHashExt :: lowByte hash.length :: hash ++ [0x00]).drop 2).dropLast = hash :=
        List.dropLast_concat
      show some (Command.putHash ((SCTag.PSOHashExt :: lowByte hash.length :: hash ++ [0x00]).drop 2).dropLast) = _
      rw [hfield]
  | decipher last field =>
      have hchained : decide ((0x10 ||| 1 : UInt8) &&& 0x10 = 0) = false := by decide
      have hlast : decide ((0x00 ||| 1 : UInt8) &&& 0x10 = 0) = true := by decide
      cases last with
      | false =>
          show some (Command.decipher (decide ((0x10 ||| 1 : UInt8) &&& 0x10 = 0)) field) = _
          rw [hchained]
      | true =>
          show some (Command.decipher (decide ((0x00 ||| 1 : UInt8) &&& 0x10 = 0)) field) = _
          rw [hlast]
  | _ => rfl

/-- A command of the token is recognised by its instruction. -/
theorem Command.ofApdu_eq_none {apdu : List UInt8} (hverify : insOf apdu ≠ SCIns.verify.code)
    (henvironment : insOf apdu ≠ SCIns.manageSecurityEnvironment.code)
    (hoperation : insOf apdu ≠ SCIns.performSecurityOperation.code) : ofApdu apdu = none := by
  match apdu with
  | [] | [_] | [_, _] | [_, _, _] | [_, _, _, _] => rfl
  | cla :: ins :: p1 :: p2 :: lc :: field =>
      have hins : insOf (cla :: ins :: p1 :: p2 :: lc :: field) = ins := rfl
      rw [hins] at hverify henvironment hoperation
      rw [ofApdu, if_neg hverify, if_neg henvironment, if_neg hoperation]

/-- The answer to a command. -/
def Reply.answer : Reply → List UInt8
  | .refused => [0x69, 0x82]
  | .accepted => [0x90, 0x00]
  | .gives data => data ++ [0x90, 0x00]

theorem Reply.answer_answers (reply : Reply) : reply.Answers (some reply.answer) := by
  cases reply with
  | refused =>
      refine ⟨by decide, ?_⟩
      intro answer heq
      cases heq
      rfl
  | accepted => exact ⟨[], rfl⟩
  | gives data => rfl

theorem Reply.answer_not_bare (reply : Reply) : ¬Bare reply.answer := by
  cases reply with
  | refused => decide
  | accepted => decide
  | gives data => exact Mias.not_bare_append data

/-- What a token gives goes into one answer. -/
theorem step_answer_length (token : Token) (s : State) (command : Command) :
    (token.step s command).1.answer.length ≤ apduResponseSize := by
  have hstatus : ([0x90, 0x00] : List UInt8).length ≤ apduResponseSize := by decide
  have hgiven : ∀ data s', (∀ value, data = some value → value.length ≤ 256) →
      (given data s').1.answer.length ≤ apduResponseSize := by
    intro data s' hdata
    cases data with
    | none => exact hstatus
    | some value =>
        have hlen := hdata value rfl
        show (value ++ [0x90, 0x00]).length ≤ 258
        rw [List.length_append, List.length_cons, List.length_singleton]
        omega
  have haccepted : ∀ condition s' s'', (acceptedIf condition s' s'').1.answer.length ≤ apduResponseSize := by
    intro condition s' s''
    cases condition <;> exact hstatus
  cases command with
  | putHash hash => exact hstatus
  | hashFinal => exact hgiven _ _ fun _ hvalue => hashed_length hvalue
  | sign => exact hgiven _ _ fun _ hvalue => (signature_bounds hvalue).2
  | decipher last field =>
      cases last with
      | false => exact hstatus
      | true => exact hgiven _ _ fun _ hvalue => (plain_bounds hvalue).2
  | verify pin => exact haccepted _ _ _
  | setHash algorithm => exact haccepted _ _ _
  | hashBlock data => exact haccepted _ _ _
  | setSignature algorithm key => exact haccepted _ _ _
  | setDecipher algorithm key => exact haccepted _ _ _

/-- A token in front of another card. -/
def card {σ : Type} (token : Token) (files : Transport σ) : Transport (State × σ) := fun card apdu =>
  match Command.ofApdu apdu with
  | some command => (some (token.step card.1 command).1.answer, (token.step card.1 command).2, card.2)
  | none => ((files card.2 apdu).1, card.1, (files card.2 apdu).2)

section Card

variable {σ : Type} {token : Token} {files : Transport σ}

theorem card_embodied : token.EmbodiedBy (token.card files) (· = 1) Prod.fst where
  performs := by
    rintro card channel command rfl _
    have hanswer : token.card files card (command.apdu 1) =
        (some (token.step card.1 command).1.answer, (token.step card.1 command).2, card.2) := by
      rw [Token.card, Command.ofApdu_apdu]
    have hsettles : Settles (token.card files) card (command.apdu 1) (token.step card.1 command).1.answer
        ((token.step card.1 command).2, card.2) :=
      .final hanswer (Reply.answer_not_bare _) (step_answer_length token card.1 command)
    exact ⟨some _, _, hsettles, Reply.answer_answers _, rfl⟩
  spares card apdu hins := by
    rw [Token.card]
    cases hcommand : Command.ofApdu apdu with
    | none => rfl
    | some command =>
        refine step_tries fun pin heq => hins ?_
        -- only an APDU with the instruction VERIFY is read as one
        subst heq
        match apdu with
        | [] | [_] | [_, _] | [_, _, _] | [_, _, _, _] => cases hcommand
        | cla :: ins :: p1 :: p2 :: lc :: field =>
            show ins = SCIns.verify.code
            by_contra hverify
            rw [Command.ofApdu, if_neg hverify] at hcommand
            split at hcommand
            · split at hcommand
              · cases hcommand
              · split at hcommand <;> cases hcommand
            · split at hcommand
              · split at hcommand
                · split at hcommand
                  · cases hcommand
                  · split at hcommand <;> cases hcommand
                · split at hcommand <;> cases hcommand
              · cases hcommand

/-- Other commands go through, with their follow-ups. -/
theorem card_settles {s : State} {under under' : σ} {apdu answer : List UInt8} (hlen : 4 ≤ apdu.length)
    (hverify : insOf apdu ≠ SCIns.verify.code) (henvironment : insOf apdu ≠ SCIns.manageSecurityEnvironment.code)
    (hoperation : insOf apdu ≠ SCIns.performSecurityOperation.code) (h : Settles files under apdu answer under') :
    Settles (token.card files) (s, under) apdu answer (s, under') := by
  have hsame : ∀ sent under, FollowUp apdu sent → token.card files (s, under) sent =
      ((files under sent).1, s, (files under sent).2) := by
    intro sent under hfollow
    have hnone : Command.ofApdu sent = none := by
      rcases hfollow.ins hlen with heq | heq
      · exact Command.ofApdu_eq_none (by rw [heq]; exact hverify) (by rw [heq]; exact henvironment)
          (by rw [heq]; exact hoperation)
      · exact Command.ofApdu_eq_none (by rw [heq]; decide) (by rw [heq]; decide) (by rw [heq]; decide)
    rw [Token.card, hnone]
  exact h.transfer (s, ·) (fun under sent => hsame sent under) .self

end Card

/-- A token that gives back what it was given, behind the name of the algorithm. -/
def sampleToken : Token where
  pin := cstr "0000"
  limit := 3
  digest algorithm := some fun data => algorithm :: data.take 64
  signer algorithm key := if key = 0x31 then some fun hash => algorithm :: hash.take 64 else none
  decipherer algorithm key := if key = 0x31 then some fun cipher => some (algorithm :: cipher.take 64) else none
  limit_pos := Nat.succ_pos 2
  digest_length := by
    rintro algorithm hash heq data
    cases heq
    have hlen := List.length_take_le 64 data
    rw [List.length_cons]
    omega
  signature_length := by
    intro algorithm key sign heq hash
    split at heq
    · cases heq
      have hlen := List.length_take_le 64 hash
      rw [List.length_cons]
      omega
    · cases heq
  plain_length := by
    intro algorithm key decipher heq cipher plain hplain
    split at heq
    · cases heq
      cases hplain
      have hlen := List.length_take_le 64 cipher
      rw [List.length_cons]
      omega
    · cases heq

/-- Nothing is set, and the PIN may be tried three times. -/
def State.fresh : State :=
  { tries := 3, verified := false, hashing := none, signing := none, hash := none, deciphering := none, cryptogram := [] }

end TrustOnboard.Token
