import TrustOnboard.CardIso7816
import TrustOnboard.RetryCounter

/-! What a security token is for, apart from its APDUs: it guards its keys with a PIN and a retry counter, and hashes,
signs and deciphers. One step for each command; which bytes stand for a command is said elsewhere. -/

namespace TrustOnboard

/-- The PIN, the tries for it, and what is computed. Algorithms and keys are named by bytes; what is unknown is `none`. -/
structure Token where
  pin : List UInt8
  limit : Nat
  digest : UInt8 → Option (List UInt8 → List UInt8)
  signer : UInt8 → UInt8 → Option (List UInt8 → List UInt8)
  decipherer : UInt8 → UInt8 → Option (List UInt8 → Option (List UInt8))
  limit_pos : 0 < limit
  digest_length : ∀ algorithm hash, digest algorithm = some hash → ∀ data, (hash data).length ≤ 256
  signature_length : ∀ algorithm key sign, signer algorithm key = some sign → ∀ hash,
    0 < (sign hash).length ∧ (sign hash).length ≤ 256
  plain_length : ∀ algorithm key decipher, decipherer algorithm key = some decipher → ∀ cipher plain,
    decipher cipher = some plain → 0 < plain.length ∧ plain.length ≤ 256

namespace Token

/-- The tries that are left, whether the PIN was verified, and what was set for the next command. -/
structure State where
  tries : Nat
  verified : Bool
  hashing : Option (UInt8 × List UInt8)
  signing : Option (UInt8 × UInt8)
  hash : Option (List UInt8)
  deciphering : Option (UInt8 × UInt8)
  cryptogram : List UInt8

inductive Command where
  | verify (pin : List UInt8)
  | setHash (algorithm : UInt8)
  | hashBlock (data : List UInt8)
  | hashFinal
  | setSignature (algorithm key : UInt8)
  | putHash (hash : List UInt8)
  | sign
  | setDecipher (algorithm key : UInt8)
  | decipher (last : Bool) (field : List UInt8)
  deriving DecidableEq, Repr

inductive Reply where
  | refused
  | accepted
  | gives (data : List UInt8)

variable (token : Token)

/-- The first byte of a cryptogram tells its padding. -/
def decipherWith (decipher : List UInt8 → Option (List UInt8)) : List UInt8 → Option (List UInt8)
  | [] => none
  | padding :: cipher => if padding = SCTag.PSOPaddingProprietary1 then decipher cipher else none

/-- The hash of what was given. -/
def hashed (s : State) : Option (List UInt8) := do
  let (algorithm, done) ← s.hashing
  let hash ← token.digest algorithm
  return hash done

/-- What needs the PIN. -/
def State.unlocked {α : Type} (s : State) (value : Option α) : Option α := if s.verified then value else none

def signature (s : State) : Option (List UInt8) := do
  let (algorithm, key) ← s.unlocked s.signing
  let hash ← s.hash
  let sign ← token.signer algorithm key
  return sign hash

def plain (s : State) (field : List UInt8) : Option (List UInt8) := do
  let (algorithm, key) ← s.unlocked s.deciphering
  let decipher ← token.decipherer algorithm key
  decipherWith decipher (s.cryptogram ++ field)

/-- A command that gives this data, if it is there, and is accepted then. -/
def given (data : Option (List UInt8)) (s : State) : Reply × State :=
  match data with
  | some data => (.gives data, s)
  | none => (.refused, s)

/-- A command that is accepted on a condition. -/
def acceptedIf (condition : Bool) (accepted refused : State) : Reply × State :=
  if condition then (.accepted, accepted) else (.refused, refused)

/-- The PIN is accepted while tries are left. -/
def accepts (tries : Nat) (pin : List UInt8) : Bool := decide (0 < tries ∧ pin = token.pin)

def step (s : State) : Command → Reply × State
  | .verify pin =>
      acceptedIf (token.accepts s.tries pin) { s with tries := token.limit, verified := true }
        { s with tries := s.tries - 1, verified := false }
  | .setHash algorithm =>
      acceptedIf (token.digest algorithm).isSome { s with hashing := some (algorithm, []) } s
  | .hashBlock data =>
      acceptedIf s.hashing.isSome { s with hashing := s.hashing.map fun x => (x.1, x.2 ++ data) } s
  | .hashFinal => given (token.hashed s) { s with hashing := none }
  | .setSignature algorithm key =>
      acceptedIf (token.signer algorithm key).isSome { s with signing := some (algorithm, key), hash := none } s
  | .putHash hash => (.accepted, { s with hash := some hash })
  | .sign => given (token.signature s) { s with hash := none }
  | .setDecipher algorithm key =>
      acceptedIf (token.decipherer algorithm key).isSome
        { s with deciphering := some (algorithm, key), cryptogram := [] } s
  | .decipher last field =>
      if last then given (token.plain s field) { s with cryptogram := [] }
      else (.accepted, { s with cryptogram := s.cryptogram ++ field })

variable {token} {s : State}

theorem hashed_length {value : List UInt8} (h : token.hashed s = some value) : value.length ≤ 256 := by
  obtain ⟨⟨algorithm, done⟩, _, hrest⟩ := Option.bind_eq_some_iff.mp h
  obtain ⟨hash, hdigest, heq⟩ := Option.bind_eq_some_iff.mp hrest
  cases heq
  exact token.digest_length algorithm hash hdigest done

theorem signature_bounds {value : List UInt8} (h : token.signature s = some value) :
    0 < value.length ∧ value.length ≤ 256 := by
  obtain ⟨⟨algorithm, key⟩, _, hrest⟩ := Option.bind_eq_some_iff.mp h
  obtain ⟨hash, _, hrest⟩ := Option.bind_eq_some_iff.mp hrest
  obtain ⟨sign, hsigner, heq⟩ := Option.bind_eq_some_iff.mp hrest
  cases heq
  exact token.signature_length algorithm key sign hsigner hash

theorem plain_bounds {field value : List UInt8} (h : token.plain s field = some value) :
    0 < value.length ∧ value.length ≤ 256 := by
  obtain ⟨⟨algorithm, key⟩, _, hrest⟩ := Option.bind_eq_some_iff.mp h
  obtain ⟨decipher, hdecipherer, hplain⟩ := Option.bind_eq_some_iff.mp hrest
  cases hcipher : s.cryptogram ++ field with
  | nil =>
      rw [hcipher] at hplain
      cases hplain
  | cons padding cipher =>
      rw [hcipher, decipherWith] at hplain
      split at hplain
      · exact token.plain_length algorithm key decipher hdecipherer cipher value hplain
      · cases hplain

theorem acceptedIf_snd {condition : Bool} {accepted refused : State} {α : Type} (observe : State → α)
    (h : observe accepted = observe s) (h' : observe refused = observe s) :
    observe (acceptedIf condition accepted refused).2 = observe s := by
  cases condition with
  | false => exact h'
  | true => exact h

theorem given_snd {α : Type} (observe : State → α) {data : Option (List UInt8)} {s s' : State}
    (h : observe s' = observe s) :
    observe (given data s').2 = observe s := by
  cases data with
  | none => exact h
  | some data => exact h

/-- The counter after VERIFY. -/
theorem step_verify (pin : List UInt8) :
    (token.step s (.verify pin)).2.tries = Retry.spend token.limit s.tries (decide (pin = token.pin)) := by
  show (acceptedIf (token.accepts s.tries pin) _ _).2.tries = _
  unfold Retry.spend accepts
  by_cases haccepted : 0 < s.tries ∧ pin = token.pin
  · rw [decide_eq_true haccepted, if_pos ⟨haccepted.1, decide_eq_true haccepted.2⟩]
    rfl
  · rw [decide_eq_false haccepted, if_neg fun h => haccepted ⟨h.1, of_decide_eq_true h.2⟩]
    rfl

/-- Only VERIFY touches the counter. -/
theorem step_tries {command : Command} (h : ∀ pin, command ≠ .verify pin) :
    (token.step s command).2.tries = s.tries := by
  cases command with
  | verify pin => exact absurd rfl (h pin)
  | putHash => rfl
  | hashFinal => exact given_snd State.tries rfl
  | sign => exact given_snd State.tries rfl
  | decipher last field =>
      cases last with
      | false => rfl
      | true => exact given_snd State.tries rfl
  | setHash algorithm => exact acceptedIf_snd State.tries rfl rfl
  | hashBlock data => exact acceptedIf_snd State.tries rfl rfl
  | setSignature algorithm key => exact acceptedIf_snd State.tries rfl rfl
  | setDecipher algorithm key => exact acceptedIf_snd State.tries rfl rfl

end Token

end TrustOnboard
