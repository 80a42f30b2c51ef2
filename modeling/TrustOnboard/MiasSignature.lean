import TrustOnboard.AppletFollowUps
import TrustOnboard.MiasCrypto
import TrustOnboard.MiasReading

/-! Signatures that come in fragments. A card returns a fragment with `61xx` if more are to come and hands out
the next one in answer to GET RESPONSE. The loop that puts the fragments together asks for the next one with
ENVELOPE, so it gets only signatures of one fragment. -/

namespace TrustOnboard.Mias

open Exec Linked SEInterface

variable {σ : Type} {T : Transport σ} {s : Linked σ Mias} {channel : UInt8}

/-! ### Cards that split signatures -/

/-- The status of a fragment, before these further ones. -/
def Closes (rest : List (List UInt8)) (status : List UInt8) : Prop :=
  (rest = [] ∧ status = [0x90, 0x00]) ∨ (rest ≠ [] ∧ ∃ le, status = [0x61, le])

/-- GET RESPONSE on the channel. -/
def IsGetResponse (channel : UInt8) (apdu : List UInt8) : Prop :=
  insOf apdu = SCIns.getResponse.code ∧ Applet.channelOf (apdu.getD 0 0) = channel

instance (channel : UInt8) (apdu : List UInt8) : Decidable (IsGetResponse channel apdu) :=
  inferInstanceAs (Decidable (_ ∧ _))

/-- The card has these fragments still to hand out. It does so in answer to GET RESPONSE; any other command is
refused meanwhile, with a status word of its own or by silence. -/
structure Fragmenting (T : Transport σ) (channel : UInt8) (pending : σ → List (List UInt8)) : Prop where
  releases : ∀ {card fragment rest apdu}, pending card = fragment :: rest → IsGetResponse channel apdu →
    ∃ status card', Closes rest status ∧ T card apdu = (some (fragment ++ status), card') ∧ pending card' = rest
  refuses : ∀ {card apdu answer}, pending card ≠ [] → ¬IsGetResponse channel apdu →
    (T card apdu).1 = some answer → answer.length ≤ 2 ∧ ¬Bare answer

/-- PSO HASH with the digest. -/
def hashApdu (channel : UInt8) (digest : List UInt8) : List UInt8 :=
  (0x00 ||| channel) :: SCIns.performSecurityOperation.code :: SCP1.PSOHashCode :: SCP2.PSOTemplateHash ::
    lowByte (digest.length + 2) :: (SCTag.PSOHashExt :: lowByte digest.length :: digest ++ [0x00])

/-- PSO COMPUTE DIGITAL SIGNATURE. -/
def signatureApdu (channel : UInt8) : List UInt8 :=
  [0x00 ||| channel, SCIns.performSecurityOperation.code, SCP1.PSOSignature, SCP2.PSOSignatureInput, 0x00]

/-- The ENVELOPE that asks for the rest. -/
def envelopeApdu (channel le : UInt8) : List UInt8 :=
  [0x00 ||| channel, SCIns.envelope.code, SCP1.ENVELOPEReserved, SCP2.ENVELOPEReserved, le]

/-- The card takes the digest and answers the signature command with the first fragment. -/
def Signs (T : Transport σ) (channel : UInt8) (pending : σ → List (List UInt8)) (digest fragment : List UInt8)
    (rest : List (List UInt8)) (card : σ) : Prop :=
  ∃ data hashed status signed, Settles T card (hashApdu channel digest) (data ++ [0x90, 0x00]) hashed ∧
    Closes rest status ∧ Settles T hashed (signatureApdu channel) (fragment ++ status) signed ∧ pending signed = rest

/-! ### What is accepted -/

/-- Answers with data and `61xx`, newest first, and their data in the order of the answers. -/
inductive Pieces : Commands → List UInt8 → Prop
  | nil : Pieces [] []
  | cons {earlier : Commands} {bytes command answer : List UInt8} (h : Pieces earlier bytes)
      (hdata : responseData answer ≠ []) (hmore : statusWord answer &&& 0xFF00 = swOKLengthInSW2) :
      Pieces ((command, some answer) :: earlier) (bytes ++ responseData answer)

/-- The last of the answers is one with data and `9000`. -/
def Complete (commands : Commands) (bytes : List UInt8) : Prop :=
  ∃ command answer earlier before, commands = (command, some answer) :: earlier ∧ Pieces earlier before ∧
    responseData answer ≠ [] ∧ statusWord answer = swOK ∧ bytes = before ++ responseData answer

/-- A signature that is returned is what the card answered; in particular no follow-up failed and none ended in
another status. -/
def Faithful (T : Transport σ) (hash : Mem) (hashLen : Nat) (signature : Mem) (len : Nat) (s : Linked σ Mias) :
    Prop :=
  ∀ fuel fetched s', signFinal T hash hashLen signature len fuel s = (.done fetched, s') → fetched.ok = true →
    ∃ signing hashing bytes, s'.se.log = signing ++ (hashing ++ s.se.log) ∧ Complete (commandsOf signing) bytes ∧
      fetched.out = some (signature.write 0 bytes) ∧ fetched.len = bytes.length % 65536

/-- A signature in these fragments is returned whole. -/
def Reassembles (T : Transport σ) (hash : Mem) (hashLen : Nat) (signature : Mem) (len : Nat)
    (fragments : List (List UInt8)) (s : Linked σ Mias) : Prop :=
  Attains (signFinal T hash hashLen signature len) s fun fetched _ =>
    fetched.ok = true ∧ fetched.out = some (signature.write 0 fragments.flatten) ∧
      fetched.len = fragments.flatten.length

theorem Pieces.complete {earlier : Commands} {before command answer : List UInt8} (h : Pieces earlier before)
    (hdata : responseData answer ≠ []) (hok : statusWord answer = swOK) :
    Complete ((command, some answer) :: earlier) (before ++ responseData answer) :=
  ⟨command, answer, earlier, before, rfl, h, hdata, hok, rfl⟩

/-! ### The signature loop, for every card -/

/-- The loop at the newest of the answers logged since `start`; the earlier ones are in the buffer. -/
def Gathering (start : List Event) (signature : Mem) (x : Gather) (s : Linked σ Mias) : Prop :=
  s.obj.applet.isSelected = true ∧ ∃ signing command answer earlier before, s.se.log = signing ++ start ∧
    commandsOf signing = (command, some answer) :: earlier ∧ Pieces earlier before ∧ Holds s.se answer ∧
    x = ⟨before.length, before.length % 65536, signature.write 0 before⟩

/-- What the loop returns. -/
def Gathered (start : List Event) (signature : Mem) (fetched : Fetched) (s : Linked σ Mias) : Prop :=
  fetched.ok = true → ∃ signing bytes, s.se.log = signing ++ start ∧ Complete (commandsOf signing) bytes ∧
    fetched.out = some (signature.write 0 bytes) ∧ fetched.len = bytes.length % 65536

theorem signatureTurn_meets {start : List Event} {signature : Mem} {x : Gather} (h : Gathering start signature x s) :
    Meets (signatureTurn T x) s
      (fun turn s' => match turn with
        | .again x' => Gathering start signature x' s'
        | .stop fetched => Gathered start signature fetched s') (fun _ => True) := by
  obtain ⟨hselected, signing, command, answer, earlier, before, hlog, hcommands, hpieces, hholds, rfl⟩ := h
  refine Meets.done_bind (response_done hselected hholds)
    (.ite (fun hsome => ?_) fun _ => .pure fun hfalse => by cases hfalse)
  have hdata : responseData answer ≠ [] := fun hnil => hsome (by rw [hnil, List.length_nil])
  have hout : (signature.write 0 before).write before.length (responseData answer) =
      signature.write 0 (before ++ responseData answer) := by
    rw [← Mem.write_append, Nat.zero_add]
  have hlen : (before.length % 65536 + (responseData answer).length) % 65536 =
      (before ++ responseData answer).length % 65536 := by
    rw [List.length_append]
    omega
  refine Meets.done_bind (statusWord_done hselected hholds) (.ite (fun hmore => ?_) fun _ => .pure ?_)
  · unfold Applet.transmitCase2
    refine .bind ((sent_meets (command_transmits T _)).mono (fun _ _ h => h) fun _ _ => trivial) ?_
    rintro ok s' ⟨hobj, ⟨rfl, _, hnot⟩ | ⟨_, result, events, hran, rfl⟩⟩
    · rw [hselected] at hnot
      cases hnot
    · cases result with
      | none => exact .pure fun hfalse => by cases hfalse
      | some next =>
          have hlog' : s'.se.log = events ++ signing ++ start := by
            rw [hran.log_eq, hlog, List.append_assoc]
          have hcommands' := commandsOf_append events signing
          rw [hran.ended.commandsOf, hcommands] at hcommands'
          refine .pure ⟨by rw [hobj]; exact hselected, events ++ signing, _, next, _, _, hlog', hcommands',
            hpieces.cons hdata hmore, hran.holds next rfl, ?_⟩
          rw [hout, hlen, List.length_append]
  · intro hok
    refine ⟨signing, before ++ responseData answer, hlog, ?_, ?_, hlen⟩
    · rw [hcommands]
      exact hpieces.complete hdata (of_decide_eq_true hok)
    · rw [hout]

theorem psoComputeDigitalSignature_meets (signature : Mem) :
    Meets (psoComputeDigitalSignature T signature) s (Gathered s.se.log signature) (fun _ => True) := by
  unfold psoComputeDigitalSignature Applet.transmitCase2
  refine .bind ((sent_meets (command_transmits T _)).mono (fun _ _ h => h) fun _ _ => trivial) ?_
  rintro ok s' ⟨hobj, ⟨rfl, _, _⟩ | ⟨hselected, result, events, hran, rfl⟩⟩
  · exact .pure fun hfalse => by cases hfalse
  · cases result with
    | none => exact .pure fun hfalse => by cases hfalse
    | some answer =>
        refine .loop (Gathering s.se.log signature) (fun _ _ _ => trivial)
          (fun x t h => (signatureTurn_meets (T := T) h).mono (fun turn _ hturn => ?_) fun _ hcut => hcut) ?_
        · cases turn <;> exact hturn
        refine ⟨by rw [hobj]; exact hselected, events, _, answer, [], [], hran.log_eq, hran.ended.commandsOf, .nil,
          hran.holds answer rfl, ?_⟩
        rw [Mem.write_nil]
        rfl

/-- **A signature that is returned is what the card answered.** -/
theorem signFinal_faithful (T : Transport σ) (hash : Mem) (hashLen : Nat) (signature : Mem) (len : Nat)
    (s : Linked σ Mias) : Faithful T hash hashLen signature len s := by
  intro fuel fetched s' hrun hok
  obtain ⟨algorithm, t, hgets, hrun⟩ := bind_eq_done hrun
  cases hgets
  obtain ⟨hashed, t, hhash, hrun⟩ := bind_eq_done hrun
  have hgrows : Within T Mias.applet (fun _ => True) (fun _ => True) s
      (psoHashExternally T (s.obj.signAlgo &&& 0xF0) hash hashLen fuel s).2 :=
    psoHashExternally_stays within_bears trivial _ hash hashLen fuel s
  rw [hhash] at hgrows
  obtain ⟨_, hashing, hlog, _⟩ := hgrows
  cases hashed with
  | false =>
      cases hrun
      cases hok
  | true =>
      obtain ⟨signing, bytes, hlog', hcomplete⟩ := (psoComputeDigitalSignature_meets signature).done hrun hok
      exact ⟨signing, hashing, bytes, by rw [hlog', hlog], hcomplete⟩

/-! ### A card that signs -/

section Signing

variable {pending : σ → List (List UInt8)} {fragment digest : List UInt8} {rest : List (List UInt8)} {hash : Mem}
  {size : Nat}

/-- The object after the signature command: the first fragment is in the buffer. -/
structure Answered (pending : σ → List (List UInt8)) (fragment : List UInt8) (rest : List (List UInt8)) (m : Mias)
    (s : Linked σ Mias) : Prop where
  obj_eq : s.obj = m
  pending_eq : pending s.se.card = rest
  holds : ∃ status, Closes rest status ∧ Holds s.se (fragment ++ status)
  fits : fragment.length < 65536

theorem psoHashExternally_yields {algorithm : UInt8} {data : List UInt8} {card : σ} (hready : Ready channel s.obj)
    (hsize : digestLength algorithm = some size)
    (h : Settles T s.se.card (hashApdu channel (hash.slice 0 size)) (data ++ [0x90, 0x00]) card) (hashLen : Nat) :
    Yields (psoHashExternally T algorithm hash hashLen) s true fun s' => s'.obj = s.obj ∧ s'.se.card = card := by
  have hsmall : size ≤ 64 := by
    unfold digestLength at hsize
    split_ifs at hsize <;> cases hsize <;> decide
  have hsent : Settles T s.se.card ((0x00 ||| channel) :: SCIns.performSecurityOperation.code :: SCP1.PSOHashCode ::
      SCP2.PSOTemplateHash :: lowByte (SCTag.PSOHashExt :: lowByte size :: hash.slice 0 size).length ::
      ((SCTag.PSOHashExt :: lowByte size :: hash.slice 0 size) ++ [0x00])) (data ++ [0x90, 0x00]) card := by
    rw [hashApdu, Mem.slice_length] at h
    simpa using h
  simp only [psoHashExternally, hsize]
  refine (transmitCase4_yields hready ?_ hsent).mono ?_
  · simp only [List.length_cons, Mem.slice_length, apduSize]
    omega
  · intro s' hs'
    exact ⟨hs'.1, hs'.2.1⟩

/-- The two commands in front of the signature loop. -/
theorem signing_yields {algorithm : UInt8} (hready : Ready channel s.obj)
    (hsize : digestLength algorithm = some size)
    (hsigns : Signs T channel pending (hash.slice 0 size) fragment rest s.se.card) (hashLen : Nat) :
    Yields (psoHashExternally T algorithm hash hashLen) s true fun s' =>
      Yields (onApplet (Applet.transmitCase2 T 0x00 .performSecurityOperation SCP1.PSOSignature
        SCP2.PSOSignatureInput 0x00)) s' true (Answered pending fragment rest s.obj) := by
  obtain ⟨data, hashed, status, signed, hhash, hcloses, hsign, hpending⟩ := hsigns
  refine (psoHashExternally_yields hready hsize hhash hashLen).mono ?_
  intro s' hs'
  obtain ⟨hobj, hcard⟩ := hs'
  rw [← hobj] at hready
  rw [← hcard] at hsign
  unfold Applet.transmitCase2
  refine (sent_yields hready (Applet.command_answers hsign)).mono ?_
  intro s'' hs''
  obtain ⟨hobj', hcard', hholds⟩ := hs''
  have hfits := hsign.fits
  simp only [List.length_append, apduResponseSize] at hfits
  exact ⟨hobj'.trans hobj, by rw [hcard', hpending], ⟨status, hcloses, hholds⟩, by omega⟩

theorem word16_more (le : UInt8) : word16 0x61 le &&& 0xFF00 = swOKLengthInSW2 := by
  have hall : ∀ n, n < 256 → word16 0x61 (UInt8.ofNat n) &&& 0xFF00 = swOKLengthInSW2 := by decide +kernel
  have := hall le.toNat le.toNat_lt
  rwa [UInt8.ofNat_toNat] at this

/-- The loop returns a signature of one fragment. -/
theorem signatureLoop_single {m : Mias} {signature : Mem} (hready : Ready channel m) (hfragment : fragment ≠ [])
    (h : Answered pending fragment [] m s) :
    Attains (loop (signatureTurn T) ⟨0, 0, signature⟩) s fun fetched _ =>
      fetched.ok = true ∧ fetched.out = some (signature.write 0 fragment) ∧ fetched.len = fragment.length := by
  obtain ⟨status, ⟨_, rfl⟩ | ⟨hrest, _⟩, hholds⟩ := h.holds
  · have hselected : s.obj.applet.isSelected = true := by
      rw [h.obj_eq]
      exact hready.isSelected
    have hturn : Evals (signatureTurn T ⟨0, 0, signature⟩) s
        (.stop ⟨true, some (signature.write 0 fragment), fragment.length % 65536⟩) s := by
      refine .of_eq fun fuel => ?_
      rw [signatureTurn, bind_done (response_done hselected hholds fuel), responseData_append,
        if_pos (by rwa [Ne, List.length_eq_zero_iff]), bind_done (statusWord_done hselected hholds fuel), statusWord_ok,
        if_neg (by decide), decide_eq_true rfl]
      simp
    exact ⟨_, s, .loop (.stop hturn), rfl, rfl, Nat.mod_eq_of_lt h.fits⟩
  · exact (hrest rfl).elim

theorem not_isGetResponse_envelope (le : UInt8) : ¬IsGetResponse channel (envelopeApdu channel le) := by
  rintro ⟨hins, _⟩
  exact absurd hins (by show SCIns.envelope.code ≠ SCIns.getResponse.code; decide)

theorem responseData_of_short {answer : List UInt8} (h : answer.length ≤ 2) : responseData answer = [] := by
  rw [responseData, Nat.sub_eq_zero_of_le h, List.take_zero]

/-- The ENVELOPE behind a first fragment of several is refused, and so is the signature. -/
theorem signatureLoop_several {m : Mias} {signature : Mem} (hcard : Fragmenting T channel pending)
    (hready : Ready channel m) (hrest : rest ≠ []) (h : Answered pending fragment rest m s) :
    Meets (loop (signatureTurn T) ⟨0, 0, signature⟩) s (fun fetched _ => fetched.ok = false) fun _ => True := by
  -- before the ENVELOPE, and behind its answer
  let inv : Gather → Linked σ Mias → Prop := fun _ t => Answered pending fragment rest m t ∨
    t.obj.applet.isSelected = true ∧ ∃ answer, Holds t.se answer ∧ answer.length ≤ 2
  refine Meets.loop inv (fun _ _ _ => trivial) ?_ (.inl h)
  rintro x t (hfirst | ⟨hselected, answer, hholds, hshort⟩)
  · obtain ⟨status, ⟨hnil, _⟩ | ⟨_, le, rfl⟩, hholds⟩ := hfirst.holds
    · exact (hrest hnil).elim
    · have hselected : t.obj.applet.isSelected = true := by
        rw [hfirst.obj_eq]
        exact hready.isSelected
      refine Meets.done_bind (response_done hselected hholds) (.ite (fun _ => ?_) fun _ => .pure rfl)
      refine Meets.done_bind (statusWord_done hselected hholds) ?_
      rw [statusWord_append, if_pos (word16_more le)]
      unfold Applet.transmitCase2
      refine .bind ((sent_meets (command_transmits T _)).mono (fun _ _ h => h) fun _ _ => trivial) ?_
      rintro ok t' ⟨hobj, ⟨rfl, _, _⟩ | ⟨_, result, events, hran, rfl⟩⟩
      · exact .pure rfl
      · cases result with
        | none => exact .pure rfl
        | some answer =>
            have hchannel : t.obj.applet.channel = channel := by
              rw [hfirst.obj_eq]
              exact hready.channel_eq
            have hpending : pending t.se.card ≠ [] := by
              rw [hfirst.pending_eq]
              exact hrest
            have hrefused : ∀ answer, (T t.se.card (envelopeApdu channel (lowByte (word16 0x61 le)))).1 = some answer →
                answer.length ≤ 2 ∧ ¬Bare answer :=
              fun answer => hcard.refuses hpending (not_isGetResponse_envelope _)
            rw [hchannel] at hran
            have hresult := (hran.ended.immediate hran.replay fun answer heq => (hrefused answer heq).2).1
            refine .pure (.inr ⟨by rw [hobj]; exact hselected, answer, hran.holds answer rfl, ?_⟩)
            exact (hrefused answer hresult.symm).1
  · refine Meets.done_bind (response_done hselected hholds) ?_
    rw [responseData_of_short hshort]
    exact .pure rfl

theorem signFinal_several {hashLen len : Nat} {signature : Mem} (hcard : Fragmenting T channel pending)
    (hready : Ready channel s.obj) (hsize : digestLength (s.obj.signAlgo &&& 0xF0) = some size)
    (hsigns : Signs T channel pending (hash.slice 0 size) fragment rest s.se.card) (hrest : rest ≠ []) :
    ¬Reassembles T hash hashLen signature len (fragment :: rest) s := by
  have hfails : Meets (signFinal T hash hashLen signature len) s (fun fetched _ => fetched.ok = false)
      fun _ => True :=
    .gets_bind ((signing_yields hready hsize hsigns hashLen).bind_meets fun s' hs' =>
      hs'.bind_meets fun s'' hs'' => signatureLoop_several hcard hready hrest hs'')
  rintro ⟨fetched, hwhole⟩
  obtain ⟨_, ⟨hok, _⟩, hnot⟩ := hwhole.of_meets hfails
  rw [hok] at hnot
  cases hnot

/-- **A signature is put together** exactly if there is nothing to put together: it comes in one fragment.
Whatever is returned as a signature is what the card answered. -/
theorem signFinal_reassembles_iff {hashLen len : Nat} {signature : Mem} (hcard : Fragmenting T channel pending)
    (hready : Ready channel s.obj) (hsize : digestLength (s.obj.signAlgo &&& 0xF0) = some size)
    (hsigns : Signs T channel pending (hash.slice 0 size) fragment rest s.se.card)
    (hfragments : ∀ piece ∈ fragment :: rest, piece ≠ []) :
    (Reassembles T hash hashLen signature len (fragment :: rest) s ∧ Faithful T hash hashLen signature len s) ↔
      rest = [] := by
  constructor
  · intro hboth
    by_contra hrest
    exact signFinal_several hcard hready hsize hsigns hrest hboth.1
  · rintro rfl
    refine ⟨?_, signFinal_faithful T hash hashLen signature len s⟩
    unfold Reassembles
    rw [List.flatten_cons, List.flatten_nil, List.append_nil]
    apply Attains.gets_bind
    apply (signing_yields hready hsize hsigns hashLen).bind_attains
    intro s' hs'
    apply hs'.bind_attains
    intro s'' hs''
    exact signatureLoop_single hready (hfragments fragment List.mem_cons_self) hs''

/-- A card that is to sign with these fragments; the flag tells that it has begun. -/
def signingCard (channel : UInt8) : Transport (List (List UInt8) × Bool)
  | (fragment :: rest, begun), apdu =>
      if (begun = false ∧ apdu = signatureApdu channel) ∨ (begun = true ∧ IsGetResponse channel apdu) then
        (some (fragment ++ if rest = [] then [0x90, 0x00] else [0x61, lowByte (rest.headD []).length]), (rest, true))
      else if begun = true then
        (some [0x69, 0x85], (fragment :: rest, true))
      else
        (some [0x90, 0x00], (fragment :: rest, false))
  | card, _ => (some [0x90, 0x00], card)

def signingPending (card : List (List UInt8) × Bool) : List (List UInt8) := if card.2 then card.1 else []

theorem signingCard_fragmenting (channel : UInt8) : Fragmenting (signingCard channel) channel signingPending where
  releases := by
    rintro ⟨fragments, begun⟩ fragment rest apdu hpending hget
    cases begun with
    | false => cases hpending
    | true =>
        obtain rfl : fragments = fragment :: rest := hpending
        refine ⟨_, (rest, true), ?_, by simp only [signingCard, hget]; rfl, rfl⟩
        by_cases hrest : rest = []
        · exact .inl ⟨hrest, if_pos hrest⟩
        · exact .inr ⟨hrest, _, if_neg hrest⟩
  refuses := by
    rintro ⟨fragments, begun⟩ apdu answer hpending hget hanswer
    cases begun with
    | false => exact (hpending rfl).elim
    | true =>
        cases fragments with
        | nil => exact (hpending rfl).elim
        | cons fragment rest =>
            simp only [signingCard, hget, Bool.true_eq_false, false_and, and_false, or_false, if_false, if_true,
              Option.some.injEq] at hanswer
            subst hanswer
            decide

/-- The object before `signFinal`: SHA-256. -/
def signingObject (fragments : List (List UInt8)) : Linked (List (List UInt8) × Bool) Mias :=
  ⟨.create (fragments, false) Mem.zero, { selectedMias with signAlgo := 0x40 }⟩

theorem not_bare_of_length {answer : List UInt8} (h : 2 < answer.length) : ¬Bare answer := by
  intro hbare
  have := hbare.1
  omega

theorem signingCard_signs {fragment : List UInt8} (rest : List (List UInt8)) (hfits : fragment.length ≤ 256)
    (hfragment : fragment ≠ []) :
    Signs (signingCard 0) 0 signingPending (Mem.zero.slice 0 32) fragment rest (fragment :: rest, false) := by
  let status : List UInt8 := if rest = [] then [0x90, 0x00] else [0x61, lowByte (rest.headD []).length]
  have hlen : status.length = 2 := by
    show List.length (ite _ _ _) = 2
    split <;> rfl
  have hcloses : Closes rest status := by
    by_cases hrest : rest = []
    · exact .inl ⟨hrest, if_pos hrest⟩
    · exact .inr ⟨hrest, _, if_neg hrest⟩
  have hpos : 0 < fragment.length := List.length_pos_iff.mpr hfragment
  have htwo : 2 < (fragment ++ status).length := by
    rw [List.length_append]
    omega
  have hroom : (fragment ++ status).length ≤ apduResponseSize := by
    rw [List.length_append, hlen, apduResponseSize]
    omega
  refine ⟨[], (fragment :: rest, false), status, (rest, true), .final ?_ (by decide) (by decide), hcloses,
    .final rfl (not_bare_of_length htwo) hroom, rfl⟩
  rfl

theorem signFinal_single :
    Reassembles (signingCard 0) Mem.zero 32 Mem.zero 0 [[0xAA, 0xBB]] (signingObject [[0xAA, 0xBB]]) :=
  ((signFinal_reassembles_iff (signingCard_fragmenting 0) ⟨rfl, rfl, rfl⟩ rfl
    (signingCard_signs [] (by decide) (by decide)) (by decide)).mpr rfl).1

/-- Two fragments: the card waits for `00 C0 00 00 01` and is sent `00 C2 00 00 01`. -/
theorem second_fragment_not_fetched :
    ¬Reassembles (signingCard 0) Mem.zero 32 Mem.zero 0 [[0xAA], [0xBB]] (signingObject [[0xAA], [0xBB]]) :=
  signFinal_several (signingCard_fragmenting 0) ⟨rfl, rfl, rfl⟩ rfl
    (signingCard_signs [[0xBB]] (by decide) (by decide)) (by decide)

end Signing

end TrustOnboard.Mias
