import TrustOnboard.MiasCrypto
import TrustOnboard.MiasReading

/-! Deciphering. The ciphertext goes to the card behind a padding indicator, in one PSO DECIPHER or in a
chain of two; the plain text is what comes back with `9000`, at once or in answer to GET RESPONSE. A chain
whose first command is refused is not continued. -/

namespace TrustOnboard.Mias

open Exec Linked SEInterface

variable {σ : Type} {T : Transport σ} {s : Linked σ Mias}

/-! ### Command chains -/

/-- A PSO DECIPHER as it is passed to `Applet::transmit`. -/
structure Decipher where
  cla : UInt8
  data : List UInt8

/-- The command of an applet on this channel. -/
def Decipher.apdu (channel : UInt8) (command : Decipher) : List UInt8 :=
  (command.cla ||| channel) :: SCIns.performSecurityOperation.code :: SCP1.PSOPlain :: SCP2.PSOPadding ::
    lowByte command.data.length :: command.data

/-- GET RESPONSE without an expected length. -/
def plainApdu (channel : UInt8) : List UInt8 :=
  [0x00 ||| channel, SCIns.getResponse.code, SCP1.ENVELOPEReserved, SCP2.ENVELOPEReserved]

def IsDecipher (command : List UInt8) : Prop :=
  insOf command = SCIns.performSecurityOperation.code ∧ command.getD 2 0 = SCP1.PSOPlain ∧
    command.getD 3 0 = SCP2.PSOPadding

instance (command : List UInt8) : Decidable (IsDecipher command) := inferInstanceAs (Decidable (_ ∧ _))

/-- The PSO DECIPHER among the commands of a log, in the order in which they were issued. -/
def deciphersOf (commands : Commands) : Commands := commands.reverse.filter fun command => IsDecipher command.1

/-- A command chain that carries the padding indicator and the ciphertext. -/
structure IsChain (cipher : List UInt8) (chain : List Decipher) : Prop where
  whole : (chain.map Decipher.data).flatten = SCTag.PSOPaddingProprietary1 :: cipher
  lc : ∀ command ∈ chain, ∀ channel, ((command.apdu channel).getD 4 0).toNat = command.data.length
  short : ∀ command ∈ chain, command.data.length ≤ 255
  chained : ∀ command ∈ chain.dropLast, command.cla = 0x10
  last : ∀ command ∈ chain.getLast?, command.cla = 0x00

/-- Every command but the last was answered `9000`. -/
def InTurn (commands : Commands) : Prop := ∀ command ∈ commands.dropLast, Applet.acceptedResult command.2 = true

/-- The plain text is the data that came with `9000`, in answer to the last PSO DECIPHER or, if that came
without data, to GET RESPONSE. -/
def Delivers (channel : UInt8) (plain : Mem) (commands : Commands) (fetched : Fetched) : Prop :=
  ∃ answer, statusWord answer = swOK ∧ fetched.out = some (plain.write 0 (responseData answer)) ∧
    fetched.len = (responseData answer).length ∧
    ((∃ last earlier, commands = (last, some answer) :: earlier ∧ IsDecipher last ∧ responseData answer ≠ []) ∨
      ∃ last direct earlier, commands = (plainApdu channel, some answer) :: (last, some direct) :: earlier ∧
        IsDecipher last ∧ statusWord direct = swOK ∧ responseData direct = [])

/-- The commands are a chain with all of the ciphertext. -/
structure SendsWhole (channel : UInt8) (cipher : List UInt8) (plain : Mem) (commands : Commands) (fetched : Fetched) :
    Prop where
  sent : ∃ chain, IsChain cipher chain ∧
    (deciphersOf commands).map Prod.fst = chain.map (Decipher.apdu channel)
  inTurn : InTurn (deciphersOf commands)
  delivers : fetched.ok = true → Delivers channel plain commands fetched

/-- The commands are a chain with all of the ciphertext, or its part up to a command that was refused. -/
structure SendsInTurn (applet : Applet) (cipher : List UInt8) (plain : Mem) (commands : Commands) (fetched : Fetched) :
    Prop where
  sent : ∃ chain, IsChain cipher chain ∧
    ((deciphersOf commands).map Prod.fst = chain.map (Decipher.apdu applet.channel) ∨
      fetched.ok = false ∧ (deciphersOf commands).map Prod.fst <+: chain.map (Decipher.apdu applet.channel) ∧
        ((∃ refused ∈ deciphersOf commands, Applet.acceptedResult refused.2 = false) ∨ applet.isSelected = false))
  inTurn : InTurn (deciphersOf commands)
  delivers : fetched.ok = true → Delivers applet.channel plain commands fetched

/-- A call that is at this command: those before it were answered `9000`, and it is the next of the chain or the
GET RESPONSE behind it. -/
def Sending (channel : UInt8) (cipher : List UInt8) (start : List Event) (s : Linked σ Mias) : Prop :=
  ∃ chain commands command finished running, IsChain cipher chain ∧ s.se.log = running ++ (finished ++ start) ∧
    commandsOf finished = commands ∧ Underway command running ∧
    (∀ earlier ∈ commands, Applet.acceptedResult earlier.2 = true) ∧
    (deciphersOf ((command, none) :: commands)).map Prod.fst <+: chain.map (Decipher.apdu channel) ∧
    (command = plainApdu channel ∨ IsDecipher command)

theorem lc_toNat {channel : UInt8} {command : Decipher} (h : command.data.length ≤ 255) :
    ((command.apdu channel).getD 4 0).toNat = command.data.length := toNat_lowByte (by omega)

/-- A ciphertext of one command. -/
theorem isChain_single {cipher : List UInt8} (h : cipher.length < 255) :
    IsChain cipher [⟨0x00, SCTag.PSOPaddingProprietary1 :: cipher⟩] where
  whole := by simp
  lc := by
    simp only [List.mem_singleton, forall_eq]
    exact fun channel => lc_toNat (by simp only [List.length_cons]; omega)
  short := by
    simp only [List.mem_singleton, forall_eq, List.length_cons]
    omega
  chained := by simp
  last := by simp

/-- A ciphertext of two commands: with the padding indicator the first is full. -/
theorem isChain_pair {front back : List UInt8} (hfront : front.length = 254) (hback : back.length ≤ 255) :
    IsChain (front ++ back) [⟨0x10, SCTag.PSOPaddingProprietary1 :: front⟩, ⟨0x00, back⟩] where
  whole := by simp
  lc := by
    simp only [List.mem_cons, List.not_mem_nil, or_false, forall_eq_or_imp, forall_eq]
    exact ⟨fun channel => lc_toNat (by simp only [List.length_cons]; omega), fun channel => lc_toNat hback⟩
  short := by
    simp only [List.mem_cons, List.not_mem_nil, or_false, forall_eq_or_imp, forall_eq, List.length_cons]
    omega
  chained := by simp
  last := by simp

theorem isDecipher_apdu (channel : UInt8) (command : Decipher) : IsDecipher (command.apdu channel) := ⟨rfl, rfl, rfl⟩

theorem deciphersOf_cons {command : List UInt8} (h : IsDecipher command) (result : Option (List UInt8))
    (commands : Commands) :
    deciphersOf ((command, result) :: commands) = deciphersOf commands ++ [(command, result)] := by
  simp [deciphersOf, h]

/-- GET RESPONSE is none of the chain. -/
theorem deciphersOf_plain (channel : UInt8) (result : Option (List UInt8)) (commands : Commands) :
    deciphersOf ((plainApdu channel, result) :: commands) = deciphersOf commands := by
  have hnot : ¬IsDecipher (plainApdu channel) := fun h => absurd h.1 (by simp [insOf, plainApdu, SCIns.code])
  simp [deciphersOf, hnot]

theorem mem_of_mem_deciphersOf {commands : Commands} {command : List UInt8 × Option (List UInt8)}
    (h : command ∈ deciphersOf commands) : command ∈ commands := by
  have hmem := (List.mem_filter.mp h).1
  rwa [List.mem_reverse] at hmem

/-! ### What comes back -/

section Result

variable {start : List Event} {earlier : Commands} {last answer cipher : List UInt8} {chain : List Decipher}
  {channel : UInt8}

/-- After the last PSO DECIPHER of a chain. -/
theorem decipherResult_meets (hselected : s.obj.applet.isSelected = true)
    (hchannel : s.obj.applet.channel = channel)
    (hlogged : Logged start ((last, some answer) :: earlier) s) (hholds : Holds s.se answer) (hlast : IsDecipher last)
    (hearlier : ∀ command ∈ earlier, Applet.acceptedResult command.2 = true) (hchain : IsChain cipher chain)
    (hsent : (deciphersOf ((last, some answer) :: earlier)).map Prod.fst =
      chain.map (Decipher.apdu channel)) (plain : Mem) (len : Nat) :
    Meets (decipherResult T plain len) s
      (fun fetched s' => ∃ commands, Logged start commands s' ∧
        deciphersOf commands = deciphersOf ((last, some answer) :: earlier) ∧
        (fetched.ok = true → Delivers channel plain commands fetched))
      (Sending channel cipher start) := by
  apply Meets.done_bind (statusWord_done hselected hholds)
  refine .ite (fun hok => ?_) fun _ => .pure ⟨_, hlogged, rfl, fun hfalse => by cases hfalse⟩
  apply Meets.done_bind (response_done hselected hholds)
  refine .ite (fun hnone => ?_) fun hsome => ?_
  · have hempty : responseData answer = [] := List.eq_nil_of_length_eq_zero hnone
    subst hchannel
    unfold Applet.transmitCase1
    refine .bind ((sent_meets (command_transmits T (plainApdu s.obj.applet.channel))).mono (fun _ _ h => h) ?_) ?_
    · rintro s' ⟨_, running, hunderway, hlog, _⟩
      obtain ⟨finished, hlog', hcommands⟩ := hlogged
      refine ⟨chain, _, _, finished, running, hchain, by rw [hlog, hlog'], hcommands, hunderway, ?_, ?_, .inl rfl⟩
      · simp only [List.mem_cons, forall_eq_or_imp]
        exact ⟨decide_eq_true hok, hearlier⟩
      · exact ⟨[], by rw [deciphersOf_plain, hsent, List.append_nil]⟩
    rintro ok s' ⟨hobj, ⟨_, _, hno⟩ | ⟨_, result, events, hran, rfl⟩⟩
    · rw [hselected] at hno
      cases hno
    have hlogged' := hlogged.ran hran
    have hsame := deciphersOf_plain s.obj.applet.channel result ((last, some answer) :: earlier)
    cases result with
    | none => exact .pure ⟨_, hlogged', hsame, fun hfalse => by cases hfalse⟩
    | some plainAnswer =>
        have hselected' : s'.obj.applet.isSelected = true := by rw [hobj, hselected]
        apply Meets.done_bind (statusWord_done hselected' (hran.holds plainAnswer rfl))
        refine .ite (fun hok' => ?_) fun _ => .pure ⟨_, hlogged', hsame, fun hfalse => by cases hfalse⟩
        apply Meets.done_bind (response_done hselected' (hran.holds plainAnswer rfl))
        refine .pure ⟨_, hlogged', hsame, fun _ => ?_⟩
        exact ⟨plainAnswer, hok', rfl, rfl, .inr ⟨last, answer, earlier, rfl, hlast, hok, hempty⟩⟩
  · refine .pure ⟨_, hlogged, rfl, fun _ => ⟨answer, hok, rfl, rfl, .inl ⟨last, earlier, rfl, hlast, ?_⟩⟩⟩
    exact fun hempty => hsome (by rw [hempty, List.length_nil])

end Result

/-! ### The chain -/

section Chain

variable {start : List Event} {earlier : Commands} {cipher field : List UInt8} {chain : List Decipher}

/-- The next command of a chain is on its way. -/
theorem Sending.next {s' : Linked σ Mias} {command : Decipher} (hchain : IsChain cipher chain)
    (hlogged : Logged start earlier s)
    (hearlier : ∀ command ∈ earlier, Applet.acceptedResult command.2 = true)
    (hnext : (deciphersOf earlier).map Prod.fst ++ [command.apdu s.obj.applet.channel] <+:
      chain.map (Decipher.apdu s.obj.applet.channel))
    (hcut : Cut T (command.apdu s.obj.applet.channel) s.se s'.se) : Sending s.obj.applet.channel cipher start s' := by
  obtain ⟨running, hunderway, hlog, _⟩ := hcut
  obtain ⟨finished, hlog', hcommands⟩ := hlogged
  have hdecipher := isDecipher_apdu s.obj.applet.channel command
  refine ⟨chain, earlier, _, finished, running, hchain, by rw [hlog, hlog'], hcommands, hunderway, hearlier, ?_,
    .inr hdecipher⟩
  rw [deciphersOf_cons hdecipher, List.map_append]
  exact hnext

/-- The last command of a chain, and what comes back. -/
theorem decipherLast_meets (hlogged : Logged start earlier s)
    (hearlier : ∀ command ∈ earlier, Applet.acceptedResult command.2 = true) (hchain : IsChain cipher chain)
    (hlast : (deciphersOf earlier).map Prod.fst ++ [Decipher.apdu s.obj.applet.channel ⟨0x00, field⟩] =
      chain.map (Decipher.apdu s.obj.applet.channel)) (plain : Mem) (len : Nat) :
    Meets (do
        if ← onApplet (Applet.transmitCase3 T 0x00 .performSecurityOperation SCP1.PSOPlain SCP2.PSOPadding field) then
          decipherResult T plain len
        else
          return ⟨false, some plain, len⟩ : Exec (Linked σ Mias) Fetched) s
      (fun fetched s' => ∃ commands, Logged start commands s' ∧ SendsInTurn s.obj.applet cipher plain commands fetched)
      (Sending s.obj.applet.channel cipher start) := by
  let command : Decipher := ⟨0x00, field⟩
  have hdecipher := isDecipher_apdu s.obj.applet.channel command
  -- whatever the last command ends in, the commands before it were accepted
  have hinTurn : ∀ result, InTurn (deciphersOf ((command.apdu s.obj.applet.channel, result) :: earlier)) := by
    intro result other hmem
    rw [deciphersOf_cons hdecipher, List.dropLast_concat] at hmem
    exact hearlier other (mem_of_mem_deciphersOf hmem)
  have hwhole : ∀ result, (deciphersOf ((command.apdu s.obj.applet.channel, result) :: earlier)).map Prod.fst =
      chain.map (Decipher.apdu s.obj.applet.channel) := by
    intro result
    rw [deciphersOf_cons hdecipher, List.map_append]
    exact hlast
  have htransmits : Transmits T (command.apdu s.obj.applet.channel) (SEInterface.transmitCase3 T
      (0x00 ||| s.obj.applet.channel) .performSecurityOperation SCP1.PSOPlain SCP2.PSOPadding field) :=
    fill_transmits (command_transmits T _)
  unfold Applet.transmitCase3
  refine .bind ((sent_meets htransmits).mono (fun _ _ h => h) ?_) ?_
  · intro s' hs'
    exact .next hchain hlogged hearlier ⟨[], by rw [List.append_nil, hlast]⟩ hs'.2
  rintro ok s' ⟨hobj, ⟨rfl, rfl, hno⟩ | ⟨hselected, result, events, hran, rfl⟩⟩
  · refine .pure ⟨earlier, hlogged, ⟨chain, hchain, .inr ⟨rfl, ?_, .inr hno⟩⟩, ?_, fun hfalse => by cases hfalse⟩
    · exact ⟨_, hlast⟩
    · intro other hmem
      exact hearlier other (mem_of_mem_deciphersOf (List.dropLast_subset _ hmem))
  have hlogged' := hlogged.ran hran
  cases result with
  | none => exact .pure ⟨_, hlogged', ⟨chain, hchain, .inl (hwhole none)⟩, hinTurn none, fun hfalse => by cases hfalse⟩
  | some answer =>
      have hselected' : s'.obj.applet.isSelected = true := by rw [hobj, hselected]
      have hchannel : s'.obj.applet.channel = s.obj.applet.channel := by rw [hobj]
      refine (decipherResult_meets hselected' hchannel hlogged' (hran.holds answer rfl) hdecipher hearlier hchain
        (hwhole (some answer)) plain len).mono ?_ fun _ hcut => hcut
      rintro fetched s'' ⟨commands, hcommands, hsame, hdelivers⟩
      refine ⟨commands, hcommands, ⟨chain, hchain, .inl ?_⟩, ?_, hdelivers⟩
      · rw [hsame, hwhole]
      · rw [hsame]
        exact hinTurn _

end Chain

/-- **Deciphering sends the ciphertext in turn.** Up to a command that is refused, the PSO DECIPHER are a command
chain with the padding indicator and the ciphertext; plain text is only what came back with `9000`. -/
theorem decryptFinal_sends_in_turn (T : Transport σ) (s : Linked σ Mias) (data : Mem) {dataLen : Nat}
    (h : dataLen ≤ 509) (plain : Mem) (len : Nat) :
    Meets (decryptFinal T data dataLen plain len) s
      (fun fetched s' => ∃ commands, Logged s.se.log commands s' ∧
        SendsInTurn s.obj.applet (data.slice 0 dataLen) plain commands fetched)
      (Sending s.obj.applet.channel (data.slice 0 dataLen) s.se.log) := by
  have hstart : Logged s.se.log [] s := ⟨[], rfl, rfl⟩
  unfold decryptFinal psoDecipher
  refine .ite (fun hshort => ?_) fun hlong => ?_
  · have hchain := isChain_single (lt_of_eq_of_lt (data.slice_length 0 dataLen) hshort)
    exact decipherLast_meets hstart (fun _ hmem => by cases hmem) hchain rfl plain len
  · let first : Decipher := ⟨0x10, SCTag.PSOPaddingProprietary1 :: data.slice 0 254⟩
    let second : Decipher := ⟨0x00, data.slice 254 (dataLen - 254)⟩
    have hcipher : data.slice 0 dataLen = data.slice 0 254 ++ data.slice 254 (dataLen - 254) :=
      data.slice_split (by omega)
    have hchain : IsChain (data.slice 0 dataLen) [first, second] := by
      rw [hcipher]
      exact isChain_pair (by rw [Mem.slice_length]) (by rw [Mem.slice_length]; omega)
    have hfirst : [first.apdu s.obj.applet.channel] <+: [first, second].map (Decipher.apdu s.obj.applet.channel) :=
      ⟨[second.apdu s.obj.applet.channel], rfl⟩
    have hdecipher := isDecipher_apdu s.obj.applet.channel first
    have htransmits : Transmits T (first.apdu s.obj.applet.channel) (SEInterface.transmitCase3 T
        (0x10 ||| s.obj.applet.channel) .performSecurityOperation SCP1.PSOPlain SCP2.PSOPadding
        (SCTag.PSOPaddingProprietary1 :: data.slice 0 254)) := fill_transmits (command_transmits T _)
    unfold Applet.transmitCase3
    refine .bind ((ok_meets htransmits).mono (fun _ _ h => h) ?_) ?_
    · intro s' hs'
      exact .next hchain hstart (fun _ hmem => by cases hmem) hfirst hs'.2
    rintro ok s' ⟨hobj, ⟨rfl, rfl, hno⟩ | ⟨hselected, result, events, hran, rfl⟩⟩
    · refine .pure ⟨[], hstart, ⟨[first, second], hchain, .inr ⟨rfl, ?_, .inr hno⟩⟩, ?_, fun hfalse => by cases hfalse⟩
      · exact List.nil_prefix
      · exact fun _ hmem => by cases hmem
    have hlogged := hstart.ran hran
    have hsent : deciphersOf [(first.apdu s.obj.applet.channel, result)] =
        [(first.apdu s.obj.applet.channel, result)] :=
      deciphersOf_cons hdecipher result []
    refine .ite (fun hok => ?_) fun hrefused => ?_
    · -- the second command follows a first one that was accepted
      have hpair : (deciphersOf [(first.apdu s.obj.applet.channel, result)]).map Prod.fst ++
          [second.apdu s'.obj.applet.channel] = [first, second].map (Decipher.apdu s'.obj.applet.channel) := by
        rw [hsent, hobj, List.map_cons, List.map_cons, List.map_cons, List.map_nil, List.map_nil, List.singleton_append]
      have hlast := decipherLast_meets (T := T) hlogged (by simpa using hok) hchain hpair plain len
      rw [hobj] at hlast
      exact hlast
    · refine .pure ⟨_, hlogged, ⟨[first, second], hchain, .inr ⟨rfl, ?_, .inl ?_⟩⟩, ?_, fun hfalse => by cases hfalse⟩
      · rw [hsent]
        exact hfirst
      · rw [hsent]
        exact ⟨_, List.mem_singleton_self _, Bool.not_eq_true _ ▸ hrefused⟩
      · rw [hsent]
        exact fun _ hmem => by cases hmem

/-- The object in front of a card that accepts a first command and answers the second with a plain text of one byte. -/
def twoDecipherAnswers : Linked (List (Option (List UInt8))) Mias :=
  scriptedMias [some [0x90, 0x00], some [0x41, 0x90, 0x00]]

/-- A ciphertext of 256 bytes in two commands, and its plain text. -/
theorem decryptFinal_sends_two :
    Meets (decryptFinal scripted Mem.zero 256 Mem.zero 0) twoDecipherAnswers
      (fun fetched s' => ∃ commands, Logged [] commands s' ∧
        SendsInTurn (scriptedMias []).obj.applet (Mem.zero.slice 0 256) Mem.zero commands fetched)
      (Sending 0x00 (Mem.zero.slice 0 256) []) ∧
    (decryptFinal scripted Mem.zero 256 Mem.zero 0 1 twoDecipherAnswers).1.value?.map Fetched.view = some (true, 1, true) ∧
    (deciphersOf (commandsOf (decryptFinal scripted Mem.zero 256 Mem.zero 0 1 twoDecipherAnswers).2.se.log)).map
      (fun command => command.1.length) = [260, 7] :=
  ⟨decryptFinal_sends_in_turn scripted twoDecipherAnswers Mem.zero (by decide) Mem.zero 0, by decide +kernel,
    by decide +kernel⟩

/-- The first of the two commands for 255 bytes is refused: the last byte of the ciphertext is not sent. -/
theorem refused_chain_is_not_whole : ∃ fetched s' commands,
    decryptFinal scripted Mem.zero 255 Mem.zero 0 1 (scriptedMias [some [0x6A, 0x80]]) = (.done fetched, s') ∧
    Logged [] commands s' ∧ ¬SendsWhole 0x00 (Mem.zero.slice 0 255) Mem.zero commands fetched := by
  have hview : (decryptFinal scripted Mem.zero 255 Mem.zero 0 1
      (scriptedMias [some [0x6A, 0x80]])).1.value?.map Fetched.view = some (false, 0, true) := by decide +kernel
  have hlengths : (deciphersOf (commandsOf (decryptFinal scripted Mem.zero 255 Mem.zero 0 1
      (scriptedMias [some [0x6A, 0x80]])).2.se.log)).map (fun command => command.1.length) = [260] := by
    decide +kernel
  obtain ⟨fetched, hrun, _⟩ := done_of_value? hview
  refine ⟨fetched, _, _, hrun, ⟨_, (List.append_nil _).symm, rfl⟩, ?_⟩
  intro hwhole
  obtain ⟨chain, hchain, hsent⟩ := hwhole.sent
  -- one command of 260 bytes has 255 bytes of data, the padding indicator and the ciphertext are 256
  have hsizes : chain.map (fun command => command.data.length + 5) = [260] :=
    calc chain.map (fun command => command.data.length + 5)
        = (chain.map (Decipher.apdu 0x00)).map List.length := by
          rw [List.map_map]
          rfl
      _ = ((deciphersOf _).map Prod.fst).map List.length := by rw [hsent]
      _ = [260] := by
          rw [List.map_map]
          exact hlengths
  have hbytes := congrArg List.length hchain.whole
  rw [List.length_cons, Mem.slice_length] at hbytes
  obtain ⟨command, rfl, hsize⟩ := List.map_eq_singleton_iff.mp hsizes
  simp only [List.map_cons, List.map_nil, List.flatten_cons, List.flatten_nil, List.append_nil] at hbytes
  omega

end TrustOnboard.Mias
