import TrustOnboard.CardSimulation
import TrustOnboard.HexRoundTrip

/-! A modem at the other end of the serial line, with a card in it. To the host, `GenericModem` on such a line is a
transport that conveys the card: the modem may send other lines in between, but every reply is taken as a whole, so that
the line is empty again before the next command. -/

namespace TrustOnboard

open Exec SEInterface ATInterface

/-- What a modem sends when it is sent a command line. -/
def Modem (μ : Type) : Type := μ → List UInt8 → List UInt8 × μ

/-- The modem, and the line on the side of the host. -/
structure ModemLink (μ : Type) where
  modem : μ
  line : ATInterface

/-- Lines in front of an error. -/
def IsRefusal (bytes : List UInt8) : Prop :=
  ∃ lines : List (List UInt8), (∀ line ∈ lines, IsLine line ∧ ¬csimText <+: line ∧ ¬errorText <+: line) ∧
    bytes = lines.flatten ++ errorText

namespace Modem

variable {μ σ : Type}

/-- The modem has a card: it sends the answers of the card to the commands that it is sent, and an error where there is
none, or where there is no APDU in the command. -/
structure Fronts (modem : Modem μ) (T : Transport σ) (card : μ → σ) : Prop where
  replies : ∀ m apdu answer after, 1 ≤ apdu.length → apdu.length ≤ 260 → T (card m) apdu = (some answer, after) →
    ∃ reply : Reply, reply.apdu = apdu ∧ reply.response = answer ∧ (modem m (csimCommand apdu)).1 = reply.bytes ∧
      card (modem m (csimCommand apdu)).2 = after
  refuses : ∀ m apdu after, 1 ≤ apdu.length → apdu.length ≤ 260 → T (card m) apdu = (none, after) →
    IsRefusal (modem m (csimCommand apdu)).1 ∧ card (modem m (csimCommand apdu)).2 = after
  rejects : ∀ m, IsRefusal (modem m (csimCommand [])).1 ∧ card (modem m (csimCommand [])).2 = card m

end Modem

namespace ModemLink

variable {μ σ : Type}

/-- The modem has been sent the command, and its reply is on the line. -/
def told (modem : Modem μ) (link : ModemLink μ) (apdu : List UInt8) : ModemLink μ where
  modem := (modem link.modem (csimCommand apdu)).2
  line := { link.line with input := link.line.input ++ (modem link.modem (csimCommand apdu)).1.map some }

open Classical in
/-- What `GenericModem::transmitApdu` returns and leaves where it returns, the modem being told when the host has sent the
command. -/
noncomputable def transmits (charSigned : Bool) (modem : Modem μ) : Transport (ModemLink μ) := fun link apdu =>
  if h : ∃ answer line, Evals (GenericModem.transmitApdu charSigned apdu) (link.told modem apdu).line answer line then
    (h.choose, ⟨(link.told modem apdu).modem, h.choose_spec.choose⟩)
  else (none, link)

/-- Nothing is left on the line. -/
def InStep (link : ModemLink μ) : Prop := link.line.input = []

section Transmits

variable {charSigned : Bool} {modem : Modem μ} {link : ModemLink μ} {apdu : List UInt8}

theorem transmits_eq {answer : Option (List UInt8)} {line : ATInterface}
    (h : Evals (GenericModem.transmitApdu charSigned apdu) (link.told modem apdu).line answer line) :
    transmits charSigned modem link apdu = (answer, ⟨(link.told modem apdu).modem, line⟩) := by
  have hexists : ∃ answer line, Evals (GenericModem.transmitApdu charSigned apdu) (link.told modem apdu).line answer line :=
    ⟨answer, line, h⟩
  obtain ⟨hanswer, hline⟩ := h.unique hexists.choose_spec.choose_spec
  rw [transmits, dif_pos hexists, ← hline]
  cases hanswer
  rfl

/-- A command that does not fit the line buffer. -/
theorem transmits_long (hlong : 260 < apdu.length) : transmits charSigned modem link apdu = (none, link) := by
  rw [transmits, dif_neg]
  rintro ⟨answer, line, hends⟩
  have hfault : Faults (GenericModem.transmitApdu charSigned apdu) (link.told modem apdu).line := by
    apply Faults.bind
    exact sendATCSIM_overruns rfl fun hfits => absurd hfits.1 (by omega)
  obtain ⟨line', hfault⟩ := hfault
  obtain ⟨heq, _⟩ := hfault.unique hends
  cases heq

end Transmits

/-! ### Refusals -/

theorem errorText_isLine : IsLine errorText where
  ends := ⟨cstr "ERROR\r", by decide, by decide⟩
  fits := by decide

theorem errorText_taken (buf : Mem) : responseVerdict (buf.write 0 errorText) = some false := by
  rw [responseVerdict, if_pos]
  have hown : newline ∉ errorText.dropLast := by decide
  exact (startsWith_write_iff errorText_isLine hown buf).mpr (List.prefix_refl errorText)

theorem noise_skipped {line : List UInt8} (h : IsLine line ∧ ¬csimText <+: line ∧ ¬errorText <+: line) :
    IsLine line ∧ ∀ buf : Mem, responseVerdict (buf.write 0 line) = none := by
  obtain ⟨hline, hcsim, herror⟩ := h
  refine ⟨hline, fun buf => ?_⟩
  rw [responseVerdict, if_neg, if_neg]
  · rw [startsWith_write_iff hline (by decide)]
    exact hcsim
  · rw [startsWith_write_iff hline (by decide)]
    exact herror

theorem refused_evals (charSigned : Bool) {apdu bytes : List UInt8} (hapdu : apdu.length ≤ 260) (hbytes : IsRefusal bytes)
    {s : ATInterface} {rest : List (Option UInt8)} (hinput : s.input = bytes.map some ++ rest) :
    ∃ s', Evals (GenericModem.transmitApdu charSigned apdu) s none s' ∧ s'.input = rest := by
  obtain ⟨lines, hlines, rfl⟩ := hbytes
  have hcheck := Evals.check (s := s) ((csimCommand_fits apdu).mpr hapdu)
  have hsent : Evals (modify (listening apdu)) s () (listening apdu s) := .modify
  obtain ⟨buf, hloop⟩ := lines_then (s := listening apdu s) (fun line hmem => noise_skipped (hlines line hmem))
    errorText_isLine errorText_taken hinput
  have hsend : Evals (sendATCSIM charSigned apdu) s none
      { listening apdu s with input := rest, buf := buf.write 0 errorText } := by
    rw [sendATCSIM_eq]
    exact hcheck.bind (hsent.bind (hloop.bind .pure))
  exact ⟨_, hsend.bind .pure, rfl⟩

/-! ### The card behind the line -/

section Fronts

variable {modem : Modem μ} {T : Transport σ} {card : μ → σ} {link : ModemLink μ} {apdu : List UInt8}

theorem told_input (modem : Modem μ) (hstep : link.InStep) (apdu : List UInt8) :
    (link.told modem apdu).line.input = (modem link.modem (csimCommand apdu)).1.map some ++ [] := by
  rw [List.append_nil]
  show link.line.input ++ _ = _
  rw [hstep, List.nil_append]

/-- The reply to a command is taken as a whole, and an APDU gets the answer of the card. -/
theorem told_evals (h : modem.Fronts T card) (charSigned : Bool) (hstep : link.InStep) (hlen : apdu.length ≤ 260) :
    ∃ answer line, Evals (GenericModem.transmitApdu charSigned apdu) (link.told modem apdu).line answer line ∧
      line.input = [] ∧
      (1 ≤ apdu.length → answer = (T (card link.modem) apdu).1 ∧
        card (link.told modem apdu).modem = (T (card link.modem) apdu).2) ∧
      (apdu.length = 0 → card (link.told modem apdu).modem = card link.modem) := by
  have hinput := told_input modem hstep apdu
  by_cases hpos : 1 ≤ apdu.length
  · have hsome : apdu.length ≠ 0 := Nat.pos_iff_ne_zero.mp hpos
    rcases hcard : T (card link.modem) apdu with ⟨_ | answer, after⟩
    · obtain ⟨hrefusal, hafter⟩ := h.refuses link.modem apdu after hpos hlen hcard
      obtain ⟨line, hrun, hempty⟩ := refused_evals charSigned hlen hrefusal hinput
      exact ⟨none, line, hrun, hempty, fun _ => ⟨rfl, hafter⟩, fun hnone => absurd hnone hsome⟩
    · obtain ⟨reply, rfl, rfl, hbytes, hafter⟩ := h.replies link.modem apdu answer after hpos hlen hcard
      rw [hbytes] at hinput
      obtain ⟨line, hrun, hempty, _⟩ := reply.transmitApdu_evals charSigned hinput
      exact ⟨_, line, hrun, hempty, fun _ => ⟨rfl, hafter⟩, fun hnone => absurd hnone hsome⟩
  · obtain rfl : apdu = [] := List.length_eq_zero_iff.mp (by omega)
    obtain ⟨hrefusal, hsame⟩ := h.rejects link.modem
    obtain ⟨line, hrun, hempty⟩ := refused_evals charSigned hlen hrefusal hinput
    exact ⟨none, line, hrun, hempty, fun hsome => absurd hsome hpos, fun _ => hsame⟩

/-- **One command over the line**: the answer of the card is delivered, and nothing is left of the reply. -/
theorem transmits_answers (h : modem.Fronts T card) (charSigned : Bool) (hstep : link.InStep) (hpos : 1 ≤ apdu.length)
    (hlen : apdu.length ≤ 260) :
    (transmits charSigned modem link apdu).1 = (T (card link.modem) apdu).1 ∧
      card (transmits charSigned modem link apdu).2.modem = (T (card link.modem) apdu).2 ∧
      (transmits charSigned modem link apdu).2.InStep := by
  obtain ⟨answer, line, hrun, hempty, hanswers, _⟩ := told_evals h charSigned hstep hlen
  obtain ⟨hanswer, hafter⟩ := hanswers hpos
  rw [transmits_eq hrun]
  exact ⟨hanswer, hafter, hempty⟩

/-- No APDU, or one that is too long. -/
theorem transmits_rests (h : modem.Fronts T card) (charSigned : Bool) (hstep : link.InStep)
    (hapdu : ¬(1 ≤ apdu.length ∧ apdu.length ≤ 260)) :
    card (transmits charSigned modem link apdu).2.modem = card link.modem ∧
      (transmits charSigned modem link apdu).2.InStep := by
  by_cases hlong : 260 < apdu.length
  · rw [transmits_long hlong]
    exact ⟨rfl, hstep⟩
  · obtain ⟨answer, line, hrun, hempty, _, hrests⟩ := told_evals h charSigned hstep (Nat.le_of_not_lt hlong)
    rw [transmits_eq hrun]
    exact ⟨hrests (by omega), hempty⟩

theorem transmits_inStep (h : modem.Fronts T card) (charSigned : Bool) (link : ModemLink μ) (apdu : List UInt8)
    (hstep : link.InStep) : (transmits charSigned modem link apdu).2.InStep := by
  by_cases hapdu : 1 ≤ apdu.length ∧ apdu.length ≤ 260
  · exact (transmits_answers h charSigned hstep hapdu.1 hapdu.2).2.2
  · exact (transmits_rests h charSigned hstep hapdu).2

/-- The transport on lines that are in step. -/
noncomputable def transport (h : modem.Fronts T card) (charSigned : Bool) : Transport {link : ModemLink μ // link.InStep} :=
  Transport.within (transmits charSigned modem) (transmits_inStep h charSigned)

/-- **The serial line is a transport of the card.** -/
theorem transport_conveys (h : modem.Fronts T card) (charSigned : Bool) :
    Conveys (transport h charSigned) T (fun link => card link.1.modem) 260 where
  conveys := by
    rintro ⟨link, hstep⟩ apdu hpos hlen
    obtain ⟨hanswer, hafter, _⟩ := transmits_answers h charSigned hstep hpos hlen
    exact ⟨hanswer, hafter⟩
  moves := by
    rintro ⟨link, hstep⟩ apdu
    by_cases hapdu : 1 ≤ apdu.length ∧ apdu.length ≤ 260
    · exact .inl (transmits_answers h charSigned hstep hapdu.1 hapdu.2).2.1
    · exact .inr (transmits_rests h charSigned hstep hapdu).1

end Fronts

end ModemLink

/-! ### A modem for every card -/

namespace Modem

/-- What is between the quotation marks of a command. -/
def apduOf (command : List UInt8) : List UInt8 :=
  decodeHex (((command.dropWhile (· ≠ 0x22)).drop 1).takeWhile (· ≠ 0x22))

theorem hexUpper_hexText : ∀ bytes : List UInt8, HexText bytes (hexUpper bytes)
  | [] => .nil
  | _ :: bytes => .cons (.inl rfl) (.inl rfl) (hexUpper_hexText bytes)

theorem decimal_digit {n : Nat} {c : UInt8} (h : c ∈ decimal n) : c ≠ 0x22 := by
  obtain ⟨digit, hdigit, rfl⟩ := List.mem_map.mp h
  obtain ⟨_, hlow, hhigh⟩ := charCode_digit true (Nat.isDigit_of_mem_toDigits (by decide) (by decide) hdigit)
  intro hquote
  have hcode := congrArg UInt8.toNat hquote
  rw [UInt8.toNat_ofNat', show (0x22 : UInt8).toNat = 34 from rfl] at hcode
  omega

/-- The modem finds the APDU in the command. -/
theorem apduOf_csimCommand (apdu : List UInt8) : apduOf (csimCommand apdu) = apdu := by
  have hfront : ∀ c ∈ cstr "AT+CSIM=" ++ decimal (apdu.length * 2) ++ [0x2C], decide (c ≠ 0x22) = true := by
    intro c hmem
    rw [List.mem_append, List.mem_append] at hmem
    rw [decide_eq_true_eq]
    rcases hmem with (htext | hdecimal) | hcomma
    · rintro rfl
      exact absurd htext (by decide)
    · exact decimal_digit hdecimal
    · rw [List.mem_singleton.mp hcomma]
      decide
  have hdigits : ∀ c ∈ hexUpper apdu, decide (c ≠ 0x22) = true := by
    intro c hmem
    rw [decide_eq_true_eq]
    rintro rfl
    exact absurd ((hexUpper_hexText apdu).digits _ hmem) (by decide)
  have hcommand : csimCommand apdu = (cstr "AT+CSIM=" ++ decimal (apdu.length * 2) ++ [0x2C]) ++
      0x22 :: (hexUpper apdu ++ 0x22 :: [0x0D, newline]) := by
    rw [csimCommand, show cstr ",\"" = [0x2C] ++ [0x22] from rfl, show cstr "\"\r\n" = 0x22 :: [0x0D, newline] from rfl]
    simp only [List.append_assoc, List.cons_append, List.nil_append]
  rw [apduOf, hcommand, List.dropWhile_append_of_pos hfront, List.dropWhile_cons_of_neg (by decide), List.drop_one,
    List.tail_cons, List.takeWhile_append_of_pos hdigits, List.takeWhile_cons_of_neg (by decide), List.append_nil]
  exact decodeHex_hexUpper apdu

variable {σ : Type}

/-- What a modem says for an answer of its card, with these lines in front of the reply and behind the response. -/
def saying (before after : List (List UInt8)) : Option (List UInt8) → List UInt8
  | none => before.flatten ++ errorText
  | some answer =>
      before.flatten ++
        (csimText ++ (decimal (answer.length * 2) ++ 0x2C :: 0x22 :: (hexUpper answer ++ [0x22, 0x0D, newline]))) ++
        (after.flatten ++ okText)

/-- A modem that exchanges APDUs with its card, and sends the same lines each time. -/
def talking (before after : List (List UInt8)) (T : Transport σ) : Modem σ := fun card command =>
  match apduOf command with
  | [] => (saying before after none, card)
  | byte :: rest => (saying before after (T card (byte :: rest)).1, (T card (byte :: rest)).2)

section Talking

variable {before after : List (List UInt8)}

theorem talking_command (T : Transport σ) (card : σ) (byte : UInt8) (rest : List UInt8) :
    talking before after T card (csimCommand (byte :: rest)) =
      (saying before after (T card (byte :: rest)).1, (T card (byte :: rest)).2) := by
  rw [talking, apduOf_csimCommand]

/-- **Every card has a modem**, if its answers have a byte and go into a response, whatever lines the modem sends that
are no part of a reply. -/
theorem talking_fronts {T : Transport σ} (hanswers : ∀ card apdu answer, (T card apdu).1 = some answer →
    1 ≤ answer.length ∧ answer.length ≤ apduResponseSize)
    (hbefore : ∀ line ∈ before, IsLine line ∧ ¬csimText <+: line ∧ ¬errorText <+: line)
    (hafter : ∀ line ∈ after, IsLine line ∧ ¬okText <+: line) : (talking before after T).Fronts T id where
  replies := by
    intro card apdu answer last hpos hlen hcard
    rw [id] at hcard
    obtain ⟨byte, rest, rfl⟩ := List.exists_cons_of_length_pos hpos
    have hbounds := hanswers card (byte :: rest) answer (by rw [hcard])
    have htalking : talking before after T card (csimCommand (byte :: rest)) =
        (saying before after (some answer), last) := by
      rw [talking_command, hcard]
    let reply : Reply := {
      apdu := byte :: rest
      before
      response := answer
      text := hexUpper answer
      after
      apdu_length := ⟨hpos, hlen⟩
      response_length := hbounds
      text_hex := hexUpper_hexText answer
      before_lines := hbefore
      after_lines := hafter }
    refine ⟨reply, rfl, rfl, ?_, ?_⟩
    · rw [htalking]
      rfl
    · rw [htalking]
      rfl
  refuses := by
    intro card apdu last hpos _ hcard
    rw [id] at hcard
    obtain ⟨byte, rest, rfl⟩ := List.exists_cons_of_length_pos hpos
    have htalking : talking before after T card (csimCommand (byte :: rest)) = (before.flatten ++ errorText, last) := by
      rw [talking_command, hcard]
      rfl
    rw [htalking]
    exact ⟨⟨before, hbefore, rfl⟩, rfl⟩
  rejects := by
    intro card
    have htalking : talking before after T card (csimCommand []) = (before.flatten ++ errorText, card) := by
      rw [talking, apduOf_csimCommand]
      rfl
    rw [htalking]
    exact ⟨⟨before, hbefore, rfl⟩, rfl⟩

end Talking

end Modem

end TrustOnboard
