import TrustOnboard.ModemSafety

/-! The framing of `AT+CSIM`. A reply of the modem is any lines, the response line, any lines and the
final line; a line is told from stale bytes by its newline, which none of the texts it is compared with
has before its end. -/

namespace TrustOnboard.ATInterface

open Exec

/-! ### Bytes in the buffer -/

/-- The buffer holds these bytes from `off` on. -/
def HoldsAt (buf : Mem) (off : Nat) (bytes : List UInt8) : Prop :=
  ∀ i, i < bytes.length → buf (off + i) = bytes.getD i 0

section HoldsAt

variable {buf : Mem} {off : Nat} {c : UInt8} {bytes front back : List UInt8}

theorem holdsAt_write (buf : Mem) (line : List UInt8) : HoldsAt (buf.write 0 line) 0 line := by
  intro i hi
  rw [Nat.zero_add, Mem.write_of_mem (Nat.zero_le i) (by omega), Nat.sub_zero]

theorem HoldsAt.head (h : HoldsAt buf off (c :: bytes)) : buf off = c := h 0 (by simp)

theorem HoldsAt.tail (h : HoldsAt buf off (c :: bytes)) : HoldsAt buf (off + 1) bytes := by
  intro i hi
  have hnext := h (i + 1) (by simpa using hi)
  rw [List.getD_cons_succ] at hnext
  rw [← hnext, Nat.add_assoc, Nat.add_comm 1 i]

theorem HoldsAt.left (h : HoldsAt buf off (front ++ back)) : HoldsAt buf off front := by
  intro i hi
  rw [h i (by simp; omega)]
  simp [List.getD_eq_getElem?_getD, List.getElem?_append_left hi]

theorem HoldsAt.right (h : HoldsAt buf off (front ++ back)) : HoldsAt buf (off + front.length) back := by
  intro i hi
  rw [Nat.add_assoc, h (front.length + i) (by simp; omega)]
  simp [List.getD_eq_getElem?_getD, List.getElem?_append_right]

end HoldsAt

/-! ### Lines -/

/-- A line ends in its only newline and fits the line buffer. -/
structure IsLine (line : List UInt8) : Prop where
  ends : ∃ body, line = body ++ [newline] ∧ newline ∉ body
  fits : line.length ≤ bufSize

section IsLine

variable {line text : List UInt8}

theorem IsLine.read (h : IsLine line) (hangup : Bool) (rest : List (Option UInt8)) :
    Line hangup (line.map some ++ rest) line rest := by
  obtain ⟨body, rfl, hbody⟩ := h.ends
  clear h
  induction body with
  | nil => exact .full rest
  | cons c body ih =>
      rw [List.mem_cons, not_or] at hbody
      exact .byte (fun heq => hbody.1 heq.symm) (ih hbody.2)

/-- **Stale bytes never match**: whatever the buffer held, a line laid over it starts with a text exactly
if the line itself does. A shorter line has its newline where the text has none. -/
theorem startsWith_write_iff (h : IsLine line) (htext : newline ∉ text.dropLast) (buf : Mem) :
    startsWith (buf.write 0 line) text = true ↔ text <+: line := by
  rw [startsWith, decide_eq_true_eq]
  by_cases hlong : text.length ≤ line.length
  · rw [Mem.slice_write_take buf 0 hlong]
    constructor
    · intro heq
      rw [← heq]
      exact List.take_prefix _ _
    · intro hprefix
      exact (List.prefix_iff_eq_take.mp hprefix).symm
  · constructor
    · intro heq
      obtain ⟨body, rfl, _⟩ := h.ends
      exfalso
      apply htext
      simp only [List.length_append, List.length_singleton, Nat.not_le] at hlong
      have hbyte : (buf.write 0 (body ++ [newline])) body.length = newline := by
        rw [Mem.write_of_mem (Nat.zero_le _) (by simp)]
        simp [List.getD_eq_getElem?_getD]
      have hget : text.getD body.length 0 = newline := by
        rw [← heq, Mem.slice_getD _ (by omega), Nat.zero_add, hbyte]
      have hshort : body.length < text.length := by omega
      rw [List.getD_eq_getElem?_getD, List.getElem?_eq_getElem hshort, Option.getD_some] at hget
      have hin : body.length < text.dropLast.length := by
        rw [List.length_dropLast]
        omega
      have hmem := List.getElem_mem hin
      rw [List.getElem_dropLast, hget] at hmem
      exact hmem
    · intro hprefix
      exact absurd hprefix.length_le hlong

end IsLine

section Skip

variable {α : Type} {verdict : Mem → Option α} {s : ATInterface} {rest : List (Option UInt8)}

/-- Lines that give no verdict are skipped. -/
theorem skip_lines {lines : List (List UInt8)}
    (hlines : ∀ line ∈ lines, IsLine line ∧ ∀ buf : Mem, verdict (buf.write 0 line) = none)
    (hinput : s.input = lines.flatten.map some ++ rest) :
    ∃ buf, ∀ outcome s', Iterates (lineTurn verdict) () { s with input := rest, buf } outcome s' →
      Iterates (lineTurn verdict) () s outcome s' := by
  induction lines generalizing s with
  | nil =>
      refine ⟨s.buf, fun outcome s' hrun => ?_⟩
      have hsame : { s with input := rest, buf := s.buf } = s := by
        rw [List.flatten_nil, List.map_nil, List.nil_append] at hinput
        rw [← hinput]
      rwa [hsame] at hrun
  | cons line lines ih =>
      obtain ⟨hline, hverdict⟩ := hlines line (List.mem_cons_self ..)
      rw [List.flatten_cons, List.map_append, List.append_assoc] at hinput
      have hread := hline.read s.hangup (lines.flatten.map some ++ rest)
      rw [← hinput] at hread
      obtain ⟨buf, hrest⟩ := ih (s := afterLine s line (lines.flatten.map some ++ rest))
        (fun other hmem => hlines other (List.mem_cons_of_mem _ hmem)) rfl
      refine ⟨buf, fun outcome s' hrun => ?_⟩
      exact .again (lineTurn_again hread hline.fits (hverdict s.buf)) (hrest outcome s' hrun)

/-- Lines that give no verdict, and one that gives it whatever was read before. -/
theorem lines_then {lines : List (List UInt8)} {line : List UInt8} {value : α}
    (hlines : ∀ line ∈ lines, IsLine line ∧ ∀ buf : Mem, verdict (buf.write 0 line) = none)
    (hline : IsLine line) (hverdict : ∀ buf : Mem, verdict (buf.write 0 line) = some value)
    (hinput : s.input = (lines.flatten ++ line).map some ++ rest) :
    ∃ buf : Mem, Evals (loop (lineTurn verdict) ()) s value
      { s with input := rest, buf := buf.write 0 line } := by
  rw [List.map_append, List.append_assoc] at hinput
  obtain ⟨buf, hskip⟩ := skip_lines hlines hinput
  have hread := hline.read s.hangup rest
  exact ⟨buf, .loop (hskip _ _ (.stop (lineTurn_stop hread hline.fits (hverdict buf))))⟩

end Skip

/-! ### The declared length -/

/-- Digits are read modulo `2 ^ 16`. -/
theorem ofDigitChars_mod (digits : List Char) (n : Nat) :
    Nat.ofDigitChars 10 digits (n % 65536) % 65536 = Nat.ofDigitChars 10 digits n % 65536 := by
  have hsplit : ∀ m, Nat.ofDigitChars 10 digits m = 10 ^ digits.length * m + Nat.ofDigitChars 10 digits 0 :=
    fun _ => Nat.ofDigitChars_eq_ofDigitChars_zero
  rw [hsplit (n % 65536), hsplit n]
  generalize Nat.ofDigitChars 10 digits 0 = last
  rw [Nat.add_mod, Nat.mul_mod, Nat.mod_mod, ← Nat.mul_mod, ← Nat.add_mod]

/-- The value of a decimal digit is the same for both kinds of `char`. -/
theorem charCode_digit (charSigned : Bool) {c : Char} (h : c.isDigit = true) :
    charCode charSigned (UInt8.ofNat c.toNat) = c.toNat ∧ 48 ≤ c.toNat ∧ c.toNat ≤ 57 := by
  have hrange : 48 ≤ c.toNat ∧ c.toNat ≤ 57 := Char.isDigit_iff_toNat.mp h
  have hbyte : (UInt8.ofNat c.toNat).toNat = c.toNat := by
    rw [UInt8.toNat_ofNat']
    omega
  refine ⟨?_, hrange⟩
  rw [charCode, hbyte, if_neg (by omega)]

theorem scanLength_digits (charSigned : Bool) {buf : Mem} {digits : List Char}
    (hdigits : ∀ c ∈ digits, c.isDigit = true) {behind : List UInt8} {count off len : Nat} (hlen : len < 65536)
    (hcount : digits.length < count)
    (h : HoldsAt buf off (digits.map (fun c => UInt8.ofNat c.toNat) ++ 0x2C :: behind)) :
    scanLength charSigned buf count off len =
      some (off + digits.length, Nat.ofDigitChars 10 digits len % 65536) := by
  induction digits generalizing count off len with
  | nil =>
      obtain ⟨count, rfl⟩ : ∃ k, count = k + 1 := ⟨count - 1, by omega⟩
      rw [scanLength, if_pos h.head]
      simp [Nat.mod_eq_of_lt hlen]
  | cons c digits ih =>
      obtain ⟨count, rfl⟩ : ∃ k, count = k + 1 := ⟨count - 1, by omega⟩
      rw [List.length_cons] at hcount
      obtain ⟨hcode, hlow, hhigh⟩ := charCode_digit charSigned (hdigits c (List.mem_cons_self ..))
      have hhead : buf off = UInt8.ofNat c.toNat := h.head
      have hcomma : buf off ≠ 0x2C := by
        rw [hhead]
        intro heq
        have := congrArg UInt8.toNat heq
        rw [UInt8.toNat_ofNat'] at this
        simp at this
        omega
      have hnext : (len * 10 + c.toNat + 65488) % 65536 = (10 * len + (c.toNat - 48)) % 65536 := by omega
      rw [scanLength, if_neg hcomma, hhead, hcode, hnext,
        ih (fun d hmem => hdigits d (List.mem_cons_of_mem _ hmem)) (Nat.mod_lt _ (by omega)) (by omega) h.tail,
        ofDigitChars_mod, Nat.ofDigitChars_cons, List.length_cons]
      simp [Nat.add_assoc, Nat.add_comm 1]

/-! ### The digits of the response -/

/-- A digit of `%x`. -/
def lowerDigit (nibble : UInt8) : UInt8 := if nibble < 10 then 0x30 + nibble else 0x57 + nibble

/-- A hex digit in either case. -/
def IsDigitOf (nibble c : UInt8) : Prop := c = upperDigit nibble ∨ c = lowerDigit nibble

/-- The text is the bytes in hex, each digit in either case. -/
inductive HexText : List UInt8 → List UInt8 → Prop
  | nil : HexText [] []
  | cons {byte high low : UInt8} {bytes text : List UInt8} (hhigh : IsDigitOf (byte >>> 4) high)
      (hlow : IsDigitOf (byte &&& 0x0F) low) (h : HexText bytes text) :
      HexText (byte :: bytes) (high :: low :: text)

theorem IsDigitOf.isHexDigit {nibble c : UInt8} (hnibble : nibble < 16) (h : IsDigitOf nibble c) :
    isHexDigit c = true := by
  have hall : ∀ nibble : UInt8, nibble < 16 → ATInterface.isHexDigit (upperDigit nibble) = true ∧
      ATInterface.isHexDigit (lowerDigit nibble) = true := forall_byte (by decide +kernel)
  rcases h with rfl | rfl
  · exact (hall nibble hnibble).1
  · exact (hall nibble hnibble).2

theorem hexNibble_digit {nibble c : UInt8} (hnibble : nibble < 16) (h : IsDigitOf nibble c) :
    hexNibble c = nibble := by
  have hall : ∀ nibble : UInt8, nibble < 16 → hexNibble (upperDigit nibble) = nibble ∧
      hexNibble (lowerDigit nibble) = nibble := forall_byte (by decide +kernel)
  rcases h with rfl | rfl
  · exact (hall nibble hnibble).1
  · exact (hall nibble hnibble).2

/-- The nibbles of a byte. -/
theorem nibbles : ∀ byte : UInt8,
    byte >>> 4 < 16 ∧ byte &&& 0x0F < 16 ∧ (byte >>> 4) <<< 4 ||| (byte &&& 0x0F) = byte :=
  forall_byte (by decide +kernel)

theorem hexByte_digits {byte high low : UInt8} (hhigh : IsDigitOf (byte >>> 4) high)
    (hlow : IsDigitOf (byte &&& 0x0F) low) : hexByte high low = byte := by
  obtain ⟨hupper, hlower, hbyte⟩ := nibbles byte
  rw [hexByte, hexNibble_digit hupper hhigh, hexNibble_digit hlower hlow, hbyte]

theorem HexText.digits {bytes text : List UInt8} (h : HexText bytes text) : ∀ c ∈ text, isHexDigit c = true := by
  induction h with
  | nil =>
      intro c hmem
      cases hmem
  | @cons byte high low bytes text hhigh hlow _ ih =>
      obtain ⟨hupper, hlower, _⟩ := nibbles byte
      rw [List.forall_mem_cons, List.forall_mem_cons]
      exact ⟨hhigh.isHexDigit hupper, hlow.isHexDigit hlower, ih⟩

theorem HexText.length_eq {bytes text : List UInt8} (h : HexText bytes text) :
    text.length = 2 * bytes.length := by
  induction h with
  | nil => rfl
  | cons _ _ _ ih =>
      simp only [List.length_cons]
      omega

/-- The text decodes to its bytes. -/
theorem HexText.decoded {bytes text : List UInt8} (h : HexText bytes text) {buf : Mem} {off k : Nat}
    (hbuf : HoldsAt buf (off + 2 * k) text) :
    (List.range' k bytes.length).map (digitByte buf off) = bytes := by
  induction h generalizing k with
  | nil => rfl
  | @cons byte high low bytes text hhigh hlow _ ih =>
      rw [List.length_cons, List.range'_succ, List.map_cons, ih (k := k + 1) hbuf.tail.tail]
      rw [digitByte, hbuf.head, hbuf.tail.head, hexByte_digits hhigh hlow]

/-! ### Replies -/

/-- An APDU and what the modem has to say to it: lines, the response line with its hex text, lines and
the final line. -/
structure Reply where
  apdu : List UInt8
  before : List (List UInt8)
  response : List UInt8
  text : List UInt8
  after : List (List UInt8)
  apdu_length : 1 ≤ apdu.length ∧ apdu.length ≤ 260
  response_length : 1 ≤ response.length ∧ response.length ≤ 258
  text_hex : HexText response text
  before_lines : ∀ line ∈ before, IsLine line ∧ ¬csimText <+: line ∧ ¬errorText <+: line
  after_lines : ∀ line ∈ after, IsLine line ∧ ¬okText <+: line

namespace Reply

/-- The response line behind its prefix. -/
def payload (reply : Reply) : List UInt8 :=
  decimal (reply.response.length * 2) ++ 0x2C :: 0x22 :: (reply.text ++ [0x22, 0x0D, newline])

def line (reply : Reply) : List UInt8 := csimText ++ reply.payload

/-- Everything the modem sends for the reply. -/
def bytes (reply : Reply) : List UInt8 :=
  reply.before.flatten ++ reply.line ++ (reply.after.flatten ++ okText)

variable (reply : Reply) {s : ATInterface} {rest : List (Option UInt8)}

theorem decimal_length : (decimal (reply.response.length * 2)).length ≤ 3 := by
  have hlen := reply.response_length
  rw [decimal, List.length_map, Nat.length_toDigits_le_iff (by decide) (by decide)]
  omega

theorem line_isLine : IsLine reply.line where
  ends := by
    refine ⟨csimText ++ (decimal (reply.response.length * 2) ++ 0x2C :: 0x22 :: (reply.text ++ [0x22, 0x0D])),
      by simp [line, payload], ?_⟩
    have htext : newline ∉ reply.text := fun hmem => absurd (reply.text_hex.digits _ hmem) (by decide)
    have hdecimal : newline ∉ decimal (reply.response.length * 2) := by
      intro hmem
      obtain ⟨c, hc, hcode⟩ := List.mem_map.mp hmem
      have hdigit := Nat.isDigit_of_mem_toDigits (by decide) (by decide) hc
      obtain ⟨_, hlow, hhigh⟩ := charCode_digit true hdigit
      have := congrArg UInt8.toNat hcode
      rw [UInt8.toNat_ofNat', newline, show (0x0A : UInt8).toNat = 10 from rfl] at this
      omega
    have hcsim : newline ∉ csimText := by decide
    have hmarks : newline ≠ 0x2C ∧ newline ≠ 0x22 ∧ newline ≠ 0x0D := by decide
    simp only [List.mem_append, List.mem_cons, not_or, List.not_mem_nil, not_false_eq_true, and_true]
    exact ⟨hcsim, hdecimal, hmarks.1, hmarks.2.1, htext, hmarks.2.1, hmarks.2.2⟩
  fits := by
    have hdecimal := reply.decimal_length
    have htext := reply.text_hex.length_eq
    have hlen := reply.response_length
    have hcsim : csimText.length = 7 := by decide
    simp only [line, payload, List.length_append, List.length_cons, List.length_nil, bufSize]
    omega

/-- The response line, laid over any buffer, is parsed to the response. -/
theorem readResponse_line (charSigned : Bool) {buf : Mem} (hbuf : s.buf = buf.write 0 reply.line) :
    Evals (readResponse charSigned) s reply.response.length
      { s with response := s.response.write 0 reply.response } := by
  have hlen := reply.response_length
  have htext := reply.text_hex.length_eq
  have hdecimal := reply.decimal_length
  have hholds : HoldsAt s.buf 7 reply.payload := by
    rw [hbuf]
    exact (holdsAt_write buf reply.line).right
  -- where the comma, the first digit and the declared length are
  let comma := 7 + (Nat.toDigits 10 (reply.response.length * 2)).length
  have hcomma : comma ≤ 10 := by
    rw [decimal, List.length_map] at hdecimal
    omega
  have hlength : scanLength charSigned s.buf (bufSize - 7) 7 0 = some (comma, reply.response.length * 2) := by
    have hcount : (Nat.toDigits 10 (reply.response.length * 2)).length < bufSize - 7 := by
      rw [decimal, List.length_map] at hdecimal
      simp only [bufSize]
      omega
    rw [scanLength_digits charSigned (fun c hmem => Nat.isDigit_of_mem_toDigits (by decide) (by decide) hmem)
      (by decide : 0 < 65536) hcount hholds, Nat.ofDigitChars_toDigits (by decide) (by decide),
      Nat.mod_eq_of_lt (by omega)]
  have hmark : HoldsAt s.buf comma (0x2C :: 0x22 :: (reply.text ++ [0x22, 0x0D, newline])) := by
    have hplace := hholds.right
    rw [decimal, List.length_map] at hplace
    exact hplace
  have hdigit : scanDigit s.buf (bufSize - comma) comma = some (comma + 2) := by
    have hfirst : isHexDigit (s.buf (comma + 1 + 1)) = true := by
      have hpos : 0 < reply.text.length := by omega
      rw [show comma + 1 + 1 = comma + 1 + 1 + 0 from rfl, hmark.tail.tail.left 0 hpos]
      apply reply.text_hex.digits
      rw [List.getD_eq_getElem?_getD, List.getElem?_eq_getElem hpos, Option.getD_some]
      exact List.getElem_mem hpos
    obtain ⟨count, hcount⟩ : ∃ k, bufSize - comma = k + 1 + 1 + 1 := ⟨bufSize - comma - 3, by
      simp only [bufSize]
      omega⟩
    have hhead : isHexDigit (s.buf comma) = false := by
      rw [hmark.head]
      decide
    have hquote : isHexDigit (s.buf (comma + 1)) = false := by
      rw [hmark.tail.head]
      decide
    rw [hcount, scanDigit, if_neg (by simp [hhead]), scanDigit, if_neg (by simp [hquote]), scanDigit, if_pos hfirst]
  have hstored : storedBytes (reply.response.length * 2) = reply.response.length := by
    simp only [storedBytes]
    omega
  have hrun := readResponse_evals hlength hdigit (by rw [hstored]; simp only [bufSize]; omega)
    (by rw [hstored]; exact hlen.2)
  rw [hstored, reply.text_hex.decoded (k := 0) hmark.tail.tail.left] at hrun
  exact hrun

theorem before_skipped :
    ∀ line ∈ reply.before, IsLine line ∧ ∀ buf : Mem, responseVerdict (buf.write 0 line) = none := by
  intro line hmem
  obtain ⟨hline, hcsim, herror⟩ := reply.before_lines line hmem
  refine ⟨hline, fun buf => ?_⟩
  rw [responseVerdict, if_neg, if_neg]
  · rw [startsWith_write_iff hline (by decide)]
    exact hcsim
  · rw [startsWith_write_iff hline (by decide)]
    exact herror

theorem line_taken (buf : Mem) : responseVerdict (buf.write 0 reply.line) = some true := by
  have hcsim : startsWith (buf.write 0 reply.line) csimText = true := by
    rw [startsWith_write_iff reply.line_isLine (by decide)]
    exact List.prefix_append _ _
  have herror : ¬startsWith (buf.write 0 reply.line) errorText = true := by
    intro herror
    have hplus : (buf.write 0 reply.line) 0 = 0x2B := startsWith_head hcsim
    have hletter : (buf.write 0 reply.line) 0 = 0x45 := startsWith_head herror
    rw [hplus] at hletter
    cases hletter
  rw [responseVerdict, if_neg herror, if_pos hcsim]

theorem after_skipped :
    ∀ line ∈ reply.after, IsLine line ∧ ∀ buf : Mem, okVerdict (buf.write 0 line) = none := by
  intro line hmem
  obtain ⟨hline, hok⟩ := reply.after_lines line hmem
  refine ⟨hline, fun buf => ?_⟩
  rw [okVerdict, if_neg]
  rwa [startsWith_write_iff hline (by decide)]

theorem okText_isLine : IsLine okText where
  ends := ⟨cstr "OK\r", by decide, by decide⟩
  fits := by decide

theorem okText_taken (buf : Mem) : okVerdict (buf.write 0 okText) = some () := by
  rw [okVerdict, if_pos]
  have hown : newline ∉ okText.dropLast := by decide
  exact (startsWith_write_iff okText_isLine hown buf).mpr (List.prefix_refl okText)

/-- One command and its reply. -/
theorem sendATCSIM_evals (charSigned : Bool) (hinput : s.input = reply.bytes.map some ++ rest) :
    ∃ buf, Evals (sendATCSIM charSigned reply.apdu) s (some reply.response.length)
      { s with
        input := rest
        sent := s.sent ++ [csimCommand reply.apdu]
        buf
        response := s.response.write 0 reply.response } := by
  have hcheck := Evals.check (s := s) ((csimCommand_fits reply.apdu).mpr reply.apdu_length.2)
  have hsent : Evals (modify (listening reply.apdu)) s () (listening reply.apdu s) := .modify
  rw [bytes, List.map_append, List.append_assoc] at hinput
  obtain ⟨buf, hresponse⟩ := lines_then (s := listening reply.apdu s) reply.before_skipped reply.line_isLine
    reply.line_taken hinput
  have hdecoded := reply.readResponse_line charSigned (s := { listening reply.apdu s with
    input := (reply.after.flatten ++ okText).map some ++ rest, buf := buf.write 0 reply.line }) rfl
  obtain ⟨buf', hfinal⟩ := lines_then (s := { listening reply.apdu s with
    input := (reply.after.flatten ++ okText).map some ++ rest
    buf := buf.write 0 reply.line
    response := s.response.write 0 reply.response }) reply.after_skipped okText_isLine okText_taken rfl
  rw [sendATCSIM_eq]
  exact ⟨_, hcheck.bind (hsent.bind (hresponse.bind (hdecoded.bind (hfinal.bind .pure))))⟩

theorem transmitApdu_evals (charSigned : Bool) (hinput : s.input = reply.bytes.map some ++ rest) :
    ∃ s', Evals (GenericModem.transmitApdu charSigned reply.apdu) s (some reply.response) s' ∧
      s'.input = rest ∧ s'.sent = s.sent ++ [csimCommand reply.apdu] := by
  obtain ⟨buf, hsend⟩ := reply.sendATCSIM_evals charSigned hinput
  have hread : (s.response.write 0 reply.response).slice 0 reply.response.length = reply.response :=
    Mem.slice_write_self _ _ _
  refine ⟨_, hsend.bind (.of_eq fun fuel => congrArg₂ Prod.mk (congrArg (Outcome.done ∘ some) hread) rfl), rfl, rfl⟩

end Reply

/-- **The framing round-trips and stays in step.** One command: it is sent as the command line of its APDU,
the response is delivered and exactly the reply is read. A sequence of commands: call by call the
responses in their order. -/
theorem framing_in_step (charSigned : Bool) (rest : List (Option UInt8)) :
    (∀ (reply : Reply) (s : ATInterface), s.input = reply.bytes.map some ++ rest →
      ∃ s', Evals (sendATCSIM charSigned reply.apdu) s (some reply.response.length) s' ∧
        s'.response.slice 0 reply.response.length = reply.response ∧ s'.input = rest ∧
        s'.sent = s.sent ++ [csimCommand reply.apdu]) ∧
    ∀ (replies : List Reply) (s : ATInterface), s.input = (replies.flatMap Reply.bytes).map some ++ rest →
      ∃ s', Evals (GenericModem.transmitAll charSigned (replies.map Reply.apdu)) s
          (replies.map fun reply => some reply.response) s' ∧
        s'.input = rest ∧ s'.sent = s.sent ++ replies.map fun reply => csimCommand reply.apdu := by
  constructor
  · intro reply s hinput
    obtain ⟨buf, hsend⟩ := reply.sendATCSIM_evals charSigned hinput
    exact ⟨_, hsend, Mem.slice_write_self s.response 0 reply.response, rfl, rfl⟩
  · intro replies
    induction replies with
    | nil =>
        intro s hinput
        exact ⟨s, .pure, hinput, (List.append_nil _).symm⟩
    | cons reply replies ih =>
        intro s hinput
        rw [List.flatMap_cons, List.map_append, List.append_assoc] at hinput
        obtain ⟨s', hfirst, hinput', hsent⟩ := reply.transmitApdu_evals charSigned hinput
        obtain ⟨s'', hrest, hinput'', hsent'⟩ := ih s' hinput'
        refine ⟨s'', hfirst.bind (hrest.bind .pure), hinput'', ?_⟩
        rw [hsent', hsent, List.append_assoc]
        rfl

/-- An incoming call announced before the response `9000`. -/
def ringReply : Reply where
  apdu := [0x00]
  before := [cstr "RING\r\n"]
  response := [0x90, 0x00]
  text := cstr "9000"
  after := []
  apdu_length := by decide
  response_length := by decide
  text_hex := .cons (.inl (by decide)) (.inl (by decide)) (.cons (.inl (by decide)) (.inl (by decide)) .nil)
  before_lines := by
    intro line hmem
    rw [List.mem_singleton.mp hmem]
    exact ⟨⟨⟨cstr "RING\r", by decide, by decide⟩, by decide⟩, by decide, by decide⟩
  after_lines := by
    intro line hmem
    cases hmem

theorem framing_in_step_ring :
    (∃ s', Evals (sendATCSIM true [0x00]) (modemSaying ringReply.bytes) (some 2) s' ∧
      s'.response.slice 0 2 = [0x90, 0x00] ∧ s'.input = []) ∧
    ∃ s', Evals (GenericModem.transmitAll true [[0x00], [0x00]]) (modemSaying (ringReply.bytes ++ ringReply.bytes))
      [some [0x90, 0x00], some [0x90, 0x00]] s' ∧ s'.input = [] := by
  have hstep := framing_in_step true []
  obtain ⟨s₁, hone, hread, hinput₁, _⟩ := hstep.1 ringReply (modemSaying ringReply.bytes) (List.append_nil _).symm
  obtain ⟨s₂, htwo, hinput₂, _⟩ := hstep.2 [ringReply, ringReply]
    (modemSaying (ringReply.bytes ++ ringReply.bytes)) (by simp [modemSaying])
  exact ⟨⟨s₁, hone, hread, hinput₁⟩, s₂, htwo, hinput₂⟩

end TrustOnboard.ATInterface
