import TrustOnboard.ModemResponse

/-! What a modem can do to the host. For every input of the serial line it is decided by the lines of
the input, before any of the driver runs, whether a call of `sendATCSIM` stays inside its buffers. -/

namespace TrustOnboard.ATInterface

open Exec

/-! ### The command -/

theorem hexUpper_length (bytes : List UInt8) : (hexUpper bytes).length = 2 * bytes.length := by
  induction bytes with
  | nil => rfl
  | cons byte bytes ih =>
      simp only [hexUpper, List.flatMap_cons, List.length_append, List.length_cons, List.length_nil] at ih ⊢
      omega

/-- The command and the NUL behind it fit the line buffer for APDUs of up to 260 bytes. -/
theorem csimCommand_fits (apdu : List UInt8) :
    (csimCommand apdu).length + 1 ≤ bufSize ↔ apdu.length ≤ 260 := by
  have hlen : (csimCommand apdu).length = 13 + (Nat.toDigits 10 (apdu.length * 2)).length + 2 * apdu.length := by
    simp only [csimCommand, List.length_append, hexUpper_length, decimal, List.length_map]
    simp only [cstr, List.length_map, String.length_toList]
    have h1 : "AT+CSIM=".length = 8 := by decide
    have h2 : ",\"".length = 2 := by decide
    have h3 : "\"\r\n".length = 3 := by decide
    omega
  have hthree := Nat.length_toDigits_le_iff (n := apdu.length * 2) (k := 3) (by decide : 1 < 10) (by decide)
  have hone := Nat.length_toDigits_le_iff (n := apdu.length * 2) (k := 1) (by decide : 1 < 10) (by decide)
  rw [hlen]
  simp only [bufSize]
  omega

/-! ### The exchange -/

/-- The condition on the input: the command fits, every line that is read fits, and the response line
fits. -/
def ExchangeFits (charSigned : Bool) (apdu : List UInt8) (lines : List (List UInt8)) (last : List UInt8) : Prop :=
  apdu.length ≤ 260 ∧ LinesFit responseVerdict Mem.zero lines last ∧
    ∀ buf behind, firstVerdict responseVerdict Mem.zero lines = some (true, buf, behind) →
      ResponseFits charSigned buf ∧ LinesFit okVerdict buf behind last

theorem firstVerdict_verdict {α : Type} {verdict : Mem → Option α} {start buf : Mem} {value : α}
    {lines behind : List (List UInt8)} (h : firstVerdict verdict start lines = some (value, buf, behind)) :
    verdict buf = some value := by
  induction lines generalizing start with
  | nil => cases h
  | cons line lines ih =>
      rw [firstVerdict] at h
      cases hverdict : verdict (start.write 0 line) with
      | some v =>
          rw [hverdict] at h
          cases h
          exact hverdict
      | none =>
          rw [hverdict] at h
          exact ih h

theorem startsWith_head {buf : Mem} {c : UInt8} {text : List UInt8} (h : startsWith buf (c :: text) = true) :
    buf 0 = c := by
  have htext : buf.slice 0 (text.length + 1) = c :: text := of_decide_eq_true h
  have hhead : (buf.slice 0 (text.length + 1)).getD 0 0 = buf (0 + 0) := Mem.slice_getD buf (by omega)
  rw [htext] at hhead
  exact hhead.symm

/-- A response line is no final line. -/
theorem okVerdict_of_response {buf : Mem} (h : responseVerdict buf = some true) : okVerdict buf = none := by
  have hcsim : startsWith buf csimText = true := by
    unfold responseVerdict at h
    split at h
    · cases h
    · split at h
      · assumption
      · cases h
  have hplus : buf 0 = 0x2B := startsWith_head hcsim
  rw [okVerdict, if_neg]
  intro hok
  have hletter : buf 0 = 0x4F := startsWith_head hok
  rw [hplus] at hletter
  cases hletter

section Exchange

variable {charSigned : Bool} {apdu : List UInt8} {s : ATInterface} {lines : List (List UInt8)} {last : List UInt8}

/-- The state in which the modem is listened to. -/
def listening (apdu : List UInt8) (s : ATInterface) : ATInterface :=
  { s with sent := s.sent ++ [csimCommand apdu], buf := Mem.zero }

/-- A call of `sendATCSIM` from the loop over the lines on. -/
theorem sendATCSIM_eq (charSigned : Bool) (apdu : List UInt8) :
    sendATCSIM charSigned apdu =
      (check ((csimCommand apdu).length + 1 ≤ bufSize) >>= fun _ => modify (listening apdu) >>= fun _ =>
        loop (lineTurn responseVerdict) () >>= fun ok =>
          if ok = true then
            readResponse charSigned >>= fun len => loop (lineTurn okVerdict) () >>= fun _ => pure (some len)
          else pure none) := rfl

/-- How a call comes to its end, when all that it reads fits. -/
inductive Course (lines : List (List UInt8)) (last : List UInt8) (charSigned : Bool) (apdu : List UInt8)
    (s : ATInterface) : Prop
  | refused {s' : ATInterface} {buf : Mem} {behind : List (List UInt8)}
      (hfirst : firstVerdict responseVerdict Mem.zero lines = some (false, buf, behind))
      (hrun : Evals (sendATCSIM charSigned apdu) s none s')
  | answered {s' : ATInterface} {len : Nat} {buf buf' : Mem} {behind behind' : List (List UInt8)}
      (hfirst : firstVerdict responseVerdict Mem.zero lines = some (true, buf, behind))
      (hsecond : firstVerdict okVerdict buf behind = some ((), buf', behind'))
      (hrest : linesOf s.hangup s'.input = (behind', last)) (hrun : Evals (sendATCSIM charSigned apdu) s (some len) s')
  | unanswered (hfirst : firstVerdict responseVerdict Mem.zero lines = none)
      (hrun : Blocks (sendATCSIM charSigned apdu) s)
  | unfinished {buf : Mem} {behind : List (List UInt8)}
      (hfirst : firstVerdict responseVerdict Mem.zero lines = some (true, buf, behind))
      (hsecond : firstVerdict okVerdict buf behind = none) (hrun : Blocks (sendATCSIM charSigned apdu) s)

theorem sendATCSIM_course (hahead : linesOf s.hangup s.input = (lines, last))
    (h : ExchangeFits charSigned apdu lines last) : Course lines last charSigned apdu s := by
  obtain ⟨hapdu, hlines, hresponse⟩ := h
  have hcheck := Evals.check (s := s) ((csimCommand_fits apdu).mpr hapdu)
  have hsent : Evals (modify (listening apdu)) s () (listening apdu s) := .modify
  cases hfirst : firstVerdict responseVerdict Mem.zero lines with
  | none =>
      refine .unanswered hfirst ?_
      rw [sendATCSIM_eq]
      apply hcheck.bind_blocks
      apply hsent.bind_blocks
      apply Blocks.bind
      have hzero : responseVerdict Mem.zero = none := by decide
      exact lines_block (s := listening apdu s) (ahead_of_linesOf hahead) hlines hzero hfirst
  | some found =>
      obtain ⟨ok, buf, behind⟩ := found
      obtain ⟨rest, hrest, hloop⟩ := lines_evals (s := listening apdu s) hahead hlines hfirst
      cases ok with
      | false =>
          have hrun : Evals (sendATCSIM charSigned apdu) s none { listening apdu s with input := rest, buf } := by
            rw [sendATCSIM_eq]
            exact hcheck.bind (hsent.bind (hloop.bind .pure))
          exact .refused hfirst hrun
      | true =>
          obtain ⟨⟨comma, declared, start, hlength, hdigit, hread, hstore⟩, hfinal⟩ := hresponse buf behind hfirst
          have hdecoded := readResponse_evals (s := { listening apdu s with input := rest, buf }) hlength hdigit
            hread hstore
          have hbuf := okVerdict_of_response (firstVerdict_verdict hfirst)
          cases hok : firstVerdict okVerdict buf behind with
          | none =>
              refine .unfinished hfirst hok ?_
              rw [sendATCSIM_eq]
              apply hcheck.bind_blocks
              apply hsent.bind_blocks
              apply hloop.bind_blocks
              apply hdecoded.bind_blocks
              apply Blocks.bind
              exact lines_block (ahead_of_linesOf hrest) hfinal hbuf hok
          | some found =>
              obtain ⟨⟨⟩, buf', behind'⟩ := found
              obtain ⟨rest', hrest', hend⟩ := lines_evals (s := { listening apdu s with
                input := rest, buf, response := _ }) hrest hfinal hok
              have hrun : ∃ len s', Evals (sendATCSIM charSigned apdu) s (some len) s' ∧ s'.input = rest' := by
                rw [sendATCSIM_eq]
                exact ⟨_, _, hcheck.bind (hsent.bind (hloop.bind (hdecoded.bind (hend.bind .pure)))), rfl⟩
              obtain ⟨len, s', hrun, rfl⟩ := hrun
              exact .answered hfirst hok hrest' hrun

theorem sendATCSIM_overruns (hahead : linesOf s.hangup s.input = (lines, last))
    (h : ¬ExchangeFits charSigned apdu lines last) : Faults (sendATCSIM charSigned apdu) s := by
  rw [sendATCSIM_eq]
  by_cases hapdu : apdu.length ≤ 260
  · have hcheck := Evals.check (s := s) ((csimCommand_fits apdu).mpr hapdu)
    have hsent : Evals (modify (listening apdu)) s () (listening apdu s) := .modify
    apply hcheck.bind_faults
    apply hsent.bind_faults
    by_cases hlines : LinesFit responseVerdict Mem.zero lines last
    · -- the lines fit, so there is a response line, and it or the lines behind it do not fit
      have hbad : ∃ buf behind, firstVerdict responseVerdict Mem.zero lines = some (true, buf, behind) ∧
          ¬(ResponseFits charSigned buf ∧ LinesFit okVerdict buf behind last) := by
        by_contra hnone
        apply h
        refine ⟨hapdu, hlines, fun buf behind hfirst => ?_⟩
        by_contra hbad
        exact hnone ⟨buf, behind, hfirst, hbad⟩
      obtain ⟨buf, behind, hfirst, hbad⟩ := hbad
      obtain ⟨rest, hrest, hloop⟩ := lines_evals (s := listening apdu s) hahead hlines hfirst
      apply hloop.bind_faults
      by_cases hfits : ResponseFits charSigned buf
      · obtain ⟨comma, declared, start, hlength, hdigit, hread, hstore⟩ := hfits
        have hdecoded := readResponse_evals (s := { listening apdu s with input := rest, buf }) hlength hdigit
          hread hstore
        have hover : ¬LinesFit okVerdict buf behind last := fun hfinal =>
          hbad ⟨⟨comma, declared, start, hlength, hdigit, hread, hstore⟩, hfinal⟩
        apply hdecoded.bind_faults
        apply Faults.bind
        exact lines_fault (ahead_of_linesOf hrest) hover
      · apply Faults.bind
        exact readResponse_faults hfits
    · apply Faults.bind
      exact lines_fault (s := listening apdu s) (ahead_of_linesOf hahead) hlines
  · apply Faults.bind
    apply Faults.check
    rw [csimCommand_fits]
    exact hapdu

end Exchange

/-! ### The decoder by itself -/

/-- The decoder with all the memory it asks for. -/
def decodeUnbounded (digits : Mem) (hexstrLen : Nat) : Exec Mem Nat :=
  hexDecode (fun i => pure (digits i)) (fun k byte => modify fun memory => memory.write k [byte]) hexstrLen

theorem decodeUnbounded_evals (digits : Mem) {hexstrLen : Nat} (hlen : hexstrLen < 65535) (memory : Mem) :
    ∃ count memory', Evals (decodeUnbounded digits hexstrLen) memory count memory' := by
  suffices ∀ left i k, hexstrLen ≤ i + left → i % 2 = 0 → ∀ memory : Mem, ∃ count memory', Iterates
      (hexTurn (fun i => pure (digits i)) (fun k byte => modify fun memory => memory.write k [byte]) hexstrLen)
      (i, k) memory (.done count) memory' by
    obtain ⟨count, memory', hrun⟩ := this hexstrLen 0 0 (by omega) (by omega) memory
    exact ⟨count, memory', .loop hrun⟩
  intro left
  induction left with
  | zero =>
      intro i k hi _ memory
      refine ⟨k % 65536, memory, .stop (.of_eq fun fuel => ?_)⟩
      simp [hexTurn, Nat.not_lt.mpr (by omega : hexstrLen ≤ i)]
  | succ left ih =>
      intro i k hi heven memory
      by_cases hmore : i < hexstrLen
      · have hwrap : i < (i + 2) % 65536 := by omega
        obtain ⟨count, memory', hrest⟩ := ih (i + 2) (k + 1) (by omega) (by omega)
          (memory.write k [hexByte (digits i) (digits (i + 1))])
        refine ⟨count, memory', .again (.of_eq fun fuel => ?_) hrest⟩
        simp [hexTurn, bind_apply, hmore, hwrap]
      · refine ⟨k % 65536, memory, .stop (.of_eq fun fuel => ?_)⟩
        simp [hexTurn, hmore]

/-- At the length `65535` the 16-bit bound of the inner loop wraps to zero, and the outer loop stays. -/
theorem decodeUnbounded_forever (digits : Mem) (memory : Mem) (count : Nat) (memory' : Mem) :
    ¬Evals (decodeUnbounded digits 65535) memory count memory' := by
  intro hevals
  have hmeets : Meets (decodeUnbounded digits 65535) memory (fun _ _ => False) (fun _ => True) := by
    refine .loop (fun x _ => x.1 % 2 = 0 ∧ x.1 ≤ 65534) (fun _ _ _ => trivial) ?_ (by decide)
    rintro ⟨i, k⟩ memory ⟨heven, hsmall⟩
    refine .ite (fun _ => .ite (fun hwrap => ?_) fun _ => ?_) fun hend => ?_
    · change i < (i + 2) % 65536 at hwrap
      change i % 2 = 0 at heven
      exact fun fuel => ⟨by show (i + 2) % 2 = 0; omega, by show i + 2 ≤ 65534; omega⟩
    · exact fun fuel => ⟨heven, hsmall⟩
    · change ¬i < 65535 at hend
      change i ≤ 65534 at hsmall
      omega
  exact hevals.of_meets hmeets

/-! ### The host against its modem -/

/-- A call stays inside its buffers: no access is out of range, and the digits of the response line are
decoded. -/
def Contained (charSigned : Bool) (apdu : List UInt8) (s : ATInterface) : Prop :=
  (∀ fuel, (sendATCSIM charSigned apdu fuel s).1 ≠ .fault) ∧
    ∀ buf behind, firstVerdict responseVerdict Mem.zero (linesOf s.hangup s.input).1 = some (true, buf, behind) →
      ∃ count s', Evals (readResponse charSigned) { s with buf } count s'

/-- **The host is safe from its modem exactly if the input fits**, and the decoder ends for every declared
length but `65535`. -/
theorem contained_iff_exchange_fits (charSigned : Bool) (apdu : List UInt8) (s : ATInterface) :
    (Contained charSigned apdu s ↔
      ExchangeFits charSigned apdu (linesOf s.hangup s.input).1 (linesOf s.hangup s.input).2) ∧
    ∀ (digits memory : Mem) (hexstrLen : Nat), hexstrLen < 65536 →
      ((∃ count memory', Evals (decodeUnbounded digits hexstrLen) memory count memory') ↔ hexstrLen ≠ 65535) := by
  refine ⟨⟨?_, ?_⟩, fun digits memory hexstrLen hlen => ⟨?_, fun hne => ?_⟩⟩
  · rintro ⟨hsafe, _⟩
    by_contra hover
    obtain ⟨fuel, hfault⟩ := (sendATCSIM_overruns rfl hover).exists_fault
    exact hsafe fuel hfault
  · intro hfits
    constructor
    · intro fuel
      cases sendATCSIM_course rfl hfits with
      | refused _ hrun => exact hrun.ne_fault fuel
      | answered _ _ _ hrun => exact hrun.ne_fault fuel
      | unanswered _ hblocks => exact hblocks.ne_fault fuel
      | unfinished _ _ hblocks => exact hblocks.ne_fault fuel
    · intro buf behind hfirst
      obtain ⟨comma, declared, start, hlength, hdigit, hread, hstore⟩ := (hfits.2.2 buf behind hfirst).1
      exact ⟨_, _, readResponse_evals (s := { s with buf }) hlength hdigit hread hstore⟩
  · rintro ⟨count, memory', hrun⟩ rfl
    exact decodeUnbounded_forever digits memory count memory' hrun
  · exact decodeUnbounded_evals digits (by omega) memory

/-- A modem that has this to say, and then nothing. -/
def modemSaying (text : List UInt8) : ATInterface :=
  { input := text.map some, hangup := false, sent := [], buf := Mem.zero, response := Mem.zero }

theorem contained_short_response :
    Contained true [0x00] (modemSaying (cstr "+CSIM: 4,\"9000\"\r\nOK\r\n")) ∧
    ∃ count memory', Evals (decodeUnbounded Mem.zero 4) Mem.zero count memory' := by
  have hlines : linesOf false ((cstr "+CSIM: 4,\"9000\"\r\nOK\r\n").map some) =
      ([cstr "+CSIM: 4,\"9000\"\r\n", cstr "OK\r\n"], []) := by decide +kernel
  have hverdict : responseVerdict (Mem.zero.write 0 (cstr "+CSIM: 4,\"9000\"\r\n")) = some true := by
    decide +kernel
  obtain ⟨hiff, hdecode⟩ := contained_iff_exchange_fits true [0x00]
    (modemSaying (cstr "+CSIM: 4,\"9000\"\r\nOK\r\n"))
  refine ⟨hiff.mpr ?_, (hdecode Mem.zero Mem.zero 4 (by decide)).mpr (by decide)⟩
  show ExchangeFits true [0x00] (linesOf false ((cstr "+CSIM: 4,\"9000\"\r\nOK\r\n").map some)).1
    (linesOf false ((cstr "+CSIM: 4,\"9000\"\r\nOK\r\n").map some)).2
  rw [hlines]
  refine ⟨by decide, ⟨by decide +kernel, fun hnone => ?_⟩, fun buf behind hfirst => ?_⟩
  · rw [hverdict] at hnone
    cases hnone
  · simp only [firstVerdict, hverdict] at hfirst
    cases hfirst
    refine ⟨⟨8, 4, 10, by decide +kernel, by decide +kernel, by decide, by decide⟩, by decide +kernel, ?_⟩
    intro hnone
    exact absurd hnone (by decide +kernel)

/-- A response line that declares 600 digits. -/
def longDeclaration : ATInterface := modemSaying (cstr "+CSIM: 600,\"9000\"\r\nOK\r\n")

/-- Byte 258 of the 258-byte response buffer is written. -/
theorem declared_length_overruns_response : ¬Contained true [0x00] longDeclaration := by
  have hfault : (sendATCSIM true [0x00] 600 longDeclaration).1 = .fault := by decide +kernel
  intro h
  exact h.1 600 hfault

end TrustOnboard.ATInterface
