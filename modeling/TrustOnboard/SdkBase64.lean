import TrustOnboard.SdkPem

/-! Base64 and PEM, exactly: what `convert_der_to_pem` leaves in memory, byte for byte, and `owl_base64decode`, which
gets the encoded bytes back. -/

namespace TrustOnboard

/-! ### Writing -/

/-- `owl_base64encode` to index `start` of a buffer, with its NUL; the return value counts the NUL. -/
def owlBase64EncodeInto (encoded : Mem) (start : Nat) (string : List UInt8) : Mem × Nat :=
  (encoded.write start (owlBase64Encode string ++ [0]), (owlBase64Encode string).length + 1)

/-- `convert_der_to_pem`, copy by copy: the buffer and `*outPemLen`. -/
def convertDerToPemInto (header inDer : List UInt8) (outPem : Mem) : Mem × Nat :=
  let out := outPem.write 0 (cstr "-----BEGIN ")
  let ptr := 11
  let out := out.write ptr header
  let ptr := ptr + header.length
  let out := out.write ptr (cstr "-----\n")
  let ptr := ptr + 6
  let (out, base64EncodeRet) := owlBase64EncodeInto out ptr inDer
  -- leave off the terminating NUL
  let ptr := ptr + (base64EncodeRet - 1)
  let out := out.write ptr (cstr "\n-----END ")
  let ptr := ptr + 10
  let out := out.write ptr header
  let ptr := ptr + header.length
  let out := out.write ptr (cstr "-----")
  (out, ptr + 5)

/-- A copy behind what was copied to the beginning. -/
theorem write_next (memory : Mem) (text more : List UInt8) {position : Nat} (h : position = text.length) :
    (memory.write 0 text).write position more = memory.write 0 (text ++ more) := by
  rw [h, ← Mem.write_append, Nat.zero_add]

/-- A copy over the NUL behind what was copied to the beginning. -/
theorem write_over_nul (memory : Mem) (text : List UInt8) (c : UInt8) (more : List UInt8) {position : Nat}
    (h : position = text.length) :
    (memory.write 0 (text ++ [0])).write position (c :: more) = memory.write 0 (text ++ c :: more) := by
  have hnul : ((memory.write 0 text).write position [0]).write position (c :: more) =
      (memory.write 0 text).write position (c :: more) := by
    funext index
    simp only [Mem.write, List.length_cons, List.length_nil]
    by_cases hin : position ≤ index ∧ index < position + (more.length + 1)
    · rw [if_pos hin, if_pos hin]
    · rw [if_neg hin, if_neg hin, if_neg (by omega)]
  rw [← write_next memory text [0] h, hnul, write_next memory text (c :: more) h]

theorem owlBase64Encode_length (der : List UInt8) : (owlBase64Encode der).length + 1 = owlBase64EncodeLen der.length := by
  induction der using owlBase64Encode.induct with
  | case1 => rfl
  | case2 a => simp [owlBase64Encode, owlBase64EncodeLen]
  | case3 a b => simp [owlBase64Encode, owlBase64EncodeLen]
  | case4 a b c rest ih =>
      simp only [owlBase64Encode, owlBase64EncodeLen, List.length_cons] at ih ⊢
      omega

theorem convertDerToPem_length (header der : List UInt8) :
    (convertDerToPem header der).length = derToPemLen der.length header := by
  have hencode := owlBase64Encode_length der
  have hbegin : (cstr "-----BEGIN ").length = 11 := by decide
  have hdashes : (cstr "-----\n").length = 6 := by decide
  have hend : (cstr "\n-----END ").length = 10 := by decide
  have hlast : (cstr "-----").length = 5 := by decide
  simp only [convertDerToPem, derToPemLen, List.length_append, hbegin, hdashes, hend, hlast]
  omega

/-- **The conversion writes the PEM text and nothing else.** -/
theorem convertDerToPemInto_eq (header der : List UInt8) (outPem : Mem) :
    convertDerToPemInto header der outPem =
      (outPem.write 0 (convertDerToPem header der), derToPemLen der.length header) := by
  have hbegin : (cstr "-----BEGIN ").length = 11 := by decide
  have hdashes : (cstr "-----\n").length = 6 := by decide
  have hend : cstr "\n-----END " = 0x0A :: cstr "-----END " := by decide
  have hendLen : (cstr "-----END ").length = 9 := by decide
  have hencode := owlBase64Encode_length der
  unfold convertDerToPemInto owlBase64EncodeInto
  apply Prod.ext
  · simp only [convertDerToPem]
    rw [write_next _ _ _ hbegin.symm, write_next _ _ _ (by rw [List.length_append, hbegin]),
      write_next _ _ _ (by rw [List.length_append, List.length_append, hbegin, hdashes]), ← List.append_assoc, hend,
      write_over_nul, write_next, write_next]
    all_goals
      simp only [List.length_append, List.length_cons, hbegin, hdashes, hendLen]
      omega
  · simp only [derToPemLen]
    omega

/-! ### Reading -/

/-- The table `pr2six`. -/
def pr2sixTable : List UInt8 := [
  64, 64, 64, 64, 64, 64, 64, 64, 64, 64, 64, 64, 64, 64, 64, 64, 64, 64, 64, 64, 64, 64, 64, 64, 64, 64, 64, 64, 64,
  64, 64, 64, 64, 64, 64, 64, 64, 64, 64, 64, 64, 64, 64, 62, 64, 64, 64, 63, 52, 53, 54, 55, 56, 57, 58, 59, 60, 61,
  64, 64, 64, 64, 64, 64, 64, 0, 1, 2, 3, 4, 5, 6, 7, 8, 9, 10, 11, 12, 13, 14, 15, 16, 17, 18, 19, 20, 21,
  22, 23, 24, 25, 64, 64, 64, 64, 64, 64, 26, 27, 28, 29, 30, 31, 32, 33, 34, 35, 36, 37, 38, 39, 40, 41, 42, 43, 44,
  45, 46, 47, 48, 49, 50, 51, 64, 64, 64, 64, 64, 64, 64, 64, 64, 64, 64, 64, 64, 64, 64, 64, 64, 64, 64, 64, 64, 64,
  64, 64, 64, 64, 64, 64, 64, 64, 64, 64, 64, 64, 64, 64, 64, 64, 64, 64, 64, 64, 64, 64, 64, 64, 64, 64, 64, 64, 64,
  64, 64, 64, 64, 64, 64, 64, 64, 64, 64, 64, 64, 64, 64, 64, 64, 64, 64, 64, 64, 64, 64, 64, 64, 64, 64, 64, 64, 64,
  64, 64, 64, 64, 64, 64, 64, 64, 64, 64, 64, 64, 64, 64, 64, 64, 64, 64, 64, 64, 64, 64, 64, 64, 64, 64, 64, 64, 64,
  64, 64, 64, 64, 64, 64, 64, 64, 64, 64, 64, 64, 64, 64, 64, 64, 64, 64, 64, 64, 64, 64, 64, 64]

def pr2six (c : UInt8) : UInt8 := pr2sixTable.getD c.toNat 0

/-- The first loop of both functions: the number of characters before the first that is not in the alphabet. Without
such a character the loop runs out of the text. -/
def nprbytes (bufcoded : List UInt8) : Option Nat := bufcoded.findIdx? fun c => decide (¬pr2six c ≤ 63)

def owlBase64DecodeLen (bufcoded : List UInt8) : Option Nat := (nprbytes bufcoded).map fun n => (n + 3) / 4 * 3

/-- The three bytes of four characters. -/
def firstOf (a b : UInt8) : UInt8 := pr2six a <<< 2 ||| pr2six b >>> 4
def secondOf (b c : UInt8) : UInt8 := pr2six b <<< 4 ||| pr2six c >>> 2
def thirdOf (c d : UInt8) : UInt8 := pr2six c <<< 6 ||| pr2six d

/-- What is written for the last at most four characters. -/
def decodeRest (nprbytes : Nat) (bufin : List UInt8) : List UInt8 :=
  (if 1 < nprbytes then [firstOf (bufin.getD 0 0) (bufin.getD 1 0)] else []) ++
    (if 2 < nprbytes then [secondOf (bufin.getD 1 0) (bufin.getD 2 0)] else []) ++
    (if 3 < nprbytes then [thirdOf (bufin.getD 2 0) (bufin.getD 3 0)] else [])

/-- The bytes written to `bufplain`, and what is left of `nprbytes` behind the loop. -/
def decodeLoop : Nat → List UInt8 → List UInt8 × Nat
  | nprbytes + 5, bufin =>
      let (bytes, left) := decodeLoop (nprbytes + 1) (bufin.drop 4)
      (firstOf (bufin.getD 0 0) (bufin.getD 1 0) :: secondOf (bufin.getD 1 0) (bufin.getD 2 0) ::
        thirdOf (bufin.getD 2 0) (bufin.getD 3 0) :: bytes, left)
  | nprbytes, bufin => (decodeRest nprbytes bufin, nprbytes)

/-- `owl_base64decode`: the bytes written and the return value. -/
def owlBase64Decode (bufcoded : List UInt8) : Option (List UInt8 × Nat) :=
  (nprbytes bufcoded).map fun n =>
    let (bytes, left) := decodeLoop n bufcoded
    (bytes, (n + 3) / 4 * 3 - (4 - left) % 4)

/-! ### The tables are inverse -/

theorem pr2six_base64Digit {n : Nat} (h : n < 64) : pr2six (base64Digit n) = UInt8.ofNat n := by
  revert n
  decide +kernel

theorem base64Digit_mem {n : Nat} (h : n < 64) : base64Digit n ∈ basis64 := by
  revert n
  decide +kernel

theorem base64Digit_stays {n : Nat} (h : n < 64) : pr2six (base64Digit n) ≤ 63 := by
  revert n
  decide +kernel

theorem pad_stops : ¬pr2six 0x3D ≤ 63 := by decide

/-- Six bits and two. -/
theorem firstOf_digits (a b : UInt8) :
    firstOf (base64Digit (a.toNat / 4)) (base64Digit (a.toNat % 4 * 16 + b.toNat / 16)) = a := by
  have ha := a.toNat_lt
  have hb := b.toNat_lt
  have hshift : ∀ p < 4, ∀ q < 16, UInt8.ofNat (p * 16 + q) >>> 4 = UInt8.ofNat p := by decide +kernel
  have hjoin : ∀ n < 256, UInt8.ofNat (n / 4) <<< 2 ||| UInt8.ofNat (n % 4) = UInt8.ofNat n := by decide +kernel
  rw [firstOf, pr2six_base64Digit (by omega), pr2six_base64Digit (by omega),
    hshift _ (by omega) _ (by omega), hjoin _ ha,
    UInt8.ofNat_toNat]

/-- Four bits and four. -/
theorem secondOf_digits (a b c : UInt8) :
    secondOf (base64Digit (a.toNat % 4 * 16 + b.toNat / 16)) (base64Digit (b.toNat % 16 * 4 + c.toNat / 64)) = b := by
  have ha := a.toNat_lt
  have hb := b.toNat_lt
  have hc := c.toNat_lt
  have hshift : ∀ p < 16, ∀ q < 4, UInt8.ofNat (p * 4 + q) >>> 2 = UInt8.ofNat p := by decide +kernel
  have hdrop : ∀ p < 4, ∀ q < 16, UInt8.ofNat (p * 16 + q) <<< 4 = UInt8.ofNat q <<< 4 := by decide +kernel
  have hjoin : ∀ n < 256, UInt8.ofNat (n / 16) <<< 4 ||| UInt8.ofNat (n % 16) = UInt8.ofNat n := by decide +kernel
  rw [secondOf, pr2six_base64Digit (by omega), pr2six_base64Digit (by omega), hshift _ (by omega) _ (by omega),
    hdrop _ (by omega) _ (by omega), hjoin _ hb, UInt8.ofNat_toNat]

/-- Two bits and six. -/
theorem thirdOf_digits (b c : UInt8) :
    thirdOf (base64Digit (b.toNat % 16 * 4 + c.toNat / 64)) (base64Digit (c.toNat % 64)) = c := by
  have hb := b.toNat_lt
  have hc := c.toNat_lt
  have hdrop : ∀ p < 16, ∀ q < 4, UInt8.ofNat (p * 4 + q) <<< 6 = UInt8.ofNat q <<< 6 := by decide +kernel
  have hjoin : ∀ n < 256, UInt8.ofNat (n / 64) <<< 6 ||| UInt8.ofNat (n % 64) = UInt8.ofNat n := by decide +kernel
  rw [thirdOf, pr2six_base64Digit (by omega), pr2six_base64Digit (by omega),
    hdrop _ (by omega) _ (by omega), hjoin _ hc,
    UInt8.ofNat_toNat]

/-! ### The form of the body -/

/-- The number of characters without the padding. -/
def digitCount (len : Nat) : Nat := (4 * len + 2) / 3

/-- **The body is alphabet characters and at most two pads.** -/
theorem owlBase64Encode_form (der : List UInt8) : ∃ digits pad, owlBase64Encode der = digits ++ List.replicate pad 0x3D ∧
    pad ≤ 2 ∧ digits.length = digitCount der.length ∧ ∀ c ∈ digits, c ∈ basis64 ∧ pr2six c ≤ 63 := by
  have hdigit : ∀ n < 64, base64Digit n ∈ basis64 ∧ pr2six (base64Digit n) ≤ 63 :=
    fun n hn => ⟨base64Digit_mem hn, base64Digit_stays hn⟩
  induction der using owlBase64Encode.induct with
  | case1 => exact ⟨[], 0, rfl, by omega, rfl, fun c hc => by cases hc⟩
  | case2 a =>
      have ha := a.toNat_lt
      refine ⟨[base64Digit (a.toNat / 4), base64Digit (a.toNat % 4 * 16)], 2, ?_, by omega, by simp [digitCount], ?_⟩
      · rw [owlBase64Encode]
        rfl
      · simp only [List.forall_mem_cons]
        exact ⟨hdigit _ (by omega), hdigit _ (by omega), fun c hc => by cases hc⟩
  | case3 a b =>
      have ha := a.toNat_lt
      have hb := b.toNat_lt
      refine ⟨[base64Digit (a.toNat / 4), base64Digit (a.toNat % 4 * 16 + b.toNat / 16),
        base64Digit (b.toNat % 16 * 4)], 1,
        ?_, by omega, by simp [digitCount], ?_⟩
      · rw [owlBase64Encode]
        rfl
      · simp only [List.forall_mem_cons]
        exact ⟨hdigit _ (by omega), hdigit _ (by omega), hdigit _ (by omega), fun c hc => by cases hc⟩
  | case4 a b c rest ih =>
      have ha := a.toNat_lt
      have hb := b.toNat_lt
      have hc := c.toNat_lt
      obtain ⟨digits, pad, hrest, hpad, hlen, hall⟩ := ih
      refine ⟨base64Digit (a.toNat / 4) :: base64Digit (a.toNat % 4 * 16 + b.toNat / 16) ::
        base64Digit (b.toNat % 16 * 4 + c.toNat / 64) :: base64Digit (c.toNat % 64) :: digits, pad, ?_, hpad, ?_, ?_⟩
      · rw [owlBase64Encode, hrest]
        rfl
      · simp only [digitCount, List.length_cons] at hlen ⊢
        omega
      · simp only [List.forall_mem_cons]
        exact ⟨hdigit _ (by omega), hdigit _ (by omega), hdigit _ (by omega), hdigit _ (by omega), hall⟩

/-- The first loop of the decoder stops at the first character outside of the alphabet. -/
theorem nprbytes_append {digits : List UInt8} {stop : UInt8} (hall : ∀ c ∈ digits, pr2six c ≤ 63)
    (hstop : ¬pr2six stop ≤ 63)
    (rest : List UInt8) : nprbytes (digits ++ stop :: rest) = some digits.length := by
  induction digits with
  | nil => simp [nprbytes, List.findIdx?_cons, hstop]
  | cons c digits ih =>
      rw [List.forall_mem_cons] at hall
      have hrest := ih hall.2
      rw [nprbytes] at hrest ⊢
      rw [List.cons_append, List.findIdx?_cons, if_neg (by simpa using hall.1), hrest]
      rfl

/-- The newline behind the body, or a pad in it, is where the decoder stops. -/
theorem nprbytes_encode (der rest : List UInt8) :
    nprbytes (owlBase64Encode der ++ 0x0A :: rest) = some (digitCount der.length) := by
  obtain ⟨digits, pad, hform, _, hlen, hall⟩ := owlBase64Encode_form der
  have hstays : ∀ c ∈ digits, pr2six c ≤ 63 := fun c hc => (hall c hc).2
  rw [hform, List.append_assoc, ← hlen]
  cases pad with
  | zero => exact nprbytes_append hstays (by decide) rest
  | succ pad =>
      rw [List.replicate_succ, List.cons_append]
      exact nprbytes_append hstays pad_stops _

/-! ### Decoding -/

/-- What is left of `nprbytes` behind the loop. -/
def leftOver (len : Nat) : Nat := if len = 0 then 0 else (len - 1) % 3 + 2

/-- **The loop gives the bytes back**, whatever stands behind the body. -/
theorem decodeLoop_encode (der rest : List UInt8) :
    decodeLoop (digitCount der.length) (owlBase64Encode der ++ rest) = (der, leftOver der.length) := by
  induction der using owlBase64Encode.induct with
  | case1 => rfl
  | case2 a =>
      have hfirst := firstOf_digits a 0
      rw [owlBase64Encode]
      simpa [digitCount, leftOver, decodeLoop, decodeRest] using hfirst
  | case3 a b =>
      have hfirst := firstOf_digits a b
      have hsecond := secondOf_digits a b 0
      rw [owlBase64Encode]
      simpa [digitCount, leftOver, decodeLoop, decodeRest, hfirst] using hsecond
  | case4 a b c tail ih =>
      have hfirst := firstOf_digits a b
      have hsecond := secondOf_digits a b c
      have hthird := thirdOf_digits b c
      rw [owlBase64Encode]
      cases tail with
      | nil => simp [digitCount, leftOver, decodeLoop, decodeRest, hfirst, hsecond, hthird]
      | cons d tail =>
          -- at least two more characters follow, so the loop takes another turn
          have hmore : digitCount (a :: b :: c :: d :: tail).length = digitCount (d :: tail).length - 1 + 5 := by
            simp only [digitCount, List.length_cons]
            omega
          have hagain : digitCount (d :: tail).length - 1 + 1 = digitCount (d :: tail).length := by
            simp only [digitCount, List.length_cons]
            omega
          have hleft : leftOver (a :: b :: c :: d :: tail).length = leftOver (d :: tail).length := by
            rw [leftOver, leftOver, if_neg (by simp), if_neg (by simp)]
            simp only [List.length_cons]
            omega
          rw [hmore, decodeLoop, hagain, hleft]
          simp only [List.cons_append, List.drop_succ_cons, List.drop_zero, ih]
          simp [hfirst, hsecond, hthird]

/-- **Decoding inverts encoding.** -/
theorem owlBase64Decode_encode (der rest : List UInt8) :
    owlBase64Decode (owlBase64Encode der ++ 0x0A :: rest) = some (der, der.length) := by
  have hreturn : (digitCount der.length + 3) / 4 * 3 - (4 - leftOver der.length) % 4 = der.length := by
    unfold digitCount leftOver
    split
    · omega
    · have hdiv := Nat.div_add_mod (der.length - 1) 3
      have hlt := Nat.mod_lt (der.length - 1) (by decide : 0 < 3)
      generalize (der.length - 1) / 3 = k at hdiv
      generalize (der.length - 1) % 3 = r at hdiv hlt ⊢
      have hlen : der.length = 3 * k + r + 1 := by omega
      rw [hlen]
      rcases (by omega : r = 0 ∨ r = 1 ∨ r = 2) with rfl | rfl | rfl <;> omega
  rw [owlBase64Decode, nprbytes_encode, Option.map_some]
  simp only [decodeLoop_encode, hreturn]

/-- The body in the text, and the newline behind it. -/
theorem convertDerToPem_split (header der : List UInt8) : ∃ front rest,
    convertDerToPem header der = front ++ (owlBase64Encode der ++ 0x0A :: rest) ∧ front.length = 17 + header.length := by
  have hbegin : (cstr "-----BEGIN ").length = 11 := by decide
  have hdashes : (cstr "-----\n").length = 6 := by decide
  have hend : cstr "\n-----END " = 0x0A :: cstr "-----END " := by decide
  refine ⟨cstr "-----BEGIN " ++ header ++ cstr "-----\n", cstr "-----END " ++ header ++ cstr "-----", ?_, ?_⟩
  · rw [convertDerToPem, hend]
    simp only [List.append_assoc, List.cons_append]
  · simp only [List.length_append, hbegin, hdashes]
    omega

/-- **PEM encoding is exact and invertible.** The conversion writes the frame and a body of alphabet characters and pads
of the announced length over whatever the buffer held, the newline over the NUL of the encoder, and reports the
announced length; the decoder, set on the body, writes the encoded bytes, within the length it announces. -/
theorem pem_exact_and_invertible (header der : List UInt8) (outPem : Mem) : ∃ body digits pad,
    convertDerToPemInto header der outPem =
      (outPem.write 0 (cstr "-----BEGIN " ++ header ++ cstr "-----\n" ++ body ++ cstr "\n-----END " ++ header ++
        cstr "-----"), derToPemLen der.length header) ∧
    (cstr "-----BEGIN " ++ header ++ cstr "-----\n" ++ body ++ cstr "\n-----END " ++ header ++ cstr "-----").length =
      derToPemLen der.length header ∧
    body.length = owlBase64EncodeLen der.length - 1 ∧
    body = digits ++ List.replicate pad 0x3D ∧ pad ≤ 2 ∧ (∀ c ∈ digits, c ∈ basis64) ∧
    (convertDerToPemInto header der outPem).1 (17 + header.length + body.length) = 0x0A ∧
    ∃ text capacity,
      text = (convertDerToPemInto header der outPem).1.slice (17 + header.length)
        ((convertDerToPemInto header der outPem).2 - (17 + header.length)) ∧
      owlBase64Decode text = some (der, der.length) ∧ owlBase64DecodeLen text = some capacity ∧ der.length ≤ capacity := by
  obtain ⟨digits, pad, hform, hpad, hlen, hall⟩ := owlBase64Encode_form der
  have hencode := owlBase64Encode_length der
  have hlength := convertDerToPem_length header der
  obtain ⟨front, rest, hsplit, hfront⟩ := convertDerToPem_split header der
  refine ⟨owlBase64Encode der, digits, pad, convertDerToPemInto_eq header der outPem, hlength, by omega, hform, hpad,
    fun c hc => (hall c hc).1, ?_, ?_⟩
  · have hin : 17 + header.length + (owlBase64Encode der).length < 0 + (convertDerToPem header der).length := by
      rw [hsplit]
      simp only [List.length_append, List.length_cons]
      omega
    rw [convertDerToPemInto_eq]
    show outPem.write 0 (convertDerToPem header der) _ = _
    rw [Mem.write_of_mem (by omega) hin, hsplit, ← hfront]
    simp [List.getD_eq_getElem?_getD]
  · have htext : (convertDerToPemInto header der outPem).1.slice (17 + header.length)
        ((convertDerToPemInto header der outPem).2 - (17 + header.length)) = owlBase64Encode der ++ 0x0A :: rest := by
      rw [convertDerToPemInto_eq, ← hlength]
      rw [Mem.slice_write_drop outPem (by rw [hsplit]; simp only [List.length_append]; omega), hsplit, ← hfront,
        List.drop_left, List.length_append, Nat.add_sub_cancel_left, List.take_length]
    refine ⟨_, (digitCount der.length + 3) / 4 * 3, rfl, ?_, ?_, ?_⟩
    · rw [htext, owlBase64Decode_encode]
    · rw [htext, owlBase64DecodeLen, nprbytes_encode, Option.map_some]
    · rw [digitCount]
      omega

end TrustOnboard
