import TrustOnboard.ModemSafety
import TrustOnboard.ModemFraming
import TrustOnboard.SdkModel

/-! Hex text and back. The modem driver has an encoder and a decoder, the SDK its own copy of the decoder. All of them
count in 16 bits; here they work on arrays of the caller, of any length that the counters hold. -/

namespace TrustOnboard

open Exec

/-! ### Arrays -/

/-- `array[i]`. -/
def readAt {S : Type} (array : List UInt8) (i : Nat) : Exec S UInt8 := do
  check (i < array.length)
  return array.getD i 0

/-- `array[k] = byte`, for an array of `room` bytes. -/
def storeAt (room : Nat) (k : Nat) (byte : UInt8) : Exec Mem Unit := do
  check (k < room)
  modify fun memory => memory.write k [byte]

/-! ### The three functions -/

namespace ATInterface

/-- `i`, the moving pointer `hexstr` and `*hexstrLen` in `bytesArray2HexString`. -/
structure Encoding where
  i : Nat
  pos : Nat
  hexstrLen : Nat

/-- `hex`. -/
def hexTable : List UInt8 := cstr "0123456789ABCDEF"

/-- One turn of the loop of `bytesArray2HexString`: two digits. -/
def encodeTurn (bytes : List UInt8) (room bytesLen : Nat) : Encoding → Exec Mem (Turn Encoding Nat) := fun x => do
  if x.i < bytesLen then
    let byte ← readAt bytes x.i
    storeAt room x.pos (hexTable.getD ((byte >>> 4) &&& 0x0F).toNat 0)
    let byte ← readAt bytes x.i
    storeAt room (x.pos + 1) (hexTable.getD (byte &&& 0x0F).toNat 0)
    return .again ⟨(x.i + 1) % 65536, x.pos + 2, (x.hexstrLen + 2) % 65536⟩
  else
    return .stop x.hexstrLen

/-- `bytesArray2HexString` into an array of `room` bytes; the result is `*hexstrLen`. -/
def bytesArray2HexString (bytes : List UInt8) (room bytesLen : Nat) : Exec Mem Nat :=
  loop (encodeTurn bytes room bytesLen) ⟨0, 0, 0⟩

/-- `hexString2BytesArray` between any two arrays; the result is `*bytesLen`. -/
def hexString2BytesArrayOf (hexstr : List UInt8) (room hexstrLen : Nat) : Exec Mem Nat :=
  hexDecode (readAt hexstr) (storeAt room) hexstrLen

end ATInterface

namespace Sdk

section Loops

variable {S : Type} (read : Nat → Exec S UInt8) (store : Nat → UInt8 → Exec S Unit)

/-- One turn of the inner loop up to `j`: the next digit goes into `d`. -/
def digitTurn (j : Nat) : Nat × UInt8 → Exec S (Turn (Nat × UInt8) (Nat × UInt8)) := fun x => do
  if x.1 < j then
    let c ← read x.1
    return .again ((x.1 + 1) % 65536, (x.2 <<< 4) ||| hexNibble c)
  else
    return .stop x

/-- One turn of the outer loop at digit `i`, `count` bytes stored. -/
def byteTurn (hexstrLen : Nat) : Nat × Nat → Exec S (Turn (Nat × Nat) Nat) := fun x => do
  if x.1 < hexstrLen then
    let digits ← loop (digitTurn read ((x.1 + 2) % 65536)) (x.1, 0)
    store x.2 digits.2
    return .again (digits.1, x.2 + 1)
  else
    return .stop (x.2 % 65536)

end Loops

/-- `hex_string_2_bytes_array` of the SDK with both its loops; the result is `*bytesLen`. -/
def hexString2BytesArray (hexstr : List UInt8) (room hexstrLen : Nat) : Exec Mem Nat :=
  loop (byteTurn (readAt hexstr) (storeAt room) hexstrLen) (0, 0)

end Sdk

/-! ### Text and bytes -/

/-- The bytes of a hex text. -/
def decodeHex : List UInt8 → List UInt8
  | [] => []
  | [_] => []
  | high :: low :: text => hexByte high low :: decodeHex text

/-- A character in upper case. -/
def upperCase (c : UInt8) : UInt8 := if 0x61 ≤ c ∧ c ≤ 0x7A then c - 0x20 else c

theorem decodeHex_length (text : List UInt8) : (decodeHex text).length = text.length / 2 := by
  induction text using decodeHex.induct with
  | case1 => rfl
  | case2 c => simp [decodeHex]
  | case3 high low text ih =>
      rw [decodeHex, List.length_cons, List.length_cons, List.length_cons, ih]
      omega

theorem hexUpper_cons (byte : UInt8) (bytes : List UInt8) : ATInterface.hexUpper (byte :: bytes) =
    ATInterface.upperDigit (byte >>> 4) :: ATInterface.upperDigit (byte &&& 0x0F) :: ATInterface.hexUpper bytes := rfl

/-- The digits of a byte are read back. -/
theorem decodeHex_hexUpper (bytes : List UInt8) : decodeHex (ATInterface.hexUpper bytes) = bytes := by
  induction bytes with
  | nil => rfl
  | cons byte bytes ih => rw [hexUpper_cons, decodeHex, ih, ATInterface.hexByte_digits (.inl rfl) (.inl rfl)]

/-- A digit in either case, and its value in upper case. -/
theorem upperDigit_hexNibble : ∀ c : UInt8, ATInterface.isHexDigit c = true →
    hexNibble c < 16 ∧ ATInterface.upperDigit (hexNibble c) = upperCase c :=
  forall_byte (by decide +kernel)

/-- Two nibbles next to each other. -/
theorem nibbles_of_or : ∀ high low : UInt8, high < 16 → low < 16 →
    (high <<< 4 ||| low) >>> 4 = high ∧ (high <<< 4 ||| low) &&& 0x0F = low := by
  have hall : ∀ high low : Fin 16, (UInt8.ofNat high <<< 4 ||| UInt8.ofNat low) >>> 4 = UInt8.ofNat high ∧
      (UInt8.ofNat high <<< 4 ||| UInt8.ofNat low) &&& 0x0F = UInt8.ofNat low := by decide +kernel
  intro high low hhigh hlow
  have hcase := hall ⟨high.toNat, hhigh⟩ ⟨low.toNat, hlow⟩
  simpa using hcase

/-- A text of digits is the one of its bytes, in upper case. -/
theorem hexUpper_decodeHex {text : List UInt8} (heven : text.length % 2 = 0)
    (hdigits : ∀ c ∈ text, ATInterface.isHexDigit c = true) :
    ATInterface.hexUpper (decodeHex text) = text.map upperCase := by
  induction text using decodeHex.induct with
  | case1 => rfl
  | case2 c => simp at heven
  | case3 high low text ih =>
      simp only [List.forall_mem_cons] at hdigits
      obtain ⟨hhigh, hlow, htext⟩ := hdigits
      obtain ⟨hhigh, hupperHigh⟩ := upperDigit_hexNibble high hhigh
      obtain ⟨hlow, hupperLow⟩ := upperDigit_hexNibble low hlow
      obtain ⟨hfirst, hsecond⟩ := nibbles_of_or (hexNibble high) (hexNibble low) hhigh hlow
      have hrest := ih (by simp only [List.length_cons] at heven; omega) htext
      rw [decodeHex, hexUpper_cons, hrest, hexByte, hfirst, hsecond, hupperHigh, hupperLow, List.map_cons,
        List.map_cons]

/-! ### The decoders -/

/-- Store bytes from place `k` on. -/
def puts {S : Type} (put : Nat → UInt8 → S → S) : Nat → List UInt8 → S → S
  | _, [], s => s
  | k, byte :: bytes, s => puts put (k + 1) bytes (put k byte s)

theorem puts_write (k : Nat) (bytes : List UInt8) (memory : Mem) :
    puts (fun k byte memory => memory.write k [byte]) k bytes memory = memory.write k bytes := by
  induction bytes generalizing k memory with
  | nil => exact (Mem.write_nil memory k).symm
  | cons byte bytes ih => rw [puts, ih, Mem.write_cons]

theorem puts_append (k : Nat) (bytes stored : List UInt8) :
    puts (fun _ byte stored => stored ++ [byte]) k bytes stored = stored ++ bytes := by
  induction bytes generalizing k stored with
  | nil => exact (List.append_nil stored).symm
  | cons byte bytes ih => rw [puts, ih, List.append_assoc, List.singleton_append]

/-- Reading `hexstr` and storing `room` bytes are in range. -/
structure Accesses {S : Type} (read : Nat → Exec S UInt8) (store : Nat → UInt8 → Exec S Unit)
    (hexstr : List UInt8) (room : Nat) (put : Nat → UInt8 → S → S) : Prop where
  read : ∀ i, i < hexstr.length → ∀ fuel s, read i fuel s = (.done (hexstr.getD i 0), s)
  store : ∀ k, k < room → ∀ byte fuel s, store k byte fuel s = (.done (), put k byte s)

theorem accesses_array (hexstr : List UInt8) (room : Nat) :
    Accesses (readAt hexstr) (storeAt room) hexstr room fun k byte memory => memory.write k [byte] where
  read := fun i hi fuel s => by rw [readAt, bind_done (check_pos hi fuel s), pure_apply]
  store := fun k hk byte fuel s => by rw [storeAt, bind_done (check_pos hk fuel s), modify_apply]

/-- Turns at digit `i` with `k` bytes stored: each takes two digits, until the text is over. -/
structure TakesPairs {S : Type} (body : Nat × Nat → Exec S (Turn (Nat × Nat) Nat)) (hexstr : List UInt8)
    (room hexstrLen : Nat) (put : Nat → UInt8 → S → S) : Prop where
  pair : ∀ i k s, i + 1 < hexstr.length → i < hexstrLen → i + 2 < 65536 → k < room →
    Evals (body (i, k)) s (.again (i + 2, k + 1)) (put k (hexByte (hexstr.getD i 0) (hexstr.getD (i + 1) 0)) s)
  stop : ∀ i k s, hexstrLen ≤ i → Evals (body (i, k)) s (.stop (k % 65536)) s

section Decoders

variable {S : Type} {read : Nat → Exec S UInt8} {store : Nat → UInt8 → Exec S Unit}
  {put : Nat → UInt8 → S → S} {hexstr : List UInt8} {room hexstrLen : Nat}

theorem hexTurn_pairs (h : Accesses read store hexstr room put) :
    TakesPairs (hexTurn read store hexstrLen) hexstr room hexstrLen put where
  pair := by
    intro i k s hmore hlen hsmall hroom
    have hwrap : i < (i + 2) % 65536 := by omega
    refine .of_eq fun fuel => ?_
    simp only [hexTurn, if_pos hlen, if_pos hwrap]
    rw [bind_done (h.read i (by omega) fuel s), bind_done (h.read (i + 1) hmore fuel s),
      bind_done (h.store k hroom _ fuel s), pure_apply]
  stop := by
    intro i k s hlen
    refine .of_eq fun fuel => ?_
    simp only [hexTurn, if_neg (Nat.not_lt.mpr hlen), pure_apply]

/-- The inner loop takes two digits and leaves `i` behind them. -/
theorem Sdk.digitLoop_pair (h : Accesses read store hexstr room put) {i : Nat} (hmore : i + 1 < hexstr.length)
    (hsmall : i + 2 < 65536) (s : S) : Evals (loop (Sdk.digitTurn read ((i + 2) % 65536)) (i, 0)) s
      (i + 2, hexByte (hexstr.getD i 0) (hexstr.getD (i + 1) 0)) s := by
  have hbound : (i + 2) % 65536 = i + 2 := Nat.mod_eq_of_lt hsmall
  have hturn : ∀ n d, n < i + 2 → Evals (Sdk.digitTurn read ((i + 2) % 65536) (n, d)) s
      (.again (n + 1, (d <<< 4) ||| hexNibble (hexstr.getD n 0))) s := by
    intro n d hn
    refine .of_eq fun fuel => ?_
    simp only [Sdk.digitTurn, hbound, if_pos hn]
    rw [bind_done (h.read n (by omega) fuel s), pure_apply, Nat.mod_eq_of_lt (by omega)]
  have hend : ∀ d, Evals (Sdk.digitTurn read ((i + 2) % 65536) (i + 2, d)) s (.stop (i + 2, d)) s := by
    intro d
    refine .of_eq fun fuel => ?_
    simp only [Sdk.digitTurn, hbound, if_neg (Nat.lt_irrefl (i + 2)), pure_apply]
  have hzero : (0 : UInt8) <<< 4 = 0 := by decide
  have hfirst := hturn i 0 (by omega)
  rw [hzero, UInt8.zero_or] at hfirst
  exact .loop (.again hfirst (.again (hturn (i + 1) _ (by omega)) (.stop (hend _))))

theorem Sdk.byteTurn_pairs (h : Accesses read store hexstr room put) :
    TakesPairs (Sdk.byteTurn read store hexstrLen) hexstr room hexstrLen put where
  pair := by
    intro i k s hmore hlen hsmall hroom
    have hstore : Evals (store k (hexByte (hexstr.getD i 0) (hexstr.getD (i + 1) 0))) s () _ :=
      .of_eq fun fuel => h.store k hroom _ fuel s
    unfold Sdk.byteTurn
    rw [if_pos hlen]
    exact (Sdk.digitLoop_pair h hmore hsmall s).bind (hstore.bind .pure)
  stop := by
    intro i k s hlen
    unfold Sdk.byteTurn
    rw [if_neg (Nat.not_lt.mpr hlen)]
    exact .pure

/-- A loop that takes two digits in each turn decodes the text. -/
theorem TakesPairs.loop {body : Nat × Nat → Exec S (Turn (Nat × Nat) Nat)}
    (h : TakesPairs body hexstr room hexstrLen put) (hlen : hexstrLen ≤ hexstr.length) (heven : hexstrLen % 2 = 0)
    (hsmall : hexstrLen < 65536) (hroom : hexstrLen / 2 ≤ room) (s : S) :
    Evals (Exec.loop body (0, 0)) s (hexstrLen / 2) (puts put 0 (decodeHex (hexstr.take hexstrLen)) s) := by
  have htake : (hexstr.take hexstrLen).length = hexstrLen := List.length_take_of_le hlen
  have hget : ∀ i, i < hexstrLen → hexstr.getD i 0 = (hexstr.take hexstrLen).getD i 0 := by
    intro i hi
    simp [List.getD_eq_getElem?_getD, hi]
  -- by induction on the text that is left behind the `k` bytes that are stored
  suffices ∀ text front k s, hexstr.take hexstrLen = front ++ text → front.length = 2 * k →
      Iterates body (2 * k, k) s (.done (hexstrLen / 2)) (puts put k (decodeHex text) s) from
    .loop (this (hexstr.take hexstrLen) [] 0 s rfl rfl)
  intro text
  induction text using decodeHex.induct with
  | case1 =>
      intro front k s hsplit hfront
      have hdone : 2 * k = hexstrLen := by rw [← hfront, ← htake, hsplit, List.append_nil]
      have hcount : hexstrLen / 2 = k % 65536 := by omega
      rw [hcount]
      exact .stop (h.stop (2 * k) k s (by omega))
  | case2 c =>
      intro front k s hsplit hfront
      rw [hsplit, List.length_append, List.length_singleton] at htake
      omega
  | case3 high low text ih =>
      intro front k s hsplit hfront
      have hlength : front.length + (text.length + 2) = hexstrLen := by
        rw [← htake, hsplit, List.length_append, List.length_cons, List.length_cons]
      have hhigh : hexstr.getD (2 * k) 0 = high := by
        rw [hget _ (by omega), hsplit, ← hfront]
        simp [List.getD_eq_getElem?_getD]
      have hlow : hexstr.getD (2 * k + 1) 0 = low := by
        rw [hget _ (by omega), hsplit, ← hfront]
        simp [List.getD_eq_getElem?_getD]
      have hturn := h.pair (2 * k) k s (by omega) (by omega) (by omega) (by omega)
      rw [hhigh, hlow] at hturn
      refine .again hturn (ih (front ++ [high, low]) (k + 1) _ ?_ ?_)
      · rw [hsplit, List.append_assoc]
        rfl
      · rw [List.length_append, hfront]
        rfl

end Decoders

/-! ### The encoder -/

namespace ATInterface

/-- The digits of a byte in the table. -/
theorem hexTable_digits : ∀ byte : UInt8, hexTable.getD ((byte >>> 4) &&& 0x0F).toNat 0 = upperDigit (byte >>> 4) ∧
    hexTable.getD (byte &&& 0x0F).toNat 0 = upperDigit (byte &&& 0x0F) :=
  forall_byte (by decide +kernel)

theorem encodeTurn_again {bytes : List UInt8} {room i pos : Nat} (hi : i < bytes.length)
    (hsmall : bytes.length < 65536) (hroom : pos + 2 ≤ room) (hexstrLen : Nat) (memory : Mem) :
    Evals (encodeTurn bytes room bytes.length ⟨i, pos, hexstrLen⟩) memory
      (.again ⟨i + 1, pos + 2, (hexstrLen + 2) % 65536⟩)
      (memory.write pos [upperDigit (bytes.getD i 0 >>> 4), upperDigit (bytes.getD i 0 &&& 0x0F)]) := by
  obtain ⟨hhigh, hlow⟩ := hexTable_digits (bytes.getD i 0)
  have haccess := accesses_array bytes room
  refine .of_eq fun fuel => ?_
  simp only [encodeTurn, if_pos hi]
  rw [bind_done (haccess.read i hi fuel _), bind_done (haccess.store pos (by omega) _ fuel _),
    bind_done (haccess.read i hi fuel _), bind_done (haccess.store (pos + 1) (by omega) _ fuel _), pure_apply, hhigh,
    hlow, Mem.write_cons, Nat.mod_eq_of_lt (by omega : i + 1 < 65536)]

theorem bytesArray2HexString_evals {bytes : List UInt8} {room : Nat} (hsmall : bytes.length < 65536)
    (hroom : 2 * bytes.length ≤ room) (memory : Mem) :
    Evals (bytesArray2HexString bytes room bytes.length) memory (2 * bytes.length % 65536)
      (memory.write 0 (hexUpper bytes)) := by
  -- by induction on the bytes that are left
  suffices ∀ rest front memory, bytes = front ++ rest →
      Iterates (encodeTurn bytes room bytes.length) ⟨front.length, 2 * front.length, 2 * front.length % 65536⟩
        memory (.done (2 * bytes.length % 65536)) (memory.write (2 * front.length) (hexUpper rest)) from
    .loop (this bytes [] memory rfl)
  intro rest
  induction rest with
  | nil =>
      intro front memory hsplit
      have hend : front.length = bytes.length := by rw [hsplit, List.append_nil]
      rw [hend]
      refine .stop (.of_eq fun fuel => ?_)
      simp only [encodeTurn, if_neg (Nat.lt_irrefl bytes.length), pure_apply]
      rw [hexUpper, List.flatMap_nil, Mem.write_nil]
  | cons byte rest ih =>
      intro front memory hsplit
      have hlength : bytes.length = front.length + (rest.length + 1) := by
        rw [hsplit, List.length_append, List.length_cons]
      have hbyte : bytes.getD front.length 0 = byte := by
        rw [hsplit]
        simp [List.getD_eq_getElem?_getD]
      have hmore : front.length < bytes.length := by omega
      have hfits : 2 * front.length + 2 ≤ room := by omega
      have hturn := encodeTurn_again hmore hsmall hfits (2 * front.length % 65536) memory
      have hcount : (2 * front.length % 65536 + 2) % 65536 = 2 * (front.length + 1) % 65536 := by omega
      have hrest := ih (front ++ [byte])
        (memory.write (2 * front.length) [upperDigit (byte >>> 4), upperDigit (byte &&& 0x0F)])
        (by rw [hsplit, List.append_assoc, List.singleton_append])
      rw [hbyte, hcount] at hturn
      rw [List.length_append, List.length_singleton] at hrest
      have hwrite : (memory.write (2 * front.length) [upperDigit (byte >>> 4), upperDigit (byte &&& 0x0F)]).write
          (2 * (front.length + 1)) (hexUpper rest) = memory.write (2 * front.length) (hexUpper (byte :: rest)) :=
        Mem.write_append memory (2 * front.length) [_, _] (hexUpper rest)
      rw [hwrite] at hrest
      exact .again hturn hrest

end ATInterface

/-! ### Two-sided -/

/-- The encoder makes this text of these bytes, in any array that has room for it. -/
def Encodes (bytes text : List UInt8) : Prop :=
  ∀ room memory, text.length ≤ room →
    Evals (ATInterface.bytesArray2HexString bytes room (bytes.length % 65536)) memory text.length (memory.write 0 text)

/-- A decoder makes these bytes of this text, in any array that has room for them. -/
def Decodes (decoder : List UInt8 → Nat → Nat → Exec Mem Nat) (text bytes : List UInt8) : Prop :=
  ∀ room memory, bytes.length ≤ room →
    Evals (decoder text room (text.length % 65536)) memory bytes.length (memory.write 0 bytes)

theorem encodes_hexUpper {bytes : List UInt8} (h : bytes.length ≤ 32767) :
    Encodes bytes (ATInterface.hexUpper bytes) := by
  intro room memory hroom
  rw [ATInterface.hexUpper_length] at hroom ⊢
  have hsmall : bytes.length < 65536 := by omega
  have hrun := ATInterface.bytesArray2HexString_evals hsmall hroom memory
  rw [Nat.mod_eq_of_lt hsmall]
  rwa [Nat.mod_eq_of_lt (by omega)] at hrun

section Copies

variable {text : List UInt8}

/-- What the 16-bit length leaves of a text. -/
theorem decodeHex_take_length (text : List UInt8) :
    (decodeHex (text.take (text.length % 65536))).length = text.length % 65536 / 2 := by
  rw [decodeHex_length, List.length_take_of_le (Nat.mod_le _ _)]

/-- A decoder whose turns take two digits each, between arrays. -/
theorem decodes_of_pairs {body : List UInt8 → Nat → Nat → Nat × Nat → Exec Mem (Turn (Nat × Nat) Nat)}
    (h : ∀ room hexstrLen, TakesPairs (body text room hexstrLen) text room hexstrLen
      fun k byte memory => memory.write k [byte]) (heven : text.length % 2 = 0) :
    Decodes (fun hexstr room hexstrLen => loop (body hexstr room hexstrLen) (0, 0)) text
      (decodeHex (text.take (text.length % 65536))) := by
  intro room memory hroom
  rw [decodeHex_take_length] at hroom ⊢
  rw [← puts_write]
  exact (h room _).loop (Nat.mod_le _ _) (by omega) (Nat.mod_lt _ (by decide)) hroom memory

theorem ATInterface.hexString2BytesArrayOf_decodes (heven : text.length % 2 = 0) :
    Decodes ATInterface.hexString2BytesArrayOf text (decodeHex (text.take (text.length % 65536))) :=
  decodes_of_pairs (fun room _ => hexTurn_pairs (accesses_array text room)) heven

theorem Sdk.hexString2BytesArray_decodes (heven : text.length % 2 = 0) :
    Decodes Sdk.hexString2BytesArray text (decodeHex (text.take (text.length % 65536))) :=
  decodes_of_pairs (fun room _ => Sdk.byteTurn_pairs (accesses_array text room)) heven

end Copies

/-! ### The two callers -/

/-- In `se_read_object`, for every name that it takes. -/
theorem Sdk.efnameBytes_decodes {path : List UInt8} (heven : path.length % 2 = 0) (hshort : path.length ≤ 64) :
    Evals (Sdk.efnameBytes path) [] (path.length / 2) (decodeHex path) := by
  have haccess : Accesses (fun i => pure (path.getD i 0))
      (fun i byte => do
        check (i < 32)
        modify fun bytes : List UInt8 => bytes ++ [byte]) path 32 fun _ byte stored => stored ++ [byte] :=
    { read := fun i _ fuel s => rfl
      store := fun k hk byte fuel s => by rw [bind_done (check_pos hk fuel s), modify_apply] }
  have hrun := (hexTurn_pairs haccess).loop (Nat.le_refl path.length) heven (by omega) (by omega) []
  rwa [puts_append, List.nil_append, List.take_length] at hrun

theorem ATInterface.digitByte_decodes {buf : Mem} {off k : Nat} {text : List UInt8} (heven : text.length % 2 = 0)
    (h : ATInterface.HoldsAt buf (off + 2 * k) text) :
    (List.range' k (text.length / 2)).map (ATInterface.digitByte buf off) = decodeHex text := by
  induction text using decodeHex.induct generalizing k with
  | case1 => rfl
  | case2 c => simp at heven
  | case3 high low text ih =>
      have hcount : (high :: low :: text).length / 2 = text.length / 2 + 1 := by
        simp only [List.length_cons]
        omega
      have hrest : text.length % 2 = 0 := by
        simp only [List.length_cons] at heven
        omega
      have hhigh : buf (off + 2 * k) = high := h.head
      have hlow : buf (off + 2 * k + 1) = low := h.tail.head
      rw [hcount, List.range'_succ, List.map_cons, ih hrest h.tail.tail, ATInterface.digitByte, hhigh, hlow, decodeHex]

/-- In `sendATCSIM`, for digits that are in the line buffer. -/
theorem ATInterface.hexString2BytesArray_decodes {s : ATInterface} {off : Nat} {text : List UInt8}
    (heven : text.length % 2 = 0) (h : ATInterface.HoldsAt s.buf off text)
    (hread : off + text.length ≤ ATInterface.bufSize) (hstore : text.length / 2 ≤ apduResponseSize) :
    Evals (ATInterface.hexString2BytesArray off text.length) s (text.length / 2)
      { s with response := s.response.write 0 (decodeHex text) } := by
  have hstored : ATInterface.storedBytes text.length = text.length / 2 := by
    rw [ATInterface.storedBytes]
    omega
  have hdigits : off + 2 * ATInterface.storedBytes text.length ≤ ATInterface.bufSize := by omega
  have hrun := @ATInterface.hexString_evals s _ _ hdigits (hstored.symm ▸ hstore)
  rwa [hstored, ATInterface.digitByte_decodes heven h] at hrun

/-- **Encoder and decoder are inverse to each other** on what their 16-bit lengths hold, and the two copies of the
decoder agree on every text of even length. -/
theorem hex_two_sided :
    (∀ bytes : List UInt8, bytes.length ≤ 32767 →
      ∃ text, text.length = 2 * bytes.length ∧ Encodes bytes text ∧
        Decodes ATInterface.hexString2BytesArrayOf text bytes) ∧
    (∀ text : List UInt8, text.length % 2 = 0 → text.length ≤ 65534 →
      (∀ c ∈ text, ATInterface.isHexDigit c = true) →
      ∃ bytes, bytes.length = text.length / 2 ∧ Decodes ATInterface.hexString2BytesArrayOf text bytes ∧
        Encodes bytes (text.map upperCase)) ∧
    ∀ text : List UInt8, text.length % 2 = 0 →
      ∃ bytes, Decodes ATInterface.hexString2BytesArrayOf text bytes ∧
        Decodes Sdk.hexString2BytesArray text bytes := by
  refine ⟨fun bytes hlen => ?_, fun text heven hlen hdigits => ?_, fun text heven => ?_⟩
  · have hlength := ATInterface.hexUpper_length bytes
    have heven : (ATInterface.hexUpper bytes).length % 2 = 0 := by omega
    have hdecodes := ATInterface.hexString2BytesArrayOf_decodes heven
    rw [Nat.mod_eq_of_lt (by omega), List.take_length, decodeHex_hexUpper] at hdecodes
    exact ⟨ATInterface.hexUpper bytes, hlength, encodes_hexUpper hlen, hdecodes⟩
  · have hdecodes := ATInterface.hexString2BytesArrayOf_decodes heven
    rw [Nat.mod_eq_of_lt (by omega), List.take_length] at hdecodes
    have hlength := decodeHex_length text
    refine ⟨decodeHex text, hlength, hdecodes, ?_⟩
    rw [← hexUpper_decodeHex heven hdigits]
    exact encodes_hexUpper (by omega)
  · exact ⟨_, ATInterface.hexString2BytesArrayOf_decodes heven, Sdk.hexString2BytesArray_decodes heven⟩

/-- Two bytes, two digits in lower case, and four characters of which two are no digits. -/
theorem hex_two_sided_short :
    (∃ text, text.length = 4 ∧ Encodes [0x7F, 0xAA] text ∧
      Decodes ATInterface.hexString2BytesArrayOf text [0x7F, 0xAA]) ∧
    (∃ bytes, bytes.length = 1 ∧ Decodes ATInterface.hexString2BytesArrayOf [0x37, 0x66] bytes ∧
      Encodes bytes ([0x37, 0x66].map upperCase)) ∧
    ∃ bytes, Decodes ATInterface.hexString2BytesArrayOf [0x37, 0x66, 0x2F, 0x47] bytes ∧
      Decodes Sdk.hexString2BytesArray [0x37, 0x66, 0x2F, 0x47] bytes :=
  ⟨hex_two_sided.1 [0x7F, 0xAA] (by decide),
    hex_two_sided.2.1 [0x37, 0x66] (by decide) (by decide) (by simp [ATInterface.isHexDigit]),
    hex_two_sided.2.2 [0x37, 0x66, 0x2F, 0x47] (by decide)⟩

end TrustOnboard
