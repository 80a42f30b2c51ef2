import TrustOnboard.ModemLines

/-! The response line of the modem. Nothing in it is checked by the driver: the declared length decides
how many digits are read and how many bytes stored, and the scans for a comma and for a digit run until
they find one. -/

namespace TrustOnboard.ATInterface

open Exec

/-! ### The scans -/

/-- The comma behind the declared length, searched in `count` bytes from `off` on, and `*responseLen`
at that point. -/
def scanLength (charSigned : Bool) (buf : Mem) : Nat → Nat → Nat → Option (Nat × Nat)
  | 0, _, _ => none
  | count + 1, off, len =>
      if buf off = 0x2C then some (off, len)
      else scanLength charSigned buf count (off + 1) ((len * 10 + charCode charSigned (buf off) + 65488) % 65536)

/-- The first hex digit in `count` bytes from `off` on. -/
def scanDigit (buf : Mem) : Nat → Nat → Option Nat
  | 0, _ => none
  | count + 1, off => if isHexDigit (buf off) then some off else scanDigit buf count (off + 1)

section Scans

variable {s : ATInterface} {charSigned : Bool} {count off len : Nat}

theorem lengthTurn_comma (hoff : off < bufSize) (hc : s.buf off = 0x2C) :
    Evals (lengthTurn charSigned (off, len)) s (.stop (off, len)) s := by
  apply Ends.of_eq
  intro fuel
  simp [lengthTurn, bind_apply, check_pos hoff, hc]

theorem lengthTurn_again (hoff : off < bufSize) (hc : s.buf off ≠ 0x2C) :
    Evals (lengthTurn charSigned (off, len)) s
      (.again (off + 1, (len * 10 + charCode charSigned (s.buf off) + 65488) % 65536)) s := by
  apply Ends.of_eq
  intro fuel
  simp [lengthTurn, bind_apply, check_pos hoff, hc]

theorem lengthTurn_faults (hoff : bufSize ≤ off) :
    Ends (lengthTurn charSigned (off, len)) s .fault s := by
  apply Ends.of_eq
  intro fuel
  simp [lengthTurn, bind_apply, check_neg (Nat.not_lt.mpr hoff)]

theorem scanLength_evals {found : Nat × Nat} (hend : off + count = bufSize)
    (h : scanLength charSigned s.buf count off len = some found) :
    Evals (loop (lengthTurn charSigned) (off, len)) s found s := by
  apply Evals.loop
  induction count generalizing off len with
  | zero => cases h
  | succ count ih =>
      rw [scanLength] at h
      by_cases hc : s.buf off = 0x2C
      · rw [if_pos hc] at h
        cases h
        exact .stop (lengthTurn_comma (by omega) hc)
      · rw [if_neg hc] at h
        exact .again (lengthTurn_again (by omega) hc) (ih (by omega) h)

theorem scanLength_faults (hend : off + count = bufSize)
    (h : scanLength charSigned s.buf count off len = none) :
    Faults (loop (lengthTurn charSigned) (off, len)) s := by
  refine ⟨s, .loop ?_⟩
  induction count generalizing off len with
  | zero => exact .fault (lengthTurn_faults (by omega))
  | succ count ih =>
      rw [scanLength] at h
      by_cases hc : s.buf off = 0x2C
      · rw [if_pos hc] at h
        cases h
      · rw [if_neg hc] at h
        exact .again (lengthTurn_again (by omega) hc) (ih (by omega) h)

theorem scanLength_lt {found : Nat × Nat} (h : scanLength charSigned s.buf count off len = some found) :
    found.1 < off + count := by
  induction count generalizing off len with
  | zero => cases h
  | succ count ih =>
      rw [scanLength] at h
      by_cases hc : s.buf off = 0x2C
      · rw [if_pos hc] at h
        cases h
        omega
      · rw [if_neg hc] at h
        have := ih h
        omega

theorem digitTurn_stop (hoff : off < bufSize) (hc : isHexDigit (s.buf off) = true) :
    Evals (digitTurn off) s (.stop off) s := by
  apply Ends.of_eq
  intro fuel
  simp [digitTurn, bind_apply, check_pos hoff, hc]

theorem digitTurn_again (hoff : off < bufSize) (hc : isHexDigit (s.buf off) = false) :
    Evals (digitTurn off) s (.again (off + 1)) s := by
  apply Ends.of_eq
  intro fuel
  simp [digitTurn, bind_apply, check_pos hoff, hc]

theorem digitTurn_faults (hoff : bufSize ≤ off) : Ends (digitTurn off) s .fault s := by
  apply Ends.of_eq
  intro fuel
  simp [digitTurn, bind_apply, check_neg (Nat.not_lt.mpr hoff)]

theorem scanDigit_evals {start : Nat} (hend : off + count = bufSize)
    (h : scanDigit s.buf count off = some start) : Evals (loop digitTurn off) s start s := by
  apply Evals.loop
  induction count generalizing off with
  | zero => cases h
  | succ count ih =>
      rw [scanDigit] at h
      cases hc : isHexDigit (s.buf off) with
      | true =>
          rw [if_pos hc] at h
          cases h
          exact .stop (digitTurn_stop (by omega) hc)
      | false =>
          rw [if_neg (by simp [hc])] at h
          exact .again (digitTurn_again (by omega) hc) (ih (by omega) h)

theorem scanDigit_faults (hend : off + count = bufSize) (h : scanDigit s.buf count off = none) :
    Faults (loop digitTurn off) s := by
  refine ⟨s, .loop ?_⟩
  induction count generalizing off with
  | zero => exact .fault (digitTurn_faults (by omega))
  | succ count ih =>
      rw [scanDigit] at h
      cases hc : isHexDigit (s.buf off) with
      | true =>
          rw [if_pos hc] at h
          cases h
      | false =>
          rw [if_neg (by simp [hc])] at h
          exact .again (digitTurn_again (by omega) hc) (ih (by omega) h)

end Scans

/-! ### The digits -/

/-- Byte `k` of the digits from `off` on. -/
def digitByte (buf : Mem) (off k : Nat) : UInt8 := hexByte (buf (off + 2 * k)) (buf (off + 2 * k + 1))

/-- The number of bytes stored for a declared length. -/
def storedBytes (hexstrLen : Nat) : Nat := (hexstrLen + 1) / 2

/-- Both digits of byte `k` are in the buffer and there is room for the byte. -/
def DigitsFit (off k : Nat) : Prop := off + 2 * k + 1 < bufSize ∧ k < apduResponseSize

section Digits

variable {s : ATInterface} {off hexstrLen k : Nat}

theorem hexTurn_again (hk : 2 * k < hexstrLen) (hfit : DigitsFit off k) :
    Evals (hexTurn (digitAt off) storeByte hexstrLen (2 * k, k)) s (.again (2 * (k + 1), k + 1))
      { s with response := s.response.write k [digitByte s.buf off k] } := by
  obtain ⟨hread, hstore⟩ := hfit
  have hlow : off + (2 * k + 1) < bufSize := by omega
  have hhigh : off + 2 * k < bufSize := by omega
  have hwrap : 2 * k < (2 * k + 2) % 65536 := by
    simp only [bufSize] at hlow
    omega
  apply Ends.of_eq
  intro fuel
  simp [hexTurn, digitAt, storeByte, bind_apply, hk, hwrap, check_pos hlow, check_pos hhigh,
    check_pos hstore, digitByte, Nat.add_assoc, Nat.mul_add]

theorem hexTurn_stop (hk : hexstrLen ≤ 2 * k) :
    Evals (hexTurn (digitAt off) storeByte hexstrLen (2 * k, k)) s (.stop (k % 65536)) s := by
  apply Ends.of_eq
  intro fuel
  simp [hexTurn, Nat.not_lt.mpr hk]

theorem hexTurn_faults (hk : 2 * k < hexstrLen) (hsmall : k ≤ apduResponseSize)
    (hover : ¬DigitsFit off k) :
    Ends (hexTurn (digitAt off) storeByte hexstrLen (2 * k, k)) s .fault s := by
  have hwrap : 2 * k < (2 * k + 2) % 65536 := by
    simp only [apduResponseSize] at hsmall
    omega
  apply Ends.of_eq
  intro fuel
  by_cases hhigh : off + 2 * k < bufSize
  · by_cases hlow : off + (2 * k + 1) < bufSize
    · have hstore : ¬k < apduResponseSize := fun hstore => hover ⟨by omega, hstore⟩
      simp [hexTurn, digitAt, storeByte, bind_apply, hk, hwrap, check_pos hlow, check_pos hhigh,
        check_neg hstore]
    · simp [hexTurn, digitAt, bind_apply, hk, hwrap, check_neg hlow, check_pos hhigh]
  · simp [hexTurn, digitAt, bind_apply, hk, hwrap, check_neg hhigh]

/-- All digits are in the buffer and there is room for all bytes: they are decoded. -/
theorem hexString_evals (hread : off + 2 * storedBytes hexstrLen ≤ bufSize)
    (hstore : storedBytes hexstrLen ≤ apduResponseSize) :
    Evals (hexString2BytesArray off hexstrLen) s (storedBytes hexstrLen)
      { s with response :=
          s.response.write 0 ((List.range' 0 (storedBytes hexstrLen)).map (digitByte s.buf off)) } := by
  -- from byte `k` on, by induction on the bytes that are left
  suffices ∀ left k, k + left = storedBytes hexstrLen → ∀ s : ATInterface,
      Iterates (hexTurn (digitAt off) storeByte hexstrLen) (2 * k, k) s (.done (storedBytes hexstrLen))
        { s with response := s.response.write k ((List.range' k left).map (digitByte s.buf off)) } from
    .loop (this (storedBytes hexstrLen) 0 (by omega) s)
  intro left
  induction left with
  | zero =>
      intro k hk s
      rw [List.range'_zero, List.map_nil, Mem.write_nil]
      have hlen : hexstrLen ≤ 2 * k := by
        simp only [storedBytes] at hk
        omega
      have hmod : k % 65536 = storedBytes hexstrLen := by
        simp only [apduResponseSize] at hstore
        omega
      rw [← hmod]
      exact .stop (hexTurn_stop hlen)
  | succ left ih =>
      intro k hk s
      have hfit : DigitsFit off k := ⟨by omega, by omega⟩
      have hlen : 2 * k < hexstrLen := by
        simp only [storedBytes] at hk
        omega
      have hrest := ih (k + 1) (by omega)
        { s with response := s.response.write k [digitByte s.buf off k] }
      simp only [Mem.write_cons] at hrest
      exact .again (hexTurn_again hlen hfit) hrest

/-- Else an access is out of range. -/
theorem hexString_faults (hoff : off ≤ bufSize)
    (hover : ¬(off + 2 * storedBytes hexstrLen ≤ bufSize ∧ storedBytes hexstrLen ≤ apduResponseSize)) :
    Faults (hexString2BytesArray off hexstrLen) s := by
  -- the accesses of the bytes before `k` were in range
  suffices ∀ left k, k + left = apduResponseSize → off + 2 * k ≤ bufSize → ∀ s : ATInterface,
      ∃ s', Iterates (hexTurn (digitAt off) storeByte hexstrLen) (2 * k, k) s .fault s' by
    obtain ⟨s', hrun⟩ := this apduResponseSize 0 (by omega) hoff s
    exact ⟨s', .loop hrun⟩
  have hmore : ∀ k, k ≤ apduResponseSize → off + 2 * k ≤ bufSize → 2 * k < hexstrLen := by
    intro k hk hread
    by_contra hlen
    apply hover
    simp only [storedBytes]
    omega
  intro left
  induction left with
  | zero =>
      intro k hk hread s
      have hfull : ¬DigitsFit off k := fun hfit => by
        have := hfit.2
        omega
      exact ⟨s, .fault (hexTurn_faults (hmore k (by omega) hread) (by omega) hfull)⟩
  | succ left ih =>
      intro k hk hread s
      have hlen := hmore k (by omega) hread
      by_cases hfit : DigitsFit off k
      · have := hfit.1
        obtain ⟨s', hrun⟩ := ih (k + 1) (by omega) (by omega)
          { s with response := s.response.write k [digitByte s.buf off k] }
        exact ⟨s', .again (hexTurn_again hlen hfit) hrun⟩
      · exact ⟨s, .fault (hexTurn_faults hlen (by omega) hfit)⟩

end Digits

/-! ### The whole line -/

/-- In the buffer of a response line: a comma behind the prefix, a digit behind the comma, the digits
that the declared length asks for inside the buffer, and room for their bytes. -/
def ResponseFits (charSigned : Bool) (buf : Mem) : Prop :=
  ∃ comma declared start, scanLength charSigned buf (bufSize - 7) 7 0 = some (comma, declared) ∧
    scanDigit buf (bufSize - comma) comma = some start ∧
    start + 2 * storedBytes declared ≤ bufSize ∧ storedBytes declared ≤ apduResponseSize

section Response

variable {s : ATInterface} {charSigned : Bool}

theorem scanDigit_lt {buf : Mem} {count off start : Nat} (h : scanDigit buf count off = some start) :
    start < off + count := by
  induction count generalizing off with
  | zero => cases h
  | succ count ih =>
      rw [scanDigit] at h
      split at h
      · cases h
        omega
      · have := ih h
        omega

theorem readResponse_evals {comma declared start : Nat}
    (hlength : scanLength charSigned s.buf (bufSize - 7) 7 0 = some (comma, declared))
    (hdigit : scanDigit s.buf (bufSize - comma) comma = some start)
    (hread : start + 2 * storedBytes declared ≤ bufSize) (hstore : storedBytes declared ≤ apduResponseSize) :
    Evals (readResponse charSigned) s (storedBytes declared)
      { s with response :=
          s.response.write 0 ((List.range' 0 (storedBytes declared)).map (digitByte s.buf start)) } := by
  have hcomma := scanLength_lt hlength
  have hsize : 7 + (bufSize - 7) = bufSize := rfl
  apply (scanLength_evals hsize hlength).bind
  apply (scanDigit_evals (by omega) hdigit).bind
  exact hexString_evals hread hstore

theorem readResponse_faults (h : ¬ResponseFits charSigned s.buf) : Faults (readResponse charSigned) s := by
  have hsize : 7 + (bufSize - 7) = bufSize := rfl
  cases hlength : scanLength charSigned s.buf (bufSize - 7) 7 0 with
  | none => exact (scanLength_faults hsize hlength).bind
  | some found =>
      obtain ⟨comma, declared⟩ := found
      have hcomma := scanLength_lt hlength
      have hrest : comma + (bufSize - comma) = bufSize := by omega
      apply (scanLength_evals hsize hlength).bind_faults
      cases hdigit : scanDigit s.buf (bufSize - comma) comma with
      | none => exact (scanDigit_faults hrest hdigit).bind
      | some start =>
          have hstart := scanDigit_lt hdigit
          apply (scanDigit_evals hrest hdigit).bind_faults
          apply hexString_faults (by omega)
          rintro ⟨hread, hstore⟩
          exact h ⟨comma, declared, start, hlength, hdigit, hread, hstore⟩

end Response

end TrustOnboard.ATInterface
