import TrustOnboard.ModemModel

/-! The input of the modem driver as a sequence of lines. A line is what one call of `readLine` takes
from the serial line: the bytes up to a newline, or up to a `recv` that fails. It is laid over the
line buffer, whose bytes behind it are those of earlier lines. -/

namespace TrustOnboard.ATInterface

open Exec

/-- One call of `readLine` takes this line and leaves the rest. -/
inductive Line (hangup : Bool) : List (Option UInt8) → List UInt8 → List (Option UInt8) → Prop
  | full (rest : List (Option UInt8)) : Line hangup (some newline :: rest) [newline] rest
  | failed (rest : List (Option UInt8)) : Line hangup (none :: rest) [] rest
  | ended (h : hangup = true) : Line hangup [] [] []
  | byte {c : UInt8} {input rest : List (Option UInt8)} {line : List UInt8} (hc : c ≠ newline)
      (h : Line hangup input line rest) : Line hangup (some c :: input) (c :: line) rest

/-- The input holds these lines, and then bytes of a line that never ends. -/
inductive Ahead (hangup : Bool) : List (Option UInt8) → List (List UInt8) → List UInt8 → Prop
  | waiting {input : List (Option UInt8)} {last : List UInt8} (hhangup : hangup = false)
      (hinput : input = last.map some) (h : newline ∉ last) : Ahead hangup input [] last
  | hungUp {input : List (Option UInt8)} (hhangup : hangup = true) (hinput : input = []) :
      Ahead hangup input [] []
  | line {input rest : List (Option UInt8)} {line last : List UInt8} {lines : List (List UInt8)}
      (h : Line hangup input line rest) (hrest : Ahead hangup rest lines last) :
      Ahead hangup input (line :: lines) last

/-- The lines of an input. -/
def linesOf (hangup : Bool) : List (Option UInt8) → List (List UInt8) × List UInt8
  | [] => ([], [])
  | none :: rest => ([] :: (linesOf hangup rest).1, (linesOf hangup rest).2)
  | some c :: rest =>
      if c = newline then
        ([newline] :: (linesOf hangup rest).1, (linesOf hangup rest).2)
      else
        match (linesOf hangup rest).1 with
        | line :: lines => ((c :: line) :: lines, (linesOf hangup rest).2)
        | [] =>
            if hangup then ([c :: (linesOf hangup rest).2], []) else ([], c :: (linesOf hangup rest).2)

theorem ahead_linesOf (hangup : Bool) (input : List (Option UInt8)) :
    Ahead hangup input (linesOf hangup input).1 (linesOf hangup input).2 := by
  induction input with
  | nil =>
      cases hangup with
      | false => exact .waiting rfl rfl List.not_mem_nil
      | true => exact .hungUp rfl rfl
  | cons received rest ih =>
      cases received with
      | none => exact .line (.failed rest) ih
      | some c =>
          by_cases hc : c = newline
          · subst hc
            simp only [linesOf, if_true]
            exact .line (.full rest) ih
          · simp only [linesOf, if_neg hc]
            generalize linesOf hangup rest = parts at ih
            obtain ⟨lines, last⟩ := parts
            cases ih with
            | line h hrest => exact .line (.byte hc h) hrest
            | hungUp hhangup hinput =>
                subst hhangup hinput
                exact .line (.byte hc (.ended rfl)) (.hungUp rfl rfl)
            | waiting hhangup hinput hlast =>
                subst hhangup hinput
                have hmem : newline ∉ c :: last := by
                  simp only [List.mem_cons, not_or]
                  exact ⟨fun heq => hc heq.symm, hlast⟩
                exact .waiting rfl rfl hmem

theorem ahead_of_linesOf {hangup : Bool} {input : List (Option UInt8)} {lines : List (List UInt8)} {last : List UInt8}
    (h : linesOf hangup input = (lines, last)) : Ahead hangup input lines last := by
  have hahead := ahead_linesOf hangup input
  rwa [h] at hahead

/-- An input that is cut off and has no line is empty. -/
theorem linesOf_hangup {input : List (Option UInt8)} (h : (linesOf true input).1 = []) : input = [] := by
  cases input with
  | nil => rfl
  | cons received rest =>
      cases received with
      | none => cases h
      | some c =>
          simp only [linesOf] at h
          split at h
          · cases h
          · split at h
            · cases h
            · cases h

/-- The first line is what `readLine` takes, and the others are the lines of the rest. -/
theorem linesOf_cons {hangup : Bool} {input : List (Option UInt8)} {line last : List UInt8} {lines : List (List UInt8)}
    (h : linesOf hangup input = (line :: lines, last)) :
    ∃ rest, Line hangup input line rest ∧ linesOf hangup rest = (lines, last) := by
  induction input generalizing line lines with
  | nil => cases h
  | cons received rest ih =>
      cases received with
      | none =>
          cases h
          exact ⟨rest, .failed rest, rfl⟩
      | some c =>
          by_cases hc : c = newline
          · subst hc
            simp only [linesOf, if_true] at h
            cases h
            exact ⟨rest, .full rest, rfl⟩
          · simp only [linesOf, if_neg hc] at h
            rcases hparts : linesOf hangup rest with ⟨_ | ⟨line', lines'⟩, last'⟩
            · -- the bytes that are left end at the cut
              rw [hparts] at h
              cases hangup with
              | false => cases h
              | true =>
                  obtain rfl := linesOf_hangup (congrArg Prod.fst hparts)
                  cases hparts
                  cases h
                  exact ⟨[], .byte hc (.ended rfl), rfl⟩
            · rw [hparts] at h
              cases h
              obtain ⟨rest', hline, hrest⟩ := ih hparts
              exact ⟨rest', .byte hc hline, hrest⟩

/-! ### Reading a line -/

variable {s : ATInterface} {off : Nat} {line last : List UInt8} {rest : List (Option UInt8)}

/-- The state after a line was read. -/
def afterLine (s : ATInterface) (line : List UInt8) (rest : List (Option UInt8)) : ATInterface :=
  { s with input := rest, buf := s.buf.write 0 line }

/-- A byte that is not a newline. -/
theorem readTurn_byte {c : UInt8} {input : List (Option UInt8)} (hinput : s.input = some c :: input)
    (hc : c ≠ newline) (hoff : off < bufSize) :
    Evals (readTurn off) s (.again (off + 1)) { s with input, buf := s.buf.write off [c] } := by
  apply Ends.of_eq
  intro fuel
  simp [readTurn, bind_apply, recv, hinput, check_pos hoff, hc]

theorem readTurn_faults {c : UInt8} {input : List (Option UInt8)} (hinput : s.input = some c :: input)
    (hoff : bufSize ≤ off) : Ends (readTurn off) s .fault { s with input } := by
  apply Ends.of_eq
  intro fuel
  simp [readTurn, bind_apply, recv, hinput, check_neg (Nat.not_lt.mpr hoff)]

section Lines

variable {hangup : Bool} {input : List (Option UInt8)}

theorem Line.iterates (h : Line hangup input line rest) (hhangup : s.hangup = hangup)
    (hinput : s.input = input) (hfit : off + line.length ≤ bufSize) :
    ∃ result, Iterates readTurn off s (.done result)
      { s with input := rest, buf := s.buf.write off line } := by
  induction h generalizing s off with
  | full rest =>
      have hoff : off < bufSize := by
        simp only [List.length_singleton] at hfit
        omega
      refine ⟨some (off + 1), .stop (.of_eq fun fuel => ?_)⟩
      simp [readTurn, bind_apply, recv, hinput, check_pos hoff]
  | failed rest =>
      refine ⟨none, .stop (.of_eq fun fuel => ?_)⟩
      simp [readTurn, bind_apply, recv, hinput]
  | ended h =>
      refine ⟨none, .stop (.of_eq fun fuel => ?_)⟩
      obtain ⟨input, sHangup, sent, buf, response⟩ := s
      subst hinput hhangup
      change sHangup = true at h
      simp [readTurn, bind_apply, recv, h]
  | @byte c input rest line hc h ih =>
      simp only [List.length_cons] at hfit
      have hturn := readTurn_byte hinput hc (by omega : off < bufSize)
      obtain ⟨result, hrest⟩ := ih (s := { s with input, buf := s.buf.write off [c] })
        hhangup rfl (by omega : off + 1 + line.length ≤ bufSize)
      rw [Mem.write_cons] at hrest
      exact ⟨result, .again hturn hrest⟩

/-- A line that fits is laid over the buffer. -/
theorem Line.evals (h : Line s.hangup s.input line rest) (hfit : line.length ≤ bufSize) :
    ∃ result, Evals readLine s result (afterLine s line rest) := by
  obtain ⟨result, hrun⟩ := h.iterates rfl rfl (by omega : 0 + line.length ≤ bufSize)
  exact ⟨result, .loop hrun⟩

/-- Bytes that do not fit overrun the buffer, whatever follows them. -/
theorem overrun_iterates {bytes : List UInt8} {behind : List (Option UInt8)}
    (hinput : s.input = bytes.map some ++ behind) (hbytes : newline ∉ bytes.dropLast)
    (hoff : off ≤ bufSize) (hover : bufSize < off + bytes.length) :
    ∃ s', Iterates readTurn off s .fault s' := by
  induction bytes generalizing s off with
  | nil =>
      simp only [List.length_nil] at hover
      omega
  | cons c bytes ih =>
      by_cases hfull : off = bufSize
      · exact ⟨_, .fault (readTurn_faults hinput (by omega))⟩
      · simp only [List.length_cons] at hover
        cases bytes with
        | nil =>
            simp only [List.length_nil] at hover
            omega
        | cons d bytes =>
            rw [List.dropLast_cons_cons, List.mem_cons, not_or] at hbytes
            have hturn := readTurn_byte hinput (fun heq => hbytes.1 heq.symm) (by omega : off < bufSize)
            obtain ⟨s', hrest⟩ := ih (s := { s with
              input := (d :: bytes).map some ++ behind, buf := s.buf.write off [c] })
              rfl hbytes.2 (by omega : off + 1 ≤ bufSize) (by omega)
            exact ⟨s', .again hturn hrest⟩

theorem Line.bytes (h : Line hangup input line rest) :
    ∃ behind, input = line.map some ++ behind ∧ newline ∉ line.dropLast := by
  induction h with
  | full rest => exact ⟨rest, rfl, List.not_mem_nil⟩
  | failed rest => exact ⟨none :: rest, rfl, List.not_mem_nil⟩
  | ended => exact ⟨[], rfl, List.not_mem_nil⟩
  | @byte c input rest line hc _ ih =>
      obtain ⟨behind, rfl, hline⟩ := ih
      refine ⟨behind, rfl, ?_⟩
      cases line with
      | nil => exact List.not_mem_nil
      | cons d line =>
          rw [List.dropLast_cons_cons, List.mem_cons, not_or]
          exact ⟨fun heq => hc heq.symm, hline⟩

theorem Line.faults (h : Line s.hangup s.input line rest) (hover : bufSize < line.length) :
    Faults readLine s := by
  obtain ⟨behind, hinput, hline⟩ := h.bytes
  obtain ⟨s', hrun⟩ := overrun_iterates hinput hline (Nat.zero_le bufSize) (by omega)
  exact ⟨s', .loop hrun⟩

theorem waiting_faults (hinput : s.input = last.map some) (hlast : newline ∉ last)
    (hover : bufSize < last.length) : Faults readLine s := by
  have hmem : newline ∉ last.dropLast := fun hmem => hlast (List.dropLast_subset last hmem)
  have hinput : s.input = last.map some ++ [] := by rw [hinput, List.append_nil]
  obtain ⟨s', hrun⟩ := overrun_iterates hinput hmem (Nat.zero_le bufSize) (by omega)
  exact ⟨s', .loop hrun⟩

theorem waiting_stalls (hhangup : s.hangup = false) (hinput : s.input = last.map some)
    (hlast : newline ∉ last) (hfit : off + last.length ≤ bufSize) : Stalls readTurn off s := by
  induction last generalizing s off with
  | nil =>
      apply Stalls.here
      intro fuel
      rw [List.map_nil] at hinput
      simp [readTurn, bind_apply, recv, hinput, hhangup]
  | cons c last ih =>
      simp only [List.length_cons] at hfit
      rw [List.mem_cons, not_or] at hlast
      have hturn := readTurn_byte hinput (fun heq => hlast.1 heq.symm) (by omega : off < bufSize)
      exact .again hturn (ih hhangup rfl hlast.2 (by omega))

/-- A line that never ends keeps `readLine` waiting. -/
theorem waiting_blocks (hhangup : s.hangup = false) (hinput : s.input = last.map some)
    (hlast : newline ∉ last) (hfit : last.length ≤ bufSize) : Blocks readLine s :=
  .loop (waiting_stalls hhangup hinput hlast (by omega))

end Lines

/-! ### Reading lines up to a verdict -/

section Verdict

variable {α : Type} (verdict : Mem → Option α)

/-- The first of the lines that, laid over the buffer, gives a verdict: the verdict, the buffer and the
lines behind it. -/
def firstVerdict : Mem → List (List UInt8) → Option (α × Mem × List (List UInt8))
  | _, [] => none
  | buf, line :: lines =>
      match verdict (buf.write 0 line) with
      | some value => some (value, buf.write 0 line, lines)
      | none => firstVerdict (buf.write 0 line) lines

/-- Every line up to the first verdict fits the buffer. -/
def LinesFit : Mem → List (List UInt8) → List UInt8 → Prop
  | _, [], last => last.length ≤ bufSize
  | buf, line :: lines, last =>
      line.length ≤ bufSize ∧ (verdict (buf.write 0 line) = none → LinesFit (buf.write 0 line) lines last)

variable {verdict} {lines : List (List UInt8)}

theorem lineTurn_stop (h : Line s.hangup s.input line rest) (hfit : line.length ≤ bufSize) {value : α}
    (hverdict : verdict (s.buf.write 0 line) = some value) :
    Evals (lineTurn verdict ()) s (.stop value) (afterLine s line rest) := by
  obtain ⟨result, hread⟩ := h.evals hfit
  apply hread.bind
  apply Ends.of_eq
  intro fuel
  simp [bind_apply, afterLine, hverdict]

theorem lineTurn_again (h : Line s.hangup s.input line rest) (hfit : line.length ≤ bufSize)
    (hverdict : verdict (s.buf.write 0 line) = none) :
    Evals (lineTurn verdict ()) s (.again ()) (afterLine s line rest) := by
  obtain ⟨result, hread⟩ := h.evals hfit
  apply hread.bind
  apply Ends.of_eq
  intro fuel
  simp [bind_apply, afterLine, hverdict]

/-- The lines fit and one of them gives a verdict: the loop returns it. -/
theorem lines_evals (h : linesOf s.hangup s.input = (lines, last)) (hfit : LinesFit verdict s.buf lines last)
    {value : α} {buf : Mem} {lines' : List (List UInt8)}
    (hfirst : firstVerdict verdict s.buf lines = some (value, buf, lines')) :
    ∃ rest, linesOf s.hangup rest = (lines', last) ∧
      Evals (loop (lineTurn verdict) ()) s value { s with input := rest, buf } := by
  suffices ∃ rest, linesOf s.hangup rest = (lines', last) ∧
      Iterates (lineTurn verdict) () s (.done value) { s with input := rest, buf } by
    obtain ⟨rest, hrest, hrun⟩ := this
    exact ⟨rest, hrest, .loop hrun⟩
  induction lines generalizing s with
  | nil => cases hfirst
  | cons line lines ih =>
      obtain ⟨rest, hline, hrest⟩ := linesOf_cons h
      rw [firstVerdict] at hfirst
      cases hverdict : verdict (s.buf.write 0 line) with
      | some v =>
          rw [hverdict] at hfirst
          cases hfirst
          exact ⟨rest, hrest, .stop (lineTurn_stop hline hfit.1 hverdict)⟩
      | none =>
          rw [hverdict] at hfirst
          obtain ⟨rest', hlines, hrun⟩ := ih (s := afterLine s line rest) hrest (hfit.2 hverdict) hfirst
          exact ⟨rest', hlines, .again (lineTurn_again hline hfit.1 hverdict) hrun⟩

/-- The lines fit and none gives a verdict: the loop does not return. -/
theorem lines_block (h : Ahead s.hangup s.input lines last) (hfit : LinesFit verdict s.buf lines last)
    (hbuf : verdict s.buf = none) (hnone : firstVerdict verdict s.buf lines = none) :
    Blocks (loop (lineTurn verdict) ()) s := by
  apply Blocks.loop
  induction lines generalizing s with
  | nil =>
      cases h with
      | waiting hhangup hinput hlast =>
          exact .here (waiting_blocks hhangup hinput hlast hfit).bind
      | hungUp hhangup hinput =>
          -- every further line is empty and leaves the buffer alone
          refine .forever (fun _ t => t = s) rfl ?_
          rintro _ t rfl
          have hline : Line t.hangup t.input [] [] := by
            rw [hinput]
            exact .ended hhangup
          have hverdict : verdict (t.buf.write 0 []) = none := by simpa using hbuf
          have hturn := lineTurn_again hline (Nat.zero_le bufSize) hverdict
          have hsame : afterLine t [] [] = t := by
            rw [afterLine, Mem.write_nil, ← hinput]
          rw [hsame] at hturn
          exact ⟨(), t, hturn, rfl⟩
  | cons line lines ih =>
      cases h with
      | @line _ rest _ _ _ h hrest =>
          rw [firstVerdict] at hnone
          cases hverdict : verdict (s.buf.write 0 line) with
          | some v =>
              rw [hverdict] at hnone
              cases hnone
          | none =>
              rw [hverdict] at hnone
              exact .again (lineTurn_again h hfit.1 hverdict)
                (ih (s := afterLine s line rest) hrest (hfit.2 hverdict) hverdict hnone)

/-- A line before the first verdict that does not fit: the loop overruns the buffer. -/
theorem lines_fault (h : Ahead s.hangup s.input lines last) (hover : ¬LinesFit verdict s.buf lines last) :
    Faults (loop (lineTurn verdict) ()) s := by
  suffices ∃ s', Iterates (lineTurn verdict) () s .fault s' by
    obtain ⟨s', hrun⟩ := this
    exact ⟨s', .loop hrun⟩
  induction lines generalizing s with
  | nil =>
      rw [LinesFit, Nat.not_le] at hover
      cases h with
      | waiting hhangup hinput hlast =>
          obtain ⟨s', hrun⟩ := (waiting_faults hinput hlast hover).bind
          exact ⟨s', .fault hrun⟩
      | hungUp hhangup hinput => exact absurd hover (Nat.not_lt_zero _)
  | cons line lines ih =>
      cases h with
      | @line _ rest _ _ _ h hrest =>
          by_cases hfit : line.length ≤ bufSize
          · rw [LinesFit, not_and, Classical.not_imp] at hover
            obtain ⟨hverdict, hover⟩ := hover hfit
            obtain ⟨s', hrun⟩ := ih (s := afterLine s line rest) hrest hover
            exact ⟨s', .again (lineTurn_again h hfit hverdict) hrun⟩
          · obtain ⟨s', hrun⟩ := (h.faults (by omega)).bind
            exact ⟨s', .fault hrun⟩

end Verdict

end TrustOnboard.ATInterface
