import Mathlib.Tactic.Common

/-! A one-pass search for a pattern that starts afresh after every mismatch. It counts how much of the pattern it has
seen, and throws the count away at the first character that does not go on; the character itself is not looked at
again. So a text is taken apart into broken attempts, and an occurrence is found exactly if it begins where an attempt
does. -/

namespace ScanRestart

variable {α : Type} (pattern : List α)

/-- The pattern occurs at a place of the text. -/
def Occurs (text : List α) (place : Nat) : Prop := pattern <+: text.drop place

/-- The first place where the pattern occurs. -/
def Leftmost (text : List α) (place : Nat) : Prop :=
  Occurs pattern text place ∧ ∀ earlier < place, ¬Occurs pattern text earlier

variable {pattern}

theorem occurs_append (before rest : List α) : Occurs pattern (before ++ pattern ++ rest) before.length := by
  rw [Occurs, List.append_assoc, List.drop_left]
  exact List.prefix_append _ _

theorem Occurs.split {text : List α} {place : Nat} (h : Occurs pattern text place) :
    ∃ rest, text = text.take place ++ pattern ++ rest := by
  obtain ⟨rest, hrest⟩ := h
  refine ⟨rest, ?_⟩
  rw [List.append_assoc, hrest, List.take_append_drop]

theorem Occurs.le_length {text : List α} {place : Nat} (hne : pattern ≠ []) (h : Occurs pattern text place) :
    place + pattern.length ≤ text.length := by
  have hle := List.IsPrefix.length_le h
  have hpos : 0 < pattern.length := List.length_pos_iff.mpr hne
  rw [List.length_drop] at hle
  omega

theorem Leftmost.unique {text : List α} {place other : Nat} (h : Leftmost pattern text place)
    (h' : Leftmost pattern text other) : place = other := by
  rcases Nat.lt_trichotomy place other with hlt | heq | hgt
  · exact absurd h.1 (h'.2 place hlt)
  · exact heq
  · exact absurd h'.1 (h.2 other hgt)

theorem exists_leftmost {text : List α} {place : Nat} (h : Occurs pattern text place) :
    ∃ first, Leftmost pattern text first := by
  induction place using Nat.strongRecOn with
  | ind place ih =>
      by_cases hearlier : ∃ earlier < place, Occurs pattern text earlier
      · obtain ⟨earlier, hlt, hoccurs⟩ := hearlier
        exact ih earlier hlt hoccurs
      · exact ⟨place, h, fun earlier hlt hoccurs => hearlier ⟨earlier, hlt, hoccurs⟩⟩

/-! ### The search -/

variable [DecidableEq α] (pattern)

/-- The search with `matched` characters of the pattern seen: how many characters it takes to the end of the first
occurrence it finds. -/
def scan : Nat → List α → Option Nat
  | _, [] => none
  | matched, c :: text =>
      if pattern[matched]? = some c then
        if matched + 1 = pattern.length then some 1
        else (scan (matched + 1) text).map (· + 1)
      else
        (scan 0 text).map (· + 1)

/-- Broken attempts one after the other: each is a beginning of the pattern and a character that does not go on. -/
inductive Broken : List α → Prop
  | nil : Broken []
  | attempt {matched : Nat} {c : α} {text : List α} (hlt : matched < pattern.length) (hc : pattern[matched]? ≠ some c)
      (h : Broken text) : Broken (pattern.take matched ++ c :: text)

variable {pattern}

theorem scan_goes_on {matched : Nat} {c : α} {text : List α} (hc : pattern[matched]? = some c)
    (hlast : matched + 1 ≠ pattern.length) :
    scan pattern matched (c :: text) = (scan pattern (matched + 1) text).map (· + 1) := by
  rw [scan, if_pos hc, if_neg hlast]

theorem scan_breaks {matched : Nat} {c : α} {text : List α} (hc : pattern[matched]? ≠ some c) :
    scan pattern matched (c :: text) = (scan pattern 0 text).map (· + 1) := by
  rw [scan, if_neg hc]

/-- What was seen of the pattern may as well stand in front of the text. -/
theorem scan_take {matched : Nat} (hlt : matched < pattern.length) (text : List α) :
    scan pattern 0 (pattern.take matched ++ text) = (scan pattern matched text).map (· + matched) := by
  induction matched generalizing text with
  | zero => simp
  | succ matched ih =>
      have hc : pattern[matched]? = some (pattern[matched]) := List.getElem?_eq_getElem (by omega)
      rw [List.take_add_one, hc, Option.toList_some, List.append_assoc, List.singleton_append, ih (by omega),
        scan_goes_on hc (by omega), Option.map_map]
      congr 1
      funext n
      simp only [Function.comp_apply]
      omega

theorem scan_pattern (hne : pattern ≠ []) (text : List α) : scan pattern 0 (pattern ++ text) = some pattern.length := by
  have hpos : 0 < pattern.length := List.length_pos_iff.mpr hne
  have hlast : pattern[pattern.length - 1]? = some (pattern[pattern.length - 1]) := List.getElem?_eq_getElem (by omega)
  have hsplit : pattern.take (pattern.length - 1) ++ [pattern[pattern.length - 1]] = pattern := by
    rw [← Option.toList_some, ← hlast, ← List.take_add_one, Nat.sub_add_cancel hpos, List.take_length]
  have htext : pattern ++ text = pattern.take (pattern.length - 1) ++ pattern[pattern.length - 1] :: text := by
    rw [← List.singleton_append, ← List.append_assoc, hsplit]
  rw [htext, scan_take (by omega), scan, if_pos hlast, if_pos (by omega), Option.map_some]
  congr 1
  omega

/-- Broken attempts are passed over. -/
theorem Broken.scan {before : List α} (h : Broken pattern before) (text : List α) :
    ScanRestart.scan pattern 0 (before ++ text) = (ScanRestart.scan pattern 0 text).map (· + before.length) := by
  induction h with
  | nil => simp
  | @attempt matched c rest hlt hc _ ih =>
      rw [List.append_assoc, List.cons_append, scan_take hlt, scan_breaks hc, ih, Option.map_map, Option.map_map]
      congr 1
      funext n
      simp only [Function.comp_apply, List.length_append, List.length_take, List.length_cons]
      omega

/-- **What the search finds stands behind broken attempts.** -/
theorem scan_some {matched : Nat} (hlt : matched < pattern.length) {text : List α} {n : Nat}
    (h : scan pattern matched text = some n) :
    ∃ before rest, pattern.take matched ++ text = before ++ pattern ++ rest ∧ Broken pattern before ∧
      n + matched = before.length + pattern.length := by
  induction text generalizing matched n with
  | nil => cases h
  | cons c text ih =>
      by_cases hc : pattern[matched]? = some c
      · have hsplit : pattern.take matched ++ c :: text = pattern.take (matched + 1) ++ text := by
          rw [List.take_add_one, hc, Option.toList_some, List.append_assoc, List.singleton_append]
        by_cases hlast : matched + 1 = pattern.length
        · rw [scan, if_pos hc, if_pos hlast] at h
          cases h
          refine ⟨[], text, ?_, .nil, ?_⟩
          · rw [hsplit, hlast, List.take_length, List.nil_append]
          · rw [List.length_nil]
            omega
        · rw [scan_goes_on hc hlast] at h
          obtain ⟨m, hm, rfl⟩ := Option.map_eq_some_iff.mp h
          obtain ⟨before, rest, htext, hbroken, hlen⟩ := ih (by omega) hm
          exact ⟨before, rest, hsplit.trans htext, hbroken, by omega⟩
      · rw [scan_breaks hc] at h
        obtain ⟨m, hm, rfl⟩ := Option.map_eq_some_iff.mp h
        obtain ⟨before, rest, htext, hbroken, hlen⟩ := ih (by omega) hm
        rw [List.take_zero, List.nil_append] at htext
        refine ⟨pattern.take matched ++ c :: before, rest, ?_, .attempt hlt hc hbroken, ?_⟩
        · rw [htext]
          simp
        · simp only [List.length_append, List.length_take, List.length_cons]
          omega

/-- The search finds an occurrence behind broken attempts. -/
theorem scan_of_broken {text : List α} {place : Nat} (hne : pattern ≠ []) (h : Occurs pattern text place)
    (hbroken : Broken pattern (text.take place)) : scan pattern 0 text = some (place + pattern.length) := by
  obtain ⟨rest, hrest⟩ := h.split
  have hle := h.le_length hne
  rw [hrest, List.append_assoc, hbroken.scan, scan_pattern hne, Option.map_some, List.length_take,
    Nat.min_eq_left (by omega), Nat.add_comm]

/-- **The search answers with the first occurrence** exactly if that stands behind broken attempts, or at the end of the
text, where finding nothing gives the same answer. -/
theorem scan_leftmost_iff {text : List α} {place : Nat} (hne : pattern ≠ []) (h : Leftmost pattern text place) :
    (scan pattern 0 text).getD text.length = place + pattern.length ↔
      Broken pattern (text.take place) ∨ place + pattern.length = text.length := by
  have hpos : 0 < pattern.length := List.length_pos_iff.mpr hne
  constructor
  · intro hend
    cases hscan : scan pattern 0 text with
    | none =>
        rw [hscan, Option.getD_none] at hend
        exact .inr hend.symm
    | some n =>
        rw [hscan, Option.getD_some] at hend
        obtain ⟨before, rest, htext, hbroken, hlen⟩ := scan_some hpos hscan
        have hplace : before.length = place := by omega
        rw [List.take_zero, List.nil_append] at htext
        rw [htext, ← hplace, List.append_assoc, List.take_left]
        exact .inl hbroken
  · rintro (hbroken | hend)
    · rw [scan_of_broken hne h.1 hbroken, Option.getD_some]
    · cases hscan : scan pattern 0 text with
      | none => rw [Option.getD_none, hend]
      | some n =>
          -- what is found is no later than the end, and no earlier than the first occurrence
          obtain ⟨before, rest, htext, _, hlen⟩ := scan_some hpos hscan
          rw [List.take_zero, List.nil_append] at htext
          have hoccurs : Occurs pattern text before.length := by
            rw [htext]
            exact occurs_append before rest
          have hle := hoccurs.le_length hne
          have hfirst : place ≤ before.length := by
            by_contra hlt
            exact h.2 before.length (by omega) hoccurs
          rw [Option.getD_some]
          omega

theorem scan_none {text : List α} (hne : pattern ≠ []) (h : ∀ place, ¬Occurs pattern text place) :
    scan pattern 0 text = none := by
  cases hscan : scan pattern 0 text with
  | none => rfl
  | some n =>
      obtain ⟨before, rest, htext, _⟩ := scan_some (List.length_pos_iff.mpr hne) hscan
      rw [List.take_zero, List.nil_append] at htext
      rw [htext] at h
      exact absurd (occurs_append before rest) (h before.length)

end ScanRestart
