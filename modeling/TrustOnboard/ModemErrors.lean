import Mathlib.Data.List.Induction
import TrustOnboard.ModemSafety

/-! Serial failures and errors of the modem. The loops of `sendATCSIM` look at the line buffer only: a `recv` that fails
leaves a line unfinished, on which the next one is laid, and behind the response line an error is a line like any
other. -/

namespace TrustOnboard.ATInterface

open Exec

/-- A response line and, as the last one, a final line, both received up to their newline. -/
def Answered (lines : List (List UInt8)) : Prop :=
  ∃ before csim between, lines = before ++ csim :: (between ++ [okText]) ∧ csimText <+: csim ∧ newline ∈ csim

/-- The modem reports an error and has not answered before. -/
def ReportsError (lines : List (List UInt8)) : Prop :=
  ∃ before after, lines = before ++ errorText :: after ∧ ∀ front back, before = front ++ back → ¬Answered front

/-- A serial line that fails for good and an error of the modem end a call, which returns true only if it has received a
response line and a final line. -/
structure EndsExchange (charSigned : Bool) (apdu : List UInt8) (s : ATInterface) : Prop where
  ends : s.hangup = true ∨ ReportsError (linesOf s.hangup s.input).1 →
    ∃ result s', Evals (sendATCSIM charSigned apdu) s result s' ∧
      (ReportsError (linesOf s.hangup s.input).1 → result = none)
  sound : ∀ fuel len s', sendATCSIM charSigned apdu fuel s = (.done (some len), s') →
    ∃ taken, (linesOf s.hangup s.input).1 = taken ++ (linesOf s.hangup s'.input).1 ∧ Answered taken

/-! ### What the lines show -/

/-- The byte at a place of the line buffer: that of the last line which reaches so far. -/
def shownAt (lines : List (List UInt8)) (j : Nat) : Option UInt8 := lines.reverse.findSome? fun received => received[j]?

/-- Behind these lines the line buffer begins with a text. -/
def Shows (lines : List (List UInt8)) (text : List UInt8) : Prop := ∀ j < text.length, shownAt lines j = text[j]?

instance (lines : List (List UInt8)) (text : List UInt8) : Decidable (Shows lines text) :=
  inferInstanceAs (Decidable (∀ j < _, _))

/-- The last of the lines was received up to its newline. -/
def Finished (lines : List (List UInt8)) : Prop := ∃ line ∈ lines.getLast?, newline ∈ line

/-- An error is shown behind some lines, and a response behind none of them. -/
def ErrorFirst (lines : List (List UInt8)) : Prop :=
  ∃ taken, taken <+: lines ∧ Shows taken errorText ∧ ∀ earlier, earlier <+: taken → ¬Shows earlier csimText

/-- A response is shown behind the lines `csim` for the first time, and no error before it. -/
structure ResponseFirst (lines csim : List (List UInt8)) : Prop where
  within : csim <+: lines
  response : Shows csim csimText
  no_earlier : ∀ earlier, earlier <+: csim → Shows earlier csimText → earlier = csim
  no_error : ∀ earlier, earlier <+: csim → ¬Shows earlier errorText

/-- A response is shown first, and a final line behind the lines `taken` for the first time after it. -/
structure AnswerFirst (lines csim taken : List (List UInt8)) : Prop extends ResponseFirst lines csim where
  behind : csim <+: taken
  taken_within : taken <+: lines
  final : Shows taken okText
  first : ∀ earlier, csim <+: earlier → earlier <+: taken → Shows earlier okText → earlier = taken

/-- The final line was received to its end, and so was a line behind which the response is shown. -/
def Received (csim taken : List (List UInt8)) : Prop :=
  Finished taken ∧ ∃ shown, csim <+: shown ∧ shown <+: taken ∧ Shows shown csimText ∧ Finished shown

/-- An error is shown first, or an answer is complete. -/
def Decided (lines : List (List UInt8)) : Prop := ErrorFirst lines ∨ ∃ csim taken, AnswerFirst lines csim taken

/-- Everything that is read fits: the command, each line until it is decided how the call ends, and the response as it is
shown. -/
structure ReadsFit (charSigned : Bool) (apdu : List UInt8) (lines : List (List UInt8)) (last : List UInt8) : Prop where
  command : apdu.length ≤ 260
  line : ∀ front line, front ++ [line] <+: lines → ¬Decided front → line.length ≤ bufSize
  last : ¬Decided lines → last.length ≤ bufSize
  response : ∀ csim, ResponseFirst lines csim → ResponseFits charSigned fun j => (shownAt csim j).getD 0

section Shown

variable {lines csim taken before behind : List (List UInt8)} {text : List UInt8}

theorem shownAt_concat (lines : List (List UInt8)) (last : List UInt8) (j : Nat) :
    shownAt (lines ++ [last]) j = last[j]?.or (shownAt lines j) := by
  simp only [shownAt, List.reverse_append, List.reverse_singleton, List.singleton_append, List.findSome?_cons]
  cases last[j]? with
  | none => rfl
  | some c => rfl

/-- The line buffer behind some lines. -/
def laid (lines : List (List UInt8)) : Mem := lines.foldl (fun buf line => buf.write 0 line) Mem.zero

theorem laid_concat (lines : List (List UInt8)) (line : List UInt8) :
    laid (lines ++ [line]) = (laid lines).write 0 line := by
  rw [laid, List.foldl_append]
  rfl

theorem laid_apply (lines : List (List UInt8)) (j : Nat) : laid lines j = (shownAt lines j).getD 0 := by
  induction lines using List.reverseRecOn with
  | nil => rfl
  | append_singleton lines line ih =>
      rw [laid_concat, shownAt_concat]
      by_cases hj : j < line.length
      · rw [Mem.write_of_mem (Nat.zero_le j) (by omega), Nat.sub_zero, List.getD_eq_getElem?_getD,
          List.getElem?_eq_getElem hj]
        rfl
      · rw [Mem.write_of_ge (by omega), ih, List.getElem?_eq_none (Nat.not_lt.mp hj)]
        rfl

theorem laid_eq (lines : List (List UInt8)) : laid lines = fun j => (shownAt lines j).getD 0 := funext (laid_apply lines)

/-- A text without zero bytes stands in the buffer exactly if the lines show it. -/
theorem startsWith_laid (htext : 0 ∉ text) : startsWith (laid lines) text = true ↔ Shows lines text := by
  rw [startsWith, decide_eq_true_iff]
  constructor
  · intro heq j hj
    have hplace : laid lines j = text.getD j 0 := by
      have hslice : ((laid lines).slice 0 text.length).getD j 0 = laid lines (0 + j) := Mem.slice_getD (laid lines) hj
      rw [heq, Nat.zero_add] at hslice
      exact hslice.symm
    rw [laid_apply, List.getD_eq_getElem?_getD, List.getElem?_eq_getElem hj] at hplace
    rw [List.getElem?_eq_getElem hj]
    cases hshown : shownAt lines j with
    | some c =>
        rw [hshown] at hplace
        exact congrArg some hplace
    | none =>
        -- where no line reaches the buffer is zero
        rw [hshown] at hplace
        have hzero : (0 : UInt8) = text[j] := hplace
        exact (htext (hzero ▸ List.getElem_mem hj)).elim
  · intro hshows
    apply List.ext_getElem
    · exact Mem.slice_length _ _ _
    · intro j _ hj
      have hplace := hshows j hj
      rw [List.getElem?_eq_getElem hj] at hplace
      simp only [Mem.slice, List.getElem_map, List.getElem_range, Nat.zero_add, laid_apply, hplace]
      rfl

theorem Shows.head {c : UInt8} (h : Shows lines (c :: text)) : shownAt lines 0 = some c := h 0 (Nat.zero_lt_succ _)

theorem Shows.csim_not_error (h : Shows lines csimText) : ¬Shows lines errorText := fun herror =>
  absurd (h.head.symm.trans herror.head) (by decide)

theorem Shows.csim_not_ok (h : Shows lines csimText) : ¬Shows lines okText := fun hok =>
  absurd (h.head.symm.trans hok.head) (by decide)

theorem Shows.ne_nil {c : UInt8} (h : Shows lines (c :: text)) : lines ≠ [] := by
  rintro rfl
  cases h.head

/-- A line that begins with a text shows it. -/
theorem shows_of_prefix {line : List UInt8} (h : text <+: line) : Shows (lines ++ [line]) text := by
  intro j hj
  rw [shownAt_concat, (List.prefix_iff_getElem?.mp h) j hj, List.getElem?_eq_getElem hj]
  rfl

/-! ### The tests of the loops -/

theorem responseVerdict_laid : responseVerdict (laid lines) =
    if Shows lines errorText then some false else if Shows lines csimText then some true else none := by
  have herror : startsWith (laid lines) errorText = true ↔ Shows lines errorText := startsWith_laid (by decide)
  have hcsim : startsWith (laid lines) csimText = true ↔ Shows lines csimText := startsWith_laid (by decide)
  rw [responseVerdict]
  simp only [herror, hcsim]

/-- An empty line buffer is no verdict. -/
theorem responseVerdict_nil : responseVerdict (laid []) = none := by decide

theorem okVerdict_laid : okVerdict (laid lines) = if Shows lines okText then some () else none := by
  have hok : startsWith (laid lines) okText = true ↔ Shows lines okText := startsWith_laid (by decide)
  rw [okVerdict]
  simp only [hok]

theorem responseVerdict_error : responseVerdict (laid lines) = some false ↔ Shows lines errorText := by
  rw [responseVerdict_laid]
  split <;> rename_i herror
  · exact iff_of_true rfl herror
  · split <;> simp [herror]

theorem responseVerdict_response : responseVerdict (laid lines) = some true ↔ Shows lines csimText := by
  rw [responseVerdict_laid]
  split <;> rename_i herror
  · exact iff_of_false (by simp) fun hcsim => hcsim.csim_not_error herror
  · split <;> simp_all

theorem responseVerdict_none :
    responseVerdict (laid lines) = none ↔ ¬Shows lines errorText ∧ ¬Shows lines csimText := by
  rw [responseVerdict_laid]
  split
  · simp_all
  · split <;> simp_all

theorem okVerdict_some {value : Unit} : okVerdict (laid lines) = some value ↔ Shows lines okText := by
  rw [okVerdict_laid]
  split <;> simp_all

theorem okVerdict_none : okVerdict (laid lines) = none ↔ ¬Shows lines okText := by
  rw [okVerdict_laid]
  split <;> simp_all

section Verdict

variable {α : Type} {verdict : Mem → Option α}

/-- What is behind some lines is nothing, or the next line and then others. -/
theorem prefix_cases {front : List (List UInt8)} {next : List UInt8} (hbefore : before <+: front)
    (hfront : front <+: before ++ next :: lines) : front = before ∨ before ++ [next] <+: front := by
  obtain ⟨more, rfl⟩ := hbefore
  rw [List.prefix_append_right_inj] at hfront
  obtain rfl | ⟨rest, rfl, _⟩ := List.prefix_cons_iff.mp hfront
  · exact .inl (List.append_nil _)
  · exact .inr ⟨rest, by simp⟩

/-- A verdict is given behind some more lines, and behind fewer there is none. -/
theorem firstVerdict_taken {value : α} {buf : Mem} (hstart : verdict (laid before) = none)
    (h : firstVerdict verdict (laid before) lines = some (value, buf, behind)) :
    ∃ taken, before <+: taken ∧ before ++ lines = taken ++ behind ∧ buf = laid taken ∧
      verdict (laid taken) = some value ∧
      ∀ earlier, before <+: earlier → earlier <+: taken → earlier ≠ taken → verdict (laid earlier) = none := by
  induction lines generalizing before with
  | nil => cases h
  | cons line lines ih =>
      rw [firstVerdict, ← laid_concat] at h
      cases hverdict : verdict (laid (before ++ [line])) with
      | some v =>
          rw [hverdict] at h
          cases h
          refine ⟨before ++ [line], List.prefix_append _ _, by simp, rfl, hverdict, ?_⟩
          intro earlier hbefore hearlier hne
          obtain rfl | hlong := prefix_cases hbefore hearlier
          · exact hstart
          · exact (hne (hearlier.eq_of_length_le hlong.length_le)).elim
      | none =>
          rw [hverdict] at h
          obtain ⟨taken, hprefix, heq, hbuf, hvalue, hnone⟩ := ih hverdict h
          refine ⟨taken, (List.prefix_append before [line]).trans hprefix, by rw [← heq]; simp, hbuf, hvalue, ?_⟩
          intro earlier hbefore hearlier hne
          have hwithin : earlier <+: before ++ line :: lines := by
            rw [show before ++ line :: lines = before ++ [line] ++ lines by simp, heq]
            exact hearlier.trans (List.prefix_append taken behind)
          obtain rfl | hlong := prefix_cases hbefore hwithin
          · exact hstart
          · exact hnone earlier hlong hearlier hne

/-- No verdict is given behind any lines. -/
theorem firstVerdict_none (hstart : verdict (laid before) = none)
    (h : firstVerdict verdict (laid before) lines = none) :
    ∀ taken, before <+: taken → taken <+: before ++ lines → verdict (laid taken) = none := by
  induction lines generalizing before with
  | nil =>
      intro taken hbefore htaken
      rw [List.append_nil] at htaken
      rw [htaken.eq_of_length_le hbefore.length_le]
      exact hstart
  | cons line lines ih =>
      rw [firstVerdict, ← laid_concat] at h
      cases hverdict : verdict (laid (before ++ [line])) with
      | some v =>
          rw [hverdict] at h
          cases h
      | none =>
          rw [hverdict] at h
          intro taken hbefore htaken
          obtain rfl | hlong := prefix_cases hbefore htaken
          · exact hstart
          · exact ih hverdict h taken hlong (by rwa [List.append_assoc])

/-- Lines fit up to the first verdict if each one does that no verdict is given before. -/
theorem linesFit_iff (hstart : verdict (laid before) = none) (lines : List (List UInt8)) (last : List UInt8) :
    LinesFit verdict (laid before) lines last ↔
      (∀ front line, before <+: front → front ++ [line] <+: before ++ lines →
        (∀ earlier, before <+: earlier → earlier <+: front → verdict (laid earlier) = none) → line.length ≤ bufSize) ∧
      ((∀ earlier, before <+: earlier → earlier <+: before ++ lines → verdict (laid earlier) = none) →
        last.length ≤ bufSize) := by
  induction lines generalizing before with
  | nil =>
      rw [LinesFit, List.append_nil]
      constructor
      · intro hlast
        refine ⟨fun front line hbefore hfront _ => ?_, fun _ => hlast⟩
        -- no line is left
        have hshort := hbefore.length_le
        have hlong := hfront.length_le
        rw [List.length_append, List.length_singleton] at hlong
        omega
      · rintro ⟨_, hlast⟩
        refine hlast fun earlier hbefore hearlier => ?_
        rw [hearlier.eq_of_length_le hbefore.length_le]
        exact hstart
  | cons next lines ih =>
      have hsplit : before ++ next :: lines = before ++ [next] ++ lines := by simp
      have hmore : before <+: before ++ [next] := List.prefix_append _ _
      rw [LinesFit, ← laid_concat]
      constructor
      · rintro ⟨hnext, hrest⟩
        constructor
        · intro front line hbefore hfront hnone
          obtain rfl | hlong := prefix_cases hbefore ((List.prefix_append front [line]).trans hfront)
          · rw [List.prefix_append_right_inj, List.cons_prefix_cons] at hfront
            exact hfront.1 ▸ hnext
          · have hverdict := hnone _ hmore hlong
            exact ((ih hverdict).mp (hrest hverdict)).1 front line hlong (hsplit ▸ hfront) fun earlier hfrom =>
              hnone earlier (hmore.trans hfrom)
        · intro hnone
          have hverdict := hnone _ hmore ⟨lines, hsplit.symm⟩
          exact ((ih hverdict).mp (hrest hverdict)).2 fun earlier hfrom hearlier =>
            hnone earlier (hmore.trans hfrom) (hsplit ▸ hearlier)
      · rintro ⟨hlines, hlast⟩
        refine ⟨hlines before next List.prefix_rfl ⟨lines, hsplit.symm⟩ fun earlier hbefore hearlier => ?_,
          fun hverdict => (ih hverdict).mpr ⟨fun front line hlong hfront hnone => ?_, fun hnone => ?_⟩⟩
        · rw [hearlier.eq_of_length_le hbefore.length_le]
          exact hstart
        · rw [← hsplit] at hfront
          refine hlines front line (hmore.trans hlong) hfront fun earlier hbefore hearlier => ?_
          obtain rfl | hfrom := prefix_cases hbefore (hearlier.trans ((List.prefix_append front [line]).trans hfront))
          · exact hstart
          · exact hnone earlier hfrom hearlier
        · refine hlast fun earlier hbefore hearlier => ?_
          obtain rfl | hfrom := prefix_cases hbefore hearlier
          · exact hstart
          · exact hnone earlier hfrom (hsplit ▸ hearlier)

end Verdict

/-- The first loop gives up where an error is shown first. -/
theorem errorFirst_of_verdict {buf : Mem}
    (h : firstVerdict responseVerdict Mem.zero lines = some (false, buf, behind)) : ErrorFirst lines := by
  obtain ⟨taken, _, heq, _, hvalue, hnone⟩ := firstVerdict_taken responseVerdict_nil h
  have herror := responseVerdict_error.mp hvalue
  refine ⟨taken, ⟨behind, heq.symm⟩, herror, fun earlier hearlier hcsim => ?_⟩
  by_cases hsame : earlier = taken
  · subst hsame
    exact hcsim.csim_not_error herror
  · exact (responseVerdict_none.mp (hnone earlier List.nil_prefix hearlier hsame)).2 hcsim

/-- It goes on to the response where a response is shown first. -/
theorem responseFirst_of_verdict {buf : Mem}
    (h : firstVerdict responseVerdict Mem.zero lines = some (true, buf, behind)) :
    ∃ csim, ResponseFirst lines csim ∧ lines = csim ++ behind ∧ buf = laid csim := by
  obtain ⟨csim, _, heq, hbuf, hvalue, hnone⟩ := firstVerdict_taken responseVerdict_nil h
  have hcsim := responseVerdict_response.mp hvalue
  refine ⟨csim, ⟨⟨behind, heq.symm⟩, hcsim, ?_, ?_⟩, heq, hbuf⟩
  · intro earlier hearlier hshows
    by_contra hne
    exact (responseVerdict_none.mp (hnone earlier List.nil_prefix hearlier hne)).2 hshows
  · intro earlier hearlier herror
    by_cases hsame : earlier = csim
    · subst hsame
      exact hcsim.csim_not_error herror
    · exact (responseVerdict_none.mp (hnone earlier List.nil_prefix hearlier hsame)).1 herror

/-- The second loop ends where a final line is shown. -/
theorem ResponseFirst.answerFirst (hcsim : ResponseFirst lines csim) (hlines : lines = csim ++ behind) {buf : Mem}
    {behind' : List (List UInt8)} (h : firstVerdict okVerdict (laid csim) behind = some ((), buf, behind')) :
    ∃ taken, AnswerFirst lines csim taken ∧ lines = taken ++ behind' := by
  obtain ⟨taken, hbehind, heq, _, hvalue, hnone⟩ := firstVerdict_taken (okVerdict_none.mpr hcsim.response.csim_not_ok) h
  rw [← hlines] at heq
  refine ⟨taken, ⟨hcsim, hbehind, ⟨behind', heq.symm⟩, okVerdict_some.mp hvalue, ?_⟩, heq⟩
  intro earlier hearlier htaken hok
  by_contra hne
  exact okVerdict_none.mp (hnone earlier hearlier htaken hne) hok

theorem ResponseFirst.unique {csim' : List (List UInt8)} (h : ResponseFirst lines csim)
    (h' : ResponseFirst lines csim') : csim = csim' := by
  obtain hprefix | hprefix := List.prefix_or_prefix_of_prefix h.within h'.within
  · exact h'.no_earlier csim hprefix h.response
  · exact (h.no_earlier csim' hprefix h'.response).symm

theorem ResponseFirst.not_errorFirst (h : ResponseFirst lines csim) : ¬ErrorFirst lines := by
  rintro ⟨failed, hwithin, herror, hnone⟩
  obtain hprefix | hprefix := List.prefix_or_prefix_of_prefix h.within hwithin
  · exact hnone csim hprefix h.response
  · exact h.no_error failed hprefix herror

/-- There is one place where the answer is complete. -/
theorem AnswerFirst.unique {csim' taken' : List (List UInt8)} (h : AnswerFirst lines csim taken)
    (h' : AnswerFirst lines csim' taken') : csim = csim' ∧ taken = taken' := by
  obtain rfl := h.toResponseFirst.unique h'.toResponseFirst
  refine ⟨rfl, ?_⟩
  obtain hprefix | hprefix := List.prefix_or_prefix_of_prefix h.taken_within h'.taken_within
  · exact h'.first taken h.behind hprefix h.final
  · exact (h.first taken' h'.behind hprefix h'.final).symm

/-- Without a verdict neither an error nor a response is shown. -/
theorem nothing_shown (h : firstVerdict responseVerdict Mem.zero lines = none) (htaken : taken <+: lines) :
    ¬Shows taken errorText ∧ ¬Shows taken csimText :=
  responseVerdict_none.mp (firstVerdict_none responseVerdict_nil h taken List.nil_prefix htaken)

/-- Without a verdict of the second loop there is no answer. -/
theorem ResponseFirst.unfinished (hcsim : ResponseFirst lines csim) (hlines : lines = csim ++ behind)
    (h : firstVerdict okVerdict (laid csim) behind = none) {csim' : List (List UInt8)} :
    ¬AnswerFirst lines csim' taken := by
  intro hanswer
  obtain rfl := hcsim.unique hanswer.toResponseFirst
  have hwithin : taken <+: csim ++ behind := hlines ▸ hanswer.taken_within
  exact okVerdict_none.mp (firstVerdict_none (okVerdict_none.mpr hcsim.response.csim_not_ok) h taken hanswer.behind
    hwithin) hanswer.final

/-! ### What is read -/

/-- The first loop ends at the response. -/
theorem ResponseFirst.firstVerdict_eq (h : ResponseFirst lines csim) :
    ∃ behind, lines = csim ++ behind ∧ firstVerdict responseVerdict Mem.zero lines = some (true, laid csim, behind) := by
  cases hfirst : firstVerdict responseVerdict Mem.zero lines with
  | none => exact absurd h.response (nothing_shown hfirst h.within).2
  | some found =>
      obtain ⟨ok, buf, behind⟩ := found
      cases ok with
      | false => exact absurd (errorFirst_of_verdict hfirst) h.not_errorFirst
      | true =>
          obtain ⟨csim', h', hlines, rfl⟩ := responseFirst_of_verdict hfirst
          obtain rfl := h.unique h'
          exact ⟨behind, hlines, rfl⟩

/-- Nothing is decided where nothing is shown. -/
theorem undecided_of_nothing (h : ∀ earlier, earlier <+: lines → responseVerdict (laid earlier) = none) :
    ¬Decided lines := by
  rintro (⟨failed, hwithin, herror, _⟩ | ⟨csim, taken, hanswer⟩)
  · exact (responseVerdict_none.mp (h failed hwithin)).1 herror
  · exact (responseVerdict_none.mp (h csim hanswer.within)).2 hanswer.response

/-- Where nothing is decided, nothing is shown yet, or a response is. -/
theorem undecided_cases (h : ¬Decided lines) :
    (∀ earlier, earlier <+: lines → responseVerdict (laid earlier) = none) ∨ ∃ csim, ResponseFirst lines csim := by
  cases hfirst : firstVerdict responseVerdict Mem.zero lines with
  | none => exact .inl fun earlier hearlier => responseVerdict_none.mpr (nothing_shown hfirst hearlier)
  | some found =>
      obtain ⟨ok, buf, behind⟩ := found
      cases ok with
      | false => exact absurd (.inl (errorFirst_of_verdict hfirst)) h
      | true =>
          obtain ⟨csim, hcsim, _⟩ := responseFirst_of_verdict hfirst
          exact .inr ⟨csim, hcsim⟩

/-- Behind a response nothing is decided until a final line is shown. -/
theorem ResponseFirst.undecided_iff (h : ResponseFirst lines csim) :
    ¬Decided lines ↔ ∀ earlier, csim <+: earlier → earlier <+: lines → okVerdict (laid earlier) = none := by
  constructor
  · intro hnot earlier hfrom hwithin
    obtain ⟨behind, hlines, _⟩ := h.firstVerdict_eq
    cases hsecond : firstVerdict okVerdict (laid csim) behind with
    | none =>
        exact firstVerdict_none (okVerdict_none.mpr h.response.csim_not_ok) hsecond earlier hfrom (hlines ▸ hwithin)
    | some found =>
        obtain ⟨taken, hanswer, _⟩ := h.answerFirst hlines hsecond
        exact absurd (.inr ⟨csim, taken, hanswer⟩) hnot
  · rintro hnone (herror | ⟨csim', taken, hanswer⟩)
    · exact h.not_errorFirst herror
    · obtain rfl := h.unique hanswer.toResponseFirst
      exact okVerdict_none.mp (hnone taken hanswer.behind hanswer.taken_within) hanswer.final

/-- What the loops read fits exactly if the lines do until it is decided how the call ends. -/
theorem exchangeFits_iff {charSigned : Bool} {apdu last : List UInt8} :
    ExchangeFits charSigned apdu lines last ↔ ReadsFit charSigned apdu lines last := by
  have hfirst := linesFit_iff responseVerdict_nil lines last
  have hsecond : ∀ {lines csim : List (List UInt8)}, ResponseFirst lines csim → okVerdict (laid csim) = none :=
    fun h => okVerdict_none.mpr h.response.csim_not_ok
  constructor
  · rintro ⟨hcommand, hlines, hresponse⟩
    obtain ⟨hline, hlast⟩ := hfirst.mp hlines
    have hbehind : ∀ csim, ResponseFirst lines csim → ∃ behind, lines = csim ++ behind ∧
        ResponseFits charSigned (laid csim) ∧ LinesFit okVerdict (laid csim) behind last := by
      intro csim hcsim
      obtain ⟨behind, hsplit, heq⟩ := hcsim.firstVerdict_eq
      exact ⟨behind, hsplit, hresponse _ _ heq⟩
    refine ⟨hcommand, fun front line hfront hnot => ?_, fun hnot => ?_, fun csim hcsim => ?_⟩
    · rcases undecided_cases hnot with hnone | ⟨csim, hcsim⟩
      · exact hline front line List.nil_prefix hfront fun earlier _ hearlier => hnone earlier hearlier
      · have hwithin : front <+: lines := (List.prefix_append front [line]).trans hfront
        obtain ⟨behind, hsplit, _, hrest⟩ := hbehind csim { hcsim with within := hcsim.within.trans hwithin }
        exact ((linesFit_iff (hsecond hcsim) behind last).mp hrest).1 front line hcsim.within (hsplit ▸ hfront)
          (hcsim.undecided_iff.mp hnot)
    · rcases undecided_cases hnot with hnone | ⟨csim, hcsim⟩
      · exact hlast fun earlier _ hearlier => hnone earlier hearlier
      · obtain ⟨behind, hsplit, _, hrest⟩ := hbehind csim hcsim
        exact ((linesFit_iff (hsecond hcsim) behind last).mp hrest).2 fun earlier hfrom hearlier =>
          hcsim.undecided_iff.mp hnot earlier hfrom (hsplit ▸ hearlier)
    · obtain ⟨_, _, hfits, _⟩ := hbehind csim hcsim
      rwa [laid_eq] at hfits
  · rintro ⟨hcommand, hline, hlast, hresponse⟩
    refine ⟨hcommand, hfirst.mpr ⟨fun front line _ hfront hnone => ?_, fun hnone => ?_⟩, fun buf behind heq => ?_⟩
    · exact hline front line hfront (undecided_of_nothing fun earlier => hnone earlier List.nil_prefix)
    · exact hlast (undecided_of_nothing fun earlier => hnone earlier List.nil_prefix)
    · obtain ⟨csim, hcsim, hsplit, rfl⟩ := responseFirst_of_verdict heq
      have hfits := hresponse csim hcsim
      rw [← laid_eq] at hfits
      refine ⟨hfits, (linesFit_iff (hsecond hcsim) behind last).mpr ⟨fun front line hfrom hfront hnone => ?_,
        fun hnone => ?_⟩⟩
      · rw [← hsplit] at hfront
        exact hline front line hfront (({ hcsim with within := hfrom } : ResponseFirst front csim).undecided_iff.mpr hnone)
      · rw [← hsplit] at hnone
        exact hlast (hcsim.undecided_iff.mpr hnone)

end Shown

/-! ### The lines that were received -/

section Received

variable {lines taken csim before : List (List UInt8)} {line text : List UInt8}

/-- A newline ends its line. -/
def EndedLines (lines : List (List UInt8)) : Prop := ∀ line ∈ lines, newline ∉ line.dropLast

theorem Ahead.endedLines {hangup : Bool} {input : List (Option UInt8)} {last : List UInt8}
    (h : Ahead hangup input lines last) : EndedLines lines := by
  induction h with
  | waiting => exact fun _ hmem => absurd hmem List.not_mem_nil
  | hungUp => exact fun _ hmem => absurd hmem List.not_mem_nil
  | line h _ ih =>
      intro line hmem
      obtain rfl | hmem := List.mem_cons.mp hmem
      · obtain ⟨_, _, hline⟩ := h.bytes
        exact hline
      · exact ih line hmem

theorem finished_iff : Finished taken ↔ ∃ before line, taken = before ++ [line] ∧ newline ∈ line := by
  constructor
  · rintro ⟨line, hlast, hline⟩
    obtain ⟨before, rfl⟩ := List.getLast?_eq_some_iff.mp hlast
    exact ⟨before, line, rfl, hline⟩
  · rintro ⟨before, line, rfl, hline⟩
    exact ⟨line, List.getLast?_concat, hline⟩

/-- The newline of a finished line is its last byte. -/
theorem newline_last (hended : newline ∉ line.dropLast) (hline : newline ∈ line) :
    ∃ front, line = front ++ [newline] ∧ newline ∉ front := by
  have hne : line ≠ [] := List.ne_nil_of_mem hline
  have heq := List.dropLast_concat_getLast hne
  have hlast : line.getLast hne = newline := by
    rw [← heq, List.mem_append, List.mem_singleton] at hline
    exact (hline.resolve_left hended).symm
  rw [hlast] at heq
  exact ⟨line.dropLast, heq.symm, hended⟩

/-- A text without an inner newline that is shown behind a finished line is in that line. -/
theorem Shows.finished_line (hshows : Shows (before ++ [line]) text) (hended : newline ∉ line.dropLast)
    (hline : newline ∈ line) (htext : newline ∉ text.dropLast) : text <+: line := by
  obtain ⟨front, rfl, hfront⟩ := newline_last hended hline
  have hlength : text.length ≤ front.length + 1 := by
    by_contra hlong
    -- the newline of the line would stand inside the text
    have hplace := hshows front.length (by omega)
    rw [shownAt_concat, List.getElem?_append_right (Nat.le_refl _), Nat.sub_self] at hplace
    apply htext
    rw [List.dropLast_eq_take]
    refine List.mem_iff_getElem?.mpr ⟨front.length, ?_⟩
    rw [List.getElem?_take_of_lt (by omega)]
    exact hplace.symm
  rw [List.prefix_iff_getElem?]
  intro j hj
  have hplace := hshows j hj
  rw [shownAt_concat] at hplace
  have hin : j < (front ++ [newline]).length := by
    simp only [List.length_append, List.length_singleton]
    omega
  rw [List.getElem?_eq_getElem hin, List.getElem?_eq_getElem hj] at hplace
  rw [List.getElem?_eq_getElem hin]
  exact hplace

/-- The lines of an answer were received exactly if their last lines were. -/
theorem AnswerFirst.answered_iff (h : AnswerFirst lines csim taken) (hended : EndedLines lines) :
    Answered taken ↔ Received csim taken := by
  constructor
  · rintro ⟨before, response, between, rfl, hresponse, hfull⟩
    have hshown : before ++ [response] <+: before ++ response :: (between ++ [okText]) := ⟨between ++ [okText], by simp⟩
    have hshows : Shows (before ++ [response]) csimText := shows_of_prefix hresponse
    refine ⟨finished_iff.mpr ⟨before ++ response :: between, okText, by simp, by decide⟩, before ++ [response], ?_, hshown,
      hshows, finished_iff.mpr ⟨before, response, rfl, hfull⟩⟩
    obtain hprefix | hprefix := List.prefix_or_prefix_of_prefix h.behind hshown
    · exact hprefix
    · exact (h.no_earlier _ hprefix hshows) ▸ List.prefix_rfl
  · rintro ⟨hfinal, shown, _, hshown, hshows, hresponse⟩
    obtain ⟨front, final, rfl, hfull⟩ := finished_iff.mp hfinal
    obtain ⟨before, response, rfl, hreceived⟩ := finished_iff.mp hresponse
    have hmem : ∀ line ∈ front ++ [final], newline ∉ line.dropLast := fun line hline =>
      hended line (h.taken_within.subset hline)
    have hok : okText <+: final := h.final.finished_line (hmem final (by simp)) hfull (by decide)
    have hcsim : csimText <+: response :=
      hshows.finished_line (hmem response (hshown.subset (by simp))) hreceived (by decide)
    -- behind the newline of the final line there is nothing
    have hexact : final = okText := by
      obtain ⟨rest, rfl⟩ := hok
      cases rest with
      | nil => exact List.append_nil _
      | cons c rest =>
          have hinside := hmem (okText ++ c :: rest) (by simp)
          rw [List.dropLast_append_of_ne_nil (List.cons_ne_nil c rest), List.mem_append, not_or] at hinside
          exact absurd (by decide : newline ∈ okText) hinside.1
    subst hexact
    obtain heq | hbefore := List.prefix_concat_iff.mp hshown
    · rw [heq] at hshows
      exact absurd h.final hshows.csim_not_ok
    · obtain ⟨between, rfl⟩ := hbefore
      exact ⟨before, response, between, by simp, hcsim, hreceived⟩

end Received

section Exchange

variable {charSigned : Bool} {apdu : List UInt8} {s : ATInterface} {lines : List (List UInt8)} {last : List UInt8}

/-- A call that returns has met an error first, or an answer. -/
theorem returns_decided (hlines : linesOf s.hangup s.input = (lines, last)) {fuel : Nat} {result : Option Nat}
    {s' : ATInterface} (hrun : sendATCSIM charSigned apdu fuel s = (.done result, s')) :
    ReadsFit charSigned apdu lines last ∧
      (result = none ∧ ErrorFirst lines ∨ result.isSome = true ∧ ∃ csim taken, AnswerFirst lines csim taken ∧
        lines = taken ++ (linesOf s.hangup s'.input).1) := by
  have hfits : ExchangeFits charSigned apdu lines last := by
    by_contra hover
    obtain ⟨t, hfault⟩ := sendATCSIM_overruns hlines hover
    obtain ⟨heq, _⟩ := hfault.of_done hrun
    cases heq
  refine ⟨exchangeFits_iff.mp hfits, ?_⟩
  cases sendATCSIM_course hlines hfits with
  | refused hfirst hends =>
      obtain ⟨heq, _⟩ := hends.of_done hrun
      cases heq
      exact .inl ⟨rfl, errorFirst_of_verdict hfirst⟩
  | answered hfirst hsecond hrest hends =>
      obtain ⟨heq, rfl⟩ := hends.of_done hrun
      cases heq
      obtain ⟨csim, hcsim, hbehind, rfl⟩ := responseFirst_of_verdict hfirst
      obtain ⟨taken, hanswer, htaken⟩ := hcsim.answerFirst hbehind hsecond
      refine .inr ⟨rfl, csim, taken, hanswer, ?_⟩
      rw [hrest]
      exact htaken
  | unanswered _ hblocks =>
      have hspent := hblocks fuel
      rw [hrun] at hspent
      cases hspent
  | unfinished _ _ hblocks =>
      have hspent := hblocks fuel
      rw [hrun] at hspent
      cases hspent

/-- Where an error comes first or an answer comes, the call returns. -/
theorem decided_returns (hlines : linesOf s.hangup s.input = (lines, last))
    (hfits : ReadsFit charSigned apdu lines last) (h : Decided lines) :
    ∃ result s', Evals (sendATCSIM charSigned apdu) s result s' := by
  cases sendATCSIM_course hlines (exchangeFits_iff.mpr hfits) with
  | refused _ hends => exact ⟨none, _, hends⟩
  | answered _ _ _ hends => exact ⟨some _, _, hends⟩
  | unanswered hfirst _ =>
      obtain ⟨failed, hwithin, herror, _⟩ | ⟨csim, taken, hanswer⟩ := h
      · exact absurd herror (nothing_shown hfirst hwithin).1
      · exact absurd hanswer.response (nothing_shown hfirst hanswer.within).2
  | unfinished hfirst hsecond _ =>
      obtain ⟨csim, hcsim, hbehind, rfl⟩ := responseFirst_of_verdict hfirst
      obtain herror | ⟨csim', taken, hanswer⟩ := h
      · exact absurd herror hcsim.not_errorFirst
      · exact absurd hanswer (hcsim.unfinished hbehind hsecond)

end Exchange

/-! ### When a call ends -/

/-- **A call ends as it should exactly if the lines allow it.** Where the serial line fails for good or the modem
reports an error, all that is read fits and an error is shown before any response, or there is an answer and no error;
and the last lines of an answer were received to their end. -/
theorem endsExchange_iff (charSigned : Bool) (apdu : List UInt8) (s : ATInterface) :
    EndsExchange charSigned apdu s ↔
      (s.hangup = true ∨ ReportsError (linesOf s.hangup s.input).1 →
        ReadsFit charSigned apdu (linesOf s.hangup s.input).1 (linesOf s.hangup s.input).2 ∧
        (ErrorFirst (linesOf s.hangup s.input).1 ∨
          ¬ReportsError (linesOf s.hangup s.input).1 ∧
            ∃ csim taken, AnswerFirst (linesOf s.hangup s.input).1 csim taken)) ∧
      ∀ csim taken, ReadsFit charSigned apdu (linesOf s.hangup s.input).1 (linesOf s.hangup s.input).2 →
        AnswerFirst (linesOf s.hangup s.input).1 csim taken → Received csim taken := by
  have hlines : linesOf s.hangup s.input = ((linesOf s.hangup s.input).1, (linesOf s.hangup s.input).2) := rfl
  have hended := (ahead_linesOf s.hangup s.input).endedLines
  constructor
  · rintro ⟨hends, hsound⟩
    constructor
    · intro hbroken
      obtain ⟨result, s', hevals, hnone⟩ := hends hbroken
      obtain ⟨fuel, hrun⟩ := hevals.reached
      obtain ⟨hfits, ⟨_, herror⟩ | ⟨hsome, csim, taken, hanswer, _⟩⟩ := returns_decided hlines hrun
      · exact ⟨hfits, .inl herror⟩
      · refine ⟨hfits, .inr ⟨fun hreports => ?_, csim, taken, hanswer⟩⟩
        rw [hnone hreports] at hsome
        cases hsome
    · intro csim taken hfits hanswer
      obtain ⟨result, s', hevals⟩ := decided_returns hlines hfits (.inr ⟨csim, taken, hanswer⟩)
      obtain ⟨fuel, hdone⟩ := hevals.reached
      obtain ⟨_, ⟨_, herror⟩ | ⟨hsome, csim', taken', hanswer', htaken'⟩⟩ := returns_decided hlines hdone
      · exact absurd herror hanswer.not_errorFirst
      · obtain ⟨len, rfl⟩ := Option.isSome_iff_exists.mp hsome
        obtain ⟨received, hreceived, hcomplete⟩ := hsound fuel len s' hdone
        -- the lines that were taken are what is gone from the input
        obtain rfl : received = taken' := List.append_cancel_right (hreceived.symm.trans htaken')
        obtain ⟨rfl, rfl⟩ := hanswer.unique hanswer'
        exact (hanswer.answered_iff hended).mp hcomplete
  · rintro ⟨hbroken, hcomplete⟩
    constructor
    · intro hcase
      obtain ⟨hfits, hdecided⟩ := hbroken hcase
      obtain ⟨result, s', hevals⟩ := decided_returns hlines hfits (hdecided.imp_right And.right)
      refine ⟨result, s', hevals, fun hreports => ?_⟩
      obtain ⟨fuel, hrun⟩ := hevals.reached
      obtain ⟨_, ⟨hnone, _⟩ | ⟨_, csim, taken, hanswer, _⟩⟩ := returns_decided hlines hrun
      · exact hnone
      · rcases hdecided with herror | ⟨hreports', _⟩
        · exact absurd herror hanswer.not_errorFirst
        · exact absurd hreports hreports'
    · intro fuel len s' hrun
      obtain ⟨hfits, ⟨hnone, _⟩ | ⟨_, csim, taken, hanswer, htaken⟩⟩ := returns_decided hlines hrun
      · cases hnone
      · exact ⟨taken, htaken, (hanswer.answered_iff hended).mpr (hcomplete csim taken hfits hanswer)⟩

/-- A serial line that fails from the first byte on. -/
def cutOff : ATInterface :=
  { input := [], hangup := true, sent := [], buf := Mem.zero, response := Mem.zero }

/-- A modem that reports an error behind the response line. -/
def lateError : ATInterface := modemSaying (cstr "+CSIM: 4,\"9000\"\r\nERROR\r\n")

theorem lateError_lines : (linesOf lateError.hangup lateError.input).1 = [cstr "+CSIM: 4,\"9000\"\r\n", errorText] := by
  decide +kernel

/-- Neither of the two calls returns. -/
theorem failures_keep_waiting : ¬EndsExchange true [0x00] cutOff ∧ ¬EndsExchange true [0x00] lateError := by
  constructor
  · intro h
    obtain ⟨result, s', hevals, _⟩ := h.ends (.inl rfl)
    obtain ⟨fuel, hrun⟩ := hevals.reached
    have hlines : linesOf cutOff.hangup cutOff.input = ([], []) := rfl
    obtain ⟨_, ⟨_, failed, hwithin, herror, _⟩ | ⟨_, csim, _, hanswer, _⟩⟩ := returns_decided hlines hrun
    · exact herror.ne_nil (List.prefix_nil.mp hwithin)
    · exact hanswer.response.ne_nil (List.prefix_nil.mp hanswer.within)
  · intro h
    have hreports : ReportsError (linesOf lateError.hangup lateError.input).1 := by
      rw [lateError_lines]
      refine ⟨[cstr "+CSIM: 4,\"9000\"\r\n"], [], rfl, ?_⟩
      rintro front back heq ⟨before, csim, between, rfl, _⟩
      have hlen := congrArg List.length heq
      simp only [List.length_append, List.length_cons, List.length_nil] at hlen
      omega
    obtain ⟨result, s', hevals, hnone⟩ := h.ends (.inr hreports)
    obtain ⟨fuel, hrun⟩ := hevals.reached
    obtain ⟨_, ⟨_, failed, hwithin, herror, hnone⟩ | ⟨hsome, _⟩⟩ := returns_decided rfl hrun
    · rw [lateError_lines] at hwithin
      -- whatever shows the error has the response line before it
      obtain rfl | ⟨front, rfl, _⟩ := List.prefix_cons_iff.mp hwithin
      · exact herror.ne_nil rfl
      · exact hnone [cstr "+CSIM: 4,\"9000\"\r\n"] ⟨front, rfl⟩ (by decide +kernel)
    · rw [hnone hreports] at hsome
      cases hsome

end TrustOnboard.ATInterface
