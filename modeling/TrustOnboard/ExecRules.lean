import TrustOnboard.ExecMonad

/-! Three ways of reasoning about fuel-bounded programs. `Stays R` says that every prefix of every
run moves the state along the preorder `R`, however it ends: it is the rule for what a run may do to
a trace. `Meets` is partial correctness with a condition on cut runs. `Ends` is total correctness:
with enough fuel the run ends, always in the same way, and with less it is spent. Each comes with one
rule per program constructor, and a loop rule by induction on the turns. -/

namespace Exec

variable {S T α β γ : Type}

/-! ### Runs that stay in a preorder -/

/-- Every run moves the state along `R`, whether it ends or is cut. -/
def Stays (R : S → S → Prop) (program : Exec S α) : Prop := ∀ fuel s, R s (program fuel s).2

section Stays

variable {R : S → S → Prop}

theorem Stays.mono {R' : S → S → Prop} {program : Exec S α} (h : Stays R program)
    (hle : ∀ s s', R s s' → R' s s') : Stays R' program :=
  fun fuel s => hle _ _ (h fuel s)

variable [IsPreorder S R]

theorem Stays.refl_run {program : Exec S α} (h : ∀ fuel s, (program fuel s).2 = s) :
    Stays R program := by
  intro fuel s
  rw [h]
  exact refl s

theorem Stays.pure (value : α) : Stays R (pure value : Exec S α) := .refl_run fun _ _ => rfl

theorem Stays.get : Stays R (get : Exec S S) := .refl_run fun _ _ => rfl

theorem Stays.gets (read : S → α) : Stays R (gets read) := .refl_run fun _ _ => rfl

theorem Stays.fault : Stays R (fault : Exec S α) := .refl_run fun _ _ => rfl

theorem Stays.check (inRange : Prop) [Decidable inRange] : Stays R (check inRange : Exec S Unit) := by
  by_cases h : inRange
  · exact .refl_run fun fuel s => by rw [check_pos h]
  · exact .refl_run fun fuel s => by rw [check_neg h]

theorem Stays.isolated (start : T) (program : Exec T α) :
    Stays R (isolated start program : Exec S (α × T)) := by
  refine .refl_run fun fuel s => ?_
  rw [Exec.isolated]
  rcases program fuel start with ⟨_ | _ | _, t⟩ <;> rfl

omit [IsPreorder S R] in
theorem Stays.modify {update : S → S} (h : ∀ s, R s (update s)) : Stays R (modify update) :=
  fun _ s => h s

theorem Stays.bind {program : Exec S α} {next : α → Exec S β} (h : Stays R program)
    (hnext : ∀ value, Stays R (next value)) : Stays R (program >>= next) := by
  intro fuel s
  have hfirst := h fuel s
  rw [bind_apply]
  rcases hrun : program fuel s with ⟨outcome, s'⟩
  rw [hrun] at hfirst
  cases outcome with
  | done value => exact Trans.trans hfirst (hnext value fuel s')
  | fault => exact hfirst
  | spent => exact hfirst

/-- What comes after a program goes on from where it ended. -/
theorem Stays.after {program : Exec S α} {next : α → Exec S β} (h : ∀ value, Stays R (next value)) (fuel : Nat) (s : S) :
    R (program fuel s).2 ((program >>= next) fuel s).2 := by
  rw [bind_apply]
  rcases program fuel s with ⟨_ | _ | _, s'⟩
  · exact h _ fuel s'
  · exact refl s'
  · exact refl s'

omit [IsPreorder S R] in
theorem Stays.ite {c : Prop} [Decidable c] {yes no : Exec S α} (hyes : Stays R yes)
    (hno : Stays R no) : Stays R (if c then yes else no) := by
  split
  · exact hyes
  · exact hno

/-- What one turn of a loop keeps, the loop keeps. -/
theorem Stays.loop {body : β → Exec S (Turn β α)} (h : ∀ x, Stays R (body x)) (start : β) :
    Stays R (loop body start) := by
  intro fuel s
  -- the induction is on the turns left; the fuel of the body does not change
  suffices ∀ count x s, R s (turns body fuel count x s).2 from this fuel start s
  intro count
  induction count with
  | zero => exact fun _ s => refl s
  | succ count ih =>
      intro x s
      have hturn := h x fuel s
      rw [turns]
      rcases hrun : body x fuel s with ⟨outcome, s'⟩
      rw [hrun] at hturn
      rcases outcome with turn | _ | _
      · cases turn with
        | again x' => exact Trans.trans hturn (ih x' s')
        | stop value => exact hturn
      · exact hturn
      · exact hturn

omit [IsPreorder S R] in
theorem Stays.zoom {part : Lens S T} {R' : T → T → Prop} {program : Exec T α}
    (h : Stays R' program) (hpart : ∀ s t, R' (part.get s) t → R s (part.set t s)) :
    Stays R (zoom part program) :=
  fun fuel s => hpart s _ (h fuel (part.get s))

end Stays

/-! ### Partial correctness -/

/-- Every run from `s` that ends satisfies `post`; every run that is cut satisfies `cut`. -/
def Meets (program : Exec S α) (s : S) (post : α → S → Prop) (cut : S → Prop) : Prop :=
  ∀ fuel, match program fuel s with
    | (.done value, s') => post value s'
    | (_, s') => cut s'

section Meets

variable {program : Exec S α} {s : S} {post : α → S → Prop} {cut : S → Prop}

theorem Meets.done (h : Meets program s post cut) {fuel : Nat} {value : α} {s' : S}
    (hrun : program fuel s = (.done value, s')) : post value s' := by
  have := h fuel
  rwa [hrun] at this

/-- What holds however a run ends. -/
theorem Meets.state {last : S → Prop} (h : Meets program s (fun _ => last) last) (fuel : Nat) :
    last (program fuel s).2 := by
  have := h fuel
  rcases hrun : program fuel s with ⟨outcome, s'⟩
  rw [hrun] at this
  cases outcome <;> exact this

/-- What every end of a run has, and what a good value tells. -/
theorem Meets.run {last : S → Prop} {good : α → Prop} {told : Prop}
    (h : Meets program s (fun value s' => last s' ∧ (good value → told)) last) (fuel : Nat) :
    last (program fuel s).2 ∧ ((∃ value, (program fuel s).1 = .done value ∧ good value) → told) := by
  have hend := h fuel
  rcases hrun : program fuel s with ⟨outcome, s'⟩
  rw [hrun] at hend
  cases outcome with
  | done value => exact ⟨hend.1, fun ⟨_, hvalue, hgood⟩ => hend.2 (by cases hvalue; exact hgood)⟩
  | fault => exact ⟨hend, fun ⟨_, hvalue, _⟩ => by cases hvalue⟩
  | spent => exact ⟨hend, fun ⟨_, hvalue, _⟩ => by cases hvalue⟩

theorem Meets.mono {post' : α → S → Prop} {cut' : S → Prop} (h : Meets program s post cut)
    (hpost : ∀ value s', post value s' → post' value s') (hcut : ∀ s', cut s' → cut' s') :
    Meets program s post' cut' := by
  intro fuel
  have := h fuel
  rcases hrun : program fuel s with ⟨outcome, s'⟩
  rw [hrun] at this
  cases outcome with
  | done value => exact hpost _ _ this
  | fault => exact hcut _ this
  | spent => exact hcut _ this

theorem Meets.and {post' : α → S → Prop} {cut' : S → Prop} (h : Meets program s post cut)
    (h' : Meets program s post' cut') :
    Meets program s (fun value s' => post value s' ∧ post' value s') (fun s' => cut s' ∧ cut' s') := by
  intro fuel
  have hleft := h fuel
  have hright := h' fuel
  rcases hrun : program fuel s with ⟨outcome, s'⟩
  rw [hrun] at hleft hright
  cases outcome <;> exact ⟨hleft, hright⟩

theorem Meets.trivial (program : Exec S α) (s : S) :
    Meets program s (fun _ _ => True) (fun _ => True) := by
  intro fuel
  rcases program fuel s with ⟨_ | _ | _, s'⟩ <;> exact True.intro

theorem Meets.pure {value : α} (h : post value s) : Meets (Pure.pure value) s post cut :=
  fun _ => h

theorem Meets.gets {read : S → α} (h : post (read s) s) : Meets (gets read) s post cut := fun _ => h

theorem Meets.modify {update : S → S} {post : Unit → S → Prop} (h : post () (update s)) :
    Meets (modify update) s post cut := fun _ => h

theorem Meets.isolated {start : T} {program : Exec T β} {post : β × T → S → Prop} (h : ∀ value, post value s)
    (hcut : cut s) : Meets (isolated start program) s post cut := by
  intro fuel
  rw [Exec.isolated]
  rcases program fuel start with ⟨value | _ | _, t⟩
  · exact h (value, t)
  · exact hcut
  · exact hcut

theorem Meets.bind {next : α → Exec S β} {middle : α → S → Prop} {post : β → S → Prop}
    (h : Meets program s middle cut)
    (hnext : ∀ value s', middle value s' → Meets (next value) s' post cut) :
    Meets (program >>= next) s post cut := by
  intro fuel
  have hfirst := h fuel
  rw [bind_apply]
  rcases hrun : program fuel s with ⟨outcome, s'⟩
  rw [hrun] at hfirst
  cases outcome with
  | done value => exact hnext value s' hfirst fuel
  | fault => exact hfirst
  | spent => exact hfirst

theorem Meets.modify_bind {update : S → S} {next : Unit → Exec S α}
    (h : Meets (next ()) (update s) post cut) : Meets (Exec.modify update >>= next) s post cut := h

theorem Meets.gets_bind {read : S → β} {next : β → Exec S α}
    (h : Meets (next (read s)) s post cut) : Meets (Exec.gets read >>= next) s post cut := h

/-- The first part is known to end. -/
theorem Meets.done_bind {first : Exec S β} {next : β → Exec S α} {s' : S} {value : β}
    (hrun : ∀ fuel, first fuel s = (.done value, s')) (h : Meets (next value) s' post cut) :
    Meets (first >>= next) s post cut := by
  intro fuel
  rw [bind_done (hrun fuel)]
  exact h fuel

theorem Meets.check_bind {inRange : Prop} [Decidable inRange] {next : Unit → Exec S α}
    (h : inRange → Meets (next ()) s post cut) (hcut : ¬inRange → cut s) :
    Meets (Exec.check inRange >>= next) s post cut := by
  intro fuel
  rw [bind_apply]
  by_cases hrange : inRange
  · rw [check_pos hrange]
    exact h hrange fuel
  · rw [check_neg hrange]
    exact hcut hrange

theorem Meets.ite {c : Prop} [Decidable c] {yes no : Exec S α} (hyes : c → Meets yes s post cut)
    (hno : ¬c → Meets no s post cut) : Meets (if c then yes else no) s post cut := by
  split
  · exact hyes ‹_›
  · exact hno ‹_›

/-- The loop rule: an invariant of the turns that implies the cut condition. -/
theorem Meets.loop {body : β → Exec S (Turn β α)} (inv : β → S → Prop)
    (hcut : ∀ x s, inv x s → cut s)
    (hbody : ∀ x s, inv x s → Meets (body x) s
      (fun turn s' => match turn with
        | .again x' => inv x' s'
        | .stop value => post value s') cut)
    {start : β} (hstart : inv start s) : Meets (loop body start) s post cut := by
  intro fuel
  suffices ∀ count x s, inv x s → match turns body fuel count x s with
      | (.done value, s') => post value s'
      | (_, s') => cut s' from this fuel start s hstart
  intro count
  induction count with
  | zero => exact fun x s hinv => hcut x s hinv
  | succ count ih =>
      intro x s hinv
      have hturn := hbody x s hinv fuel
      rw [turns]
      rcases hrun : body x fuel s with ⟨outcome, s'⟩
      rw [hrun] at hturn
      rcases outcome with turn | _ | _
      · cases turn with
        | again x' => exact ih x' s' hturn
        | stop value => exact hturn
      · exact hturn
      · exact hturn

theorem Meets.zoom {part : Lens S T} {program : Exec T α}
    (h : Meets program (part.get s) (fun value t => post value (part.set t s))
      (fun t => cut (part.set t s))) : Meets (zoom part program) s post cut := by
  intro fuel
  have := h fuel
  rw [Exec.zoom]
  rcases hrun : program fuel (part.get s) with ⟨outcome, t⟩
  rw [hrun] at this
  cases outcome <;> exact this

theorem Meets.zoom_bind {part : Lens S T} {program : Exec T β} {next : β → Exec S α}
    {middle : β → T → Prop} {cutPart : T → Prop} (h : Meets program (part.get s) middle cutPart)
    (hcut : ∀ t, cutPart t → cut (part.set t s))
    (hnext : ∀ value t, middle value t → Meets (next value) (part.set t s) post cut) :
    Meets (Exec.zoom part program >>= next) s post cut := by
  intro fuel
  have hfirst := h fuel
  rw [bind_apply, Exec.zoom]
  rcases hrun : program fuel (part.get s) with ⟨outcome, t⟩
  rw [hrun] at hfirst
  cases outcome with
  | done value => exact hnext value t hfirst fuel
  | fault => exact hcut t hfirst
  | spent => exact hcut t hfirst

theorem Stays.meets {R : S → S → Prop} (h : Stays R program) (s : S) :
    Meets program s (fun _ s' => R s s') (R s) := by
  intro fuel
  have := h fuel s
  rcases hrun : program fuel s with ⟨outcome, s'⟩
  rw [hrun] at this
  cases outcome <;> exact this

/-- The same further along a run that began at `start`. -/
theorem Stays.meets_from {R : S → S → Prop} [IsPreorder S R] (h : Stays R program) {start : S} (hstart : R start s) :
    Meets program s (fun _ => R start) (R start) :=
  (h.meets s).mono (fun _ _ hstep => Trans.trans hstart hstep) fun _ hstep => Trans.trans hstart hstep

/-- A state relation that all runs keep may be used in both conditions. -/
theorem Meets.and_stays {R : S → S → Prop} (h : Meets program s post cut) (hR : Stays R program) :
    Meets program s (fun value s' => post value s' ∧ R s s') (fun s' => cut s' ∧ R s s') :=
  h.and (hR.meets s)

end Meets

/-! ### Total correctness -/

/-- With enough fuel the run from `s` ends in this way, with less it is spent. -/
def Ends (program : Exec S α) (s : S) (outcome : Outcome α) (s' : S) : Prop :=
  ∃ least, ∀ fuel, (least ≤ fuel → program fuel s = (outcome, s')) ∧
    (fuel < least → (program fuel s).1 = .spent)

/-- The run ends with this value. -/
abbrev Evals (program : Exec S α) (s : S) (value : α) (s' : S) : Prop := Ends program s (.done value) s'

/-- The run ends at an access outside an object. -/
def Faults (program : Exec S α) (s : S) : Prop := ∃ s', Ends program s .fault s'

/-- No amount of fuel is enough. -/
def Blocks (program : Exec S α) (s : S) : Prop := ∀ fuel, (program fuel s).1 = .spent

section Ends

variable {program : Exec S α} {s s' s'' : S} {value : α} {outcome : Outcome α}

theorem Ends.of_eq (h : ∀ fuel, program fuel s = (outcome, s')) : Ends program s outcome s' :=
  ⟨0, fun fuel => ⟨fun _ => h fuel, fun hfuel => absurd hfuel (Nat.not_lt_zero fuel)⟩⟩

theorem Evals.pure : Evals (Pure.pure value) s value s := .of_eq fun _ => rfl

theorem Evals.gets {read : S → α} : Evals (gets read) s (read s) s := .of_eq fun _ => rfl

theorem Evals.modify {update : S → S} : Evals (modify update) s () (update s) := .of_eq fun _ => rfl

theorem Evals.check {inRange : Prop} [Decidable inRange] (h : inRange) :
    Evals (check inRange) s () s := .of_eq fun fuel => check_pos h fuel s

theorem Faults.check {inRange : Prop} [Decidable inRange] (h : ¬inRange) :
    Faults (check inRange) s := ⟨s, .of_eq fun fuel => check_neg h fuel s⟩

theorem Evals.bind_ends {next : α → Exec S β} {result : Outcome β} (h : Evals program s value s')
    (hnext : Ends (next value) s' result s'') : Ends (program >>= next) s result s'' := by
  obtain ⟨least, hrun⟩ := h
  obtain ⟨least', hrun'⟩ := hnext
  refine ⟨max least least', fun fuel => ⟨fun hfuel => ?_, fun hfuel => ?_⟩⟩
  · rw [bind_done ((hrun fuel).1 (by omega)), (hrun' fuel).1 (by omega)]
  · by_cases hfirst : least ≤ fuel
    · rw [bind_done ((hrun fuel).1 hfirst)]
      exact (hrun' fuel).2 (by omega)
    · exact bind_spent ((hrun fuel).2 (by omega))

theorem Evals.bind {next : α → Exec S β} {result : β} (h : Evals program s value s')
    (hnext : Evals (next value) s' result s'') : Evals (program >>= next) s result s'' :=
  h.bind_ends hnext

theorem Evals.bind_faults {next : α → Exec S β} (h : Evals program s value s')
    (hnext : Faults (next value) s') : Faults (program >>= next) s := by
  obtain ⟨s'', hnext⟩ := hnext
  exact ⟨s'', h.bind_ends hnext⟩

theorem Faults.bind {next : α → Exec S β} (h : Faults program s) : Faults (program >>= next) s := by
  obtain ⟨s', least, hrun⟩ := h
  refine ⟨s', least, fun fuel => ⟨fun hfuel => ?_, fun hfuel => bind_spent ((hrun fuel).2 hfuel)⟩⟩
  rw [bind_apply, (hrun fuel).1 hfuel]

theorem Blocks.bind {next : α → Exec S β} (h : Blocks program s) : Blocks (program >>= next) s :=
  fun fuel => bind_spent (h fuel)

theorem Evals.bind_blocks {next : α → Exec S β} (h : Evals program s value s')
    (hnext : Blocks (next value) s') : Blocks (program >>= next) s := by
  obtain ⟨least, hrun⟩ := h
  intro fuel
  by_cases hfuel : least ≤ fuel
  · rw [bind_done ((hrun fuel).1 hfuel)]
    exact hnext fuel
  · exact bind_spent ((hrun fuel).2 (by omega))

theorem Evals.zoom {part : Lens S T} {program : Exec T α} {t : T}
    (h : Evals program (part.get s) value t) : Evals (zoom part program) s value (part.set t s) := by
  obtain ⟨least, hrun⟩ := h
  refine ⟨least, fun fuel => ⟨fun hfuel => zoom_done ((hrun fuel).1 hfuel), fun hfuel => ?_⟩⟩
  exact (hrun fuel).2 hfuel

theorem Faults.zoom {part : Lens S T} {program : Exec T α} (h : Faults program (part.get s)) :
    Faults (zoom part program) s := by
  obtain ⟨t, least, hrun⟩ := h
  refine ⟨part.set t s, least, fun fuel => ⟨fun hfuel => ?_, fun hfuel => (hrun fuel).2 hfuel⟩⟩
  rw [Exec.zoom, (hrun fuel).1 hfuel]

/-- A run that ends with a value or not at all does not fault. -/
theorem Evals.ne_fault (h : Evals program s value s') (fuel : Nat) : (program fuel s).1 ≠ .fault := by
  obtain ⟨least, hrun⟩ := h
  by_cases hfuel : least ≤ fuel
  · rw [(hrun fuel).1 hfuel]
    exact fun heq => by cases heq
  · rw [(hrun fuel).2 (by omega)]
    exact fun heq => by cases heq

theorem Blocks.ne_fault (h : Blocks program s) (fuel : Nat) : (program fuel s).1 ≠ .fault := by
  rw [h fuel]
  exact fun heq => by cases heq

/-- Some run ends so. -/
theorem Ends.reached (h : Ends program s outcome s') : ∃ fuel, program fuel s = (outcome, s') := by
  obtain ⟨least, hrun⟩ := h
  exact ⟨least, (hrun least).1 (Nat.le_refl least)⟩

theorem Faults.exists_fault (h : Faults program s) : ∃ fuel, (program fuel s).1 = .fault := by
  obtain ⟨s', hends⟩ := h
  obtain ⟨fuel, hrun⟩ := hends.reached
  exact ⟨fuel, by rw [hrun]⟩

theorem Evals.not_blocks (h : Evals program s value s') : ¬Blocks program s := by
  intro hblocks
  obtain ⟨fuel, hrun⟩ := h.reached
  have hspent := hblocks fuel
  rw [hrun] at hspent
  cases hspent

/-- A run that shows a value shows how all runs end. -/
theorem Ends.of_done (h : Ends program s outcome s') {fuel : Nat} (hrun : program fuel s = (.done value, s'')) :
    outcome = .done value ∧ s' = s'' := by
  obtain ⟨least, hends⟩ := h
  by_cases hfuel : least ≤ fuel
  · rw [(hends fuel).1 hfuel] at hrun
    cases hrun
    exact ⟨rfl, rfl⟩
  · have hspent := (hends fuel).2 (by omega)
    rw [hrun] at hspent
    cases hspent

/-- A program ends in one way. -/
theorem Ends.unique (h : Ends program s outcome s') (hevals : Evals program s value s'') :
    outcome = .done value ∧ s' = s'' := by
  obtain ⟨fuel, hrun⟩ := hevals.reached
  exact h.of_done hrun

theorem Evals.of_meets {post : α → S → Prop} {cut : S → Prop} (h : Evals program s value s')
    (hmeets : Meets program s post cut) : post value s' := by
  obtain ⟨fuel, hrun⟩ := h.reached
  exact hmeets.done hrun

/-- A finite sequence of turns, each of which ends, up to the one that ends the loop. -/
inductive Iterates (body : β → Exec S (Turn β α)) : β → S → Outcome α → S → Prop
  | stop {x : β} {s s' : S} {value : α} (hturn : Evals (body x) s (.stop value) s') :
      Iterates body x s (.done value) s'
  | fault {x : β} {s s' : S} (hturn : Ends (body x) s .fault s') : Iterates body x s .fault s'
  | again {x x' : β} {s s' s'' : S} {outcome : Outcome α} (hturn : Evals (body x) s (.again x') s')
      (hrest : Iterates body x' s' outcome s'') : Iterates body x s outcome s''

/-- Turns that are spent spend the loop. -/
theorem turns_spent {body : β → Exec S (Turn β α)} {fuel count : Nat} {x : β}
    (h : (body x fuel s).1 = .spent) : (turns body fuel count x s).1 = .spent := by
  cases count with
  | zero => rfl
  | succ count =>
      rw [turns]
      rcases hcase : body x fuel s with ⟨_ | _ | _, t⟩
      · rw [hcase] at h
        cases h
      · rw [hcase] at h
        cases h
      · rfl

/-- A loop whose turns end and stop ends. The number of turns and the fuel of each turn are bounded
by one amount of fuel. -/
theorem Ends.loop {body : β → Exec S (Turn β α)} {x : β} (h : Iterates body x s outcome s') :
    Ends (loop body x) s outcome s' := by
  suffices ∃ least number, ∀ fuel count,
      (least ≤ fuel → number ≤ count → turns body fuel count x s = (outcome, s')) ∧
      (fuel < least ∨ count < number → (turns body fuel count x s).1 = .spent) by
    obtain ⟨least, number, hrun⟩ := this
    refine ⟨max least number, fun fuel => ⟨fun hfuel => ?_, fun hfuel => ?_⟩⟩
    · exact (hrun fuel fuel).1 (by omega) (by omega)
    · exact (hrun fuel fuel).2 (by omega)
  -- a loop that ends in its first turn does so with any count but zero
  have hlast : ∀ {x s s'} {turn : Outcome (Turn β α)} {outcome : Outcome α}, Ends (body x) s turn s' →
      (∀ fuel count, body x fuel s = (turn, s') → turns body fuel (count + 1) x s = (outcome, s')) →
      ∃ least number, ∀ fuel count,
        (least ≤ fuel → number ≤ count → turns body fuel count x s = (outcome, s')) ∧
        (fuel < least ∨ count < number → (turns body fuel count x s).1 = .spent) := by
    rintro x s s' turn outcome ⟨least, hturn⟩ hend
    refine ⟨least, 1, fun fuel count => ⟨fun hfuel hcount => ?_, fun hshort => ?_⟩⟩
    · obtain ⟨count, rfl⟩ : ∃ k, count = k + 1 := ⟨count - 1, by omega⟩
      exact hend fuel count ((hturn fuel).1 hfuel)
    · rcases hshort with hfuel | hcount
      · exact turns_spent ((hturn fuel).2 hfuel)
      · obtain rfl : count = 0 := by omega
        rfl
  induction h with
  | stop hturn =>
      refine hlast hturn fun fuel count heq => ?_
      rw [turns, heq]
  | fault hturn =>
      refine hlast hturn fun fuel count heq => ?_
      rw [turns, heq]
  | again hturn _ ih =>
      obtain ⟨least, hturn⟩ := hturn
      obtain ⟨least', number, hrest⟩ := ih
      refine ⟨max least least', number + 1, fun fuel count => ⟨fun hfuel hcount => ?_, fun hshort => ?_⟩⟩
      · obtain ⟨count, rfl⟩ : ∃ k, count = k + 1 := ⟨count - 1, by omega⟩
        rw [turns, (hturn fuel).1 (by omega)]
        exact (hrest fuel count).1 (by omega) (by omega)
      · by_cases hfirst : least ≤ fuel
        · cases count with
          | zero => rfl
          | succ count =>
              rw [turns, (hturn fuel).1 hfirst]
              exact (hrest fuel count).2 (by omega)
        · exact turns_spent ((hturn fuel).2 (by omega))

theorem Evals.loop {body : β → Exec S (Turn β α)} {x : β} (h : Iterates body x s (.done value) s') :
    Evals (loop body x) s value s' := Ends.loop h

/-- A finite sequence of turns up to one that never ends, or into turns that go on for ever. -/
inductive Stalls (body : β → Exec S (Turn β α)) : β → S → Prop
  | here {x : β} {s : S} (hturn : Blocks (body x) s) : Stalls body x s
  | forever {x : β} {s : S} (inv : β → S → Prop) (h : inv x s)
      (hturn : ∀ x s, inv x s → ∃ x' s', Evals (body x) s (.again x') s' ∧ inv x' s') : Stalls body x s
  | again {x x' : β} {s s' : S} (hturn : Evals (body x) s (.again x') s') (hrest : Stalls body x' s') :
      Stalls body x s

theorem Blocks.loop {body : β → Exec S (Turn β α)} {x : β} (h : Stalls body x s) :
    Blocks (loop body x) s := by
  suffices ∀ fuel count, (turns body fuel count x s).1 = .spent from fun fuel => this fuel fuel
  intro fuel
  -- one turn that goes on, and what remains of the count behind it
  have hstep : ∀ {x x' s s'}, Evals (body x) s (.again x') s' →
      ∀ count, (∀ k, k < count → (turns body fuel k x' s').1 = .spent) →
        (turns body fuel count x s).1 = .spent := by
    rintro x x' s s' ⟨least, hturn⟩ count hrest
    by_cases hfuel : least ≤ fuel
    · cases count with
      | zero => rfl
      | succ count =>
          rw [turns, (hturn fuel).1 hfuel]
          exact hrest count (Nat.lt_succ_self count)
    · exact turns_spent ((hturn fuel).2 (by omega))
  induction h with
  | here hturn => exact fun count => turns_spent (hturn fuel)
  | @forever x s inv h hturn =>
      intro count
      induction count using Nat.strongRecOn generalizing x s with
      | ind count ih =>
          obtain ⟨x', s', hagain, hinv⟩ := hturn x s h
          exact hstep hagain count fun k hk => ih k hk hinv
  | again hturn _ ih => exact fun count => hstep hturn count fun k _ => ih k

end Ends

/-! ### Total correctness up to a property of the state -/

/-- The run ends with this value in a state of this property. -/
def Yields (program : Exec S α) (s : S) (value : α) (post : S → Prop) : Prop :=
  ∃ s', Evals program s value s' ∧ post s'

/-- Turns of a loop that end with this value in a state of this property. -/
def Cycles (body : β → Exec S (Turn β α)) (x : β) (s : S) (value : α) (post : S → Prop) : Prop :=
  ∃ s', Iterates body x s (.done value) s' ∧ post s'

section Yields

variable {program : Exec S α} {s : S} {value : α} {post : S → Prop}

theorem Yields.mono {post' : S → Prop} (h : Yields program s value post) (hpost : ∀ s', post s' → post' s') :
    Yields program s value post' := by
  obtain ⟨s', hrun, hs'⟩ := h
  exact ⟨s', hrun, hpost s' hs'⟩

theorem Yields.pure (h : post s) : Yields (Pure.pure value) s value post := ⟨s, .pure, h⟩

theorem Yields.bind {next : α → Exec S β} {result : β} {post' : S → Prop} (h : Yields program s value post)
    (hnext : ∀ s', post s' → Yields (next value) s' result post') : Yields (program >>= next) s result post' := by
  obtain ⟨s', hrun, hs'⟩ := h
  obtain ⟨s'', hrest, hs''⟩ := hnext s' hs'
  exact ⟨s'', hrun.bind hrest, hs''⟩

theorem Yields.gets_bind {read : S → β} {next : β → Exec S α} (h : Yields (next (read s)) s value post) :
    Yields (Exec.gets read >>= next) s value post := by
  obtain ⟨s', hrun, hs'⟩ := h
  exact ⟨s', Evals.gets.bind hrun, hs'⟩

theorem Yields.modify_bind {update : S → S} {next : Unit → Exec S α}
    (h : Yields (next ()) (update s) value post) : Yields (Exec.modify update >>= next) s value post := by
  obtain ⟨s', hrun, hs'⟩ := h
  exact ⟨s', Evals.modify.bind hrun, hs'⟩

theorem Yields.check_bind {inRange : Prop} [Decidable inRange] {next : Unit → Exec S α} (hrange : inRange)
    (h : Yields (next ()) s value post) : Yields (Exec.check inRange >>= next) s value post := by
  obtain ⟨s', hrun, hs'⟩ := h
  exact ⟨s', (Evals.check hrange).bind hrun, hs'⟩

theorem Yields.zoom {part : Lens S T} {program : Exec T α} {postPart : T → Prop}
    (h : Yields program (part.get s) value postPart) (hpost : ∀ t, postPart t → post (part.set t s)) :
    Yields (zoom part program) s value post := by
  obtain ⟨t, hrun, ht⟩ := h
  exact ⟨part.set t s, .zoom hrun, hpost t ht⟩

/-- What a value is wrapped in does not matter for the run. -/
theorem Evals.of_map {f : α → β} (hf : Function.Injective f) {s' : S}
    (h : Evals (program >>= fun value => Pure.pure (f value)) s (f value) s') : Evals program s value s' := by
  obtain ⟨least, hrun⟩ := h
  refine ⟨least, fun fuel => ⟨fun hfuel => ?_, fun hfuel => ?_⟩⟩
  · obtain ⟨value', t, hprogram, hpure⟩ := bind_eq_done ((hrun fuel).1 hfuel)
    obtain ⟨heq, rfl⟩ := Prod.mk.inj hpure
    rw [hprogram, hf (Outcome.done.inj heq)]
  · have hspent := (hrun fuel).2 hfuel
    rw [bind_apply] at hspent
    rcases hprogram : program fuel s with ⟨_ | _ | _, t⟩
    · rw [hprogram] at hspent
      cases hspent
    · rw [hprogram] at hspent
      cases hspent
    · rfl

theorem Yields.of_map {f : α → β} (hf : Function.Injective f)
    (h : Yields (program >>= fun value => Pure.pure (f value)) s (f value) post) : Yields program s value post := by
  obtain ⟨s', hrun, hs'⟩ := h
  exact ⟨s', hrun.of_map hf, hs'⟩

/-- A run that is known to end may be followed by one of which less is known. -/
theorem Yields.bind_meets {next : α → Exec S β} {result : β → S → Prop} (h : Yields program s value post)
    (hnext : ∀ s', post s' → Meets (next value) s' result fun _ => True) :
    Meets (program >>= next) s result fun _ => True := by
  obtain ⟨s', ⟨least, hrun⟩, hs'⟩ := h
  intro fuel
  by_cases hfuel : least ≤ fuel
  · rw [bind_done ((hrun fuel).1 hfuel)]
    exact hnext s' hs' fuel
  · have hspent : ((program >>= next) fuel s).1 = .spent := bind_spent ((hrun fuel).2 (by omega))
    rcases hcase : (program >>= next) fuel s with ⟨outcome, t⟩
    rw [hcase] at hspent
    subst hspent
    trivial

/-- What is known of all values is known of the value. -/
theorem Yields.of_meets {result : α → S → Prop} {cut : S → Prop} (h : Yields program s value post)
    (hmeets : Meets program s result cut) : ∃ s', post s' ∧ result value s' := by
  obtain ⟨s', hevals, hs'⟩ := h
  exact ⟨s', hs', hevals.of_meets hmeets⟩

theorem Cycles.loop {body : β → Exec S (Turn β α)} {x : β} (h : Cycles body x s value post) :
    Yields (loop body x) s value post := by
  obtain ⟨s', hrun, hs'⟩ := h
  exact ⟨s', .loop hrun, hs'⟩

theorem Cycles.stop {body : β → Exec S (Turn β α)} {x : β} (h : Yields (body x) s (.stop value) post) :
    Cycles body x s value post := by
  obtain ⟨s', hrun, hs'⟩ := h
  exact ⟨s', .stop hrun, hs'⟩

theorem Cycles.again {body : β → Exec S (Turn β α)} {x x' : β} {post' : S → Prop}
    (h : Yields (body x) s (.again x') post) (hrest : ∀ s', post s' → Cycles body x' s' value post') :
    Cycles body x s value post' := by
  obtain ⟨s', hrun, hs'⟩ := h
  obtain ⟨s'', hcycles, hs''⟩ := hrest s' hs'
  exact ⟨s'', .again hrun hcycles, hs''⟩

/-- The run ends with some value in a state of this property. -/
def Attains (program : Exec S α) (s : S) (post : α → S → Prop) : Prop :=
  ∃ value, Yields program s value (post value)

theorem Attains.pure {post : α → S → Prop} (h : post value s) : Attains (Pure.pure value) s post :=
  ⟨value, .pure h⟩

/-- A run that is known attains just what it shows. -/
theorem Evals.attains_iff {s' : S} {post : α → S → Prop} (h : Evals program s value s') :
    Attains program s post ↔ post value s' := by
  constructor
  · rintro ⟨value', t, hevals, hpost⟩
    obtain ⟨hvalue, rfl⟩ := h.unique hevals
    cases hvalue
    exact hpost
  · exact fun hpost => ⟨value, s', h, hpost⟩

/-- What is known of every run that ends, besides. -/
theorem Attains.meets {post post' : α → S → Prop} {cut : S → Prop} (h : Attains program s post)
    (hmeets : Meets program s post' cut) : Attains program s fun value s' => post value s' ∧ post' value s' := by
  obtain ⟨value, s', hevals, hpost⟩ := h
  exact ⟨value, s', hevals, hpost, hevals.of_meets hmeets⟩

/-- What every run keeps, a run that ends has kept. -/
theorem Attains.stays {R : S → S → Prop} {post : α → S → Prop} (h : Attains program s post) (hstays : Stays R program) :
    Attains program s fun value s' => post value s' ∧ R s s' := by
  obtain ⟨value, s', hevals, hpost⟩ := h
  obtain ⟨fuel, hrun⟩ := hevals.reached
  have hlast := hstays fuel s
  rw [hrun] at hlast
  exact ⟨value, s', hevals, hpost, hlast⟩

theorem Yields.bind_attains {next : α → Exec S β} {post' : β → S → Prop} (h : Yields program s value post)
    (hnext : ∀ s', post s' → Attains (next value) s' post') : Attains (program >>= next) s post' := by
  obtain ⟨s', hrun, hs'⟩ := h
  obtain ⟨result, s'', hrest, hs''⟩ := hnext s' hs'
  exact ⟨result, s'', hrun.bind hrest, hs''⟩

theorem Attains.bind {next : α → Exec S β} {post : α → S → Prop} {post' : β → S → Prop}
    (h : Attains program s post) (hnext : ∀ value s', post value s' → Attains (next value) s' post') :
    Attains (program >>= next) s post' := by
  obtain ⟨value, h⟩ := h
  exact h.bind_attains (hnext value)

theorem Attains.zoom {part : Lens S T} {program : Exec T α} {postPart : α → T → Prop} {post : α → S → Prop}
    (h : Attains program (part.get s) postPart) (hpost : ∀ value t, postPart value t → post value (part.set t s)) :
    Attains (zoom part program) s post := by
  obtain ⟨value, hyields⟩ := h
  exact ⟨value, hyields.zoom fun t ht => hpost value t ht⟩

theorem Attains.modify_bind {update : S → S} {next : Unit → Exec S α} {post : α → S → Prop}
    (h : Attains (next ()) (update s) post) : Attains (Exec.modify update >>= next) s post := by
  obtain ⟨value, h⟩ := h
  exact ⟨value, .modify_bind h⟩

theorem Attains.gets_bind {read : S → β} {next : β → Exec S α} {post : α → S → Prop}
    (h : Attains (next (read s)) s post) : Attains (Exec.gets read >>= next) s post := by
  obtain ⟨value, h⟩ := h
  exact ⟨value, .gets_bind h⟩

theorem Attains.check_bind {inRange : Prop} [Decidable inRange] {next : Unit → Exec S α}
    {post : α → S → Prop} (hrange : inRange) (h : Attains (next ()) s post) :
    Attains (Exec.check inRange >>= next) s post := by
  obtain ⟨value, h⟩ := h
  exact ⟨value, .check_bind hrange h⟩

end Yields

/-! ### Loops with a measure -/

/-- The states that a loop gets to by turns that go on. -/
inductive Reaches (body : β → Exec S (Turn β α)) (x : β) (s : S) : β → S → Prop
  | start : Reaches body x s x s
  | again {x' x'' : β} {s' s'' : S} (h : Reaches body x s x' s') (hturn : Evals (body x') s' (.again x'') s'') :
      Reaches body x s x'' s''

/-- What a turn leaves: an invariant and a smaller measure, or the result. -/
def Lowers (inv : β → S → Prop) (measure : β → Nat) (post : α → S → Prop) (x : β) (turn : Turn β α) (s : S) : Prop :=
  match turn with
  | .again x' => inv x' s ∧ measure x' < measure x
  | .stop value => post value s

section Measure

variable {body : β → Exec S (Turn β α)} {x₀ x : β} {s₀ s : S} {inv : β → S → Prop} {measure : β → Nat}
  {post : α → S → Prop}

theorem Reaches.invariant
    (hturn : ∀ x s, Reaches body x₀ s₀ x s → inv x s → Attains (body x) s (Lowers inv measure post x))
    (hstart : inv x₀ s₀) (h : Reaches body x₀ s₀ x s) : inv x s := by
  induction h with
  | start => exact hstart
  | again hreach heval ih => exact ((heval.attains_iff).mp (hturn _ _ hreach ih)).1

/-- A loop whose turns lower a measure ends. -/
theorem Attains.loop
    (hturn : ∀ x s, Reaches body x₀ s₀ x s → inv x s → Attains (body x) s (Lowers inv measure post x))
    (hstart : inv x₀ s₀) : Attains (loop body x₀) s₀ post := by
  suffices hall : ∀ x s, Reaches body x₀ s₀ x s → inv x s →
      ∃ value s', Iterates body x s (.done value) s' ∧ post value s' by
    obtain ⟨value, s', hiterates, hpost⟩ := hall x₀ s₀ .start hstart
    exact ⟨value, s', .loop hiterates, hpost⟩
  intro x
  induction hleft : measure x using Nat.strongRecOn generalizing x with
  | ind left ih =>
      intro s hreach hinv
      obtain ⟨turn, s', heval, hlowers⟩ := hturn x s hreach hinv
      cases turn with
      | stop value => exact ⟨value, s', .stop heval, hlowers⟩
      | again x' =>
          obtain ⟨value, s'', hrest, hpost⟩ := ih _ (hleft ▸ hlowers.2) x' rfl s' (hreach.again heval) hlowers.1
          exact ⟨value, s'', .again heval hrest, hpost⟩

end Measure

/-- What a turn leaves: an invariant, and less to do or at least a smaller lag, or the result. -/
def Advances (inv : β → S → Prop) (left : β → Nat) (lag : S → Nat) (post : α → S → Prop) (x : β) (s : S) (turn : Turn β α)
    (s' : S) : Prop :=
  match turn with
  | .again x' => inv x' s' ∧ (left x' < left x ∨ left x' = left x ∧ lag s' < lag s)
  | .stop value => post value s'

/-- A loop whose turns get on, or wait for something that waits for them no longer than its lag, ends. -/
theorem Attains.loop_waiting {body : β → Exec S (Turn β α)} {inv : β → S → Prop} {left : β → Nat} {lag : S → Nat}
    {post : α → S → Prop} (hturn : ∀ x s, inv x s → Attains (body x) s (Advances inv left lag post x s)) {x : β} {s : S}
    (hstart : inv x s) : Attains (Exec.loop body x) s post := by
  suffices hall : ∀ x s, inv x s → ∃ value s', Iterates body x s (.done value) s' ∧ post value s' by
    obtain ⟨value, s', hiterates, hpost⟩ := hall x s hstart
    exact ⟨value, s', .loop hiterates, hpost⟩
  intro x
  induction hleft : left x using Nat.strongRecOn generalizing x with
  | ind _ ihLeft =>
      intro s
      induction hlag : lag s using Nat.strongRecOn generalizing x s with
      | ind _ ihLag =>
          intro hinv
          obtain ⟨turn, s', heval, hadvances⟩ := hturn x s hinv
          cases turn with
          | stop value => exact ⟨value, s', .stop heval, hadvances⟩
          | again x' =>
              have hrest : ∃ value s'', Iterates body x' s' (.done value) s'' ∧ post value s'' := by
                rcases hadvances.2 with hless | ⟨hsame, hless⟩
                · exact ihLeft _ (hleft ▸ hless) x' rfl s' hadvances.1
                · exact ihLag _ (hlag ▸ hless) x' (hsame.trans hleft) s' rfl hadvances.1
              obtain ⟨value, s'', hiterates, hpost⟩ := hrest
              exact ⟨value, s'', .again heval hiterates, hpost⟩

end Exec
