import TrustOnboard.ExecRelations

/-! Programs with guards. A guard is a condition on the states that a run passes; a run that does not meet it ends
without a value. `Erases` says that a program with guards runs like the program without them as long as they hold,
and `Agrees` that two runs are alike as long as they hold in both. -/

namespace Exec

variable {S α β : Type}

open scoped Classical in
/-- Go on only in a state with this property. -/
noncomputable def guard (good : S → Prop) : OptionT (Exec S) Unit :=
  OptionT.mk fun _ s => (.done (if good s then some () else none), s)

/-- A turn with guards. The loop stops at a guard that does not hold. -/
def guardedTurn (body : β → OptionT (Exec S) (Turn β α)) (x : β) : Exec S (Turn β (Option α)) := do
  match ← (body x).run with
  | some (.again x') => return .again x'
  | some (.stop value) => return .stop (some value)
  | none => return .stop none

/-- The unbounded loop of turns with guards. -/
def guardedLoop (body : β → OptionT (Exec S) (Turn β α)) (start : β) : OptionT (Exec S) α :=
  OptionT.mk (loop (guardedTurn body) start)

/-- Every guard that the run reaches holds. -/
def Passes (guarded : OptionT (Exec S) α) (fuel : Nat) (s : S) : Prop := (guarded.run fuel s).1 ≠ .done none

section Runs

variable {guarded : OptionT (Exec S) α} {next : α → OptionT (Exec S) β} {fuel : Nat} {s s' : S}

theorem guarded_bind_apply (guarded : OptionT (Exec S) α) (next : α → OptionT (Exec S) β) (fuel : Nat) (s : S) :
    (guarded >>= next).run fuel s =
      match guarded.run fuel s with
      | (.done (some value), s') => (next value).run fuel s'
      | (.done none, s') => (.done none, s')
      | (.fault, s') => (.fault, s')
      | (.spent, s') => (.spent, s') := by
  show (guarded.run >>= _) fuel s = _
  rw [bind_apply]
  rcases guarded.run fuel s with ⟨⟨_ | _⟩ | _ | _, s'⟩ <;> rfl

theorem lift_apply (program : Exec S α) (fuel : Nat) (s : S) :
    (OptionT.lift program).run fuel s =
      match program fuel s with
      | (.done value, s') => (.done (some value), s')
      | (.fault, s') => (.fault, s')
      | (.spent, s') => (.spent, s') := by
  show (program >>= fun value => pure (some value)) fuel s = _
  rw [bind_apply]
  rcases program fuel s with ⟨_ | _ | _, s'⟩ <;> rfl

theorem guard_pos {good : S → Prop} (h : good s) (fuel : Nat) : (guard good).run fuel s = (.done (some ()), s) :=
  congrArg (fun value => (Outcome.done value, s)) (if_pos h)

theorem guard_neg {good : S → Prop} (h : ¬good s) (fuel : Nat) : (guard good).run fuel s = (.done none, s) :=
  congrArg (fun value => (Outcome.done value, s)) (if_neg h)

/-- A run that passes a guard is in a state with the property. -/
theorem Passes.guard {good : S → Prop} {next : Unit → OptionT (Exec S) α}
    (h : Passes (Exec.guard good >>= next) fuel s) :
    good s ∧ (Exec.guard good >>= next).run fuel s = (next ()).run fuel s := by
  rw [Passes, guarded_bind_apply] at h
  rw [guarded_bind_apply]
  by_cases hgood : good s
  · rw [guard_pos hgood]
    exact ⟨hgood, rfl⟩
  · rw [guard_neg hgood] at h
    exact absurd rfl h

theorem Passes.bind (h : Passes (guarded >>= next) fuel s) :
    Passes guarded fuel s ∧ ∀ value s', guarded.run fuel s = (.done (some value), s') →
    Passes (next value) fuel s' := by
  rw [Passes, guarded_bind_apply] at h
  constructor
  · intro hnone
    apply h
    rcases hrun : guarded.run fuel s with ⟨outcome, s'⟩
    rw [hrun] at hnone
    obtain rfl : outcome = .done none := hnone
    rfl
  · intro value s' hrun
    rwa [hrun] at h

theorem Passes.lift {program : Exec S α} {value : α} (h : Passes (OptionT.lift program >>= next) fuel s)
    (hrun : program fuel s = (.done value, s')) : Passes (next value) fuel s' := by
  refine h.bind.2 value s' ?_
  rw [lift_apply, hrun]

theorem passes_turn {body : β → OptionT (Exec S) (Turn β α)} {count : Nat} {x : β}
    (h : (turns (guardedTurn body) fuel (count + 1) x s).1 ≠ .done none) : Passes (body x) fuel s := by
  intro hnone
  apply h
  rw [turns, guardedTurn, bind_apply]
  rcases hrun : (body x).run fuel s with ⟨outcome, s'⟩
  rw [hrun] at hnone
  obtain rfl : outcome = .done none := hnone
  rfl

/-! A run through all guards to a value. -/

theorem Evals.lift {program : Exec S α} {value : α} (h : Evals program s value s') :
    Evals (OptionT.lift program).run s (some value) s' := h.bind .pure

theorem Evals.guarded_bind {value : α} {result : Option β} {s'' : S} (h : Evals guarded.run s (some value) s')
    (hnext : Evals (next value).run s' result s'') : Evals (guarded >>= next).run s result s'' := h.bind hnext

theorem Evals.guard {good : S → Prop} {next : Unit → OptionT (Exec S) α} {value : Option α} (h : good s)
    (hnext : Evals (next ()).run s value s') : Evals (Exec.guard good >>= next).run s value s' := by
  have hguard : Evals (Exec.guard good).run s (some ()) s := .of_eq fun fuel => guard_pos h fuel
  exact hguard.guarded_bind hnext

theorem Evals.guardedTurn_again {body : β → OptionT (Exec S) (Turn β α)} {x x' : β}
    (h : Evals (body x).run s (some (.again x')) s') : Evals (guardedTurn body x) s (.again x') s' := h.bind .pure

theorem Evals.guardedTurn_stop {body : β → OptionT (Exec S) (Turn β α)} {x : β} {value : α}
    (h : Evals (body x).run s (some (.stop value)) s') : Evals (guardedTurn body x) s (.stop (some value)) s' :=
    h.bind .pure

theorem Evals.passes {value : α} (h : Evals guarded.run s (some value) s') (fuel : Nat) : Passes guarded fuel s := by
  obtain ⟨least, hrun⟩ := h
  intro hnone
  by_cases hfuel : least ≤ fuel
  · rw [(hrun fuel).1 hfuel] at hnone
    cases hnone
  · have hspent := (hrun fuel).2 (by omega)
    rw [hnone] at hspent
    cases hspent

end Runs

/-! ### The program without the guards -/

/-- As long as the guards hold, the second program runs like the first. -/
def Erases (guarded : OptionT (Exec S) α) (program : Exec S α) : Prop :=
  ∀ fuel s, Passes guarded fuel s → guarded.run fuel s = (OptionT.lift program).run fuel s

section Erases

variable {guarded : OptionT (Exec S) α} {program : Exec S α}

theorem Erases.lift (program : Exec S α) : Erases (OptionT.lift program) program := fun _ _ _ => rfl

theorem Erases.pure (value : α) : Erases (Pure.pure value : OptionT (Exec S) α) (Pure.pure value) := fun _ _ _ => rfl

theorem Erases.guard {good : S → Prop} {next : Unit → OptionT (Exec S) α} (h : Erases (next ()) program) :
    Erases (Exec.guard good >>= next) program := by
  intro fuel s hpasses
  have heq := hpasses.guard.2
  rw [Passes, heq] at hpasses
  rw [heq]
  exact h fuel s hpasses

theorem Erases.bind {next' : α → OptionT (Exec S) β} {next : α → Exec S β} (h : Erases guarded program)
    (hnext : ∀ value, Erases (next' value) (next value)) : Erases (guarded >>= next') (program >>= next) := by
  intro fuel s hpasses
  obtain ⟨hfirst, hrest⟩ := hpasses.bind
  have hrun := h fuel s hfirst
  rw [lift_apply] at hrun
  rw [guarded_bind_apply, lift_apply, bind_apply]
  rcases hprogram : program fuel s with ⟨value | _ | _, s'⟩
  · rw [hprogram] at hrun
    rw [hrun]
    show (next' value).run fuel s' = _
    rw [hnext value fuel s' (hrest value s' hrun), lift_apply]
  · rw [hprogram] at hrun
    rw [hrun]
  · rw [hprogram] at hrun
    rw [hrun]

theorem Erases.ite {c : Prop} [Decidable c] {guarded' : OptionT (Exec S) α} {program' : Exec S α}
    (hyes : Erases guarded program) (hno : Erases guarded' program') :
    Erases (if c then guarded else guarded') (if c then program else program') := by
  split
  · exact hyes
  · exact hno

theorem Erases.loop {guarded : β → OptionT (Exec S) (Turn β α)} {program : β → Exec S (Turn β α)}
    (h : ∀ x, Erases (guarded x) (program x)) (start : β) :
    Erases (guardedLoop guarded start) (loop program start) := by
  intro fuel s hpasses
  suffices ∀ count x s, (turns (guardedTurn guarded) fuel count x s).1 ≠ .done none →
      turns (guardedTurn guarded) fuel count x s =
        match turns program fuel count x s with
        | (.done value, s') => (.done (some value), s')
        | (.fault, s') => (.fault, s')
        | (.spent, s') => (.spent, s') by
    rw [lift_apply]
    exact this fuel start s hpasses
  intro count
  induction count with
  | zero => exact fun _ _ _ => rfl
  | succ count ih =>
      intro x s hturns
      have hrun := h x fuel s (passes_turn hturns)
      rw [lift_apply] at hrun
      rw [turns, guardedTurn, bind_apply] at hturns ⊢
      rw [turns]
      rcases hprogram : program x fuel s with ⟨turn | _ | _, s'⟩
      · rw [hprogram] at hrun
        rw [hrun] at hturns ⊢
        cases turn with
        | again x' => exact ih x' s' hturns
        | stop value => rfl
      · rw [hprogram] at hrun
        rw [hrun]
      · rw [hprogram] at hrun
        rw [hrun]

end Erases

/-! ### Two runs with guards -/

/-- Runs from related states whose guards hold end alike, those with a value in related states. -/
def Agrees (P : S → S → Prop) (Q : α → S → S → Prop) (guarded : OptionT (Exec S) α) : Prop :=
  ∀ fuel s t, P s t → Passes guarded fuel s → Passes guarded fuel t →
    (guarded.run fuel s).1 = (guarded.run fuel t).1 ∧
    ∀ value, (guarded.run fuel s).1 = .done (some value) → Q value (guarded.run fuel s).2 (guarded.run fuel t).2

section Agrees

variable {P : S → S → Prop} {Q : α → S → S → Prop} {guarded : OptionT (Exec S) α}

theorem Relates.agrees {program : Exec S α} (h : Relates P Q program) : Agrees P Q (OptionT.lift program) := by
  intro fuel s t hst _ _
  obtain ⟨hend, hrel⟩ := h fuel s t hst
  rw [lift_apply, lift_apply]
  rcases hleft : program fuel s with ⟨outcome, s'⟩
  rcases hright : program fuel t with ⟨outcome', t'⟩
  rw [hleft, hright] at hend hrel
  obtain rfl : outcome = outcome' := hend
  cases outcome with
  | done value =>
      refine ⟨rfl, fun other hdone => ?_⟩
      cases hdone
      exact hrel value rfl
  | fault => exact ⟨rfl, nofun⟩
  | spent => exact ⟨rfl, nofun⟩

theorem Agrees.pure {value : α} (h : ∀ s t, P s t → Q value s t) :
    Agrees P Q (Pure.pure value : OptionT (Exec S) α) := by
  intro fuel s t hst _ _
  refine ⟨rfl, fun other hdone => ?_⟩
  cases hdone
  exact h s t hst

theorem Agrees.mono {P' : S → S → Prop} (h : Agrees P Q guarded) (hpre : ∀ s t, P' s t → P s t) : Agrees P' Q guarded :=
  fun fuel s t hst => h fuel s t (hpre s t hst)

theorem Agrees.bind {next : α → OptionT (Exec S) β} {Q' : β → S → S → Prop} (h : Agrees P Q guarded)
    (hnext : ∀ value, Agrees (Q value) Q' (next value)) : Agrees P Q' (guarded >>= next) := by
  intro fuel s t hst hpasses hpasses'
  obtain ⟨hfirst, hrest⟩ := hpasses.bind
  obtain ⟨hfirst', hrest'⟩ := hpasses'.bind
  obtain ⟨hend, hrel⟩ := h fuel s t hst hfirst hfirst'
  rw [guarded_bind_apply, guarded_bind_apply]
  rcases hleft : guarded.run fuel s with ⟨outcome, s'⟩
  rcases hright : guarded.run fuel t with ⟨outcome', t'⟩
  rw [hleft, hright] at hend hrel
  obtain rfl : outcome = outcome' := hend
  rcases outcome with ⟨_ | value⟩ | _ | _
  · exact ⟨rfl, nofun⟩
  · exact hnext value fuel s' t' (hrel value rfl) (hrest value s' hleft) (hrest' value t' hright)
  · exact ⟨rfl, nofun⟩
  · exact ⟨rfl, nofun⟩

/-- Both runs pass a guard. -/
theorem Agrees.guard {good : S → Prop} {next : Unit → OptionT (Exec S) α}
    (h : Agrees (fun s t => P s t ∧ good s ∧ good t) Q (next ())) : Agrees P Q (Exec.guard good >>= next) := by
  intro fuel s t hst hpasses hpasses'
  obtain ⟨hgood, heq⟩ := hpasses.guard
  obtain ⟨hgood', heq'⟩ := hpasses'.guard
  rw [Passes, heq] at hpasses
  rw [Passes, heq'] at hpasses'
  rw [heq, heq']
  exact h fuel s t ⟨hst, hgood, hgood'⟩ hpasses hpasses'

theorem Agrees.ite {c : Prop} [Decidable c] {yes no : OptionT (Exec S) α} (hyes : c → Agrees P Q yes)
    (hno : ¬c → Agrees P Q no) : Agrees P Q (if c then yes else no) := by
  split
  · exact hyes ‹_›
  · exact hno ‹_›

theorem Agrees.loop {body : β → OptionT (Exec S) (Turn β α)} (h : ∀ x, Agrees P (fun _ => P) (body x)) (start : β) :
    Agrees P (fun _ => P) (guardedLoop body start) := by
  intro fuel s t hst hpasses hpasses'
  suffices ∀ count x s t, P s t → (turns (guardedTurn body) fuel count x s).1 ≠ .done none →
      (turns (guardedTurn body) fuel count x t).1 ≠ .done none →
      (turns (guardedTurn body) fuel count x s).1 = (turns (guardedTurn body) fuel count x t).1 ∧
      ∀ value, (turns (guardedTurn body) fuel count x s).1 = .done (some value) →
        P (turns (guardedTurn body) fuel count x s).2 (turns (guardedTurn body) fuel count x t).2 from
    this fuel start s t hst hpasses hpasses'
  intro count
  induction count with
  | zero => exact fun _ _ _ _ _ _ => ⟨rfl, fun _ hdone => by cases hdone⟩
  | succ count ih =>
      intro x s t hst hturns hturns'
      obtain ⟨hend, hrel⟩ := h x fuel s t hst (passes_turn hturns) (passes_turn hturns')
      rw [turns, guardedTurn, bind_apply] at hturns hturns' ⊢
      rw [turns, guardedTurn, bind_apply]
      rcases hleft : (body x).run fuel s with ⟨outcome, s'⟩
      rcases hright : (body x).run fuel t with ⟨outcome', t'⟩
      rw [hleft, hright] at hend hrel
      rw [hleft] at hturns
      rw [hright] at hturns'
      obtain rfl : outcome = outcome' := hend
      rcases outcome with ⟨_ | turn⟩ | _ | _
      · exact ⟨rfl, fun _ hdone => by cases hdone⟩
      · cases turn with
        | again x' => exact ih x' s' t' (hrel _ rfl) hturns hturns'
        | stop value => exact ⟨rfl, fun _ _ => hrel _ rfl⟩
      · exact ⟨rfl, fun _ hdone => by cases hdone⟩
      · exact ⟨rfl, fun _ hdone => by cases hdone⟩

/-- Two runs of the program without the guards. -/
theorem Agrees.erased {program : Exec S α} {fuel : Nat} {s t : S} (h : Agrees P Q guarded)
    (herases : Erases guarded program)
    (hst : P s t) (hs : Passes guarded fuel s) (ht : Passes guarded fuel t) :
    (program fuel s).1 = (program fuel t).1 ∧
      ∀ value, (program fuel s).1 = .done value → Q value (program fuel s).2 (program fuel t).2 := by
  have hboth := h fuel s t hst hs ht
  rw [herases fuel s hs, herases fuel t ht, lift_apply, lift_apply] at hboth
  rcases hleft : program fuel s with ⟨outcome, s'⟩
  rcases hright : program fuel t with ⟨outcome', t'⟩
  rw [hleft, hright] at hboth
  obtain ⟨hend, hrel⟩ := hboth
  rcases outcome with value | _ | _ <;> rcases outcome' with value' | _ | _ <;> cases hend
  · refine ⟨rfl, fun other hdone => ?_⟩
    cases hdone
    exact hrel value rfl
  · exact ⟨rfl, nofun⟩
  · exact ⟨rfl, nofun⟩

end Agrees

end Exec
