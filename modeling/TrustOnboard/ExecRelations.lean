import TrustOnboard.ExecRules

/-! Two runs of one program. `Relates P Q` says that from states related by `P` the runs end alike, with
related states by `Q` if they end with a value. What a program does not read may differ in `P`; what it sets
may be required equal in `Q`. -/

namespace Exec

variable {S T α β : Type} {P R : S → S → Prop} {Q : α → S → S → Prop}

/-- Runs from related states end alike, those with a value in related states. -/
def Relates (P : S → S → Prop) (Q : α → S → S → Prop) (program : Exec S α) : Prop :=
  ∀ fuel s t, P s t → (program fuel s).1 = (program fuel t).1 ∧
    ∀ value, (program fuel s).1 = .done value → Q value (program fuel s).2 (program fuel t).2

/-- Runs from related states end alike and in related states. -/
abbrev Respects (P : S → S → Prop) (program : Exec S α) : Prop := Relates P (fun _ => P) program

theorem Relates.mono {P' : S → S → Prop} {Q' : α → S → S → Prop} {program : Exec S α} (h : Relates P Q program)
    (hpre : ∀ s t, P' s t → P s t) (hpost : ∀ value s t, Q value s t → Q' value s t) : Relates P' Q' program := by
  intro fuel s t hst
  obtain ⟨hend, hrel⟩ := h fuel s t (hpre s t hst)
  exact ⟨hend, fun value hvalue => hpost _ _ _ (hrel value hvalue)⟩

/-- A relation that implies a fact may be used with the fact. -/
theorem Relates.of_fact {fact : Prop} {program : Exec S α} (hfact : ∀ s t, P s t → fact)
    (h : fact → Relates P Q program) : Relates P Q program :=
  fun fuel s t hst => h (hfact s t hst) fuel s t hst

/-- States that are equal need no argument. -/
theorem Relates.of_eq {program : Exec S α} (heq : ∀ s t, P s t → s = t) (hrefl : ∀ value s, Q value s s) :
    Relates P Q program := by
  intro fuel s t hst
  rw [heq s t hst]
  exact ⟨rfl, fun value _ => hrefl value _⟩

theorem Relates.pure {value : α} (h : ∀ s t, P s t → Q value s t) : Relates P Q (pure value : Exec S α) := by
  intro fuel s t hst
  refine ⟨rfl, fun other hdone => ?_⟩
  cases hdone
  exact h s t hst

theorem Respects.pure (value : α) : Respects P (Pure.pure value : Exec S α) := Relates.pure fun _ _ hst => hst

theorem Relates.fault : Relates P Q (fault : Exec S α) := fun _ _ _ _ => ⟨rfl, fun _ hdone => by cases hdone⟩

theorem Relates.gets {read : S → α} (h : ∀ s t, P s t → read s = read t)
    (hpost : ∀ s t, P s t → Q (read s) s t) : Relates P Q (gets read) := by
  intro fuel s t hst
  refine ⟨?_, fun value hdone => ?_⟩
  · show Outcome.done (read s) = Outcome.done (read t)
    rw [h s t hst]
  · cases hdone
    exact hpost s t hst

theorem Respects.gets {read : S → α} (h : ∀ s t, P s t → read s = read t) : Respects P (Exec.gets read) :=
  Relates.gets h fun _ _ hst => hst

theorem Relates.modify {update : S → S} (h : ∀ s t, P s t → R (update s) (update t)) :
    Relates P (fun _ => R) (modify update) := fun _ s t hst => ⟨rfl, fun _ _ => h s t hst⟩

theorem Relates.check (inRange : Prop) [Decidable inRange] :
    Relates P (fun _ s t => P s t ∧ inRange) (check inRange : Exec S Unit) := by
  intro fuel s t hst
  by_cases hrange : inRange
  · rw [check_pos hrange, check_pos hrange]
    exact ⟨rfl, fun _ _ => ⟨hst, hrange⟩⟩
  · rw [check_neg hrange, check_neg hrange]
    exact ⟨rfl, fun _ hdone => by cases hdone⟩

theorem Respects.check (inRange : Prop) [Decidable inRange] : Respects P (Exec.check inRange : Exec S Unit) :=
  (Relates.check inRange).mono (fun _ _ hst => hst) fun _ _ _ hst => hst.1

theorem Respects.isolated (start : T) (program : Exec T α) :
    Respects P (isolated start program : Exec S (α × T)) := by
  intro fuel s t hst
  simp only [Exec.isolated]
  rcases program fuel start with ⟨value | _ | _, t⟩
  · exact ⟨rfl, fun _ _ => hst⟩
  · exact ⟨rfl, fun _ hdone => by cases hdone⟩
  · exact ⟨rfl, fun _ hdone => by cases hdone⟩

theorem Relates.bind {program : Exec S α} {next : α → Exec S β} {Q' : β → S → S → Prop} (h : Relates P Q program)
    (hnext : ∀ value, Relates (Q value) Q' (next value)) : Relates P Q' (program >>= next) := by
  intro fuel s t hst
  obtain ⟨hend, hrel⟩ := h fuel s t hst
  rw [bind_apply, bind_apply]
  rcases hleft : program fuel s with ⟨outcome, s'⟩
  rcases hright : program fuel t with ⟨outcome', t'⟩
  rw [hleft, hright] at hend hrel
  subst hend
  cases outcome with
  | done value => exact hnext value fuel s' t' (hrel value rfl)
  | fault => exact ⟨rfl, fun _ hdone => by cases hdone⟩
  | spent => exact ⟨rfl, fun _ hdone => by cases hdone⟩

/-- What is read may differ, if what follows is the same. -/
theorem Relates.gets_bind {read : S → β} {next : β → Exec S α} (h : ∀ s t, P s t → next (read s) = next (read t))
    (hnext : ∀ value, Relates P Q (next value)) : Relates P Q (Exec.gets read >>= next) := by
  intro fuel s t hst
  show (next (read s) fuel s).1 = (next (read t) fuel t).1 ∧
    ∀ value, (next (read s) fuel s).1 = .done value → Q value (next (read s) fuel s).2 (next (read t) fuel t).2
  rw [← h s t hst]
  exact hnext (read s) fuel s t hst

/-- What every run ends in may be used. -/
theorem Relates.and_meets {program : Exec S α} {post : α → S → Prop} {cut : S → Prop} (h : Relates P Q program)
    (hmeets : ∀ s t, P s t → Meets program s post cut) :
    Relates P (fun value s t => Q value s t ∧ post value s) program := by
  intro fuel s t hst
  obtain ⟨hend, hrel⟩ := h fuel s t hst
  exact ⟨hend, fun value hdone => ⟨hrel value hdone, (hmeets s t hst).done (Prod.ext hdone rfl)⟩⟩

theorem Relates.ite {c : Prop} [Decidable c] {yes no : Exec S α} (hyes : c → Relates P Q yes)
    (hno : ¬c → Relates P Q no) : Relates P Q (if c then yes else no) := by
  split
  · exact hyes ‹_›
  · exact hno ‹_›

/-- What two runs of a turn are to end in: in states to go on from, or in the results of the loop. -/
def TurnRelated (P : S → S → Prop) (Q : α → S → S → Prop) (turn : Turn β α) (s t : S) : Prop :=
  match turn with
  | .again _ => P s t
  | .stop value => Q value s t

/-- Related turns make related loops. -/
theorem Relates.loop {body : β → Exec S (Turn β α)} (h : ∀ x, Relates P (TurnRelated P Q) (body x)) (start : β) :
    Relates P Q (loop body start) := by
  intro fuel s t hst
  suffices ∀ count x s t, P s t → (turns body fuel count x s).1 = (turns body fuel count x t).1 ∧
      ∀ value, (turns body fuel count x s).1 = .done value →
        Q value (turns body fuel count x s).2 (turns body fuel count x t).2 from this fuel start s t hst
  intro count
  induction count with
  | zero => exact fun x s t _ => ⟨rfl, fun _ hdone => by cases hdone⟩
  | succ count ih =>
      intro x s t hst
      obtain ⟨hend, hrel⟩ := h x fuel s t hst
      rw [turns, turns]
      rcases hleft : body x fuel s with ⟨outcome, s'⟩
      rcases hright : body x fuel t with ⟨outcome', t'⟩
      rw [hleft, hright] at hend hrel
      subst hend
      rcases outcome with turn | _ | _
      · cases turn with
        | again x' => exact ih x' s' t' (hrel _ rfl)
        | stop value =>
            refine ⟨rfl, fun other hdone => ?_⟩
            cases hdone
            exact hrel _ rfl
      · exact ⟨rfl, fun _ hdone => by cases hdone⟩
      · exact ⟨rfl, fun _ hdone => by cases hdone⟩

theorem Respects.loop {body : β → Exec S (Turn β α)} (h : ∀ x, Respects P (body x)) (start : β) :
    Respects P (loop body start) := by
  refine Relates.loop (fun x => (h x).mono (fun _ _ hst => hst) fun turn s t hst => ?_) start
  cases turn <;> exact hst

theorem Relates.zoom {part : Lens S T} {P' : T → T → Prop} {Q' : α → T → T → Prop} {program : Exec T α}
    (h : Relates P' Q' program) (hpre : ∀ s t, P s t → P' (part.get s) (part.get t))
    (hpost : ∀ value s t a b, P s t → Q' value a b → Q value (part.set a s) (part.set b t)) :
    Relates P Q (zoom part program) := by
  intro fuel s t hst
  obtain ⟨hend, hrel⟩ := h fuel (part.get s) (part.get t) (hpre s t hst)
  exact ⟨hend, fun value hdone => hpost value s t _ _ hst (hrel value hdone)⟩

end Exec
