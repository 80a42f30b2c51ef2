import TrustOnboard.ExecRules

/-! Programs on states of different kinds. A program simulates another one if it ends wherever that one ends, with the same
value and in a related state. It may take more turns for it, and need more fuel. -/

namespace Exec

variable {S C T ι α β : Type} {R : S → C → Prop} {Q : α → S → C → Prop}

/-- From related states, with what `program` ends, `concrete` ends, in related states. -/
def Simulates (R : S → C → Prop) (Q : α → S → C → Prop) (program : Exec S α) (concrete : Exec C α) : Prop :=
  ∀ fuel s c value s', R s c → program fuel s = (.done value, s') → Yields concrete c value (Q value s')

namespace Simulates

variable {program : Exec S α} {concrete : Exec C α}

theorem pure {value : α} (h : ∀ s c, R s c → Q value s c) : Simulates R Q (pure value) (pure value) := by
  intro fuel s c result s' hrel hrun
  cases hrun
  exact .pure (h s c hrel)

theorem gets {read : S → α} {read' : C → α} (h : ∀ s c, R s c → read s = read' c ∧ Q (read s) s c) :
    Simulates R Q (gets read) (gets read') := by
  intro fuel s c result s' hrel hrun
  cases hrun
  obtain ⟨hsame, hpost⟩ := h s c hrel
  rw [hsame] at hpost ⊢
  exact ⟨c, .gets, hpost⟩

theorem modify {update : S → S} {update' : C → C} {R' : S → C → Prop} (h : ∀ s c, R s c → R' (update s) (update' c)) :
    Simulates R (fun _ => R') (modify update) (modify update') := by
  intro fuel s c result s' hrel hrun
  cases hrun
  exact ⟨update' c, .modify, h s c hrel⟩

theorem check (inRange : Prop) [Decidable inRange] :
    Simulates R (fun _ => R) (check inRange) (check inRange) := by
  intro fuel s c result s' hrel hrun
  obtain ⟨hrange, rfl⟩ := check_eq_done hrun
  exact ⟨c, .check hrange, hrel⟩

theorem bind {next : α → Exec S β} {next' : α → Exec C β} {Q' : β → S → C → Prop} (h : Simulates R Q program concrete)
    (hnext : ∀ value, Simulates (Q value) Q' (next value) (next' value)) :
    Simulates R Q' (program >>= next) (concrete >>= next') := by
  intro fuel s c result s' hrel hrun
  obtain ⟨value, s₁, hfirst, hsecond⟩ := bind_eq_done hrun
  exact (h fuel s c value s₁ hrel hfirst).bind fun c₁ hrel₁ => hnext value fuel s₁ c₁ result s' hrel₁ hsecond

theorem ite {c : Prop} [Decidable c] {no : Exec S α} {no' : Exec C α} (hyes : Simulates R Q program concrete)
    (hno : Simulates R Q no no') : Simulates R Q (if c then program else no) (if c then concrete else no') := by
  split
  · exact hyes
  · exact hno

/-- What two turns are to end in: in states to go on from, or in the results of the loops. -/
def OfTurn (R : S → C → Prop) (Q : α → S → C → Prop) (turn : Turn β α) (s : S) (c : C) : Prop :=
  match turn with
  | .again _ => R s c
  | .stop value => Q value s c

/-- Turns that simulate the turns of a loop make a loop that simulates it. -/
theorem loop {body : β → Exec S (Turn β α)} {body' : β → Exec C (Turn β α)}
    (h : ∀ x, Simulates R (OfTurn R Q) (body x) (body' x)) (start : β) :
    Simulates R Q (loop body start) (loop body' start) := by
  intro fuel s c value s' hrel hrun
  suffices ∀ count x s c, R s c → turns body fuel count x s = (.done value, s') →
      Cycles body' x c value (Q value s') from (this fuel start s c hrel hrun).loop
  intro count
  induction count with
  | zero =>
      intro x s c _ hrun
      cases hrun
  | succ count ih =>
      intro x s c hrel hrun
      rw [turns] at hrun
      rcases hturn : body x fuel s with ⟨turn | _ | _, s₁⟩
      · rw [hturn] at hrun
        have hbody := h x fuel s c turn s₁ hrel hturn
        cases turn with
        | again x' => exact .again hbody fun c₁ hrel₁ => ih x' s₁ c₁ hrel₁ hrun
        | stop result =>
            cases hrun
            exact .stop hbody
      · rw [hturn] at hrun
        cases hrun
      · rw [hturn] at hrun
        cases hrun

/-- A program of a part of the state simulates what the program of the part does. -/
theorem zoom {part : Lens C T} {program' : Exec T α} {R' : ι → S → T → Prop} {Q' : ι → α → S → T → Prop}
    (h : ∀ i, Simulates (R' i) (Q' i) program program')
    (hpart : ∀ s c, R s c → ∃ i, R' i s (part.get c) ∧ ∀ value s' t, Q' i value s' t → Q value s' (part.set t c)) :
    Simulates R Q program (zoom part program') := by
  intro fuel s c value s' hrel hrun
  obtain ⟨i, hpre, hpost⟩ := hpart s c hrel
  exact (h i fuel s (part.get c) value s' hpre hrun).zoom fun t => hpost value s' t

end Simulates

end Exec
