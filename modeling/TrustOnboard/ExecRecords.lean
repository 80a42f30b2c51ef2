import TrustOnboard.ExecRules

/-! Programs with a record. A recorded program runs like the program, and beside it a list is kept of what was passed on
and what came of it. The record is a ghost: `Records` says that without it the run is the same. -/

namespace Exec

variable {S R ε α β : Type}

/-- A program of the state next to a record. -/
def beside (program : Exec S α) : Exec (S × R) α := fun fuel x =>
  match program fuel x.1 with
  | (outcome, s) => (outcome, (s, x.2))

/-- Run a program and enter what is passed on to it, with what it returned if it ended. -/
def recorded (entry : ε) (program : Exec S α) : Exec (S × List (ε × Option α)) α := fun fuel x =>
  match program fuel x.1 with
  | (outcome, s) => (outcome, (s, x.2 ++ [(entry, outcome.value?)]))

/-- Run a program with a record of its own, which is entered as one. -/
def grouped (program : Exec (S × List ε) α) : Exec (S × List (List ε)) α := fun fuel x =>
  match program fuel (x.1, []) with
  | (outcome, (s, group)) => (outcome, (s, x.2 ++ [group]))

/-! ### Without the record -/

/-- Apart from the record, the first program runs like the second. -/
def Records (noted : Exec (S × R) α) (program : Exec S α) : Prop :=
  ∀ fuel x, (noted fuel x).1 = (program fuel x.1).1 ∧ (noted fuel x).2.1 = (program fuel x.1).2

namespace Records

variable {noted : Exec (S × R) α} {program : Exec S α}

theorem pure (value : α) : Records (Pure.pure value : Exec (S × R) α) (Pure.pure value) := fun _ _ => ⟨rfl, rfl⟩

theorem beside (program : Exec S α) : Records (Exec.beside program : Exec (S × R) α) program :=
  fun _ _ => ⟨rfl, rfl⟩

theorem recorded (entry : ε) (program : Exec S α) : Records (Exec.recorded entry program) program :=
  fun _ _ => ⟨rfl, rfl⟩

theorem grouped {noted : Exec (S × List ε) α} (h : Records noted program) : Records (Exec.grouped noted) program :=
  fun fuel x => h fuel (x.1, [])

theorem bind {next : α → Exec (S × R) β} {next' : α → Exec S β} (h : Records noted program)
    (hnext : ∀ value, Records (next value) (next' value)) : Records (noted >>= next) (program >>= next') := by
  intro fuel x
  obtain ⟨houtcome, hstate⟩ := h fuel x
  rw [bind_apply, bind_apply]
  rcases hnoted : noted fuel x with ⟨outcome, x'⟩
  rcases hprogram : program fuel x.1 with ⟨outcome', s'⟩
  rw [hnoted, hprogram] at houtcome hstate
  subst houtcome hstate
  cases outcome with
  | done value => exact hnext value fuel x'
  | fault => exact ⟨rfl, rfl⟩
  | spent => exact ⟨rfl, rfl⟩

theorem ite {c : Prop} [Decidable c] {yes no : Exec (S × R) α} {yes' no' : Exec S α} (hyes : Records yes yes')
    (hno : Records no no') : Records (if c then yes else no) (if c then yes' else no') := by
  split
  · exact hyes
  · exact hno

theorem loop {noted : β → Exec (S × R) (Turn β α)} {body : β → Exec S (Turn β α)}
    (h : ∀ x, Records (noted x) (body x)) (start : β) : Records (Exec.loop noted start) (Exec.loop body start) := by
  intro fuel x
  -- the induction is on the turns left; the fuel of the body does not change
  suffices ∀ count start x, (turns noted fuel count start x).1 = (turns body fuel count start x.1).1 ∧
      (turns noted fuel count start x).2.1 = (turns body fuel count start x.1).2 from this fuel start x
  intro count
  induction count with
  | zero => exact fun _ _ => ⟨rfl, rfl⟩
  | succ count ih =>
      intro start x
      obtain ⟨houtcome, hstate⟩ := h start fuel x
      rw [turns, turns]
      rcases hnoted : noted start fuel x with ⟨outcome, x'⟩
      rcases hbody : body start fuel x.1 with ⟨outcome', s'⟩
      rw [hnoted, hbody] at houtcome hstate
      subst houtcome hstate
      rcases outcome with turn | _ | _
      · cases turn with
        | again next => exact ih next x'
        | stop value => exact ⟨rfl, rfl⟩
      · exact ⟨rfl, rfl⟩
      · exact ⟨rfl, rfl⟩

end Records

/-! ### Partial correctness -/

section Meets

variable {program : Exec S α} {s : S} {post : α → S → Prop} {cut : S → Prop}

theorem Meets.beside_gets_bind {read : S → β} {next : β → Exec (S × R) α} {x : S × R}
    {post : α → S × R → Prop} {cut : S × R → Prop} (h : Meets (next (read x.1)) x post cut) :
    Meets (Exec.beside (Exec.gets read) >>= next) x post cut := h

theorem Meets.recorded (h : Meets program s post cut) (entry : ε) (record : List (ε × Option α)) :
    Meets (recorded entry program) (s, record)
      (fun value x => post value x.1 ∧ x.2 = record ++ [(entry, some value)])
      fun x => cut x.1 ∧ x.2 = record ++ [(entry, none)] := by
  intro fuel
  have hrun := h fuel
  rw [Exec.recorded]
  rcases hprogram : program fuel s with ⟨outcome, s'⟩
  rw [hprogram] at hrun
  cases outcome <;> exact ⟨hrun, rfl⟩

theorem Meets.grouped {program : Exec (S × List ε) α} {post : α → S × List ε → Prop}
    {cut : S × List ε → Prop} (h : Meets program (s, []) post cut) (groups : List (List ε)) :
    Meets (grouped program) (s, groups)
      (fun value x => ∃ group, post value (x.1, group) ∧ x.2 = groups ++ [group])
      fun x => ∃ group, cut (x.1, group) ∧ x.2 = groups ++ [group] := by
  intro fuel
  have hrun := h fuel
  rw [Exec.grouped]
  rcases hprogram : program fuel (s, []) with ⟨outcome, s', group⟩
  rw [hprogram] at hrun
  cases outcome <;> exact ⟨group, hrun, rfl⟩

end Meets

end Exec
