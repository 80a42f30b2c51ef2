import Mathlib.Tactic.Common

/-! Fuel-bounded stateful programs. A program maps an amount of fuel and a state to an outcome and a
state; the state is kept when the run is cut short, so that what a run has done so far can be read
off a run that faults or never ends. Fuel is spent only by `loop`, which every unbounded loop and
recursion of a modelled program goes through: the runs at all amounts of fuel are exactly the
finite prefixes, loop by loop, of the unbounded run. -/

/-- How a run ends: with a value, at an access outside an object, or for lack of fuel. -/
inductive Outcome (α : Type) where
  | done (value : α)
  | fault
  | spent
  deriving DecidableEq, Repr

/-- The value of a run that ended. -/
def Outcome.value? {α : Type} : Outcome α → Option α
  | .done value => some value
  | _ => none

/-- What one turn of a loop decides. -/
inductive Turn (β α : Type) where
  | again (next : β)
  | stop (value : α)

/-- A program over states `S` with result in `α`; the natural number is the fuel. -/
def Exec (S α : Type) : Type := Nat → S → Outcome α × S

namespace Exec

variable {S T α β γ : Type}

protected def pure (value : α) : Exec S α := fun _ s => (.done value, s)

protected def bind (program : Exec S α) (next : α → Exec S β) : Exec S β := fun fuel s =>
  match program fuel s with
  | (.done value, s') => next value fuel s'
  | (.fault, s') => (.fault, s')
  | (.spent, s') => (.spent, s')

instance : Monad (Exec S) where
  pure := Exec.pure
  bind := Exec.bind

def get : Exec S S := fun _ s => (.done s, s)

def gets (read : S → α) : Exec S α := fun _ s => (.done (read s), s)

def modify (update : S → S) : Exec S Unit := fun _ s => (.done (), update s)

/-- An access outside its object: nothing is known of the program from here on. -/
def fault : Exec S α := fun _ s => (.fault, s)

/-- Go on only if the access is in range. -/
def check (inRange : Prop) [Decidable inRange] : Exec S Unit :=
  if inRange then Exec.pure () else fault

/-- At most `count` turns of a loop, each run with `fuel`. -/
def turns (body : β → Exec S (Turn β α)) (fuel : Nat) : Nat → β → S → Outcome α × S
  | 0, _, s => (.spent, s)
  | count + 1, x, s =>
      match body x fuel s with
      | (.done (.again x'), s') => turns body fuel count x' s'
      | (.done (.stop value), s') => (.done value, s')
      | (.fault, s') => (.fault, s')
      | (.spent, s') => (.spent, s')

/-- The unbounded loop: turns until one stops. -/
def loop (body : β → Exec S (Turn β α)) (start : β) : Exec S α := fun fuel s =>
  turns body fuel fuel start s

/-- Run a program of its own, local state. -/
def isolated (start : T) (program : Exec T α) : Exec S (α × T) := fun fuel s =>
  match program fuel start with
  | (.done value, t) => (.done (value, t), s)
  | (.fault, _) => (.fault, s)
  | (.spent, _) => (.spent, s)

/-! ### Evaluation -/

@[simp] theorem pure_apply (value : α) (fuel : Nat) (s : S) :
    (pure value : Exec S α) fuel s = (.done value, s) := rfl

@[simp] theorem get_apply (fuel : Nat) (s : S) : (get : Exec S S) fuel s = (.done s, s) := rfl

@[simp] theorem gets_apply (read : S → α) (fuel : Nat) (s : S) :
    gets read fuel s = (.done (read s), s) := rfl

@[simp] theorem modify_apply (update : S → S) (fuel : Nat) (s : S) :
    modify update fuel s = (.done (), update s) := rfl

@[simp] theorem fault_apply (fuel : Nat) (s : S) : (fault : Exec S α) fuel s = (.fault, s) := rfl

theorem bind_apply (program : Exec S α) (next : α → Exec S β) (fuel : Nat) (s : S) :
    (program >>= next) fuel s =
      match program fuel s with
      | (.done value, s') => next value fuel s'
      | (.fault, s') => (.fault, s')
      | (.spent, s') => (.spent, s') := rfl

theorem bind_bind (program : Exec S α) (next : α → Exec S β) (last : β → Exec S γ) :
    program >>= next >>= last = program >>= fun value => next value >>= last := by
  funext fuel s
  simp only [bind_apply]
  rcases program fuel s with ⟨_ | _ | _, s'⟩ <;> rfl

theorem bind_done {program : Exec S α} {next : α → Exec S β} {fuel : Nat} {s s' : S} {value : α}
    (h : program fuel s = (.done value, s')) :
    (program >>= next) fuel s = next value fuel s' := by
  rw [bind_apply, h]

theorem bind_spent {program : Exec S α} {next : α → Exec S β} {fuel : Nat} {s : S}
    (h : (program fuel s).1 = .spent) : ((program >>= next) fuel s).1 = .spent := by
  rw [bind_apply]
  rcases hrun : program fuel s with ⟨_ | _ | _, t⟩
  · rw [hrun] at h
    cases h
  · rw [hrun] at h
    cases h
  · rfl

/-- A run whose value shows something has a value. -/
theorem done_of_value? {run : Outcome α × S} {view : α → β} {seen : β}
    (h : run.1.value?.map view = some seen) : ∃ value, run = (.done value, run.2) ∧ view value = seen := by
  rcases run with ⟨outcome, s⟩
  cases outcome with
  | done value => exact ⟨value, rfl, Option.some.inj h⟩
  | fault => cases h
  | spent => cases h

theorem check_pos {inRange : Prop} [Decidable inRange] (h : inRange) (fuel : Nat) (s : S) :
    check inRange fuel s = (.done (), s) := by
  rw [check, if_pos h]
  rfl

theorem check_neg {inRange : Prop} [Decidable inRange] (h : ¬inRange) (fuel : Nat) (s : S) :
    check inRange fuel s = (.fault, s) := by
  rw [check, if_neg h]
  rfl

/-- A bind that ends with a value ran both parts to a value. -/
theorem bind_eq_done {program : Exec S α} {next : α → Exec S β} {fuel : Nat} {s t : S} {result : β}
    (h : (program >>= next) fuel s = (.done result, t)) :
    ∃ value s', program fuel s = (.done value, s') ∧ next value fuel s' = (.done result, t) := by
  rw [bind_apply] at h
  rcases hrun : program fuel s with ⟨outcome, s'⟩
  rw [hrun] at h
  cases outcome with
  | done value => exact ⟨value, s', rfl, h⟩
  | fault => cases h
  | spent => cases h

theorem check_eq_done {inRange : Prop} [Decidable inRange] {fuel : Nat} {s t : S} {u : Unit}
    (h : check inRange fuel s = (.done u, t)) : inRange ∧ t = s := by
  by_cases hrange : inRange
  · rw [check_pos hrange] at h
    cases h
    exact ⟨hrange, rfl⟩
  · rw [check_neg hrange] at h
    cases h

/-! ### Working on a part of the state -/

/-- A part `T` of the states `S`, with the laws that make reading and replacing it independent of
the rest of the state. -/
structure Lens (S T : Type) where
  get : S → T
  set : T → S → S
  get_set : ∀ t s, get (set t s) = t
  set_get : ∀ s, set (get s) s = s
  set_set : ∀ t t' s, set t (set t' s) = set t s

/-- Run a program of the part; the rest of the state is not touched. -/
def zoom (part : Lens S T) (program : Exec T α) : Exec S α := fun fuel s =>
  ((program fuel (part.get s)).1, part.set (program fuel (part.get s)).2 s)

theorem zoom_done {part : Lens S T} {program : Exec T α} {fuel : Nat} {s : S} {t : T} {value : α}
    (h : program fuel (part.get s) = (.done value, t)) :
    zoom part program fuel s = (.done value, part.set t s) := by
  rw [zoom, h]

theorem zoom_eq_done {part : Lens S T} {program : Exec T α} {fuel : Nat} {s s' : S} {value : α}
    (h : zoom part program fuel s = (.done value, s')) :
    ∃ t, program fuel (part.get s) = (.done value, t) ∧ s' = part.set t s := by
  rcases hrun : program fuel (part.get s) with ⟨outcome, t⟩
  rw [zoom, hrun] at h
  cases h
  exact ⟨t, rfl, rfl⟩

end Exec
