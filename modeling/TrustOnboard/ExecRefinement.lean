import TrustOnboard.ExecRules

/-! Operations that refine a specification. The specification is a function from an abstract state and an operation to a
result and the next state; what one operation keeps is carried over to every sequence of them. -/

namespace Exec

variable {S A O R : Type}

/-- Operations one after the other, with their results. -/
def runAll (run : O → Exec S R) : List O → Exec S (List R)
  | [] => pure []
  | op :: ops => do
      let result ← run op
      let results ← runAll run ops
      return result :: results

/-- The results of a specification, and the state behind the last operation. -/
def specAll (spec : A → O → R × A) : A → List O → List R × A
  | x, [] => ([], x)
  | x, op :: ops => ((spec x op).1 :: (specAll spec (spec x op).2 ops).1, (specAll spec (spec x op).2 ops).2)

/-- An operation that is allowed ends as the specification says, in a state that represents the next one. -/
def Refines (spec : A → O → R × A) (represents : A → S → Prop) (allowed : O → Prop) (run : O → Exec S R) : Prop :=
  ∀ x s op, represents x s → allowed op → Yields (run op) s (spec x op).1 (represents (spec x op).2)

section Refines

variable {spec : A → O → R × A} {represents : A → S → Prop} {allowed : O → Prop} {run : O → Exec S R}

/-- **Sequences of operations refine the specification** if each operation does. -/
theorem Refines.runAll (h : Refines spec represents allowed run) (ops : List O) (hallowed : ∀ op ∈ ops, allowed op) {x : A}
    {s : S} (hrep : represents x s) :
    Yields (runAll run ops) s (specAll spec x ops).1 (represents (specAll spec x ops).2) := by
  induction ops generalizing x s with
  | nil => exact .pure hrep
  | cons op ops ih =>
      rw [List.forall_mem_cons] at hallowed
      refine (h x s op hrep hallowed.1).bind fun s₁ hrep₁ => ?_
      refine (ih hallowed.2 hrep₁).bind fun s₂ hrep₂ => ?_
      exact .pure hrep₂

end Refines

section Spec

variable {spec : A → O → R × A}

theorem specAll_append (x : A) (first second : List O) :
    specAll spec x (first ++ second) = ((specAll spec x first).1 ++ (specAll spec (specAll spec x first).2 second).1,
      (specAll spec (specAll spec x first).2 second).2) := by
  induction first generalizing x with
  | nil => rfl
  | cons op ops ih =>
      rw [List.cons_append]
      simp only [specAll, ih, List.cons_append]

/-- The result of one operation among others. -/
theorem specAll_getElem (x : A) (before after : List O) (op : O) :
    (specAll spec x (before ++ op :: after)).1[before.length]? = some (spec (specAll spec x before).2 op).1 := by
  have hlength : ∀ x, (specAll spec x before).1.length = before.length := by
    induction before with
    | nil => exact fun _ => rfl
    | cons op ops ih => exact fun x => congrArg Nat.succ (ih (spec x op).2)
  rw [specAll_append, List.getElem?_append_right (Nat.le_of_eq (hlength x)), hlength, Nat.sub_self]
  rfl

/-- The results of some of the operations. -/
def resultsOf (keep : O → Bool) : List O → List R → List R
  | op :: ops, result :: results =>
      if keep op then result :: resultsOf keep ops results else resultsOf keep ops results
  | _, _ => []

/-- Operations that see only what the others leave alone return what they return on their own. -/
theorem specAll_filter {keep : O → Bool} {same : A → A → Prop}
    (hkeep : ∀ x y op, keep op = true → same x y → (spec x op).1 = (spec y op).1 ∧ same (spec x op).2 (spec y op).2)
    (hskip : ∀ x y op, keep op = false → same x y → same (spec x op).2 y) (ops : List O) {x y : A} (h : same x y) :
    resultsOf keep ops (specAll spec x ops).1 = (specAll spec y (ops.filter keep)).1 := by
  induction ops generalizing x y with
  | nil => rfl
  | cons op ops ih =>
      rw [specAll, resultsOf]
      cases hop : keep op with
      | false =>
          rw [if_neg Bool.false_ne_true, List.filter_cons_of_neg (by rw [hop]; exact Bool.false_ne_true)]
          exact ih (hskip x y op hop h)
      | true =>
          obtain ⟨hresult, hnext⟩ := hkeep x y op hop h
          rw [if_pos rfl, List.filter_cons_of_pos hop, specAll, hresult, ih hnext]

end Spec

end Exec
