import Mathlib.Data.Finset.Card
import Mathlib.Data.List.Infix

/-! An object that keeps the handle of something it has to give back: a descriptor, a context. It may put a new handle over
one that it has not given back, which is lost then. How many are lost depends on the order of the events only. -/

namespace HandleSlot

/-- What happens to the slot: a handle is acquired and kept, none is kept any more, the kept one is given back. A handle
that was given back stays in the slot. -/
inductive Kind where
  | acquire
  | forget
  | release
  deriving DecidableEq, Repr

/-- Whether the slot holds a live handle behind the event. -/
def Kind.holds : Kind → Bool
  | .acquire => true
  | .forget => false
  | .release => false

/-- The handles that are live, and the one that is kept. -/
structure Slot (H : Type) where
  live : Finset H
  kept : Option H

section Slot

variable {H : Type} [DecidableEq H]

def Slot.holds (s : Slot H) : Bool := s.kept.any fun h => decide (h ∈ s.live)

/-- One event. -/
inductive Step : Slot H → Kind → Slot H → Prop
  | acquire {s : Slot H} {h : H} (hfresh : h ∉ s.live) : Step s .acquire ⟨insert h s.live, some h⟩
  | forget {s : Slot H} : Step s .forget ⟨s.live, none⟩
  | release {s : Slot H} : Step s .release ⟨s.kept.elim s.live s.live.erase, s.kept⟩

/-- Events one after the other. -/
inductive Run : Slot H → List Kind → Slot H → Prop
  | nil {s : Slot H} : Run s [] s
  | cons {s s' s'' : Slot H} {kind : Kind} {kinds : List Kind} (hstep : Step s kind s') (hrest : Run s' kinds s'') :
      Run s (kind :: kinds) s''

theorem Run.append {s s' s'' : Slot H} {kinds kinds' : List Kind} (h : Run s kinds s') (h' : Run s' kinds' s'') :
    Run s (kinds ++ kinds') s'' := by
  induction h with
  | nil => exact h'
  | cons hstep _ ih => exact .cons hstep (ih h')

/-- What one event loses. -/
def loses (held : Bool) (kind : Kind) : Nat := if kind = .release then 0 else held.toNat

/-- What events lose, from a slot that holds a handle or not. -/
def lost : Bool → List Kind → Nat
  | _, [] => 0
  | held, kind :: kinds => loses held kind + lost kind.holds kinds

theorem Slot.holds_iff {s : Slot H} : s.holds = true ↔ ∃ h, s.kept = some h ∧ h ∈ s.live := by
  simp [Slot.holds, Option.any_eq_true]

theorem Step.holds_eq {s s' : Slot H} {kind : Kind} (h : Step s kind s') : s'.holds = kind.holds := by
  cases h with
  | acquire _ => simp [Slot.holds, Kind.holds]
  | forget => rfl
  | release =>
      cases hkept : s.kept with
      | none => simp [Slot.holds, Kind.holds]
      | some h => simp [Slot.holds, Kind.holds]

/-- **One event**: the live handles are those before, less the one that is given back, and the one that is acquired. -/
theorem Step.card {s s' : Slot H} {kind : Kind} (h : Step s kind s') :
    s'.live.card + s.holds.toNat = s.live.card + loses s.holds kind + s'.holds.toNat := by
  rw [h.holds_eq]
  cases h with
  | acquire hfresh =>
      simp only [Finset.card_insert_of_notMem hfresh, loses, Kind.holds, reduceCtorEq, if_false, Bool.toNat_true]
      omega
  | forget => simp [loses, Kind.holds]
  | release =>
      cases hkept : s.kept with
      | none => simp [loses, Kind.holds, Slot.holds, hkept]
      | some h =>
          by_cases hlive : h ∈ s.live
          · have hpos : 0 < s.live.card := Finset.card_pos.mpr ⟨h, hlive⟩
            simp [loses, Kind.holds, Slot.holds, hkept, hlive]
            omega
          · simp [loses, Kind.holds, Slot.holds, hkept, hlive]

/-- **The live handles of a run** are those before, those that were lost, and the one that is held. -/
theorem Run.card {s s' : Slot H} {kinds : List Kind} (h : Run s kinds s') :
    s'.live.card + s.holds.toNat = s.live.card + lost s.holds kinds + s'.holds.toNat := by
  induction h with
  | nil => simp [lost]
  | cons hstep _ ih =>
      have hfirst := hstep.card
      rw [hstep.holds_eq] at hfirst ih
      simp only [lost]
      omega

/-- These handles are live, and the slot keeps none of them. -/
structure Slot.Spares (others : Finset H) (s : Slot H) : Prop where
  live : others ⊆ s.live
  kept : ∀ h, s.kept = some h → h ∉ others

/-- A slot that holds nothing spares all that is live. -/
theorem Slot.spares_live {s : Slot H} (h : s.holds = false) : s.Spares s.live where
  live := Finset.Subset.refl s.live
  kept kept hkept hmem := absurd (Slot.holds_iff.mpr ⟨kept, hkept, hmem⟩) (by rw [h]; exact Bool.false_ne_true)

theorem Step.spares {others : Finset H} {s s' : Slot H} {kind : Kind} (h : Step s kind s') (hspares : s.Spares others) :
    s'.Spares others := by
  cases h with
  | @acquire new hfresh =>
      refine ⟨hspares.live.trans (Finset.subset_insert new s.live), fun h heq hmem => ?_⟩
      cases heq
      exact hfresh (hspares.live hmem)
  | forget => exact ⟨hspares.live, fun h heq => by cases heq⟩
  | release =>
      refine ⟨?_, hspares.kept⟩
      cases hkept : s.kept with
      | none => exact hspares.live
      | some h => exact Finset.subset_erase.mpr ⟨hspares.live, hspares.kept h hkept⟩

/-- **What was live before a run stays live.** -/
theorem Run.spares {others : Finset H} {s s' : Slot H} {kinds : List Kind} (h : Run s kinds s')
    (hspares : s.Spares others) : s'.Spares others := by
  induction h with
  | nil => exact hspares
  | cons hstep _ ih => exact ih (hstep.spares hspares)

end Slot

/-! ### Calls -/

section Calls

variable {C R : Type} (kinds : C → R → List Kind)

/-- The events of calls, each by what it returned. -/
def kindsOf : List C → List R → List Kind
  | call :: calls, result :: results => kinds call result ++ kindsOf calls results
  | _, _ => []

end Calls

/-! ### When nothing is lost -/

theorem lost_held (kinds : List Kind) :
    lost true kinds = 0 ↔ kinds.head? ≠ some .acquire ∧ kinds.head? ≠ some .forget ∧ lost false kinds = 0 := by
  cases kinds with
  | nil => simp [lost]
  | cons kind kinds => cases kind <;> simp [lost, loses]

/-- **Nothing is lost** exactly if no handle is acquired or forgotten right behind an acquired one. -/
theorem lost_eq_zero_iff (kinds : List Kind) :
    lost false kinds = 0 ↔ ¬[Kind.acquire, .acquire] <:+: kinds ∧ ¬[Kind.acquire, .forget] <:+: kinds := by
  induction kinds with
  | nil => simp [lost]
  | cons kind kinds ih =>
      have hstart : ∀ other : Kind, [Kind.acquire, other] <:+: kind :: kinds ↔
          (kind = .acquire ∧ kinds.head? = some other) ∨ [Kind.acquire, other] <:+: kinds := by
        intro other
        rw [List.infix_cons_iff, List.cons_prefix_cons, @eq_comm _ Kind.acquire kind]
        cases kinds with
        | nil => simp
        | cons next kinds =>
            simp only [List.cons_prefix_cons, List.nil_prefix, and_true, List.head?_cons, Option.some_inj,
              @eq_comm _ other next]
      rw [hstart, hstart]
      cases kind with
      | acquire =>
          simp only [lost, loses, Kind.holds, reduceCtorEq, if_false, Bool.toNat_false, Nat.zero_add, lost_held,
            ih, true_and]
          tauto
      | forget => simpa [lost, loses, Kind.holds] using ih
      | release => simpa [lost, loses, Kind.holds] using ih

end HandleSlot
