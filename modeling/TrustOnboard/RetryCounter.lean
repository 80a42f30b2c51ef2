import Mathlib.Data.List.Infix

/-! Retry counters. A wrong attempt costs one try, a right one gives all of them back as long as there is one left. The
counter is blocked by wrong attempts in a row, and by nothing else. -/

namespace Retry

/-- The tries that are left after an attempt. -/
def spend (limit : Nat) (tries : Nat) (right : Bool) : Nat := if 0 < tries ∧ right = true then limit else tries - 1

def after (limit : Nat) (tries : Nat) (attempts : List Bool) : Nat := attempts.foldl (spend limit) tries

variable {limit tries : Nat}

theorem spend_le (h : tries ≤ limit) (right : Bool) : spend limit tries right ≤ limit := by
  unfold spend
  split <;> omega

theorem spend_wrong : spend limit tries false = tries - 1 := if_neg fun h => Bool.false_ne_true h.2

/-- From a counter with some tries left: blocked by as many wrong attempts at the start, or by `limit` of them in a row
anywhere. -/
theorem after_eq_zero (hlimit : 0 < limit) (hle : tries ≤ limit) (attempts : List Bool) :
    after limit tries attempts = 0 ↔
      List.replicate tries false <+: attempts ∨ List.replicate limit false <:+: attempts := by
  induction attempts generalizing tries with
  | nil =>
      constructor
      · intro hzero
        have htries : tries = 0 := hzero
        exact .inl (by rw [htries]; exact List.prefix_refl _)
      · rintro (hfirst | hwithin)
        · have hlen := hfirst.length_le
          rw [List.length_replicate] at hlen
          exact Nat.le_zero.mp hlen
        · have hlen := hwithin.length_le
          rw [List.length_replicate, List.length_nil] at hlen
          omega
  | cons right attempts ih =>
      have hstep := ih (spend_le hle right)
      rw [after, List.foldl_cons, ← after, hstep]
      cases right with
      | false =>
          rw [spend_wrong]
          rcases Nat.eq_zero_or_pos tries with rfl | hpos
          · exact ⟨fun _ => .inl List.nil_prefix, fun _ => .inl List.nil_prefix⟩
          · obtain ⟨left, rfl⟩ := Nat.exists_eq_succ_of_ne_zero (Nat.pos_iff_ne_zero.mp hpos)
            rw [List.infix_cons_iff, List.replicate_succ, Nat.succ_sub_one]
            constructor
            · rintro (hfirst | hwithin)
              · exact .inl (List.cons_prefix_cons.mpr ⟨rfl, hfirst⟩)
              · exact .inr (.inr hwithin)
            · rintro (hfirst | hfirst | hwithin)
              · exact .inl (List.cons_prefix_cons.mp hfirst).2
              · -- a row of `limit` from here on starts with a row of `left`
                obtain ⟨most, rfl⟩ := Nat.exists_eq_succ_of_ne_zero (Nat.pos_iff_ne_zero.mp hlimit)
                rw [List.replicate_succ] at hfirst
                have hrow := (List.cons_prefix_cons.mp hfirst).2
                have hless : List.replicate left false <+: List.replicate most false :=
                  List.prefix_replicate_iff.mpr ⟨by rw [List.length_replicate]; omega, by rw [List.length_replicate]⟩
                exact .inl (hless.trans hrow)
              · exact .inr hwithin
      | true =>
          rcases Nat.eq_zero_or_pos tries with rfl | hpos
          · have hspend : spend limit 0 true = 0 := if_neg fun h => absurd h.1 (Nat.lt_irrefl 0)
            rw [hspend]
            exact ⟨fun _ => .inl List.nil_prefix, fun _ => .inl List.nil_prefix⟩
          · have hspend : spend limit tries true = limit := if_pos ⟨hpos, rfl⟩
            rw [hspend, List.infix_cons_iff]
            have hno : ∀ n, 0 < n → ¬List.replicate n false <+: true :: attempts := by
              intro n hn hfirst
              obtain ⟨less, rfl⟩ := Nat.exists_eq_succ_of_ne_zero (Nat.pos_iff_ne_zero.mp hn)
              rw [List.replicate_succ] at hfirst
              exact Bool.false_ne_true (List.cons_prefix_cons.mp hfirst).1
            constructor
            · rintro (hfirst | hwithin)
              · exact .inr (.inr hfirst.isInfix)
              · exact .inr (.inr hwithin)
            · rintro (hfirst | hfirst | hwithin)
              · exact absurd hfirst (hno tries hpos)
              · exact absurd hfirst (hno limit hlimit)
              · exact .inr hwithin

end Retry
