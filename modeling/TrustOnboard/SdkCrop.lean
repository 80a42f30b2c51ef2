import TrustOnboard.ScanRestart
import TrustOnboard.SdkPem

/-! `crop_pem_chain` is the restarting search for the footer. It crops at the first footer for every text in which
that stands behind broken attempts; the footer begins with dashes, so a run of dashes before it can hide it. -/

namespace TrustOnboard

open ScanRestart

theorem footer_ne_nil : footer ≠ [] := by decide

/-- The comparison of the source with the next character of the footer. -/
theorem footer_getD {matched : Nat} (h : matched < footer.length) (c : UInt8) :
    c = footer.getD matched 0 ↔ footer[matched]? = some c := by
  rw [List.getD_eq_getElem?_getD, List.getElem?_eq_getElem h, Option.getD_some, Option.some_inj]
  exact eq_comm

/-- The loop is the search over the bytes that are left. -/
theorem cropLoop_eq_scan (pem : Mem) (remaining i : Nat) {matched : Nat} (h : matched < footer.length) :
    cropLoop pem remaining i matched = i + (scan footer matched (pem.slice i remaining)).getD remaining := by
  induction remaining generalizing i matched with
  | zero => rfl
  | succ remaining ih =>
      have hsucc : ∀ found : Option Nat,
          i + 1 + found.getD remaining = i + (found.map (· + 1)).getD (remaining + 1) := by
        intro found
        cases found with
        | none =>
            simp only [Option.getD_none, Option.map_none]
            omega
        | some n =>
            simp only [Option.getD_some, Option.map_some]
            omega
      rw [Mem.slice_succ, cropLoop, scan]
      by_cases hc : pem i = footer.getD matched 0
      · rw [if_pos hc, if_pos ((footer_getD h _).mp hc)]
        by_cases hlast : matched + 1 = footer.length
        · rw [if_pos hlast, if_pos hlast, Option.getD_some]
        · rw [if_neg hlast, if_neg hlast, ih (i + 1) (by omega), hsucc]
      · rw [if_neg hc, if_neg (fun hsome => hc ((footer_getD h _).mpr hsome)), ih (i + 1) (by decide), hsucc]

theorem cropPemChain_eq_scan (pem : Mem) (pemLen : Nat) :
    cropPemChain pem pemLen = (scan footer 0 (pem.slice 0 pemLen)).getD (pem.slice 0 pemLen).length := by
  rw [cropPemChain, cropLoop_eq_scan pem pemLen 0 (by decide), Nat.zero_add, Mem.slice_length]

/-- Where a chain should be cropped: behind the first footer, and nowhere if there is none. -/
def EndsFirstFooter (text : List UInt8) (position : Nat) : Prop :=
  (∃ place, Leftmost footer text place ∧ position = place + footer.length) ∨
    (∀ place, ¬Occurs footer text place) ∧ position = text.length

/-- **Cropping finds the first footer** exactly if that stands behind broken attempts or at the end. -/
theorem cropPemChain_first_footer_iff (pem : Mem) (pemLen : Nat) :
    EndsFirstFooter (pem.slice 0 pemLen) (cropPemChain pem pemLen) ↔
      ∀ place, Leftmost footer (pem.slice 0 pemLen) place →
        Broken footer ((pem.slice 0 pemLen).take place) ∨ place + footer.length = pemLen := by
  rw [cropPemChain_eq_scan]
  constructor
  · rintro (⟨first, hfirst, hend⟩ | ⟨hnone, _⟩) place hplace
    · obtain rfl := hfirst.unique hplace
      rw [scan_leftmost_iff footer_ne_nil hfirst, Mem.slice_length] at hend
      exact hend
    · exact absurd hplace.1 (hnone place)
  · intro h
    by_cases hoccurs : ∃ place, Occurs footer (pem.slice 0 pemLen) place
    · obtain ⟨place, hplace⟩ := hoccurs
      obtain ⟨first, hfirst⟩ := exists_leftmost hplace
      refine .inl ⟨first, hfirst, ?_⟩
      rw [scan_leftmost_iff footer_ne_nil hfirst, Mem.slice_length]
      exact h first hfirst
    · have hnone : ∀ place, ¬Occurs footer (pem.slice 0 pemLen) place := fun place hplace => hoccurs ⟨place, hplace⟩
      refine .inr ⟨hnone, ?_⟩
      rw [scan_none footer_ne_nil hnone, Option.getD_none]

/-- One dash too many before the footer: the sixth breaks the attempt, and nothing is cropped. -/
theorem cropPemChain_misses_footer :
    ¬EndsFirstFooter ((Mem.zero.write 0 (cstr "------END CERTIFICATE-----\n")).slice 0 27)
      (cropPemChain (Mem.zero.write 0 (cstr "------END CERTIFICATE-----\n")) 27) := by
  have hcrop : cropPemChain (Mem.zero.write 0 (cstr "------END CERTIFICATE-----\n")) 27 = 27 := by decide
  have hoccurs : Occurs footer ((Mem.zero.write 0 (cstr "------END CERTIFICATE-----\n")).slice 0 27) 1 := by
    unfold Occurs
    decide
  rw [hcrop]
  rintro (⟨place, hplace, hend⟩ | ⟨hnone, _⟩)
  · have htwo : place = 2 := by
      have hlen : footer.length = 25 := by decide
      omega
    exact hplace.2 1 (by omega) hoccurs
  · exact hnone 1 hoccurs

end TrustOnboard
