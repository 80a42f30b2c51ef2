import TrustOnboard.AppletFollowUps
import TrustOnboard.MiasCard
import TrustOnboard.MiasCrypto

/-! Changing the PIN. The data field is to be the length of the old PIN, the old PIN and the new PIN. The new
PIN is copied one byte too early, so that a byte of the stack is sent behind it; and the length that is
compared with the size of the buffer may have wrapped. -/

namespace TrustOnboard.Mias

open Exec Linked SEInterface

/-- The two PINs behind the length of the first. -/
def pinField (oldPin newPin : List UInt8) : List UInt8 := lowByte oldPin.length :: (oldPin ++ newPin)

/-- CHANGE REFERENCE DATA with this data field. -/
def changePinApdu (channel : UInt8) (field : List UInt8) : List UInt8 :=
  (0x80 ||| channel) :: SCIns.changeReferenceData.code :: SCP1.CHANGEREFERENCEDATAOldAndNew ::
    (SCP2.BasicSecurityDFKey ||| 0x01) :: lowByte field.length :: field

variable {σ : Type} {T : Transport σ} {channel : UInt8} {s : Linked σ Mias}

/-- PINs that do not fit are refused without a command; otherwise a command is sent, and its data field is the
two PINs. -/
structure SendsPins (T : Transport σ) (channel : UInt8) (stack : Mem) (oldPin newPin : List UInt8)
    (s : Linked σ Mias) : Prop where
  refuses : pinDataSize < (pinField oldPin newPin).length →
    ∀ fuel, changePin T stack oldPin newPin fuel s = (.done false, s)
  sends : (pinField oldPin newPin).length ≤ pinDataSize → ∃ fuel later answer,
    (changePin T stack oldPin newPin fuel s).2.se.log =
      later ++ .exchange (changePinApdu channel (pinField oldPin newPin)) answer :: s.se.log
  only : (pinField oldPin newPin).length ≤ pinDataSize → ∀ fuel later sent answer,
    (changePin T stack oldPin newPin fuel s).2.se.log = later ++ .exchange sent answer :: s.se.log →
    sent = changePinApdu channel (pinField oldPin newPin)

/-- The data field that is sent. -/
def sentField (stack : Mem) (oldPin newPin : List UInt8) : List UInt8 :=
  (pinData stack oldPin newPin).slice 0 (1 + oldPin.length + newPin.length)

/-- The byte that the new PIN is copied over. -/
def overwritten (oldPin : List UInt8) : UInt8 := (lowByte oldPin.length :: oldPin).getLastD 0

/-- The field that is sent: the new PIN has taken the place of the byte before it. -/
theorem sentField_eq (stack : Mem) {oldPin newPin : List UInt8} (hnew : newPin ≠ []) :
    sentField stack oldPin newPin =
      (lowByte oldPin.length :: oldPin).dropLast ++ (newPin ++ [stack (oldPin.length + newPin.length)]) := by
  have hpos : 0 < newPin.length := List.length_pos_iff.mpr hnew
  have hdrop : (lowByte oldPin.length :: oldPin).dropLast = (lowByte oldPin.length :: oldPin).take oldPin.length := by
    rw [List.dropLast_eq_take, List.length_cons, Nat.add_sub_cancel]
  have hcopied : (stack.write 0 [lowByte oldPin.length]).write 1 oldPin =
      stack.write 0 (lowByte oldPin.length :: oldPin) := Mem.write_cons stack 0 _ _
  rw [sentField, pinData, hcopied, hdrop]
  apply List.ext_getElem
  · simp
    omega
  · intro i hi _
    rw [Mem.slice_length] at hi
    simp only [Mem.slice, List.getElem_map, List.getElem_range, Nat.zero_add]
    by_cases hfront : i < oldPin.length
    · rw [Mem.write_of_lt hfront, Mem.write_of_mem (Nat.zero_le i) (by simp; omega), Nat.sub_zero,
        List.getElem_append_left (by simp; omega), List.getElem_take, List.getD_eq_getElem?_getD,
        List.getElem?_eq_getElem (by simp; omega), Option.getD_some]
    · rw [List.getElem_append_right (by simp; omega)]
      simp only [List.length_take, List.length_cons, Nat.min_eq_left (Nat.le_succ oldPin.length)]
      by_cases hmiddle : i < oldPin.length + newPin.length
      · rw [Mem.write_of_mem (by omega) hmiddle, List.getElem_append_left (by omega), List.getD_eq_getElem?_getD,
          List.getElem?_eq_getElem (by omega), Option.getD_some]
      · have hlast : i = oldPin.length + newPin.length := by omega
        subst hlast
        rw [Mem.write_of_ge (Nat.le_refl _), Mem.write_of_ge (by simp; omega),
          List.getElem_append_right (by omega)]
        simp

theorem sentField_nil (stack : Mem) (oldPin : List UInt8) :
    sentField stack oldPin [] = pinField oldPin [] := by
  have hcopied : (stack.write 0 [lowByte oldPin.length]).write 1 oldPin =
      stack.write 0 (lowByte oldPin.length :: oldPin) := Mem.write_cons stack 0 _ _
  have hfield := Mem.slice_write_self stack 0 (lowByte oldPin.length :: oldPin)
  rw [List.length_cons, Nat.add_comm] at hfield
  rw [sentField, pinData, hcopied, Mem.write_nil, List.length_nil, Nat.add_zero, hfield, pinField, List.append_nil]

/-- A list is the same with a byte in front as with a byte behind if all bytes are that byte. -/
theorem cons_eq_concat_iff {α : Type} {x y : α} {list : List α} :
    x :: list = list ++ [y] ↔ ∀ c ∈ list ++ [y], c = x := by
  induction list generalizing x with
  | nil =>
      simp [eq_comm]
  | cons z list ih =>
      rw [List.cons_append, List.cons.injEq, List.forall_mem_cons, ih]
      constructor
      · rintro ⟨rfl, hall⟩
        exact ⟨rfl, hall⟩
      · rintro ⟨rfl, hall⟩
        exact ⟨rfl, hall⟩

/-- The field that is sent is the two PINs only by accident. -/
theorem sentField_eq_iff (stack : Mem) (oldPin newPin : List UInt8) :
    sentField stack oldPin newPin = pinField oldPin newPin ↔
      newPin = [] ∨ ∀ c ∈ newPin ++ [stack (oldPin.length + newPin.length)], c = overwritten oldPin := by
  by_cases hnew : newPin = []
  · subst hnew
    exact iff_of_true (sentField_nil stack oldPin) (.inl rfl)
  · have hfield : pinField oldPin newPin =
        (lowByte oldPin.length :: oldPin).dropLast ++ (overwritten oldPin :: newPin) := by
      have hlast : overwritten oldPin = (lowByte oldPin.length :: oldPin).getLast (List.cons_ne_nil _ _) := by
        rw [overwritten, List.getLastD_eq_getLast?, List.getLast?_eq_some_getLast (List.cons_ne_nil _ _)]
        rfl
      rw [pinField, ← List.cons_append, hlast]
      nth_rewrite 1 [← List.dropLast_concat_getLast (List.cons_ne_nil (lowByte oldPin.length) oldPin)]
      rw [List.append_assoc]
      rfl
    rw [sentField_eq stack hnew, hfield, List.append_cancel_left_eq, eq_comm, cons_eq_concat_iff]
    exact (or_iff_right hnew).symm

/-- The status word is read after the command, without another one. -/
theorem ok_log (transmitted : Exec (Linked σ Applet) Bool) (fuel : Nat) :
    (ok transmitted fuel s).2.se.log = (transmitted fuel ⟨s.se, s.obj.applet⟩).2.se.log := by
  show (Applet.ok transmitted fuel ⟨s.se, s.obj.applet⟩).2.se.log = _
  rw [Applet.ok, bind_apply]
  rcases transmitted fuel ⟨s.se, s.obj.applet⟩ with ⟨answered | _ | _, t⟩
  · cases answered <;> rfl
  · rfl
  · rfl

/-- The log of a command that is sent. -/
theorem changePin_log (hready : Ready channel s.obj) (stack : Mem) {oldPin newPin : List UInt8}
    (hfits : 1 + oldPin.length + newPin.length ≤ pinDataSize) (fuel : Nat) :
    (changePin T stack oldPin newPin fuel s).2.se.log =
      (command T (changePinApdu channel (sentField stack oldPin newPin)) fuel
        { s.se with apdu := changePinApdu channel (sentField stack oldPin newPin) }).2.log := by
  have hsize : pinDataSize = 17 := rfl
  have hwrap : (1 + oldPin.length + newPin.length) % 65536 = 1 + oldPin.length + newPin.length :=
    Nat.mod_eq_of_lt (by omega)
  have hrange : 1 + oldPin.length ≤ pinDataSize ∧ oldPin.length + newPin.length ≤ pinDataSize := by omega
  let request : Request := ⟨0x80, SCIns.changeReferenceData.code, SCP1.CHANGEREFERENCEDATAOldAndNew,
    SCP2.BasicSecurityDFKey ||| 0x01, .case3 (sentField stack oldPin newPin)⟩
  have hdata : request.data.length ≤ 255 := by
    show (Mem.slice _ _ _).length ≤ 255
    rw [Mem.slice_length]
    omega
  have hlog := @Applet.transmitRequest_log σ T request ⟨s.se, s.obj.applet⟩ hready.isSelected hready.attached hdata fuel
  rw [hready.channel_eq] at hlog
  rw [changePin]
  simp only [hwrap]
  rw [if_neg (by omega), bind_done (check_pos hrange fuel s), ok_log]
  exact hlog

section Condition

variable {oldPin newPin : List UInt8}

theorem pinField_length (oldPin newPin : List UInt8) :
    (pinField oldPin newPin).length = 1 + oldPin.length + newPin.length := by
  simp only [pinField, List.length_cons, List.length_append]
  omega

/-- PINs that are too long are refused unless the length wraps. -/
theorem changePin_of_long (hlong : pinDataSize < 1 + oldPin.length + newPin.length) (stack : Mem) (fuel : Nat) :
    changePin T stack oldPin newPin fuel s =
      (if pinDataSize < (1 + oldPin.length + newPin.length) % 65536 then .done false else .fault, s) := by
  have hsize : pinDataSize = 17 := rfl
  rw [changePin]
  split
  · rfl
  · have hoverrun : ¬(1 + oldPin.length ≤ pinDataSize ∧ oldPin.length + newPin.length ≤ pinDataSize) := by omega
    rw [bind_apply, check_neg hoverrun]

theorem sendsPins_of_long (hlong : pinDataSize < 1 + oldPin.length + newPin.length) (stack : Mem) :
    SendsPins T channel stack oldPin newPin s ↔ pinDataSize < (1 + oldPin.length + newPin.length) % 65536 := by
  have hlen := pinField_length oldPin newPin
  constructor
  · intro h
    have hrun := h.refuses (by omega) 0
    rw [changePin_of_long hlong] at hrun
    by_contra hwraps
    rw [if_neg hwraps] at hrun
    cases hrun
  · intro hkept
    refine ⟨fun _ fuel => ?_, fun hshort => by omega, fun hshort => by omega⟩
    rw [changePin_of_long hlong, if_pos hkept]

theorem changePinApdu_inj {first second : List UInt8}
    (h : changePinApdu channel first = changePinApdu channel second) : first = second := by
  simp only [changePinApdu, List.cons.injEq, true_and] at h
  exact h.2

theorem sendsPins_of_short (hready : Ready channel s.obj)
    (hshort : 1 + oldPin.length + newPin.length ≤ pinDataSize) (stack : Mem) :
    SendsPins T channel stack oldPin newPin s ↔ sentField stack oldPin newPin = pinField oldPin newPin := by
  have hlen := pinField_length oldPin newPin
  have hrun := changePin_log (T := T) hready stack hshort
  -- the first exchange of a run is the command
  have hfirst : ∀ {fuel later sent answer},
      (changePin T stack oldPin newPin fuel s).2.se.log = later ++ .exchange sent answer :: s.se.log →
        sent = changePinApdu channel (sentField stack oldPin newPin) := by
    intro fuel later sent answer hlog
    rw [hrun, ← List.nil_append s.se.log] at hlog
    obtain ⟨card, hputs, _⟩ := command_puts
      (s := { s.se with apdu := changePinApdu channel (sentField stack oldPin newPin) }) hlog
    exact hputs.eq_command
  constructor
  · intro h
    obtain ⟨fuel, later, answer, hlog⟩ := h.sends (by omega)
    exact (changePinApdu_inj (hfirst hlog)).symm
  · intro heq
    rw [heq] at hfirst hrun
    refine ⟨fun hlong => by omega, fun _ => ?_, fun _ fuel later sent answer => hfirst⟩
    obtain ⟨fuel, later, hlog⟩ := puts_command (T := T)
      (s := { s.se with apdu := changePinApdu channel (pinField oldPin newPin) }) .first
    exact ⟨fuel, later, _, (hrun fuel).trans hlog⟩

/-- **The two PINs are sent** exactly if the length does not wrap below the size of the buffer and the copy of
the new PIN happens to change nothing: there is none, or all its bytes and the byte of the stack behind it are
the byte that it is copied over. -/
theorem changePin_sends_iff (hready : Ready channel s.obj) (stack : Mem) (oldPin newPin : List UInt8) :
    SendsPins T channel stack oldPin newPin s ↔
      (pinDataSize < 1 + oldPin.length + newPin.length →
        pinDataSize < (1 + oldPin.length + newPin.length) % 65536) ∧
      (1 + oldPin.length + newPin.length ≤ pinDataSize →
        newPin = [] ∨ ∀ c ∈ newPin ++ [stack (oldPin.length + newPin.length)], c = overwritten oldPin) := by
  by_cases hlong : pinDataSize < 1 + oldPin.length + newPin.length
  · rw [sendsPins_of_long hlong]
    exact ⟨fun hkept => ⟨fun _ => hkept, fun hshort => by omega⟩, fun h => h.1 hlong⟩
  · rw [sendsPins_of_short hready (by omega), sentField_eq_iff]
    exact ⟨fun hsame => ⟨fun h => by omega, fun _ => hsame⟩, fun h => h.2 (by omega)⟩

/-- An empty new PIN. -/
theorem changePin_sends_old :
    SendsPins scripted 0 Mem.zero (cstr "1234") [] ⟨.create [some [0x90, 0x00]] Mem.zero, selectedMias⟩ :=
  (changePin_sends_iff selectedMias_ready Mem.zero (cstr "1234") []).mpr
    ⟨fun h => absurd h (by decide), fun _ => .inl rfl⟩

/-- "1234" is changed to "5678": the card is sent `04 31 32 33 35 36 37 38 00`. -/
theorem changePin_loses_byte :
    ¬SendsPins scripted 0 Mem.zero (cstr "1234") (cstr "5678")
      ⟨.create [some [0x90, 0x00]] Mem.zero, selectedMias⟩ := by
  intro h
  have hsent := h.only (by decide) 1 [.answered _ _] _ _ rfl
  exact absurd hsent (by decide)

end Condition

end TrustOnboard.Mias
