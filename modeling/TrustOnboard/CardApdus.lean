import TrustOnboard.CardResend

/-! The APDUs with which commands begin. An APDU is well formed if it is the APDU of a request whose Lc tells the number
of its data bytes; the initial sends of a log part are its exchanges that follow up no other. A run is orderly if it
keeps to `_apdu` and all its initial sends are well formed. -/

namespace TrustOnboard.SEInterface

open Exec

/-! ### Well-formed APDUs -/

/-- The APDU fits `_apdu`, and its Lc, if it has one, is the number of its data bytes. -/
def WellFormed (apdu : List UInt8) : Prop :=
  apdu.length ≤ apduSize ∧ ∃ request : Request, apdu = request.apdu ∧
    (lowByte request.data.length).toNat = request.data.length

theorem lowByte_toNat (n : Nat) : (lowByte n).toNat = n % 256 := by
  simp [lowByte]

theorem Request.wellFormed {request : Request} (h : request.data.length ≤ 255) : WellFormed request.apdu := by
  refine ⟨apdu_length_le h, request, rfl, ?_⟩
  rw [lowByte_toNat]
  omega

/-- What the length of a well-formed APDU says about the byte behind the header. -/
theorem WellFormed.length_cases {apdu : List UInt8} (h : WellFormed apdu) :
    apdu.length ≤ 5 ∨ apdu.length = 5 + (apdu.getD 4 0).toNat ∨ apdu.length = 6 + (apdu.getD 4 0).toNat := by
  obtain ⟨_, ⟨cla, ins, p1, p2, form⟩, rfl, hlc⟩ := h
  cases form with
  | case1 => exact Or.inl (Nat.le_of_ble_eq_true rfl)
  | case2 le => exact Or.inl (Nat.le_refl 5)
  | case3 data =>
      have hlength : (Request.apdu ⟨cla, ins, p1, p2, .case3 data⟩).length = data.length + 5 := rfl
      have hbyte : (Request.apdu ⟨cla, ins, p1, p2, .case3 data⟩).getD 4 0 = lowByte data.length := rfl
      have hdata : (lowByte data.length).toNat = data.length := hlc
      rw [hlength, hbyte, hdata]
      omega
  | case4 data le =>
      have hlength : (Request.apdu ⟨cla, ins, p1, p2, .case4 data le⟩).length = (data ++ [le]).length + 5 := rfl
      have hbyte : (Request.apdu ⟨cla, ins, p1, p2, .case4 data le⟩).getD 4 0 = lowByte data.length := rfl
      have hdata : (lowByte data.length).toNat = data.length := hlc
      rw [hlength, hbyte, hdata, List.length_append, List.length_singleton]
      omega

/-- More data than a byte can count. -/
theorem not_wellFormed {cla ins p1 p2 : UInt8} {data : List UInt8} (h : 255 < data.length) :
    ¬WellFormed (cla :: ins :: p1 :: p2 :: lowByte data.length :: data) := by
  intro hform
  have hcases := hform.length_cases
  have hbyte : (cla :: ins :: p1 :: p2 :: lowByte data.length :: data).getD 4 0 = lowByte data.length := rfl
  rw [hbyte, lowByte_toNat] at hcases
  simp only [List.length_cons] at hcases
  omega

/-! ### Initial sends -/

/-- The event is not an exchange. -/
def Silent (event : Event) : Prop := ∀ apdu answer, event ≠ .exchange apdu answer

/-- The APDUs of the initial sends of a log part, newest first. -/
def initialSends : List Event → List (List UInt8)
  | [] => []
  | .exchange _ _ :: .exchange apdu answer :: earlier => initialSends (.exchange apdu answer :: earlier)
  | .exchange apdu _ :: earlier => apdu :: initialSends earlier
  | _ :: earlier => initialSends earlier

theorem initialSends_cons_subset (event : Event) (earlier : List Event) {apdu : List UInt8}
    (h : apdu ∈ initialSends earlier) : apdu ∈ initialSends (event :: earlier) := by
  cases event with
  | exchange own answer =>
      cases earlier with
      | nil => cases h
      | cons last earlier =>
          cases last with
          | exchange => exact h
          | answered => exact List.mem_cons_of_mem own h
          | unanswered => exact List.mem_cons_of_mem own h
          | note => exact List.mem_cons_of_mem own h
  | answered => exact h
  | unanswered => exact h
  | note => exact h

/-- What comes later takes no initial send away. -/
theorem initialSends_append_right (later : List Event) {earlier : List Event} {apdu : List UInt8}
    (h : apdu ∈ initialSends earlier) : apdu ∈ initialSends (later ++ earlier) := by
  induction later with
  | nil => exact h
  | cons event later ih => exact initialSends_cons_subset event (later ++ earlier) ih

/-- Every initial send of two log parts is one of the first or one of the second. -/
theorem initialSends_append (later earlier : List Event) {apdu : List UInt8}
    (h : apdu ∈ initialSends (later ++ earlier)) : apdu ∈ initialSends later ∨ apdu ∈ initialSends earlier := by
  induction later with
  | nil => exact Or.inr h
  | cons event later ih =>
      have hrest : apdu ∈ initialSends (later ++ earlier) → apdu ∈ initialSends (event :: later) ∨
          apdu ∈ initialSends earlier :=
        fun hmem => (ih hmem).imp (initialSends_cons_subset event later) id
      cases event with
      | exchange own answer =>
          cases later with
          | nil =>
              -- the exchange may be a follow-up of the newest one before it
              have hown : apdu ∈ own :: initialSends earlier := by
                cases earlier with
                | nil => exact h
                | cons last earlier => cases last <;> first | exact h | exact List.mem_cons_of_mem own h
              rcases List.mem_cons.mp hown with rfl | hmem
              · exact Or.inl List.mem_cons_self
              · exact Or.inr hmem
          | cons last later =>
              cases last with
              | exchange => exact hrest h
              | answered =>
                  rcases List.mem_cons.mp h with rfl | hmem
                  · exact Or.inl List.mem_cons_self
                  · exact hrest hmem
              | unanswered =>
                  rcases List.mem_cons.mp h with rfl | hmem
                  · exact Or.inl List.mem_cons_self
                  · exact hrest hmem
              | note =>
                  rcases List.mem_cons.mp h with rfl | hmem
                  · exact Or.inl List.mem_cons_self
                  · exact hrest hmem
      | answered => exact hrest h
      | unanswered => exact hrest h
      | note => exact hrest h

/-- An exchange behind an event of another kind is an initial send. -/
theorem mem_initialSends {event : Event} (hsilent : Silent event) (apdu : List UInt8) (answer : Option (List UInt8))
    (earlier : List Event) : apdu ∈ initialSends (.exchange apdu answer :: event :: earlier) := by
  cases event with
  | exchange own answer => exact (hsilent own answer rfl).elim
  | answered => exact List.mem_cons_self
  | unanswered => exact List.mem_cons_self
  | note => exact List.mem_cons_self

/-! ### One command -/

/-- The exchanges of a command have one initial send, the command. -/
theorem Chain.initialSends_eq {command apdu : List UInt8} {events : List Event} (h : Chain command apdu events)
    (answer : Option (List UInt8)) : initialSends (.exchange apdu answer :: events) = [command] := by
  induction h generalizing answer with
  | start => rfl
  | @resend apdu answer' events _ _ ih => exact ih (some answer')
  | @fetch apdu answer' events _ _ ih => exact ih (some answer')

theorem Ended.initialSends_eq {command : List UInt8} {result : Option (List UInt8)} {events : List Event}
    (h : Ended command result events) : initialSends events = [command] := by
  obtain ⟨apdu, earlier, hchain, hevents⟩ := h
  cases result with
  | none =>
      rw [hevents]
      exact hchain.initialSends_eq none
  | some answer =>
      rw [hevents.2]
      exact hchain.initialSends_eq (some answer)

theorem Underway.initialSends_subset {command : List UInt8} {events : List Event} (h : Underway command events) :
    ∀ apdu ∈ initialSends events, apdu = command := by
  have hsingle : initialSends events = [command] → ∀ apdu ∈ initialSends events, apdu = command := by
    intro heq apdu hmem
    rw [heq] at hmem
    exact List.mem_singleton.mp hmem
  cases h with
  | waiting hchain =>
      cases hchain with
      | start =>
          intro apdu hmem
          cases hmem
      | @resend apdu answer events hchain => exact hsingle (hchain.initialSends_eq (some answer))
      | @fetch apdu answer events hchain => exact hsingle (hchain.initialSends_eq (some answer))
  | last answer hchain => exact hsingle (hchain.initialSends_eq answer)

/-! ### Orderly runs -/

variable {S σ : Type} {T : Transport σ}

/-- The log grew, and every new initial send is well formed. -/
def SendsWell (s s' : SEInterface σ) : Prop :=
  ∃ events, s'.log = events ++ s.log ∧ ∀ apdu ∈ initialSends events, WellFormed apdu

theorem SendsWell.of_log_eq {s s' : SEInterface σ} (h : s'.log = s.log) : SendsWell s s' :=
  ⟨[], h, fun _ hmem => by cases hmem⟩

theorem SendsWell.trans {s s' s'' : SEInterface σ} (h : SendsWell s s') (h' : SendsWell s' s'') : SendsWell s s'' := by
  obtain ⟨first, hlog, hfirst⟩ := h
  obtain ⟨second, hlog', hsecond⟩ := h'
  refine ⟨second ++ first, by rw [hlog', hlog, List.append_assoc], ?_⟩
  intro apdu hmem
  rcases initialSends_append second first hmem with hmem | hmem
  · exact hsecond apdu hmem
  · exact hfirst apdu hmem

/-- From a state that fits, a state that fits was reached with well-formed initial sends. -/
def Orderly (fits : S → Prop) (se : S → SEInterface σ) (s s' : S) : Prop :=
  fits s → fits s' ∧ SendsWell (se s) (se s')

instance (fits : S → Prop) (se : S → SEInterface σ) : IsPreorder S (Orderly fits se) where
  refl s := fun hfits => ⟨hfits, .of_log_eq rfl⟩
  trans := by
    intro a b c h h' hfits
    obtain ⟨hfits', hsends⟩ := h hfits
    obtain ⟨hfits'', hsends'⟩ := h' hfits'
    exact ⟨hfits'', hsends.trans hsends'⟩

/-- What `_apdu` holds is not longer than `_apdu`. -/
def Bounded (s : SEInterface σ) : Prop := s.apdu.length ≤ apduSize

/-- The follow-ups keep to `_apdu`. -/
theorem transmit_bounded (T : Transport σ) : Stays (fun s s' : SEInterface σ => Bounded s → Bounded s') (transmit T) := by
  have : IsPreorder (SEInterface σ) (fun s s' => Bounded s → Bounded s') :=
    { refl := fun _ h => h, trans := fun _ _ _ h h' hbounded => h' (h hbounded) }
  have hsize : apduSize = 262 := rfl
  have hsent : Stays (fun s s' : SEInterface σ => Bounded s → Bounded s') (transmitApdu T) := by
    refine .bind (.gets _) fun answer => .bind (.modify fun _ h => h) fun _ => ?_
    cases answer with
    | none => exact .pure _
    | some answer => exact .bind (.check _) fun _ => .bind (.modify fun _ h => h) fun _ => .pure _
  refine .loop (fun _ => .bind hsent fun ok => .ite ?_ (.pure _)) ()
  refine .bind .get fun s => .ite ?_ (.ite ?_ (.pure _))
  · refine .bind (.modify ?_) fun _ => .pure _
    intro s hbounded
    have hlength : s.apdu.length ≤ apduSize := hbounded
    simp only [Bounded, resend, List.length_append, List.length_take, List.length_cons, List.length_drop]
    omega
  · refine .bind (.modify ?_) fun _ => .pure _
    intro s _
    exact Nat.le_of_ble_eq_true rfl

theorem command_orderly (T : Transport σ) {apdu : List UInt8} (h : WellFormed apdu) :
    Stays (Orderly Bounded id) (command T apdu) := by
  have hbounded : ∀ s fuel, Bounded (command T apdu fuel s).2 := by
    intro s fuel
    have htransmit := transmit_bounded T fuel { s with apdu := apdu } h.1
    rw [command, bind_apply, modify_apply]
    show Bounded ((transmit T >>= _) fuel _).2
    rw [bind_apply]
    rcases hrun : transmit T fuel { s with apdu := apdu } with ⟨outcome, t⟩
    rw [hrun] at htransmit
    rcases outcome with ok | _ | _
    · cases ok <;> exact htransmit
    · exact htransmit
    · exact htransmit
  intro fuel s _
  refine ⟨hbounded s fuel, ?_⟩
  have hspec := command_meets T apdu s fuel
  rcases hrun : command T apdu fuel s with ⟨outcome, s'⟩
  rw [hrun] at hspec
  have hcut : (∃ events, Underway apdu events ∧ s'.log = events ++ s.log) → SendsWell s s' := by
    rintro ⟨events, hunderway, hlog⟩
    refine ⟨events, hlog, fun own hmem => ?_⟩
    rw [hunderway.initialSends_subset own hmem]
    exact h
  cases outcome with
  | done ok =>
      obtain ⟨result, events, hended, hlog, _⟩ := hspec
      refine ⟨events, hlog, fun own hmem => ?_⟩
      rw [hended.initialSends_eq] at hmem
      rw [List.mem_singleton.mp hmem]
      exact h
  | fault => exact hcut hspec
  | spent => exact hcut hspec

/-- A request whose data can be counted by a byte is sent in order. -/
theorem Request.transmit_orderly (T : Transport σ) {request : Request} (h : request.data.length ≤ 255) :
    Stays (Orderly Bounded id) (request.transmit T) := by
  intro fuel s _
  rw [transmit_apply T h]
  exact command_orderly T (wellFormed h) fuel { s with apdu := request.apdu } (apdu_length_le h)

section Cases

variable (cla : UInt8) (ins : SCIns) (p1 p2 : UInt8)

theorem transmitCase1_orderly : Stays (Orderly Bounded id) (transmitCase1 T cla ins p1 p2) :=
  Request.transmit_orderly T (show (Request.data ⟨cla, ins.code, p1, p2, .case1⟩).length ≤ 255 from Nat.zero_le _)

theorem transmitCase2_orderly (le : UInt8) : Stays (Orderly Bounded id) (transmitCase2 T cla ins p1 p2 le) :=
  Request.transmit_orderly T (show (Request.data ⟨cla, ins.code, p1, p2, .case2 le⟩).length ≤ 255 from Nat.zero_le _)

theorem transmitCase3_orderly {data : List UInt8} (h : data.length ≤ 255) :
    Stays (Orderly Bounded id) (transmitCase3 T cla ins p1 p2 data) :=
  Request.transmit_orderly T (show (Request.data ⟨cla, ins.code, p1, p2, .case3 data⟩).length ≤ 255 from h)

theorem transmitCase4_orderly {data : List UInt8} (h : data.length ≤ 255) (le : UInt8) :
    Stays (Orderly Bounded id) (transmitCase4 T cla ins p1 p2 data le) :=
  Request.transmit_orderly T (show (Request.data ⟨cla, ins.code, p1, p2, .case4 data le⟩).length ≤ 255 from h)

end Cases

end TrustOnboard.SEInterface
