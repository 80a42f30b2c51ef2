import TrustOnboard.AppletRelations
import TrustOnboard.ExecGuards
import TrustOnboard.MiasTemplate

/-! The response buffer keeps the bytes of earlier answers behind the last one. Two runs of the key listing that differ
in these bytes only are compared: the listing is the same as long as no record is taken from them. -/

namespace TrustOnboard

open Exec Linked SEInterface

variable {σ : Type} {T : Transport σ}

/-! ### Commands -/

namespace SEInterface

/-- The same but for the bytes of the response buffer. -/
structure Differ (a b : SEInterface σ) : Prop where
  card_eq : a.card = b.card
  apdu_eq : a.apdu = b.apdu
  log_eq : a.log = b.log
  responseLen_eq : a.responseLen = b.responseLen

/-- The last answer is the same. -/
structure Fresh (a b : SEInterface σ) : Prop extends Differ a b where
  agrees : ∀ k, k < a.responseLen → a.response k = b.response k

/-- What two runs of a command end in. -/
def Refreshed (ok : Bool) (a b : SEInterface σ) : Prop := Differ a b ∧ (ok = true → Fresh a b)

section Commands

variable {a b : SEInterface σ}

theorem Differ.sent (h : Differ a b) : Differ (sent T a) (sent T b) := by
  refine ⟨?_, h.apdu_eq, ?_, h.responseLen_eq⟩
  · show (T a.card a.apdu).2 = (T b.card b.apdu).2
    rw [h.card_eq, h.apdu_eq]
  · show Event.exchange a.apdu (T a.card a.apdu).1 :: a.log = .exchange b.apdu (T b.card b.apdu).1 :: b.log
    rw [h.card_eq, h.apdu_eq, h.log_eq]

theorem Differ.stored (h : Differ a b) (answer : List UInt8) : Fresh (stored answer a) (stored answer b) := by
  refine ⟨⟨h.card_eq, h.apdu_eq, h.log_eq, rfl⟩, fun k hk => ?_⟩
  rw [(holds_stored answer a).2 k hk, (holds_stored answer b).2 k hk]

theorem transmitTurn_relates : Relates Differ (TurnRelated Differ Refreshed) (transmitTurn T ()) := by
  intro fuel a b h
  have hanswer : (T a.card a.apdu).1 = (T b.card b.apdu).1 := by rw [h.card_eq, h.apdu_eq]
  rw [transmitTurn, bind_apply, bind_apply, transmitApdu_apply, transmitApdu_apply, ← hanswer]
  rcases (T a.card a.apdu).1 with _ | answer
  · refine ⟨rfl, fun turn hdone => ?_⟩
    cases hdone
    exact ⟨h.sent, fun hfalse => by cases hfalse⟩
  · by_cases hfit : answer.length ≤ apduResponseSize
    · have hfresh : Fresh (stored answer (sent T a)) (stored answer (sent T b)) := h.sent.stored answer
      have hbare : ∀ c, ((stored answer (sent T a)).responseLen = 2 ∧ (stored answer (sent T a)).response 0 = c) ↔
          ((stored answer (sent T b)).responseLen = 2 ∧ (stored answer (sent T b)).response 0 = c) := by
        intro c
        rw [hfresh.responseLen_eq]
        refine and_congr_right fun htwo => ?_
        rw [hfresh.agrees 0 (by rw [hfresh.responseLen_eq, htwo]; decide)]
      have hnext : (stored answer (sent T a)).responseLen = 2 →
          (stored answer (sent T a)).response 1 = (stored answer (sent T b)).response 1 :=
        fun htwo => hfresh.agrees 1 (by rw [htwo]; decide)
      simp only [if_pos hfit, if_true, bind_apply, get_apply]
      by_cases h6C : (stored answer (sent T a)).responseLen = 2 ∧ (stored answer (sent T a)).response 0 = 0x6C
      · simp only [if_pos h6C, if_pos ((hbare _).mp h6C)]
        refine ⟨rfl, fun turn hdone => ?_⟩
        cases hdone
        refine ⟨hfresh.card_eq, ?_, hfresh.log_eq, hfresh.responseLen_eq⟩
        show _ ++ _ :: _ = _ ++ _ :: _
        rw [hnext h6C.1, hfresh.apdu_eq]
      · simp only [if_neg h6C, if_neg fun hother => h6C ((hbare _).mpr hother)]
        by_cases h61 : (stored answer (sent T a)).responseLen = 2 ∧ (stored answer (sent T a)).response 0 = 0x61
        · simp only [if_pos h61, if_pos ((hbare _).mp h61)]
          refine ⟨rfl, fun turn hdone => ?_⟩
          cases hdone
          refine ⟨hfresh.card_eq, ?_, hfresh.log_eq, hfresh.responseLen_eq⟩
          show [_, _, _, _, _] = [_, _, _, _, _]
          rw [hnext h61.1, hfresh.apdu_eq]
        · simp only [if_neg h61, if_neg fun hother => h61 ((hbare _).mpr hother)]
          refine ⟨rfl, fun turn hdone => ?_⟩
          cases hdone
          exact ⟨hfresh.toDiffer, fun _ => hfresh⟩
    · simp only [if_neg hfit]
      exact ⟨trivial, fun _ hdone => by cases hdone⟩

/-- The bytes of the last answer are the same. -/
theorem Fresh.answer_eq (h : Fresh a b) : answer a = answer b := by
  rw [answer, answer, ← h.responseLen_eq, Mem.slice, Mem.slice]
  apply List.map_congr_left
  intro k hk
  rw [Nat.zero_add]
  exact h.agrees k (List.mem_range.mp hk)

theorem Fresh.getStatusWord_eq (h : Fresh a b) : getStatusWord a = getStatusWord b := by
  rw [getStatusWord, getStatusWord, ← h.responseLen_eq]
  by_cases htwo : 2 ≤ a.responseLen
  · rw [if_pos htwo, if_pos htwo, h.agrees _ (by omega), h.agrees _ (by omega)]
  · rw [if_neg htwo, if_neg htwo]

theorem Differ.getResponseLength_eq (h : Differ a b) : getResponseLength a = getResponseLength b := by
  rw [getResponseLength, getResponseLength, getResponse, getResponse, ← h.responseLen_eq]
  split
  · rw [Mem.slice_length, Mem.slice_length]
  · rfl

/-- After a command that was answered the last answer is the same. -/
theorem command_relates (apdu : List UInt8) : Relates Differ Refreshed (command T apdu) := by
  have htransmit : Relates Differ Refreshed (transmit T) := .loop (fun _ => transmitTurn_relates) ()
  refine .bind (.modify fun a b h => ⟨h.card_eq, rfl, h.log_eq, h.responseLen_eq⟩) fun _ => htransmit.bind fun ok => ?_
  refine .ite (fun hok => ?_) fun hnot => ?_
  · have hgets : Relates (Refreshed ok) (fun _ => Fresh) (gets answer : Exec (SEInterface σ) (List UInt8)) :=
      .gets (fun a b h => (h.2 hok).answer_eq) fun a b h => h.2 hok
    refine hgets.bind fun response => .bind (.modify fun a b h => ?_) fun _ => .pure fun a b h =>
      ⟨h.toDiffer, fun _ => h⟩
    exact ⟨⟨h.card_eq, h.apdu_eq, congrArg (List.cons _) h.log_eq, h.responseLen_eq⟩, h.agrees⟩
  · refine .bind (.modify (R := Differ) fun a b h => ?_) fun _ => .pure fun a b h => ⟨h, fun hfalse => by cases hfalse⟩
    exact ⟨h.1.card_eq, h.1.apdu_eq, congrArg (List.cons _) h.1.log_eq, h.1.responseLen_eq⟩

theorem transmitCase4_relates (cla : UInt8) (ins : SCIns) (p1 p2 : UInt8) (data : List UInt8) (le : UInt8) :
    Relates Differ Refreshed (transmitCase4 T cla ins p1 p2 data le) := by
  have hput : ∀ apdu : List UInt8, Respects Differ (modify fun s : SEInterface σ => { s with apdu := apdu }) :=
    fun apdu => .modify fun a b h => ⟨h.card_eq, rfl, h.log_eq, h.responseLen_eq⟩
  exact ((hput _).bind fun _ => Respects.check _).bind fun _ => command_relates _

end Commands

end SEInterface

/-! ### Commands of the object -/

/-- The same object, and the same interface but for the bytes of the response buffer. -/
def Apart {A : Type} (s t : Linked σ A) : Prop := s.obj = t.obj ∧ Differ s.se t.se

/-- The same object and the same last answer. -/
def Alongside {A : Type} (s t : Linked σ A) : Prop := s.obj = t.obj ∧ Fresh s.se t.se

/-- The same last answer, with a status word. -/
def AnsweredAlike {A : Type} (s t : Linked σ A) : Prop := Alongside s t ∧ 2 ≤ s.se.responseLen

/-- What two runs of a command end in if it was also tested for `9000`. -/
def Accepted {A : Type} (ok : Bool) (s t : Linked σ A) : Prop := Apart s t ∧ (ok = true → AnsweredAlike s t)

/-- What two runs of a command of an object end in. -/
def Renewed {A : Type} (ok : Bool) (s t : Linked σ A) : Prop := Apart s t ∧ (ok = true → Alongside s t)

theorem Alongside.apart {A : Type} {s t : Linked σ A} (h : Alongside s t) : Apart s t := ⟨h.1, h.2.toDiffer⟩

namespace Applet

theorem whenSelected_relates (cla : UInt8) {transmitted : UInt8 → Exec (SEInterface σ) Bool}
    (h : ∀ cla, Relates Differ Refreshed (transmitted cla)) :
    Relates Apart Renewed (whenSelected cla transmitted) := by
  refine .bind (Q := fun _ => Apart) (.gets (fun s t hst => hst.1) fun s t hst => hst) fun applet =>
    .ite (fun _ => ?_) fun _ => ?_
  · refine .bind (Respects.check _) fun _ => (h _).zoom (fun s t hst => hst.2) ?_
    intro ok s t a b hst hab
    exact ⟨⟨hst.1, hab.1⟩, fun hok => ⟨hst.1, hab.2 hok⟩⟩
  · exact .pure fun s t hst => ⟨hst, fun hfalse => by cases hfalse⟩

theorem getStatusWord_alongside {s t : Linked σ Applet} (h : Alongside s t) : getStatusWord s = getStatusWord t := by
  rw [getStatusWord, getStatusWord, h.1, h.2.getStatusWord_eq]

theorem getStatusWord_present {s : Linked σ Applet} (h : getStatusWord s = swOK) : 2 ≤ s.se.responseLen := by
  by_contra hshort
  rw [getStatusWord, SEInterface.getStatusWord, if_neg hshort] at h
  split at h <;> cases h

theorem ok_relates {transmitted : Exec (Linked σ Applet) Bool} (h : Relates Apart Renewed transmitted) :
    Relates Apart Accepted (ok transmitted) := by
  refine h.bind fun sent => .ite (fun hsent => ?_) fun _ => ?_
  · refine .gets (fun s t hst => by rw [getStatusWord_alongside (hst.2 hsent)]) fun s t hst => ?_
    exact ⟨hst.1, fun hok => ⟨hst.2 hsent, getStatusWord_present (of_decide_eq_true hok)⟩⟩
  · exact .pure fun s t hst => ⟨hst.1, fun hfalse => by cases hfalse⟩

end Applet

namespace Mias

/-- The applet of two objects. -/
theorem apart_applet {s t : Linked σ Mias} (h : Apart s t) :
    Apart ((objLens appletLens).get s) ((objLens appletLens).get t) := ⟨congrArg Mias.applet h.1, h.2⟩

theorem readBinary_relates (offset : Nat) (le : UInt8) : Relates Apart Renewed (onApplet (readBinary T offset le)) := by
  have hsent : Relates Apart Renewed (readBinary T offset le) :=
    Applet.whenSelected_relates _ fun _ => command_relates _
  refine hsent.zoom (fun s t hst => apart_applet hst) ?_
  intro ok s t a b hst hab
  have hobj : { s.obj with applet := a.obj } = { t.obj with applet := b.obj } := by rw [hst.1, hab.1.1]
  exact ⟨⟨hobj, hab.1.2⟩, fun hok => ⟨hobj, (hab.2 hok).2⟩⟩

theorem ok_relates {transmitted : Exec (Linked σ Applet) Bool} (h : Relates Apart Renewed transmitted) :
    Relates Apart Accepted (ok transmitted) := by
  refine (Applet.ok_relates h).zoom (fun s t hst => apart_applet hst) ?_
  intro ok s t a b hst hab
  have hobj : { s.obj with applet := a.obj } = { t.obj with applet := b.obj } := by rw [hst.1, hab.1.1]
  exact ⟨⟨hobj, hab.1.2⟩, fun hok => ⟨⟨hobj, (hab.2 hok).1.2⟩, (hab.2 hok).2⟩⟩

theorem okReadBinary_relates (offset : Nat) (le : UInt8) : Relates Apart Accepted (ok (readBinary T offset le)) :=
  ok_relates (Applet.whenSelected_relates _ fun _ => command_relates _)

theorem selectFileLe_relates (path : List UInt8) (le : UInt8) : Relates Apart Accepted (ok (selectFileLe T path le)) :=
  ok_relates (Applet.whenSelected_relates _ fun _ => transmitCase4_relates _ _ _ _ _ _)

/-! ### The listing with guards -/

/-- The walk over the template reads bytes of the last answer only. -/
def TemplateFits (s : Linked σ Mias) : Prop := ∀ k, Reads s.se.response k → k < s.se.responseLen

/-- The last answer is a whole record of CONTAINERS_INFO, or its first byte is zero, or the table is full. -/
def RecordFits (s : Linked σ Mias) : Prop :=
  0x0B ≤ getResponseLength s.se ∨ s.se.response 0 = 0 ∨ (keyPoolSize : Int) - 1 ≤ s.obj.keypairsNum

/-- The last answer is a whole record of FILE_DIR, or the buffer is no certificate record of a listed key pair. -/
def EntryFits (s : Linked σ Mias) : Prop :=
  0x15 ≤ getResponseLength s.se ∨ isCertificateRecord s.se.response = false ∨
    s.obj.findContainer (recordContainer s.se.response) = none

/-- `containerTurn` with a guard. -/
noncomputable def containerTurnGuarded (T : Transport σ) (size : Nat) (x : Nat × Nat) :
    OptionT (Exec (Linked σ Mias)) (Turn (Nat × Nat) Unit) := do
  let next := ((x.1 + 1) % 256, (x.2 + 0x0B) % 65536)
  if x.2 < size then
    if ← OptionT.lift (onApplet (readBinary T x.2 0x0B)) then
      if (← OptionT.lift (onApplet (gets Applet.getStatusWord))) = swOK then
        guard RecordFits
        OptionT.lift ((gets fun s => s.se.response) >>= recordTurn x)
      else
        return .stop ()
    else
      return .again next
  else
    return .stop ()

/-- A turn of `linkLoop`. -/
def linkTurn (T : Transport σ) (offset : Nat) : Exec (Linked σ Mias) Unit := do
  if ← ok (readBinary T offset 0x15) then
    let record ← gets fun s => s.se.response
    setObj (linkRecord record)

/-- A turn of `linkLoop` with a guard. -/
noncomputable def linkTurnGuarded (T : Transport σ) (offset : Nat) : OptionT (Exec (Linked σ Mias)) Unit := do
  if ← OptionT.lift (ok (readBinary T offset 0x15)) then
    guard EntryFits
    OptionT.lift ((gets fun s => s.se.response) >>= fun record => setObj (linkRecord record))

noncomputable def linkLoopGuarded (T : Transport σ) : Nat → Nat → OptionT (Exec (Linked σ Mias)) Unit
  | 0, _ => pure ()
  | remaining + 1, offset => do
      linkTurnGuarded T offset
      linkLoopGuarded T remaining ((offset + 0x15) % 65536)

noncomputable def linkCertificatesGuarded (T : Transport σ) : OptionT (Exec (Linked σ Mias)) Unit := do
  if ← OptionT.lift (ok (selectFileLe T FILE_DIR_EF 0x15)) then
    if ← OptionT.lift (ok (readBinary T 0x0000 0x01)) then
      let count ← OptionT.lift (gets fun s => (s.se.response 0).toNat)
      linkLoopGuarded T count 1

/-- `listKeyPairs` with guards. -/
noncomputable def listKeyPairsGuarded (T : Transport σ) : OptionT (Exec (Linked σ Mias)) Bool := do
  if (← OptionT.lift (gets fun s => s.obj.keypairsNum)) ≠ -1 then
    return true
  else if ← OptionT.lift (ok (selectFileLe T CONTAINERS_INFO_EF 0x15)) then
    let length ← OptionT.lift (onApplet (gets Applet.getResponseLength))
    let tag ← OptionT.lift (gets fun s => s.se.response 0)
    if 2 < length ∧ tag = SCTag.FileControlInfoFCP then
      guard TemplateFits
      let size ← OptionT.lift (onSE (fcpFileSize 0))
      guardedLoop (containerTurnGuarded T size) (0, 0)
      OptionT.lift (setObj fun m => { m with keypairsNum := m.keypairsNum + 1 })
      linkCertificatesGuarded T
      return true
    else
      return false
  else
    return false

/-- `getKeyPairByContainerId` with guards. -/
noncomputable def getKeyPairByContainerIdGuarded (T : Transport σ) (containerId : UInt8) :
    OptionT (Exec (Linked σ Mias)) (Option Nat) := do
  let _ ← listKeyPairsGuarded T
  OptionT.lift (gets fun s => s.obj.findContainer containerId.toNat)

/-- A listing and the lookup of a container, with what they return and the key pair that is found. -/
def listThenFind (T : Transport σ) (containerId : UInt8) : Exec (Linked σ Mias) (Bool × Option KeyPair) := do
  let listed ← listKeyPairs T
  let found ← getKeyPairByContainerId T containerId
  gets fun s => (listed, found.map s.obj.keypairs)

/-- `listThenFind` with guards. -/
noncomputable def listThenFindGuarded (T : Transport σ) (containerId : UInt8) :
    OptionT (Exec (Linked σ Mias)) (Bool × Option KeyPair) := do
  let listed ← listKeyPairsGuarded T
  let found ← getKeyPairByContainerIdGuarded T containerId
  OptionT.lift (gets fun s => (listed, found.map s.obj.keypairs))

section Erasure

theorem linkLoop_succ (remaining offset : Nat) :
    linkLoop T (remaining + 1) offset = linkTurn T offset >>= fun _ =>
    linkLoop T remaining ((offset + 0x15) % 65536) := by
  rw [linkTurn, bind_bind]
  funext fuel s
  rw [linkLoop, bind_apply, bind_apply]
  rcases ok (readBinary T offset 0x15) fuel s with ⟨⟨_ | _⟩ | _ | _, s₁⟩ <;> rfl

theorem containerTurnGuarded_erases (size : Nat) (x : Nat × Nat) :
    Erases (containerTurnGuarded T size x) (containerTurn T size x) := by
  refine .ite (.bind (.lift _) fun sent => .ite (.bind (.lift _) fun sw => .ite ?_ (.pure _)) (.pure _)) (.pure _)
  exact .guard (.lift _)

theorem linkTurnGuarded_erases (offset : Nat) : Erases (linkTurnGuarded T offset) (linkTurn T offset) :=
  .bind (.lift _) fun _ => .ite (.guard (.lift _)) (.pure _)

theorem linkLoopGuarded_erases (remaining offset : Nat) :
    Erases (linkLoopGuarded T remaining offset) (linkLoop T remaining offset) := by
  induction remaining generalizing offset with
  | zero => exact .pure _
  | succ remaining ih =>
      rw [linkLoop_succ]
      exact (linkTurnGuarded_erases offset).bind fun _ => ih _

theorem linkCertificatesGuarded_erases : Erases (linkCertificatesGuarded T) (linkCertificates T) := by
  refine .bind (.lift _) fun selected => .ite (.bind (.lift _) fun sent => .ite ?_ (.pure _)) (.pure _)
  exact .bind (.lift _) fun count => linkLoopGuarded_erases _ _

theorem listKeyPairsGuarded_erases : Erases (listKeyPairsGuarded T) (listKeyPairs T) := by
  refine .bind (.lift _) fun num => .ite (.pure _) (.bind (.lift _) fun selected => .ite ?_ (.pure _))
  refine .bind (.lift _) fun length => .bind (.lift _) fun tag => .ite (.guard ?_) (.pure _)
  refine .bind (.lift _) fun size => .bind (.loop (containerTurnGuarded_erases size) _) fun _ =>
    .bind (.lift _) fun _ => ?_
  exact linkCertificatesGuarded_erases.bind fun _ => .pure _

theorem listThenFindGuarded_erases (containerId : UInt8) :
    Erases (listThenFindGuarded T containerId) (listThenFind T containerId) :=
  listKeyPairsGuarded_erases.bind fun _ => (listKeyPairsGuarded_erases.bind fun _ => .lift _).bind fun _ => .lift _

end Erasure

/-! ### Two listings -/

section Listings

variable {s t : Linked σ Mias}

theorem getResponseLength_lt {se : SEInterface σ} {n : Nat} (h : n ≤ SEInterface.getResponseLength se) (hpos : 0 < n) :
    n < se.responseLen := by
  rw [SEInterface.getResponseLength, SEInterface.getResponse] at h
  split at h
  · rw [Mem.slice_length] at h
    omega
  · rw [List.length_nil] at h
    omega

/-- A record that is not linked changes nothing. -/
theorem linkRecord_of_unlinked {record : Mem} {m : Mias}
    (h : isCertificateRecord record = false ∨ m.findContainer (recordContainer record) = none) :
    linkRecord record m = m := by
  unfold linkRecord
  rcases h with hother | hnone
  · rw [if_neg (by rw [hother]; exact Bool.false_ne_true)]
  · rw [hnone]
    split <;> rfl

/-- A record that fits is dealt with alike. -/
theorem recordTurn_relates (x : Nat × Nat) :
    Relates (fun s t => AnsweredAlike s t ∧ RecordFits s ∧ RecordFits t) (fun _ => Apart)
      ((gets fun s : Linked σ Mias => s.se.response) >>= recordTurn x) := by
  intro fuel s t hst
  obtain ⟨⟨⟨hobj, hse⟩, hlen⟩, hfits, _⟩ := hst
  have hfirst : s.se.response 0 = t.se.response 0 := hse.agrees 0 (by omega)
  rw [bind_apply, bind_apply, gets_apply, gets_apply]
  unfold recordTurn
  dsimp only
  generalize ((x.1 + 1) % 256, (x.2 + 0x0B) % 65536) = next
  rw [← hfirst]
  by_cases hzero : s.se.response 0 ≠ 0
  · rw [if_pos hzero, if_pos hzero, bind_apply, bind_apply, gets_apply, gets_apply, ← hobj]
    dsimp only
    by_cases hfull : (keyPoolSize : Int) - 1 ≤ s.obj.keypairsNum
    · rw [if_pos hfull, if_pos hfull]
      exact ⟨rfl, fun _ _ => ⟨hobj, hse.toDiffer⟩⟩
    · -- a whole record
      have hwhole : 0x0B ≤ getResponseLength s.se := by
        rcases hfits with hwhole | hzero' | hfull'
        · exact hwhole
        · exact absurd hzero' hzero
        · exact absurd hfull' hfull
      have hbyte : ∀ k, k < 0x0B → s.se.response k = t.se.response k := by
        intro k hk
        have := getResponseLength_lt hwhole (by decide)
        exact hse.agrees k (by omega)
      rw [if_neg hfull, if_neg hfull]
      simp only [setObj, bind_apply, modify_apply, pure_apply]
      refine ⟨trivial, fun _ _ => ⟨?_, hse.toDiffer⟩⟩
      show addPair x.1 s.se.response s.obj = addPair x.1 t.se.response t.obj
      rw [addPair_congr hbyte, hobj]
  · rw [if_neg hzero, if_neg hzero]
    exact ⟨rfl, fun _ _ => ⟨hobj, hse.toDiffer⟩⟩

theorem statusWord_relates {ok : Bool} (hok : ok = true) :
    Relates (Renewed ok) (fun sw s t => Alongside s t ∧ (sw = swOK → 2 ≤ s.se.responseLen))
      (onApplet (gets Applet.getStatusWord) : Exec (Linked σ Mias) Nat) := by
  intro fuel s t hst
  obtain ⟨hobj, hse⟩ := hst.2 hok
  have hword : Applet.getStatusWord ⟨s.se, s.obj.applet⟩ = Applet.getStatusWord ⟨t.se, t.obj.applet⟩ :=
    Applet.getStatusWord_alongside ⟨congrArg Mias.applet hobj, hse⟩
  refine ⟨congrArg Outcome.done hword, fun sw hdone => ⟨⟨hobj, hse⟩, fun hsw => ?_⟩⟩
  cases hdone
  exact Applet.getStatusWord_present hsw

theorem containerTurnGuarded_agrees (size : Nat) (x : Nat × Nat) :
    Agrees Apart (fun _ => Apart) (containerTurnGuarded T size x) := by
  refine .ite (fun _ => ?_) fun _ => .pure fun s t hst => hst
  refine (readBinary_relates _ _).agrees.bind fun sent => .ite (fun hsent => ?_) fun _ => .pure fun s t hst => hst.1
  refine (statusWord_relates hsent).agrees.bind fun sw => .ite (fun hok => .guard ?_) fun _ =>
    .pure fun s t hst => hst.1.apart
  exact (recordTurn_relates x).agrees.mono fun s t hst => ⟨⟨hst.1.1, hst.1.2 hok⟩, hst.2⟩

/-- A directory record that fits is dealt with alike. -/
theorem linkRecord_relates :
    Relates (fun s t => AnsweredAlike s t ∧ EntryFits s ∧ EntryFits t) (fun _ => Apart)
      ((gets fun s : Linked σ Mias => s.se.response) >>= fun record => setObj (linkRecord record)) := by
  intro fuel s t hst
  obtain ⟨⟨⟨hobj, hse⟩, _⟩, hfits, hfits'⟩ := hst
  refine ⟨rfl, fun _ _ => ⟨?_, hse.toDiffer⟩⟩
  show linkRecord s.se.response s.obj = linkRecord t.se.response t.obj
  by_cases hwhole : 0x15 ≤ getResponseLength s.se
  · have hbyte : ∀ k, k < 0x15 → s.se.response k = t.se.response k := by
      intro k hk
      have := getResponseLength_lt hwhole (by decide)
      exact hse.agrees k (by omega)
    rw [linkRecord_congr hbyte, hobj]
  · -- neither run links a pair
    have hother : ¬0x15 ≤ getResponseLength t.se := by rwa [← hse.getResponseLength_eq]
    rw [linkRecord_of_unlinked (hfits.resolve_left hwhole), linkRecord_of_unlinked (hfits'.resolve_left hother), hobj]

theorem linkTurnGuarded_agrees (offset : Nat) : Agrees Apart (fun _ => Apart) (linkTurnGuarded T offset) := by
  refine (okReadBinary_relates _ _).agrees.bind fun sent => .ite (fun hsent => .guard ?_) fun _ =>
    .pure fun s t hst => hst.1
  exact linkRecord_relates.agrees.mono fun s t hst => ⟨hst.1.2 hsent, hst.2⟩

theorem linkLoopGuarded_agrees (remaining offset : Nat) :
    Agrees Apart (fun _ => Apart) (linkLoopGuarded T remaining offset) := by
  induction remaining generalizing offset with
  | zero => exact .pure fun s t hst => hst
  | succ remaining ih => exact (linkTurnGuarded_agrees offset).bind fun _ => ih _

theorem linkCertificatesGuarded_agrees : Agrees Apart (fun _ => Apart) (linkCertificatesGuarded T) := by
  refine (selectFileLe_relates _ _).agrees.bind fun selected => .ite (fun _ => ?_) fun _ => .pure fun s t hst => hst.1
  refine Agrees.bind ((okReadBinary_relates _ _).agrees.mono fun s t hst => hst.1) fun sent => .ite (fun hsent => ?_)
    fun _ => .pure fun s t hst => hst.1
  have hcount : Relates (Accepted sent) (fun _ => Apart) (gets fun s : Linked σ Mias => (s.se.response 0).toNat) := by
    refine .gets (fun s t hst => ?_) fun s t hst => hst.1
    obtain ⟨⟨_, hse⟩, hlen⟩ := hst.2 hsent
    rw [hse.agrees 0 (by omega)]
  exact hcount.agrees.bind fun count => linkLoopGuarded_agrees _ _

/-- The walk gets the same size. -/
theorem fcpFileSize_relates :
    Relates (fun s t => AnsweredAlike s t ∧ TemplateFits s ∧ TemplateFits t) (fun _ => Apart)
      (onSE (fcpFileSize 0) : Exec (Linked σ Mias) Nat) := by
  intro fuel s t hst
  obtain ⟨⟨⟨hobj, hse⟩, _⟩, hfits, _⟩ := hst
  have hsame : (fcpFileSize 0 fuel t.se).1 = (fcpFileSize 0 fuel s.se).1 :=
    fcpFileSize_reads fun k hk => (hse.agrees k (hfits k hk)).symm
  refine ⟨hsame.symm, fun _ _ => ⟨hobj, ?_⟩⟩
  show Differ (fcpFileSize 0 fuel s.se).2 (fcpFileSize 0 fuel t.se).2
  rw [fcpFileSize_same, fcpFileSize_same]
  exact hse.toDiffer

theorem getResponseLength_relates :
    Relates AnsweredAlike (fun _ => AnsweredAlike)
      (onApplet (gets Applet.getResponseLength) : Exec (Linked σ Mias) Nat) := by
  intro fuel s t hst
  obtain ⟨⟨hobj, hse⟩, hlen⟩ := hst
  have hsame : Applet.getResponseLength ⟨s.se, s.obj.applet⟩ = Applet.getResponseLength ⟨t.se, t.obj.applet⟩ := by
    rw [Applet.getResponseLength, Applet.getResponseLength, Applet.getResponse, Applet.getResponse, ← hobj]
    split
    · exact hse.getResponseLength_eq
    · rfl
  exact ⟨congrArg Outcome.done hsame, fun _ _ => ⟨⟨hobj, hse⟩, hlen⟩⟩

theorem listKeyPairsGuarded_agrees : Agrees Apart (fun _ => Apart) (listKeyPairsGuarded T) := by
  have hnum : Respects Apart (gets fun s : Linked σ Mias => s.obj.keypairsNum) := .gets fun s t hst => by rw [hst.1]
  have htag : Respects AnsweredAlike (gets fun s : Linked σ Mias => s.se.response 0) :=
    .gets fun s t hst => hst.1.2.agrees 0 (Nat.lt_of_lt_of_le (by decide) hst.2)
  have hcounted : Respects Apart
      (setObj fun m : Mias => { m with keypairsNum := m.keypairsNum + 1 } : Exec (Linked σ Mias) Unit) :=
    .modify fun s t hst => ⟨by rw [hst.1], hst.2⟩
  refine hnum.agrees.bind fun num => .ite (fun _ => .pure fun s t hst => hst) fun _ => ?_
  refine (selectFileLe_relates _ _).agrees.bind fun selected => .ite (fun hselected => ?_) fun _ =>
    .pure fun s t hst => hst.1
  refine Agrees.mono ?_ fun s t hst => hst.2 hselected
  refine getResponseLength_relates.agrees.bind fun length => htag.agrees.bind fun tag => .ite (fun _ => .guard ?_)
    fun _ => .pure fun s t hst => hst.1.apart
  refine fcpFileSize_relates.agrees.bind fun size => (Agrees.loop (containerTurnGuarded_agrees size) _).bind fun _ => ?_
  exact hcounted.agrees.bind fun _ => linkCertificatesGuarded_agrees.bind fun _ => .pure fun s t hst => hst

theorem listThenFindGuarded_agrees (containerId : UInt8) :
    Agrees Apart (fun _ => Apart) (listThenFindGuarded T containerId) := by
  have hfind : Respects Apart (gets fun s : Linked σ Mias => s.obj.findContainer containerId.toNat) :=
    .gets fun s t hst => by rw [hst.1]
  refine listKeyPairsGuarded_agrees.bind fun listed =>
    Agrees.bind (listKeyPairsGuarded_agrees.bind fun _ => hfind.agrees) fun found => ?_
  have hpair : Respects Apart (gets fun s : Linked σ Mias => (listed, found.map s.obj.keypairs)) :=
    .gets fun s t hst => by rw [hst.1]
  exact hpair.agrees

/-! ### Stale bytes -/

/-- The listing and the lookup give the same in two runs: the same outcome, with what they return and the key pair,
and the same object. -/
def ListsAlike (T : Transport σ) (containerId : UInt8) (fuel : Nat) (s t : Linked σ Mias) : Prop :=
  (listThenFind T containerId fuel s).1 = (listThenFind T containerId fuel t).1 ∧
    ∀ result, (listThenFind T containerId fuel s).1 = .done result →
      (listThenFind T containerId fuel s).2.obj = (listThenFind T containerId fuel t).2.obj

/-- A turn that took a short record leaves the object as it was. -/
def SkipsShort {α : Type} (turn : Exec (Linked σ Mias) α) (requested fuel : Nat) (s : Linked σ Mias) : Prop :=
  ∀ value s', turn fuel s = (.done value, s') → getResponseLength s'.se < requested → s'.obj = s.obj

theorem listThenFind_alike {containerId : UInt8} {fuel : Nat} (h : Apart s t)
    (hs : Passes (listThenFindGuarded T containerId) fuel s) (ht : Passes (listThenFindGuarded T containerId) fuel t) :
    ListsAlike T containerId fuel s t := by
  obtain ⟨hend, hrel⟩ := (listThenFindGuarded_agrees containerId).erased
    (listThenFindGuarded_erases containerId) h hs ht
  exact ⟨hend, fun result hdone => (hrel result hdone).1⟩

/-- A read leaves the object as it was. -/
theorem readBinary_obj {offset fuel : Nat} {le : UInt8} {sent : Bool} {s' : Linked σ Mias}
    (h : onApplet (readBinary T offset le) fuel s = (.done sent, s')) : s'.obj = s.obj := by
  obtain ⟨t, hrun, rfl⟩ := zoom_eq_done h
  have hobj : (readBinary T offset le fuel ⟨s.se, s.obj.applet⟩).2.obj = s.obj.applet := Applet.whenSelected_obj ..
  rw [show readBinary T offset le fuel ⟨s.se, s.obj.applet⟩ = _ from hrun] at hobj
  show { s.obj with applet := t.obj } = s.obj
  rw [show t.obj = s.obj.applet from hobj]

theorem okReadBinary_obj {offset fuel : Nat} {le : UInt8} {sent : Bool} {s' : Linked σ Mias}
    (h : ok (readBinary T offset le) fuel s = (.done sent, s')) : s'.obj = s.obj :=
  ((readBinary_meets offset le).done h).1

/-- A record is passed over, or it is added. -/
theorem recordTurn_cases {fuel : Nat} {x : Nat × Nat} {record : Mem} {turn : Turn (Nat × Nat) Unit} {s' : Linked σ Mias}
    (h : recordTurn x record fuel s = (.done turn, s')) :
    s' = s ∨ (record 0 ≠ 0 ∧ ¬(keyPoolSize : Int) - 1 ≤ s.obj.keypairsNum ∧ s' = ⟨s.se, addPair x.1 record s.obj⟩) := by
  unfold recordTurn at h
  by_cases hfirst : record 0 ≠ 0
  · rw [if_pos hfirst, bind_done (gets_apply _ fuel s)] at h
    by_cases hfull : (keyPoolSize : Int) - 1 ≤ s.obj.keypairsNum
    · rw [if_pos hfull] at h
      cases h
      exact .inl rfl
    · rw [if_neg hfull] at h
      cases h
      exact .inr ⟨hfirst, hfull, rfl⟩
  · rw [if_neg hfirst] at h
    cases h
    exact .inl rfl

theorem containerTurn_skips {size fuel : Nat} {x : Nat × Nat} (h : Passes (containerTurnGuarded T size x) fuel s) :
    SkipsShort (containerTurn T size x) 0x0B fuel s := by
  intro turn s' hrun hshort
  unfold containerTurn at hrun
  unfold containerTurnGuarded at h
  by_cases hmore : x.2 < size
  · rw [if_pos hmore] at hrun h
    obtain ⟨sent, s₁, hread, hrun⟩ := bind_eq_done hrun
    have hobj := readBinary_obj hread
    replace h := h.lift hread
    cases sent with
    | false =>
        cases hrun
        exact hobj
    | true =>
        rw [if_pos rfl] at hrun h
        obtain ⟨sw, s₂, hword, hrun⟩ := bind_eq_done hrun
        replace h := h.lift hword
        obtain rfl : s₁ = s₂ := congrArg Prod.snd hword
        by_cases hok : sw = swOK
        · rw [if_pos hok] at hrun h
          obtain ⟨hfits, _⟩ := h.guard
          rw [bind_done (gets_apply _ fuel s₁)] at hrun
          rcases recordTurn_cases hrun with hsame | ⟨hfirst, hroom, rfl⟩
          · rw [hsame, hobj]
          · -- a record that is added is whole
            rcases hfits with hwhole | hzero | hfull
            · exact absurd hshort (Nat.not_lt.mpr hwhole)
            · exact absurd hzero hfirst
            · exact absurd hfull hroom
        · rw [if_neg hok] at hrun
          cases hrun
          exact hobj
  · rw [if_neg hmore] at hrun
    cases hrun
    rfl

theorem linkTurn_skips {offset fuel : Nat} (h : Passes (linkTurnGuarded T offset) fuel s) :
    SkipsShort (linkTurn T offset) 0x15 fuel s := by
  intro value s' hrun hshort
  unfold linkTurn at hrun
  unfold linkTurnGuarded at h
  obtain ⟨sent, s₁, hread, hrun⟩ := bind_eq_done hrun
  have hobj := okReadBinary_obj hread
  replace h := h.lift hread
  cases sent with
  | false =>
      cases hrun
      exact hobj
  | true =>
      rw [if_pos rfl] at hrun h
      obtain ⟨hfits, _⟩ := h.guard
      rw [bind_done (gets_apply _ fuel s₁)] at hrun
      cases hrun
      have hunlinked := linkRecord_of_unlinked (hfits.resolve_left (Nat.not_le.mpr hshort))
      show linkRecord s₁.se.response s₁.obj = s.obj
      rw [hunlinked, hobj]

/-- **Key listing ignores stale buffer bytes** as long as its guards hold: the template is walked inside the answer, a
record of CONTAINERS_INFO is whole, or its first byte is zero, or the table is full, and a record of FILE_DIR is whole,
or the buffer is no certificate record of a listed key pair. Then two runs that differ in the response buffer only end
alike, and a record that is shorter than requested adds nothing. -/
theorem listing_ignores_stale (T : Transport σ) (containerId : UInt8) (fuel : Nat) (s t : Linked σ Mias) :
    (Apart s t → Passes (listThenFindGuarded T containerId) fuel s → Passes (listThenFindGuarded T containerId) fuel t →
      ListsAlike T containerId fuel s t) ∧
    (∀ size x, Passes (containerTurnGuarded T size x) fuel s → SkipsShort (containerTurn T size x) 0x0B fuel s) ∧
    (∀ offset, Passes (linkTurnGuarded T offset) fuel s → SkipsShort (linkTurn T offset) 0x15 fuel s) :=
  ⟨listThenFind_alike, fun _ _ h => containerTurn_skips h, fun _ h => linkTurn_skips h⟩

end Listings

/-! ### A card of whole records -/

/-- The card of one container. -/
abbrev oneContainerCard : Transport Nat := fileCard oneContainer.contents oneContainer.templates

section Whole

variable {s : Linked Nat Mias} {channel : UInt8}

/-- The turn at the record of the container, and the turn behind it. -/
theorem oneContainer_loop (hready : Ready channel s.obj) (hcard : s.se.card = containersId)
    (hnum : s.obj.keypairsNum = -1) :
    Yields (guardedLoop (containerTurnGuarded oneContainerCard 11) (0, 0)).run s (some ()) fun s' =>
      Ready channel s'.obj ∧ s'.obj.keypairsNum = 0 := by
  have hread : Concludes oneContainerCard s.se.card (readApdu channel 0 0x0B)
      (some (oneContainer.contents s.se.card ++ [0x90, 0x00])) s.se.card := by
    rw [hcard]
    exact fileCard_reads channel containersId (by decide) 0x0B
  obtain ⟨s₁, hrun, hobj, hafter⟩ := readBinary_concludes hready hread
  have hholds := hafter.holds _ rfl
  have hready₁ : Ready channel s₁.obj := hobj ▸ hready
  have hword := getStatusWord_evals hready₁ hholds
  rw [statusWord_ok] at hword
  have hwhole : RecordFits s₁ := by
    refine .inl ?_
    rw [getResponseLength, hholds.getResponse, responseData_append, hcard]
    decide
  have hfirst : s₁.se.response 0 ≠ 0 := by
    rw [hcard] at hholds
    rw [hholds.data_eq (by decide)]
    decide
  have hroom : ¬(keyPoolSize : Int) - 1 ≤ s₁.obj.keypairsNum := by
    rw [hobj, hnum]
    decide
  let s₂ : Linked Nat Mias := ⟨s₁.se, addPair 0 s₁.se.response s₁.obj⟩
  have hrecord : Evals (recordTurn (0, 0) s₁.se.response) s₁ (.again (1, 11)) s₂ := by
    unfold recordTurn
    rw [if_pos hfirst]
    apply Evals.gets.bind
    rw [if_neg hroom]
    exact Evals.modify.bind .pure
  have hturn : Evals (containerTurnGuarded oneContainerCard 11 (0, 0)).run s (some (.again (1, 11))) s₂ := by
    unfold containerTurnGuarded
    rw [if_pos (by decide)]
    apply hrun.lift.guarded_bind
    rw [Option.isSome_some, if_pos rfl]
    apply hword.lift.guarded_bind
    rw [if_pos rfl]
    exact .guard hwhole (.lift (Evals.gets.bind hrecord))
  have hlast : Evals (containerTurnGuarded oneContainerCard 11 (1, 11)).run s₂ (some (.stop ())) s₂ :=
    .of_eq fun _ => rfl
  refine ⟨s₂, .loop (.again hturn.guardedTurn_again (.stop hlast.guardedTurn_stop)), hready₁.congr rfl, ?_⟩
  show s₁.obj.keypairsNum + 1 = 0
  rw [hobj, hnum]
  rfl

/-- The directory without entries. -/
theorem oneContainer_link (hready : Ready channel s.obj) :
    Yields (linkCertificatesGuarded oneContainerCard).run s (some ()) fun s' => s'.obj = s.obj := by
  have hselect : Concludes oneContainerCard s.se.card (selectApdu channel directoryId ++ [0x15])
      (some (oneContainer.templates directoryId ++ [0x90, 0x00])) directoryId :=
    fileCard_selects channel s.se.card (by decide) (Nat.le_of_ble_eq_true rfl) [0x15]
  obtain ⟨s₁, hrun, hobj, hafter⟩ := selectFileLe_concludes hready hselect
  have hread : Concludes oneContainerCard s₁.se.card (readApdu channel 0 0x01)
      (some ([0x00] ++ [0x90, 0x00])) s₁.se.card := by
    rw [hafter.card_eq]
    exact fileCard_reads channel directoryId (by decide) 0x01
  obtain ⟨s₂, hrun₂, hobj₂, hafter₂⟩ := okReadBinary_concludes (hobj ▸ hready) hread
  have hcount : (s₂.se.response 0).toNat = 0 := by
    rw [(hafter₂.holds _ rfl).data_eq (by decide)]
    rfl
  refine ⟨s₂, ?_, hobj₂.trans hobj⟩
  unfold linkCertificatesGuarded
  apply hrun.lift.guarded_bind
  rw [if_pos (acceptedResult_append _)]
  apply hrun₂.lift.guarded_bind
  rw [if_pos (acceptedResult_append _)]
  apply Evals.gets.lift.guarded_bind
  rw [hcount]
  exact .pure

/-- The run of the listing meets its guards. -/
theorem oneContainer_lists (hready : Ready channel s.obj) (hnum : s.obj.keypairsNum = -1) :
    Yields (listKeyPairsGuarded oneContainerCard).run s (some true) fun s' => s'.obj.keypairsNum = 1 := by
  have hselect : Concludes oneContainerCard s.se.card (selectApdu channel containersId ++ [0x15])
      (some (oneContainer.templates containersId ++ [0x90, 0x00])) containersId :=
    fileCard_selects channel s.se.card (by decide) (Nat.le_of_ble_eq_true rfl) [0x15]
  obtain ⟨s₁, hrun, hobj, hafter⟩ := selectFileLe_concludes hready hselect
  have hready₁ : Ready channel s₁.obj := hobj ▸ hready
  have hholds := hafter.holds _ rfl
  have hsame : ∀ k, k < (oneContainer.templates containersId).length →
      s₁.se.response k = (oneContainer.templates containersId).getD k 0 := fun k hk => hholds.data_eq hk
  have hlength : Evals (onApplet (gets Applet.getResponseLength)) s₁ 6 s₁ := by
    refine .of_eq fun fuel => ?_
    show (Outcome.done (Applet.getResponseLength ⟨s₁.se, s₁.obj.applet⟩), s₁) = _
    rw [Applet.getResponseLength, Applet.getResponse, if_pos hready₁.isSelected, hholds.getResponse,
      responseData_append]
    rfl
  have htag : s₁.se.response 0 = SCTag.FileControlInfoFCP := hsame 0 (by decide)
  have hwalks : Walks (oneContainer.templates containersId) 6 2 0 11 :=
    .size (by decide) (by decide) (by decide) (.stop (by decide))
  have hfits : TemplateFits s₁ := by
    intro k hk
    have hlen : s₁.se.responseLen = 8 := hholds.1
    have hone : s₁.se.response 1 = 0x04 := hsame 1 (by decide)
    rcases hk with rfl | hk
    · omega
    · rw [hone] at hk
      have hin := hwalks.within hsame hk
      have hdata : (oneContainer.templates containersId).length = 6 := rfl
      omega
  have hsize : Evals (onSE (fcpFileSize 0)) s₁ 11 s₁ := .zoom (hwalks.evals hsame (by decide))
  obtain ⟨s₂, hloop, hready₂, hnum₂⟩ := oneContainer_loop hready₁ hafter.card_eq (by rw [hobj, hnum])
  obtain ⟨s₃, hlink, hobj₃⟩ := oneContainer_link
    (s := ⟨s₂.se, { s₂.obj with keypairsNum := s₂.obj.keypairsNum + 1 }⟩) (hready₂.congr rfl)
  refine ⟨s₃, ?_, ?_⟩
  · unfold listKeyPairsGuarded
    apply Evals.gets.lift.guarded_bind
    rw [if_neg (by rw [hnum]; simp)]
    apply hrun.lift.guarded_bind
    rw [if_pos (acceptedResult_append _)]
    apply hlength.lift.guarded_bind
    apply Evals.gets.lift.guarded_bind
    rw [if_pos ⟨by decide, htag⟩]
    refine .guard hfits ?_
    apply hsize.lift.guarded_bind
    apply hloop.guarded_bind
    apply Evals.modify.lift.guarded_bind
    apply hlink.guarded_bind
    exact .pure
  · show s₃.obj.keypairsNum = 1
    rw [hobj₃]
    show s₂.obj.keypairsNum + 1 = 1
    rw [hnum₂]
    rfl

theorem oneContainer_passes (hready : Ready channel s.obj) (hnum : s.obj.keypairsNum = -1) (containerId : UInt8)
    (fuel : Nat) :
    Passes (listThenFindGuarded oneContainerCard containerId) fuel s := by
  obtain ⟨s₁, hlists, hnum₁⟩ := oneContainer_lists hready hnum
  have hagain : Evals (listKeyPairsGuarded oneContainerCard).run s₁ (some true) s₁ := by
    unfold listKeyPairsGuarded
    apply Evals.gets.lift.guarded_bind
    rw [if_pos (by rw [hnum₁]; decide)]
    exact .pure
  have hfind : Evals (getKeyPairByContainerIdGuarded oneContainerCard containerId).run s₁
      (some (s₁.obj.findContainer containerId.toNat)) s₁ := hagain.guarded_bind Evals.gets.lift
  have hall : Evals (listThenFindGuarded oneContainerCard containerId).run s
      (some (true, (s₁.obj.findContainer containerId.toNat).map s₁.obj.keypairs)) s₁ :=
    hlists.guarded_bind (hfind.guarded_bind Evals.gets.lift)
  exact hall.passes fuel

/-- The object before a listing, with these bytes in the response buffer. -/
def withBuffer {σ : Type} (card : σ) (buffer : Mem) : Linked σ Mias := ⟨.create card buffer, selectedMias⟩

theorem withBuffer_apart {σ : Type} (card : σ) (buffer buffer' : Mem) :
    Apart (withBuffer card buffer) (withBuffer card buffer') :=
  ⟨rfl, rfl, rfl, rfl, rfl⟩

/-- The listing of one container, and the read of a directory entry that is not there. -/
theorem listing_ignores_stale_whole :
    ListsAlike oneContainerCard 0 5 (withBuffer 0 .zero) (withBuffer 0 fun _ => 0x0B) ∧
      SkipsShort (containerTurn oneContainerCard 11 (1, 11)) 0x0B 5 (withBuffer 0 .zero) ∧
      SkipsShort (linkTurn oneContainerCard 1) 0x15 5 (withBuffer 0 .zero) := by
  have hall := listing_ignores_stale oneContainerCard 0 5 (withBuffer 0 .zero) (withBuffer 0 fun _ => 0x0B)
  refine ⟨hall.1 (withBuffer_apart _ _ _) (oneContainer_passes selectedMias_ready rfl 0 5)
    (oneContainer_passes selectedMias_ready rfl 0 5), hall.2.1 11 (1, 11) ?_, hall.2.2 1 ?_⟩
  · exact Evals.passes (.of_eq fun _ => rfl :
      Evals (containerTurnGuarded oneContainerCard 11 (1, 11)).run _ (some (.stop ())) _) 5
  · have hread : Concludes oneContainerCard 0 (readApdu 0 1 0x15) (some ([] ++ [0x90, 0x00])) 0 :=
      fileCard_reads 0 0 (by decide) 0x15
    obtain ⟨s₁, hrun, hobj, _⟩ := okReadBinary_concludes (s := withBuffer 0 .zero) selectedMias_ready hread
    have hfits : EntryFits s₁ := by
      refine .inr (.inr ?_)
      rw [hobj]
      rfl
    have hturn : Evals (linkTurnGuarded oneContainerCard 1).run (withBuffer 0 .zero) (some ())
        ⟨s₁.se, linkRecord s₁.se.response s₁.obj⟩ := by
      unfold linkTurnGuarded
      apply hrun.lift.guarded_bind
      rw [if_pos (acceptedResult_append _)]
      exact .guard hfits (.lift (Evals.gets.bind .modify))
    exact hturn.passes 5

/-- The low byte of the size is behind the answer to the SELECT: what it was before decides if the container is
listed. -/
theorem listing_takes_stale : ∃ card : List (Option (List UInt8)),
    Apart (withBuffer card .zero) (withBuffer card fun _ => 0x0B) ∧
      ¬ListsAlike scripted 0 3 (withBuffer card .zero) (withBuffer card fun _ => 0x0B) := by
  refine ⟨[some [0x62, 0x04, 0x81, 0x90, 0x00], some [0x01, 0, 0, 0, 0x08, 0, 1, 2, 3, 4, 5, 0x90, 0x00], none],
    withBuffer_apart _ _ _, fun halike => ?_⟩
  have hfound := congrArg (fun outcome => outcome.value?.map fun result => result.2.isSome) halike.1
  revert hfound
  decide +kernel

end Whole

end Mias

end TrustOnboard
