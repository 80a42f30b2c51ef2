import TrustOnboard.AppletTrace
import TrustOnboard.MiasObjects

/-! A card with files, seen from the MIAS object: SELECT makes a file current, READ BINARY delivers a
piece of the current file. The card is any transport of which this is known; answers may come after any
automatic follow-ups. -/

namespace TrustOnboard

open Exec Linked SEInterface

namespace Applet

variable {σ : Type} {T : Transport σ}

theorem fill_yields {apdu : List UInt8} {s : SEInterface σ} (h : apdu.length ≤ apduSize) :
    Yields (fill apdu) s () (· = { s with apdu := apdu }) :=
  Yields.modify_bind ⟨_, .check h, rfl⟩

/-- A transmission that is answered. -/
def Answers (program : Exec (SEInterface σ) Bool) (s : SEInterface σ) (answer : List UInt8) (card : σ) : Prop :=
  Yields program s true fun s' => s'.card = card ∧ Holds s' answer

theorem command_answers {apdu answer : List UInt8} {s : SEInterface σ} {card : σ}
    (h : Settles T s.card apdu answer card) : Answers (command T apdu) s answer card :=
  command_evals h

/-- A command of a selected applet that is answered. -/
theorem whenSelected_yields {cla : UInt8} {transmitted : UInt8 → Exec (SEInterface σ) Bool} {s : Linked σ Applet}
    {answer : List UInt8} {card : σ} (hselected : s.obj.isSelected = true) (hattached : s.obj.attached = true)
    (h : Answers (transmitted (cla ||| s.obj.channel)) s.se answer card) :
    Yields (whenSelected cla transmitted) s true
      fun s' => s'.obj = s.obj ∧ s'.se.card = card ∧ Holds s'.se answer := by
  obtain ⟨se, hrun, hcard, hholds⟩ := h
  refine ⟨⟨se, s.obj⟩, ?_, rfl, hcard, hholds⟩
  apply Evals.gets.bind
  rw [if_pos hselected]
  apply (Evals.check hattached).bind
  exact .zoom hrun

theorem ok_yields {cla : UInt8} {transmitted : UInt8 → Exec (SEInterface σ) Bool} {s : Linked σ Applet}
    {answer : List UInt8} {card : σ} (hselected : s.obj.isSelected = true) (hattached : s.obj.attached = true)
    (h : Answers (transmitted (cla ||| s.obj.channel)) s.se answer card) :
    Yields (ok (whenSelected cla transmitted)) s (decide (statusWord answer = swOK))
      fun s' => s'.obj = s.obj ∧ s'.se.card = card ∧ Holds s'.se answer := by
  obtain ⟨s', hsent, hobj, hcard, hholds⟩ := whenSelected_yields hselected hattached h
  refine ⟨s', hsent.bind (Ends.of_eq fun fuel => ?_), hobj, hcard, hholds⟩
  rw [if_pos rfl, gets_apply, getStatusWord, hobj, if_pos hselected, hholds.getStatusWord]

end Applet

namespace Mias

variable {σ : Type} {T : Transport σ} {s : Linked σ Mias}

/-- The object is selected on a channel and attached to its interface. -/
structure Ready (channel : UInt8) (m : Mias) : Prop where
  isSelected : m.applet.isSelected = true
  attached : m.applet.attached = true
  channel_eq : m.applet.channel = channel

theorem Ready.congr {channel : UInt8} {m m' : Mias} (h : Ready channel m) (happlet : m'.applet = m.applet) :
    Ready channel m' := ⟨happlet ▸ h.isSelected, happlet ▸ h.attached, happlet ▸ h.channel_eq⟩

/-- An accepted command: the data of the answer is what the object reads next. -/
theorem accepted_yields {cla channel : UInt8} {transmitted : UInt8 → Exec (SEInterface σ) Bool}
    {data : List UInt8} {card : σ} (hready : Ready channel s.obj)
    (h : Applet.Answers (transmitted (cla ||| channel)) s.se (data ++ [0x90, 0x00]) card) :
    Yields (ok (Applet.whenSelected cla transmitted)) s true
      fun s' => s'.obj = s.obj ∧ s'.se.card = card ∧ Holds s'.se (data ++ [0x90, 0x00]) := by
  rw [← hready.channel_eq] at h
  have hok := Applet.ok_yields (s := ⟨s.se, s.obj.applet⟩) hready.isSelected hready.attached h
  rw [statusWord_ok, decide_eq_true rfl] at hok
  refine Yields.zoom hok ?_
  intro t ht
  obtain ⟨hobj, hcard, hholds⟩ := ht
  refine ⟨?_, hcard, hholds⟩
  show { s.obj with applet := t.obj } = s.obj
  rw [hobj]

/-- A command that is transmitted, whatever the status of the answer. -/
theorem sent_yields {cla channel : UInt8} {transmitted : UInt8 → Exec (SEInterface σ) Bool} {answer : List UInt8}
    {card : σ} (hready : Ready channel s.obj)
    (h : Applet.Answers (transmitted (cla ||| channel)) s.se answer card) :
    Yields (onApplet (Applet.whenSelected cla transmitted)) s true
      fun s' => s'.obj = s.obj ∧ s'.se.card = card ∧ Holds s'.se answer := by
  rw [← hready.channel_eq] at h
  have hsent := Applet.whenSelected_yields (s := ⟨s.se, s.obj.applet⟩) hready.isSelected hready.attached h
  refine Yields.zoom hsent ?_
  intro t ht
  obtain ⟨hobj, hcard, hholds⟩ := ht
  refine ⟨?_, hcard, hholds⟩
  show { s.obj with applet := t.obj } = s.obj
  rw [hobj]

/-- An accepted command is one that is transmitted and answered `9000`. -/
theorem sent_of_ok {program : Exec (Linked σ Applet) Bool} {post : Linked σ Mias → Prop}
    (h : Yields (ok program) s true post) :
    Yields (onApplet program) s true
      fun s' => post s' ∧ Applet.getStatusWord ⟨s'.se, s'.obj.applet⟩ = swOK := by
  obtain ⟨s', ⟨least, hrun⟩, hpost⟩ := h
  -- how the command itself ends, from how it ends with the test of the status word behind it
  have hcases : ∀ fuel, (ok program fuel s = (.done true, s') →
        onApplet program fuel s = (.done true, s') ∧ Applet.getStatusWord ⟨s'.se, s'.obj.applet⟩ = swOK) ∧
      ((ok program fuel s).1 = .spent → (onApplet program fuel s).1 = .spent) := by
    intro fuel
    simp only [ok, onApplet, Applet.ok, zoom, bind_apply]
    rcases program fuel ((objLens appletLens).get s) with ⟨outcome, t⟩
    cases outcome with
    | done sent =>
        cases sent with
        | true =>
            refine ⟨fun heq => ?_, fun heq => by cases heq⟩
            simp only [if_true, gets_apply, Prod.mk.injEq, Outcome.done.injEq, decide_eq_true_eq] at heq
            obtain ⟨hword, rfl⟩ := heq
            exact ⟨rfl, hword⟩
        | false => simp
    | fault => simp
    | spent => simp
  refine ⟨s', ⟨least, fun fuel => ⟨fun hfuel => ?_, fun hfuel => ?_⟩⟩, hpost, ?_⟩
  · exact ((hcases fuel).1 ((hrun fuel).1 hfuel)).1
  · exact (hcases fuel).2 ((hrun fuel).2 hfuel)
  · exact ((hcases least).1 ((hrun least).1 (Nat.le_refl least))).2

section Transmit

variable {cla channel p1 p2 le : UInt8} {ins : SCIns} {field data : List UInt8} {card : σ}

theorem transmitCase2_yields (hready : Ready channel s.obj)
    (h : Settles T s.se.card [cla ||| channel, ins.code, p1, p2, le] (data ++ [0x90, 0x00]) card) :
    Yields (ok (Applet.transmitCase2 T cla ins p1 p2 le)) s true
      fun s' => s'.obj = s.obj ∧ s'.se.card = card ∧ Holds s'.se (data ++ [0x90, 0x00]) := by
  have hsent : Applet.Answers (SEInterface.transmitCase2 T (cla ||| channel) ins p1 p2 le) s.se
      (data ++ [0x90, 0x00]) card := Applet.command_answers h
  unfold Applet.transmitCase2
  exact accepted_yields hready hsent

theorem transmitCase3_yields (hready : Ready channel s.obj) (hfits : 5 + field.length ≤ apduSize)
    (h : Settles T s.se.card ((cla ||| channel) :: ins.code :: p1 :: p2 :: lowByte field.length :: field)
      (data ++ [0x90, 0x00]) card) :
    Yields (ok (Applet.transmitCase3 T cla ins p1 p2 field)) s true
      fun s' => s'.obj = s.obj ∧ s'.se.card = card ∧ Holds s'.se (data ++ [0x90, 0x00]) := by
  have hsent : Applet.Answers (SEInterface.transmitCase3 T (cla ||| channel) ins p1 p2 field) s.se
      (data ++ [0x90, 0x00]) card :=
    Yields.bind (Applet.fill_yields (by simp only [List.length_cons]; omega)) fun s' hs' => by
      subst hs'
      exact Applet.command_answers h
  unfold Applet.transmitCase3
  exact accepted_yields hready hsent

theorem transmitCase4_yields (hready : Ready channel s.obj) (hfits : 5 + field.length + 1 ≤ apduSize)
    (h : Settles T s.se.card
      ((cla ||| channel) :: ins.code :: p1 :: p2 :: lowByte field.length :: (field ++ [le]))
      (data ++ [0x90, 0x00]) card) :
    Yields (ok (Applet.transmitCase4 T cla ins p1 p2 field le)) s true
      fun s' => s'.obj = s.obj ∧ s'.se.card = card ∧ Holds s'.se (data ++ [0x90, 0x00]) := by
  have hsent : Applet.Answers (SEInterface.transmitCase4 T (cla ||| channel) ins p1 p2 field le) s.se
      (data ++ [0x90, 0x00]) card :=
    Yields.bind (Applet.fill_yields (by simp only [List.length_cons, List.length_append, List.length_nil]; omega))
      fun s' hs' => by
        subst hs'
        exact Applet.command_answers h
  unfold Applet.transmitCase4
  exact accepted_yields hready hsent

end Transmit

/-- The data of the last answer is what the applet then reads. -/
theorem response_done {answer : List UInt8} (hselected : s.obj.applet.isSelected = true)
    (hholds : Holds s.se answer) (fuel : Nat) :
    response fuel s = (.done (responseData answer), s) := by
  have hdata : Applet.getResponse ⟨s.se, s.obj.applet⟩ = responseData answer := by
    rw [Applet.getResponse, if_pos hselected]
    exact hholds.getResponse
  show (Outcome.done (Applet.getResponse ⟨s.se, s.obj.applet⟩), s) = _
  rw [hdata]

theorem statusWord_done {answer : List UInt8} (hselected : s.obj.applet.isSelected = true)
    (hholds : Holds s.se answer) (fuel : Nat) :
    onApplet (gets Applet.getStatusWord) fuel s = (.done (statusWord answer), s) := by
  have hword : Applet.getStatusWord ⟨s.se, s.obj.applet⟩ = statusWord answer := by
    rw [Applet.getStatusWord, if_pos hselected]
    exact hholds.getStatusWord
  show (Outcome.done (Applet.getStatusWord ⟨s.se, s.obj.applet⟩), s) = _
  rw [hword]

/-- READ BINARY on the channel of the applet. -/
def readApdu (channel : UInt8) (offset : Nat) (le : UInt8) : List UInt8 :=
  [0x00 ||| channel, SCIns.readBinary.code, highByte offset, lowByte offset, le]

theorem response_yields {channel : UInt8} {data : List UInt8} (hready : Ready channel s.obj)
    (hholds : Holds s.se (data ++ [0x90, 0x00])) : Yields response s data (· = s) := by
  refine ⟨s, .of_eq fun fuel => ?_, rfl⟩
  rw [response_done hready.isSelected hholds, responseData_append]

/-- The card delivers pieces of the current file: what was asked for, or at the places of a file where
reads may be short, at least one byte of it. -/
def Serves (T : Transport σ) (channel : UInt8) (contents : Nat → List UInt8) (current : σ → Nat)
    (short : Nat → Nat → Prop) : Prop :=
  ∀ card offset (le : UInt8), 0 < le.toNat → (contents (current card)).length < 32768 →
    offset + le.toNat ≤ (contents (current card)).length →
    ∃ data card', Settles T card (readApdu channel offset le) (data ++ [0x90, 0x00]) card' ∧
      current card' = current card ∧ data ≠ [] ∧
      data <+: ((contents (current card)).drop offset).take le.toNat ∧
      (¬short (current card) offset → data = ((contents (current card)).drop offset).take le.toNat)

/-- The object, and the file that is current on the card. -/
structure Rests (current : σ → Nat) (efid : Nat) (m : Mias) (s : Linked σ Mias) : Prop where
  obj_eq : s.obj = m
  current_eq : current s.se.card = efid

section Serves

variable {channel : UInt8} {contents : Nat → List UInt8} {current : σ → Nat} {short : Nat → Nat → Prop}
  {efid offset : Nat} {m : Mias} {le : UInt8}

/-- A read delivers bytes of the current file. -/
theorem Serves.readBinary (h : Serves T channel contents current short) (hready : Ready channel m)
    (hs : Rests current efid m s) (hpos : 0 < le.toNat) (hsize : (contents efid).length < 32768)
    (hrange : offset + le.toNat ≤ (contents efid).length) :
    ∃ data, data ≠ [] ∧ data <+: ((contents efid).drop offset).take le.toNat ∧
      (¬short efid offset → data = ((contents efid).drop offset).take le.toNat) ∧
      Yields (ok (Mias.readBinary T offset le)) s true
        fun s' => Rests current efid m s' ∧ Holds s'.se (data ++ [0x90, 0x00]) := by
  obtain ⟨hobj, hcurrent⟩ := hs
  obtain ⟨data, card, hsettles, hkept, hne, hprefix, hexact⟩ := h s.se.card offset le hpos
    (by rw [hcurrent]; exact hsize) (by rw [hcurrent]; exact hrange)
  rw [hcurrent] at hprefix hexact hkept
  refine ⟨data, hne, hprefix, hexact, ?_⟩
  rw [← hobj] at hready
  refine (transmitCase2_yields hready hsettles).mono ?_
  rintro s' ⟨hobj', hcard, hholds⟩
  exact ⟨⟨hobj'.trans hobj, by rw [hcard]; exact hkept⟩, hholds⟩

/-- A read of a whole field, where reads are not short. -/
theorem Serves.readField (h : Serves T channel contents current short) (hready : Ready channel m)
    (hs : Rests current efid m s) {front field back : List UInt8}
    (hcontent : contents efid = front ++ field ++ back) (hsize : (contents efid).length < 32768)
    (hoffset : offset = front.length) (hle : le.toNat = field.length) (hpos : 0 < field.length)
    (hfirm : ¬short efid offset) :
    Yields (ok (Mias.readBinary T offset le)) s true
      fun s' => Rests current efid m s' ∧ Holds s'.se (field ++ [0x90, 0x00]) := by
  have hrange : offset + le.toNat ≤ (contents efid).length := by
    rw [hcontent, List.length_append, List.length_append]
    omega
  obtain ⟨data, _, _, hexact, hrun⟩ := h.readBinary hready hs (by omega) hsize hrange
  have hfield : ((contents efid).drop offset).take le.toNat = field := by
    rw [hcontent, hoffset, hle, List.append_assoc, List.drop_left, List.take_left]
  rw [hexact hfirm, hfield] at hrun
  exact hrun

/-- The length that the loop asks for at position `i`. -/
def chunkLen (size i : Nat) : Nat := if size < i + 0xEE then size - i else 0xEE

theorem chunkLen_le {size i : Nat} (h : i < size) :
    1 ≤ chunkLen size i ∧ chunkLen size i ≤ 0xEE ∧ i + chunkLen size i ≤ size := by
  unfold chunkLen
  split <;> omega

theorem lowByte_chunkLen {size i : Nat} (h : i < size) : (lowByte (chunkLen size i)).toNat = chunkLen size i := by
  have hlen := chunkLen_le h
  rw [lowByte, UInt8.toNat_ofNat']
  omega

/-- **A chunked read delivers the field**, whatever pieces it comes in. -/
theorem Serves.readChunks (h : Serves T channel contents current short) (hready : Ready channel m)
    (hs : Rests current efid m s) {front field back : List UInt8} {width base : Nat}
    (hcontent : contents efid = front ++ field ++ back) (hsize : (contents efid).length < 32768)
    (hbase : base = front.length) (hwidth : 0xEE < width) (out : Mem) :
    Yields (Mias.readChunks T width base field.length out) s (out.write 0 field) (Rests current efid m) := by
  have hlength : (contents efid).length = front.length + field.length + back.length := by
    rw [hcontent, List.length_append, List.length_append]
  -- from position `i` on, by induction on the bytes that are left
  suffices ∀ left i s, field.length - i ≤ left → i ≤ field.length → Rests current efid m s →
      Cycles (chunkTurn T width field.length) ⟨i, base + i, out.write 0 (field.take i)⟩ s (out.write 0 field)
        (Rests current efid m) by
    apply Yields.modify_bind
    have hcycles := this field.length 0 (noted (.reading base field.length) s) (by omega) (by omega)
      ⟨hs.obj_eq, hs.current_eq⟩
    rw [List.take_zero, Mem.write_nil] at hcycles
    exact hcycles.loop
  intro left
  induction left with
  | zero =>
      intro i s hleft hi hs
      have hend : ¬i < field.length := by omega
      rw [List.take_of_length_le (by omega)]
      apply Cycles.stop
      unfold chunkTurn
      rw [if_neg hend]
      exact .pure hs
  | succ left ih =>
      intro i s hleft hi hs
      by_cases hmore : i < field.length
      · have hchunk := chunkLen_le hmore
        have hle := lowByte_chunkLen hmore
        have hrange : base + i + (lowByte (chunkLen field.length i)).toNat ≤ (contents efid).length := by omega
        obtain ⟨data, hne, hprefix, _, hread⟩ := h.readBinary hready hs (by omega) hsize hrange
        have hshort : data.length ≤ chunkLen field.length i := by
          have := hprefix.length_le
          rw [List.length_take, hle] at this
          omega
        -- the data is the next piece of the field
        have hpiece : data = (field.drop i).take data.length := by
          have hdrop : (contents efid).drop (base + i) = field.drop i ++ back := by
            rw [hcontent, hbase, List.append_assoc, ← List.drop_drop, List.drop_left,
              List.drop_append_of_le_length (by omega)]
          rw [hdrop, hle, List.take_append_of_le_length (by rw [List.length_drop]; omega)] at hprefix
          have htake := List.prefix_iff_eq_take.mp hprefix
          rwa [List.take_take, Nat.min_eq_left hshort] at htake
        have hdata : 0 < data.length := List.length_pos_iff.mpr hne
        have hturn : Yields (chunkTurn T width field.length ⟨i, base + i, out.write 0 (field.take i)⟩) s
            (.again ⟨i + data.length, base + (i + data.length), out.write 0 (field.take (i + data.length))⟩)
            (Rests current efid m) := by
          unfold chunkTurn
          rw [if_pos hmore]
          refine hread.bind fun s' hs' => ?_
          rw [if_pos rfl]
          refine (response_yields (hs'.1.obj_eq ▸ hready) hs'.2).bind fun s'' hs'' => ?_
          subst hs''
          have hcut : data.length % width = data.length := Nat.mod_eq_of_lt (by omega)
          have hwrite : (out.write 0 (field.take i)).write i data = out.write 0 (field.take (i + data.length)) := by
            have happend := Mem.write_append out 0 (field.take i) data
            rw [Nat.zero_add, List.length_take, Nat.min_eq_left hi] at happend
            rw [happend, List.take_add, ← hpiece]
          have hi' : (i + data.length) % 65536 = i + data.length := Nat.mod_eq_of_lt (by omega)
          have hoffset : (base + i + data.length) % 65536 = base + (i + data.length) := by
            rw [Nat.add_assoc, Nat.mod_eq_of_lt (by omega)]
          simp only [hcut, hwrite, hi', hoffset]
          exact .pure hs'.1
        exact .again hturn fun s' hs' => ih (i + data.length) s' (by omega) (by omega) hs'
      · rw [List.take_of_length_le (by omega)]
        apply Cycles.stop
        unfold chunkTurn
        rw [if_neg hmore]
        exact .pure hs

end Serves

/-! ### Directory records -/

/-- FILE_DIR. -/
def directoryId : Nat := 0x0101

/-- The file of a FILE_DIR record. -/
def efidOf (record : List UInt8) : Nat := word16 (record.getD 0 0) (record.getD 1 0)

/-- The characters of a NUL padded name. -/
def nameOf (field : List UInt8) : List UInt8 := field.takeWhile (· ≠ 0)

/-- A text without NULs is what stands before the first NUL of a field exactly if a NUL follows it. -/
theorem nameOf_eq_iff {field text : List UInt8} (htext : (0 : UInt8) ∉ text) (hlen : text.length < field.length) :
    nameOf field = text ↔ field.take (text.length + 1) = text ++ [0] := by
  induction text generalizing field with
  | nil =>
      cases field with
      | nil => cases hlen
      | cons c field =>
          by_cases hc : c = 0
          · simp [nameOf, hc]
          · simp [nameOf, hc]
  | cons d text ih =>
      rw [List.mem_cons, not_or] at htext
      cases field with
      | nil => cases hlen
      | cons c field =>
          have hrest := ih htext.2 (Nat.lt_of_succ_lt_succ hlen)
          by_cases hc : c = 0
          · have hd : ¬(0 : UInt8) = d := htext.1
            simp [nameOf, hc, hd]
          · rw [nameOf, List.takeWhile_cons_of_pos (by simpa using hc)]
            simp only [List.length_cons, List.take_succ_cons, List.cons_append, List.cons.injEq]
            rw [← hrest]
            rfl

/-- A text without NULs starts a name exactly if it starts the field. -/
theorem nameOf_starts_iff {field text : List UInt8} (htext : (0 : UInt8) ∉ text) :
    text <+: nameOf field ↔ field.take text.length = text := by
  induction text generalizing field with
  | nil => simp
  | cons d text ih =>
      rw [List.mem_cons, not_or] at htext
      cases field with
      | nil => simp [nameOf]
      | cons c field =>
          have hrest : text <+: nameOf field ↔ field.take text.length = text := ih htext.2
          by_cases hc : c = 0
          · have hd : ¬(0 : UInt8) = d := htext.1
            simp [nameOf, hc, hd]
          · rw [nameOf, List.takeWhile_cons_of_pos (by simpa using hc)]
            simp only [List.length_cons, List.take_succ_cons, List.cons.injEq, List.cons_prefix_cons]
            rw [← hrest]
            constructor
            · exact fun h => ⟨h.1.symm, h.2⟩
            · exact fun h => ⟨h.1.symm, h.2⟩

theorem flatten_length {records : List (List UInt8)} {width : Nat} (h : ∀ record ∈ records, record.length = width) :
    records.flatten.length = records.length * width := by
  induction records with
  | nil => simp
  | cons record records ih =>
      rw [List.forall_mem_cons] at h
      rw [List.flatten_cons, List.length_append, h.1, ih h.2, List.length_cons, Nat.add_mul, Nat.one_mul,
        Nat.add_comm]

/-- Where a record of FILE_DIR is: behind the number of records and the records before it. -/
theorem directory_record {records done left : List (List UInt8)} {next : List UInt8} (slack : List UInt8)
    (hwidth : ∀ record ∈ records, record.length = 0x15) (hrecords : records = done ++ next :: left) :
    next.length = 0x15 ∧ ∃ front behind,
      lowByte records.length :: records.flatten ++ slack = front ++ next ++ behind ∧
        1 + done.length * 0x15 = front.length := by
  have hdone : ∀ record ∈ done, record.length = 0x15 := fun record hmem =>
    hwidth record (by rw [hrecords]; exact List.mem_append_left _ hmem)
  refine ⟨hwidth next (by rw [hrecords]; simp), lowByte records.length :: done.flatten, left.flatten ++ slack, ?_, ?_⟩
  · simp [hrecords]
  · rw [List.length_cons, flatten_length hdone]
    omega

/-! ### A card -/

/-- The command that selects a file. -/
def selectApdu (channel : UInt8) (efid : Nat) : List UInt8 :=
  (0x00 ||| channel) :: SCIns.select.code :: SCP1.SELECTByPathFromMF ::
    (SCP2.SELECTFCPTemplate ||| SCP2.SELECTFirstOrOnly) :: lowByte 2 :: [highByte efid, lowByte efid]

/-- A card with these files: SELECT answers with the template of the file, READ BINARY with all that was
asked for. The state is the current file. -/
def fileCard (contents templates : Nat → List UInt8) : Transport Nat := fun current apdu =>
  if apdu.getD 1 0 = SCIns.select.code then
    (some (templates (word16 (apdu.getD 5 0) (apdu.getD 6 0)) ++ [0x90, 0x00]),
      word16 (apdu.getD 5 0) (apdu.getD 6 0))
  else
    (some (((contents current).drop (word16 (apdu.getD 2 0) (apdu.getD 3 0))).take (apdu.getD 4 0).toNat ++
      [0x90, 0x00]), current)

section FileCard

variable {contents templates : Nat → List UInt8} (channel : UInt8)

/-- An accepted answer is not followed up. -/
theorem not_bare_append (data : List UInt8) : ¬Bare (data ++ [0x90, 0x00]) := by
  rintro ⟨hlen, hfirst⟩
  have hdata : data = [] := by
    rw [List.length_append] at hlen
    exact List.length_eq_zero_iff.mp (by simpa using hlen)
  rw [hdata] at hfirst
  exact absurd hfirst (by decide)

theorem fileCard_reads (card : Nat) {offset : Nat} (hoffset : offset < 65536) (le : UInt8) :
    Settles (fileCard contents templates) card (readApdu channel offset le)
      (((contents card).drop offset).take le.toNat ++ [0x90, 0x00]) card := by
  have hread : fileCard contents templates card (readApdu channel offset le) =
      (some (((contents card).drop (word16 (highByte offset) (lowByte offset))).take le.toNat ++ [0x90, 0x00]),
        card) := rfl
  rw [word16_bytes hoffset] at hread
  refine .final hread (not_bare_append _) ?_
  have hle := le.toNat_lt
  have hlen := List.length_take_le le.toNat ((contents card).drop offset)
  rw [List.length_append]
  simp only [apduResponseSize, List.length_cons, List.length_nil]
  omega

theorem fileCard_serves (short : Nat → Nat → Prop) : Serves (fileCard contents templates) channel contents id short := by
  intro card offset le hpos hsize hrange
  simp only [id] at hsize hrange
  refine ⟨((contents card).drop offset).take le.toNat, card, fileCard_reads channel card (by omega) le, rfl, ?_,
    List.prefix_rfl, fun _ => rfl⟩
  intro hnil
  have hlen := congrArg List.length hnil
  rw [List.length_take, List.length_drop, List.length_nil] at hlen
  omega

/-- With and without an expected length. -/
theorem fileCard_selects (card : Nat) {efid : Nat} (hefid : efid < 65536) (hfit : (templates efid).length ≤ 256)
    (le : List UInt8) :
    Settles (fileCard contents templates) card (selectApdu channel efid ++ le) (templates efid ++ [0x90, 0x00])
      efid := by
  have hselect : fileCard contents templates card (selectApdu channel efid ++ le) =
      (some (templates (word16 (highByte efid) (lowByte efid)) ++ [0x90, 0x00]),
        word16 (highByte efid) (lowByte efid)) := rfl
  rw [word16_bytes hefid] at hselect
  refine .final hselect (not_bare_append _) ?_
  rw [List.length_append]
  simp only [apduResponseSize, List.length_cons, List.length_nil]
  omega

end FileCard

/-- The object when it is selected on the basic channel. -/
def selectedMias : Mias := { create with applet := { create.applet with isSelected := true, attached := true } }

theorem selectedMias_ready : Ready 0 selectedMias := ⟨rfl, rfl, rfl⟩

end Mias

end TrustOnboard
