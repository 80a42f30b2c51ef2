import TrustOnboard.MFPaths
import TrustOnboard.MiasListing

/-! `MF::readEF` on a card with an elementary file whose reads may be short and may fail. The size is walked out of the
FCP template; the reads follow one another without a gap until the file is there or one of them fails. -/

namespace TrustOnboard.MF

open Exec Linked SEInterface

variable {σ : Type} {T : Transport σ}

/-! ### The file size -/

/-- An FCP template with this size: `62`, a length byte that is not looked at, and TLVs up to the end, of which the
first one of tag `80` has the size. -/
def HoldsSize (fcp : List UInt8) (size : Nat) : Prop :=
  ∃ (length : UInt8) (before after : List (UInt8 × List UInt8)) (value : List UInt8),
    fcp = 0x62 :: length :: (before ++ (0x80, value) :: after).flatMap Mias.tlvBytes ∧
    (∀ tlv ∈ before, tlv.1 ≠ 0x80) ∧ bigEndian value = size

section Size

variable {se : SEInterface σ}

theorem sizeBytes_yields {l i size : Nat} (h : i + l ≤ apduResponseSize) :
    Yields (sizeBytes l i size) se ((se.response.slice i l).foldl (fun n byte => (n * 256 + byte.toNat) % 65536) size)
      (· = se) := by
  induction l generalizing i size with
  | zero => exact .pure rfl
  | succ l ih =>
      rw [Mem.slice_succ, List.foldl_cons]
      refine .check_bind (by omega) (.gets_bind ?_)
      exact ih (by omega)

theorem tlvBytes_length (tlv : UInt8 × List UInt8) : (Mias.tlvBytes tlv).length = tlv.2.length + 2 := by
  simp [Mias.tlvBytes]

/-- A TLV in the response buffer. -/
theorem tlv_response {front rest : List UInt8} {tlv : UInt8 × List UInt8}
    (h : Holds se (front ++ (Mias.tlvBytes tlv ++ rest)))
    {k : Nat} (hk : k < tlv.2.length + 2) : se.response (front.length + k) = (Mias.tlvBytes tlv).getD k 0 := by
  have hbytes := tlvBytes_length tlv
  rw [Mias.Holds.response_eq h (by rw [List.length_append]; omega), List.getD_eq_getElem?_getD,
    List.getElem?_append_left (by omega), List.getD_eq_getElem?_getD]

theorem tlv_header {front rest : List UInt8} {tlv : UInt8 × List UInt8}
    (h : Holds se (front ++ (Mias.tlvBytes tlv ++ rest))) (hshort : tlv.2.length < 256) :
    se.response front.length = tlv.1 ∧ (se.response (front.length + 1)).toNat = tlv.2.length := by
  refine ⟨tlv_response (k := 0) h (by omega), ?_⟩
  rw [tlv_response (k := 1) h (by omega)]
  exact toNat_lowByte hshort

theorem tlv_value {front rest : List UInt8} {tlv : UInt8 × List UInt8}
    (h : Holds se (front ++ (Mias.tlvBytes tlv ++ rest))) :
    se.response.slice (front.length + 2) tlv.2.length = tlv.2 := by
  apply List.ext_getElem
  · simp
  · intro k hk hk'
    simp only [Mem.slice, List.getElem_map, List.getElem_range]
    rw [Nat.add_assoc, tlv_response h (by omega), List.getD_eq_getElem?_getD, Nat.add_comm 2 k]
    simp [Mias.tlvBytes, hk']

/-- The walk over the TLVs before the size. -/
theorem efSizeTurn_cycles {dataLen size : Nat} (hlen : dataLen ≤ 256) (hsize : size < 65536) {front back : List UInt8}
    {before after : List (UInt8 × List UInt8)} {value : List UInt8}
    (hholds : Holds se (front ++ ((before ++ (0x80, value) :: after).flatMap Mias.tlvBytes ++ back)))
    (hend : front.length + ((before ++ (0x80, value) :: after).flatMap Mias.tlvBytes).length = dataLen)
    (hbefore : ∀ tlv ∈ before, tlv.1 ≠ 0x80) (hvalue : bigEndian value = size) :
    Cycles (efSizeTurn dataLen) front.length se (some size) (· = se) := by
  induction before generalizing front with
  | nil =>
      rw [List.nil_append, List.flatMap_cons] at hholds hend
      rw [List.length_append, tlvBytes_length] at hend
      simp only at hend
      rw [List.append_assoc] at hholds
      obtain ⟨hfirst, hsecond⟩ := tlv_header hholds (by simp only; omega)
      have htag : se.response front.length = SCTag.FCPFileSizeWithoutInfo := hfirst
      have hlength : (se.response (front.length + 1)).toNat = value.length := hsecond
      have hbytes : se.response.slice (front.length + 2) value.length = value := tlv_value hholds
      apply Cycles.stop
      unfold efSizeTurn
      rw [if_pos (by omega)]
      refine .gets_bind (.gets_bind ?_)
      rw [if_pos htag, hlength]
      refine (sizeBytes_yields (by simp only [apduResponseSize]; omega)).bind ?_
      rintro s rfl
      rw [hbytes, foldl_mod _ (by decide), Nat.zero_mul, Nat.zero_add, hvalue, Nat.mod_eq_of_lt hsize]
      exact .pure rfl
  | cons tlv before ih =>
      rw [List.forall_mem_cons] at hbefore
      rw [List.cons_append, List.flatMap_cons] at hholds hend
      rw [List.length_append, tlvBytes_length] at hend
      rw [List.append_assoc] at hholds
      obtain ⟨htag, hlength⟩ := tlv_header hholds (by omega)
      have hother : ¬tlv.1 = SCTag.FCPFileSizeWithoutInfo := hbefore.1
      have hnext : (front.length + 1 + 1 + tlv.2.length) % 65536 = (front ++ Mias.tlvBytes tlv).length := by
        rw [List.length_append, tlvBytes_length, Nat.mod_eq_of_lt (by omega)]
        omega
      have hturn : Yields (efSizeTurn dataLen front.length) se (.again (front ++ Mias.tlvBytes tlv).length)
          (· = se) := by
        unfold efSizeTurn
        rw [if_pos (by omega)]
        refine .gets_bind (.gets_bind ?_)
        rw [htag, if_neg hother, hlength, hnext]
        exact .pure rfl
      refine .again hturn ?_
      rintro s rfl
      exact ih (by simpa using hholds) (by rw [List.length_append, tlvBytes_length]; omega) hbefore.2

theorem getEFSize_yields {fcp : List UInt8} {size : Nat} (hfcp : HoldsSize fcp size) (hlen : fcp.length ≤ 256)
    (hsize : size < 65536) (hholds : Holds se (fcp ++ [0x90, 0x00])) :
    Yields (getEFSize fcp.length) se (some size) (· = se) := by
  obtain ⟨length, before, after, value, rfl, hbefore, hvalue⟩ := hfcp
  have hfirst : se.response 0 = SCTag.FileControlInfoFCP := by
    rw [hholds.2 0 (by simp)]
    rfl
  refine .gets_bind ?_
  rw [if_pos hfirst]
  have hsplit : Holds se ([0x62, length] ++
      ((before ++ (0x80, value) :: after).flatMap Mias.tlvBytes ++ [0x90, 0x00])) := hholds
  exact (efSizeTurn_cycles hlen hsize hsplit (by simp only [List.length_cons, List.length_nil]; omega)
    hbefore hvalue).loop

end Size

/-! ### Cards -/

/-- A card with an elementary file. SELECT fails, or gives the template and the file is open; a read of an open file
fails, or gives some of what was asked for, from its start on. -/
structure ServesFile (T : Transport σ) (channel : UInt8) (path fcp file : List UInt8) (opened : σ → Prop) : Prop where
  selects : ∀ card, ∃ result card', Concludes T card (selectPathApdu channel path) result card' ∧
    (Applet.acceptedResult result = true → result = some (fcp ++ [0x90, 0x00]) ∧ opened card')
  reads : ∀ card offset (le : UInt8), opened card → 0 < le.toNat → offset + le.toNat ≤ file.length →
    ∃ result card', Concludes T card (Mias.readApdu channel offset le) result card' ∧ opened card' ∧
      (Applet.acceptedResult result = true → ∃ data, data ≠ [] ∧ data <+: (file.drop offset).take le.toNat ∧
        result = some (data ++ [0x90, 0x00]))

/-- The applet is selected on the channel and attached to its interface. -/
structure Open (channel : UInt8) (applet : Applet) : Prop where
  isSelected : applet.isSelected = true
  attached : applet.attached = true
  channel_eq : applet.channel = channel

section Commands

variable {s : Linked σ Applet} {channel : UInt8} {result : Option (List UInt8)} {card : σ}

theorem select_concludes (hopen : Open channel s.obj) {path : List UInt8} (hpath : path.length ≤ 256)
    (h : Concludes T s.se.card (selectPathApdu channel path) result card) :
    Yields (Applet.ok (Applet.transmitCase4 T 0x00 .select SCP1.SELECTByPathFromMF
        (SCP2.SELECTFCPTemplate ||| SCP2.SELECTFirstOrOnly) path 0x00)) s (Applet.acceptedResult result)
      fun s' => s'.obj = s.obj ∧ After (selectPathApdu channel path) result card s.se s'.se := by
  have hsent : Yields (SEInterface.transmitCase4 T (0x00 ||| s.obj.channel) .select SCP1.SELECTByPathFromMF
      (SCP2.SELECTFCPTemplate ||| SCP2.SELECTFirstOrOnly) path 0x00) s.se result.isSome
      (After (selectPathApdu channel path) result card s.se) := by
    rw [hopen.channel_eq]
    refine Yields.bind (Applet.fill_yields ?_) fun t ht => ?_
    · simp only [List.length_cons, List.length_append, List.length_nil, apduSize]
      omega
    · subst ht
      obtain ⟨t, hrun, hafter⟩ := command_concludes (s := { s.se with apdu := selectPathApdu channel path }) h
      exact ⟨t, hrun, hafter.card_eq, hafter.reports, hafter.holds⟩
  exact Applet.ok_concludes hopen.isSelected hopen.attached hsent

theorem read_concludes (hopen : Open channel s.obj) {offset : Nat} {le : UInt8}
    (h : Concludes T s.se.card (Mias.readApdu channel offset le) result card) :
    Yields (Applet.ok (Applet.transmitCase2 T 0x00 .readBinary (highByte offset) (lowByte offset) le)) s
      (Applet.acceptedResult result)
      fun s' => s'.obj = s.obj ∧ After (Mias.readApdu channel offset le) result card s.se s'.se := by
  have hsent : Yields (SEInterface.transmitCase2 T (0x00 ||| s.obj.channel) .readBinary (highByte offset)
      (lowByte offset) le)
      s.se result.isSome (After (Mias.readApdu channel offset le) result card s.se) := by
    rw [hopen.channel_eq]
    exact command_concludes h
  exact Applet.ok_concludes hopen.isSelected hopen.attached hsent

end Commands

/-! ### The reads -/

/-- The bytes that a command delivered. -/
def dataOf (issued : Concluded) : List UInt8 := (issued.result.map responseData).getD []

/-- How many bytes the commands of a list delivered. -/
def received (reads : List Concluded) : Nat := (reads.map fun issued => (dataOf issued).length).sum

/-- The reads of a file from `start` on, newest first: each asks for the first byte that is not received, and for as
many bytes as are missing, at most 255. -/
def Gapless (channel : UInt8) (size start : Nat) (reads : List Concluded) : Prop :=
  ∀ later issued earlier, reads = later ++ issued :: earlier →
    start + received earlier < size ∧
    issued.command = Mias.readApdu channel (start + received earlier)
      (lowByte (min 255 (size - (start + received earlier))))

theorem received_append (later earlier : List Concluded) :
    received (later ++ earlier) = received later + received earlier := by
  rw [received, List.map_append, List.sum_append]
  rfl

theorem Gapless.nil (channel : UInt8) (size start : Nat) : Gapless channel size start [] := by
  intro later issued earlier heq
  exact absurd heq (by simp)

/-- One read more at the front. -/
theorem Gapless.after {channel : UInt8} {size start : Nat} {reads : List Concluded} {first : Concluded}
    (hrest : Gapless channel size (start + (dataOf first).length) reads) (hmore : start < size)
    (hfirst : first.command = Mias.readApdu channel start (lowByte (min 255 (size - start)))) :
    Gapless channel size start (reads ++ [first]) := by
  intro later issued earlier heq
  rcases List.eq_nil_or_concat earlier with rfl | ⟨earlier, oldest, rfl⟩
  · -- the first read
    have hsame : first = issued := by
      have hlast := congrArg List.getLast? heq
      rw [List.getLast?_concat, List.getLast?_concat] at hlast
      exact Option.some.inj hlast
    rw [← hsame]
    exact ⟨hmore, hfirst⟩
  · -- a later one, behind what the first has delivered
    rw [List.concat_eq_append] at heq ⊢
    have hsplit : reads ++ [first] = (later ++ issued :: earlier) ++ [oldest] := by
      rw [heq, List.append_assoc, List.cons_append]
    obtain ⟨hreads, holdest⟩ := List.append_inj' hsplit rfl
    obtain rfl : first = oldest := by simpa using holdest
    have hcount : start + received (earlier ++ [first]) = start + (dataOf first).length + received earlier := by
      rw [received_append, received, received, List.map_singleton, List.sum_singleton]
      omega
    rw [hcount]
    exact hrest later issued earlier hreads

/-- What the read loop does from the first missing byte on: it ends; the flag is whether all reads were answered, and
then the whole file is in the buffer. -/
structure Fills (channel : UInt8) (file : List UInt8) (out : Mem) (start : Nat) (s s' : Linked σ Applet)
    (read : Bool × Mem) :
    Prop where
  reads : ∃ reads, Reports s.se s'.se reads ∧ Gapless channel file.length start reads ∧
    (read.1 = true ↔ ∀ issued ∈ reads, issued.ok = true)
  data : read.1 = true → read.2 = out.write 0 file

/-- A read that was answered, in front of the reads that follow it. -/
theorem Fills.after {channel : UInt8} {file data : List UInt8} {out : Mem} {start : Nat} {s s₁ s' : Linked σ Applet}
    {read : Bool × Mem} {command : List UInt8} (h : Fills channel file out (start + data.length) s₁ s' read)
    (hreports : Reports s.se s₁.se [⟨command, some (data ++ [0x90, 0x00])⟩]) (hmore : start < file.length)
    (hcommand : command = Mias.readApdu channel start (lowByte (min 255 (file.length - start)))) :
    Fills channel file out start s s' read := by
  obtain ⟨⟨reads, hrest, hgapless, hflag⟩, hdata⟩ := h
  have hfirst : (⟨command, some (data ++ [0x90, 0x00])⟩ : Concluded).ok = true := acceptedResult_append data
  refine ⟨⟨reads ++ [⟨command, some (data ++ [0x90, 0x00])⟩], hreports.trans hrest, ?_, ?_⟩, hdata⟩
  · refine Gapless.after ?_ hmore hcommand
    rw [dataOf, Option.map_some, Option.getD_some, responseData_append]
    exact hgapless
  · rw [hflag, List.forall_mem_append, List.forall_mem_singleton]
    exact ⟨fun hall => ⟨hall, hfirst⟩, fun hall => hall.1⟩

/-- The next bytes of a file behind those that are there. -/
theorem write_prefix {file data : List UInt8} {i count : Nat} (out : Mem) (h : data <+: (file.drop i).take count)
    (hi : i ≤ file.length) : (out.write 0 (file.take i)).write i data = out.write 0 (file.take (i + data.length)) := by
  have hdata : data = (file.drop i).take data.length :=
    List.prefix_iff_eq_take.mp (h.trans (List.take_prefix _ _))
  have hfront : (file.take i).length = i := List.length_take_of_le hi
  calc (out.write 0 (file.take i)).write i data
      = (out.write 0 (file.take i)).write (0 + (file.take i).length) data := by rw [hfront, Nat.zero_add]
    _ = out.write 0 (file.take i ++ data) := by rw [Mem.write_append]
    _ = out.write 0 (file.take (i + data.length)) := by rw [List.take_add, ← hdata]

theorem readTurn_fills {channel : UInt8} {path fcp file : List UInt8} {opened : σ → Prop}
    (hcard : ServesFile T channel path fcp file opened) (hsize : file.length ≤ 32767) (out : Mem) {i : Nat}
    (hi : i ≤ file.length) {s : Linked σ Applet} (hopen : Open channel s.obj) (hopened : opened s.se.card) :
    ∃ read, Cycles (readTurn T file.length) (i, out.write 0 (file.take i)) s read fun s' =>
      Fills channel file out i s s' read := by
  -- by the number of bytes that are missing
  induction hleft : file.length - i using Nat.strongRecOn generalizing i s with
  | ind left ih =>
      by_cases hmore : i < file.length
      · have htoread : (if 255 ≤ file.length - i then 255 else file.length - i) = min 255 (file.length - i) := by
          split <;> omega
        have hle : (lowByte (min 255 (file.length - i))).toNat = min 255 (file.length - i) := toNat_lowByte (by omega)
        obtain ⟨result, card, hconcludes, hopened', hdata⟩ := hcard.reads s.se.card i
          (lowByte (min 255 (file.length - i))) hopened (by omega) (by omega)
        obtain ⟨s₁, hrun, hobj, hafter⟩ := read_concludes hopen hconcludes
        have hopen₁ : Open channel s₁.obj := hobj ▸ hopen
        cases haccepted : Applet.acceptedResult result with
        | false =>
            rw [haccepted] at hrun
            refine ⟨(false, out.write 0 (file.take i)), .stop ⟨s₁, ?_, ?_⟩⟩
            · unfold readTurn
              rw [if_pos hmore, htoread]
              exact hrun.bind .pure
            · refine ⟨⟨[⟨_, result⟩], hafter.reports, ?_, ?_⟩, fun hfalse => by cases hfalse⟩
              · exact (Gapless.nil channel file.length _).after hmore rfl
              · constructor
                · intro hfalse
                  cases hfalse
                · intro hall
                  have htrue : Applet.acceptedResult result = true := hall _ (List.mem_singleton_self _)
                  rw [haccepted] at htrue
                  cases htrue
        | true =>
            obtain ⟨data, hne, hprefix, rfl⟩ := hdata haccepted
            rw [haccepted] at hrun
            have hholds := hafter.holds _ rfl
            have hpos : 0 < data.length := List.length_pos_iff.mpr hne
            have hshort : data.length ≤ min 255 (file.length - i) := by
              have := hprefix.length_le
              rw [List.length_take, hle] at this
              omega
            have hresponse : Applet.getResponse s₁ = data := by
              rw [Applet.getResponse, if_pos hopen₁.isSelected, hholds.getResponse, responseData_append]
            have hnext : (i + data.length) % 65536 = i + data.length := Nat.mod_eq_of_lt (by omega)
            have hturn : Evals (readTurn T file.length (i, out.write 0 (file.take i))) s
                (.again (i + data.length, out.write 0 (file.take (i + data.length)))) s₁ := by
              rw [← write_prefix out hprefix (by omega)]
              unfold readTurn
              rw [if_pos hmore, htoread]
              refine hrun.bind (.bind .gets ?_)
              rw [hresponse, hnext]
              exact .pure
            obtain ⟨read, hcycles⟩ := ih (file.length - (i + data.length)) (by omega) (by omega) hopen₁
              (hafter.card_eq ▸ hopened') rfl
            refine ⟨read, .again ⟨s₁, hturn, rfl⟩ ?_⟩
            rintro t rfl
            obtain ⟨s', hit, hrest⟩ := hcycles
            exact ⟨s', hit, hrest.after hafter.reports hmore rfl⟩
      · have hall : file.take i = file := List.take_of_length_le (by omega)
        refine ⟨(true, out.write 0 (file.take i)), .stop ⟨s, ?_, ?_⟩⟩
        · unfold readTurn
          rw [if_neg hmore]
          exact .pure
        · refine ⟨⟨[], .refl s.se, .nil _ _ _, ?_⟩, fun _ => by rw [hall]⟩
          exact ⟨fun _ issued hmem => (List.not_mem_nil hmem).elim, fun _ => rfl⟩

/-! ### The file -/

section File

variable {channel : UInt8} {path fcp file : List UInt8} {opened : σ → Prop} {s : Linked σ Applet}

/-- The size that is read from the template of the file. -/
theorem size_yields (hfcp : HoldsSize fcp file.length) (hlen : fcp.length ≤ 256) (hsize : file.length ≤ 32767)
    (hholds : Holds s.se (fcp ++ [0x90, 0x00])) {α : Type} {next : Option Nat → Exec (Linked σ Applet) α}
    {post : α → Linked σ Applet → Prop} (hnext : Attains (next (some file.length)) s post) :
    Attains (onSE (gets getResponseLength) >>= fun length => onSE (getEFSize length) >>= next) s post := by
  have hlength : Yields (onSE (gets getResponseLength)) s fcp.length (· = s) := by
    refine ⟨s, .of_eq fun _ => ?_, rfl⟩
    show (Outcome.done (getResponseLength s.se), s) = _
    rw [getResponseLength, hholds.getResponse, responseData_append]
  have hfile : Yields (onSE (getEFSize fcp.length)) s (some file.length) (· = s) :=
    (getEFSize_yields hfcp hlen (by omega) hholds).zoom fun _ heq => by rw [heq]; rfl
  refine hlength.bind_attains fun s' heq => ?_
  rw [heq]
  refine hfile.bind_attains fun s' heq => ?_
  rw [heq]
  exact hnext

theorem readEF_attains (hcard : ServesFile T channel path fcp file opened) (hpath : path.length ≤ 256)
    (hfcp : HoldsSize fcp file.length) (hsize : file.length ≤ 32767) (hopen : Open channel s.obj) (data : Option Mem)
    (dataLen : Nat) {post : Bool × Option Mem × Nat → Linked σ Applet → Prop}
    (hrefused : ∀ result s', Reports s.se s'.se [⟨selectPathApdu channel path, result⟩] →
      Applet.acceptedResult result = false → post (false, data, dataLen) s')
    (hselected : ∀ s', Reports s.se s'.se [⟨selectPathApdu channel path, some (fcp ++ [0x90, 0x00])⟩] →
      Open channel s'.obj → opened s'.se.card → Attains (match data with
        | none => pure (true, none, file.length)
        | some out =>
            loop (readTurn T file.length) (0, out) >>= fun read => pure (read.1, some read.2, file.length)) s' post) :
    Attains (readEF T path data dataLen) s post := by
  obtain ⟨result, card, hconcludes, haccept⟩ := hcard.selects s.se.card
  obtain ⟨s₁, hrun, hobj, hafter⟩ := select_concludes hopen hpath hconcludes
  have hopen₁ : Open channel s₁.obj := hobj ▸ hopen
  refine Yields.bind_attains ⟨s₁, hrun, rfl⟩ ?_
  rintro t rfl
  cases hresult : Applet.acceptedResult result with
  | false => exact .pure (hrefused result s₁ hafter.reports hresult)
  | true =>
      obtain ⟨rfl, hopened⟩ := haccept hresult
      have hlen : fcp.length ≤ 256 := by
        have hfits := Settles.fits hconcludes
        rw [List.length_append] at hfits
        simp only [apduResponseSize, List.length_cons, List.length_nil] at hfits
        omega
      refine size_yields hfcp hlen hsize (hafter.holds _ rfl) ?_
      have hrest := hselected s₁ hafter.reports hopen₁ (hafter.card_eq ▸ hopened)
      cases data with
      | none => exact hrest
      | some out => exact hrest

/-- Reading a file of at most 32767 bytes, whatever the card does in between. With a buffer: it ends, true is returned
just when no command failed, and then the size and the bytes are those of the file; each read asks for at most 255 bytes
from the first one on that is not received. Without a buffer, SELECT is the only command. A path of more than 256 bytes
has no place in the command buffer; the callers pass at most 32. -/
theorem readEF_correct (hcard : ServesFile T channel path fcp file opened) (hpath : path.length ≤ 256)
    (hfcp : HoldsSize fcp file.length) (hsize : file.length ≤ 32767) (hopen : Open channel s.obj) (dataLen : Nat) :
    (∀ out, Attains (readEF T path (some out) dataLen) s fun read s' => ∃ select reads,
      Reports s.se s'.se (reads ++ [select]) ∧ select.command = selectPathApdu channel path ∧
      Gapless channel file.length 0 reads ∧
      (read.1 = true ↔ select.ok = true ∧ ∀ issued ∈ reads, issued.ok = true) ∧
      (read.1 = true → read.2 = (some (out.write 0 file), file.length))) ∧
    Attains (readEF T path none dataLen) s fun read s' => ∃ select,
      Reports s.se s'.se [select] ∧ select.command = selectPathApdu channel path ∧
      (read.1 = true ↔ select.ok = true) ∧ (read.1 = true → read.2 = (none, file.length)) := by
  constructor
  · intro out
    apply readEF_attains hcard hpath hfcp hsize hopen
    · intro result s' hreports hresult
      refine ⟨⟨_, result⟩, [], hreports, rfl, .nil _ _ _, ?_, fun hfalse => (by cases hfalse)⟩
      rw [Concluded.ok, hresult]
      exact ⟨fun hfalse => (by cases hfalse), fun hall => hall.1⟩
    · intro s₁ hreports hopen₁ hopened
      obtain ⟨read, hcycles⟩ := readTurn_fills hcard hsize out (Nat.zero_le _) hopen₁ hopened
      rw [List.take_zero, Mem.write_nil] at hcycles
      refine hcycles.loop.bind_attains fun s' hfills => .pure ?_
      obtain ⟨⟨reads, hrest, hgapless, hflag⟩, hdata⟩ := hfills
      refine ⟨_, reads, hreports.trans hrest, rfl, hgapless, ?_, fun htrue => by rw [hdata htrue]⟩
      rw [Concluded.ok, acceptedResult_append, hflag]
      exact ⟨fun hall => ⟨rfl, hall⟩, fun hall => hall.2⟩
  · apply readEF_attains hcard hpath hfcp hsize hopen
    · intro result s' hreports hresult
      refine ⟨⟨_, result⟩, hreports, rfl, ?_, fun hfalse => (by cases hfalse)⟩
      rw [Concluded.ok, hresult]
    · intro s₁ hreports _ _
      refine .pure ⟨_, hreports, rfl, ?_, fun _ => rfl⟩
      rw [Concluded.ok, acceptedResult_append]

end File

/-! ### A card -/

/-- A file of three bytes, and its template. -/
def threeBytes : List UInt8 := [0x30, 0x01, 0x05]

def threeBytesFcp : List UInt8 := [0x62, 0x04, 0x80, 0x02, 0x00, 0x03]

/-- A card that gives one byte of the file at a time, so many times, and then no answer. -/
def slowCard : Transport Nat := fun left apdu =>
  if insOf apdu = SCIns.select.code then (some (threeBytesFcp ++ [0x90, 0x00]), left)
  else
    match left with
    | 0 => (none, 0)
    | left + 1 =>
        (some ((threeBytes.drop (word16 (apdu.getD 2 0) (apdu.getD 3 0))).take 1 ++ [0x90, 0x00]), left)

theorem slowCard_serves : ServesFile slowCard 0 (cstr "7FAA6F01") threeBytesFcp threeBytes fun _ => True := by
  constructor
  · intro left
    have hselect : Settles slowCard left (selectPathApdu 0 (cstr "7FAA6F01")) (threeBytesFcp ++ [0x90, 0x00]) left :=
      .final rfl (Mias.not_bare_append _) (by decide)
    exact ⟨some (threeBytesFcp ++ [0x90, 0x00]), left, hselect, fun _ => ⟨rfl, trivial⟩⟩
  · intro left offset le _ hpos hrange
    have hlength : threeBytes.length = 3 := rfl
    cases left with
    | zero => exact ⟨none, 0, .lost rfl, trivial, fun hfalse => by cases hfalse⟩
    | succ left =>
        have hplace : word16 (highByte offset) (lowByte offset) = offset := word16_bytes (by omega)
        have hone : ((threeBytes.drop offset).take 1).length = 1 := by
          rw [List.length_take, List.length_drop]
          omega
        have hanswer : slowCard (left + 1) (Mias.readApdu 0 offset le) =
            (some ((threeBytes.drop (word16 (highByte offset) (lowByte offset))).take 1 ++ [0x90, 0x00]), left) := rfl
        rw [hplace] at hanswer
        have hread : Settles slowCard (left + 1) (Mias.readApdu 0 offset le)
            ((threeBytes.drop offset).take 1 ++ [0x90, 0x00]) left := by
          refine .final hanswer (Mias.not_bare_append _) ?_
          rw [List.length_append, hone]
          decide
        refine ⟨some _, left, hread, trivial, fun _ => ⟨_, ?_, List.take_prefix_take_left (by omega), rfl⟩⟩
        intro hnil
        rw [hnil] at hone
        cases hone

theorem threeBytes_size : HoldsSize threeBytesFcp threeBytes.length :=
  ⟨0x04, [], [], [0x00, 0x03], rfl, fun _ hmem => (List.not_mem_nil hmem).elim, rfl⟩

/-- The applet of a file system that is selected on the basic channel. -/
def selectedMF : Applet := { Applet.create aid with isSelected := true, attached := true }

/-- Three short reads give the file; a card that answers only one of them makes the call fail. -/
theorem readEF_correct_shortReads :
    (∀ left, Attains (readEF slowCard (cstr "7FAA6F01") (some Mem.zero) 0) ⟨.create left Mem.zero, selectedMF⟩
      fun read s' => ∃ select reads, Reports (.create left Mem.zero) s'.se (reads ++ [select]) ∧
        select.command = selectPathApdu 0 (cstr "7FAA6F01") ∧ Gapless 0 3 0 reads ∧
        (read.1 = true ↔ select.ok = true ∧ ∀ issued ∈ reads, issued.ok = true) ∧
        (read.1 = true → read.2 = (some (Mem.write Mem.zero 0 threeBytes), 3))) ∧
    (readEF slowCard (cstr "7FAA6F01") (some Mem.zero) 0 4 ⟨.create 3 Mem.zero, selectedMF⟩).1.value?.map (·.1) =
      some true ∧
    (readEF slowCard (cstr "7FAA6F01") (some Mem.zero) 0 4 ⟨.create 1 Mem.zero, selectedMF⟩).1.value?.map (·.1) =
      some false :=
  ⟨fun left => (readEF_correct (s := ⟨.create left Mem.zero, selectedMF⟩) slowCard_serves (by decide) threeBytes_size
    (by decide) ⟨rfl, rfl, rfl⟩ 0).1 Mem.zero, by decide +kernel, by decide +kernel⟩

end TrustOnboard.MF
