import Mathlib.Data.Fintype.EquivFin
import Mathlib.Data.List.Basic
import Mathlib.Logic.Relation
import TrustOnboard.MiasListing

/-! FCP templates, for every answer. The walk over a template is taken with its byte arithmetic; it is compared with the
data objects that the answer has. The loop over the records of CONTAINERS_INFO, which the size is for, ends
for every size. -/

namespace TrustOnboard.Mias

open Exec Linked SEInterface

variable {σ : Type} (T : Transport σ)

/-! ### The walk -/

/-- The places of the response buffer that the walk reads from index `i` on. Behind a header it reads at the tag of
the size only. -/
inductive ReadsFrom (response : Mem) (stop : Nat) : Nat → Nat → Prop
  | tag {i : Nat} (hin : i < stop) : ReadsFrom response stop i i
  | length {i : Nat} (hin : i < stop) : ReadsFrom response stop i (i + 1)
  | high {i : Nat} (hin : i < stop) (htag : response i = SCTag.FCPFileSizeWithInfo) : ReadsFrom response stop i (i + 2)
  | low {i : Nat} (hin : i < stop) (htag : response i = SCTag.FCPFileSizeWithInfo) : ReadsFrom response stop i (i + 3)
  | next {i k : Nat} (hin : i < stop)
      (h : ReadsFrom response stop ((i + 2 + (response (i + 1)).toNat) % 256) k) : ReadsFrom response stop i k

/-- The places that `fcpFileSize` reads. -/
def Reads (response : Mem) (k : Nat) : Prop :=
  k = 1 ∨ ReadsFrom response (((response 1).toNat + 2) % 256) 2 k

/-- The walk from index `i` on as long as it stays inside the data, with the size before and in the end. -/
inductive Walks (data : List UInt8) (stop : Nat) : Nat → Nat → Nat → Prop
  | stop {i size : Nat} (hend : stop ≤ i) : Walks data stop i size size
  | size {i before last : Nat} (hin : i < stop) (hdata : i + 3 < data.length)
      (htag : data.getD i 0 = SCTag.FCPFileSizeWithInfo)
      (hrest : Walks data stop ((i + 2 + (data.getD (i + 1) 0).toNat) % 256)
        (word16 (data.getD (i + 2) 0) (data.getD (i + 3) 0)) last) : Walks data stop i before last
  | other {i size last : Nat} (hin : i < stop) (hdata : i + 1 < data.length)
      (htag : data.getD i 0 ≠ SCTag.FCPFileSizeWithInfo)
      (hrest : Walks data stop ((i + 2 + (data.getD (i + 1) 0).toNat) % 256) size last) : Walks data stop i size last

section Walk

variable {data : List UInt8} {se se' : SEInterface σ} {len stop i size last initial fuel : Nat}

/-- One turn of the walk. -/
theorem fcpWalk_apply (len i size fuel : Nat) (se : SEInterface σ) :
    fcpWalk len (i, size) fuel se =
      (.done (if i < (len + 2) % 256 then
        .again ((i + 2 + (se.response (i + 1)).toNat) % 256,
          if se.response i = SCTag.FCPFileSizeWithInfo
          then word16 (se.response (i + 2)) (se.response (i + 3)) else size)
        else .stop size), se) := by
  unfold fcpWalk
  by_cases hin : i < (len + 2) % 256
  · simp only [if_pos hin, bind_apply, gets_apply, pure_apply]
  · simp only [if_neg hin, pure_apply]

/-- Nothing else is read: what the walk does is a function of these places. -/
theorem fcpFileSize_reads (hsame : ∀ k, Reads se.response k → se'.response k = se.response k) :
    (fcpFileSize initial fuel se').1 = (fcpFileSize initial fuel se).1 := by
  have hturns : ∀ count i size,
      (∀ k, ReadsFrom se.response (((se.response 1).toNat + 2) % 256) i k → se'.response k = se.response k) →
      (turns (fcpWalk (se.response 1).toNat) fuel count (i, size) se').1 =
        (turns (fcpWalk (se.response 1).toNat) fuel count (i, size) se).1 := by
    intro count
    induction count with
    | zero => exact fun _ _ _ => rfl
    | succ count ih =>
        intro i size hplaces
        rw [turns, turns, fcpWalk_apply, fcpWalk_apply]
        by_cases hin : i < ((se.response 1).toNat + 2) % 256
        · simp only [if_pos hin, hplaces i (.tag hin), hplaces (i + 1) (.length hin)]
          by_cases htag : se.response i = SCTag.FCPFileSizeWithInfo
          · simp only [if_pos htag, hplaces (i + 2) (.high hin htag), hplaces (i + 3) (.low hin htag)]
            exact ih _ _ fun k hk => hplaces k (.next hin hk)
          · simp only [if_neg htag]
            exact ih _ _ fun k hk => hplaces k (.next hin hk)
        · simp only [if_neg hin]
  have hlen : se'.response 1 = se.response 1 := hsame 1 (.inl rfl)
  unfold fcpFileSize
  simp only [bind_apply, gets_apply, hlen]
  exact hturns fuel 2 initial fun k hk => hsame k (.inr hk)

variable (hsame : ∀ k, k < data.length → se.response k = data.getD k 0)

include hsame

/-- A walk inside the data is a run of the loop. -/
theorem Walks.iterates (h : Walks data ((len + 2) % 256) i size last) :
    Iterates (fcpWalk len) (i, size) se (.done last) se := by
  induction h with
  | stop hend =>
      refine .stop (.of_eq fun fuel => ?_)
      rw [fcpWalk_apply, if_neg (Nat.not_lt.mpr hend)]
  | @size i before last hin hdata htag _ ih =>
      refine .again (.of_eq fun fuel => ?_) ih
      rw [fcpWalk_apply, if_pos hin, hsame i (by omega), if_pos htag, hsame (i + 1) (by omega),
        hsame (i + 2) (by omega),
        hsame (i + 3) hdata]
  | @other i size last hin hdata htag _ ih =>
      refine .again (.of_eq fun fuel => ?_) ih
      rw [fcpWalk_apply, if_pos hin, hsame i (by omega), if_neg htag, hsame (i + 1) hdata]

theorem Walks.within (h : Walks data stop i size last) {k : Nat} (hk : ReadsFrom se.response stop i k) :
    k < data.length := by
  induction h with
  | stop hend => cases hk <;> omega
  | @size i before last hin hdata htag _ ih =>
      cases hk with
      | tag => omega
      | length => omega
      | high => omega
      | low => omega
      | next _ h =>
          rw [hsame (i + 1) (by omega)] at h
          exact ih h
  | @other i size last hin hdata htag _ ih =>
      have hread : se.response i = data.getD i 0 := hsame i (by omega)
      cases hk with
      | tag => omega
      | length => omega
      | high _ heq => exact absurd (hread.symm.trans heq) htag
      | low _ heq => exact absurd (hread.symm.trans heq) htag
      | next _ h =>
          rw [hsame (i + 1) hdata] at h
          exact ih h

/-- A run of the loop that reads data only is a walk inside them. -/
theorem walks_of_turns {count : Nat} (hrun : turns (fcpWalk len) fuel count (i, size) se = (.done last, se'))
    (hwithin : ∀ k, ReadsFrom se.response ((len + 2) % 256) i k → k < data.length) :
    Walks data ((len + 2) % 256) i size last := by
  induction count generalizing i size with
  | zero => cases hrun
  | succ count ih =>
      rw [turns, fcpWalk_apply] at hrun
      by_cases hin : i < (len + 2) % 256
      · have htag := hsame i (hwithin i (.tag hin))
        have hlength := hsame (i + 1) (hwithin (i + 1) (.length hin))
        rw [if_pos hin] at hrun
        have hrest := ih hrun fun k hk => hwithin k (.next hin hk)
        rw [hlength] at hrest
        by_cases hsize : se.response i = SCTag.FCPFileSizeWithInfo
        · have hlow := hwithin (i + 3) (.low hin hsize)
          rw [if_pos hsize, hsame (i + 2) (by omega), hsame (i + 3) hlow] at hrest
          exact .size hin hlow (htag.symm.trans hsize) hrest
        · rw [if_neg hsize] at hrest
          exact .other hin (hwithin (i + 1) (.length hin)) (fun heq => hsize (htag.trans heq)) hrest
      · rw [if_neg hin] at hrun
        cases hrun
        exact .stop (Nat.le_of_not_lt hin)

theorem Walks.evals (hlen : 1 < data.length)
    (h : Walks data (((data.getD 1 0).toNat + 2) % 256) 2 initial last) : Evals (fcpFileSize initial) se last se := by
  rw [← hsame 1 hlen] at h
  exact Evals.gets.bind (.loop (h.iterates hsame))

/-- The walk ends inside the data. -/
theorem walks_iff :
    ((∃ last, Evals (fcpFileSize initial) se last se) ∧ ∀ k, Reads se.response k → k < data.length) ↔
      1 < data.length ∧ ∃ last, Walks data (((data.getD 1 0).toNat + 2) % 256) 2 initial last := by
  constructor
  · rintro ⟨⟨last, hevals⟩, hwithin⟩
    obtain ⟨fuel, hrun⟩ := hevals.reached
    have hlen : 1 < data.length := hwithin 1 (.inl rfl)
    refine ⟨hlen, last, ?_⟩
    rw [← hsame 1 hlen]
    exact walks_of_turns hsame hrun fun k hk => hwithin k (.inr hk)
  · rintro ⟨hlen, last, hwalks⟩
    refine ⟨⟨last, hwalks.evals hsame hlen⟩, ?_⟩
    rw [← hsame 1 hlen] at hwalks
    rintro k (rfl | hk)
    · exact hlen
    · exact hwalks.within hsame hk

end Walk

/-! ### Data objects that follow one another -/

/-- The object at index `i` is followed by what stands at `j`. An index is one byte. -/
def FollowedBy (data : List UInt8) (stop i j : Nat) : Prop :=
  i < stop ∧ j = (i + 2 + (data.getD (i + 1) 0).toNat) % 256

/-- At `j` there is one of the objects from index `i` on. -/
def MetFrom (data : List UInt8) (stop i j : Nat) : Prop :=
  Relation.ReflTransGen (FollowedBy data stop) i j ∧ j < stop

/-- The header of an object is inside the data, and so are the two bytes behind that of a file size. -/
def HeaderInside (data : List UInt8) (i : Nat) : Prop :=
  i + 1 < data.length ∧ (data.getD i 0 = SCTag.FCPFileSizeWithInfo → i + 3 < data.length)

/-- The objects from an index on are inside the data, and none of them is met again. -/
def Unlooped (data : List UInt8) (stop i : Nat) : Prop :=
  ∀ j, MetFrom data stop i j → HeaderInside data j ∧ ¬Relation.TransGen (FollowedBy data stop) j j

/-- The last file size among the objects from an index on; without one it is what it was before. -/
def LastSize (data : List UInt8) (stop i before last : Nat) : Prop :=
  (last = before ∧ ∀ j, MetFrom data stop i j → data.getD j 0 ≠ SCTag.FCPFileSizeWithInfo) ∨
    ∃ j, MetFrom data stop i j ∧ data.getD j 0 = SCTag.FCPFileSizeWithInfo ∧
      last = word16 (data.getD (j + 2) 0) (data.getD (j + 3) 0) ∧
      ∀ k, Relation.TransGen (FollowedBy data stop) j k → k < stop → data.getD k 0 ≠ SCTag.FCPFileSizeWithInfo

section Objects

variable {data : List UInt8} {stop i j before last : Nat}

theorem FollowedBy.transGen_iff (h : FollowedBy data stop i j) {k : Nat} :
    Relation.TransGen (FollowedBy data stop) i k ↔ Relation.ReflTransGen (FollowedBy data stop) j k := by
  rw [Relation.TransGen.head'_iff]
  constructor
  · rintro ⟨j', hstep, hrest⟩
    rwa [h.2, ← hstep.2]
  · exact fun hrest => ⟨j, h, hrest⟩

theorem FollowedBy.metFrom_iff (h : FollowedBy data stop i j) {k : Nat} :
    MetFrom data stop i k ↔ k = i ∨ MetFrom data stop j k := by
  rw [MetFrom, Relation.reflTransGen_iff_eq_or_transGen, h.transGen_iff]
  constructor
  · rintro ⟨heq | hrest, hin⟩
    · exact .inl heq
    · exact .inr ⟨hrest, hin⟩
  · rintro (rfl | ⟨hrest, hin⟩)
    · exact ⟨.inl rfl, h.1⟩
    · exact ⟨.inr hrest, hin⟩

theorem not_metFrom (hend : stop ≤ i) : ¬MetFrom data stop i j := by
  rintro ⟨hreaches, hin⟩
  obtain rfl | ⟨k, hstep, _⟩ := Relation.ReflTransGen.cases_head hreaches
  · omega
  · have hless := hstep.1
    omega

theorem lastSize_stop (hend : stop ≤ i) : LastSize data stop i before last ↔ last = before := by
  constructor
  · rintro (⟨heq, _⟩ | ⟨j, hmet, _⟩)
    · exact heq
    · exact absurd hmet (not_metFrom hend)
  · exact fun heq => .inl ⟨heq, fun j hmet => absurd hmet (not_metFrom hend)⟩

/-- A file size replaces the one before, unless another follows. -/
theorem FollowedBy.lastSize_iff (h : FollowedBy data stop i j) :
    LastSize data stop i before last ↔ LastSize data stop j
      (if data.getD i 0 = SCTag.FCPFileSizeWithInfo then word16 (data.getD (i + 2) 0) (data.getD (i + 3) 0) else before)
      last := by
  constructor
  · rintro (⟨rfl, hnone⟩ | ⟨k, hmet, htag, hvalue, hlast⟩)
    · rw [if_neg (hnone i (h.metFrom_iff.mpr (.inl rfl)))]
      exact .inl ⟨rfl, fun k hmet => hnone k (h.metFrom_iff.mpr (.inr hmet))⟩
    · obtain rfl | hmet := h.metFrom_iff.mp hmet
      · rw [if_pos htag]
        exact .inl ⟨hvalue, fun k' hmet => hlast k' (h.transGen_iff.mpr hmet.1) hmet.2⟩
      · exact .inr ⟨k, hmet, htag, hvalue, hlast⟩
  · rintro (⟨rfl, hnone⟩ | ⟨k, hmet, htag, hvalue, hlast⟩)
    · by_cases htag : data.getD i 0 = SCTag.FCPFileSizeWithInfo
      · rw [if_pos htag]
        exact .inr ⟨i, h.metFrom_iff.mpr (.inl rfl), htag, rfl, fun k hreaches hin =>
          hnone k ⟨h.transGen_iff.mp hreaches, hin⟩⟩
      · rw [if_neg htag]
        refine .inl ⟨rfl, fun k hmet => ?_⟩
        obtain rfl | hmet := h.metFrom_iff.mp hmet
        · exact htag
        · exact hnone k hmet
    · exact .inr ⟨k, h.metFrom_iff.mpr (.inr hmet), htag, hvalue, hlast⟩

theorem FollowedBy.unlooped (h : FollowedBy data stop i j) (hinside : HeaderInside data i)
    (hrest : Unlooped data stop j) : Unlooped data stop i := by
  intro k hmet
  obtain rfl | hmet := h.metFrom_iff.mp hmet
  · -- an object that follows itself is one of those behind it
    exact ⟨hinside, fun hagain => (hrest k ⟨h.transGen_iff.mp hagain, h.1⟩).2 hagain⟩
  · exact hrest k hmet

theorem Walks.objects (h : Walks data stop i before last) : Unlooped data stop i ∧ LastSize data stop i before last := by
  induction h with
  | stop hend => exact ⟨fun j hmet => absurd hmet (not_metFrom hend), (lastSize_stop hend).mpr rfl⟩
  | @size i before last hin hdata htag _ ih =>
      have hstep : FollowedBy data stop i _ := ⟨hin, rfl⟩
      refine ⟨hstep.unlooped ⟨by omega, fun _ => hdata⟩ ih.1, hstep.lastSize_iff.mpr ?_⟩
      rw [if_pos htag]
      exact ih.2
  | @other i size last hin hdata htag _ ih =>
      have hstep : FollowedBy data stop i _ := ⟨hin, rfl⟩
      refine ⟨hstep.unlooped ⟨hdata, fun heq => absurd heq htag⟩ ih.1, hstep.lastSize_iff.mpr ?_⟩
      rw [if_neg htag]
      exact ih.2

/-- Objects of which none comes again are finitely many. -/
theorem Unlooped.wellFounded (h : Unlooped data stop i) : WellFounded fun k j : { j // MetFrom data stop i j } =>
    Relation.TransGen (FollowedBy data stop) j.1 k.1 := by
  have hfinite : Finite { j // MetFrom data stop i j } :=
    .of_injective (fun j => (⟨j.1, j.2.2⟩ : Fin stop)) fun j k heq => Subtype.ext (Fin.mk.inj heq)
  have htrans : IsTrans { j // MetFrom data stop i j } fun k j => Relation.TransGen (FollowedBy data stop) j.1 k.1 :=
    ⟨fun _ _ _ hfirst hsecond => hsecond.trans hfirst⟩
  have hirrefl : Std.Irrefl fun k j : { j // MetFrom data stop i j } =>
      Relation.TransGen (FollowedBy data stop) j.1 k.1 := ⟨fun j => (h j.1 j.2).2⟩
  exact Finite.wellFounded_of_trans_of_irrefl _

theorem Unlooped.walks (h : Unlooped data stop i) (hlast : LastSize data stop i before last) :
    Walks data stop i before last := by
  suffices hall : ∀ j : { j // MetFrom data stop i j }, ∀ before, LastSize data stop j.1 before last →
      Walks data stop j.1 before last by
    by_cases hin : i < stop
    · exact hall ⟨i, .refl, hin⟩ before hlast
    · obtain rfl := (lastSize_stop (Nat.le_of_not_lt hin)).mp hlast
      exact .stop (Nat.le_of_not_lt hin)
  intro j
  induction j using h.wellFounded.induction with
  | _ j ih =>
    intro before hlast
    obtain ⟨j, hmet⟩ := j
    obtain ⟨hdata, hvalue⟩ := (h j hmet).1
    have hstep : FollowedBy data stop j _ := ⟨hmet.2, rfl⟩
    have hrest : ∀ before, LastSize data stop ((j + 2 + (data.getD (j + 1) 0).toNat) % 256) before last →
        Walks data stop ((j + 2 + (data.getD (j + 1) 0).toNat) % 256) before last := by
      intro before hlast
      by_cases hin : (j + 2 + (data.getD (j + 1) 0).toNat) % 256 < stop
      · exact ih ⟨_, hmet.1.tail hstep, hin⟩ (.single hstep) before hlast
      · obtain rfl := (lastSize_stop (Nat.le_of_not_lt hin)).mp hlast
        exact .stop (Nat.le_of_not_lt hin)
    rw [hstep.lastSize_iff] at hlast
    by_cases htag : data.getD j 0 = SCTag.FCPFileSizeWithInfo
    · rw [if_pos htag] at hlast
      exact .size hmet.2 (hvalue htag) htag (hrest _ hlast)
    · rw [if_neg htag] at hlast
      exact .other hmet.2 hdata htag (hrest _ hlast)

/-- The walk ends inside the data if no object comes again and all are inside, and with the last size among them. -/
theorem walks_iff_objects :
    Walks data stop i before last ↔ Unlooped data stop i ∧ LastSize data stop i before last :=
  ⟨Walks.objects, fun h => h.1.walks h.2⟩

end Objects

/-! ### Templates -/

/-- The data begin with an FCP template of these data objects, with one-byte tags and one-byte lengths. -/
def Comprises (data : List UInt8) (tlvs : List (UInt8 × List UInt8)) : Prop :=
  ∃ length rest, data = SCTag.FileControlInfoFCP :: length :: (tlvs.flatMap tlvBytes ++ rest) ∧
    length.toNat = (tlvs.flatMap tlvBytes).length

/-- The data begin with a template in which a file size of two bytes has this value. -/
def GivesSize (data : List UInt8) (size : Nat) : Prop :=
  ∃ tlvs, Comprises data tlvs ∧ (∀ tlv ∈ tlvs, tlv.1 = SCTag.FCPFileSizeWithInfo → tlv.2.length = 2) ∧
    ∃ high low, (SCTag.FCPFileSizeWithInfo, [high, low]) ∈ tlvs ∧ size = word16 high low

section Template

variable {data : List UInt8} {size initial : Nat}

theorem GivesSize.first (h : GivesSize data size) : 2 < data.length ∧ data.getD 0 0 = SCTag.FileControlInfoFCP := by
  obtain ⟨tlvs, ⟨length, rest, rfl, _⟩, _, high, low, hmem, _⟩ := h
  refine ⟨?_, rfl⟩
  have hpos : 0 < (tlvs.flatMap tlvBytes).length := by
    apply List.length_pos_of_mem (a := SCTag.FCPFileSizeWithInfo)
    exact List.mem_flatMap.mpr ⟨_, hmem, List.mem_cons_self⟩
  rw [List.length_cons, List.length_cons, List.length_append]
  omega

/-- The walk over the objects that are left ends behind them, with the value of the last size among them. -/
theorem walks_objects {front back : List UInt8} {tlvs : List (UInt8 × List UInt8)} {stop : Nat}
    (hdata : data = front ++ (tlvs.flatMap tlvBytes ++ back))
    (hend : front.length + (tlvs.flatMap tlvBytes).length = stop)
    (hstop : stop < 256) (hpair : ∀ tlv ∈ tlvs, tlv.1 = SCTag.FCPFileSizeWithInfo → tlv.2.length = 2) (size : Nat) :
    ∃ last, Walks data stop front.length size last ∧
      ((last = size ∧ ∀ tlv ∈ tlvs, tlv.1 ≠ SCTag.FCPFileSizeWithInfo) ∨
        ∃ high low, (SCTag.FCPFileSizeWithInfo, [high, low]) ∈ tlvs ∧ last = word16 high low) := by
  induction tlvs generalizing front size with
  | nil =>
      rw [List.flatMap_nil, List.length_nil] at hend
      exact ⟨size, .stop (by omega), .inl ⟨rfl, fun tlv hmem => by cases hmem⟩⟩
  | cons tlv tlvs ih =>
      obtain ⟨tag, value⟩ := tlv
      rw [List.forall_mem_cons] at hpair
      have hbytes : (tlvBytes (tag, value)).length = value.length + 2 := by simp [tlvBytes]
      rw [List.flatMap_cons] at hdata hend
      rw [List.length_append, hbytes] at hend
      have hread : ∀ k, k < value.length + 2 → data.getD (front.length + k) 0 = (tlvBytes (tag, value)).getD k 0 := by
        intro k hk
        rw [hdata, List.getD_eq_getElem?_getD, List.getElem?_append_right (Nat.le_add_right _ _),
          Nat.add_sub_cancel_left,
          List.append_assoc, List.getElem?_append_left (by omega), List.getD_eq_getElem?_getD]
      have hdataLen : front.length + value.length + 2 ≤ data.length := by
        rw [hdata, List.length_append, List.length_append, List.length_append, hbytes]
        omega
      have htag : data.getD front.length 0 = tag := hread 0 (by omega)
      have hlength : (data.getD (front.length + 1) 0).toNat = value.length := by
        rw [hread 1 (by omega)]
        exact toNat_lowByte (n := value.length) (by omega)
      have hnext : (front.length + 2 + (data.getD (front.length + 1) 0).toNat) % 256 =
          (front ++ tlvBytes (tag, value)).length := by
        rw [hlength, List.length_append, hbytes, Nat.mod_eq_of_lt (by omega)]
        omega
      have hrest : data = front ++ tlvBytes (tag, value) ++ (tlvs.flatMap tlvBytes ++ back) := by
        rw [hdata]
        simp only [List.append_assoc]
      have hrestEnd : (front ++ tlvBytes (tag, value)).length + (tlvs.flatMap tlvBytes).length = stop := by
        rw [List.length_append, hbytes]
        omega
      by_cases hsize : tag = SCTag.FCPFileSizeWithInfo
      · -- a size: the two bytes behind the header are its value
        obtain ⟨high, low, rfl⟩ := List.length_eq_two.mp (hpair.1 hsize)
        have hhigh : data.getD (front.length + 2) 0 = high := hread 2 (by simp)
        have hlow : data.getD (front.length + 3) 0 = low := hread 3 (by simp)
        obtain ⟨last, hwalks, hlast⟩ := ih hrest hrestEnd hpair.2 (word16 high low)
        refine ⟨last, .size (by simp at hend; omega) (by simp at hdataLen; omega) (htag.trans hsize) ?_, .inr ?_⟩
        · rw [hnext, hhigh, hlow]
          exact hwalks
        · rcases hlast with ⟨heq, _⟩ | ⟨high', low', hmem, heq⟩
          · exact ⟨high, low, by rw [hsize]; exact List.mem_cons_self, heq⟩
          · exact ⟨high', low', List.mem_cons_of_mem _ hmem, heq⟩
      · obtain ⟨last, hwalks, hlast⟩ := ih hrest hrestEnd hpair.2 size
        refine ⟨last, .other (by omega) (by omega) (fun heq => hsize (htag.symm.trans heq)) ?_, ?_⟩
        · rw [hnext]
          exact hwalks
        · rcases hlast with ⟨heq, hnone⟩ | ⟨high, low, hmem, heq⟩
          · exact .inl ⟨heq, List.forall_mem_cons.mpr ⟨hsize, hnone⟩⟩
          · exact .inr ⟨high, low, List.mem_cons_of_mem _ hmem, heq⟩

/-- A template of up to 253 bytes is walked to its end. -/
theorem GivesSize.walks (h : GivesSize data size) (hshort : data.getD 1 0 < 0xFE) (initial : Nat) :
    ∃ last, Walks data (((data.getD 1 0).toNat + 2) % 256) 2 initial last ∧ GivesSize data last := by
  obtain ⟨tlvs, hcomprises, hpair, high, low, hmem, _⟩ := h
  obtain ⟨length, rest, hdata, hlength⟩ := hcomprises
  have hfirst : data.getD 1 0 = length := by rw [hdata]; rfl
  rw [hfirst] at hshort ⊢
  have hfew : length.toNat < 254 := UInt8.lt_iff_toNat_lt.mp hshort
  have hsplit : data = [SCTag.FileControlInfoFCP, length] ++ (tlvs.flatMap tlvBytes ++ rest) := hdata
  have hend : [SCTag.FileControlInfoFCP, length].length + (tlvs.flatMap tlvBytes).length = length.toNat + 2 := by
    rw [hlength, Nat.add_comm]
    rfl
  obtain ⟨last, hwalks, hlast⟩ := walks_objects hsplit hend (by omega) hpair initial
  rw [Nat.mod_eq_of_lt (by omega)]
  refine ⟨last, hwalks, tlvs, ⟨length, rest, hdata, hlength⟩, hpair, ?_⟩
  rcases hlast with ⟨_, hnone⟩ | hfound
  · exact absurd rfl (hnone _ hmem)
  · exact hfound

/-- At a longer template the bound of the walk wraps to zero or one, and nothing is read. -/
theorem walks_wrapped (hlong : ¬data.getD 1 0 < 0xFE) (initial : Nat) :
    Walks data (((data.getD 1 0).toNat + 2) % 256) 2 initial initial := by
  have hbyte := (data.getD 1 0).toNat_lt
  have hmany : ¬(data.getD 1 0).toNat < 254 := fun hlt => hlong (UInt8.lt_iff_toNat_lt.mpr hlt)
  exact .stop (by omega)

end Template

/-! ### The callers -/

/-- The part of `listKeyPairs` for an answer that begins like a template. -/
def listWalked : Exec (Linked σ Mias) Bool := do
  let size ← onSE (fcpFileSize 0)
  loop (containerTurn T size) (0, 0)
  setObj fun m => { m with keypairsNum := m.keypairsNum + 1 }
  linkCertificates T
  return true

/-- The part of `listKeyPairs` behind the SELECT. -/
def listSelected : Exec (Linked σ Mias) Bool := do
  let length ← onApplet (gets Applet.getResponseLength)
  let tag ← gets fun s => s.se.response 0
  if 2 < length ∧ tag = SCTag.FileControlInfoFCP then listWalked T else return false

theorem listKeyPairs_eq :
    listKeyPairs T = (do
      if (← gets fun s => s.obj.keypairsNum) ≠ -1 then return true
      else if ← ok (selectFileLe T CONTAINERS_INFO_EF 0x15) then listSelected T
      else return false) := rfl

/-- The part of `getCertificateByContainerId` behind the SELECT. -/
def certificateSelected (efSize : UInt16) (cert : Option Mem) (len : Nat) : Exec (Linked σ Mias) Fetched := do
  let size ← onSE (templateSize efSize.toNat)
  if size ≠ 0 then
    match cert with
    | none => return ⟨true, none, size⟩
    | some out =>
        let out ← readChunks T 256 0 size out
        if out 0 = 0x01 ∧ out 1 = 0x00 then
          return ⟨false, some out, size⟩
        else
          return ⟨true, some out, size⟩
  else
    return ⟨false, cert, len⟩

theorem getCertificateByContainerId_eq (efSize : UInt16) (containerId : UInt8) (cert : Option Mem) (len : Nat) :
    getCertificateByContainerId T efSize containerId cert len = (do
      match ← getKeyPairByContainerId T containerId with
      | none => return ⟨false, cert, len⟩
      | some index =>
          let pair ← gets fun s => s.obj.keypairs index
          if pair.hasCert then
            if ← ok (selectFileLe T [pair.pubFileId.1, pair.pubFileId.2] 0x1C) then
              certificateSelected T efSize cert len
            else return ⟨false, cert, len⟩
          else return ⟨false, cert, len⟩) := rfl

/-- What is expected of an answer whose walk is entered if `walked`: the walk ends, reads data of the answer only and
obtains a size of the template; without a template that has one, the caller returns false. -/
structure SoundOn (data : List UInt8) (initial : Nat) (walked refused : Prop) (se : SEInterface σ) : Prop where
  ends : walked → ∃ size, Evals (fcpFileSize initial) se size se
  within : walked → ∀ k, Reads se.response k → k < data.length
  obtains : (∃ size, GivesSize data size) → ∃ size, GivesSize data size ∧ Evals (fcpFileSize initial) se size se
  refuses : (¬∃ size, GivesSize data size) → refused

/-- The answer to the SELECT of CONTAINERS_INFO is dealt with as expected. -/
def ListsSoundly (data : List UInt8) (s : Linked σ Mias) : Prop :=
  SoundOn data 0 (2 < getResponseLength s.se ∧ s.se.response 0 = SCTag.FileControlInfoFCP)
    (∃ s', Evals (listSelected T) s false s') s.se

/-- The answer to the SELECT of a certificate is dealt with as expected, for any buffer of the caller. -/
def CertifiesSoundly (data : List UInt8) (efSize : UInt16) (s : Linked σ Mias) : Prop :=
  SoundOn data efSize.toNat (s.se.response 0 = SCTag.FileControlInfoFCP)
    (∀ cert len, ∃ fetched s', Evals (certificateSelected T efSize cert len) s fetched s' ∧ fetched.ok = false) s.se

/-- A well-formed template with a size. It has no more than 253 bytes, or the size is what the variable holds before. -/
def Readable (data : List UInt8) (initial : Nat) : Prop :=
  (∃ size, GivesSize data size) ∧ (data.getD 1 0 < 0xFE ∨ GivesSize data initial)

/-- The objects of something like a template are inside the data, none comes again, and the last file size among them
is zero; the variable is zero before if there is none, or no template. -/
def LeavesZero (data : List UInt8) (efSize : Nat) : Prop :=
  if data.getD 0 0 = SCTag.FileControlInfoFCP then
    1 < data.length ∧ Unlooped data (((data.getD 1 0).toNat + 2) % 256) 2 ∧
      LastSize data (((data.getD 1 0).toNat + 2) % 256) 2 efSize 0
  else efSize = 0

section Callers

variable {T} {data : List UInt8} {initial size : Nat} {walked refused : Prop} {se : SEInterface σ} {s : Linked σ Mias}

theorem soundOn_of_size (hsame : ∀ k, k < data.length → se.response k = data.getD k 0) (h : GivesSize data size) :
    SoundOn data initial walked refused se ↔ data.getD 1 0 < 0xFE ∨ GivesSize data initial := by
  have hlen : 1 < data.length := Nat.lt_of_succ_lt h.first.1
  constructor
  · intro hsound
    by_cases hshort : data.getD 1 0 < 0xFE
    · exact .inl hshort
    · obtain ⟨size, hgives, hevals⟩ := hsound.obtains ⟨size, h⟩
      have hkept := (walks_wrapped hshort initial).evals hsame hlen
      cases (hkept.unique hevals).1
      exact .inr hgives
  · intro hcase
    obtain ⟨last, hwalks, hgives⟩ : ∃ last, Walks data (((data.getD 1 0).toNat + 2) % 256) 2 initial last ∧
      GivesSize data last := by
      by_cases hshort : data.getD 1 0 < 0xFE
      · exact h.walks hshort initial
      · exact ⟨initial, walks_wrapped hshort initial, hcase.resolve_left hshort⟩
    have hinside := (walks_iff hsame).mpr ⟨hlen, last, hwalks⟩
    exact ⟨fun _ => hinside.1, fun _ => hinside.2, fun _ => ⟨last, hgives, hwalks.evals hsame hlen⟩,
      fun hnone => absurd ⟨size, h⟩ hnone⟩

theorem soundOn_of_none (hsame : ∀ k, k < data.length → se.response k = data.getD k 0)
    (h : ¬∃ size, GivesSize data size) :
    SoundOn data initial walked refused se ↔ refused ∧
      (walked → 1 < data.length ∧ ∃ last, Walks data (((data.getD 1 0).toNat + 2) % 256) 2 initial last) := by
  constructor
  · intro hsound
    exact ⟨hsound.refuses h, fun hwalked => (walks_iff hsame).mp ⟨hsound.ends hwalked, hsound.within hwalked⟩⟩
  · intro hboth
    exact ⟨fun hwalked => ((walks_iff hsame).mpr (hboth.2 hwalked)).1,
      fun hwalked => ((walks_iff hsame).mpr (hboth.2 hwalked)).2, fun hgives => absurd hgives h, fun _ => hboth.1⟩

/-- The first byte of an answer without data is its status. -/
theorem first_iff (hholds : Holds s.se (data ++ [0x90, 0x00])) :
    s.se.response 0 = SCTag.FileControlInfoFCP ↔ data.getD 0 0 = SCTag.FileControlInfoFCP := by
  rw [hholds.2 0 (by simp)]
  cases data with
  | nil => decide
  | cons byte data => rfl

theorem listSelected_apply (hselected : s.obj.applet.isSelected = true) (fuel : Nat) :
    listSelected T fuel s =
      (if 2 < getResponseLength s.se ∧ s.se.response 0 = SCTag.FileControlInfoFCP then listWalked T
        else pure false) fuel s := by
  have hlength : Applet.getResponseLength ⟨s.se, s.obj.applet⟩ = getResponseLength s.se := by
    rw [Applet.getResponseLength, Applet.getResponse, if_pos hselected, getResponseLength]
  rw [← hlength]
  rfl

/-- Behind the walk `listKeyPairs` returns true. -/
theorem listWalked_ne_false {s' : Linked σ Mias} : ¬Evals (listWalked T) s false s' := by
  intro hevals
  obtain ⟨fuel, hdone⟩ := hevals.reached
  obtain ⟨_, _, _, hdone⟩ := bind_eq_done hdone
  obtain ⟨_, _, _, hdone⟩ := bind_eq_done hdone
  obtain ⟨_, _, _, hdone⟩ := bind_eq_done hdone
  obtain ⟨_, _, _, hdone⟩ := bind_eq_done hdone
  cases hdone

/-- An answer is refused by `listKeyPairs` if it is not walked. -/
theorem listSelected_false_iff (hselected : s.obj.applet.isSelected = true) :
    (∃ s', Evals (listSelected T) s false s') ↔
      ¬(2 < getResponseLength s.se ∧ s.se.response 0 = SCTag.FileControlInfoFCP) := by
  constructor
  · rintro ⟨s', least, hrun⟩ hwalked
    have hends : Evals (listWalked T) s false s' := by
      refine ⟨least, fun fuel => ?_⟩
      have heq := listSelected_apply (T := T) hselected fuel
      rw [if_pos hwalked] at heq
      rw [← heq]
      exact hrun fuel
    exact listWalked_ne_false hends
  · intro hwalked
    refine ⟨s, .of_eq fun fuel => ?_⟩
    rw [listSelected_apply hselected, if_neg hwalked]
    rfl

/-- An answer is refused by `getCertificateByContainerId` if the size is zero. -/
theorem certificateSelected_false_iff {efSize : UInt16} (h : Evals (templateSize efSize.toNat) s.se size s.se) :
    (∀ cert len, ∃ fetched s', Evals (certificateSelected T efSize cert len) s fetched s' ∧ fetched.ok = false) ↔
      size = 0 := by
  have hsize : Evals (onSE (templateSize efSize.toNat)) s size s := .zoom h
  constructor
  · intro hall
    obtain ⟨fetched, s', hevals, hok⟩ := hall none 0
    by_contra hne
    have htrue : Evals (certificateSelected T efSize none 0) s ⟨true, none, size⟩ s := by
      apply hsize.bind
      rw [if_pos hne]
      exact .pure
    cases (htrue.unique hevals).1
    cases hok
  · intro hzero cert len
    refine ⟨⟨false, cert, len⟩, s, hsize.bind ?_, rfl⟩
    rw [if_neg (not_not.mpr hzero)]
    exact .pure

theorem listsSoundly_iff (hselected : s.obj.applet.isSelected = true) (hholds : Holds s.se (data ++ [0x90, 0x00])) :
    ListsSoundly T data s ↔
      ¬(2 < data.length ∧ data.getD 0 0 = SCTag.FileControlInfoFCP) ∨ Readable data 0 := by
  have hsame : ∀ k, k < data.length → s.se.response k = data.getD k 0 := fun k hk => hholds.data_eq hk
  have hlength : getResponseLength s.se = data.length := by
    rw [getResponseLength, hholds.getResponse, responseData_append]
  have hwalked := first_iff hholds
  by_cases hgives : ∃ size, GivesSize data size
  · obtain ⟨size, hsize⟩ := hgives
    have htaken : ¬¬(2 < data.length ∧ data.getD 0 0 = SCTag.FileControlInfoFCP) := not_not.mpr hsize.first
    have hreadable : Readable data 0 ↔ data.getD 1 0 < 0xFE ∨ GivesSize data 0 := and_iff_right ⟨size, hsize⟩
    rw [ListsSoundly, soundOn_of_size hsame hsize, hreadable, or_iff_right htaken]
  · have hunreadable : ¬Readable data 0 := fun hreadable => hgives hreadable.1
    rw [ListsSoundly, soundOn_of_none hsame hgives, listSelected_false_iff hselected, or_iff_left hunreadable,
      hlength, hwalked]
    exact and_iff_left_of_imp fun hnot htaken => absurd htaken hnot

theorem certifiesSoundly_iff (efSize : UInt16) (hholds : Holds s.se (data ++ [0x90, 0x00])) :
    CertifiesSoundly T data efSize s ↔
      Readable data efSize.toNat ∨ ((¬∃ size, GivesSize data size) ∧ LeavesZero data efSize.toNat) := by
  have hsame : ∀ k, k < data.length → s.se.response k = data.getD k 0 := fun k hk => hholds.data_eq hk
  have hfirst := first_iff hholds
  by_cases hgives : ∃ size, GivesSize data size
  · obtain ⟨size, hsize⟩ := hgives
    have hnone : ¬((¬∃ size, GivesSize data size) ∧ LeavesZero data efSize.toNat) := fun hboth => hboth.1 ⟨size, hsize⟩
    have hreadable : Readable data efSize.toNat ↔ data.getD 1 0 < 0xFE ∨ GivesSize data efSize.toNat :=
      and_iff_right ⟨size, hsize⟩
    rw [CertifiesSoundly, soundOn_of_size hsame hsize, or_iff_left hnone, hreadable]
  · have hunreadable : ¬Readable data efSize.toNat := fun hreadable => hgives hreadable.1
    rw [CertifiesSoundly, soundOn_of_none hsame hgives, or_iff_right hunreadable, and_iff_right hgives, LeavesZero]
    by_cases htag : data.getD 0 0 = SCTag.FileControlInfoFCP
    · -- the walk is entered: the answer is refused if the walk leaves zero
      have hsize : ∀ last, 1 < data.length → Walks data (((data.getD 1 0).toNat + 2) % 256) 2 efSize.toNat last →
          Evals (templateSize efSize.toNat) s.se last s.se := by
        intro last hlen hwalks
        apply Evals.gets.bind
        rw [if_pos (hfirst.mpr htag)]
        exact hwalks.evals hsame hlen
      rw [if_pos htag, ← walks_iff_objects]
      constructor
      · rintro ⟨hrefused, hinside⟩
        obtain ⟨hlen, last, hwalks⟩ := hinside (hfirst.mpr htag)
        have hzero := (certificateSelected_false_iff (hsize last hlen hwalks)).mp hrefused
        rw [hzero] at hwalks
        exact ⟨hlen, hwalks⟩
      · rintro ⟨hlen, hwalks⟩
        exact ⟨(certificateSelected_false_iff (hsize 0 hlen hwalks)).mpr rfl, fun _ => ⟨hlen, 0, hwalks⟩⟩
    · have hnot : ¬s.se.response 0 = SCTag.FileControlInfoFCP := fun heq => htag (hfirst.mp heq)
      have hsize : Evals (templateSize efSize.toNat) s.se efSize.toNat s.se := by
        apply Evals.gets.bind
        rw [if_neg hnot]
        exact .pure
      rw [if_neg htag, certificateSelected_false_iff hsize]
      exact and_iff_left_of_imp fun _ hwalked => absurd hwalked hnot

end Callers

/-! ### The records -/

section Records

variable {T} {channel : UInt8} {s s₁ : Linked σ Mias} {size : Nat} {x : Nat × Nat}

/-- The loop stops, or goes on with the next record. -/
def Advances (x : Nat × Nat) (turn : Turn (Nat × Nat) Unit) : Prop :=
  turn = .stop () ∨ turn = .again ((x.1 + 1) % 256, (x.2 + 0x0B) % 65536)

theorem recordTurn_ends (hready : Ready channel s.obj) (record : Mem) :
    Attains (recordTurn x record) s fun turn s' => Ready channel s'.obj ∧ Advances x turn := by
  unfold recordTurn
  by_cases hfirst : record 0 ≠ 0
  · rw [if_pos hfirst]
    apply Attains.gets_bind
    by_cases hfull : (keyPoolSize : Int) - 1 ≤ s.obj.keypairsNum
    · rw [if_pos hfull]
      exact .pure ⟨hready, .inl rfl⟩
    · rw [if_neg hfull]
      apply Attains.modify_bind
      exact .pure ⟨hready.congr rfl, .inr rfl⟩
  · rw [if_neg hfirst]
    exact .pure ⟨hready, .inr rfl⟩

theorem containerTurn_ends (hends : ReadsEnd T channel) (hready : Ready channel s.obj) (hmore : x.2 < size)
    (hsize : size < 65536) :
    Attains (containerTurn T size x) s fun turn s' => Ready channel s'.obj ∧ Advances x turn := by
  obtain ⟨result, card, hconcludes⟩ := hends s.se.card x.2 0x0B (by omega)
  obtain ⟨s₁, hrun, hobj, hafter⟩ := readBinary_concludes hready hconcludes
  rw [← hobj] at hready
  cases result with
  | none =>
      refine ⟨_, s₁, ?_, hready, .inr rfl⟩
      unfold containerTurn
      rw [if_pos hmore]
      exact hrun.bind (.of_eq fun _ => rfl)
  | some answer =>
      have hword := getStatusWord_evals hready (hafter.holds answer rfl)
      by_cases hstatus : statusWord answer = swOK
      · rw [hstatus] at hword
        obtain ⟨turn, hturn⟩ := recordTurn_ends (x := x) hready s₁.se.response
        exact ⟨turn, containerTurn_accepted hmore hrun hword hturn⟩
      · refine ⟨.stop (), s₁, ?_, hready, .inl rfl⟩
        unfold containerTurn
        rw [if_pos hmore]
        apply hrun.bind
        rw [Option.isSome_some, if_pos rfl]
        apply hword.bind
        rw [if_neg hstatus]
        exact .pure

/-- The loop ends for every size. The offsets go up by 11, which is odd: the offset behind 29789 records is 65535, and
no size is above it. -/
theorem containerTurns_end (hends : ReadsEnd T channel) (hready : Ready channel s.obj) (hsize : size < 65536) :
    ∃ s', Evals (loop (containerTurn T size) (0, 0)) s () s' := by
  suffices hall : ∀ left i s, Ready channel s.obj → left ≤ 29789 →
      ∃ s', Iterates (containerTurn T size) (i, (29789 - left) * 0x0B % 65536) s (.done ()) s' by
    obtain ⟨s', hiterates⟩ := hall 29789 0 s hready (Nat.le_refl _)
    exact ⟨s', .loop hiterates⟩
  have hstop : ∀ i offset (s : Linked σ Mias), ¬offset < size →
      Evals (containerTurn T size (i, offset)) s (.stop ()) s := by
    intro i offset s hdone
    unfold containerTurn
    rw [if_neg hdone]
    exact .pure
  intro left
  induction left with
  | zero => exact fun i s _ _ => ⟨s, .stop (hstop i _ s (by omega))⟩
  | succ left ih =>
      intro i s hready hleft
      by_cases hmore : (29789 - (left + 1)) * 0x0B % 65536 < size
      · obtain ⟨turn, s₁, hturn, hready₁, hadvances⟩ :=
          containerTurn_ends (x := (i, (29789 - (left + 1)) * 0x0B % 65536)) hends
          hready hmore hsize
        rcases hadvances with rfl | rfl
        · exact ⟨s₁, .stop hturn⟩
        · obtain ⟨s', hrest⟩ := ih ((i + 1) % 256) s₁ hready₁ (by omega)
          have hoffset : ((29789 - (left + 1)) * 0x0B % 65536 + 0x0B) % 65536 = (29789 - left) * 0x0B % 65536 := by
            omega
          rw [← hoffset] at hrest
          exact ⟨s', .again hturn hrest⟩
      · exact ⟨s, .stop (hstop i _ s hmore)⟩

end Records

section Answers

variable {T} {channel : UInt8} {data : List UInt8} {s : Linked σ Mias}

/-- **FCP parsing is sound** on just these answers to the SELECT. In `listKeyPairs`: if there are no three bytes that
begin like a template, or if they are a well-formed template with a size of two bytes, of at most 253 bytes or of size
zero. In `getCertificateByContainerId`: if there is such a template, of at most 253 bytes or of the size that `ef_size`
holds before, or if there is none and the objects that follow one another are inside the data, none comes again, and
the last size among them is zero. The loop over the records ends. -/
theorem template_sound_iff (hready : Ready channel s.obj) (hholds : Holds s.se (data ++ [0x90, 0x00])) :
    (ListsSoundly T data s ↔
      ¬(2 < data.length ∧ data.getD 0 0 = SCTag.FileControlInfoFCP) ∨ Readable data 0) ∧
    (∀ efSize : UInt16, CertifiesSoundly T data efSize s ↔
      Readable data efSize.toNat ∨ ((¬∃ size, GivesSize data size) ∧ LeavesZero data efSize.toNat)) ∧
    (ReadsEnd T channel → ∀ size, size < 65536 → ∃ s', Evals (loop (containerTurn T size) (0, 0)) s () s') :=
  ⟨listsSoundly_iff hready.isSelected hholds, fun efSize => certifiesSoundly_iff efSize hholds,
    fun hends _ hsize => containerTurns_end hends hready hsize⟩

/-- The object behind a SELECT that was answered with these data. -/
def behindSelect (data : List UInt8) : Linked Nat Mias :=
  ⟨stored (data ++ [0x90, 0x00]) (.create 0 .zero), selectedMias⟩

/-- A card of empty files. -/
def emptyCard : Transport Nat := fileCard (fun _ => []) fun _ => []

theorem emptyCard_readsEnd : ReadsEnd emptyCard 0 :=
  fun card _ le hoffset => ⟨some _, card, fileCard_reads 0 card hoffset le⟩

/-- A template of a size of eleven bytes, in one record. -/
theorem template_sound_eleven :
    ListsSoundly emptyCard [0x62, 0x04, 0x81, 0x02, 0x00, 0x0B] (behindSelect [0x62, 0x04, 0x81, 0x02, 0x00, 0x0B]) ∧
    CertifiesSoundly emptyCard [0x62, 0x04, 0x81, 0x02, 0x00, 0x0B] 7
      (behindSelect [0x62, 0x04, 0x81, 0x02, 0x00, 0x0B]) ∧
    ∃ s', Evals (loop (containerTurn emptyCard 11) (0, 0))
      (behindSelect [0x62, 0x04, 0x81, 0x02, 0x00, 0x0B]) () s' := by
  have hsound := template_sound_iff (T := emptyCard) (s := behindSelect [0x62, 0x04, 0x81, 0x02, 0x00, 0x0B])
    selectedMias_ready (holds_stored _ _)
  have hgives : ∃ size, GivesSize [0x62, 0x04, 0x81, 0x02, 0x00, 0x0B] size :=
    ⟨_, [(0x81, [0x00, 0x0B])], ⟨0x04, [], rfl, rfl⟩, by decide, 0x00, 0x0B, by decide, rfl⟩
  exact ⟨hsound.1.mpr (.inr ⟨hgives, .inl (by decide)⟩), (hsound.2.1 7).mpr (.inl ⟨hgives, .inl (by decide)⟩),
    hsound.2.2 emptyCard_readsEnd 11 (by decide)⟩

/-- A template of one object of 254 bytes: from its end the index wraps to its tag, and the walk never ends. -/
theorem walk_never_ends : ¬ListsSoundly emptyCard [0x62, 0x02, 0x80, 0xFE] (behindSelect [0x62, 0x02, 0x80, 0xFE]) := by
  intro hsound
  obtain ⟨size, hevals⟩ := hsound.ends ⟨by decide, rfl⟩
  have hblocks : Blocks (fcpFileSize 0) (behindSelect [0x62, 0x02, 0x80, 0xFE]).se := by
    apply Evals.gets.bind_blocks
    apply Blocks.loop
    refine .forever (fun x se => x = (2, 0) ∧ se = (behindSelect [0x62, 0x02, 0x80, 0xFE]).se) ⟨rfl, rfl⟩ ?_
    rintro _ _ ⟨rfl, rfl⟩
    exact ⟨(2, 0), _, .of_eq fun fuel => fcpWalk_apply 2 2 0 fuel _, rfl, rfl⟩
  exact hevals.not_blocks hblocks

end Answers

end TrustOnboard.Mias
