import TrustOnboard.MiasCard

/-! The key-pair table on a well-formed card. CONTAINERS_INFO gives the key pairs, FILE_DIR the file of the
certificate of each pair, the FCP template of a file its size. Listing from an empty table leaves a table
in which every valid RSA record has a pair, linked to the last directory record that looks like the entry
of its container. -/

namespace TrustOnboard.Mias

open Exec Linked SEInterface

/-! ### Well-formed images -/

/-- A tag, a length and a value. -/
def tlvBytes (tlv : UInt8 × List UInt8) : List UInt8 := tlv.1 :: lowByte tlv.2.length :: tlv.2

/-- An FCP template of a file of this size: it is tiled by TLVs, and one of them gives the size. -/
def IsTemplate (template : List UInt8) (size : Nat) : Prop :=
  ∃ tlvs : List (UInt8 × List UInt8),
    template = 0x62 :: lowByte (tlvs.flatMap tlvBytes).length :: tlvs.flatMap tlvBytes ∧
    (tlvs.flatMap tlvBytes).length ≤ 253 ∧
    tlvs.filter (fun tlv => tlv.1 = 0x81) = [(0x81, [highByte size, lowByte size])]

/-- The size in bits of the key of a CONTAINERS_INFO record. -/
def keySize (record : List UInt8) : Nat :=
  if word16 (record.getD 4 0) (record.getD 5 0) = 0 then word16 (record.getD 6 0) (record.getD 7 0)
  else word16 (record.getD 4 0) (record.getD 5 0)

/-- A valid record of an RSA key of 1024 or 2048 bits. -/
def IsRsaRecord (record : List UInt8) : Prop :=
  record.getD 0 0 ≠ 0 ∧ (keySize record = 1024 ∨ keySize record = 2048)

instance (record : List UInt8) : Decidable (IsRsaRecord record) := inferInstanceAs (Decidable (_ ∧ _))

/-- Two decimal digits. -/
def decimal (n : Nat) : List UInt8 := [lowByte (0x30 + n / 10), lowByte (0x30 + n % 10)]

/-- The entry of the certificate of a container: "kxcNN" or "kscNN" under "mscp". -/
def IsEntry (container : Nat) (record : List UInt8) : Prop :=
  container < 100 ∧ nameOf ((record.drop 12).take 8) = cstr "mscp" ∧
    (nameOf ((record.drop 4).take 8) = cstr "kxc" ++ decimal container ∨
      nameOf ((record.drop 4).take 8) = cstr "ksc" ++ decimal container)

instance (container : Nat) (record : List UInt8) : Decidable (IsEntry container record) :=
  inferInstanceAs (Decidable (_ ∧ _))

/-- What the library takes for such an entry. -/
def LooksLikeEntry (container : Int) (record : List UInt8) : Prop :=
  isCertificateRecord (Mem.zero.write 0 record) = true ∧ recordContainer (Mem.zero.write 0 record) = container

instance (container : Int) (record : List UInt8) : Decidable (LooksLikeEntry container record) :=
  inferInstanceAs (Decidable (_ ∧ _))

/-- CONTAINERS_INFO. -/
def containersId : Nat := 0x0002

/-- The files of a card: the records of CONTAINERS_INFO and FILE_DIR, and the contents and templates by
file id. -/
structure CertImage where
  containers : List (List UInt8)
  records : List (List UInt8)
  slack : List UInt8
  contents : Nat → List UInt8
  templates : Nat → List UInt8
  containers_few : containers.length ≤ 15
  container_length : ∀ record ∈ containers, record.length = 0x0B
  containers_eq : contents containersId = containers.flatten
  records_few : records.length ≤ 255
  record_length : ∀ record ∈ records, record.length = 0x15
  directory : contents directoryId = lowByte records.length :: records.flatten ++ slack
  one_entry : ∀ container, (records.filter fun record => IsEntry container record).length ≤ 1
  template : ∀ efid, (efid = containersId ∨ efid = directoryId ∨ ∃ record ∈ records, efidOf record = efid) →
    IsTemplate (templates efid) (contents efid).length ∧
      1 ≤ (contents efid).length ∧ (contents efid).length ≤ 32767

namespace CertImage

variable {σ : Type} (image : CertImage)

/-- The files that are there. -/
def Present (efid : Nat) : Prop :=
  efid = containersId ∨ efid = directoryId ∨ ∃ record ∈ image.records, efidOf record = efid

/-- Reads may be short in the certificates. -/
def MayBeShort (efid _offset : Nat) : Prop := efid ≠ containersId ∧ efid ≠ directoryId

/-- The card behind the transport has the files of the image. -/
structure ServedBy (T : Transport σ) (channel : UInt8) (current : σ → Nat) : Prop where
  reads : Serves T channel image.contents current MayBeShort
  selects : ∀ card efid (le : UInt8), image.Present efid → le = 0x15 ∨ le = 0x1C →
    ∃ card', Settles T card (selectApdu channel efid ++ [le]) (image.templates efid ++ [0x90, 0x00]) card' ∧
      current card' = efid

/-- The container has a valid RSA record. -/
def Holder (container : Nat) : Prop := ∃ record, image.containers[container]? = some record ∧ IsRsaRecord record

/-- The last record that looks like the entry of the container. -/
def linked (container : Int) : Option (List UInt8) :=
  (image.records.filter fun record => LooksLikeEntry container record).getLast?

/-- The file of a record. -/
def fileOf (record : List UInt8) : List UInt8 := image.contents (efidOf record)

end CertImage

/-! ### The file size -/

section Template

variable {σ : Type} {se : SEInterface σ} {size : Nat}

theorem Holds.response_eq {front rest : List UInt8} (h : Holds se (front ++ rest)) {k : Nat} (hk : k < rest.length) :
    se.response (front.length + k) = rest.getD k 0 := by
  rw [h.2 (front.length + k) (by rw [List.length_append]; omega), List.getD_eq_getElem?_getD,
    List.getElem?_append_right (Nat.le_add_right _ _), Nat.add_sub_cancel_left, List.getD_eq_getElem?_getD]

/-- The walk over the TLVs that are left. -/
theorem fcpWalk_cycles {len : Nat} (hlen : len ≤ 253) (hsize : size < 65536)
    {front back : List UInt8} {tlvs : List (UInt8 × List UInt8)}
    (hholds : Holds se (front ++ (tlvs.flatMap tlvBytes ++ back)))
    (hend : front.length + (tlvs.flatMap tlvBytes).length = len + 2)
    (hvalue : ∀ tlv ∈ tlvs, tlv.1 = SCTag.FCPFileSizeWithInfo → tlv.2 = [highByte size, lowByte size]) (initial : Nat) :
    Cycles (fcpWalk len) (front.length, initial) se
      (if ∃ tlv ∈ tlvs, tlv.1 = SCTag.FCPFileSizeWithInfo then size else initial) (· = se) := by
  induction tlvs generalizing front initial with
  | nil =>
      rw [List.flatMap_nil, List.length_nil] at hend
      rw [if_neg (by rintro ⟨tlv, hmem, _⟩; cases hmem)]
      apply Cycles.stop
      unfold fcpWalk
      rw [if_neg (by simp only; omega)]
      exact .pure rfl
  | cons tlv tlvs ih =>
      obtain ⟨tag, value⟩ := tlv
      rw [List.forall_mem_cons] at hvalue
      have hlength : ((tag, value) :: tlvs).flatMap tlvBytes = tlvBytes (tag, value) ++ tlvs.flatMap tlvBytes := by
        rw [List.flatMap_cons]
      rw [hlength] at hholds hend
      have hbytes : (tlvBytes (tag, value)).length = value.length + 2 := by
        simp [tlvBytes]
      rw [List.length_append, hbytes] at hend
      have hread : ∀ k, k < value.length + 2 → se.response (front.length + k) = (tlvBytes (tag, value)).getD k 0 := by
        intro k hk
        rw [Holds.response_eq hholds (by rw [List.length_append, List.length_append, hbytes]; omega),
          List.append_assoc, List.getD_eq_getElem?_getD, List.getElem?_append_left (by rw [hbytes]; exact hk),
          List.getD_eq_getElem?_getD]
      have htag : se.response front.length = tag := hread 0 (by omega)
      have htoNat : (se.response (front.length + 1)).toNat = value.length := by
        rw [hread 1 (by omega)]
        exact toNat_lowByte (n := value.length) (by omega)
      -- the size after this TLV
      have hstep : (if tag = SCTag.FCPFileSizeWithInfo then
          word16 (se.response (front.length + 2)) (se.response (front.length + 3)) else initial) =
          if tag = SCTag.FCPFileSizeWithInfo then size else initial := by
        by_cases hsizeTag : tag = SCTag.FCPFileSizeWithInfo
        · have hpair : value = [highByte size, lowByte size] := hvalue.1 hsizeTag
          rw [if_pos hsizeTag, if_pos hsizeTag, hread 2 (by rw [hpair]; simp), hread 3 (by rw [hpair]; simp), hpair]
          exact word16_bytes hsize
        · rw [if_neg hsizeTag, if_neg hsizeTag]
      have hnext : (front.length + 2 + value.length) % 256 = (front ++ tlvBytes (tag, value)).length := by
        rw [List.length_append, hbytes, Nat.mod_eq_of_lt (by omega)]
        omega
      have hturn : Yields (fcpWalk len (front.length, initial)) se
          (.again ((front ++ tlvBytes (tag, value)).length, if tag = SCTag.FCPFileSizeWithInfo then size else initial))
          (· = se) := by
        unfold fcpWalk
        rw [if_pos (by simp only; omega)]
        apply Yields.gets_bind
        apply Yields.gets_bind
        apply Yields.gets_bind
        simp only [htag, htoNat, hstep, hnext]
        exact .pure rfl
      refine .again hturn ?_
      intro s hs
      subst hs
      have hrest := @ih (front ++ tlvBytes (tag, value)) (by simpa using hholds)
        (by rw [List.length_append, hbytes]; omega) hvalue.2 (if tag = SCTag.FCPFileSizeWithInfo then size else initial)
      have hfinal : (if ∃ tlv ∈ (tag, value) :: tlvs, tlv.1 = SCTag.FCPFileSizeWithInfo then size else initial) =
          if ∃ tlv ∈ tlvs, tlv.1 = SCTag.FCPFileSizeWithInfo then size
          else if tag = SCTag.FCPFileSizeWithInfo then size else initial := by
        by_cases hrest : ∃ tlv ∈ tlvs, tlv.1 = SCTag.FCPFileSizeWithInfo
        · rw [if_pos hrest, if_pos]
          obtain ⟨tlv, hmem, heq⟩ := hrest
          exact ⟨tlv, List.mem_cons_of_mem _ hmem, heq⟩
        · rw [if_neg hrest]
          by_cases hthis : tag = SCTag.FCPFileSizeWithInfo
          · rw [if_pos hthis, if_pos ⟨(tag, value), List.mem_cons_self, hthis⟩]
          · rw [if_neg hthis, if_neg]
            rintro ⟨tlv, hmem, heq⟩
            rcases List.mem_cons.mp hmem with rfl | hmem
            · exact hthis heq
            · exact hrest ⟨tlv, hmem, heq⟩
      rw [hfinal]
      exact hrest

/-- The size is found in the template, whatever the variable held before. -/
theorem fcpFileSize_yields {template : List UInt8} (htemplate : IsTemplate template size) (hsize : size < 65536)
    (hholds : Holds se (template ++ [0x90, 0x00])) (initial : Nat) :
    Yields (fcpFileSize initial) se size (· = se) := by
  obtain ⟨tlvs, rfl, hshort, hone⟩ := htemplate
  have hmem : (SCTag.FCPFileSizeWithInfo, [highByte size, lowByte size]) ∈ tlvs := by
    have : (SCTag.FCPFileSizeWithInfo, [highByte size, lowByte size]) ∈ tlvs.filter (fun tlv => tlv.1 = 0x81) := by
      rw [hone]
      exact List.mem_singleton_self _
    exact (List.mem_filter.mp this).1
  have hvalue : ∀ tlv ∈ tlvs, tlv.1 = SCTag.FCPFileSizeWithInfo → tlv.2 = [highByte size, lowByte size] := by
    intro tlv hin htag
    have : tlv ∈ tlvs.filter (fun tlv => tlv.1 = 0x81) := List.mem_filter.mpr ⟨hin, decide_eq_true htag⟩
    rw [hone, List.mem_singleton] at this
    rw [this]
  have hlen : (se.response 1).toNat = (tlvs.flatMap tlvBytes).length := by
    rw [hholds.2 1 (by simp)]
    exact toNat_lowByte (by omega)
  have hsplit : Holds se ([0x62, lowByte (tlvs.flatMap tlvBytes).length] ++
      (tlvs.flatMap tlvBytes ++ [0x90, 0x00])) := hholds
  have hwalk := fcpWalk_cycles hshort hsize hsplit (Nat.add_comm _ _) hvalue initial
  rw [if_pos ⟨_, hmem, rfl⟩] at hwalk
  apply Yields.gets_bind
  rw [hlen]
  exact hwalk.loop

theorem templateSize_yields {template : List UInt8} (htemplate : IsTemplate template size) (hsize : size < 65536)
    (hholds : Holds se (template ++ [0x90, 0x00])) (initial : Nat) :
    Yields (templateSize initial) se size (· = se) := by
  have hfirst : se.response 0 = SCTag.FileControlInfoFCP := by
    obtain ⟨tlvs, rfl, _⟩ := htemplate
    rw [hholds.2 0 (by simp)]
    rfl
  apply Yields.gets_bind
  rw [if_pos hfirst]
  exact fcpFileSize_yields htemplate hsize hholds initial

theorem IsTemplate.two_lt_length {template : List UInt8} (h : IsTemplate template size) : 2 < template.length := by
  obtain ⟨tlvs, rfl, _, hone⟩ := h
  cases tlvs with
  | nil => cases hone
  | cons tlv tlvs => simp [tlvBytes]

end Template

/-! ### Key pairs -/

/-- The pair of a record is found under its number if it is an RSA key. -/
theorem containerPair_container {i : Nat} (hi : i < 15) {memory : Mem} {record : List UInt8}
    (hmemory : ∀ k, k < 0x0B → memory k = record.getD k 0) {old : KeyPair} (hold : old.kid = 0) :
    (containerPair i memory old).container =
      if keySize record = 1024 ∨ keySize record = 2048 then (i : Int) else -1 := by
  have hbits : ∀ i, i < 15 → ∀ high ∈ [0x10, 0x20, 0x30, 0x40],
      ((lowByte (high ||| (i + 1)) &&& 0x0F).toNat : Int) - 1 = i := by decide
  have hsize : keySize record = if word16 (memory 4) (memory 5) = 0 then word16 (memory 6) (memory 7)
      else word16 (memory 4) (memory 5) := by
    rw [keySize, hmemory 4 (by decide), hmemory 5 (by decide), hmemory 6 (by decide), hmemory 7 (by decide)]
  have hkind : (KeyPair.signatureFlag ||| KeyPair.decryptionFlag) &&&
      (KeyPair.signatureFlag ||| KeyPair.decryptionFlag) =
        KeyPair.signatureFlag ||| KeyPair.decryptionFlag := by decide
  have hsign : KeyPair.signatureFlag &&& (KeyPair.signatureFlag ||| KeyPair.decryptionFlag) =
      KeyPair.signatureFlag := by decide
  have hne : KeyPair.signatureFlag ≠ KeyPair.signatureFlag ||| KeyPair.decryptionFlag := by decide
  rw [hsize]
  unfold containerPair
  by_cases hzero : word16 (memory 4) (memory 5) = 0
  · simp only [if_pos hzero, hkind, and_true]
    by_cases h1024 : word16 (memory 6) (memory 7) = 0x400
    · rw [if_pos h1024, if_pos (.inl h1024)]
      exact hbits i hi 0x10 (by decide)
    · rw [if_neg h1024, if_neg (fun h => h1024 h.1)]
      by_cases h2048 : word16 (memory 6) (memory 7) = 0x800
      · rw [if_pos h2048, if_pos (.inr h2048)]
        exact hbits i hi 0x30 (by decide)
      · rw [if_neg h2048, if_neg (fun h => h2048 h.1), if_neg (fun h => h.elim h1024 h2048), KeyPair.container]
        simp only [hold]
        decide
  · simp only [if_neg hzero, hsign, hne, and_false, if_false, and_true]
    by_cases h1024 : word16 (memory 4) (memory 5) = 0x400
    · rw [if_pos h1024, if_pos (.inl h1024)]
      exact hbits i hi 0x20 (by decide)
    · rw [if_neg h1024]
      by_cases h2048 : word16 (memory 4) (memory 5) = 0x800
      · rw [if_pos h2048, if_pos (.inr h2048)]
        exact hbits i hi 0x40 (by decide)
      · rw [if_neg h2048, if_neg (fun h => h.elim h1024 h2048), KeyPair.container]
        simp only [hold]
        decide

theorem containerPair_hasCert (i : Nat) (memory : Mem) (old : KeyPair) :
    (containerPair i memory old).hasCert = false := by
  unfold containerPair
  simp only [apply_ite KeyPair.hasCert, ite_self]

/-- The pairs of the first `i` records are in the table, `n` of them. -/
structure Collected (image : CertImage) (channel : UInt8) (i n : Nat) (m : Mias) : Prop where
  ready : Ready channel m
  count_le : n ≤ i
  keypairsNum_eq : m.keypairsNum = (n : Int) - 1
  unused : ∀ j, n ≤ j → m.keypairs j = .zero
  unlinked : ∀ j, j < n → (m.keypairs j).hasCert = false
  container_iff : ∀ c : Nat, (∃ j, j < n ∧ (m.keypairs j).container = c) ↔ c < i ∧ image.Holder c

section Containers

variable {σ : Type} {T : Transport σ} {image : CertImage} {channel : UInt8} {current : σ → Nat}
  {s : Linked σ Mias} {i n : Nat} {m : Mias} {record : List UInt8}

theorem Collected.holder_iff (hrecord : image.containers[i]? = some record) : image.Holder i ↔ IsRsaRecord record := by
  constructor
  · rintro ⟨record', hrecord', hrsa⟩
    rw [hrecord] at hrecord'
    cases hrecord'
    exact hrsa
  · exact fun hrsa => ⟨record, hrecord, hrsa⟩

/-- A record that is not valid adds nothing. -/
theorem Collected.skip (h : Collected image channel i n m) (hrecord : image.containers[i]? = some record)
    (hinvalid : record.getD 0 0 = 0) : Collected image channel (i + 1) n m where
  ready := h.ready
  count_le := Nat.le_succ_of_le h.count_le
  keypairsNum_eq := h.keypairsNum_eq
  unused := h.unused
  unlinked := h.unlinked
  container_iff c := by
    have hnot : ¬image.Holder i := by
      rw [Collected.holder_iff hrecord]
      exact fun hrsa => hrsa.1 hinvalid
    rw [h.container_iff]
    constructor
    · exact fun hc => ⟨by omega, hc.2⟩
    · rintro ⟨hlt, hholder⟩
      have hne : c ≠ i := by
        rintro rfl
        exact hnot hholder
      exact ⟨by omega, hholder⟩

/-- A valid record adds its pair. -/
theorem Collected.add (h : Collected image channel i n m) (hi : i < 15)
    (hrecord : image.containers[i]? = some record) (hvalid : record.getD 0 0 ≠ 0) {memory : Mem}
    (hmemory : ∀ k, k < 0x0B → memory k = record.getD k 0) :
    Collected image channel (i + 1) (n + 1) (addPair i memory m) := by
  have hindex : (m.keypairsNum + 1).toNat = n := by
    rw [h.keypairsNum_eq]
    omega
  have hpairs : (addPair i memory m).keypairs =
      Function.update m.keypairs n (containerPair i memory (m.keypairs n)) := by
    rw [addPair]
    simp only [hindex]
  have hold : (m.keypairs n).kid = 0 := by
    rw [h.unused n (Nat.le_refl n)]
    rfl
  have hcontainer := containerPair_container hi hmemory hold
  have hother : ∀ j, j ≠ n → (addPair i memory m).keypairs j = m.keypairs j := by
    intro j hj
    rw [hpairs, Function.update_of_ne hj]
  have hthis : (addPair i memory m).keypairs n = containerPair i memory (m.keypairs n) := by
    rw [hpairs, Function.update_self]
  refine ⟨h.ready.congr rfl, Nat.succ_le_succ h.count_le, ?_, ?_, ?_, ?_⟩
  · show m.keypairsNum + 1 = _
    rw [h.keypairsNum_eq]
    omega
  · intro j hj
    rw [hother j (by omega), h.unused j (by omega)]
  · intro j hj
    by_cases hlast : j = n
    · rw [hlast, hthis, containerPair_hasCert]
    · rw [hother j hlast, h.unlinked j (by omega)]
  · intro c
    have hsplit : (∃ j, j < n + 1 ∧ ((addPair i memory m).keypairs j).container = c) ↔
        (∃ j, j < n ∧ (m.keypairs j).container = c) ∨ (containerPair i memory (m.keypairs n)).container = c := by
      constructor
      · rintro ⟨j, hj, heq⟩
        by_cases hlast : j = n
        · rw [hlast, hthis] at heq
          exact .inr heq
        · rw [hother j hlast] at heq
          exact .inl ⟨j, by omega, heq⟩
      · rintro (⟨j, hj, heq⟩ | heq)
        · exact ⟨j, by omega, by rw [hother j (by omega)]; exact heq⟩
        · exact ⟨n, by omega, by rw [hthis]; exact heq⟩
    rw [hsplit, h.container_iff, hcontainer]
    by_cases hrsa : keySize record = 1024 ∨ keySize record = 2048
    · have hholder : image.Holder i := (Collected.holder_iff hrecord).mpr ⟨hvalid, hrsa⟩
      rw [if_pos hrsa]
      constructor
      · rintro (⟨hlt, hc⟩ | heq)
        · exact ⟨by omega, hc⟩
        · obtain rfl : i = c := by omega
          exact ⟨by omega, hholder⟩
      · rintro ⟨hlt, hc⟩
        by_cases hlast : c = i
        · exact .inr (by rw [hlast])
        · exact .inl ⟨by omega, hc⟩
    · have hnot : ¬image.Holder i := by
        rw [Collected.holder_iff hrecord]
        exact fun h => hrsa h.2
      rw [if_neg hrsa]
      constructor
      · rintro (⟨hlt, hc⟩ | heq)
        · exact ⟨by omega, hc⟩
        · omega
      · rintro ⟨hlt, hc⟩
        have hne : c ≠ i := by
          rintro rfl
          exact hnot hc
        exact .inl ⟨by omega, hc⟩

/-- A turn of the CONTAINERS_INFO loop behind a read that was accepted. -/
def recordTurn (x : Nat × Nat) (record : Mem) : Exec (Linked σ Mias) (Turn (Nat × Nat) Unit) := do
  let next := ((x.1 + 1) % 256, (x.2 + 0x0B) % 65536)
  if record 0 ≠ 0 then
    if (keyPoolSize : Int) - 1 ≤ (← gets fun s => s.obj.keypairsNum) then
      return .stop ()
    else
      setObj (addPair x.1 record)
      return .again next
  else
    return .again next

theorem containerTurn_accepted {size : Nat} {x : Nat × Nat} (hmore : x.2 < size) {s s₁ : Linked σ Mias}
    (hread : Evals (onApplet (readBinary T x.2 0x0B)) s true s₁)
    (hword : Evals (onApplet (gets Applet.getStatusWord)) s₁ swOK s₁) {turn : Turn (Nat × Nat) Unit}
    {post : Linked σ Mias → Prop} (h : Yields (recordTurn x s₁.se.response) s₁ turn post) :
    Yields (containerTurn T size x) s turn post := by
  obtain ⟨s', hrest, hpost⟩ := h
  refine ⟨s', ?_, hpost⟩
  unfold containerTurn
  rw [if_pos hmore]
  apply hread.bind
  rw [if_pos rfl]
  apply hword.bind
  rw [if_pos rfl]
  exact Evals.gets.bind hrest

/-- One record: the table has its pair, and the loop goes on behind it. -/
theorem containerTurn_collected (h : image.ServedBy T channel current) {done left : List (List UInt8)} {next : List UInt8}
    (hsplit : image.containers = done ++ next :: left) (hcollected : Collected image channel done.length n s.obj)
    (hcurrent : current s.se.card = containersId) :
    Yields (containerTurn T (image.contents containersId).length (done.length, done.length * 0x0B)) s
      (.again ((done.length + 1) % 256, (done.length * 0x0B + 0x0B) % 65536))
      fun s' => (∃ n', Collected image channel (done.length + 1) n' s'.obj) ∧ current s'.se.card = containersId := by
  have hfew := image.containers_few
  have hsize : (image.contents containersId).length = image.containers.length * 0x0B := by
    rw [image.containers_eq, flatten_length image.container_length]
  have hlength : image.containers.length = done.length + (left.length + 1) := by
    rw [hsplit, List.length_append, List.length_cons]
  have hnext : next.length = 0x0B := image.container_length next (by rw [hsplit]; simp)
  have hdone : ∀ r ∈ done, r.length = 0x0B := fun r hmem =>
    image.container_length r (by rw [hsplit]; exact List.mem_append_left _ hmem)
  have hrecord : image.containers[done.length]? = some next := by
    rw [hsplit, List.getElem?_append_right (Nat.le_refl _), Nat.sub_self]
    rfl
  have hcontent : image.contents containersId = done.flatten ++ next ++ left.flatten := by
    rw [image.containers_eq, hsplit]
    simp
  have hle : (0x0B : UInt8).toNat = next.length := by
    rw [hnext]
    rfl
  have hread := h.reads.readField hcollected.ready ⟨rfl, hcurrent⟩ hcontent (by omega)
    (flatten_length hdone).symm hle (by omega) (fun hshort => hshort.1 rfl)
  have hi : done.length < 15 := by omega
  obtain ⟨s₁, hsent, ⟨⟨hobj, hcurrent₁⟩, hholds⟩, hword⟩ := sent_of_ok hread
  have hstatus : Evals (onApplet (gets Applet.getStatusWord)) s₁ swOK s₁ := by
    refine .of_eq fun fuel => ?_
    show (Outcome.done (Applet.getStatusWord ⟨s₁.se, s₁.obj.applet⟩), s₁) = _
    rw [hword]
  have hmemory : ∀ k, k < 0x0B → s₁.se.response k = next.getD k 0 := fun k hk => hholds.data_eq (by omega)
  have hmore : done.length * 0x0B < (image.contents containersId).length := by omega
  refine containerTurn_accepted (x := (done.length, done.length * 0x0B)) hmore hsent hstatus ?_
  unfold recordTurn
  rw [hmemory 0 (by decide)]
  rw [← hobj] at hcollected
  by_cases hvalid : next.getD 0 0 = 0
  · rw [if_neg (fun hne => hne hvalid)]
    exact .pure ⟨⟨n, hcollected.skip hrecord hvalid⟩, hcurrent₁⟩
  · rw [if_pos hvalid]
    apply Yields.gets_bind
    have hroom : ¬(keyPoolSize : Int) - 1 ≤ s₁.obj.keypairsNum := by
      have := hcollected.count_le
      rw [hcollected.keypairsNum_eq]
      simp only [keyPoolSize]
      omega
    rw [if_neg hroom]
    apply Yields.modify_bind
    exact .pure ⟨⟨n + 1, hcollected.add hi hrecord hvalid hmemory⟩, hcurrent₁⟩

/-- The CONTAINERS_INFO loop over the records that are left. -/
theorem containerTurn_cycles (h : image.ServedBy T channel current) {done left : List (List UInt8)}
    (hsplit : image.containers = done ++ left) (hcollected : Collected image channel done.length n s.obj)
    (hcurrent : current s.se.card = containersId) :
    Cycles (containerTurn T (image.contents containersId).length) (done.length, done.length * 0x0B) s ()
      fun s' => ∃ n, Collected image channel image.containers.length n s'.obj := by
  have hfew := image.containers_few
  have hsize : (image.contents containersId).length = image.containers.length * 0x0B := by
    rw [image.containers_eq, flatten_length image.container_length]
  induction left generalizing done n s with
  | nil =>
      rw [List.append_nil] at hsplit
      apply Cycles.stop
      unfold containerTurn
      rw [if_neg (by rw [hsize, hsplit]; simp)]
      exact .pure ⟨n, by rw [hsplit]; exact hcollected⟩
  | cons next left ih =>
      have hlength : image.containers.length = done.length + (left.length + 1) := by
        rw [hsplit, List.length_append, List.length_cons]
      refine .again (containerTurn_collected h hsplit hcollected hcurrent) ?_
      rintro s' ⟨⟨n', hcollected'⟩, hcurrent'⟩
      have hlist : image.containers = (done ++ [next]) ++ left := by
        rw [hsplit]
        simp
      have hrest := ih (n := n') hlist (by simpa using hcollected') hcurrent'
      have hnumber : (done.length + 1) % 256 = (done ++ [next]).length := by
        rw [List.length_append, List.length_singleton]
        omega
      have hoffset : (done.length * 0x0B + 0x0B) % 65536 = (done ++ [next]).length * 0x0B := by
        rw [List.length_append, List.length_singleton]
        omega
      rw [hnumber, hoffset]
      exact hrest

end Containers

/-! ### The certificates of the key pairs -/

/-- The key pairs are listed, and the directory records `done` are linked. -/
structure Tabled (image : CertImage) (channel : UInt8) (done : List (List UInt8)) (m : Mias) : Prop where
  ready : Ready channel m
  found_iff : ∀ c : Nat, (∃ j, m.findContainer c = some j) ↔ image.Holder c
  linked_eq : ∀ (container : Int) (j : Nat), m.findContainer container = some j →
    match (done.filter fun record => LooksLikeEntry container record).getLast? with
    | none => (m.keypairs j).hasCert = false
    | some record => (m.keypairs j).hasCert = true ∧ (m.keypairs j).pubFileId = (record.getD 0 0, record.getD 1 0)

section Certificates

variable {σ : Type} {T : Transport σ} {image : CertImage} {channel : UInt8} {current : σ → Nat}
  {s : Linked σ Mias} {m : Mias} {record : List UInt8} {memory : Mem}

theorem container_of_findContainer {container : Int} {j : Nat} (h : m.findContainer container = some j) :
    (m.keypairs j).container = container := by
  simpa using List.find?_some h

/-- The table behind the CONTAINERS_INFO loop. -/
theorem Collected.tabled {n : Nat} (h : Collected image channel image.containers.length n m) :
    Tabled image channel [] { m with keypairsNum := m.keypairsNum + 1 } := by
  have hcount : (m.keypairsNum + 1).toNat = n := by
    rw [h.keypairsNum_eq]
    omega
  have hfind : ∀ container : Int, Mias.findContainer { m with keypairsNum := m.keypairsNum + 1 } container =
      (List.range n).find? fun index => (m.keypairs index).container = container := by
    intro container
    rw [findContainer]
    simp only [hcount]
  refine ⟨h.ready.congr rfl, ?_, ?_⟩
  · intro c
    rw [hfind]
    have hlength : image.Holder c → c < image.containers.length := by
      rintro ⟨record, hrecord, _⟩
      exact (List.getElem?_eq_some_iff.mp hrecord).1
    rw [← and_iff_right_of_imp hlength, ← h.container_iff, ← Option.isSome_iff_exists, List.find?_isSome]
    simp
  · intro container j hj
    rw [hfind] at hj
    exact h.unlinked j (List.mem_range.mp (List.mem_of_find?_eq_some hj))

/-- The bytes that tell what a directory record is. -/
theorem isCertificateRecord_congr {memory memory' : Mem} (h : ∀ k, k < 0x15 → memory k = memory' k) :
    isCertificateRecord memory = isCertificateRecord memory' ∧ recordContainer memory = recordContainer memory' := by
  have hslice : ∀ start count, start + count ≤ 0x15 → memory.slice start count = memory'.slice start count :=
    fun start count hle => Mem.slice_congr fun index hindex => h (start + index) (by omega)
  constructor
  · rw [isCertificateRecord, isCertificateRecord, hslice 12 4 (by decide), hslice 4 3 (by decide)]
  · rw [recordContainer, recordContainer, h 7 (by decide), h 8 (by decide)]

/-- Linking a record changes no container number. -/
theorem linkRecord_findContainer (memory : Mem) (m : Mias) (container : Int) :
    (linkRecord memory m).findContainer container = m.findContainer container := by
  have hsame : (linkRecord memory m).keypairsNum = m.keypairsNum ∧
      ∀ j, ((linkRecord memory m).keypairs j).container = (m.keypairs j).container := by
    unfold linkRecord
    split
    · split
      · rename_i index _
        refine ⟨rfl, fun j => ?_⟩
        by_cases hj : j = index
        · simp only [hj, Function.update_self]
          rfl
        · simp only [Function.update_of_ne hj]
      · exact ⟨rfl, fun _ => rfl⟩
    · exact ⟨rfl, fun _ => rfl⟩
  rw [findContainer, findContainer, hsame.1]
  congr 1
  funext j
  rw [hsame.2 j]

/-- One more record. The pair it is linked to is the one of its container number. -/
theorem Tabled.link {done : List (List UInt8)} (h : Tabled image channel done m)
    (hmemory : ∀ k, k < 0x15 → memory k = record.getD k 0) (hlength : record.length = 0x15) :
    Tabled image channel (done ++ [record]) (linkRecord memory m) := by
  have hbyte : ∀ k, k < 0x15 → memory k = (Mem.zero.write 0 record) k := by
    intro k hk
    rw [hmemory k hk, Mem.write_of_mem (Nat.zero_le k) (by omega), Nat.sub_zero]
  obtain ⟨hkind, hnumber⟩ := isCertificateRecord_congr hbyte
  refine ⟨?_, ?_, ?_⟩
  · unfold linkRecord
    split
    · split
      · exact h.ready.congr rfl
      · exact h.ready
    · exact h.ready
  · intro c
    rw [linkRecord_findContainer]
    exact h.found_iff c
  · intro container j hj
    rw [linkRecord_findContainer] at hj
    have hbefore := h.linked_eq container j hj
    rw [List.filter_append]
    by_cases hlooks : LooksLikeEntry container record
    · -- the record is the last one of this container
      have hfilter : ([record].filter fun record => LooksLikeEntry container record) = [record] := by
        simp [hlooks]
      rw [hfilter, List.getLast?_concat]
      have hpair : (linkRecord memory m).keypairs j =
          { m.keypairs j with pubFileId := (memory 0, memory 1), hasCert := true } := by
        rw [linkRecord, if_pos (by rw [hkind]; exact hlooks.1), hnumber, hlooks.2, hj]
        simp only [Function.update_self]
      rw [hpair]
      exact ⟨rfl, by rw [hmemory 0 (by decide), hmemory 1 (by decide)]⟩
    · have hfilter : ([record].filter fun record => LooksLikeEntry container record) = [] := by
        simp [hlooks]
      have hpair : (linkRecord memory m).keypairs j = m.keypairs j := by
        unfold linkRecord
        split
        · rename_i hcertificate
          split
          · rename_i index hindex
            have hne : j ≠ index := by
              rintro rfl
              apply hlooks
              refine ⟨by rw [← hkind]; exact hcertificate, ?_⟩
              rw [← hnumber, ← container_of_findContainer hindex, container_of_findContainer hj]
            simp only [Function.update_of_ne hne]
          · rfl
        · rfl
      rw [hfilter, List.append_nil, hpair]
      exact hbefore

/-- The FILE_DIR loop over the records that are left. -/
theorem linkLoop_attains (h : image.ServedBy T channel current) {done left : List (List UInt8)}
    (hrecords : image.records = done ++ left) (htabled : Tabled image channel done s.obj)
    (hcurrent : current s.se.card = directoryId) :
    Attains (linkLoop T left.length (1 + done.length * 0x15)) s
      fun _ s' => Tabled image channel image.records s'.obj := by
  induction left generalizing done s with
  | nil =>
      rw [List.append_nil] at hrecords
      rw [hrecords]
      exact .pure htabled
  | cons next left ih =>
      have hfew := image.records_few
      rw [hrecords, List.length_append, List.length_cons] at hfew
      obtain ⟨hnext, front, behind, hcontent, hoffset⟩ := directory_record image.slack image.record_length hrecords
      rw [← image.directory] at hcontent
      have hle : (0x15 : UInt8).toNat = next.length := by
        rw [hnext]
        rfl
      have hsize := (image.template directoryId (.inr (.inl rfl))).2.2
      have hread := h.reads.readField htabled.ready ⟨rfl, hcurrent⟩ hcontent (by omega) hoffset hle
        (by omega) (fun hshort => hshort.2 rfl)
      apply hread.bind_attains
      rintro s₁ ⟨⟨hobj, hcurrent₁⟩, hholds⟩
      rw [if_pos rfl]
      apply Attains.gets_bind
      apply Attains.modify_bind
      have hmemory : ∀ k, k < 0x15 → s₁.se.response k = next.getD k 0 := fun k hk => hholds.data_eq (by omega)
      have hlist : image.records = (done ++ [next]) ++ left := by
        rw [hrecords]
        simp
      have hlinked : Tabled image channel (done ++ [next]) (linkRecord s₁.se.response s₁.obj) := by
        rw [hobj]
        exact htabled.link hmemory hnext
      have hrest := ih (s := ⟨s₁.se, linkRecord s₁.se.response s₁.obj⟩) hlist hlinked hcurrent₁
      have hstep : (1 + done.length * 0x15 + 0x15) % 65536 = 1 + (done ++ [next]).length * 0x15 := by
        rw [List.length_append, List.length_singleton]
        omega
      rw [hstep]
      exact hrest

/-- SELECT delivers the template of the file. -/
theorem selectFileLe_yields (h : image.ServedBy T channel current) (hready : Ready channel s.obj) {efid : Nat}
    (hpresent : image.Present efid) {le : UInt8} (hle : le = 0x15 ∨ le = 0x1C) :
    Yields (ok (selectFileLe T [highByte efid, lowByte efid] le)) s true
      fun s' => Rests current efid s.obj s' ∧ Holds s'.se (image.templates efid ++ [0x90, 0x00]) := by
  obtain ⟨card, hsettles, hcurrent⟩ := h.selects s.se.card efid le hpresent hle
  have hfits : 5 + [highByte efid, lowByte efid].length + 1 ≤ apduSize := by
    show 5 + 2 + 1 ≤ apduSize
    decide
  refine (transmitCase4_yields hready hfits hsettles).mono ?_
  rintro s' ⟨hobj, hcard, hholds⟩
  exact ⟨⟨hobj, by rw [hcard]; exact hcurrent⟩, hholds⟩

/-- Listing from an empty table links every record of the directory. -/
theorem listKeyPairs_attains (h : image.ServedBy T channel current) (hready : Ready channel s.obj)
    (hnum : s.obj.keypairsNum = -1) (hzero : ∀ j, s.obj.keypairs j = .zero) :
    Attains (listKeyPairs T) s fun _ s' => Tabled image channel image.records s'.obj := by
  apply Attains.gets_bind
  rw [if_neg (by rw [hnum]; simp)]
  have hpresent : image.Present containersId := .inl rfl
  obtain ⟨htemplate, _, hsize⟩ := image.template containersId hpresent
  apply (selectFileLe_yields h hready hpresent (.inl rfl)).bind_attains
  rintro s₁ ⟨⟨hobj, hcurrent⟩, hholds⟩
  rw [if_pos rfl]
  have hready₁ : Ready channel s₁.obj := hobj ▸ hready
  have hlength : Yields (onApplet (gets Applet.getResponseLength)) s₁ (image.templates containersId).length
      (· = s₁) := by
    refine ⟨s₁, .of_eq fun fuel => ?_, rfl⟩
    show (Outcome.done (Applet.getResponseLength ⟨s₁.se, s₁.obj.applet⟩), s₁) = _
    rw [Applet.getResponseLength, Applet.getResponse, if_pos hready₁.isSelected, hholds.getResponse,
      responseData_append]
  apply hlength.bind_attains
  intro s₂ hs₂
  subst hs₂
  apply Attains.gets_bind
  have htag : s₂.se.response 0 = SCTag.FileControlInfoFCP := by
    obtain ⟨tlvs, htlvs, _⟩ := htemplate
    rw [htlvs] at hholds
    rw [hholds.2 0 (by simp)]
    rfl
  rw [if_pos ⟨htemplate.two_lt_length, htag⟩]
  have hfcp : Yields (onSE (fcpFileSize 0)) s₂ (image.contents containersId).length (· = s₂) := by
    refine Yields.zoom (fcpFileSize_yields htemplate (by omega) hholds 0) ?_
    rintro se rfl
    rfl
  apply hfcp.bind_attains
  intro s₃ hs₃
  subst hs₃
  -- the key pairs
  have hempty : Collected image channel ([] : List (List UInt8)).length 0 s₃.obj := by
    refine ⟨hready₁, Nat.le_refl 0, by rw [hobj, hnum]; rfl, fun j _ => by rw [hobj, hzero],
      fun j hj => absurd hj (Nat.not_lt_zero j), fun c => ?_⟩
    simp
  have hsplit : image.containers = [] ++ image.containers := rfl
  apply (containerTurn_cycles h hsplit hempty hcurrent).loop.bind_attains
  rintro s₄ ⟨n, hcollected⟩
  apply Attains.modify_bind
  -- the certificates
  have htabled := hcollected.tabled
  have hdirectory : image.Present directoryId := .inr (.inl rfl)
  have hselect := selectFileLe_yields (s := ⟨s₄.se, { s₄.obj with keypairsNum := s₄.obj.keypairsNum + 1 }⟩) h
    htabled.ready hdirectory (.inl rfl)
  suffices Attains (linkCertificates T) ⟨s₄.se, { s₄.obj with keypairsNum := s₄.obj.keypairsNum + 1 }⟩
      fun _ s' => Tabled image channel image.records s'.obj by
    apply this.bind
    intro _ s' hs'
    exact .pure hs'
  apply hselect.bind_attains
  rintro s₅ ⟨hs₅, _⟩
  rw [if_pos rfl]
  have hcount : image.contents directoryId =
      [] ++ [lowByte image.records.length] ++ (image.records.flatten ++ image.slack) := by
    rw [image.directory]
    simp
  have hle : (0x01 : UInt8).toNat = [lowByte image.records.length].length := rfl
  have hdirectorySize := (image.template directoryId hdirectory).2.2
  apply (h.reads.readField htabled.ready hs₅ hcount (by omega) rfl hle Nat.one_pos
    (fun hshort => hshort.2 rfl)).bind_attains
  rintro s₆ ⟨⟨hobj₆, hcurrent₆⟩, hholds₆⟩
  rw [if_pos rfl]
  apply Attains.gets_bind
  have htoNat : (s₆.se.response 0).toNat = image.records.length := by
    have hfew := image.records_few
    rw [hholds₆.2 0 (by simp)]
    exact toNat_lowByte (by omega)
  rw [htoNat]
  have hrecords : image.records = [] ++ image.records := rfl
  exact linkLoop_attains h hrecords (hobj₆ ▸ htabled) hcurrent₆

end Certificates

end TrustOnboard.Mias
