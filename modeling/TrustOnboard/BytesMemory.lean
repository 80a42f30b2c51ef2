import Mathlib.Algebra.Ring.Nat
import Mathlib.Tactic.Common

/-! Byte memory and fixed-width numbers. A `Mem` is the memory behind a pointer, indexed from the
pointed-to byte; copying writes a list of bytes at an index and leaves the rest alone. Sixteen-bit
quantities are natural numbers reduced modulo `2 ^ 16` where the modelled code stores them. -/

/-- The bytes behind a pointer. -/
def Mem : Type := Nat → UInt8

namespace Mem

/-- Memory that holds zero bytes only. -/
def zero : Mem := fun _ => 0

/-- Copy `data` to index `start` and following. -/
def write (memory : Mem) (start : Nat) (data : List UInt8) : Mem := fun index =>
  if start ≤ index ∧ index < start + data.length then data.getD (index - start) 0 else memory index

/-- The `count` bytes from index `start` on. -/
def slice (memory : Mem) (start count : Nat) : List UInt8 :=
  (List.range count).map fun index => memory (start + index)

theorem write_of_mem {memory : Mem} {start index : Nat} {data : List UInt8}
    (hlow : start ≤ index) (hhigh : index < start + data.length) :
    memory.write start data index = data.getD (index - start) 0 := by
  rw [write, if_pos ⟨hlow, hhigh⟩]

theorem write_of_lt {memory : Mem} {start index : Nat} {data : List UInt8} (h : index < start) :
    memory.write start data index = memory index := by
  rw [write, if_neg]
  omega

theorem write_of_ge {memory : Mem} {start index : Nat} {data : List UInt8}
    (h : start + data.length ≤ index) : memory.write start data index = memory index := by
  rw [write, if_neg]
  omega

@[simp] theorem write_nil (memory : Mem) (start : Nat) : memory.write start [] = memory := by
  funext index
  rw [write, if_neg]
  simp only [List.length_nil]
  omega

/-- Copying byte by byte. -/
theorem write_cons (memory : Mem) (start : Nat) (c : UInt8) (data : List UInt8) :
    (memory.write start [c]).write (start + 1) data = memory.write start (c :: data) := by
  funext index
  simp only [write, List.length_cons, List.length_nil]
  by_cases hlow : index < start
  · rw [if_neg (by omega), if_neg (by omega), if_neg (by omega)]
  · by_cases hfirst : index = start
    · rw [if_neg (by omega), if_pos (by omega), if_pos (by omega), hfirst]
      simp
    · obtain ⟨k, rfl⟩ : ∃ k, index = start + (k + 1) := ⟨index - start - 1, by omega⟩
      have hthis : start + (k + 1) - (start + 1) = k := by omega
      have hthat : start + (k + 1) - start = k + 1 := by omega
      by_cases hin : k < data.length
      · rw [if_pos (by omega), if_pos (by omega), hthis, hthat, List.getD_cons_succ]
      · rw [if_neg (by omega), if_neg (by omega), if_neg (by omega)]

/-- Copying in pieces. -/
theorem write_append (memory : Mem) (start : Nat) (first second : List UInt8) :
    (memory.write start first).write (start + first.length) second = memory.write start (first ++ second) := by
  induction first generalizing memory start with
  | nil => simp
  | cons c first ih =>
      rw [← write_cons, List.cons_append, ← write_cons memory start c (first ++ second), ← ih, List.length_cons,
        Nat.add_assoc, Nat.add_comm 1]

@[simp] theorem slice_length (memory : Mem) (start count : Nat) :
    (memory.slice start count).length = count := by
  simp [slice]

theorem slice_getD (memory : Mem) {start count index : Nat} (h : index < count) :
    (memory.slice start count).getD index 0 = memory (start + index) := by
  simp [slice, List.getD_eq_getElem?_getD, List.getElem?_range h]

theorem slice_congr {left right : Mem} {start count : Nat}
    (h : ∀ index, index < count → left (start + index) = right (start + index)) :
    left.slice start count = right.slice start count := by
  apply List.map_congr_left
  intro index hindex
  exact h index (List.mem_range.mp hindex)

theorem slice_add (memory : Mem) (start first second : Nat) :
    memory.slice start (first + second) = memory.slice start first ++ memory.slice (start + first) second := by
  simp only [slice, List.range_add, List.map_append, List.map_map, Function.comp_def, Nat.add_assoc]

/-- The first bytes and the others. -/
theorem slice_split (memory : Mem) {first count : Nat} (h : first ≤ count) :
    memory.slice 0 count = memory.slice 0 first ++ memory.slice first (count - first) := by
  have hsplit := memory.slice_add 0 first (count - first)
  rwa [Nat.add_sub_cancel' h, Nat.zero_add] at hsplit

theorem slice_succ (memory : Mem) (start count : Nat) :
    memory.slice start (count + 1) = memory start :: memory.slice (start + 1) count := by
  rw [Nat.add_comm, slice_add]
  rfl

/-- What was copied is read back. -/
theorem slice_write_self (memory : Mem) (start : Nat) (data : List UInt8) :
    (memory.write start data).slice start data.length = data := by
  apply List.ext_getElem
  · simp
  · intro index hindex hdata
    simp only [slice, List.getElem_map, List.getElem_range]
    rw [write_of_mem (by omega) (by omega), Nat.add_sub_cancel_left]
    simp [List.getD_eq_getElem?_getD, List.getElem?_eq_getElem hdata]

/-- The first bytes of a copy are the first bytes of the data. -/
theorem slice_write_take (memory : Mem) (start : Nat) {data : List UInt8} {count : Nat}
    (h : count ≤ data.length) : (memory.write start data).slice start count = data.take count := by
  apply List.ext_getElem
  · simp [h]
  · intro index hindex hdata
    rw [slice_length] at hindex
    simp only [slice, List.getElem_map, List.getElem_range, List.getElem_take]
    rw [write_of_mem (by omega) (by omega), Nat.add_sub_cancel_left]
    simp [List.getD_eq_getElem?_getD, List.getElem?_eq_getElem (by omega : index < data.length)]

/-- Bytes in the middle of a copy are bytes in the middle of the data. -/
theorem slice_write_drop (memory : Mem) {data : List UInt8} {start count : Nat}
    (h : start + count ≤ data.length) : (memory.write 0 data).slice start count = (data.drop start).take count := by
  apply List.ext_getElem
  · simp
    omega
  · intro index hindex hdata
    rw [slice_length] at hindex
    simp only [slice, List.getElem_map, List.getElem_range, List.getElem_take, List.getElem_drop]
    rw [write_of_mem (by omega) (by omega), Nat.sub_zero]
    simp [List.getD_eq_getElem?_getD, List.getElem?_eq_getElem (by omega : start + index < data.length)]

/-- A copy behind a slice does not change it. -/
theorem slice_write_behind (memory : Mem) (data : List UInt8) {start count index : Nat}
    (h : start + count ≤ index) : (memory.write index data).slice start count = memory.slice start count :=
  slice_congr fun _ _ => write_of_lt (by omega)

end Mem

/-! ### Fixed-width numbers -/

/-- The low byte of a number. -/
def lowByte (n : Nat) : UInt8 := UInt8.ofNat n

/-- The byte above the low byte. -/
def highByte (n : Nat) : UInt8 := UInt8.ofNat (n / 256)

/-- A property of all bytes, from the 256 cases. -/
theorem forall_byte {p : UInt8 → Prop} (h : ∀ n : Fin 256, p (UInt8.ofNat n)) (byte : UInt8) : p byte := by
  have hcase := h ⟨byte.toNat, byte.toNat_lt⟩
  rwa [show UInt8.ofNat (⟨byte.toNat, byte.toNat_lt⟩ : Fin 256) = byte by simp] at hcase

theorem toNat_lowByte {n : Nat} (h : n < 256) : (lowByte n).toNat = n := by
  rw [lowByte, UInt8.toNat_ofNat', Nat.mod_eq_of_lt h]

/-- The big-endian number of two bytes. -/
def word16 (high low : UInt8) : Nat := high.toNat * 256 + low.toNat

theorem word16_lt (high low : UInt8) : word16 high low < 65536 := by
  have := high.toNat_lt
  have := low.toNat_lt
  rw [word16]
  omega

theorem word16_bytes {n : Nat} (h : n < 65536) : word16 (highByte n) (lowByte n) = n := by
  simp only [word16, highByte, lowByte, UInt8.toNat_ofNat']
  omega

/-- The big-endian number of any number of bytes. -/
def bigEndian (bytes : List UInt8) : Nat := bytes.foldl (fun n byte => n * 256 + byte.toNat) 0

/-- Reading on from a number that is there already. -/
theorem foldl_bigEndian (bytes : List UInt8) (start : Nat) :
    bytes.foldl (fun n byte => n * 256 + byte.toNat) start = start * 256 ^ bytes.length + bigEndian bytes := by
  induction bytes generalizing start with
  | nil => simp [bigEndian]
  | cons byte bytes ih =>
      have hcons : bigEndian (byte :: bytes) = byte.toNat * 256 ^ bytes.length + bigEndian bytes := by
        rw [bigEndian, List.foldl_cons, ih, Nat.zero_mul, Nat.zero_add]
      rw [List.foldl_cons, ih, hcons, List.length_cons, Nat.pow_succ, Nat.add_mul, Nat.mul_comm (256 ^ _),
        Nat.mul_assoc,
        Nat.add_assoc]

theorem bigEndian_append (first second : List UInt8) :
    bigEndian (first ++ second) = bigEndian first * 256 ^ second.length + bigEndian second := by
  rw [bigEndian, List.foldl_append, foldl_bigEndian]
  rfl

/-- Reading in sixteen bits. -/
theorem foldl_mod (bytes : List UInt8) {start : Nat} (h : start < 65536) :
    bytes.foldl (fun n byte => (n * 256 + byte.toNat) % 65536) start =
      (start * 256 ^ bytes.length + bigEndian bytes) % 65536 := by
  have hmod : ∀ n, bytes.foldl (fun n byte => (n * 256 + byte.toNat) % 65536) (n % 65536) =
      bytes.foldl (fun n byte => n * 256 + byte.toNat) n % 65536 := by
    induction bytes with
    | nil => exact fun n => rfl
    | cons byte bytes ih =>
        intro n
        have hstep : (n % 65536 * 256 + byte.toNat) % 65536 = (n * 256 + byte.toNat) % 65536 := by omega
        rw [List.foldl_cons, List.foldl_cons, hstep, ih]
  rw [← Nat.mod_eq_of_lt h, hmod, foldl_bigEndian, Nat.mod_eq_of_lt h]
