import Mathlib.Data.List.Basic
import Mathlib.Data.List.GetD
import Mathlib.Tactic.Common
import Udpgrm.Lib.LittleEndian

/-! Memory of a fixed size, with loads and stores of byte strings. -/
namespace ByteMemory

abbrev Memory (n : ℕ) := Vector UInt8 n

variable {n : ℕ} {m : Memory n} {off i k len : ℕ} {bs : List UInt8}

def byte (m : Memory n) (i : ℕ) : UInt8 := m.toList.getD i 0

def load (m : Memory n) (off len : ℕ) : List UInt8 :=
  (List.range len).map fun i => byte m (off + i)

/-- The bytes of the string that lie inside the memory are written. -/
def store (m : Memory n) (off : ℕ) (bs : List UInt8) : Memory n :=
  Vector.ofFn fun i => if off ≤ i.val ∧ i.val < off + bs.length then bs.getD (i - off) 0 else m[i]

theorem byte_of_lt (h : i < n) : byte m i = m[i] := by
  have hl : i < m.toList.length := by simpa using h
  rw [byte, List.getD_eq_getElem _ _ hl, Vector.getElem_toList]

theorem byte_of_le (h : n ≤ i) : byte m i = 0 :=
  List.getD_eq_default _ _ (by simpa using h)

theorem byte_store_of_mem (h : off ≤ i) (hlt : i < off + bs.length) (hi : i < n) :
    byte (store m off bs) i = bs.getD (i - off) 0 := by
  rw [byte_of_lt hi, store, Vector.getElem_ofFn, if_pos ⟨h, hlt⟩]

theorem byte_store_of_not_mem (h : i < off ∨ off + bs.length ≤ i) :
    byte (store m off bs) i = byte m i := by
  by_cases hi : i < n
  · have hn : ¬(off ≤ i ∧ i < off + bs.length) := by omega
    rw [byte_of_lt hi, byte_of_lt hi, store, Vector.getElem_ofFn, if_neg hn]
    rfl
  · rw [byte_of_le (by omega), byte_of_le (by omega)]

@[simp] theorem length_load : (load m off len).length = len := by simp [load]

theorem load_getD (h : i < len) : (load m off len).getD i 0 = byte m (off + i) := by
  rw [List.getD_eq_getElem _ _ (by simpa using h)]
  simp [load]

/-- A load is known by its bytes. -/
theorem load_eq (hl : bs.length = len) (h : ∀ i < len, byte m (off + i) = bs.getD i 0) :
    load m off len = bs := by
  apply List.ext_getElem (by simp [hl])
  intro i hi hi'
  have hlen : i < len := by simpa using hi
  have := h i hlen
  rw [List.getD_eq_getElem _ _ hi'] at this
  simpa [load] using this

theorem load_store_self (h : off + bs.length ≤ n) : load (store m off bs) off bs.length = bs := by
  apply load_eq rfl
  intro i hi
  rw [byte_store_of_mem (by omega) (by omega) (by omega), Nat.add_sub_cancel_left]

theorem load_store_of_disjoint (h : k + len ≤ off ∨ off + bs.length ≤ k) :
    load (store m off bs) k len = load m k len := by
  apply List.map_congr_left
  intro i hi
  have hi := List.mem_range.mp hi
  exact byte_store_of_not_mem (by omega)

/-- A store inside of what is loaded. -/
theorem load_store_inside (h : k + bs.length ≤ len) (hn : off + len ≤ n) :
    load (store m (off + k) bs) off len = LittleEndian.patch (load m off len) k bs := by
  have hlen : (LittleEndian.patch (load m off len) k bs).length = len := by
    rw [LittleEndian.length_patch (by simpa using h), length_load]
  apply load_eq hlen
  intro i hi
  rw [LittleEndian.getD_patch (by simpa using h), load_getD hi]
  by_cases hin : k ≤ i ∧ i < k + bs.length
  · rw [if_pos hin, byte_store_of_mem (by omega) (by omega) (by omega)]
    congr 1
    omega
  · rw [if_neg hin, byte_store_of_not_mem (by omega)]

/-- A memory is known by its bytes. -/
theorem toList_eq (hl : bs.length = n) (h : ∀ i < n, byte m i = bs.getD i 0) : m.toList = bs := by
  apply List.ext_getElem (by simp [hl])
  intro i hi hi'
  have hbyte := h i (hl ▸ hi')
  rwa [byte_of_lt (hl ▸ hi'), List.getD_eq_getElem _ _ hi', ← Vector.getElem_toList] at hbyte

theorem toList_store (h : off + bs.length ≤ n) :
    (store m off bs).toList = LittleEndian.patch m.toList off bs := by
  have hle : off + bs.length ≤ m.toList.length := by simpa using h
  apply toList_eq (by rw [LittleEndian.length_patch hle, Vector.length_toList])
  intro i hi
  rw [LittleEndian.getD_patch hle]
  by_cases hin : off ≤ i ∧ i < off + bs.length
  · rw [if_pos hin, byte_store_of_mem hin.1 hin.2 hi]
  · rw [if_neg hin, byte_store_of_not_mem (by omega), byte]

/-- The memory that holds a string. -/
def filled (n : ℕ) (bs : List UInt8) : Memory n := Vector.ofFn fun i => bs.getD i.val 0

theorem toList_filled (h : bs.length = n) : (filled n bs).toList = bs := by
  apply List.ext_getElem (by simp [h])
  intro i hi hi'
  simp [filled, hi']

end ByteMemory
