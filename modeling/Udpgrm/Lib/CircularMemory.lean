import Mathlib.Algebra.Order.Ring.Nat
import Mathlib.Data.List.Basic
import Mathlib.Tactic.Common

/-!
Memory of `size` cells addressed by ever growing positions: position `i` lies in cell
`i % size`, so a write reuses the cells of positions that are `size` behind it.
-/
namespace CircularMemory

variable {α : Type*} {size : ℕ} {m : ℕ → α} {pos n q : ℕ} {bs : List α}

def read (size : ℕ) (m : ℕ → α) (pos n : ℕ) : List α :=
  (List.range n).map fun i => m ((pos + i) % size)

def write (size : ℕ) (m : ℕ → α) (pos : ℕ) : List α → ℕ → α
  | [] => m
  | b :: bs => write size (Function.update m (pos % size) b) (pos + 1) bs

@[simp] theorem length_read : (read size m pos n).length = n := by simp [read]

theorem read_succ : read size m pos (n + 1) = m (pos % size) :: read size m (pos + 1) n := by
  simp only [read, List.range_succ_eq_map, List.map_cons, List.map_map, Nat.add_zero]
  congr 2
  funext i
  simp [Nat.add_assoc, Nat.add_comm 1]

theorem take_read {k : ℕ} (h : k ≤ n) : (read size m pos n).take k = read size m pos k := by
  rw [read, ← List.map_take, List.take_range, Nat.min_eq_left h]
  rfl

theorem read_add_size : read size m (pos + size) n = read size m pos n := by
  apply List.map_congr_left
  intro i _
  rw [Nat.add_right_comm, Nat.add_mod_right]

theorem read_congr {m' : ℕ → α} (h : ∀ i < n, m ((pos + i) % size) = m' ((pos + i) % size)) :
    read size m pos n = read size m' pos n := by
  apply List.map_congr_left
  intro i hi
  exact h i (List.mem_range.mp hi)

/-- Two positions share a cell only if they are a lap apart. -/
theorem mod_ne (h : q < pos) (hlap : pos < q + size) : q % size ≠ pos % size := by
  intro he
  have hpos := Nat.div_add_mod pos size
  have hq := Nat.div_add_mod q size
  rw [he] at hq
  have hlt : q / size < pos / size := by
    by_contra hge
    have := Nat.mul_le_mul_left size (Nat.le_of_not_lt hge)
    omega
  have := Nat.mul_le_mul_left size hlt
  rw [Nat.mul_succ] at this
  omega

/-- A write keeps every cell that it does not reach. -/
theorem write_of_ne (h : ∀ i < bs.length, (pos + i) % size ≠ q) :
    write size m pos bs q = m q := by
  induction bs generalizing m pos with
  | nil => rfl
  | cons b bs ih =>
    have h0 : q ≠ pos % size := fun he => h 0 (by simp) he.symm
    rw [write, ih]
    · exact Function.update_of_ne h0 _ _
    · intro i hi
      have := h (i + 1) (by simpa using hi)
      rwa [Nat.add_right_comm, Nat.add_assoc]

/-- Positions behind a write keep their contents for a lap. -/
theorem write_behind (h : q < pos) (hlap : pos + bs.length ≤ q + size) :
    write size m pos bs (q % size) = m (q % size) := by
  apply write_of_ne
  intro i hi he
  have hne : q % size ≠ (pos + i) % size := mod_ne (by omega) (by omega)
  exact hne he.symm

theorem read_write_behind (h : q + n ≤ pos) (hlap : pos + bs.length ≤ q + size) :
    read size (write size m pos bs) q n = read size m q n :=
  read_congr fun i hi => write_behind (by omega) (by omega)

theorem read_write_self (h : bs.length ≤ size) :
    read size (write size m pos bs) pos bs.length = bs := by
  induction bs generalizing m pos with
  | nil => rfl
  | cons b bs ih =>
    have hlen : bs.length + 1 ≤ size := h
    rw [List.length_cons, read_succ, write, ih (by omega), write_behind (by omega) (by omega),
      Function.update_self]

end CircularMemory
