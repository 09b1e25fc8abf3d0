import Udpgrm.Lib.LittleEndian

/-! Big-endian numbers in byte strings. -/
namespace BigEndian

open LittleEndian (field)

def toNat (bs : List UInt8) : ℕ := LittleEndian.toNat bs.reverse

/-- The low `k` bytes of a number, the highest first. -/
def ofNat (k n : ℕ) : List UInt8 := (LittleEndian.ofNat k n).reverse

def u16 (bytes : List UInt8) (off : ℕ) : UInt16 := UInt16.ofNat (toNat (field bytes off 2))
def u32 (bytes : List UInt8) (off : ℕ) : UInt32 := UInt32.ofNat (toNat (field bytes off 4))
def u64 (bytes : List UInt8) (off : ℕ) : UInt64 := UInt64.ofNat (toNat (field bytes off 8))

@[simp] theorem length_ofNat (k n : ℕ) : (ofNat k n).length = k := by
  simp [ofNat]

theorem toNat_ofNat (k n : ℕ) : toNat (ofNat k n) = n % 256 ^ k := by
  rw [toNat, ofNat, List.reverse_reverse, LittleEndian.toNat_ofNat]

theorem toNat_lt (bs : List UInt8) : toNat bs < 256 ^ bs.length := by
  have hlt := LittleEndian.toNat_lt bs.reverse
  rwa [List.length_reverse] at hlt

theorem toNat_append (a b : List UInt8) : toNat (a ++ b) = toNat a * 256 ^ b.length + toNat b := by
  rw [toNat, List.reverse_append, LittleEndian.toNat_append, List.length_reverse, Nat.mul_comm,
    Nat.add_comm]
  rfl

theorem ofNat_append (m n x : ℕ) : ofNat (m + n) x = ofNat m (x / 256 ^ n) ++ ofNat n x := by
  rw [ofNat, Nat.add_comm, LittleEndian.ofNat_append, List.reverse_append]
  rfl

theorem ofNat_toNat (bs : List UInt8) : ofNat bs.length (toNat bs) = bs := by
  rw [ofNat, toNat, ← List.length_reverse, LittleEndian.ofNat_toNat, List.reverse_reverse]

theorem ofNat_mod_self (k x : ℕ) : ofNat k (x % 256 ^ k) = ofNat k x := by
  rw [ofNat, LittleEndian.ofNat_mod_self, ofNat]

/-- Reversing the bytes of a number twice. -/
theorem toNat_reversed_twice {k n : ℕ} (h : n < 256 ^ k) :
    toNat (LittleEndian.ofNat k (toNat (LittleEndian.ofNat k n))) = n := by
  have hbytes : LittleEndian.ofNat k (toNat (LittleEndian.ofNat k n)) =
      (LittleEndian.ofNat k n).reverse := by
    have hof := LittleEndian.ofNat_toNat (LittleEndian.ofNat k n).reverse
    rwa [List.length_reverse, LittleEndian.length_ofNat] at hof
  rw [hbytes, toNat, List.reverse_reverse, LittleEndian.toNat_ofNat, Nat.mod_eq_of_lt h]

end BigEndian
