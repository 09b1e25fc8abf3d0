import Mathlib.Algebra.Order.Ring.Nat
import Mathlib.Tactic.Common
import Mathlib.Tactic.Ring

/-! Little-endian numbers in byte strings, and byte fields at an offset. -/
namespace LittleEndian

def toNat : List UInt8 → ℕ
  | [] => 0
  | b :: bs => b.toNat + 256 * toNat bs

/-- The low `k` bytes of a number. -/
def ofNat : ℕ → ℕ → List UInt8
  | 0, _ => []
  | k + 1, n => UInt8.ofNat n :: ofNat k (n / 256)

@[simp] theorem length_ofNat (k n : ℕ) : (ofNat k n).length = k := by
  induction k generalizing n with
  | zero => rfl
  | succ k ih => simp [ofNat, ih]

theorem toNat_ofNat (k n : ℕ) : toNat (ofNat k n) = n % 256 ^ k := by
  induction k generalizing n with
  | zero => simp [ofNat, toNat, Nat.mod_one]
  | succ k ih =>
    have h : (UInt8.ofNat n).toNat = n % 256 := by simp
    rw [ofNat, toNat, ih, h, pow_succ', Nat.mod_mul]

theorem ofNat_toNat (bs : List UInt8) : ofNat bs.length (toNat bs) = bs := by
  induction bs with
  | nil => rfl
  | cons b bs ih =>
    have hb := b.toNat_lt
    have hhead : UInt8.ofNat (b.toNat + 256 * toNat bs) = b := by
      apply UInt8.toNat_inj.mp
      rw [UInt8.toNat_ofNat']
      omega
    have htail : (b.toNat + 256 * toNat bs) / 256 = toNat bs := by omega
    rw [List.length_cons, ofNat, toNat, hhead, htail, ih]

theorem toNat_lt (bs : List UInt8) : toNat bs < 256 ^ bs.length := by
  induction bs with
  | nil => simp [toNat]
  | cons b bs ih =>
    have hb := b.toNat_lt
    rw [toNat, List.length_cons, pow_succ]
    omega

theorem toNat_eq_zero {bs : List UInt8} (h : ∀ b ∈ bs, b = 0) : toNat bs = 0 := by
  induction bs with
  | nil => rfl
  | cons b bs ih =>
    have hb : b = 0 := h b (by simp)
    have hbs := ih fun c hc => h c (by simp [hc])
    rw [toNat, hb, hbs]
    rfl

theorem toNat_append (a b : List UInt8) : toNat (a ++ b) = toNat a + 256 ^ a.length * toNat b := by
  induction a with
  | nil => simp [toNat]
  | cons x a ih =>
    rw [List.cons_append, toNat, ih, toNat, List.length_cons, pow_succ]
    ring

theorem ofNat_append (m n x : ℕ) : ofNat (m + n) x = ofNat m x ++ ofNat n (x / 256 ^ m) := by
  induction m generalizing x with
  | zero => simp [ofNat]
  | succ m ih =>
    rw [Nat.add_right_comm, ofNat, ih, ofNat, List.cons_append, Nat.div_div_eq_div_mul, ← pow_succ']

theorem take_ofNat {k n : ℕ} (h : k ≤ n) (x : ℕ) : (ofNat n x).take k = ofNat k x := by
  have happ := ofNat_append k (n - k) x
  rw [Nat.add_sub_cancel' h] at happ
  rw [happ, List.take_left' (length_ofNat k x)]

theorem ofNat_mod_self (k x : ℕ) : ofNat k (x % 256 ^ k) = ofNat k x := by
  induction k generalizing x with
  | zero => rfl
  | succ k ih =>
    have hhead : UInt8.ofNat (x % 256 ^ (k + 1)) = UInt8.ofNat x := by
      apply UInt8.toNat_inj.mp
      rw [UInt8.toNat_ofNat', UInt8.toNat_ofNat', pow_succ', Nat.mod_mul_right_mod]
    rw [ofNat, ofNat, hhead, pow_succ', Nat.mod_mul_right_div_self, ih]

theorem ofNat_zero (k : ℕ) : ofNat k 0 = List.replicate k 0 := by
  induction k with
  | zero => rfl
  | succ k ih => rw [ofNat, List.replicate_succ, Nat.zero_div, ih]; rfl

theorem ofNat_mul_pow (m n x : ℕ) :
    ofNat (m + n) (x * 256 ^ m) = List.replicate m 0 ++ ofNat n x := by
  have hpos : 0 < 256 ^ m := Nat.pow_pos (by decide)
  rw [ofNat_append, ← ofNat_mod_self, Nat.mul_mod_left, ofNat_zero, Nat.mul_div_cancel _ hpos]

theorem ofNat_mod {k n : ℕ} (h : k ≤ n) (x : ℕ) :
    ofNat n (x % 256 ^ k) = ofNat k x ++ List.replicate (n - k) 0 := by
  have hlt : x % 256 ^ k < 256 ^ k := Nat.mod_lt _ (Nat.pow_pos (by decide))
  have hn : n = k + (n - k) := by omega
  nth_rewrite 1 [hn]
  rw [ofNat_append, ofNat_mod_self, Nat.div_eq_of_lt hlt, ofNat_zero]

theorem ofNat_xor (k x y : ℕ) :
    ofNat k (x ^^^ y) = List.zipWith (· ^^^ ·) (ofNat k x) (ofNat k y) := by
  induction k generalizing x y with
  | zero => rfl
  | succ k ih =>
    have hhead : UInt8.ofNat (x ^^^ y) = UInt8.ofNat x ^^^ UInt8.ofNat y := by
      apply UInt8.toNat_inj.mp
      rw [UInt8.toNat_xor, UInt8.toNat_ofNat', UInt8.toNat_ofNat', UInt8.toNat_ofNat',
        Nat.xor_mod_two_pow]
    have htail : (x ^^^ y) / 256 = x / 256 ^^^ y / 256 := Nat.xor_div_two_pow (n := 8)
    rw [ofNat, ofNat, ofNat, List.zipWith_cons_cons, hhead, htail, ih]

theorem getD_xor {a b : List UInt8} (h : a.length = b.length) (i : ℕ) :
    (List.zipWith (· ^^^ ·) a b).getD i 0 = a.getD i 0 ^^^ b.getD i 0 := by
  by_cases hi : i < a.length <;> simp [List.getD_eq_getElem?_getD, hi, h ▸ hi]

theorem xor_xor_cancel {a b : List UInt8} (h : a.length = b.length) :
    List.zipWith (· ^^^ ·) (List.zipWith (· ^^^ ·) a b) b = a := by
  apply List.ext_getElem (by simp [h])
  intro i hi hi'
  rw [List.getElem_zipWith, List.getElem_zipWith, UInt8.xor_assoc, UInt8.xor_self, UInt8.xor_zero]

/-- The bytes `off .. off + n` of a string, short where it ends. -/
def field (bytes : List UInt8) (off n : ℕ) : List UInt8 := (bytes.drop off).take n

def u16 (bytes : List UInt8) (off : ℕ) : UInt16 := UInt16.ofNat (toNat (field bytes off 2))
def u32 (bytes : List UInt8) (off : ℕ) : UInt32 := UInt32.ofNat (toNat (field bytes off 4))
def u64 (bytes : List UInt8) (off : ℕ) : UInt64 := UInt64.ofNat (toNat (field bytes off 8))

theorem length_field {bytes : List UInt8} {off n : ℕ} (h : off + n ≤ bytes.length) :
    (field bytes off n).length = n := by
  rw [field, List.length_take, List.length_drop]
  omega

/-- A field is known by its bytes. -/
theorem field_eq {bytes bs : List UInt8} {off n : ℕ} (hl : bs.length = n)
    (hn : off + n ≤ bytes.length) (h : ∀ i < n, bytes.getD (off + i) 0 = bs.getD i 0) :
    field bytes off n = bs := by
  apply List.ext_getElem ((length_field hn).trans hl.symm)
  intro i hi hi'
  have hbyte := h i (hl ▸ hi')
  rw [List.getD_eq_getElem?_getD, List.getD_eq_getElem?_getD, List.getElem?_eq_getElem (by omega),
    List.getElem?_eq_getElem hi'] at hbyte
  simpa [field] using hbyte

theorem field_append_field (bytes : List UInt8) (off m n : ℕ) :
    field bytes off m ++ field bytes (off + m) n = field bytes off (m + n) := by
  rw [field, field, field, ← List.drop_drop, List.take_add]

theorem field_take {bytes : List UInt8} {off n k : ℕ} (h : off + n ≤ k) :
    field (bytes.take k) off n = field bytes off n := by
  rw [field, field, List.drop_take, List.take_take, Nat.min_eq_left (by omega)]

theorem field_append_left {a : List UInt8} (b : List UInt8) {n : ℕ} (h : a.length = n) :
    field (a ++ b) 0 n = a := by
  rw [field, List.drop_zero, List.take_left' h]

theorem field_append_right {a : List UInt8} (b : List UInt8) {k off n : ℕ}
    (h : a.length + k = off) : field (a ++ b) off n = field b k n := by
  rw [field, field, ← h, List.drop_length_add_append]

/-- The string with the bytes from `off` on replaced by `bs`. -/
def patch (bytes : List UInt8) (off : ℕ) (bs : List UInt8) : List UInt8 :=
  bytes.take off ++ bs ++ bytes.drop (off + bs.length)

section Patch

variable {bytes bs : List UInt8} {off k n : ℕ}

theorem length_patch (h : off + bs.length ≤ bytes.length) :
    (patch bytes off bs).length = bytes.length := by
  simp only [patch, List.length_append, List.length_take, List.length_drop]
  omega

theorem field_patch_self (h : off ≤ bytes.length) :
    field (patch bytes off bs) off bs.length = bs := by
  have hlen : (bytes.take off).length = off := by simp [h]
  rw [field, patch, List.append_assoc, List.drop_left' hlen, List.take_left' rfl]

theorem field_patch_before (h : k + n ≤ off) (hoff : off ≤ bytes.length) :
    field (patch bytes off bs) k n = field bytes k n := by
  rw [field, field, patch, List.append_assoc, List.drop_append_of_le_length (by simp; omega),
    List.take_append_of_le_length (by simp; omega), List.drop_take, List.take_take]
  congr 1
  omega

theorem getD_patch {i : ℕ} (h : off + bs.length ≤ bytes.length) :
    (patch bytes off bs).getD i 0 =
      if off ≤ i ∧ i < off + bs.length then bs.getD (i - off) 0 else bytes.getD i 0 := by
  have hlen : (bytes.take off).length = off := by simp; omega
  simp only [patch, List.getD_eq_getElem?_getD]
  by_cases hlo : i < off
  · rw [if_neg (by omega), List.append_assoc, List.getElem?_append_left (by omega),
      List.getElem?_take_of_lt hlo]
  · by_cases hhi : i < off + bs.length
    · rw [if_pos ⟨by omega, hhi⟩, List.getElem?_append_left (by simp; omega),
        List.getElem?_append_right (by omega), hlen]
    · have hpre : (bytes.take off ++ bs).length = off + bs.length := by simp; omega
      rw [if_neg (by omega), List.getElem?_append_right (by omega), hpre, List.getElem?_drop]
      congr 2
      omega

theorem patch_append {a b : List UInt8} (h : a.length = off) :
    patch (a ++ b) off bs = a ++ bs ++ b.drop bs.length := by
  subst h
  rw [patch, List.take_left' rfl, List.drop_length_add_append]

end Patch

/-! ### Several fields at once -/

/-- A list of offsets with the bytes to store there. -/
abbrev Writes := List (ℕ × List UInt8)

def patches (bytes : List UInt8) (ws : Writes) : List UInt8 :=
  ws.foldl (fun b w => patch b w.1 w.2) bytes

/-- The writes go upwards from `lo`, do not overlap and end before `n`. -/
def Ascending (n : ℕ) : ℕ → Writes → Prop
  | lo, [] => lo ≤ n
  | lo, w :: ws => lo ≤ w.1 ∧ Ascending n (w.1 + w.2.length) ws

instance (n lo : ℕ) (ws : Writes) : Decidable (Ascending n lo ws) := by
  induction ws generalizing lo with
  | nil => exact inferInstanceAs (Decidable (lo ≤ n))
  | cons w ws ih =>
    have := ih (w.1 + w.2.length)
    exact inferInstanceAs (Decidable (lo ≤ w.1 ∧ Ascending n (w.1 + w.2.length) ws))

section Patches

variable {bytes bs : List UInt8} {ws : Writes} {lo off k n : ℕ}

theorem Ascending.le (h : Ascending n lo ws) : lo ≤ n := by
  induction ws generalizing lo with
  | nil => exact h
  | cons w ws ih => exact h.1.trans (le_trans (Nat.le_add_right ..) (ih h.2))

theorem Ascending.mem_le (h : Ascending n lo ws) (hw : (off, bs) ∈ ws) : off + bs.length ≤ n := by
  induction ws generalizing lo with
  | nil => simp at hw
  | cons w ws ih =>
    rcases List.mem_cons.mp hw with rfl | hw
    · exact h.2.le
    · exact ih h.2 hw

theorem Ascending.length_patch {w : ℕ × List UInt8} (h : Ascending bytes.length lo (w :: ws)) :
    (patch bytes w.1 w.2).length = bytes.length :=
  LittleEndian.length_patch h.2.le

theorem length_patches (h : Ascending bytes.length lo ws) :
    (patches bytes ws).length = bytes.length := by
  induction ws generalizing bytes lo with
  | nil => rfl
  | cons w ws ih => exact (ih (h.length_patch ▸ h.2)).trans h.length_patch

/-- What lies below all writes stays. -/
theorem field_patches_below (h : Ascending bytes.length lo ws) (hk : k + n ≤ lo) :
    field (patches bytes ws) k n = field bytes k n := by
  induction ws generalizing bytes lo with
  | nil => rfl
  | cons w ws ih =>
    have hrest := h.2.le
    have hlo := h.1
    have hlater : field (patches (patch bytes w.1 w.2) ws) k n = field (patch bytes w.1 w.2) k n :=
      ih (h.length_patch ▸ h.2) (by omega)
    exact hlater.trans (field_patch_before (by omega) (by omega))

/-- Every write is found again. -/
theorem field_patches_mem (h : Ascending bytes.length lo ws) (hw : (off, bs) ∈ ws) :
    field (patches bytes ws) off bs.length = bs := by
  induction ws generalizing bytes lo with
  | nil => simp at hw
  | cons w ws ih =>
    have hrest : Ascending (patch bytes w.1 w.2).length (w.1 + w.2.length) ws :=
      h.length_patch ▸ h.2
    rcases List.mem_cons.mp hw with rfl | hw
    · exact (field_patches_below hrest le_rfl).trans (field_patch_self (by have := h.2.le; omega))
    · exact ih hrest hw

end Patches

/-! ### Fields that hold numbers -/

section Numbers

variable {bytes : List UInt8} {off : ℕ}

theorem u16_eq {x : UInt16} (h : field bytes off 2 = ofNat 2 x.toNat) : u16 bytes off = x := by
  have hx : x.toNat < 256 ^ 2 := x.toNat_lt
  rw [u16, h, toNat_ofNat, Nat.mod_eq_of_lt hx, UInt16.ofNat_toNat]

theorem u32_eq {x : UInt32} (h : field bytes off 4 = ofNat 4 x.toNat) : u32 bytes off = x := by
  have hx : x.toNat < 256 ^ 4 := x.toNat_lt
  rw [u32, h, toNat_ofNat, Nat.mod_eq_of_lt hx, UInt32.ofNat_toNat]

/-- Storing a number that was read gives its bytes back. -/
theorem ofNat_toNat_field {n : ℕ} (h : off + n ≤ bytes.length) :
    ofNat n (toNat (field bytes off n)) = field bytes off n := by
  have hof := ofNat_toNat (field bytes off n)
  rwa [length_field h] at hof

theorem toNat_field_lt {n : ℕ} (h : off + n ≤ bytes.length) :
    toNat (field bytes off n) < 256 ^ n := by
  have hlt := toNat_lt (field bytes off n)
  rwa [length_field h] at hlt

theorem ofNat_u16 (h : off + 2 ≤ bytes.length) :
    ofNat 2 (u16 bytes off).toNat = field bytes off 2 := by
  have hlt := toNat_field_lt h
  rw [u16, UInt16.toNat_ofNat', Nat.mod_eq_of_lt (by omega), ofNat_toNat_field h]

theorem ofNat_u32 (h : off + 4 ≤ bytes.length) :
    ofNat 4 (u32 bytes off).toNat = field bytes off 4 := by
  have hlt := toNat_field_lt h
  rw [u32, UInt32.toNat_ofNat', Nat.mod_eq_of_lt (by omega), ofNat_toNat_field h]

theorem u64_eq {x : UInt64} (h : field bytes off 8 = ofNat 8 x.toNat) : u64 bytes off = x := by
  have hx : x.toNat < 256 ^ 8 := x.toNat_lt
  rw [u64, h, toNat_ofNat, Nat.mod_eq_of_lt hx, UInt64.ofNat_toNat]

end Numbers

end LittleEndian
