import Mathlib.Algebra.Order.Ring.Nat
import Mathlib.Data.Fin.Basic
import Mathlib.Tactic.Common
import Mathlib.Tactic.Ring

/-! Table dimensions, the row of an (application, generation) pair, and udpgrm cookies. -/
namespace Udpgrm

abbrev MAX_SOCKETS_IN_GEN : ℕ := 256
abbrev MAX_GENS : ℕ := 32
abbrev MAX_APPS : ℕ := 4
abbrev MAX_INSTR : ℕ := 64
abbrev LABEL_SZ : ℕ := 100

instance (priority := high) neZero_MAX_SOCKETS_IN_GEN : NeZero MAX_SOCKETS_IN_GEN := ⟨by decide⟩
instance (priority := high) neZero_MAX_GENS : NeZero MAX_GENS := ⟨by decide⟩
instance (priority := high) neZero_MAX_APPS : NeZero MAX_APPS := ⟨by decide⟩

abbrev Row := Fin MAX_GENS
abbrev Slot := Fin MAX_SOCKETS_IN_GEN

/-- The C value -1 in an unsigned 32-bit field: no generation, no index. -/
abbrev UNSET : UInt32 := 0xffffffff

def genRow (gen : UInt32) : Row := Fin.ofNat MAX_GENS gen.toNat
def idxSlot (idx : UInt32) : Slot := Fin.ofNat MAX_SOCKETS_IN_GEN idx.toNat

/-- `slot_size` of TO_WRK_GEN. Division by a number of applications above 32 leaves zero. -/
def slotSize (maxApps : UInt32) : UInt32 := 32 / (if maxApps = 0 then 1 else maxApps)

/-- TO_WRK_GEN as eBPF computes it: a modulo by zero keeps the dividend. -/
def toWrkGen (maxApps appIdx workingGen : UInt32) : UInt32 :=
  appIdx * slotSize maxApps + workingGen % slotSize maxApps

/-- TO_WRK_GEN in a userspace process, where a modulo by zero is fatal. -/
def toWrkGen? (maxApps appIdx workingGen : UInt32) : Option UInt32 :=
  if slotSize maxApps = 0 then none else some (toWrkGen maxApps appIdx workingGen)

/-- The row that a registration goes to. -/
def registeredRow (maxApps app gen : UInt32) : Row := genRow (toWrkGen maxApps app gen)

/-- The number of applications that own rows: a group without applications has one. -/
def numApps (maxApps : UInt32) : ℕ := if maxApps = 0 then 1 else maxApps.toNat

theorem numApps_pos (m : UInt32) : 0 < numApps m := by
  unfold numApps
  split
  · exact Nat.one_pos
  · rename_i h
    exact Nat.pos_of_ne_zero fun h0 => h (UInt32.toNat_inj.mp h0)

theorem slotSize_toNat (m : UInt32) : (slotSize m).toNat = 32 / numApps m := by
  unfold slotSize numApps
  split <;> simp

theorem slotSize_eq_zero_iff {m : UInt32} : slotSize m = 0 ↔ 32 < m.toNat := by
  rw [← UInt32.toNat_inj, slotSize_toNat, UInt32.toNat_zero, Nat.div_eq_zero_iff]
  unfold numApps
  split
  · rename_i h
    simp [h]
  · rename_i h
    have : m.toNat ≠ 0 := fun h0 => h (UInt32.toNat_inj.mp h0)
    omega

/-- The rows of the applications of a group tile a prefix of the 32 rows. -/
theorem toWrkGen_toNat {m a : UInt32} (g : UInt32) (hm : m.toNat ≤ 32)
    (ha : a.toNat < numApps m) :
    (toWrkGen m a g).toNat = a.toNat * (32 / numApps m) + g.toNat % (32 / numApps m) ∧
      (toWrkGen m a g).toNat < MAX_GENS := by
  have hn : numApps m ≤ 32 := by unfold numApps; split <;> omega
  have hs : 0 < 32 / numApps m := Nat.div_pos hn (numApps_pos m)
  have hr : g.toNat % (32 / numApps m) < 32 / numApps m := Nat.mod_lt _ hs
  have hb : a.toNat * (32 / numApps m) + 32 / numApps m ≤ 32 := by
    calc a.toNat * (32 / numApps m) + 32 / numApps m
        = (a.toNat + 1) * (32 / numApps m) := by ring
      _ ≤ numApps m * (32 / numApps m) := Nat.mul_le_mul_right _ ha
      _ ≤ 32 := Nat.mul_div_le 32 (numApps m)
  have hv : (toWrkGen m a g).toNat =
      a.toNat * (32 / numApps m) + g.toNat % (32 / numApps m) := by
    simp only [toWrkGen, UInt32.toNat_add, UInt32.toNat_mul, UInt32.toNat_mod, slotSize_toNat]
    rw [Nat.mod_eq_of_lt (a := a.toNat * _) (by omega), Nat.mod_eq_of_lt (by omega)]
  exact ⟨hv, by simp only [MAX_GENS]; omega⟩

theorem genRow_val (g : UInt32) : (genRow g).val = g.toNat % 32 := rfl

theorem genRow_toWrkGen {m a : UInt32} (g : UInt32) (hm : m.toNat ≤ 32)
    (ha : a.toNat < numApps m) :
    (genRow (toWrkGen m a g)).val =
      a.toNat * (32 / numApps m) + g.toNat % (32 / numApps m) := by
  obtain ⟨hv, hlt⟩ := toWrkGen_toNat g hm ha
  rw [genRow_val, Nat.mod_eq_of_lt hlt, hv]

/-- Two pairs share a row only within one application and one residue of the generation. -/
theorem genRow_toWrkGen_inj {m a b g h : UInt32} (hm : m.toNat ≤ 32)
    (ha : a.toNat < numApps m) (hb : b.toNat < numApps m) :
    genRow (toWrkGen m a g) = genRow (toWrkGen m b h) ↔
      a = b ∧ g.toNat % (32 / numApps m) = h.toNat % (32 / numApps m) := by
  rw [Fin.ext_iff, genRow_toWrkGen g hm ha, genRow_toWrkGen h hm hb]
  have hn : numApps m ≤ 32 := by unfold numApps; split <;> omega
  have hs : 0 < 32 / numApps m := Nat.div_pos hn (numApps_pos m)
  constructor
  · intro he
    have hq := congrArg (· / (32 / numApps m)) he
    have hr := congrArg (· % (32 / numApps m)) he
    simp only [Nat.mod_mod, Nat.add_comm (_ * _), Nat.add_mul_div_right _ _ hs,
      Nat.add_mul_mod_self_right, Nat.div_eq_of_lt (Nat.mod_lt _ hs), Nat.zero_add] at hq hr
    exact ⟨UInt32.toNat_inj.mp hq, hr⟩
  · rintro ⟨rfl, hr⟩
    rw [hr]

/-- With at most one application the row is the generation modulo the row count. -/
theorem genRow_toWrkGen_single {m g : UInt32} (hm : m.toNat ≤ 1) :
    genRow (toWrkGen m 0 g) = genRow g := by
  have hn : numApps m = 1 := by
    unfold numApps
    split
    · rfl
    · rename_i h
      have : m.toNat ≠ 0 := fun h0 => h (UInt32.toNat_inj.mp h0)
      omega
  apply Fin.ext
  rw [genRow_toWrkGen g (by omega) (by simp [hn]), hn, genRow_val]
  simp

/-- Successive generations of a single application never share a row, wrap-around included. -/
theorem genRow_succ_ne (g : UInt32) : genRow (g + 1) ≠ genRow g := by
  intro h
  have := congrArg Fin.val h
  simp only [genRow_val, UInt32.toNat_add, UInt32.toNat_one] at this
  omega

theorem genRow_add_two_ne (g : UInt32) : genRow (g + 1 + 1) ≠ genRow g := by
  intro h
  have := congrArg Fin.val h
  simp only [genRow_val, UInt32.toNat_add, UInt32.toNat_one] at this
  omega

/-! ### The 16-bit udpgrm cookie -/

def grmCookieCs (sockGen sockIdx : UInt32) : UInt8 :=
  let cs := ((0xD : UInt32) ^^^ ((sockIdx >>> 4) &&& (0xF : UInt32)) ^^^
    (sockIdx &&& (0xF : UInt32)) ^^^ ((sockGen >>> 4) &&& (0xF : UInt32)) ^^^
    (sockGen &&& (0xF : UInt32))).toUInt8
  (cs &&& (0x7 : UInt8)) ^^^ ((cs >>> 3) &&& (0x1 : UInt8))

def grmCookieUnpack (grmCookie : UInt16) : Option (UInt32 × UInt32) :=
  let sockGen := (grmCookie &&& (0x1f : UInt16)).toUInt32
  let sockIdx := ((grmCookie >>> 8) &&& (0xff : UInt16)).toUInt32
  let csFromCookie := ((grmCookie &&& (0xff : UInt16)) >>> 5).toUInt8
  if csFromCookie ≠ grmCookieCs sockGen sockIdx then none else some (sockGen, sockIdx)

/-- The two bytes that `grm_cookie_pack` fills, read back as a little-endian number. -/
def grmCookiePack (sockGen sockIdx : UInt32) : UInt16 :=
  let sockGen := sockGen &&& (0x1F : UInt32)
  let sockIdx := sockIdx &&& (0xFF : UInt32)
  let cs := grmCookieCs sockGen sockIdx
  let v0 := (sockGen &&& (0x1F : UInt32)).toUInt8 ||| (cs <<< 5)
  let v1 := (sockIdx &&& (0xFF : UInt32)).toUInt8
  v0.toUInt16 ||| (v1.toUInt16 <<< 8)

theorem grmCookieCs_lt (g i : UInt32) : (grmCookieCs g i).toNat < 8 := by
  simp only [grmCookieCs, UInt8.toNat_xor, UInt8.toNat_and]
  apply Nat.xor_lt_two_pow (n := 3)
  · exact lt_of_le_of_lt Nat.and_le_right (by decide)
  · exact lt_of_le_of_lt Nat.and_le_right (by decide)

/-- Generation, checksum and index occupy disjoint bits of the cookie. -/
theorem grmCookiePack_toNat (g i : UInt32) :
    (grmCookiePack g i).toNat = g.toNat % 32 +
      32 * (grmCookieCs (g &&& (0x1F : UInt32)) (i &&& (0xFF : UInt32))).toNat +
      256 * (i.toNat % 256) := by
  have hcs := grmCookieCs_lt (g &&& (0x1F : UInt32)) (i &&& (0xFF : UInt32))
  have hg : ∀ x : ℕ, x &&& 0x1F = x % 32 := fun x => Nat.and_two_pow_sub_one_eq_mod x 5
  have hi : ∀ x : ℕ, x &&& 0xFF = x % 256 := fun x => Nat.and_two_pow_sub_one_eq_mod x 8
  simp only [grmCookiePack, UInt16.toNat_or, UInt8.toNat_toUInt16, UInt8.toNat_or,
    UInt16.toNat_shiftLeft, UInt8.toNat_shiftLeft, UInt32.toNat_toUInt8, UInt32.toNat_and]
  generalize (grmCookieCs (g &&& (0x1F : UInt32)) (i &&& (0xFF : UInt32))).toNat = cs at *
  simp only [UInt32.reduceToNat, UInt8.reduceToNat, UInt16.reduceToNat, hg, hi,
    Nat.reduceMod, Nat.shiftLeft_eq, Nat.reducePow]
  have hlo := Nat.two_pow_add_eq_or_of_lt (i := 5) (b := g.toNat % 32) (by omega) cs
  have hhi := Nat.two_pow_add_eq_or_of_lt (i := 8) (b := g.toNat % 32 + 32 * cs) (by omega)
    (i.toNat % 256)
  have h1 : g.toNat % 32 % 32 % 256 = g.toNat % 32 := by omega
  have h2 : cs * 32 % 256 = 2 ^ 5 * cs := by omega
  have h3 : i.toNat % 256 % 256 % 256 * 256 % 65536 = 2 ^ 8 * (i.toNat % 256) := by omega
  rw [h1, h2, h3, Nat.or_comm (g.toNat % 32), ← hlo, Nat.or_comm, Nat.add_comm (2 ^ 5 * cs),
    show 2 ^ 5 * cs = 32 * cs by omega, ← hhi]
  omega

/-- Unpacking a packed cookie gives back the low bits of both numbers. -/
theorem grmCookieUnpack_pack (g i : UInt32) :
    grmCookieUnpack (grmCookiePack g i) = some (g &&& (0x1F : UInt32), i &&& (0xFF : UInt32)) := by
  have hcs := grmCookieCs_lt (g &&& (0x1F : UInt32)) (i &&& (0xFF : UInt32))
  have hv := grmCookiePack_toNat g i
  have hand : ∀ x : ℕ, x &&& 0xFF = x % 256 := fun x => Nat.and_two_pow_sub_one_eq_mod x 8
  have hand' : ∀ x : ℕ, x &&& 0x1F = x % 32 := fun x => Nat.and_two_pow_sub_one_eq_mod x 5
  have hgen : (grmCookiePack g i &&& (0x1f : UInt16)).toUInt32 = g &&& (0x1F : UInt32) := by
    apply UInt32.toNat_inj.mp
    simp only [UInt16.toNat_toUInt32, UInt16.toNat_and, UInt32.toNat_and, UInt32.reduceToNat,
      UInt16.reduceToNat, hand', hv]
    omega
  have hidx : ((grmCookiePack g i >>> 8) &&& (0xff : UInt16)).toUInt32 = i &&& (0xFF : UInt32) := by
    apply UInt32.toNat_inj.mp
    simp only [UInt16.toNat_toUInt32, UInt16.toNat_and, UInt16.toNat_shiftRight, UInt32.toNat_and,
      UInt32.reduceToNat, UInt16.reduceToNat, hand, hv, Nat.reduceMod, Nat.shiftRight_eq_div_pow,
      Nat.reducePow]
    omega
  have hsum : ((grmCookiePack g i &&& (0xff : UInt16)) >>> 5).toUInt8 =
      grmCookieCs (g &&& (0x1F : UInt32)) (i &&& (0xFF : UInt32)) := by
    apply UInt8.toNat_inj.mp
    simp only [UInt16.toNat_toUInt8, UInt16.toNat_and, UInt16.toNat_shiftRight,
      UInt16.reduceToNat, hand, hv, Nat.reduceMod, Nat.shiftRight_eq_div_pow, Nat.reducePow]
    omega
  simp only [grmCookieUnpack, hgen, hidx, hsum, ne_eq, not_true_eq_false, if_false]

theorem genRow_and_mask (g : UInt32) : genRow (g &&& (0x1F : UInt32)) = genRow g := by
  apply Fin.ext
  have h : g.toNat &&& 31 = g.toNat % 32 := Nat.and_two_pow_sub_one_eq_mod g.toNat 5
  simp only [genRow_val, UInt32.toNat_and, UInt32.reduceToNat]
  omega

theorem idxSlot_and_mask (i : UInt32) : idxSlot (i &&& (0xFF : UInt32)) = idxSlot i := by
  apply Fin.ext
  have h : i.toNat &&& 255 = i.toNat % 256 := Nat.and_two_pow_sub_one_eq_mod i.toNat 8
  simp only [idxSlot, Fin.ofNat, UInt32.toNat_and, UInt32.reduceToNat, MAX_SOCKETS_IN_GEN]
  omega

end Udpgrm
