import Udpgrm.Lib.LittleEndian

/-! SipHash with any numbers of rounds, on words of 64 bits. -/
namespace SipHash

open LittleEndian (u64 field)

structure State where
  v0 : UInt64
  v1 : UInt64
  v2 : UInt64
  v3 : UInt64
deriving DecidableEq, Repr

def rotl (x n : UInt64) : UInt64 := x <<< n ||| x >>> (64 - n)

def sipRound (s : State) : State :=
  let v0 := s.v0 + s.v1
  let v2 := s.v2 + s.v3
  let v1 := rotl s.v1 13 ^^^ v0
  let v3 := rotl s.v3 16 ^^^ v2
  let v0 := rotl v0 32 + v3
  let v2 := v2 + v1
  let v1 := rotl v1 17 ^^^ v2
  let v3 := rotl v3 21 ^^^ v0
  ⟨v0, v1, rotl v2 32, v3⟩

def rounds (n : ℕ) (s : State) : State := sipRound^[n] s

def initial (k0 k1 : UInt64) : State where
  v0 := k0 ^^^ 0x736f6d6570736575
  v1 := k1 ^^^ 0x646f72616e646f6d
  v2 := k0 ^^^ 0x6c7967656e657261
  v3 := k1 ^^^ 0x7465646279746573

/-- One word of the message. -/
def compress (c : ℕ) (s : State) (m : UInt64) : State :=
  let s := rounds c { s with v3 := s.v3 ^^^ m }
  { s with v0 := s.v0 ^^^ m }

/-- The message with zeros and its length behind it, up to a whole number of words. -/
def pad (msg : List UInt8) : List UInt8 :=
  msg ++ List.replicate (7 - msg.length % 8) 0 ++ [UInt8.ofNat msg.length]

def words (bs : List UInt8) : List UInt64 :=
  (List.range (bs.length / 8)).map fun i => u64 bs (8 * i)

def finish (d : ℕ) (s : State) : UInt64 :=
  let s := rounds d { s with v2 := s.v2 ^^^ 0xff }
  s.v0 ^^^ s.v1 ^^^ s.v2 ^^^ s.v3

/-- The hash with `c` rounds for each word and `d` rounds at the end. -/
def hash (c d : ℕ) (k0 k1 : UInt64) (msg : List UInt8) : UInt64 :=
  finish d ((words (pad msg)).foldl (compress c) (initial k0 k1))

/-! ### Words of a message -/

theorem u64_drop (bs : List UInt8) (n off : ℕ) : u64 (bs.drop n) off = u64 bs (n + off) := by
  rw [u64, u64, field, field, List.drop_drop]

theorem words_of_le {bs : List UInt8} (h : 8 ≤ bs.length) :
    words bs = u64 bs 0 :: words (bs.drop 8) := by
  have hcount : bs.length / 8 = (bs.drop 8).length / 8 + 1 := by
    rw [List.length_drop]
    omega
  rw [words, hcount, List.range_succ_eq_map, List.map_cons, List.map_map, words]
  refine congrArg _ (List.map_congr_left fun i _ => ?_)
  rw [u64_drop, Function.comp_apply, Nat.succ_eq_add_one, Nat.mul_add, Nat.add_comm]

theorem words_eight {bs : List UInt8} (h : bs.length = 8) : words bs = [u64 bs 0] := by
  rw [words, h]
  rfl

/-- The last word has the length in its highest byte. -/
theorem u64_last {m : List UInt8} (n : ℕ) (h : m.length < 8) :
    u64 (m ++ List.replicate (7 - m.length) 0 ++ [UInt8.ofNat n]) 0 =
      UInt64.ofNat n <<< 56 ||| UInt64.ofNat (LittleEndian.toNat m) := by
  have hlt : LittleEndian.toNat m < 2 ^ 56 := by
    have hlt := LittleEndian.toNat_lt m
    have hpow : 256 ^ m.length ≤ 256 ^ 7 := Nat.pow_le_pow_right (by decide) (by omega)
    omega
  have hzeros : LittleEndian.toNat (List.replicate (7 - m.length) 0) = 0 :=
    LittleEndian.toNat_eq_zero fun b hb => List.eq_of_mem_replicate hb
  have hlength : (m ++ List.replicate (7 - m.length) (0 : UInt8)).length = 7 := by
    rw [List.length_append, List.length_replicate]
    omega
  have hlast : LittleEndian.toNat [UInt8.ofNat n] = n % 256 := by
    simp [LittleEndian.toNat]
  have hsum : LittleEndian.toNat (m ++ List.replicate (7 - m.length) 0 ++ [UInt8.ofNat n]) =
      (n % 256) <<< 56 ||| LittleEndian.toNat m := by
    rw [LittleEndian.toNat_append, LittleEndian.toNat_append, hzeros, hlength, hlast,
      ← Nat.shiftLeft_add_eq_or_of_lt hlt, Nat.shiftLeft_eq]
    omega
  have hfield : field (m ++ List.replicate (7 - m.length) 0 ++ [UInt8.ofNat n]) 0 8 =
      m ++ List.replicate (7 - m.length) 0 ++ [UInt8.ofNat n] := by
    rw [field, List.drop_zero]
    refine List.take_of_length_le ?_
    rw [List.length_append, hlength]
    rfl
  have hshift : (UInt64.ofNat n <<< 56).toNat = (n % 256) <<< 56 := by
    rw [UInt64.toNat_shiftLeft, UInt64.toNat_ofNat', Nat.shiftLeft_eq, Nat.shiftLeft_eq]
    exact show n % 2 ^ 64 * 2 ^ 56 % 2 ^ 64 = n % 256 * 2 ^ 56 by omega
  have hword : (n % 256) <<< 56 ||| LittleEndian.toNat m < 2 ^ 64 := by
    rw [← Nat.shiftLeft_add_eq_or_of_lt hlt, Nat.shiftLeft_eq]
    omega
  apply UInt64.toNat_inj.mp
  rw [u64, hfield, hsum, UInt64.toNat_or, hshift, UInt64.toNat_ofNat', UInt64.toNat_ofNat',
    Nat.mod_eq_of_lt hword, Nat.mod_eq_of_lt (hlt.trans (by decide))]

end SipHash
