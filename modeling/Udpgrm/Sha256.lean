import Udpgrm.Lib.ByteMemory
import Udpgrm.Lib.Sha256

/-!
The keyed hash of the packet program, which works in place on the union at the start of the
scratch page, and that it is HMAC-SHA-256.
-/
namespace Udpgrm

open ByteMemory

/-- The anonymous union of `struct scratch`. -/
abbrev ScratchUnion := Memory 416

abbrev Sha256Buff := Vector UInt32 8

/-! Offsets of `w`, `tv`, `tmp` and `secret`. -/

def wOff : ℕ := 0
def tvOff : ℕ := 256
def tmpOff : ℕ := 288
def secretOff : ℕ := 352

def sha256Init : Sha256Buff :=
  #v[0x6a09e667, 0xbb67ae85, 0x3c6ef372, 0xa54ff53a, 0x510e527f, 0x9b05688c, 0x1f83d9ab,
    0x5be0cd19]

def sha256K : List UInt32 := [
  0x428a2f98, 0x71374491, 0xb5c0fbcf, 0xe9b5dba5, 0x3956c25b, 0x59f111f1, 0x923f82a4, 0xab1c5ed5,
  0xd807aa98, 0x12835b01, 0x243185be, 0x550c7dc3, 0x72be5d74, 0x80deb1fe, 0x9bdc06a7, 0xc19bf174,
  0xe49b69c1, 0xefbe4786, 0x0fc19dc6, 0x240ca1cc, 0x2de92c6f, 0x4a7484aa, 0x5cb0a9dc, 0x76f988da,
  0x983e5152, 0xa831c66d, 0xb00327c8, 0xbf597fc7, 0xc6e00bf3, 0xd5a79147, 0x06ca6351, 0x14292967,
  0x27b70a85, 0x2e1b2138, 0x4d2c6dfc, 0x53380d13, 0x650a7354, 0x766a0abb, 0x81c2c92e, 0x92722c85,
  0xa2bfe8a1, 0xa81a664b, 0xc24b8b70, 0xc76c51a3, 0xd192e819, 0xd6990624, 0xf40e3585, 0x106aa070,
  0x19a4c116, 0x1e376c08, 0x2748774c, 0x34b0bcb5, 0x391c0cb3, 0x4ed8aa4a, 0x5b9cca4f, 0x682e6ff3,
  0x748f82ee, 0x78a5636f, 0x84c87814, 0x8cc70208, 0x90befffa, 0xa4506ceb, 0xbef9a3f7, 0xc67178f2]

def rotateR (val bits : UInt32) : UInt32 := val >>> bits ||| val <<< (32 - bits)

/-- Word `i` of `w`, from the words before it. -/
def sha256NextW (w : List UInt32) (i : ℕ) : UInt32 :=
  let s0 := rotateR (w.getD (i - 15) 0) 7 ^^^ rotateR (w.getD (i - 15) 0) 18 ^^^
    (w.getD (i - 15) 0 >>> 3)
  let s1 := rotateR (w.getD (i - 2) 0) 17 ^^^ rotateR (w.getD (i - 2) 0) 19 ^^^
    (w.getD (i - 2) 0 >>> 10)
  w.getD (i - 16) 0 + s0 + w.getD (i - 7) 0 + s1

/-- The array `w` for a block, whose words are loaded with their bytes swapped. -/
def sha256W (b : List UInt8) : List UInt32 :=
  (List.range' 16 48).foldl (fun w i => w ++ [sha256NextW w i])
    ((List.range 16).map fun i => BigEndian.u32 b (4 * i))

/-- The last loop's body in `sha256_calc_chunk`, for the round's `k[i]` and `w[i]`. -/
def sha256Round (tv : Vector UInt32 8) (k w : UInt32) : Vector UInt32 8 :=
  let S1 := rotateR tv[4] 6 ^^^ rotateR tv[4] 11 ^^^ rotateR tv[4] 25
  let ch := (tv[4] &&& tv[5]) ^^^ (~~~tv[4] &&& tv[6])
  let temp1 := tv[7] + S1 + ch + k + w
  let S0 := rotateR tv[0] 2 ^^^ rotateR tv[0] 13 ^^^ rotateR tv[0] 22
  let maj := (tv[0] &&& tv[1]) ^^^ (tv[0] &&& tv[2]) ^^^ (tv[1] &&& tv[2])
  let temp2 := S0 + maj
  #v[temp1 + temp2, tv[0], tv[1], tv[2], tv[3] + temp1, tv[4], tv[5], tv[6]]

/-- Words as they lie in memory. -/
def wordBytes (ws : List UInt32) : List UInt8 :=
  ws.flatMap fun x => LittleEndian.ofNat 4 x.toNat

def sha256CalcChunk (area : ScratchUnion) (ctx : Sha256Buff) (b : List UInt8) :
    ScratchUnion × Sha256Buff :=
  let w := sha256W b
  let tv := (List.range 64).foldl
    (fun tv i => sha256Round tv (sha256K.getD i 0) (w.getD i 0)) ctx
  (store (store area wOff (wordBytes w)) tvOff (wordBytes tv.toList),
    Vector.ofFn fun i => ctx[i] + tv[i])

/-- More than 55 bytes are not implemented, and the result is not looked at. -/
def sha256Final (area : ScratchUnion) (ctx : Sha256Buff) (data dataLen totalLen : ℕ) :
    ScratchUnion × Sha256Buff :=
  if dataLen > 55 then (area, ctx)
  else
    let area := store area (data + dataLen) [0x80]
    let area := store area (data + 56) (BigEndian.ofNat 8 (totalLen * 8))
    sha256CalcChunk area ctx (load area data 64)

def sha256Read (buff : Sha256Buff) : List UInt8 :=
  buff.toList.flatMap fun x => BigEndian.ofNat 4 x.toNat

/-- The pads are repeated bytes, so that eight bytes at a time are xored as single ones are. -/
def xorPad (area : ScratchUnion) (key : ℕ) (x : UInt8) : ScratchUnion :=
  store area key ((load area key 64).map (· ^^^ x))

/-- `data` is overwritten by its hash and zeros, `key` is restored. -/
def sha256Hmac (area : ScratchUnion) (key data dataLen : ℕ) : ScratchUnion :=
  let area := xorPad area key 0x36
  let (area, ctx) := sha256CalcChunk area sha256Init (load area key 64)
  let area := xorPad area key (0x36 ^^^ 0x5c)
  let (area, ctx) := sha256Final area ctx data dataLen (dataLen + 64)
  let area := store area data (List.replicate 64 0)
  let area := store area data (sha256Read ctx)
  let (area, ctx) := sha256CalcChunk area sha256Init (load area key 64)
  let area := xorPad area key 0x5c
  let (area, ctx) := sha256Final area ctx data 32 (32 + 64)
  let area := store area data (List.replicate 64 0)
  store area data (sha256Read ctx)

/-! ### One block -/

theorem sha256Init_eq : sha256Init = Sha256.initial := by
  decide +kernel

theorem sha256K_eq : ∀ i < 64, sha256K.getD i 0 = Sha256.roundConstant i := by
  decide +kernel

theorem rotateR_eq (val bits : UInt32) : rotateR val bits = Sha256.rotr val bits := rfl

theorem sha256NextW_eq (w : List UInt32) (i : ℕ) :
    sha256NextW w i = Sha256.smallSigma1 (w.getD (i - 2) 0) + w.getD (i - 7) 0 +
      Sha256.smallSigma0 (w.getD (i - 15) 0) + w.getD (i - 16) 0 := by
  have h : ∀ a b c d : UInt32, a + b + c + d = d + c + b + a := by
    intro a b c d
    ac_rfl
  simp only [sha256NextW, rotateR_eq, Sha256.smallSigma0, Sha256.smallSigma1]
  exact h _ _ _ _

theorem sha256W_eq (b : List UInt8) : sha256W b = Sha256.schedule b 48 := by
  have h : ∀ n, (List.range' 16 n).foldl (fun w i => w ++ [sha256NextW w i])
      ((List.range 16).map fun i => BigEndian.u32 b (4 * i)) = Sha256.schedule b n := by
    intro n
    induction n with
    | zero => rfl
    | succ n ih =>
      have hn : 16 + 1 * n = n + 16 := by omega
      rw [List.range'_concat, List.foldl_append, ih, List.foldl_cons, List.foldl_nil, hn,
        Sha256.schedule, sha256NextW_eq]
  exact h 48

theorem sha256Round_eq (tv : Vector UInt32 8) (k w : UInt32) :
    sha256Round tv k w = Sha256.round tv k w := rfl

theorem sha256CalcChunk_snd (area : ScratchUnion) (ctx : Sha256Buff) (b : List UInt8) :
    (sha256CalcChunk area ctx b).2 = Sha256.compress ctx b := by
  have h : ∀ tv, ∀ i ∈ List.range 64,
      sha256Round tv (sha256K.getD i 0) ((sha256W b).getD i 0) =
        Sha256.round tv (Sha256.roundConstant i) ((Sha256.schedule b 48).getD i 0) := by
    intro tv i hi
    rw [sha256Round_eq, sha256W_eq, sha256K_eq i (List.mem_range.mp hi)]
  simp only [sha256CalcChunk, Sha256.compress]
  rw [List.foldl_ext _ _ _ h]
  rfl

/-! ### Keyed hash -/

section Hmac

variable {area : ScratchUnion} {ctx : Sha256Buff} {b msg : List UInt8} {k n : ℕ}

theorem wordBytes_length (ws : List UInt32) : (wordBytes ws).length = ws.length * 4 := by
  induction ws with
  | nil => rfl
  | cons w ws ih =>
    simp only [wordBytes, List.flatMap_cons, List.length_append, LittleEndian.length_ofNat,
      List.length_cons] at ih ⊢
    omega

/-- A chunk is worked on below `tmp`. -/
theorem load_sha256CalcChunk (hk : tmpOff ≤ k) :
    load (sha256CalcChunk area ctx b).1 k n = load area k n := by
  have hw : (sha256W b).length = 64 := by simp [sha256W_eq]
  have htv : ∀ tv : Vector UInt32 8, (wordBytes tv.toList).length = 32 := by
    intro tv
    simp [wordBytes_length]
  simp only [tmpOff] at hk
  simp only [sha256CalcChunk]
  rw [load_store_of_disjoint (by rw [htv, tvOff]; omega),
    load_store_of_disjoint (by rw [wordBytes_length, hw, wOff]; omega)]

/-- What the area holds for the keyed hash: the padded key and the data. -/
structure HmacArea (area : ScratchUnion) (key msg : List UInt8) : Prop where
  tmp : load area tmpOff 64 = msg ++ List.replicate (64 - msg.length) 0
  secret : load area secretOff 64 = key

theorem load_xorPad_secret {x : UInt8} (area : ScratchUnion) :
    load (xorPad area secretOff x) secretOff 64 = (load area secretOff 64).map (· ^^^ x) := by
  have hlen : ((load area secretOff 64).map (· ^^^ x)).length = 64 := by simp
  have h : load (xorPad area secretOff x) secretOff
      ((load area secretOff 64).map (· ^^^ x)).length = (load area secretOff 64).map (· ^^^ x) :=
    load_store_self (by rw [hlen, secretOff])
  rwa [hlen] at h

theorem load_xorPad_tmp {x : UInt8} (area : ScratchUnion) :
    load (xorPad area secretOff x) tmpOff 64 = load area tmpOff 64 := by
  apply load_store_of_disjoint
  left
  simp [tmpOff, secretOff]

/-- The hash is written over the cleared data. -/
theorem load_result (area : ScratchUnion) {bs : List UInt8} (h : bs.length = 32) :
    load (store (store area tmpOff (List.replicate 64 0)) tmpOff bs) tmpOff 64 =
      bs ++ List.replicate (64 - bs.length) 0 := by
  have hzero : load (store area tmpOff (List.replicate 64 0)) tmpOff
      (List.replicate 64 (0 : UInt8)).length = List.replicate 64 0 :=
    load_store_self (by simp [tmpOff])
  have hin : load (store (store area tmpOff (List.replicate 64 0)) (tmpOff + 0) bs) tmpOff 64 =
      LittleEndian.patch (load (store area tmpOff (List.replicate 64 0)) tmpOff 64) 0 bs :=
    load_store_inside (by omega) (by simp [tmpOff])
  rw [List.length_replicate] at hzero
  rw [Nat.add_zero] at hin
  rw [hin, hzero, LittleEndian.patch, h]
  rfl

theorem load_result_secret (area : ScratchUnion) {bs : List UInt8} (h : bs.length = 32) :
    load (store (store area tmpOff (List.replicate 64 0)) tmpOff bs) secretOff 64 =
      load area secretOff 64 := by
  rw [load_store_of_disjoint (by right; rw [h, tmpOff, secretOff]; omega),
    load_store_of_disjoint (by right; simp [tmpOff, secretOff])]

theorem sha256Final_snd {total : ℕ} (hlen : msg.length ≤ 55)
    (htmp : load area tmpOff 64 = msg ++ List.replicate (64 - msg.length) 0) :
    (sha256Final area ctx tmpOff msg.length total).2 =
      Sha256.compress ctx (Sha256.lastBlock msg total) := by
  have hone : load (store area (tmpOff + msg.length) [0x80]) tmpOff 64 =
      (msg ++ 0x80 :: List.replicate (55 - msg.length) 0) ++ List.replicate 8 0 := by
    rw [load_store_inside (by simp; omega) (by simp [tmpOff]), htmp,
      LittleEndian.patch_append rfl]
    have hz : 64 - msg.length - 1 = (55 - msg.length) + 8 := by omega
    simp only [List.length_singleton, List.drop_replicate, hz, List.replicate_add,
      List.append_assoc, List.cons_append, List.nil_append]
  have hboth : load (store (store area (tmpOff + msg.length) [0x80]) (tmpOff + 56)
      (BigEndian.ofNat 8 (total * 8))) tmpOff 64 = Sha256.lastBlock msg total := by
    rw [load_store_inside (by simp) (by simp [tmpOff]), hone,
      LittleEndian.patch_append (by simp; omega)]
    simp [Sha256.lastBlock]
  rw [sha256Final, if_neg (by omega)]
  simp only [sha256CalcChunk_snd, hboth]

theorem load_sha256Final_secret {total : ℕ} (hlen : n ≤ 55) :
    load (sha256Final area ctx tmpOff n total).1 secretOff 64 = load area secretOff 64 := by
  rw [sha256Final, if_neg (by omega)]
  simp only
  rw [load_sha256CalcChunk (by simp [tmpOff, secretOff]),
    load_store_of_disjoint (by right; simp [tmpOff, secretOff]),
    load_store_of_disjoint (by right; simp [tmpOff, secretOff]; omega)]

theorem length_sha256Read (ctx : Sha256Buff) : (sha256Read ctx).length = 32 :=
  Sha256.length_digest ctx

/-- One of the two passes: the padded key is hashed, the pad changed, and the hash of the data
written over the data. -/
def hmacPass (area : ScratchUnion) (x : UInt8) (n : ℕ) : ScratchUnion :=
  let keyed := sha256CalcChunk area sha256Init (load area secretOff 64)
  let final := sha256Final (xorPad keyed.1 secretOff x) keyed.2 tmpOff n (n + 64)
  store (store final.1 tmpOff (List.replicate 64 0)) tmpOff (sha256Read final.2)

theorem sha256Hmac_eq (area : ScratchUnion) (n : ℕ) :
    sha256Hmac area secretOff tmpOff n =
      hmacPass (hmacPass (xorPad area secretOff 0x36) (0x36 ^^^ 0x5c) n) 0x5c 32 := rfl

theorem hmacPass_area {key : List UInt8} {x : UInt8} (h : HmacArea area key msg)
    (hlen : msg.length ≤ 55) :
    HmacArea (hmacPass area x msg.length) (key.map (· ^^^ x)) (Sha256.hash (key ++ msg)) := by
  have hkey : key.length = 64 := by rw [← h.secret, length_load]
  have htmp : load (xorPad (sha256CalcChunk area sha256Init (load area secretOff 64)).1 secretOff x)
      tmpOff 64 = msg ++ List.replicate (64 - msg.length) 0 := by
    rw [load_xorPad_tmp, load_sha256CalcChunk le_rfl, h.tmp]
  have hhash : sha256Read (sha256Final (xorPad (sha256CalcChunk area sha256Init
      (load area secretOff 64)).1 secretOff x) (sha256CalcChunk area sha256Init
      (load area secretOff 64)).2 tmpOff msg.length (msg.length + 64)).2 =
      Sha256.hash (key ++ msg) := by
    rw [sha256Final_snd hlen htmp, sha256CalcChunk_snd, sha256Init_eq, h.secret,
      Sha256.hash_append hkey hlen]
    rfl
  constructor
  · rw [hmacPass]
    simp only [hhash]
    exact load_result _ (Sha256.length_hash _)
  · rw [hmacPass, load_result_secret _ (length_sha256Read _), load_sha256Final_secret hlen,
      load_xorPad_secret, load_sha256CalcChunk (by simp [tmpOff, secretOff]), h.secret]

/-- The keyed hash works in place and gives the key back. -/
theorem sha256Hmac_area {key : List UInt8} (h : HmacArea area (Sha256.hmacKey key) msg)
    (hlen : msg.length ≤ 55) :
    HmacArea (sha256Hmac area secretOff tmpOff msg.length) (Sha256.hmacKey key)
      (Sha256.hmac key msg) := by
  have hpad : HmacArea (xorPad area secretOff 0x36) ((Sha256.hmacKey key).map (· ^^^ 0x36)) msg :=
    ⟨(load_xorPad_tmp area).trans h.tmp, by rw [load_xorPad_secret, h.secret]⟩
  have hinner := hmacPass_area (x := 0x36 ^^^ 0x5c) hpad hlen
  have houter := hmacPass_area (x := 0x5c) hinner (by simp)
  have hopad : ∀ b : UInt8, b ^^^ 0x36 ^^^ (0x36 ^^^ 0x5c) = b ^^^ 0x5c := by
    intro b
    rw [UInt8.xor_assoc, ← UInt8.xor_assoc 0x36, UInt8.xor_self, UInt8.zero_xor]
  have hback : ∀ b : UInt8, b ^^^ 0x5c ^^^ 0x5c = b := by
    intro b
    rw [UInt8.xor_assoc, UInt8.xor_self, UInt8.xor_zero]
  simp only [List.map_map, Function.comp_def, hopad, hback, List.map_id', Sha256.length_hash]
    at houter
  rw [sha256Hmac_eq]
  exact houter

end Hmac

end Udpgrm
