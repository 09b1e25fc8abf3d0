import Udpgrm.Lib.BigEndian

/-! SHA-256, its keyed hash and the key derivation built on it, as the standards define them. -/
namespace Sha256

open LittleEndian (field)

abbrev Hash := Vector UInt32 8

/-! ### Constants -/

/-- The bits of the `k`-th root of `n`, from bit `b - 1` down to bit 0. -/
def rootFrom (k n : ℕ) : ℕ → ℕ → ℕ
  | 0, r => r
  | b + 1, r => rootFrom k n b (if (r + 2 ^ b) ^ k ≤ n then r + 2 ^ b else r)

/-- The first 32 bits behind the point of the `k`-th root of `n`. -/
def rootFraction (k n : ℕ) : UInt32 := UInt32.ofNat (rootFrom k (n * 2 ^ (32 * k)) 40 0)

def primes : List ℕ :=
  [2, 3, 5, 7, 11, 13, 17, 19, 23, 29, 31, 37, 41, 43, 47, 53, 59, 61, 67, 71, 73, 79, 83, 89, 97,
    101, 103, 107, 109, 113, 127, 131, 137, 139, 149, 151, 157, 163, 167, 173, 179, 181, 191, 193,
    197, 199, 211, 223, 227, 229, 233, 239, 241, 251, 257, 263, 269, 271, 277, 281, 283, 293, 307,
    311]

def roundConstant (t : ℕ) : UInt32 := rootFraction 3 (primes.getD t 0)

def initial : Hash := Vector.ofFn fun i => rootFraction 2 (primes.getD i.val 0)

/-! ### Compression -/

def rotr (x n : UInt32) : UInt32 := x >>> n ||| x <<< (32 - n)

def choose (x y z : UInt32) : UInt32 := (x &&& y) ^^^ (~~~x &&& z)
def majority (x y z : UInt32) : UInt32 := (x &&& y) ^^^ (x &&& z) ^^^ (y &&& z)
def bigSigma0 (x : UInt32) : UInt32 := rotr x 2 ^^^ rotr x 13 ^^^ rotr x 22
def bigSigma1 (x : UInt32) : UInt32 := rotr x 6 ^^^ rotr x 11 ^^^ rotr x 25
def smallSigma0 (x : UInt32) : UInt32 := rotr x 7 ^^^ rotr x 18 ^^^ (x >>> 3)
def smallSigma1 (x : UInt32) : UInt32 := rotr x 17 ^^^ rotr x 19 ^^^ (x >>> 10)

/-- The words of a block of 64 bytes and `n` more. -/
def schedule (block : List UInt8) : ℕ → List UInt32
  | 0 => (List.range 16).map fun t => BigEndian.u32 block (4 * t)
  | n + 1 =>
    let w := schedule block n
    let t := n + 16
    w ++ [smallSigma1 (w.getD (t - 2) 0) + w.getD (t - 7) 0 + smallSigma0 (w.getD (t - 15) 0) +
      w.getD (t - 16) 0]

/-- One round on the working variables `a` to `h`. -/
def round (v : Hash) (k w : UInt32) : Hash :=
  let t1 := v.get 7 + bigSigma1 (v.get 4) + choose (v.get 4) (v.get 5) (v.get 6) + k + w
  let t2 := bigSigma0 (v.get 0) + majority (v.get 0) (v.get 1) (v.get 2)
  #v[t1 + t2, v.get 0, v.get 1, v.get 2, v.get 3 + t1, v.get 4, v.get 5, v.get 6]

def compress (h : Hash) (block : List UInt8) : Hash :=
  let w := schedule block 48
  let v := (List.range 64).foldl (fun v t => round v (roundConstant t) (w.getD t 0)) h
  Vector.ofFn fun i => h.get i + v.get i

/-! ### Messages -/

/-- A one, zeros up to the last eight bytes of a block, and the length in bits. -/
def pad (msg : List UInt8) : List UInt8 :=
  msg ++ 0x80 :: List.replicate ((119 - msg.length % 64) % 64) 0 ++
    BigEndian.ofNat 8 (msg.length * 8)

def digest (h : Hash) : List UInt8 := h.toList.flatMap fun x => BigEndian.ofNat 4 x.toNat

def hash (msg : List UInt8) : List UInt8 :=
  digest ((List.range ((pad msg).length / 64)).foldl
    (fun h i => compress h (field (pad msg) (i * 64) 64)) initial)

/-! ### Keyed hash and key derivation -/

def hmacKey (key : List UInt8) : List UInt8 :=
  let key := if key.length ≤ 64 then key else hash key
  key ++ List.replicate (64 - key.length) 0

def hmac (key msg : List UInt8) : List UInt8 :=
  let opad := (hmacKey key).map (· ^^^ 0x5c)
  let ipad := (hmacKey key).map (· ^^^ 0x36)
  hash (opad ++ hash (ipad ++ msg))

def extract (salt keying : List UInt8) : List UInt8 := hmac salt keying

/-- Output block `i` of the expansion. -/
def expandBlock (secret info : List UInt8) : ℕ → List UInt8
  | 0 => []
  | i + 1 => hmac secret (expandBlock secret info i ++ info ++ [UInt8.ofNat (i + 1)])

def expand (secret info : List UInt8) (len : ℕ) : List UInt8 :=
  ((List.range ((len + 31) / 32)).flatMap fun i => expandBlock secret info (i + 1)).take len

/-- The bytes of "tls13 ", which go before every label. -/
def labelStart : List UInt8 := [0x74, 0x6c, 0x73, 0x31, 0x33, 0x20]

/-- Expansion under a label, with an empty context. -/
def expandLabel (secret label : List UInt8) (len : ℕ) : List UInt8 :=
  expand secret (BigEndian.ofNat 2 len ++
    UInt8.ofNat (labelStart.length + label.length) :: (labelStart ++ label) ++ [0]) len

/-! ### Lengths and short messages -/

@[simp] theorem length_schedule (block : List UInt8) (n : ℕ) :
    (schedule block n).length = n + 16 := by
  induction n with
  | zero => simp [schedule]
  | succ n ih => simp [schedule, ih, Nat.add_right_comm]

@[simp] theorem length_digest (h : Hash) : (digest h).length = 32 := by
  have hl : ∀ l : List UInt32,
      (l.flatMap fun x => BigEndian.ofNat 4 x.toNat).length = 4 * l.length := by
    intro l
    induction l with
    | nil => rfl
    | cons x l ih =>
      rw [List.flatMap_cons, List.length_append, ih, BigEndian.length_ofNat, List.length_cons]
      omega
  rw [digest, hl, Vector.length_toList]

@[simp] theorem length_hash (msg : List UInt8) : (hash msg).length = 32 := length_digest _

@[simp] theorem length_hmac (key msg : List UInt8) : (hmac key msg).length = 32 := length_hash _

/-- The last block of a message of `total` bytes that ends with `rest`. -/
def lastBlock (rest : List UInt8) (total : ℕ) : List UInt8 :=
  rest ++ 0x80 :: List.replicate (55 - rest.length) 0 ++ BigEndian.ofNat 8 (total * 8)

/-- One full block and a rest that leaves room for the padding. -/
theorem hash_append {b rest : List UInt8} (hb : b.length = 64) (hr : rest.length ≤ 55) :
    hash (b ++ rest) =
      digest (compress (compress initial b) (lastBlock rest (rest.length + 64))) := by
  have hz : (119 - (b ++ rest).length % 64) % 64 = 55 - rest.length := by
    rw [List.length_append, hb]
    omega
  have hp : pad (b ++ rest) = b ++ lastBlock rest (rest.length + 64) := by
    rw [pad, hz, lastBlock, List.length_append, hb, Nat.add_comm 64]
    simp only [List.append_assoc]
  have hl : (lastBlock rest (rest.length + 64)).length = 64 := by
    simp only [lastBlock, List.length_append, List.length_cons, List.length_replicate,
      BigEndian.length_ofNat]
    omega
  have h0 : field (pad (b ++ rest)) (0 * 64) 64 = b := by
    rw [hp]
    exact LittleEndian.field_append_left _ hb
  have h1 : field (pad (b ++ rest)) (1 * 64) 64 = lastBlock rest (rest.length + 64) := by
    rw [hp, LittleEndian.field_append_right (k := 0) _ (by omega), field, List.drop_zero,
      List.take_of_length_le (by omega)]
  have hn : (pad (b ++ rest)).length / 64 = 2 := by
    rw [hp, List.length_append, hb, hl]
  rw [hash, hn]
  simp only [List.range_succ, List.range_zero, List.nil_append, List.foldl_append, List.foldl_cons,
    List.foldl_nil, h0, h1]

/-- One output block is enough for up to 32 bytes. -/
theorem expand_of_le {secret info : List UInt8} {len : ℕ} (h0 : 0 < len) (h : len ≤ 32) :
    expand secret info len = (hmac secret (info ++ [1])).take len := by
  have hn : (len + 31) / 32 = 1 := by omega
  rw [expand, hn]
  simp [expandBlock]

theorem length_expandLabel {secret label : List UInt8} {len : ℕ} (h0 : 0 < len) (h : len ≤ 32) :
    (expandLabel secret label len).length = len := by
  rw [expandLabel, expand_of_le h0 h, List.length_take, length_hmac]
  omega

end Sha256
