import Mathlib.Data.Fin.Basic
import Mathlib.Tactic.Common

/-!
The AES-128 block cipher as the standard defines it: S-box, rows, columns and key schedule.
Byte `4 * c + r` of a block is row `r` of column `c`.
-/
namespace Aes

abbrev Block := Vector UInt8 16
abbrev Word := Vector UInt8 4

/-! ### Bytes as polynomials over GF(2), modulo `x^8 + x^4 + x^3 + x + 1` -/

/-- Multiplication by `x`. -/
def xtime (b : ℕ) : ℕ := if b < 128 then 2 * b else (2 * b) ^^^ 0x11b

/-- The sum of the `x^i b` over the first `k` coefficients of `a`, added to `acc`. -/
def mulAux : ℕ → ℕ → ℕ → ℕ → ℕ
  | 0, _, _, acc => acc
  | k + 1, a, b, acc => mulAux k (a / 2) (xtime b) (if a % 2 = 1 then acc ^^^ b else acc)

def mul (a b : ℕ) : ℕ := mulAux 8 a b 0

/-- The power 254, which is the inverse of every nonzero element. -/
def inverse (b : ℕ) : ℕ :=
  let b2 := mul b b
  let b4 := mul b2 b2
  let b8 := mul b4 b4
  let b16 := mul b8 b8
  let b32 := mul b16 b16
  let b64 := mul b32 b32
  let b128 := mul b64 b64
  mul b2 (mul b4 (mul b8 (mul b16 (mul b32 (mul b64 b128)))))

def rotl (b n : ℕ) : ℕ := (b <<< n ||| b >>> (8 - n)) % 256

/-- The inverse followed by an affine map. -/
def sBox (b : UInt8) : UInt8 :=
  let x := inverse b.toNat
  UInt8.ofNat (x ^^^ rotl x 1 ^^^ rotl x 2 ^^^ rotl x 3 ^^^ rotl x 4 ^^^ 0x63)

def byteMul (a : ℕ) (b : UInt8) : UInt8 := UInt8.ofNat (mul a b.toNat)

/-! ### Rounds -/

def subBytes (s : Block) : Block := s.map sBox

/-- Row `r` moves `r` columns to the left. -/
def shiftRows (s : Block) : Block :=
  Vector.ofFn fun i => s[(i.val / 4 + i.val % 4) % 4 * 4 + i.val % 4]

def mixColumns (s : Block) : Block :=
  Vector.ofFn fun i =>
    byteMul 2 s[i.val / 4 * 4 + i.val % 4] ^^^ byteMul 3 s[i.val / 4 * 4 + (i.val + 1) % 4] ^^^
      s[i.val / 4 * 4 + (i.val + 2) % 4] ^^^ s[i.val / 4 * 4 + (i.val + 3) % 4]

def addRoundKey (k s : Block) : Block := Vector.ofFn fun i => s.get i ^^^ k.get i

/-! ### Key schedule -/

def xorWord (v w : Word) : Word := Vector.ofFn fun i => v.get i ^^^ w.get i

def rotWord (w : Word) : Word := Vector.ofFn fun i => w[(i.val + 1) % 4]

def subWord (w : Word) : Word := w.map sBox

/-- `x^(i-1)` in the first byte. -/
def rcon (i : ℕ) : Word := #v[UInt8.ofNat (xtime^[i - 1] 1), 0, 0, 0]

def zeroWord : Word := Vector.replicate 4 0

/-- The word that follows the words so far. -/
def nextWord (ws : List Word) : Word :=
  let i := ws.length
  let temp := ws.getD (i - 1) zeroWord
  let temp := if i % 4 = 0 then xorWord (subWord (rotWord temp)) (rcon (i / 4)) else temp
  xorWord (ws.getD (i - 4) zeroWord) temp

/-- The words of the key and `n` more. -/
def expand (key : Block) : ℕ → List Word
  | 0 => (List.finRange 4).map fun j : Fin 4 => Vector.ofFn fun b : Fin 4 =>
      key[4 * j.val + b.val]
  | n + 1 => expand key n ++ [nextWord (expand key n)]

def roundKey (key : Block) (round : ℕ) : Block :=
  Vector.ofFn fun i => ((expand key 40).getD (4 * round + i.val / 4) zeroWord)[i.val % 4]

def encrypt (key block : Block) : Block :=
  let s := addRoundKey (roundKey key 0) block
  let s := (List.range' 1 9).foldl
    (fun s r => addRoundKey (roundKey key r) (mixColumns (shiftRows (subBytes s)))) s
  addRoundKey (roundKey key 10) (shiftRows (subBytes s))

@[simp] theorem length_expand (key : Block) (n : ℕ) : (expand key n).length = n + 4 := by
  induction n with
  | zero => rfl
  | succ n ih => simp [expand, ih, Nat.add_right_comm]

/-- Facts about bytes are checked byte by byte. -/
theorem forall_byte {P : UInt8 → Prop} (h : ∀ n : Fin 256, P (UInt8.ofNat n.val)) (b : UInt8) :
    P b := by
  simpa using h ⟨b.toNat, b.toNat_lt⟩

end Aes
