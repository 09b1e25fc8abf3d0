import Mathlib.Data.List.Basic
import Mathlib.Data.List.GetD
import Mathlib.Tactic.IntervalCases
import Udpgrm.Basic
import Udpgrm.Lib.Aes

/-! The block cipher of the packet program, and that it is AES-128. -/
namespace Udpgrm

abbrev AesKey := Vector UInt8 16

def aesSbox : List UInt8 := [
  0x63, 0x7c, 0x77, 0x7b, 0xf2, 0x6b, 0x6f, 0xc5, 0x30, 0x01, 0x67, 0x2b, 0xfe, 0xd7, 0xab, 0x76,
  0xca, 0x82, 0xc9, 0x7d, 0xfa, 0x59, 0x47, 0xf0, 0xad, 0xd4, 0xa2, 0xaf, 0x9c, 0xa4, 0x72, 0xc0,
  0xb7, 0xfd, 0x93, 0x26, 0x36, 0x3f, 0xf7, 0xcc, 0x34, 0xa5, 0xe5, 0xf1, 0x71, 0xd8, 0x31, 0x15,
  0x04, 0xc7, 0x23, 0xc3, 0x18, 0x96, 0x05, 0x9a, 0x07, 0x12, 0x80, 0xe2, 0xeb, 0x27, 0xb2, 0x75,
  0x09, 0x83, 0x2c, 0x1a, 0x1b, 0x6e, 0x5a, 0xa0, 0x52, 0x3b, 0xd6, 0xb3, 0x29, 0xe3, 0x2f, 0x84,
  0x53, 0xd1, 0x00, 0xed, 0x20, 0xfc, 0xb1, 0x5b, 0x6a, 0xcb, 0xbe, 0x39, 0x4a, 0x4c, 0x58, 0xcf,
  0xd0, 0xef, 0xaa, 0xfb, 0x43, 0x4d, 0x33, 0x85, 0x45, 0xf9, 0x02, 0x7f, 0x50, 0x3c, 0x9f, 0xa8,
  0x51, 0xa3, 0x40, 0x8f, 0x92, 0x9d, 0x38, 0xf5, 0xbc, 0xb6, 0xda, 0x21, 0x10, 0xff, 0xf3, 0xd2,
  0xcd, 0x0c, 0x13, 0xec, 0x5f, 0x97, 0x44, 0x17, 0xc4, 0xa7, 0x7e, 0x3d, 0x64, 0x5d, 0x19, 0x73,
  0x60, 0x81, 0x4f, 0xdc, 0x22, 0x2a, 0x90, 0x88, 0x46, 0xee, 0xb8, 0x14, 0xde, 0x5e, 0x0b, 0xdb,
  0xe0, 0x32, 0x3a, 0x0a, 0x49, 0x06, 0x24, 0x5c, 0xc2, 0xd3, 0xac, 0x62, 0x91, 0x95, 0xe4, 0x79,
  0xe7, 0xc8, 0x37, 0x6d, 0x8d, 0xd5, 0x4e, 0xa9, 0x6c, 0x56, 0xf4, 0xea, 0x65, 0x7a, 0xae, 0x08,
  0xba, 0x78, 0x25, 0x2e, 0x1c, 0xa6, 0xb4, 0xc6, 0xe8, 0xdd, 0x74, 0x1f, 0x4b, 0xbd, 0x8b, 0x8a,
  0x70, 0x3e, 0xb5, 0x66, 0x48, 0x03, 0xf6, 0x0e, 0x61, 0x35, 0x57, 0xb9, 0x86, 0xc1, 0x1d, 0x9e,
  0xe1, 0xf8, 0x98, 0x11, 0x69, 0xd9, 0x8e, 0x94, 0x9b, 0x1e, 0x87, 0xe9, 0xce, 0x55, 0x28, 0xdf,
  0x8c, 0xa1, 0x89, 0x0d, 0xbf, 0xe6, 0x42, 0x68, 0x41, 0x99, 0x2d, 0x0f, 0xb0, 0x54, 0xbb, 0x16]

def roundConstants : List UInt8 :=
  [0x8d, 0x01, 0x02, 0x04, 0x08, 0x10, 0x20, 0x40, 0x80, 0x1b, 0x36]

def aesSub (b : UInt8) : UInt8 := aesSbox.getD b.toNat 0

/-- The column that word `i` is added to: `tmp` of `AES_key_expand`. -/
def aesKeyTmp (roundKey : List UInt8) (i : ℕ) : Vector UInt8 4 :=
  let k := (i - 1) * 4
  let tmp : Vector UInt8 4 := #v[roundKey.getD (k + 0) 0, roundKey.getD (k + 1) 0,
    roundKey.getD (k + 2) 0, roundKey.getD (k + 3) 0]
  if i % 4 = 0 then
    let tmp : Vector UInt8 4 := #v[tmp.get 1, tmp.get 2, tmp.get 3, tmp.get 0]
    let tmp : Vector UInt8 4 :=
      #v[aesSub (tmp.get 0), aesSub (tmp.get 1), aesSub (tmp.get 2), aesSub (tmp.get 3)]
    #v[tmp.get 0 ^^^ roundConstants.getD (i / 4) 0, tmp.get 1, tmp.get 2, tmp.get 3]
  else tmp

/-- The loop body of `AES_key_expand`: word `i` is written behind the words before it. -/
def aesKeyExpandWord (roundKey : List UInt8) (i : ℕ) : List UInt8 :=
  let tmp := aesKeyTmp roundKey i
  let k := (i - 4) * 4
  roundKey ++ [roundKey.getD (k + 0) 0 ^^^ tmp.get 0, roundKey.getD (k + 1) 0 ^^^ tmp.get 1,
    roundKey.getD (k + 2) 0 ^^^ tmp.get 2, roundKey.getD (k + 3) 0 ^^^ tmp.get 3]

/-- The 176 bytes of `AES_ctx`. -/
def aesKeyExpand (key : AesKey) : List UInt8 :=
  (List.range' 4 40).foldl aesKeyExpandWord key.toList

def addRoundKey (round : ℕ) (state : AesKey) (ctx : List UInt8) : AesKey :=
  Vector.ofFn fun i => state[i] ^^^ ctx.getD ((round * 4 * 4 + i.val) % 176) 0

def subBytes (state : AesKey) : AesKey := state.map aesSub

def shiftRows (state : AesKey) : AesKey :=
  -- first row
  let tmp := state[0 * 4 + 1]
  let state := state.set (0 * 4 + 1) state[1 * 4 + 1]
  let state := state.set (1 * 4 + 1) state[2 * 4 + 1]
  let state := state.set (2 * 4 + 1) state[3 * 4 + 1]
  let state := state.set (3 * 4 + 1) tmp
  -- second row
  let tmp := state[0 * 4 + 2]
  let state := state.set (0 * 4 + 2) state[2 * 4 + 2]
  let state := state.set (2 * 4 + 2) tmp
  let tmp := state[1 * 4 + 2]
  let state := state.set (1 * 4 + 2) state[3 * 4 + 2]
  let state := state.set (3 * 4 + 2) tmp
  -- third row
  let tmp := state[0 * 4 + 3]
  let state := state.set (0 * 4 + 3) state[3 * 4 + 3]
  let state := state.set (3 * 4 + 3) state[2 * 4 + 3]
  let state := state.set (2 * 4 + 3) state[1 * 4 + 3]
  state.set (1 * 4 + 3) tmp

def gfMultiplyBy2 (x : UInt8) : UInt8 := (x <<< 1) ^^^ (((x >>> 7) &&& 1) * 0x1b)

/-- The loop body of `mix_columns`. -/
def mixColumn (state : AesKey) (i : Fin 4) : AesKey :=
  let t := state[i.val * 4 + 0]
  let tmp := state[i.val * 4 + 0] ^^^ state[i.val * 4 + 1] ^^^ state[i.val * 4 + 2] ^^^
    state[i.val * 4 + 3]
  let tm := gfMultiplyBy2 (state[i.val * 4 + 0] ^^^ state[i.val * 4 + 1])
  let state := state.set (i.val * 4 + 0) (state[i.val * 4 + 0] ^^^ (tm ^^^ tmp))
  let tm := gfMultiplyBy2 (state[i.val * 4 + 1] ^^^ state[i.val * 4 + 2])
  let state := state.set (i.val * 4 + 1) (state[i.val * 4 + 1] ^^^ (tm ^^^ tmp))
  let tm := gfMultiplyBy2 (state[i.val * 4 + 2] ^^^ state[i.val * 4 + 3])
  let state := state.set (i.val * 4 + 2) (state[i.val * 4 + 2] ^^^ (tm ^^^ tmp))
  let tm := gfMultiplyBy2 (state[i.val * 4 + 3] ^^^ t)
  state.set (i.val * 4 + 3) (state[i.val * 4 + 3] ^^^ (tm ^^^ tmp))

def mixColumns (state : AesKey) : AesKey := (List.finRange 4).foldl mixColumn state

/-- The tenth round leaves the loop before its columns are mixed. -/
def aesEcbEncrypt (ctx : List UInt8) (state : AesKey) : AesKey :=
  let state := addRoundKey 0 state ctx
  let state := (List.range' 1 9).foldl
    (fun state round => addRoundKey round (mixColumns (shiftRows (subBytes state))) ctx) state
  addRoundKey 10 (shiftRows (subBytes state)) ctx

/-! ### The cipher is AES-128 -/

theorem aesSub_eq (b : UInt8) : aesSub b = Aes.sBox b :=
  Aes.forall_byte (P := fun b => aesSub b = Aes.sBox b) (by decide +kernel) b

theorem subBytes_eq (state : AesKey) : subBytes state = Aes.subBytes state := by
  simp only [subBytes, Aes.subBytes, funext aesSub_eq]

theorem aesKey_eta (s : AesKey) : s = #v[s[0], s[1], s[2], s[3], s[4], s[5], s[6], s[7], s[8],
    s[9], s[10], s[11], s[12], s[13], s[14], s[15]] := by
  apply Vector.ext
  intro i hi
  interval_cases i <;> rfl

theorem shiftRows_eq (state : AesKey) : shiftRows state = Aes.shiftRows state := by
  have h : shiftRows state = #v[state[0], state[5], state[10], state[15], state[4], state[9],
      state[14], state[3], state[8], state[13], state[2], state[7], state[12], state[1], state[6],
      state[11]] := by
    conv_lhs => rw [aesKey_eta state]
    simp [shiftRows]
  rw [h]
  apply Vector.ext
  intro i hi
  simp only [Aes.shiftRows, Vector.getElem_ofFn]
  interval_cases i <;> rfl

theorem gfMultiplyBy2_eq (x : UInt8) : gfMultiplyBy2 x = Aes.byteMul 2 x :=
  Aes.forall_byte (P := fun b => gfMultiplyBy2 b = Aes.byteMul 2 b) (by decide +kernel) x

theorem byteMul_three (x : UInt8) : Aes.byteMul 3 x = gfMultiplyBy2 x ^^^ x :=
  Aes.forall_byte (P := fun b => Aes.byteMul 3 b = gfMultiplyBy2 b ^^^ b) (by decide +kernel) x

theorem gfMultiplyBy2_msb (x : UInt8) :
    gfMultiplyBy2 x = (x <<< 1) ^^^ if x.toBitVec.msb then 0x1b else 0 :=
  Aes.forall_byte
    (P := fun b => gfMultiplyBy2 b = (b <<< 1) ^^^ if b.toBitVec.msb then 0x1b else 0)
    (by decide +kernel) x

theorem shiftLeft_one_xor (x y : UInt8) : (x ^^^ y) <<< 1 = (x <<< 1) ^^^ (y <<< 1) := by
  apply UInt8.toBitVec_inj.mp
  simp [BitVec.shiftLeft_xor_distrib]

theorem gfMultiplyBy2_xor (x y : UInt8) :
    gfMultiplyBy2 (x ^^^ y) = gfMultiplyBy2 x ^^^ gfMultiplyBy2 y := by
  simp only [gfMultiplyBy2_msb, shiftLeft_one_xor, UInt8.toBitVec_xor, BitVec.msb_xor]
  cases x.toBitVec.msb <;> cases y.toBitVec.msb
  · simp
  · simp [UInt8.xor_assoc]
  · simp only [Bool.xor_false, if_true, Bool.false_eq_true, if_false, UInt8.xor_zero]
    ac_rfl
  · simp only [Bool.xor_self, Bool.false_eq_true, if_false, if_true, UInt8.xor_zero]
    have h : (0x1b : UInt8) ^^^ 0x1b = 0 := by decide
    calc x <<< 1 ^^^ y <<< 1 = x <<< 1 ^^^ y <<< 1 ^^^ (0x1b ^^^ 0x1b) := by
          rw [h, UInt8.xor_zero]
      _ = _ := by ac_rfl

/-- The code's column sum and a row of the standard's matrix. -/
theorem mixed_byte (a b c d t : UInt8) (ht : t = a ^^^ b ^^^ c ^^^ d) :
    a ^^^ (gfMultiplyBy2 (a ^^^ b) ^^^ t) =
      Aes.byteMul 2 a ^^^ Aes.byteMul 3 b ^^^ c ^^^ d := by
  rw [ht, gfMultiplyBy2_xor, byteMul_three, ← gfMultiplyBy2_eq]
  calc a ^^^ (gfMultiplyBy2 a ^^^ gfMultiplyBy2 b ^^^ (a ^^^ b ^^^ c ^^^ d))
      = (a ^^^ a) ^^^ (gfMultiplyBy2 a ^^^ (gfMultiplyBy2 b ^^^ b) ^^^ c ^^^ d) := by ac_rfl
    _ = _ := by rw [UInt8.xor_self, UInt8.zero_xor]

theorem mixColumn_other (s : AesKey) (c : Fin 4) {j : ℕ} (hj : j < 16) (hc : j / 4 ≠ c.val) :
    (mixColumn s c)[j] = s[j] := by
  have h : ∀ r < 4, c.val * 4 + r ≠ j := by
    intro r hr
    omega
  simp only [mixColumn]
  rw [Vector.getElem_set_ne _ _ (h 3 (by omega)), Vector.getElem_set_ne _ _ (h 2 (by omega)),
    Vector.getElem_set_ne _ _ (h 1 (by omega)), Vector.getElem_set_ne _ _ (h 0 (by omega))]

theorem mixColumn_self (s : AesKey) (c : Fin 4) {j : ℕ} (hj : j < 16) (hc : j / 4 = c.val) :
    (mixColumn s c)[j] = (Aes.mixColumns s)[j] := by
  obtain ⟨c, hc4⟩ := c
  have h : j = c * 4 + j % 4 := by simp only at hc; omega
  have hr : j % 4 < 4 := by omega
  generalize j % 4 = r at h hr
  subst h
  have hd : (c * 4 + r) / 4 = c := by omega
  have hm : (c * 4 + r) % 4 = r := by omega
  have hk : ∀ k, (c * 4 + r + k) % 4 = (r + k) % 4 := by
    intro k
    omega
  have hx : ∀ x y z w : UInt8, x ^^^ y ^^^ z ^^^ w = y ^^^ z ^^^ w ^^^ x := by
    intro x y z w
    ac_rfl
  simp only [Aes.mixColumns, Vector.getElem_ofFn, hd, hm, hk]
  interval_cases r
  · simp [mixColumn]
    exact mixed_byte _ _ _ _ _ rfl
  · simp [mixColumn]
    exact mixed_byte _ _ _ _ _ (hx _ _ _ _)
  · simp [mixColumn]
    exact mixed_byte _ _ _ _ _ ((hx _ _ _ _).trans (hx _ _ _ _))
  · simp [mixColumn]
    exact mixed_byte _ _ _ _ _ (hx _ _ _ _).symm

theorem aes_mixColumns_congr {s t : AesKey} {j : ℕ} (hj : j < 16)
    (h : ∀ i (hi : i < 16), i / 4 = j / 4 → t[i] = s[i]) :
    (Aes.mixColumns t)[j] = (Aes.mixColumns s)[j] := by
  have hc : ∀ r (hr : r < 4), t[j / 4 * 4 + r] = s[j / 4 * 4 + r] := by
    intro r hr
    exact h _ (by omega) (by omega)
  simp only [Aes.mixColumns, Vector.getElem_ofFn, hc _ (Nat.mod_lt _ (by omega : 4 > 0))]

/-- The first `k` columns of `t` are those of `s` mixed, the others those of `s`. -/
def ColumnsMixed (s : AesKey) (k : ℕ) (t : AesKey) : Prop :=
  ∀ j (hj : j < 16), t[j] = if j / 4 < k then (Aes.mixColumns s)[j] else s[j]

theorem ColumnsMixed.step {s t : AesKey} {c : Fin 4} (h : ColumnsMixed s c.val t) :
    ColumnsMixed s (c.val + 1) (mixColumn t c) := by
  intro j hj
  by_cases hc : j / 4 = c.val
  · rw [mixColumn_self t c hj hc, if_pos (by omega)]
    apply aes_mixColumns_congr hj
    intro i hi hij
    rw [h i hi, if_neg (by omega)]
  · rw [mixColumn_other t c hj hc, h j hj]
    have hlt : j / 4 < c.val ↔ j / 4 < c.val + 1 := by omega
    simp only [hlt]

theorem mixColumns_eq (state : AesKey) : mixColumns state = Aes.mixColumns state := by
  have h0 : ColumnsMixed state 0 state := by
    intro j hj
    rw [if_neg (by omega)]
  have h4 : ColumnsMixed state 4 (mixColumns state) :=
    (((h0.step (c := 0)).step (c := 1)).step (c := 2)).step (c := 3)
  apply Vector.ext
  intro j hj
  rw [h4 j hj, if_pos (by omega)]

/-! ### Key schedule -/

theorem roundConstants_eq {i : ℕ} (hi : i < 11) (h0 : i ≠ 0) :
    #v[roundConstants.getD i 0, 0, 0, 0] = Aes.rcon i := by
  have h : ∀ i : Fin 11, i.val ≠ 0 → #v[roundConstants.getD i.val 0, 0, 0, 0] = Aes.rcon i.val := by
    decide +kernel
  exact h ⟨i, hi⟩ h0

/-- The bytes of a list of words. -/
theorem flatMap_words_getD (ws : List Aes.Word) (j : ℕ) {b : ℕ} (hb : b < 4) :
    (ws.flatMap Vector.toList).getD (j * 4 + b) 0 = (ws.getD j Aes.zeroWord)[b] := by
  induction ws generalizing j with
  | nil => simp [Aes.zeroWord]
  | cons w ws ih =>
    cases j with
    | zero =>
      rw [List.flatMap_cons, List.getD_append _ _ _ _ (by simp; omega)]
      simp [List.getD_eq_getElem?_getD, hb]
    | succ j =>
      rw [List.flatMap_cons, List.getD_append_right _ _ _ _ (by simp; omega)]
      have h : (j + 1) * 4 + b - w.toList.length = j * 4 + b := by simp; omega
      rw [h, ih, List.getD_cons_succ]

theorem flatMap_words_length (ws : List Aes.Word) :
    (ws.flatMap Vector.toList).length = ws.length * 4 := by
  induction ws with
  | nil => rfl
  | cons w ws ih => simp [ih]; omega

theorem word_eta (w : Aes.Word) : #v[w.get 0, w.get 1, w.get 2, w.get 3] = w := by
  apply Vector.ext
  intro i hi
  interval_cases i <;> rfl

theorem rotWord_eq (w : Aes.Word) :
    Aes.rotWord w = #v[w.get 1, w.get 2, w.get 3, w.get 0] := by
  apply Vector.ext
  intro i hi
  simp only [Aes.rotWord, Vector.getElem_ofFn]
  interval_cases i <;> rfl

/-- One word of the schedule over any bytes `rk` whose words `i - 1` and `i - 4` are known. -/
theorem aesKeyTmp_word {rk : List UInt8} {i : ℕ} {w : Aes.Word}
    (hw : ∀ b (hb : b < 4), rk.getD ((i - 1) * 4 + b) 0 = w[b]) (h0 : 4 ≤ i) (hi : i < 44) :
    aesKeyTmp rk i =
      if i % 4 = 0 then Aes.xorWord (Aes.subWord (Aes.rotWord w)) (Aes.rcon (i / 4)) else w := by
  rw [← roundConstants_eq (i := i / 4) (by omega) (by omega)]
  have hget : ∀ b : Fin 4, rk.getD ((i - 1) * 4 + b.val) 0 = w.get b := fun b => hw b b.isLt
  have htmp : #v[rk.getD ((i - 1) * 4 + 0) 0, rk.getD ((i - 1) * 4 + 1) 0,
      rk.getD ((i - 1) * 4 + 2) 0, rk.getD ((i - 1) * 4 + 3) 0] = w := by
    rw [← word_eta w, ← hget 0, ← hget 1, ← hget 2, ← hget 3]
    rfl
  simp only [aesKeyTmp, htmp]
  split
  · apply Vector.ext
    intro j hj
    interval_cases j <;>
      simp [Aes.xorWord, Aes.subWord, rotWord_eq, aesSub_eq, Vector.get] <;> rfl
  · rfl

theorem aesKeyExpandWord_word {rk : List UInt8} {i : ℕ} {v w : Aes.Word}
    (hw : ∀ b (hb : b < 4), rk.getD ((i - 1) * 4 + b) 0 = w[b])
    (hv : ∀ b (hb : b < 4), rk.getD ((i - 4) * 4 + b) 0 = v[b]) (h0 : 4 ≤ i) (hi : i < 44) :
    aesKeyExpandWord rk i = rk ++ (Aes.xorWord v
      (if i % 4 = 0 then Aes.xorWord (Aes.subWord (Aes.rotWord w)) (Aes.rcon (i / 4))
        else w)).toList := by
  simp only [aesKeyExpandWord, aesKeyTmp_word hw h0 hi, hv 0 (by omega), hv 1 (by omega),
    hv 2 (by omega), hv 3 (by omega)]
  rfl

theorem aesKeyExpandWord_eq {ws : List Aes.Word} (h4 : 4 ≤ ws.length) (h44 : ws.length < 44) :
    aesKeyExpandWord (ws.flatMap Vector.toList) ws.length =
      (ws ++ [Aes.nextWord ws]).flatMap Vector.toList := by
  rw [aesKeyExpandWord_word (fun b hb => flatMap_words_getD ws (ws.length - 1) hb)
    (fun b hb => flatMap_words_getD ws (ws.length - 4) hb) h4 h44, List.flatMap_append,
    List.flatMap_singleton]
  rfl

theorem aesKeyExpand_eq (key : AesKey) :
    aesKeyExpand key = (Aes.expand key 40).flatMap Vector.toList := by
  have h : ∀ n ≤ 40, (List.range' 4 n).foldl aesKeyExpandWord key.toList =
      (Aes.expand key n).flatMap Vector.toList := by
    intro n
    induction n with
    | zero =>
      intro _
      conv_lhs => rw [aesKey_eta key]
      rfl
    | succ n ih =>
      intro hn
      rw [List.range'_concat, List.foldl_append, ih (by omega)]
      have hl : 4 + 1 * n = (Aes.expand key n).length := by simp; omega
      rw [List.foldl_cons, List.foldl_nil, hl]
      exact aesKeyExpandWord_eq (by simp) (by simp; omega)
  exact h 40 le_rfl

theorem roundKey_byte (key : AesKey) {round i : ℕ} (hr : round ≤ 10) (hi : i < 16) :
    (aesKeyExpand key).getD ((round * 4 * 4 + i) % 176) 0 = (Aes.roundKey key round)[i] := by
  have hp : (round * 4 * 4 + i) % 176 = (4 * round + i / 4) * 4 + i % 4 := by omega
  rw [hp, aesKeyExpand_eq, flatMap_words_getD _ _ (Nat.mod_lt i (by omega))]
  simp only [Aes.roundKey, Vector.getElem_ofFn]

theorem addRoundKey_eq (key state : AesKey) {round : ℕ} (h : round ≤ 10) :
    addRoundKey round state (aesKeyExpand key) =
      Aes.addRoundKey (Aes.roundKey key round) state := by
  apply Vector.ext
  intro i hi
  simp only [addRoundKey, Aes.addRoundKey, Vector.getElem_ofFn]
  rw [roundKey_byte key h hi]
  rfl

theorem aesEcbEncrypt_eq (key state : AesKey) :
    aesEcbEncrypt (aesKeyExpand key) state = Aes.encrypt key state := by
  have hr : ∀ s, ∀ round ∈ List.range' 1 9,
      addRoundKey round (mixColumns (shiftRows (subBytes s))) (aesKeyExpand key) =
        Aes.addRoundKey (Aes.roundKey key round)
          (Aes.mixColumns (Aes.shiftRows (Aes.subBytes s))) := by
    intro s round hm
    have hm := List.mem_range'_1.mp hm
    rw [addRoundKey_eq key _ (by omega), mixColumns_eq, shiftRows_eq, subBytes_eq]
  simp only [aesEcbEncrypt, Aes.encrypt]
  rw [List.foldl_ext _ _ _ hr, addRoundKey_eq key _ (Nat.zero_le 10),
    addRoundKey_eq key _ (le_refl 10), shiftRows_eq, subBytes_eq]

theorem aesKeyExpand_length (key : AesKey) : (aesKeyExpand key).length = 176 := by
  rw [aesKeyExpand_eq, flatMap_words_length, Aes.length_expand]

/-- The power that stands for the inverse in the S-box is one. -/
theorem inverse_mul (b : UInt8) :
    Aes.mul b.toNat (Aes.inverse b.toNat) = if b = 0 then 0 else 1 :=
  Aes.forall_byte (P := fun b => Aes.mul b.toNat (Aes.inverse b.toNat) = if b = 0 then 0 else 1)
    (by decide +kernel) b

/-- The code computes the cipher of the standard, whose S-box inverts every byte but zero. -/
theorem aes128_standard :
    (∀ key block : AesKey, aesEcbEncrypt (aesKeyExpand key) block = Aes.encrypt key block) ∧
      ∀ b : UInt8, Aes.mul b.toNat (Aes.inverse b.toNat) = if b = 0 then 0 else 1 :=
  ⟨aesEcbEncrypt_eq, inverse_mul⟩

/-! ### A key is a permutation of blocks -/

/-- The first byte of a column, from the bytes of the mixed column. -/
def unmixByte (a b c d : UInt8) : UInt8 :=
  let t := a ^^^ b ^^^ c ^^^ d
  let ac := a ^^^ c ^^^ gfMultiplyBy2 t
  let ab := a ^^^ b ^^^ gfMultiplyBy2 ac
  a ^^^ t ^^^ gfMultiplyBy2 ab

def mixedByte (a b c d : UInt8) : UInt8 := Aes.byteMul 2 a ^^^ Aes.byteMul 3 b ^^^ c ^^^ d

theorem mixedByte_eq (a b c d : UInt8) :
    mixedByte a b c d = gfMultiplyBy2 a ^^^ (gfMultiplyBy2 b ^^^ b) ^^^ c ^^^ d := by
  rw [mixedByte, byteMul_three, gfMultiplyBy2_eq a]

theorem unmixByte_mixed (a b c d : UInt8) :
    unmixByte (mixedByte a b c d) (mixedByte b c d a) (mixedByte c d a b) (mixedByte d a b c) =
      a := by
  have hcancel : ∀ x y : UInt8, (x ^^^ x) ^^^ y = y := fun x y => by
    rw [UInt8.xor_self, UInt8.zero_xor]
  have hsum : mixedByte a b c d ^^^ mixedByte b c d a ^^^ mixedByte c d a b ^^^ mixedByte d a b c =
      a ^^^ b ^^^ c ^^^ d := by
    simp only [mixedByte_eq]
    generalize gfMultiplyBy2 a = p, gfMultiplyBy2 b = q, gfMultiplyBy2 c = r, gfMultiplyBy2 d = w
    calc _ = (p ^^^ p) ^^^ ((q ^^^ q) ^^^ ((r ^^^ r) ^^^ ((w ^^^ w) ^^^ ((a ^^^ a) ^^^
          ((b ^^^ b) ^^^ ((c ^^^ c) ^^^ ((d ^^^ d) ^^^ (a ^^^ b ^^^ c ^^^ d)))))))) := by ac_rfl
      _ = _ := by simp only [hcancel]
  have hac : mixedByte a b c d ^^^ mixedByte c d a b ^^^ gfMultiplyBy2 (a ^^^ b ^^^ c ^^^ d) =
      a ^^^ c := by
    simp only [mixedByte_eq, gfMultiplyBy2_xor]
    generalize gfMultiplyBy2 a = p, gfMultiplyBy2 b = q, gfMultiplyBy2 c = r, gfMultiplyBy2 d = w
    calc _ = (p ^^^ p) ^^^ ((q ^^^ q) ^^^ ((r ^^^ r) ^^^ ((w ^^^ w) ^^^ ((b ^^^ b) ^^^
          ((d ^^^ d) ^^^ (a ^^^ c)))))) := by ac_rfl
      _ = _ := by simp only [hcancel]
  have hab : mixedByte a b c d ^^^ mixedByte b c d a ^^^ gfMultiplyBy2 (a ^^^ c) = a ^^^ b := by
    simp only [mixedByte_eq, gfMultiplyBy2_xor]
    generalize gfMultiplyBy2 a = p, gfMultiplyBy2 b = q, gfMultiplyBy2 c = r
    calc _ = (p ^^^ p) ^^^ ((q ^^^ q) ^^^ ((r ^^^ r) ^^^ ((c ^^^ c) ^^^ ((d ^^^ d) ^^^
          (a ^^^ b))))) := by ac_rfl
      _ = _ := by simp only [hcancel]
  rw [unmixByte, hsum, hac, hab]
  simp only [mixedByte_eq, gfMultiplyBy2_xor]
  generalize gfMultiplyBy2 a = p, gfMultiplyBy2 b = q
  calc _ = (p ^^^ p) ^^^ ((q ^^^ q) ^^^ ((b ^^^ b) ^^^ ((c ^^^ c) ^^^ ((d ^^^ d) ^^^ a)))) := by
        ac_rfl
    _ = _ := by simp only [hcancel]

theorem aes_mixColumns_getElem (s : AesKey) {i : ℕ} (hi : i < 16) :
    (Aes.mixColumns s)[i] = mixedByte s[i / 4 * 4 + i % 4] s[i / 4 * 4 + (i + 1) % 4]
      s[i / 4 * 4 + (i + 2) % 4] s[i / 4 * 4 + (i + 3) % 4] := by
  simp only [Aes.mixColumns, Vector.getElem_ofFn, mixedByte]

theorem aes_mixColumns_injective : Function.Injective Aes.mixColumns := by
  have hunmix : ∀ s : AesKey, ∀ i (hi : i < 16), s[i] = unmixByte (Aes.mixColumns s)[i]
      (Aes.mixColumns s)[i / 4 * 4 + (i + 1) % 4] (Aes.mixColumns s)[i / 4 * 4 + (i + 2) % 4]
        (Aes.mixColumns s)[i / 4 * 4 + (i + 3) % 4] := by
    intro s i hi
    simp only [aes_mixColumns_getElem]
    interval_cases i <;> exact (unmixByte_mixed _ _ _ _).symm
  intro s t h
  apply Vector.ext
  intro i hi
  rw [hunmix s i hi, hunmix t i hi, h]

theorem aes_shiftRows_injective : Function.Injective Aes.shiftRows := by
  intro s t h
  apply Vector.ext
  intro i hi
  have hrow : ∀ s : AesKey, s[i] = (Aes.shiftRows s)[(i / 4 + 4 - i % 4) % 4 * 4 + i % 4] := by
    intro s
    simp only [Aes.shiftRows, Vector.getElem_ofFn]
    congr 1
    omega
  rw [hrow s, hrow t, h]

/-- The affine map is undone, and then the inversion. -/
def unsub (b : UInt8) : UInt8 :=
  let x := (b ^^^ 0x63).toNat
  UInt8.ofNat (Aes.inverse (Aes.rotl x 1 ^^^ Aes.rotl x 3 ^^^ Aes.rotl x 6))

theorem unsub_aesSub (b : UInt8) : unsub (aesSub b) = b := by
  have htable : aesSbox.map unsub = (List.range 256).map UInt8.ofNat := by decide +kernel
  have hlength : aesSbox.length = 256 := by simpa using congrArg List.length htable
  have hlt : b.toNat < aesSbox.length := hlength ▸ b.toNat_lt
  have hrange : b.toNat < (List.range 256).length := by simpa using b.toNat_lt
  have hget : (aesSbox.map unsub)[b.toNat]? = ((List.range 256).map UInt8.ofNat)[b.toNat]? := by
    rw [htable]
  rw [List.getElem?_map, List.getElem?_map, List.getElem?_eq_getElem hlt,
    List.getElem?_eq_getElem hrange, List.getElem_range] at hget
  simpa [aesSub, List.getD_eq_getElem?_getD, hlt] using hget

theorem aes_sBox_injective : Function.Injective Aes.sBox := by
  intro a b h
  rw [← aesSub_eq, ← aesSub_eq] at h
  rw [← unsub_aesSub a, h, unsub_aesSub]

theorem aes_subBytes_injective : Function.Injective Aes.subBytes := by
  intro s t h
  apply Vector.ext
  intro i hi
  have hbyte : (Aes.subBytes s)[i] = (Aes.subBytes t)[i] := by rw [h]
  rw [Aes.subBytes, Aes.subBytes, Vector.getElem_map, Vector.getElem_map] at hbyte
  exact aes_sBox_injective hbyte

theorem aes_addRoundKey_injective (k : AesKey) : Function.Injective (Aes.addRoundKey k) := by
  intro s t h
  apply Vector.ext
  intro i hi
  have hbyte : ∀ s : AesKey, s[i] = (Aes.addRoundKey k s)[i] ^^^ k[i] := by
    intro s
    have hget : (Aes.addRoundKey k s)[i] = s[i] ^^^ k[i] := by
      rw [Aes.addRoundKey, Vector.getElem_ofFn]
      rfl
    rw [hget, UInt8.xor_assoc, UInt8.xor_self, UInt8.xor_zero]
  rw [hbyte s, hbyte t, h]

/-- Two blocks are never encrypted alike. -/
theorem aes_encrypt_injective (key : AesKey) : Function.Injective (Aes.encrypt key) := by
  have hround : ∀ r, Function.Injective fun s =>
      Aes.addRoundKey (Aes.roundKey key r) (Aes.mixColumns (Aes.shiftRows (Aes.subBytes s))) := by
    intro r
    exact (aes_addRoundKey_injective _).comp (aes_mixColumns_injective.comp
      (aes_shiftRows_injective.comp aes_subBytes_injective))
  have hrounds : ∀ rs : List ℕ, Function.Injective fun s => rs.foldl (fun s r =>
      Aes.addRoundKey (Aes.roundKey key r)
        (Aes.mixColumns (Aes.shiftRows (Aes.subBytes s)))) s := by
    intro rs
    induction rs with
    | nil => exact Function.injective_id
    | cons r rs ih => exact ih.comp (hround r)
  intro s t h
  rw [Aes.encrypt, Aes.encrypt] at h
  have h := aes_addRoundKey_injective _ h
  have h := hrounds _ (aes_subBytes_injective (aes_shiftRows_injective h))
  exact aes_addRoundKey_injective _ h

end Udpgrm
