import Udpgrm.Dispatch
import Udpgrm.Lib.SipHash

/-! The hash of a flow key: `hsiphash` on the 22 bytes that the hooks agree on. -/
namespace Udpgrm

open LittleEndian (u64)
open SipHash (State rotl)

/-- `HALF_ROUND`: the four words after it. -/
def halfRound (a b c d s t : UInt64) : UInt64 × UInt64 × UInt64 × UInt64 :=
  let a := a + b
  let c := c + d
  let b := rotl b s ^^^ a
  let d := rotl d t ^^^ c
  (rotl a 32, b, c, d)

/-- `ROUND`. -/
def hsipRound (v : State) : State :=
  let (v0, v1, v2, v3) := halfRound v.v0 v.v1 v.v2 v.v3 13 16
  let (v2, v1, v0, v3) := halfRound v2 v1 v0 v3 17 21
  ⟨v0, v1, v2, v3⟩

/-- One word taken into the state. -/
def hsipWord (v : State) (mi : UInt64) : State :=
  let v := hsipRound { v with v3 := v.v3 ^^^ mi }
  { v with v0 := v.v0 ^^^ mi }

/-- The loop over whole words: the state, and the bytes that are left. -/
def hsipLoop (v : State) (src : List UInt8) : State × List UInt8 :=
  if 8 ≤ src.length then hsipLoop (hsipWord v (u64 src 0)) (src.drop 8) else (v, src)
termination_by src.length
decreasing_by
  rw [List.length_drop]
  omega

/-- The `switch` over the number of bytes left, with its cases that fall through: the eight bytes
of `t`. -/
def hsipTail (m : List UInt8) : List UInt8 :=
  let t := List.replicate 8 (0 : UInt8)
  let t := if m.length = 7 then t.set 6 (m.getD 6 0) else t
  let t := if 6 ≤ m.length then t.set 5 (m.getD 5 0) else t
  let t := if 5 ≤ m.length then t.set 4 (m.getD 4 0) else t
  if 4 ≤ m.length then m.take 4 ++ t.drop 4
  else
    let t := if m.length = 3 then t.set 2 (m.getD 2 0) else t
    let t := if 2 ≤ m.length then t.set 1 (m.getD 1 0) else t
    if 1 ≤ m.length then t.set 0 (m.getD 0 0) else t

def hsiphash (key src : List UInt8) : UInt32 :=
  let k0 := u64 key 0
  let k1 := u64 key 8
  let b := UInt64.ofNat src.length <<< 56
  let (v, m) := hsipLoop ⟨k0 ^^^ 0x736f6d6570736575, k1 ^^^ 0x646f72616e646f6d,
    k0 ^^^ 0x6c7967656e657261, k1 ^^^ 0x7465646279746573⟩ src
  let b := b ||| u64 (hsipTail m) 0
  let v := hsipWord v b
  let v := hsipRound (hsipRound { v with v2 := v.v2 ^^^ 0xff })
  ((v.v0 ^^^ v.v1) ^^^ (v.v2 ^^^ v.v3)).toUInt32

/-- `siphash_key` of `count_ip_flow_hash`. -/
def siphashKey : List UInt8 :=
  [0xd9, 0xbd, 0xd7, 0xf6, 0xa0, 0xb3, 0x49, 0x83, 0x10, 0xb7, 0x49, 0x0f, 0x75, 0x56, 0xfd, 0x4c]

def countIpFlowHash (data : IpFlowHash) : UInt32 := hsiphash siphashKey data.toBytes

/-! ### The code and the definition -/

theorem hsipRound_eq (v : State) : hsipRound v = SipHash.sipRound v := rfl

theorem hsipWord_eq (v : State) (mi : UInt64) : hsipWord v mi = SipHash.compress 1 v mi := rfl

theorem hsipTail_eq {m : List UInt8} (h : m.length < 8) :
    hsipTail m = m ++ List.replicate (8 - m.length) 0 := by
  rcases m with _ | ⟨a, _ | ⟨b, _ | ⟨c, _ | ⟨d, _ | ⟨e, _ | ⟨f, _ | ⟨g, _ | ⟨i, m⟩⟩⟩⟩⟩⟩⟩⟩
  · rfl
  · rfl
  · rfl
  · rfl
  · rfl
  · rfl
  · rfl
  · rfl
  · exact absurd h (by simp)

theorem u64_hsipTail {m : List UInt8} (h : m.length < 8) :
    u64 (hsipTail m) 0 = UInt64.ofNat (LittleEndian.toNat m) := by
  have hzeros : LittleEndian.toNat (List.replicate (8 - m.length) 0) = 0 :=
    LittleEndian.toNat_eq_zero fun b hb => List.eq_of_mem_replicate hb
  have hall : LittleEndian.field (m ++ List.replicate (8 - m.length) 0) 0 8 =
      m ++ List.replicate (8 - m.length) 0 := by
    rw [LittleEndian.field, List.drop_zero]
    refine List.take_of_length_le ?_
    rw [List.length_append, List.length_replicate]
    omega
  rw [u64, hsipTail_eq h, hall, LittleEndian.toNat_append, hzeros, Nat.mul_zero, Nat.add_zero]

/-- The loop and the word behind it take in the message, its padding and its length. -/
theorem hsipLoop_words (n : ℕ) (v : State) (src : List UInt8) :
    hsipWord (hsipLoop v src).1
        (UInt64.ofNat n <<< 56 ||| u64 (hsipTail (hsipLoop v src).2) 0) =
      (SipHash.words (src ++ List.replicate (7 - src.length % 8) 0 ++ [UInt8.ofNat n])).foldl
        (SipHash.compress 1) v := by
  induction v, src using hsipLoop.induct with
  | case1 v src hle ih =>
    have hwhole : 8 ≤ (src ++ List.replicate (7 - src.length % 8) 0 ++ [UInt8.ofNat n]).length := by
      rw [List.append_assoc, List.length_append]
      omega
    have hhead : u64 (src ++ List.replicate (7 - src.length % 8) 0 ++ [UInt8.ofNat n]) 0 =
        u64 src 0 := by
      rw [u64, u64, LittleEndian.field, LittleEndian.field, List.drop_zero, List.drop_zero,
        List.append_assoc, List.take_append_of_le_length hle]
    have hmod : (src.drop 8).length % 8 = src.length % 8 := by
      rw [List.length_drop]
      omega
    rw [hmod] at ih
    rw [hsipLoop, if_pos hle, ih, SipHash.words_of_le hwhole, List.foldl_cons, hhead,
      List.append_assoc, List.append_assoc, List.drop_append_of_le_length hle, hsipWord_eq]
  | case2 v src hlt =>
    have hlt : src.length < 8 := by omega
    have hlength : (src ++ List.replicate (7 - src.length) 0 ++ [UInt8.ofNat n]).length = 8 := by
      simp only [List.length_append, List.length_replicate, List.length_singleton]
      omega
    rw [hsipLoop, if_neg (by omega), Nat.mod_eq_of_lt hlt, SipHash.words_eight hlength,
      SipHash.u64_last n hlt, u64_hsipTail hlt, List.foldl_cons, List.foldl_nil, hsipWord_eq]

/-- `hsiphash` is SipHash with one round for each word and two at the end, cut to 32 bits. -/
theorem hsiphash_is_siphash (key src : List UInt8) :
    hsiphash key src = (SipHash.hash 1 2 (u64 key 0) (u64 key 8) src).toUInt32 := by
  have hwords := hsipLoop_words src.length (SipHash.initial (u64 key 0) (u64 key 8)) src
  rw [SipHash.hash, SipHash.pad, ← hwords]
  simp only [hsiphash, SipHash.finish, SipHash.rounds, Function.iterate_succ, Function.comp_apply,
    Function.iterate_zero, id_eq, hsipRound_eq, SipHash.initial, UInt64.xor_assoc]

end Udpgrm
