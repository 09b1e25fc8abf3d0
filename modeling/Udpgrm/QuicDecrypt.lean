import Udpgrm.Cbpf
import Udpgrm.QuicHeader

/-! The payload of an Initial packet is copied to the scratch page and decrypted there. -/
namespace Udpgrm

open ByteMemory

/-- Two big-endian halves, with a carry. -/
def incrementCounter (counter : AesKey) : AesKey :=
  let c1 := BigEndian.u64 counter.toList 8 + 1
  let c0 := BigEndian.u64 counter.toList 0 + if c1 = 0 then 1 else 0
  QuicInitial.block (BigEndian.ofNat 8 c0.toNat ++ BigEndian.ofNat 8 c1.toNat)

/-- The expanded key is at the start of the union. The loop breaks behind the end of the buffer. -/
def doDecryptQuicLoop (index : UInt32) (scratch : Scratch) : Scratch × Bool :=
  let i := (index * 16).toNat
  let scratch := { scratch with quicIv := incrementCounter scratch.quicIv }
  let tmp := aesEcbEncrypt (load scratch.area 0 176) scratch.quicIv
  if i + 16 > 1024 then (scratch, true)
  else
    ({ scratch with
      pkt := store scratch.pkt i (List.zipWith (· ^^^ ·) (load scratch.pkt i 16) tmp.toList) },
      false)

def clearUpperBytes (len : UInt8) : UInt64 × UInt64 :=
  let len := (len &&& 0x0F).toNat
  if len ≥ 8 then (0xFFFFFFFFFFFFFFFF, (1 <<< UInt64.ofNat ((len - 8) * 8)) - 1)
  else ((1 <<< UInt64.ofNat (len * 8)) - 1, 0)

/-- `*(uint64_t *)&pkt[off] &= mask`. -/
def maskWord (pkt : Memory 1024) (off : ℕ) (mask : UInt64) : Memory 1024 :=
  store pkt off (LittleEndian.ofNat 8 (LittleEndian.toNat (load pkt off 8) &&& mask.toNat))

def decryptQuic (scratch : Scratch) (packetLen : ℕ) : Scratch :=
  let blocks := packetLen / 16 + if packetLen % 16 ≠ 0 then 1 else 0
  let scratch := bpfLoop doDecryptQuicLoop 0 blocks scratch
  let mask := clearUpperBytes (UInt8.ofNat (packetLen % 16))
  let lastChunkOff := packetLen / 16 * 16
  if lastChunkOff > 1024 - 16 then scratch
  else
    { scratch with
      pkt := maskWord (maskWord scratch.pkt lastChunkOff mask.1) (lastChunkOff + 8) mask.2 }

/-- `quic_extract_sni` up to the parser of the ClientHello. A load that fails clears the bytes that
it was to fill. -/
def quicDecryptPayload (md : Md) (scratch : Scratch) (encOffset packetLen : ℕ) :
    Scratch × Except IErr Unit :=
  if packetLen < 2 then (scratch, .error .sanity)
  else
    let packetLen := min packetLen 1024
    match loadBytes md.data encOffset packetLen with
    | none =>
      ({ scratch with pkt := store scratch.pkt 0 (List.replicate packetLen 0) }, .error .load)
    | some enc =>
      let scratch := { scratch with
        pkt := store scratch.pkt 0 enc
        area := store scratch.area 0 (aesKeyExpand scratch.quicKey) }
      (decryptQuic scratch packetLen, .ok ())

/-! ### The counter -/

section Counter

variable {iv : List UInt8} {k : ℕ}

theorem toList_counterBlock (h : iv.length = 12) :
    (QuicInitial.counterBlock iv k).toList = iv ++ BigEndian.ofNat 4 k :=
  QuicInitial.toList_block (by simp [h])

/-- The first half stays where the second one does not overflow. -/
theorem incrementCounter_no_carry {counter : AesKey} {a b : List UInt8}
    (hc : counter.toList = a ++ b) (ha : a.length = 8) (hb : b.length = 8)
    (hlt : BigEndian.toNat b + 1 < 2 ^ 64) :
    incrementCounter counter =
      QuicInitial.block (a ++ BigEndian.ofNat 8 (BigEndian.toNat b + 1)) := by
  have hhi := BigEndian.toNat_lt a
  rw [ha] at hhi
  have h0 : (BigEndian.u64 counter.toList 0).toNat = BigEndian.toNat a := by
    rw [hc, BigEndian.u64, LittleEndian.field_append_left _ ha, UInt64.toNat_ofNat',
      Nat.mod_eq_of_lt (by omega)]
  have h1 : (BigEndian.u64 counter.toList 8 + 1).toNat = BigEndian.toNat b + 1 := by
    have hfield : LittleEndian.field (a ++ b) 8 8 = b := by
      rw [LittleEndian.field, List.drop_left' ha, List.take_of_length_le hb.le]
    rw [hc, BigEndian.u64, hfield, UInt64.toNat_add, UInt64.toNat_ofNat',
      Nat.mod_eq_of_lt (Nat.lt_of_succ_lt hlt)]
    exact Nat.mod_eq_of_lt hlt
  have hne : BigEndian.u64 counter.toList 8 + 1 ≠ 0 := by
    intro hz
    rw [hz] at h1
    simp at h1
  have hof := BigEndian.ofNat_toNat a
  rw [ha] at hof
  rw [incrementCounter, if_neg hne, UInt64.add_zero, h0, h1, hof]

/-- The counter is in the last four bytes, and no carry leaves them. -/
theorem incrementCounter_counterBlock (h : iv.length = 12) (hk : k + 1 < 256 ^ 4) :
    incrementCounter (QuicInitial.counterBlock iv k) = QuicInitial.counterBlock iv (k + 1) := by
  have htail : (iv.drop 8).length = 4 := by simp [h]
  have hmid := BigEndian.toNat_lt (iv.drop 8)
  rw [htail] at hmid
  have hsplit : (QuicInitial.counterBlock iv k).toList =
      iv.take 8 ++ (iv.drop 8 ++ BigEndian.ofNat 4 k) := by
    rw [toList_counterBlock h, ← List.append_assoc, List.take_append_drop]
  have hval : BigEndian.toNat (iv.drop 8 ++ BigEndian.ofNat 4 k) =
      BigEndian.toNat (iv.drop 8) * 256 ^ 4 + k := by
    rw [BigEndian.toNat_append, BigEndian.length_ofNat, BigEndian.toNat_ofNat,
      Nat.mod_eq_of_lt (by omega)]
  have hdiv : (BigEndian.toNat (iv.drop 8) * 256 ^ 4 + k + 1) / 256 ^ 4 =
      BigEndian.toNat (iv.drop 8) := by omega
  have hmod : (BigEndian.toNat (iv.drop 8) * 256 ^ 4 + k + 1) % 256 ^ 4 = k + 1 := by omega
  have hof := BigEndian.ofNat_toNat (iv.drop 8)
  rw [htail] at hof
  have hlow : BigEndian.ofNat 8 (BigEndian.toNat (iv.drop 8) * 256 ^ 4 + k + 1) =
      iv.drop 8 ++ BigEndian.ofNat 4 (k + 1) := by
    rw [BigEndian.ofNat_append 4 4, hdiv, hof, ← BigEndian.ofNat_mod_self, hmod]
  rw [incrementCounter_no_carry hsplit (by simp [h]) (by simp [htail]) (by rw [hval]; omega), hval,
    hlow, ← List.append_assoc, List.take_append_drop, QuicInitial.counterBlock]

end Counter

/-! ### The loop -/

theorem block_toList (key : AesKey) : QuicInitial.block key.toList = key := by
  apply Vector.ext
  intro i hi
  simp [QuicInitial.block]

/-- The page after `k` blocks. -/
structure BlocksDecrypted (start : Scratch) (iv : List UInt8) (k : ℕ) (s : Scratch) : Prop where
  area : s.area = start.area
  counter : s.quicIv = QuicInitial.counterBlock iv (k + 1)
  pkt : ∀ i < 1024, byte s.pkt i = if i < 16 * k
    then byte start.pkt i ^^^ QuicInitial.keystream start.quicKey.toList iv i else byte start.pkt i

section Loop

variable {start s : Scratch} {iv : List UInt8} {k n : ℕ}

theorem BlocksDecrypted.initial (h : start.quicIv = QuicInitial.counterBlock iv 1) :
    BlocksDecrypted start iv 0 start := by
  refine ⟨rfl, h, ?_⟩
  intro i _
  rw [if_neg (by omega)]

theorem doDecryptQuicLoop_eq (s : Scratch) (hk : k < 64) :
    doDecryptQuicLoop (UInt32.ofNat k) s =
      ({ s with
        quicIv := incrementCounter s.quicIv
        pkt := store s.pkt (16 * k) (List.zipWith (· ^^^ ·) (load s.pkt (16 * k) 16)
          (aesEcbEncrypt (load s.area 0 176) (incrementCounter s.quicIv)).toList) }, false) := by
  have hindex : (UInt32.ofNat k * 16).toNat = 16 * k := by
    simp only [UInt32.toNat_mul, UInt32.toNat_ofNat, UInt32.toNat_ofNat']
    omega
  have hin : ¬ 16 * k + 16 > 1024 := by omega
  simp only [doDecryptQuicLoop, hindex, if_neg hin]

theorem BlocksDecrypted.step (h : BlocksDecrypted start iv k s) (hiv : iv.length = 12)
    (hkey : load start.area 0 176 = aesKeyExpand start.quicKey) (hk : k < 64) :
    BlocksDecrypted start iv (k + 1) (doDecryptQuicLoop (UInt32.ofNat k) s).1 := by
  have hcounter : incrementCounter s.quicIv = QuicInitial.counterBlock iv (k + 2) := by
    rw [h.counter, incrementCounter_counterBlock hiv (by omega)]
  rw [doDecryptQuicLoop_eq s hk]
  refine ⟨h.area, hcounter, ?_⟩
  intro i hi
  simp only [hcounter, h.area, hkey, aesEcbEncrypt_eq]
  by_cases hblock : 16 * k ≤ i ∧ i < 16 * k + 16
  · obtain ⟨hlo, hhi⟩ := hblock
    have hdiv : i / 16 = k := by omega
    have hmod : i % 16 = i - 16 * k := by omega
    have hold := h.pkt i hi
    rw [if_neg (by omega)] at hold
    have hload : (load s.pkt (16 * k) 16).getD (i - 16 * k) 0 = byte s.pkt i := by
      rw [load_getD (by omega)]
      congr 1
      omega
    rw [byte_store_of_mem hlo (by simpa using hhi) hi, if_pos (by omega), ← hold,
      QuicInitial.keystream, block_toList, hdiv, hmod, LittleEndian.getD_xor (by simp), hload]
  · rw [byte_store_of_not_mem (by simp; omega), h.pkt i hi]
    split_ifs <;> first | rfl | omega

theorem BlocksDecrypted.run (h : BlocksDecrypted start iv k s) (hiv : iv.length = 12)
    (hkey : load start.area 0 176 = aesKeyExpand start.quicKey) (hk : k + n ≤ 64) :
    BlocksDecrypted start iv (k + n) (bpfLoop doDecryptQuicLoop k n s) := by
  induction n generalizing k s with
  | zero => exact h
  | succ n ih =>
    have hnext := h.step hiv hkey (by omega)
    rw [doDecryptQuicLoop_eq s (by omega)] at hnext
    rw [bpfLoop, doDecryptQuicLoop_eq s (by omega), ← Nat.add_assoc, Nat.add_right_comm]
    exact ih hnext (by omega)

end Loop

/-! ### The last block -/

/-- `len` bytes of the block are kept. -/
theorem clearUpperBytes_eq {len : ℕ} (h : len < 16) :
    (clearUpperBytes (UInt8.ofNat len)).1.toNat = 2 ^ (8 * min len 8) - 1 ∧
      (clearUpperBytes (UInt8.ofNat len)).2.toNat = 2 ^ (8 * (len - 8)) - 1 := by
  revert len
  decide

theorem byte_maskWord {pkt : Memory 1024} {off k i : ℕ} {mask : UInt64}
    (hmask : mask.toNat = 2 ^ (8 * k) - 1) (hk : k ≤ 8) (hi : i < 1024) :
    byte (maskWord pkt off mask) i =
      if off + k ≤ i ∧ i < off + 8 then 0 else byte pkt i := by
  have hbytes : LittleEndian.ofNat 8 (LittleEndian.toNat (load pkt off 8) &&& mask.toNat) =
      (load pkt off 8).take k ++ List.replicate (8 - k) 0 := by
    have hpow : 2 ^ (8 * k) = 256 ^ k := pow_mul 2 8 k
    have hof := LittleEndian.ofNat_toNat (load pkt off 8)
    rw [length_load] at hof
    rw [hmask, Nat.and_two_pow_sub_one_eq_mod, hpow, LittleEndian.ofNat_mod hk,
      ← LittleEndian.take_ofNat hk, hof]
  have hlen : ((load pkt off 8).take k).length = k := by simp [hk]
  rw [maskWord, hbytes]
  by_cases hin : off ≤ i ∧ i < off + 8
  · rw [byte_store_of_mem hin.1 (by simp; omega) hi]
    by_cases hlow : i < off + k
    · have hload : (load pkt off 8).getD (i - off) 0 = byte pkt i := by
        rw [load_getD (by omega), Nat.add_sub_cancel' hin.1]
      rw [if_neg (by omega), List.getD_append _ _ _ _ (by omega), ← hload]
      simp only [List.getD_eq_getElem?_getD, List.getElem?_take_of_lt (show i - off < k by omega)]
    · rw [if_pos (by omega), List.getD_append_right _ _ _ _ (by omega)]
      simp
  · rw [if_neg (by omega), byte_store_of_not_mem (by simp; omega)]

/-- The bytes of the payload are decrypted, and the rest of its last block is cleared. -/
theorem byte_decryptQuic {s : Scratch} {iv : List UInt8} {n i : ℕ} (hiv : iv.length = 12)
    (hcounter : s.quicIv = QuicInitial.counterBlock iv 1)
    (hkey : load s.area 0 176 = aesKeyExpand s.quicKey) (hn : n ≤ 1024) (hi : i < 1024) :
    byte (decryptQuic s n).pkt i =
      if i < n then byte s.pkt i ^^^ QuicInitial.keystream s.quicKey.toList iv i
      else if i < n / 16 * 16 + 16 then 0 else byte s.pkt i := by
  have hloop := (BlocksDecrypted.initial hcounter).run (n := n / 16 + if n % 16 ≠ 0 then 1 else 0)
    hiv hkey (by split <;> omega)
  rw [Nat.zero_add] at hloop
  have hpkt := hloop.pkt i hi
  obtain ⟨hlow, hhigh⟩ := clearUpperBytes_eq (show n % 16 < 16 by omega)
  rw [decryptQuic]
  split
  · rw [hpkt]
    split_ifs <;> first | rfl | omega
  · rw [byte_maskWord hhigh (by omega) hi, byte_maskWord hlow (by omega) hi, hpkt]
    split_ifs <;> first | rfl | omega

/-- Only the bytes that were loaded, and what the page held behind their last block, are left. -/
theorem byte_quicDecryptPayload {md : Md} {s : Scratch} {iv enc : List UInt8} {off len i : ℕ}
    (hiv : iv.length = 12) (hcounter : s.quicIv = QuicInitial.counterBlock iv 1) (hlen : 2 ≤ len)
    (hload : loadBytes md.data off (min len 1024) = some enc) (hi : i < 1024) :
    byte (quicDecryptPayload md s off len).1.pkt i =
      if i < min len 1024 then enc.getD i 0 ^^^ QuicInitial.keystream s.quicKey.toList iv i
      else if i < min len 1024 / 16 * 16 + 16 then 0 else byte s.pkt i := by
  have henc : enc.length = min len 1024 := length_of_loadBytes hload
  have hexpanded : load (store s.area 0 (aesKeyExpand s.quicKey)) 0
      (aesKeyExpand s.quicKey).length = aesKeyExpand s.quicKey :=
    load_store_self (by rw [aesKeyExpand_length]; omega)
  rw [aesKeyExpand_length] at hexpanded
  let loaded : Scratch := { s with
    pkt := store s.pkt 0 enc
    area := store s.area 0 (aesKeyExpand s.quicKey) }
  have hbyte : byte (decryptQuic loaded (min len 1024)).pkt i = _ :=
    byte_decryptQuic hiv hcounter hexpanded (by omega) hi
  simp only [quicDecryptPayload, if_neg (not_lt.mpr hlen), hload]
  rw [hbyte]
  split_ifs with hin hblock
  · rw [byte_store_of_mem (by omega) (by omega) hi, Nat.sub_zero]
  · rfl
  · exact byte_store_of_not_mem (by omega)

theorem quicDecryptPayload_ok {md : Md} {s : Scratch} {enc : List UInt8} {off len : ℕ}
    (hlen : 2 ≤ len) (hload : loadBytes md.data off (min len 1024) = some enc) :
    (quicDecryptPayload md s off len).2 = .ok () := by
  simp only [quicDecryptPayload, if_neg (not_lt.mpr hlen), hload]

end Udpgrm
