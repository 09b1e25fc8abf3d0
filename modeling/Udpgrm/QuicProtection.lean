import Udpgrm.QuicDecrypt

/-! Header protection and payload protection of Initial packets are undone. -/
namespace Udpgrm

open ByteMemory
open LittleEndian (field)

/-! ### Words -/

theorem bswap32_bswap32 (x : UInt32) : bswap32 (bswap32 x) = x := by
  have hlt : BigEndian.toNat (LittleEndian.ofNat 4 x.toNat) < 2 ^ 32 := by
    have hlt := BigEndian.toNat_lt (LittleEndian.ofNat 4 x.toNat)
    rwa [LittleEndian.length_ofNat] at hlt
  have hbytes : LittleEndian.ofNat 4 (BigEndian.toNat (LittleEndian.ofNat 4 x.toNat)) =
      (LittleEndian.ofNat 4 x.toNat).reverse := by
    have hof := LittleEndian.ofNat_toNat (LittleEndian.ofNat 4 x.toNat).reverse
    rwa [List.length_reverse, LittleEndian.length_ofNat] at hof
  rw [bswap32, bswap32, UInt32.toNat_ofNat', Nat.mod_eq_of_lt hlt, hbytes, BigEndian.toNat,
    List.reverse_reverse, LittleEndian.toNat_ofNat]
  exact UInt32.toNat_inj.mp (by rw [UInt32.toNat_ofNat']; have := x.toNat_lt; omega)

/-- The bytes of the packet number go to the end of the word. -/
theorem ofNat_alignPno (x : UInt32) {k : ℕ} (h1 : 1 ≤ k) (h4 : k ≤ 4) :
    LittleEndian.ofNat 4 (alignPno x k).toNat =
      List.replicate (4 - k) 0 ++ LittleEndian.ofNat k x.toNat := by
  have hlt := x.toNat_lt
  have hshift : (alignPno x k).toNat = x.toNat % 256 ^ k * 256 ^ (4 - k) := by
    obtain rfl | rfl | rfl | rfl : k = 1 ∨ k = 2 ∨ k = 3 ∨ k = 4 := by omega
    · have hmask := Nat.and_two_pow_sub_one_eq_mod x.toNat 8
      simp [alignPno, Nat.shiftLeft_eq] at hmask ⊢
      omega
    · have hmask := Nat.and_two_pow_sub_one_eq_mod x.toNat 16
      simp [alignPno, Nat.shiftLeft_eq] at hmask ⊢
      omega
    · have hmask := Nat.and_two_pow_sub_one_eq_mod x.toNat 24
      simp [alignPno, Nat.shiftLeft_eq] at hmask ⊢
      omega
    · simp [alignPno]
  have hsplit := LittleEndian.ofNat_mul_pow (4 - k) k (x.toNat % 256 ^ k)
  rw [Nat.sub_add_cancel h4, LittleEndian.ofNat_mod_self] at hsplit
  rw [hshift, hsplit]

section Mask

variable {mask : List UInt8}

theorem hpMask_split (h : 5 ≤ mask.length) : LittleEndian.toNat (mask.take 5) =
    (mask.getD 0 0).toNat + 256 * LittleEndian.toNat (field mask 1 4) := by
  cases mask with
  | nil => simp at h
  | cons m ms =>
    rw [List.take_succ_cons, LittleEndian.toNat]
    rfl

theorem hpMask_first (h : 5 ≤ mask.length) :
    (UInt64.ofNat (LittleEndian.toNat (mask.take 5)) &&& 0xff).toUInt8 = mask.getD 0 0 := by
  have hbyte := (mask.getD 0 0).toNat_lt
  have hrest := LittleEndian.toNat_field_lt (show 1 + 4 ≤ mask.length by omega)
  have hand : ∀ x : ℕ, x &&& 255 = x % 2 ^ 8 := fun x => Nat.and_two_pow_sub_one_eq_mod x 8
  rw [← UInt8.toNat_inj, hpMask_split h, UInt64.toNat_toUInt8, UInt64.toNat_and,
    UInt64.toNat_ofNat']
  have hff : (0xff : UInt64).toNat = 255 := rfl
  rw [hff, hand]
  omega

theorem hpMask_rest (h : 5 ≤ mask.length) :
    (UInt64.ofNat (LittleEndian.toNat (mask.take 5)) >>> 8).toUInt32.toNat =
      LittleEndian.toNat (field mask 1 4) := by
  have hbyte := (mask.getD 0 0).toNat_lt
  have hrest := LittleEndian.toNat_field_lt (show 1 + 4 ≤ mask.length by omega)
  have h8 : (8 : UInt64).toNat % 64 = 8 := rfl
  rw [hpMask_split h, UInt64.toNat_toUInt32, UInt64.toNat_shiftRight, UInt64.toNat_ofNat', h8,
    Nat.shiftRight_eq_div_pow]
  omega

end Mask

/-! ### Header protection -/

/-- The mask for the header, from the sample behind a packet number at `pos`. -/
def headerMask (hp : AesKey) (pkt : List UInt8) (pos : ℕ) : List UInt8 :=
  (Aes.encrypt hp (QuicInitial.block (field pkt (pos + 4) 16))).toList

def firstUnmasked (hp : AesKey) (pkt : List UInt8) (h : QuicHdr) : UInt8 :=
  h.hdr ^^^ ((headerMask hp pkt h.pos).getD 0 0 &&& 0x0f)

def pnoLen (hp : AesKey) (pkt : List UInt8) (h : QuicHdr) : ℕ :=
  (firstUnmasked hp pkt h &&& 3).toNat + 1

def pnoBytes (hp : AesKey) (pkt : List UInt8) (h : QuicHdr) : List UInt8 :=
  List.zipWith (· ^^^ ·) (field pkt h.pos (pnoLen hp pkt h))
    (field (headerMask hp pkt h.pos) 1 (pnoLen hp pkt h))

/-- The nonce that the sent bytes of the packet number make of a vector. -/
def sentNonce (hp : AesKey) (iv pkt : List UInt8) (h : QuicHdr) : List UInt8 :=
  List.zipWith (· ^^^ ·) iv (List.replicate 8 0 ++
    (List.replicate (4 - pnoLen hp pkt h) 0 ++ pnoBytes hp pkt h))

section Unprotect

variable {hp : AesKey} {pkt iv : List UInt8} {h : QuicHdr} {s : Scratch}

theorem length_headerMask (hp : AesKey) (pkt : List UInt8) (pos : ℕ) :
    (headerMask hp pkt pos).length = 16 := by
  simp [headerMask]

theorem pnoLen_le (hp : AesKey) (pkt : List UInt8) (h : QuicHdr) :
    1 ≤ pnoLen hp pkt h ∧ pnoLen hp pkt h ≤ 4 := by
  have hle : (firstUnmasked hp pkt h &&& 3).toNat ≤ 3 := by
    rw [UInt8.toNat_and]
    exact Nat.and_le_right
  rw [pnoLen]
  omega

/-- The word that is added to the vector. -/
theorem ofNat_pno (hpkt : h.pos + 4 ≤ pkt.length) :
    LittleEndian.ofNat 4 (alignPno (LittleEndian.u32 pkt h.pos ^^^ UInt32.ofNat
      (LittleEndian.toNat (field (headerMask hp pkt h.pos) 1 4))) (pnoLen hp pkt h)).toNat =
        List.replicate (4 - pnoLen hp pkt h) 0 ++ pnoBytes hp pkt h := by
  obtain ⟨h1, h4⟩ := pnoLen_le hp pkt h
  have hmask : 1 + 4 ≤ (headerMask hp pkt h.pos).length := by
    rw [length_headerMask]
    omega
  have hword : ∀ (bs : List UInt8) (off : ℕ), off + 4 ≤ bs.length →
      LittleEndian.ofNat (pnoLen hp pkt h)
          (UInt32.ofNat (LittleEndian.toNat (field bs off 4))).toNat =
        field bs off (pnoLen hp pkt h) := by
    intro bs off hle
    have hlt := LittleEndian.toNat_field_lt hle
    rw [UInt32.toNat_ofNat', Nat.mod_eq_of_lt (by omega), ← LittleEndian.take_ofNat h4,
      LittleEndian.ofNat_toNat_field hle, field, List.take_take, Nat.min_eq_left h4, field]
  rw [ofNat_alignPno _ h1 h4, pnoBytes, UInt32.toNat_xor, LittleEndian.ofNat_xor, LittleEndian.u32,
    hword pkt _ hpkt, hword _ _ hmask]

theorem length_pno (hpkt : h.pos + 4 ≤ pkt.length) :
    (List.replicate (4 - pnoLen hp pkt h) 0 ++ pnoBytes hp pkt h).length = 4 := by
  rw [← ofNat_pno hpkt, LittleEndian.length_ofNat]

theorem length_sentNonce (hp : AesKey) (hpkt : h.pos + 4 ≤ pkt.length) (hlen : iv.length = 12) :
    (sentNonce hp iv pkt h).length = 12 := by
  rw [sentNonce, List.length_zipWith, List.length_append, length_pno hpkt, List.length_replicate,
    hlen]
  rfl

theorem computeHpMask_eq (area : ScratchUnion) (hp : AesKey) (pkt : List UInt8) (pos : ℕ) :
    computeHpMask area hp (QuicInitial.block (field pkt (pos + 4) 16)) =
      (store area 0 (aesKeyExpand hp),
        UInt64.ofNat (LittleEndian.toNat ((headerMask hp pkt pos).take 5))) := by
  have hexpanded : load (store area 0 (aesKeyExpand hp)) 0 (aesKeyExpand hp).length =
      aesKeyExpand hp := load_store_self (by rw [aesKeyExpand_length]; omega)
  rw [aesKeyExpand_length] at hexpanded
  rw [computeHpMask, hexpanded, aesEcbEncrypt_eq]
  rfl

theorem byte_block {bs : List UInt8} {i : ℕ} (hi : i < 16) :
    byte (QuicInitial.block bs) i = bs.getD i 0 := by
  rw [byte_of_lt hi, QuicInitial.block, Vector.getElem_ofFn]

/-- The payload starts behind the packet number. -/
theorem quicUnprotect_range (hlong : h.hdr >>> 7 ≠ 0) : (quicUnprotect pkt h s).2 =
    (h.pos + pnoLen s.quicHp pkt h,
      (h.packetLen + 2 ^ 64 - pnoLen s.quicHp pkt h - 16) % 2 ^ 64) := by
  have hmask : 5 ≤ (headerMask s.quicHp pkt h.pos).length := by
    rw [length_headerMask]
    omega
  simp only [quicUnprotect, computeHpMask_eq, hpMask_first hmask, if_pos hlong]
  rfl

/-- The vector with a word added at its end, and the counter behind it. -/
theorem store_counter {number : List UInt8} (hiv : iv.length = 12) (hnumber : number.length = 4) :
    store (store (QuicInitial.block iv) 8 (List.zipWith (· ^^^ ·)
        (load (QuicInitial.block iv) 8 4) number)) 12 (LittleEndian.ofNat 4 (bswap32 1).toNat) =
      QuicInitial.counterBlock
        (List.zipWith (· ^^^ ·) iv (List.replicate 8 0 ++ number)) 1 := by
  have hone : LittleEndian.ofNat 4 (bswap32 1).toNat = BigEndian.ofNat 4 1 := by decide
  apply Vector.ext
  intro i hi
  rw [← byte_of_lt hi, ← byte_of_lt hi, QuicInitial.counterBlock, byte_block hi, hone]
  by_cases hlow : i < 12
  · rw [byte_store_of_not_mem (by omega), List.getD_append _ _ _ _ (by simp; omega),
      LittleEndian.getD_xor (by simp; omega)]
    by_cases hword : i < 8
    · have hzero : (List.replicate 8 (0 : UInt8)).getD i 0 = 0 := List.getD_replicate _ hword
      rw [byte_store_of_not_mem (by omega), byte_block hi,
        List.getD_append _ _ _ _ (by simpa using hword), hzero, UInt8.xor_zero]
    · rw [byte_store_of_mem (by omega) (by simp; omega) hi, LittleEndian.getD_xor (by simp; omega),
        load_getD (by omega), byte_block (by omega), Nat.add_sub_cancel' (by omega),
        List.getD_append_right _ _ _ _ (by simp; omega), List.length_replicate]
  · rw [byte_store_of_mem (by omega) (by simp; omega) hi,
      List.getD_append_right _ _ _ _ (by simp; omega)]
    congr 1
    simp
    omega

/-- The header is unmasked: the packet number goes to the nonce, and the payload starts behind
it. -/
theorem quicUnprotect_eq (hlong : h.hdr >>> 7 ≠ 0) (hpkt : h.pos + 4 ≤ pkt.length)
    (hiv : s.quicIv = QuicInitial.block iv) (hlen : iv.length = 12) :
    quicUnprotect pkt h s =
      ({ s with
        area := store s.area 0 (aesKeyExpand s.quicHp)
        quicIv := QuicInitial.counterBlock (sentNonce s.quicHp iv pkt h) 1 },
        h.pos + pnoLen s.quicHp pkt h,
        (h.packetLen + 2 ^ 64 - pnoLen s.quicHp pkt h - 16) % 2 ^ 64) := by
  have hmask : 5 ≤ (headerMask s.quicHp pkt h.pos).length := by
    rw [length_headerMask]
    omega
  have hrest : (UInt64.ofNat (LittleEndian.toNat
      ((headerMask s.quicHp pkt h.pos).take 5)) >>> 8).toUInt32 =
        UInt32.ofNat (LittleEndian.toNat (field (headerMask s.quicHp pkt h.pos) 1 4)) := by
    rw [← hpMask_rest hmask, UInt32.ofNat_toNat]
  have hnumber : LittleEndian.ofNat 4 (alignPno (LittleEndian.u32 pkt h.pos ^^^ UInt32.ofNat
      (LittleEndian.toNat (field (headerMask s.quicHp pkt h.pos) 1 4)))
        (pnoLen s.quicHp pkt h)).toNat = _ := ofNat_pno hpkt
  have hword : LittleEndian.toNat (load (QuicInitial.block iv) 8 4) < 2 ^ 32 := by
    have hlt := LittleEndian.toNat_lt (load (QuicInitial.block iv) 8 4)
    rwa [length_load] at hlt
  have hload := LittleEndian.ofNat_toNat (load (QuicInitial.block iv) 8 4)
  rw [length_load] at hload
  simp only [quicUnprotect, computeHpMask_eq, hpMask_first hmask, hrest, if_pos hlong,
    bswap32_bswap32, hiv, UInt32.toNat_xor, UInt32.toNat_ofNat', Nat.mod_eq_of_lt hword,
    LittleEndian.ofNat_xor, hload]
  rw [← firstUnmasked, ← pnoLen, hnumber, store_counter hlen (length_pno hpkt), ← sentNonce]

end Unprotect

/-! ### Protected packets -/

section Wire

open QuicInitial

variable {udp rest : List UInt8} {q : Packet}

/-- A datagram that starts with the packet. -/
def datagram (udp : List UInt8) (q : Packet) (rest : List UInt8) : List UInt8 :=
  udp ++ (q.wire ++ rest)

theorem datagram_eq (udp : List UInt8) (q : Packet) (rest : List UInt8) : datagram udp q rest =
    headed udp q.protectedFirst q (q.protectedNumber ++ (q.sealed ++ rest)) := by
  simp [datagram, headed, Packet.wire]

/-- What `quic_parse_hdr` reads of the header. -/
def wireHdr (q : Packet) : QuicHdr := ⟨q.protectedFirst, 9 + q.fields.length, q.length⟩

theorem datagram_number (hu : udp.length = 8) (hq : q.WellFormed) :
    field (datagram udp q rest) (9 + q.fields.length) q.numberLength = q.protectedNumber := by
  have hsplit : datagram udp q rest = (udp ++ q.protectedFirst :: q.fields) ++
      (q.protectedNumber ++ (q.sealed ++ rest)) := by
    simp [datagram, Packet.wire]
  rw [hsplit, field_at (by simp [hu]; omega) hq.length_protectedNumber]

/-- The sample is found where it was taken. -/
theorem headerMask_datagram (hu : udp.length = 8) (hq : q.WellFormed) :
    headerMask (block (clientHp q.dcid)) (datagram udp q rest) (9 + q.fields.length) = q.mask := by
  have hnumber := hq.length_protectedNumber
  have hle := hq.numberLength_le
  have hsealed : q.sealed.length = q.payload.length + q.tag.length := Packet.length_sealed
  have hlength : q.length = q.numberLength + q.payload.length + q.tag.length := rfl
  have hsample := hq.sample
  have hsplit : datagram udp q rest = (udp ++ q.protectedFirst :: q.fields ++ q.protectedNumber) ++
      (q.sealed ++ rest) := by
    simp [datagram, Packet.wire]
  have hfield : field (datagram udp q rest) (9 + q.fields.length + 4) 16 = q.sample := by
    have hoff : (udp ++ q.protectedFirst :: q.fields ++ q.protectedNumber).length +
        (4 - q.numberLength) = 9 + q.fields.length + 4 := by
      simp [hu, hnumber]
      omega
    rw [hsplit, LittleEndian.field_append_right _ hoff, Packet.sample, field,
      List.drop_append_of_le_length (by omega),
      List.take_append_of_le_length (by rw [List.length_drop]; omega), field]
  rw [headerMask, hfield, Packet.mask]

theorem firstUnmasked_datagram (hu : udp.length = 8) (hq : q.WellFormed) :
    firstUnmasked (block (clientHp q.dcid)) (datagram udp q rest) (wireHdr q) = q.first := by
  rw [firstUnmasked, wireHdr, headerMask_datagram hu hq, Packet.protectedFirst, UInt8.xor_assoc,
    UInt8.xor_self, UInt8.xor_zero]

theorem pnoLen_datagram (hu : udp.length = 8) (hq : q.WellFormed) :
    pnoLen (block (clientHp q.dcid)) (datagram udp q rest) (wireHdr q) = q.numberLength := by
  rw [pnoLen, firstUnmasked_datagram hu hq, hq.numberLength]

theorem pnoBytes_datagram (hu : udp.length = 8) (hq : q.WellFormed) :
    pnoBytes (block (clientHp q.dcid)) (datagram udp q rest) (wireHdr q) =
      BigEndian.ofNat q.numberLength q.number := by
  have hle := hq.numberLength_le
  rw [pnoBytes, pnoLen_datagram hu hq]
  simp only [wireHdr]
  rw [datagram_number hu hq, headerMask_datagram hu hq, Packet.protectedNumber]
  exact LittleEndian.xor_xor_cancel (by
    rw [BigEndian.length_ofNat, LittleEndian.length_field (by rw [Packet.length_mask]; omega)])

/-- The nonce is built from the bytes of the packet number that were sent. -/
theorem nonce_datagram {iv : List UInt8} {k n : ℕ} (hk : k ≤ 4) :
    List.zipWith (· ^^^ ·) iv
        (List.replicate 8 0 ++ (List.replicate (4 - k) 0 ++ BigEndian.ofNat k n)) =
      nonce iv (n % 256 ^ k) := by
  have hof : BigEndian.ofNat 12 (n % 256 ^ k) =
      List.replicate (12 - k) 0 ++ BigEndian.ofNat k n := by
    rw [BigEndian.ofNat, LittleEndian.ofNat_mod (by omega), List.reverse_append,
      List.reverse_replicate, ← BigEndian.ofNat]
  rw [nonce, hof, ← List.append_assoc, List.replicate_append_replicate]
  congr 3
  omega

/-- The mask leaves the upper half of the first byte alone. -/
theorem initial_of_masked {b : UInt8} (h : b >>> 4 = 0xC) (m : UInt8) :
    (b ^^^ (m &&& 0x0f)) >>> 4 = 0xC := by
  have hlow : (m &&& 0x0f) >>> 4 = 0 := by
    have hle : m.toNat &&& 15 ≤ 15 := Nat.and_le_right
    apply UInt8.toNat_inj.mp
    simp [Nat.shiftRight_eq_div_pow] at hle ⊢
    omega
  rw [UInt8.shiftRight_xor, hlow, h]
  rfl

theorem protectedFirst_initial (hq : q.WellFormed) : q.protectedFirst >>> 4 = 0xC :=
  initial_of_masked hq.initial _

theorem long_of_initial {b : UInt8} (h : b >>> 4 = 0xC) : b >>> 7 ≠ 0 := by
  intro hzero
  have hinitial := congrArg UInt8.toNat h
  have hzero := congrArg UInt8.toNat hzero
  simp [Nat.shiftRight_eq_div_pow] at hinitial hzero
  omega

/-- The fast parser finds the connection ID. -/
theorem parseQuicFast_headed {md : Md} {linear : ℕ} {first : UInt8} (hu : udp.length = 8)
    (hfirst : first >>> 4 = 0xC) (h8 : 8 ≤ q.dcid.length) (h20 : q.dcid.length ≤ 20)
    (hdata : md.data = headed udp first q rest) (hlen : md.len.toNat = md.data.length)
    (hlin : linear ≤ md.data.length) (hfull : 40 ≤ md.data.length) :
    ∃ fast, parseQuicFast md linear = .ok fast ∧ fast.isInitPacket = true ∧
      fast.dcidLen = q.dcid.length ∧
      fast.dcid.toList = q.dcid ++ List.replicate (20 - q.dcid.length) 0 := by
  have hget : ∀ j, (md.data.drop 8).getD j 0 = md.data.getD (8 + j) 0 := by
    intro j
    simp [List.getD_eq_getElem?_getD]
  have hbyte : (md.data.drop 8).getD 0 0 = first := by
    rw [hget, hdata]
    exact headed_first hu
  have hlength : ((md.data.drop 8).getD 5 0).toNat = q.dcid.length := by
    rw [hget, hdata]
    exact headed_dcidLen hu h20
  refine ⟨_, by
    rw [parseQuicFast_eq hlin, if_neg (by simp [MIN_QUIC_LEN]; omega),
      if_neg (by simp [MIN_QUIC_LEN]; omega)]
    simp only [quicFastFields, hbyte, hlength]
    rw [if_pos (long_of_initial hfirst), if_neg (by omega)], decide_eq_true hfirst, rfl, ?_⟩
  have hsplit : md.data.drop 8 = (first :: BigEndian.ofNat 4 1 ++ [UInt8.ofNat q.dcid.length]) ++
      (q.dcid ++ (UInt8.ofNat q.scid.length :: q.scid ++ varint q.tokenSize q.token.length ++
        q.token ++ varint q.lengthSize q.length ++ rest)) := by
    rw [hdata, headed, List.drop_left' hu]
    simp [Packet.fields]
  apply List.ext_getElem (by simp; omega)
  intro i hi hi'
  simp only [Vector.getElem_toList, Vector.getElem_ofFn]
  by_cases hin : i < q.dcid.length
  · have hoff : 6 + i - (first :: BigEndian.ofNat 4 1 ++
        [UInt8.ofNat q.dcid.length]).length = i := by
      simp
    rw [if_pos hin, List.getElem_append_left hin, hsplit,
      List.getD_append_right _ _ _ _ (by simp), hoff, List.getD_append _ _ _ _ hin,
      List.getD_eq_getElem _ _ hin]
  · rw [if_neg hin, List.getElem_append_right (by omega), List.getElem_replicate]

/-- The page holds the keys of a connection ID. -/
structure Keyed (id : List UInt8) (s : Scratch) : Prop where
  key : s.quicKey = block (clientKey id)
  hp : s.quicHp = block (clientHp id)
  iv : s.quicIv = block (clientIv id)

theorem keyed_expand {dcid : Dcid} {id : List UInt8} (s : Scratch) (hid : id.length ≤ 20)
    (h : dcid.toList = id ++ List.replicate (20 - id.length) 0) :
    Keyed id (expandClientKeysFromDcid s dcid id.length) := by
  have htake : dcid.toList.take id.length = id := by rw [h, List.take_left' rfl]
  obtain ⟨hkey, hhp, hiv⟩ := expandClientKeysFromDcid_keys s dcid hid (by rw [htake]; exact h)
  rw [htake] at hkey hhp hiv
  exact ⟨hkey, hhp, hiv⟩

/-- The page with the nonce in place of the vector. -/
def noncePage (s : Scratch) (q : Packet) : Scratch :=
  { s with
    area := store s.area 0 (aesKeyExpand (block (clientHp q.dcid)))
    quicIv := counterBlock (nonce (clientIv q.dcid) (q.number % 256 ^ q.numberLength)) 1 }

theorem datagram_fits (hu : udp.length = 8) (hq : q.WellFormed) (hd : 8 ≤ q.dcid.length)
    (ht : q.token.length ≤ 255) (hrest : 20 < q.length + rest.length) :
    HeaderFits (datagram udp q rest) := by
  have hlength : q.length = q.numberLength + q.payload.length + q.tag.length := rfl
  rw [datagram_eq]
  apply headed_fits hu hq.toEncodable hd ht
  rw [List.length_append, List.length_append, hq.length_protectedNumber, Packet.length_sealed]
  omega

theorem numberOff_datagram (hu : udp.length = 8) (hq : q.WellFormed) :
    numberOff (datagram udp q rest) = 9 + q.fields.length := by
  rw [datagram_eq, headed_numberOff hu hq.toEncodable]

theorem quicHdrFields_datagram (hu : udp.length = 8) (hq : q.WellFormed)
    (hfits : HeaderFits (datagram udp q rest)) :
    quicHdrFields (datagram udp q rest) = .ok (some (wireHdr q)) := by
  have hfirst : (datagram udp q rest).getD 8 0 = q.protectedFirst := by
    rw [datagram_eq]
    exact headed_first hu
  have hlength : (varintDecode (datagram udp q rest) (lengthOff (datagram udp q rest))).1 =
      q.length := by
    rw [datagram_eq, headed_length hu hq.toEncodable]
  rw [quicHdrFields_fits (by rw [hfirst]; exact protectedFirst_initial hq) hfits, hfirst,
    numberOff_datagram hu hq, hlength, wireHdr]

/-- Nothing wraps around where the packet is as long as it says. -/
theorem payloadLength (hq : q.WellFormed) :
    (q.length + 2 ^ 64 - q.numberLength - 16) % 2 ^ 64 = q.payload.length := by
  have hlt := hq.length
  have htag := hq.tag
  have hmax : q.lengthSize.limit ≤ 2 ^ 62 := by cases q.lengthSize <;> decide
  have hlength : q.length = q.numberLength + q.payload.length + q.tag.length := rfl
  omega

theorem quicUnprotect_datagram {s : Scratch} (hu : udp.length = 8) (hq : q.WellFormed)
    (hk : Keyed q.dcid s) (hfits : HeaderFits (datagram udp q rest)) :
    quicUnprotect (datagram udp q rest) (wireHdr q) s =
      (noncePage s q, 9 + q.fields.length + q.numberLength, q.payload.length) := by
  have hroom : (wireHdr q).pos + 4 ≤ (datagram udp q rest).length := by
    have hsample := hfits.sample
    rw [numberOff_datagram hu hq] at hsample
    simp only [wireHdr]
    omega
  have hlong : (wireHdr q).hdr >>> 7 ≠ 0 := long_of_initial (protectedFirst_initial hq)
  rw [quicUnprotect_eq hlong hroom hk.iv (length_clientIv _), hk.hp, sentNonce,
    pnoLen_datagram hu hq, pnoBytes_datagram hu hq, nonce_datagram hq.numberLength_le.2]
  simp only [wireHdr, payloadLength hq, noncePage, hk.hp]

/-- The header parser finds the payload. -/
theorem quicParseHdr_datagram {md : Md} {s : Scratch} (hu : udp.length = 8) (hq : q.WellFormed)
    (hk : Keyed q.dcid s) (hdata : md.data = datagram udp q rest)
    (hlen : md.len.toNat = md.data.length) (hfits : HeaderFits (datagram udp q rest)) :
    quicParseHdr md md.data.length s = (noncePage s q,
      .ok (9 + q.fields.length + q.numberLength, q.payload.length)) := by
  have hpkt : quicPkt md md.data.length s = .ok (datagram udp q rest, s) := by
    rw [quicPkt, if_neg (by omega), List.take_of_length_le le_rfl, hdata]
  simp only [quicParseHdr, hpkt, quicHdrFields_datagram hu hq hfits,
    quicUnprotect_datagram hu hq hk hfits]

/-- What is loaded is the encrypted payload. -/
theorem loadBytes_datagram {k : ℕ} (hu : udp.length = 8) (hq : q.WellFormed)
    (hk : k ≤ q.payload.length) :
    loadBytes (datagram udp q rest) (9 + q.fields.length + q.numberLength) k =
      some ((encrypt (clientKey q.dcid) (nonce (clientIv q.dcid) q.number) q.payload).take k) := by
  have hnumber := hq.length_protectedNumber
  have hsplit : datagram udp q rest =
      (udp ++ q.protectedFirst :: q.fields ++ q.protectedNumber) ++
        ((encrypt (clientKey q.dcid) (nonce (clientIv q.dcid) q.number) q.payload).take k ++
          ((encrypt (clientKey q.dcid) (nonce (clientIv q.dcid) q.number) q.payload).drop k ++
            (q.tag ++ rest))) := by
    rw [← List.append_assoc (List.take k _), List.take_append_drop]
    simp [datagram, Packet.wire, Packet.sealed]
  rw [hsplit, loadBytes, if_pos (by simp [hu, hnumber]; omega),
    field_at (by simp [hu, hnumber]; omega) (by simp [hk])]

/-- The payload is decrypted under the number that was sent, whichever it was encrypted under. -/
theorem byte_payload {md : Md} {s : Scratch} {i : ℕ} (hu : udp.length = 8) (hq : q.WellFormed)
    (hk : Keyed q.dcid s) (hdata : md.data = datagram udp q rest) (hpayload : 2 ≤ q.payload.length)
    (hi : i < min q.payload.length 1024) :
    byte (quicDecryptPayload md (noncePage s q) (9 + q.fields.length + q.numberLength)
        q.payload.length).1.pkt i =
      q.payload.getD i 0 ^^^ keystream (clientKey q.dcid) (nonce (clientIv q.dcid) q.number) i ^^^
        keystream (clientKey q.dcid)
          (nonce (clientIv q.dcid) (q.number % 256 ^ q.numberLength)) i := by
  have hload : loadBytes (datagram udp q rest) (9 + q.fields.length + q.numberLength)
      (min q.payload.length 1024) = _ := loadBytes_datagram hu hq (Nat.min_le_left _ _)
  rw [← hdata] at hload
  have hiv : (nonce (clientIv q.dcid) (q.number % 256 ^ q.numberLength)).length = 12 := by
    simp [nonce, length_clientIv]
  have hkey : (noncePage s q).quicKey.toList = clientKey q.dcid := by
    rw [noncePage, hk.key, toList_block (length_clientKey _)]
  have hget : ∀ bs : List UInt8, (bs.take (min q.payload.length 1024)).getD i 0 = bs.getD i 0 := by
    intro bs
    simp only [List.getD_eq_getElem?_getD, List.getElem?_take_of_lt hi]
  have hcounter : (noncePage s q).quicIv =
      counterBlock (nonce (clientIv q.dcid) (q.number % 256 ^ q.numberLength)) 1 := by
    rw [noncePage]
  rw [byte_quicDecryptPayload hiv hcounter hpayload hload (by omega), if_pos hi, hkey, hget,
    getD_encrypt (by omega)]

end Wire

/-! ### The whole way -/

/-- On a datagram that is linear, the fast parser, the key derivation, the header parser and the
decryption run without an error, and leave this payload for the parser of the ClientHello. -/
def DecryptsTo (md : Md) (scratch : Scratch) (payload : List UInt8) : Prop :=
  ∃ fast page offset len, parseQuicFast md md.data.length = .ok fast ∧ fast.isInitPacket = true ∧
    quicParseHdr md md.data.length (expandClientKeysFromDcid scratch fast.dcid fast.dcidLen) =
      (page, .ok (offset, len)) ∧
    (quicDecryptPayload md page offset len).2 = .ok () ∧
    load (quicDecryptPayload md page offset len).1.pkt 0 (min payload.length 1024) =
      payload.take (min payload.length 1024)

section Whole

open QuicInitial

variable {udp rest : List UInt8} {q : Packet} {md : Md} {scratch : Scratch}

/-- The header ends long before a datagram of 1200 bytes does. -/
theorem room_datagram (hu : udp.length = 8) (hq : q.WellFormed) (ht : q.token.length ≤ 255)
    (hsize : 1208 ≤ (datagram udp q rest).length) : 20 < q.length + rest.length := by
  have hfields := length_fields q
  have hdcid := hq.dcid
  have hscid := hq.scid
  have hvarint : ∀ size : VarintSize, size.bytes ≤ 8 := by
    intro size
    cases size <;> decide
  have htoken := hvarint q.tokenSize
  have hlengthSize := hvarint q.lengthSize
  have hlength : q.length = q.numberLength + q.payload.length + q.tag.length := rfl
  simp [datagram, Packet.wire, hu, hq.length_protectedNumber, Packet.length_sealed] at hsize
  omega

/-- What has to be checked about the bytes that are left. -/
theorem decryptsTo_iff (hu : udp.length = 8) (hq : q.WellFormed) (hd : 8 ≤ q.dcid.length)
    (ht : q.token.length ≤ 255) (hpayload : 2 ≤ q.payload.length)
    (hdata : md.data = datagram udp q rest) (hlen : md.len.toNat = md.data.length)
    (hsize : 1208 ≤ md.data.length) :
    DecryptsTo md scratch q.payload ↔ ∀ i < min q.payload.length 1024,
      keystream (clientKey q.dcid) (nonce (clientIv q.dcid) q.number) i =
        keystream (clientKey q.dcid)
          (nonce (clientIv q.dcid) (q.number % 256 ^ q.numberLength)) i := by
  obtain ⟨fast, hfast, hinit, hdcidLen, hdcid⟩ :=
    parseQuicFast_headed hu (protectedFirst_initial hq) hd hq.dcid (hdata.trans (datagram_eq _ _ _))
      hlen le_rfl (by omega)
  have hkeyed : Keyed q.dcid (expandClientKeysFromDcid scratch fast.dcid fast.dcidLen) := by
    rw [hdcidLen]
    exact keyed_expand scratch hq.dcid hdcid
  have hfits := datagram_fits hu hq hd ht (room_datagram hu hq ht (hdata ▸ hsize))
  have hparse := quicParseHdr_datagram hu hq hkeyed hdata hlen hfits
  have hload : loadBytes (datagram udp q rest) (9 + q.fields.length + q.numberLength)
      (min q.payload.length 1024) = _ := loadBytes_datagram hu hq (Nat.min_le_left _ _)
  rw [← hdata] at hload
  have hbyte : ∀ i < min q.payload.length 1024, _ := fun i hi =>
    byte_payload hu hq hkeyed hdata hpayload hi
  constructor
  · rintro ⟨fast', page, offset, len, hfast', -, hparse', -, hload⟩ i hi
    obtain rfl : fast = fast' := Except.ok.inj (hfast.symm.trans hfast')
    rw [hparse] at hparse'
    obtain ⟨rfl, hrange⟩ := Prod.mk.inj hparse'
    obtain ⟨rfl, rfl⟩ := Prod.mk.inj (Except.ok.inj hrange)
    have hget : (load (quicDecryptPayload md (noncePage (expandClientKeysFromDcid scratch fast.dcid
        fast.dcidLen) q) (9 + q.fields.length + q.numberLength) q.payload.length).1.pkt 0
          (min q.payload.length 1024)).getD i 0 = q.payload.getD i 0 := by
      rw [hload]
      simp only [List.getD_eq_getElem?_getD, List.getElem?_take_of_lt hi]
    rw [load_getD hi, Nat.zero_add, hbyte i hi, UInt8.xor_assoc] at hget
    apply UInt8.xor_eq_zero_iff.mp
    apply UInt8.xor_right_inj (q.payload.getD i 0) |>.mp
    rw [hget, UInt8.xor_zero]
  · intro hsame
    refine ⟨fast, _, _, _, hfast, hinit, hparse,
      quicDecryptPayload_ok hpayload hload, load_eq (by simp) ?_⟩
    intro i hi
    rw [Nat.zero_add, hbyte i hi, hsame i hi, UInt8.xor_assoc, UInt8.xor_self, UInt8.xor_zero]
    simp only [List.getD_eq_getElem?_getD, List.getElem?_take_of_lt hi]

/-- Every packet whose number is sent in full is decrypted. -/
theorem initial_decrypted (hu : udp.length = 8) (hq : q.WellFormed) (hd : 8 ≤ q.dcid.length)
    (ht : q.token.length ≤ 255) (hl : q.numberLength + 18 ≤ q.length)
    (hfull : q.number < 256 ^ q.numberLength) (hdata : md.data = datagram udp q rest)
    (hlen : md.len.toNat = md.data.length) (hsize : 1208 ≤ md.data.length) :
    DecryptsTo md scratch q.payload := by
  have hpayload : 2 ≤ q.payload.length := by
    have htag := hq.tag
    have hlength : q.length = q.numberLength + q.payload.length + q.tag.length := rfl
    omega
  apply (decryptsTo_iff hu hq hd ht hpayload hdata hlen hsize).mpr
  intro i _
  rw [Nat.mod_eq_of_lt hfull]

end Whole

/-- A packet with the packet number `n`, of which one byte is sent. -/
def plainPacket (n : ℕ) (payload : List UInt8) : QuicInitial.Packet where
  first := 0xc0
  dcid := [0, 0, 0, 0, 0, 0, 0, 0]
  scid := []
  token := []
  tokenSize := .one
  lengthSize := .two
  number := n
  numberLength := 1
  payload := payload
  tag := List.replicate 16 0

def plainMd (n : ℕ) (payload : List UInt8) : Md :=
  ⟨0, 0, 1208, [], datagram (List.replicate 8 0) (plainPacket n payload) []⟩

def zeroPage : Scratch := ⟨filled 416 [], filled 16 [], filled 16 [], filled 16 [], filled 1024 []⟩

section Plain

open QuicInitial

variable {n : ℕ} {payload : List UInt8}

theorem plainPacket_length (n : ℕ) (hp : payload.length = 1165) :
    (plainPacket n payload).length = 1182 := by
  simp [Packet.length, plainPacket, hp]

theorem plainPacket_wellFormed (hn : n < 2 ^ 62) (hp : payload.length = 1165) :
    (plainPacket n payload).WellFormed := by
  have hlength := plainPacket_length n hp
  have htoken : 0 < VarintSize.one.limit := by decide
  have hlimit : 1182 < VarintSize.two.limit := by decide
  have hinitial : (0xc0 : UInt8) >>> 4 = 0xC := by decide
  have hnumber : ((0xc0 : UInt8) &&& 3).toNat + 1 = 1 := by decide
  exact ⟨⟨(by decide : 8 ≤ 20), Nat.zero_le _, htoken, hlength.trans_lt hlimit⟩, hinitial, hnumber,
    hn, rfl, by omega⟩

theorem plainMd_length (hn : n < 2 ^ 62) (hp : payload.length = 1165) :
    (plainMd n payload).data.length = 1208 := by
  have hwell := plainPacket_wellFormed hn hp
  have hfields : (plainPacket n payload).fields.length = 17 := length_fields _
  have hsealed : (plainPacket n payload).sealed.length = payload.length + 16 := Packet.length_sealed
  have hnumber : (plainPacket n payload).protectedNumber.length = 1 := hwell.length_protectedNumber
  simp [plainMd, datagram, Packet.wire, hfields, hnumber, hsealed, hp]

/-- Different counter blocks give different bytes of the keystream. -/
theorem counterBlock_of_keystream {key a b : List UInt8}
    (h : ∀ i < 16, keystream key a i = keystream key b i) :
    counterBlock a 2 = counterBlock b 2 := by
  apply aes_encrypt_injective (block key)
  apply Vector.ext
  intro i hi
  have hbyte := h i hi
  simp only [keystream, Nat.div_eq_of_lt hi, Nat.mod_eq_of_lt hi, Nat.zero_add] at hbyte
  simpa [List.getD_eq_getElem?_getD, hi] using hbyte

theorem plainMd_data (n : ℕ) (payload : List UInt8) :
    (plainMd n payload).data = datagram (List.replicate 8 0) (plainPacket n payload) [] := rfl

theorem plainMd_not_decrypted (hp : payload.length = 1165) (s : Scratch) :
    ¬ DecryptsTo (plainMd 256 payload) s (plainPacket 256 payload).payload := by
  have hlength := plainMd_length (n := 256) (by decide) hp
  have hlen : (plainMd 256 payload).len.toNat = (plainMd 256 payload).data.length := hlength.symm
  have hpayload : (plainPacket 256 payload).payload.length = 1165 := hp
  have hdcid : 8 ≤ (plainPacket 256 payload).dcid.length := (by decide : 8 ≤ 8)
  rw [decryptsTo_iff rfl (plainPacket_wellFormed (by decide) hp) hdcid (Nat.zero_le _) (by omega)
    (plainMd_data 256 payload) hlen hlength.ge]
  intro hsame
  have hblock := counterBlock_of_keystream fun i hi => hsame i (by omega)
  have hiv : ∀ n, (nonce (clientIv (plainPacket 256 payload).dcid) n).length = 12 := by
    intro n
    simp [nonce, length_clientIv]
  have hnonce := congrArg Vector.toList hblock
  rw [toList_counterBlock (hiv _), toList_counterBlock (hiv _)] at hnonce
  have hbyte := congrArg (·.getD 10 0) (List.append_cancel_right hnonce)
  simp only [nonce] at hbyte
  rw [LittleEndian.getD_xor (by simp [length_clientIv]),
    LittleEndian.getD_xor (by simp [length_clientIv]), UInt8.xor_right_inj] at hbyte
  have hdiffer : (BigEndian.ofNat 12 256).getD 10 0 ≠
      (BigEndian.ofNat 12 (256 % 256 ^ 1)).getD 10 0 := by decide
  exact hdiffer hbyte

end Plain

theorem initial_decrypted_plain : DecryptsTo (plainMd 0 (List.replicate 1165 0)) zeroPage
    (plainPacket 0 (List.replicate 1165 0)).payload :=
  have hp : (List.replicate 1165 (0 : UInt8)).length = 1165 := List.length_replicate
  have hlength := plainMd_length (by decide) hp
  initial_decrypted rfl (plainPacket_wellFormed (by decide) hp) (by decide) (by decide)
    ((by decide : 1 + 18 ≤ 1182).trans (plainPacket_length 0 hp).ge) (by decide) (plainMd_data _ _)
    hlength.symm hlength.ge

/-- One byte of the packet number 256 is sent, and 0 goes to the nonce. -/
theorem initial_not_decrypted :
    (plainPacket 256 (List.replicate 1165 0)).WellFormed ∧
      (plainMd 256 (List.replicate 1165 0)).data.length = 1208 ∧
      ¬ DecryptsTo (plainMd 256 (List.replicate 1165 0)) zeroPage
        (plainPacket 256 (List.replicate 1165 0)).payload :=
  have hp : (List.replicate 1165 (0 : UInt8)).length = 1165 := List.length_replicate
  ⟨plainPacket_wellFormed (by decide) hp, plainMd_length (by decide) hp,
    plainMd_not_decrypted hp zeroPage⟩

end Udpgrm
