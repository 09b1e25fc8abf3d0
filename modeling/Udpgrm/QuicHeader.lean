import Udpgrm.Dispatch
import Udpgrm.QuicKeys

/-!
The headers of QUIC packets: the fast parser, which looks for a connection ID only, and the parser
of Initial packets, which removes the header protection.
-/
namespace Udpgrm

open ByteMemory
open LittleEndian (field)

abbrev MIN_QUIC_LEN : ℕ := 32
abbrev MIN_QUIC_HDR_LINEAR : ℕ := 192

/-! ### Connection IDs -/

/-- What `parse_quic_fast` leaves behind its pointers. -/
structure QuicFast where
  dcid : Dcid
  dcidLen : ℕ
  isInitPacket : Bool
deriving DecidableEq

/-- The connection ID behind the first byte, or behind the version and its own length. -/
def quicFastFields (pkt : List UInt8) : Except IErr QuicFast :=
  let hdr := pkt.getD 0 0
  let isInitPacket := decide (hdr >>> 4 = 0xC)
  if hdr >>> 7 ≠ 0 then
    let dcidLen := (pkt.getD 5 0).toNat
    if dcidLen < 8 ∨ dcidLen > 20 then .error .sanity
    else
      .ok ⟨Vector.ofFn fun i => if i.val < dcidLen then pkt.getD (6 + i.val) 0 else 0, dcidLen,
        isInitPacket⟩
  else .ok ⟨Vector.ofFn fun i => pkt.getD (1 + i.val) 0, 0, isInitPacket⟩

/-- The first `linear` bytes of the packet are between `md->data` and `md->data_end`. -/
def parseQuicFast (md : Md) (linear : ℕ) : Except IErr QuicFast :=
  if md.len.toNat < MIN_QUIC_LEN then .error .sanity
  else
    match if 8 + MIN_QUIC_LEN > linear then loadBytes md.data 8 MIN_QUIC_LEN
      else some (md.data.drop 8) with
    | none => .error .load
    | some pkt => quicFastFields pkt

/-- It does not matter for the fast parser how much of the packet is linear. -/
theorem parseQuicFast_eq {md : Md} {linear : ℕ} (h : linear ≤ md.data.length) :
    parseQuicFast md linear = if md.len.toNat < MIN_QUIC_LEN then .error .sanity
      else if md.data.length < 8 + MIN_QUIC_LEN then .error .load
      else quicFastFields (md.data.drop 8) := by
  have hfield : ∀ j < 32, (field md.data 8 32).getD j 0 = (md.data.drop 8).getD j 0 := by
    intro j hj
    rw [field, List.getD_eq_getElem?_getD, List.getElem?_take_of_lt hj, List.getD_eq_getElem?_getD]
  have hsame : quicFastFields (field md.data 8 32) = quicFastFields (md.data.drop 8) := by
    have hlong : ∀ i : Fin 20, (field md.data 8 32).getD (6 + i.val) 0 =
        (md.data.drop 8).getD (6 + i.val) 0 := fun i => hfield _ (by omega)
    have hshort : ∀ i : Fin 20, (field md.data 8 32).getD (1 + i.val) 0 =
        (md.data.drop 8).getD (1 + i.val) 0 := fun i => hfield _ (by omega)
    simp only [quicFastFields, hfield 0 (by decide), hfield 5 (by decide), hlong, hshort]
  rw [parseQuicFast, loadBytes]
  by_cases hcopy : 8 + MIN_QUIC_LEN > linear
  · by_cases hall : 8 + MIN_QUIC_LEN ≤ md.data.length
    · rw [if_pos hcopy, if_pos hall, if_neg (not_lt.mpr hall)]
      simp only [hsame]
    · rw [if_pos hcopy, if_neg hall, if_pos (not_le.mp hall)]
  · rw [if_neg hcopy, if_neg (show ¬ md.data.length < 8 + MIN_QUIC_LEN by omega)]

/-! ### Reading bytes -/

def getU8 (pkt : List UInt8) (off : ℕ) : Except IErr UInt8 :=
  if off + 1 > pkt.length then .error .load else .ok (pkt.getD off 0)

def getU16 (pkt : List UInt8) (off : ℕ) : Except IErr UInt16 :=
  if off + 2 > pkt.length then .error .load else .ok (BigEndian.u16 pkt off)

def getU32 (pkt : List UInt8) (off : ℕ) : Except IErr UInt32 :=
  if off + 4 > pkt.length then .error .load else .ok (BigEndian.u32 pkt off)

/-- A number and how many bytes it takes, of the eight bytes from `off`. -/
def varintDecode (pkt : List UInt8) (off : ℕ) : ℕ × ℕ :=
  let tag := pkt.getD off 0 >>> 6
  if tag = 0 then ((pkt.getD off 0 &&& 0x3f).toNat, 1)
  else if tag = 1 then (BigEndian.toNat (field pkt off 2) &&& 0x3fff, 2)
  else if tag = 2 then (BigEndian.toNat (field pkt off 4) &&& 0x3fffffff, 4)
  else (BigEndian.toNat (field pkt off 8) &&& 0x3fffffffffffffff, 8)

def getVarint (pkt : List UInt8) (off : ℕ) : Except IErr (ℕ × ℕ) :=
  if off + 8 > pkt.length then .error .load else .ok (varintDecode pkt off)

/-- A test that ends the parser. -/
def require (p : Prop) [Decidable p] (e : IErr) : Except IErr Unit :=
  if p then .ok () else .error e

/-! ### Initial packets -/

/-- The first byte, the offset of the packet number, and the Length field. -/
structure QuicHdr where
  hdr : UInt8
  pos : ℕ
  packetLen : ℕ
deriving DecidableEq, Repr

/-- The header up to the packet number, or nothing where the packet is no Initial one. -/
def quicHdrFields (pkt : List UInt8) : Except IErr (Option QuicHdr) := do
  let hdr ← getU8 pkt 8
  if hdr >>> 4 ≠ 0xC then return none
  else
    let version ← getU32 pkt 9
    require (version = 1) .badInstr
    let dcidLen ← getU8 pkt 13
    require (¬ (dcidLen < 8 ∨ dcidLen > 20)) .sanity
    let pos := 14 + dcidLen.toNat
    let scidLen ← getU8 pkt pos
    let pos := pos + 1 + scidLen.toNat
    let tokenLen ← getVarint pkt pos
    require (¬ (tokenLen.2 > 8 ∨ tokenLen.1 > 255)) .sanity
    let pos := pos + tokenLen.2 + tokenLen.1
    let packetLen ← getVarint pkt pos
    require (¬ packetLen.2 > 255) .load
    let pos := pos + packetLen.2
    require (¬ pos + 20 ≥ pkt.length) .load
    return some ⟨hdr, pos, packetLen.1⟩

/-- The header is read in place, or from a copy of the first 192 bytes in the scratch page. -/
def quicPkt (md : Md) (linear : ℕ) (scratch : Scratch) : Except IErr (List UInt8 × Scratch) :=
  if linear < min md.len.toNat MIN_QUIC_HDR_LINEAR then
    if md.len.toNat < 1 then .error .sanity
    else
      match loadBytes md.data 0 (min md.len.toNat MIN_QUIC_HDR_LINEAR) with
      | none => .error .load
      | some pkt => .ok (pkt, { scratch with pkt := store scratch.pkt 0 pkt })
  else .ok (md.data.take linear, scratch)

def bswap32 (x : UInt32) : UInt32 :=
  UInt32.ofNat (BigEndian.toNat (LittleEndian.ofNat 4 x.toNat))

/-- The mask, and the union with the expanded key at its start. -/
def computeHpMask (area : ScratchUnion) (quicHp sample : AesKey) : ScratchUnion × UInt64 :=
  let area := store area 0 (aesKeyExpand quicHp)
  let sample := aesEcbEncrypt (load area 0 176) sample
  (area, UInt64.ofNat (LittleEndian.toNat (sample.toList.take 5)))

/-- The packet number, moved to the end of its four bytes. -/
def alignPno (pno : UInt32) (pnoLen : ℕ) : UInt32 :=
  if pnoLen = 1 then (pno &&& 0xff) <<< 24
  else if pnoLen = 2 then (pno &&& 0xffff) <<< 16
  else if pnoLen = 3 then (pno &&& 0xffffff) <<< 8
  else pno

/-- `quic_parse_hdr` behind the header fields: the nonce and counter take the place of the vector,
and the offset and length of the encrypted payload are computed, in 64 bits. -/
def quicUnprotect (pkt : List UInt8) (h : QuicHdr) (scratch : Scratch) : Scratch × ℕ × ℕ :=
  let sample : AesKey := QuicInitial.block (field pkt (h.pos + 4) 16)
  let (area, hpMask) := computeHpMask scratch.area scratch.quicHp sample
  let isLongHeader := h.hdr >>> 7 ≠ 0
  let hdr := h.hdr ^^^ ((hpMask &&& 0xff).toUInt8 &&& if isLongHeader then 0x0F else 0x1F)
  let pno := LittleEndian.u32 pkt h.pos ^^^ (hpMask >>> 8).toUInt32
  let pnoLen := (hdr &&& 0x3).toNat + 1
  let pno := bswap32 (alignPno pno pnoLen)
  let word := UInt32.ofNat (LittleEndian.toNat (load scratch.quicIv 8 4)) ^^^ bswap32 pno
  let quicIv := store scratch.quicIv 8 (LittleEndian.ofNat 4 word.toNat)
  let quicIv := store quicIv 12 (LittleEndian.ofNat 4 (bswap32 1).toNat)
  ({ scratch with area := area, quicIv := quicIv }, h.pos + pnoLen,
    (h.packetLen + 2 ^ 64 - pnoLen - 16) % 2 ^ 64)

/-- The caller's variables stay zero when the packet is no Initial one. -/
def quicParseHdr (md : Md) (linear : ℕ) (scratch : Scratch) : Scratch × Except IErr (ℕ × ℕ) :=
  match quicPkt md linear scratch with
  | .error e => (scratch, .error e)
  | .ok (pkt, scratch) =>
    match quicHdrFields pkt with
    | .error e => (scratch, .error e)
    | .ok none => (scratch, .ok (0, 0))
    | .ok (some h) =>
      let (scratch, offset, len) := quicUnprotect pkt h scratch
      (scratch, .ok (offset, len))

/-! ### The fields of a header -/

def dcidLenAt (pkt : List UInt8) : ℕ := (pkt.getD 13 0).toNat

def tokenOff (pkt : List UInt8) : ℕ :=
  14 + dcidLenAt pkt + 1 + (pkt.getD (14 + dcidLenAt pkt) 0).toNat

def lengthOff (pkt : List UInt8) : ℕ :=
  tokenOff pkt + (varintDecode pkt (tokenOff pkt)).2 + (varintDecode pkt (tokenOff pkt)).1

def numberOff (pkt : List UInt8) : ℕ := lengthOff pkt + (varintDecode pkt (lengthOff pkt)).2

/-- A header of version 1 with a short token, inside the bytes that are looked at. -/
structure HeaderFits (pkt : List UInt8) : Prop where
  version : BigEndian.u32 pkt 9 = 1
  dcid : 8 ≤ dcidLenAt pkt ∧ dcidLenAt pkt ≤ 20
  tokenLen : tokenOff pkt + 8 ≤ pkt.length
  token : (varintDecode pkt (tokenOff pkt)).1 ≤ 255
  packetLen : lengthOff pkt + 8 ≤ pkt.length
  sample : numberOff pkt + 20 < pkt.length

section Fields

variable {α : Type} {pkt : List UInt8} {off : ℕ}

theorem getU8_bind (f : UInt8 → Except IErr α) :
    (getU8 pkt off >>= f) = if off + 1 > pkt.length then .error .load else f (pkt.getD off 0) := by
  rw [getU8]
  split <;> rfl

theorem getU16_bind (f : UInt16 → Except IErr α) : (getU16 pkt off >>= f) =
    if off + 2 > pkt.length then .error .load else f (BigEndian.u16 pkt off) := by
  rw [getU16]
  split <;> rfl

theorem getU32_bind (f : UInt32 → Except IErr α) : (getU32 pkt off >>= f) =
    if off + 4 > pkt.length then .error .load else f (BigEndian.u32 pkt off) := by
  rw [getU32]
  split <;> rfl

theorem getVarint_bind (f : ℕ × ℕ → Except IErr α) : (getVarint pkt off >>= f) =
    if off + 8 > pkt.length then .error .load else f (varintDecode pkt off) := by
  rw [getVarint]
  split <;> rfl

theorem require_bind (p : Prop) [Decidable p] (e : IErr) (f : Unit → Except IErr α) :
    (require p e >>= f) = if p then f () else .error e := by
  rw [require]
  split <;> rfl

/-- Only a test that is passed leads to a result. -/
theorem error_else_eq_ok {c : Prop} [Decidable c] {e : IErr} {x : Except IErr α} {v : α} :
    (if c then .error e else x) = .ok v ↔ ¬ c ∧ x = .ok v := by
  split_ifs with hc <;> simp [hc]

theorem none_else_eq_some {c : Prop} [Decidable c] {x : Except IErr (Option α)} {v : α} :
    (if c then .ok none else x) = .ok (some v) ↔ ¬ c ∧ x = .ok (some v) := by
  split_ifs with hc <;> simp [hc]

theorem varintDecode_len (pkt : List UInt8) (off : ℕ) :
    1 ≤ (varintDecode pkt off).2 ∧ (varintDecode pkt off).2 ≤ 8 := by
  simp only [varintDecode]
  split_ifs <;> simp

theorem varintDecode_lt (pkt : List UInt8) (off : ℕ) : (varintDecode pkt off).1 < 2 ^ 62 := by
  have hbyte : ((pkt.getD off 0) &&& 0x3f).toNat < 2 ^ 62 :=
    (UInt8.toNat_lt _).trans (by decide)
  have hand : ∀ x m : ℕ, m < 2 ^ 62 → x &&& m < 2 ^ 62 :=
    fun x m hm => Nat.and_le_right.trans_lt hm
  simp only [varintDecode]
  split_ifs
  · exact hbyte
  · exact hand _ _ (by decide)
  · exact hand _ _ (by decide)
  · exact hand _ _ (by decide)

/-- The parser as a chain of tests. -/
theorem quicHdrFields_eq (pkt : List UInt8) : quicHdrFields pkt =
    if 8 + 1 > pkt.length then .error .load
    else if pkt.getD 8 0 >>> 4 ≠ 0xC then .ok none
    else if 9 + 4 > pkt.length then .error .load
    else if BigEndian.u32 pkt 9 ≠ 1 then .error .badInstr
    else if 13 + 1 > pkt.length then .error .load
    else if dcidLenAt pkt < 8 ∨ dcidLenAt pkt > 20 then .error .sanity
    else if 14 + dcidLenAt pkt + 1 > pkt.length then .error .load
    else if tokenOff pkt + 8 > pkt.length then .error .load
    else if (varintDecode pkt (tokenOff pkt)).1 > 255 then .error .sanity
    else if lengthOff pkt + 8 > pkt.length then .error .load
    else if numberOff pkt + 20 ≥ pkt.length then .error .load
    else .ok (some ⟨pkt.getD 8 0, numberOff pkt, (varintDecode pkt (lengthOff pkt)).1⟩) := by
  have hchain : quicHdrFields pkt =
      if 8 + 1 > pkt.length then .error .load
      else if pkt.getD 8 0 >>> 4 ≠ 0xC then .ok none
      else if 9 + 4 > pkt.length then .error .load
      else if BigEndian.u32 pkt 9 ≠ 1 then .error .badInstr
      else if 13 + 1 > pkt.length then .error .load
      else if pkt.getD 13 0 < 8 ∨ pkt.getD 13 0 > 20 then .error .sanity
      else if 14 + dcidLenAt pkt + 1 > pkt.length then .error .load
      else if tokenOff pkt + 8 > pkt.length then .error .load
      else if (varintDecode pkt (tokenOff pkt)).2 > 8 ∨
        (varintDecode pkt (tokenOff pkt)).1 > 255 then .error .sanity
      else if lengthOff pkt + 8 > pkt.length then .error .load
      else if (varintDecode pkt (lengthOff pkt)).2 > 255 then .error .load
      else if numberOff pkt + 20 ≥ pkt.length then .error .load
      else .ok (some ⟨pkt.getD 8 0, numberOff pkt, (varintDecode pkt (lengthOff pkt)).1⟩) := by
    simp only [quicHdrFields, getU8_bind, getU32_bind, getVarint_bind, require_bind, ite_not]
    rfl
  have hdcid : (pkt.getD 13 0 < 8 ∨ pkt.getD 13 0 > 20) ↔
      (dcidLenAt pkt < 8 ∨ dcidLenAt pkt > 20) := by
    simp [dcidLenAt, UInt8.lt_iff_toNat_lt]
  have hfirst := varintDecode_len pkt (tokenOff pkt)
  have hsecond := varintDecode_len pkt (lengthOff pkt)
  have htoklen : ((varintDecode pkt (tokenOff pkt)).2 > 8 ∨
      (varintDecode pkt (tokenOff pkt)).1 > 255) ↔ (varintDecode pkt (tokenOff pkt)).1 > 255 := by
    omega
  have hlenlen : ¬ (varintDecode pkt (lengthOff pkt)).2 > 255 := by omega
  rw [hchain]
  simp only [hdcid, htoklen, hlenlen, if_false]

/-- An Initial packet is accepted exactly if its header fits. -/
theorem quicHdrFields_fits (hi : pkt.getD 8 0 >>> 4 = 0xC) (h : HeaderFits pkt) :
    quicHdrFields pkt =
      .ok (some ⟨pkt.getD 8 0, numberOff pkt, (varintDecode pkt (lengthOff pkt)).1⟩) := by
  have htok := h.tokenLen
  have hoff : 15 + dcidLenAt pkt ≤ tokenOff pkt := by
    rw [tokenOff]
    omega
  have hdcid := h.dcid
  rw [quicHdrFields_eq, if_neg (by omega), if_neg (not_not.mpr hi), if_neg (by omega),
    if_neg (not_not.mpr h.version), if_neg (by omega), if_neg (by omega), if_neg (by omega),
    if_neg (not_lt.mpr h.tokenLen), if_neg (not_lt.mpr h.token), if_neg (not_lt.mpr h.packetLen),
    if_neg (not_le.mpr h.sample)]

/-- What a header that was read tells about the packet. -/
theorem quicHdrFields_some {h : QuicHdr} (hres : quicHdrFields pkt = .ok (some h)) :
    pkt.getD 8 0 >>> 4 = 0xC ∧ HeaderFits pkt ∧
      h = ⟨pkt.getD 8 0, numberOff pkt, (varintDecode pkt (lengthOff pkt)).1⟩ := by
  simp only [quicHdrFields_eq, error_else_eq_ok, none_else_eq_some, not_not] at hres
  obtain ⟨-, hinitial, -, hversion, -, hdcid, -, htokenLen, htoken, hpacketLen, hsample, hh⟩ := hres
  exact ⟨hinitial, ⟨hversion, by omega, by omega, by omega, by omega, by omega⟩,
    (Option.some.inj (Except.ok.inj hh)).symm⟩

theorem quicHdrFields_not_fits (hi : pkt.getD 8 0 >>> 4 = 0xC) (h : ¬ HeaderFits pkt) :
    ∃ e, quicHdrFields pkt = .error e := by
  cases hres : quicHdrFields pkt with
  | error e => exact ⟨e, rfl⟩
  | ok o =>
    exfalso
    apply h
    rw [quicHdrFields_eq, ite_not, if_pos hi, ite_not] at hres
    split_ifs at hres with h1 h3 h4 h5 h6 h7 h8 h9 h10 h11
    exact ⟨h4, by omega, by omega, by omega, by omega, by omega⟩

end Fields

/-! ### The header of a protected packet -/

section Wire

open QuicInitial

theorem varintDecode_field {pkt : List UInt8} {off v : ℕ} (size : VarintSize)
    (h : field pkt off size.bytes = varint size v) (hv : v < size.limit) :
    varintDecode pkt off = (v, size.bytes) := by
  have hhead : pkt.getD off 0 = (varint size v).getD 0 0 := by
    rw [← h, field, List.getD_eq_getElem?_getD, List.getD_eq_getElem?_getD,
      List.getElem?_take_of_lt (by cases size <;> decide), List.getElem?_drop, Nat.add_zero]
  have hshift : ∀ b : UInt8, (b >>> 6).toNat = b.toNat / 64 := by
    intro b
    simp [UInt8.toNat_shiftRight, Nat.shiftRight_eq_div_pow]
  have htag : (pkt.getD off 0 >>> 6).toNat = size.tag := by
    rw [hshift, hhead]
    cases size <;> simp [varint, VarintSize.bytes, VarintSize.tag, VarintSize.limit,
      BigEndian.ofNat, LittleEndian.ofNat] at hv ⊢ <;> omega
  have hval : BigEndian.toNat (field pkt off size.bytes) = size.tag * size.limit + v := by
    rw [h, varint, BigEndian.toNat_ofNat, Nat.mod_eq_of_lt]
    cases size <;> simp [VarintSize.bytes, VarintSize.tag, VarintSize.limit] at hv ⊢ <;> omega
  -- the two bits of the tag are masked away
  have hlow : ∀ k t, v < 2 ^ k → (t * 2 ^ k + v) &&& (2 ^ k - 1) = v := by
    intro k t hk
    rw [Nat.and_two_pow_sub_one_eq_mod, Nat.mul_comm, Nat.mul_add_mod, Nat.mod_eq_of_lt hk]
  cases size with
  | one =>
    have htag : pkt.getD off 0 >>> 6 = 0 := UInt8.toNat_inj.mp htag
    have hv : v < 64 := hv
    have hbyte : (pkt.getD off 0).toNat = 0 * 2 ^ 6 + v := by
      rw [hhead]
      simp [varint, VarintSize.bytes, VarintSize.tag, BigEndian.ofNat, LittleEndian.ofNat]
      omega
    simp only [varintDecode, htag, if_true, UInt8.toNat_and, hbyte]
    exact congrArg (·, 1) (hlow 6 0 hv)
  | two =>
    have htag : pkt.getD off 0 >>> 6 = 1 := UInt8.toNat_inj.mp htag
    have hval : BigEndian.toNat (field pkt off 2) = 1 * 2 ^ 14 + v := hval
    simp only [varintDecode, htag, hval]
    exact congrArg (·, 2) (hlow 14 1 hv)
  | four =>
    have htag : pkt.getD off 0 >>> 6 = 2 := UInt8.toNat_inj.mp htag
    have hval : BigEndian.toNat (field pkt off 4) = 2 * 2 ^ 30 + v := hval
    simp only [varintDecode, htag, hval]
    exact congrArg (·, 4) (hlow 30 2 hv)
  | eight =>
    have htag : pkt.getD off 0 >>> 6 = 3 := UInt8.toNat_inj.mp htag
    have hval : BigEndian.toNat (field pkt off 8) = 3 * 2 ^ 62 + v := hval
    simp only [varintDecode, htag, hval]
    exact congrArg (·, 8) (hlow 62 3 hv)

variable {udp rest : List UInt8} {first : UInt8} {q : Packet}

theorem getD_at {a b : List UInt8} {x : UInt8} {off : ℕ} (h : a.length = off) :
    (a ++ x :: b).getD off 0 = x := by
  subst h
  simp [List.getD_eq_getElem?_getD]

theorem field_at {a b c : List UInt8} {off n : ℕ} (h : a.length = off) (hn : b.length = n) :
    field (a ++ (b ++ c)) off n = b := by
  rw [LittleEndian.field_append_right (k := 0) _ (by omega), LittleEndian.field_append_left _ hn]

theorem u16_at {a b : List UInt8} {off v : ℕ} (h : a.length = off) (hv : v < 256 ^ 2) :
    (BigEndian.u16 (a ++ (BigEndian.ofNat 2 v ++ b)) off).toNat = v := by
  rw [BigEndian.u16, field_at h (by simp), BigEndian.toNat_ofNat, UInt16.toNat_ofNat']
  omega

/-- The header as it starts a datagram, with anything behind it. -/
def headed (udp : List UInt8) (first : UInt8) (q : Packet) (rest : List UInt8) : List UInt8 :=
  udp ++ first :: (q.fields ++ rest)

theorem headed_first (hu : udp.length = 8) : (headed udp first q rest).getD 8 0 = first :=
  getD_at hu

theorem headed_version (hu : udp.length = 8) : BigEndian.u32 (headed udp first q rest) 9 = 1 := by
  have hsplit : headed udp first q rest = (udp ++ [first]) ++ (BigEndian.ofNat 4 1 ++
      (UInt8.ofNat q.dcid.length :: q.dcid ++ UInt8.ofNat q.scid.length :: q.scid ++
        varint q.tokenSize q.token.length ++ q.token ++ varint q.lengthSize q.length ++ rest)) := by
    simp [headed, Packet.fields]
  rw [BigEndian.u32, hsplit, field_at (by simp [hu]) (by simp), BigEndian.toNat_ofNat]
  rfl

theorem headed_dcidLen (hu : udp.length = 8) (hd : q.dcid.length ≤ 20) :
    dcidLenAt (headed udp first q rest) = q.dcid.length := by
  have hsplit : headed udp first q rest = (udp ++ [first] ++ BigEndian.ofNat 4 1) ++
      UInt8.ofNat q.dcid.length :: (q.dcid ++ UInt8.ofNat q.scid.length :: q.scid ++
        varint q.tokenSize q.token.length ++ q.token ++ varint q.lengthSize q.length ++ rest) := by
    simp [headed, Packet.fields]
  rw [dcidLenAt, hsplit, getD_at (by simp [hu]), UInt8.toNat_ofNat', Nat.mod_eq_of_lt (by omega)]

theorem headed_tokenOff (hu : udp.length = 8) (hd : q.dcid.length ≤ 20)
    (hs : q.scid.length ≤ 255) :
    tokenOff (headed udp first q rest) = 15 + q.dcid.length + q.scid.length := by
  have hsplit : headed udp first q rest = (udp ++ [first] ++ BigEndian.ofNat 4 1 ++
      [UInt8.ofNat q.dcid.length] ++ q.dcid) ++ UInt8.ofNat q.scid.length :: (q.scid ++
        varint q.tokenSize q.token.length ++ q.token ++ varint q.lengthSize q.length ++ rest) := by
    simp [headed, Packet.fields]
  rw [tokenOff, headed_dcidLen hu hd, hsplit, getD_at (by simp [hu]; omega), UInt8.toNat_ofNat',
    Nat.mod_eq_of_lt (by omega)]
  omega

theorem headed_tokenLen (hu : udp.length = 8) (hq : q.Encodable) :
    varintDecode (headed udp first q rest) (tokenOff (headed udp first q rest)) =
      (q.token.length, q.tokenSize.bytes) := by
  have hsplit : headed udp first q rest = (udp ++ [first] ++ BigEndian.ofNat 4 1 ++
      [UInt8.ofNat q.dcid.length] ++ q.dcid ++ [UInt8.ofNat q.scid.length] ++ q.scid) ++
        (varint q.tokenSize q.token.length ++ (q.token ++ varint q.lengthSize q.length ++ rest)) :=
    by simp [headed, Packet.fields]
  apply varintDecode_field _ _ hq.token
  rw [headed_tokenOff hu hq.dcid hq.scid, hsplit, field_at (by simp [hu]; omega) (by simp)]

theorem headed_lengthOff (hu : udp.length = 8) (hq : q.Encodable) :
    lengthOff (headed udp first q rest) =
      15 + q.dcid.length + q.scid.length + q.tokenSize.bytes + q.token.length := by
  rw [lengthOff, headed_tokenLen hu hq, headed_tokenOff hu hq.dcid hq.scid]

theorem headed_length (hu : udp.length = 8) (hq : q.Encodable) :
    varintDecode (headed udp first q rest) (lengthOff (headed udp first q rest)) =
      (q.length, q.lengthSize.bytes) := by
  have hsplit : headed udp first q rest = (udp ++ [first] ++ BigEndian.ofNat 4 1 ++
      [UInt8.ofNat q.dcid.length] ++ q.dcid ++ [UInt8.ofNat q.scid.length] ++ q.scid ++
        varint q.tokenSize q.token.length ++ q.token) ++
        (varint q.lengthSize q.length ++ rest) := by
    simp [headed, Packet.fields]
  apply varintDecode_field _ _ hq.length
  rw [headed_lengthOff hu hq, hsplit, field_at (by simp [hu]; omega) (by simp)]

theorem length_fields (q : Packet) : q.fields.length =
    6 + q.dcid.length + q.scid.length + q.tokenSize.bytes + q.token.length +
      q.lengthSize.bytes := by
  simp [Packet.fields]
  omega

theorem headed_numberOff (hu : udp.length = 8) (hq : q.Encodable) :
    numberOff (headed udp first q rest) = 9 + q.fields.length := by
  rw [numberOff, headed_length hu hq, headed_lengthOff hu hq, length_fields]
  omega

/-- Such a header fits when its token is short and twenty-one bytes follow. -/
theorem headed_fits (hu : udp.length = 8) (hq : q.Encodable) (hd : 8 ≤ q.dcid.length)
    (ht : q.token.length ≤ 255) (hrest : 20 < rest.length) :
    HeaderFits (headed udp first q rest) := by
  have hlen : (headed udp first q rest).length = 9 + q.fields.length + rest.length := by
    simp [headed, hu]
    omega
  have hfields := length_fields q
  refine ⟨headed_version hu, ?_, ?_, ?_, ?_, ?_⟩
  · rw [headed_dcidLen hu hq.dcid]
    exact ⟨hd, hq.dcid⟩
  · rw [headed_tokenOff hu hq.dcid hq.scid, hlen]
    omega
  · rw [headed_tokenLen hu hq]
    exact ht
  · rw [headed_lengthOff hu hq, hlen]
    omega
  · rw [headed_numberOff hu hq, hlen]
    omega

end Wire

end Udpgrm
