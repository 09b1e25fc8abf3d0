import Udpgrm.QuicProtection

/-!
The length of the payload is the Length field without the packet number and the tag, in 64 bits.
Nothing tests that the field is long enough for both.
-/
namespace Udpgrm

open LittleEndian (field)
open QuicInitial (Packet)

/-- The header `h` was read from an Initial packet, with the keys of its connection ID in the page,
and `quic_parse_hdr` returned an offset and a length for the payload. -/
structure ParsedInitial (md : Md) (linear : ℕ) (scratch : Scratch) (h : QuicHdr)
    (offset len : ℕ) : Prop where
  whole : md.len.toNat = md.data.length
  inside : linear ≤ md.data.length
  parsed : ∃ fast pkt page, parseQuicFast md linear = .ok fast ∧
    quicPkt md linear (expandClientKeysFromDcid scratch fast.dcid fast.dcidLen) = .ok (pkt, page) ∧
    quicHdrFields pkt = .ok (some h) ∧
    (quicParseHdr md linear (expandClientKeysFromDcid scratch fast.dcid fast.dcidLen)).2 =
      .ok (offset, len)

/-- The payload is what the packet number, which starts at `h.pos`, and the tag leave of the
`h.packetLen` bytes, and what is loaded lies among these bytes. -/
structure StaysInside (h : QuicHdr) (offset len : ℕ) : Prop where
  room : offset - h.pos + 16 ≤ h.packetLen
  length : len = h.packetLen - (offset - h.pos) - 16
  range : ∀ i < min len 1024, h.pos ≤ offset + i ∧ offset + i < h.pos + h.packetLen

section Parsed

variable {md : Md} {linear : ℕ} {scratch : Scratch} {h : QuicHdr} {offset len : ℕ}

/-- The packet number has one to four bytes, and the rest of the length may wrap around. -/
theorem ParsedInitial.range (hp : ParsedInitial md linear scratch h offset len) :
    ∃ k, 1 ≤ k ∧ k ≤ 4 ∧ offset = h.pos + k ∧ len = (h.packetLen + 2 ^ 64 - k - 16) % 2 ^ 64 ∧
      h.packetLen < 2 ^ 62 := by
  obtain ⟨fast, pkt, page, -, hpkt, hfields, hres⟩ := hp.parsed
  obtain ⟨hinitial, -, hh⟩ := quicHdrFields_some hfields
  have hlong : h.hdr >>> 7 ≠ 0 := by
    rw [hh]
    exact long_of_initial hinitial
  have hlt : h.packetLen < 2 ^ 62 := by
    rw [hh]
    exact varintDecode_lt _ _
  have hrange : (quicUnprotect pkt h page).2 = _ := quicUnprotect_range hlong
  simp only [quicParseHdr, hpkt, hfields, hrange] at hres
  obtain ⟨hoffset, hlen⟩ := Prod.mk.inj (Except.ok.inj hres)
  obtain ⟨h1, h4⟩ := pnoLen_le page.quicHp pkt h
  exact ⟨_, h1, h4, hoffset.symm, hlen.symm, hlt⟩

theorem ParsedInitial.staysInside (hp : ParsedInitial md linear scratch h offset len)
    (h20 : 20 ≤ h.packetLen) : StaysInside h offset len := by
  obtain ⟨k, h1, h4, hoffset, hlen, hlt⟩ := hp.range
  have hlength : len = h.packetLen - k - 16 := by omega
  refine ⟨by omega, by omega, ?_⟩
  intro i hi
  omega

end Parsed

/-! ### Short packets -/

/-- A packet with `l` bytes behind its Length field. -/
def shortPacket (l : ℕ) : Packet where
  first := 0xc3
  dcid := [0, 0, 0, 0, 0, 0, 0, 0]
  scid := []
  token := []
  tokenSize := .one
  lengthSize := .one
  number := 0
  numberLength := 0
  payload := []
  tag := List.replicate l 0

/-- The first byte says that the packet number has four bytes, once its mask is removed. -/
def shortFirst : UInt8 :=
  0xc3 ^^^ ((Aes.encrypt (QuicInitial.block (QuicInitial.clientHp [0, 0, 0, 0, 0, 0, 0, 0]))
    (QuicInitial.block (List.replicate 16 0))).toList.getD 0 0 &&& 0x0f)

/-- Behind the header there are 21 zeros, whatever the Length field is. -/
def shortMd (l : ℕ) : Md :=
  ⟨0, 0, 46, [], headed (List.replicate 8 0) shortFirst (shortPacket l) (List.replicate 21 0)⟩

section Short

variable {l : ℕ}

theorem shortPacket_encodable (hl : l < 64) : (shortPacket l).Encodable := by
  have htoken : 0 < QuicInitial.VarintSize.one.limit := by decide
  have hlength : (shortPacket l).length = l := by simp [Packet.length, shortPacket]
  have hlimit : QuicInitial.VarintSize.one.limit = 64 := by decide
  exact ⟨(by decide : 8 ≤ 20), Nat.zero_le _, htoken, hlength.trans_lt (hlimit ▸ hl)⟩

theorem shortPacket_dcid (l : ℕ) : (shortPacket l).dcid.length = 8 := rfl

theorem shortPacket_fields (l : ℕ) : (shortPacket l).fields.length = 16 := length_fields _

theorem shortMd_length (l : ℕ) : (shortMd l).data.length = 46 := by
  simp [shortMd, headed, shortPacket_fields]

theorem shortFirst_initial : shortFirst >>> 4 = 0xC := by
  rw [shortFirst]
  exact initial_of_masked (by decide) _

theorem shortMd_fits (hl : l < 64) : HeaderFits (shortMd l).data :=
  headed_fits (by simp) (shortPacket_encodable hl) (shortPacket_dcid l).ge (Nat.zero_le _) (by simp)

def shortHdr (l : ℕ) : QuicHdr := ⟨shortFirst, 25, l⟩

theorem shortMd_hdr (hl : l < 64) : quicHdrFields (shortMd l).data = .ok (some (shortHdr l)) := by
  have hu : (List.replicate 8 (0 : UInt8)).length = 8 := List.length_replicate
  have hfirst : (shortMd l).data.getD 8 0 = shortFirst := headed_first hu
  have hlength : (shortPacket l).length = l := by simp [Packet.length, shortPacket]
  have hoff : numberOff (shortMd l).data = 25 := by
    rw [shortMd, headed_numberOff hu (shortPacket_encodable hl), shortPacket_fields]
  have hvarint : (varintDecode (shortMd l).data (lengthOff (shortMd l).data)).1 = l := by
    rw [shortMd, headed_length hu (shortPacket_encodable hl), hlength]
  rw [quicHdrFields_fits (hfirst.symm ▸ shortFirst_initial) (shortMd_fits hl), hfirst, hoff,
    hvarint, shortHdr]

theorem shortMd_sample (l : ℕ) : field (shortMd l).data 29 16 = List.replicate 16 0 := by
  have hsplit : (shortMd l).data = (List.replicate 8 0 ++ shortFirst :: (shortPacket l).fields ++
      List.replicate 4 0) ++ (List.replicate 16 0 ++ [0]) := by
    simp [shortMd, headed]
  rw [hsplit, field_at (by simp [shortPacket_fields]) (by simp)]

/-- The packet number is read as one of four bytes. -/
theorem shortMd_pnoLen (l : ℕ) :
    pnoLen (QuicInitial.block (QuicInitial.clientHp (shortPacket l).dcid)) (shortMd l).data
      (shortHdr l) = 4 := by
  have hfirst : firstUnmasked (QuicInitial.block (QuicInitial.clientHp (shortPacket l).dcid))
      (shortMd l).data (shortHdr l) = 0xc3 := by
    rw [firstUnmasked, headerMask, shortHdr, shortMd_sample, shortFirst, shortPacket,
      UInt8.xor_assoc, UInt8.xor_self, UInt8.xor_zero]
  rw [pnoLen, hfirst]
  decide

theorem shortMd_parsed (scratch : Scratch) (hl : l < 64) :
    ParsedInitial (shortMd l) 46 scratch (shortHdr l) 29 ((l + 2 ^ 64 - 4 - 16) % 2 ^ 64) := by
  have hlength := shortMd_length l
  have hdata : (shortMd l).data = headed (List.replicate 8 0) shortFirst (shortPacket l)
      (List.replicate 21 0) := rfl
  have hlin : 46 ≤ (shortMd l).data.length := hlength.ge
  have hwhole : (shortMd l).len.toNat = (shortMd l).data.length := hlength.symm
  obtain ⟨fast, hfast, -, hdcidLen, hdcid⟩ := parseQuicFast_headed (by simp) shortFirst_initial
    (shortPacket_dcid l).ge (shortPacket_encodable hl).dcid hdata hwhole hlin (by omega)
  let page := expandClientKeysFromDcid scratch fast.dcid fast.dcidLen
  have hkeyed : Keyed (shortPacket l).dcid page := by
    simp only [page, hdcidLen]
    exact keyed_expand scratch (shortPacket_encodable hl).dcid hdcid
  have hpkt : quicPkt (shortMd l) 46 page = .ok ((shortMd l).data, page) := by
    rw [quicPkt, hwhole, hlength, if_neg (by decide), List.take_of_length_le hlength.le]
  have hrange : (quicUnprotect (shortMd l).data (shortHdr l) page).2 = _ :=
    quicUnprotect_range (long_of_initial shortFirst_initial)
  rw [hkeyed.hp, shortMd_pnoLen] at hrange
  refine ⟨hwhole, hlin, fast, _, _, hfast, hpkt, shortMd_hdr hl, ?_⟩
  simp only [quicParseHdr]
  rw [hpkt]
  simp only [shortMd_hdr hl, hrange]
  rfl

theorem shortMd_not_inside (h20 : l < 20) :
    ¬ StaysInside (shortHdr l) 29 ((l + 2 ^ 64 - 4 - 16) % 2 ^ 64) := by
  intro hinside
  have hroom : 29 - 25 + 16 ≤ l := hinside.room
  omega

end Short

/-- For every value of the Length field: all packets that have it are decrypted inside of their
own bytes exactly if it leaves room for the longest packet number and the tag. -/
theorem decrypts_inside_iff (l : ℕ) :
    (∀ md linear scratch h offset len, ParsedInitial md linear scratch h offset len →
      h.packetLen = l → StaysInside h offset len) ↔ 20 ≤ l := by
  constructor
  · intro hall
    by_contra hlt
    have hlt : l < 20 := not_le.mp hlt
    exact shortMd_not_inside hlt
      (hall _ _ _ _ _ _ (shortMd_parsed zeroPage (hlt.trans (by decide))) rfl)
  · intro h20 md linear scratch h offset len hp hl
    exact hp.staysInside (hl ▸ h20)

/-- A Length field of zero is accepted, and more bytes than a packet has are reported for its
payload. -/
theorem payload_wraps_around :
    ParsedInitial (shortMd 0) 46 zeroPage (shortHdr 0) 29 18446744073709551596 ∧
      ¬ StaysInside (shortHdr 0) 29 18446744073709551596 :=
  ⟨shortMd_parsed zeroPage (by decide), shortMd_not_inside (by decide)⟩

end Udpgrm
