import Udpgrm.SniBounds
import Udpgrm.QuicProtection

/-!
The dissector for QUIC. A packet goes to the application whose name its ClientHello asks for, or to
the cookie or application in its connection ID.
-/
namespace Udpgrm

open ByteMemory
open LittleEndian (field)

abbrev MAX_BESPOKE_SNI : ℕ := 8
abbrev BESPOKE_SNI_LEN : ℕ := 62

/-! `bespoke_sni[i]`: a byte for the application, an unused one, and the name. -/

def bespokeApp (dis : Dissector) (i : ℕ) : UInt8 := dis.filter.toList.getD (64 * i) 0

def bespokeHostname (dis : Dissector) (i : ℕ) : List UInt8 :=
  field dis.filter.toList (64 * i + 2) BESPOKE_SNI_LEN

/-- The loop over the names, from `i` on. All but the last byte of a name is compared. -/
def matchSni (dis : Dissector) (sni : List UInt8) : ℕ → ℕ → UInt32
  | 0, _ => 0x80000000
  | n + 1, i =>
    if i ≥ dis.filterLen.toNat then 0x80000000
    else if sni = (bespokeHostname dis i).take (BESPOKE_SNI_LEN - 1) then
      0x80000000 ||| (bespokeApp dis i).toUInt32
    else matchSni dis sni n (i + 1)

/-- The custom connection IDs start with a one. -/
def dcidRetval (dcid : Dcid) : UInt32 :=
  if dcid.toList.getD 0 0 = 1 then
    let cookie := BigEndian.u16 dcid.toList 1
    if cookie = 0 then 0x80000000 ||| (dcid.toList.getD 4 0).toUInt32 else cookie.toUInt32
  else 0x80000000

/-- The bytes to compare of an extracted name, behind its five bytes of lengths. -/
def comparedName (r : Scratch × Except IErr Unit) : Option (List UInt8) :=
  match r with
  | (_, .error _) => none
  | (scratch, .ok ()) =>
    if sniLen scratch ≠ 0 then some (field (sni scratch) 5 (BESPOKE_SNI_LEN - 1)) else none

/-- The payload is looked at where the header was parsed. Only the header parser's errors are passed
on. -/
def sniOfHdr (md : Md) (r : Scratch × Except IErr (ℕ × ℕ)) :
    Scratch × Except IErr (Option (List UInt8)) :=
  match r with
  | (scratch, .error e) => (scratch, .error e)
  | (scratch, .ok (encOffset, packetLen)) =>
    let r := quicExtractSni md scratch encOffset packetLen
    (r.1, .ok (comparedName r))

/-- The slow path for Initial packets. -/
def quicSni (md : Md) (linear : ℕ) (fast : QuicFast) (scratch : Scratch) :
    Scratch × Except IErr (Option (List UInt8)) :=
  sniOfHdr md (quicParseHdr md linear (expandClientKeysFromDcid scratch fast.dcid fast.dcidLen))

def run0xDEAD (md : Md) (linear : ℕ) (dis : Dissector) (scratch : Scratch) :
    Scratch × Except IErr UInt32 :=
  match parseQuicFast md linear with
  | .error e => (scratch, .error e)
  | .ok fast =>
    if fast.isInitPacket then
      match quicSni md linear fast scratch with
      | (scratch, .error e) => (scratch, .error e)
      | (scratch, .ok (some sni)) => (scratch, .ok (matchSni dis sni MAX_BESPOKE_SNI 0))
      | (scratch, .ok none) => (scratch, .ok (dcidRetval fast.dcid))
    else (scratch, .ok (dcidRetval fast.dcid))

def runBespokeByDigest (md : Md) (linear : ℕ) (digest : UInt32) (dis : Dissector)
    (scratch : Scratch) : Scratch × Except IErr UInt32 :=
  if digest = 0xDEAD then run0xDEAD md linear dis scratch else (scratch, .error .instrExceeded)

/-- The packet programs with this dissector, for packets laid out as `linear` says and pages as
earlier packets left them. `retval` starts as zero. -/
def Programs.withQuic (p : Programs) (linear : Md → ℕ) (page : Md → Scratch) : Programs :=
  { p with
    runBespokeByDigest := fun md digest dis =>
      match (Udpgrm.runBespokeByDigest md (linear md) digest dis (page md)).2 with
      | .error e => (e, 0)
      | .ok retval => (.ok, retval) }

/-! ### Initial packets without the page -/

/-- The bytes of the connection ID that the fast parser found. -/
def QuicFast.connectionId (fast : QuicFast) : List UInt8 := fast.dcid.toList.take fast.dcidLen

/-- The bytes that the header parser looks at. -/
def headerBytes (md : Md) (linear : ℕ) : Except IErr (List UInt8) :=
  if linear < min md.len.toNat MIN_QUIC_HDR_LINEAR then
    if md.len.toNat < 1 then .error .sanity
    else
      match loadBytes md.data 0 (min md.len.toNat MIN_QUIC_HDR_LINEAR) with
      | none => .error .load
      | some pkt => .ok pkt
  else .ok (md.data.take linear)

/-- The payload of the packet `pkt` with the header `h`, under the keys of a connection ID, or
nothing if it is too short or not all there. -/
def decryptedPayload (md : Md) (dcid pkt : List UInt8) (h : QuicHdr) : Option (List UInt8) :=
  let hp := QuicInitial.block (QuicInitial.clientHp dcid)
  let len := (h.packetLen + 2 ^ 64 - pnoLen hp pkt h - 16) % 2 ^ 64
  if len < 2 then none
  else
    (loadBytes md.data (h.pos + pnoLen hp pkt h) (min len 1024)).map
      (QuicInitial.encrypt (QuicInitial.clientKey dcid)
        (sentNonce hp (QuicInitial.clientIv dcid) pkt h))

def initialPayload (md : Md) (linear : ℕ) (dcid : List UInt8) :
    Except IErr (Option (List UInt8)) :=
  match headerBytes md linear with
  | .error e => .error e
  | .ok pkt =>
    match quicHdrFields pkt with
    | .error e => .error e
    | .ok none => .ok none
    | .ok (some h) => .ok (decryptedPayload md dcid pkt h)

/-- What the page holds when the payload is loaded. -/
def oldBytes (md : Md) (linear : ℕ) (scratch : Scratch) : List UInt8 :=
  if linear < min md.len.toNat MIN_QUIC_HDR_LINEAR then
    LittleEndian.patch scratch.pkt.toList 0 (md.data.take (min md.len.toNat MIN_QUIC_HDR_LINEAR))
  else scratch.pkt.toList

/-- The buffer with a payload in it. The last block of the payload is filled up with zeros, and the
old bytes behind it stay. -/
def overlaid (text old : List UInt8) : List UInt8 :=
  (text ++ (List.replicate (16 - text.length % 16) 0 ++ old.drop (text.length / 16 * 16 + 16))).take
    1024

/-- The name that is compared, if the buffer holds one. -/
def nameIn (buf : List UInt8) : Option (List UInt8) :=
  match clientHelloSni buf with
  | .ok (some (off, len)) =>
    if len ≠ 0 then
      some (field (field buf off (min len SNI_SIZE) ++ List.replicate (SNI_SIZE - len) 0) 5
        (BESPOKE_SNI_LEN - 1))
    else none
  | _ => none

/-! ### The slow path computes that -/

theorem comparedName_parse (s : Scratch) :
    comparedName (parseClientHelloExtractSni (clearSni s)) = nameIn s.pkt.toList := by
  cases hwalk : clientHelloSni s.pkt.toList with
  | error e =>
    rw [parseClientHelloExtractSni_error hwalk]
    simp only [comparedName, nameIn, hwalk]
  | ok found =>
    cases found with
    | none =>
      rw [parseClientHelloExtractSni_none hwalk]
      simp only [comparedName, nameIn, hwalk, sniLen_clearSni]
      rfl
    | some found =>
      obtain ⟨o, before, hread, hk⟩ := found_iff_reading.mp hwalk
      have hroom := hread.room
      rw [Vector.length_toList] at hroom
      obtain ⟨hcode, hlen, hsni⟩ := parseClientHelloExtractSni_found hwalk (by omega) hread.size
      generalize parseClientHelloExtractSni (clearSni s) = r at hcode hlen hsni
      obtain ⟨page, code⟩ := r
      obtain rfl : code = .ok () := hcode
      simp only [comparedName, nameIn, hwalk]
      rw [hlen, hsni]

theorem parseClientHelloExtractSni_pkt (s : Scratch) :
    (parseClientHelloExtractSni (clearSni s)).1.pkt = s.pkt := by
  cases hwalk : clientHelloSni s.pkt.toList with
  | error e => rw [parseClientHelloExtractSni_error hwalk, clearSni_pkt]
  | ok found =>
    cases found with
    | none => rw [parseClientHelloExtractSni_none hwalk, clearSni_pkt]
    | some found => simp only [parseClientHelloExtractSni, clearSni_pkt, hwalk]

section Overlaid

variable {text old : List UInt8}

theorem length_overlaid (ht : text.length ≤ 1024) (ho : old.length = 1024) :
    (overlaid text old).length = 1024 := by
  simp [overlaid, ho]
  omega

theorem getD_overlaid {i : ℕ} (hi : i < 1024) : (overlaid text old).getD i 0 =
    if i < text.length then text.getD i 0
    else if i < text.length / 16 * 16 + 16 then 0 else old.getD i 0 := by
  have htake : (overlaid text old).getD i 0 = (text ++ (List.replicate (16 - text.length % 16) 0 ++
      old.drop (text.length / 16 * 16 + 16))).getD i 0 := by
    simp only [overlaid, List.getD_eq_getElem?_getD, List.getElem?_take_of_lt hi]
  rw [htake]
  split_ifs with hin hblock
  · exact List.getD_append _ _ _ _ hin
  · rw [List.getD_append_right _ _ _ _ (by omega), List.getD_append _ _ _ _ (by simp; omega),
      List.getD_replicate _ (by omega)]
  · rw [List.getD_append_right _ _ _ _ (by omega), List.getD_append_right _ _ _ _ (by simp; omega)]
    simp only [List.getD_eq_getElem?_getD, List.getElem?_drop, List.length_replicate]
    congr 2
    omega

end Overlaid

section Slow

open QuicInitial

variable {md : Md} {linear : ℕ} {s : Scratch} {id pkt : List UInt8} {fast : QuicFast}

theorem toList_quicDecryptPayload {iv enc : List UInt8} {off len : ℕ} (hiv : iv.length = 12)
    (hcounter : s.quicIv = counterBlock iv 1) (hlen : 2 ≤ len)
    (hload : loadBytes md.data off (min len 1024) = some enc) :
    (quicDecryptPayload md s off len).1.pkt.toList =
      overlaid (encrypt s.quicKey.toList iv enc) s.pkt.toList := by
  have henc : enc.length = min len 1024 := length_of_loadBytes hload
  have hle : (encrypt s.quicKey.toList iv enc).length ≤ 1024 := by
    rw [length_encrypt]
    omega
  apply toList_eq (length_overlaid hle (by simp))
  intro i hi
  rw [byte_quicDecryptPayload hiv hcounter hlen hload hi, getD_overlaid hi, length_encrypt, henc]
  split_ifs with hin hblock
  · rw [getD_encrypt (by omega)]
  · rfl
  · rw [byte]

theorem quicPkt_error {e : IErr} (h : headerBytes md linear = .error e) (s : Scratch) :
    quicPkt md linear s = .error e := by
  rw [headerBytes] at h
  rw [quicPkt]
  split_ifs at h ⊢
  · rw [Except.error.inj h]
  · cases hload : loadBytes md.data 0 (min md.len.toNat MIN_QUIC_HDR_LINEAR) with
    | none =>
      simp only [hload] at h
      rw [Except.error.inj h]
    | some bs => simp [hload] at h

theorem quicPkt_ok (h : headerBytes md linear = .ok pkt) (s : Scratch) :
    ∃ mem : Memory 1024, quicPkt md linear s = .ok (pkt, { s with pkt := mem }) ∧
      mem.toList = oldBytes md linear s := by
  rw [headerBytes] at h
  rw [quicPkt, oldBytes]
  split_ifs at h ⊢
  · cases hload : loadBytes md.data 0 (min md.len.toNat MIN_QUIC_HDR_LINEAR) with
    | none => simp [hload] at h
    | some bs =>
      have hlen := length_of_loadBytes hload
      simp only [hload] at h
      obtain rfl := Except.ok.inj h
      refine ⟨_, rfl, ?_⟩
      rw [toList_store (by simp [MIN_QUIC_HDR_LINEAR] at hlen; omega)]
      rw [loadBytes] at hload
      split_ifs at hload
      rw [← Option.some.inj hload, field, List.drop_zero]
  · cases h
    exact ⟨s.pkt, rfl, rfl⟩

/-- For a long header the rest of the connection ID's field is zero. -/
theorem quicFastFields_initial (h : quicFastFields pkt = .ok fast) (hi : fast.isInitPacket = true) :
    8 ≤ fast.dcidLen ∧ fast.dcidLen ≤ 20 ∧
      fast.dcid.toList = fast.connectionId ++ List.replicate (20 - fast.dcidLen) 0 := by
  simp only [quicFastFields] at h
  split_ifs at h with hlong hlen
  · obtain rfl := Except.ok.inj h
    rw [not_or, not_lt, not_lt] at hlen
    refine ⟨hlen.1, hlen.2, zero_filled ?_⟩
    intro i hi20 hle
    rw [Vector.getElem_ofFn, if_neg (by simpa using hle)]
  · obtain rfl := Except.ok.inj h
    exact absurd (long_of_initial (of_decide_eq_true hi)) hlong

/-- The keys are expanded for the bytes of the connection ID. -/
theorem parseQuicFast_initial (h : parseQuicFast md linear = .ok fast)
    (hi : fast.isInitPacket = true) :
    8 ≤ fast.connectionId.length ∧ fast.connectionId.length ≤ 20 ∧
      fast.dcidLen = fast.connectionId.length ∧
      fast.dcid.toList = fast.connectionId ++ List.replicate (20 - fast.connectionId.length) 0 := by
  have hfields : ∃ pkt, quicFastFields pkt = .ok fast := by
    rw [parseQuicFast, error_else_eq_ok] at h
    revert h
    split
    · simp
    · exact fun h => ⟨_, h.2⟩
  obtain ⟨pkt, hpkt⟩ := hfields
  obtain ⟨h8, h20, hz⟩ := quicFastFields_initial hpkt hi
  have hlen : fast.connectionId.length = fast.dcidLen := by
    rw [QuicFast.connectionId, List.length_take, Vector.length_toList]
    omega
  rw [hlen]
  exact ⟨h8, h20, rfl, hz⟩

/-- The keys are those of the connection ID, and the buffer is as it was. -/
theorem keyed_fast (h : parseQuicFast md linear = .ok fast) (hi : fast.isInitPacket = true)
    (s : Scratch) :
    Keyed fast.connectionId (expandClientKeysFromDcid s fast.dcid fast.dcidLen) := by
  obtain ⟨-, h20, hlen, hz⟩ := parseQuicFast_initial h hi
  rw [hlen]
  exact keyed_expand s h20 hz

theorem quicExtractSni_error {off len : ℕ} {e : IErr}
    (h : (quicDecryptPayload md s off len).2 = .error e) :
    comparedName (quicExtractSni md s off len) = none := by
  rw [quicExtractSni]
  generalize quicDecryptPayload md s off len = r at h
  obtain ⟨page, code⟩ := r
  obtain rfl : code = .error e := h
  rfl

theorem quicExtractSni_ok {off len : ℕ} (h : (quicDecryptPayload md s off len).2 = .ok ()) :
    comparedName (quicExtractSni md s off len) =
      nameIn (quicDecryptPayload md s off len).1.pkt.toList ∧
    (quicExtractSni md s off len).1.pkt = (quicDecryptPayload md s off len).1.pkt := by
  rw [quicExtractSni]
  generalize quicDecryptPayload md s off len = r at h
  obtain ⟨page, code⟩ := r
  obtain rfl : code = .ok () := h
  exact ⟨comparedName_parse page, parseClientHelloExtractSni_pkt page⟩

/-- The payload is decrypted over what the page held, or not at all. -/
theorem quicDecryptPayload_eq (md : Md) {h : QuicHdr} (hk : Keyed id s)
    (hpkt : h.pos + 4 ≤ pkt.length) (hlong : h.hdr >>> 7 ≠ 0) :
    let r := quicUnprotect pkt h s
    (decryptedPayload md id pkt h = none ∧
      ∃ e, (quicDecryptPayload md r.1 r.2.1 r.2.2).2 = .error e) ∨
    ∃ text, decryptedPayload md id pkt h = some text ∧
      (quicDecryptPayload md r.1 r.2.1 r.2.2).2 = .ok () ∧
      (quicDecryptPayload md r.1 r.2.1 r.2.2).1.pkt.toList = overlaid text s.pkt.toList := by
  have hunprotect := quicUnprotect_eq hlong hpkt hk.iv (length_clientIv id)
  have hnonce := length_sentNonce (block (clientHp id)) hpkt (length_clientIv id)
  rw [hk.hp] at hunprotect
  simp only [hunprotect, decryptedPayload]
  generalize pnoLen (block (clientHp id)) pkt h = k
  generalize (h.packetLen + 2 ^ 64 - k - 16) % 2 ^ 64 = len
  by_cases hshort : len < 2
  · exact .inl ⟨by rw [if_pos hshort], .sanity, by rw [quicDecryptPayload, if_pos hshort]⟩
  · rw [if_neg hshort]
    cases hload : loadBytes md.data (h.pos + k) (min len 1024) with
    | none =>
      refine .inl ⟨rfl, .load, ?_⟩
      simp only [quicDecryptPayload, if_neg hshort, hload]
    | some enc =>
      have hlen : 2 ≤ len := not_lt.mp hshort
      refine .inr ⟨_, rfl, quicDecryptPayload_ok hlen hload, ?_⟩
      rw [toList_quicDecryptPayload hnonce rfl hlen hload]
      simp only [hk.key, toList_block (length_clientKey id)]

section Header

variable {e : IErr} {mem : Memory 1024} {h : QuicHdr}

theorem quicParseHdr_load_error (hpkt : quicPkt md linear s = .error e) :
    quicParseHdr md linear s = (s, .error e) := by
  rw [quicParseHdr, hpkt]

theorem quicParseHdr_error (hpkt : quicPkt md linear s = .ok (pkt, { s with pkt := mem }))
    (hfields : quicHdrFields pkt = .error e) :
    quicParseHdr md linear s = ({ s with pkt := mem }, .error e) := by
  rw [quicParseHdr, hpkt]
  simp only [hfields]

theorem quicParseHdr_none (hpkt : quicPkt md linear s = .ok (pkt, { s with pkt := mem }))
    (hfields : quicHdrFields pkt = .ok none) :
    quicParseHdr md linear s = ({ s with pkt := mem }, .ok (0, 0)) := by
  rw [quicParseHdr, hpkt]
  simp only [hfields]

theorem quicParseHdr_some (hpkt : quicPkt md linear s = .ok (pkt, { s with pkt := mem }))
    (hfields : quicHdrFields pkt = .ok (some h)) :
    quicParseHdr md linear s =
      ((quicUnprotect pkt h { s with pkt := mem }).1,
        .ok (quicUnprotect pkt h { s with pkt := mem }).2) := by
  rw [quicParseHdr, hpkt]
  simp only [hfields]

end Header

theorem sniOfHdr_ok {off len : ℕ} (s : Scratch) : sniOfHdr md (s, .ok (off, len)) =
    ((quicExtractSni md s off len).1, .ok (comparedName (quicExtractSni md s off len))) := by
  rw [sniOfHdr]

theorem sniOfHdr_error {e : IErr} (s : Scratch) : sniOfHdr md (s, .error e) = (s, .error e) := by
  rw [sniOfHdr]

/-- The slow path on a page agrees with a payload. -/
def AgreesWith (md : Md) (linear : ℕ) (s : Scratch) (payload : Except IErr (Option (List UInt8)))
    (r : Scratch × Except IErr (Option (List UInt8))) : Prop :=
  r.2 = payload.map (fun payload =>
    payload.bind fun text => nameIn (overlaid text (oldBytes md linear s))) ∧
  ∀ text, payload = .ok (some text) → r.1.pkt.toList = overlaid text (oldBytes md linear s)

theorem agreesWith_error {e : IErr} (s page : Scratch) :
    AgreesWith md linear s (.error e) (page, .error e) :=
  ⟨rfl, fun text h => by cases h⟩

theorem agreesWith_none (s page : Scratch) :
    AgreesWith md linear s (.ok none) (page, .ok none) :=
  ⟨rfl, fun text h => by cases h⟩

theorem agreesWith_some {text : List UInt8} {page : Scratch}
    (h : page.pkt.toList = overlaid text (oldBytes md linear s)) :
    AgreesWith md linear s (.ok (some text)) (page, .ok (nameIn page.pkt.toList)) := by
  refine ⟨by rw [h, Except.map, Option.bind_some], ?_⟩
  intro text' heq
  rw [h, Option.some.inj (Except.ok.inj heq)]

theorem agreesWith_payload {h : QuicHdr} {mem : Memory 1024} (hk : Keyed id { s with pkt := mem })
    (hmem : mem.toList = oldBytes md linear s) (hpkt : h.pos + 4 ≤ pkt.length)
    (hlong : h.hdr >>> 7 ≠ 0) :
    AgreesWith md linear s (.ok (decryptedPayload md id pkt h))
      (sniOfHdr md ((quicUnprotect pkt h { s with pkt := mem }).1,
        .ok (quicUnprotect pkt h { s with pkt := mem }).2)) := by
  have hpayload := quicDecryptPayload_eq md hk hpkt hlong
  generalize quicUnprotect pkt h { s with pkt := mem } = r at hpayload ⊢
  obtain ⟨page, off, len⟩ := r
  rw [sniOfHdr_ok]
  obtain ⟨hnone, e, herror⟩ | ⟨text, hsome, hok, htext⟩ := hpayload
  · rw [hnone, quicExtractSni_error herror]
    exact agreesWith_none _ _
  · obtain ⟨hname, hpage⟩ := quicExtractSni_ok hok
    rw [hsome, hname, ← hpage]
    apply agreesWith_some
    rw [hpage, htext, ← hmem]

/-- What is found depends on a page with the right keys only by the old bytes behind the payload,
which stays in the page. -/
theorem sniOfHdr_agrees (hk : Keyed id s) :
    AgreesWith md linear s (initialPayload md linear id)
      (sniOfHdr md (quicParseHdr md linear s)) := by
  cases hbytes : headerBytes md linear with
  | error e =>
    rw [quicParseHdr_load_error (quicPkt_error hbytes s), sniOfHdr_error, initialPayload, hbytes]
    exact agreesWith_error s s
  | ok pkt =>
    obtain ⟨mem, hpkt, hmem⟩ := quicPkt_ok hbytes s
    have hk : Keyed id { s with pkt := mem } := ⟨hk.key, hk.hp, hk.iv⟩
    rw [initialPayload, hbytes]
    cases hfields : quicHdrFields pkt with
    | error e =>
      rw [quicParseHdr_error hpkt hfields, sniOfHdr_error]
      simp only [hfields]
      exact agreesWith_error s _
    | ok found =>
      cases found with
      | none =>
        have hempty : (quicDecryptPayload md { s with pkt := mem } 0 0).2 = .error .sanity := by
          rw [quicDecryptPayload, if_pos (by decide)]
        rw [quicParseHdr_none hpkt hfields, sniOfHdr_ok, quicExtractSni_error hempty]
        simp only [hfields]
        exact agreesWith_none s _
      | some h =>
        obtain ⟨hinitial, hfits, hh⟩ := quicHdrFields_some hfields
        have hroom : h.pos + 4 ≤ pkt.length := by
          have hsample := hfits.sample
          rw [hh]
          simp only
          omega
        have hlong : h.hdr >>> 7 ≠ 0 := by
          rw [hh]
          exact long_of_initial hinitial
        rw [quicParseHdr_some hpkt hfields]
        simp only [hfields]
        exact agreesWith_payload hk hmem hroom hlong

theorem oldBytes_expand (s : Scratch) (dcid : Dcid) (n : ℕ) :
    oldBytes md linear (expandClientKeysFromDcid s dcid n) = oldBytes md linear s := by
  rw [oldBytes, oldBytes, expandClientKeysFromDcid]

theorem quicSni_agrees (hfast : parseQuicFast md linear = .ok fast)
    (hi : fast.isInitPacket = true) (s : Scratch) :
    AgreesWith md linear s (initialPayload md linear fast.connectionId)
      (quicSni md linear fast s) := by
  have hagrees : AgreesWith md linear _ _ (sniOfHdr md (quicParseHdr md linear _)) :=
    sniOfHdr_agrees (keyed_fast hfast hi s)
  rw [AgreesWith, oldBytes_expand] at hagrees
  exact hagrees

/-! ### The whole dissector -/

/-- An extracted name comes before the connection ID. -/
def sniRetval (dis : Dissector) (fast : QuicFast) (name : Option (List UInt8)) : UInt32 :=
  name.elim (dcidRetval fast.dcid) fun sni => matchSni dis sni MAX_BESPOKE_SNI 0

theorem run0xDEAD_error {e : IErr} (hfast : parseQuicFast md linear = .error e) (dis : Dissector)
    (s : Scratch) : (run0xDEAD md linear dis s).2 = .error e := by
  rw [run0xDEAD, hfast]

theorem run0xDEAD_other (hfast : parseQuicFast md linear = .ok fast)
    (hi : fast.isInitPacket = false) (dis : Dissector) (s : Scratch) :
    (run0xDEAD md linear dis s).2 = .ok (dcidRetval fast.dcid) := by
  rw [run0xDEAD, hfast]
  simp only [hi]
  rfl

theorem run0xDEAD_sni (hfast : parseQuicFast md linear = .ok fast)
    (hi : fast.isInitPacket = true) (dis : Dissector) (s : Scratch) :
    (run0xDEAD md linear dis s).2 = (quicSni md linear fast s).2.map (sniRetval dis fast) := by
  rw [run0xDEAD, hfast]
  simp only [hi, if_true]
  generalize quicSni md linear fast s = r
  obtain ⟨page, code⟩ := r
  cases code with
  | error e => rfl
  | ok name => cases name <;> rfl

/-- The result for an Initial packet. -/
theorem run0xDEAD_initial (hfast : parseQuicFast md linear = .ok fast)
    (hi : fast.isInitPacket = true) (dis : Dissector) (s : Scratch) :
    (run0xDEAD md linear dis s).2 =
      (initialPayload md linear fast.connectionId).map (fun payload => sniRetval dis fast
        (payload.bind fun text => nameIn (overlaid text (oldBytes md linear s)))) := by
  rw [run0xDEAD_sni hfast hi, (quicSni_agrees hfast hi s).1]
  cases initialPayload md linear fast.connectionId <;> rfl

end Slow

/-! ### What the header parser looks at -/

/-- The bytes that the header parser can look at: all that are linear, or the first 192. -/
def lookedAt (md : Md) (linear : ℕ) : List UInt8 :=
  if linear < min md.len.toNat MIN_QUIC_HDR_LINEAR then
    md.data.take (min md.len.toNat MIN_QUIC_HDR_LINEAR)
  else md.data.take linear

/-- A packet behind its UDP header, the first `linear` bytes of which are linear. -/
structure Whole (md : Md) (linear : ℕ) : Prop where
  length : md.len.toNat = md.data.length
  header : 8 ≤ md.data.length
  inside : linear ≤ md.data.length

section Looked

variable {md : Md} {linear : ℕ}

theorem headerBytes_eq (hlen : md.len.toNat = md.data.length) (hpos : 0 < md.data.length) :
    headerBytes md linear = .ok (lookedAt md linear) := by
  rw [headerBytes, lookedAt, hlen]
  by_cases hcopy : linear < min md.data.length MIN_QUIC_HDR_LINEAR
  · rw [if_pos hcopy, if_pos hcopy, if_neg (by omega), loadBytes, if_pos (by omega)]
    simp [field]
  · rw [if_neg hcopy, if_neg hcopy]

/-- An Initial packet gets to the payload exactly if its header fits. -/
theorem initialPayload_ok_iff (hlen : md.len.toNat = md.data.length) (hpos : 0 < md.data.length)
    (id : List UInt8) (hi : (lookedAt md linear).getD 8 0 >>> 4 = 0xC) :
    (∃ payload, initialPayload md linear id = .ok payload) ↔ HeaderFits (lookedAt md linear) := by
  rw [initialPayload, headerBytes_eq hlen hpos]
  constructor
  · rintro ⟨payload, hok⟩
    by_contra hnot
    obtain ⟨e, he⟩ := quicHdrFields_not_fits hi hnot
    simp only [he] at hok
    cases hok
  · intro hfits
    simp only [quicHdrFields_fits hi hfits]
    exact ⟨_, rfl⟩

theorem getD_lookedAt (hlen : md.len.toNat = md.data.length) (h40 : 40 ≤ md.data.length) :
    (lookedAt md linear).getD 8 0 = md.data.getD 8 0 := by
  have htake : ∀ k, 9 ≤ k → (md.data.take k).getD 8 0 = md.data.getD 8 0 := by
    intro k hk
    simp only [List.getD_eq_getElem?_getD, List.getElem?_take_of_lt (show 8 < k by omega)]
  rw [lookedAt, hlen]
  simp only [MIN_QUIC_HDR_LINEAR]
  split_ifs with hcopy
  · exact htake _ (by omega)
  · exact htake _ (by omega)

end Looked

/-! ### Protected packets -/

section Wire

open QuicInitial

variable {md : Md} {linear : ℕ} {udp rest rest' : List UInt8} {q : Packet}

theorem sentNonce_datagram {iv : List UInt8} (hu : udp.length = 8) (hq : q.WellFormed)
    (hfull : q.number < 256 ^ q.numberLength) :
    sentNonce (block (clientHp q.dcid)) iv (datagram udp q rest) (wireHdr q) =
      nonce iv q.number := by
  rw [sentNonce, pnoLen_datagram hu hq, pnoBytes_datagram hu hq,
    nonce_datagram hq.numberLength_le.2, Nat.mod_eq_of_lt hfull]

/-- The payload is found wherever the header parser sees the whole packet. -/
theorem initialPayload_datagram (hu : udp.length = 8) (hq : q.WellFormed)
    (hfull : q.number < 256 ^ q.numberLength) (hpayload : 2 ≤ q.payload.length)
    (hpkt : headerBytes md linear = .ok (datagram udp q rest'))
    (hfits : HeaderFits (datagram udp q rest')) (hdata : md.data = datagram udp q rest) :
    initialPayload md linear q.dcid = .ok (some (q.payload.take 1024)) := by
  have hload : loadBytes md.data (9 + q.fields.length + q.numberLength)
      (min q.payload.length 1024) = _ :=
    hdata ▸ loadBytes_datagram hu hq (Nat.min_le_left _ _)
  have htext : decryptedPayload md q.dcid (datagram udp q rest') (wireHdr q) =
      some (q.payload.take 1024) := by
    rw [decryptedPayload, pnoLen_datagram hu hq, sentNonce_datagram hu hq hfull]
    simp only [wireHdr, payloadLength hq, if_neg (not_lt.mpr hpayload), hload, Option.map_some]
    rw [← encrypt_take, encrypt_encrypt]
    exact congrArg some (List.take_eq_take_iff.mpr (by omega))
  rw [initialPayload, hpkt]
  simp only [quicHdrFields_datagram hu hq hfits, htext]

/-- The result for a packet that the header parser sees all of. -/
theorem run0xDEAD_datagram (hu : udp.length = 8) (hq : q.WellFormed) (hd : 8 ≤ q.dcid.length)
    (hfull : q.number < 256 ^ q.numberLength) (hpayload : 2 ≤ q.payload.length)
    (hdata : md.data = datagram udp q rest) (hw : Whole md linear) (h40 : 40 ≤ md.data.length)
    (hlook : lookedAt md linear = datagram udp q rest')
    (hfits : HeaderFits (datagram udp q rest')) :
    ∃ fast : QuicFast, fast.dcid.toList = q.dcid ++ List.replicate (20 - q.dcid.length) 0 ∧
      ∀ dis s, (run0xDEAD md linear dis s).2 = .ok (sniRetval dis fast
        (nameIn (overlaid (q.payload.take 1024) (oldBytes md linear s)))) := by
  obtain ⟨fast, hfast, hinit, hdcidLen, hdcid⟩ :=
    parseQuicFast_headed hu (protectedFirst_initial hq) hd hq.dcid (hdata.trans (datagram_eq _ _ _))
      hw.length hw.inside h40
  have hid : fast.connectionId = q.dcid := by
    rw [QuicFast.connectionId, hdcid, hdcidLen, List.take_left' rfl]
  have hbytes : headerBytes md linear = .ok (datagram udp q rest') := by
    rw [← hlook]
    exact headerBytes_eq hw.length (by omega)
  refine ⟨fast, hdcid, ?_⟩
  intro dis s
  rw [run0xDEAD_initial hfast hinit, hid,
    initialPayload_datagram hu hq hfull hpayload hbytes hfits hdata, Except.map, Option.bind_some]

/-- All of a linear packet is looked at, and the page is left alone. -/
theorem lookedAt_linear (hlen : md.len.toNat = md.data.length) :
    lookedAt md md.data.length = md.data := by
  rw [lookedAt, hlen, if_neg (by omega), List.take_of_length_le le_rfl]

theorem oldBytes_linear (hlen : md.len.toNat = md.data.length) (s : Scratch) :
    oldBytes md md.data.length s = s.pkt.toList := by
  rw [oldBytes, hlen, if_neg (by omega)]

end Wire

end Udpgrm
