import Udpgrm.SniRouting
import Udpgrm.StaleBytes

/-!
What one packet leaves for the next. The scratch page is not cleared: behind the last block of a
payload the buffer still holds older bytes, and the walk over the ClientHello goes on there.
-/
namespace Udpgrm

open ByteMemory
open LittleEndian (field)

/-- The result is the same whatever earlier packets left in the page. -/
def NoCarryOver (md : Md) (linear : ℕ) (dis : Dissector) : Prop :=
  ∀ s₁ s₂, (run0xDEAD md linear dis s₁).2 = (run0xDEAD md linear dis s₂).2

/-- The payload of a packet that gets as far as the ClientHello. -/
def payloadOf (md : Md) (linear : ℕ) : Option (List UInt8) :=
  match parseQuicFast md linear with
  | .error _ => none
  | .ok fast =>
    if fast.isInitPacket then
      match initialPayload md linear fast.connectionId with
      | .error _ => none
      | .ok payload => payload
    else none

/-- The bytes of the packet that are copied to the buffer for the header parser. -/
def copied (md : Md) (linear : ℕ) : List UInt8 :=
  if linear < min md.len.toNat MIN_QUIC_HDR_LINEAR then
    md.data.take (min md.len.toNat MIN_QUIC_HDR_LINEAR)
  else []

/-- What the buffer starts with, all of it from the packet itself. -/
def written (md : Md) (linear : ℕ) (text : List UInt8) : List UInt8 :=
  overlaid text (copied md linear)

/-- A page with this buffer. -/
def pageOf (a : List UInt8) : Scratch :=
  ⟨filled 416 [], filled 16 [], filled 16 [], filled 16 [], filled 1024 a⟩

/-! ### The buffer of a packet -/

section Buffer

variable {md : Md} {linear i : ℕ} {text a : List UInt8} {s : Scratch}

theorem length_copied (md : Md) (linear : ℕ) : (copied md linear).length ≤ 192 := by
  rw [copied]
  split_ifs
  · simp only [List.length_take, MIN_QUIC_HDR_LINEAR]
    omega
  · simp

theorem oldBytes_eq (md : Md) (linear : ℕ) (s : Scratch) :
    oldBytes md linear s = LittleEndian.patch s.pkt.toList 0 (copied md linear) := by
  rw [oldBytes, copied]
  split_ifs
  · rfl
  · simp [LittleEndian.patch]

theorem length_oldBytes (md : Md) (linear : ℕ) (s : Scratch) :
    (oldBytes md linear s).length = 1024 := by
  have hlen := length_copied md linear
  rw [oldBytes_eq, LittleEndian.length_patch (by simp; omega), Vector.length_toList]

theorem getD_oldBytes (md : Md) (linear : ℕ) (s : Scratch) (i : ℕ) :
    (oldBytes md linear s).getD i 0 =
      if i < (copied md linear).length then (copied md linear).getD i 0
      else s.pkt.toList.getD i 0 := by
  have hlen := length_copied md linear
  rw [oldBytes_eq, LittleEndian.getD_patch (by simp; omega)]
  simp

theorem length_written (md : Md) (linear : ℕ) (text : List UInt8) :
    (written md linear text).length =
      min 1024 (max (text.length / 16 * 16 + 16) (copied md linear).length) := by
  simp only [written, overlaid, List.length_take, List.length_append, List.length_replicate,
    List.length_drop]
  omega

theorem written_bounds (md : Md) (linear : ℕ) (text : List UInt8) :
    16 ≤ (written md linear text).length ∧ (written md linear text).length ≤ 1024 := by
  have hlen := length_written md linear text
  omega

/-- Only behind these bytes the buffer is what the page was. -/
theorem getD_overlaid_oldBytes (hi : i < 1024) :
    (overlaid text (oldBytes md linear s)).getD i 0 =
      if i < (written md linear text).length then (written md linear text).getD i 0
      else s.pkt.toList.getD i 0 := by
  have hlen := length_written md linear text
  rw [written, getD_overlaid hi, getD_overlaid hi, getD_oldBytes, ← written]
  split_ifs <;> first | rfl | omega

theorem extends_overlaid (ht : text.length ≤ 1024) :
    Extends (written md linear text) (overlaid text (oldBytes md linear s)) := by
  have hbounds := written_bounds md linear text
  refine ⟨length_overlaid ht (length_oldBytes md linear s), fun i hi => ?_⟩
  rw [getD_overlaid_oldBytes (by omega), if_pos hi]

theorem pageOf_pkt (ha : a.length = 1024) : (pageOf a).pkt.toList = a := toList_filled ha

/-- Every buffer that starts with them is that of some page. -/
theorem overlaid_pageOf (ht : text.length ≤ 1024) (ha : Extends (written md linear text) a) :
    overlaid text (oldBytes md linear (pageOf a)) = a := by
  have hpage := pageOf_pkt ha.length
  have hlength := length_overlaid ht (length_oldBytes md linear (pageOf a))
  apply List.ext_getElem (hlength.trans ha.length.symm)
  intro i hi hi'
  have hget : (overlaid text (oldBytes md linear (pageOf a))).getD i 0 = a.getD i 0 := by
    rw [getD_overlaid_oldBytes (by omega), hpage]
    split_ifs with hknown
    · exact (ha.known i hknown).symm
    · rfl
  rwa [List.getD_eq_getElem _ _ hi, List.getD_eq_getElem _ _ hi'] at hget

end Buffer

/-! ### Results and names -/

section Results

variable {md : Md} {linear l : ℕ} {dis : Dissector} {id pkt text : List UInt8} {h : QuicHdr}

/-- How much of the payload gets into the buffer. -/
theorem length_decryptedPayload (hsome : decryptedPayload md id pkt h = some text) :
    ∃ k, 1 ≤ k ∧ k ≤ 4 ∧ 2 ≤ (h.packetLen + 2 ^ 64 - k - 16) % 2 ^ 64 ∧
      text.length = min ((h.packetLen + 2 ^ 64 - k - 16) % 2 ^ 64) 1024 ∧
      h.pos + k + text.length ≤ md.data.length := by
  obtain ⟨h1, h4⟩ := pnoLen_le (QuicInitial.block (QuicInitial.clientHp id)) pkt h
  refine ⟨_, h1, h4, ?_⟩
  simp only [decryptedPayload] at hsome
  split_ifs at hsome with hshort
  obtain ⟨enc, hload, rfl⟩ := Option.map_eq_some_iff.mp hsome
  have henc := length_of_loadBytes hload
  rw [loadBytes] at hload
  split_ifs at hload with hfit
  rw [QuicInitial.length_encrypt, henc]
  exact ⟨not_lt.mp hshort, rfl, hfit⟩

/-- Where the payload of a packet comes from. -/
theorem payloadOf_some (hpayload : payloadOf md linear = some text) :
    ∃ fast h pkt, parseQuicFast md linear = .ok fast ∧ fast.isInitPacket = true ∧
      initialPayload md linear fast.connectionId = .ok (some text) ∧
      headerBytes md linear = .ok pkt ∧ quicHdrFields pkt = .ok (some h) ∧
      decryptedPayload md fast.connectionId pkt h = some text := by
  rw [payloadOf] at hpayload
  cases hfast : parseQuicFast md linear with
  | error e => simp [hfast] at hpayload
  | ok fast =>
    simp only [hfast] at hpayload
    split_ifs at hpayload with hi
    cases htext : initialPayload md linear fast.connectionId with
    | error e => simp [htext] at hpayload
    | ok payload =>
      simp only [htext] at hpayload
      subst hpayload
      have htext' := htext
      rw [initialPayload] at htext'
      cases hbytes : headerBytes md linear with
      | error e => simp [hbytes] at htext'
      | ok pkt =>
        cases hfields : quicHdrFields pkt with
        | error e => simp [hbytes, hfields] at htext'
        | ok found =>
          cases found with
          | none => simp [hbytes, hfields] at htext'
          | some h =>
            simp only [hbytes, hfields, Except.ok.injEq] at htext'
            exact ⟨fast, h, pkt, rfl, hi, htext, rfl, hfields, htext'⟩

theorem length_payloadOf (hpayload : payloadOf md linear = some text) : text.length ≤ 1024 := by
  obtain ⟨_, _, _, -, -, -, -, -, htext⟩ := payloadOf_some hpayload
  obtain ⟨_, -, -, -, hlen, -⟩ := length_decryptedPayload htext
  omega

/-- The page is seen through the name only. -/
theorem run_payloadOf (hpayload : payloadOf md linear = some text) :
    ∃ fast : QuicFast, ∀ dis s, (run0xDEAD md linear dis s).2 =
      .ok (sniRetval dis fast (nameIn (overlaid text (oldBytes md linear s)))) := by
  obtain ⟨fast, _, _, hfast, hi, htext, -⟩ := payloadOf_some hpayload
  refine ⟨fast, fun dis s => ?_⟩
  rw [run0xDEAD_initial hfast hi, htext, Except.map, Option.bind_some]

/-- Without a payload it is not seen at all. -/
theorem run_no_payload (hpayload : payloadOf md linear = none) : NoCarryOver md linear dis := by
  intro s₁ s₂
  rw [payloadOf] at hpayload
  cases hfast : parseQuicFast md linear with
  | error e => rw [run0xDEAD_error hfast, run0xDEAD_error hfast]
  | ok fast =>
    simp only [hfast] at hpayload
    by_cases hi : fast.isInitPacket = true
    · rw [if_pos hi] at hpayload
      rw [run0xDEAD_initial hfast hi, run0xDEAD_initial hfast hi]
      cases htext : initialPayload md linear fast.connectionId with
      | error e => rfl
      | ok payload =>
        simp only [htext] at hpayload
        rw [hpayload]
        rfl
    · have hi : fast.isInitPacket = false := by simpa using hi
      rw [run0xDEAD_other hfast hi, run0xDEAD_other hfast hi]

end Results

/-! ### Names that a dissector tells apart -/

section Apart

variable {name sni : List UInt8} {app : UInt8}

theorem matchSni_empty (sni : List UInt8) :
    matchSni Dissector.empty sni MAX_BESPOKE_SNI 0 = 0x80000000 := by
  rw [matchSni, if_pos (by decide)]

theorem matchSni_single (hname : name.length = 61) :
    matchSni (sniDissector [(app, name)]) sni MAX_BESPOKE_SNI 0 =
      if sni = name then 0x80000000 ||| app.toUInt32 else 0x80000000 := by
  have hcount : [((app, name) : SniEntry)].length ≤ MAX_BESPOKE_SNI := (by decide : 1 ≤ 8)
  have hcut : BESPOKE_SNI_LEN - 1 = 61 := rfl
  obtain ⟨happ, hstored⟩ := stored_sniDissector hcount (i := 0) rfl
  have htake : (zeroPadded BESPOKE_SNI_LEN name).take (BESPOKE_SNI_LEN - 1) = name := by
    rw [take_zeroPadded (by decide), hcut, zeroPadded, List.take_of_length_le hname.le, hname]
    exact List.append_nil name
  have hfirst : ¬ 0 ≥ (sniDissector [(app, name)]).filterLen.toNat := by
    rw [filterLen_sniDissector hcount]
    simp
  have hsecond : 0 + 1 ≥ (sniDissector [(app, name)]).filterLen.toNat := by
    rw [filterLen_sniDissector hcount]
    simp
  rw [matchSni, if_neg hfirst, hstored, htake, happ, matchSni, if_pos hsecond]

theorem sniRetval_some_ne_none (fast : QuicFast) (hname : name.length = 61) :
    ∃ dis, sniRetval dis fast (some name) ≠ sniRetval dis fast none := by
  by_cases hdcid : dcidRetval fast.dcid = 0x80000000
  · refine ⟨sniDissector [(1, name)], ?_⟩
    rw [sniRetval, sniRetval, Option.elim_some, Option.elim_none, matchSni_single hname,
      if_pos rfl, hdcid]
    decide
  · refine ⟨Dissector.empty, ?_⟩
    rw [sniRetval, sniRetval, Option.elim_some, Option.elim_none, matchSni_empty]
    exact fun h => hdcid h.symm

/-- Different names are routed differently by some dissector. -/
theorem exists_sniRetval_ne (fast : QuicFast) {x y : Option (List UInt8)}
    (hx : ∀ name, x = some name → name.length = 61)
    (hy : ∀ name, y = some name → name.length = 61) (hne : x ≠ y) :
    ∃ dis, sniRetval dis fast x ≠ sniRetval dis fast y := by
  cases x with
  | none =>
    cases y with
    | none => exact absurd rfl hne
    | some name =>
      obtain ⟨dis, hdis⟩ := sniRetval_some_ne_none fast (hy name rfl)
      exact ⟨dis, hdis.symm⟩
  | some name =>
    cases y with
    | none => exact sniRetval_some_ne_none fast (hx name rfl)
    | some other =>
      refine ⟨sniDissector [(1, name)], ?_⟩
      have hother : other ≠ name := fun h => hne (by rw [h])
      rw [sniRetval, sniRetval, Option.elim_some, Option.elim_some,
        matchSni_single (hx name rfl), matchSni_single (hx name rfl), if_pos rfl, if_neg hother]
      decide

theorem length_nameIn {buf : List UInt8} (hb : buf.length = 1024) (h : nameIn buf = some name) :
    name.length = 61 := by
  by_cases hfound : ∃ k len, clientHelloSni buf = .ok (some (k, len))
  · obtain ⟨k, len, hfound⟩ := hfound
    obtain ⟨-, -, -, hname⟩ := (clientHelloSni_some_iff hb).mp hfound
    rw [nameIn_found hfound] at h
    split_ifs at h
    rw [← Option.some.inj h]
    exact length_comparedBytes hb (found_bounds hb hname).2.2.1
  · rw [nameIn_not_found fun k len hf => hfound ⟨k, len, hf⟩] at h
    cases h

end Apart

/-! ### Which packets leave nothing to the page -/

section Exact

variable {md : Md} {linear l : ℕ} {text : List UInt8}

/-- A packet whose walk stays in its own bytes. -/
theorem noCarryOver_of_asks {dis : Dissector}
    (hasks : ∀ text, payloadOf md linear = some text → asks (written md linear text) = none) :
    NoCarryOver md linear dis := by
  cases hpayload : payloadOf md linear with
  | none => exact run_no_payload hpayload
  | some text =>
    intro s₁ s₂
    obtain ⟨h16, h1024⟩ := written_bounds md linear text
    have ht := length_payloadOf hpayload
    obtain ⟨fast, hrun⟩ := run_payloadOf hpayload
    have hnone := hasks text hpayload
    rw [hrun, hrun, nameIn_of_agree h16 h1024 (extends_overlaid ht) (extends_overlaid ht)]
    intro p hp
    rw [hnone] at hp
    cases hp

/-- The result for a packet depends on the page exactly if the walk over its ClientHello asks for a
byte that the packet has not written to the buffer. -/
theorem no_carry_over_iff (md : Md) (linear : ℕ) :
    (∀ dis, NoCarryOver md linear dis) ↔
      ∀ text, payloadOf md linear = some text → asks (written md linear text) = none := by
  constructor
  · intro hsame text hpayload
    obtain ⟨h16, h1024⟩ := written_bounds md linear text
    have ht := length_payloadOf hpayload
    by_contra hasks
    obtain ⟨p, hp⟩ := Option.ne_none_iff_exists'.mp hasks
    obtain ⟨a, b, ha, hb, hne, -⟩ := exists_nameIn_ne h16 h1024 hp
    obtain ⟨fast, hrun⟩ := run_payloadOf hpayload
    obtain ⟨dis, hdis⟩ := exists_sniRetval_ne fast (fun _ => length_nameIn ha.length)
      (fun _ => length_nameIn hb.length) hne
    have hpages := hsame dis (pageOf a) (pageOf b)
    rw [hrun, hrun, overlaid_pageOf ht ha, overlaid_pageOf ht hb] at hpages
    exact hdis (Except.ok.inj hpages)
  · intro hasks dis
    exact noCarryOver_of_asks hasks

end Exact

/-! ### Lengths that are always enough -/

section Lengths

variable {md : Md} {linear l : ℕ} {w : List UInt8} {dis : Dissector}

/-- The Length field of an Initial packet whose header is accepted. -/
def HasLength (md : Md) (linear l : ℕ) : Prop :=
  (lookedAt md linear).getD 8 0 >>> 4 = 0xC ∧ HeaderFits (lookedAt md linear) ∧
    (varintDecode (lookedAt md linear) (lengthOff (lookedAt md linear))).1 = l

/-- Payloads of two or three bytes are followed by zeros where the type of the message is read. -/
theorem asks_short (h16 : 16 ≤ w.length) (hz : ∀ i, 3 ≤ i → i < 16 → w.getD i 0 = 0) :
    asks w = none := by
  have hoff := offsets_ascend (padded w)
  have hsize := varintDecode_len (padded w) (cryptoLenOff (padded w))
  have hhello : helloOff (padded w) = cryptoLenOff (padded w) +
      (varintDecode (padded w) (cryptoLenOff (padded w))).2 := rfl
  have hrange : 3 ≤ helloOff (padded w) ∧ helloOff (padded w) < 16 := by
    by_cases htwo : cryptoLenOff (padded w) = 2
    · omega
    · have hone : (varintDecode (padded w) (cryptoLenOff (padded w))).2 = 1 := by
        simp only [varintDecode, getD_padded, hz (cryptoLenOff (padded w)) (by omega) (by omega)]
        rfl
      omega
  have htype : w.getD (helloOff (padded w)) 1 ≠ 1 := by
    rw [List.getD_eq_getElem _ _ (by omega), ← List.getD_eq_getElem _ 0 (by omega),
      hz _ hrange.1 hrange.2]
    decide
  have hnear : nearestName w = .ok none := by
    rw [nearestName, if_neg fun hopen => htype hopen.2.1]
  simp only [asks, hnear]

/-- All that is compared of a name is in the first 944 bytes. -/
theorem asks_long (h944 : 944 ≤ w.length) (hw : w.length ≤ 1024) : asks w = none := by
  cases hasks : asks w with
  | none => rfl
  | some p =>
    obtain ⟨k, len, hnear, hcase⟩ := asks_cases hasks
    have hbounds := nearest_bounds hw hnear
    omega

/-- The page counts for no packet whose Length field leaves at most three bytes of payload, or
enough for every byte that is looked at. -/
theorem noCarryOver_of_length (hw : Whole md linear) (hl : HasLength md linear l)
    (hsafe : l ≤ 20 ∨ 948 ≤ l) : NoCarryOver md linear dis := by
  apply noCarryOver_of_asks
  intro text hpayload
  obtain ⟨fast, h, pkt, -, -, -, hbytes, hfields, htext⟩ := payloadOf_some hpayload
  have hheader := hw.header
  rw [headerBytes_eq hw.length (by omega)] at hbytes
  obtain rfl := Except.ok.inj hbytes
  obtain ⟨-, -, rfl⟩ := quicHdrFields_some hfields
  obtain ⟨k, h1, h4, h2, hlen, -⟩ := length_decryptedPayload htext
  have hlt := varintDecode_lt (lookedAt md linear) (lengthOff (lookedAt md linear))
  obtain ⟨-, -, hlength⟩ := hl
  simp only [hlength] at h2 hlen hlt
  have hwritten := length_written md linear text
  obtain ⟨h16, h1024⟩ := written_bounds md linear text
  by_cases hlong : 928 ≤ text.length
  · exact asks_long (by omega) h1024
  · -- nothing wraps around, and at most three bytes are left of the payload
    refine asks_short h16 fun i h3 hi => ?_
    rw [written, getD_overlaid (by omega), if_neg (by omega), if_pos (by omega)]

end Lengths

/-! ### A packet that reads the page -/

section Reads

open QuicInitial (Packet VarintSize)

/-- A packet for the cookie 1. Where it has four bytes of payload and a copy of it is in the page, a
byte of its tag is the length of the session ID. -/
def cookiePacket (payload : List UInt8) : Packet where
  first := 0xc0
  dcid := [1, 0, 1, 0, 0, 0, 0, 0]
  scid := []
  token := []
  tokenSize := .one
  lengthSize := .two
  number := 0
  numberLength := 1
  payload := payload
  tag := List.replicate 10 0 ++ 255 :: List.replicate 5 0

def cookieMd (payload : List UInt8) : Md :=
  ⟨0, 0, UInt32.ofNat (43 + payload.length), [],
    datagram (List.replicate 8 0) (cookiePacket payload) []⟩

variable {payload : List UInt8} {linear : ℕ}

theorem cookiePacket_length (payload : List UInt8) :
    (cookiePacket payload).length = 1 + payload.length + 16 := by
  simp [Packet.length, cookiePacket]

theorem cookiePacket_wellFormed (h4 : 4 ≤ payload.length) (hp : payload.length ≤ 140) :
    (cookiePacket payload).WellFormed := by
  have hlength := cookiePacket_length payload
  have htoken : 0 < VarintSize.one.limit := by decide
  have hlimit : VarintSize.two.limit = 16384 := by decide
  have hlt : (cookiePacket payload).length < VarintSize.two.limit := by omega
  have hfirst : (0xc0 : UInt8) >>> 4 = 0xC ∧ ((0xc0 : UInt8) &&& 3).toNat + 1 = 1 := by decide
  exact ⟨⟨(by decide : 8 ≤ 20), Nat.zero_le _, htoken, hlt⟩, hfirst.1, hfirst.2,
    (by decide : 0 < 2 ^ 62), rfl, by omega⟩

theorem cookieMd_length (h4 : 4 ≤ payload.length) (hp : payload.length ≤ 140) :
    (cookieMd payload).data.length = 43 + payload.length := by
  have hnumber : (cookiePacket payload).protectedNumber.length = 1 :=
    (cookiePacket_wellFormed h4 hp).length_protectedNumber
  have hfields : (cookiePacket payload).fields.length = 17 := length_fields _
  have hsealed : (cookiePacket payload).sealed.length = payload.length + 16 :=
    Packet.length_sealed
  simp [cookieMd, datagram, Packet.wire, hnumber, hfields, hsealed]
  omega

theorem cookieMd_whole (h4 : 4 ≤ payload.length) (hp : payload.length ≤ 140)
    (hlin : linear ≤ 43 + payload.length) : Whole (cookieMd payload) linear := by
  have hlength := cookieMd_length h4 hp
  refine ⟨?_, by omega, by omega⟩
  rw [hlength, cookieMd, UInt32.toNat_ofNat', Nat.mod_eq_of_lt (by omega)]

/-- The whole packet is looked at with every layout. -/
theorem cookieMd_payload (h4 : 4 ≤ payload.length) (hp : payload.length ≤ 140)
    (hlin : linear ≤ 43 + payload.length) :
    ∃ fast : QuicFast, parseQuicFast (cookieMd payload) linear = .ok fast ∧
      fast.isInitPacket = true ∧ dcidRetval fast.dcid = 1 ∧
      initialPayload (cookieMd payload) linear fast.connectionId = .ok (some payload) := by
  have hwell := cookiePacket_wellFormed h4 hp
  have hlength := cookieMd_length h4 hp
  have hw := cookieMd_whole h4 hp hlin
  have hdata : (cookieMd payload).data = datagram (List.replicate 8 0) (cookiePacket payload) [] :=
    rfl
  have hlook : lookedAt (cookieMd payload) linear = (cookieMd payload).data := by
    rw [lookedAt, hw.length, hlength]
    simp only [MIN_QUIC_HDR_LINEAR]
    split_ifs with hcopy
    · exact List.take_of_length_le (by omega)
    · exact List.take_of_length_le (by omega)
  have hdcid8 : 8 ≤ (cookiePacket payload).dcid.length := (by decide : 8 ≤ 8)
  have hfits : HeaderFits (datagram (List.replicate 8 0) (cookiePacket payload) []) := by
    apply datagram_fits (by simp) hwell hdcid8 (Nat.zero_le _)
    rw [cookiePacket_length]
    simp
    omega
  obtain ⟨fast, hfast, hinit, hdcidLen, hdcid⟩ :=
    parseQuicFast_headed (by simp) (protectedFirst_initial hwell) hdcid8 hwell.dcid
      (hdata.trans (datagram_eq _ _ _)) hw.length hw.inside (by omega)
  have hid : fast.connectionId = (cookiePacket payload).dcid := by
    rw [QuicFast.connectionId, hdcid, hdcidLen, List.take_left' rfl]
  have hbytes : headerBytes (cookieMd payload) linear =
      .ok (datagram (List.replicate 8 0) (cookiePacket payload) []) := by
    rw [headerBytes_eq hw.length (by omega), hlook]
    rfl
  refine ⟨fast, hfast, hinit, ?_, ?_⟩
  · have hbytes : fast.dcid.toList = [1, 0, 1, 0, 0, 0, 0, 0] ++ List.replicate 12 0 := hdcid
    rw [dcidRetval, hbytes]
    decide
  · have htake : payload.take 1024 = payload := List.take_of_length_le (by omega)
    rw [hid, initialPayload_datagram (by simp) hwell (by decide : 0 < 256 ^ 1)
      (by omega : 2 ≤ payload.length) hbytes hfits hdata]
    exact congrArg (fun text => Except.ok (some text)) htake

theorem cookieMd_run (h4 : 4 ≤ payload.length) (hp : payload.length ≤ 140)
    (hlin : linear ≤ 43 + payload.length) :
    ∃ fast : QuicFast, dcidRetval fast.dcid = 1 ∧ ∀ dis s,
      (run0xDEAD (cookieMd payload) linear dis s).2 = .ok (sniRetval dis fast
        (nameIn (overlaid payload (oldBytes (cookieMd payload) linear s)))) := by
  obtain ⟨fast, hfast, hinit, hcookie, htext⟩ := cookieMd_payload h4 hp hlin
  refine ⟨fast, hcookie, fun dis s => ?_⟩
  rw [run0xDEAD_initial hfast hinit, htext, Except.map, Option.bind_some]

/-- A ClientHello with a server name of one byte, as an earlier packet leaves it. -/
def earlierHello : List UInt8 :=
  [6, 0, 0, 1] ++ List.replicate 41 0 ++ [0, 5, 0, 0, 0, 1] ++ List.replicate 973 0

/-- Four bytes of payload. With an earlier packet's ClientHello behind them the packet has a server
name, and without it the packet goes to the socket of its connection ID. -/
theorem earlier_hello_read :
    (run0xDEAD (cookieMd [6, 0, 0, 1]) 47 Dissector.empty (pageOf earlierHello)).2 =
        .ok 0x80000000 ∧
      (run0xDEAD (cookieMd [6, 0, 0, 1]) 47 Dissector.empty
        (pageOf (List.replicate 1024 0))).2 = .ok 1 := by
  have h4 : 4 ≤ [(6 : UInt8), 0, 0, 1].length := le_rfl
  obtain ⟨fast, hcookie, hrun⟩ := cookieMd_run h4 (by decide) (le_refl 47)
  have hold : ∀ s, oldBytes (cookieMd [6, 0, 0, 1]) 47 s = s.pkt.toList := by
    intro s
    rw [oldBytes, if_neg (by decide)]
  have hname : nameIn (overlaid [6, 0, 0, 1] earlierHello) = some (List.replicate 61 0) := by
    decide +kernel
  have hnone : nameIn (overlaid [6, 0, 0, 1] (List.replicate 1024 0)) = none := by decide +kernel
  rw [hrun, hrun, hold, hold, pageOf_pkt (by decide +kernel), pageOf_pkt List.length_replicate,
    hname, hnone, sniRetval, sniRetval, Option.elim_some, Option.elim_none, matchSni_empty, hcookie]
  exact ⟨rfl, rfl⟩

end Reads

end Udpgrm
