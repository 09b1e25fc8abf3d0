import Udpgrm.CarryOver

/-!
How the packet lies in memory. The header parser works in place or on a copy of the first 192 bytes,
which goes to the buffer of the payload. Neither the bytes it can look at nor what it leaves in the
page are the same on both ways.
-/
namespace Udpgrm

open ByteMemory

/-! ### How much of a header is needed -/

/-- The bytes that the header parser needs before it accepts or refuses an Initial packet. -/
def headerEnd (pkt : List UInt8) : ℕ :=
  if BigEndian.u32 pkt 9 ≠ 1 ∨ dcidLenAt pkt < 8 ∨ dcidLenAt pkt > 20 then 14
  else if (varintDecode pkt (tokenOff pkt)).1 > 255 then tokenOff pkt + 8
  else numberOff pkt + 21

/-- What it then finds. -/
def headerVerdict (pkt : List UInt8) : Except IErr (Option QuicHdr) :=
  if BigEndian.u32 pkt 9 ≠ 1 then .error .badInstr
  else if dcidLenAt pkt < 8 ∨ dcidLenAt pkt > 20 then .error .sanity
  else if (varintDecode pkt (tokenOff pkt)).1 > 255 then .error .sanity
  else .ok (some ⟨pkt.getD 8 0, numberOff pkt, (varintDecode pkt (lengthOff pkt)).1⟩)

section Header

variable {pkt : List UInt8} {off m : ℕ} {h : QuicHdr}

theorem getD_take (h : off < m) : (pkt.take m).getD off 0 = pkt.getD off 0 := by
  simp only [List.getD_eq_getElem?_getD, List.getElem?_take_of_lt h]

theorem varintDecode_take (h : off + 8 ≤ m) :
    varintDecode (pkt.take m) off = varintDecode pkt off := by
  simp only [varintDecode]
  rw [getD_take (by omega), LittleEndian.field_take (by omega), LittleEndian.field_take (by omega),
    LittleEndian.field_take (by omega)]

theorem header_offsets (pkt : List UInt8) :
    15 + dcidLenAt pkt ≤ tokenOff pkt ∧ tokenOff pkt < lengthOff pkt ∧
      lengthOff pkt < numberOff pkt := by
  have htokenSize := varintDecode_len pkt (tokenOff pkt)
  have hlengthSize := varintDecode_len pkt (lengthOff pkt)
  have htoken : tokenOff pkt =
      14 + dcidLenAt pkt + 1 + (pkt.getD (14 + dcidLenAt pkt) 0).toNat := rfl
  have hlength : lengthOff pkt = tokenOff pkt + (varintDecode pkt (tokenOff pkt)).2 +
      (varintDecode pkt (tokenOff pkt)).1 := rfl
  have hnumber : numberOff pkt = lengthOff pkt + (varintDecode pkt (lengthOff pkt)).2 := rfl
  omega

/-- A header is read alike from every part of the packet that is long enough, and from no other. -/
theorem quicHdrFields_take (hi : pkt.getD 8 0 >>> 4 = 0xC) (h14 : 14 ≤ m)
    (hm : m ≤ pkt.length) :
    quicHdrFields (pkt.take m) =
      if m < headerEnd pkt then .error .load else headerVerdict pkt := by
  have hlen : (pkt.take m).length = m := by rw [List.length_take]; omega
  have hoff := header_offsets pkt
  have hversion : BigEndian.u32 (pkt.take m) 9 = BigEndian.u32 pkt 9 := by
    rw [BigEndian.u32, LittleEndian.field_take (by omega), ← BigEndian.u32]
  have hdcidLen : dcidLenAt (pkt.take m) = dcidLenAt pkt := by
    rw [dcidLenAt, getD_take (by omega), ← dcidLenAt]
  rw [quicHdrFields_eq, hlen, if_neg (by omega), getD_take (by omega), if_neg (not_not.mpr hi),
    if_neg (by omega), hversion, headerVerdict]
  by_cases hv : BigEndian.u32 pkt 9 ≠ 1
  · have hend : headerEnd pkt = 14 := if_pos (.inl hv)
    rw [if_pos hv, if_neg (by omega), if_pos hv]
  rw [if_neg hv, if_neg (by omega), hdcidLen, if_neg hv]
  by_cases hdcid : dcidLenAt pkt < 8 ∨ dcidLenAt pkt > 20
  · have hend : headerEnd pkt = 14 := if_pos (.inr hdcid)
    rw [if_pos hdcid, if_neg (by omega), if_pos hdcid]
  have hend : headerEnd pkt = if (varintDecode pkt (tokenOff pkt)).1 > 255 then tokenOff pkt + 8
      else numberOff pkt + 21 := if_neg (not_or.mpr ⟨hv, hdcid⟩)
  have hlater : tokenOff pkt + 8 ≤ headerEnd pkt := by
    rw [hend]
    split_ifs <;> omega
  rw [if_neg hdcid, if_neg hdcid]
  by_cases hscid : 14 + dcidLenAt pkt + 1 > m
  · rw [if_pos hscid, if_pos (by omega)]
  have htoken : tokenOff (pkt.take m) = tokenOff pkt := by
    rw [tokenOff, hdcidLen, getD_take (by omega), ← tokenOff]
  rw [if_neg hscid, htoken]
  by_cases htokenFits : tokenOff pkt + 8 > m
  · rw [if_pos htokenFits, if_pos (by omega)]
  rw [if_neg htokenFits, varintDecode_take (by omega)]
  by_cases hlong : (varintDecode pkt (tokenOff pkt)).1 > 255
  · rw [if_pos hlong] at hend
    rw [if_pos hlong, if_neg (by omega), if_pos hlong]
  rw [if_neg hlong] at hend
  have hlength : lengthOff (pkt.take m) = lengthOff pkt := by
    rw [lengthOff, htoken, varintDecode_take (by omega), ← lengthOff]
  rw [if_neg hlong, hlength, if_neg hlong]
  by_cases hlengthFits : lengthOff pkt + 8 > m
  · rw [if_pos hlengthFits, if_pos (by omega)]
  have hnumber : numberOff (pkt.take m) = numberOff pkt := by
    rw [numberOff, hlength, varintDecode_take (by omega), ← numberOff]
  rw [if_neg hlengthFits, hnumber, varintDecode_take (by omega)]
  by_cases hsample : numberOff pkt + 20 ≥ m
  · rw [if_pos hsample, if_pos (by omega)]
  · rw [if_neg hsample, if_neg (by omega)]

theorem headerVerdict_ne_load : headerVerdict pkt ≠ .error .load := by
  rw [headerVerdict]
  split_ifs <;> simp

theorem headerVerdict_some (hh : headerVerdict pkt = .ok (some h)) :
    25 ≤ h.pos ∧ h.pos + 21 = headerEnd pkt := by
  have hoff := header_offsets pkt
  rw [headerVerdict] at hh
  split_ifs at hh with hv hdcid hlong
  cases hh
  have hend : headerEnd pkt = numberOff pkt + 21 := by
    rw [headerEnd, if_neg (not_or.mpr ⟨hv, hdcid⟩), if_neg hlong]
  dsimp only
  omega

/-- So is the payload found. -/
theorem decryptedPayload_take {md : Md} {id : List UInt8} (hpos : h.pos + 20 ≤ m) :
    decryptedPayload md id (pkt.take m) h = decryptedPayload md id pkt h := by
  have hmask : ∀ hp, headerMask hp (pkt.take m) h.pos = headerMask hp pkt h.pos := by
    intro hp
    rw [headerMask, LittleEndian.field_take (by omega), ← headerMask]
  have hlen : ∀ hp, pnoLen hp (pkt.take m) h = pnoLen hp pkt h := by
    intro hp
    rw [pnoLen, firstUnmasked, hmask, ← firstUnmasked, ← pnoLen]
  have hbytes : ∀ hp, pnoBytes hp (pkt.take m) h = pnoBytes hp pkt h := by
    intro hp
    have hle := pnoLen_le hp pkt h
    rw [pnoBytes, hmask, hlen, LittleEndian.field_take (by omega), ← pnoBytes]
  simp only [decryptedPayload, sentNonce, hlen, hbytes]

end Header

/-! ### What a layout shows of a packet -/

/-- The packet is copied for the header parser. -/
abbrev Copies (md : Md) (linear : ℕ) : Prop := linear < min md.len.toNat MIN_QUIC_HDR_LINEAR

/-- How many bytes the header parser looks at. -/
def seen (md : Md) (linear : ℕ) : ℕ :=
  if Copies md linear then min md.len.toNat MIN_QUIC_HDR_LINEAR else linear

/-- An Initial packet for the fast parser, which sees the same with every layout. -/
def isInitial (md : Md) : Bool :=
  match parseQuicFast md 0 with
  | .error _ => false
  | .ok fast => fast.isInitPacket

/-- The payload under the keys of a connection ID, where enough of the header is seen. -/
def seenPayload (md : Md) (id : List UInt8) : Except IErr (Option (List UInt8)) :=
  match headerVerdict md.data with
  | .error e => .error e
  | .ok none => .ok none
  | .ok (some h) => .ok (decryptedPayload md id md.data h)

section Layout

variable {md : Md} {linear lin₁ lin₂ : ℕ} {fast : QuicFast} {id text : List UInt8}

theorem lookedAt_eq (md : Md) (linear : ℕ) :
    lookedAt md linear = md.data.take (seen md linear) := by
  rw [lookedAt, seen]
  split_ifs
  · rfl
  · rfl

theorem seen_bounds (hw : Whole md linear) (h40 : 40 ≤ md.data.length) :
    40 ≤ seen md linear ∧ seen md linear ≤ md.data.length := by
  have hlen := hw.length
  have hinside := hw.inside
  have hmin : MIN_QUIC_HDR_LINEAR = 192 := rfl
  rw [seen]
  by_cases hcopy : Copies md linear
  · rw [if_pos hcopy]
    omega
  · rw [if_neg hcopy]
    omega

theorem initialPayload_eq (hw : Whole md linear) (h40 : 40 ≤ md.data.length)
    (hi : md.data.getD 8 0 >>> 4 = 0xC) :
    initialPayload md linear id =
      if seen md linear < headerEnd md.data then .error .load else seenPayload md id := by
  obtain ⟨hge, hle⟩ := seen_bounds hw h40
  rw [initialPayload, headerBytes_eq hw.length (by omega), lookedAt_eq]
  simp only [quicHdrFields_take hi (by omega) hle]
  by_cases hshort : seen md linear < headerEnd md.data
  · simp only [if_pos hshort]
  · simp only [if_neg hshort, seenPayload]
    cases hverdict : headerVerdict md.data with
    | error e => rfl
    | ok found =>
      cases found with
      | none => rfl
      | some h =>
        have hend := headerVerdict_some hverdict
        simp only
        rw [decryptedPayload_take (by omega)]

theorem seenPayload_ne_load : seenPayload md id ≠ .error .load := by
  rw [seenPayload]
  cases hverdict : headerVerdict md.data with
  | error e =>
    simp only [ne_eq, Except.error.injEq]
    rintro rfl
    exact headerVerdict_ne_load hverdict
  | ok found => cases found <;> simp

theorem quicFastFields_isInit {pkt : List UInt8} (h : quicFastFields pkt = .ok fast) :
    fast.isInitPacket = decide (pkt.getD 0 0 >>> 4 = 0xC) := by
  simp only [quicFastFields] at h
  split_ifs at h
  · obtain rfl := Except.ok.inj h
    rfl
  · obtain rfl := Except.ok.inj h
    rfl

/-- What the fast parser finds does not depend on the layout. -/
theorem parseQuicFast_layout (h₁ : Whole md lin₁) (h₂ : Whole md lin₂) :
    parseQuicFast md lin₁ = parseQuicFast md lin₂ := by
  rw [parseQuicFast_eq h₁.inside, parseQuicFast_eq h₂.inside]

theorem isInitial_eq (hw : Whole md linear) (hfast : parseQuicFast md linear = .ok fast) :
    isInitial md = fast.isInitPacket := by
  have hzero : Whole md 0 := ⟨hw.length, hw.header, Nat.zero_le _⟩
  rw [isInitial, parseQuicFast_layout hzero hw, hfast]

/-- What it finds of an Initial packet. -/
theorem fast_of_initial (hi : isInitial md = true) (hw : Whole md linear) :
    ∃ fast, parseQuicFast md linear = .ok fast ∧ fast.isInitPacket = true ∧
      40 ≤ md.data.length ∧ md.data.getD 8 0 >>> 4 = 0xC := by
  cases hfast : parseQuicFast md linear with
  | error e =>
    have hzero : Whole md 0 := ⟨hw.length, hw.header, Nat.zero_le _⟩
    rw [isInitial, parseQuicFast_layout hzero hw, hfast] at hi
    cases hi
  | ok fast =>
    rw [isInitial_eq hw hfast] at hi
    have hfields := hfast
    rw [parseQuicFast_eq hw.inside] at hfields
    split_ifs at hfields with hsmall hload
    have hmin : MIN_QUIC_LEN = 32 := rfl
    have hfirst := quicFastFields_isInit hfields
    rw [hi] at hfirst
    refine ⟨fast, rfl, hi, by omega, ?_⟩
    have hdrop : (md.data.drop 8).getD 0 0 = md.data.getD 8 0 := by
      simp [List.getD_eq_getElem?_getD]
    rw [← hdrop]
    exact of_decide_eq_true hfirst.symm

/-- Other packets are routed alike with every layout. -/
theorem run_not_initial (h₁ : Whole md lin₁) (h₂ : Whole md lin₂) (hi : isInitial md = false)
    (dis : Dissector) (s : Scratch) :
    (run0xDEAD md lin₁ dis s).2 = (run0xDEAD md lin₂ dis s).2 := by
  have hsame := parseQuicFast_layout h₁ h₂
  cases hfast : parseQuicFast md lin₁ with
  | error e => rw [run0xDEAD_error hfast, run0xDEAD_error (hsame ▸ hfast)]
  | ok fast =>
    rw [isInitial_eq h₁ hfast] at hi
    rw [run0xDEAD_other hfast hi, run0xDEAD_other (hsame ▸ hfast) hi]

/-- A part that ends within the header is what the parser complains about. -/
theorem run_load_iff (hw : Whole md linear) (hi : isInitial md = true) (dis : Dissector)
    (s : Scratch) :
    (run0xDEAD md linear dis s).2 = .error .load ↔ ¬ headerEnd md.data ≤ seen md linear := by
  obtain ⟨fast, hfast, hinit, h40, hfirst⟩ := fast_of_initial hi hw
  rw [run0xDEAD_initial hfast hinit, initialPayload_eq hw h40 hfirst, not_le]
  by_cases hshort : seen md linear < headerEnd md.data
  · rw [if_pos hshort]
    exact ⟨fun _ => hshort, fun _ => rfl⟩
  · rw [if_neg hshort]
    have hload : seenPayload md fast.connectionId ≠ .error .load := seenPayload_ne_load
    refine ⟨fun hrun => absurd ?_ hload, fun h => absurd h hshort⟩
    cases hpayload : seenPayload md fast.connectionId with
    | error e =>
      rw [hpayload] at hrun
      rw [Except.error.inj hrun]
    | ok payload =>
      rw [hpayload] at hrun
      cases hrun

/-- With the same view of the header the same payload is found. -/
theorem initialPayload_layout (h₁ : Whole md lin₁) (h₂ : Whole md lin₂) (h40 : 40 ≤ md.data.length)
    (hfirst : md.data.getD 8 0 >>> 4 = 0xC)
    (hsee : headerEnd md.data ≤ seen md lin₁ ↔ headerEnd md.data ≤ seen md lin₂) :
    initialPayload md lin₁ id = initialPayload md lin₂ id := by
  rw [initialPayload_eq h₁ h40 hfirst, initialPayload_eq h₂ h40 hfirst]
  by_cases hshort : seen md lin₁ < headerEnd md.data
  · rw [if_pos hshort, if_pos (by omega)]
  · rw [if_neg hshort, if_neg (by omega)]

end Layout

/-! ### The copy in the page -/

section Buffers

variable {md : Md} {linear lin₁ lin₂ p : ℕ} {text : List UInt8} {s : Scratch}

theorem length_copied_eq (hw : Whole md linear) :
    (copied md linear).length =
      if Copies md linear then min md.len.toNat MIN_QUIC_HDR_LINEAR else 0 := by
  have hlen := hw.length
  rw [copied]
  split_ifs
  · rw [List.length_take]
    omega
  · rfl

/-- What is read in place is followed by the page. -/
theorem written_direct (hdirect : ¬ Copies md linear) :
    written md linear text = overlaid text [] := by
  rw [written, copied, if_neg hdirect]

theorem length_payload_block (text : List UInt8) :
    (overlaid text []).length = min 1024 (text.length / 16 * 16 + 16) := by
  simp only [overlaid, List.length_take, List.length_append, List.length_replicate,
    List.length_drop, List.length_nil]
  omega

theorem payload_block_bounds (text : List UInt8) :
    16 ≤ (overlaid text []).length ∧ (overlaid text []).length ≤ 1024 := by
  have hlen := length_payload_block text
  omega

/-- Every layout keeps the blocks of the payload. -/
theorem extends_payload_block (ht : text.length ≤ 1024) :
    Extends (overlaid text []) (overlaid text (oldBytes md linear s)) := by
  have hlen := length_payload_block text
  refine ⟨length_overlaid ht (length_oldBytes md linear s), fun i hi => ?_⟩
  rw [getD_overlaid (by omega), getD_overlaid (by omega)]
  split_ifs <;> first | rfl | omega

/-- Behind the copy and the payload the buffer is the page. -/
theorem getD_buffer_behind {i : ℕ} (hw : Whole md linear) (hi : i < 1024)
    (hcopy : min md.len.toNat MIN_QUIC_HDR_LINEAR ≤ i) (hblock : (overlaid text []).length ≤ i) :
    (overlaid text (oldBytes md linear s)).getD i 0 = s.pkt.toList.getD i 0 := by
  have hlen := length_payload_block text
  have hcopied := length_copied_eq hw
  have hle : (copied md linear).length ≤ i := by
    rw [hcopied]
    split_ifs
    · exact hcopy
    · exact Nat.zero_le _
  rw [getD_overlaid hi, if_neg (by omega), if_neg (by omega), getD_oldBytes, if_neg (by omega)]

/-- The payload of a packet ends at least ten bytes behind the blocks that it fills. -/
theorem block_before_copy (hw : Whole md linear) (hpayload : payloadOf md linear = some text)
    (hshort : (overlaid text []).length < min md.len.toNat MIN_QUIC_HDR_LINEAR) :
    (overlaid text []).length + 10 ≤ min md.len.toNat MIN_QUIC_HDR_LINEAR := by
  obtain ⟨_, h, pkt, -, -, -, -, hfields, htext⟩ := payloadOf_some hpayload
  obtain ⟨k, h1, -, -, -, hend⟩ := length_decryptedPayload htext
  obtain ⟨-, hfits, rfl⟩ := quicHdrFields_some hfields
  have hdcid := hfits.dcid.1
  have hoff := header_offsets pkt
  have hblock := length_payload_block text
  have hlen := hw.length
  have hmin : MIN_QUIC_HDR_LINEAR = 192 := rfl
  dsimp only at hend
  omega

/-- Read in place a byte that the copy covers makes a difference. -/
theorem exists_layout_ne (h₁ : Whole md lin₁) (hcopy : Copies md lin₁)
    (hdirect : ¬ Copies md lin₂) (hpay₁ : payloadOf md lin₁ = some text)
    (hpay₂ : payloadOf md lin₂ = some text) (hasks : asks (overlaid text []) = some p)
    (hp : p < min md.len.toNat MIN_QUIC_HDR_LINEAR) :
    ∃ dis s, (run0xDEAD md lin₁ dis s).2 ≠ (run0xDEAD md lin₂ dis s).2 := by
  obtain ⟨h16, h1024⟩ := payload_block_bounds text
  have ht := length_payloadOf hpay₁
  have hge := le_asks hasks
  have hroom := block_before_copy h₁ hpay₁ (by omega)
  obtain ⟨a, b, ha, hb, hne, hagree⟩ := exists_nameIn_ne h16 h1024 hasks
  obtain ⟨fast₁, hrun₁⟩ := run_payloadOf hpay₁
  obtain ⟨fast₂, hrun₂⟩ := run_payloadOf hpay₂
  obtain ⟨dis, hdis⟩ := exists_sniRetval_ne fast₂ (fun _ => length_nameIn ha.length)
    (fun _ => length_nameIn hb.length) hne
  have hlength : (copied md lin₁).length = min md.len.toNat MIN_QUIC_HDR_LINEAR := by
    rw [length_copied_eq h₁, if_pos hcopy]
  have hpages : ∀ i, i ≠ p → (overlaid text []).length + 10 ≤ i →
      (pageOf a).pkt.toList.getD i 0 = (pageOf b).pkt.toList.getD i 0 := by
    rw [pageOf_pkt ha.length, pageOf_pkt hb.length]
    exact hagree
  -- the copy hides the only byte behind the payload in which the pages differ
  have hhidden : overlaid text (oldBytes md lin₁ (pageOf a)) =
      overlaid text (oldBytes md lin₁ (pageOf b)) := by
    have hla := length_overlaid ht (length_oldBytes md lin₁ (pageOf a))
    have hlb := length_overlaid ht (length_oldBytes md lin₁ (pageOf b))
    apply List.ext_getElem (hla.trans hlb.symm)
    intro i hi hi'
    rw [← List.getD_eq_getElem _ 0 hi, ← List.getD_eq_getElem _ 0 hi',
      getD_overlaid (by omega), getD_overlaid (by omega), getD_oldBytes, getD_oldBytes, hlength]
    split_ifs with _ _ hcovered
    · rfl
    · rfl
    · rfl
    · exact hpages i (by omega) (by omega)
  rw [← written_direct hdirect] at ha hb
  by_contra hall
  push Not at hall
  have hleft := hall dis (pageOf a)
  have hright := hall dis (pageOf b)
  rw [hrun₁, hrun₂, overlaid_pageOf ht ha] at hleft
  rw [hrun₁, hrun₂, overlaid_pageOf ht hb, ← hhidden, hleft] at hright
  exact hdis (Except.ok.inj hright)

end Buffers

/-! ### Which layouts do not matter for a packet -/

section Exact

variable {md : Md} {lin₁ lin₂ : ℕ}

/-- The payload is followed by the same bytes as far as they count. -/
def SameBehind (md : Md) (lin₁ lin₂ : ℕ) (text : List UInt8) : Prop :=
  (Copies md lin₁ ↔ Copies md lin₂) ∨
    ∀ p, asks (overlaid text []) = some p → min md.len.toNat MIN_QUIC_HDR_LINEAR ≤ p

theorem payloadOf_layout (h₁ : Whole md lin₁) (h₂ : Whole md lin₂) (hi : isInitial md = true)
    (hsee : headerEnd md.data ≤ seen md lin₁ ↔ headerEnd md.data ≤ seen md lin₂) :
    payloadOf md lin₁ = payloadOf md lin₂ := by
  obtain ⟨fast, hfast, hinit, h40, hfirst⟩ := fast_of_initial hi h₁
  rw [payloadOf, payloadOf, ← parseQuicFast_layout h₁ h₂, hfast]
  simp only [initialPayload_layout h₁ h₂ h40 hfirst hsee]

theorem nameIn_layout {text : List UInt8} (h₁ : Whole md lin₁) (h₂ : Whole md lin₂)
    (ht : text.length ≤ 1024) (hbehind : SameBehind md lin₁ lin₂ text) (s : Scratch) :
    nameIn (overlaid text (oldBytes md lin₁ s)) = nameIn (overlaid text (oldBytes md lin₂ s)) := by
  rcases hbehind with hcopies | hfar
  · have hcopied : copied md lin₁ = copied md lin₂ := by
      rw [copied, copied]
      by_cases hcopy : Copies md lin₁
      · rw [if_pos hcopy, if_pos (hcopies.mp hcopy)]
      · rw [if_neg hcopy, if_neg fun h => hcopy (hcopies.mpr h)]
    rw [oldBytes_eq, oldBytes_eq, hcopied]
  · obtain ⟨h16, h1024⟩ := payload_block_bounds text
    refine nameIn_of_agree h16 h1024 (extends_payload_block ht) (extends_payload_block ht) ?_
    intro p hp i hpi
    have hcopy := hfar p hp
    have hblock := le_asks hp
    by_cases hi : i < 1024
    · rw [getD_buffer_behind h₁ hi (by omega) (by omega),
        getD_buffer_behind h₂ hi (by omega) (by omega)]
    · rw [List.getD_eq_default _ _ (by
          rw [length_overlaid ht (length_oldBytes md lin₁ s)]
          omega),
        List.getD_eq_default _ _ (by
          rw [length_overlaid ht (length_oldBytes md lin₂ s)]
          omega)]

/-- Two layouts of a packet are routed alike exactly if it is no Initial packet, or the header ends
in what the parser looks at with both or with neither, and the walk over the ClientHello asks for no
byte that is the copy's with one of them and the page's with the other. -/
theorem layout_independent_iff (h₁ : Whole md lin₁) (h₂ : Whole md lin₂) :
    (∀ dis s, (run0xDEAD md lin₁ dis s).2 = (run0xDEAD md lin₂ dis s).2) ↔
      (isInitial md = true →
        (headerEnd md.data ≤ seen md lin₁ ↔ headerEnd md.data ≤ seen md lin₂) ∧
          ∀ text, payloadOf md lin₁ = some text → SameBehind md lin₁ lin₂ text) := by
  constructor
  · intro hsame hi
    have hsee : headerEnd md.data ≤ seen md lin₁ ↔ headerEnd md.data ≤ seen md lin₂ := by
      have hload := hsame Dissector.empty (pageOf [])
      rw [← not_iff_not, ← run_load_iff h₁ hi Dissector.empty (pageOf []),
        ← run_load_iff h₂ hi Dissector.empty (pageOf []), hload]
    refine ⟨hsee, fun text hpayload => ?_⟩
    have hpayload' := payloadOf_layout h₁ h₂ hi hsee ▸ hpayload
    by_contra hbehind
    rw [SameBehind, not_or] at hbehind
    obtain ⟨hcopies, hnear⟩ := hbehind
    push Not at hnear
    obtain ⟨p, hasks, hp⟩ := hnear
    by_cases hcopy : Copies md lin₁
    · have hdirect : ¬ Copies md lin₂ := fun h => hcopies ⟨fun _ => h, fun _ => hcopy⟩
      obtain ⟨dis, s, hne⟩ := exists_layout_ne h₁ hcopy hdirect hpayload hpayload' hasks hp
      exact hne (hsame dis s)
    · have hcopy' : Copies md lin₂ := by
        by_contra h
        exact hcopies ⟨fun hc => absurd hc hcopy, fun hc => absurd hc h⟩
      obtain ⟨dis, s, hne⟩ := exists_layout_ne h₂ hcopy' hcopy hpayload' hpayload hasks hp
      exact hne (hsame dis s).symm
  · intro hcond dis s
    cases hi : isInitial md with
    | false => exact run_not_initial h₁ h₂ hi dis s
    | true =>
      obtain ⟨hsee, hbehind⟩ := hcond hi
      obtain ⟨fast, hfast, hinit, h40, hfirst⟩ := fast_of_initial hi h₁
      have hfast' := parseQuicFast_layout h₁ h₂ ▸ hfast
      rw [run0xDEAD_initial hfast hinit, run0xDEAD_initial hfast' hinit,
        ← initialPayload_layout h₁ h₂ h40 hfirst hsee]
      cases hpayload : initialPayload md lin₁ fast.connectionId with
      | error e => rfl
      | ok payload =>
        cases payload with
        | none => rfl
        | some text =>
          have htext : payloadOf md lin₁ = some text := by
            simp only [payloadOf, hfast, hinit, if_true, hpayload]
          simp only [Except.map, Option.bind_some,
            nameIn_layout h₁ h₂ (length_payloadOf htext) (hbehind text htext) s]

end Exact

/-! ### A packet that is copied or not -/

section Copied

theorem payloadOf_cookieMd {payload : List UInt8} {linear : ℕ} (h4 : 4 ≤ payload.length)
    (hp : payload.length ≤ 140) (hlin : linear ≤ 43 + payload.length) :
    payloadOf (cookieMd payload) linear = some payload := by
  obtain ⟨fast, hfast, hinit, -, htext⟩ := cookieMd_payload h4 hp hlin
  simp only [payloadOf, hfast, hinit, if_true, htext]

/-- A ClientHello with a server name of one byte. -/
def wholeHello : List UInt8 :=
  [6, 0, 0, 1] ++ List.replicate 41 0 ++ [0, 5, 0, 0, 0, 1] ++ List.replicate 13 0

/-- With all of the ClientHello in the packet the layout does not count. -/
theorem layout_independent_wholeHello :
    Whole (cookieMd wholeHello) 0 ∧ Whole (cookieMd wholeHello) 107 ∧
      ∀ dis s, (run0xDEAD (cookieMd wholeHello) 0 dis s).2 =
        (run0xDEAD (cookieMd wholeHello) 107 dis s).2 := by
  have hlength : wholeHello.length = 64 := by decide +kernel
  have h4 : 4 ≤ wholeHello.length := by omega
  have hp : wholeHello.length ≤ 140 := by omega
  have h₁ : Whole (cookieMd wholeHello) 0 := cookieMd_whole h4 hp (by omega)
  have h₂ : Whole (cookieMd wholeHello) 107 := cookieMd_whole h4 hp (by omega)
  have hlen : (cookieMd wholeHello).len.toNat = 107 := by
    rw [h₁.length, cookieMd_length h4 hp, hlength]
  have hmin : MIN_QUIC_HDR_LINEAR = 192 := rfl
  have hseen : seen (cookieMd wholeHello) 0 = seen (cookieMd wholeHello) 107 := by
    rw [seen, seen, if_pos (by omega), if_neg (by omega)]
    omega
  have hasks : asks (overlaid wholeHello []) = none := by decide +kernel
  refine ⟨h₁, h₂, (layout_independent_iff h₁ h₂).mpr fun _ => ⟨by rw [hseen], ?_⟩⟩
  intro text hpayload
  rw [payloadOf_cookieMd h4 hp (Nat.zero_le _)] at hpayload
  obtain rfl := Option.some.inj hpayload
  refine .inr fun p hp => ?_
  rw [hasks] at hp
  cases hp

/-- The packet of four payload bytes, from byte 41 on. -/
theorem cookieMd_drop :
    (cookieMd [6, 0, 0, 1]).data.drop 41 = 255 :: List.replicate 5 0 := by
  have h4 : 4 ≤ [(6 : UInt8), 0, 0, 1].length := le_rfl
  have hnumber : (cookiePacket [6, 0, 0, 1]).protectedNumber.length = 1 :=
    (cookiePacket_wellFormed h4 (by decide)).length_protectedNumber
  have hfields : (cookiePacket [6, 0, 0, 1]).fields.length = 17 := length_fields _
  let enc := QuicInitial.encrypt (QuicInitial.clientKey (cookiePacket [6, 0, 0, 1]).dcid)
    (QuicInitial.nonce (QuicInitial.clientIv (cookiePacket [6, 0, 0, 1]).dcid) 0) [6, 0, 0, 1]
  have henc : enc.length = 4 := QuicInitial.length_encrypt _ _ _
  have hsealed : (cookiePacket [6, 0, 0, 1]).sealed =
      enc ++ (List.replicate 10 0 ++ 255 :: List.replicate 5 0) := rfl
  have hsplit : (cookieMd [6, 0, 0, 1]).data =
      (List.replicate 8 0 ++ (cookiePacket [6, 0, 0, 1]).protectedFirst ::
        ((cookiePacket [6, 0, 0, 1]).fields ++ ((cookiePacket [6, 0, 0, 1]).protectedNumber ++
          (enc ++ List.replicate 10 0)))) ++ 255 :: List.replicate 5 0 := by
    simp only [cookieMd, datagram, QuicInitial.Packet.wire, hsealed, List.append_assoc,
      List.cons_append, List.append_nil]
  rw [hsplit, List.drop_left']
  simp [hfields, hnumber, henc]

/-- The buffer from byte 41 on where that packet is copied. A byte of its tag is the length of the
session ID. -/
def hiddenHello : List UInt8 := 255 :: List.replicate 5 0 ++ earlierHello.drop 47

theorem oldBytes_cookieMd :
    ∃ head, head.length = 41 ∧
      oldBytes (cookieMd [6, 0, 0, 1]) 0 (pageOf earlierHello) = head ++ hiddenHello := by
  have hdata : (cookieMd [6, 0, 0, 1]).data.length = 47 := cookieMd_length le_rfl (by decide)
  have hcopied : copied (cookieMd [6, 0, 0, 1]) 0 = (cookieMd [6, 0, 0, 1]).data := by
    rw [copied, if_pos (by decide), List.take_of_length_le]
    rw [hdata]
    decide
  refine ⟨(cookieMd [6, 0, 0, 1]).data.take 41, by rw [List.length_take, hdata]; rfl, ?_⟩
  rw [oldBytes_eq, hcopied, pageOf_pkt (by decide +kernel), LittleEndian.patch, hdata, hiddenHello,
    ← cookieMd_drop, ← List.append_assoc, List.take_append_drop, List.take_zero, List.nil_append,
    Nat.zero_add]

/-- Read in place the packet gets a server name from the page. Copied, it has none. -/
theorem layout_matters :
    (run0xDEAD (cookieMd [6, 0, 0, 1]) 47 Dissector.empty (pageOf earlierHello)).2 =
        .ok 0x80000000 ∧
      (run0xDEAD (cookieMd [6, 0, 0, 1]) 0 Dissector.empty (pageOf earlierHello)).2 = .ok 1 := by
  have h4 : 4 ≤ [(6 : UInt8), 0, 0, 1].length := le_rfl
  have h1024 : [(6 : UInt8), 0, 0, 1].length ≤ 1024 := by decide
  obtain ⟨fast, hcookie, hrun⟩ := cookieMd_run h4 (by decide) (le_refl 47)
  obtain ⟨fast', hcookie', hrun'⟩ := cookieMd_run h4 (by decide) (Nat.zero_le 47)
  have hold : oldBytes (cookieMd [6, 0, 0, 1]) 47 (pageOf earlierHello) = earlierHello := by
    rw [oldBytes, if_neg (by decide), pageOf_pkt (by decide +kernel)]
  have hname : nameIn (overlaid [6, 0, 0, 1] earlierHello) = some (List.replicate 61 0) := by
    decide +kernel
  have hasks : asks (overlaid [6, 0, 0, 1] []) = some 41 := by decide +kernel
  have hhidden : nameIn (overlaid [6, 0, 0, 1] (List.replicate 41 0 ++ hiddenHello)) = none := by
    decide +kernel
  have hnone : nameIn (overlaid [6, 0, 0, 1]
      (oldBytes (cookieMd [6, 0, 0, 1]) 0 (pageOf earlierHello))) = none := by
    obtain ⟨h16, hblock⟩ := payload_block_bounds [6, 0, 0, 1]
    obtain ⟨head, hhead, hbytes⟩ := oldBytes_cookieMd
    have hext : Extends (overlaid [6, 0, 0, 1] [])
        (overlaid [6, 0, 0, 1] (List.replicate 41 0 ++ hiddenHello)) :=
      ⟨by decide +kernel, by decide +kernel⟩
    rw [← hhidden]
    refine nameIn_of_agree h16 hblock (extends_payload_block h1024) hext ?_
    intro p hp i hi
    obtain rfl := Option.some.inj (hasks.symm.trans hp)
    by_cases hlast : i < 1024
    · rw [getD_overlaid hlast, getD_overlaid hlast, hbytes,
        List.getD_append_right _ _ _ _ (by omega), hhead,
        List.getD_append_right _ _ _ _ (by rw [List.length_replicate]; exact hi),
        List.length_replicate]
    · rw [List.getD_eq_default _ _ (by
          rw [(extends_payload_block h1024).length]
          omega),
        List.getD_eq_default _ _ (by
          rw [hext.length]
          omega)]
  rw [hrun, hrun', hold, hname, hnone, sniRetval, sniRetval, Option.elim_some, Option.elim_none,
    matchSni_empty, hcookie']
  exact ⟨rfl, rfl⟩

end Copied

end Udpgrm
