import Udpgrm.ClientHello

/-!
Where an extracted server name comes from. The walk finds a name exactly if the buffer starts with
a CRYPTO frame and a ClientHello up to that name. It does not look at the offset of the frame, and
compares neither the length of its data nor that of the extensions with where the name ends.
-/
namespace Udpgrm

open ByteMemory
open LittleEndian (field)
open QuicInitial (VarintSize varint)
open TlsHello (Extension Opening)

/-! ### Bytes as encodings -/

section Decode

variable {buf : List UInt8} {off n : ℕ}

theorem field_one (h : off + 1 ≤ buf.length) : field buf off 1 = [buf.getD off 0] := by
  rw [field, List.drop_eq_getElem_cons (by omega), List.take_succ_cons, List.take_zero,
    List.getD_eq_getElem _ _ (by omega)]

theorem ofNat_field (h : off + n ≤ buf.length) :
    BigEndian.ofNat n (BigEndian.toNat (field buf off n)) = field buf off n := by
  have hof := BigEndian.ofNat_toNat (field buf off n)
  rwa [LittleEndian.length_field h] at hof

theorem ofNat_u16 (h : off + 2 ≤ buf.length) :
    BigEndian.ofNat 2 (BigEndian.u16 buf off).toNat = field buf off 2 := by
  have hlt := BigEndian.toNat_lt (field buf off 2)
  rw [LittleEndian.length_field h] at hlt
  rw [BigEndian.u16, UInt16.toNat_ofNat', Nat.mod_eq_of_lt (by omega), ofNat_field h]

theorem field_join {off' m : ℕ} (h : off + m = off') :
    field buf off m ++ field buf off' n = field buf off (m + n) := by
  rw [← h, LittleEndian.field_append_field]

/-- The size that the first two bits of a byte tell. -/
def varintSize (b : UInt8) : VarintSize :=
  if b >>> 6 = 0 then .one else if b >>> 6 = 1 then .two else if b >>> 6 = 2 then .four else .eight

theorem tag_varintSize (b : UInt8) : (varintSize b).tag = b.toNat / 64 := by
  have hshift : (b >>> 6).toNat = b.toNat / 64 := by
    simp [UInt8.toNat_shiftRight, Nat.shiftRight_eq_div_pow]
  have hlt := b.toNat_lt
  rw [varintSize]
  split_ifs with h0 h1 h2
  · rw [← hshift, h0]
    rfl
  · rw [← hshift, h1]
    rfl
  · rw [← hshift, h2]
    rfl
  · rw [← UInt8.toNat_inj, hshift] at h0 h1 h2
    simp [VarintSize.tag] at h0 h1 h2 ⊢
    omega

/-- Whatever is read as a number of variable length is one. -/
theorem field_varint (h : off + 8 ≤ buf.length) :
    (varintDecode buf off).1 < (varintSize (buf.getD off 0)).limit ∧
      (varintDecode buf off).2 = (varintSize (buf.getD off 0)).bytes ∧
      field buf off (varintSize (buf.getD off 0)).bytes =
        varint (varintSize (buf.getD off 0)) (varintDecode buf off).1 := by
  have htag := tag_varintSize (buf.getD off 0)
  generalize varintSize (buf.getD off 0) = size at htag ⊢
  have hbytes : 1 ≤ size.bytes ∧ size.bytes ≤ 8 := by cases size <;> decide
  have hlimit : size.limit = 64 * 256 ^ (size.bytes - 1) := by cases size <;> rfl
  have hrest := BigEndian.toNat_lt (field buf (off + 1) (size.bytes - 1))
  rw [LittleEndian.length_field (by omega)] at hrest
  have hval : BigEndian.toNat (field buf off size.bytes) =
      (buf.getD off 0).toNat * 256 ^ (size.bytes - 1) +
        BigEndian.toNat (field buf (off + 1) (size.bytes - 1)) := by
    have hsplit : field buf off size.bytes =
        [buf.getD off 0] ++ field buf (off + 1) (size.bytes - 1) := by
      rw [← field_one (by omega), field_join rfl, Nat.add_sub_cancel' hbytes.1]
    rw [hsplit, BigEndian.toNat_append, LittleEndian.length_field (by omega)]
    rfl
  have hdiv : BigEndian.toNat (field buf off size.bytes) / size.limit = size.tag := by
    rw [hval, hlimit, htag, Nat.mul_comm 64, ← Nat.div_div_eq_div_mul, Nat.mul_comm,
      Nat.mul_add_div (Nat.pow_pos (by decide)), Nat.div_eq_of_lt hrest, Nat.add_zero]
  have hlt : BigEndian.toNat (field buf off size.bytes) % size.limit < size.limit :=
    Nat.mod_lt _ (by cases size <;> decide)
  have hfield : field buf off size.bytes =
      varint size (BigEndian.toNat (field buf off size.bytes) % size.limit) := by
    rw [varint, ← hdiv, Nat.div_add_mod', ofNat_field (by omega)]
  have hdec := varintDecode_field size hfield hlt
  rw [hdec]
  exact ⟨hlt, rfl, hfield⟩

end Decode

/-! ### What a name is found in -/

/-- The buffer starts with a frame and a ClientHello, as far as the length of a server name behind
other extensions. -/
structure Reading (buf : List UInt8) (o : Opening) (before : List Extension) (len : ℕ) : Prop where
  opening : o.WellFormed
  others : ∀ e ∈ before, e.type ≠ 0 ∧ e.body.length < 256 ^ 2
  count : before.length < 32
  size : len < 256 ^ 2
  bytes : ∃ rest, buf = o.bytes ++ (Extension.listBytes before ++
    (BigEndian.ofNat 2 0 ++ (BigEndian.ofNat 2 len ++ rest)))
  starts : o.bytes.length + (Extension.listBytes before).length < o.extensionsEnd
  room : o.bytes.length + (Extension.listBytes before).length + 4 + SNI_SIZE ≤ buf.length

section Readings

variable {buf : List UInt8} {o : Opening} {before : List Extension} {off len n last k : ℕ}

theorem Reading.found (h : Reading buf o before len) : clientHelloSni buf =
    .ok (some (o.bytes.length + (Extension.listBytes before).length + 4, len)) := by
  obtain ⟨rest, hbuf⟩ := h.bytes
  have hroom := h.room
  rw [hbuf] at hroom ⊢
  rw [clientHelloSni_opening h.opening,
    findServerName_present h.count h.others h.size h.starts, if_pos]
  simp [SNI_SIZE] at hroom
  omega

/-- The opening that is read from a buffer. -/
def openingAt (buf : List UInt8) : Opening where
  offsetSize := varintSize (buf.getD 1 0)
  offset := (varintDecode buf 1).1
  lengthSize := varintSize (buf.getD (cryptoLenOff buf) 0)
  length := (varintDecode buf (cryptoLenOff buf)).1
  helloLength := BigEndian.toNat (field buf (helloOff buf + 1) 3)
  version := BigEndian.u16 buf (helloOff buf + 4)
  random := field buf (helloOff buf + 6) 32
  sessionId := field buf (sessionIdOff buf + 1) (buf.getD (sessionIdOff buf) 0).toNat
  cipherSuites :=
    field buf (cipherSuitesOff buf + 2) (BigEndian.u16 buf (cipherSuitesOff buf)).toNat
  compression := field buf (compressionOff buf + 1) (buf.getD (compressionOff buf) 0).toNat
  extensionsLength := (BigEndian.u16 buf (extensionsOff buf)).toNat

theorem openingAt_lengths (h : Opened buf) :
    (openingAt buf).sessionId.length = (buf.getD (sessionIdOff buf) 0).toNat ∧
      (openingAt buf).cipherSuites.length = (BigEndian.u16 buf (cipherSuitesOff buf)).toNat ∧
      (openingAt buf).compression.length = (buf.getD (compressionOff buf) 0).toNat := by
  have hoff := offsets_ascend buf
  have hfits := h.fits
  have hcipher : cipherSuitesOff buf =
      sessionIdOff buf + 1 + (buf.getD (sessionIdOff buf) 0).toNat := rfl
  have hcompression : compressionOff buf =
      cipherSuitesOff buf + 2 + (BigEndian.u16 buf (cipherSuitesOff buf)).toNat := rfl
  have hextensions : extensionsOff buf =
      compressionOff buf + 1 + (buf.getD (compressionOff buf) 0).toNat := rfl
  exact ⟨LittleEndian.length_field (by omega), LittleEndian.length_field (by omega),
    LittleEndian.length_field (by omega)⟩

theorem openingAt_wellFormed (h : Opened buf) : (openingAt buf).WellFormed := by
  have hoff := offsets_ascend buf
  have hfits := h.fits
  obtain ⟨hsession, hcipher, hcompression⟩ := openingAt_lengths h
  refine ⟨(field_varint (by omega)).1, (field_varint (by omega)).1, ?_,
    LittleEndian.length_field (by omega), ?_, ?_, ?_, UInt16.toNat_lt _⟩
  · have hlt := BigEndian.toNat_lt (field buf (helloOff buf + 1) 3)
    rwa [LittleEndian.length_field (by omega)] at hlt
  · rw [hsession]
    exact UInt8.toNat_lt _
  · rw [hcipher]
    exact UInt16.toNat_lt _
  · rw [hcompression]
    exact UInt8.toNat_lt _

theorem openingAt_frameHeader (h : Opened buf) :
    (openingAt buf).frameHeader = field buf 0 (helloOff buf) := by
  have hoff := offsets_ascend buf
  have hfits := h.fits
  obtain ⟨-, hsize, hfirst⟩ := field_varint (show 1 + 8 ≤ buf.length by omega)
  obtain ⟨-, hsize', hsecond⟩ := field_varint (show cryptoLenOff buf + 8 ≤ buf.length by omega)
  have hcrypto : cryptoLenOff buf = 1 + (varintSize (buf.getD 1 0)).bytes := by
    rw [cryptoLenOff, hsize]
  have hhello : helloOff buf =
      cryptoLenOff buf + (varintSize (buf.getD (cryptoLenOff buf) 0)).bytes := by
    rw [helloOff, hsize']
  have hsix : field buf 0 1 = [6] := by rw [field_one (by omega), h.frame]
  have hjoin : field buf 0 (helloOff buf) = field buf 0 1 ++
      field buf 1 (varintSize (buf.getD 1 0)).bytes ++
        field buf (cryptoLenOff buf) (varintSize (buf.getD (cryptoLenOff buf) 0)).bytes := by
    rw [field_join rfl, field_join (by omega), hhello, hcrypto]
  rw [hjoin, hsix, hfirst, hsecond]
  rfl

theorem openingAt_helloHeader (h : Opened buf) :
    (openingAt buf).helloHeader = field buf (helloOff buf) 38 := by
  have hoff := offsets_ascend buf
  have hfits := h.fits
  have hone : field buf (helloOff buf) 1 = [1] := by rw [field_one (by omega), h.hello]
  have hjoin : field buf (helloOff buf) 38 = field buf (helloOff buf) 1 ++
      field buf (helloOff buf + 1) 3 ++ field buf (helloOff buf + 4) 2 ++
        field buf (helloOff buf + 6) 32 := by
    rw [field_join rfl, field_join rfl, field_join rfl]
  rw [hjoin, hone, ← ofNat_field (by omega), ← ofNat_u16 (by omega)]
  rfl

/-- The bytes up to the extensions are those of the opening. -/
theorem openingAt_bytes (h : Opened buf) :
    (openingAt buf).bytes = field buf 0 (extensionsOff buf + 2) := by
  have hoff := offsets_ascend buf
  have hfits := h.fits
  have hcipherOff : cipherSuitesOff buf =
      sessionIdOff buf + 1 + (buf.getD (sessionIdOff buf) 0).toNat := rfl
  have hcompressionOff : compressionOff buf =
      cipherSuitesOff buf + 2 + (BigEndian.u16 buf (cipherSuitesOff buf)).toNat := rfl
  have hextensionsOff : extensionsOff buf =
      compressionOff buf + 1 + (buf.getD (compressionOff buf) 0).toNat := rfl
  obtain ⟨hsession, hcipher, hcompression⟩ := openingAt_lengths h
  have hjoin : field buf 0 (extensionsOff buf + 2) =
      field buf 0 (helloOff buf) ++ field buf (helloOff buf) 38 ++
        (field buf (sessionIdOff buf) 1 ++ (openingAt buf).sessionId) ++
        field buf (cipherSuitesOff buf) 2 ++ (openingAt buf).cipherSuites ++
        (field buf (compressionOff buf) 1 ++ (openingAt buf).compression) ++
        field buf (extensionsOff buf) 2 := by
    simp only [openingAt]
    rw [field_join rfl, field_join rfl, field_join (by omega), field_join (by omega),
      field_join (by omega), field_join (by omega), field_join (by omega), field_join (by omega)]
    congr 1
    omega
  rw [hjoin, ← openingAt_frameHeader h, ← openingAt_helloHeader h, field_one (by omega),
    field_one (by omega), ← ofNat_u16 (by omega), ← ofNat_u16 (by omega), Opening.bytes, hsession,
    hcipher, hcompression, UInt8.ofNat_toNat, UInt8.ofNat_toNat]
  rfl

/-- The extensions that the walk passes by, up to the name that it finds. -/
theorem findServerName_reading (h : findServerName buf last n off = .ok (some (k, len))) :
    ∃ before : List Extension, (∀ e ∈ before, e.type ≠ 0 ∧ e.body.length < 256 ^ 2) ∧
      before.length < n ∧ off + (Extension.listBytes before).length < last ∧
      off + (Extension.listBytes before).length + 4 = k ∧ k + SNI_SIZE ≤ buf.length ∧
      len < 256 ^ 2 ∧ Extension.listBytes before ++ BigEndian.ofNat 2 0 ++ BigEndian.ofNat 2 len =
        field buf off ((Extension.listBytes before).length + 4) := by
  induction n generalizing off with
  | zero => cases h
  | succ n ih =>
    rw [findServerName_succ] at h
    simp only [none_else_eq_some, error_else_eq_ok] at h
    obtain ⟨hlast, h2, h4, h⟩ := h
    split_ifs at h with htype hroom
    · cases h
      have hzero : BigEndian.ofNat 2 0 = field buf off 2 := by
        rw [← ofNat_u16 (by omega), htype]
        rfl
      refine ⟨[], by simp, by simp, by simpa [Extension.listBytes] using hlast,
        by simp [Extension.listBytes], by omega, UInt16.toNat_lt _, ?_⟩
      rw [ofNat_u16 (by omega), hzero]
      simp only [Extension.listBytes, List.flatMap_nil, List.nil_append, List.length_nil]
      exact field_join rfl
    · obtain ⟨before, hothers, hcount, hstart, hend, hfit, hlen, hbytes⟩ := ih h
      have hbody : (field buf (off + 4) (BigEndian.u16 buf (off + 2)).toNat).length =
          (BigEndian.u16 buf (off + 2)).toNat := LittleEndian.length_field (by omega)
      refine ⟨⟨BigEndian.u16 buf off, field buf (off + 4) (BigEndian.u16 buf (off + 2)).toNat⟩ ::
        before, ?_, ?_, ?_, ?_, hfit, hlen, ?_⟩
      · rw [List.forall_mem_cons]
        exact ⟨⟨htype, hbody.trans_lt (UInt16.toNat_lt _)⟩, hothers⟩
      · simpa using hcount
      · rw [Extension.listBytes_cons, List.length_append, Extension.length_bytes]
        simp only [hbody]
        omega
      · rw [Extension.listBytes_cons, List.length_append, Extension.length_bytes]
        simp only [hbody]
        omega
      · rw [Extension.listBytes_cons, List.length_append, Extension.length_bytes, List.append_assoc,
          List.append_assoc, ← List.append_assoc (Extension.listBytes before), hbytes,
          Extension.bytes]
        simp only [hbody]
        rw [ofNat_u16 (by omega), ofNat_u16 (by omega), field_join rfl, field_join rfl,
          field_join (by omega), ← Nat.add_assoc]

/-- The walk finds a name exactly where there is one to read. -/
theorem found_iff_reading : clientHelloSni buf = .ok (some (k, len)) ↔
    ∃ o before, Reading buf o before len ∧
      o.bytes.length + (Extension.listBytes before).length + 4 = k := by
  constructor
  · intro h
    have hopened := opened_of_found h
    have hfits := hopened.fits
    have hbytes := openingAt_bytes hopened
    have hlength : (openingAt buf).bytes.length = extensionsOff buf + 2 := by
      rw [hbytes]
      exact LittleEndian.length_field (by omega)
    rw [clientHelloSni_opened hopened] at h
    obtain ⟨before, hothers, hcount, hstart, hend, hfit, hlen, hname⟩ := findServerName_reading h
    refine ⟨openingAt buf, before, ⟨openingAt_wellFormed hopened, hothers, hcount, hlen, ?_, ?_,
      by omega⟩, by omega⟩
    · refine ⟨buf.drop k, ?_⟩
      have hprefix : (openingAt buf).bytes ++ (Extension.listBytes before ++ BigEndian.ofNat 2 0 ++
          BigEndian.ofNat 2 len) = buf.take k := by
        rw [hbytes, hname, field_join (Nat.zero_add _), field, List.drop_zero, ← Nat.add_assoc,
          hend]
      rw [← List.take_append_drop k buf]
      nth_rewrite 1 [← hprefix]
      simp
    · rw [hlength, Opening.extensionsEnd, hlength]
      exact hstart
  · rintro ⟨o, before, h, rfl⟩
    exact h.found

theorem found_of_sniLen {s : Scratch} (h : 0 < sniLen (parseClientHelloExtractSni (clearSni s)).1) :
    ∃ k, clientHelloSni s.pkt.toList =
      .ok (some (k, sniLen (parseClientHelloExtractSni (clearSni s)).1)) := by
  cases hwalk : clientHelloSni s.pkt.toList with
  | error e =>
    rw [parseClientHelloExtractSni_error hwalk, sniLen_clearSni] at h
    exact absurd h (lt_irrefl 0)
  | ok found =>
    cases found with
    | none =>
      rw [parseClientHelloExtractSni_none hwalk, sniLen_clearSni] at h
      exact absurd h (lt_irrefl 0)
    | some found =>
      obtain ⟨o, before, hread, hk⟩ := found_iff_reading.mp hwalk
      have hroom := hread.room
      rw [Vector.length_toList] at hroom
      obtain ⟨-, hlen, -⟩ := parseClientHelloExtractSni_found hwalk (by omega) hread.size
      rw [hlen]
      exact ⟨found.1, rfl⟩

end Readings

/-! ### Names outside of the frame -/

/-- The `len` bytes of a name from `k` on are inside of the frame's data, of the extensions and of
the `n` bytes of plaintext, as the fields of the buffer tell their ends. -/
structure SniInside (n : ℕ) (buf : List UInt8) (k len : ℕ) : Prop where
  offset : (varintDecode buf 1).1 = 0
  data : k + len ≤ helloOff buf + (varintDecode buf (cryptoLenOff buf)).1
  extensions : k + len ≤ extensionsOff buf + 2 + (BigEndian.u16 buf (extensionsOff buf)).toNat
  payload : k + len ≤ n

/-- An extracted name is inside. -/
def ExtractedInside (n : ℕ) (s : Scratch) : Prop :=
  let r := parseClientHelloExtractSni (clearSni s)
  r.2 = .ok () → 0 < sniLen r.1 →
    ∃ k, clientHelloSni s.pkt.toList = .ok (some (k, sniLen r.1)) ∧
      SniInside n s.pkt.toList k (sniLen r.1)

/-- Where a name ends by its own length. -/
def nameEnd (o : Opening) (before : List Extension) (len : ℕ) : ℕ :=
  o.bytes.length + (Extension.listBytes before).length + 4 + len

/-- The lengths of what surrounds a name in the plaintext are long enough for it, and the frame is
the first of its stream. -/
def NamesNested (n : ℕ) (buf : List UInt8) : Prop :=
  ∀ o before len, Reading buf o before len → 0 < len → o.offset = 0 ∧
    nameEnd o before len ≤ o.dataEnd ∧ nameEnd o before len ≤ o.extensionsEnd ∧
    nameEnd o before len ≤ n

theorem Reading.inside_iff {buf : List UInt8} {o : Opening} {before : List Extension} {len n : ℕ}
    (h : Reading buf o before len) :
    SniInside n buf (o.bytes.length + (Extension.listBytes before).length + 4) len ↔
      o.offset = 0 ∧ nameEnd o before len ≤ o.dataEnd ∧
        nameEnd o before len ≤ o.extensionsEnd ∧ nameEnd o before len ≤ n := by
  obtain ⟨rest, rfl⟩ := h.bytes
  constructor
  · rintro ⟨hoffset, hdata, hextensions, hpayload⟩
    rw [(opening_cryptoLenOff h.opening).1] at hoffset
    rw [(opening_helloOff h.opening).1, (opening_helloOff h.opening).2] at hdata
    rw [opening_extensionsLen h.opening, opening_extensionsOff h.opening] at hextensions
    exact ⟨hoffset, hdata, hextensions, hpayload⟩
  · rintro ⟨hoffset, hdata, hextensions, hpayload⟩
    refine ⟨?_, ?_, ?_, hpayload⟩
    · rw [(opening_cryptoLenOff h.opening).1]
      exact hoffset
    · rw [(opening_helloOff h.opening).1, (opening_helloOff h.opening).2]
      exact hdata
    · rw [opening_extensionsLen h.opening, opening_extensionsOff h.opening]
      exact hextensions

theorem ExtractedInside.nested {s : Scratch} {o : Opening} {before : List Extension} {len n : ℕ}
    (h : ExtractedInside n s) (hread : Reading s.pkt.toList o before len) (hpos : 0 < len) :
    o.offset = 0 ∧ nameEnd o before len ≤ o.dataEnd ∧ nameEnd o before len ≤ o.extensionsEnd ∧
      nameEnd o before len ≤ n := by
  have hroom := hread.room
  rw [Vector.length_toList] at hroom
  obtain ⟨hcode, hlen, -⟩ := parseClientHelloExtractSni_found hread.found hroom hread.size
  obtain ⟨k, hwalk, hinside⟩ := h hcode (hlen.symm ▸ hpos)
  rw [hread.found] at hwalk
  obtain ⟨rfl, -⟩ := Prod.mk.inj (Option.some.inj (Except.ok.inj hwalk))
  rw [hlen] at hinside
  exact hread.inside_iff.mp hinside

/-- Nothing but the lengths in the plaintext itself keeps a name inside. -/
theorem extracted_inside_iff (n : ℕ) (s : Scratch) :
    ExtractedInside n s ↔ NamesNested n s.pkt.toList := by
  constructor
  · intro h o before len hread hpos
    exact h.nested hread hpos
  · intro h _ hpos
    obtain ⟨k, hwalk⟩ := found_of_sniLen hpos
    obtain ⟨o, before, hread, rfl⟩ := found_iff_reading.mp hwalk
    exact ⟨_, hwalk, hread.inside_iff.mpr (h o before _ hread hpos)⟩

/-- A frame with four bytes of data: the type and the length of a ClientHello. The rest of the
message would be in other frames. -/
def strayOpening : Opening :=
  ⟨.one, 0, .one, 4, 57, 0x0303, List.replicate 32 0, [], [0x13, 0x01], [0], 13⟩

/-- What follows the frame looks like the rest of the message, with the name "a.io". -/
def strayPage : Scratch :=
  ⟨filled 416 [], filled 16 [], filled 16 [], filled 16 [],
    filled 1024 (strayOpening.bytes ++ (Extension.listBytes [] ++ (BigEndian.ofNat 2 0 ++
      (BigEndian.ofNat 2 9 ++ ([0, 7, 0, 0, 4, 0x61, 0x2e, 0x69, 0x6f] ++ List.replicate 961 0)))))⟩

theorem strayPage_reading : Reading strayPage.pkt.toList strayOpening [] 9 := by
  have hwell : strayOpening.WellFormed :=
    ⟨by decide, by decide, by decide, rfl, by decide, by decide, by decide, by decide⟩
  have hlength : strayOpening.bytes.length = 50 := Opening.length_bytes hwell
  refine ⟨hwell, by simp, by decide, by decide, ⟨_, toList_filled ?_⟩, ?_, ?_⟩
  · simp only [List.length_append, hlength, BigEndian.length_ofNat, List.length_replicate]
    rfl
  · rw [Opening.extensionsEnd]
    exact Nat.add_lt_add_left (by decide) _
  · rw [hlength, Vector.length_toList]
    decide

/-- The name behind the data of the frame is extracted. -/
theorem sni_outside :
    clientHelloSni strayPage.pkt.toList = .ok (some (54, 9)) ∧ strayOpening.dataEnd = 7 ∧
      ¬ ExtractedInside 63 strayPage := by
  refine ⟨strayPage_reading.found, rfl, ?_⟩
  intro h
  obtain ⟨-, hdata, -⟩ := h.nested strayPage_reading (by decide)
  have hbad : nameEnd strayOpening [] 9 ≤ 7 := hdata
  revert hbad
  decide

end Udpgrm
