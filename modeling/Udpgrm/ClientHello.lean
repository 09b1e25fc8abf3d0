import Udpgrm.Lib.TlsHello
import Udpgrm.QuicDecrypt

/-! The ClientHello in the decrypted payload, and the server name that is taken from it. -/
namespace Udpgrm

open ByteMemory
open LittleEndian (field)

abbrev SNI_SIZE : ℕ := 144 + 5 + 1

/-- The extensions from `off` on, at most `n` of them: where the server name is, and its length. -/
def findServerName (buf : List UInt8) (extensionsEnd : ℕ) :
    ℕ → ℕ → Except IErr (Option (ℕ × ℕ))
  | 0, _ => .ok none
  | n + 1, off =>
    if off ≥ extensionsEnd then .ok none
    else do
      let extType ← getU16 buf off
      let extLen ← getU16 buf (off + 2)
      if extType = 0 then
        require (¬ off + 4 + SNI_SIZE > buf.length) .load
        return some (off + 4, extLen.toNat)
      else findServerName buf extensionsEnd n (off + 4 + extLen.toNat)

/-- The walk of `parse_client_hello_extract_sni` over its buffer. -/
def clientHelloSni (buf : List UInt8) : Except IErr (Option (ℕ × ℕ)) := do
  let frameType ← getU8 buf 0
  if frameType ≠ 0x6 then return none
  else
    let offset ← getVarint buf 1
    let off := 1 + offset.2
    let cryptoLen ← getVarint buf off
    let off := off + cryptoLen.2
    let handshakeType ← getU8 buf off
    require (handshakeType = 0x1) .sanity
    let _ ← getU8 buf (off + 1)
    let _ ← getU8 buf (off + 2)
    let _ ← getU8 buf (off + 3)
    let _ ← getU16 buf (off + 4)
    let off := off + 6 + 32
    let sessionIdLen ← getU8 buf off
    let off := off + 1 + sessionIdLen.toNat
    let cipherSuiteLen ← getU16 buf off
    let off := off + 2 + cipherSuiteLen.toNat
    let compressionLen ← getU8 buf off
    let off := off + 1 + compressionLen.toNat
    let extensionsLen ← getU16 buf off
    let off := off + 2
    findServerName buf (off + extensionsLen.toNat) 32 off

/-! `scratch->sni` and `scratch->sni_len` in the union. -/

abbrev sniOff : ℕ := 0
abbrev sniLenOff : ℕ := 152

def sni (scratch : Scratch) : List UInt8 := load scratch.area sniOff SNI_SIZE
def sniLen (scratch : Scratch) : ℕ := LittleEndian.toNat (load scratch.area sniLenOff 4)

def clearSni (scratch : Scratch) : Scratch :=
  { scratch with
    area := store (store scratch.area sniOff (List.replicate SNI_SIZE 0)) sniLenOff
      (List.replicate 4 0) }

def parseClientHelloExtractSni (scratch : Scratch) : Scratch × Except IErr Unit :=
  let buf := scratch.pkt.toList
  match clientHelloSni buf with
  | .error e => (scratch, .error e)
  | .ok none => (scratch, .ok ())
  | .ok (some (off, extLen)) =>
    let area := store scratch.area sniOff (field buf off (min extLen SNI_SIZE))
    ({ scratch with area := store area sniLenOff (LittleEndian.ofNat 4 extLen) }, .ok ())

def quicExtractSni (md : Md) (scratch : Scratch) (encOffset packetLen : ℕ) :
    Scratch × Except IErr Unit :=
  match quicDecryptPayload md scratch encOffset packetLen with
  | (scratch, .error e) => (scratch, .error e)
  | (scratch, .ok ()) => parseClientHelloExtractSni (clearSni scratch)

/-! ### The name in the union -/

section Name

variable {s : Scratch} {off len : ℕ}

@[simp] theorem clearSni_pkt (s : Scratch) : (clearSni s).pkt = s.pkt := by
  rw [clearSni]

theorem sniLen_clearSni (s : Scratch) : sniLen (clearSni s) = 0 := by
  have hload : load (clearSni s).area sniLenOff (List.replicate 4 (0 : UInt8)).length =
      List.replicate 4 0 := load_store_self (by simp [sniLenOff])
  rw [List.length_replicate] at hload
  rw [sniLen, hload]
  rfl

theorem sni_clearSni (s : Scratch) : sni (clearSni s) = List.replicate SNI_SIZE 0 := by
  have hload : load (store s.area sniOff (List.replicate SNI_SIZE 0)) sniOff
      (List.replicate SNI_SIZE (0 : UInt8)).length = List.replicate SNI_SIZE 0 :=
    load_store_self (by simp [sniOff, SNI_SIZE])
  rw [List.length_replicate] at hload
  rw [sni, clearSni, load_store_of_disjoint (by simp [sniOff, sniLenOff, SNI_SIZE]), hload]

/-- A name that was found is in the union, cut or filled up to its size there. -/
theorem parseClientHelloExtractSni_found (h : clientHelloSni s.pkt.toList = .ok (some (off, len)))
    (hfit : off + SNI_SIZE ≤ 1024) (hlen : len < 256 ^ 2) :
    (parseClientHelloExtractSni (clearSni s)).2 = .ok () ∧
      sniLen (parseClientHelloExtractSni (clearSni s)).1 = len ∧
      sni (parseClientHelloExtractSni (clearSni s)).1 =
        field s.pkt.toList off (min len SNI_SIZE) ++ List.replicate (SNI_SIZE - len) 0 := by
  have hname : (field s.pkt.toList off (min len SNI_SIZE)).length = min len SNI_SIZE :=
    LittleEndian.length_field (by simp; omega)
  simp only [parseClientHelloExtractSni, clearSni_pkt, h]
  refine ⟨trivial, ?_, ?_⟩
  · have hload : load (store (store (clearSni s).area sniOff
        (field s.pkt.toList off (min len SNI_SIZE))) sniLenOff (LittleEndian.ofNat 4 len)) sniLenOff
          (LittleEndian.ofNat 4 len).length = LittleEndian.ofNat 4 len :=
      load_store_self (by simp [sniLenOff])
    rw [LittleEndian.length_ofNat] at hload
    rw [sniLen, hload, LittleEndian.toNat_ofNat]
    omega
  · have hin : load (store (clearSni s).area (sniOff + 0)
        (field s.pkt.toList off (min len SNI_SIZE))) sniOff SNI_SIZE =
          LittleEndian.patch (load (clearSni s).area sniOff SNI_SIZE) 0
            (field s.pkt.toList off (min len SNI_SIZE)) :=
      load_store_inside (by omega) (by simp [sniOff, SNI_SIZE])
    have hclear : load (clearSni s).area sniOff SNI_SIZE = List.replicate SNI_SIZE 0 :=
      sni_clearSni s
    rw [Nat.add_zero, hclear, LittleEndian.patch, hname, List.take_zero, List.nil_append,
      List.drop_replicate] at hin
    rw [sni, load_store_of_disjoint (by simp [sniOff, sniLenOff, SNI_SIZE]), hin]
    congr 2
    omega

theorem parseClientHelloExtractSni_none (h : clientHelloSni s.pkt.toList = .ok none) :
    parseClientHelloExtractSni (clearSni s) = (clearSni s, .ok ()) := by
  simp only [parseClientHelloExtractSni, clearSni_pkt, h]

theorem parseClientHelloExtractSni_error {e : IErr}
    (h : clientHelloSni s.pkt.toList = .error e) :
    parseClientHelloExtractSni (clearSni s) = (clearSni s, .error e) := by
  simp only [parseClientHelloExtractSni, clearSni_pkt, h]

end Name

/-! ### The fields of a ClientHello -/

def cryptoLenOff (buf : List UInt8) : ℕ := 1 + (varintDecode buf 1).2

def helloOff (buf : List UInt8) : ℕ :=
  cryptoLenOff buf + (varintDecode buf (cryptoLenOff buf)).2

def sessionIdOff (buf : List UInt8) : ℕ := helloOff buf + 38

def cipherSuitesOff (buf : List UInt8) : ℕ :=
  sessionIdOff buf + 1 + (buf.getD (sessionIdOff buf) 0).toNat

def compressionOff (buf : List UInt8) : ℕ :=
  cipherSuitesOff buf + 2 + (BigEndian.u16 buf (cipherSuitesOff buf)).toNat

def extensionsOff (buf : List UInt8) : ℕ :=
  compressionOff buf + 1 + (buf.getD (compressionOff buf) 0).toNat

/-- The walk gets to the extensions. -/
structure Opened (buf : List UInt8) : Prop where
  frame : buf.getD 0 0 = 0x6
  hello : buf.getD (helloOff buf) 0 = 0x1
  fits : extensionsOff buf + 2 ≤ buf.length

section Walk

variable {buf : List UInt8}

theorem clientHelloSni_eq (buf : List UInt8) : clientHelloSni buf =
    if 0 + 1 > buf.length then .error .load
    else if buf.getD 0 0 ≠ 0x6 then .ok none
    else if 1 + 8 > buf.length then .error .load
    else if cryptoLenOff buf + 8 > buf.length then .error .load
    else if helloOff buf + 1 > buf.length then .error .load
    else if buf.getD (helloOff buf) 0 ≠ 0x1 then .error .sanity
    else if helloOff buf + 1 + 1 > buf.length then .error .load
    else if helloOff buf + 2 + 1 > buf.length then .error .load
    else if helloOff buf + 3 + 1 > buf.length then .error .load
    else if helloOff buf + 4 + 2 > buf.length then .error .load
    else if sessionIdOff buf + 1 > buf.length then .error .load
    else if cipherSuitesOff buf + 2 > buf.length then .error .load
    else if compressionOff buf + 1 > buf.length then .error .load
    else if extensionsOff buf + 2 > buf.length then .error .load
    else findServerName buf (extensionsOff buf + 2 +
      (BigEndian.u16 buf (extensionsOff buf)).toNat) 32 (extensionsOff buf + 2) := by
  simp only [clientHelloSni, getU8_bind, getU16_bind, getVarint_bind, require_bind, ite_not]
  rfl

theorem offsets_ascend (buf : List UInt8) : 2 ≤ cryptoLenOff buf ∧ cryptoLenOff buf ≤ 9 ∧
    cryptoLenOff buf < helloOff buf ∧ sessionIdOff buf = helloOff buf + 38 ∧
    sessionIdOff buf < cipherSuitesOff buf ∧ cipherSuitesOff buf + 1 < compressionOff buf ∧
    compressionOff buf < extensionsOff buf := by
  have hfirst := varintDecode_len buf 1
  have hsecond := varintDecode_len buf (cryptoLenOff buf)
  refine ⟨?_, ?_, ?_, rfl, ?_, ?_, ?_⟩
  · rw [cryptoLenOff]; omega
  · rw [cryptoLenOff]; omega
  · rw [helloOff]; omega
  · rw [cipherSuitesOff]; omega
  · rw [compressionOff]; omega
  · rw [extensionsOff]; omega

theorem clientHelloSni_opened (h : Opened buf) : clientHelloSni buf =
    findServerName buf (extensionsOff buf + 2 + (BigEndian.u16 buf (extensionsOff buf)).toNat) 32
      (extensionsOff buf + 2) := by
  have hoff := offsets_ascend buf
  have hfits := h.fits
  rw [clientHelloSni_eq, if_neg (by omega), if_neg (not_not.mpr h.frame), if_neg (by omega),
    if_neg (by omega), if_neg (by omega), if_neg (not_not.mpr h.hello), if_neg (by omega),
    if_neg (by omega), if_neg (by omega), if_neg (by omega), if_neg (by omega), if_neg (by omega),
    if_neg (by omega), if_neg (by omega)]

/-- A server name is found behind such an opening only. -/
theorem opened_of_found {found : ℕ × ℕ} (h : clientHelloSni buf = .ok (some found)) :
    Opened buf := by
  simp only [clientHelloSni_eq, error_else_eq_ok, none_else_eq_some, not_not] at h
  obtain ⟨-, hframe, -, -, -, hhello, -, -, -, -, -, -, -, hfits, -⟩ := h
  exact ⟨hframe, hhello, not_lt.mp hfits⟩

end Walk

/-! ### The opening of a ClientHello -/

section Opening

open QuicInitial (varint)
open TlsHello (Extension Opening)

variable {o : Opening} {rest : List UInt8}

theorem opening_split (o : Opening) (rest : List UInt8) : o.bytes ++ rest =
    o.frameHeader ++ o.helloHeader ++ UInt8.ofNat o.sessionId.length :: (o.sessionId ++
      (BigEndian.ofNat 2 o.cipherSuites.length ++ (o.cipherSuites ++
        UInt8.ofNat o.compression.length :: (o.compression ++
          (BigEndian.ofNat 2 o.extensionsLength ++ rest))))) := by
  simp [Opening.bytes]

theorem opening_frame : (o.bytes ++ rest).getD 0 0 = 0x6 := by
  rw [opening_split]
  rfl

theorem opening_cryptoLenOff (h : o.WellFormed) :
    varintDecode (o.bytes ++ rest) 1 = (o.offset, o.offsetSize.bytes) ∧
      cryptoLenOff (o.bytes ++ rest) = 1 + o.offsetSize.bytes := by
  have hsplit : ∃ tail, o.bytes ++ rest = [6] ++ (varint o.offsetSize o.offset ++ tail) := by
    rw [opening_split, Opening.frameHeader]
    simp only [List.cons_append, List.append_assoc, List.nil_append]
    exact ⟨_, rfl⟩
  obtain ⟨tail, hsplit⟩ := hsplit
  have hdec : varintDecode (o.bytes ++ rest) 1 = (o.offset, o.offsetSize.bytes) := by
    apply varintDecode_field _ _ h.offset
    rw [hsplit, field_at (by simp) (by simp)]
  exact ⟨hdec, by rw [cryptoLenOff, hdec]⟩

theorem opening_helloOff (h : o.WellFormed) :
    varintDecode (o.bytes ++ rest) (cryptoLenOff (o.bytes ++ rest)) =
        (o.length, o.lengthSize.bytes) ∧
      helloOff (o.bytes ++ rest) = o.frameHeader.length := by
  have hsplit : ∃ tail, o.bytes ++ rest =
      (6 :: varint o.offsetSize o.offset) ++ (varint o.lengthSize o.length ++ tail) := by
    rw [opening_split, Opening.frameHeader]
    simp only [List.cons_append, List.append_assoc]
    exact ⟨_, rfl⟩
  obtain ⟨tail, hsplit⟩ := hsplit
  have hdec : varintDecode (o.bytes ++ rest) (cryptoLenOff (o.bytes ++ rest)) =
      (o.length, o.lengthSize.bytes) := by
    apply varintDecode_field _ _ h.length
    rw [(opening_cryptoLenOff h).2, hsplit, field_at (by simp; omega) (by simp)]
  refine ⟨hdec, ?_⟩
  rw [helloOff, hdec, (opening_cryptoLenOff h).2, o.length_frameHeader]

theorem opening_hello (h : o.WellFormed) :
    (o.bytes ++ rest).getD (helloOff (o.bytes ++ rest)) 0 = 0x1 := by
  rw [(opening_helloOff h).2, opening_split, List.append_assoc, Opening.helloHeader]
  exact getD_at rfl

theorem opening_cipherSuitesOff (h : o.WellFormed) :
    cipherSuitesOff (o.bytes ++ rest) = o.frameHeader.length + 39 + o.sessionId.length := by
  have hlen := Opening.length_helloHeader h
  rw [cipherSuitesOff, sessionIdOff, (opening_helloOff h).2, opening_split,
    getD_at (by simp [hlen]), UInt8.toNat_ofNat', Nat.mod_eq_of_lt h.sessionId]

theorem opening_compressionOff (h : o.WellFormed) : compressionOff (o.bytes ++ rest) =
    o.frameHeader.length + 41 + o.sessionId.length + o.cipherSuites.length := by
  have hlen := Opening.length_helloHeader h
  have hsplit : ∃ tail, o.bytes ++ rest = (o.frameHeader ++ o.helloHeader ++
      UInt8.ofNat o.sessionId.length :: o.sessionId) ++
        (BigEndian.ofNat 2 o.cipherSuites.length ++ tail) := by
    rw [opening_split]
    simp only [List.cons_append, List.append_assoc]
    exact ⟨_, rfl⟩
  obtain ⟨tail, hsplit⟩ := hsplit
  rw [compressionOff, opening_cipherSuitesOff h, hsplit,
    u16_at (by simp [hlen]; omega) h.cipherSuites]
  omega

theorem opening_extensionsOff (h : o.WellFormed) :
    extensionsOff (o.bytes ++ rest) + 2 = o.bytes.length := by
  have hlen := Opening.length_helloHeader h
  have hsplit : ∃ tail, o.bytes ++ rest = (o.frameHeader ++ o.helloHeader ++
      UInt8.ofNat o.sessionId.length :: o.sessionId ++ BigEndian.ofNat 2 o.cipherSuites.length ++
        o.cipherSuites) ++ UInt8.ofNat o.compression.length :: tail := by
    rw [opening_split]
    simp only [List.cons_append, List.append_assoc]
    exact ⟨_, rfl⟩
  obtain ⟨tail, hsplit⟩ := hsplit
  rw [extensionsOff, opening_compressionOff h, hsplit, getD_at (by simp [hlen]; omega),
    UInt8.toNat_ofNat', Nat.mod_eq_of_lt h.compression, Opening.length_bytes h]
  omega

theorem opening_extensionsLen (h : o.WellFormed) :
    (BigEndian.u16 (o.bytes ++ rest) (extensionsOff (o.bytes ++ rest))).toNat =
      o.extensionsLength := by
  have hlen := Opening.length_helloHeader h
  have hoff : extensionsOff (o.bytes ++ rest) = o.frameHeader.length + 42 + o.sessionId.length +
      o.cipherSuites.length + o.compression.length := by
    have hend : extensionsOff (o.bytes ++ rest) + 2 = o.bytes.length := opening_extensionsOff h
    rw [Opening.length_bytes h] at hend
    omega
  have hsplit : o.bytes ++ rest = (o.frameHeader ++ o.helloHeader ++
      UInt8.ofNat o.sessionId.length :: o.sessionId ++ BigEndian.ofNat 2 o.cipherSuites.length ++
        o.cipherSuites ++ UInt8.ofNat o.compression.length :: o.compression) ++
          (BigEndian.ofNat 2 o.extensionsLength ++ rest) := by
    simp [Opening.bytes]
  rw [hoff, hsplit, u16_at (by simp [hlen]; omega) h.extensionsLength]

theorem opening_opened (h : o.WellFormed) : Opened (o.bytes ++ rest) := by
  refine ⟨opening_frame, opening_hello h, ?_⟩
  rw [opening_extensionsOff h, List.length_append]
  omega

/-- The walk comes to the first extension. -/
theorem clientHelloSni_opening (h : o.WellFormed) : clientHelloSni (o.bytes ++ rest) =
    findServerName (o.bytes ++ rest) o.extensionsEnd 32 o.bytes.length := by
  rw [clientHelloSni_opened (opening_opened h), opening_extensionsLen h, opening_extensionsOff h,
    Opening.extensionsEnd]

end Opening

/-! ### The extensions -/

section Extensions

open TlsHello (Extension)

variable {a rest : List UInt8} {last len n : ℕ}

theorem findServerName_succ (buf : List UInt8) (last n off : ℕ) :
    findServerName buf last (n + 1) off =
      if off ≥ last then .ok none
      else if off + 2 > buf.length then .error .load
      else if off + 2 + 2 > buf.length then .error .load
      else if BigEndian.u16 buf off = 0 then
        if off + 4 + SNI_SIZE > buf.length then .error .load
        else .ok (some (off + 4, (BigEndian.u16 buf (off + 2)).toNat))
      else findServerName buf last n (off + 4 + (BigEndian.u16 buf (off + 2)).toNat) := by
  simp only [findServerName, getU16_bind, require_bind, ite_not]
  rfl

theorem findServerName_end {buf : List UInt8} {off : ℕ} (h : last ≤ off) :
    findServerName buf last n off = .ok none := by
  cases n with
  | zero => rfl
  | succ n => rw [findServerName_succ, if_pos h]

theorem findServerName_found (hlast : a.length < last) (hlen : len < 256 ^ 2) :
    findServerName (a ++ (BigEndian.ofNat 2 0 ++ (BigEndian.ofNat 2 len ++ rest))) last (n + 1)
        a.length =
      if 150 ≤ rest.length then .ok (some (a.length + 4, len)) else .error .load := by
  have htype : BigEndian.u16 (a ++ (BigEndian.ofNat 2 0 ++ (BigEndian.ofNat 2 len ++ rest)))
      a.length = 0 := UInt16.toNat_inj.mp (u16_at rfl (by omega))
  have hbody : (BigEndian.u16 (a ++ (BigEndian.ofNat 2 0 ++ (BigEndian.ofNat 2 len ++ rest)))
      (a.length + 2)).toNat = len := by
    rw [← List.append_assoc]
    exact u16_at (by simp) hlen
  have hlength : (a ++ (BigEndian.ofNat 2 0 ++ (BigEndian.ofNat 2 len ++ rest))).length =
      a.length + (2 + (2 + rest.length)) := by
    simp only [List.length_append, BigEndian.length_ofNat]
  rw [findServerName_succ, if_neg (by omega), if_neg (by omega), if_neg (by omega),
    if_pos htype, hbody]
  by_cases hfit : 150 ≤ rest.length
  · rw [if_pos hfit, if_neg (by simp [SNI_SIZE]; omega)]
  · rw [if_neg hfit, if_pos (by simp [SNI_SIZE]; omega)]

theorem findServerName_skip {e : Extension} (hlast : a.length < last) (htype : e.type ≠ 0)
    (hlen : e.body.length < 256 ^ 2) :
    findServerName (a ++ (e.bytes ++ rest)) last (n + 1) a.length =
      findServerName (a ++ (e.bytes ++ rest)) last n (a.length + e.bytes.length) := by
  have hsplit : a ++ (e.bytes ++ rest) = a ++ (BigEndian.ofNat 2 e.type.toNat ++
      (BigEndian.ofNat 2 e.body.length ++ (e.body ++ rest))) := by
    simp [Extension.bytes]
  have htype' : BigEndian.u16 (a ++ (e.bytes ++ rest)) a.length = e.type := by
    rw [hsplit]
    exact UInt16.toNat_inj.mp (u16_at rfl e.type.toNat_lt)
  have hbody : (BigEndian.u16 (a ++ (e.bytes ++ rest)) (a.length + 2)).toNat = e.body.length := by
    rw [hsplit, ← List.append_assoc]
    exact u16_at (by simp) hlen
  have hsize := e.length_bytes
  rw [findServerName_succ, if_neg (by omega), if_neg (by simp; omega), if_neg (by simp; omega),
    htype', if_neg htype, hbody, hsize, Nat.add_assoc]

/-- Extensions of other types are passed by. -/
theorem findServerName_skip_list {es : List Extension}
    (hes : ∀ e ∈ es, e.type ≠ 0 ∧ e.body.length < 256 ^ 2)
    (hlast : a.length + (Extension.listBytes es).length ≤ last) :
    findServerName (a ++ (Extension.listBytes es ++ rest)) last (es.length + n) a.length =
      findServerName (a ++ (Extension.listBytes es ++ rest)) last n
        (a.length + (Extension.listBytes es).length) := by
  induction es generalizing a with
  | nil => simp [Extension.listBytes]
  | cons e es ih =>
    obtain ⟨he, hrest⟩ := List.forall_mem_cons.mp hes
    have hsize := e.length_bytes
    rw [Extension.listBytes_cons, List.length_append] at hlast
    have hnext := ih (a := a ++ e.bytes) hrest (by simp; omega)
    rw [List.length_append, List.append_assoc] at hnext
    rw [Extension.listBytes_cons, List.append_assoc, List.length_cons, Nat.add_right_comm,
      findServerName_skip (by omega) he.1 he.2, hnext, List.length_append, Nat.add_assoc]

theorem findServerName_absent {es : List Extension} (hn : es.length ≤ n)
    (hes : ∀ e ∈ es, e.type ≠ 0 ∧ e.body.length < 256 ^ 2) :
    findServerName (a ++ (Extension.listBytes es ++ rest))
      (a.length + (Extension.listBytes es).length) n a.length = .ok none := by
  obtain ⟨k, rfl⟩ := Nat.exists_eq_add_of_le hn
  rw [findServerName_skip_list hes le_rfl]
  exact findServerName_end le_rfl

theorem findServerName_present {es : List Extension} (hn : es.length < n)
    (hes : ∀ e ∈ es, e.type ≠ 0 ∧ e.body.length < 256 ^ 2) (hlen : len < 256 ^ 2)
    (hlast : a.length + (Extension.listBytes es).length < last) :
    findServerName (a ++ (Extension.listBytes es ++
        (BigEndian.ofNat 2 0 ++ (BigEndian.ofNat 2 len ++ rest)))) last n a.length =
      if 150 ≤ rest.length then
        .ok (some (a.length + (Extension.listBytes es).length + 4, len))
      else .error .load := by
  obtain ⟨k, rfl⟩ := Nat.exists_eq_add_of_lt hn
  have hfound : findServerName ((a ++ Extension.listBytes es) ++
      (BigEndian.ofNat 2 0 ++ (BigEndian.ofNat 2 len ++ rest))) last (k + 1)
        (a ++ Extension.listBytes es).length = _ :=
    findServerName_found (by simpa using hlast) hlen
  rw [List.length_append, List.append_assoc] at hfound
  rw [Nat.add_assoc, findServerName_skip_list hes hlast.le, hfound]

end Extensions

end Udpgrm
