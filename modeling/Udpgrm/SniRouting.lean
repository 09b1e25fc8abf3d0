import Udpgrm.Bespoke
import Udpgrm.SniExtraction

/-!
Which application a host name leads to. The names are compared as strings of 61 bytes that are
filled up with zeros, so that longer names are told apart by their first 61 bytes only.
-/
namespace Udpgrm

open ByteMemory
open LittleEndian (field)
open TlsHello (Extension hostName length_hostName)

/-! ### Strings filled up with zeros -/

/-- The first `k` bytes of a string, or all of it and zeros. -/
def zeroPadded (k : ℕ) (bs : List UInt8) : List UInt8 :=
  bs.take k ++ List.replicate (k - bs.length) 0

section Padded

variable {a b : List UInt8} {k : ℕ}

theorem length_zeroPadded (k : ℕ) (a : List UInt8) : (zeroPadded k a).length = k := by
  simp [zeroPadded]
  omega

theorem takeWhile_zeroPadded (ha : 0 ∉ a) : (zeroPadded k a).takeWhile (· ≠ 0) = a.take k := by
  have hne : ∀ x ∈ a.take k, decide (x ≠ 0) = true := by
    intro x hx
    apply decide_eq_true
    rintro rfl
    exact ha (List.mem_of_mem_take hx)
  rw [zeroPadded, List.takeWhile_append_of_pos hne, List.takeWhile_replicate, if_neg (by simp),
    List.append_nil]

/-- Where no zero is inside of the strings, only their first `k` bytes count. -/
theorem zeroPadded_eq_iff (ha : 0 ∉ a) (hb : 0 ∉ b) :
    zeroPadded k a = zeroPadded k b ↔ a.take k = b.take k := by
  constructor
  · intro h
    rw [← takeWhile_zeroPadded ha, h, takeWhile_zeroPadded hb]
  · intro h
    have hlen := congrArg List.length h
    rw [List.length_take, List.length_take] at hlen
    rw [zeroPadded, zeroPadded, h]
    congr 2
    omega

theorem take_zeroPadded {n : ℕ} (h : k ≤ n) : (zeroPadded n a).take k = zeroPadded k a := by
  rw [zeroPadded, zeroPadded, List.take_append, List.take_take, List.take_replicate,
    List.length_take, Nat.min_eq_left h]
  congr 2
  omega

end Padded

/-! ### The configured names -/

abbrev SniEntry := UInt8 × List UInt8

/-- The names and applications of `bespoke_sni`. -/
structure Configured (dis : Dissector) (entries : List SniEntry) : Prop where
  count : entries.length ≤ MAX_BESPOKE_SNI
  length : dis.filterLen.toNat = entries.length
  names : ∀ e ∈ entries, e.2.length ≤ BESPOKE_SNI_LEN ∧ 0 ∉ e.2
  stored : ∀ i e, entries[i]? = some e → bespokeApp dis i = e.1 ∧
    bespokeHostname dis i = zeroPadded BESPOKE_SNI_LEN e.2

/-- The application of an entry, or application 0 where there is none. -/
def appRetval (found : Option SniEntry) : UInt32 :=
  0x80000000 ||| found.elim 0 fun e => e.1.toUInt32

theorem appRetval_none : appRetval none = 0x80000000 := by decide

theorem appRetval_some (e : SniEntry) : appRetval (some e) = 0x80000000 ||| e.1.toUInt32 := by
  rw [appRetval, Option.elim_some]

/-- Where a host name is to lead: to the first entry with this name. -/
def sniRoute (entries : List SniEntry) (h : List UInt8) : UInt32 :=
  appRetval (entries.find? (·.2 = h))

/-- What two names are told apart by. -/
def SameStart (a b : List UInt8) : Prop :=
  a.take (BESPOKE_SNI_LEN - 1) = b.take (BESPOKE_SNI_LEN - 1)

instance (a b : List UInt8) : Decidable (SameStart a b) :=
  inferInstanceAs (Decidable (_ = _))

section Match

variable {dis : Dissector} {entries : List SniEntry} {h : List UInt8}

/-- The loop finds the first entry from `i` on that starts like the name. -/
theorem matchSni_from (hc : Configured dis entries) (hz : 0 ∉ h) {n i : ℕ}
    (hn : entries.length ≤ n + i) :
    matchSni dis (zeroPadded (BESPOKE_SNI_LEN - 1) h) n i =
      appRetval ((entries.drop i).find? (fun e => SameStart e.2 h)) := by
  induction n generalizing i with
  | zero =>
    rw [List.drop_eq_nil_of_le (by omega), List.find?_nil, appRetval_none, matchSni]
  | succ n ih =>
    rw [matchSni, hc.length]
    by_cases hi : entries.length ≤ i
    · rw [if_pos hi, List.drop_eq_nil_of_le hi, List.find?_nil, appRetval_none]
    · have hi : i < entries.length := not_le.mp hi
      obtain ⟨happ, hname⟩ := hc.stored i _ (List.getElem?_eq_getElem hi)
      have hsame : zeroPadded (BESPOKE_SNI_LEN - 1) h =
          (bespokeHostname dis i).take (BESPOKE_SNI_LEN - 1) ↔ SameStart entries[i].2 h := by
        rw [hname, take_zeroPadded (by decide),
          zeroPadded_eq_iff hz (hc.names _ (List.getElem_mem hi)).2, SameStart, eq_comm]
      rw [if_neg (not_le.mpr hi), List.drop_eq_getElem_cons hi, ih (by omega), happ]
      by_cases hmatch : SameStart entries[i].2 h
      · rw [if_pos (hsame.mpr hmatch), List.find?_cons_of_pos (by simpa using hmatch)]
        rfl
      · rw [if_neg (hsame.not.mpr hmatch), List.find?_cons_of_neg (by simpa using hmatch)]

theorem matchSni_eq (hc : Configured dis entries) (hz : 0 ∉ h) :
    matchSni dis (zeroPadded (BESPOKE_SNI_LEN - 1) h) MAX_BESPOKE_SNI 0 =
      appRetval (entries.find? (fun e => SameStart e.2 h)) :=
  matchSni_from hc hz hc.count

end Match

/-! ### Extracted names -/

/-- The slow path extracted the extension that names the host `h`. As much of the extension as the
buffer holds is in it. -/
structure Extracted (md : Md) (linear : ℕ) (scratch : Scratch) (fast : QuicFast)
    (h : List UInt8) : Prop where
  parsed : parseQuicFast md linear = .ok fast
  initial : fast.isInitPacket = true
  extracted : ∃ name, (quicSni md linear fast scratch).2 = .ok (some name)
  carried : ∃ off, clientHelloSni (quicSni md linear fast scratch).1.pkt.toList =
      .ok (some (off, (hostName h).length)) ∧
    field (quicSni md linear fast scratch).1.pkt.toList off (hostName h).length =
      (hostName h).take (1024 - off)

section Names

variable {md : Md} {linear off : ℕ} {scratch : Scratch} {fast : QuicFast} {h buf : List UInt8}

/-- What is compared of a host name. -/
theorem nameIn_hostName (hwalk : clientHelloSni buf = .ok (some (off, (hostName h).length)))
    (hbuf : buf.length = 1024)
    (hname : field buf off (hostName h).length = (hostName h).take (1024 - off)) :
    nameIn buf = some (zeroPadded (BESPOKE_SNI_LEN - 1) h) := by
  obtain ⟨o, before, hread, hk⟩ := found_iff_reading.mp hwalk
  have hroom := hread.room
  have hlen := length_hostName h
  have hfield : field buf off (min (hostName h).length SNI_SIZE) =
      (hostName h).take SNI_SIZE := by
    calc field buf off (min (hostName h).length SNI_SIZE)
      _ = (field buf off (hostName h).length).take SNI_SIZE := by
        rw [field, field, List.take_take, Nat.min_comm]
      _ = (hostName h).take SNI_SIZE := by
        rw [hname, List.take_take, Nat.min_eq_left (by omega)]
  have hlengths : (BigEndian.ofNat 2 (h.length + 3) ++ 0 :: BigEndian.ofNat 2 h.length).length =
      5 := by
    simp
  have hbody : (hostName h).take SNI_SIZE ++ List.replicate (SNI_SIZE - (hostName h).length) 0 =
      (BigEndian.ofNat 2 (h.length + 3) ++ 0 :: BigEndian.ofNat 2 h.length) ++
        zeroPadded (SNI_SIZE - 5) h := by
    rw [hlen, zeroPadded, hostName, List.take_append,
      List.take_of_length_le (by rw [hlengths]; decide), hlengths, List.append_assoc,
      Nat.sub_add_eq]
  simp only [nameIn, hwalk, hfield, hbody]
  rw [if_pos (by omega), field, List.drop_left' hlengths, take_zeroPadded (by decide)]

/-- The name is looked up by its first 61 bytes. -/
theorem Extracted.run {entries : List SniEntry} {dis : Dissector}
    (hx : Extracted md linear scratch fast h) (hz : 0 ∉ h) (hc : Configured dis entries) :
    (run0xDEAD md linear dis scratch).2 =
      .ok (appRetval (entries.find? (fun e => SameStart e.2 h))) := by
  obtain ⟨name, hextracted⟩ := hx.extracted
  obtain ⟨off, hwalk, hname⟩ := hx.carried
  obtain ⟨hresult, hpage⟩ := quicSni_agrees hx.parsed hx.initial scratch
  have hcompared : (quicSni md linear fast scratch).2 =
      .ok (some (zeroPadded (BESPOKE_SNI_LEN - 1) h)) := by
    rw [hresult]
    cases hpayload : initialPayload md linear fast.connectionId with
    | error e =>
      rw [hresult, hpayload] at hextracted
      cases hextracted
    | ok payload =>
      cases payload with
      | none =>
        rw [hresult, hpayload] at hextracted
        cases hextracted
      | some text =>
        rw [Except.map, Option.bind_some, ← hpage text hpayload,
          nameIn_hostName hwalk (by simp) hname]
  rw [run0xDEAD_sni hx.parsed hx.initial, hcompared, Except.map, sniRetval, Option.elim_some,
    matchSni_eq hc hz]

end Names

/-! ### Which names are told apart -/

def sniEntryBytes (e : SniEntry) : List UInt8 := e.1 :: 0 :: zeroPadded BESPOKE_SNI_LEN e.2

/-- The dissector with these entries. -/
def sniDissector (entries : List SniEntry) : Dissector :=
  { Dissector.empty with
    dissectorType := 3
    bespokeDigest := 0xDEAD
    filterLen := UInt32.ofNat entries.length
    filter := Vector.ofFn fun i =>
      ((entries[i.val / 64]?).elim [] sniEntryBytes).getD (i.val % 64) 0 }

section Exact

variable {entries : List SniEntry} {names : List (List UInt8)} {md : Md} {linear : ℕ}
  {scratch : Scratch} {fast : QuicFast} {h : List UInt8}

theorem getD_sniDissector {e : SniEntry} {i j : ℕ} (hcount : entries.length ≤ MAX_BESPOKE_SNI)
    (he : entries[i]? = some e) (hj : j < 64) :
    (sniDissector entries).filter.toList.getD (64 * i + j) 0 = (sniEntryBytes e).getD j 0 := by
  obtain ⟨hi, -⟩ := List.getElem?_eq_some_iff.mp he
  have hlt : 64 * i + j < 512 := by
    simp [MAX_BESPOKE_SNI] at hcount
    omega
  have hdiv : (64 * i + j) / 64 = i := by omega
  have hmod : (64 * i + j) % 64 = j := by omega
  rw [← byte, byte_of_lt hlt, sniDissector, Vector.getElem_ofFn]
  simp only [hdiv, hmod, he, Option.elim_some]

theorem filterLen_sniDissector (hcount : entries.length ≤ MAX_BESPOKE_SNI) :
    (sniDissector entries).filterLen.toNat = entries.length := by
  have hlt : entries.length < 2 ^ 32 := hcount.trans_lt (by decide)
  rw [sniDissector, UInt32.toNat_ofNat', Nat.mod_eq_of_lt hlt]

theorem stored_sniDissector {e : SniEntry} {i : ℕ} (hcount : entries.length ≤ MAX_BESPOKE_SNI)
    (he : entries[i]? = some e) :
    bespokeApp (sniDissector entries) i = e.1 ∧
      bespokeHostname (sniDissector entries) i = zeroPadded BESPOKE_SNI_LEN e.2 := by
  have hbyte : ∀ j < 64, _ := fun j hj => getD_sniDissector (j := j) hcount he hj
  refine ⟨hbyte 0 (by decide), ?_⟩
  obtain ⟨hi, -⟩ := List.getElem?_eq_some_iff.mp he
  apply LittleEndian.field_eq (length_zeroPadded _ _)
  · simp [MAX_BESPOKE_SNI, BESPOKE_SNI_LEN] at hcount ⊢
    omega
  · intro j hj
    rw [Nat.add_assoc, Nat.add_comm 2 j, hbyte (j + 2) (by simp [BESPOKE_SNI_LEN] at hj; omega),
      sniEntryBytes, List.getD_cons_succ, List.getD_cons_succ]

theorem configured_sniDissector (hcount : entries.length ≤ MAX_BESPOKE_SNI)
    (hnames : ∀ e ∈ entries, e.2.length ≤ BESPOKE_SNI_LEN ∧ 0 ∉ e.2) :
    Configured (sniDissector entries) entries where
  count := hcount
  length := filterLen_sniDissector hcount
  names := hnames
  stored := fun _ _ he => stored_sniDissector hcount he

/-- No other name is found first where the first one that starts like `h` is `h`. -/
theorem find_sameStart
    (hfirst : ∀ e, entries.find? (fun e => SameStart e.2 h) = some e → e.2 = h) :
    entries.find? (fun e => SameStart e.2 h) = entries.find? (·.2 = h) := by
  have hsame : ∀ e : SniEntry, e.2 = h → SameStart e.2 h := by
    rintro e rfl
    exact rfl
  cases hfind : entries.find? (fun e => SameStart e.2 h) with
  | none =>
    symm
    rw [List.find?_eq_none] at hfind ⊢
    intro e he heq
    exact hfind e he (decide_eq_true (hsame e (of_decide_eq_true heq)))
  | some e =>
    have heq := hfirst e hfind
    obtain ⟨-, before, after, hsplit, hbefore⟩ := List.find?_eq_some_iff_append.mp hfind
    symm
    refine List.find?_eq_some_iff_append.mpr ⟨decide_eq_true heq, before, after, hsplit, ?_⟩
    intro e' he'
    have hnot := hbefore e' he'
    simp only [Bool.not_eq_true', decide_eq_false_iff_not] at hnot ⊢
    exact fun h' => hnot (hsame e' h')

/-- The entry for `x` where `n` alone is a name of application 1. -/
def markedEntry (n x : List UInt8) : SniEntry := (if x = n then 1 else 0, x)

theorem marked_retval {n : List UInt8} (hfind : names.find? (SameStart · h) = some n)
    (hne : n ≠ h) :
    appRetval ((names.map (markedEntry n)).find? (fun e => SameStart e.2 h)) = 0x80000001 ∧
      sniRoute (names.map (markedEntry n)) h = 0x80000000 := by
  constructor
  · have hmarked : (names.map (markedEntry n)).find? (fun e => SameStart e.2 h) =
        some (markedEntry n n) := by
      rw [List.find?_map]
      exact congrArg (Option.map _) hfind
    rw [hmarked, appRetval_some]
    simp only [markedEntry, if_true]
    decide
  · rw [sniRoute, List.find?_map]
    cases hexact : names.find? ((fun e : SniEntry => decide (e.2 = h)) ∘ markedEntry n) with
    | none => exact appRetval_none
    | some x =>
      have hsome := List.find?_some hexact
      have hx : x = h := of_decide_eq_true hsome
      have hother : x ≠ n := by
        rw [hx]
        exact hne.symm
      rw [Option.map_some, appRetval_some]
      simp only [markedEntry, if_neg hother]
      decide

/-- A host name leads to the right entry, whatever applications the names are for, exactly if the
first name that starts like it is the name itself. -/
theorem sni_routed_iff (hx : Extracted md linear scratch fast h) (hz : 0 ∉ h)
    (hcount : names.length ≤ MAX_BESPOKE_SNI)
    (hnames : ∀ n ∈ names, n.length ≤ BESPOKE_SNI_LEN ∧ 0 ∉ n) :
    (∀ dis entries, entries.map (·.2) = names → Configured dis entries →
      (run0xDEAD md linear dis scratch).2 = .ok (sniRoute entries h)) ↔
    ∀ n, names.find? (SameStart · h) = some n → n = h := by
  constructor
  · intro hall n hfind
    by_contra hne
    have hentries : ∀ e ∈ names.map (markedEntry n), e.2.length ≤ BESPOKE_SNI_LEN ∧ 0 ∉ e.2 := by
      intro e he
      obtain ⟨x, hx, rfl⟩ := List.mem_map.mp he
      exact hnames x hx
    have hc := configured_sniDissector (by rwa [List.length_map]) hentries
    have hright := hall _ _ (by simp [markedEntry, Function.comp_def]) hc
    obtain ⟨hfound, hroute⟩ := marked_retval hfind hne
    rw [hx.run hz hc, hfound, hroute] at hright
    exact absurd (Except.ok.inj hright) (by decide)
  · intro hfirst dis entries hmap hc
    rw [hx.run hz hc, sniRoute, find_sameStart]
    intro e hfind
    apply hfirst
    rw [← hmap, List.find?_map]
    exact congrArg (Option.map _) hfind

end Exact

/-! ### A packet that names a host -/

def namedHello (h : List UInt8) : TlsHello.Hello :=
  ⟨0x0303, List.replicate 32 0, [], [0x13, 0x01], [0], [⟨0, hostName h⟩]⟩

def namedFrame (h : List UInt8) : List UInt8 :=
  (namedHello h).frame .one .two ((namedHello h).length + 4)

/-- The ClientHello and padding. -/
def namedPayload (h : List UInt8) : List UInt8 :=
  namedFrame h ++ List.replicate (1105 - h.length) 0

section Named

variable {h : List UInt8}

theorem namedHello_extensions (h : List UInt8) :
    (Extension.listBytes (namedHello h).extensions).length = 9 + h.length := by
  simp [namedHello, Extension.listBytes, Extension.bytes, length_hostName]
  omega

theorem namedHello_wellFormed (hh : h.length ≤ 255) : (namedHello h).WellFormed := by
  refine ⟨rfl, by simp [namedHello], by simp [namedHello], by simp [namedHello], ?_, ?_⟩
  · simp [namedHello, length_hostName]
    omega
  · rw [namedHello_extensions]
    omega

theorem namedHello_length (hh : h.length ≤ 255) :
    (namedHello h).length + 4 < QuicInitial.VarintSize.two.limit := by
  rw [TlsHello.Hello.length, namedHello_extensions]
  simp [namedHello, QuicInitial.VarintSize.limit, QuicInitial.VarintSize.bytes]
  omega

theorem namedHello_opening (hh : h.length ≤ 255) :
    ((namedHello h).opening .one .two ((namedHello h).length + 4)).bytes.length = 51 := by
  rw [TlsHello.Opening.length_bytes
    ((namedHello_wellFormed hh).opening (namedHello_length hh)),
    TlsHello.Opening.length_frameHeader]
  rfl

theorem length_namedFrame (hh : h.length ≤ 255) : (namedFrame h).length = 60 + h.length := by
  rw [namedFrame, TlsHello.Hello.frame, List.length_append, namedHello_opening hh,
    namedHello_extensions]
  omega

theorem length_namedPayload (hh : h.length ≤ 255) : (namedPayload h).length = 1165 := by
  rw [namedPayload, List.length_append, length_namedFrame hh, List.length_replicate]
  omega

theorem take_namedPayload (hh : h.length ≤ 255) :
    (namedPayload h).take 1024 = namedFrame h ++ List.replicate (964 - h.length) 0 := by
  rw [namedPayload, List.take_append, List.take_of_length_le (by rw [length_namedFrame hh]; omega),
    length_namedFrame hh, List.take_replicate]
  congr 2
  omega

theorem namedPayload_carries (hh : h.length ≤ 255) :
    clientHelloSni ((namedPayload h).take 1024) = .ok (some (55, (hostName h).length)) ∧
      field ((namedPayload h).take 1024) 55 (hostName h).length =
        (hostName h).take (1024 - 55) := by
  have hes : (namedHello h).extensions = [] ++ ⟨0, hostName h⟩ :: [] := rfl
  have hoff : nameOff ((namedHello h).opening .one .two ((namedHello h).length + 4))
      (namedHello h).extensions = 55 := by
    rw [nameOff_eq _ hes (by simp), namedHello_opening hh]
    rfl
  have hlen : (namedFrame h ++ List.replicate (964 - h.length) (0 : UInt8)).length = 1024 := by
    rw [List.length_append, length_namedFrame hh, List.length_replicate]
    omega
  have hwalk : clientHelloSni (namedFrame h ++ List.replicate (964 - h.length) 0) = _ :=
    clientHelloSni_present (namedHello_wellFormed hh) (by simp [namedHello])
      (namedHello_length hh) hes (by simp)
  have hfield :
      field (namedFrame h ++ List.replicate (964 - h.length) 0) _ (hostName h).length = _ :=
    field_name hes (by simp) le_rfl
  rw [hoff] at hwalk hfield
  rw [take_namedPayload hh]
  refine ⟨?_, ?_⟩
  · rw [hwalk, if_pos]
    rw [← namedFrame, hlen]
    decide
  · rw [hfield, List.take_of_length_le le_rfl, List.take_of_length_le]
    rw [length_hostName]
    omega

/-- The fast parser's result for connection IDs of eight zeros. -/
def plainFast : QuicFast := ⟨Vector.replicate 20 0, 8, true⟩

theorem plainMd_fast {n : ℕ} {payload : List UInt8} (hn : n < 2 ^ 62)
    (hp : payload.length = 1165) : parseQuicFast (plainMd n payload) 1208 = .ok plainFast := by
  have hlength := plainMd_length hn hp
  have hwell := plainPacket_wellFormed hn hp
  have hdata : (plainMd n payload).data = headed (List.replicate 8 0)
      (plainPacket n payload).protectedFirst (plainPacket n payload)
        ((plainPacket n payload).protectedNumber ++ ((plainPacket n payload).sealed ++ [])) :=
    (plainMd_data n payload).trans (datagram_eq _ _ _)
  have hdcid : 8 ≤ (plainPacket n payload).dcid.length := (by decide : 8 ≤ 8)
  obtain ⟨⟨dcid, dcidLen, init⟩, hfast, hinit, hdcidLen, hbytes⟩ :=
    parseQuicFast_headed (by simp) (protectedFirst_initial hwell) hdcid hwell.dcid hdata
      hlength.symm hlength.ge (by omega)
  have hzero : dcid = Vector.replicate 20 0 := by
    apply Vector.toList_inj.mp
    rw [Vector.toList_replicate]
    exact hbytes
  obtain rfl : dcidLen = 8 := hdcidLen
  obtain rfl : init = true := hinit
  rw [hfast, hzero, plainFast]

/-- The whole buffer is filled with the payload. -/
theorem plainMd_sni {payload : List UInt8} (hp : payload.length = 1165) (s : Scratch) :
    (quicSni (plainMd 0 payload) 1208 plainFast s).2 = .ok (nameIn (payload.take 1024)) ∧
      (quicSni (plainMd 0 payload) 1208 plainFast s).1.pkt.toList = payload.take 1024 := by
  have hlength := plainMd_length (n := 0) (by decide) hp
  have hwell := plainPacket_wellFormed (n := 0) (by decide) hp
  have hbytes : headerBytes (plainMd 0 payload) 1208 =
      .ok (datagram (List.replicate 8 0) (plainPacket 0 payload) []) := by
    have hdirect : ¬ 1208 < min (plainMd 0 payload).len.toNat MIN_QUIC_HDR_LINEAR :=
      (by decide : ¬ 1208 < min 1208 192)
    rw [headerBytes, if_neg hdirect, List.take_of_length_le hlength.le, plainMd_data]
  have hfits : HeaderFits (datagram (List.replicate 8 0) (plainPacket 0 payload) []) := by
    apply datagram_fits (by simp) hwell (by decide : 8 ≤ 8) (Nat.zero_le _)
    rw [plainPacket_length 0 hp]
    decide
  have hpayload : initialPayload (plainMd 0 payload) 1208 (plainPacket 0 payload).dcid =
      .ok (some (payload.take 1024)) :=
    initialPayload_datagram (by simp) hwell (by decide : 0 < 256 ^ 1)
      (show 2 ≤ payload.length by omega) hbytes hfits (plainMd_data 0 payload)
  have hover : ∀ old, overlaid (payload.take 1024) old = payload.take 1024 := by
    intro old
    rw [overlaid, List.take_append_of_le_length (by simp; omega), List.take_take, Nat.min_self]
  have hfast := plainMd_fast (n := 0) (by decide) hp
  obtain ⟨hresult, hpage⟩ := quicSni_agrees hfast rfl s
  have hid : plainFast.connectionId = (plainPacket 0 payload).dcid := by
    simp [QuicFast.connectionId, plainFast, plainPacket]
  rw [hid] at hresult hpage
  rw [hresult, hpage _ hpayload, hpayload, hover, Except.map, Option.bind_some, hover]
  exact ⟨rfl, rfl⟩

theorem named_extracted (hh : h.length ≤ 255) (s : Scratch) :
    Extracted (plainMd 0 (namedPayload h)) 1208 s plainFast h := by
  have hp := length_namedPayload hh
  obtain ⟨hwalk, hname⟩ := namedPayload_carries hh
  obtain ⟨hresult, hpage⟩ := plainMd_sni hp s
  have hlen : ((namedPayload h).take 1024).length = 1024 := by
    rw [List.length_take, hp]
    rfl
  rw [nameIn_hostName hwalk hlen hname] at hresult
  refine ⟨plainMd_fast (by decide) hp, rfl, ⟨_, hresult⟩, 55, ?_⟩
  rw [hpage]
  exact ⟨hwalk, hname⟩

end Named

/-- A name of `n` letters. -/
def longName (n : ℕ) : List UInt8 := List.replicate n 0x61

theorem longName_zero_free (n : ℕ) : 0 ∉ longName n := by
  rw [longName, List.mem_replicate]
  rintro ⟨-, hzero⟩
  exact absurd hzero (by decide)

theorem sni_routed_long :
    Extracted (plainMd 0 (namedPayload (longName 61))) 1208 zeroPage plainFast (longName 61) ∧
      ∀ dis entries, entries.map (·.2) = [longName 60, longName 61] → Configured dis entries →
        (run0xDEAD (plainMd 0 (namedPayload (longName 61))) 1208 dis zeroPage).2 =
          .ok (sniRoute entries (longName 61)) := by
  have hx := named_extracted (h := longName 61) (by decide) zeroPage
  refine ⟨hx, (sni_routed_iff hx (longName_zero_free 61) (by decide) ?_).mpr ?_⟩
  · rintro n hn
    obtain rfl | rfl : n = longName 60 ∨ n = longName 61 := by simpa using hn
    · exact ⟨by decide, longName_zero_free 60⟩
    · exact ⟨by decide, longName_zero_free 61⟩
  · intro n hfind
    have hfirst : [longName 60, longName 61].find? (SameStart · (longName 61)) =
        some (longName 61) := by decide
    exact (Option.some.inj (hfirst.symm.trans hfind)).symm

/-- A host with a name of 62 letters is taken for the configured one of 61 letters. -/
theorem sni_taken_for_shorter :
    Configured (sniDissector [(1, longName 61)]) [(1, longName 61)] ∧
      Extracted (plainMd 0 (namedPayload (longName 62))) 1208 zeroPage plainFast (longName 62) ∧
      (run0xDEAD (plainMd 0 (namedPayload (longName 62))) 1208 (sniDissector [(1, longName 61)])
        zeroPage).2 = .ok 0x80000001 ∧
      sniRoute [(1, longName 61)] (longName 62) = 0x80000000 := by
  have hc : Configured (sniDissector [(1, longName 61)]) [(1, longName 61)] := by
    apply configured_sniDissector (by decide)
    intro e he
    obtain rfl := List.mem_singleton.mp he
    exact ⟨(by decide : 61 ≤ 62), longName_zero_free 61⟩
  have hx := named_extracted (h := longName 62) (by decide) zeroPage
  refine ⟨hc, hx, ?_, by decide⟩
  rw [hx.run (longName_zero_free 62) hc]
  decide

end Udpgrm
