import Udpgrm.Bespoke

/-!
Connection IDs that were made for a socket: a one, and the cookie of the socket. The packets of a
connection reach the cookie only behind the tests of both parsers.
-/
namespace Udpgrm

open LittleEndian (field)

/-! ### Packets of a connection -/

/-- The connection ID at `off` starts with a one and the cookie. -/
structure MintedAt (data : List UInt8) (off : ℕ) (cookie : UInt16) : Prop where
  tag : data.getD off 0 = 1
  value : BigEndian.u16 data (off + 1) = cookie
  nonzero : cookie ≠ 0

/-- A packet behind the UDP header with a minted connection ID of `n` bytes: with a short header it
is as long as such packets are at least, and with a long one all of the connection ID is there. -/
structure MintedPacket (data : List UInt8) (n : ℕ) (cookie : UInt16) : Prop where
  length : 8 ≤ n ∧ n ≤ 20
  short : data.getD 8 0 >>> 7 = 0 → MintedAt data 9 cookie ∧ 8 + 21 + n ≤ data.length
  long : data.getD 8 0 >>> 7 ≠ 0 → MintedAt data 14 cookie ∧ dcidLenAt data = n ∧
    8 + 6 + n ≤ data.length

/-- No server name was extracted. -/
def NoSni (md : Md) (linear : ℕ) (scratch : Scratch) : Prop :=
  ∀ fast name, parseQuicFast md linear = .ok fast → fast.isInitPacket = true →
    (quicSni md linear fast scratch).2 ≠ .ok (some name)

section Minted

variable {md : Md} {linear n : ℕ} {scratch : Scratch} {cookie : UInt16} {fast : QuicFast}
  {dis : Dissector}

/-- The first three bytes decide. -/
theorem dcidRetval_minted {dcid : Dcid} {data : List UInt8} {off : ℕ}
    (hm : MintedAt data off cookie) (hfit : off + 3 ≤ data.length)
    (hbytes : ∀ i < 3, dcid.toList.getD i 0 = data.getD (off + i) 0) :
    dcidRetval dcid = cookie.toUInt32 := by
  have hcookie : BigEndian.u16 dcid.toList 1 = cookie := by
    have hfield : field dcid.toList 1 2 = field data (off + 1) 2 := by
      apply LittleEndian.field_eq (LittleEndian.length_field (by omega)) (by simp)
      intro i hi
      rw [hbytes (1 + i) (by omega), ← Nat.add_assoc, List.getD_eq_getElem?_getD,
        List.getD_eq_getElem?_getD, field, List.getElem?_take_of_lt hi, List.getElem?_drop]
    rw [← hm.value, BigEndian.u16, BigEndian.u16, hfield]
  have htag : dcid.toList.getD 0 0 = 1 := (hbytes 0 (by decide)).trans hm.tag
  simp only [dcidRetval, htag, if_true, hcookie, if_neg hm.nonzero]

/-- The fast parser finds the cookie in every packet of 32 bytes. -/
theorem parseQuicFast_minted (hm : MintedPacket md.data n cookie)
    (hlen : md.len.toNat = md.data.length) (hlin : linear ≤ md.data.length)
    (h40 : 40 ≤ md.data.length) :
    ∃ fast, parseQuicFast md linear = .ok fast ∧ dcidRetval fast.dcid = cookie.toUInt32 ∧
      fast.isInitPacket = decide (md.data.getD 8 0 >>> 4 = 0xC) := by
  have hget : ∀ j, (md.data.drop 8).getD j 0 = md.data.getD (8 + j) 0 := by
    intro j
    simp [List.getD_eq_getElem?_getD]
  have hparse : parseQuicFast md linear = quicFastFields (md.data.drop 8) := by
    rw [parseQuicFast_eq hlin, if_neg (by simp [MIN_QUIC_LEN]; omega),
      if_neg (by simp [MIN_QUIC_LEN]; omega)]
  have hdcid : ∀ f : Fin 20 → UInt8, ∀ i (hi : i < 3),
      (Vector.ofFn f).toList.getD i 0 = f ⟨i, by omega⟩ := by
    intro f i hi
    rw [List.getD_eq_getElem _ _ (by simp; omega), Vector.getElem_toList, Vector.getElem_ofFn]
  rw [hparse]
  simp only [quicFastFields, hget, Nat.add_zero]
  by_cases hlong : md.data.getD 8 0 >>> 7 ≠ 0
  · obtain ⟨hat, hn, -⟩ := hm.long hlong
    have hrange := hm.length
    have hlength : (md.data.getD 13 0).toNat = n := hn
    rw [if_pos hlong]
    simp only [hlength]
    rw [if_neg (by omega)]
    refine ⟨_, rfl, dcidRetval_minted hat (by omega) ?_, rfl⟩
    intro i hi
    rw [hdcid _ i hi]
    simp only
    rw [if_pos (by omega), ← Nat.add_assoc]
  · obtain ⟨hat, -⟩ := hm.short (not_not.mp hlong)
    rw [if_neg hlong]
    refine ⟨_, rfl, dcidRetval_minted hat (by omega) ?_, rfl⟩
    intro i hi
    rw [hdcid _ i hi, ← Nat.add_assoc]

/-- A packet without a server name is sent by its cookie exactly if it has 32 bytes and, as an
Initial packet, a header of version 1 with a short token that ends twenty bytes before what is
looked at. -/
theorem minted_dispatched_iff (hm : MintedPacket md.data n cookie)
    (hlen : md.len.toNat = md.data.length) (hlin : linear ≤ md.data.length)
    (hs : NoSni md linear scratch) :
    (run0xDEAD md linear dis scratch).2 = .ok cookie.toUInt32 ↔
      40 ≤ md.data.length ∧
        (md.data.getD 8 0 >>> 4 = 0xC → HeaderFits (lookedAt md linear)) := by
  by_cases h40 : 40 ≤ md.data.length
  · obtain ⟨fast, hfast, hcookie, hinit⟩ := parseQuicFast_minted hm hlen hlin h40
    rw [and_iff_right h40]
    by_cases hi : md.data.getD 8 0 >>> 4 = 0xC
    · have hinit : fast.isInitPacket = true := hinit.trans (decide_eq_true hi)
      have hfirst : (lookedAt md linear).getD 8 0 >>> 4 = 0xC := by
        rw [getD_lookedAt hlen h40, hi]
      have hiff := initialPayload_ok_iff hlen (by omega) fast.connectionId hfirst
      rw [imp_iff_right hi, ← hiff, run0xDEAD_sni hfast hinit]
      have hnone := fun name => hs fast name hfast hinit
      rw [(quicSni_agrees hfast hinit scratch).1] at hnone ⊢
      cases hpayload : initialPayload md linear fast.connectionId with
      | error e =>
        constructor
        · intro h
          cases h
        · rintro ⟨payload, h⟩
          cases h
      | ok payload =>
        refine ⟨fun _ => ⟨payload, rfl⟩, fun _ => ?_⟩
        rw [hpayload, Except.map] at hnone
        rw [Except.map, Except.map]
        cases hname : payload.bind
          (fun text => nameIn (overlaid text (oldBytes md linear scratch))) with
        | none => rw [sniRetval, Option.elim_none, hcookie]
        | some name => exact absurd (congrArg Except.ok hname) (hnone name)
    · have hinit : fast.isInitPacket = false := hinit.trans (decide_eq_false hi)
      rw [run0xDEAD_other hfast hinit, hcookie]
      exact ⟨fun _ h => absurd h hi, fun _ => rfl⟩
  · have herror : ∃ e, parseQuicFast md linear = .error e := by
      rw [parseQuicFast_eq hlin]
      split_ifs with h32 hload
      · exact ⟨_, rfl⟩
      · exact ⟨_, rfl⟩
      · simp [MIN_QUIC_LEN] at hload
        omega
    obtain ⟨e, he⟩ := herror
    rw [run0xDEAD_error he]
    constructor
    · intro h
      cases h
    · rintro ⟨h, -⟩
      exact absurd h h40

end Minted

/-- A packet with a short header, a connection ID of eight bytes with the cookie 7, and `k` bytes
behind it. -/
def shortHeaderMd (k : ℕ) : Md :=
  ⟨0, 0, UInt32.ofNat (17 + k), [],
    List.replicate 8 0 ++ 0x40 :: [1, 0, 7, 0, 0, 0, 0, 0] ++ List.replicate k 0⟩

theorem shortHeaderMd_minted (k : ℕ) (hk : 20 ≤ k) : MintedPacket (shortHeaderMd k).data 8 7 := by
  have hfirst : (shortHeaderMd k).data.getD 8 0 = 0x40 := by simp [shortHeaderMd]
  have hlength : (shortHeaderMd k).data.length = 17 + k := by
    simp [shortHeaderMd]
    omega
  refine ⟨by decide, fun _ => ⟨⟨by simp [shortHeaderMd], ?_, by decide⟩, by omega⟩, ?_⟩
  · have hsplit : (shortHeaderMd k).data = (List.replicate 8 0 ++ [0x40, 1]) ++
        ([0, 7] ++ ([0, 0, 0, 0, 0] ++ List.replicate k 0)) := by simp [shortHeaderMd]
    have hfield : field (shortHeaderMd k).data 10 2 = [0, 7] := by
      rw [hsplit, field_at (by simp) (by simp)]
    rw [BigEndian.u16, hfield]
    decide
  · intro hlong
    rw [hfirst] at hlong
    exact absurd (by decide) hlong

theorem shortHeaderMd_noSni (k : ℕ) (hk : 23 ≤ k) (hsmall : k < 2 ^ 16) (s : Scratch) :
    NoSni (shortHeaderMd k) (17 + k) s := by
  have hlength : (shortHeaderMd k).data.length = 17 + k := by
    simp [shortHeaderMd]
    omega
  have hlen : (shortHeaderMd k).len.toNat = (shortHeaderMd k).data.length := by
    rw [hlength, shortHeaderMd, UInt32.toNat_ofNat', Nat.mod_eq_of_lt (by omega)]
  obtain ⟨fast, hfast, -, hinit⟩ := parseQuicFast_minted (shortHeaderMd_minted k (by omega)) hlen
    hlength.ge (by omega)
  intro fast' name hfast' hinit'
  obtain rfl : fast = fast' := Except.ok.inj (hfast.symm.trans hfast')
  have hfirst : (shortHeaderMd k).data.getD 8 0 = 0x40 := by simp [shortHeaderMd]
  rw [hinit, hfirst] at hinit'
  exact absurd hinit' (by decide)

theorem minted_dispatched_short :
    (run0xDEAD (shortHeaderMd 23) 40 Dissector.empty zeroPage).2 = .ok 7 :=
  (minted_dispatched_iff (shortHeaderMd_minted 23 (by decide)) rfl le_rfl
    (shortHeaderMd_noSni 23 (by decide) (by decide) zeroPage)).mpr
    ⟨by decide, fun h => absurd h (by decide)⟩

/-- The shortest packet for a connection ID of eight bytes is not loaded. -/
theorem minted_packet_not_loaded :
    MintedPacket (shortHeaderMd 20).data 8 7 ∧ NoSni (shortHeaderMd 20) 37 zeroPage ∧
      (run0xDEAD (shortHeaderMd 20) 37 Dissector.empty zeroPage).2 = .error .load := by
  have hload : parseQuicFast (shortHeaderMd 20) 37 = .error .load := by decide
  refine ⟨shortHeaderMd_minted 20 le_rfl, ?_, run0xDEAD_error hload _ _⟩
  intro fast name hfast
  rw [hload] at hfast
  cases hfast

end Udpgrm
