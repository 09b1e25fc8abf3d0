import Udpgrm.Bespoke

/-!
The walk over a buffer of which only the start is known. It takes the same way through all buffers
that start alike, up to the first byte that it asks for behind the known ones.
-/
namespace Udpgrm

open LittleEndian (field)

/-! ### What the walk asks for -/

def word (buf : List UInt8) (off : ℕ) : ℕ :=
  (buf.getD off 0).toNat * 256 + (buf.getD (off + 1) 0).toNat

/-- The known bytes in a buffer of zeros. -/
def padded (w : List UInt8) : List UInt8 := w ++ List.replicate (1024 - w.length) 0

/-- The length of the extensions, the largest that the known bytes of it leave open. -/
def mostExtensions (w : List UInt8) : ℕ :=
  (w.getD (extensionsOff (padded w)) 255).toNat * 256 +
    (w.getD (extensionsOff (padded w) + 1) 255).toNat

/-- The first server name that the walk can come to. The message is a ClientHello if its type is not
known, and all lengths up to the name are as small as they can be. -/
def nearestName (w : List UInt8) : Except IErr (Option (ℕ × ℕ)) :=
  if w.getD 0 0 = 6 ∧ w.getD (helloOff (padded w)) 1 = 1 ∧ extensionsOff (padded w) + 2 ≤ 1024 then
    findServerName (padded w) (extensionsOff (padded w) + 2 + mostExtensions w) 32
      (extensionsOff (padded w) + 2)
  else .ok none

/-- The first extension whose header is not known. -/
def firstStaleExtension (buf : List UInt8) (m : ℕ) : ℕ → ℕ → ℕ
  | 0, off => max m off
  | n + 1, off =>
    if m < off + 4 then max m off else firstStaleExtension buf m n (off + 4 + word buf (off + 2))

/-- Where the walk first needs a byte that is not known. -/
def firstStale (w : List UInt8) : ℕ :=
  let buf := padded w
  let m := w.length
  if m ≤ helloOff buf then helloOff buf
  else if m ≤ sessionIdOff buf then sessionIdOff buf
  else if m < cipherSuitesOff buf + 2 then max m (cipherSuitesOff buf)
  else if m ≤ compressionOff buf then compressionOff buf
  else if m < extensionsOff buf + 2 then max m (extensionsOff buf)
  else firstStaleExtension buf m 32 (extensionsOff buf + 2)

/-- The first byte behind the known ones that the name depends on, if it depends on any: on the way
to the name, or in the 61 bytes of it that are compared. -/
def asks (w : List UInt8) : Option ℕ :=
  match nearestName w with
  | .ok (some (k, len)) =>
    if w.length < k then some (firstStale w)
    else if max w.length (k + 5) < k + min len 66 then some (max w.length (k + 5))
    else none
  | _ => none

/-- A buffer that starts with the known bytes. -/
structure Extends (w a : List UInt8) : Prop where
  length : a.length = 1024
  known : ∀ i < w.length, a.getD i 0 = w.getD i 0

/-! ### The walk by its bytes -/

section Walk

variable {buf a b w : List UInt8} {off last n m k len i : ℕ}

theorem word_eq (h : off + 2 ≤ buf.length) : (BigEndian.u16 buf off).toNat = word buf off := by
  have hsplit : field buf off 2 = [buf.getD off 0] ++ [buf.getD (off + 1) 0] := by
    rw [← field_one (by omega), ← field_one (by omega), field_join rfl]
  have hlt := BigEndian.toNat_lt (field buf off 2)
  rw [LittleEndian.length_field h] at hlt
  rw [BigEndian.u16, UInt16.toNat_ofNat', Nat.mod_eq_of_lt (by omega), hsplit,
    BigEndian.toNat_append]
  rfl

theorem word_congr (h : a.getD off 0 = b.getD off 0)
    (h' : a.getD (off + 1) 0 = b.getD (off + 1) 0) :
    word a off = word b off := by
  rw [word, word, h, h']

/-- A step of the walk over the extensions. -/
theorem findServerName_some_iff (hb : buf.length = 1024) :
    findServerName buf last (n + 1) off = .ok (some (k, len)) ↔
      off < last ∧ off + 4 ≤ 1024 ∧
        (word buf off = 0 ∧ off + 154 ≤ 1024 ∧ k = off + 4 ∧ len = word buf (off + 2) ∨
          word buf off ≠ 0 ∧
            findServerName buf last n (off + 4 + word buf (off + 2)) = .ok (some (k, len))) := by
  have hsize : SNI_SIZE = 150 := rfl
  rw [findServerName_succ]
  simp only [none_else_eq_some, error_else_eq_ok, hb, hsize, not_le, not_lt, ge_iff_le, gt_iff_lt]
  by_cases hfit : off + 4 ≤ 1024
  · have htype : BigEndian.u16 buf off = 0 ↔ word buf off = 0 := by
      rw [← word_eq (by omega), ← UInt16.toNat_inj]
      rfl
    have hlen : (BigEndian.u16 buf (off + 2)).toNat = word buf (off + 2) := word_eq (by omega)
    by_cases hz : word buf off = 0
    · rw [if_pos (htype.mpr hz), error_else_eq_ok, hlen]
      simp only [hz, true_and, ne_eq, not_true_eq_false, false_and, or_false, Except.ok.injEq,
        Option.some.injEq, Prod.mk.injEq, not_lt]
      omega
    · rw [if_neg (htype.not.mpr hz), hlen]
      simp only [hz, false_and, ne_eq, not_false_eq_true, true_and, false_or]
      exact ⟨fun h => ⟨h.1, by omega, h.2.2.2⟩, fun h => ⟨h.1, by omega, by omega, h.2.2⟩⟩
  · omega

theorem found_bounds (hb : buf.length = 1024)
    (h : findServerName buf last n off = .ok (some (k, len))) :
    off < last ∧ off + 4 ≤ k ∧ k + 150 ≤ 1024 ∧ k < last + 4 := by
  induction n generalizing off with
  | zero => cases h
  | succ n ih =>
    obtain ⟨hlast, -, ⟨-, hfit, rfl, -⟩ | ⟨-, hnext⟩⟩ := (findServerName_some_iff hb).mp h
    · omega
    · have hbounds := ih hnext
      omega

theorem offsets_le (buf : List UInt8) : helloOff buf ≤ 17 ∧ cipherSuitesOff buf ≤ 311 := by
  have hoff := offsets_ascend buf
  have hsize := varintDecode_len buf (cryptoLenOff buf)
  have hsession := (buf.getD (sessionIdOff buf) 0).toNat_lt
  have hhello : helloOff buf = cryptoLenOff buf + (varintDecode buf (cryptoLenOff buf)).2 := rfl
  have hcipher : cipherSuitesOff buf =
      sessionIdOff buf + 1 + (buf.getD (sessionIdOff buf) 0).toNat := rfl
  omega

theorem compressionOff_eq (hb : buf.length = 1024) :
    compressionOff buf = cipherSuitesOff buf + 2 + word buf (cipherSuitesOff buf) := by
  have hle := (offsets_le buf).2
  rw [compressionOff, word_eq (by omega)]

theorem clientHelloSni_some_iff (hb : buf.length = 1024) :
    clientHelloSni buf = .ok (some (k, len)) ↔
      buf.getD 0 0 = 6 ∧ buf.getD (helloOff buf) 0 = 1 ∧ extensionsOff buf + 2 ≤ 1024 ∧
        findServerName buf (extensionsOff buf + 2 + word buf (extensionsOff buf)) 32
          (extensionsOff buf + 2) = .ok (some (k, len)) := by
  constructor
  · intro h
    have hopened := opened_of_found h
    have hfits := hopened.fits
    rw [clientHelloSni_opened hopened, word_eq (by omega)] at h
    exact ⟨hopened.frame, hopened.hello, by omega, h⟩
  · rintro ⟨hframe, hhello, hfits, h⟩
    rw [clientHelloSni_opened ⟨hframe, hhello, by omega⟩, word_eq (by omega), h]

theorem varintDecode_size (h : a.getD off 0 = b.getD off 0) :
    (varintDecode a off).2 = (varintDecode b off).2 := by
  simp only [varintDecode, h]
  split_ifs <;> rfl

/-- The frame header is in the first sixteen bytes. -/
theorem helloOff_congr (h : ∀ i < 16, a.getD i 0 = b.getD i 0) : helloOff a = helloOff b := by
  have hcrypto : cryptoLenOff a = cryptoLenOff b := by
    rw [cryptoLenOff, cryptoLenOff, varintDecode_size (h 1 (by decide))]
  have hle := (offsets_ascend a).2.1
  rw [helloOff, helloOff, ← hcrypto, varintDecode_size (h _ (by omega))]

end Walk

/-! ### Known bytes -/

section Known

variable {w a b : List UInt8} {m n k len off last i : ℕ}

theorem getD_padded (w : List UInt8) (i : ℕ) : (padded w).getD i 0 = w.getD i 0 := by
  by_cases hi : i < w.length
  · rw [padded, List.getD_append _ _ _ _ hi]
  · rw [padded, List.getD_append_right _ _ _ _ (not_lt.mp hi),
      List.getD_eq_default w _ (not_lt.mp hi)]
    by_cases hz : i - w.length < 1024 - w.length
    · exact List.getD_replicate _ hz
    · exact List.getD_eq_default _ _ (by simpa using hz)

theorem getD_padded_of_le (h : w.length ≤ i) : (padded w).getD i 0 = 0 := by
  rw [getD_padded, List.getD_eq_default _ _ h]

theorem word_padded_of_le (h : w.length ≤ off) : word (padded w) off = 0 := by
  rw [word, getD_padded_of_le h, getD_padded_of_le (h.trans (Nat.le_succ off))]
  rfl

theorem extends_padded (hw : w.length ≤ 1024) : Extends w (padded w) :=
  ⟨by simp [padded]; omega, fun i _ => getD_padded w i⟩

theorem Extends.padded_eq (h : Extends w a) (hi : i < w.length) :
    (padded w).getD i 0 = a.getD i 0 := by
  rw [getD_padded, h.known i hi]

/-- A name whose header is among the bytes that two buffers share. -/
theorem findServerName_known (ha : a.length = 1024) (hb : b.length = 1024)
    (h : ∀ i < m, a.getD i 0 = b.getD i 0) (hk : k ≤ m)
    (hfound : findServerName a last n off = .ok (some (k, len))) :
    findServerName b last n off = .ok (some (k, len)) := by
  induction n generalizing off with
  | zero => cases hfound
  | succ n ih =>
    have hbounds := found_bounds ha hfound
    have htype : word a off = word b off := word_congr (h _ (by omega)) (h _ (by omega))
    have hlen : word a (off + 2) = word b (off + 2) := word_congr (h _ (by omega)) (h _ (by omega))
    rw [findServerName_some_iff ha, htype, hlen] at hfound
    rw [findServerName_some_iff hb]
    obtain ⟨hlast, hfit, hhere | ⟨hother, hnext⟩⟩ := hfound
    · exact ⟨hlast, hfit, .inl hhere⟩
    · exact ⟨hlast, hfit, .inr ⟨hother, ih hnext⟩⟩

theorem cipherSuitesOff_congr (h16 : ∀ i < 16, a.getD i 0 = b.getD i 0)
    (h : a.getD (sessionIdOff a) 0 = b.getD (sessionIdOff a) 0) :
    cipherSuitesOff a = cipherSuitesOff b := by
  have hsession : sessionIdOff a = sessionIdOff b := by
    rw [sessionIdOff, sessionIdOff, helloOff_congr h16]
  rw [cipherSuitesOff, cipherSuitesOff, ← hsession, h]

theorem compressionOff_congr (ha : a.length = 1024) (hb : b.length = 1024)
    (h16 : ∀ i < 16, a.getD i 0 = b.getD i 0)
    (h : ∀ i, sessionIdOff a ≤ i → i < cipherSuitesOff a + 2 → a.getD i 0 = b.getD i 0) :
    compressionOff a = compressionOff b := by
  have hoff := offsets_ascend a
  have hcipher := cipherSuitesOff_congr h16 (h _ le_rfl (by omega))
  rw [compressionOff_eq ha, compressionOff_eq hb, ← hcipher,
    word_congr (h _ (by omega) (by omega)) (h _ (by omega) (by omega))]

/-- The bytes that decide where the extensions are. -/
theorem extensionsOff_congr (ha : a.length = 1024) (hb : b.length = 1024)
    (h16 : ∀ i < 16, a.getD i 0 = b.getD i 0)
    (h : ∀ i, sessionIdOff a ≤ i → i < extensionsOff a → a.getD i 0 = b.getD i 0) :
    extensionsOff a = extensionsOff b := by
  have hoff := offsets_ascend a
  have hcompression := compressionOff_congr ha hb h16 fun i hi hlt => h i hi (by omega)
  rw [extensionsOff, extensionsOff, ← hcompression, h _ (by omega) (by omega)]

theorem clientHelloSni_known (ha : a.length = 1024) (hb : b.length = 1024) (h16 : 16 ≤ m)
    (h : ∀ i < m, a.getD i 0 = b.getD i 0) (hk : k ≤ m)
    (hfound : clientHelloSni a = .ok (some (k, len))) :
    clientHelloSni b = .ok (some (k, len)) := by
  obtain ⟨hframe, htype, hfits, hname⟩ := (clientHelloSni_some_iff ha).mp hfound
  have hbounds := found_bounds ha hname
  have hoff := offsets_ascend a
  have hhello : helloOff a = helloOff b := helloOff_congr fun i hi => h i (by omega)
  have hextensions : extensionsOff a = extensionsOff b :=
    extensionsOff_congr ha hb (fun i hi => h i (by omega)) fun i _ hi => h i (by omega)
  rw [clientHelloSni_some_iff hb, ← hhello, ← hextensions, ← h _ (by omega), ← h _ (by omega),
    ← word_congr (h _ (by omega)) (h _ (by omega))]
  exact ⟨hframe, htype, hfits, findServerName_known ha hb h hk hname⟩

theorem mostExtensions_known (h : extensionsOff (padded w) + 2 ≤ w.length) :
    mostExtensions w = word (padded w) (extensionsOff (padded w)) := by
  rw [mostExtensions, word, getD_padded, getD_padded, List.getD_eq_getElem _ _ (by omega),
    List.getD_eq_getElem _ _ (by omega), List.getD_eq_getElem _ _ (by omega),
    List.getD_eq_getElem _ _ (by omega)]

theorem nearestName_some_iff : nearestName w = .ok (some (k, len)) ↔
    w.getD 0 0 = 6 ∧ w.getD (helloOff (padded w)) 1 = 1 ∧ extensionsOff (padded w) + 2 ≤ 1024 ∧
      findServerName (padded w) (extensionsOff (padded w) + 2 + mostExtensions w) 32
        (extensionsOff (padded w) + 2) = .ok (some (k, len)) := by
  rw [nearestName]
  split_ifs with hopen
  · exact ⟨fun h => ⟨hopen.1, hopen.2.1, hopen.2.2, h⟩, fun h => h.2.2.2⟩
  · exact ⟨fun h => absurd h (by simp), fun h => absurd ⟨h.1, h.2.1, h.2.2.1⟩ hopen⟩

/-- Where the header of the name is known, the walk comes to it. -/
theorem nearestName_known_iff (h16 : 16 ≤ w.length) (ha : Extends w a) (hw : w.length ≤ 1024)
    (hk : k ≤ w.length) :
    nearestName w = .ok (some (k, len)) ↔ clientHelloSni a = .ok (some (k, len)) := by
  have hpad := extends_padded hw
  have hiff : nearestName w = .ok (some (k, len)) ↔
      clientHelloSni (padded w) = .ok (some (k, len)) := by
    have hoff := offsets_ascend (padded w)
    rw [nearestName_some_iff, clientHelloSni_some_iff hpad.length, getD_padded w 0]
    -- either way the name is behind the length of the extensions
    have hknown : ∀ {last}, findServerName (padded w) last 32 (extensionsOff (padded w) + 2) =
        .ok (some (k, len)) → w.getD (helloOff (padded w)) 1 =
          (padded w).getD (helloOff (padded w)) 0 ∧
        mostExtensions w = word (padded w) (extensionsOff (padded w)) := by
      intro last h
      have hbounds := found_bounds hpad.length h
      refine ⟨?_, mostExtensions_known (by omega)⟩
      rw [getD_padded, List.getD_eq_getElem _ _ (by omega), List.getD_eq_getElem _ _ (by omega)]
    constructor
    · rintro ⟨hframe, htype, hfits, h⟩
      obtain ⟨hsame, hmost⟩ := hknown h
      exact ⟨hframe, hsame ▸ htype, hfits, hmost ▸ h⟩
    · rintro ⟨hframe, htype, hfits, h⟩
      obtain ⟨hsame, hmost⟩ := hknown h
      exact ⟨hframe, hsame.trans htype, hfits, hmost.symm ▸ h⟩
  have hsame : ∀ i < w.length, (padded w).getD i 0 = a.getD i 0 := fun i hi => ha.padded_eq hi
  rw [hiff]
  exact ⟨clientHelloSni_known hpad.length ha.length h16 hsame hk,
    clientHelloSni_known ha.length hpad.length h16 (fun i hi => (hsame i hi).symm) hk⟩

end Known

/-! ### The nearest name -/

section Nearest

variable {w a : List UInt8} {n k len off last x y : ℕ}

/-- With zeros behind the known bytes the walk is not ahead of where other bytes lead it. -/
def Behind (m x y : ℕ) : Prop := x = y ∨ m ≤ x ∧ x ≤ y

theorem byte_padded_le (ha : Extends w a) (i : ℕ) :
    ((padded w).getD i 0).toNat ≤ (a.getD i 0).toNat := by
  by_cases hi : i < w.length
  · rw [ha.padded_eq hi]
  · rw [getD_padded_of_le (not_lt.mp hi)]
    exact Nat.zero_le _

theorem word_padded_le (ha : Extends w a) (i : ℕ) : word (padded w) i ≤ word a i := by
  have hhigh := byte_padded_le ha i
  have hlow := byte_padded_le ha (i + 1)
  rw [word, word]
  omega

theorem Behind.byte (ha : Extends w a) (h : Behind w.length x y) :
    Behind w.length (x + 1 + ((padded w).getD x 0).toNat) (y + 1 + (a.getD y 0).toNat) := by
  rcases h with rfl | ⟨hm, hle⟩
  · by_cases hx : x < w.length
    · exact .inl (by rw [ha.padded_eq hx])
    · have hbyte := byte_padded_le ha x
      exact .inr ⟨by omega, by omega⟩
  · rw [getD_padded_of_le hm, UInt8.toNat_zero]
    exact .inr ⟨by omega, by omega⟩

theorem Behind.word (ha : Extends w a) (h : Behind w.length x y) :
    Behind w.length (x + 2 + word (padded w) x) (y + 2 + word a y) := by
  rcases h with rfl | ⟨hm, hle⟩
  · by_cases hx : x + 1 < w.length
    · exact .inl (by rw [word_congr (ha.padded_eq (by omega)) (ha.padded_eq hx)])
    · have hword := word_padded_le ha x
      exact .inr ⟨by omega, by omega⟩
  · rw [word_padded_of_le hm]
    exact .inr ⟨by omega, by omega⟩

theorem helloOff_padded (h16 : 16 ≤ w.length) (ha : Extends w a) :
    helloOff (padded w) = helloOff a :=
  helloOff_congr fun _ hi => ha.padded_eq (by omega)

theorem behind_extensionsOff (h16 : 16 ≤ w.length) (hw : w.length ≤ 1024) (ha : Extends w a) :
    Behind w.length (extensionsOff (padded w)) (extensionsOff a) := by
  have hsession : Behind w.length (sessionIdOff (padded w)) (sessionIdOff a) :=
    .inl (by rw [sessionIdOff, sessionIdOff, helloOff_padded h16 ha])
  have hcompression := (hsession.byte ha).word ha
  rw [← cipherSuitesOff, ← cipherSuitesOff, ← compressionOff_eq (extends_padded hw).length,
    ← compressionOff_eq ha.length] at hcompression
  exact hcompression.byte ha

/-- Behind the known bytes every extension can be the name. -/
theorem findServerName_stale (hw : w.length ≤ 1024) (hm : w.length ≤ off) (hlast : off < last)
    (hroom : off + 154 ≤ 1024) :
    findServerName (padded w) last (n + 1) off = .ok (some (off + 4, 0)) := by
  rw [findServerName_some_iff (extends_padded hw).length, word_padded_of_le hm,
    word_padded_of_le (by omega)]
  exact ⟨hlast, by omega, .inl ⟨rfl, hroom, rfl, rfl⟩⟩

theorem findServerName_nearest (hw : w.length ≤ 1024) (ha : Extends w a) (hk : w.length < k)
    (hfound : findServerName a last n off = .ok (some (k, len))) :
    ∃ k' len', findServerName (padded w) last n off = .ok (some (k', len')) ∧ w.length < k' := by
  induction n generalizing off with
  | zero => cases hfound
  | succ n ih =>
    have hpad := extends_padded hw
    have hbounds := found_bounds ha.length hfound
    obtain ⟨hlast, hfit, hstep⟩ := (findServerName_some_iff ha.length).mp hfound
    by_cases hknown : off + 4 ≤ w.length
    · have htype : word (padded w) off = word a off :=
        word_congr (ha.padded_eq (by omega)) (ha.padded_eq (by omega))
      have hlen : word (padded w) (off + 2) = word a (off + 2) :=
        word_congr (ha.padded_eq (by omega)) (ha.padded_eq (by omega))
      obtain ⟨-, -, rfl, -⟩ | ⟨hother, hnext⟩ := hstep
      · omega
      · obtain ⟨k', len', hname, hk'⟩ := ih hnext
        refine ⟨k', len', ?_, hk'⟩
        rw [findServerName_some_iff hpad.length, htype, hlen]
        exact ⟨hlast, hfit, .inr ⟨hother, hname⟩⟩
    · by_cases hz : word (padded w) off = 0
      · refine ⟨off + 4, word (padded w) (off + 2), ?_, by omega⟩
        rw [findServerName_some_iff hpad.length]
        exact ⟨hlast, hfit, .inl ⟨hz, by omega, rfl, rfl⟩⟩
      · -- the type is known not to be zero, and the next extension starts no later with zeros
        have htype := word_padded_le ha off
        have hlen := word_padded_le ha (off + 2)
        obtain ⟨hzero, -⟩ | ⟨hother, hnext⟩ := hstep
        · omega
        · have hbounds' := found_bounds ha.length hnext
          cases n with
          | zero => cases hnext
          | succ n =>
            refine ⟨off + 4 + word (padded w) (off + 2) + 4, 0, ?_, by omega⟩
            rw [findServerName_some_iff hpad.length]
            exact ⟨hlast, hfit, .inr ⟨hz, findServerName_stale hw (by omega) (by omega) (by omega)⟩⟩

/-- If any bytes lead to a name behind the known ones, then so does the nearest way. -/
theorem nearestName_of_found (h16 : 16 ≤ w.length) (hw : w.length ≤ 1024) (ha : Extends w a)
    (hfound : clientHelloSni a = .ok (some (k, len))) (hk : w.length < k) :
    ∃ k' len', nearestName w = .ok (some (k', len')) ∧ w.length < k' := by
  obtain ⟨hframe, htype, hfits, hname⟩ := (clientHelloSni_some_iff ha.length).mp hfound
  have hbounds := found_bounds ha.length hname
  have hframe' : w.getD 0 0 = 6 := (ha.known 0 (by omega)).symm.trans hframe
  have htype' : w.getD (helloOff (padded w)) 1 = 1 := by
    by_cases hhello : helloOff (padded w) < w.length
    · rw [List.getD_eq_getElem _ _ hhello, ← List.getD_eq_getElem _ 0 hhello,
        ← ha.known _ hhello, helloOff_padded h16 ha, htype]
    · exact List.getD_eq_default _ _ (not_lt.mp hhello)
  have hbehind := behind_extensionsOff h16 hw ha
  by_cases hknown : extensionsOff (padded w) + 2 ≤ w.length
  · have hsame : extensionsOff (padded w) = extensionsOff a := by
      rcases hbehind with heq | hge
      · exact heq
      · omega
    have hmost : mostExtensions w = word a (extensionsOff a) := by
      rw [mostExtensions_known hknown, hsame]
      exact word_congr (ha.padded_eq (by omega)) (ha.padded_eq (by omega))
    obtain ⟨k', len', hname', hk'⟩ := findServerName_nearest hw ha hk hname
    refine ⟨k', len', nearestName_some_iff.mpr ⟨hframe', htype', by omega, ?_⟩, hk'⟩
    rw [hsame, hmost, hname']
  · -- the length of the extensions is open, and so is all behind it
    have hmost : 255 ≤ mostExtensions w := by
      have hlow : w.getD (extensionsOff (padded w) + 1) 255 = 255 :=
        List.getD_eq_default _ _ (by omega)
      rw [mostExtensions, hlow]
      exact Nat.le_add_left _ _
    have hle : extensionsOff (padded w) ≤ extensionsOff a := by
      rcases hbehind with heq | hge
      · exact heq.le
      · exact hge.2
    refine ⟨_, _, nearestName_some_iff.mpr ⟨hframe', htype', by omega,
      findServerName_stale hw (by omega) (by omega) (by omega)⟩, by omega⟩

end Nearest

/-! ### The name in a buffer -/

section Name

variable {buf a b : List UInt8} {k len i j : ℕ}

/-- The bytes of a name that are compared. -/
def comparedBytes (buf : List UInt8) (k len : ℕ) : List UInt8 :=
  field (field buf k (min len SNI_SIZE) ++ List.replicate (SNI_SIZE - len) 0) 5
    (BESPOKE_SNI_LEN - 1)

theorem nameIn_found (h : clientHelloSni buf = .ok (some (k, len))) :
    nameIn buf = if len ≠ 0 then some (comparedBytes buf k len) else none := by
  simp only [nameIn, h, comparedBytes]

theorem nameIn_not_found (h : ∀ k len, clientHelloSni a ≠ .ok (some (k, len))) :
    nameIn a = none := by
  cases hwalk : clientHelloSni a with
  | error e => simp only [nameIn, hwalk]
  | ok found =>
    cases found with
    | none => simp only [nameIn, hwalk]
    | some found => exact absurd hwalk (h found.1 found.2)

theorem length_comparedBytes (hb : buf.length = 1024) (hk : k + 150 ≤ 1024) :
    (comparedBytes buf k len).length = 61 := by
  apply LittleEndian.length_field
  rw [List.length_append, LittleEndian.length_field (by simp only [SNI_SIZE]; omega),
    List.length_replicate]
  simp only [SNI_SIZE, BESPOKE_SNI_LEN]
  omega

theorem getD_comparedBytes (hb : buf.length = 1024) (hk : k + 150 ≤ 1024) (hj : j < 61) :
    (comparedBytes buf k len).getD j 0 = if j + 5 < len then buf.getD (k + (j + 5)) 0 else 0 := by
  have hsize : SNI_SIZE = 150 := rfl
  have hcut : BESPOKE_SNI_LEN - 1 = 61 := rfl
  have hlen : (field buf k (min len SNI_SIZE)).length = min len SNI_SIZE :=
    LittleEndian.length_field (by omega)
  have hget : (comparedBytes buf k len).getD j 0 =
      (field buf k (min len SNI_SIZE) ++ List.replicate (SNI_SIZE - len) 0).getD (j + 5) 0 := by
    simp only [comparedBytes, field, List.getD_eq_getElem?_getD]
    rw [List.getElem?_take_of_lt (by omega), List.getElem?_drop, Nat.add_comm]
  rw [hget]
  split_ifs with hin
  · rw [List.getD_append _ _ _ _ (by omega)]
    simp only [field, List.getD_eq_getElem?_getD]
    rw [List.getElem?_take_of_lt (by omega), List.getElem?_drop]
  · rw [List.getD_append_right _ _ _ _ (by omega), List.getD_replicate _ (by omega)]

theorem comparedBytes_congr (ha : a.length = 1024) (hb : b.length = 1024) (hk : k + 150 ≤ 1024)
    (h : ∀ i, k + 5 ≤ i → i < k + min len 66 → a.getD i 0 = b.getD i 0) :
    comparedBytes a k len = comparedBytes b k len := by
  have hla : (comparedBytes a k len).length = 61 := length_comparedBytes ha hk
  have hlb : (comparedBytes b k len).length = 61 := length_comparedBytes hb hk
  apply List.ext_getElem (hla.trans hlb.symm)
  intro j hj hj'
  have hget : (comparedBytes a k len).getD j 0 = (comparedBytes b k len).getD j 0 := by
    rw [getD_comparedBytes ha hk (by omega), getD_comparedBytes hb hk (by omega)]
    split_ifs with hin
    · exact h _ (by omega) (by omega)
    · rfl
  rwa [List.getD_eq_getElem _ _ hj, List.getD_eq_getElem _ _ hj'] at hget

theorem comparedBytes_ne (ha : a.length = 1024) (hb : b.length = 1024) (hk : k + 150 ≤ 1024)
    (h5 : k + 5 ≤ i) (hi : i < k + min len 66) (h : a.getD i 0 ≠ b.getD i 0) :
    comparedBytes a k len ≠ comparedBytes b k len := by
  intro heq
  have hget := congrArg (·.getD (i - k - 5) 0) heq
  have hoff : k + (i - k - 5 + 5) = i := by omega
  simp only [getD_comparedBytes ha hk (show i - k - 5 < 61 by omega),
    getD_comparedBytes hb hk (show i - k - 5 < 61 by omega),
    if_pos (show i - k - 5 + 5 < len by omega), hoff] at hget
  exact h hget

end Name

/-! ### What the name does not depend on -/

section Agree

variable {w a b : List UInt8} {n k len off last p u x : ℕ}

theorem le_firstStaleExtension (buf : List UInt8) (m n off : ℕ) :
    m ≤ firstStaleExtension buf m n off := by
  induction n generalizing off with
  | zero => exact le_max_left _ _
  | succ n ih =>
    rw [firstStaleExtension]
    split_ifs
    · exact le_max_left _ _
    · exact ih _

theorem le_firstStale (w : List UInt8) : w.length ≤ firstStale w := by
  have hext := le_firstStaleExtension (padded w) w.length 32 (extensionsOff (padded w) + 2)
  simp only [firstStale]
  split_ifs <;> omega

theorem le_asks (h : asks w = some p) : w.length ≤ p := by
  have hstale := le_firstStale w
  rw [asks] at h
  split at h
  · split_ifs at h
    · cases h
      exact hstale
    · cases h
      exact le_max_left _ _
  · cases h

/-- No field starts between the known bytes and the first one that is needed behind them. -/
theorem firstStale_fields (h : w.length < firstStale w) :
    (helloOff (padded w) < w.length ∨ firstStale w ≤ helloOff (padded w)) ∧
    (sessionIdOff (padded w) < w.length ∨ firstStale w ≤ sessionIdOff (padded w)) ∧
    (cipherSuitesOff (padded w) + 2 ≤ w.length ∨ firstStale w ≤ cipherSuitesOff (padded w)) ∧
    (compressionOff (padded w) < w.length ∨ firstStale w ≤ compressionOff (padded w)) ∧
    (extensionsOff (padded w) + 2 ≤ w.length ∨ firstStale w ≤ extensionsOff (padded w)) ∧
    (firstStale w ≤ extensionsOff (padded w) + 2 ∨
      firstStale w =
        firstStaleExtension (padded w) w.length 32 (extensionsOff (padded w) + 2)) := by
  have hoff := offsets_ascend (padded w)
  simp only [firstStale] at h ⊢
  split_ifs at h ⊢ <;> omega

/-- A place in two walks, and in the one over zeros up to the first byte that is needed. -/
def Tied (p u x : ℕ) : Prop := x = u ∨ p ≤ x

theorem Tied.byte (ha : Extends w a) (hb : Extends w b)
    (hab : ∀ i, p ≤ i → a.getD i 0 = b.getD i 0) (h : Tied p u x) (hu : u < w.length ∨ p ≤ u) :
    a.getD x 0 = b.getD x 0 ∧
      Tied p (u + 1 + ((padded w).getD u 0).toNat) (x + 1 + (a.getD x 0).toNat) := by
  by_cases hp : p ≤ x
  · exact ⟨hab x hp, .inr (by omega)⟩
  · obtain rfl : x = u := by
      rcases h with heq | hle
      · exact heq
      · omega
    have hx : x < w.length := by omega
    exact ⟨(ha.known x hx).trans (hb.known x hx).symm, .inl (by rw [ha.padded_eq hx])⟩

theorem Tied.word (ha : Extends w a) (hb : Extends w b)
    (hab : ∀ i, p ≤ i → a.getD i 0 = b.getD i 0) (h : Tied p u x)
    (hu : u + 2 ≤ w.length ∨ p ≤ u) :
    word a x = word b x ∧ Tied p (u + 2 + word (padded w) u) (x + 2 + word a x) := by
  by_cases hp : p ≤ x
  · exact ⟨word_congr (hab _ hp) (hab _ (by omega)), .inr (by omega)⟩
  · obtain rfl : x = u := by
      rcases h with heq | hle
      · exact heq
      · omega
    have hx : x < w.length := by omega
    have hx' : x + 1 < w.length := by omega
    refine ⟨word_congr ((ha.known x hx).trans (hb.known x hx).symm)
      ((ha.known _ hx').trans (hb.known _ hx').symm), .inl ?_⟩
    rw [word_congr (ha.padded_eq hx) (ha.padded_eq hx')]

/-- Over the extensions, too, both walks go the same way. -/
theorem findServerName_agree (ha : Extends w a) (hb : Extends w b)
    (hab : ∀ i, p ≤ i → a.getD i 0 = b.getD i 0) (hm : w.length < p)
    (hp : p ≤ off ∨ p = firstStaleExtension (padded w) w.length n off)
    (hfound : findServerName a last n off = .ok (some (k, len))) :
    findServerName b last n off = .ok (some (k, len)) ∧ (w.length < k → p ≤ k) := by
  induction n generalizing off with
  | zero => cases hfound
  | succ n ih =>
    have hbounds := found_bounds ha.length hfound
    have hp : p ≤ off ∨ off + 4 ≤ w.length ∧
        p = firstStaleExtension (padded w) w.length n (off + 4 + word (padded w) (off + 2)) := by
      rcases hp with hle | hstale
      · exact .inl hle
      · rw [firstStaleExtension] at hstale
        split_ifs at hstale with hknown
        · exact .inl (by omega)
        · exact .inr ⟨by omega, hstale⟩
    have hbyte : ∀ i, off ≤ i → i < off + 4 → a.getD i 0 = b.getD i 0 := by
      intro i hi hi'
      rcases hp with hle | ⟨hknown, -⟩
      · exact hab i (by omega)
      · exact (ha.known i (by omega)).trans (hb.known i (by omega)).symm
    rw [findServerName_some_iff ha.length] at hfound
    rw [findServerName_some_iff hb.length,
      ← word_congr (hbyte off (by omega) (by omega)) (hbyte (off + 1) (by omega) (by omega)),
      ← word_congr (hbyte (off + 2) (by omega) (by omega)) (hbyte (off + 3) (by omega) (by omega))]
    obtain ⟨hlast, hfit, hhere | ⟨hother, hnext⟩⟩ := hfound
    · exact ⟨⟨hlast, hfit, .inl hhere⟩, by omega⟩
    · have hp' : p ≤ off + 4 + word a (off + 2) ∨ p = firstStaleExtension (padded w) w.length n
          (off + 4 + word a (off + 2)) := by
        rcases hp with hle | ⟨hknown, hstale⟩
        · exact .inl (by omega)
        · rw [word_congr (ha.padded_eq (show off + 2 < w.length by omega))
            (ha.padded_eq (show off + 2 + 1 < w.length by omega))] at hstale
          exact .inr hstale
      have hnext' := ih hp' hnext
      exact ⟨⟨hlast, hfit, .inr ⟨hother, hnext'.1⟩⟩, hnext'.2⟩

theorem clientHelloSni_agree (h16 : 16 ≤ w.length) (hw : w.length ≤ 1024) (ha : Extends w a)
    (hb : Extends w b) (hm : w.length < firstStale w)
    (hab : ∀ i, firstStale w ≤ i → a.getD i 0 = b.getD i 0)
    (hfound : clientHelloSni a = .ok (some (k, len))) :
    clientHelloSni b = .ok (some (k, len)) ∧ (w.length < k → firstStale w ≤ k) := by
  obtain ⟨hframe, htype, hfits, hname⟩ := (clientHelloSni_some_iff ha.length).mp hfound
  obtain ⟨hhelloField, hsessionField, hcipherField, hcompressionField, hextensionsField,
    hfirstField⟩ := firstStale_fields hm
  have hhello : helloOff b = helloOff a :=
    (helloOff_padded h16 hb).symm.trans (helloOff_padded h16 ha)
  have hhelloByte : a.getD (helloOff a) 0 = b.getD (helloOff b) 0 := by
    rw [hhello]
    refine (Tied.byte ha hb hab (.inl (helloOff_padded h16 ha).symm) hhelloField).1
  have hsession : Tied (firstStale w) (sessionIdOff (padded w)) (sessionIdOff a) :=
    .inl (by rw [sessionIdOff, sessionIdOff, helloOff_padded h16 ha])
  have hsessionSame : sessionIdOff b = sessionIdOff a := by rw [sessionIdOff, sessionIdOff, hhello]
  obtain ⟨hsessionByte, hcipher⟩ := hsession.byte ha hb hab hsessionField
  rw [← cipherSuitesOff, ← cipherSuitesOff] at hcipher
  have hcipherSame : cipherSuitesOff b = cipherSuitesOff a := by
    rw [cipherSuitesOff, cipherSuitesOff, hsessionSame, hsessionByte]
  obtain ⟨hcipherWord, hcompression⟩ := hcipher.word ha hb hab hcipherField
  rw [← compressionOff_eq ha.length, ← compressionOff_eq (extends_padded hw).length]
    at hcompression
  have hcompressionSame : compressionOff b = compressionOff a := by
    rw [compressionOff_eq ha.length, compressionOff_eq hb.length, hcipherSame, hcipherWord]
  obtain ⟨hcompressionByte, hextensions⟩ := hcompression.byte ha hb hab hcompressionField
  rw [← extensionsOff, ← extensionsOff] at hextensions
  have hextensionsSame : extensionsOff b = extensionsOff a := by
    rw [extensionsOff, extensionsOff, hcompressionSame, hcompressionByte]
  obtain ⟨htotal, -⟩ := hextensions.word ha hb hab hextensionsField
  have hframeByte : a.getD 0 0 = b.getD 0 0 :=
    (ha.known 0 (by omega)).trans (hb.known 0 (by omega)).symm
  have hfirst : firstStale w ≤ extensionsOff a + 2 ∨ firstStale w =
      firstStaleExtension (padded w) w.length 32 (extensionsOff a + 2) := by
    rcases hextensions with heq | hle
    · rw [heq]
      exact hfirstField
    · exact .inl (by omega)
  obtain ⟨hname', hle⟩ := findServerName_agree ha hb hab hm hfirst hname
  rw [clientHelloSni_some_iff hb.length, hextensionsSame, ← htotal, ← hhelloByte, ← hframeByte]
  exact ⟨⟨hframe, htype, hfits, hname'⟩, hle⟩

theorem nameIn_of_found (h16 : 16 ≤ w.length) (hw : w.length ≤ 1024) (ha : Extends w a)
    (hb : Extends w b) (hab : ∀ p, asks w = some p → ∀ i, p ≤ i → a.getD i 0 = b.getD i 0)
    (hfound : clientHelloSni a = .ok (some (k, len))) : nameIn a = nameIn b := by
  have hroom : k + 150 ≤ 1024 := by
    obtain ⟨-, -, -, hname⟩ := (clientHelloSni_some_iff ha.length).mp hfound
    exact (found_bounds ha.length hname).2.2.1
  by_cases hk : k ≤ w.length
  · have hnear := (nearestName_known_iff h16 ha hw hk).mpr hfound
    have hfound' := (nearestName_known_iff h16 hb hw hk).mp hnear
    rw [nameIn_found hfound, nameIn_found hfound']
    rw [comparedBytes_congr ha.length hb.length hroom]
    intro i hi hi'
    by_cases hknown : i < w.length
    · exact (ha.known i hknown).trans (hb.known i hknown).symm
    · have hasks : asks w = some (max w.length (k + 5)) := by
        simp only [asks, hnear]
        rw [if_neg (by omega), if_pos (by omega)]
      exact hab _ hasks i (by omega)
  · obtain ⟨k', len', hnear, hk'⟩ := nearestName_of_found h16 hw ha hfound (not_le.mp hk)
    have hasks : asks w = some (firstStale w) := by
      simp only [asks, hnear]
      rw [if_pos hk']
    have hstale := le_firstStale w
    by_cases hm : w.length < firstStale w
    · obtain ⟨hfound', hle⟩ := clientHelloSni_agree h16 hw ha hb hm (hab _ hasks) hfound
      rw [nameIn_found hfound, nameIn_found hfound']
      rw [comparedBytes_congr ha.length hb.length hroom]
      intro i hi _
      have hle := hle (not_le.mp hk)
      exact hab _ hasks i (by omega)
    · -- all that is not known is the same
      have heq : a = b := by
        apply List.ext_getElem (ha.length.trans hb.length.symm)
        intro i hi hi'
        have hget : a.getD i 0 = b.getD i 0 := by
          by_cases hknown : i < w.length
          · exact (ha.known i hknown).trans (hb.known i hknown).symm
          · exact hab _ hasks i (by omega)
        rwa [List.getD_eq_getElem _ _ hi, List.getD_eq_getElem _ _ hi'] at hget
      rw [heq]

/-- The name depends on the known bytes and on those from the first byte on that is asked for. -/
theorem nameIn_of_agree (h16 : 16 ≤ w.length) (hw : w.length ≤ 1024) (ha : Extends w a)
    (hb : Extends w b) (hab : ∀ p, asks w = some p → ∀ i, p ≤ i → a.getD i 0 = b.getD i 0) :
    nameIn a = nameIn b := by
  by_cases hfound : ∃ k len, clientHelloSni a = .ok (some (k, len))
  · obtain ⟨k, len, hfound⟩ := hfound
    exact nameIn_of_found h16 hw ha hb hab hfound
  · by_cases hfound' : ∃ k len, clientHelloSni b = .ok (some (k, len))
    · obtain ⟨k, len, hfound'⟩ := hfound'
      exact (nameIn_of_found h16 hw hb ha (fun p hp i hi => (hab p hp i hi).symm) hfound').symm
    · rw [nameIn_not_found fun k len h => hfound ⟨k, len, h⟩,
        nameIn_not_found fun k len h => hfound' ⟨k, len, h⟩]

end Agree

end Udpgrm
