import Udpgrm.KnownBytes

/-!
What the bytes that are not known can do. If the walk asks for one of them, then there are two
buffers with different names that differ there.
-/
namespace Udpgrm

/-! ### What the name depends on -/

section Depends

variable {w a c d : List UInt8} {n k len off last q p i : ℕ} {f : ℕ → UInt8} {v : UInt8}

/-- The known bytes, and others behind them. -/
def filledOut (w : List UInt8) (f : ℕ → UInt8) : List UInt8 :=
  (List.range 1024).map fun i => if i < w.length then w.getD i 0 else f i

theorem getD_filledOut (hi : i < 1024) :
    (filledOut w f).getD i 0 = if i < w.length then w.getD i 0 else f i := by
  rw [filledOut, List.getD_eq_getElem _ _ (by simpa using hi), List.getElem_map,
    List.getElem_range]

theorem extends_filledOut (hw : w.length ≤ 1024) (f : ℕ → UInt8) : Extends w (filledOut w f) :=
  ⟨by simp [filledOut], fun i hi => by rw [getD_filledOut (by omega), if_pos hi]⟩

/-- The bytes that lead to the nearest name at `k`, if they are not known. -/
def steer (w : List UInt8) (k i : ℕ) : UInt8 :=
  if i = helloOff (padded w) then 1
  else if i = extensionsOff (padded w) then 255
  else if i = extensionsOff (padded w) + 1 then
    if extensionsOff (padded w) < w.length then 255 else 0
  else if i = k - 1 then 255
  else 0

/-- Bytes that make no difference on the way to a name. -/
theorem findServerName_follow (ha : a.length = 1024) (hc : c.length = 1024)
    (h : ∀ i, off ≤ i → i + 1 < k → a.getD i 0 = c.getD i 0) {last' : ℕ} (hlast : k < last' + 4)
    (hfound : findServerName a last n off = .ok (some (k, len))) :
    findServerName c last' n off = .ok (some (k, word c (k - 2))) := by
  induction n generalizing off with
  | zero => cases hfound
  | succ n ih =>
    have hbounds := found_bounds ha hfound
    rw [findServerName_some_iff ha, word_congr (h off le_rfl (by omega))
      (h (off + 1) (by omega) (by omega))] at hfound
    rw [findServerName_some_iff hc]
    obtain ⟨-, hfit, ⟨hzero, hroom, rfl, -⟩ | ⟨hother, hnext⟩⟩ := hfound
    · exact ⟨by omega, hfit, .inl ⟨hzero, hroom, rfl, rfl⟩⟩
    · have hbounds' := found_bounds ha hnext
      rw [word_congr (h (off + 2) (by omega) (by omega)) (h (off + 3) (by omega) (by omega))]
        at hnext
      refine ⟨by omega, hfit, .inr ⟨hother, ih (fun i hi hlt => h i (by omega) hlt) hnext⟩⟩

/-- Where zeros follow, no name is found that has a length. -/
theorem findServerName_zeros (hd : d.length = 1024) (hz : ∀ i, k ≤ i → d.getD i 0 = 0)
    (hoff : k ≤ off) {k' len' : ℕ} (hfound : findServerName d last n off = .ok (some (k', len'))) :
    len' = 0 := by
  have hzero : ∀ i, k ≤ i → word d i = 0 := by
    intro i hi
    rw [word, hz i hi, hz (i + 1) (by omega)]
    rfl
  cases n with
  | zero => cases hfound
  | succ n =>
    obtain ⟨-, -, ⟨-, -, -, rfl⟩ | ⟨hother, -⟩⟩ := (findServerName_some_iff hd).mp hfound
    · exact hzero _ (by omega)
    · exact absurd (hzero off hoff) hother

theorem nameIn_eq_none (h : ∀ k len, clientHelloSni d = .ok (some (k, len)) → len = 0) :
    nameIn d = none := by
  by_cases hfound : ∃ k len, clientHelloSni d = .ok (some (k, len))
  · obtain ⟨k, len, hfound⟩ := hfound
    rw [nameIn_found hfound, if_neg (not_not.mpr (h k len hfound))]
  · exact nameIn_not_found fun k len hf => hfound ⟨k, len, hf⟩

/-- A walk that jumps over the name gets to zeros. -/
theorem nameIn_far (hd : d.length = 1024) (hz : ∀ i, k ≤ i → d.getD i 0 = 0)
    (hfar : k ≤ extensionsOff d) : nameIn d = none := by
  apply nameIn_not_found
  intro k' len' hfound
  obtain ⟨-, -, -, hname⟩ := (clientHelloSni_some_iff hd).mp hfound
  have hbounds := found_bounds hd hname
  rw [word, hz _ hfar, hz _ (by omega)] at hbounds
  simp at hbounds

/-- One byte behind the known ones that the walk to a name depends on. -/
theorem exists_turn (hw : w.length ≤ 1024) (hk : w.length + 2 < k)
    (hfound : findServerName (padded w) last n off = .ok (some (k, len))) :
    ∃ q v, w.length ≤ q ∧ off ≤ q ∧ q < k ∧
      (q = firstStaleExtension (padded w) w.length n off ∨ q < w.length + 10) ∧
      ∀ d : List UInt8, d.length = 1024 →
        (∀ i, off ≤ i → i + 1 < k → i ≠ q → d.getD i 0 = (padded w).getD i 0) →
        (∀ i, k ≤ i → d.getD i 0 = 0) → d.getD q 0 = v →
        ∀ k' len', findServerName d last n off = .ok (some (k', len')) → len' = 0 := by
  induction n generalizing off with
  | zero => cases hfound
  | succ n ih =>
    have hpad := extends_padded hw
    have hbounds := found_bounds hpad.length hfound
    obtain ⟨hlast, hfit, hstep⟩ := (findServerName_some_iff hpad.length).mp hfound
    by_cases hknown : off + 4 ≤ w.length
    · obtain ⟨-, -, rfl, -⟩ | ⟨hother, hnext⟩ := hstep
      · omega
      · obtain ⟨q, v, hm, hoff, hq, hp, hturn⟩ := ih hnext
        have hfirst : firstStaleExtension (padded w) w.length (n + 1) off =
            firstStaleExtension (padded w) w.length n
              (off + 4 + word (padded w) (off + 2)) := by
          rw [firstStaleExtension, if_neg (by omega)]
        refine ⟨q, v, hm, by omega, hq, hfirst ▸ hp, fun d hd hsame hz hv k' len' hname => ?_⟩
        have hbyte : ∀ i, off ≤ i → i < off + 4 → d.getD i 0 = (padded w).getD i 0 :=
          fun i hi hlt => hsame i hi (by omega) (by omega)
        rw [findServerName_some_iff hd,
          word_congr (hbyte off (by omega) (by omega)) (hbyte (off + 1) (by omega) (by omega)),
          word_congr (hbyte (off + 2) (by omega) (by omega))
            (hbyte (off + 3) (by omega) (by omega))] at hname
        obtain ⟨-, -, ⟨hzero, -⟩ | ⟨-, hname⟩⟩ := hname
        · exact absurd hzero hother
        · exact hturn d hd (fun i hi => hsame i (by omega)) hz hv k' len' hname
    · have hfirst : firstStaleExtension (padded w) w.length (n + 1) off = max w.length off := by
        rw [firstStaleExtension, if_pos (by omega)]
      obtain ⟨hzero, -, rfl, -⟩ | ⟨hother, hnext⟩ := hstep
      · -- the extension gets another type
        refine ⟨max w.length off, 1, by omega, by omega, by omega, .inl hfirst.symm,
          fun d hd _ hz hv k' len' hname => ?_⟩
        have htype : word d off ≠ 0 := by
          by_cases hhigh : w.length ≤ off
          · rw [max_eq_right hhigh] at hv
            rw [word, hv]
            simp
          · have hlow : max w.length off = off + 1 := by omega
            rw [hlow] at hv
            rw [word, hv]
            simp
        obtain ⟨-, -, ⟨hz', -⟩ | ⟨-, hname⟩⟩ := (findServerName_some_iff hd).mp hname
        · exact absurd hz' htype
        · exact findServerName_zeros hd hz (by omega) hname
      · -- the extension gets longer
        have hoff : off < w.length := by
          by_contra hge
          exact hother (word_padded_of_le (by omega))
        have hnext' := found_bounds hpad.length hnext
        have hkeq : k = off + 4 + word (padded w) (off + 2) + 4 := by
          cases n with
          | zero => cases hnext
          | succ n =>
            have hzero : word (padded w) (off + 4 + word (padded w) (off + 2)) = 0 :=
              word_padded_of_le (by omega)
            obtain ⟨-, -, ⟨-, -, hkeq, -⟩ | ⟨hne, -⟩⟩ :=
              (findServerName_some_iff hpad.length).mp hnext
            · exact hkeq
            · exact absurd hzero hne
        refine ⟨max w.length (off + 2), 255, by omega, by omega, by omega, .inr (by omega),
          fun d hd hsame hz hv k' len' hname => ?_⟩
        have htype : word d off = word (padded w) off :=
          word_congr (hsame _ le_rfl (by omega) (by omega))
            (hsame _ (by omega) (by omega) (by omega))
        have h255 : (255 : UInt8).toNat = 255 := rfl
        have hlonger : word (padded w) (off + 2) + 255 ≤ word d (off + 2) := by
          by_cases hhigh : w.length ≤ off + 2
          · rw [max_eq_right hhigh] at hv
            rw [word_padded_of_le hhigh, word, hv]
            omega
          · have hlow : max w.length (off + 2) = off + 3 := by omega
            rw [hlow] at hv
            rw [word, word, hv, hsame (off + 2) (by omega) (by omega) (by omega),
              getD_padded_of_le (show w.length ≤ off + 2 + 1 by omega), UInt8.toNat_zero]
            omega
        obtain ⟨-, -, ⟨hz', -⟩ | ⟨-, hname⟩⟩ := (findServerName_some_iff hd).mp hname
        · exact absurd (htype ▸ hz') hother
        · exact findServerName_zeros hd hz (by omega) hname

theorem nearest_bounds (hw : w.length ≤ 1024) (hnear : nearestName w = .ok (some (k, len))) :
    extensionsOff (padded w) + 6 ≤ k ∧ k + 150 ≤ 1024 ∧
      k < extensionsOff (padded w) + 2 + mostExtensions w + 4 := by
  obtain ⟨-, -, -, hname⟩ := nearestName_some_iff.mp hnear
  have hbounds := found_bounds (extends_padded hw).length hname
  omega

/-- If the first extension is not known then it is the name. -/
theorem nearest_first (hw : w.length ≤ 1024) (hnear : nearestName w = .ok (some (k, len)))
    (hm : w.length ≤ extensionsOff (padded w) + 2) : k = extensionsOff (padded w) + 6 := by
  obtain ⟨-, -, -, hname⟩ := nearestName_some_iff.mp hnear
  obtain ⟨-, -, ⟨-, -, rfl, -⟩ | ⟨hother, -⟩⟩ :=
    (findServerName_some_iff (extends_padded hw).length).mp hname
  · rfl
  · exact absurd (word_padded_of_le hm) hother

/-- A buffer in which the walk comes to the nearest name. -/
structure Steered (w : List UInt8) (k : ℕ) (c : List UInt8) : Prop extends Extends w c where
  hello : c.getD (helloOff (padded w)) 0 = 1
  opening : ∀ i, sessionIdOff (padded w) ≤ i → i < extensionsOff (padded w) →
    (padded w).getD i 0 = c.getD i 0
  total : k < extensionsOff (padded w) + 2 + word c (extensionsOff (padded w)) + 4
  extensions : ∀ i, extensionsOff (padded w) + 2 ≤ i → i + 1 < k →
    (padded w).getD i 0 = c.getD i 0

theorem Steered.found (h16 : 16 ≤ w.length) (hw : w.length ≤ 1024) (hs : Steered w k c)
    (hnear : nearestName w = .ok (some (k, len))) :
    clientHelloSni c = .ok (some (k, word c (k - 2))) := by
  have hpad := extends_padded hw
  have hstart : ∀ i < 16, (padded w).getD i 0 = c.getD i 0 :=
    fun i hi => hs.toExtends.padded_eq (by omega)
  obtain ⟨hframe, -, hfits, hname⟩ := nearestName_some_iff.mp hnear
  rw [clientHelloSni_some_iff hs.length, ← helloOff_congr hstart,
    ← extensionsOff_congr hpad.length hs.length hstart hs.opening, hs.known 0 (by omega)]
  exact ⟨hframe, hs.hello, hfits,
    findServerName_follow hpad.length hs.length hs.extensions hs.total hname⟩

theorem steer_of_le (he : extensionsOff (padded w) + 6 ≤ k) (hi : k ≤ i) : steer w k i = 0 := by
  have hoff := offsets_ascend (padded w)
  rw [steer, if_neg (by omega), if_neg (by omega), if_neg (by omega), if_neg (by omega)]

theorem steer_low (he : extensionsOff (padded w) < w.length) :
    steer w k (extensionsOff (padded w) + 1) = 255 := by
  have hoff := offsets_ascend (padded w)
  rw [steer, if_neg (by omega), if_neg (by omega), if_pos rfl, if_pos he]

section Filled

variable (h16 : 16 ≤ w.length) (hw : w.length ≤ 1024)
  (hnear : nearestName w = .ok (some (k, len))) (hf : ∀ i < k, f i = steer w k i)

include hw hnear

theorem getD_filledOut_below (hi : i < k) :
    (filledOut w f).getD i 0 = if i < w.length then w.getD i 0 else f i := by
  have hbounds := nearest_bounds hw hnear
  exact getD_filledOut (by omega)

/-- The length of the extensions, if the first byte of it is known. -/
theorem word_filledOut (he : extensionsOff (padded w) < w.length)
    (hlow : f (extensionsOff (padded w) + 1) = 255) :
    word (filledOut w f) (extensionsOff (padded w)) = mostExtensions w := by
  have hbounds := nearest_bounds hw hnear
  have hhigh : w.getD (extensionsOff (padded w)) 0 = w.getD (extensionsOff (padded w)) 255 := by
    rw [List.getD_eq_getElem _ _ he, List.getD_eq_getElem _ _ he]
  rw [word, mostExtensions, getD_filledOut_below hw hnear (by omega), if_pos he, hhigh,
    getD_filledOut_below hw hnear (by omega), hlow]
  split_ifs with hknown
  · rw [List.getD_eq_getElem _ _ hknown, List.getD_eq_getElem _ _ hknown]
  · rw [List.getD_eq_default _ _ (not_lt.mp hknown)]

/-- The bytes between the fields that are steered. -/
theorem getD_filledOut_between (hi : i < k) (hh : i ≠ helloOff (padded w))
    (he : i < extensionsOff (padded w) ∨ extensionsOff (padded w) + 2 ≤ i ∧ i + 1 < k)
    (hsteer : f i = steer w k i) : (padded w).getD i 0 = (filledOut w f).getD i 0 := by
  have hbounds := nearest_bounds hw hnear
  rw [getD_filledOut_below hw hnear hi, hsteer]
  split_ifs with hknown
  · exact getD_padded w i
  · rw [getD_padded_of_le (not_lt.mp hknown), steer, if_neg hh, if_neg (by omega),
      if_neg (by omega), if_neg (by omega)]

include hf

theorem steered_filledOut : Steered w k (filledOut w f) := by
  have hbounds := nearest_bounds hw hnear
  have hoff := offsets_ascend (padded w)
  refine ⟨extends_filledOut hw f, ?_, ?_, ?_, ?_⟩
  · obtain ⟨-, htype, -⟩ := nearestName_some_iff.mp hnear
    rw [getD_filledOut_below hw hnear (by omega), hf _ (by omega)]
    split_ifs with hknown
    · rwa [List.getD_eq_getElem _ _ hknown, ← List.getD_eq_getElem _ 1 hknown]
    · rw [steer, if_pos rfl]
  · intro i hi hlt
    exact getD_filledOut_between hw hnear (by omega) (by omega) (.inl hlt) (hf _ (by omega))
  · by_cases he : extensionsOff (padded w) < w.length
    · rw [word_filledOut hw hnear he (by rw [hf _ (by omega), steer_low he])]
      exact hbounds.2.2
    · have hfirst := nearest_first hw hnear (by omega)
      have hhigh : (filledOut w f).getD (extensionsOff (padded w)) 0 = 255 := by
        rw [getD_filledOut_below hw hnear (by omega), if_neg he, hf _ (by omega), steer,
          if_neg (by omega), if_pos rfl]
      have h255 : (255 : UInt8).toNat = 255 := rfl
      rw [word, hhigh]
      omega
  · intro i hi hlt
    exact getD_filledOut_between hw hnear (by omega) (by omega) (.inr ⟨hi, hlt⟩) (hf _ (by omega))

theorem word_filledOut_name (hk : w.length < k) : 255 ≤ word (filledOut w f) (k - 2) := by
  have hbounds := nearest_bounds hw hnear
  have hoff := offsets_ascend (padded w)
  have hsub : k - 2 + 1 = k - 1 := by omega
  have hlow : (filledOut w f).getD (k - 1) 0 = 255 := by
    rw [getD_filledOut_below hw hnear (by omega), if_neg (by omega), hf _ (by omega), steer,
      if_neg (by omega), if_neg (by omega), if_neg (by omega), if_pos rfl]
  have h255 : (255 : UInt8).toNat = 255 := rfl
  rw [word, hsub, hlow]
  omega

end Filled

/-! ### One byte that changes the name -/

section Turned

variable (h16 : 16 ≤ w.length) (hw : w.length ≤ 1024)
  (hnear : nearestName w = .ok (some (k, len))) (hm : w.length ≤ q) (hq : q < k)

/-- The way to the nearest name, with one other byte. -/
def turned (w : List UInt8) (k q : ℕ) (v : UInt8) : List UInt8 :=
  filledOut w (Function.update (steer w k) q v)

theorem length_turned : (turned w k q v).length = 1024 := by
  simp [turned, filledOut]

include hw hnear hm hq

theorem getD_turned : (turned w k q v).getD q 0 = v := by
  rw [turned, getD_filledOut_below hw hnear hq, if_neg (by omega), Function.update_self]

theorem turned_zeros (hi : k ≤ i) : (turned w k q v).getD i 0 = 0 := by
  have hbounds := nearest_bounds hw hnear
  by_cases h1024 : i < 1024
  · rw [turned, getD_filledOut h1024, if_neg (by omega), Function.update_of_ne (by omega),
      steer_of_le hbounds.1 hi]
  · exact List.getD_eq_default _ _ (by rw [length_turned]; omega)

omit hm hq in
theorem turned_between (hi : i < k) (hne : i ≠ q) (hh : i ≠ helloOff (padded w))
    (he : i < extensionsOff (padded w) ∨ extensionsOff (padded w) + 2 ≤ i ∧ i + 1 < k) :
    (padded w).getD i 0 = (turned w k q v).getD i 0 :=
  getD_filledOut_between hw hnear hi hh he (Function.update_of_ne hne _ _)

theorem nameIn_turned_far (hfar : k ≤ extensionsOff (turned w k q v)) :
    nameIn (turned w k q v) = none :=
  nameIn_far length_turned (fun _ hi => turned_zeros hw hnear hm hq hi) hfar

end Turned

section Exists

variable (h16 : 16 ≤ w.length) (hw : w.length ≤ 1024)
  (hnear : nearestName w = .ok (some (k, len)))

include h16 hw

theorem turned_start (hi : i < 16) : (padded w).getD i 0 = (turned w k q v).getD i 0 :=
  (extends_filledOut hw _).padded_eq (by omega)

include hnear

/-- Without the type of a ClientHello there is no name. -/
theorem nameIn_turned_hello (hm : w.length ≤ helloOff (padded w)) :
    nameIn (turned w k (helloOff (padded w)) 0) = none := by
  have hbounds := nearest_bounds hw hnear
  have hoff := offsets_ascend (padded w)
  apply nameIn_not_found
  intro k' len' hfound
  obtain ⟨-, htype, -⟩ := (clientHelloSni_some_iff length_turned).mp hfound
  rw [← helloOff_congr fun i hi => turned_start h16 hw hi,
    getD_turned hw hnear hm (by omega)] at htype
  exact absurd htype (by decide)

theorem nameIn_turned_session (hm : w.length ≤ sessionIdOff (padded w)) :
    nameIn (turned w k (sessionIdOff (padded w)) 255) = none := by
  have hoff := offsets_ascend (padded w)
  have hfirst := nearest_first hw hnear (by omega)
  have hz : ∀ i, sessionIdOff (padded w) ≤ i → ((padded w).getD i 0).toNat = 0 := by
    intro i hi
    rw [getD_padded_of_le (hm.trans hi)]
    rfl
  have hcipher : cipherSuitesOff (padded w) = sessionIdOff (padded w) + 1 := by
    rw [cipherSuitesOff, hz _ le_rfl]
  have hcompression : compressionOff (padded w) = cipherSuitesOff (padded w) + 2 := by
    rw [compressionOff_eq (extends_padded hw).length, word_padded_of_le (by omega)]
  have hextensions : extensionsOff (padded w) = compressionOff (padded w) + 1 := by
    rw [extensionsOff, hz _ (by omega)]
  have hsession : sessionIdOff (turned w k (sessionIdOff (padded w)) 255) =
      sessionIdOff (padded w) := by
    rw [sessionIdOff, ← helloOff_congr fun i hi => turned_start h16 hw hi, ← sessionIdOff]
  have hlonger : cipherSuitesOff (turned w k (sessionIdOff (padded w)) 255) =
      sessionIdOff (padded w) + 1 + 255 := by
    rw [cipherSuitesOff, hsession, getD_turned hw hnear hm (by omega)]
    rfl
  have hoff' := offsets_ascend (turned w k (sessionIdOff (padded w)) 255)
  exact nameIn_turned_far hw hnear hm (by omega) (by omega)

theorem nameIn_turned_cipher (hsession : sessionIdOff (padded w) < w.length)
    (hm : w.length < cipherSuitesOff (padded w) + 2) :
    nameIn (turned w k (max w.length (cipherSuitesOff (padded w))) 255) = none := by
  have hoff := offsets_ascend (padded w)
  have hfirst := nearest_first hw hnear (by omega)
  have hextensions : extensionsOff (padded w) = compressionOff (padded w) + 1 := by
    rw [extensionsOff, getD_padded_of_le (by omega)]
    rfl
  generalize hq : max w.length (cipherSuitesOff (padded w)) = q
  have hwq : w.length ≤ q := by omega
  have hqk : q < k := by omega
  have hbyte := getD_turned (v := 255) hw hnear hwq hqk
  have hcipher : cipherSuitesOff (padded w) = cipherSuitesOff (turned w k q 255) :=
    cipherSuitesOff_congr (fun i hi => turned_start h16 hw hi)
      ((extends_filledOut hw _).padded_eq hsession)
  have h255 : (255 : UInt8).toNat = 255 := rfl
  have hlonger : word (padded w) (cipherSuitesOff (padded w)) + 255 ≤
      word (turned w k q 255) (cipherSuitesOff (padded w)) := by
    by_cases hhigh : w.length ≤ cipherSuitesOff (padded w)
    · obtain rfl : cipherSuitesOff (padded w) = q := by omega
      rw [word_padded_of_le hhigh, word, hbyte]
      omega
    · have hlow : q = cipherSuitesOff (padded w) + 1 := by omega
      have hknown : (padded w).getD (cipherSuitesOff (padded w)) 0 =
          (turned w k q 255).getD (cipherSuitesOff (padded w)) 0 :=
        (extends_filledOut hw _).padded_eq (by omega)
      rw [word, word, ← hlow, hbyte, ← hknown, getD_padded_of_le hwq, UInt8.toNat_zero]
      omega
  have hcompression := compressionOff_eq (extends_padded hw).length
  have hcompression' : compressionOff (turned w k q 255) = _ :=
    compressionOff_eq length_turned
  have hoff' := offsets_ascend (turned w k q 255)
  rw [← hcipher] at hcompression'
  exact nameIn_turned_far hw hnear hwq hqk (by omega)

theorem nameIn_turned_compression (hcipher : cipherSuitesOff (padded w) + 2 ≤ w.length)
    (hm : w.length ≤ compressionOff (padded w)) :
    nameIn (turned w k (compressionOff (padded w)) 255) = none := by
  have hoff := offsets_ascend (padded w)
  have hfirst := nearest_first hw hnear (by omega)
  have hextensions : extensionsOff (padded w) = compressionOff (padded w) + 1 := by
    rw [extensionsOff, getD_padded_of_le hm]
    rfl
  have hcompression : compressionOff (padded w) =
      compressionOff (turned w k (compressionOff (padded w)) 255) :=
    compressionOff_congr (extends_padded hw).length length_turned
      (fun i hi => turned_start h16 hw hi)
      fun i _ hlt => (extends_filledOut hw _).padded_eq (by omega)
  have hlonger : extensionsOff (turned w k (compressionOff (padded w)) 255) =
      compressionOff (padded w) + 1 + 255 := by
    rw [extensionsOff, ← hcompression, getD_turned hw hnear hm (by omega)]
    rfl
  exact nameIn_turned_far hw hnear hm (by omega) (by omega)

/-- From the length of the extensions on, the walk is still the same. -/
theorem extensionsOff_turned (hq : extensionsOff (padded w) ≤ q) :
    extensionsOff (turned w k q v) = extensionsOff (padded w) := by
  have hbounds := nearest_bounds hw hnear
  have hoff := offsets_ascend (padded w)
  refine (extensionsOff_congr (extends_padded hw).length length_turned
    (fun i hi => turned_start h16 hw hi) fun i hi hlt => ?_).symm
  exact turned_between hw hnear (by omega) (by omega) (by omega) (.inl hlt)

theorem nameIn_turned_total (hm : w.length ≤ extensionsOff (padded w)) :
    nameIn (turned w k (extensionsOff (padded w)) 0) = none := by
  have hbounds := nearest_bounds hw hnear
  have hoff := offsets_ascend (padded w)
  apply nameIn_not_found
  intro k' len' hfound
  obtain ⟨-, -, -, hname⟩ := (clientHelloSni_some_iff length_turned).mp hfound
  have hbounds' := found_bounds length_turned hname
  have hlow : (turned w k (extensionsOff (padded w)) 0).getD (extensionsOff (padded w) + 1) 0 =
      0 := by
    rw [turned, getD_filledOut_below hw hnear (by omega), if_neg (by omega),
      Function.update_of_ne (by omega), steer, if_neg (by omega), if_neg (by omega), if_pos rfl,
      if_neg (by omega)]
  have htotal : word (turned w k (extensionsOff (padded w)) 0) (extensionsOff (padded w)) = 0 := by
    rw [word, getD_turned hw hnear hm (by omega), hlow]
    rfl
  have hlast := hbounds'.1
  rw [extensionsOff_turned h16 hw hnear le_rfl, htotal] at hlast
  omega

/-- A byte in the extensions. -/
theorem exists_turned_extension (hm : extensionsOff (padded w) < w.length)
    (hk : w.length + 2 < k) :
    ∃ q v, w.length ≤ q ∧ q < k ∧
      (q = firstStaleExtension (padded w) w.length 32 (extensionsOff (padded w) + 2) ∨
        q < w.length + 10) ∧ nameIn (turned w k q v) = none := by
  have hoff := offsets_ascend (padded w)
  obtain ⟨-, -, -, hname⟩ := nearestName_some_iff.mp hnear
  obtain ⟨q, v, hwq, hq, hqk, hp, hturn⟩ := exists_turn hw hk hname
  refine ⟨q, v, hwq, hqk, hp, nameIn_eq_none fun k' len' hfound => ?_⟩
  have hlow : Function.update (steer w k) q v (extensionsOff (padded w) + 1) = 255 := by
    rw [Function.update_of_ne (by omega), steer_low hm]
  have htotal : word (turned w k q v) (extensionsOff (padded w)) = mostExtensions w :=
    word_filledOut hw hnear hm hlow
  obtain ⟨-, -, -, hname'⟩ := (clientHelloSni_some_iff length_turned).mp hfound
  rw [extensionsOff_turned h16 hw hnear (by omega), htotal] at hname'
  refine hturn _ length_turned (fun i hi hlt hne => ?_)
    (fun i hi => turned_zeros hw hnear hwq hqk hi) (getD_turned hw hnear hwq hqk) k' len' hname'
  exact (turned_between hw hnear (by omega) hne (by omega) (.inr ⟨hi, hlt⟩)).symm

/-- A byte on the way to a name behind the known ones, without which there is none. -/
theorem exists_turned (hk : w.length + 2 < k) :
    ∃ q v, w.length ≤ q ∧ q < k ∧ (q = firstStale w ∨ q < w.length + 10) ∧
      nameIn (turned w k q v) = none := by
  have hbounds := nearest_bounds hw hnear
  have hoff := offsets_ascend (padded w)
  by_cases hhello : w.length ≤ helloOff (padded w)
  · refine ⟨_, _, hhello, by omega, .inl ?_, nameIn_turned_hello h16 hw hnear hhello⟩
    simp only [firstStale]
    rw [if_pos hhello]
  by_cases hsession : w.length ≤ sessionIdOff (padded w)
  · refine ⟨_, _, hsession, by omega, .inl ?_, nameIn_turned_session h16 hw hnear hsession⟩
    simp only [firstStale]
    rw [if_neg hhello, if_pos hsession]
  by_cases hcipher : w.length < cipherSuitesOff (padded w) + 2
  · refine ⟨_, _, le_max_left _ _, by omega, .inl ?_,
      nameIn_turned_cipher h16 hw hnear (not_le.mp hsession) hcipher⟩
    simp only [firstStale]
    rw [if_neg hhello, if_neg hsession, if_pos hcipher]
  by_cases hcompression : w.length ≤ compressionOff (padded w)
  · refine ⟨_, _, hcompression, by omega, .inl ?_,
      nameIn_turned_compression h16 hw hnear (not_lt.mp hcipher) hcompression⟩
    simp only [firstStale]
    rw [if_neg hhello, if_neg hsession, if_neg hcipher, if_pos hcompression]
  by_cases hextensions : w.length ≤ extensionsOff (padded w)
  · refine ⟨_, _, hextensions, by omega, .inl ?_,
      nameIn_turned_total h16 hw hnear hextensions⟩
    simp only [firstStale]
    rw [if_neg hhello, if_neg hsession, if_neg hcipher, if_neg hcompression,
      if_pos (by omega), max_eq_right hextensions]
  · obtain ⟨q, v, hwq, hqk, hp, hnone⟩ :=
      exists_turned_extension h16 hw hnear (not_le.mp hextensions) hk
    refine ⟨q, v, hwq, hqk, ?_, hnone⟩
    by_cases hlast : w.length < extensionsOff (padded w) + 2
    · have hfirst : firstStaleExtension (padded w) w.length 32 (extensionsOff (padded w) + 2) =
          max w.length (extensionsOff (padded w) + 2) := by
        rw [firstStaleExtension, if_pos (by omega)]
      omega
    · have hstale : firstStale w =
          firstStaleExtension (padded w) w.length 32 (extensionsOff (padded w) + 2) := by
        simp only [firstStale]
        rw [if_neg hhello, if_neg hsession, if_neg hcipher, if_neg hcompression, if_neg hlast]
      rwa [hstale]

end Exists

theorem asks_cases (h : asks w = some p) : ∃ k len, nearestName w = .ok (some (k, len)) ∧
    (w.length < k ∧ p = firstStale w ∨
      k ≤ w.length ∧ p = max w.length (k + 5) ∧ p < k + min len 66) := by
  rw [asks] at h
  split at h
  · rename_i k len hnear
    refine ⟨k, len, hnear, ?_⟩
    split_ifs at h with hk hname
    · exact .inl ⟨hk, (Option.some.inj h).symm⟩
    · have heq := Option.some.inj h
      exact .inr ⟨not_lt.mp hk, heq.symm, heq ▸ hname⟩
  · cases h

/-- Two names of one length that differ in a byte. -/
theorem nameIn_ne {b : List UInt8} (ha : a.length = 1024) (hb : b.length = 1024)
    (hfound : clientHelloSni a = .ok (some (k, len)))
    (hfound' : clientHelloSni b = .ok (some (k, len))) (h5 : k + 5 ≤ i) (hi : i < k + min len 66)
    (hne : a.getD i 0 ≠ b.getD i 0) : nameIn a ≠ nameIn b := by
  obtain ⟨-, -, -, hname⟩ := (clientHelloSni_some_iff ha).mp hfound
  have hbounds := found_bounds ha hname
  rw [nameIn_found hfound, nameIn_found hfound', if_pos (by omega), if_pos (by omega)]
  intro heq
  exact comparedBytes_ne ha hb (by omega) h5 hi hne (Option.some.inj heq)

theorem getD_filledOut_ne {g : ℕ → UInt8} (hi : i < 1024) (hm : w.length ≤ i) (hne : f i ≠ g i) :
    (filledOut w f).getD i 0 ≠ (filledOut w g).getD i 0 := by
  rwa [getD_filledOut hi, getD_filledOut hi, if_neg (by omega), if_neg (by omega)]

theorem getD_filledOut_update (hne : i ≠ q) :
    (filledOut w f).getD i 0 = (filledOut w (Function.update f q v)).getD i 0 := by
  by_cases hi : i < 1024
  · rw [getD_filledOut hi, getD_filledOut hi, Function.update_of_ne hne]
  · rw [List.getD_eq_default _ _ (by simp [filledOut]; omega),
      List.getD_eq_default _ _ (by simp [filledOut]; omega)]

/-- A byte that is asked for makes a difference: the byte itself, or where a field is known in part
only, one of the next few. -/
theorem exists_nameIn_ne (h16 : 16 ≤ w.length) (hw : w.length ≤ 1024) (h : asks w = some p) :
    ∃ a b, Extends w a ∧ Extends w b ∧ nameIn a ≠ nameIn b ∧
      ∀ i, i ≠ p → w.length + 10 ≤ i → a.getD i 0 = b.getD i 0 := by
  obtain ⟨k, len, hnear, hcase⟩ := asks_cases h
  have hbounds := nearest_bounds hw hnear
  by_cases hk : w.length < k
  swap
  · -- the name starts among the known bytes, and ends behind them
    obtain ⟨-, hp, hlt⟩ : _ ∧ p = max w.length (k + 5) ∧ p < k + min len 66 := by
      rcases hcase with hstale | hname
      · exact absurd hstale.1 hk
      · exact hname
    have hfound : ∀ f, clientHelloSni (filledOut w f) = .ok (some (k, len)) := fun f =>
      (nearestName_known_iff h16 (extends_filledOut hw f) hw (not_lt.mp hk)).mp hnear
    refine ⟨_, _, extends_filledOut hw fun _ => 0, extends_filledOut hw (Function.update _ p 1),
      nameIn_ne (extends_filledOut hw _).length (extends_filledOut hw _).length (hfound _)
        (hfound _) (show k + 5 ≤ p by omega) hlt ?_, fun i hi _ => getD_filledOut_update hi⟩
    exact getD_filledOut_ne (by omega) (by omega) (by simp)
  have hsteered : Steered w k (filledOut w (steer w k)) :=
    steered_filledOut hw hnear fun _ _ => rfl
  have hfound := hsteered.found h16 hw hnear
  have hlen := word_filledOut_name hw hnear (fun _ _ => rfl) hk
  by_cases hnext : k ≤ w.length + 2
  · -- the length of the name is not all known
    have hf : ∀ i < k, Function.update (steer w k) (k + 5) 1 i = steer w k i :=
      fun i hi => Function.update_of_ne (by omega) _ _
    have hother : Steered w k (filledOut w (Function.update (steer w k) (k + 5) 1)) :=
      steered_filledOut hw hnear hf
    have hsame : word (filledOut w (steer w k)) (k - 2) =
        word (filledOut w (Function.update (steer w k) (k + 5) 1)) (k - 2) :=
      word_congr (getD_filledOut_update (by omega)) (getD_filledOut_update (by omega))
    have hfound' := hother.found h16 hw hnear
    rw [← hsame] at hfound'
    refine ⟨_, _, hsteered.toExtends, hother.toExtends,
      nameIn_ne hsteered.length hother.length hfound hfound' (le_refl (k + 5)) (by omega) ?_,
      fun i _ hi => getD_filledOut_update (by omega)⟩
    refine getD_filledOut_ne (by omega) (by omega) ?_
    rw [Function.update_self, steer_of_le hbounds.1 (by omega)]
    decide
  · obtain ⟨q, v, hwq, hqk, hq, hnone⟩ := exists_turned h16 hw hnear (by omega)
    obtain rfl : p = firstStale w := by
      rcases hcase with hstale | hname
      · exact hstale.2
      · omega
    refine ⟨_, _, hsteered.toExtends, extends_filledOut hw (Function.update (steer w k) q v), ?_,
      fun i hi hle => getD_filledOut_update (by omega)⟩
    rw [← turned, hnone, nameIn_found hfound, if_pos (by omega)]
    exact Option.some_ne_none _

end Depends

end Udpgrm
