import Udpgrm.ClientHello

/-!
Which server names are extracted. A name that starts in the last bytes of the buffer is not, even
if it is short.
-/
namespace Udpgrm

open ByteMemory
open LittleEndian (field)
open QuicInitial (VarintSize)
open TlsHello (Extension Hello Opening)

/-! ### Names that are there -/

/-- The length of the name, and as much of the name as fits. -/
structure NameExtracted (name : Option (List UInt8)) (r : Scratch × Except IErr Unit) : Prop where
  code : r.2 = .ok ()
  length : sniLen r.1 = (name.getD []).length
  bytes : (sni r.1).take (min (name.getD []).length SNI_SIZE) = (name.getD []).take SNI_SIZE

/-- Where the body of the first `server_name` extension starts. -/
def nameOff (o : Opening) (es : List Extension) : ℕ :=
  o.bytes.length + (Extension.listBytes (es.takeWhile (·.type ≠ 0))).length + 4

/-- All of `scratch->sni` can be filled from where the name starts. -/
def NameHasRoom (o : Opening) (es : List Extension) : Prop :=
  (∃ e ∈ es, e.type = 0) → nameOff o es + SNI_SIZE ≤ 1024

section Names

variable {h : Hello} {offsetSize lengthSize : VarintSize} {length : ℕ} {rest : List UInt8}

theorem clientHelloSni_absent (hw : h.WellFormed) (hcount : h.extensions.length ≤ 32)
    (hl : length < lengthSize.limit) (hnone : ∀ e ∈ h.extensions, e.type ≠ 0) :
    clientHelloSni (h.frame offsetSize lengthSize length ++ rest) = .ok none := by
  have hskip : ∀ e ∈ h.extensions, e.type ≠ 0 ∧ e.body.length < 256 ^ 2 := by
    intro e he
    exact ⟨hnone e he, hw.bodies e he⟩
  rw [Hello.frame, List.append_assoc, clientHelloSni_opening (hw.opening hl)]
  exact findServerName_absent hcount hskip

section Present

variable {before after : List Extension} {body : List UInt8}

theorem nameOff_eq (o : Opening) (hes : h.extensions = before ++ ⟨0, body⟩ :: after)
    (hbefore : ∀ e ∈ before, e.type ≠ 0) : nameOff o h.extensions =
      o.bytes.length + (Extension.listBytes before).length + 4 := by
  rw [nameOff, hes, List.takeWhile_append_of_pos (by simpa using hbefore)]
  simp

/-- The buffer is cut before and behind the name. -/
theorem frame_split (hes : h.extensions = before ++ ⟨0, body⟩ :: after) :
    h.frame offsetSize lengthSize length ++ rest =
      (h.opening offsetSize lengthSize length).bytes ++ (Extension.listBytes before ++
        (BigEndian.ofNat 2 0 ++ (BigEndian.ofNat 2 body.length ++
          (body ++ (Extension.listBytes after ++ rest))))) := by
  rw [Hello.frame, hes, Extension.listBytes_append, Extension.listBytes_cons]
  simp [Extension.bytes]

theorem clientHelloSni_present (hw : h.WellFormed) (hcount : h.extensions.length ≤ 32)
    (hl : length < lengthSize.limit) (hes : h.extensions = before ++ ⟨0, body⟩ :: after)
    (hbefore : ∀ e ∈ before, e.type ≠ 0) :
    clientHelloSni (h.frame offsetSize lengthSize length ++ rest) =
      if nameOff (h.opening offsetSize lengthSize length) h.extensions + SNI_SIZE ≤
        (h.frame offsetSize lengthSize length ++ rest).length then
        .ok (some (nameOff (h.opening offsetSize lengthSize length) h.extensions, body.length))
      else .error .load := by
  have hbody : body.length < 256 ^ 2 := hw.bodies ⟨0, body⟩ (by simp [hes])
  have hskip : ∀ e ∈ before, e.type ≠ 0 ∧ e.body.length < 256 ^ 2 := by
    intro e he
    exact ⟨hbefore e he, hw.bodies e (by simp [hes, he])⟩
  have hn : before.length < 32 := by
    rw [hes] at hcount
    simp at hcount
    omega
  have hlast : (h.opening offsetSize lengthSize length).bytes.length +
      (Extension.listBytes before).length <
        (h.opening offsetSize lengthSize length).extensionsEnd := by
    simp [Opening.extensionsEnd, Hello.opening, hes, Extension.listBytes_append,
      Extension.listBytes_cons, Extension.length_bytes]
  rw [nameOff_eq _ hes hbefore, frame_split hes, clientHelloSni_opening (hw.opening hl),
    findServerName_present hn hskip hbody hlast]
  congr 1
  simp [SNI_SIZE]
  omega

theorem field_name {k : ℕ} (hes : h.extensions = before ++ ⟨0, body⟩ :: after)
    (hbefore : ∀ e ∈ before, e.type ≠ 0) (hk : k ≤ body.length) :
    field (h.frame offsetSize lengthSize length ++ rest)
      (nameOff (h.opening offsetSize lengthSize length) h.extensions) k = body.take k := by
  have hsplit : h.frame offsetSize lengthSize length ++ rest =
      ((h.opening offsetSize lengthSize length).bytes ++ Extension.listBytes before ++
        BigEndian.ofNat 2 0 ++ BigEndian.ofNat 2 body.length) ++
          (body.take k ++ (body.drop k ++ (Extension.listBytes after ++ rest))) := by
    rw [← List.append_assoc (body.take k), List.take_append_drop, frame_split hes]
    simp
  rw [nameOff_eq _ hes hbefore, hsplit, field_at (by simp; omega) (by simp [hk])]

end Present

/-- The server name of a ClientHello is found exactly if there is room for the longest name from
where it starts, however short it is. -/
theorem server_name_extracted_iff (s : Scratch) (hw : h.WellFormed)
    (hcount : h.extensions.length ≤ 32) (hl : length < lengthSize.limit)
    (hpkt : s.pkt.toList = h.frame offsetSize lengthSize length ++ rest) :
    NameExtracted h.serverName (parseClientHelloExtractSni (clearSni s)) ↔
      NameHasRoom (h.opening offsetSize lengthSize length) h.extensions := by
  cases hfind : h.extensions.find? (·.type = 0) with
  | none =>
    have hnone : ∀ e ∈ h.extensions, e.type ≠ 0 := by simpa using List.find?_eq_none.mp hfind
    have hname : h.serverName = none := by rw [Hello.serverName, hfind, Option.map_none]
    have hwalk : clientHelloSni s.pkt.toList = .ok none := by
      rw [hpkt]
      exact clientHelloSni_absent hw hcount hl hnone
    rw [parseClientHelloExtractSni_none hwalk, hname]
    constructor
    · rintro - ⟨e, he, htype⟩
      exact absurd htype (hnone e he)
    · intro _
      exact ⟨rfl, sniLen_clearSni s, by simp⟩
  | some e =>
    obtain ⟨htype, before, after, hes, hbefore⟩ := List.find?_eq_some_iff_append.mp hfind
    obtain ⟨type, body⟩ := e
    obtain rfl : type = 0 := by simpa using htype
    have hbefore : ∀ e ∈ before, e.type ≠ 0 := by simpa using hbefore
    have hname : h.serverName = some body := by rw [Hello.serverName, hfind, Option.map_some]
    have hwalk : clientHelloSni (h.frame offsetSize lengthSize length ++ rest) = _ :=
      clientHelloSni_present hw hcount hl hes hbefore
    rw [← hpkt, Vector.length_toList] at hwalk
    by_cases hroom : nameOff (h.opening offsetSize lengthSize length) h.extensions + SNI_SIZE ≤ 1024
    · rw [if_pos hroom] at hwalk
      have hbody : body.length < 256 ^ 2 := hw.bodies ⟨0, body⟩ (by simp [hes])
      obtain ⟨hcode, hlen, hsni⟩ := parseClientHelloExtractSni_found hwalk hroom hbody
      refine ⟨fun _ _ => hroom, fun _ => ⟨hcode, ?_, ?_⟩⟩
      · rw [hlen, hname, Option.getD_some]
      · rw [hpkt, field_name hes hbefore (Nat.min_le_left ..)] at hsni
        rw [hsni, hname, Option.getD_some, List.take_left' (by simp), List.take_eq_take_iff]
        omega
    · rw [if_neg hroom] at hwalk
      rw [parseClientHelloExtractSni_error hwalk]
      constructor
      · intro hext
        have hcode : (Except.error IErr.load : Except IErr Unit) = .ok () := hext.code
        cases hcode
      · intro hcond
        exact absurd (hcond ⟨⟨0, body⟩, by simp [hes], rfl⟩) hroom

end Names

/-- The extension that names the host "a.io". -/
def shortName : Extension := ⟨0, [0, 7, 0, 0, 4, 0x61, 0x2e, 0x69, 0x6f]⟩

/-- A ClientHello with this name behind `k` bytes of padding. -/
def paddedHello (k : ℕ) : Hello :=
  ⟨0x0303, List.replicate 32 0, [], [0x13, 0x01], [0], [⟨21, List.replicate k 0⟩, shortName]⟩

def paddedFrame (k : ℕ) : List UInt8 := (paddedHello k).frame .one .two ((paddedHello k).length + 4)

def paddedPage (k : ℕ) : Scratch :=
  ⟨filled 416 [], filled 16 [], filled 16 [], filled 16 [],
    filled 1024 (paddedFrame k ++ List.replicate (956 - k) 0)⟩

section Padded

variable {k : ℕ}

theorem paddedHello_extensions (k : ℕ) :
    (Extension.listBytes (paddedHello k).extensions).length = 17 + k := by
  simp [paddedHello, Extension.listBytes, Extension.bytes, shortName]
  omega

theorem paddedHello_wellFormed (hk : k ≤ 956) : (paddedHello k).WellFormed := by
  refine ⟨rfl, by simp [paddedHello], by simp [paddedHello], by simp [paddedHello], ?_, ?_⟩
  · simp [paddedHello, shortName]
    omega
  · rw [paddedHello_extensions]
    omega

theorem paddedHello_length (hk : k ≤ 956) :
    (paddedHello k).length + 4 < VarintSize.two.limit := by
  rw [Hello.length, paddedHello_extensions]
  simp [paddedHello, VarintSize.limit, VarintSize.bytes]
  omega

theorem paddedHello_opening (hk : k ≤ 956) :
    ((paddedHello k).opening .one .two ((paddedHello k).length + 4)).bytes.length = 51 := by
  rw [Opening.length_bytes ((paddedHello_wellFormed hk).opening (paddedHello_length hk)),
    Opening.length_frameHeader]
  rfl

theorem paddedPage_pkt (hk : k ≤ 956) :
    (paddedPage k).pkt.toList = paddedFrame k ++ List.replicate (956 - k) 0 := by
  apply toList_filled
  rw [paddedFrame, Hello.frame, List.length_append, List.length_append, paddedHello_opening hk,
    paddedHello_extensions, List.length_replicate]
  omega

theorem paddedHello_nameOff (hk : k ≤ 956) :
    nameOff ((paddedHello k).opening .one .two ((paddedHello k).length + 4))
      (paddedHello k).extensions = 59 + k := by
  have hes : (paddedHello k).extensions = [⟨21, List.replicate k 0⟩] ++ shortName :: [] := rfl
  rw [nameOff_eq _ hes (by simp), paddedHello_opening hk]
  simp [Extension.listBytes, Extension.bytes]
  omega

theorem paddedPage_walk (hk : k ≤ 956) : clientHelloSni (paddedPage k).pkt.toList =
    if 59 + k + SNI_SIZE ≤ 1024 then .ok (some (59 + k, 9)) else .error .load := by
  have hes : (paddedHello k).extensions = [⟨21, List.replicate k 0⟩] ++ shortName :: [] := rfl
  have hwalk : clientHelloSni (paddedFrame k ++ List.replicate (956 - k) 0) = _ :=
    clientHelloSni_present (paddedHello_wellFormed hk) (by simp [paddedHello])
      (paddedHello_length hk) hes (by simp)
  rw [paddedHello_nameOff hk, ← paddedFrame, ← paddedPage_pkt hk, Vector.length_toList] at hwalk
  exact hwalk

end Padded

/-- Behind 800 bytes the name is found. -/
theorem server_name_extracted_padded :
    NameExtracted (some shortName.body) (parseClientHelloExtractSni (clearSni (paddedPage 800))) :=
  (server_name_extracted_iff _ (paddedHello_wellFormed (k := 800) (by decide)) (by decide)
    (paddedHello_length (by decide)) (paddedPage_pkt (by decide))).mpr
    fun _ => (paddedHello_nameOff (k := 800) (by decide)).symm ▸ by decide

/-- Behind 820 bytes it is not, although the message ends 136 bytes before the buffer. -/
theorem server_name_missed :
    (paddedHello 820).WellFormed ∧ (paddedHello 820).extensions.length ≤ 32 ∧
      (paddedPage 820).pkt.toList = (paddedHello 820).frame .one .two
        ((paddedHello 820).length + 4) ++ List.replicate 136 0 ∧
      ¬ NameExtracted (paddedHello 820).serverName
        (parseClientHelloExtractSni (clearSni (paddedPage 820))) := by
  refine ⟨paddedHello_wellFormed (by decide), by decide, paddedPage_pkt (by decide), ?_⟩
  intro hext
  have hwalk := paddedPage_walk (k := 820) (by decide)
  rw [if_neg (by decide)] at hwalk
  have hcode := hext.code
  rw [parseClientHelloExtractSni_error hwalk] at hcode
  cases hcode

end Udpgrm
