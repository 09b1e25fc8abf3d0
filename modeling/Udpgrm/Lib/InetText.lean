import Mathlib.Data.List.Basic
import Mathlib.Tactic.Common
import Mathlib.Tactic.Ring
import Udpgrm.Lib.BigEndian

/-! Internet addresses as text. An address is made of words as they stand in memory. -/
namespace InetText

/-- What an IPv4 address is written with. -/
def isAddr4Char (c : Char) : Bool := c.isDigit || c = '.'

/-- What an IPv6 address is written with. -/
def isAddr6Char (c : Char) : Bool :=
  c.isDigit || ('a' ≤ c && c ≤ 'f') || ('A' ≤ c && c ≤ 'F') || c = ':' || c = '.'

/-- `inet_ntop`, with buffers of 16 and 48 bytes, and `inet_pton`. The parsers read back what the
printers write and accept only addresses. -/
structure Inet where
  ntop4 : UInt32 → List Char
  ntop6 : Vector UInt32 4 → List Char
  pton4 : List Char → Option UInt32
  pton6 : List Char → Option (Vector UInt32 4)
  ntop4_fits : ∀ ip, (ntop4 ip).length < 16
  ntop6_fits : ∀ ip, (ntop6 ip).length < 48
  pton4_ntop4 : ∀ ip, pton4 (ntop4 ip) = some ip
  pton6_ntop6 : ∀ ip, pton6 (ntop6 ip) = some ip
  pton4_addr : ∀ s ip, pton4 s = some ip → ∀ c ∈ s, isAddr4Char c = true
  pton6_addr : ∀ s ip, pton6 s = some ip → 2 ≤ s.count ':' ∧ ∀ c ∈ s, isAddr6Char c = true

section Laws

variable {net : Inet} {s : List Char}

theorem ntop4_addr (net : Inet) (ip : UInt32) : ∀ c ∈ net.ntop4 ip, isAddr4Char c = true :=
  net.pton4_addr _ ip (net.pton4_ntop4 ip)

/-- A string with at most one colon, or with a bracket, is no IPv6 address. -/
theorem pton6_eq_none (h : s.count ':' ≤ 1 ∨ '[' ∈ s) : net.pton6 s = none := by
  cases hs : net.pton6 s with
  | none => rfl
  | some ip =>
    obtain ⟨hcount, hchars⟩ := net.pton6_addr s ip hs
    rcases h with h | h
    · omega
    · exact absurd (hchars _ h) (by decide)

end Laws

/-! ### The plain form -/

def digitValue (c : Char) : ℕ := if c.isDigit then c.toNat - 48 else c.toNat - 87

def ofDigits (b : ℕ) (s : List Char) : ℕ := s.foldl (fun n c => b * n + digitValue c) 0

/-- Numbers in a base, with a character between them. -/
def joined (b : ℕ) (sep : Char) (ns : List ℕ) : List Char :=
  [sep].intercalate (ns.map (Nat.toDigits b))

def split (b : ℕ) (sep : Char) (s : List Char) : List ℕ := (s.splitOn sep).map (ofDigits b)

section Joined

variable {b m : ℕ} {sep c : Char} {ns : List ℕ} {n : ℕ}

theorem digitValue_digitChar : ∀ d < 16, digitValue (Nat.digitChar d) = d := by
  decide

theorem ofDigits_toDigits (hb : 1 < b) (hb16 : b ≤ 16) : ofDigits b (Nat.toDigits b n) = n := by
  induction n using Nat.strong_induction_on with
  | _ n ih =>
    rw [Nat.toDigits_eq_if hb]
    split_ifs with hn
    · simp [ofDigits, digitValue_digitChar n (by omega)]
    · have hd : n % b < b := Nat.mod_lt n (by omega)
      have hq := ih (n / b) (Nat.div_lt_self (by omega) hb)
      rw [ofDigits, List.foldl_append, ← ofDigits, hq]
      simp only [List.foldl_cons, List.foldl_nil, digitValue_digitChar _ (by omega : n % b < 16)]
      exact Nat.div_add_mod n b

theorem mem_toDigits (hb : 1 < b) (h : c ∈ Nat.toDigits b n) : ∃ d < b, c = Nat.digitChar d := by
  induction n using Nat.strong_induction_on with
  | _ n ih =>
    rw [Nat.toDigits_eq_if hb] at h
    split_ifs at h with hn
    · exact ⟨n, hn, List.mem_singleton.mp h⟩
    · rcases List.mem_append.mp h with h | h
      · exact ih (n / b) (Nat.div_lt_self (by omega) hb) h
      · exact ⟨n % b, Nat.mod_lt n (by omega), List.mem_singleton.mp h⟩

theorem mem_joined (hb : 1 < b) (h : c ∈ joined b sep ns) :
    c = sep ∨ ∃ d < b, c = Nat.digitChar d := by
  induction ns with
  | nil => cases h
  | cons n ns ih =>
    cases ns with
    | nil => exact .inr (mem_toDigits hb (by simpa [joined] using h))
    | cons n' ns =>
      have hmem : c ∈ Nat.toDigits b n ∨ c = sep ∨ c ∈ joined b sep (n' :: ns) := by
        simpa [joined, List.intercalate] using h
      rcases hmem with hmem | hmem | hmem
      · exact .inr (mem_toDigits hb hmem)
      · exact .inl hmem
      · exact ih hmem

theorem split_joined (hb : 1 < b) (hb16 : b ≤ 16) (hsep : ∀ d < b, Nat.digitChar d ≠ sep)
    (hns : ns ≠ []) : split b sep (joined b sep ns) = ns := by
  have hnot : ∀ l ∈ ns.map (Nat.toDigits b), sep ∉ l := by
    intro l hl hmem
    obtain ⟨n, -, rfl⟩ := List.mem_map.mp hl
    obtain ⟨d, hd, rfl⟩ := mem_toDigits hb hmem
    exact hsep d hd rfl
  rw [split, joined, List.splitOn_intercalate sep hnot (by simpa using hns), List.map_map]
  refine (List.map_congr_left fun n _ => ?_).trans (List.map_id ns)
  exact ofDigits_toDigits hb hb16

theorem length_joined (hb : 1 < b) (hm : 0 < m) (hns : ns ≠ []) (h : ∀ n ∈ ns, n < b ^ m) :
    (joined b sep ns).length + 1 ≤ (m + 1) * ns.length := by
  induction ns with
  | nil => exact absurd rfl hns
  | cons n ns ih =>
    have hn := (Nat.length_toDigits_le_iff hb hm).mpr (h n (by simp))
    cases ns with
    | nil =>
      simp only [joined, List.map_cons, List.map_nil, List.intercalate_singleton,
        List.length_singleton]
      omega
    | cons n' ns =>
      have hrest := ih (by simp) fun x hx => h x (by simp [hx])
      have hlen : (joined b sep (n :: n' :: ns)).length =
          (Nat.toDigits b n).length + 1 + (joined b sep (n' :: ns)).length := by
        simp [joined, List.intercalate]
        omega
      rw [hlen, List.length_cons, Nat.mul_succ]
      omega

/-- One separator less than there are numbers. -/
theorem count_joined (hb : 1 < b) (hsep : ∀ d < b, Nat.digitChar d ≠ sep) (hns : ns ≠ []) :
    (joined b sep ns).count sep + 1 = ns.length := by
  induction ns with
  | nil => exact absurd rfl hns
  | cons n ns ih =>
    have hn : (Nat.toDigits b n).count sep = 0 := by
      refine List.count_eq_zero_of_not_mem fun hmem => ?_
      obtain ⟨d, hd, rfl⟩ := mem_toDigits hb hmem
      exact hsep d hd rfl
    cases ns with
    | nil => simpa [joined] using hn
    | cons n' ns =>
      have hcount : (joined b sep (n :: n' :: ns)).count sep =
          1 + (joined b sep (n' :: ns)).count sep := by
        simp [joined, List.intercalate, hn]
        omega
      have hrest := ih (by simp)
      rw [hcount, List.length_cons]
      omega

end Joined

/-! ### Words -/

theorem ofNat_bytes (w : UInt32) :
    UInt32.ofNat (LittleEndian.toNat (LittleEndian.ofNat 4 w.toNat)) = w := by
  have hw : w.toNat < 256 ^ 4 := w.toNat_lt
  rw [LittleEndian.toNat_ofNat, Nat.mod_eq_of_lt hw, UInt32.ofNat_toNat]

/-- The bytes of a word, as they stand in memory. -/
def octets (w : UInt32) : List ℕ := (LittleEndian.ofNat 4 w.toNat).map UInt8.toNat

def ofOctets (ns : List ℕ) : UInt32 := UInt32.ofNat (LittleEndian.toNat (ns.map UInt8.ofNat))

/-- The two halves of a word, each with its first byte the highest. -/
def hextets (w : UInt32) : List ℕ :=
  [BigEndian.toNat (LittleEndian.ofNat 2 w.toNat),
    BigEndian.toNat (LittleEndian.ofNat 2 (w.toNat / 2 ^ 16))]

def ofHextets : List ℕ → List UInt32
  | a :: b :: ns =>
    UInt32.ofNat (LittleEndian.toNat (BigEndian.ofNat 2 a ++ BigEndian.ofNat 2 b)) :: ofHextets ns
  | _ => []

theorem ofOctets_octets (w : UInt32) : ofOctets (octets w) = w := by
  have hmap : ((LittleEndian.ofNat 4 w.toNat).map UInt8.toNat).map UInt8.ofNat =
      LittleEndian.ofNat 4 w.toNat := by
    rw [List.map_map]
    exact (List.map_congr_left fun b _ => UInt8.ofNat_toNat).trans (List.map_id _)
  rw [ofOctets, octets, hmap, ofNat_bytes]

theorem ofHextets_hextets (ws : List UInt32) : ofHextets (ws.flatMap hextets) = ws := by
  induction ws with
  | nil => rfl
  | cons w ws ih =>
    have hbytes (n : ℕ) :
        BigEndian.ofNat 2 (BigEndian.toNat (LittleEndian.ofNat 2 n)) = LittleEndian.ofNat 2 n := by
      have hof := BigEndian.ofNat_toNat (LittleEndian.ofNat 2 n)
      rwa [LittleEndian.length_ofNat] at hof
    have hword : LittleEndian.ofNat 2 w.toNat ++ LittleEndian.ofNat 2 (w.toNat / 2 ^ 16) =
        LittleEndian.ofNat 4 w.toNat := (LittleEndian.ofNat_append 2 2 w.toNat).symm
    rw [List.flatMap_cons, hextets, List.cons_append, List.cons_append, List.nil_append, ofHextets,
      ih, hbytes, hbytes, hword, ofNat_bytes]

theorem octet_lt {w : UInt32} {n : ℕ} (h : n ∈ octets w) : n < 10 ^ 3 := by
  obtain ⟨b, -, rfl⟩ := List.mem_map.mp h
  have hb := b.toNat_lt
  omega

theorem hextet_lt {ws : List UInt32} {n : ℕ} (h : n ∈ ws.flatMap hextets) : n < 16 ^ 4 := by
  obtain ⟨w, -, hn⟩ := List.mem_flatMap.mp h
  have hlt (x : ℕ) : BigEndian.toNat (LittleEndian.ofNat 2 x) < 16 ^ 4 := by
    have hlt := BigEndian.toNat_lt (LittleEndian.ofNat 2 x)
    rwa [LittleEndian.length_ofNat] at hlt
  rcases List.mem_pair.mp hn with rfl | rfl
  · exact hlt _
  · exact hlt _

theorem length_hextets (ws : List UInt32) : (ws.flatMap hextets).length = 2 * ws.length := by
  rw [List.length_flatMap, List.map_congr_left fun w _ => show (hextets w).length = 2 from rfl]
  simp [Nat.mul_comm]

/-! ### The plain form of an address -/

def plainNtop4 (ip : UInt32) : List Char := joined 10 '.' (octets ip)

def plainNtop6 (ip : Vector UInt32 4) : List Char := joined 16 ':' (ip.toList.flatMap hextets)

def plainPton4 (s : List Char) : Option UInt32 :=
  let ip := ofOctets (split 10 '.' s)
  if plainNtop4 ip = s then some ip else none

def plainPton6 (s : List Char) : Option (Vector UInt32 4) :=
  let words := ofHextets (split 16 ':' s)
  let ip : Vector UInt32 4 := Vector.ofFn fun i => words.getD i 0
  if plainNtop6 ip = s then some ip else none

section Plain

variable {s : List Char} {ip : UInt32} {ip6 : Vector UInt32 4}

theorem plainPton4_eq_some (h : plainPton4 s = some ip) : plainNtop4 ip = s := by
  simp only [plainPton4] at h
  split_ifs at h with hs
  rwa [← Option.some.inj h]

theorem plainPton6_eq_some (h : plainPton6 s = some ip6) : plainNtop6 ip6 = s := by
  simp only [plainPton6] at h
  split_ifs at h with hs
  rwa [← Option.some.inj h]

theorem octets_ne_nil (ip : UInt32) : octets ip ≠ [] :=
  List.ne_nil_of_length_pos (by simp [octets])

theorem words_ne_nil (ip6 : Vector UInt32 4) : ip6.toList.flatMap hextets ≠ [] := by
  apply List.ne_nil_of_length_pos
  rw [length_hextets, Vector.length_toList]
  decide

theorem plainPton4_plainNtop4 (ip : UInt32) : plainPton4 (plainNtop4 ip) = some ip := by
  have hip : ofOctets (split 10 '.' (plainNtop4 ip)) = ip := by
    rw [plainNtop4, split_joined (by decide) (by decide) (by decide)
      (octets_ne_nil ip), ofOctets_octets]
  rw [plainPton4, hip]
  exact if_pos rfl

theorem plainPton6_plainNtop6 (ip6 : Vector UInt32 4) :
    plainPton6 (plainNtop6 ip6) = some ip6 := by
  have hwords : ofHextets (split 16 ':' (plainNtop6 ip6)) = ip6.toList := by
    rw [plainNtop6, split_joined (by decide) (by decide) (by decide)
      (words_ne_nil ip6), ofHextets_hextets]
  have hip : (Vector.ofFn fun i : Fin 4 => ip6.toList.getD i 0) = ip6 := by
    ext i hi
    simp
  rw [plainPton6, hwords, hip]
  exact if_pos rfl

theorem plainNtop4_chars : ∀ c ∈ plainNtop4 ip, isAddr4Char c = true := by
  intro c hc
  obtain rfl | ⟨d, hd, rfl⟩ := mem_joined (by decide) hc
  · decide
  · exact (by decide : ∀ d < 10, isAddr4Char (Nat.digitChar d) = true) d hd

theorem plainNtop6_chars : ∀ c ∈ plainNtop6 ip6, isAddr6Char c = true := by
  intro c hc
  obtain rfl | ⟨d, hd, rfl⟩ := mem_joined (by decide) hc
  · decide
  · exact (by decide : ∀ d < 16, isAddr6Char (Nat.digitChar d) = true) d hd

theorem count_plainNtop6 : (plainNtop6 ip6).count ':' = 7 := by
  have hcount : (plainNtop6 ip6).count ':' + 1 = _ :=
    count_joined (by decide) (by decide) (words_ne_nil ip6)
  rw [length_hextets, Vector.length_toList] at hcount
  omega

end Plain

/-- Four decimal numbers, or eight hexadecimal ones, none of them left out. -/
def plain : Inet where
  ntop4 := plainNtop4
  ntop6 := plainNtop6
  pton4 := plainPton4
  pton6 := plainPton6
  ntop4_fits ip := by
    have hlen : (plainNtop4 ip).length + 1 ≤ 4 * _ :=
      length_joined (by decide) (by decide) (octets_ne_nil ip) fun n hn => octet_lt hn
    rw [octets, List.length_map, LittleEndian.length_ofNat] at hlen
    omega
  ntop6_fits ip := by
    have hlen : (plainNtop6 ip).length + 1 ≤ 5 * _ :=
      length_joined (by decide) (by decide) (words_ne_nil ip) fun n hn => hextet_lt hn
    rw [length_hextets, Vector.length_toList] at hlen
    omega
  pton4_ntop4 := plainPton4_plainNtop4
  pton6_ntop6 := plainPton6_plainNtop6
  pton4_addr s ip h := by
    rw [← plainPton4_eq_some h]
    exact plainNtop4_chars
  pton6_addr s ip h := by
    rw [← plainPton6_eq_some h, count_plainNtop6]
    exact ⟨by decide, plainNtop6_chars⟩

end InetText
