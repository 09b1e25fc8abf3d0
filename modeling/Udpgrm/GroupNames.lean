import Udpgrm.Lib.CString
import Udpgrm.Lib.InetText
import Udpgrm.Processes

/-! The names of reuseport groups: how they are printed, and how the commands read them. -/
namespace Udpgrm

open CString InetText

/-! ### Addresses -/

/-- `struct sockaddr_storage` with an IPv4 or IPv6 address. The port is in network order, and the
IPv4 address is the first word. -/
structure Sockaddr where
  family : UInt16
  port : UInt16
  addr : Vector UInt32 4
deriving DecidableEq, Repr

/-- `htons` and `ntohs`. -/
def htons (x : UInt16) : UInt16 := UInt16.ofNat (BigEndian.toNat (LittleEndian.ofNat 2 x.toNat))

theorem htons_htons (x : UInt16) : htons (htons x) = x := by
  have hlt : BigEndian.toNat (LittleEndian.ofNat 2 x.toNat) < 2 ^ 16 := by
    have hlt := BigEndian.toNat_lt (LittleEndian.ofNat 2 x.toNat)
    rwa [LittleEndian.length_ofNat] at hlt
  rw [htons, htons, UInt16.toNat_ofNat', Nat.mod_eq_of_lt hlt,
    BigEndian.toNat_reversed_twice x.toNat_lt]
  exact UInt16.ofNat_toNat

/-- A name as it stands in a `struct sockaddr_storage`. -/
def SockName.stored (name : SockName) : Sockaddr :=
  ⟨name.family.toUInt16, htons name.port, name.addr⟩

def netGetPort (ss : Sockaddr) : ℤ :=
  if ss.family = 2 then (htons ss.port).toNat
  else if ss.family = 10 then (htons ss.port).toNat
  else -1

def skeyFromSs (ss : Sockaddr) : Key :=
  let skey : Key := ⟨ss.family.toUInt8, 0, UInt16.ofInt (netGetPort ss), Vector.replicate 4 0⟩
  if ss.family = 2 then { skey with srcIp6 := #v[ss.addr.get 0, 0, 0, 0] }
  else if ss.family = 10 then { skey with srcIp6 := ss.addr }
  else skey

/-! ### Printing and parsing -/

/-- The buffer `t` of `key_to_str`, but for the zero byte at its end. -/
abbrev KEY_STR_SIZE : ℕ := 63

def keyToStr (net : Inet) (key : Key) : List Char :=
  let a := net.ntop4 (key.srcIp6.get 0)
  let b := net.ntop6 key.srcIp6
  let port := Nat.toDigits 10 key.srcPort.toNat
  if key.family = 2 then (a ++ ':' :: port).take KEY_STR_SIZE
  else if key.family = 10 then ('[' :: b ++ "]:".toList ++ port).take KEY_STR_SIZE
  else
    ("fam=".toList ++ Nat.toDigits 10 key.family.toNat ++ " type=dgram proto=udp ".toList ++ a ++
      "/[".toList ++ b ++ "]:".toList ++ port).take KEY_STR_SIZE

def netGethostbyname (net : Inet) (host : List Char) (port : ℤ) (forceFamily : UInt16) :
    Option Sockaddr :=
  let v4 := if forceFamily = 0 ∨ forceFamily = 2 then net.pton4 host else none
  let v6 := if forceFamily = 0 ∨ forceFamily = 10 then net.pton6 host else none
  match v4, v6 with
  | some ip, _ => some ⟨2, htons (UInt16.ofInt port), #v[ip, 0, 0, 0]⟩
  | none, some ip => some ⟨10, htons (UInt16.ofInt port), ip⟩
  | none, none => none

/-- The port behind the last colon, and where the colon stands. Without a port to read it is the
default one, and nothing is cut. -/
def portOf (addr : List Char) (defaultPort : ℤ) : ℤ × Option ℕ :=
  match strrchr ':' addr with
  | none => (defaultPort, none)
  | some colon =>
    let text := addr.drop (colon + 1)
    if text = [] then (defaultPort, none)
    else
      let (port, endptr) := strtol text
      if port < 0 ∨ port > 65535 ∨ endptr ≠ [] then (defaultPort, none) else (port, some colon)

/-- The size of `host`, but for the zero byte at its end. -/
abbrev HOST_SIZE : ℕ := 255

def cutAt (host : List Char) : Option ℕ → List Char
  | some colon => host.take (min colon HOST_SIZE)
  | none => host

def netParseSockaddr (net : Inet) (addr : List Char) (defaultPort : ℤ) : Option Sockaddr :=
  let host := addr.take HOST_SIZE
  match netGethostbyname net host defaultPort 10 with
  | some ss => some ss
  | none =>
    let (port, colon) := portOf addr defaultPort
    let host := cutAt host colon
    if host.head? = some '[' ∧ host.getLast? = some ']' then
      netGethostbyname net host.dropLast.tail port 10
    else netGethostbyname net host port 0

/-- The group that `list`, `flows` and `delete` act on, given its name. -/
def commandKey (net : Inet) (reuseportName : List Char) : Option Key :=
  match netParseSockaddr net reuseportName 0 with
  | none => none
  | some ss => if netGetPort ss = 0 then none else some (skeyFromSs ss)

/-! ### Round trips -/

/-- A key as `_skey_from_bpf_sock` makes it for an IPv4 or IPv6 socket. -/
def GroupKey (k : Key) : Prop :=
  ∃ sk : BpfSock, (sk.family = AF_INET ∨ sk.family = AF_INET6) ∧ k = skeyFromBpfSock sk

section RoundTrip

variable {net : Inet} {k : Key} {ip : UInt32} {ip6 : Vector UInt32 4} {p : UInt16}
  {a host : List Char} {d : ℤ}

theorem groupKey_cases (h : GroupKey k) :
    (∃ ip p, k = ⟨2, 0, p, #v[ip, 0, 0, 0]⟩) ∨ ∃ ip6 p, k = ⟨10, 0, p, ip6⟩ := by
  obtain ⟨sk, hf | hf, rfl⟩ := h
  · refine .inl ⟨sk.srcIp4, sk.srcPort.toUInt16, ?_⟩
    rw [skeyFromBpfSock, if_pos hf, hf]
    rfl
  · refine .inr ⟨sk.srcIp6, sk.srcPort.toUInt16, ?_⟩
    rw [skeyFromBpfSock, if_neg (by rw [hf]; decide), if_pos hf, hf]
    rfl

/-! #### Addresses -/

theorem netGetPort_inet : netGetPort ⟨2, htons p, ip6⟩ = p.toNat := by
  rw [netGetPort, if_pos rfl, htons_htons]

theorem netGetPort_inet6 : netGetPort ⟨10, htons p, ip6⟩ = p.toNat := by
  have hne : ¬ (10 : UInt16) = 2 := by decide
  rw [netGetPort, if_neg hne, if_pos rfl, htons_htons]

theorem ofInt_toNat (p : UInt16) : UInt16.ofInt p.toNat = p := by
  have hp := p.toNat_lt
  apply UInt16.toNat_inj.mp
  rw [UInt16.ofInt, UInt16.toNat_ofNat']
  omega

theorem skeyFromSs_inet :
    skeyFromSs ⟨2, htons p, #v[ip, 0, 0, 0]⟩ = ⟨2, 0, p, #v[ip, 0, 0, 0]⟩ := by
  rw [skeyFromSs, netGetPort_inet, ofInt_toNat]
  rfl

theorem skeyFromSs_inet6 : skeyFromSs ⟨10, htons p, ip6⟩ = ⟨10, 0, p, ip6⟩ := by
  rw [skeyFromSs, netGetPort_inet6, ofInt_toNat]
  rfl

theorem skeyFromSs_sockaddrFromMsgValue (h : GroupKey k) :
    skeyFromSs (sockaddrFromMsgValue k).stored = k := by
  obtain ⟨ip, p, rfl⟩ | ⟨ip6, p, rfl⟩ := groupKey_cases h
  · exact skeyFromSs_inet
  · exact skeyFromSs_inet6

/-! #### Names -/

theorem colon_not_mem_port : ':' ∉ Nat.toDigits 10 p.toNat := fun hc =>
  absurd (Nat.isDigit_of_mem_toDigits (by decide) le_rfl hc) (by decide)

theorem length_port : (Nat.toDigits 10 p.toNat).length ≤ 5 := by
  have hp := p.toNat_lt
  exact (Nat.length_toDigits_le_iff (by decide) (by decide)).mpr (by omega)

theorem portOf_printed :
    portOf (a ++ ':' :: Nat.toDigits 10 p.toNat) d = ((p.toNat : ℤ), some a.length) := by
  have hp := p.toNat_lt
  have htext : (a ++ ':' :: Nat.toDigits 10 p.toNat).drop (a.length + 1) =
      Nat.toDigits 10 p.toNat := by
    rw [← List.drop_drop, List.drop_left, List.drop_succ_cons, List.drop_zero]
  rw [portOf, strrchr_last a colon_not_mem_port]
  dsimp only
  have hmax : ((p.toNat : ℕ) : ℤ) ≤ 65535 := by omega
  rw [htext, if_neg (toDigits_ne_nil _), strtol_toDigits (hmax.trans (by decide))]
  refine if_neg ?_
  rintro (hneg | hlarge | hrest)
  · exact absurd hneg (by omega)
  · exact absurd hlarge (by omega)
  · exact hrest rfl

/-- All of a printed name fits the host buffer, and its address is what stands before the colon. -/
theorem host_printed (h : a.length ≤ 49) :
    (a ++ ':' :: Nat.toDigits 10 p.toNat).take HOST_SIZE = a ++ ':' :: Nat.toDigits 10 p.toNat ∧
      cutAt (a ++ ':' :: Nat.toDigits 10 p.toNat) (some a.length) = a := by
  have hp := length_port (p := p)
  constructor
  · refine List.take_of_length_le ?_
    rw [List.length_append, List.length_cons, HOST_SIZE]
    omega
  · rw [cutAt, HOST_SIZE, Nat.min_eq_left (by omega), List.take_left' rfl]

theorem netGethostbyname_inet6 (port : ℤ) :
    netGethostbyname net host port 10 =
      (net.pton6 host).map fun ip6 => ⟨10, htons (UInt16.ofInt port), ip6⟩ := by
  have hne : ¬ ((10 : UInt16) = 0 ∨ (10 : UInt16) = 2) := by decide
  rw [netGethostbyname, if_neg hne, if_pos (.inr rfl)]
  cases net.pton6 host <;> rfl

theorem keyToStr_inet :
    keyToStr net ⟨2, 0, p, #v[ip, 0, 0, 0]⟩ = net.ntop4 ip ++ ':' :: Nat.toDigits 10 p.toNat := by
  have ha := net.ntop4_fits ip
  have hp := length_port (p := p)
  have hfits : (net.ntop4 ip ++ ':' :: Nat.toDigits 10 p.toNat).length ≤ KEY_STR_SIZE := by
    rw [List.length_append, List.length_cons, KEY_STR_SIZE]
    omega
  exact List.take_of_length_le hfits

theorem keyToStr_inet6 :
    keyToStr net ⟨10, 0, p, ip6⟩ =
      ('[' :: net.ntop6 ip6 ++ [']']) ++ ':' :: Nat.toDigits 10 p.toNat := by
  have hb := net.ntop6_fits ip6
  have hp := length_port (p := p)
  have hfits : ('[' :: net.ntop6 ip6 ++ "]:".toList ++ Nat.toDigits 10 p.toNat).length ≤
      KEY_STR_SIZE := by
    have hsep : "]:".toList.length = 2 := rfl
    rw [List.length_append, List.length_append, List.length_cons, hsep, KEY_STR_SIZE]
    omega
  have htext : "]:".toList = [']'] ++ [':'] := rfl
  refine (List.take_of_length_le hfits).trans ?_
  rw [htext]
  simp

/-- The name of an IPv4 group is cut at its only colon. -/
theorem netParseSockaddr_inet :
    netParseSockaddr net (net.ntop4 ip ++ ':' :: Nat.toDigits 10 p.toNat) d =
      some ⟨2, htons p, #v[ip, 0, 0, 0]⟩ := by
  have ha := net.ntop4_fits ip
  have hcolon : ':' ∉ net.ntop4 ip := fun hc => absurd (ntop4_addr net ip _ hc) (by decide)
  have hbracket : (net.ntop4 ip).head? ≠ some '[' := fun hh =>
    absurd (ntop4_addr net ip _ (List.mem_of_head? hh)) (by decide)
  have hcount : (net.ntop4 ip ++ ':' :: Nat.toDigits 10 p.toNat).count ':' ≤ 1 := by
    rw [List.count_append, List.count_cons_self, List.count_eq_zero_of_not_mem hcolon,
      List.count_eq_zero_of_not_mem colon_not_mem_port]
  obtain ⟨hhost, hcut⟩ := host_printed (p := p) (show (net.ntop4 ip).length ≤ 49 by omega)
  rw [netParseSockaddr, hhost, netGethostbyname_inet6, pton6_eq_none (.inl hcount), portOf_printed]
  dsimp only [Option.map_none]
  rw [hcut, if_neg (fun h => hbracket h.1), netGethostbyname, if_pos (.inl rfl),
    net.pton4_ntop4, ofInt_toNat]

/-- The name of an IPv6 group is cut at the colon behind the bracket. -/
theorem netParseSockaddr_inet6 :
    netParseSockaddr net (('[' :: net.ntop6 ip6 ++ [']']) ++ ':' :: Nat.toDigits 10 p.toNat) d =
      some ⟨10, htons p, ip6⟩ := by
  have hb := net.ntop6_fits ip6
  generalize hname : '[' :: net.ntop6 ip6 ++ [']'] = name
  have hlength : name.length = (net.ntop6 ip6).length + 2 := by
    rw [← hname, List.length_append, List.length_cons]
    rfl
  have hbracket : '[' ∈ name ++ ':' :: Nat.toDigits 10 p.toNat := by
    rw [← hname]
    exact List.mem_cons_self
  obtain ⟨hhost, hcut⟩ := host_printed (p := p) (show name.length ≤ 49 by omega)
  have hends : name.head? = some '[' ∧ name.getLast? = some ']' := by
    rw [← hname]
    exact ⟨rfl, List.getLast?_concat⟩
  have hstrip : name.dropLast.tail = net.ntop6 ip6 := by
    rw [← hname, List.dropLast_concat, List.tail_cons]
  rw [netParseSockaddr, hhost, netGethostbyname_inet6, pton6_eq_none (.inr hbracket),
    portOf_printed]
  dsimp only [Option.map_none]
  rw [hcut, if_pos hends, hstrip, netGethostbyname_inet6, net.pton6_ntop6, ofInt_toNat]
  rfl

theorem netParseSockaddr_keyToStr (net : Inet) (h : GroupKey k) :
    ∃ ss, netParseSockaddr net (keyToStr net k) d = some ss ∧ skeyFromSs ss = k ∧
      netGetPort ss = k.srcPort.toNat := by
  obtain ⟨ip, p, rfl⟩ | ⟨ip6, p, rfl⟩ := groupKey_cases h
  · rw [keyToStr_inet]
    exact ⟨_, netParseSockaddr_inet, skeyFromSs_inet, netGetPort_inet⟩
  · rw [keyToStr_inet6]
    exact ⟨_, netParseSockaddr_inet6, skeyFromSs_inet6, netGetPort_inet6⟩

/-- The printed name of a group is read as its key, so that a command acts on it, and the address in
a message of the ring buffer is that of the key. -/
theorem group_names_round_trip (net : Inet) (h : GroupKey k) (hport : k.srcPort ≠ 0) :
    (netParseSockaddr net (keyToStr net k) 0).map skeyFromSs = some k ∧
      commandKey net (keyToStr net k) = some k ∧
      skeyFromSs (sockaddrFromMsgValue k).stored = k := by
  obtain ⟨ss, hparse, hkey, hget⟩ := netParseSockaddr_keyToStr net (d := 0) h
  have hne : netGetPort ss ≠ 0 := by
    rw [hget]
    exact fun h0 => hport (UInt16.toNat_inj.mp (by exact_mod_cast h0))
  refine ⟨by rw [hparse, Option.map_some, hkey], ?_, skeyFromSs_sockaddrFromMsgValue h⟩
  rw [commandKey, hparse]
  dsimp only
  rw [if_neg hne, hkey]

/-- The group of an IPv6 socket. No part of the address is zero, and the plain form of such an
address is the one that is printed. -/
def inet6Key : Key := ⟨10, 0, 443, #v[0xb80d0120, 0x02000100, 0x04000300, 0x06000500]⟩

theorem group_names_round_trip_inet6 :
    keyToStr plain inet6Key = "[2001:db8:1:2:3:4:5:6]:443".toList ∧
      commandKey plain (keyToStr plain inet6Key) = some inet6Key :=
  have hkey : GroupKey inet6Key :=
    ⟨⟨AF_INET6, 443, 0, #v[0xb80d0120, 0x02000100, 0x04000300, 0x06000500]⟩, .inr rfl,
      by decide⟩
  ⟨by decide, (group_names_round_trip plain hkey (by decide)).2.1⟩

end RoundTrip

end Udpgrm
