import Udpgrm.Wire

/-! The flow key of a remote endpoint, as the packet path, sendmsg and FLOW_ASSURE compute it. -/
namespace Udpgrm

open LittleEndian

/-! ### Remote endpoints as the kernel shows them -/

/-- Address and port, in network byte order. -/
inductive Endpoint
  | inet (ip : Vector UInt8 4) (port : Vector UInt8 2)
  | inet6 (ip : Vector UInt8 16) (port : Vector UInt8 2)
deriving DecidableEq

/-- The address family of the sockets of a group. -/
inductive Family
  | inet
  | inet6
deriving DecidableEq

/-- Sockets of either family receive from IPv4 endpoints, AF_INET6 sockets also from IPv6. -/
def Family.receives : Family → Endpoint → Prop
  | .inet, .inet _ _ => True
  | .inet, .inet6 _ _ => False
  | .inet6, _ => True

/-- ::ffff:0:0/96, the IPv4 addresses in IPv6 form. -/
def mappedNet : List UInt8 := List.replicate 10 0 ++ [0xff, 0xff]

def v4Mapped (ip : Vector UInt8 16) : Prop := ip.toList.take 12 = mappedNet

instance (ip : Vector UInt8 16) : Decidable (v4Mapped ip) :=
  inferInstanceAs (Decidable (_ = _))

/-- A packet from the endpoint: the source address in its IP header, the source port at the
start of its UDP header. -/
def ReceivedFrom (md : Md) : Endpoint → Prop
  | .inet ip port => md.ethProtocol = ETH_P_IP ∧
      loadBytes md.net 12 4 = some ip.toList ∧ loadBytes md.data 0 2 = some port.toList
  | .inet6 ip port => md.ethProtocol = ETH_P_IPV6 ∧
      loadBytes md.net 8 16 = some ip.toList ∧ loadBytes md.data 0 2 = some port.toList

/-- What the sendmsg hooks see of a datagram to the endpoint. A v4-mapped destination runs
the sendmsg4 hook. -/
def sentTo : Endpoint → SockAddr
  | .inet ip port => .inet ip.toList port.toList
  | .inet6 ip port =>
    if v4Mapped ip then .inet (ip.toList.drop 12) port.toList
    else .inet6 ip.toList port.toList

/-- `struct sockaddr_in`. -/
def sockaddrIn (ip port : List UInt8) : List UInt8 :=
  [2, 0] ++ (port ++ (ip ++ List.replicate 8 0))

/-- `struct sockaddr_in6`. -/
def sockaddrIn6 (ip port : List UInt8) (flowinfo scope : Vector UInt8 4) : List UInt8 :=
  [10, 0] ++ (port ++ (flowinfo.toList ++ (ip ++ scope.toList)))

/-- The address that recvfrom reports on a socket of the family. -/
def recvfromAddr (flowinfo scope : Vector UInt8 4) : Family → Endpoint → List UInt8
  | .inet, .inet ip port => sockaddrIn ip.toList port.toList
  | .inet6, .inet ip port => sockaddrIn6 (mappedNet ++ ip.toList) port.toList flowinfo scope
  | _, .inet6 ip port => sockaddrIn6 ip.toList port.toList flowinfo scope

/-! ### The three computations -/

/-- The bytes hashed by `dissector_flow`. -/
def packetKey (groupId : UInt32) (md : Md) : Option (List UInt8) :=
  (dissectorFlow md).map fun r => (r.flow groupId).toBytes

/-- The bytes hashed by `_udp_sendmsg`. -/
def sendmsgKey (groupId : UInt32) (dst : SockAddr) : List UInt8 :=
  ((remoteOfSockAddr dst).flow groupId).toBytes

/-- The bytes hashed by UDP_GRM_FLOW_ASSURE. -/
def assureKey (groupId : UInt32) (optval : List UInt8) : Option (List UInt8) :=
  ((copyIn optval).bind remoteOfSockaddr).map fun r => (r.flow groupId).toBytes

/-- All three computations give this key. -/
structure KeyIs (f : Family) (groupId : UInt32) (e : Endpoint) (key : List UInt8) : Prop where
  length_eq : key.length = 22
  packet : ∀ md, ReceivedFrom md e → packetKey groupId md = some key
  sendmsg : sendmsgKey groupId (sentTo e) = key
  assure : ∀ flowinfo scope, assureKey groupId (recvfromAddr flowinfo scope f e) = some key

variable {f : Family} {groupId : UInt32} {e e₁ e₂ : Endpoint} {key : List UInt8} {md : Md}

/-- The endpoint as the packet path encodes it. -/
def Endpoint.remote : Endpoint → Remote
  | .inet ip port => ⟨padIp ip.toList, port.toList⟩
  | .inet6 ip port => ⟨padIp ip.toList, port.toList⟩

theorem length_padIp {ip : List UInt8} (h : ip.length ≤ 16) : (padIp ip).length = 16 := by
  rw [padIp, List.length_append, List.length_replicate]
  omega

theorem Remote.length_toBytes {r : Remote} (hip : r.ip.length = 16) (hport : r.port.length = 2) :
    (r.flow groupId).toBytes.length = 22 := by
  simp [Remote.flow, IpFlowHash.toBytes, hip, hport]

theorem Endpoint.remote_ip_length (e : Endpoint) : e.remote.ip.length = 16 := by
  cases e <;> exact length_padIp (by simp)

theorem Endpoint.remote_port_length (e : Endpoint) : e.remote.port.length = 2 := by
  cases e <;> simp [Endpoint.remote]

/-- The key determines address bytes and port. -/
theorem Remote.toBytes_inj {r r' : Remote} (hip : r.ip.length = r'.ip.length)
    (h : (r.flow groupId).toBytes = (r'.flow groupId).toBytes) : r = r' := by
  simp only [Remote.flow, IpFlowHash.toBytes, List.append_assoc] at h
  obtain ⟨hi, h⟩ := List.append_inj h hip
  have hport := List.append_cancel_left h
  cases r
  cases r'
  simp_all

theorem dissectorFlow_of_received (h : ReceivedFrom md e) : dissectorFlow md = some e.remote := by
  cases e with
  | inet ip port =>
    obtain ⟨heth, hip, hport⟩ := h
    simp [dissectorFlow, heth, hip, hport, Endpoint.remote]
  | inet6 ip port =>
    obtain ⟨heth, hip, hport⟩ := h
    have hne : ETH_P_IPV6 ≠ ETH_P_IP := by decide
    simp [dissectorFlow, heth, hip, hport, hne, Endpoint.remote]

theorem copyIn_of_length {optval : List UInt8} {n : ℕ} (hlen : optval.length = n)
    (hn : n = 28 ∨ n = 16) :
    copyIn optval = some (optval ++ List.replicate (PERCPU_ARRAY_SIZE - n) 0) := by
  have htake : optval.take n = optval := List.take_of_length_le hlen.le
  rcases hn with rfl | rfl <;> simp [copyIn, copyInSizes, hlen, htake]

theorem remoteOfSockaddr_in {ip port : List UInt8} (hip : ip.length = 4) (hport : port.length = 2) :
    (copyIn (sockaddrIn ip port)).bind remoteOfSockaddr = some ⟨padIp ip, port⟩ := by
  have hlen : (sockaddrIn ip port).length = 16 := by simp [sockaddrIn, hip, hport]
  rw [copyIn_of_length hlen (.inr rfl), Option.bind_some]
  simp only [sockaddrIn, List.append_assoc]
  generalize List.replicate 8 (0 : UInt8) ++ List.replicate _ 0 = zeros
  have hp : field ([2, 0] ++ (port ++ (ip ++ zeros))) 2 2 = port :=
    (field_append_right _ rfl).trans (field_append_left _ hport)
  have hi : field ([2, 0] ++ (port ++ (ip ++ zeros))) 4 4 = ip := by
    rw [field_append_right (k := 2) _ (by rfl), field_append_right (k := 0) _ (by exact hport),
      field_append_left _ hip]
  rw [remoteOfSockaddr, hp, hi]
  exact if_pos rfl

theorem remoteOfSockaddr_in6 {ip port : List UInt8} {flowinfo scope : Vector UInt8 4}
    (hip : ip.length = 16) (hport : port.length = 2) :
    (copyIn (sockaddrIn6 ip port flowinfo scope)).bind remoteOfSockaddr =
      some ⟨padIp ip, port⟩ := by
  have hlen : (sockaddrIn6 ip port flowinfo scope).length = 28 := by
    simp [sockaddrIn6, hip, hport]
  rw [copyIn_of_length hlen (.inl rfl), Option.bind_some]
  simp only [sockaddrIn6, List.append_assoc]
  generalize scope.toList ++ List.replicate _ 0 = rest
  have hp : field ([10, 0] ++ (port ++ (flowinfo.toList ++ (ip ++ rest)))) 2 2 = port :=
    (field_append_right _ rfl).trans (field_append_left _ hport)
  have hi : field ([10, 0] ++ (port ++ (flowinfo.toList ++ (ip ++ rest)))) 8 16 = ip := by
    rw [field_append_right (k := 6) _ (by rfl), field_append_right (k := 4) _ (by rw [hport]),
      field_append_right (k := 0) _ (by simp), field_append_left _ hip]
  rw [remoteOfSockaddr, hp, hi]
  exact (if_neg (show (10 : UInt32) ≠ 2 by decide)).trans (if_pos rfl)

/-! ### Agreement -/

/-- The endpoint belongs to the family of the sockets: no IPv4 endpoint, in either form, is
met on an AF_INET6 socket. -/
def Family.matches : Family → Endpoint → Prop
  | .inet, .inet _ _ => True
  | .inet6, .inet6 ip _ => ¬ v4Mapped ip
  | _, _ => False

theorem keyIs_remote (h : f.matches e) : KeyIs f groupId e (e.remote.flow groupId).toBytes where
  length_eq := Remote.length_toBytes e.remote_ip_length e.remote_port_length
  packet md hmd := by rw [packetKey, dissectorFlow_of_received hmd, Option.map_some]
  sendmsg := by
    cases f <;> cases e
    case inet.inet => rfl
    case inet6.inet6 ip port =>
      rw [sentTo, if_neg h]
      rfl
    all_goals exact h.elim
  assure flowinfo scope := by
    cases f <;> cases e
    case inet.inet ip port => rw [assureKey, recvfromAddr, remoteOfSockaddr_in] <;> simp; rfl
    case inet6.inet6 ip port => rw [assureKey, recvfromAddr, remoteOfSockaddr_in6] <;> simp; rfl
    all_goals exact h.elim

/-- Endpoints of one family have keys of their own. -/
theorem Endpoint.remote_inj (h₁ : f.matches e₁) (h₂ : f.matches e₂) (h : e₁.remote = e₂.remote) :
    e₁ = e₂ := by
  cases f <;> cases e₁ <;> cases e₂
  case inet.inet.inet ip₁ port₁ ip₂ port₂ =>
    simp only [Endpoint.remote, Remote.mk.injEq, padIp] at h
    have hip := (List.append_inj h.1 (by simp)).1
    rw [Vector.toList_inj.mp hip, Vector.toList_inj.mp h.2]
  case inet6.inet6.inet6 ip₁ port₁ ip₂ port₂ =>
    simp only [Endpoint.remote, Remote.mk.injEq, padIp] at h
    have hip := (List.append_inj h.1 (by simp)).1
    rw [Vector.toList_inj.mp hip, Vector.toList_inj.mp h.2]
  all_goals first | exact h₁.elim | exact h₂.elim

theorem padIp_ne_mapped {ip : List UInt8} (h : ip.length = 4) :
    padIp ip ≠ padIp (mappedNet ++ ip) := by
  intro heq
  have hpad : (padIp ip)[10]? = some 0 := by
    simp [padIp, h]
  have hmap : (padIp (mappedNet ++ ip))[10]? = some 0xff := by
    simp [padIp, mappedNet]
  rw [heq, hmap] at hpad
  exact absurd hpad (by decide)

/-- Where an IPv4 endpoint is named in IPv6 form, FLOW_ASSURE hashes all 16 bytes and sendmsg
the four of the IPv4 address. -/
theorem KeyIs.not_mapped {ip port : List UInt8} (h : KeyIs f groupId e key)
    (hip : ip.length = 4) (hport : port.length = 2) (hsent : sentTo e = .inet ip port)
    (hrecv : ∀ flowinfo scope, recvfromAddr flowinfo scope f e =
      sockaddrIn6 (mappedNet ++ ip) port flowinfo scope) : False := by
  have hlen : (mappedNet ++ ip).length = 16 := by simp [mappedNet, hip]
  have hassure := h.assure (Vector.replicate 4 0) (Vector.replicate 4 0)
  rw [hrecv, assureKey, remoteOfSockaddr_in6 hlen hport, Option.map_some, Option.some.injEq,
    ← h.sendmsg, hsent] at hassure
  have hremote := Remote.toBytes_inj (by simp [length_padIp, hlen, hip, remoteOfSockAddr]) hassure
  exact padIp_ne_mapped hip (congrArg Remote.ip hremote).symm

theorem KeyIs.matches (h : KeyIs f groupId e key) (hr : f.receives e) : f.matches e := by
  cases f <;> cases e
  case inet.inet => trivial
  case inet.inet6 => exact hr
  case inet6.inet ip port => exact h.not_mapped (by simp) (by simp) rfl fun _ _ => rfl
  case inet6.inet6 ip port =>
    intro hmapped
    have hsplit : ip.toList = mappedNet ++ ip.toList.drop 12 := by
      rw [← (show _ = mappedNet from hmapped), List.take_append_drop]
    have hsent : sentTo (.inet6 ip port) = .inet (ip.toList.drop 12) port.toList := if_pos hmapped
    exact h.not_mapped (by simp) (by simp) hsent fun _ _ => congrArg (sockaddrIn6 · _ _ _) hsplit

/-- The three computations agree on two endpoints of a group, and tell them apart, if and
only if both endpoints belong to the address family of its sockets. -/
theorem flow_keys_agree_iff (h₁ : f.receives e₁) (h₂ : f.receives e₂) :
    (∃ key₁ key₂, KeyIs f groupId e₁ key₁ ∧ KeyIs f groupId e₂ key₂ ∧
      (e₁ ≠ e₂ → key₁ ≠ key₂)) ↔ f.matches e₁ ∧ f.matches e₂ := by
  constructor
  · rintro ⟨key₁, key₂, hk₁, hk₂, _⟩
    exact ⟨hk₁.matches h₁, hk₂.matches h₂⟩
  · rintro ⟨hm₁, hm₂⟩
    refine ⟨_, _, keyIs_remote hm₁, keyIs_remote hm₂, fun hne heq => hne ?_⟩
    have hlen : e₁.remote.ip.length = e₂.remote.ip.length := by
      rw [e₁.remote_ip_length, e₂.remote_ip_length]
    exact Endpoint.remote_inj hm₁ hm₂ (Remote.toBytes_inj hlen heq)

/-- 1.2.3.`d`:5000 and [102:304::]:5000. -/
def Endpoint.sample (d : UInt8) : Endpoint := .inet #v[1, 2, 3, d] #v[0x13, 0x88]

def Endpoint.sample6 : Endpoint :=
  .inet6 #v[1, 2, 3, 4, 0, 0, 0, 0, 0, 0, 0, 0, 0, 0, 0, 0] #v[0x13, 0x88]

theorem flow_keys_agree_inet :
    ∃ key₁ key₂, KeyIs .inet 7 (.sample 4) key₁ ∧ KeyIs .inet 7 (.sample 5) key₂ ∧
      (Endpoint.sample 4 ≠ .sample 5 → key₁ ≠ key₂) :=
  have h : ∀ d, Family.inet.receives (.sample d) ∧ Family.inet.matches (.sample d) :=
    fun _ => ⟨trivial, trivial⟩
  (flow_keys_agree_iff (h 4).1 (h 5).1).mpr ⟨(h 4).2, (h 5).2⟩

/-- A packet from an endpoint, with an IP header of zeros but for the source address. -/
def Endpoint.packet : Endpoint → Md
  | .inet ip port => ⟨0, ETH_P_IP, 10, List.replicate 12 0 ++ ip.toList, port.toList⟩
  | .inet6 ip port => ⟨0, ETH_P_IPV6, 10, List.replicate 8 0 ++ ip.toList, port.toList⟩

/-- An AF_INET6 group meets an IPv4 endpoint. FLOW_ASSURE and the packet path disagree on its
key, and its packets have the key of an IPv6 endpoint. -/
theorem flow_keys_dual_stack :
    Family.inet6.receives (.sample 4) ∧ Family.inet6.receives .sample6 ∧
      ReceivedFrom (Endpoint.sample 4).packet (.sample 4) ∧
      ReceivedFrom Endpoint.sample6.packet .sample6 ∧
      assureKey 7 (recvfromAddr (Vector.replicate 4 0) (Vector.replicate 4 0) .inet6 (.sample 4)) ≠
        packetKey 7 (Endpoint.sample 4).packet ∧
      Endpoint.sample 4 ≠ .sample6 ∧
      packetKey 7 (Endpoint.sample 4).packet = packetKey 7 Endpoint.sample6.packet := by
  refine ⟨trivial, trivial, ⟨rfl, by decide, by decide⟩, ⟨rfl, by decide, by decide⟩, ?_⟩
  decide

end Udpgrm
