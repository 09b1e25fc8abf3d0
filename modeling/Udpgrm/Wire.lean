import Udpgrm.Lib.LittleEndian
import Udpgrm.Storage

/-! Option buffers, socket addresses and flow keys as the hooks read them from bytes. -/
namespace Udpgrm

open LittleEndian

/-! ### Copy-in of `setsockopt` -/

abbrev PERCPU_ARRAY_SIZE : ℕ := 0x400

/-- The sizes the copy-in ladder tries, largest first: the whole union, two label and
program prefixes, `sockaddr_in6`, and the short forms. -/
def copyInSizes : List ℕ := [632, 116 + 4 + 256, 116, 28, 16, 12, 8, 4]

/-- The zeroed per-CPU page after the copy, or none where the buffer has no four bytes. -/
def copyIn (optval : List UInt8) : Option (List UInt8) :=
  (copyInSizes.find? (fun n => decide (n ≤ optval.length))).map fun n =>
    optval.take n ++ List.replicate (PERCPU_ARRAY_SIZE - n) 0

/-- `data->dis` of `union setsockopt_opts`. -/
def Dissector.ofBytes (data : List UInt8) : Dissector where
  dissectorType := u32 data 0
  flowEntryTimeoutSec := u32 data 4
  maxApps := u32 data 8
  bespokeDigest := u32 data 12
  label := Vector.ofFn fun i => data.getD (16 + i) 0
  filterLen := u32 data 116
  filter := Vector.ofFn fun i => data.getD (120 + i) 0

/-! ### Flow keys -/

/-- `struct ip_flow_hash`, with the address and the port in network byte order. -/
structure IpFlowHash where
  remoteIp : List UInt8
  reuseportGroupId : UInt32
  remotePort : List UInt8
deriving DecidableEq, Repr

/-- A remote endpoint as the three hooks encode it: 16 address bytes and two port bytes. -/
structure Remote where
  ip : List UInt8
  port : List UInt8
deriving DecidableEq, Repr

def Remote.flow (r : Remote) (groupId : UInt32) : IpFlowHash := ⟨r.ip, groupId, r.port⟩

def IpFlowHash.toBytes (f : IpFlowHash) : List UInt8 :=
  f.remoteIp ++ LittleEndian.ofNat 4 f.reuseportGroupId.toNat ++ f.remotePort

/-- An address copied into the zeroed `remote_ip[4]`. -/
def padIp (addr : List UInt8) : List UInt8 := addr ++ List.replicate (16 - addr.length) 0

/-- `UDP_GRM_FLOW_ASSURE`: the endpoint named by a `sockaddr_in` or `sockaddr_in6`. -/
def remoteOfSockaddr (data : List UInt8) : Option Remote :=
  if (u16 data 0).toUInt32 = AF_INET then some ⟨padIp (field data 4 4), field data 2 2⟩
  else if (u16 data 0).toUInt32 = AF_INET6 then some ⟨padIp (field data 8 16), field data 2 2⟩
  else none

/-- The destination in `struct bpf_sock_addr`, for the sendmsg4 or the sendmsg6 hook. -/
inductive SockAddr
  | inet (userIp4 userPort : List UInt8)
  | inet6 (userIp6 userPort : List UInt8)
deriving DecidableEq, Repr

def remoteOfSockAddr : SockAddr → Remote
  | .inet ip port | .inet6 ip port => ⟨padIp ip, port⟩

/-- What the reuseport program reads of a packet. `net` starts at the IP header, `data`
at the UDP header. -/
structure Md where
  hash : UInt32
  ethProtocol : UInt16
  len : UInt32
  net : List UInt8
  data : List UInt8
deriving DecidableEq, Repr

/-- `bpf_skb_load_bytes`: all the bytes asked for, or an error. -/
def loadBytes (bytes : List UInt8) (off n : ℕ) : Option (List UInt8) :=
  if off + n ≤ bytes.length then some (field bytes off n) else none

theorem length_of_loadBytes {bytes v : List UInt8} {off n : ℕ}
    (h : loadBytes bytes off n = some v) : v.length = n := by
  unfold loadBytes at h
  split_ifs at h with hlen
  rw [← Option.some.inj h]
  exact LittleEndian.length_field hlen

/-- ETH_P_IP and ETH_P_IPV6 in network byte order, as a little-endian host sees them. -/
abbrev ETH_P_IP : UInt16 := 0x0008
abbrev ETH_P_IPV6 : UInt16 := 0xdd86

/-- `dissector_flow` up to the hash: the sender of the packet. -/
def dissectorFlow (md : Md) : Option Remote :=
  if md.ethProtocol = ETH_P_IP then
    match loadBytes md.net 12 4, loadBytes md.data 0 2 with
    | some ip, some port => some ⟨padIp ip, port⟩
    | _, _ => none
  else if md.ethProtocol = ETH_P_IPV6 then
    match loadBytes md.net 8 16, loadBytes md.data 0 2 with
    | some ip, some port => some ⟨padIp ip, port⟩
    | _, _ => none
  else none

end Udpgrm
