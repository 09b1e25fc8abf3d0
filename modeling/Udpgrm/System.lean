import Mathlib.Data.Finset.Basic
import Mathlib.Data.Finset.Filter
import Udpgrm.Dispatch
import Udpgrm.Tubular

/-! The state shared by the hooks, the daemon and the kernel. -/
namespace Udpgrm

/-- A kernel socket: its address, its namespace, whether the application holds it open,
and its `sk_storage_map` entry once the bind hook has run. -/
structure Sock where
  sk : BpfSock
  netnsCookie : UInt64
  isOpen : Bool
  storage : Option SocketStorage
deriving DecidableEq, Repr

def Sock.key (k : Sock) : Key := skeyFromBpfSock k.sk

/-- The application of a socket, zero until the bind hook has run. -/
def Sock.app (k : Sock) : UInt32 := k.storage.elim 0 (·.sockApp)

/-- `socks` is indexed by socket cookie. `fds` lists the daemon's descriptors with the
cookie of the socket behind each. `exited` is set once the daemon has died. -/
structure Sys where
  groups : Key → Option ReuseportStorage
  socks : UInt64 → Option Sock
  sockhash : Finset UInt64
  lru : FlowTable
  ring : List Msg
  tubular : TubularStore
  fds : List (ℕ × UInt64)
  clock : UInt64
  exited : Bool

def Sys.initial : Sys where
  groups _ := none
  socks _ := none
  sockhash := ∅
  lru _ := none
  ring := []
  tubular := []
  fds := []
  clock := 0
  exited := false

namespace Sys

variable (s : Sys)

def setGroup (k : Key) (st : ReuseportStorage) : Sys :=
  { s with groups := Function.update s.groups k (some st) }

def eraseGroup (k : Key) : Sys :=
  { s with groups := Function.update s.groups k none }

def setStorage (c : UInt64) (ss : SocketStorage) : Sys :=
  let sock := (s.socks c).map fun k => { k with storage := some ss }
  { s with socks := Function.update s.socks c sock }

def push (m : Msg) : Sys := { s with ring := s.ring ++ [m] }

def setLru (lru : FlowTable) : Sys := { s with lru := lru }

/-- The application holds the socket open. -/
def isOpen (c : UInt64) : Bool := (s.socks c).any fun k => k.isOpen

/-- A socket lives while the application or the daemon holds a descriptor of it. -/
def alive (c : UInt64) : Bool := s.isOpen c || s.fds.any fun p => decide (p.2 = c)

/-- The kernel drops dead sockets from `sockhash`. -/
def reap : Sys := { s with sockhash := s.sockhash.filter fun c => s.alive c = true }

/-- The daemon closes some of its descriptors. -/
def closeFds (closed : List ℕ) : Sys :=
  ({ s with fds := s.fds.filter fun p => decide (p.1 ∉ closed) } : Sys).reap

abbrev EBADFD : Int := 77
abbrev EAFNOSUPPORT : Int := 97

/-- `bpf_sk_select_reuseport` for a packet that arrived at socket `r`. -/
def selectReuseport (r c : UInt64) : Int :=
  if c ∈ s.sockhash then
    match s.socks r, s.socks c with
    | some kr, some kc =>
      if kr.key = kc.key ∧ kr.netnsCookie = kc.netnsCookie then 0
      else if kr.sk.family ≠ kc.sk.family then -EAFNOSUPPORT
      else -EBADFD
    | _, _ => -2
  else -2

end Sys

end Udpgrm
