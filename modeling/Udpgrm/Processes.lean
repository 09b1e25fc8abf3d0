import Udpgrm.Isolation
import Udpgrm.Lib.GapScan

/-! Processes, their threads and descriptor tables, and how the daemon fishes for a socket. -/
namespace Udpgrm

/-! ### The search for a socket -/

abbrev SOCK_DGRAM : UInt32 := 2

/-- A `struct sockaddr`. The IPv4 address is the first word. -/
structure SockName where
  family : UInt32
  port : UInt16
  addr : Vector UInt32 4
deriving DecidableEq, Repr

/-- What the daemon can ask about a descriptor, apart from SO_COOKIE. -/
structure SockInfo where
  domain : UInt32
  type : UInt32
  protocol : UInt32
  name : SockName
deriving DecidableEq, Repr

/-- A descriptor is that of a UDP socket of the system, of another socket, or of no socket. -/
inductive File
  | udp (c : UInt64)
  | socket (info : SockInfo)
  | other
deriving DecidableEq, Repr

def sockaddrFromMsgValue (k : Key) : SockName :=
  if k.family = 2 then ⟨AF_INET, k.srcPort, #v[k.srcIp6.get 0, 0, 0, 0]⟩
  else if k.family = 10 then ⟨AF_INET6, k.srcPort, k.srcIp6⟩
  else ⟨0, 0, Vector.replicate 4 0⟩

/-- `getsockname` of a bound socket. -/
def BpfSock.name (sk : BpfSock) : SockName :=
  ⟨sk.family, sk.srcPort.toUInt16,
    if sk.family = AF_INET then #v[sk.srcIp4, 0, 0, 0] else sk.srcIp6⟩

def Sock.info (k : Sock) : SockInfo := ⟨k.sk.family, SOCK_DGRAM, IPPROTO_UDP, k.sk.name⟩

/-- The checks of `pidfd_find_socket` but the last. -/
def SockInfo.fits (info : SockInfo) (type protocol : UInt32) (addr : SockName) : Bool :=
  decide (info.domain = addr.family) && decide (info.type = type) &&
    decide (info.protocol = protocol) && decide (info.name.family = addr.family) &&
    if info.name.family = AF_INET then
      decide (info.name.port = addr.port) && decide (info.name.addr.get 0 = addr.addr.get 0)
    else if info.name.family = AF_INET6 then
      decide (info.name.port = addr.port) && decide (info.name.addr = addr.addr)
    else false

/-- What getsockopt and getsockname tell about a file. -/
def File.info (s : Sys) : File → Option SockInfo
  | .udp c => (s.socks c).map Sock.info
  | .socket info => some info
  | .other => none

/-- SO_COOKIE. No two sockets have the same, so that of another socket is none of the system. -/
def File.cookie : File → Option UInt64
  | .udp c => some c
  | _ => none

/-- `pidfd_find_socket`: the number of the descriptor in the table of the process. -/
def pidfdFindSocket (s : Sys) (table : List (Option File)) (maxContinousGap : ℕ)
    (type protocol : UInt32) (addr : SockName) (cookie : UInt64) : Option ℕ :=
  GapScan.scan (fun i => table.getD i none)
    (fun file =>
      (file.info s).any (·.fits type protocol addr) && decide (file.cookie = some cookie))
    maxContinousGap (16 * 1024) 0 0

/-! ### Processes -/

/-- A process: the id of its leader, the ids of its threads, and its descriptors. -/
structure Proc where
  tgid : UInt32
  threads : List UInt32
  table : List (Option File)
deriving DecidableEq, Repr

structure World where
  sys : Sys
  procs : List Proc

namespace World

def initial : World := ⟨.initial, []⟩

variable (w : World)

/-- `pidfd_open` accepts the id of a leader only. -/
def pidfdOpen (pid : UInt32) : Option Proc := w.procs.find? fun q => decide (q.tgid = pid)

/-- What comes of `pidfd_open` and `pidfd_find_socket` for a registration. The descriptor that
the daemon gets for a socket is a new one. -/
def fishing (pid : UInt32) (k : Key) (cookie : UInt64) (fished : Fished) : Bool :=
  match w.pidfdOpen pid with
  | none => decide (fished = .died)
  | some q =>
    match pidfdFindSocket w.sys q.table 8 SOCK_DGRAM IPPROTO_UDP (sockaddrFromMsgValue k)
      cookie with
    | none => decide (fished = .notFound)
    | some _ => match fished with
      | .found _ => true
      | _ => false

/-- Calls are made by threads of processes that hold the socket, the last descriptor of a socket
goes when it is closed, and the daemon finds what it looks for where it is. -/
def admits : Action → Bool
  | .socket _ sk _ => decide (sk.family = AF_INET) || decide (sk.family = AF_INET6)
  | .setsockopt c _ env =>
    w.procs.any fun q => decide (env.pid ∈ q.threads) && decide (some (.udp c) ∈ q.table)
  | .close c => w.procs.all fun q => decide (some (.udp c) ∉ q.table)
  | .handle env =>
    match w.sys.ring with
    | .registerSocket k pid cookie _ _ :: _ => w.fishing pid k cookie env.fished
    | _ => true
  | _ => true

/-- The threads of a process are its own, and the sockets that it holds are open. -/
def wellFormed (q : Proc) : Bool :=
  decide (q.tgid ∈ q.threads) &&
    (w.procs.all fun q' => decide (q'.tgid = q.tgid) ||
      q'.threads.all fun tid => decide (tid ∉ q.threads)) &&
    q.table.all fun file => match file with
      | some (.udp c) => w.sys.isOpen c
      | _ => true

end World

/-- A step of the system, or a process that appears, changes its threads or descriptors, or
ends. -/
inductive WorldAction
  | sys (a : Action)
  | proc (q : Proc)
  | exit (tgid : UInt32)
deriving DecidableEq

def World.step (p : Programs) (w : World) : WorldAction → Option World
  | .sys a => if w.admits a then (execute p w.sys a).map fun s => { w with sys := s } else none
  | .proc q =>
    if w.wellFormed q then
      some { w with procs := q :: w.procs.filter fun q' => decide (q'.tgid ≠ q.tgid) }
    else none
  | .exit tgid => some { w with procs := w.procs.filter fun q => decide (q.tgid ≠ tgid) }

def world (p : Programs) : Transition.LTS World WorldAction := .ofFn (World.step p)

/-! ### What holds in every world -/

variable {p : Programs} {w v : World} {a : WorldAction} {c : UInt64}

theorem World.step_sys {b : Action} (h : w.step p (.sys b) = some v) :
    w.admits b = true ∧ execute p w.sys b = some v.sys ∧ v.procs = w.procs := by
  simp only [World.step] at h
  split_ifs at h with hadm
  obtain ⟨t, ht, rfl⟩ := Option.map_eq_some_iff.mp h
  exact ⟨hadm, ht, rfl⟩

/-- Processes come, go and change without a trace in the system. -/
theorem World.step_other (h : w.step p a = some v) (ha : ∀ b, a ≠ .sys b) : v.sys = w.sys := by
  cases a with
  | sys b => exact absurd rfl (ha b)
  | proc q =>
    simp only [World.step] at h
    split_ifs at h
    cases h
    rfl
  | exit tgid =>
    cases h
    rfl

/-- The sockets that processes hold are open, and of a known family. -/
structure WorldWf (w : World) : Prop where
  socks : SocksWf w.sys
  isOpen : ∀ q ∈ w.procs, ∀ c, some (.udp c) ∈ q.table → w.sys.isOpen c = true
  family : ∀ c sock, w.sys.socks c = some sock →
    sock.sk.family = AF_INET ∨ sock.sk.family = AF_INET6

theorem WorldWf.initial : WorldWf .initial :=
  ⟨.initial, by simp [World.initial], by simp [World.initial, Sys.initial]⟩

theorem WorldWf.step (h : w.step p a = some v) (hw : WorldWf w) : WorldWf v := by
  cases a with
  | sys b =>
    obtain ⟨hadm, hexec, hprocs⟩ := World.step_sys h
    refine ⟨SocksWf.step hexec hw.socks, fun q hq c hc => ?_, fun c sock hc => ?_⟩
    · rw [hprocs] at hq
      refine isOpen_kept hexec ?_ (hw.isOpen q hq c hc)
      rintro rfl
      simp only [World.admits, List.all_eq_true, decide_eq_true_eq] at hadm
      exact hadm q hq hc
    · cases hs : w.sys.socks c with
      | none =>
        obtain ⟨sk, ns, rfl, _, rfl⟩ := sock_new hexec hs hc
        simpa [World.admits] using hadm
      | some sock₀ =>
        obtain ⟨sock', hs', hstep⟩ := sock_step hexec hs
        cases hc.symm.trans hs'
        rw [hstep.identity.1]
        exact hw.family c sock₀ hs
  | proc q =>
    simp only [World.step] at h
    split_ifs at h with hq
    cases h
    refine ⟨hw.socks, fun q' hq' c hc => ?_, hw.family⟩
    rcases List.mem_cons.mp hq' with rfl | hq'
    · simp only [World.wellFormed, Bool.and_eq_true, List.all_eq_true] at hq
      exact hq.2 _ hc
    · exact hw.isOpen q' (List.mem_of_mem_filter hq') c hc
  | exit tgid =>
    cases h
    exact ⟨hw.socks, fun q hq => hw.isOpen q (List.mem_of_mem_filter hq), hw.family⟩

theorem WorldWf.reachable {as : List WorldAction}
    (h : Transition.Run (world p) .initial as w) : WorldWf w :=
  h.inv WorldWf.step .initial

/-! ### Sockets that are found -/

theorem Sock.info_fits {sock : Sock}
    (hf : sock.sk.family = AF_INET ∨ sock.sk.family = AF_INET6) :
    sock.info.fits SOCK_DGRAM IPPROTO_UDP (sockaddrFromMsgValue sock.key) = true := by
  rcases hf with hf | hf
  · simp [SockInfo.fits, Sock.info, BpfSock.name, Sock.key, skeyFromBpfSock, sockaddrFromMsgValue,
      hf]
    rfl
  · have hne : AF_INET6 ≠ AF_INET := by decide
    simp [SockInfo.fits, Sock.info, BpfSock.name, Sock.key, skeyFromBpfSock, sockaddrFromMsgValue,
      hf, hne]

/-- The process has the socket at a number below 16384, with no eight closed numbers in a row
before it. -/
def Proc.reaches (q : Proc) (c : UInt64) : Prop :=
  ∃ i < 16 * 1024, q.table.getD i none = some (.udp c) ∧
    GapScan.NoGap (fun i => q.table.getD i none) 8 i

theorem Proc.reaches_iff (q : Proc) (c : UInt64) :
    (∃ i < min (16 * 1024) q.table.length, q.table.getD i none = some (.udp c) ∧
      GapScan.NoGap (fun i => q.table.getD i none) 8 i) ↔ q.reaches c := by
  constructor
  · rintro ⟨i, hi, hfile, hgap⟩
    exact ⟨i, by omega, hfile, hgap⟩
  · rintro ⟨i, hi, hfile, hgap⟩
    have hlen : i < q.table.length := by
      by_contra hlen
      rw [List.getD_eq_getElem?_getD, List.getElem?_eq_none (not_lt.mp hlen)] at hfile
      cases hfile
    exact ⟨i, by omega, hfile, hgap⟩

instance (q : Proc) (c : UInt64) : Decidable (q.reaches c) :=
  decidable_of_iff _ (q.reaches_iff c)

theorem pidfdFindSocket_isSome {q : Proc} {sock : Sock} (hw : WorldWf w)
    (hs : w.sys.socks c = some sock) (hq : q.reaches c) :
    (pidfdFindSocket w.sys q.table 8 SOCK_DGRAM IPPROTO_UDP (sockaddrFromMsgValue sock.key)
      c).isSome := by
  obtain ⟨i, hi, hfile, hgap⟩ := hq
  refine GapScan.scan_isSome (j := i) ⟨Nat.le_refl _, by omega⟩ hgap (by omega) (Nat.zero_le _)
    (by omega) hfile ?_
  simp [File.info, File.cookie, hs, Sock.info_fits (hw.family c sock hs)]

/-- The daemon finds a socket that the process named by the message reaches. -/
theorem fished_found {env : DaemonEnv} {k : Key} {pid gen app : UInt32} {rest : List Msg}
    {q : Proc} (hw : WorldWf w) (hr : w.sys.ring = .registerSocket k pid c gen app :: rest)
    (hadm : w.admits (.handle env) = true) (hq : w.pidfdOpen pid = some q) (hc : q.reaches c) :
    ∃ f, env.fished = .found f := by
  obtain ⟨sock, hs, rfl⟩ := hw.socks.pending k pid c gen app (by simp [hr])
  obtain ⟨i, hfound⟩ := Option.isSome_iff_exists.mp (pidfdFindSocket_isSome hw hs hc)
  simp only [World.admits, hr, World.fishing, hq, hfound] at hadm
  split at hadm
  · exact ⟨_, ‹_›⟩
  · cases hadm

end Udpgrm
