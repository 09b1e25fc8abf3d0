import Udpgrm.System

/-! The setsockopt, getsockopt, bind and sendmsg hooks. -/
namespace Udpgrm

open LittleEndian

inductive Errno
  | eperm
  | eagain
  | eexist
  | eoverflow
  | ebadf
  | efault
  | ebadfd
deriving DecidableEq, Repr

/-- How the hook answers: not ours, done, or an error for the caller. -/
inductive OptRet
  | pass
  | ok
  | err (e : Errno)
deriving DecidableEq, Repr

inductive SockOpt
  | workingGen
  | socketGen
  | dissector
  | flowAssure
  | socketApp
deriving DecidableEq, Repr

abbrev IPPROTO_UDP : UInt32 := 17

/-- `handled` says that another hook has answered already: optlen is -1 or the return
value is set. -/
structure SockoptCtx where
  level : UInt32
  optname : UInt32
  optval : List UInt8
  handled : Bool
deriving DecidableEq, Repr

def SockoptCtx.opt (ctx : SockoptCtx) : Option SockOpt :=
  if ctx.level ≠ IPPROTO_UDP then none
  else if ctx.optname = 200 then some .workingGen
  else if ctx.optname = 201 then some .socketGen
  else if ctx.optname = 202 then some .dissector
  else if ctx.optname = 203 then some .flowAssure
  else if ctx.optname = 204 then some .socketApp
  else none

/-- Kernel answers during one call: room in `reuseport_storage_map` for a new group, room
in the message ring, the random id of a new group, the caller, and the clock. -/
structure OptEnv where
  mapRoom : Bool
  ringRoom : Bool
  prandom : UInt32
  pid : UInt32
  flow : FlowEnv
deriving DecidableEq, Repr

/-- A group as its first setsockopt leaves it. -/
def freshGroup (env : OptEnv) (ss : SocketStorage) : ReuseportStorage :=
  { emptyState with
    randomId := env.prandom
    netnsCookie := ss.netnsCookie
    verbose := false
    dis := { Dissector.empty with dissectorType := 0 } }

/-- `get_state(ctx->sk, 1, &created)` and the initialisation after it. -/
def getStateCreate (env : OptEnv) (s : Sys) (k : Key) (ss : SocketStorage) :
    Option (Sys × ReuseportStorage × Bool) :=
  match s.groups k with
  | some st => some (s, st, false)
  | none =>
    if env.mapRoom then some (s.setGroup k (freshGroup env ss), freshGroup env ss, true)
    else none

/-- `dissector_cmp` returning zero. -/
def dissectorCmp (a b : Dissector) : Bool :=
  decide (dissectorType a.dissectorType = dissectorType b.dissectorType) &&
    decide ({ a with dissectorType := 0 } = { b with dissectorType := 0 })

/-- The `fail` flag after the validation switch on a new group. -/
def dissectorFail (d : Dissector) : Bool :=
  match d.kind with
  | some .flow => d.filterLen ≠ 0 || d.maxApps ≠ 0 || d.bespokeDigest ≠ 0
  | some .cbpf =>
    d.filterLen < 1 || MAX_INSTR < d.filterLen.toNat || MAX_APPS < d.maxApps.toNat ||
      d.bespokeDigest ≠ 0
  | some .bespoke =>
    -- the test stores 0 into a flag that is 0 already
    let fail := false
    if d.filterLen = 0 && d.bespokeDigest ≠ 0 then false else fail
  | some .noop => d.filterLen ≠ 0 || d.maxApps ≠ 0 || d.bespokeDigest ≠ 0
  | none => true

def verboseFlag (d : Dissector) : Bool := d.dissectorType &&& DISSECTOR_FLAG_VERBOSE ≠ 0

/-- The dissector that a successful creating call stores. -/
def Dissector.stored (d : Dissector) : Dissector :=
  { d with dissectorType := Udpgrm.dissectorType d.dissectorType }

/-- The body of `udpgrm_setsockopt` once the group is there, one branch per option. -/
def setsockoptBody (p : Programs) (env : OptEnv) (s : Sys) (c : UInt64) (k : Key)
    (ss : SocketStorage) (st : ReuseportStorage) (created : Bool) (data : List UInt8) :
    SockOpt → OptRet × Sys
  | .workingGen =>
    let appIdx : Fin MAX_APPS := Fin.ofNat MAX_APPS ss.sockApp.toNat
    if env.ringRoom then
      (.ok, (s.setGroup k
        { st with workingGen := Function.update st.workingGen appIdx (u32 data 0) }).push
          (.setWorkingGen k (UInt32.ofNat appIdx) (u32 data 0)))
    else (.err .eagain, s)
  | .socketGen =>
    if ss.sockGen ≠ u32 data 0 ∨ ss.sockIdx = UNSET then
      if env.ringRoom then
        (.ok, (s.setStorage c { ss with sockGen := u32 data 0 }).push
          (.registerSocket k env.pid ss.soCookie (u32 data 0) ss.sockApp))
      else (.err .eagain, s)
    else (.ok, s)
  | .dissector =>
    let d := Dissector.ofBytes data
    if !created then
      if dissectorCmp st.dis d then (.ok, s.setGroup k { st with verbose := verboseFlag d })
      else (.err .eperm, s)
    else if dissectorFail d then (.err .eperm, s.eraseGroup k)
    else if env.ringRoom then
      (.ok, (s.setGroup k { st with dis := d.stored, verbose := verboseFlag d }).push
        (.setDissector k))
    else (.err .eagain, s)
  | .flowAssure =>
    if st.dis.kind ≠ some .flow then (.err .eperm, s)
    else
      match remoteOfSockaddr data with
      | none => (.err .eperm, s)
      | some r =>
        let hash := p.countIpFlowHash (r.flow st.randomId)
        let (taken, st', lru) := flowAssure env.flow st ss hash s.lru
        (if taken then .ok else .err .eexist, (s.setGroup k st').setLru lru)
  | .socketApp =>
    if ss.sockApp ≠ u32 data 0 then
      if ss.sockGen ≠ UNSET ∨ ss.sockIdx ≠ UNSET then (.err .eexist, s)
      else if st.dis.maxApps ≤ u32 data 0 then (.err .eoverflow, s)
      else (.ok, s.setStorage c { ss with sockApp := u32 data 0 })
    else (.ok, s)

/-- `udpgrm_setsockopt` by socket `c`. -/
def udpgrmSetsockopt (p : Programs) (env : OptEnv) (s : Sys) (c : UInt64)
    (ctx : SockoptCtx) : OptRet × Sys :=
  match ctx.opt with
  | none => (.pass, s)
  | some opt =>
    if ctx.handled then (.pass, s)
    else
      match copyIn ctx.optval with
      | none => (.err .efault, s)
      | some data =>
        match (s.socks c).bind fun sock => sock.storage.map fun ss => (sock.key, ss) with
        | none => (.err .ebadf, s)
        | some (k, ss) =>
          match getStateCreate env s k ss with
          | none => (.err .ebadf, s)
          | some (s', st, created) =>
            if st.netnsCookie ≠ ss.netnsCookie then (.err .ebadf, s')
            else setsockoptBody p env s' c k ss st created data opt

/-- `xmax_apps` of the getsockopt hook: zero for a socket whose group does not exist. -/
def xmaxApps (s : Sys) (k : Key) : UInt32 :=
  match s.groups k with
  | some st => st.dis.maxApps
  | none => 0

/-- What `getsockopt(UDP_GRM_SOCKET_GEN)` reports: generation, index, udpgrm cookie. -/
def getSocketGen (s : Sys) (c : UInt64) : Option (UInt32 × UInt32 × UInt16) :=
  (s.socks c).bind fun sock => sock.storage.map fun ss =>
    (ss.sockGen, ss.sockIdx,
      grmCookiePack (toWrkGen (xmaxApps s sock.key) ss.sockApp ss.sockGen) ss.sockIdx)

/-- `getsockopt(UDP_GRM_WORKING_GEN)`. -/
def getWorkingGen (s : Sys) (c : UInt64) (k : Key) : UInt32 :=
  match s.groups k with
  | none => UNSET
  | some st =>
    let appIdx := match (s.socks c).bind (·.storage) with
      | some ss => ss.sockApp
      | none => 0
    st.workingGen (Fin.ofNat MAX_APPS appIdx.toNat)

/-- What the bind hook is told: family, protocol, the SO_REUSEPORT flag if readable, and
whether storage could be allocated for a socket that has none. -/
structure BindCtx where
  userFamily : UInt32
  protocol : UInt32
  reuseport : Option UInt32
  storageRoom : Bool
deriving DecidableEq, Repr

/-- `_bpf_bind`: storage is created on the first run and reset on later ones. -/
def bpfBind (s : Sys) (c : UInt64) (ctx : BindCtx) : Sys :=
  if ctx.userFamily ≠ AF_INET ∧ ctx.userFamily ≠ AF_INET6 then s
  else if ctx.protocol ≠ IPPROTO_UDP then s
  else
    match ctx.reuseport with
    | none => s
    | some reuseport =>
      if reuseport = 0 then s
      else
        match s.socks c with
        | none => s
        | some sock =>
          match sock.storage with
          | some ss => s.setStorage c ⟨UNSET, UNSET, ss.sockApp, c, sock.netnsCookie⟩
          | none =>
            if ctx.storageRoom then s.setStorage c ⟨UNSET, UNSET, 0, c, sock.netnsCookie⟩ else s

/-- `_udp_sendmsg` by socket `c`. -/
def udpSendmsg (p : Programs) (env : FlowEnv) (s : Sys) (c : UInt64) (dst : SockAddr) : Sys :=
  match s.socks c with
  | none => s
  | some sock =>
    match s.groups sock.key with
    | none => s
    | some st =>
      if st.dis.kind ≠ some .flow then s
      else
        match sock.storage with
        | none => s
        | some ss =>
          let hash := p.countIpFlowHash ((remoteOfSockAddr dst).flow st.randomId)
          let (_, st', lru) := flowAssure env st ss hash s.lru
          (s.setGroup sock.key st').setLru lru

end Udpgrm
