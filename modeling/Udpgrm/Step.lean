import Udpgrm.Daemon
import Udpgrm.Lib.Transition
import Udpgrm.Setsockopt

/-!
One step of the whole system: an application call, a hook, a packet, a message handled
by the daemon, a clean-up, or a command. Each hook runs as one step.
-/
namespace Udpgrm

inductive Action
  | socket (c : UInt64) (sk : BpfSock) (netnsCookie : UInt64)
  | bind (c : UInt64) (ctx : BindCtx)
  | setsockopt (c : UInt64) (ctx : SockoptCtx) (env : OptEnv)
  | sendmsg (c : UInt64) (dst : SockAddr) (env : FlowEnv)
  | packet (r : UInt64) (md : Md) (now : UInt64)
  | handle (env : DaemonEnv)
  | close (c : UInt64)
  | cleanup (now : UInt64)
  | delete (k : Key)
deriving DecidableEq, Repr

namespace Sys

variable (s : Sys)

def tick (now : UInt64) : Sys := { s with clock := now }

/-- The application lets go of a socket. -/
def closeSock (c : UInt64) : Sys :=
  let sock := (s.socks c).map fun k => { k with isOpen := false }
  ({ s with socks := Function.update s.socks c sock } : Sys).reap

/-- A fatal error ends the daemon and releases its descriptors. -/
def crash : Sys := ({ s with exited := true, fds := [], tubular := [] } : Sys).reap

end Sys

/-- A packet arriving at socket `r`: the verdict and the state after it. -/
def receive (p : Programs) (s : Sys) (r : UInt64) (md : Md) (now : UInt64) : Verdict × Sys :=
  match s.socks r with
  | none => (.fallback, s)
  | some sock =>
    match s.groups sock.key with
    | none => (.fallback, s)
    | some st =>
      let (v, st') := udpgrmReuseportProg p (s.selectReuseport r) s.lru now md st
      (v, s.setGroup sock.key st')

/-- A descriptor can only be fished for a socket that its application holds open, and it
is a new positive number. -/
def fishable (s : Sys) (env : DaemonEnv) : Msg → Bool
  | .registerSocket _ _ cookie _ _ =>
    match env.fished with
    | .found f => s.isOpen cookie && decide (0 < f) && s.fds.all fun p => decide (p.1 ≠ f)
    | _ => true
  | _ => true

def handleStep (s : Sys) (env : DaemonEnv) : Option Sys :=
  match s.ring with
  | [] => none
  | m :: rest =>
    if s.exited ∨ fishable s env m = false then none
    else
      let s := { s with ring := rest }
      match handleMsg env s m with
      | .ok (t, _) => some t
      | .error _ => some s.crash

/-- The row and the array that the daemon passes to `tubular_register` while it handles the
next message, if it calls that function. -/
def handedOver (s : Sys) (env : DaemonEnv) : Option (Row × List Int) :=
  match s.ring with
  | [] => none
  | m :: rest =>
    match handleMsg env { s.tick env.now with ring := rest } m with
    | .ok (_, call) => call
    | .error _ => none

/-- The clock readings of a step follow each other and the clock before it. -/
def execute (p : Programs) (s : Sys) : Action → Option Sys
  | .socket c sk netnsCookie =>
    if s.socks c = none ∧ c ≠ 0 then
      some { s with socks := Function.update s.socks c (some ⟨sk, netnsCookie, true, none⟩) }
    else none
  | .bind c ctx => if s.isOpen c then some (bpfBind s c ctx) else none
  | .setsockopt c ctx env =>
    if s.isOpen c ∧ s.clock ≤ env.flow.now ∧ env.flow.now ≤ env.flow.later then
      some (udpgrmSetsockopt p env (s.tick env.flow.later) c ctx).2
    else none
  | .sendmsg c dst env =>
    if s.isOpen c ∧ s.clock ≤ env.now ∧ env.now ≤ env.later then
      some (udpSendmsg p env (s.tick env.later) c dst)
    else none
  | .packet r md now =>
    if s.alive r ∧ s.clock ≤ now then some (receive p (s.tick now) r md now).2 else none
  | .handle env => if s.clock ≤ env.now then handleStep (s.tick env.now) env else none
  | .close c => if s.isOpen c then some (s.closeSock c) else none
  | .cleanup now =>
    if s.clock ≤ now ∧ ¬ s.exited then
      let (store, closed) := reuseportGroupsMaybeCleanupStale now s.tubular
      some (({ s with tubular := store, clock := now } : Sys).closeFds closed)
    else none
  | .delete k => some (s.eraseGroup k)

def system (p : Programs) : Transition.LTS Sys Action := .ofFn (execute p)

abbrev Run (p : Programs) (s : Sys) (as : List Action) (t : Sys) : Prop :=
  Transition.Run (system p) s as t

/-! ### Ingredients of concrete runs -/

/-- Packet programs that always answer zero. -/
def Programs.const : Programs := ⟨fun _ _ => (.ok, 0), fun _ _ _ => (.ok, 0), fun _ => 0⟩

/-- A kernel with room in every map and in the ring, at time zero. -/
def OptEnv.roomy : OptEnv := ⟨true, true, 7, 100, ⟨0, 0, true⟩⟩

/-- The address 127.0.0.1:443. -/
def BpfSock.loopback : BpfSock := ⟨AF_INET, 443, 0x0100007f, Vector.replicate 4 0⟩

/-- The address 127.0.0.1:444. -/
def BpfSock.loopback444 : BpfSock := { BpfSock.loopback with srcPort := 444 }

/-- A socket is opened and bound, with SO_REUSEPORT set. -/
def Action.openBound (c : UInt64) : List Action :=
  [.socket c .loopback 5, .bind c ⟨AF_INET, IPPROTO_UDP, some 1, true⟩]

def Action.call (c : UInt64) (optname : UInt32) (optval : List UInt8) : Action :=
  .setsockopt c ⟨IPPROTO_UDP, optname, optval, false⟩ .roomy

/-- The daemon finds the socket of a registration as descriptor `f`, and Tubular answers. -/
def Action.daemon (f : ℕ) : Action := .handle ⟨.found f, true, 0, 0⟩

/-! ### What a setsockopt call can do -/

/-- The group that `setsockoptBody` works on: found, or created by this call. -/
inductive Base (env : OptEnv) (s : Sys) (k : Key) (ss : SocketStorage) :
    Sys → ReuseportStorage → Bool → Prop
  | existing {st : ReuseportStorage} (h : s.groups k = some st) : Base env s k ss s st false
  | created (h : s.groups k = none) (hm : env.mapRoom = true) :
      Base env s k ss (s.setGroup k (freshGroup env ss)) (freshGroup env ss) true

/-- Every exit of `setsockoptBody`, from the state `b` it starts in. -/
inductive BodyEffect (p : Programs) (env : OptEnv) (c : UInt64) (k : Key) (ss : SocketStorage)
    (st : ReuseportStorage) (created : Bool) (data : List UInt8) (b : Sys) :
    SockOpt → OptRet → Sys → Prop
  | stay {o : SockOpt} {r : OptRet} : BodyEffect p env c k ss st created data b o r b
  | workingGen (hr : env.ringRoom = true) :
      BodyEffect p env c k ss st created data b .workingGen .ok
        ((b.setGroup k { st with
            workingGen := Function.update st.workingGen (Fin.ofNat MAX_APPS ss.sockApp.toNat)
              (LittleEndian.u32 data 0) }).push
          (.setWorkingGen k (UInt32.ofNat (Fin.ofNat MAX_APPS ss.sockApp.toNat).val)
            (LittleEndian.u32 data 0)))
  | socketGen (hg : ss.sockGen ≠ LittleEndian.u32 data 0 ∨ ss.sockIdx = UNSET)
      (hr : env.ringRoom = true) :
      BodyEffect p env c k ss st created data b .socketGen .ok
        ((b.setStorage c { ss with sockGen := LittleEndian.u32 data 0 }).push
          (.registerSocket k env.pid ss.soCookie (LittleEndian.u32 data 0) ss.sockApp))
  | verbose (hc : created = false) (hd : dissectorCmp st.dis (.ofBytes data) = true) :
      BodyEffect p env c k ss st created data b .dissector .ok
        (b.setGroup k { st with verbose := verboseFlag (.ofBytes data) })
  | undo (hc : created = true) (hd : dissectorFail (.ofBytes data) = true) :
      BodyEffect p env c k ss st created data b .dissector (.err .eperm) (b.eraseGroup k)
  | install (hc : created = true) (hd : dissectorFail (.ofBytes data) = false)
      (hr : env.ringRoom = true) :
      BodyEffect p env c k ss st created data b .dissector .ok
        ((b.setGroup k { st with
            dis := (Dissector.ofBytes data).stored
            verbose := verboseFlag (.ofBytes data) }).push (.setDissector k))
  | flow {rm : Remote} {r : OptRet} (hk : st.dis.kind = some .flow)
      (hrm : remoteOfSockaddr data = some rm)
      (hr : r = if (flowAssure env.flow st ss
        (p.countIpFlowHash (rm.flow st.randomId)) b.lru).1 then .ok else .err .eexist) :
      BodyEffect p env c k ss st created data b .flowAssure r
        ((b.setGroup k (flowAssure env.flow st ss
          (p.countIpFlowHash (rm.flow st.randomId)) b.lru).2.1).setLru
            (flowAssure env.flow st ss (p.countIpFlowHash (rm.flow st.randomId)) b.lru).2.2)
  | socketApp (hg : ss.sockGen = UNSET) (hi : ss.sockIdx = UNSET)
      (ha : LittleEndian.u32 data 0 < st.dis.maxApps) :
      BodyEffect p env c k ss st created data b .socketApp .ok
        (b.setStorage c { ss with sockApp := LittleEndian.u32 data 0 })

theorem setsockoptBody_effect (p : Programs) (env : OptEnv) (b : Sys) (c : UInt64) (k : Key)
    (ss : SocketStorage) (st : ReuseportStorage) (created : Bool) (data : List UInt8)
    (o : SockOpt) :
    BodyEffect p env c k ss st created data b o
      (setsockoptBody p env b c k ss st created data o).1
      (setsockoptBody p env b c k ss st created data o).2 := by
  cases o with
  | workingGen =>
    simp only [setsockoptBody]
    split
    · exact .workingGen ‹_›
    · exact .stay
  | socketGen =>
    simp only [setsockoptBody]
    split
    · split
      · exact .socketGen ‹_› ‹_›
      · exact .stay
    · exact .stay
  | dissector =>
    simp only [setsockoptBody]
    split
    · split
      · exact .verbose (by simpa using ‹(!created) = true›) ‹_›
      · exact .stay
    · have hc : created = true := by simpa using ‹¬(!created) = true›
      split
      · exact .undo hc ‹_›
      · split
        · exact .install hc (by simpa using ‹¬dissectorFail _ = true›) ‹_›
        · exact .stay
  | flowAssure =>
    simp only [setsockoptBody]
    split
    · exact .stay
    · split
      · exact .stay
      · exact .flow (by simpa using ‹¬st.dis.kind ≠ some .flow›) ‹_› rfl
  | socketApp =>
    simp only [setsockoptBody]
    split
    · split
      · exact .stay
      · split
        · exact .stay
        · rename_i hu hm
          rw [not_or, not_not, not_not] at hu
          exact .socketApp hu.1 hu.2 (by simpa using hm)
    · exact .stay

/-- A call leaves the state alone, or runs the body on the group of its socket. -/
inductive SetsockoptEffect (p : Programs) (env : OptEnv) (s : Sys) (c : UInt64)
    (ctx : SockoptCtx) : OptRet → Sys → Prop
  | untouched {r : OptRet} : SetsockoptEffect p env s c ctx r s
  | body {sock : Sock} {ss : SocketStorage} {b t : Sys} {st : ReuseportStorage}
      {created : Bool} {data : List UInt8} {o : SockOpt} {r : OptRet}
      (hs : s.socks c = some sock) (hss : sock.storage = some ss)
      (hb : Base env s sock.key ss b st created) (hd : copyIn ctx.optval = some data)
      (ho : ctx.opt = some o) (hn : st.netnsCookie = ss.netnsCookie)
      (he : BodyEffect p env c sock.key ss st created data b o r t) :
      SetsockoptEffect p env s c ctx r t

theorem getStateCreate_base {env : OptEnv} {s b : Sys} {k : Key} {ss : SocketStorage}
    {st : ReuseportStorage} {created : Bool}
    (h : getStateCreate env s k ss = some (b, st, created)) : Base env s k ss b st created := by
  unfold getStateCreate at h
  split at h
  · cases h
    exact .existing ‹_›
  · split at h
    · cases h
      exact .created ‹_› ‹_›
    · cases h

theorem udpgrmSetsockopt_effect (p : Programs) (env : OptEnv) (s : Sys) (c : UInt64)
    (ctx : SockoptCtx) :
    SetsockoptEffect p env s c ctx (udpgrmSetsockopt p env s c ctx).1
      (udpgrmSetsockopt p env s c ctx).2 := by
  unfold udpgrmSetsockopt
  split
  · exact .untouched
  · split
    · exact .untouched
    · split
      · exact .untouched
      · split
        · exact .untouched
        · rename_i k ss hsock
          obtain ⟨sock, hs, hss⟩ := Option.bind_eq_some_iff.mp hsock
          obtain ⟨ss', hss, hks⟩ := Option.map_eq_some_iff.mp hss
          cases hks
          split
          · exact .untouched
          · rename_i b st created hg
            have hb := getStateCreate_base hg
            split
            · cases hb with
              | existing _ => exact .untouched
              | created _ _ => exact absurd rfl ‹(freshGroup env ss).netnsCookie ≠ _›
            · exact .body hs hss hb ‹_› ‹_› (by simpa using ‹¬st.netnsCookie ≠ _›)
                (setsockoptBody_effect ..)

/-! ### What the other hooks can do -/

theorem bpfBind_cases (s : Sys) (c : UInt64) (ctx : BindCtx) :
    bpfBind s c ctx = s ∨ ∃ sock, s.socks c = some sock ∧
      bpfBind s c ctx = s.setStorage c ⟨UNSET, UNSET, sock.app, c, sock.netnsCookie⟩ := by
  unfold bpfBind
  repeat' split
  all_goals first
    | exact .inl rfl
    | exact .inr ⟨_, ‹_›, by simp only [Sock.app, *, Option.elim]⟩

theorem udpSendmsg_cases (p : Programs) (env : FlowEnv) (s : Sys) (c : UInt64)
    (dst : SockAddr) :
    udpSendmsg p env s c dst = s ∨ ∃ sock ss st, s.socks c = some sock ∧
      sock.storage = some ss ∧ s.groups sock.key = some st ∧ st.dis.kind = some .flow ∧
      let hash := p.countIpFlowHash ((remoteOfSockAddr dst).flow st.randomId)
      udpSendmsg p env s c dst = (s.setGroup sock.key
        (flowAssure env st ss hash s.lru).2.1).setLru (flowAssure env st ss hash s.lru).2.2 := by
  unfold udpSendmsg
  split
  · exact .inl rfl
  · rename_i sock hs
    split
    · exact .inl rfl
    · rename_i st hst
      split_ifs with hk
      · exact .inl rfl
      · split
        · exact .inl rfl
        · rename_i ss hss
          exact .inr ⟨sock, ss, st, hs, hss, hst, not_not.mp hk, rfl⟩

theorem receive_cases (p : Programs) (s : Sys) (r : UInt64) (md : Md) (now : UInt64) :
    receive p s r md now = (.fallback, s) ∨ ∃ sock st, s.socks r = some sock ∧
      s.groups sock.key = some st ∧
      receive p s r md now =
        ((udpgrmReuseportProg p (s.selectReuseport r) s.lru now md st).1,
          s.setGroup sock.key (udpgrmReuseportProg p (s.selectReuseport r) s.lru now md st).2) := by
  unfold receive
  split
  · exact .inl rfl
  · rename_i sock hs
    split
    · exact .inl rfl
    · rename_i st hst
      exact .inr ⟨sock, st, hs, hst, rfl⟩

/-! ### What the daemon can do -/

/-- Every exit of `handle_msg` that is not fatal. -/
inductive HandleEffect (env : DaemonEnv) (s : Sys) :
    Msg → Sys → Option (Row × List Int) → Prop
  | ignored {m : Msg} : HandleEffect env s m s none
  | notFound {k : Key} {pid gen app : UInt32} {cookie : UInt64} {st : ReuseportStorage}
      (hk : s.groups k = some st) (hf : env.fished = .notFound) :
      HandleEffect env s (.registerSocket k pid cookie gen app)
        (s.setGroup k (st.metricIncrCritical 1 1)) none
  | accepted {k : Key} {pid gen app wg : UInt32} {cookie : UInt64} {st : ReuseportStorage}
      {ss : SocketStorage} {sockhash : Finset UInt64} {f pos len : ℕ}
      (hk : s.groups k = some st) (hf : env.fished = .found f)
      (hss : (s.socks cookie).bind (·.storage) = some ss)
      (hwg : toWrkGen? st.dis.maxApps app gen = some wg)
      (hscan : SlotScan.scan (rowLive st (genRow wg) s.sockhash) MAX_SOCKETS_IN_GEN =
        (some pos, len))
      (hsh : sockhashUpdate s.sockhash cookie = some sockhash) :
      HandleEffect env s (.registerSocket k pid cookie gen app)
        (acceptSocket env { s with sockhash := sockhash } k st ss cookie wg pos len f) none
  | workingGen {k : Key} {app gen : UInt32} {st : ReuseportStorage}
      (hk : s.groups k = some st) :
      HandleEffect env s (.setWorkingGen k app gen) (handleWorkingGen env s k st gen).1
        (handleWorkingGen env s k st gen).2

theorem handleRegister_effect {env : DaemonEnv} {s t : Sys} {k : Key} {pid gen app : UInt32}
    {cookie : UInt64} {st : ReuseportStorage} (hk : s.groups k = some st)
    (h : handleRegister env s k st cookie gen app = .ok t) :
    HandleEffect env s (.registerSocket k pid cookie gen app) t none := by
  unfold handleRegister at h
  split at h
  · cases h
    exact .ignored
  · cases h
    exact .notFound hk ‹_›
  · rename_i f hf
    split at h
    · cases h
    · rename_i ss hss
      split at h
      · cases h
      · rename_i wg hwg
        have hscan := cookiesFindEmpty_scan st wg s.sockhash cookie
        simp only at h
        split at h
        · cases h
          exact .ignored
        · rename_i pos hpos
          split at h
          · cases h
          · cases h
            rw [hpos] at hscan
            exact .accepted hk hf hss hwg hscan.symm ‹_›

theorem handleMsg_effect {env : DaemonEnv} {s t : Sys} {m : Msg}
    {call : Option (Row × List Int)} (h : handleMsg env s m = .ok (t, call)) :
    HandleEffect env s m t call := by
  unfold handleMsg at h
  split at h
  · cases h
    exact .ignored
  · cases h
  · rename_i st k pid cookie gen app hk
    cases hr : handleRegister env s k st cookie gen app with
    | error e => simp [hr, Except.map] at h
    | ok t' =>
      simp only [hr, Except.map, Except.ok.injEq, Prod.mk.injEq] at h
      obtain ⟨rfl, rfl⟩ := h
      exact handleRegister_effect hk hr
  · rename_i st k app gen hk
    simp only [Except.ok.injEq] at h
    obtain ⟨rfl, rfl⟩ := Prod.ext_iff.mp h
    exact .workingGen hk
  · cases h
    exact .ignored
  · cases h
    exact .ignored

/-! ### What a step can do -/

/-- The daemon accepted the registration at the head of the ring. -/
structure Accepted (s : Sys) (env : DaemonEnv) (t : Sys) where
  k : Key
  pid : UInt32
  gen : UInt32
  app : UInt32
  wg : UInt32
  cookie : UInt64
  rest : List Msg
  st : ReuseportStorage
  ss : SocketStorage
  sockhash : Finset UInt64
  f : ℕ
  pos : ℕ
  len : ℕ
  now_le : s.clock ≤ env.now
  ring_eq : s.ring = .registerSocket k pid cookie gen app :: rest
  running : s.exited = false
  group_eq : s.groups k = some st
  fished : env.fished = .found f
  fishable : fishable (s.tick env.now) env (.registerSocket k pid cookie gen app) = true
  storage_eq : (s.socks cookie).bind (·.storage) = some ss
  wg_eq : toWrkGen? st.dis.maxApps app gen = some wg
  scan_eq : SlotScan.scan (rowLive st (genRow wg) s.sockhash) MAX_SOCKETS_IN_GEN = (some pos, len)
  sockhash_eq : sockhashUpdate s.sockhash cookie = some sockhash
  after_eq : t = acceptSocket env { s.tick env.now with ring := rest, sockhash := sockhash } k st ss
    cookie wg pos len f

theorem fishable_found {s : Sys} {env : DaemonEnv} {k : Key} {pid gen app : UInt32}
    {cookie : UInt64} {f : ℕ} (h : fishable s env (.registerSocket k pid cookie gen app) = true)
    (hf : env.fished = .found f) :
    s.isOpen cookie = true ∧ 0 < f ∧ ∀ q ∈ s.fds, q.1 ≠ f := by
  simp only [fishable, hf, Bool.and_eq_true, decide_eq_true_eq, List.all_eq_true] at h
  exact ⟨h.1.1, h.1.2, h.2⟩

theorem Accepted.isOpen {s t : Sys} {env : DaemonEnv} (h : Accepted s env t) :
    s.isOpen h.cookie = true := (fishable_found h.fishable h.fished).1

theorem Accepted.fd_new {s t : Sys} {env : DaemonEnv} (h : Accepted s env t) :
    0 < h.f ∧ ∀ q ∈ s.fds, q.1 ≠ h.f := (fishable_found h.fishable h.fished).2

theorem toWrkGen?_eq_some {m app gen wg : UInt32} (h : toWrkGen? m app gen = some wg) :
    toWrkGen m app gen = wg := by
  unfold toWrkGen? at h
  split at h
  · cases h
  · exact Option.some.inj h

theorem Accepted.toWrkGen_eq {s t : Sys} {env : DaemonEnv} (h : Accepted s env t) :
    toWrkGen h.st.dis.maxApps h.app h.gen = h.wg := toWrkGen?_eq_some h.wg_eq

/-- Every transition of the system, with the guards it passed. -/
inductive StepEffect (p : Programs) (s : Sys) : Action → Sys → Prop
  | socket {c netnsCookie : UInt64} {sk : BpfSock} (hs : s.socks c = none) (hc : c ≠ 0) :
      StepEffect p s (.socket c sk netnsCookie)
        { s with socks := Function.update s.socks c (some ⟨sk, netnsCookie, true, none⟩) }
  | bind {c : UInt64} {ctx : BindCtx} (ho : s.isOpen c = true) :
      StepEffect p s (.bind c ctx) (bpfBind s c ctx)
  | setsockopt {c : UInt64} {ctx : SockoptCtx} {env : OptEnv} (ho : s.isOpen c = true)
      (hnow : s.clock ≤ env.flow.now) (hlater : env.flow.now ≤ env.flow.later) :
      StepEffect p s (.setsockopt c ctx env)
        (udpgrmSetsockopt p env (s.tick env.flow.later) c ctx).2
  | sendmsg {c : UInt64} {dst : SockAddr} {env : FlowEnv} (ho : s.isOpen c = true)
      (hnow : s.clock ≤ env.now) (hlater : env.now ≤ env.later) :
      StepEffect p s (.sendmsg c dst env) (udpSendmsg p env (s.tick env.later) c dst)
  | packet {r now : UInt64} {md : Md} (ho : s.alive r = true) (hnow : s.clock ≤ now) :
      StepEffect p s (.packet r md now) (receive p (s.tick now) r md now).2
  | ignored {env : DaemonEnv} {m : Msg} {rest : List Msg} (hnow : s.clock ≤ env.now)
      (hr : s.ring = m :: rest) (hx : s.exited = false)
      (hf : fishable (s.tick env.now) env m = true) :
      StepEffect p s (.handle env) { s.tick env.now with ring := rest }
  | notFound {env : DaemonEnv} {k : Key} {pid gen app : UInt32} {cookie : UInt64}
      {rest : List Msg} {st : ReuseportStorage} (hnow : s.clock ≤ env.now)
      (hr : s.ring = .registerSocket k pid cookie gen app :: rest) (hx : s.exited = false)
      (hf : fishable (s.tick env.now) env (.registerSocket k pid cookie gen app) = true)
      (hk : s.groups k = some st) (hfished : env.fished = .notFound) :
      StepEffect p s (.handle env)
        (({ s.tick env.now with ring := rest } : Sys).setGroup k (st.metricIncrCritical 1 1))
  | announced {env : DaemonEnv} {k : Key} {app gen : UInt32} {rest : List Msg}
      {st : ReuseportStorage} (hnow : s.clock ≤ env.now)
      (hr : s.ring = .setWorkingGen k app gen :: rest) (hx : s.exited = false)
      (hf : fishable (s.tick env.now) env (.setWorkingGen k app gen) = true)
      (hk : s.groups k = some st) :
      StepEffect p s (.handle env)
        (handleWorkingGen env { s.tick env.now with ring := rest } k st gen).1
  | accepted {env : DaemonEnv} {t : Sys} (h : Accepted s env t) : StepEffect p s (.handle env) t
  | crashed {env : DaemonEnv} {m : Msg} {rest : List Msg} {e : Fatal} (hnow : s.clock ≤ env.now)
      (hr : s.ring = m :: rest) (hx : s.exited = false)
      (hf : fishable (s.tick env.now) env m = true)
      (he : handleMsg env { s.tick env.now with ring := rest } m = .error e) :
      StepEffect p s (.handle env) ({ s.tick env.now with ring := rest } : Sys).crash
  | close {c : UInt64} (ho : s.isOpen c = true) : StepEffect p s (.close c) (s.closeSock c)
  | cleanup {now : UInt64} (hnow : s.clock ≤ now) (hx : s.exited = false) :
      StepEffect p s (.cleanup now)
        (({ s with
            tubular := (reuseportGroupsMaybeCleanupStale now s.tubular).1
            clock := now } : Sys).closeFds (reuseportGroupsMaybeCleanupStale now s.tubular).2)
  | delete {k : Key} : StepEffect p s (.delete k) (s.eraseGroup k)

theorem handleStep_effect {p : Programs} {s t : Sys} {env : DaemonEnv}
    (hnow : s.clock ≤ env.now) (h : handleStep (s.tick env.now) env = some t) :
    StepEffect p s (.handle env) t := by
  unfold handleStep at h
  split at h
  · cases h
  · rename_i m rest hr
    split_ifs at h with hg
    rw [not_or, Bool.not_eq_true, Bool.not_eq_false] at hg
    obtain ⟨hx, hf⟩ := hg
    dsimp only at h
    split at h
    · rename_i hm
      cases h
      cases handleMsg_effect hm with
      | ignored => exact .ignored hnow hr hx hf
      | notFound hk hfished => exact .notFound hnow hr hx hf hk hfished
      | workingGen hk => exact .announced hnow hr hx hf hk
      | accepted hk hfished hss hwg hscan hsh =>
        exact .accepted ⟨_, _, _, _, _, _, _, _, _, _, _, _, _, hnow, hr, hx, hk, hfished, hf, hss,
          hwg, hscan, hsh, rfl⟩
    · rename_i hm
      cases h
      exact .crashed hnow hr hx hf hm

theorem execute_effect {p : Programs} {s t : Sys} {a : Action} (h : execute p s a = some t) :
    StepEffect p s a t := by
  cases a with
  | handle env =>
    simp only [execute] at h
    split_ifs at h with hg
    exact handleStep_effect hg h
  | delete k =>
    cases h
    exact .delete
  | socket c sk netns =>
    simp only [execute] at h
    split_ifs at h with hg
    cases h
    exact .socket hg.1 hg.2
  | bind c ctx =>
    simp only [execute] at h
    split_ifs at h with hg
    cases h
    exact .bind hg
  | setsockopt c ctx env =>
    simp only [execute] at h
    split_ifs at h with hg
    cases h
    exact .setsockopt hg.1 hg.2.1 hg.2.2
  | sendmsg c dst env =>
    simp only [execute] at h
    split_ifs at h with hg
    cases h
    exact .sendmsg hg.1 hg.2.1 hg.2.2
  | packet r md now =>
    simp only [execute] at h
    split_ifs at h with hg
    cases h
    exact .packet hg.1 hg.2
  | close c =>
    simp only [execute] at h
    split_ifs at h with hg
    cases h
    exact .close hg
  | cleanup now =>
    simp only [execute] at h
    split_ifs at h with hg
    cases h
    exact .cleanup hg.1 (by simpa using hg.2)

end Udpgrm
