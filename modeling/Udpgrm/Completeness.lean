import Udpgrm.Capacity
import Udpgrm.Processes

/-! A socket that asks for a generation is registered for it, or the row was full. -/
namespace Udpgrm

open LittleEndian

/-- What one call of UDP_GRM_SOCKET_GEN asks for. -/
structure Request where
  k : Key
  c : UInt64
  gen : UInt32
  app : UInt32
  pid : UInt32
deriving DecidableEq, Repr

/-- The request of a call by socket `c`. -/
def requestOf (s : Sys) (c : UInt64) (ctx : SockoptCtx) (env : OptEnv) : Option Request :=
  (s.socks c).bind fun sock => sock.storage.bind fun ss => (copyIn ctx.optval).map fun data =>
    ⟨sock.key, c, u32 data 0, ss.sockApp, env.pid⟩

namespace Request

variable (r : Request)

def msg : Msg := .registerSocket r.k r.pid r.c r.gen r.app

def row (st : ReuseportStorage) : Row := registeredRow st.dis.maxApps r.app r.gen

/-- The cookie of the socket is in the row of the current group. -/
def InRow (s : Sys) : Prop :=
  ∃ st j, s.groups r.k = some st ∧ st.cookies (r.row st) j = r.c

/-- The socket reports the generation and the index of a slot of the row that holds its cookie. -/
def Reported (s : Sys) : Prop :=
  ∃ st idx grm, s.groups r.k = some st ∧ getSocketGen s r.c = some (r.gen, idx, grm) ∧
    idx ≠ UNSET ∧ st.cookies (r.row st) (idxSlot idx) = r.c

/-- The daemon takes up the request while its row is full of live sockets. -/
def meetsFull (w : World) : WorldAction → Bool
  | .sys (.handle _) =>
    decide (w.sys.ring.head? = some r.msg) &&
      (w.sys.groups r.k).any fun st => rowFull w.sys st (r.row st)
  | _ => false

/-- It does so somewhere in a run. -/
def metFull (p : Programs) : World → List WorldAction → Bool
  | _, [] => false
  | w, a :: as => r.meetsFull w a || (w.step p a).any fun v => metFull p v as

/-- Another call of UDP_GRM_SOCKET_GEN by the socket. -/
def isRepeated : WorldAction → Bool
  | .sys (.setsockopt c ctx _) => decide (c = r.c) && decide (ctx.opt = some .socketGen)
  | _ => false

/-- A message that registers the socket. -/
def registers : Msg → Bool
  | .registerSocket _ _ cookie _ _ => decide (cookie = r.c)
  | _ => false

/-- The last registration of the socket that is on its way. -/
def lastRegistration (s : Sys) : Option Msg := s.ring.reverse.find? r.registers

/-- The call posts a message, or this request is the last of the socket on its way, or there is
none and the socket is live in the slot of the current group that its index names. -/
def notStale (s : Sys) : Bool :=
  ((s.socks r.c).bind (·.storage)).any fun ss =>
    decide (ss.sockGen ≠ r.gen) || decide (ss.sockIdx = UNSET) ||
      match r.lastRegistration s with
      | some m => decide (m = r.msg)
      | none => decide (r.c ∈ s.sockhash) && (s.groups r.k).any fun st =>
          decide (st.cookies (r.row st) (idxSlot ss.sockIdx) = r.c)

/-- The group is not deleted and the socket is not bound again, and when the daemon takes up the
request, no eight closed descriptors in a row come before that of the socket. -/
def undisturbed (tgid : UInt32) (w : World) : WorldAction → Bool
  | .sys (.delete k) => decide (k ≠ r.k)
  | .sys (.bind c _) => decide (c ≠ r.c)
  | .sys (.handle _) =>
    decide (w.sys.ring.head? ≠ some r.msg) ||
      (w.pidfdOpen tgid).any fun q => decide (q.reaches r.c)
  | _ => true

end Request

/-- The process has the socket at a descriptor below 16384. -/
def keepsOpen (tgid : UInt32) (c : UInt64) (w : World) : Bool :=
  (w.pidfdOpen tgid).any fun q => (q.table.take (16 * 1024)).contains (some (.udp c))

def WorldAction.isHandle : WorldAction → Bool
  | .sys (.handle _) => true
  | _ => false

variable {p : Programs} {r : Request} {s t : Sys} {a : Action} {w v : World} {b : WorldAction}
  {n : ℕ}

/-! ### Registered sockets -/

theorem setsockopt_exited {c : UInt64} {env : OptEnv} {ctx : SockoptCtx} {o : OptRet}
    (h : SetsockoptEffect p env s c ctx o t) : t.exited = s.exited := by
  cases h with
  | untouched => rfl
  | body _ _ hb _ _ _ he => cases hb <;> cases he <;> rfl

theorem exited_step (h : execute p s a = some t) (hx : s.exited = true) : t.exited = true := by
  cases execute_effect h with
  | socket | close | delete => exact hx
  | @bind c ctx => rcases bpfBind_cases s c ctx with h | ⟨_, _, h⟩ <;> rw [h] <;> exact hx
  | @setsockopt c ctx env =>
    rw [setsockopt_exited (udpgrmSetsockopt_effect p env (s.tick env.flow.later) c ctx)]
    exact hx
  | @sendmsg c dst env =>
    rcases udpSendmsg_cases p env (s.tick env.later) c dst with h | ⟨_, _, _, _, _, _, _, h⟩ <;>
      rw [h] <;> exact hx
  | @packet c now md =>
    rcases receive_cases p (s.tick now) c md now with h | ⟨_, _, _, _, h⟩ <;> rw [h] <;> exact hx
  | ignored _ _ hx' | notFound _ _ hx' | announced _ _ hx' | crashed _ _ hx' | cleanup _ hx' =>
    simp [hx] at hx'
  | accepted hacc =>
    have hx' := hacc.running
    simp [hx] at hx'

theorem keepsOpen_isOpen {tgid : UInt32} {c : UInt64} (hw : WorldWf w)
    (h : keepsOpen tgid c w = true) : w.sys.isOpen c = true := by
  rw [keepsOpen, Option.any_eq_true] at h
  obtain ⟨q, hq, hc⟩ := h
  have hmem := List.mem_of_mem_take (List.contains_iff_mem.mp hc)
  exact hw.isOpen q (List.mem_of_find?_eq_some hq) c hmem

/-- The cookie is in the row, and stays there while the socket is open. -/
def Request.Settled (r : Request) (s : Sys) : Prop :=
  ∃ st j, s.groups r.k = some st ∧ st.cookies (r.row st) j = r.c ∧
    (s.isOpen r.c = true → r.c ∈ s.sockhash)

theorem settled_step (h : execute p s a = some t) (hd : a ≠ .delete r.k)
    (ho : s.isOpen r.c = true) (hs : r.Settled s) : r.Settled t := by
  obtain ⟨st, j, hk, hcook, hlive⟩ := hs
  obtain ⟨st', hk', hdis, hcook'⟩ := slot_kept h hd hk (hcook ▸ hlive ho)
  refine ⟨st', j, hk', ?_, sockhash_kept h (hlive ho) ho⟩
  rw [Request.row, hdis]
  exact hcook'.trans hcook

/-- An accepted registration puts the cookie into the row. -/
theorem Accepted.row_cookie {env : DaemonEnv} (h : Accepted s env t) :
    ∃ st, t.groups h.k = some st ∧
      st.cookies (registeredRow st.dis.maxApps h.app h.gen) (idxSlot (UInt32.ofNat h.pos)) =
        h.cookie := by
  refine ⟨_, by rw [h.groups, Function.update_self], ?_⟩
  show (h.st.setCookie h.wg _ _ h.cookie).cookies
    (registeredRow h.st.dis.maxApps h.app h.gen) _ = _
  rw [registeredRow, h.toWrkGen_eq, setCookie_cookies_self]

/-- The socket reports a slot of the row, which it keeps while it is open and asks for nothing
else. -/
def Request.Shown (r : Request) (s : Sys) : Prop :=
  (∀ m ∈ s.ring, r.registers m = false) ∧
  ∃ sock ss st, s.socks r.c = some sock ∧ sock.storage = some ss ∧ ss.sockGen = r.gen ∧
    ss.sockIdx ≠ UNSET ∧ s.groups r.k = some st ∧
    st.cookies (r.row st) (idxSlot ss.sockIdx) = r.c ∧
    (s.isOpen r.c = true → r.c ∈ s.sockhash)

theorem Request.Shown.reported (h : r.Shown s) : r.Reported s := by
  obtain ⟨_, sock, ss, st, hs, hss, hg, hi, hk, hcook, _⟩ := h
  have hget : getSocketGen s r.c = some (ss.sockGen, ss.sockIdx, grmCookiePack
      (toWrkGen (xmaxApps s sock.key) ss.sockApp ss.sockGen) ss.sockIdx) := by
    simp [getSocketGen, hs, hss]
  exact ⟨st, ss.sockIdx, _, hk, hg ▸ hget, hi, hcook⟩

/-- Neither another call of the socket nor a second bind. -/
def Request.leavesStorage (r : Request) (a : Action) : Prop :=
  (∀ ctx, a ≠ .bind r.c ctx) ∧ r.isRepeated (.sys a) = false

/-- The generation of the socket stays, and so does its index, but for answers of the daemon. -/
theorem storage_step {sock : Sock} {ss : SocketStorage} (h : execute p s a = some t)
    (hl : r.leavesStorage a) (hs : s.socks r.c = some sock) (hss : sock.storage = some ss) :
    ∃ sock' ss', t.socks r.c = some sock' ∧ sock'.storage = some ss' ∧
      ss'.sockGen = ss.sockGen ∧ (ss'.sockIdx = ss.sockIdx ∨
        ∃ env, a = .handle env ∧ ∃ hacc : Accepted s env t, hacc.cookie = r.c) := by
  obtain ⟨sock', hs', hstep⟩ := sock_step h hs
  cases hstep with
  | same => exact ⟨sock, ss, hs', hss, rfl, .inl rfl⟩
  | bound ctx ha => exact absurd ha (hl.1 ctx)
  | generation ctx env ha ho =>
    have hrep := hl.2
    simp [ha, Request.isRepeated, ho] at hrep
  | application _ _ _ ss₀ hss₀ =>
    cases hss.symm.trans hss₀
    exact ⟨_, _, hs', rfl, rfl, .inl rfl⟩
  | index env ha hacc hc hss₀ =>
    cases hss.symm.trans hss₀
    exact ⟨_, _, hs', rfl, rfl, .inr ⟨env, ha, hacc, hc.symm⟩⟩
  | closed => exact ⟨_, ss, hs', hss, rfl, .inl rfl⟩

/-- A call of another socket or for another option posts no registration of this one. -/
theorem posted_other {m : Msg} (hp : Posted s a m) (hw : SocksWf s) (hl : r.leavesStorage a) :
    r.registers m = false := by
  cases hp with
  | announce | dissector => rfl
  | @register c ctx env sock ss data hs hss ho =>
    have hrep := hl.2
    simpa [Request.isRepeated, ho, Request.registers, hw.own_cookie c sock ss hs hss] using hrep

theorem shown_step (h : execute p s a = some t) (hd : a ≠ .delete r.k)
    (hl : r.leavesStorage a) (ho : s.isOpen r.c = true) (hw : SocksWf s) (hs : r.Shown s) :
    r.Shown t := by
  obtain ⟨hring, sock, ss, st, hsock, hss, hg, hi, hk, hcook, hlive⟩ := hs
  obtain ⟨st', hk', hdis, hcook'⟩ := slot_kept h hd hk (hcook ▸ hlive ho)
  obtain ⟨sock', ss', hsock', hss', hg', hidx⟩ := storage_step h hl hsock hss
  have hi' : ss'.sockIdx = ss.sockIdx := by
    rcases hidx with hidx | ⟨env, _, hacc, hc⟩
    · exact hidx
    · have hhead := hring _ (hacc.ring_eq ▸ List.mem_cons_self)
      simp [Request.registers, hc] at hhead
  refine ⟨?_, sock', ss', st', hsock', hss', hg'.trans hg, hi' ▸ hi, hk', ?_,
    sockhash_kept h (hlive ho) ho⟩
  · intro m hm
    cases ring_change h with
    | same hr => exact hring m (hr ▸ hm)
    | handled _ _ m' hr => exact hring m (hr ▸ List.mem_cons_of_mem m' hm)
    | posted m' hp hr =>
      rw [hr, List.mem_append, List.mem_singleton] at hm
      rcases hm with hm | rfl
      · exact hring m hm
      · exact posted_other hp hw hl
  · rw [Request.row, hdis, hi']
    exact hcook'.trans hcook

/-! ### Requests on their way -/

/-- The request is the `n`-th message of the ring, and `rest` comes after it. -/
def Request.Waits (r : Request) (n : ℕ) (s : Sys) (rest : List Msg) : Prop :=
  ∃ before, s.ring = before ++ r.msg :: rest ∧ before.length + 1 = n

/-- It is the last request of the socket, which stores its generation. -/
def Request.Last (r : Request) (s : Sys) (rest : List Msg) : Prop :=
  (∀ m ∈ rest, r.registers m = false) ∧
  ∃ sock ss, s.socks r.c = some sock ∧ sock.storage = some ss ∧ ss.sockGen = r.gen

/-- What a step does to a request on its way. -/
inductive Moves (r : Request) (n : ℕ) (rest : List Msg) (w : World) (b : WorldAction) (v : World) :
    Prop
  | stays (hb : b.isHandle = false) (h : r.Waits n v.sys rest)
  | behind (a : Action) (m : Msg) (ha : b = .sys a) (hb : b.isHandle = false)
      (hp : Posted w.sys a m) (h : r.Waits n v.sys (rest ++ [m]))
  | advances (hb : b.isHandle = true) (h : r.Waits (n - 1) v.sys rest)
  | taken (env : DaemonEnv) (hb : b = .sys (.handle env)) (hn : n = 1)
      (hr : w.sys.ring = r.msg :: rest) (h : v.sys.ring = rest)

theorem handle_of_isHandle (h : b.isHandle = true) : ∃ env, b = .sys (.handle env) := by
  cases b with
  | sys a => cases a <;> first | exact ⟨_, rfl⟩ | cases h
  | proc | exit => cases h

theorem moves {rest : List Msg} (h : w.step p b = some v) (hw : r.Waits n w.sys rest) :
    Moves r n rest w b v := by
  obtain ⟨before, hr, hn⟩ := hw
  cases b with
  | proc q => exact .stays rfl ⟨before, World.step_other h (by simp) ▸ hr, hn⟩
  | exit tgid => exact .stays rfl ⟨before, World.step_other h (by simp) ▸ hr, hn⟩
  | sys a =>
    obtain ⟨_, hexec, _⟩ := World.step_sys h
    by_cases hb : WorldAction.isHandle (.sys a) = true
    · obtain ⟨env, ha⟩ := handle_of_isHandle hb
      cases ha
      obtain ⟨m, hm⟩ := handle_ring hexec
      rw [hr] at hm
      cases before with
      | nil =>
        cases hm
        exact .taken env rfl (by simpa using hn.symm) hr rfl
      | cons m' before =>
        rw [List.cons_append, List.cons.injEq] at hm
        exact .advances rfl ⟨before, hm.2.symm, by simp at hn; omega⟩
    · have hb : WorldAction.isHandle (.sys a) = false := by simpa using hb
      cases ring_change hexec with
      | same hs => exact .stays hb ⟨before, hs.trans hr, hn⟩
      | posted m hp hs =>
        exact .behind a m rfl hb hp ⟨before, by simp [hs, hr], hn⟩
      | handled env ha =>
        cases ha
        cases hb

/-- Unless the daemon exits, it registers the socket of a request that it can meet. -/
theorem taken_accepted {env : DaemonEnv} {rest : List Msg} (hw : WorldWf w)
    (h : w.step p (.sys (.handle env)) = some v) (hr : w.sys.ring = r.msg :: rest)
    (hu : r.undisturbed r.pid w (.sys (.handle env)) = true)
    (hf : r.meetsFull w (.sys (.handle env)) = false) :
    v.sys.exited = true ∨ ∃ hacc : Accepted w.sys env v.sys,
      hacc.k = r.k ∧ hacc.cookie = r.c ∧ hacc.gen = r.gen ∧ hacc.app = r.app := by
  obtain ⟨hadm, hexec, _⟩ := World.step_sys h
  have hreach : (w.pidfdOpen r.pid).any (fun q => decide (q.reaches r.c)) = true := by
    simpa [Request.undisturbed, hr] using hu
  rw [Option.any_eq_true] at hreach
  obtain ⟨q, hq, hc⟩ := hreach
  obtain ⟨f, hfound⟩ := fished_found hw hr hadm hq (of_decide_eq_true hc)
  rcases register_outcome hr hfound hexec with hx | ⟨st, hk, hfull⟩ | hacc
  · exact .inl hx
  · have hmet : r.meetsFull w (.sys (.handle env)) = true := by
      simp [Request.meetsFull, hr, hk, Request.row, hfull]
    rw [hmet] at hf
    cases hf
  · exact .inr hacc

theorem Accepted.settled {env : DaemonEnv} (hacc : Accepted s env t)
    (hr : hacc.k = r.k ∧ hacc.cookie = r.c ∧ hacc.gen = r.gen ∧ hacc.app = r.app) :
    r.Settled t := by
  obtain ⟨hk, hc, hg, ha⟩ := hr
  obtain ⟨st, hst, hcook⟩ := hacc.row_cookie
  rw [hk] at hst
  rw [ha, hg, hc] at hcook
  exact ⟨st, _, hst, hcook, fun _ => hacc.mem_sockhash (.inr hc.symm) (hc ▸ hacc.isOpen)⟩

theorem Accepted.shown {env : DaemonEnv} {rest : List Msg} (hacc : Accepted s env t)
    (hr : hacc.k = r.k ∧ hacc.cookie = r.c ∧ hacc.gen = r.gen ∧ hacc.app = r.app)
    (hring : t.ring = rest) (hl : r.Last s rest) : r.Shown t := by
  obtain ⟨hk, hc, hg, ha⟩ := hr
  obtain ⟨hquiet, sock, ss, hs, hss, hgen⟩ := hl
  obtain ⟨st, hst, hcook⟩ := hacc.row_cookie
  have hsame : hacc.ss = ss := by
    have heq := hacc.storage_eq
    simpa [hc, hs, hss] using heq.symm
  rw [hk] at hst
  rw [ha, hg, hc] at hcook
  have hsocks : t.socks r.c = some { sock with
      storage := some { hacc.ss with sockIdx := UInt32.ofNat hacc.pos } } := by
    rw [hacc.socks, if_pos hc.symm, hs, Option.map_some]
  exact ⟨hring ▸ hquiet, _, _, st, hsocks, rfl, (congrArg _ hsame).trans hgen, hacc.pos_ne_unset,
    hst, hcook, fun _ => hacc.mem_sockhash (.inr hc.symm) (hc ▸ hacc.isOpen)⟩

theorem last_step {rest : List Msg} (h : execute p s a = some t) (hl : r.leavesStorage a)
    (hlast : r.Last s rest) : r.Last t rest := by
  obtain ⟨hquiet, sock, ss, hs, hss, hg⟩ := hlast
  obtain ⟨sock', ss', hs', hss', hg', _⟩ := storage_step h hl hs hss
  exact ⟨hquiet, sock', ss', hs', hss', hg'.trans hg⟩

/-- The request is on its way or settled. Where the socket asks for nothing else, the request is
its last and the index is reported. -/
def Request.Underway (r : Request) (quiet : Prop) (n : ℕ) (w : World) : Prop :=
  WorldWf w ∧ (w.sys.exited = true ∨
    (n = 0 ∧ r.Settled w.sys ∧ (quiet → r.Shown w.sys)) ∨
    ∃ rest, r.Waits n w.sys rest ∧ (quiet → r.Last w.sys rest))

/-- What the steps of a run meet after the call. -/
structure Request.Spares (r : Request) (tgid : UInt32) (quiet : Prop) (w : World)
    (b : WorldAction) : Prop where
  keepsOpen : keepsOpen tgid r.c w = true
  undisturbed : r.undisturbed tgid w b = true
  notFull : r.meetsFull w b = false
  quiet : quiet → r.isRepeated b = false

theorem Request.Spares.ne_delete {tgid : UInt32} {quiet : Prop}
    (h : r.Spares tgid quiet w (.sys a)) : a ≠ .delete r.k := by
  rintro rfl
  simpa [Request.undisturbed] using h.undisturbed

theorem Request.Spares.leavesStorage {tgid : UInt32} {quiet : Prop}
    (h : r.Spares tgid quiet w (.sys a)) (hq : quiet) : r.leavesStorage a := by
  refine ⟨?_, h.quiet hq⟩
  rintro ctx rfl
  simpa [Request.undisturbed] using h.undisturbed

theorem last_world_step {tgid : UInt32} {quiet : Prop} {rest : List Msg}
    (h : w.step p b = some v) (hc : r.Spares tgid quiet w b) (hq : quiet)
    (hl : r.Last w.sys rest) : r.Last v.sys rest := by
  cases b with
  | proc q => exact World.step_other h (by simp) ▸ hl
  | exit id => exact World.step_other h (by simp) ▸ hl
  | sys a => exact last_step (World.step_sys h).2.1 (hc.leavesStorage hq) hl

theorem settled_world_step {tgid : UInt32} {quiet : Prop} (hw : WorldWf w)
    (h : w.step p b = some v) (hc : r.Spares tgid quiet w b) (hs : r.Settled w.sys)
    (hq : quiet → r.Shown w.sys) : r.Settled v.sys ∧ (quiet → r.Shown v.sys) := by
  have ho := keepsOpen_isOpen hw hc.keepsOpen
  cases b with
  | proc q => exact World.step_other h (by simp) ▸ ⟨hs, hq⟩
  | exit id => exact World.step_other h (by simp) ▸ ⟨hs, hq⟩
  | sys a =>
    obtain ⟨_, hexec, _⟩ := World.step_sys h
    exact ⟨settled_step hexec hc.ne_delete ho hs, fun hquiet =>
      shown_step hexec hc.ne_delete (hc.leavesStorage hquiet) ho hw.socks (hq hquiet)⟩

/-- Every message that the daemon takes up brings the request closer. -/
theorem underway_step {quiet : Prop} (h : w.step p b = some v)
    (hc : r.Spares r.pid quiet w b) (hu : r.Underway quiet n w) :
    r.Underway quiet (if b.isHandle then n - 1 else n) v := by
  obtain ⟨hw, hx | ⟨rfl, hs, hq⟩ | ⟨rest, hwaits, hlast⟩⟩ := hu <;> refine ⟨hw.step h, ?_⟩
  · left
    cases b with
    | sys a => exact exited_step (World.step_sys h).2.1 hx
    | proc | exit => exact World.step_other h (by simp) ▸ hx
  · exact .inr (.inl ⟨by simp, settled_world_step hw h hc hs hq⟩)
  · cases moves h hwaits with
    | stays hb hv =>
      rw [if_neg (by simp [hb])]
      exact .inr (.inr ⟨rest, hv, fun hq => last_world_step h hc hq (hlast hq)⟩)
    | behind a m ha hb hp hv =>
      subst ha
      rw [if_neg (by simp [hb])]
      refine .inr (.inr ⟨_, hv, fun hq => ?_⟩)
      obtain ⟨hrest, hstored⟩ := last_world_step h hc hq (hlast hq)
      refine ⟨fun m' hm' => ?_, hstored⟩
      rcases List.mem_append.mp hm' with hm' | hm'
      · exact hrest m' hm'
      · rw [List.mem_singleton.mp hm']
        exact posted_other hp hw.socks (hc.leavesStorage hq)
    | advances hb hv =>
      rw [if_pos hb]
      exact .inr (.inr ⟨rest, hv, fun hq => last_world_step h hc hq (hlast hq)⟩)
    | taken env hb hn hr hv =>
      subst hb hn
      rcases taken_accepted hw h hr hc.undisturbed hc.notFull with hx | ⟨hacc, hreq⟩
      · exact .inl hx
      · exact .inr (.inl ⟨rfl, hacc.settled hreq, fun hq => hacc.shown hreq hv (hlast hq)⟩)

/-! ### The call -/

theorem lastRegistration_waits (h : r.lastRegistration s = some r.msg) :
    ∃ rest, r.Waits (s.ring.length - rest.length) s rest ∧ ∀ m ∈ rest, r.registers m = false := by
  obtain ⟨_, after, before, hr, hno⟩ := List.find?_eq_some_iff_append.mp h
  have hring : s.ring = before.reverse ++ r.msg :: after.reverse := by
    simpa using congrArg List.reverse hr
  refine ⟨after.reverse, ⟨before.reverse, hring, ?_⟩, fun m hm => ?_⟩
  · simp [hring]
    omega
  · simpa using hno m (List.mem_reverse.mp hm)

/-- A socket that is live in the slot that its index names stays there in a call that does not
touch it. -/
theorem kept_shown {sock : Sock} {ss : SocketStorage} {st : ReuseportStorage}
    (h : execute p s a = some t) (hd : a ≠ .delete r.k) (ho : s.isOpen r.c = true)
    (hs : s.socks r.c = some sock) (hss : sock.storage = some ss) (hg : ss.sockGen = r.gen)
    (hi : ss.sockIdx ≠ UNSET) (hk : s.groups r.k = some st)
    (hcook : st.cookies (r.row st) (idxSlot ss.sockIdx) = r.c) (hlive : r.c ∈ s.sockhash)
    (hno : ∀ m ∈ s.ring, r.registers m = false) (hsocks : t.socks = s.socks)
    (hring : t.ring = s.ring) : r.Shown t := by
  obtain ⟨st', hk', hdis, hcook'⟩ := slot_kept h hd hk (hcook ▸ hlive)
  refine ⟨hring ▸ hno, sock, ss, st', hsocks ▸ hs, hss, hg, hi, hk', ?_, sockhash_kept h hlive ho⟩
  rw [Request.row, hdis]
  exact hcook'.trans hcook

theorem Request.Shown.settled (h : r.Shown s) : r.Settled s := by
  obtain ⟨_, _, ss, st, _, _, _, _, hk, hcook, hlive⟩ := h
  exact ⟨st, idxSlot ss.sockIdx, hk, hcook, hlive⟩

/-- A call that succeeds has its request on the way, or had it met before. -/
theorem call_underway {c : UInt64} {ctx : SockoptCtx} {env : OptEnv} (hw : WorldWf w)
    (h : w.step p (.sys (.setsockopt c ctx env)) = some v) (ho : ctx.opt = some .socketGen)
    (hok : (udpgrmSetsockopt p env (w.sys.tick env.flow.later) c ctx).1 = .ok)
    (hr : requestOf w.sys c ctx env = some r) (hstale : r.notStale w.sys = true) (quiet : Prop) :
    ∃ n ≤ v.sys.ring.length, r.Underway quiet n v := by
  obtain ⟨_, hexec, _⟩ := World.step_sys h
  have hopen : w.sys.isOpen c = true ∧
      v.sys = (udpgrmSetsockopt p env (w.sys.tick env.flow.later) c ctx).2 := by
    generalize v.sys = t at hexec
    cases execute_effect hexec with
    | setsockopt ho => exact ⟨ho, rfl⟩
  have hcall := setsockopt_genCall p env (w.sys.tick env.flow.later) c ctx ho
  rw [← hopen.2] at hcall
  cases hcall with
  | failed hne => exact absurd hok hne
  | posted sock ss data _ hc hss hd hs hq =>
    have hc : w.sys.socks c = some sock := hc
    have hreq : (⟨sock.key, c, u32 data 0, ss.sockApp, env.pid⟩ : Request) = r := by
      simpa [requestOf, hc, hss, hd] using hr
    subst hreq
    rw [hw.socks.own_cookie c sock ss hc hss] at hq
    refine ⟨v.sys.ring.length, le_rfl, hw.step h, .inr (.inr ⟨[], ⟨w.sys.ring, hq, ?_⟩, ?_⟩)⟩
    · simp [hq, Sys.tick]
    · refine fun _ => ⟨by simp, ?_⟩
      have hsocks := congrFun hs c
      rw [setStorage_socks, if_pos rfl] at hsocks
      exact ⟨_, _, hsocks.trans (congrArg _ hc), rfl, rfl⟩
  | kept sock ss data _ hc hss hd hg hi hs hq =>
    have hc : w.sys.socks c = some sock := hc
    have hreq : (⟨sock.key, c, u32 data 0, ss.sockApp, env.pid⟩ : Request) = r := by
      simpa [requestOf, hc, hss, hd] using hr
    subst hreq
    simp only [Request.notStale, hc, hss, Option.bind_some, Option.any_some, hg, hi, ne_eq,
      not_true, decide_false, Bool.false_or] at hstale
    split at hstale
    · rename_i m hm
      rw [of_decide_eq_true hstale] at hm
      obtain ⟨rest, hwaits, hno⟩ := lastRegistration_waits hm
      have hring : v.sys.ring = w.sys.ring := hq
      refine ⟨w.sys.ring.length - rest.length, by rw [hring]; omega, hw.step h,
        .inr (.inr ⟨rest, ?_, fun _ => ⟨hno, sock, ss, hs ▸ hc, hss, hg⟩⟩)⟩
      obtain ⟨before, hbefore, hlen⟩ := hwaits
      exact ⟨before, hring.trans hbefore, hlen⟩
    · rename_i hnone
      rw [Bool.and_eq_true, Option.any_eq_true] at hstale
      obtain ⟨hlive, st, hk, hcook⟩ := hstale
      have hno : ∀ m ∈ w.sys.ring, Request.registers _ m = false := fun m hm => by
        simpa using List.find?_eq_none.mp hnone m (List.mem_reverse.mpr hm)
      have hshown := kept_shown hexec (by simp) hopen.1 hc hss hg hi hk
        (of_decide_eq_true hcook) (of_decide_eq_true hlive) hno hs hq
      exact ⟨0, Nat.zero_le _, hw.step h, .inr (.inl ⟨rfl, hshown.settled, fun _ => hshown⟩)⟩

/-! ### Complete registrations -/

/-- A call of UDP_GRM_SOCKET_GEN that succeeds, and a run after it in which the process keeps the
socket open and the daemon handles all messages that are pending. -/
structure Registering (p : Programs) (tgid : UInt32) (C : Request → World → WorldAction → Prop)
    (r : Request) (w w₁ : World) (bs : List WorldAction) (v : World) : Prop where
  reachable : ∃ as, Transition.Run (world p) .initial as w
  call : ∃ ctx env, ctx.opt = some .socketGen ∧ requestOf w.sys r.c ctx env = some r ∧
    (udpgrmSetsockopt p env (w.sys.tick env.flow.later) r.c ctx).1 = .ok ∧
    w.step p (.sys (.setsockopt r.c ctx env)) = some w₁
  caller : ∃ q ∈ w.procs, q.tgid = tgid ∧ r.pid ∈ q.threads
  after : Transition.Run ((world p).restrict fun w b => keepsOpen tgid r.c w = true ∧ C r w b)
    w₁ bs v
  handled : w₁.sys.ring.length ≤ bs.countP WorldAction.isHandle
  running : v.sys.exited = false

/-- A run that never meets the full row keeps to the steps that do not. -/
theorem run_spares {tgid : UInt32} {quiet : Prop} {bs : List WorldAction}
    (h : Transition.Run ((world p).restrict fun w b =>
      keepsOpen tgid r.c w = true ∧ r.undisturbed tgid w b = true) w bs v)
    (hf : r.metFull p w bs = false) (hq : quiet → ∀ b ∈ bs, r.isRepeated b = false) :
    Transition.Run ((world p).restrict (r.Spares tgid quiet)) w bs v := by
  induction h with
  | refl => exact .refl
  | @stepL w u _ b bs htr _ ih =>
    obtain ⟨⟨hk, hu⟩, hstep⟩ := htr
    have hstep : w.step p b = some u := hstep
    simp only [Request.metFull, hstep, Option.any_some, Bool.or_eq_false_iff] at hf
    refine .stepL ⟨⟨hk, hu, hf.1, fun hquiet => hq hquiet b List.mem_cons_self⟩, hstep⟩ ?_
    exact ih hf.2 fun hquiet b' hb' => hq hquiet b' (List.mem_cons_of_mem b hb')

/-- The calls and steps of a concrete run, evaluated with what it should show. -/
def registeringTest (p : Programs) (tgid : UInt32) (C : Request → World → WorldAction → Bool)
    (r : Request) (ctx : SockoptCtx) (env : OptEnv) (as bs : List WorldAction)
    (Q : World → World → World → Bool) : Bool :=
  (Transition.exec (World.step p) .initial as).any fun w =>
    decide (ctx.opt = some .socketGen) && decide (requestOf w.sys r.c ctx env = some r) &&
    decide ((udpgrmSetsockopt p env (w.sys.tick env.flow.later) r.c ctx).1 = .ok) &&
    decide (∃ q ∈ w.procs, q.tgid = tgid ∧ r.pid ∈ q.threads) &&
    (w.step p (.sys (.setsockopt r.c ctx env))).any fun w₁ =>
      decide (w₁.sys.ring.length ≤ bs.countP WorldAction.isHandle) &&
      (Transition.exec (fun w b => if keepsOpen tgid r.c w && C r w b then w.step p b else none)
        w₁ bs).any fun v => !v.sys.exited && Q w w₁ v

theorem registering_of_test {tgid : UInt32} {C : Request → World → WorldAction → Bool}
    {ctx : SockoptCtx} {env : OptEnv} {as bs : List WorldAction} {Q : World → World → World → Bool}
    (h : registeringTest p tgid C r ctx env as bs Q = true) :
    ∃ w w₁ v, Registering p tgid (fun r w b => C r w b = true) r w w₁ bs v ∧ Q w w₁ v = true := by
  rw [registeringTest, Option.any_eq_true] at h
  obtain ⟨w, hw, h⟩ := h
  rw [Bool.and_eq_true, Option.any_eq_true] at h
  obtain ⟨hcall, w₁, hw₁, h⟩ := h
  rw [Bool.and_eq_true] at h
  obtain ⟨hlen, h⟩ := h
  simp only [Bool.and_eq_true, decide_eq_true_eq] at hcall hlen
  obtain ⟨⟨⟨ho, hreq⟩, hok⟩, hcaller⟩ := hcall
  obtain ⟨v, hv, hq⟩ := Transition.run_restrict_of_any _
    (fun w b => keepsOpen tgid r.c w && C r w b) _ _ _ h
  simp only [Bool.and_eq_true, Bool.not_eq_true'] at hv hq
  exact ⟨w, w₁, v, ⟨⟨as, Transition.run_ofFn_iff.mpr hw⟩, ⟨ctx, env, ho, hreq, hok, hw₁⟩, hcaller,
    hv, hlen, hq.1⟩, hq.2⟩

/-- Unless its row is found full, a request of the leader of a process is met, and the index is
reported until the socket asks again. -/
theorem registration_complete (p : Programs) (tgid : UInt32) (r : Request) (w w₁ v : World)
    (bs : List WorldAction)
    (h : Registering p tgid (fun r w b => r.undisturbed tgid w b = true) r w w₁ bs v)
    (hleader : r.pid = tgid) (hstale : r.notStale w.sys = true) :
    r.metFull p w₁ bs = true ∨
      r.InRow v.sys ∧ ((∀ b ∈ bs, r.isRepeated b = false) → r.Reported v.sys) := by
  subst hleader
  by_cases hf : r.metFull p w₁ bs = true
  · exact .inl hf
  right
  obtain ⟨as, hreach⟩ := h.reachable
  obtain ⟨ctx, env, ho, hreq, hok, hcall⟩ := h.call
  obtain ⟨n, hn, hunder⟩ := call_underway (WorldWf.reachable hreach) hcall ho hok hreq hstale
    (∀ b ∈ bs, r.isRepeated b = false)
  have hrun := run_spares h.after (by simpa using hf) id
  have hend : r.Underway _ (n - bs.countP WorldAction.isHandle) v :=
    hrun.countdown (fun htr hu => underway_step htr.2 htr.1 hu) hunder
  rw [Nat.sub_eq_zero_of_le (hn.trans h.handled)] at hend
  obtain ⟨_, hx | ⟨_, hs, hq⟩ | ⟨rest, ⟨before, _, hlen⟩, _⟩⟩ := hend
  · rw [h.running] at hx
    cases hx
  · obtain ⟨st, j, hk, hcook, _⟩ := hs
    exact ⟨⟨st, j, hk, hcook⟩, fun hquiet => (hq hquiet).reported⟩
  · omega

/-- Socket 1 is opened and bound by a process with two threads. -/
def WorldAction.opens (table : List (Option File)) : List WorldAction :=
  (Action.openBound 1).map .sys ++ [.proc ⟨100, [100, 101], table⟩]

/-- Standard streams, then the socket. -/
def File.few : List (Option File) := [some .other, some .other, some .other, some (.udp 1)]

/-- The socket asks for generation 0 from one of the threads. -/
def Request.first (pid : UInt32) : Request := ⟨skeyFromBpfSock .loopback, 1, 0, 0, pid⟩

def SockoptCtx.generation0 : SockoptCtx := ⟨IPPROTO_UDP, 201, [0, 0, 0, 0], false⟩

def OptEnv.thread (pid : UInt32) : OptEnv := { OptEnv.roomy with pid := pid }

def WorldAction.fishes (fished : Fished) : WorldAction := .sys (.handle ⟨fished, true, 0, 0⟩)

theorem registration_complete_leader : ∃ w w₁ v,
    Registering .const 100 (fun r w b => r.undisturbed 100 w b = true) (.first 100) w w₁
      [.fishes (.found 10)] v ∧
    (Request.first 100).InRow v.sys ∧ (Request.first 100).Reported v.sys := by
  have htest : registeringTest .const 100 (fun r w b => r.undisturbed 100 w b) (.first 100)
      .generation0 (.thread 100) (WorldAction.opens File.few) [.fishes (.found 10)]
      (fun w w₁ _ => (Request.first 100).notStale w.sys &&
        !(Request.first 100).metFull .const w₁ [.fishes (.found 10)]) = true := by
    decide +kernel
  obtain ⟨w, w₁, v, h, hq⟩ := registering_of_test htest
  rw [Bool.and_eq_true, Bool.not_eq_true'] at hq
  rcases registration_complete .const 100 (.first 100) w w₁ v _ h rfl hq.1 with hfull | ⟨hrow, hrep⟩
  · rw [hq.2] at hfull
    cases hfull
  · exact ⟨w, w₁, v, h, hrow, hrep (by decide)⟩

/-- The socket is in no slot of the row. -/
def Request.absent (r : Request) (s : Sys) : Bool :=
  (s.groups r.k).all fun st => decide (∀ j, st.cookies (r.row st) j ≠ r.c)

theorem Request.absent_not_inRow (h : r.absent s = true) : ¬ r.InRow s := by
  rintro ⟨st, j, hk, hcook⟩
  simp only [Request.absent, hk, Option.all_some, decide_eq_true_eq] at h
  exact h j hcook

/-- The socket reports no index. -/
def Request.unreported (r : Request) (s : Sys) : Bool :=
  (getSocketGen s r.c).all fun answer => decide (answer.2.1 = UNSET)

theorem Request.unreported_not_reported (h : r.unreported s = true) : ¬ r.Reported s := by
  rintro ⟨_, idx, grm, _, hget, hi, _⟩
  simp only [Request.unreported, hget, Option.all_some, decide_eq_true_eq] at h
  exact hi h

/-- A socket at descriptor 11, after eight closed ones. -/
def File.sparse : List (Option File) :=
  List.replicate 3 (some .other) ++ List.replicate 8 none ++ [some (.udp 1)]

/-- The socket is registered for generation 0, and its group is deleted. -/
def WorldAction.deletes : List WorldAction :=
  opens File.few ++ [.sys (.call 1 201 [0, 0, 0, 0]), .fishes (.found 10),
    .sys (.delete (skeyFromBpfSock .loopback))]

/-- The daemon answers, and the socket is bound again, which fails only after the hook. -/
def WorldAction.rebinds : List WorldAction :=
  [.fishes (.found 10), .sys (.bind 1 ⟨AF_INET, IPPROTO_UDP, some 1, true⟩)]

/-- The request of a thread that is no leader, that for a socket behind a gap of eight
descriptors, and the repeated one after the group was deleted put the socket into no row. A second
bind takes the index away. -/
theorem registration_lost :
    (∃ w w₁ v, Registering .const 100 (fun r w b => r.undisturbed 100 w b = true) (.first 101)
        w w₁ [.fishes .died] v ∧ (Request.first 101).notStale w.sys = true ∧
      (Request.first 101).metFull .const w₁ [.fishes .died] = false ∧
      ¬ (Request.first 101).InRow v.sys) ∧
    (∃ w w₁ v, Registering .const 100 (fun _ _ _ => True) (.first 100) w w₁
        [.fishes .notFound] v ∧ (Request.first 100).notStale w.sys = true ∧
      (Request.first 100).metFull .const w₁ [.fishes .notFound] = false ∧
      ¬ (Request.first 100).InRow v.sys) ∧
    (∃ w w₁ v, Registering .const 100 (fun r w b => r.undisturbed 100 w b = true) (.first 100)
        w w₁ [] v ∧ (Request.first 100).metFull .const w₁ [] = false ∧
      ¬ (Request.first 100).InRow v.sys) ∧
    ∃ w w₁ v, Registering .const 100 (fun _ _ _ => True) (.first 100) w w₁
        WorldAction.rebinds v ∧ (Request.first 100).notStale w.sys = true ∧
      (Request.first 100).metFull .const w₁ WorldAction.rebinds = false ∧
      (∀ b ∈ WorldAction.rebinds, (Request.first 100).isRepeated b = false) ∧
      ¬ (Request.first 100).Reported v.sys := by
  refine ⟨?_, ?_, ?_, ?_⟩
  · have htest : registeringTest .const 100 (fun r w b => r.undisturbed 100 w b) (.first 101)
        .generation0 (.thread 101) (WorldAction.opens File.few) [.fishes .died]
        (fun w w₁ v => (Request.first 101).notStale w.sys &&
          !(Request.first 101).metFull .const w₁ [.fishes .died] &&
          (Request.first 101).absent v.sys) = true := by
      decide +kernel
    obtain ⟨w, w₁, v, h, hq⟩ := registering_of_test htest
    simp only [Bool.and_eq_true, Bool.not_eq_true'] at hq
    exact ⟨w, w₁, v, h, hq.1.1, hq.1.2, Request.absent_not_inRow hq.2⟩
  · have htest : registeringTest .const 100 (fun _ _ _ => true) (.first 100)
        .generation0 (.thread 100) (WorldAction.opens File.sparse) [.fishes .notFound]
        (fun w w₁ v => (Request.first 100).notStale w.sys &&
          !(Request.first 100).metFull .const w₁ [.fishes .notFound] &&
          (Request.first 100).absent v.sys) = true := by
      decide +kernel
    obtain ⟨w, w₁, v, h, hq⟩ := registering_of_test htest
    simp only [Bool.and_eq_true, Bool.not_eq_true'] at h hq
    exact ⟨w, w₁, v, h, hq.1.1, hq.1.2, Request.absent_not_inRow hq.2⟩
  · have htest : registeringTest .const 100 (fun r w b => r.undisturbed 100 w b) (.first 100)
        .generation0 (.thread 100) WorldAction.deletes []
        (fun _ w₁ v => !(Request.first 100).metFull .const w₁ [] &&
          (Request.first 100).absent v.sys) = true := by
      decide +kernel
    obtain ⟨w, w₁, v, h, hq⟩ := registering_of_test htest
    simp only [Bool.and_eq_true, Bool.not_eq_true'] at hq
    exact ⟨w, w₁, v, h, hq.1, Request.absent_not_inRow hq.2⟩
  · have htest : registeringTest .const 100 (fun _ _ _ => true) (.first 100)
        .generation0 (.thread 100) (WorldAction.opens File.few) WorldAction.rebinds
        (fun w w₁ v => (Request.first 100).notStale w.sys &&
          !(Request.first 100).metFull .const w₁ WorldAction.rebinds &&
          (Request.first 100).unreported v.sys) = true := by
      decide +kernel
    obtain ⟨w, w₁, v, h, hq⟩ := registering_of_test htest
    simp only [Bool.and_eq_true, Bool.not_eq_true'] at h hq
    exact ⟨w, w₁, v, h, hq.1.1, hq.1.2, by decide, Request.unreported_not_reported hq.2⟩

end Udpgrm
