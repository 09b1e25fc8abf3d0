import Udpgrm.Registration

/-! Flow entries: which socket holds the entry of a remote endpoint, and for how long. -/
namespace Udpgrm

variable {p : Programs} {s t : Sys} {a : Action} {c : UInt64}

/-! ### Calls of `flow_assure` -/

/-- A call of `flow_assure`: its caller, the group as the caller sees it, the remote endpoint,
and what the kernel answers. -/
structure FlowCall where
  socket : UInt64
  storage : SocketStorage
  group : Key
  st : ReuseportStorage
  remote : Remote
  env : FlowEnv

namespace FlowCall

variable (p : Programs) (f : FlowCall)

def hash : UInt32 := p.countIpFlowHash (f.remote.flow f.st.randomId)

def result (lru : FlowTable) : Bool × ReuseportStorage × FlowTable :=
  flowAssure f.env f.st f.storage (f.hash p) lru

/-- The timestamp that a successful call leaves in the entry. -/
def stamp (lru : FlowTable) : UInt64 :=
  match lru (f.hash p) with
  | none => f.env.now
  | some value => if value.fresh f.st.dis f.env.now then f.env.now else f.env.later

/-- Both calls are about the same endpoint of the same group. -/
abbrev SameFlow (g : FlowCall) : Prop := g.group = f.group ∧ g.remote = f.remote

end FlowCall

/-- The group that a setsockopt call works on, present or created by it. -/
def groupSeen (env : OptEnv) (s : Sys) (k : Key) (ss : SocketStorage) : Option ReuseportStorage :=
  match s.groups k with
  | some st => some st
  | none => if env.mapRoom then some (freshGroup env ss) else none

/-- The call of `flow_assure` that a step makes, if it gets there. -/
def flowCall (s : Sys) : Action → Option FlowCall
  | .sendmsg c dst env =>
    (s.socks c).bind fun sock => (s.groups sock.key).bind fun st =>
      if st.dis.kind = some .flow then
        sock.storage.map fun ss => ⟨c, ss, sock.key, st, remoteOfSockAddr dst, env⟩
      else none
  | .setsockopt c ctx env =>
    if ctx.opt = some .flowAssure ∧ ctx.handled = false then
      (copyIn ctx.optval).bind fun data => (s.socks c).bind fun sock =>
        sock.storage.bind fun ss => (groupSeen env s sock.key ss).bind fun st =>
          if st.netnsCookie = ss.netnsCookie ∧ st.dis.kind = some .flow then
            (remoteOfSockaddr data).map fun rm => ⟨c, ss, sock.key, st, rm, env.flow⟩
          else none
    else none
  | _ => none

/-- What a step that calls `flow_assure` does to the state. -/
structure FlowStep (p : Programs) (s : Sys) (f : FlowCall) (t : Sys) : Prop where
  now_le : s.clock ≤ f.env.now
  later_le : f.env.now ≤ f.env.later
  clock_eq : t.clock = f.env.later
  socks_eq : t.socks = s.socks
  socket : ∃ sock, s.socks f.socket = some sock ∧ sock.key = f.group ∧
    sock.storage = some f.storage
  kind_eq : f.st.dis.kind = some .flow
  group_seen : ∀ st, s.groups f.group = some st → f.st = st
  group_eq : t.groups f.group = some (f.result p s.lru).2.1
  lru_eq : t.lru = (f.result p s.lru).2.2

theorem getStateCreate_eq (env : OptEnv) (s : Sys) (k : Key) (ss : SocketStorage) :
    (getStateCreate env s k ss).map (fun x => x.2.1) = groupSeen env s k ss := by
  unfold getStateCreate groupSeen
  cases s.groups k with
  | some st => rfl
  | none => cases env.mapRoom <;> rfl

theorem groupSeen_of_some {env : OptEnv} {k : Key} {ss : SocketStorage}
    {st st' : ReuseportStorage} (h : groupSeen env s k ss = some st) (hk : s.groups k = some st') :
    st = st' := by
  simpa [groupSeen, hk, eq_comm] using h

/-- A FLOW_ASSURE call that reaches `flow_assure` answers by its result. -/
theorem setsockopt_flow {ctx : SockoptCtx} {env : OptEnv} {f : FlowCall}
    (h : flowCall s (.setsockopt c ctx env) = some f) :
    ∃ b : Sys, b.socks = s.socks ∧ b.clock = s.clock ∧
      (∃ sock, s.socks c = some sock ∧ sock.key = f.group ∧ sock.storage = some f.storage) ∧
      f.socket = c ∧ f.env = env.flow ∧ f.st.dis.kind = some .flow ∧
      (∀ st, s.groups f.group = some st → f.st = st) ∧
      udpgrmSetsockopt p env s c ctx =
        (if (f.result p s.lru).1 then .ok else .err .eexist,
          (b.setGroup f.group (f.result p s.lru).2.1).setLru (f.result p s.lru).2.2) := by
  simp only [flowCall] at h
  split_ifs at h with ho
  obtain ⟨data, hd, h⟩ := Option.bind_eq_some_iff.mp h
  obtain ⟨sock, hs, h⟩ := Option.bind_eq_some_iff.mp h
  obtain ⟨ss, hss, h⟩ := Option.bind_eq_some_iff.mp h
  obtain ⟨st, hst, h⟩ := Option.bind_eq_some_iff.mp h
  split_ifs at h with hn
  obtain ⟨rm, hrm, rfl⟩ := Option.map_eq_some_iff.mp h
  obtain ⟨⟨b, st', created⟩, hg, rfl⟩ := Option.map_eq_some_iff.mp (getStateCreate_eq .. ▸ hst)
  obtain ⟨hnet, hkind⟩ : st'.netnsCookie = ss.netnsCookie ∧ st'.dis.kind = some .flow := hn
  have hb : b.lru = s.lru ∧ b.socks = s.socks ∧ b.clock = s.clock := by
    cases getStateCreate_base hg <;> exact ⟨rfl, rfl, rfl⟩
  refine ⟨b, hb.2.1, hb.2.2, ⟨sock, hs, rfl, hss⟩, rfl, rfl, hkind,
    fun st => groupSeen_of_some hst, ?_⟩
  simp only [udpgrmSetsockopt, ho.1, ho.2, hd, hs, hss, hg, hnet, setsockoptBody, hkind, hrm,
    FlowCall.result, FlowCall.hash, hb.1, Option.bind_some, Option.map_some, ne_eq,
    not_true_eq_false, if_false, Bool.false_eq_true]
  rfl

theorem flow_step {f : FlowCall} (h : execute p s a = some t) (hf : flowCall s a = some f) :
    FlowStep p s f t := by
  cases execute_effect h with
  | @setsockopt c ctx env ho hnow hlater =>
    have hf' : flowCall (s.tick env.flow.later) (.setsockopt c ctx env) = some f := hf
    obtain ⟨b, hb, hclock, hsock, rfl, henv, hkind, hseen, hres⟩ := setsockopt_flow (p := p) hf'
    rw [hres]
    exact {
      now_le := henv ▸ hnow
      later_le := henv ▸ hlater
      clock_eq := hclock.trans (congrArg FlowEnv.later henv).symm
      socks_eq := hb
      socket := hsock
      kind_eq := hkind
      group_seen := hseen
      group_eq := by simp [Sys.setLru, Sys.setGroup, Sys.tick]
      lru_eq := rfl }
  | @sendmsg c dst env ho hnow hlater =>
    obtain ⟨sock, hs, hf⟩ := Option.bind_eq_some_iff.mp hf
    obtain ⟨st, hst, hf⟩ := Option.bind_eq_some_iff.mp hf
    split_ifs at hf with hk
    obtain ⟨ss, hss, rfl⟩ := Option.map_eq_some_iff.mp hf
    have hres : udpSendmsg p env (s.tick env.later) c dst =
        let f : FlowCall := ⟨c, ss, sock.key, st, remoteOfSockAddr dst, env⟩
        ((s.tick env.later).setGroup f.group (f.result p s.lru).2.1).setLru
          (f.result p s.lru).2.2 := by
      simp only [udpSendmsg, Sys.tick, hs, hst, hk, hss]
      rfl
    rw [hres]
    exact {
      now_le := hnow
      later_le := hlater
      clock_eq := rfl
      socks_eq := rfl
      socket := ⟨sock, hs, rfl, hss⟩
      kind_eq := hk
      group_seen := fun st' hst' => by simpa [hst] using hst'
      group_eq := by simp [Sys.setLru, Sys.setGroup, FlowCall.result, FlowCall.hash]
      lru_eq := rfl }
  | _ => cases hf

theorem Base.groupSeen {env : OptEnv} {k : Key} {ss : SocketStorage} {b : Sys}
    {st : ReuseportStorage} {created : Bool} (h : Base env s k ss b st created) :
    groupSeen env s k ss = some st := by
  cases h with
  | existing h => simp [Udpgrm.groupSeen, h]
  | created h hm => simp [Udpgrm.groupSeen, h, hm]

theorem Base.lru {env : OptEnv} {k : Key} {ss : SocketStorage} {b : Sys}
    {st : ReuseportStorage} {created : Bool} (h : Base env s k ss b st created) :
    b.lru = s.lru := by
  cases h <;> rfl

theorem setsockopt_lru {env : OptEnv} {ctx : SockoptCtx} {r : OptRet}
    (h : SetsockoptEffect p env s c ctx r t) (hh : ctx.handled = false)
    (hf : flowCall s (.setsockopt c ctx env) = none) : t.lru = s.lru := by
  cases h with
  | untouched => rfl
  | body hs hss hb hd ho hn he =>
    cases he with
    | flow hk hrm => simp [flowCall, hs, hss, hd, ho, hh, hb.groupSeen, hn, hk, hrm] at hf
    | _ => exact hb.lru

/-- Without a call of `flow_assure` the flow table stays as it is. -/
theorem lru_of_no_call (h : execute p s a = some t) (hf : flowCall s a = none) :
    t.lru = s.lru := by
  cases execute_effect h with
  | socket | ignored | notFound | announced | crashed | close | cleanup | delete => rfl
  | @bind c ctx =>
    rcases bpfBind_cases s c ctx with h | ⟨_, _, h⟩ <;> rw [h]
    rfl
  | @packet r now md =>
    rcases receive_cases p (s.tick now) r md now with h | ⟨_, _, _, _, h⟩ <;> rw [h] <;> rfl
  | @sendmsg c dst env =>
    rcases udpSendmsg_cases p env (s.tick env.later) c dst with
      h | ⟨sock, ss, st, hs, hss, hst, hk, _⟩
    · rw [h]
      rfl
    · replace hs : s.socks c = some sock := hs
      replace hst : s.groups sock.key = some st := hst
      simp [flowCall, hs, hss, hst, hk] at hf
  | accepted hacc =>
    rw [congrArg Sys.lru hacc.after_eq]
    unfold acceptSocket
    simp only [Sys.setStorage, Sys.setGroup]
    split <;> rfl
  | @setsockopt c ctx env =>
    cases hh : ctx.handled with
    | true =>
      unfold udpgrmSetsockopt
      cases ctx.opt <;> simp [hh, Sys.tick]
    | false =>
      have heff := udpgrmSetsockopt_effect p env (s.tick env.flow.later) c ctx
      have hlru := setsockopt_lru heff hh hf
      exact hlru

/-! ### Three outcomes of a call -/

section Outcomes

variable {f : FlowCall} {lru : FlowTable} {v : LruValue}

theorem FlowCall.result_lru : (f.result p lru).2.2 =
    flowTableAfter f.env f.st.dis f.storage (f.hash p) lru := flowAssure_lru ..

theorem FlowCall.refresh (hv : lru (f.hash p) = some v)
    (hfresh : v.fresh f.st.dis f.env.now = true) (hc : v.cookie = f.storage.soCookie) :
    (f.result p lru).2.2 (f.hash p) = some ⟨f.env.now, v.cookie⟩ := by
  simp [FlowCall.result_lru, flowTableAfter, hv, hfresh, hc]

theorem FlowCall.conflict (hv : lru (f.hash p) = some v)
    (hfresh : v.fresh f.st.dis f.env.now = true) (hc : v.cookie ≠ f.storage.soCookie) :
    (f.result p lru).1 = false ∧ (f.result p lru).2.2 = lru := by
  have hr : flowRefuses f.env f.st.dis f.storage (f.hash p) lru = true := by
    simp [flowRefuses, hv, hfresh, hc]
  refine ⟨?_, ?_⟩
  · rw [FlowCall.result, flowAssure_fst, hr]
    rfl
  · rw [FlowCall.result_lru, flowTableAfter_refused hr]

theorem FlowCall.takeover (hv : lru (f.hash p) = some v)
    (hfresh : v.fresh f.st.dis f.env.now = false) :
    (f.result p lru).1 = true ∧
      (f.result p lru).2.2 (f.hash p) = some ⟨f.env.later, f.storage.soCookie⟩ := by
  refine ⟨?_, ?_⟩
  · simp [FlowCall.result, flowAssure_fst, flowRefuses, hv, hfresh]
  · simp [FlowCall.result_lru, flowTableAfter, hv, hfresh]

/-- A call that succeeds leaves its caller in the entry. -/
theorem FlowCall.holds (h : (f.result p lru).1 = true) :
    (f.result p lru).2.2 (f.hash p) = some ⟨f.stamp p lru, f.storage.soCookie⟩ := by
  rw [FlowCall.result, flowAssure_fst, Bool.not_eq_true', flowRefuses] at h
  rw [FlowCall.result_lru, flowTableAfter, FlowCall.stamp]
  cases hv : lru (f.hash p) with
  | none =>
    have hi : f.env.inserted = true := by simpa [hv] using h
    simp [hi]
  | some v =>
    by_cases hfresh : v.fresh f.st.dis f.env.now = true
    · have hc : v.cookie = f.storage.soCookie := by simpa [hv, hfresh] using h
      simp [hfresh, hc]
    · simp [hfresh]

theorem FlowCall.stamp_le (h : f.env.now ≤ f.env.later) : f.stamp p lru ≤ f.env.later := by
  unfold FlowCall.stamp
  split
  · exact h
  · split
    · exact h
    · exact UInt64.le_refl _

end Outcomes

/-! ### Holding an entry -/

/-- The system with the time of the last successful call by the holder of one flow. -/
structure Watched where
  sys : Sys
  last : UInt64

/-- A step of the system seen by the holder `f.socket` of the flow of `f`. -/
def Watched.step (p : Programs) (f : FlowCall) (x : Watched) (a : Action) : Option Watched :=
  (execute p x.sys a).map fun t => ⟨t,
    match flowCall x.sys a with
    | some g => if g.socket = f.socket ∧ f.SameFlow g then g.env.now else x.last
    | none => x.last⟩

/-- Calls for the flow come before the timeout has passed, calls for other flows have other
hashes, and the group is not deleted. -/
def onTime (p : Programs) (f : FlowCall) (x : Watched) (a : Action) : Bool :=
  match flowCall x.sys a with
  | some g =>
    if f.SameFlow g then decide (g.env.now.toNat ≤ x.last.toNat + f.st.dis.flowTimeout)
    else decide (g.hash p ≠ f.hash p)
  | none => decide (a ≠ .delete f.group)

/-- The holder is in the entry, with the time of its last call. -/
structure Held (p : Programs) (f : FlowCall) (x : Watched) : Prop where
  wf : SocksWf x.sys
  last_le : x.last ≤ x.sys.clock
  entry : x.sys.lru (f.hash p) = some ⟨x.last, f.socket⟩
  group : ∃ st, x.sys.groups f.group = some st ∧ st.dis = f.st.dis ∧ st.randomId = f.st.randomId
  holder : ∃ sock, x.sys.socks f.socket = some sock ∧ sock.key = f.group

section Holding

variable {f g : FlowCall} {x y : Watched}

/-- A later call for the flow reads the entry of the holder. -/
theorem Held.call (hx : Held p f x) (hstep : FlowStep p x.sys g t) (hsame : f.SameFlow g) :
    g.hash p = f.hash p ∧ g.st.dis = f.st.dis ∧ g.storage.soCookie = g.socket ∧
      (LruValue.fresh ⟨x.last, f.socket⟩ g.st.dis g.env.now = true ↔
        g.env.now.toNat ≤ x.last.toNat + f.st.dis.flowTimeout) := by
  obtain ⟨st, hst, hdis, hid⟩ := hx.group
  have hseen : g.st = st := hstep.group_seen st (hsame.1 ▸ hst)
  obtain ⟨sock, hs, _, hss⟩ := hstep.socket
  have hlast : x.last ≤ g.env.now := UInt64.le_trans hx.last_le hstep.now_le
  refine ⟨?_, hseen ▸ hdis, hx.wf.own_cookie _ sock _ hs hss, ?_⟩
  · rw [FlowCall.hash, FlowCall.hash, hsame.2, hseen, hid]
  · rw [LruValue.fresh_iff hlast, hseen, hdis]

theorem held_start (hw : SocksWf s) (h : execute p s a = some t) (hf : flowCall s a = some f)
    (hr : (f.result p s.lru).1 = true) : Held p f ⟨t, f.stamp p s.lru⟩ := by
  have hstep := flow_step h hf
  obtain ⟨sock, hs, hkey, hss⟩ := hstep.socket
  have hconfig : f.st.SameConfig (f.result p s.lru).2.1 := flowAssure_sameConfig ..
  exact {
    wf := hw.step h
    last_le := by
      show f.stamp p s.lru ≤ t.clock
      rw [hstep.clock_eq]
      exact FlowCall.stamp_le hstep.later_le
    entry := by
      show t.lru (f.hash p) = _
      rw [hstep.lru_eq, FlowCall.holds hr, hw.own_cookie _ sock _ hs hss]
    group := ⟨_, hstep.group_eq, hconfig.sameTable.dis, hconfig.sameTable.randomId⟩
    holder := ⟨sock, hstep.socks_eq ▸ hs, hkey⟩ }

/-- Only the entry and its time have to be looked at; the rest of the invariant stays. -/
theorem Held.next {last : UInt64} (hx : Held p f x) (h : execute p x.sys a = some t)
    (hdel : a ≠ .delete f.group) (hlast : last ≤ t.clock)
    (hentry : t.lru (f.hash p) = some ⟨last, f.socket⟩) : Held p f ⟨t, last⟩ := by
  refine ⟨hx.wf.step h, hlast, hentry, ?_, ?_⟩
  · obtain ⟨st, hst, hdis, hid⟩ := hx.group
    obtain ⟨st', hst'⟩ := Option.isSome_iff_exists.mp (group_survives h hdel (by simp [hst]))
    cases group_change h hst' with
    | kept st₀ hst₀ hs =>
      rw [hst, Option.some.injEq] at hst₀
      subst hst₀
      exact ⟨st', hst', hs.dis_eq.trans hdis, hs.randomId_eq.trans hid⟩
    | born _ _ _ _ _ hnone _ => simp [hst] at hnone
  · obtain ⟨sock, hs, hkey⟩ := hx.holder
    obtain ⟨sock', hs', hstep⟩ := sock_step h hs
    exact ⟨sock', hs', hstep.key_eq.trans hkey⟩

theorem onTime_ne_delete (h : onTime p f x a = true) : a ≠ .delete f.group := by
  rintro rfl
  simp [onTime, flowCall] at h

theorem onTime_same (h : onTime p f x a = true) (hg : flowCall x.sys a = some g)
    (hsame : f.SameFlow g) : g.env.now.toNat ≤ x.last.toNat + f.st.dis.flowTimeout := by
  unfold onTime at h
  rw [hg] at h
  simpa only [if_pos hsame, decide_eq_true_eq] using h

theorem onTime_other (h : onTime p f x a = true) (hg : flowCall x.sys a = some g)
    (hother : ¬ f.SameFlow g) : g.hash p ≠ f.hash p := by
  unfold onTime at h
  rw [hg] at h
  simpa only [if_neg hother, decide_eq_true_eq] using h

theorem held_step (hx : Held p f x) (h : Watched.step p f x a = some y)
    (hc : onTime p f x a = true) : Held p f y := by
  obtain ⟨t, ht, rfl⟩ := Option.map_eq_some_iff.mp h
  have hdel := onTime_ne_delete hc
  have hclock := UInt64.le_trans hx.last_le (clock_step ht)
  cases hcall : flowCall x.sys a with
  | none => exact hx.next ht hdel hclock (lru_of_no_call ht hcall ▸ hx.entry)
  | some g =>
    have hstep := flow_step ht hcall
    dsimp only
    by_cases hsame : f.SameFlow g
    · obtain ⟨hhash, _, hown, hfresh⟩ := hx.call hstep hsame
      have hentry : x.sys.lru (g.hash p) = some ⟨x.last, f.socket⟩ := hhash ▸ hx.entry
      have hon := hfresh.mpr (onTime_same hc hcall hsame)
      by_cases hself : g.socket = f.socket
      · rw [if_pos ⟨hself, hsame⟩]
        refine hx.next ht hdel (hstep.clock_eq ▸ hstep.later_le) ?_
        rw [hstep.lru_eq, ← hhash, FlowCall.refresh hentry hon (hself ▸ hown.symm)]
      · rw [if_neg fun h => hself h.1]
        refine hx.next ht hdel hclock ?_
        have hne : f.socket ≠ g.storage.soCookie := by
          rw [hown]
          exact Ne.symm hself
        rw [hstep.lru_eq, (FlowCall.conflict hentry hon hne).2, hx.entry]
    · rw [if_neg fun h => hsame h.2]
      refine hx.next ht hdel hclock ?_
      rw [hstep.lru_eq, FlowCall.result_lru,
        flowTableAfter_of_ne (onTime_other hc hcall hsame).symm, hx.entry]

end Holding

/-! ### What the holder can rely on -/

theorem firstStage_flow {st : ReuseportStorage} {md : Md} {rm : Remote} (m : Metrics → Metrics)
    (hk : st.dis.kind = some .flow) (hd : dissectorFlow md = some rm) :
    firstStage p md (st.count m) = .haveHash (p.countIpFlowHash (rm.flow st.randomId)) := by
  simp only [firstStage, ReuseportStorage.count_dis, hk, hd]
  rfl

/-- A packet whose sender has an entry in force goes to the socket in the entry. -/
theorem receive_flow {r now : UInt64} {kr : Sock} {st : ReuseportStorage} {md : Md} {rm : Remote}
    {v : LruValue} (hr : s.socks r = some kr) (hg : s.groups kr.key = some st)
    (hk : st.dis.kind = some .flow) (hd : dissectorFlow md = some rm)
    (hv : s.lru (p.countIpFlowHash (rm.flow st.randomId)) = some v)
    (hfresh : v.fresh st.dis now = true) (hsel : s.selectReuseport r v.cookie = 0) :
    (receive p s r md now).1 = .existing v.cookie := by
  simp [receive, hr, hg, udpgrmReuseportProg, firstStage_flow _ hk hd, haveHash, hv, hsel, hfresh]

/-- While the holder of the flow of `f` keeps calling in time: it stays in the entry, packets of
the endpoint go to it while it is in `sockhash`, other sockets are refused and change nothing,
and once the timeout has passed the next call takes the entry over. -/
structure Sticky (p : Programs) (f : FlowCall) (x : Watched) : Prop where
  entry : x.sys.lru (f.hash p) = some ⟨x.last, f.socket⟩
  routed : ∀ r kr sock md now, x.sys.socks r = some kr → x.sys.socks f.socket = some sock →
    kr.key = sock.key → kr.netnsCookie = sock.netnsCookie → f.socket ∈ x.sys.sockhash →
    dissectorFlow md = some f.remote → x.sys.clock ≤ now →
    now.toNat ≤ x.last.toNat + f.st.dis.flowTimeout →
    (receive p (x.sys.tick now) r md now).1 = .existing f.socket
  refused : ∀ b g y, flowCall x.sys b = some g → f.SameFlow g → execute p x.sys b = some y →
    g.env.now.toNat ≤ x.last.toNat + f.st.dis.flowTimeout → g.socket ≠ f.socket →
    (g.result p x.sys.lru).1 = false ∧ y.lru = x.sys.lru ∧
      ∀ ctx env, b = .setsockopt g.socket ctx env →
        (udpgrmSetsockopt p env (x.sys.tick env.flow.later) g.socket ctx).1 = .err .eexist
  takenOver : ∀ b g y, flowCall x.sys b = some g → f.SameFlow g → execute p x.sys b = some y →
    x.last.toNat + f.st.dis.flowTimeout < g.env.now.toNat →
    (g.result p x.sys.lru).1 = true ∧ y.lru (f.hash p) = some ⟨g.env.later, g.socket⟩

theorem Held.sticky {f : FlowCall} {x : Watched} (hx : Held p f x)
    (hkind : f.st.dis.kind = some .flow) : Sticky p f x where
  entry := hx.entry
  routed r kr sock md now hr hs hkey hnetns hlive hd hclock hon := by
    obtain ⟨st, hst, hdis, hid⟩ := hx.group
    obtain ⟨sock', hs', hgroup⟩ := hx.holder
    rw [hs, Option.some.injEq] at hs'
    subst hs'
    have hst' : (x.sys.tick now).groups kr.key = some st := by
      rw [hkey, hgroup]
      exact hst
    have hentry : x.sys.lru (p.countIpFlowHash (f.remote.flow st.randomId)) =
        some ⟨x.last, f.socket⟩ := hid ▸ hx.entry
    have hfresh : LruValue.fresh ⟨x.last, f.socket⟩ st.dis now = true := by
      rw [LruValue.fresh_iff (UInt64.le_trans hx.last_le hclock), hdis]
      exact hon
    exact receive_flow (s := x.sys.tick now) hr hst' (hdis ▸ hkind) hd hentry hfresh
      (selectReuseport_eq_zero hr hs hlive hkey hnetns)
  refused b g y hb hsame hy hon hne := by
    have hstep := flow_step hy hb
    obtain ⟨hhash, _, hown, hfresh⟩ := hx.call hstep hsame
    have hne' : f.socket ≠ g.storage.soCookie := by
      rw [hown]
      exact Ne.symm hne
    obtain ⟨hres, hlru⟩ := FlowCall.conflict (hhash ▸ hx.entry) (hfresh.mpr hon) hne'
    refine ⟨hres, hstep.lru_eq.trans hlru, ?_⟩
    rintro ctx env rfl
    have hb' : flowCall (x.sys.tick env.flow.later) (.setsockopt g.socket ctx env) = some g := hb
    have hres' : (g.result p (x.sys.tick env.flow.later).lru).1 = false := hres
    obtain ⟨_, _, _, _, _, _, _, _, hret⟩ := setsockopt_flow (p := p) hb'
    rw [hret, hres']
    rfl
  takenOver b g y hb hsame hy hlate := by
    have hstep := flow_step hy hb
    obtain ⟨hhash, _, hown, hfresh⟩ := hx.call hstep hsame
    have hexpired : LruValue.fresh ⟨x.last, f.socket⟩ g.st.dis g.env.now = false := by
      rw [← Bool.not_eq_true, hfresh]
      omega
    obtain ⟨hres, hlru⟩ := FlowCall.takeover (hhash ▸ hx.entry) hexpired
    exact ⟨hres, by rw [hstep.lru_eq, ← hhash, hlru, hown]⟩

/-- From a successful call of `flow_assure` on, the flow sticks to its caller. -/
theorem flow_sticky {as bs : List Action} {f : FlowCall} {x : Watched}
    (h : Run p Sys.initial as s) (hf : flowCall s a = some f) (ha : execute p s a = some t)
    (hr : (f.result p s.lru).1 = true)
    (hrun : Transition.Run ((Transition.LTS.ofFn (Watched.step p f)).restrict
      fun x b => onTime p f x b = true) ⟨t, f.stamp p s.lru⟩ bs x) : Sticky p f x := by
  have hx : Held p f x :=
    Transition.Run.inv_restrict (P := Held p f) hrun (fun htr hc hx => held_step hx htr hc)
      (held_start (socksWf_reachable h) ha hf hr)
  exact hx.sticky (flow_step ha hf).kind_eq

/-- The `sockaddr_in` of 10.0.0.1:12345, and a packet that comes from there. -/
def remoteSockaddr : List UInt8 := [2, 0, 0x30, 0x39, 10, 0, 0, 1, 0, 0, 0, 0, 0, 0, 0, 0]

def remotePacket : Md where
  hash := 0
  ethProtocol := ETH_P_IP
  len := 8
  net := List.replicate 12 0 ++ [10, 0, 0, 1, 127, 0, 0, 1]
  data := [0x30, 0x39, 1, 0xbb, 0, 8, 0, 0]

/-- A registered socket takes a flow, and another socket is refused it. -/
theorem flow_sticky_registered : ∃ s t f x,
    Run .const Sys.initial (registerRun ++ Action.openBound 2) s ∧
    flowCall s (.call 1 203 remoteSockaddr) = some f ∧
    execute .const s (.call 1 203 remoteSockaddr) = some t ∧
    Transition.Run ((Transition.LTS.ofFn (Watched.step .const f)).restrict
      fun x b => onTime .const f x b = true) ⟨t, f.stamp .const s.lru⟩
        [.call 2 203 remoteSockaddr] x ∧
    1 ∈ x.sys.sockhash ∧ Sticky .const f x := by
  obtain ⟨s, hs, ht⟩ := Transition.run_of_any (execute .const) Sys.initial
    (registerRun ++ Action.openBound 2)
    (fun s : Sys => (flowCall s (.call 1 203 remoteSockaddr)).any fun f : FlowCall =>
      (execute .const s (.call 1 203 remoteSockaddr)).any fun t : Sys =>
        (f.result .const s.lru).1 && (Transition.exec
          (fun x b => if onTime .const f x b then Watched.step .const f x b else none)
          ⟨t, f.stamp .const s.lru⟩ [.call 2 203 remoteSockaddr]).any
            fun x : Watched => decide (1 ∈ x.sys.sockhash))
    (by decide +kernel)
  obtain ⟨f, hf, ht⟩ := (Option.any_eq_true ..).mp ht
  obtain ⟨t, ha, ht⟩ := (Option.any_eq_true ..).mp ht
  obtain ⟨hr, ht⟩ := (Bool.and_eq_true ..).mp ht
  obtain ⟨x, hx, hlive⟩ := Transition.run_restrict_of_any _ _ _ _ _ ht
  exact ⟨s, t, f, x, hs, hf, ha, hx, of_decide_eq_true hlive, flow_sticky hs hf ha hr hx⟩

/-- A bound socket can take a flow before it has asked for a generation. The daemon has not
put it into `sockhash` then, and its packets go to the new-flow stage. -/
theorem unregistered_holder_not_selected : ∃ s,
    Run .const Sys.initial (Action.openBound 1 ++ [.call 1 203 remoteSockaddr]) s ∧
    s.isOpen 1 = true ∧ s.lru 0 = some ⟨0, 1⟩ ∧
    dissectorFlow remotePacket = remoteOfSockaddr remoteSockaddr ∧
    (receive .const (s.tick 0) 1 remotePacket 0).1 = .newFlow none := by
  obtain ⟨s, hs, ht⟩ := Transition.run_of_any (execute .const) Sys.initial
    (Action.openBound 1 ++ [.call 1 203 remoteSockaddr])
    (fun s : Sys => decide (s.isOpen 1 = true ∧ s.lru 0 = some ⟨0, 1⟩ ∧
      (receive .const (s.tick 0) 1 remotePacket 0).1 = .newFlow none)) (by decide +kernel)
  obtain ⟨ho, hl, hv⟩ := of_decide_eq_true ht
  exact ⟨s, hs, ho, hl, by decide, hv⟩

end Udpgrm
