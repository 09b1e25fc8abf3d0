import Udpgrm.RolloutSteps

/-! Graceful restarts lose no packet: where new flows go while instances take over. -/
namespace Udpgrm

open LittleEndian

variable {p : Programs} {s t : Sys} {a : Action} {k : Key} {ns c : UInt64}
  {st st' : ReuseportStorage} {x y : Rollout} {pc : DaemonPc}

/-! ### Calls and packets on one group -/

/-- A call that succeeds has run the body of its option. -/
theorem setsockopt_ok {ctx : SockoptCtx} {env : OptEnv} {o : SockOpt}
    (h : (udpgrmSetsockopt p env s c ctx).1 = .ok) (ho : ctx.opt = some o) :
    ∃ sock ss b st created data, s.socks c = some sock ∧ sock.storage = some ss ∧
      Base env s sock.key ss b st created ∧ copyIn ctx.optval = some data ∧
      udpgrmSetsockopt p env s c ctx =
        setsockoptBody p env b c sock.key ss st created data o := by
  unfold udpgrmSetsockopt at h ⊢
  rw [ho] at h ⊢
  dsimp only at h ⊢
  split at h
  · cases h
  · rename_i hh
    split at h
    · cases h
    · rename_i data hd
      split at h
      · cases h
      · rename_i k ss hsock
        obtain ⟨sock, hs, hss⟩ := Option.bind_eq_some_iff.mp hsock
        obtain ⟨ss', hss, hks⟩ := Option.map_eq_some_iff.mp hss
        cases hks
        split at h
        · cases h
        · rename_i b st created hg
          split at h
          · cases h
          · rename_i hn
            refine ⟨sock, ss, b, st, created, data, hs, hss, getStateCreate_base hg, hd, ?_⟩
            rw [if_neg hh, if_neg hn]

/-- A successful call sets the working generation of the application of its socket. -/
theorem workingGen_ok {ctx : SockoptCtx} {env : OptEnv}
    (h : (udpgrmSetsockopt p env s c ctx).1 = .ok) (ho : ctx.opt = some .workingGen) :
    ∃ sock ss data, ∃ st : ReuseportStorage, s.socks c = some sock ∧ sock.storage = some ss ∧
      copyIn ctx.optval = some data ∧
      (udpgrmSetsockopt p env s c ctx).2.groups sock.key = some { st with
        workingGen := Function.update st.workingGen (Fin.ofNat MAX_APPS ss.sockApp.toNat)
          (u32 data 0) } := by
  obtain ⟨sock, ss, b, st, created, data, hs, hss, _, hd, heq⟩ := setsockopt_ok h ho
  refine ⟨sock, ss, data, st, hs, hss, hd, ?_⟩
  rw [heq] at h ⊢
  cases hr : env.ringRoom with
  | false => simp [setsockoptBody, hr] at h
  | true => simp [setsockoptBody, hr, Sys.push, Sys.setGroup]

/-- What a step does to one group, as far as new flows are concerned. -/
inductive GroupTouch (p : Programs) (s : Sys) (a : Action) (k : Key) (st : ReuseportStorage) :
    ReuseportStorage → Prop
  | packet {r now : UInt64} {md : Md} {kr : Sock} (ha : a = .packet r md now)
      (hr : s.socks r = some kr) (hk : kr.key = k) :
      GroupTouch p s a k st
        (udpgrmReuseportProg p ((s.tick now).selectReuseport r) s.lru now md st).2
  | announced {st' : ReuseportStorage} {c : UInt64} {g : UInt32}
      (hcall : groupCall k s a = some (c, .workingGen, g)) (hok : answer p s a = .ok)
      (hm : st'.metrics.rxNewFlowWorkingGenDispatchError =
        st.metrics.rxNewFlowWorkingGenDispatchError) : GroupTouch p s a k st st'
  | other {st' : ReuseportStorage} (hw : st'.workingGen = st.workingGen)
      (hm : st'.metrics.rxNewFlowWorkingGenDispatchError =
        st.metrics.rxNewFlowWorkingGenDispatchError) : GroupTouch p s a k st st'

theorem GroupTouch.of_eq (h : s.groups k = some st) (h' : s.groups k = some st') :
    GroupTouch p s a k st st' := by
  obtain rfl : st = st' := Option.some.inj (h.symm.trans h')
  exact .other rfl rfl

/-- A write to one group is either to this group or leaves it alone. -/
theorem GroupTouch.of_update {k' : Key} {st₀ st₁ : ReuseportStorage} (hk : s.groups k = some st)
    (hs : s.groups k' = some st₀)
    (hk' : Function.update s.groups k' (some st₁) k = some st')
    (h : k' = k → GroupTouch p s a k st₀ st₁) : GroupTouch p s a k st st' := by
  by_cases he : k = k'
  · subst he
    rw [Function.update_self, Option.some.injEq] at hk'
    rw [hk, Option.some.injEq] at hs
    exact hs ▸ hk' ▸ h rfl
  · rw [Function.update_of_ne he] at hk'
    exact .of_eq hk hk'

theorem flowAssure_dispatchError (env : FlowEnv) (st : ReuseportStorage) (ss : SocketStorage)
    (hash : UInt32) (lru : FlowTable) :
    (flowAssure env st ss hash lru).2.1.metrics.rxNewFlowWorkingGenDispatchError =
      st.metrics.rxNewFlowWorkingGenDispatchError := by
  unfold flowAssure
  simp only
  split <;> split
  all_goals try split
  all_goals rfl

theorem flowAssure_workingGen (env : FlowEnv) (st : ReuseportStorage) (ss : SocketStorage)
    (hash : UInt32) (lru : FlowTable) :
    (flowAssure env st ss hash lru).2.1.workingGen = st.workingGen := by
  obtain ⟨m, hm⟩ := flowAssure_sameConfig env st ss hash lru
  rw [hm]

/-- A call that has to create its group leaves the others alone. -/
theorem Base.groups_kept {env : OptEnv} {k' : Key} {ss : SocketStorage} {b : Sys}
    {st₀ : ReuseportStorage} {created : Bool} (hb : Base env s k' ss b st₀ created)
    (hk : s.groups k = some st) : b.groups k = some st := by
  cases hb with
  | existing => exact hk
  | created hnone =>
    have hne : k ≠ k' := by
      rintro rfl
      rw [hnone] at hk
      cases hk
    simpa [Sys.setGroup, hne] using hk

theorem setsockopt_touch {env : OptEnv} {ctx : SockoptCtx} {now : UInt64}
    (h : SetsockoptEffect p env (s.tick now) c ctx (answer p s (.setsockopt c ctx env)) t)
    (hk : s.groups k = some st) (hk' : t.groups k = some st') :
    GroupTouch p s (.setsockopt c ctx env) k st st' := by
  generalize hr : answer p s (.setsockopt c ctx env) = r at h
  cases h with
  | untouched => exact .of_eq hk hk'
  | @body sock ss b _ st₀ created data o _ hs hss hb hd ho hn he =>
    have hbase : b.groups k = some st := hb.groups_kept hk
    have hupdate : ∀ {st₁ : ReuseportStorage},
        Function.update b.groups sock.key (some st₁) k = some st' →
        (sock.key = k → GroupTouch p s (.setsockopt c ctx env) k st₀ st₁) →
        GroupTouch p s (.setsockopt c ctx env) k st st' := by
      intro st₁ hk' htouch
      by_cases hkey : k = sock.key
      · subst hkey
        rw [Function.update_self, Option.some.injEq] at hk'
        rw [hb.groups, Option.some.injEq] at hbase
        exact hbase ▸ hk' ▸ htouch rfl
      · rw [Function.update_of_ne hkey, hbase, Option.some.injEq] at hk'
        exact hk' ▸ .other rfl rfl
    cases he with
    | stay | socketGen | socketApp =>
      obtain rfl : st = st' := Option.some.inj (hbase.symm.trans hk')
      exact .other rfl rfl
    | workingGen =>
      exact hupdate hk' fun hkey => .announced (groupCall_eq hs hkey ho hd) hr rfl
    | verbose => exact hupdate hk' fun _ => .other rfl rfl
    | flow =>
      exact hupdate hk' fun _ => .other (flowAssure_workingGen ..) (flowAssure_dispatchError ..)
    | install => exact hupdate hk' fun _ => .other rfl rfl
    | undo =>
      by_cases hkey : k = sock.key
      · simp [Sys.eraseGroup, hkey] at hk'
      · obtain rfl : st = st' := by
          simpa [Sys.eraseGroup, hkey, hbase] using hk'
        exact .other rfl rfl

theorem group_touch (h : execute p s a = some t) (hk : s.groups k = some st)
    (hk' : t.groups k = some st') : GroupTouch p s a k st st' := by
  cases execute_effect h with
  | socket | ignored | crashed | close | cleanup => exact .of_eq hk hk'
  | bind => exact .of_eq hk (bpfBind_groups .. ▸ hk')
  | setsockopt => exact setsockopt_touch (udpgrmSetsockopt_effect ..) hk hk'
  | @sendmsg c dst env =>
    rcases udpSendmsg_cases p env (s.tick env.later) c dst with h | ⟨_, _, _, _, _, hst, _, h⟩ <;>
      rw [h] at hk'
    · exact .of_eq hk hk'
    · exact .of_update hk hst hk' fun _ =>
        .other (flowAssure_workingGen ..) (flowAssure_dispatchError ..)
  | @packet r now md =>
    rcases receive_cases p (s.tick now) r md now with h | ⟨kr, _, hr, hst, h⟩ <;> rw [h] at hk'
    · exact .of_eq hk hk'
    · exact .of_update hk hst hk' fun hkey => .packet rfl hr hkey
  | notFound _ _ _ _ hs => exact .of_update hk hs hk' fun _ => .other rfl rfl
  | announced _ _ _ _ hs =>
    refine .of_update hk hs hk' fun _ => ?_
    split <;> exact .other rfl rfl
  | accepted hacc =>
    rw [hacc.groups] at hk'
    exact .of_update hk hacc.group_eq hk' fun _ => .other rfl rfl
  | @delete k' =>
    have hne : k ≠ k' := by
      rintro rfl
      simp [Sys.eraseGroup] at hk'
    exact .of_eq hk (by simpa [Sys.eraseGroup, hne] using hk')

/-! ### The new-flow stage -/

/-- A new flow goes to socket `c`, and no dispatch error is counted. -/
structure Dispatched (st : ReuseportStorage) (c : UInt64) (out : Verdict × ReuseportStorage) :
    Prop where
  selected : ∀ v, out.1 = .newFlow v → v = some c
  no_error : out.2.metrics.rxNewFlowWorkingGenDispatchError =
    st.metrics.rxNewFlowWorkingGenDispatchError

theorem Dispatched.of_count {out : Verdict × ReuseportStorage} {f : Metrics → Metrics}
    (h : Dispatched (st.count f) c out)
    (hf : (f st.metrics).rxNewFlowWorkingGenDispatchError =
      st.metrics.rxNewFlowWorkingGenDispatchError) : Dispatched st c out :=
  ⟨h.selected, h.no_error.trans hf⟩

theorem Dispatched.refl {v : Verdict} (hv : ∀ d, v ≠ .newFlow d) : Dispatched st c (v, st) :=
  ⟨fun d hd => absurd hd (hv d), rfl⟩

section Dispatch

variable {select : UInt64 → Int} {mdHash : UInt32}

theorem thirdStage_dispatched (h : select (newFlowCookie st 0 mdHash) = 0) :
    Dispatched st (newFlowCookie st 0 mdHash) (thirdStage select 0 mdHash st) := by
  simp only [thirdStage, newFlowCookie_count, h, if_true]
  constructor
  · rintro v ⟨⟩
    rfl
  · rfl

theorem haveHash_dispatched {lru : FlowTable} {now : UInt64} {hash : UInt32}
    (h : select (newFlowCookie st 0 mdHash) = 0) :
    Dispatched st (newFlowCookie st 0 mdHash) (haveHash select lru now hash mdHash st) := by
  unfold haveHash
  simp only
  refine Dispatched.of_count (f := fun m => { m with
    rxDissectedOkTotal := m.rxDissectedOkTotal + 1 }) ?_ rfl
  split
  · exact .of_count (thirdStage_dispatched h) rfl
  · split
    · split
      · exact .of_count (.refl (by simp)) rfl
      · split <;> exact .of_count (thirdStage_dispatched h) rfl
    · exact .of_count (thirdStage_dispatched h) rfl

theorem haveCookie_dispatched {sockCookie : UInt64}
    (h : select (newFlowCookie st 0 mdHash) = 0) :
    Dispatched st (newFlowCookie st 0 mdHash) (haveCookie select sockCookie 0 mdHash st) := by
  unfold haveCookie
  simp only
  refine Dispatched.of_count (f := fun m => { m with
    rxDissectedOkTotal := m.rxDissectedOkTotal + 1 }) ?_ rfl
  split
  · exact .of_count (.refl (by simp)) rfl
  · split
    · exact .of_count (thirdStage_dispatched h) rfl
    · split <;> exact .of_count (thirdStage_dispatched h) rfl

theorem dissectorCbpf_app {md : Md} (hm : st.dis.maxApps.toNat ≤ 1) :
    (dissectorCbpf p md st).2.2 = 0 := by
  unfold dissectorCbpf
  generalize (if st.dis.bespokeDigest = 0 then p.interpretCbpf md st.dis
    else p.runBespokeByDigest md st.dis.bespokeDigest st.dis) = out
  obtain ⟨r, retval⟩ := out
  dsimp only
  split_ifs with _ hlt
  · rfl
  · have hlt' : (retval - 0x80000000).toNat < st.dis.maxApps.toNat := hlt
    have hzero : (retval - 0x80000000).toNat = 0 := by omega
    exact UInt32.toNat_inj.mp hzero
  · rfl
  · rfl

/-- With one application, a packet that names a socket names application zero. -/
theorem firstStage_app {md : Md} {d : UInt64} {app : UInt32} (hm : st.dis.maxApps.toNat ≤ 1)
    (h : firstStage p md st = .haveCookie d app) : app = 0 := by
  have happ : (dissectorCbpf p md st).2.2 = 0 := dissectorCbpf_app hm
  unfold firstStage at h
  split at h
  · split at h <;> cases h
  iterate 2
    split at h
    · cases h
    · rename_i heq
      cases h
      rwa [heq] at happ
    · rename_i heq
      cases h
      rwa [heq] at happ
    · cases h
  · cases h
  · cases h

theorem prog_dispatched {lru : FlowTable} {now : UInt64} {md : Md}
    (hm : st.dis.maxApps.toNat ≤ 1) (h : select (newFlowCookie st 0 md.hash) = 0) :
    Dispatched st (newFlowCookie st 0 md.hash)
      (udpgrmReuseportProg p select lru now md st) := by
  unfold udpgrmReuseportProg
  simp only
  refine Dispatched.of_count (f := fun m => { m with
    rxProcessedTotal := m.rxProcessedTotal + 1 }) ?_ rfl
  split
  · exact .of_count (.refl (by simp)) rfl
  · exact .of_count (.refl (by simp)) rfl
  · exact .of_count (.refl (by simp)) rfl
  · exact haveHash_dispatched h
  · rename_i hfirst
    obtain rfl := firstStage_app (by exact hm) hfirst
    exact haveCookie_dispatched h
  · exact .of_count (thirdStage_dispatched h) rfl

end Dispatch

/-! ### Restarts -/

/-- The group dispatches by the generation of the current instance. -/
def WorkingGen (k : Key) (x : Rollout) : Prop :=
  x.current.Nonempty → ∀ st, x.sys.groups k = some st → st.workingGen 0 = x.gen

theorem newFlowCookie_zero (hm : st.dis.maxApps.toNat ≤ 1) (mdHash : UInt32) :
    newFlowCookie st 0 mdHash = st.cookies (genRow (st.workingGen 0))
      (idxSlot (mdHash % st.maxIdx (genRow (st.workingGen 0)))) := by
  have happ : Fin.ofNat MAX_APPS (0 : UInt32).toNat = 0 := rfl
  simp only [newFlowCookie, happ, genRow_toWrkGen_single hm]

/-- In any state of a rollout, a new flow has a live socket of the current instance. -/
theorem RolloutInv.dispatch {r : UInt64} {kr : Sock} (hx : RolloutInv k ns x pc)
    (hw : WorkingGen k x) (hne : x.current.Nonempty) (hk : x.sys.groups k = some st)
    (hr : x.sys.socks r = some kr) (hkey : kr.key = k) (now : UInt64) (mdHash : UInt32) :
    newFlowCookie st 0 mdHash ∈ x.current ∧ x.sys.isOpen (newFlowCookie st 0 mdHash) = true ∧
      (x.sys.tick now).selectReuseport r (newFlowCookie st 0 mdHash) = 0 := by
  obtain ⟨st', n, hk', hn, hP⟩ := hx.serving hne
  rw [hk, Option.some.injEq] at hk'
  subst hk'
  rw [newFlowCookie_zero (hx.app.maxApps st hk), hw hne st hk]
  obtain ⟨hc, hl⟩ := hP.dispatch hn mdHash
  obtain ⟨sock, hs, hsk⟩ := hx.members _ (.inl hc)
  refine ⟨hc, hx.opened _ (.inl hc), ?_⟩
  refine selectReuseport_eq_zero hr hs hl (hkey.trans hsk.symm) ?_
  rw [hx.app.netns _ kr hr hkey, hx.app.netns _ sock hs hsk]

theorem Rollout.note_over {g : UInt32} (hcall : groupCall k x.sys a = some (c, .workingGen, g))
    (hans : answer p x.sys a = .ok) : (x.note p k a).gen = x.gen + 1 := by
  simp [Rollout.note, hcall, hans]

theorem Rollout.note_same
    (h : ¬ ∃ c g, groupCall k x.sys a = some (c, .workingGen, g) ∧ answer p x.sys a = .ok) :
    (x.note p k a).gen = x.gen ∧ (x.note p k a).current = x.current := by
  unfold Rollout.note
  split
  · exact ⟨rfl, rfl⟩
  · rename_i c g hcall
    rw [if_neg fun hans => h ⟨c, g, hcall, hans⟩]
    exact ⟨rfl, rfl⟩
  · exact ⟨rfl, rfl⟩

/-- A takeover sets the working generation to the one its sockets have registered for. -/
theorem takeOver_workingGen {g : UInt32} (hx : RolloutInv k ns x pc)
    (hcall : groupCall k x.sys a = some (c, .workingGen, g)) (hans : answer p x.sys a = .ok)
    (h : execute p x.sys a = some t) (hk' : t.groups k = some st') : st'.workingGen 0 = g := by
  obtain ⟨ctx, env, sock, data, rfl, hs, hkey, ho, hd, rfl⟩ := groupCall_some hcall
  obtain ⟨sock', ss, data', st, hs', hss, hd', hgroup⟩ := workingGen_ok hans ho
  obtain rfl : sock = sock' := Option.some.inj (hs.symm.trans hs')
  obtain rfl : data = data' := Option.some.inj (hd.symm.trans hd')
  have happ : ss.sockApp = 0 := by
    have happ := hx.app.app c sock hs hkey
    rwa [Sock.app, hss] at happ
  cases execute_effect h with
  | setsockopt =>
    rw [hkey, hk', Option.some.injEq] at hgroup
    have hzero : Fin.ofNat MAX_APPS (0 : UInt32).toNat = 0 := rfl
    simp only [hgroup, happ, hzero, Function.update_self]

theorem workingGen_step (hx : RolloutInv k ns x pc) (hw : WorkingGen k x)
    (hf : followsProtocol k ns x a = true) (h : execute p x.sys a = some t) :
    WorkingGen k { x.note p k a with sys := t } := by
  intro hne st' hk'
  show st'.workingGen 0 = (x.note p k a).gen
  by_cases hover : ∃ c g, groupCall k x.sys a = some (c, .workingGen, g) ∧ answer p x.sys a = .ok
  · obtain ⟨c, g, hcall, hans⟩ := hover
    have hg : g = x.gen + 1 := by
      rw [followsProtocol, Bool.and_eq_true, Bool.and_eq_true] at hf
      exact (callsInOrder_workingGen hcall hf.1.2).1
    rw [Rollout.note_over hcall hans, takeOver_workingGen hx hcall hans h hk', hg]
  · obtain ⟨hgen, hcur⟩ := Rollout.note_same hover
    have hne' : x.current.Nonempty := hcur ▸ hne
    obtain ⟨st, _, hk, _, _⟩ := hx.serving hne'
    rw [hgen, ← hw hne' st hk]
    cases group_touch h hk hk' with
    | packet =>
      obtain ⟨m, hm⟩ := udpgrmReuseportProg_sameConfig p _ _ _ _ st
      rw [hm]
    | announced hcall hok => exact absurd ⟨_, _, hcall, hok⟩ hover
    | other hw => rw [hw]

theorem rollout_step (hx : RolloutInv k ns x .idle ∧ WorkingGen k x)
    (hf : followsProtocol k ns x a = true) (h : Rollout.step p k x a = some y) :
    RolloutInv k ns y .idle ∧ WorkingGen k y := by
  obtain ⟨t, ht, rfl⟩ := Option.map_eq_some_iff.mp h
  exact ⟨hx.1.step hf ht, workingGen_step hx.1 hx.2 hf ht⟩

theorem rollout_reachable {g : UInt32} {as : List Action}
    (h : Transition.Run (restartProtocol p k ns) (.initial g) as x) :
    RolloutInv k ns x .idle ∧ WorkingGen k x := by
  refine Transition.Run.inv_restrict (P := fun x => RolloutInv k ns x .idle ∧ WorkingGen k x) h
    (fun htr hf hx => rollout_step hx hf htr) ⟨.initial k ns g, ?_⟩
  intro hne
  simp [Rollout.initial] at hne

theorem receive_verdict {r now : UInt64} {kr : Sock} {md : Md} (hr : s.socks r = some kr)
    (hk : s.groups kr.key = some st) : (receive p s r md now).1 =
      (udpgrmReuseportProg p (s.selectReuseport r) s.lru now md st).1 := by
  simp [receive, hr, hk]

theorem Rollout.note_nonempty (hf : followsProtocol k ns x a = true)
    (hne : x.current.Nonempty) : (x.note p k a).current.Nonempty := by
  by_cases hover : ∃ c g, groupCall k x.sys a = some (c, .workingGen, g) ∧ answer p x.sys a = .ok
  · obtain ⟨c, g, hcall, hans⟩ := hover
    rw [followsProtocol, Bool.and_eq_true, Bool.and_eq_true] at hf
    have hc := (callsInOrder_workingGen hcall hf.1.2).2.1
    refine ⟨c, ?_⟩
    simpa [Rollout.note, hcall, hans] using hc
  · rw [(Rollout.note_same hover).2]
    exact hne

/-- No step of a rollout counts a dispatch error once an instance is in place. -/
theorem dispatchError_step (hx : RolloutInv k ns x pc ∧ WorkingGen k x) (hne : x.current.Nonempty)
    (hf : followsProtocol k ns x a = true) (h : execute p x.sys a = some t)
    (hk : x.sys.groups k = some st) :
    ∃ st', t.groups k = some st' ∧ st'.metrics.rxNewFlowWorkingGenDispatchError =
      st.metrics.rxNewFlowWorkingGenDispatchError := by
  have hd : a ≠ .delete k := by
    have hok := (hx.1.noted hf h).2
    exact hok.ne_delete
  obtain ⟨st', hk'⟩ := Option.isSome_iff_exists.mp (group_survives h hd (by simp [hk]))
  refine ⟨st', hk', ?_⟩
  cases group_touch h hk hk' with
  | packet _ hr hkey =>
    obtain ⟨_, _, hsel⟩ := hx.1.dispatch hx.2 hne hk hr hkey _ _
    exact (prog_dispatched (hx.1.app.maxApps st hk) hsel).no_error
  | announced _ _ hm => exact hm
  | other _ hm => exact hm

theorem RolloutInv.flows {r now : UInt64} {kr : Sock} {md : Md} {v : Option UInt64}
    (hx : RolloutInv k ns x pc) (hw : WorkingGen k x) (hne : x.current.Nonempty)
    (hk : x.sys.groups k = some st) (hr : x.sys.socks r = some kr) (hkey : kr.key = k)
    (hv : (receive p (x.sys.tick now) r md now).1 = .newFlow v) :
    ∃ c ∈ x.current, v = some c ∧ x.sys.isOpen c = true := by
  obtain ⟨hc, ho, hsel⟩ := hx.dispatch hw hne hk hr hkey now md.hash
  have hkr : (x.sys.tick now).groups kr.key = some st := hkey ▸ hk
  rw [receive_verdict (s := x.sys.tick now) hr hkr] at hv
  exact ⟨_, hc, (prog_dispatched (hx.app.maxApps st hk) hsel).selected v hv, ho⟩

/-- Every new flow, whatever its hash, is dispatched to an open socket of the instance whose
generation is the working one, and from here on no run counts a dispatch error. -/
def ServesNewFlows (p : Programs) (k : Key) (ns : UInt64) (x : Rollout) : Prop :=
  ∃ st, x.sys.groups k = some st ∧ st.workingGen 0 = x.gen ∧
    (∀ r kr md now v, x.sys.socks r = some kr → kr.key = k →
      (receive p (x.sys.tick now) r md now).1 = .newFlow v →
      ∃ c ∈ x.current, v = some c ∧ x.sys.isOpen c = true) ∧
    ∀ bs y, Transition.Run (restartProtocol p k ns) x bs y →
      ∃ st', y.sys.groups k = some st' ∧ st'.metrics.rxNewFlowWorkingGenDispatchError =
        st.metrics.rxNewFlowWorkingGenDispatchError

/-- Graceful restart loses no packet, from the first working generation on and through any
number of restarts. -/
theorem restart_loses_no_packet {g : UInt32} {as : List Action}
    (h : Transition.Run (restartProtocol p k ns) (.initial g) as x) (hne : x.current.Nonempty) :
    ServesNewFlows p k ns x := by
  obtain ⟨hx, hw⟩ := rollout_reachable h
  obtain ⟨st, _, hk, _, _⟩ := hx.serving hne
  refine ⟨st, hk, hw hne st hk, ?_, ?_⟩
  · intro r kr md now v hr hkey hv
    exact hx.flows hw hne hk hr hkey hv
  · intro bs y hrun
    have hend := hrun.inv_restrict (P := fun y => (RolloutInv k ns y .idle ∧ WorkingGen k y) ∧
      y.current.Nonempty ∧ ∃ st', y.sys.groups k = some st' ∧
        st'.metrics.rxNewFlowWorkingGenDispatchError =
          st.metrics.rxNewFlowWorkingGenDispatchError) ?_ ⟨⟨hx, hw⟩, hne, st, hk, rfl⟩
    · exact hend.2.2
    · intro x a y htr hf ⟨hx, hne, st₁, hk₁, hm₁⟩
      have hstep := rollout_step hx hf htr
      obtain ⟨t, ht, rfl⟩ := Option.map_eq_some_iff.mp htr
      obtain ⟨st₂, hk₂, hm₂⟩ := dispatchError_step hx hne hf ht hk₁
      exact ⟨hstep, Rollout.note_nonempty hf hne, st₂, hk₂, hm₂.trans hm₁⟩

/-- An instance of one socket for generation 1, replaced by another for generation 2. -/
def oneRestart : List Action :=
  registerRun ++ .call 1 200 [1, 0, 0, 0] :: Action.openBound 2 ++
    [.call 2 201 [2, 0, 0, 0], .daemon 0, .daemon 11, .call 2 200 [2, 0, 0, 0], .close 1]

theorem restart_loses_no_packet_once : ∃ x,
    Transition.Run (restartProtocol .const (skeyFromBpfSock .loopback) 5) (.initial 0)
      oneRestart x ∧ x.gen = 2 ∧ x.current = {2} ∧ x.sys.isOpen 1 = false ∧
    ServesNewFlows .const (skeyFromBpfSock .loopback) 5 x := by
  obtain ⟨x, hx, ht⟩ := Transition.run_restrict_of_any
    (Rollout.step .const (skeyFromBpfSock .loopback))
    (followsProtocol (skeyFromBpfSock .loopback) 5) (.initial 0) oneRestart
    (fun x : Rollout => decide (x.gen = 2 ∧ x.current = {2} ∧ x.sys.isOpen 1 = false))
    (by decide +kernel)
  obtain ⟨hg, hc, ho⟩ := of_decide_eq_true ht
  exact ⟨x, hx, hg, hc, ho, restart_loses_no_packet hx (hc ▸ Finset.singleton_nonempty 2)⟩

/-! ### One system call at a time -/

section Stepped

variable {x y : SteppedRollout} {b : MicroAction}

/-- The daemon's steps on a registration touch the table only. -/
theorem handling_kept {u v : MicroSys} (h : microExecute p u b = some v)
    (hb : ∀ a, b ≠ .sys a) (hk : u.sys.groups k = some st) :
    ∃ st', v.sys.groups k = some st' ∧ st'.workingGen = st.workingGen ∧
      st'.metrics = st.metrics := by
  cases microExecute_effect h with
  | sys => exact absurd rfl (hb _)
  | lost | fished => exact ⟨st, hk, rfl, rfl⟩
  | daemon he =>
    rcases he.group hk with hk' | ⟨_, _, _, _, _, _, hk'⟩ <;> exact ⟨_, hk', rfl, rfl⟩

theorem stepped_step (hx : RolloutInv k ns x.rollout x.daemon ∧ WorkingGen k x.rollout)
    (hf : x.followsProtocol k ns b = true) (h : x.step p k b = some y) :
    RolloutInv k ns y.rollout y.daemon ∧ WorkingGen k y.rollout := by
  refine ⟨hx.1.stepped hf h, ?_⟩
  obtain ⟨t, ht, rfl⟩ := Option.map_eq_some_iff.mp h
  cases b with
  | sys a =>
    cases microExecute_effect ht with
    | sys _ he => exact workingGen_step hx.1 hx.2 hf he
  | fish | daemon =>
    intro hne st' hk'
    obtain ⟨st, _, hk, _, _⟩ := hx.1.serving hne
    obtain ⟨st₁, hk₁, hgen, _⟩ := handling_kept ht (by simp) hk
    obtain rfl := Option.some.inj (hk₁.symm.trans hk')
    exact hgen ▸ hx.2 hne st hk

theorem stepped_reachable {g : UInt32} {bs : List MicroAction}
    (h : Transition.Run (steppedProtocol p k ns) (.initial g) bs x) :
    RolloutInv k ns x.rollout x.daemon ∧ WorkingGen k x.rollout := by
  refine h.inv_restrict (P := fun x => RolloutInv k ns x.rollout x.daemon ∧
    WorkingGen k x.rollout) (fun htr hf hx => stepped_step hx hf htr) ⟨.initial k ns g, ?_⟩
  intro hne
  simp [SteppedRollout.initial, Rollout.initial] at hne

theorem stepped_nonempty (hne : x.rollout.current.Nonempty)
    (hf : x.followsProtocol k ns b = true) (h : x.step p k b = some y) :
    y.rollout.current.Nonempty := by
  obtain ⟨t, _, rfl⟩ := Option.map_eq_some_iff.mp h
  cases b with
  | sys a => exact Rollout.note_nonempty hf hne
  | fish | daemon => exact hne

theorem stepped_dispatchError
    (hx : RolloutInv k ns x.rollout x.daemon ∧ WorkingGen k x.rollout)
    (hne : x.rollout.current.Nonempty) (hf : x.followsProtocol k ns b = true)
    (h : x.step p k b = some y) (hk : x.rollout.sys.groups k = some st) :
    ∃ st', y.rollout.sys.groups k = some st' ∧
      st'.metrics.rxNewFlowWorkingGenDispatchError =
        st.metrics.rxNewFlowWorkingGenDispatchError := by
  obtain ⟨t, ht, rfl⟩ := Option.map_eq_some_iff.mp h
  cases b with
  | sys a =>
    cases microExecute_effect ht with
    | sys _ he => exact dispatchError_step hx hne hf he hk
  | fish | daemon =>
    obtain ⟨st', hk', _, hm⟩ := handling_kept ht (by simp) hk
    exact ⟨st', hk', by rw [hm]⟩

/-- The same with registrations taken one system call at a time: between the write of a slot and
that of the index, and at every other point, new flows have an open socket of the instance whose
generation is the working one, and no dispatch error is counted. -/
theorem restart_loses_no_packet_stepwise {g : UInt32} {bs : List MicroAction}
    (h : Transition.Run (steppedProtocol p k ns) (.initial g) bs x)
    (hne : x.rollout.current.Nonempty) :
    ∃ st, x.rollout.sys.groups k = some st ∧ st.workingGen 0 = x.rollout.gen ∧
      (∀ r kr md now v, x.rollout.sys.socks r = some kr → kr.key = k →
        (receive p (x.rollout.sys.tick now) r md now).1 = .newFlow v →
        ∃ c ∈ x.rollout.current, v = some c ∧ x.rollout.sys.isOpen c = true) ∧
      ∀ bs y, Transition.Run (steppedProtocol p k ns) x bs y →
        ∃ st', y.rollout.sys.groups k = some st' ∧
          st'.metrics.rxNewFlowWorkingGenDispatchError =
            st.metrics.rxNewFlowWorkingGenDispatchError := by
  have hx := stepped_reachable h
  obtain ⟨st, _, hk, _, _⟩ := hx.1.serving hne
  refine ⟨st, hk, hx.2 hne st hk, ?_, fun bs y hrun => ?_⟩
  · intro r kr md now v hr hkey hv
    exact hx.1.flows hx.2 hne hk hr hkey hv
  · have hend := hrun.inv_restrict (P := fun y => (RolloutInv k ns y.rollout y.daemon ∧
      WorkingGen k y.rollout) ∧ y.rollout.current.Nonempty ∧
        ∃ st', y.rollout.sys.groups k = some st' ∧
          st'.metrics.rxNewFlowWorkingGenDispatchError =
            st.metrics.rxNewFlowWorkingGenDispatchError) ?_ ⟨hx, hne, st, hk, rfl⟩
    · exact hend.2.2
    · rintro x b y htr hf ⟨hx, hne, st₁, hk₁, hm₁⟩
      obtain ⟨st₂, hk₂, hm₂⟩ := stepped_dispatchError hx hne hf htr hk₁
      exact ⟨stepped_step hx hf htr, stepped_nonempty hne hf htr, st₂, hk₂, hm₂.trans hm₁⟩

end Stepped

end Udpgrm
