import Udpgrm.Step

/-! How one step changes one reuseport group, and where a new group comes from. -/
namespace Udpgrm

variable {p : Programs} {s t : Sys} {a : Action} {k : Key} {st st' : ReuseportStorage}

/-- What can happen to a group while its cookie table stays as it is. -/
inductive QuietStep (p : Programs) (st : ReuseportStorage) : ReuseportStorage → Prop
  | refl : QuietStep p st st
  | workingGen (app : Fin MAX_APPS) (g : UInt32) :
      QuietStep p st { st with workingGen := Function.update st.workingGen app g }
  | verbose (v : Bool) : QuietStep p st { st with verbose := v }
  | flow (env : FlowEnv) (ss : SocketStorage) (hash : UInt32) (lru : FlowTable) :
      QuietStep p st (flowAssure env st ss hash lru).2.1
  | packet (select : UInt64 → Int) (lru : FlowTable) (now : UInt64) (md : Md) :
      QuietStep p st (udpgrmReuseportProg p select lru now md st).2
  | critical (counter gauge : ℕ) : QuietStep p st (st.metricIncrCritical counter gauge)

/-- Everything that can happen to a group that exists. -/
inductive GroupStep (p : Programs) (st : ReuseportStorage) : ReuseportStorage → Prop
  | quiet {st' : ReuseportStorage} (h : QuietStep p st st') : GroupStep p st st'
  | cookie (g i n : UInt32) (c : UInt64) : GroupStep p st (st.setCookie g i n c)

/-- Two states of a group with the same dissector, identity and cookie table. -/
structure ReuseportStorage.SameTable (st st' : ReuseportStorage) : Prop where
  dis : st'.dis = st.dis
  netnsCookie : st'.netnsCookie = st.netnsCookie
  randomId : st'.randomId = st.randomId
  maxIdx : st'.maxIdx = st.maxIdx
  cookies : st'.cookies = st.cookies

theorem ReuseportStorage.SameConfig.sameTable (h : st.SameConfig st') : st.SameTable st' := by
  obtain ⟨m, rfl⟩ := h
  exact ⟨rfl, rfl, rfl, rfl, rfl⟩

theorem QuietStep.sameTable (h : QuietStep p st st') : st.SameTable st' := by
  cases h with
  | refl | workingGen | verbose | critical => exact ⟨rfl, rfl, rfl, rfl, rfl⟩
  | flow => exact (flowAssure_sameConfig ..).sameTable
  | packet => exact (udpgrmReuseportProg_sameConfig ..).sameTable

/-- The dissector of a group is fixed when the group is created. -/
theorem GroupStep.dis_eq (h : GroupStep p st st') : st'.dis = st.dis := by
  cases h with
  | quiet h => exact h.sameTable.dis
  | cookie => rfl

theorem GroupStep.randomId_eq (h : GroupStep p st st') : st'.randomId = st.randomId := by
  cases h with
  | quiet h => exact h.sameTable.randomId
  | cookie => rfl

/-- A new group: the state in which a call on a missing group creates it, then changed by
the call itself or replaced by an admitted dissector. -/
inductive GroupBirth (p : Programs) (ctx : SockoptCtx) (st : ReuseportStorage) : Prop
  | implicit (env : OptEnv) (ss : SocketStorage) (h : QuietStep p (freshGroup env ss) st)
  | install (env : OptEnv) (ss : SocketStorage) (data : List UInt8)
      (hd : copyIn ctx.optval = some data) (ho : ctx.opt = some .dissector)
      (hf : dissectorFail (.ofBytes data) = false)
      (h : st = { freshGroup env ss with
        dis := (Dissector.ofBytes data).stored, verbose := verboseFlag (.ofBytes data) })

/-- A new group has no sockets. -/
theorem GroupBirth.cookies_eq {ctx : SockoptCtx} (h : GroupBirth p ctx st) (r : Row) (j : Slot) :
    st.cookies r j = 0 := by
  cases h with
  | implicit env ss h =>
    rw [h.sameTable.cookies]
    rfl
  | install env ss data _ _ _ h =>
    subst h
    rfl

theorem GroupBirth.maxIdx_eq {ctx : SockoptCtx} (h : GroupBirth p ctx st) (r : Row) :
    st.maxIdx r = 0 := by
  cases h with
  | implicit env ss h =>
    rw [h.sameTable.maxIdx]
    rfl
  | install env ss data _ _ _ h =>
    subst h
    rfl

/-- A group after a step was there before it and changed by `R`, or a setsockopt call
created it. -/
inductive GroupChange (p : Programs) (R : ReuseportStorage → ReuseportStorage → Prop) (s : Sys)
    (a : Action) (k : Key) (st' : ReuseportStorage) : Prop
  | kept (st : ReuseportStorage) (hk : s.groups k = some st) (h : R st st')
  | born (c : UInt64) (ctx : SockoptCtx) (env : OptEnv) (ha : a = .setsockopt c ctx env)
      (hc : (s.socks c).map Sock.key = some k) (hk : s.groups k = none)
      (h : GroupBirth p ctx st')

/-- A change that leaves the cookie table of every group as it is. -/
abbrev QuietChange (p : Programs) (s : Sys) (a : Action) (k : Key) (st' : ReuseportStorage) :
    Prop := GroupChange p (QuietStep p) s a k st'

theorem GroupChange.mono {R R' : ReuseportStorage → ReuseportStorage → Prop}
    (h : GroupChange p R s a k st') (hR : ∀ st, R st st' → R' st st') :
    GroupChange p R' s a k st' := by
  obtain ⟨st, hst, hs⟩ | ⟨c, ctx, env, ha, hc, hst, hb⟩ := h
  · exact .kept st hst (hR st hs)
  · exact .born c ctx env ha hc hst hb

theorem QuietChange.of_eq (h : t.groups = s.groups) (hk : t.groups k = some st') :
    QuietChange p s a k st' := .kept st' (h ▸ hk) .refl

/-- Only the group at one key was written. -/
theorem GroupChange.of_update {R : ReuseportStorage → ReuseportStorage → Prop} {k' : Key}
    {st₁ : ReuseportStorage} (hR : ∀ st, R st st)
    (ht : t.groups = Function.update s.groups k' (some st₁)) (hs : s.groups k' = some st)
    (hst : R st st₁) (hk : t.groups k = some st') : GroupChange p R s a k st' := by
  rw [ht] at hk
  by_cases he : k = k'
  · subst he
    rw [Function.update_self, Option.some.injEq] at hk
    exact .kept st hs (hk ▸ hst)
  · rw [Function.update_of_ne he] at hk
    exact .kept st' hk (hR st')

theorem QuietChange.of_update {k' : Key} {st₁ : ReuseportStorage}
    (ht : t.groups = Function.update s.groups k' (some st₁)) (hs : s.groups k' = some st)
    (hst : QuietStep p st st₁) (hk : t.groups k = some st') : QuietChange p s a k st' :=
  GroupChange.of_update (fun _ => .refl) ht hs hst hk

theorem QuietChange.of_tick {now : UInt64} (h : QuietChange p (s.tick now) a k st') :
    QuietChange p s a k st' := by
  obtain ⟨st, hst, hs⟩ | ⟨c, ctx, env, ha, hc, hst, hb⟩ := h
  · exact .kept st hst hs
  · exact .born c ctx env ha hc hst hb

theorem Base.groups {env : OptEnv} {k : Key} {ss : SocketStorage} {b : Sys} {created : Bool}
    (hb : Base env s k ss b st created) : b.groups k = some st := by
  cases hb with
  | existing h => exact h
  | created _ _ => simp [Sys.setGroup]

/-- A call that wrote the group it found or created. -/
theorem QuietChange.of_base {env : OptEnv} {k' : Key} {ss : SocketStorage} {b : Sys}
    {created : Bool} {c : UInt64} {ctx : SockoptCtx} {st₁ : ReuseportStorage}
    (hc : (s.socks c).map Sock.key = some k') (hb : Base env s k' ss b st created)
    (ht : t.groups = Function.update b.groups k' (some st₁))
    (hst : QuietStep p st st₁) (hk : t.groups k = some st') :
    QuietChange p s (.setsockopt c ctx env) k st' := by
  cases hb with
  | existing h => exact QuietChange.of_update ht h hst hk
  | created h _ =>
    rw [ht, Sys.setGroup, Function.update_idem] at hk
    by_cases he : k = k'
    · subst he
      rw [Function.update_self, Option.some.injEq] at hk
      exact .born c ctx env rfl hc h (.implicit env ss (hk ▸ hst))
    · rw [Function.update_of_ne he] at hk
      exact .kept st' hk .refl

theorem setsockopt_quiet {env : OptEnv} {c : UInt64} {ctx : SockoptCtx} {r : OptRet}
    (h : SetsockoptEffect p env s c ctx r t) (hk : t.groups k = some st') :
    QuietChange p s (.setsockopt c ctx env) k st' := by
  cases h with
  | untouched => exact QuietChange.of_eq rfl hk
  | @body sock ss b t st created data o r hs hss hb hd ho hn he =>
    have hc' : (s.socks c).map Sock.key = some sock.key := by simp [hs]
    have hself : b.groups = Function.update b.groups sock.key (some st) := by
      rw [← hb.groups, Function.update_eq_self]
    cases he with
    | stay => exact QuietChange.of_base hc' hb hself .refl hk
    | workingGen _ => exact QuietChange.of_base hc' hb rfl (.workingGen _ _) hk
    | socketGen _ _ => exact QuietChange.of_base hc' hb hself .refl hk
    | verbose _ _ => exact QuietChange.of_base hc' hb rfl (.verbose _) hk
    | flow _ _ _ => exact QuietChange.of_base hc' hb rfl (.flow _ _ _ _) hk
    | socketApp _ _ _ => exact QuietChange.of_base hc' hb hself .refl hk
    | undo hc _ =>
      cases hb with
      | existing _ => cases hc
      | created h _ =>
        have he : k ≠ sock.key := by
          rintro rfl
          simp [Sys.eraseGroup] at hk
        exact .kept st' (by simpa [Sys.eraseGroup, Sys.setGroup, he] using hk) .refl
    | install hc hf _ =>
      cases hb with
      | existing _ => cases hc
      | created h _ =>
        by_cases he : k = sock.key
        · subst he
          refine .born c ctx env rfl hc' h (.install env ss data hd ho hf ?_)
          simpa [Sys.push, Sys.setGroup] using hk.symm
        · exact .kept st' (by simpa [Sys.push, Sys.setGroup, he] using hk) .refl

theorem bpfBind_groups (s : Sys) (c : UInt64) (ctx : BindCtx) :
    (bpfBind s c ctx).groups = s.groups := by
  rcases bpfBind_cases s c ctx with h | ⟨_, _, h⟩ <;> rw [h]
  rfl

theorem udpSendmsg_quiet {env : FlowEnv} {c : UInt64} {dst : SockAddr}
    (hk : (udpSendmsg p env s c dst).groups k = some st') : QuietChange p s a k st' := by
  rcases udpSendmsg_cases p env s c dst with h | ⟨_, _, st, _, _, hst, _, h⟩ <;> rw [h] at hk
  · exact QuietChange.of_eq rfl hk
  · exact QuietChange.of_update rfl hst (.flow _ _ _ _) hk

theorem receive_quiet {r : UInt64} {md : Md} {now : UInt64}
    (hk : (receive p s r md now).2.groups k = some st') : QuietChange p s a k st' := by
  rcases receive_cases p s r md now with h | ⟨_, st, _, hst, h⟩ <;> rw [h] at hk
  · exact QuietChange.of_eq rfl hk
  · exact QuietChange.of_update rfl hst (.packet _ _ _ _) hk

theorem acceptSocket_groups (env : DaemonEnv) (s : Sys) (k : Key) (st : ReuseportStorage)
    (ss : SocketStorage) (cookie : UInt64) (gen : UInt32) (pos len f : ℕ) :
    (acceptSocket env s k st ss cookie gen pos len f).groups =
      Function.update s.groups k
        (some (st.setCookie gen (UInt32.ofNat pos) (UInt32.ofNat len) cookie)) := by
  unfold acceptSocket
  simp only [Sys.setStorage, Sys.setGroup]
  split <;> rfl

theorem Accepted.groups {env : DaemonEnv} (h : Accepted s env t) :
    t.groups = Function.update s.groups h.k (some (h.st.setCookie h.wg (UInt32.ofNat h.pos)
      (UInt32.ofNat h.len) h.cookie)) :=
  (congrArg Sys.groups h.after_eq).trans (acceptSocket_groups ..)

/-- Cookie tables change where the daemon accepts a registration and nowhere else. -/
theorem quiet_or_accepted (h : execute p s a = some t) :
    (∀ k st', t.groups k = some st' → QuietChange p s a k st') ∨
      ∃ env, a = .handle env ∧ Nonempty (Accepted s env t) := by
  cases execute_effect h with
  | socket _ _ => exact .inl fun k st' hk => QuietChange.of_eq rfl hk
  | bind _ => exact .inl fun k st' hk => QuietChange.of_eq (bpfBind_groups ..) hk
  | setsockopt _ _ _ =>
    refine .inl fun k st' hk => ?_
    exact QuietChange.of_tick (setsockopt_quiet (udpgrmSetsockopt_effect ..) hk)
  | sendmsg _ _ _ => exact .inl fun k st' hk => QuietChange.of_tick (udpSendmsg_quiet hk)
  | packet _ _ => exact .inl fun k st' hk => QuietChange.of_tick (receive_quiet hk)
  | crashed _ _ _ _ _ => exact .inl fun k st' hk => QuietChange.of_eq rfl hk
  | close _ => exact .inl fun k st' hk => QuietChange.of_eq rfl hk
  | cleanup _ _ => exact .inl fun k st' hk => QuietChange.of_eq rfl hk
  | @delete k' =>
    refine .inl fun k st' hk => ?_
    have he : k ≠ k' := by
      rintro rfl
      simp [Sys.eraseGroup] at hk
    exact .kept st' (by simpa [Sys.eraseGroup, he] using hk) .refl
  | ignored _ _ _ _ => exact .inl fun k st' hk => QuietChange.of_eq rfl hk
  | notFound _ _ _ _ hs _ =>
    exact .inl fun k st' hk => QuietChange.of_update rfl hs (.critical _ _) hk
  | announced _ _ _ _ hs =>
    refine .inl fun k st' hk => QuietChange.of_update rfl hs ?_ hk
    split
    · exact .critical 1 1
    · exact .critical 0 0
  | @accepted env _ hacc => exact .inr ⟨env, rfl, ⟨hacc⟩⟩

/-- The one lemma about groups that invariants of single groups need. -/
theorem group_change (h : execute p s a = some t) (hk : t.groups k = some st') :
    GroupChange p (GroupStep p) s a k st' := by
  rcases quiet_or_accepted h with hq | ⟨env, rfl, ⟨hacc⟩⟩
  · exact (hq k st' hk).mono fun _ => .quiet
  · exact GroupChange.of_update (fun _ => .quiet .refl) hacc.groups hacc.group_eq
      (.cookie _ _ _ _) hk

/-! ### Groups stay -/

theorem isSome_update {k' : Key} {f : Key → Option ReuseportStorage} (hk : (f k).isSome) :
    (Function.update f k' (some st) k).isSome := by
  by_cases he : k = k'
  · simp [he]
  · simpa [he] using hk

theorem setsockopt_group_survives {env : OptEnv} {c : UInt64} {ctx : SockoptCtx} {r : OptRet}
    (h : SetsockoptEffect p env s c ctx r t) (hk : (s.groups k).isSome) :
    (t.groups k).isSome := by
  cases h with
  | untouched => exact hk
  | @body sock ss b _ st created data o _ hs hss hb hd ho hn he =>
    have hb' : (b.groups k).isSome := by
      cases hb with
      | existing => exact hk
      | created => exact isSome_update hk
    cases he with
    | stay | socketGen | socketApp => exact hb'
    | workingGen | verbose | install | flow => exact isSome_update hb'
    | undo hc =>
      cases hb with
      | existing => cases hc
      | created hnone =>
        have hne : k ≠ sock.key := by
          rintro rfl
          simp [hnone] at hk
        simpa [Sys.eraseGroup, Sys.setGroup, hne] using hk

/-- Only the delete command removes a group that is there. -/
theorem group_survives (h : execute p s a = some t) (hd : a ≠ .delete k)
    (hk : (s.groups k).isSome) : (t.groups k).isSome := by
  cases execute_effect h with
  | socket | ignored | crashed | close | cleanup => exact hk
  | bind => rwa [bpfBind_groups]
  | setsockopt => exact setsockopt_group_survives (udpgrmSetsockopt_effect ..) hk
  | @sendmsg c dst env =>
    rcases udpSendmsg_cases p env (s.tick env.later) c dst with h | ⟨_, _, _, _, _, _, _, h⟩ <;>
      rw [h]
    · exact hk
    · exact isSome_update hk
  | @packet r now md =>
    rcases receive_cases p (s.tick now) r md now with h | ⟨_, _, _, _, h⟩ <;> rw [h]
    · exact hk
    · exact isSome_update hk
  | notFound | announced => exact isSome_update hk
  | accepted hacc =>
    rw [hacc.groups]
    exact isSome_update hk
  | @delete k' =>
    have hne : k ≠ k' := by
      rintro rfl
      exact hd rfl
    simpa [Sys.eraseGroup, hne] using hk

/-- A group that is not deleted keeps its dissector. -/
theorem group_kept (h : execute p s a = some t) (hd : a ≠ .delete k) (hk : s.groups k = some st) :
    ∃ st', t.groups k = some st' ∧ st'.dis = st.dis := by
  obtain ⟨st', hk'⟩ := Option.isSome_iff_exists.mp (group_survives h hd (by simp [hk]))
  cases group_change h hk' with
  | kept st₀ hk₀ hstep =>
    cases hk.symm.trans hk₀
    exact ⟨st', hk', hstep.dis_eq⟩
  | born _ _ _ _ _ hnone _ => simp [hk] at hnone

/-- The states a group can come to be in, whatever its packets, calls and helpers do. -/
inductive GroupReachable (p : Programs) : ReuseportStorage → Prop
  | created (env : OptEnv) (ss : SocketStorage) : GroupReachable p (freshGroup env ss)
  | installed (env : OptEnv) (ss : SocketStorage) (d : Dissector)
      (hf : dissectorFail d = false) :
      GroupReachable p { freshGroup env ss with dis := d.stored, verbose := verboseFlag d }
  | step {st st' : ReuseportStorage} (h : GroupReachable p st) (hs : GroupStep p st st') :
      GroupReachable p st'

theorem GroupBirth.reachable {ctx : SockoptCtx} (h : GroupBirth p ctx st) :
    GroupReachable p st := by
  cases h with
  | implicit env ss h => exact .step (.created env ss) (.quiet h)
  | install env ss data _ _ hf h =>
    subst h
    exact .installed env ss _ hf

/-- The groups of a system run are group runs. -/
theorem groups_reachable {as : List Action} (h : Run p Sys.initial as t) :
    ∀ k st, t.groups k = some st → GroupReachable p st := by
  refine Transition.Run.inv (P := fun s => ∀ k st, s.groups k = some st → GroupReachable p st)
    h ?_ (by simp [Sys.initial])
  intro s a t hstep ih k st' hk
  cases group_change hstep hk with
  | kept st hst hs => exact .step (ih k st hst) hs
  | born _ _ _ _ _ _ hb => exact hb.reachable

end Udpgrm
