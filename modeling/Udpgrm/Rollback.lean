import Udpgrm.Step

/-! What a failing setsockopt call leaves behind. -/
namespace Udpgrm

variable {p : Programs} {s t u : Sys} {env : OptEnv} {c : UInt64} {k : Key}
  {ss : SocketStorage} {st st' : ReuseportStorage} {created : Bool} {data : List UInt8}
  {o : SockOpt} {ctx : SockoptCtx} {e : Errno}

/-- A group without its counters. -/
def ReuseportStorage.config (st : ReuseportStorage) : ReuseportStorage :=
  { st with metrics := {} }

theorem ReuseportStorage.SameConfig.config_eq (h : st.SameConfig st') :
    st'.config = st.config := by
  obtain ⟨m, rfl⟩ := h
  rfl

theorem sameConfig_of_config_eq (h : st'.config = st.config) : st.SameConfig st' := by
  refine ⟨st'.metrics, ?_⟩
  cases st
  cases st'
  simp only [ReuseportStorage.config, ReuseportStorage.mk.injEq] at h ⊢
  simp [h]

/-- The groups without their counters, the sockets' storage and the flow table agree. -/
structure Sys.SameButCounters (s t : Sys) : Prop where
  groups : ∀ k, (t.groups k).map ReuseportStorage.config =
    (s.groups k).map ReuseportStorage.config
  socks : t.socks = s.socks
  lru : t.lru = s.lru

namespace Sys.SameButCounters

theorem refl (s : Sys) : s.SameButCounters s := ⟨fun _ => rfl, rfl, rfl⟩

theorem group_cases (h : s.SameButCounters t) (k : Key) :
    (s.groups k = none ∧ t.groups k = none) ∨
      ∃ st st', s.groups k = some st ∧ t.groups k = some st' ∧ st.SameConfig st' := by
  have hk := h.groups k
  cases hs : s.groups k with
  | none =>
    left
    simpa [hs] using hk
  | some st =>
    right
    rw [hs, Option.map_some, Option.map_eq_some_iff] at hk
    obtain ⟨st', ht, he⟩ := hk
    exact ⟨st, st', rfl, ht, sameConfig_of_config_eq he⟩

theorem setGroup (h : s.SameButCounters t) (hst : st.SameConfig st') :
    (s.setGroup k st).SameButCounters (t.setGroup k st') := by
  refine ⟨fun k' => ?_, h.socks, h.lru⟩
  by_cases hk : k' = k
  · subst hk
    simp [Sys.setGroup, hst.config_eq]
  · simpa [Sys.setGroup, hk] using h.groups k'

theorem eraseGroup (h : s.SameButCounters t) :
    (s.eraseGroup k).SameButCounters (t.eraseGroup k) := by
  refine ⟨fun k' => ?_, h.socks, h.lru⟩
  by_cases hk : k' = k
  · subst hk
    simp [Sys.eraseGroup]
  · simpa [Sys.eraseGroup, hk] using h.groups k'

theorem setStorage (h : s.SameButCounters t) :
    (s.setStorage c ss).SameButCounters (t.setStorage c ss) :=
  ⟨h.groups, by simp only [Sys.setStorage, h.socks], h.lru⟩

theorem push (h : s.SameButCounters t) (m m' : Msg) :
    (s.push m).SameButCounters (t.push m') := ⟨h.groups, h.socks, h.lru⟩

theorem setLru (h : s.SameButCounters t) (lru : FlowTable) :
    (s.setLru lru).SameButCounters (t.setLru lru) := ⟨h.groups, h.socks, rfl⟩

end Sys.SameButCounters

/-- Two answers of the hook that differ in counters at most. -/
def SameOutcome (x y : OptRet × Sys) : Prop := y.1 = x.1 ∧ x.2.SameButCounters y.2

/-! ### Counters have no influence -/

theorem setsockoptBody_counters (h : s.SameButCounters t) (hst : st.SameConfig st') :
    SameOutcome (setsockoptBody p env s c k ss st created data o)
      (setsockoptBody p env t c k ss st' created data o) := by
  obtain ⟨m, rfl⟩ := hst
  cases o with
  | workingGen =>
    simp only [setsockoptBody]
    split
    · exact ⟨rfl, (h.setGroup ⟨m, rfl⟩).push _ _⟩
    · exact ⟨rfl, h⟩
  | socketGen =>
    simp only [setsockoptBody]
    split
    · split
      · exact ⟨rfl, h.setStorage.push _ _⟩
      · exact ⟨rfl, h⟩
    · exact ⟨rfl, h⟩
  | dissector =>
    simp only [setsockoptBody]
    split
    · split
      · exact ⟨rfl, h.setGroup ⟨m, rfl⟩⟩
      · exact ⟨rfl, h⟩
    · split
      · exact ⟨rfl, h.eraseGroup⟩
      · split
        · exact ⟨rfl, (h.setGroup ⟨m, rfl⟩).push _ _⟩
        · exact ⟨rfl, h⟩
  | flowAssure =>
    simp only [setsockoptBody]
    split
    · exact ⟨rfl, h⟩
    · split
      · exact ⟨rfl, h⟩
      · rename_i r _
        have h₁ := flowAssure_sameConfig env.flow st ss
          (p.countIpFlowHash (r.flow st.randomId)) s.lru
        have h₂ := flowAssure_sameConfig env.flow { st with metrics := m } ss
          (p.countIpFlowHash (r.flow st.randomId)) s.lru
        have hst := sameConfig_of_config_eq (h₂.config_eq.trans h₁.config_eq.symm)
        rw [h.lru]
        refine ⟨by simp only [flowAssure_fst], ?_⟩
        simp only [flowAssure_lru]
        exact (h.setGroup hst).setLru _
  | socketApp =>
    simp only [setsockoptBody]
    split
    · split
      · exact ⟨rfl, h⟩
      · split
        · exact ⟨rfl, h⟩
        · exact ⟨rfl, h.setStorage⟩
    · exact ⟨rfl, h⟩

/-- The hook cannot tell two states apart that differ in counters. -/
theorem udpgrmSetsockopt_counters (h : s.SameButCounters t) (env : OptEnv) :
    SameOutcome (udpgrmSetsockopt p env s c ctx) (udpgrmSetsockopt p env t c ctx) := by
  unfold udpgrmSetsockopt
  cases ctx.opt with
  | none => exact ⟨rfl, h⟩
  | some o =>
    cases ctx.handled with
    | true => exact ⟨rfl, h⟩
    | false =>
      cases copyIn ctx.optval with
      | none => exact ⟨rfl, h⟩
      | some data =>
        simp only [h.socks, Bool.false_eq_true, if_false]
        cases (s.socks c).bind fun sock => sock.storage.map fun ss => (sock.key, ss) with
        | none => exact ⟨rfl, h⟩
        | some b =>
          obtain ⟨k, ss⟩ := b
          rcases h.group_cases k with ⟨hs, ht⟩ | ⟨st, st', hs, ht, hst⟩
          · cases hm : env.mapRoom with
            | false => simpa [getStateCreate, hs, ht, hm] using ⟨rfl, h⟩
            | true =>
              simp only [getStateCreate, hs, ht, hm, if_true]
              split
              · exact ⟨rfl, h.setGroup (.refl _)⟩
              · exact setsockoptBody_counters (h.setGroup (.refl _)) (.refl _)
          · have hn : st'.netnsCookie = st.netnsCookie := by
              obtain ⟨m, rfl⟩ := hst
              rfl
            simp only [getStateCreate, hs, ht, hn]
            split
            · exact ⟨rfl, h⟩
            · exact setsockoptBody_counters h hst

/-! ### The exits that fail -/

/-- On a group that exists, every failing exit leaves everything but counters alone. -/
theorem setsockoptBody_existing (hk : s.groups k = some st)
    (he : (setsockoptBody p env s c k ss st false data o).1 = .err e) :
    s.SameButCounters (setsockoptBody p env s c k ss st false data o).2 := by
  have heff := setsockoptBody_effect p env s c k ss st false data o
  generalize setsockoptBody p env s c k ss st false data o = x at he heff ⊢
  obtain ⟨r, t⟩ := x
  dsimp only at he heff ⊢
  subst he
  cases heff with
  | stay => exact .refl s
  | undo hc => cases hc
  | @flow rm r hkind hrm hr =>
    have hno : (flowAssure env.flow st ss (p.countIpFlowHash (rm.flow st.randomId)) s.lru).1 =
        false := by
      by_contra hyes
      simp [Bool.not_eq_false] at hyes
      simp [hyes] at hr
    rw [flowAssure_fst, Bool.not_eq_false'] at hno
    rw [flowAssure_lru, flowTableAfter_refused hno]
    refine ⟨fun k' => ?_, rfl, rfl⟩
    by_cases hk' : k' = k
    · subst hk'
      simp [Sys.setLru, Sys.setGroup, hk, (flowAssure_sameConfig ..).config_eq]
    · simp [Sys.setLru, Sys.setGroup, hk']

/-- The options whose failing exits skip the removal of a group just created. -/
def failsOnFresh (p : Programs) (env : OptEnv) (s : Sys) (ss : SocketStorage)
    (data : List UInt8) : SockOpt → Bool
  | .workingGen => !env.ringRoom
  | .socketGen =>
    (decide (ss.sockGen ≠ LittleEndian.u32 data 0) || decide (ss.sockIdx = UNSET)) &&
      !env.ringRoom
  | .dissector => !dissectorFail (.ofBytes data) && !env.ringRoom
  | .flowAssure =>
    match remoteOfSockaddr data with
    | none => true
    | some r => flowRefuses env.flow .empty ss (p.countIpFlowHash (r.flow env.prandom)) s.lru
  -- a new group has no applications: any other number is too large or comes too late
  | .socketApp => decide (ss.sockApp ≠ LittleEndian.u32 data 0)

theorem freshGroup_kind (env : OptEnv) (ss : SocketStorage) :
    (freshGroup env ss).dis.kind = some .flow :=
  show Dissector.empty.kind = some .flow by decide

theorem setsockoptBody_fresh_leaves (h : failsOnFresh p env s ss data o = true) :
    (∃ e, (setsockoptBody p env (s.setGroup k (freshGroup env ss)) c k ss (freshGroup env ss)
        true data o).1 = .err e) ∧
      (setsockoptBody p env (s.setGroup k (freshGroup env ss)) c k ss (freshGroup env ss)
        true data o).2.groups k ≠ none := by
  cases o with
  | workingGen =>
    have hr : env.ringRoom = false := by simpa [failsOnFresh] using h
    simp [setsockoptBody, hr, Sys.setGroup]
  | socketGen =>
    simp only [failsOnFresh, Bool.and_eq_true, Bool.or_eq_true, decide_eq_true_eq,
      Bool.not_eq_true'] at h
    simp [setsockoptBody, h.1, h.2, Sys.setGroup]
  | dissector =>
    simp only [failsOnFresh, Bool.and_eq_true, Bool.not_eq_true'] at h
    simp [setsockoptBody, h.1, h.2, Sys.setGroup]
  | flowAssure =>
    have hkind : (freshGroup env ss).dis.kind = some .flow := freshGroup_kind env ss
    simp only [failsOnFresh] at h
    simp only [setsockoptBody, hkind, ne_eq, not_true_eq_false, if_false]
    cases hr : remoteOfSockaddr data with
    | none => simp [Sys.setGroup]
    | some r =>
      rw [hr] at h
      simp only [flowAssure_fst]
      have hf : flowRefuses env.flow (freshGroup env ss).dis ss
          (p.countIpFlowHash (r.flow (freshGroup env ss).randomId))
          (s.setGroup k (freshGroup env ss)).lru = true := h
      rw [hf]
      simp [Sys.setGroup, Sys.setLru]
  | socketApp =>
    have ha : ss.sockApp ≠ LittleEndian.u32 data 0 := by simpa [failsOnFresh] using h
    have hmax : (freshGroup env ss).dis.maxApps ≤ LittleEndian.u32 data 0 := UInt32.zero_le
    simp only [setsockoptBody, ha, ne_eq, not_false_eq_true, if_true, hmax]
    split <;> simp [Sys.setGroup]

/-- The one failing exit left, a refused dissector, removes the group again. -/
theorem setsockoptBody_fresh_clean (hk : s.groups k = none)
    (h : failsOnFresh p env s ss data o = false)
    (he : (setsockoptBody p env (s.setGroup k (freshGroup env ss)) c k ss (freshGroup env ss)
      true data o).1 = .err e) :
    s.SameButCounters (setsockoptBody p env (s.setGroup k (freshGroup env ss)) c k ss
      (freshGroup env ss) true data o).2 := by
  cases o with
  | workingGen =>
    have hr : env.ringRoom = true := by simpa [failsOnFresh] using h
    simp [setsockoptBody, hr] at he
  | socketGen =>
    simp only [setsockoptBody] at he
    split_ifs at he with hg hr
    simp [failsOnFresh, hr] at h
    exact absurd hg (by simp [h])
  | dissector =>
    simp only [setsockoptBody, Bool.not_true, Bool.false_eq_true, if_false] at he ⊢
    split_ifs at he ⊢ with hd hr
    · refine ⟨fun k' => ?_, rfl, rfl⟩
      by_cases hk' : k' = k
      · subst hk'
        simp [Sys.eraseGroup, hk]
      · simp [Sys.eraseGroup, Sys.setGroup, hk']
    · simp [failsOnFresh, hd, hr] at h
  | flowAssure =>
    simp only [setsockoptBody, freshGroup_kind, ne_eq, not_true_eq_false, if_false] at he
    simp only [failsOnFresh] at h
    split at h
    · cases h
    · rename_i r hr
      have hf : flowRefuses env.flow (freshGroup env ss).dis ss
          (p.countIpFlowHash (r.flow (freshGroup env ss).randomId))
          (s.setGroup k (freshGroup env ss)).lru = false := h
      simp [hr, flowAssure_fst, hf] at he
  | socketApp =>
    have ha : ss.sockApp = LittleEndian.u32 data 0 := by simpa [failsOnFresh] using h
    simp [setsockoptBody, ha] at he

/-! ### The whole call -/

/-- The call fails on a group that it has just created, by an exit that leaves the group. -/
def leavesGroup (p : Programs) (env : OptEnv) (s : Sys) (c : UInt64) (ctx : SockoptCtx) : Bool :=
  match ctx.opt, copyIn ctx.optval,
    (s.socks c).bind fun sock => sock.storage.map fun ss => (sock.key, ss) with
  | some o, some data, some (k, ss) =>
    !ctx.handled && (s.groups k).isNone && env.mapRoom && failsOnFresh p env s ss data o
  | _, _, _ => false

/-- A failing call changes counters at most, and repeating it later gives what the same
call would have given without the failed one. -/
def FailsCleanly (p : Programs) (env : OptEnv) (s : Sys) (c : UInt64) (ctx : SockoptCtx) : Prop :=
  ∀ e, (udpgrmSetsockopt p env s c ctx).1 = .err e →
    s.SameButCounters (udpgrmSetsockopt p env s c ctx).2 ∧
      ∀ env', SameOutcome (udpgrmSetsockopt p env' s c ctx)
        (udpgrmSetsockopt p env' (udpgrmSetsockopt p env s c ctx).2 c ctx)

/-- The three ways a call can go: it stops before the group matters, it works on a group
that exists, or it works on a group that it creates. -/
theorem udpgrmSetsockopt_path (p : Programs) (env : OptEnv) (s : Sys) (c : UInt64)
    (ctx : SockoptCtx) :
    ((udpgrmSetsockopt p env s c ctx).2 = s ∧ leavesGroup p env s c ctx = false) ∨
      (∃ k ss st data o, s.groups k = some st ∧ leavesGroup p env s c ctx = false ∧
        udpgrmSetsockopt p env s c ctx = setsockoptBody p env s c k ss st false data o) ∨
      ∃ k ss data o, s.groups k = none ∧
        leavesGroup p env s c ctx = failsOnFresh p env s ss data o ∧
        udpgrmSetsockopt p env s c ctx = setsockoptBody p env
          (s.setGroup k (freshGroup env ss)) c k ss (freshGroup env ss) true data o := by
  unfold udpgrmSetsockopt leavesGroup
  cases ctx.opt with
  | none => exact .inl ⟨rfl, rfl⟩
  | some o =>
    cases ctx.handled with
    | true =>
      left
      refine ⟨rfl, ?_⟩
      split <;> rfl
    | false =>
      cases copyIn ctx.optval with
      | none => exact .inl ⟨rfl, rfl⟩
      | some data =>
        cases (s.socks c).bind fun sock => sock.storage.map fun ss => (sock.key, ss) with
        | none => exact .inl ⟨rfl, rfl⟩
        | some b =>
          obtain ⟨k, ss⟩ := b
          cases hk : s.groups k with
          | some st =>
            by_cases hn : st.netnsCookie = ss.netnsCookie
            · refine .inr (.inl ⟨k, ss, st, data, o, hk, by simp [hk], ?_⟩)
              simp [getStateCreate, hk, hn]
            · left
              simp [getStateCreate, hk, hn]
          | none =>
            cases hm : env.mapRoom with
            | false =>
              left
              simp [getStateCreate, hk, hm]
            | true =>
              have hn : (freshGroup env ss).netnsCookie = ss.netnsCookie := rfl
              refine .inr (.inr ⟨k, ss, data, o, hk, by simp [hk], ?_⟩)
              simp [getStateCreate, hk, hm, hn]

/-- A failing call is undone exactly when it is not one of those that leave their group. -/
theorem fails_cleanly_iff (p : Programs) (env : OptEnv) (s : Sys) (c : UInt64)
    (ctx : SockoptCtx) :
    FailsCleanly p env s c ctx ↔ leavesGroup p env s c ctx = false := by
  -- the retry follows from the first half, since counters have no influence
  have hretry : (∀ e, (udpgrmSetsockopt p env s c ctx).1 = .err e →
      s.SameButCounters (udpgrmSetsockopt p env s c ctx).2) → FailsCleanly p env s c ctx :=
    fun h e he => ⟨h e he, udpgrmSetsockopt_counters (h e he)⟩
  rcases udpgrmSetsockopt_path p env s c ctx with
    ⟨hs, hl⟩ | ⟨k, ss, st, data, o, hk, hl, hc⟩ | ⟨k, ss, data, o, hk, hl, hc⟩
  · refine ⟨fun _ => hl, fun _ => hretry fun e _ => ?_⟩
    rw [hs]
    exact .refl s
  · refine ⟨fun _ => hl, fun _ => hretry fun e he => ?_⟩
    rw [hc] at he ⊢
    exact setsockoptBody_existing hk he
  · constructor
    · intro h
      by_contra hne
      rw [hl, Bool.not_eq_false] at hne
      obtain ⟨⟨e, he⟩, hleft⟩ := setsockoptBody_fresh_leaves (c := c) (k := k) hne
      rw [← hc] at he hleft
      have hsame := (h e he).1.groups k
      rw [hk, Option.map_none, Option.map_eq_none_iff] at hsame
      exact hleft hsame
    · intro h
      refine hretry fun e he => ?_
      rw [hc] at he ⊢
      exact setsockoptBody_fresh_clean hk (hl ▸ h) he

/-- UDP_GRM_DISSECTOR with a NOOP dissector. -/
def noopCall : SockoptCtx := ⟨IPPROTO_UDP, 202, [4, 0, 0, 0], false⟩

/-- With the ring full, the call creates a FLOW group and answers EAGAIN. The retry that
the caller is told to make then gets EPERM for good. -/
theorem noop_dissector_retry_refused :
    ∃ s, Run .const Sys.initial (Action.openBound 1) s ∧
      s.groups (skeyFromBpfSock .loopback) = none ∧
      (udpgrmSetsockopt .const { OptEnv.roomy with ringRoom := false } s 1 noopCall).1 =
        .err .eagain ∧
      (udpgrmSetsockopt .const .roomy s 1 noopCall).1 = .ok ∧
      (udpgrmSetsockopt .const .roomy
        (udpgrmSetsockopt .const { OptEnv.roomy with ringRoom := false } s 1 noopCall).2 1
        noopCall).1 = .err .eperm ∧
      ¬ FailsCleanly .const { OptEnv.roomy with ringRoom := false } s 1 noopCall := by
  obtain ⟨s, hs, hx⟩ := Transition.run_of_any (execute .const) Sys.initial (Action.openBound 1)
    (fun s : Sys => decide ((s.groups (skeyFromBpfSock .loopback)).isNone = true ∧
      (udpgrmSetsockopt .const { OptEnv.roomy with ringRoom := false } s 1 noopCall).1 =
        .err .eagain ∧
      (udpgrmSetsockopt .const .roomy s 1 noopCall).1 = .ok ∧
      (udpgrmSetsockopt .const .roomy
        (udpgrmSetsockopt .const { OptEnv.roomy with ringRoom := false } s 1 noopCall).2 1
        noopCall).1 = .err .eperm)) (by decide +kernel)
  obtain ⟨hk, hfirst, hfresh, hagain⟩ := of_decide_eq_true hx
  refine ⟨s, hs, Option.isNone_iff_eq_none.mp hk, hfirst, hfresh, hagain, fun hclean => ?_⟩
  have hsame := ((hclean _ hfirst).2 .roomy).1
  rw [hfresh, hagain] at hsame
  cases hsame

end Udpgrm
