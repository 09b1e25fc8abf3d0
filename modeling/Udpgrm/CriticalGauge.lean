import Udpgrm.Groups

/-! The critical counter and its gauge against the outcomes that the daemon reports. -/
namespace Udpgrm

open Transition (run_of_any)

variable {p : Programs} {s t : Sys} {a : Action} {k : Key} {st st' : ReuseportStorage}
  {as : List Action}

/-! ### Outcomes -/

/-- The outcome that a message reports for group `k`: true for a failed socket search or a
failed registration with Tubular, false for a working generation that went through. -/
def Msg.outcome (env : DaemonEnv) (s : Sys) (k : Key) : Msg → Option Bool
  | .registerSocket k' _ _ _ _ => if k' = k ∧ env.fished = .notFound then some true else none
  | .setWorkingGen k' _ gen =>
    if k' = k then
      (s.groups k).map fun st =>
        decide ((tubularMaybeRegister s.tubular st (genRow gen) env.tubularPath
          env.registerErr).err ≠ 0)
    else none
  | _ => none

def reported (k : Key) (s : Sys) : Action → Option Bool
  | .handle env => s.ring.head?.bind (Msg.outcome env s k)
  | _ => none

/-- The outcomes reported for group `k` since it was created, given those so far. -/
def outcomes (p : Programs) (k : Key) : Sys → List Action → List Bool → List Bool
  | _, [], os => os
  | s, a :: as, os =>
    match execute p s a with
    | none => os
    | some t =>
      outcomes p k t as
        (if (s.groups k).isNone || (t.groups k).isNone then [] else os ++ (reported k s a).toList)

def failures (os : List Bool) : ℕ := os.count true

/-- One after a failure, zero after a success and for a new group. -/
def lastOutcome (os : List Bool) : ℕ := if os.getLast? = some true then 1 else 0

/-- No outcome was reported after a failure. -/
def FailsLast (os : List Bool) : Prop := ∀ o ∈ os.dropLast, o = false

instance (os : List Bool) : Decidable (FailsLast os) :=
  inferInstanceAs (Decidable (∀ o ∈ os.dropLast, o = false))

theorem failures_concat (os : List Bool) (o : Bool) :
    failures (os ++ [o]) = failures os + if o then 1 else 0 := by
  cases o <;> simp [failures]

theorem failures_eq_zero {os : List Bool} : failures os = 0 ↔ ∀ o ∈ os, o = false := by
  rw [failures, List.count_eq_zero]
  constructor
  · intro h o ho
    cases o with
    | false => rfl
    | true => exact absurd ho h
  · intro h ht
    cases h true ht

/-- The number of failures is the last outcome exactly if no outcome follows a failure. -/
theorem failures_eq_lastOutcome_iff (os : List Bool) :
    failures os = lastOutcome os ↔ FailsLast os := by
  rcases List.eq_nil_or_concat os with rfl | ⟨init, o, rfl⟩
  · simp [failures, lastOutcome, FailsLast]
  · rw [List.concat_eq_append, failures_concat, lastOutcome, List.getLast?_concat, FailsLast,
      List.dropLast_concat, ← failures_eq_zero]
    cases o <;> simp

/-! ### Steps -/

/-- `socket_critical_gauge` and `socket_critical`. -/
def Metrics.critical (m : Metrics) : ℕ × ℕ := (m.socketCriticalGauge, m.socketCritical)

theorem thirdStage_critical (select : UInt64 → Int) (appIdx mdHash : UInt32)
    (st : ReuseportStorage) :
    (thirdStage select appIdx mdHash st).2.metrics.critical = st.metrics.critical := by
  unfold thirdStage
  simp only
  split <;> rfl

theorem udpgrmReuseportProg_critical (select : UInt64 → Int) (lru : FlowTable) (now : UInt64)
    (md : Md) (st : ReuseportStorage) :
    (udpgrmReuseportProg p select lru now md st).2.metrics.critical = st.metrics.critical := by
  simp only [udpgrmReuseportProg]
  split
  · rfl
  · rfl
  · rfl
  · unfold haveHash
    simp only
    repeat' split
    all_goals first
      | rfl
      | exact thirdStage_critical ..
  · unfold haveCookie
    simp only
    repeat' split
    all_goals first
      | rfl
      | exact thirdStage_critical ..
  · exact thirdStage_critical ..

theorem flowAssure_critical (env : FlowEnv) (st : ReuseportStorage) (ss : SocketStorage)
    (hash : UInt32) (lru : FlowTable) :
    (flowAssure env st ss hash lru).2.1.metrics.critical = st.metrics.critical := by
  unfold flowAssure
  simp only
  split <;> split
  all_goals try split
  all_goals rfl

/-- Both counters of the group at a key, zero where there is none. -/
def Sys.critical (s : Sys) (k : Key) : ℕ × ℕ := (s.groups k).elim (0, 0) (·.metrics.critical)

theorem critical_of_some (hk : s.groups k = some st) : s.critical k = st.metrics.critical := by
  rw [Sys.critical, hk]
  rfl

theorem critical_of_eq (hg : t.groups k = s.groups k) (hk : t.groups k = some st) :
    st.metrics.critical = s.critical k :=
  (critical_of_some (hg.symm.trans hk)).symm

/-- One group was written, with the counters it had. -/
theorem critical_of_update {k' : Key} {st₁ : ReuseportStorage}
    (ht : t.groups = Function.update s.groups k' (some st₁))
    (he : st₁.metrics.critical = s.critical k') (hk : t.groups k = some st) :
    st.metrics.critical = s.critical k := by
  by_cases hkk : k = k'
  · subst hkk
    rw [ht, Function.update_self, Option.some.injEq] at hk
    rw [← hk, he]
  · exact critical_of_eq (by rw [ht, Function.update_of_ne hkk]) hk

/-- A call starts from the group it found, or from one without any count. -/
theorem Base.critical {env : OptEnv} {k : Key} {ss : SocketStorage} {b : Sys} {created : Bool}
    (hb : Base env s k ss b st created) :
    b.groups = Function.update s.groups k (some st) ∧ st.metrics.critical = s.critical k := by
  cases hb with
  | existing h => exact ⟨by rw [← h, Function.update_eq_self], (critical_of_some h).symm⟩
  | created h =>
    refine ⟨rfl, ?_⟩
    rw [Sys.critical, h]
    rfl

theorem setsockopt_critical {env : OptEnv} {c : UInt64} {ctx : SockoptCtx} {r : OptRet}
    (h : SetsockoptEffect p env s c ctx r t) (hk : t.groups k = some st) :
    st.metrics.critical = s.critical k := by
  cases h with
  | untouched => exact critical_of_eq rfl hk
  | @body sock ss b t st₀ created data o r hs hss hb hd ho hn he =>
    obtain ⟨hbg, hbc⟩ := hb.critical
    have written {st₁ : ReuseportStorage}
        (ht : t.groups = Function.update b.groups sock.key (some st₁))
        (hm : st₁.metrics.critical = st₀.metrics.critical) : st.metrics.critical = s.critical k :=
      critical_of_update (by rw [ht, hbg, Function.update_idem]) (hm.trans hbc) hk
    cases he with
    | stay | socketGen | socketApp => exact critical_of_update hbg hbc hk
    | workingGen | verbose | install => exact written rfl (by rfl)
    | flow => exact written rfl (flowAssure_critical ..)
    | undo =>
      have hne : k ≠ sock.key := by
        rintro rfl
        simp [Sys.eraseGroup] at hk
      refine critical_of_eq ?_ hk
      simp [Sys.eraseGroup, hbg, hne]

theorem handleMsg_other {env : DaemonEnv} {m : Msg} {call : Option (Row × List Int)}
    (h : handleMsg env s m = .ok (t, call)) (hne : m.skey ≠ k) : t.groups k = s.groups k := by
  cases handleMsg_effect h with
  | ignored => rfl
  | notFound | workingGen => exact Function.update_of_ne (Ne.symm hne) ..
  | accepted =>
    rw [acceptSocket_groups]
    exact Function.update_of_ne (Ne.symm hne) ..

theorem Msg.outcome_other {env : DaemonEnv} {m : Msg} (hne : m.skey ≠ k) :
    m.outcome env s k = none := by
  cases m with
  | registerSocket => exact if_neg fun h => hne h.1
  | setWorkingGen => exact if_neg hne
  | _ => rfl

/-- A search that failed is counted, every other end of a registration is not. -/
theorem handleRegister_critical {env : DaemonEnv} {cookie : UInt64} {gen app : UInt32}
    (hk : s.groups k = some st) (h : handleRegister env s k st cookie gen app = .ok t)
    (hk' : t.groups k = some st') :
    st'.metrics.critical =
      st.metrics.critical + if env.fished = .notFound then (1, 1) else (0, 0) := by
  by_cases hf : env.fished = .notFound
  · simp only [handleRegister, hf, Except.ok.injEq] at h
    subst h
    simp only [Sys.setGroup, Function.update_self, Option.some.injEq] at hk'
    rw [if_pos hf, ← hk']
    rfl
  · rw [if_neg hf]
    have heff : HandleEffect env s (.registerSocket k 0 cookie gen app) t none :=
      handleRegister_effect hk h
    cases heff with
    | ignored =>
      cases hk.symm.trans hk'
      rfl
    | notFound _ hf' => exact absurd hf' hf
    | accepted hk₀ =>
      cases hk.symm.trans hk₀
      rw [acceptSocket_groups, Function.update_self, Option.some.injEq] at hk'
      rw [← hk']
      rfl

theorem handleWorkingGen_critical {env : DaemonEnv} {gen : UInt32}
    (hk' : (handleWorkingGen env s k st gen).1.groups k = some st') :
    st'.metrics.critical = st.metrics.critical +
      if (tubularMaybeRegister s.tubular st (genRow gen) env.tubularPath env.registerErr).err ≠ 0
      then (1, 1) else (0, 0) := by
  simp only [handleWorkingGen, Sys.setGroup, Function.update_self, Option.some.injEq] at hk'
  subst hk'
  split <;> rfl

/-- The counter and the gauge grow together, by one for each failure. -/
theorem handleMsg_critical {env : DaemonEnv} {m : Msg} {call : Option (Row × List Int)}
    (hk : s.groups k = some st) (h : handleMsg env s m = .ok (t, call))
    (hk' : t.groups k = some st') :
    st'.metrics.critical = st.metrics.critical +
      if m.outcome env s k = some true then (1, 1) else (0, 0) := by
  by_cases hm : m.skey = k
  · cases m with
    | registerSocket k' pid cookie gen app =>
      obtain rfl : k' = k := hm
      cases hr : handleRegister env s k' st cookie gen app with
      | error => simp [handleMsg, Msg.skey, hk, hr, Except.map] at h
      | ok u =>
        simp only [handleMsg, Msg.skey, hk, hr, Except.map, Except.ok.injEq, Prod.mk.injEq] at h
        obtain ⟨rfl, rfl⟩ := h
        simpa [Msg.outcome] using handleRegister_critical hk hr hk'
    | setWorkingGen k' app gen =>
      obtain rfl : k' = k := hm
      simp only [handleMsg, Msg.skey, hk, Except.ok.injEq] at h
      obtain ⟨rfl, rfl⟩ := Prod.ext_iff.mp h
      simpa [Msg.outcome, hk] using handleWorkingGen_critical hk'
    | setDissector | log | other =>
      cases handleMsg_effect h
      cases hk.symm.trans hk'
      rfl
  · rw [handleMsg_other h hm, hk] at hk'
    cases hk'
    rw [Msg.outcome_other hm]
    rfl

/-- A message that stops the daemon reports no outcome. -/
theorem Msg.outcome_of_error {env : DaemonEnv} {m : Msg} {e : Fatal} (hk : s.groups k = some st)
    (h : handleMsg env s m = .error e) : m.outcome env s k = none := by
  by_cases hm : m.skey = k
  · cases m with
    | registerSocket k' pid cookie gen app =>
      obtain rfl : k' = k := hm
      refine if_neg fun hf => ?_
      simp [handleMsg, Msg.skey, hk, handleRegister, hf.2, Except.map] at h
    | setWorkingGen k' app gen =>
      obtain rfl : k' = k := hm
      simp [handleMsg, Msg.skey, hk] at h
    | setDissector | log | other => rfl
  · exact Msg.outcome_other hm

theorem handleStep_critical {env : DaemonEnv} (hk : s.groups k = some st)
    (h : handleStep (s.tick env.now) env = some t) (hk' : t.groups k = some st') :
    st'.metrics.critical = st.metrics.critical +
      if reported k s (.handle env) = some true then (1, 1) else (0, 0) := by
  unfold handleStep at h
  split at h
  · cases h
  · rename_i m rest hr
    have hout : reported k s (.handle env) =
        m.outcome env { s.tick env.now with ring := rest } k := by
      simp only [reported, show s.ring = m :: rest from hr, List.head?_cons, Option.bind_some]
      rfl
    split_ifs at h
    dsimp only at h
    split at h
    · rename_i hm
      cases h
      rw [hout]
      exact handleMsg_critical hk hm hk'
    · rename_i hm
      cases h
      cases hk.symm.trans hk'
      rw [hout.trans (Msg.outcome_of_error (s := { s.tick env.now with ring := rest }) hk hm)]
      rfl

/-- Steps outside the daemon leave both counters of a group as they are. -/
theorem critical_quiet (h : execute p s a = some t) (ha : ∀ env, a ≠ .handle env)
    (hk : t.groups k = some st) : st.metrics.critical = s.critical k := by
  cases execute_effect h with
  | socket | close | cleanup => exact critical_of_eq rfl hk
  | bind => exact critical_of_eq (congrFun (bpfBind_groups ..) k) hk
  | @setsockopt c ctx env =>
    exact setsockopt_critical (s := s.tick env.flow.later) (udpgrmSetsockopt_effect ..) hk
  | @sendmsg c dst env =>
    rcases udpSendmsg_cases p env (s.tick env.later) c dst with
      h | ⟨_, _, st₀, _, _, hst, _, h⟩ <;> rw [h] at hk
    · exact critical_of_eq (s := s) rfl hk
    · refine critical_of_update (s := s) rfl ?_ hk
      exact (flowAssure_critical ..).trans (critical_of_some (s := s) hst).symm
  | @packet r now md =>
    rcases receive_cases p (s.tick now) r md now with h | ⟨_, st₀, _, hst, h⟩ <;> rw [h] at hk
    · exact critical_of_eq (s := s) rfl hk
    · refine critical_of_update (s := s) rfl ?_ hk
      exact (udpgrmReuseportProg_critical ..).trans (critical_of_some (s := s) hst).symm
  | ignored | notFound | announced | accepted | crashed => exact absurd rfl (ha _)
  | @delete k' =>
    have hne : k ≠ k' := by
      rintro rfl
      simp [Sys.eraseGroup] at hk
    exact critical_of_eq (by simp [Sys.eraseGroup, hne]) hk

theorem critical_step (h : execute p s a = some t) (hk : t.groups k = some st) :
    st.metrics.critical = s.critical k +
      if (s.groups k).isSome ∧ reported k s a = some true then (1, 1) else (0, 0) := by
  by_cases ha : ∃ env, a = .handle env
  · obtain ⟨env, rfl⟩ := ha
    -- the daemon creates no group
    cases group_change h hk with
    | born _ _ _ ha => cases ha
    | kept st₀ hk₀ =>
      simp only [execute] at h
      split_ifs at h
      rw [handleStep_critical hk₀ h hk, critical_of_some hk₀]
      simp [hk₀]
  · have ha' : ∀ env, a ≠ .handle env := fun env he => ha ⟨env, he⟩
    have hr : reported k s a = none := by
      cases a with
      | handle env => exact absurd rfl (ha' env)
      | _ => rfl
    rw [critical_quiet h ha' hk, hr, if_neg (by simp)]
    rfl

/-! ### Runs -/

/-- Both counters count the failures that were reported. -/
def Counts (k : Key) (s : Sys) (os : List Bool) : Prop := s.critical k = (failures os, failures os)

theorem counts_step {os : List Bool} (h : execute p s a = some t) (hs : Counts k s os) :
    Counts k t (if (s.groups k).isNone || (t.groups k).isNone then []
      else os ++ (reported k s a).toList) := by
  unfold Counts at hs ⊢
  cases ht : t.groups k with
  | none => simp [Sys.critical, ht, failures]
  | some st' =>
    rw [critical_of_some ht, critical_step h ht]
    cases hg : s.groups k with
    | none => simp [Sys.critical, hg, failures]
    | some st =>
      rw [hs]
      rcases hr : reported k s a with _ | _ | _ <;> simp [failures]

theorem counts_run {os : List Bool} (h : Run p s as t) (hs : Counts k s os) :
    Counts k t (outcomes p k s as os) := by
  induction h generalizing os with
  | refl => exact hs
  | stepL hstep _ ih =>
    have hstep' : execute p _ _ = some _ := hstep
    simp only [outcomes, hstep']
    exact ih (counts_step hstep' hs)

/-- In every run the gauge shows the last outcome, next to a correct count of failures, exactly
if no outcome was reported after a failure. -/
theorem critical_gauge_iff (h : Run p Sys.initial as t) (hk : t.groups k = some st) :
    (st.metrics.socketCriticalGauge = lastOutcome (outcomes p k Sys.initial as []) ∧
      st.metrics.socketCritical = failures (outcomes p k Sys.initial as [])) ↔
      FailsLast (outcomes p k Sys.initial as []) := by
  have hc : Counts k t (outcomes p k Sys.initial as []) := counts_run h rfl
  obtain ⟨hgauge, hcount⟩ := Prod.ext_iff.mp ((critical_of_some hk).symm.trans hc)
  have hgauge' : st.metrics.socketCriticalGauge = failures (outcomes p k Sys.initial as []) :=
    hgauge
  rw [hgauge', ← failures_eq_lastOutcome_iff]
  exact and_iff_left hcount

/-- The daemon does not find socket 1, then the application sets its working generation. -/
def failThenSet : List Action :=
  Action.openBound 1 ++ [.call 1 201 [0, 0, 0, 0], .handle ⟨.notFound, true, 0, 0⟩,
    .call 1 200 [0, 0, 0, 0], .daemon 10]

/-- While the failure is the last outcome, the gauge is right. -/
theorem critical_gauge_iff_failed :
    ∃ t st, Run .const Sys.initial (failThenSet.take 4) t ∧
      t.groups (skeyFromBpfSock .loopback) = some st ∧
      outcomes .const (skeyFromBpfSock .loopback) Sys.initial (failThenSet.take 4) [] = [true] ∧
      st.metrics.socketCriticalGauge = 1 ∧ st.metrics.socketCritical = 1 := by
  have hos : outcomes .const (skeyFromBpfSock .loopback) Sys.initial (failThenSet.take 4) [] =
      [true] := by decide +kernel
  obtain ⟨t, ht, hx⟩ := run_of_any (execute .const) Sys.initial (failThenSet.take 4)
    (fun s : Sys => (s.groups (skeyFromBpfSock .loopback)).isSome) (by decide +kernel)
  obtain ⟨st, hst⟩ := Option.isSome_iff_exists.mp hx
  have hok := (critical_gauge_iff ht hst).mpr (by rw [hos]; decide)
  rw [hos] at hok
  exact ⟨t, st, ht, hst, hos, hok⟩

/-- After the success the gauge still shows the failure. -/
theorem gauge_one_after_success :
    ∃ t st, Run .const Sys.initial failThenSet t ∧
      t.groups (skeyFromBpfSock .loopback) = some st ∧
      outcomes .const (skeyFromBpfSock .loopback) Sys.initial failThenSet [] = [true, false] ∧
      st.metrics.socketCriticalGauge = 1 := by
  obtain ⟨t, ht, hx⟩ := run_of_any (execute .const) Sys.initial failThenSet
    (fun s : Sys => (s.groups (skeyFromBpfSock .loopback)).any fun st : ReuseportStorage =>
      decide (st.metrics.socketCriticalGauge = 1)) (by decide +kernel)
  obtain ⟨st, hst, hg⟩ := Option.any_eq_true _ _ |>.mp hx
  exact ⟨t, st, ht, hst, by decide +kernel, of_decide_eq_true hg⟩

end Udpgrm
