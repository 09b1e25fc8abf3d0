import Udpgrm.Handover
import Udpgrm.Registration
import Udpgrm.TubularClosing

/-! Every descriptor that goes into the Tubular store is closed once, and none is lost. -/
namespace Udpgrm

/-! ### Descriptors handed over and closed -/

variable {p : Programs} {s t : Sys} {a : Action} {k : Key} {st : ReuseportStorage} {f : ℕ}

/-- The descriptor that a registration hands to `tubular_maybe_preserve_fd`, and what is closed
then: the descriptor itself where it is refused, or the one it replaces. -/
def registerCalls (env : DaemonEnv) (s : Sys) (st : ReuseportStorage) (cookie : UInt64)
    (socketGen socketApp : UInt32) : List ℕ × List ℕ :=
  match env.fished, toWrkGen? st.dis.maxApps socketApp socketGen with
  | .found f, some gen =>
    let r := cookiesFindEmpty st gen s.sockhash cookie
    match r.freePos with
    | none => ([], [])
    | some freePos =>
      match tubularMaybePreserveFd s.tubular st gen r.genLen
          (Fin.ofNat MAX_SOCKETS_IN_GEN freePos) f env.now with
      | none => ([f], [f])
      | some (_, closed) => ([f], closed)
  | _, _ => ([], [])

/-- What the daemon hands to `tubular_maybe_preserve_fd` and closes while it handles a message. -/
def msgCalls (env : DaemonEnv) (s : Sys) : Msg → List ℕ × List ℕ
  | .registerSocket k _ cookie gen app =>
    (s.groups k).elim ([], []) fun st => registerCalls env s st cookie gen app
  | .setWorkingGen k _ gen =>
    (s.groups k).elim ([], []) fun st =>
      ([], (tubularMaybeRegister s.tubular st (genRow gen) env.tubularPath env.registerErr).closed)
  | _ => ([], [])

/-- The descriptors that a step hands to `tubular_maybe_preserve_fd`, and those that it closes.
The end of the daemon closes every descriptor. -/
def storeCalls (s : Sys) : Action → List ℕ × List ℕ
  | .handle env =>
    match s.ring with
    | [] => ([], [])
    | m :: rest =>
      match handleMsg env { s.tick env.now with ring := rest } m with
      | .ok _ => msgCalls env s m
      | .error _ => ([], s.fds.map Prod.fst)
  | .cleanup now => ([], (reuseportGroupsMaybeCleanupStale now s.tubular).2)
  | _ => ([], [])

/-- A step leaves the store alone, ends the daemon, closes what it forgets, or preserves the
socket of an accepted registration. -/
inductive FdStep (s : Sys) (a : Action) (t : Sys) : List ℕ × List ℕ → Prop
  | same (fs : List ℕ) (ht : t.tubular = s.tubular) (hf : t.fds = s.fds) : FdStep s a t (fs, fs)
  | reset (ht : t.tubular = []) (hf : t.fds = []) : FdStep s a t ([], s.fds.map Prod.fst)
  | shrunk (closed : List ℕ) (ht : ClosesLost s.tubular t.tubular closed)
      (hf : t.fds = fdsWithout s.fds closed) : FdStep s a t ([], closed)
  | preserved (env : DaemonEnv) (ha : a = .handle env) (hacc : Accepted s env t)
      (hl : hacc.st.dis.labelled = true) (closed : List ℕ)
      (ht : tubularMaybePreserveFd s.tubular hacc.st hacc.wg hacc.len
        (Fin.ofNat MAX_SOCKETS_IN_GEN hacc.pos) hacc.f env.now = some (t.tubular, closed))
      (hf : t.fds = fdsWithout ((hacc.f, hacc.cookie) :: s.fds) closed) :
      FdStep s a t ([hacc.f], closed)

/-- A registration that is not fatal is dropped, or accepted in the slot that was found. -/
theorem handleRegister_calls {env : DaemonEnv} {cookie : UInt64} {gen app : UInt32}
    (h : handleRegister env s k st cookie gen app = .ok t) :
    (registerCalls env s st cookie gen app = ([], []) ∧ t.tubular = s.tubular ∧ t.fds = s.fds) ∨
      ∃ ss wg pos sockhash f, env.fished = .found f ∧
        (s.socks cookie).bind (·.storage) = some ss ∧
        toWrkGen? st.dis.maxApps app gen = some wg ∧
        (cookiesFindEmpty st wg s.sockhash cookie).freePos = some pos ∧
        sockhashUpdate s.sockhash cookie = some sockhash ∧
        t = acceptSocket env { s with sockhash := sockhash } k st ss cookie wg pos
          (cookiesFindEmpty st wg s.sockhash cookie).genLen f := by
  unfold handleRegister at h
  split at h
  · cases h
    exact .inl ⟨by simp [registerCalls, *], rfl, rfl⟩
  · cases h
    exact .inl ⟨by simp [registerCalls, *], rfl, rfl⟩
  · rename_i f hf
    split at h
    · cases h
    · rename_i ss hss
      split at h
      · cases h
      · rename_i wg hwg
        simp only at h
        split at h
        · rename_i hpos
          cases h
          exact .inl ⟨by simp [registerCalls, hf, hwg, hpos], rfl, rfl⟩
        · rename_i pos hpos
          split at h
          · cases h
          · cases h
            exact .inr ⟨ss, wg, pos, _, f, hf, hss, hwg, hpos, ‹_›, rfl⟩

theorem Accepted.registerCalls_eq {env : DaemonEnv} (h : Accepted s env t) :
    registerCalls env s h.st h.cookie h.gen h.app =
      match tubularMaybePreserveFd s.tubular h.st h.wg h.len
          (Fin.ofNat MAX_SOCKETS_IN_GEN h.pos) h.f env.now with
      | none => ([h.f], [h.f])
      | some (_, closed) => ([h.f], closed) := by
  obtain ⟨hpos, hlen⟩ := Prod.mk.inj
    ((cookiesFindEmpty_scan h.st h.wg s.sockhash h.cookie).trans h.scan_eq)
  simp only [registerCalls, h.fished, h.wg_eq, hpos, hlen]

theorem fdStep_accepted {env : DaemonEnv} (hacc : Accepted s env t) (hu : UniqueIds s.tubular) :
    FdStep s (.handle env) t (registerCalls env s hacc.st hacc.cookie hacc.gen hacc.app) := by
  rw [hacc.registerCalls_eq]
  cases hl : hacc.st.dis.labelled with
  | false =>
    obtain ⟨ht, hf⟩ := acceptSocket_store_unlabelled env
      { s.tick env.now with ring := hacc.rest, sockhash := hacc.sockhash } hacc.k hacc.ss
      hacc.cookie hacc.wg hacc.pos hacc.len hacc.f hl
    rw [← hacc.after_eq] at ht hf
    simp only [tubularMaybePreserveFd, hl]
    exact .same [hacc.f] ht hf
  | true =>
    obtain ⟨l', closed, he, _⟩ := tubularMaybePreserveFd_preserves hu hl hacc.wg hacc.len
      (Fin.ofNat MAX_SOCKETS_IN_GEN hacc.pos) hacc.f env.now
    have hafter := hacc.after_eq
    simp only [acceptSocket, Sys.tick, he] at hafter
    have ht : t.tubular = l' := congrArg Sys.tubular hafter
    rw [he]
    exact .preserved env rfl hacc hl closed (ht ▸ he) (congrArg Sys.fds hafter)

theorem fdStep_register {env : DaemonEnv} {pid gen app : UInt32} {cookie : UInt64}
    {rest : List Msg} (hu : UniqueIds s.tubular) (hnow : s.clock ≤ env.now)
    (hx : s.exited = false) (hr : s.ring = .registerSocket k pid cookie gen app :: rest)
    (hk : s.groups k = some st)
    (hfish : fishable (s.tick env.now) env (.registerSocket k pid cookie gen app) = true)
    (h : handleRegister env { s.tick env.now with ring := rest } k st cookie gen app = .ok t) :
    FdStep s (.handle env) t (registerCalls env s st cookie gen app) := by
  rcases handleRegister_calls h with ⟨hc, ht, hf⟩ | ⟨ss, wg, pos, sockhash, f, hfished, hss, hwg,
    hpos, hsh, he⟩
  · have hc' : registerCalls env s st cookie gen app = ([], []) := hc
    rw [hc']
    exact .same [] ht hf
  · have hscan := cookiesFindEmpty_scan st wg s.sockhash cookie
    have hpos' : (cookiesFindEmpty st wg s.sockhash cookie).freePos = some pos := hpos
    rw [hpos'] at hscan
    exact fdStep_accepted ⟨k, pid, gen, app, wg, cookie, rest, st, ss, sockhash, f, pos, _, hnow,
      hr, hx, hk, hfished, hfish, hss, hwg, hscan.symm, hsh, he⟩ hu

theorem fdStep_msg {env : DaemonEnv} {m : Msg} {rest : List Msg}
    {call : Option (Row × List Int)} (hw : StoreWf s) (hb : Below s.tubular)
    (hnow : s.clock ≤ env.now) (hx : s.exited = false) (hr : s.ring = m :: rest)
    (hfish : fishable (s.tick env.now) env m = true)
    (h : handleMsg env { s.tick env.now with ring := rest } m = .ok (t, call)) :
    FdStep s (.handle env) t (msgCalls env s m) := by
  unfold handleMsg at h
  split at h
  · cases h
    exact .same [] rfl rfl
  · cases h
  · rename_i st k pid cookie gen app hk
    have hk' : s.groups k = some st := hk
    cases hreg : handleRegister env { s.tick env.now with ring := rest } k st cookie gen app with
    | error e => simp [hreg, Except.map] at h
    | ok u =>
      simp only [hreg, Except.map, Except.ok.injEq, Prod.mk.injEq] at h
      obtain ⟨rfl, _⟩ := h
      simp only [msgCalls, hk', Option.elim]
      exact fdStep_register hw.unique hnow hx hr hk hfish hreg
  · rename_i st k app gen hk
    have hk' : s.groups k = some st := hk
    cases h
    simp only [msgCalls, hk', Option.elim]
    exact .shrunk _
      (tubularMaybeRegister_closesLost hw.unique hw.once hb st (genRow gen) _ _) rfl
  · cases h
    exact .same [] rfl rfl
  · cases h
    exact .same [] rfl rfl

theorem fdStep_handle {env : DaemonEnv} (h : execute p s (.handle env) = some t)
    (hw : StoreWf s) (hb : Below s.tubular) :
    FdStep s (.handle env) t (storeCalls s (.handle env)) := by
  simp only [execute] at h
  split_ifs at h with hnow
  unfold handleStep at h
  split at h
  · cases h
  · rename_i m rest hr
    split_ifs at h with hg
    rw [not_or, Bool.not_eq_true, Bool.not_eq_false] at hg
    have hring : s.ring = m :: rest := hr
    simp only [storeCalls, hring]
    dsimp only at h
    split at h
    · rename_i hm
      cases h
      rw [hm]
      exact fdStep_msg hw hb hnow hg.1 hring hg.2 hm
    · rename_i hm
      cases h
      rw [hm]
      exact .reset rfl rfl

theorem fd_step (h : execute p s a = some t) (hw : StoreWf s) (hb : Below s.tubular) :
    FdStep s a t (storeCalls s a) := by
  cases execute_effect h with
  | cleanup => exact .shrunk _ (cleanup_closesLost hw.unique hw.once hb _) rfl
  | ignored | notFound | announced | accepted | crashed => exact fdStep_handle h hw hb
  | socket | delete | close => exact .same [] rfl rfl
  | bind => exact .same [] (bpfBind_store ..).1 (bpfBind_store ..).2
  | @setsockopt c ctx env =>
    obtain ⟨ht, hf⟩ :=
      setsockopt_store (udpgrmSetsockopt_effect p env (s.tick env.flow.later) c ctx)
    exact .same [] ht hf
  | sendmsg => exact .same [] (udpSendmsg_store ..).1 (udpSendmsg_store ..).2
  | packet => exact .same [] (receive_store ..).1 (receive_store ..).2

/-! ### Descriptors and live slots -/

/-- The groups have distinct `random_id`s. -/
def DistinctIds (s : Sys) : Prop :=
  ∀ k k' st st', s.groups k = some st → s.groups k' = some st' → st.randomId = st'.randomId →
    k = k'

/-- Every open descriptor is in the store, below the length of its row, and the slot of the same
position in the table of its group holds the cookie of its socket, which is live. -/
structure Tracked (s : Sys) : Prop where
  wf : StoreWf s
  nodup : (s.fds.map Prod.fst).Nodup
  stored : ∀ q ∈ s.fds, ∃ id r j, Holds s.tubular id r j q.1
  owned : ∀ id r j f c, Holds s.tubular id r j f → (f, c) ∈ s.fds →
    ∃ k st, s.groups k = some st ∧ st.randomId = id ∧ st.cookies r j = c
  live : ∀ q ∈ s.fds, q.2 ∈ s.sockhash
  below : Below s.tubular

theorem tracked_initial : Tracked Sys.initial := by
  refine ⟨storeWf_initial, List.nodup_nil, ?_, ?_, ?_, ?_⟩
  · intro q hq
    cases hq
  · intro id r j f c _ hc
    cases hc
  · intro q hq
    cases hq
  · intro id g hg
    cases hg

/-- In the table of the group, the slot of a held descriptor is live. -/
theorem Tracked.slot_live (h : Tracked s) (hd : DistinctIds s) (hk : s.groups k = some st)
    {r : Row} {j : Slot} (hh : Holds s.tubular st.randomId r j f) :
    st.cookies r j ∈ s.sockhash := by
  obtain ⟨c, hc⟩ := h.wf.isOpen _ r j f hh
  obtain ⟨k', st', hk', hid, hcook⟩ := h.owned _ r j f c hh hc
  obtain rfl := hd k' k st' st hk' hk hid
  rw [hk, Option.some.injEq] at hk'
  rw [hk', hcook]
  exact h.live _ hc

theorem owner_kept {r : Row} {j : Slot} (h : execute p s a = some t) (hd : ∀ k, a ≠ .delete k)
    (hk : s.groups k = some st) (hlive : st.cookies r j ∈ s.sockhash) :
    ∃ st', t.groups k = some st' ∧ st'.randomId = st.randomId ∧
      st'.cookies r j = st.cookies r j := by
  obtain ⟨st', hk', _, hcook⟩ := slot_kept h (hd k) hk hlive
  cases group_change h hk' with
  | kept st₀ hk₀ hstep =>
    rw [hk, Option.some.injEq] at hk₀
    subst hk₀
    exact ⟨st', hk', hstep.randomId_eq, hcook⟩
  | born _ _ _ _ _ hnone _ => simp [hk] at hnone

theorem Accepted.mem_sockhash_of_alive {env : DaemonEnv} {c : UInt64} (h : Accepted s env t)
    (hc : c ∈ s.sockhash ∨ c = h.cookie) (ha : t.alive c = true) : c ∈ t.sockhash := by
  have hmem : c ∈ h.sockhash := (mem_sockhashUpdate h.sockhash_eq).mpr hc
  rw [h.after_eq, acceptSocket, Sys.alive_iff, setStorage_isOpen] at ha
  rw [h.after_eq, acceptSocket]
  split at ha
  · exact hmem
  · exact Sys.mem_reap.mpr ⟨hmem, Sys.alive_iff.mpr ha⟩

theorem sockhash_kept_of_alive {c : UInt64} (h : execute p s a = some t) (hc : c ∈ s.sockhash)
    (ha : t.alive c = true) : c ∈ t.sockhash := by
  rcases sockhash_step h with ⟨env, rfl, ⟨hacc⟩⟩ | ⟨_, hkeep⟩
  · exact hacc.mem_sockhash_of_alive (.inl hc) ha
  · exact hkeep c hc ha

/-- A descriptor that stays open and in its slot stays tracked. -/
theorem Tracked.kept (hs : Tracked s) (h : execute p s a = some t) (hd : ∀ k, a ≠ .delete k)
    {id : UInt32} {r : Row} {j : Slot} {c : UInt64} (hh : Holds s.tubular id r j f)
    (hc : (f, c) ∈ s.fds) :
    ∃ k st, t.groups k = some st ∧ st.randomId = id ∧ st.cookies r j = c := by
  obtain ⟨k, st, hk, rfl, rfl⟩ := hs.owned id r j f c hh hc
  obtain ⟨st', hk', hid, hcook⟩ := owner_kept h hd hk (hs.live _ hc)
  exact ⟨k, st', hk', hid, hcook⟩

theorem Tracked.live_kept (hs : Tracked s) (h : execute p s a = some t) {q : ℕ × UInt64}
    (hq : q ∈ s.fds) (hq' : q ∈ t.fds) : q.2 ∈ t.sockhash :=
  sockhash_kept_of_alive h (hs.live q hq) (Sys.alive_iff.mpr (.inr ⟨q, hq', rfl⟩))

theorem tracked_shrunk {closed : List ℕ} (hs : Tracked s) (h : execute p s a = some t)
    (hd : ∀ k, a ≠ .delete k) (ht : ClosesLost s.tubular t.tubular closed)
    (hf : t.fds = fdsWithout s.fds closed) : Tracked t := by
  have hsub : ∀ q ∈ t.fds, q ∈ s.fds ∧ q.1 ∉ closed := by
    intro q hq
    rw [hf] at hq
    exact mem_fdsWithout.mp hq
  refine ⟨storeWf_step h hs.wf, ?_, ?_, ?_, ?_, ht.below⟩
  · rw [hf]
    exact hs.nodup.sublist (List.filter_sublist.map _)
  · intro q hq
    obtain ⟨id, r, j, hh⟩ := hs.stored q (hsub q hq).1
    exact ⟨id, r, j, (ht.lost id r j q.1 hh).resolve_right (hsub q hq).2⟩
  · intro id r j f c hh hc
    exact hs.kept h hd (ht.shrinks.kept id r j f hh) (hsub _ hc).1
  · intro q hq
    exact hs.live_kept h (hsub q hq).1 hq

/-- The slot found for a registration holds no descriptor, and those of its row lie below the
new length. -/
theorem Tracked.slot_free {env : DaemonEnv} (hs : Tracked s) (hid : DistinctIds s)
    (hacc : Accepted s env t) :
    (∀ f, ¬ Holds s.tubular hacc.st.randomId (genRow hacc.wg)
      (Fin.ofNat MAX_SOCKETS_IN_GEN hacc.pos) f) ∧
    (Fin.ofNat MAX_SOCKETS_IN_GEN hacc.pos).val < hacc.len ∧
    ∀ j f, Holds s.tubular hacc.st.randomId (genRow hacc.wg) j f → j.val < hacc.len := by
  have hfree := congrArg Prod.fst hacc.scan_eq
  have hlen := congrArg Prod.snd hacc.scan_eq
  refine ⟨fun f hh => ?_, ?_, fun j f hh => ?_⟩
  · have hdead := hacc.slot_dead
    rw [idxSlot_ofNat] at hdead
    exact hdead (hs.slot_live hid hacc.group_eq hh)
  · have hlt := SlotScan.free_lt_len hfree
    rw [hlen] at hlt
    exact (Nat.mod_le _ _).trans_lt hlt
  · have hlive : rowLive hacc.st (genRow hacc.wg) s.sockhash j = true := by
      simpa [rowLive, rowCookies] using hs.slot_live hid hacc.group_eq hh
    have hlt := SlotScan.live_lt_len j.isLt hlive
    rwa [hlen] at hlt

theorem tracked_preserved {env : DaemonEnv} {closed : List ℕ} (hs : Tracked s)
    (hid : DistinctIds s) (h : execute p s (.handle env) = some t) (hacc : Accepted s env t)
    (hl : hacc.st.dis.labelled = true)
    (ht : tubularMaybePreserveFd s.tubular hacc.st hacc.wg hacc.len
      (Fin.ofNat MAX_SOCKETS_IN_GEN hacc.pos) hacc.f env.now = some (t.tubular, closed))
    (hf : t.fds = fdsWithout ((hacc.f, hacc.cookie) :: s.fds) closed) :
    Tracked t ∧ closed = [] := by
  obtain ⟨hpos, hnew⟩ := hacc.fd_new
  obtain ⟨hfree, hlt, hlen⟩ := hs.slot_free hid hacc
  obtain ⟨l', he, hbelow, hin, hkeep⟩ := tubularMaybePreserveFd_free hs.wf.unique hs.below hl
    env.now hpos hfree hlt hlen
  obtain ⟨l'', closed', he', hpres⟩ := tubularMaybePreserveFd_preserves hs.wf.unique hl hacc.wg
    hacc.len (Fin.ofNat MAX_SOCKETS_IN_GEN hacc.pos) hacc.f env.now
  rw [ht] at he he'
  cases he
  cases he'
  have hfds : t.fds = (hacc.f, hacc.cookie) :: s.fds := by simpa [fdsWithout] using hf
  refine ⟨⟨storeWf_step h hs.wf, ?_, ?_, ?_, ?_, hbelow⟩, rfl⟩
  · rw [hfds, List.map_cons, List.nodup_cons]
    refine ⟨fun hmem => ?_, hs.nodup⟩
    obtain ⟨q, hq, he⟩ := List.mem_map.mp hmem
    exact hnew q hq he
  · intro q hq
    rw [hfds] at hq
    rcases List.mem_cons.mp hq with rfl | hq
    · exact ⟨_, _, _, hin⟩
    · obtain ⟨id, r, j, hh⟩ := hs.stored q hq
      exact ⟨id, r, j, hkeep id r j q.1 hh⟩
  · intro id r j f c hh hc
    rw [hfds] at hc
    rcases hpres.held id r j f hh with ⟨rfl, rfl, rfl, rfl⟩ | ⟨hold, _⟩
    · have hc' : c = hacc.cookie := by
        rcases List.mem_cons.mp hc with hc | hc
        · exact (Prod.mk.inj hc).2
        · exact absurd rfl (hnew _ hc)
      have hk : t.groups hacc.k = some (hacc.st.setCookie hacc.wg (UInt32.ofNat hacc.pos)
          (UInt32.ofNat hacc.len) hacc.cookie) := by
        rw [hacc.groups, Function.update_self]
      refine ⟨hacc.k, _, hk, rfl, ?_⟩
      rw [hc', ← idxSlot_ofNat, setCookie_cookies_self]
    · obtain ⟨c', hc'⟩ := hs.wf.isOpen id r j f hold
      rcases List.mem_cons.mp hc with hc | hc
      · exact absurd (Prod.mk.inj hc).1 (hnew _ hc')
      · exact hs.kept h (by simp) hold hc
  · intro q hq
    have hq' := hq
    rw [hfds] at hq'
    rcases List.mem_cons.mp hq' with rfl | hq'
    · exact hacc.mem_sockhash (.inr rfl) hacc.isOpen
    · exact hs.live_kept h hq' hq

theorem tracked_step (h : execute p s a = some t) (hid : DistinctIds s)
    (hd : ∀ k, a ≠ .delete k) (hs : Tracked s) : Tracked t := by
  have hwf := storeWf_step h hs.wf
  have hstep := fd_step h hs.wf hs.below
  generalize storeCalls s a = calls at hstep
  cases hstep with
  | same fs ht hf =>
    refine ⟨hwf, hf ▸ hs.nodup, ht ▸ hf ▸ hs.stored, ?_, ?_, ht ▸ hs.below⟩
    · intro id r j f c hh hc
      rw [ht] at hh
      rw [hf] at hc
      exact hs.kept h hd hh hc
    · intro q hq
      exact hs.live_kept h (hf ▸ hq) hq
  | reset ht hf =>
    refine ⟨hwf, by simp [hf], by simp [hf], by simp [hf], by simp [hf], ?_⟩
    intro id g hg
    rw [ht] at hg
    cases hg
  | shrunk closed ht hf => exact tracked_shrunk hs h hd ht hf
  | preserved env ha hacc hl closed ht hf =>
    subst ha
    exact (tracked_preserved hs hid h hacc hl ht hf).1

/-! ### The books -/

/-- How many of the open descriptors are `f`. -/
def Sys.openCount (s : Sys) (f : ℕ) : ℕ := (s.fds.map Prod.fst).count f

theorem count_fdsWithout {fds : List (ℕ × UInt64)} {closed : List ℕ}
    (hn : (fds.map Prod.fst).Nodup) (hc : closed.Nodup)
    (hsub : ∀ f ∈ closed, f ∈ fds.map Prod.fst) (f : ℕ) :
    (fds.map Prod.fst).count f =
      closed.count f + ((fdsWithout fds closed).map Prod.fst).count f := by
  have hmap : (fdsWithout fds closed).map Prod.fst =
      (fds.map Prod.fst).filter fun f => decide (f ∉ closed) := by
    rw [List.filter_map]
    rfl
  rw [hmap]
  by_cases hf : f ∈ closed
  · rw [List.count_eq_one_of_mem hn (hsub f hf), List.count_eq_one_of_mem hc hf,
      List.count_eq_zero_of_not_mem (by simp [hf])]
  · rw [List.count_eq_zero_of_not_mem hf, List.count_filter (by simpa using hf), Nat.zero_add]

/-- A step opens what it hands to the store and closes what it closes. -/
theorem openCount_step (h : execute p s a = some t) (hid : DistinctIds s) (hs : Tracked s)
    (f : ℕ) :
    (storeCalls s a).1.count f + s.openCount f = (storeCalls s a).2.count f + t.openCount f := by
  have hstep := fd_step h hs.wf hs.below
  generalize storeCalls s a = calls at hstep
  cases hstep with
  | same fs ht hf => simp only [Sys.openCount, hf]
  | reset ht hf => simp [Sys.openCount, hf]
  | shrunk closed ht hf =>
    have hsub : ∀ f ∈ closed, f ∈ s.fds.map Prod.fst := by
      intro f hf
      obtain ⟨id, r, j, hh, _⟩ := ht.shrinks.closed f hf
      obtain ⟨c, hc⟩ := hs.wf.isOpen id r j f hh
      exact List.mem_map.mpr ⟨_, hc, rfl⟩
    have hcount := count_fdsWithout hs.nodup ht.nodup hsub f
    simp only [Sys.openCount, hf, List.count_nil]
    omega
  | preserved env ha hacc hl closed ht hf =>
    subst ha
    obtain ⟨_, rfl⟩ := tracked_preserved hs hid h hacc hl ht hf
    have hfds : t.fds = (hacc.f, hacc.cookie) :: s.fds := by simpa [fdsWithout] using hf
    simp only [Sys.openCount, hfds, List.map_cons, List.count_cons, List.count_nil]
    omega

/-- The descriptors handed to `tubular_maybe_preserve_fd` in a run, and those closed. -/
def books (p : Programs) : Sys → List Action → List ℕ × List ℕ
  | _, [] => ([], [])
  | s, a :: as =>
    match execute p s a with
    | none => ([], [])
    | some t =>
      ((storeCalls s a).1 ++ (books p t as).1, (storeCalls s a).2 ++ (books p t as).2)

/-- The groups have distinct identifiers and none is deleted. -/
def distinctGroups (s : Sys) (a : Action) : Prop := DistinctIds s ∧ ∀ k, a ≠ .delete k

theorem books_run {as : List Action}
    (h : Transition.Run ((system p).restrict distinctGroups) s as t) (hs : Tracked s) :
    Tracked t ∧ ∀ f, (books p s as).1.count f + s.openCount f =
      (books p s as).2.count f + t.openCount f := by
  induction h with
  | refl => exact ⟨hs, fun f => rfl⟩
  | stepL htr _ ih =>
    obtain ⟨⟨hid, hd⟩, hstep⟩ := htr
    have hexec : execute p _ _ = some _ := hstep
    obtain ⟨ht, hrest⟩ := ih (tracked_step hexec hid hd hs)
    refine ⟨ht, fun f => ?_⟩
    have hone := openCount_step hexec hid hs f
    have hmore := hrest f
    simp only [books, hexec, List.count_append]
    omega

/-- A group that a step frees leaves no descriptor open. -/
theorem Tracked.freed (hs : Tracked s) (h : execute p s a = some t) (hid : DistinctIds s)
    {id : UInt32} {g : ReuseportGroup} (hg : reuseportGroupLookup s.tubular id = some g)
    (hfreed : reuseportGroupLookup t.tubular id = none) {r : Row} {j : Slot}
    (hf : g.sockets r j = (f : Int)) (hpos : 0 < f) : f ∉ t.fds.map Prod.fst := by
  have hh : Holds s.tubular id r j f := ⟨g, hg, hpos, hf⟩
  have hgone : ¬ Holds t.tubular id r j f := by
    rintro ⟨g', hg', _⟩
    simp [hfreed] at hg'
  have hstep := fd_step h hs.wf hs.below
  generalize storeCalls s a = calls at hstep
  cases hstep with
  | same fs ht _ => exact absurd (ht ▸ hh) hgone
  | reset _ hfds => simp [hfds]
  | shrunk closed ht hfds =>
    have hclosed : f ∈ closed := (ht.lost id r j f hh).resolve_left hgone
    intro hmem
    obtain ⟨q, hq, rfl⟩ := List.mem_map.mp hmem
    rw [hfds] at hq
    exact (mem_fdsWithout.mp hq).2 hclosed
  | preserved env ha hacc hl closed ht hfds =>
    obtain ⟨hp, _⟩ := hacc.fd_new
    obtain ⟨hfree, hlt, hlen⟩ := hs.slot_free hid hacc
    obtain ⟨l', he, _, _, hkeep⟩ := tubularMaybePreserveFd_free hs.wf.unique hs.below hl
      env.now hp hfree hlt hlen
    rw [ht] at he
    cases he
    exact absurd (hkeep id r j f hh) hgone

/-- A clean-up at a time when every group is stale closes every descriptor. -/
theorem Tracked.cleaned (hs : Tracked s) {now : UInt64}
    (h : execute p s (.cleanup now) = some t) (hstale : ∀ g ∈ s.tubular, stale now g = true) :
    t.fds = [] := by
  have hclean : t.fds = fdsWithout s.fds (reuseportGroupsMaybeCleanupStale now s.tubular).2 := by
    cases execute_effect h with
    | cleanup => rfl
  have hclosed := cleanup_closesLost hs.wf.unique hs.wf.once hs.below now
  rw [hclean]
  refine List.eq_nil_iff_forall_not_mem.mpr fun q hq => ?_
  obtain ⟨hq, hopen⟩ := mem_fdsWithout.mp hq
  obtain ⟨id, r, j, hh⟩ := hs.stored q hq
  rcases hclosed.lost id r j q.1 hh with ⟨g, hg, _⟩ | hc
  · obtain ⟨hg, hfresh⟩ := (cleanup_lookup hs.wf.unique now id g).mp hg
    simp [hstale g (KeyedList.find_mem hg)] at hfresh
  · exact hopen hc

/-- While groups have distinct identifiers, each descriptor handed to the store is closed once
or still open, the open ones sit below the length of their row, a group is freed only with no
descriptor open, and a clean-up of stale groups leaves none. -/
theorem descriptors_closed_once {as : List Action}
    (h : Transition.Run ((system p).restrict distinctGroups) Sys.initial as t) :
    (∀ f, (books p .initial as).1.count f = (books p .initial as).2.count f + t.openCount f) ∧
    (∀ f, t.openCount f ≤ 1) ∧
    (∀ q ∈ t.fds, ∃ id g r, ∃ j : Slot, reuseportGroupLookup t.tubular id = some g ∧
      g.sockets r j = (q.1 : Int) ∧ j.val < g.maxIdx r) ∧
    (∀ a u, distinctGroups t a → execute p t a = some u → ∀ id g,
      reuseportGroupLookup t.tubular id = some g → reuseportGroupLookup u.tubular id = none →
      ∀ r j (f : ℕ), 0 < f → g.sockets r j = (f : Int) → u.openCount f = 0) ∧
    ∀ now u, execute p t (.cleanup now) = some u → (∀ g ∈ t.tubular, stale now g = true) →
      u.fds = [] := by
  obtain ⟨hs, hbooks⟩ := books_run h tracked_initial
  refine ⟨fun f => ?_, fun f => List.nodup_iff_count_le_one.mp hs.nodup f, ?_, ?_, ?_⟩
  · simpa [Sys.openCount, Sys.initial] using hbooks f
  · intro q hq
    obtain ⟨id, r, j, g, hg, hpos, hf⟩ := hs.stored q hq
    exact ⟨id, g, r, j, hg, hf, hs.below id g hg r j (by omega)⟩
  · intro a u hc hstep id g hg hfreed r j f hpos hf
    exact List.count_eq_zero_of_not_mem (hs.freed hstep hc.1 hg hfreed hf hpos)
  · intro now u hstep hstale
    exact hs.cleaned hstep hstale

/-! ### Runs with one group -/

/-- Only sockets of group `k` call, and it is not deleted. -/
def callsOn (k : Key) (s : Sys) : Action → Bool
  | .setsockopt c _ _ => (s.socks c).all fun sock => decide (sock.key = k)
  | .delete _ => false
  | _ => true

/-- One group has distinct identifiers. -/
theorem distinctGroups_of_callsOn {as : List Action}
    (h : Transition.Run ((system p).restrict fun s a => callsOn k s a = true) s as t)
    (hs : ∀ k', (s.groups k').isSome → k' = k) :
    Transition.Run ((system p).restrict distinctGroups) s as t := by
  induction h with
  | refl => exact .refl
  | @stepL s u t a as htr _ ih =>
    obtain ⟨hc, hstep⟩ := htr
    have hexec : execute p s a = some u := hstep
    refine .stepL ⟨⟨?_, ?_⟩, hstep⟩ (ih ?_)
    · intro k₁ k₂ st₁ st₂ h₁ h₂ _
      rw [hs k₁ (by simp [h₁]), hs k₂ (by simp [h₂])]
    · rintro k' rfl
      cases hc
    · intro k' hk'
      obtain ⟨st, hst⟩ := Option.isSome_iff_exists.mp hk'
      cases group_change hexec hst with
      | kept st₀ hk₀ _ => exact hs k' (by simp [hk₀])
      | born c ctx env ha hkey =>
        subst ha
        obtain ⟨sock, hsock, rfl⟩ := Option.map_eq_some_iff.mp hkey
        simpa [callsOn, hsock] using hc

/-- Descriptor 10 is preserved and handed over, then 11 is preserved in the same row. -/
def preserveTwice : List Action :=
  handoverRun ++ .daemon 0 :: Action.openBound 2 ++ [.call 2 201 [0, 0, 0, 0], .daemon 11]

theorem descriptors_closed_once_twice : ∃ t,
    Transition.Run ((system .const).restrict distinctGroups) Sys.initial preserveTwice t ∧
      books .const .initial preserveTwice = ([10, 11], [10]) ∧ t.openCount 11 = 1 ∧
      ∃ u, execute .const t (.cleanup 10000000001) = some u ∧ u.fds = [] := by
  obtain ⟨t, ht, hx⟩ := Transition.run_restrict_of_any (execute .const)
    (callsOn (skeyFromBpfSock .loopback)) Sys.initial preserveTwice
    (fun t : Sys => decide (books .const .initial preserveTwice = ([10, 11], [10])) &&
      (execute .const t (.cleanup 10000000001)).isSome &&
      t.tubular.all (stale 10000000001)) (by decide +kernel)
  simp only [Bool.and_eq_true, decide_eq_true_eq, List.all_eq_true] at hx
  obtain ⟨⟨hbooks, hsome⟩, hstale⟩ := hx
  obtain ⟨u, hu⟩ := Option.isSome_iff_exists.mp hsome
  have hrun := distinctGroups_of_callsOn ht (by simp [Sys.initial])
  obtain ⟨hcount, _, _, _, hclean⟩ := descriptors_closed_once hrun
  have h11 := hcount 11
  rw [hbooks] at h11
  exact ⟨t, hrun, hbooks, by simpa using h11.symm, u, hu, hclean _ u hu hstale⟩

end Udpgrm
