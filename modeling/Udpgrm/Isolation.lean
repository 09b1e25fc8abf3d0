import Udpgrm.Handover
import Udpgrm.Registration

/-! The applications of one group, and that they do not get in each other's way. -/
namespace Udpgrm

open LittleEndian

variable {p : Programs} {s t : Sys} {a : Action} {k : Key} {c : UInt64}

/-! ### Live sockets -/

theorem Accepted.alive {env : DaemonEnv} (h : Accepted s env t)
    (hs : ∀ c ∈ s.sockhash, s.alive c = true) : ∀ c ∈ t.sockhash, t.alive c = true := by
  intro c hc
  have hbefore : s.alive c = true := by
    rcases h.sockhash_sub hc with hc | rfl
    · exact hs c hc
    · exact Sys.alive_of_isOpen h.isOpen
  rw [h.after_eq] at hc ⊢
  unfold acceptSocket at hc ⊢
  rw [Sys.alive_iff, setStorage_isOpen]
  split at hc
  · exact Sys.alive_iff.mp hbefore
  · exact Sys.alive_iff.mp (Sys.mem_reap.mp hc).2

/-- Dead sockets are in `sockhash` no longer. -/
theorem alive_step (h : execute p s a = some t) (hs : ∀ c ∈ s.sockhash, s.alive c = true) :
    ∀ c ∈ t.sockhash, t.alive c = true := by
  have hkept : ∀ c, t.fds = s.fds → a ≠ .close c → s.alive c = true → t.alive c = true := by
    intro c hf ha halive
    rw [Sys.alive_iff] at halive ⊢
    rw [hf]
    exact halive.imp_left (isOpen_kept h ha)
  intro c hc
  rcases sockhash_step h with ⟨env, rfl, ⟨hacc⟩⟩ | ⟨hsub, _⟩
  · exact hacc.alive hs c hc
  · cases execute_effect h with
    | announced | crashed | close | cleanup => exact (Sys.mem_reap.mp hc).2
    | ignored | notFound => exact hs c (hsub hc)
    | accepted hacc => exact hacc.alive hs c hc
    | _ => exact hkept c (fds_hook h (by simp) (by simp)) (by simp) (hs c (hsub hc))

/-! ### Sockets of an application -/

/-- No socket without an index asks for generation 0xffffffff, sockets are bound once, and no
group is deleted. -/
def keepsApp (s : Sys) : Action → Bool
  | .setsockopt c ctx _ =>
    match ctx.opt, copyIn ctx.optval, (s.socks c).bind (·.storage) with
    | some .socketGen, some data, some ss => decide (u32 data 0 ≠ UNSET ∨ ss.sockIdx ≠ UNSET)
    | _, _, _ => true
  | .bind c _ => ((s.socks c).bind (·.storage)).isNone
  | .delete _ => false
  | _ => true

/-- Socket `c` of group `k` is one of `app`, and has asked to be registered. -/
def Belongs (s : Sys) (k : Key) (c : UInt64) (app : UInt32) : Prop :=
  ∃ sock ss, s.socks c = some sock ∧ sock.key = k ∧ sock.storage = some ss ∧ ss.sockApp = app ∧
    (ss.sockGen ≠ UNSET ∨ ss.sockIdx ≠ UNSET)

theorem Belongs.unique {app app' : UInt32} (h : Belongs s k c app) (h' : Belongs s k c app') :
    app = app' := by
  obtain ⟨sock, ss, hs, _, hss, rfl, _⟩ := h
  obtain ⟨sock', ss', hs', _, hss', rfl, _⟩ := h'
  cases hs.symm.trans hs'
  cases hss.symm.trans hss'
  rfl

/-- The index of a slot is not the mark for a socket without one. -/
theorem slot_ne_unset {pos : ℕ} (h : pos < MAX_SOCKETS_IN_GEN) : UInt32.ofNat pos ≠ UNSET := by
  intro he
  have hnat := congrArg UInt32.toNat he
  rw [UInt32.toNat_ofNat', Nat.mod_eq_of_lt (lt_trans h (by decide))] at hnat
  simp only [UNSET, UInt32.reduceToNat, MAX_SOCKETS_IN_GEN] at hnat h
  omega

theorem Accepted.pos_ne_unset {env : DaemonEnv} (h : Accepted s env t) :
    UInt32.ofNat h.pos ≠ UNSET :=
  slot_ne_unset (SlotScan.free_spec (congrArg Prod.fst h.scan_eq)).1

theorem belongs_step {app : UInt32} (h : execute p s a = some t) (ha : keepsApp s a = true)
    (hb : Belongs s k c app) : Belongs t k c app := by
  obtain ⟨sock, ss, hs, hk, hss, happ, hset⟩ := hb
  obtain ⟨sock', hs', hstep⟩ := sock_step h hs
  have hk' : sock'.key = k := hstep.key_eq.trans hk
  cases hstep with
  | same => exact ⟨sock, ss, hs', hk, hss, happ, hset⟩
  | closed => exact ⟨_, ss, hs', hk', hss, happ, hset⟩
  | bound ctx hbind =>
    subst hbind
    simp [keepsApp, hs, hss] at ha
  | generation ctx env hcall ho data hd ss' hss' =>
    subst hcall
    cases hss.symm.trans hss'
    refine ⟨_, _, hs', hk', rfl, happ, ?_⟩
    simpa [keepsApp, hs, hss, ho, hd] using ha
  | application _ _ _ ss' hss' hg hi =>
    cases hss.symm.trans hss'
    simp [hg, hi] at hset
  | index env _ hacc _ hss' =>
    cases hss.symm.trans hss'
    exact ⟨_, _, hs', hk', rfl, happ, .inr hacc.pos_ne_unset⟩

/-- Applications of sockets are in range, every registration on its way and every slot in use
belongs to the application of its socket, and only sockets of labelled groups are held by the
daemon. -/
structure AppsOk (s : Sys) : Prop where
  wf : SocksWf s
  alive : ∀ c ∈ s.sockhash, s.alive c = true
  app : ∀ c sock ss, s.socks c = some sock → sock.storage = some ss →
    ss.sockApp = 0 ∨ ss.sockApp < xmaxApps s sock.key
  pending : ∀ k pid cookie gen app, .registerSocket k pid cookie gen app ∈ s.ring →
    Belongs s k cookie app
  slots : ∀ k st row j, s.groups k = some st → st.cookies row j ≠ 0 →
    ∃ app gen, Belongs s k (st.cookies row j) app ∧ row = registeredRow st.dis.maxApps app gen
  fds : ∀ q ∈ s.fds, ∃ sock st, s.socks q.2 = some sock ∧ s.groups sock.key = some st ∧
    st.dis.labelled = true

theorem AppsOk.initial : AppsOk Sys.initial := by
  refine ⟨.initial, ?_, ?_, ?_, ?_, ?_⟩ <;> simp [Sys.initial]

theorem keepsApp_ne_delete (h : keepsApp s a = true) (k : Key) : a ≠ .delete k := by
  rintro rfl
  cases h

theorem appsOk_app (h : execute p s a = some t) (ha : keepsApp s a = true) (hs : AppsOk s) :
    ∀ c sock ss, t.socks c = some sock → sock.storage = some ss →
      ss.sockApp = 0 ∨ ss.sockApp < xmaxApps t sock.key := by
  have hlift : ∀ (k : Key) (app : UInt32), app = 0 ∨ app < xmaxApps s k →
      app = 0 ∨ app < xmaxApps t k := by
    intro k app
    refine Or.imp_right fun hlt => ?_
    cases hk : s.groups k with
    | none => simp [xmaxApps, hk] at hlt
    | some st =>
      obtain ⟨st', hk', hdis⟩ := group_kept h (keepsApp_ne_delete ha k) hk
      rwa [xmaxApps_of_group hk', hdis, ← xmaxApps_of_group hk]
  intro c sock' ss' hc' hss'
  rcases sock_origin h hc' with ⟨sock, hc, hstep⟩ | ⟨_, _, hnone⟩
  · rw [hstep.key_eq]
    apply hlift
    cases hstep with
    | same | closed => exact hs.app c _ ss' hc hss'
    | bound ctx hbind =>
      subst hbind
      cases hss'
      have hnone : sock.storage = none := by simpa [keepsApp, hc] using ha
      simp [Sock.app, hnone]
    | generation _ _ _ _ _ _ ss hss =>
      cases hss'
      exact hs.app c sock ss hc hss
    | application _ _ _ _ _ _ _ app hlt =>
      cases hss'
      exact .inr hlt
    | index _ _ hacc _ hss =>
      cases hss'
      exact hs.app c sock hacc.ss hc hss
  · rw [hnone] at hss'
    cases hss'

theorem appsOk_pending (h : execute p s a = some t) (ha : keepsApp s a = true) (hs : AppsOk s) :
    ∀ k pid cookie gen app, .registerSocket k pid cookie gen app ∈ t.ring →
      Belongs t k cookie app := by
  intro k pid cookie gen app hm
  cases ring_change h with
  | same hr => exact belongs_step h ha (hs.pending k pid cookie gen app (hr ▸ hm))
  | handled _ _ m hr =>
    exact belongs_step h ha (hs.pending k pid cookie gen app (hr ▸ List.mem_cons_of_mem m hm))
  | posted m hp hr =>
    rw [hr, List.mem_append, List.mem_singleton] at hm
    rcases hm with hm | rfl
    · exact belongs_step h ha (hs.pending k pid cookie gen app hm)
    · cases hp with
      | @register c ctx env sock ss data hc hss ho hd =>
        cases execute_effect h
        -- the call that posted the message has stored its generation
        cases setsockopt_genCall p env (s.tick env.flow.later) c ctx ho with
        | failed _ _ hq => simp [Sys.tick] at hr hq; simp [hr] at hq
        | kept _ _ _ _ _ _ _ _ _ _ hq => simp [Sys.tick] at hr hq; simp [hr] at hq
        | posted sock' ss' data' _ hc' hss' hd' hsocks _ =>
          cases hc.symm.trans hc'
          cases hss.symm.trans hss'
          cases hd.symm.trans hd'
          refine ⟨{ sock with storage := some { ss with sockGen := u32 data 0 } }, _, ?_, rfl, rfl,
            rfl, ?_⟩
          · rw [hsocks, setStorage_socks, hs.wf.own_cookie c sock ss hc hss, if_pos rfl, hc']
            rfl
          · simpa [keepsApp, hc, hss, ho, hd] using ha

theorem appsOk_slots (h : execute p s a = some t) (ha : keepsApp s a = true) (hs : AppsOk s) :
    ∀ k st row j, t.groups k = some st → st.cookies row j ≠ 0 →
      ∃ app gen, Belongs t k (st.cookies row j) app ∧
        row = registeredRow st.dis.maxApps app gen := by
  have hold : ∀ k st row j, s.groups k = some st → st.cookies row j ≠ 0 →
      ∃ app gen, Belongs t k (st.cookies row j) app ∧
        row = registeredRow st.dis.maxApps app gen := by
    intro k st row j hk hne
    obtain ⟨app, gen, hb, hrow⟩ := hs.slots k st row j hk hne
    exact ⟨app, gen, belongs_step h ha hb, hrow⟩
  intro k st' row j hk' hne
  rcases quiet_or_accepted h with hq | ⟨env, rfl, ⟨hacc⟩⟩
  · cases hq k st' hk' with
    | kept st hk hstep =>
      rw [hstep.sameTable.cookies] at hne ⊢
      rw [hstep.sameTable.dis]
      exact hold k st row j hk hne
    | born _ _ _ _ _ _ hb => exact absurd (hb.cookies_eq row j) hne
  · rw [hacc.groups] at hk'
    by_cases hkey : k = hacc.k
    · subst hkey
      rw [Function.update_self, Option.some.injEq] at hk'
      subst hk'
      rw [setCookie_cookies] at hne ⊢
      split_ifs at hne ⊢ with hcell
      · have hb := hs.pending hacc.k hacc.pid hacc.cookie hacc.gen hacc.app (by simp [hacc.ring_eq])
        refine ⟨hacc.app, hacc.gen, belongs_step h ha hb, ?_⟩
        rw [hcell.1]
        exact congrArg genRow hacc.toWrkGen_eq.symm
      · exact hold _ hacc.st row j hacc.group_eq hne
    · rw [Function.update_of_ne hkey] at hk'
      exact hold k st' row j hk' hne

theorem appsOk_fds (h : execute p s a = some t) (ha : keepsApp s a = true) (hs : AppsOk s) :
    ∀ q ∈ t.fds, ∃ sock st, t.socks q.2 = some sock ∧ t.groups sock.key = some st ∧
      st.dis.labelled = true := by
  have hlift : ∀ c, (∃ sock st, s.socks c = some sock ∧ s.groups sock.key = some st ∧
      st.dis.labelled = true) →
      ∃ sock st, t.socks c = some sock ∧ t.groups sock.key = some st ∧
        st.dis.labelled = true := by
    rintro c ⟨sock, st, hc, hk, hl⟩
    obtain ⟨sock', hc', hstep⟩ := sock_step h hc
    obtain ⟨st', hk', hdis⟩ := group_kept h (keepsApp_ne_delete ha _) hk
    exact ⟨sock', st', hc', hstep.key_eq ▸ hk', hdis ▸ hl⟩
  intro q hq
  apply hlift
  by_cases hacc : ∃ env, a = .handle env ∧ Nonempty (Accepted s env t)
  · obtain ⟨env, rfl, ⟨hacc⟩⟩ := hacc
    rcases hacc.fds_sub hq with hq | ⟨hcook, hl⟩
    · exact hs.fds q hq
    · obtain ⟨sock, _, hc, hk, _⟩ := hs.pending hacc.k hacc.pid hacc.cookie hacc.gen hacc.app
        (by simp [hacc.ring_eq])
      exact ⟨sock, hacc.st, hcook ▸ hc, hk ▸ hacc.group_eq, hl⟩
  · refine hs.fds q (fds_sub h (fun env he => ⟨fun hx => hacc ⟨env, he, ⟨hx⟩⟩⟩) q hq)

theorem AppsOk.step (h : execute p s a = some t) (ha : keepsApp s a = true) (hs : AppsOk s) :
    AppsOk t where
  wf := hs.wf.step h
  alive := alive_step h hs.alive
  app := appsOk_app h ha hs
  pending := appsOk_pending h ha hs
  slots := appsOk_slots h ha hs
  fds := appsOk_fds h ha hs

theorem appsOk_run {as : List Action}
    (h : Transition.Run ((system p).restrict fun s a => keepsApp s a = true) Sys.initial as s) :
    AppsOk s :=
  h.inv_restrict (fun htr ha hs => AppsOk.step htr ha hs) .initial

/-! ### New flows -/

/-- The application that the first stage selects for a packet without an existing flow. -/
def Dissected.app : Dissected → Option UInt32
  | .haveHash _ | .haveThirdStage => some 0
  | .haveCookie _ appIdx => some appIdx
  | _ => none

/-- Where new flows of an application go that arrive at socket `r`. -/
def Sys.newFlowTarget (s : Sys) (k : Key) (r : UInt64) (app mdHash : UInt32) : Option UInt64 :=
  (s.groups k).bind fun st => (thirdStage (s.selectReuseport r) app mdHash st).1.selected

theorem thirdStage_verdict (select : UInt64 → Int) (app mdHash : UInt32) (st : ReuseportStorage) :
    (thirdStage select app mdHash st).1 = .newFlow
      (if select (newFlowCookie st app mdHash) = 0 then some (newFlowCookie st app mdHash)
        else none) := by
  by_cases h : select (newFlowCookie st app mdHash) = 0
  · simp only [thirdStage, newFlowCookie_count, h, if_true]
  · simp only [thirdStage, newFlowCookie_count, h, if_false]

theorem thirdStage_count (select : UInt64 → Int) (app mdHash : UInt32) (st : ReuseportStorage)
    (f : Metrics → Metrics) :
    (thirdStage select app mdHash (st.count f)).1 = (thirdStage select app mdHash st).1 := by
  rw [thirdStage_verdict, thirdStage_verdict, newFlowCookie_count]

theorem haveHash_newFlow {select : UInt64 → Int} {lru : FlowTable} {now : UInt64}
    {hash mdHash : UInt32} {st : ReuseportStorage} {sel : Option UInt64}
    (h : (haveHash select lru now hash mdHash st).1 = .newFlow sel) :
    (thirdStage select 0 mdHash st).1 = .newFlow sel := by
  unfold haveHash at h
  simp only at h
  split at h
  · simpa only [thirdStage_count] using h
  · split at h
    · split at h
      · cases h
      · split at h <;> simpa only [thirdStage_count] using h
    · simpa only [thirdStage_count] using h

theorem haveCookie_newFlow {select : UInt64 → Int} {cookie : UInt64} {app mdHash : UInt32}
    {st : ReuseportStorage} {sel : Option UInt64}
    (h : (haveCookie select cookie app mdHash st).1 = .newFlow sel) :
    (thirdStage select app mdHash st).1 = .newFlow sel := by
  unfold haveCookie at h
  simp only at h
  split at h
  · cases h
  · split at h
    · simpa only [thirdStage_count] using h
    · split at h <;> simpa only [thirdStage_count] using h

theorem udpgrmReuseportProg_newFlow {select : UInt64 → Int} {lru : FlowTable} {now : UInt64}
    {md : Md} {st : ReuseportStorage} {app : UInt32} {sel : Option UInt64}
    (happ : (firstStage p md st).app = some app)
    (h : (udpgrmReuseportProg p select lru now md st).1 = .newFlow sel) :
    (thirdStage select app md.hash st).1 = .newFlow sel := by
  have hfirst : ∀ f, firstStage p md (st.count f) = firstStage p md st := fun f => rfl
  simp only [udpgrmReuseportProg, hfirst] at h
  cases hd : firstStage p md st with
  | internalStateError | cbpfProgError | skbLoadBytesError =>
    rw [hd] at happ
    cases happ
  | haveThirdStage =>
    rw [hd] at h happ
    cases happ
    simpa only [thirdStage_count] using h
  | haveHash hash =>
    rw [hd] at h happ
    cases happ
    rw [← haveHash_newFlow h, thirdStage_count]
  | haveCookie cookie app' =>
    rw [hd] at h happ
    cases happ
    rw [← haveCookie_newFlow h, thirdStage_count]

theorem Sys.newFlowTarget_eq {st : ReuseportStorage} (hk : s.groups k = some st) (r : UInt64)
    (app mdHash : UInt32) :
    s.newFlowTarget k r app mdHash =
      if s.selectReuseport r (newFlowCookie st app mdHash) = 0 then
        some (newFlowCookie st app mdHash) else none := by
  simp only [Sys.newFlowTarget, hk, Option.bind_some, thirdStage_verdict]
  rfl

/-- Whatever the stages before it, the new-flow stage is the one for the application that the
dissector selected. -/
theorem receive_newFlow {st : ReuseportStorage} {r now : UInt64} {kr : Sock} {md : Md}
    {app : UInt32} {sel : Option UInt64} (hr : s.socks r = some kr)
    (hk : s.groups kr.key = some st) (happ : (firstStage p md st).app = some app)
    (hv : (receive p s r md now).1 = .newFlow sel) :
    sel = s.newFlowTarget kr.key r app md.hash := by
  simp only [receive, hr, hk] at hv
  have hthird := udpgrmReuseportProg_newFlow happ hv
  rw [Sys.newFlowTarget, hk, Option.bind_some, hthird]
  rfl

section Rows

variable {st : ReuseportStorage} {app : UInt32}

theorem AppsOk.app_lt {b : UInt32} (hs : AppsOk s) (hk : s.groups k = some st)
    (hpos : 0 < st.dis.maxApps) (hb : Belongs s k c b) : b.toNat < numApps st.dis.maxApps := by
  obtain ⟨sock, ss, hc, hkey, hss, rfl, _⟩ := hb
  have happ := hs.app c sock ss hc hss
  rw [hkey, xmaxApps_of_group hk] at happ
  rw [UInt32.lt_iff_toNat_lt] at happ hpos
  have hne : st.dis.maxApps ≠ 0 := by
    rintro he
    simp [he] at hpos
  rw [numApps, if_neg hne]
  rcases happ with happ | happ
  · simpa [happ] using hpos
  · exact happ

/-- A row of one application is a row of no other. -/
theorem rows_disjoint {b gen gen' : UInt32} (hs : AppsOk s) (hk : s.groups k = some st)
    (hmax : st.dis.maxApps.toNat ≤ MAX_APPS) (happ : app < st.dis.maxApps) (hb : Belongs s k c b)
    (hrow : registeredRow st.dis.maxApps app gen = registeredRow st.dis.maxApps b gen') :
    app = b := by
  have hlt := UInt32.lt_iff_toNat_lt.mp happ
  have hpos : 0 < st.dis.maxApps := by
    rw [UInt32.lt_iff_toNat_lt, UInt32.toNat_zero]
    omega
  have happ' : app.toNat < numApps st.dis.maxApps := by
    rw [numApps, if_neg (by rintro he; simp [he] at hlt)]
    exact hlt
  have hmax' : st.dis.maxApps.toNat ≤ 32 := le_trans hmax (by decide)
  exact ((genRow_toWrkGen_inj hmax' happ' (hs.app_lt hk hpos hb)).mp hrow).1

/-- A slot of a row of `app` that is in use holds a socket of `app`. -/
theorem AppsOk.row_belongs {gen : UInt32} {j : Slot} (hs : AppsOk s) (hk : s.groups k = some st)
    (hmax : st.dis.maxApps.toNat ≤ MAX_APPS) (happ : app < st.dis.maxApps)
    (hne : st.cookies (registeredRow st.dis.maxApps app gen) j ≠ 0) :
    Belongs s k (st.cookies (registeredRow st.dis.maxApps app gen) j) app := by
  obtain ⟨app', gen', hb, hrow⟩ := hs.slots k st _ j hk hne
  rwa [← rows_disjoint hs hk hmax happ hb hrow] at hb

/-! ### Steps of another application -/

/-- The application of group `k` that a step is about: whose socket calls or is closed, or
whose message is handled. -/
def changedApp (k : Key) (s : Sys) : Action → Option UInt32
  | .setsockopt c _ _ | .close c =>
    match s.socks c with
    | some sock => if sock.key = k then sock.storage.map (·.sockApp) else none
    | none => none
  | .handle _ =>
    match s.ring with
    | .registerSocket k' _ _ _ b :: _ => if k' = k then some b else none
    | .setWorkingGen k' b _ :: _ => if k' = k then some b else none
    | _ => none
  | _ => none

theorem changedApp_sock {b : UInt32} {sock : Sock} (hs : s.socks c = some sock)
    (h : (match s.socks c with
      | some sock => if sock.key = k then sock.storage.map (·.sockApp) else none
      | none => none) = some b) :
    sock.key = k ∧ ∃ ss, sock.storage = some ss ∧ ss.sockApp = b := by
  simp only [hs] at h
  split_ifs at h with hkey
  exact ⟨hkey, Option.map_eq_some_iff.mp h⟩

theorem setsockopt_workingGen {env : OptEnv} {ctx : SockoptCtx} {r : OptRet}
    {st' : ReuseportStorage} {j : Fin MAX_APPS} (h : SetsockoptEffect p env s c ctx r t)
    (hk : s.groups k = some st) (hk' : t.groups k = some st')
    (hj : ∀ sock ss, s.socks c = some sock → sock.storage = some ss →
      j ≠ Fin.ofNat MAX_APPS ss.sockApp.toNat) : st'.workingGen j = st.workingGen j := by
  cases h with
  | untouched =>
    cases hk.symm.trans hk'
    rfl
  | @body sock ss b _ st₀ created data o _ hs hss hb hd ho hn he =>
    by_cases hkey : k = sock.key
    · subst hkey
      cases hb with
      | created hnone => simp [hk] at hnone
      | existing hk₀ =>
        cases hk.symm.trans hk₀
        cases he with
        | stay | socketGen | socketApp =>
          cases hk.symm.trans hk'
          rfl
        | workingGen =>
          cases (Function.update_self ..).symm.trans hk'
          exact Function.update_of_ne (hj sock ss hs hss) ..
        | verbose =>
          cases (Function.update_self ..).symm.trans hk'
          rfl
        | flow =>
          cases (Function.update_self ..).symm.trans hk'
          obtain ⟨m, hm⟩ := flowAssure_sameConfig env.flow st ss _ _
          rw [hm]
        | undo hc | install hc => cases hc
    · have hb' : b.groups k = some st := by
        cases hb with
        | existing => exact hk
        | created => exact (Function.update_of_ne hkey ..).trans hk
      cases he with
      | stay | socketGen | socketApp =>
        cases hb'.symm.trans hk'
        rfl
      | workingGen | verbose | undo | install | flow =>
        cases hb'.symm.trans ((Function.update_of_ne hkey ..).symm.trans hk')
        rfl

theorem workingGen_kept {st' : ReuseportStorage} {b : UInt32} {j : Fin MAX_APPS}
    (h : execute p s a = some t) (hb : changedApp k s a = some b) (hk : s.groups k = some st)
    (hk' : t.groups k = some st')
    (hj : (∃ c ctx env, a = .setsockopt c ctx env) → j ≠ Fin.ofNat MAX_APPS b.toNat) :
    st'.workingGen j = st.workingGen j := by
  have hsame : t.groups = s.groups → st'.workingGen j = st.workingGen j := by
    intro he
    rw [he] at hk'
    cases hk.symm.trans hk'
    rfl
  have hupdate : ∀ k₀ st₀ st₁, t.groups = Function.update s.groups k₀ (some st₁) →
      s.groups k₀ = some st₀ → st₁.workingGen = st₀.workingGen →
      st'.workingGen j = st.workingGen j := by
    intro k₀ st₀ st₁ he hk₀ hw
    rw [he] at hk'
    by_cases hkey : k = k₀
    · subst hkey
      cases hk.symm.trans hk₀
      cases (Function.update_self ..).symm.trans hk'
      rw [hw]
    · rw [Function.update_of_ne hkey] at hk'
      cases hk.symm.trans hk'
      rfl
  cases execute_effect h with
  | socket | bind | sendmsg | packet | cleanup | delete => cases hb
  | close | ignored | crashed => exact hsame rfl
  | notFound _ _ _ _ hk₀ => exact hupdate _ _ _ rfl hk₀ rfl
  | announced _ _ _ _ hk₀ =>
    refine hupdate _ _ _ rfl hk₀ ?_
    split <;> rfl
  | accepted hacc => exact hupdate _ _ _ hacc.groups hacc.group_eq rfl
  | @setsockopt c ctx env =>
    refine setsockopt_workingGen (udpgrmSetsockopt_effect p env (s.tick env.flow.later) c ctx) hk
      hk' ?_
    intro sock ss hs hss
    obtain ⟨_, ss', hss', rfl⟩ := changedApp_sock hs hb
    cases hss.symm.trans hss'
    exact hj ⟨c, ctx, env, rfl⟩

theorem changedApp_accepted {env : DaemonEnv} {b : UInt32} (hacc : Accepted s env t)
    (h : changedApp k s (.handle env) = some b) : hacc.k = k ∧ hacc.app = b := by
  simp only [changedApp, hacc.ring_eq] at h
  split_ifs at h with hkey
  exact ⟨hkey, Option.some.inj h⟩

/-- The rows of an application stay as they are in a step of another one. -/
theorem rows_kept {b : UInt32} (h : execute p s a = some t) (ha : keepsApp s a = true)
    (hs : AppsOk s) (hk : s.groups k = some st) (hmax : st.dis.maxApps.toNat ≤ MAX_APPS)
    (happ : app < st.dis.maxApps) (hb : changedApp k s a = some b) (hne : b ≠ app) :
    ∃ st', t.groups k = some st' ∧ st'.dis = st.dis ∧ ∀ gen,
      let row := registeredRow st.dis.maxApps app gen
      st'.cookies row = st.cookies row ∧ st'.maxIdx row = st.maxIdx row := by
  obtain ⟨st', hk', hdis⟩ := group_kept h (keepsApp_ne_delete ha k) hk
  refine ⟨st', hk', hdis, ?_⟩
  rcases quiet_or_accepted h with hq | ⟨env, rfl, ⟨hacc⟩⟩
  · cases hq k st' hk' with
    | kept st₀ hk₀ hstep =>
      cases hk.symm.trans hk₀
      intro gen
      rw [hstep.sameTable.cookies, hstep.sameTable.maxIdx]
      exact ⟨rfl, rfl⟩
    | born _ _ _ _ _ hnone _ => simp [hk] at hnone
  · obtain ⟨rfl, rfl⟩ := changedApp_accepted hacc hb
    cases hk.symm.trans hacc.group_eq
    rw [hacc.groups, Function.update_self, Option.some.injEq] at hk'
    subst hk'
    intro gen
    have hpend := hs.pending hacc.k hacc.pid hacc.cookie hacc.gen hacc.app (by simp [hacc.ring_eq])
    have hrow : registeredRow hacc.st.dis.maxApps app gen ≠ genRow hacc.wg := by
      intro he
      rw [← hacc.toWrkGen_eq] at he
      exact hne (rows_disjoint hs hacc.group_eq hmax happ hpend he).symm
    exact ⟨setCookie_cookies_row _ _ _ _ _ hrow, setCookie_maxIdx_row _ _ _ _ _ hrow⟩

/-- A socket is missing before and after, or there with the same address and namespace. -/
def SameIdentity (s t : Sys) (c : UInt64) : Prop :=
  (s.socks c = none ∧ t.socks c = none) ∨ ∃ sock sock', s.socks c = some sock ∧
    t.socks c = some sock' ∧ sock'.sk = sock.sk ∧ sock'.netnsCookie = sock.netnsCookie

theorem sameIdentity_step (h : execute p s a = some t)
    (ha : ∀ sk netnsCookie, a ≠ .socket c sk netnsCookie) : SameIdentity s t c := by
  cases hs : s.socks c with
  | none =>
    left
    refine ⟨hs, ?_⟩
    cases ht : t.socks c with
    | none => rfl
    | some sock =>
      obtain ⟨sk, netnsCookie, he, _⟩ := sock_new h hs ht
      exact absurd he (ha sk netnsCookie)
  | some sock =>
    obtain ⟨sock', ht, hstep⟩ := sock_step h hs
    exact .inr ⟨sock, sock', hs, ht, hstep.identity⟩

theorem selectReuseport_kept {r : UInt64} (hmem : c ∈ t.sockhash ↔ c ∈ s.sockhash)
    (hr : SameIdentity s t r) (hc : SameIdentity s t c) :
    t.selectReuseport r c = s.selectReuseport r c := by
  rcases hr with ⟨hr, hr'⟩ | ⟨kr, kr', hr, hr', hrsk, hrns⟩ <;>
    rcases hc with ⟨hc, hc'⟩ | ⟨kc, kc', hc, hc', hcsk, hcns⟩ <;>
    simp [Sys.selectReuseport, Sock.key, *]

theorem selectReuseport_missing {r : UInt64} (h : s.socks c = none) :
    s.selectReuseport r c = -2 := by
  unfold Sys.selectReuseport
  rw [h]
  split
  · split
    · simp_all
    · rfl
  · rfl

/-- All live sockets of the application are held open by the application itself, which is
always so in a group without a label. -/
def HeldOpen (s : Sys) (k : Key) (st : ReuseportStorage) (app : UInt32) : Prop :=
  st.dis.labelled = false ∨ ∀ c ∈ s.sockhash, Belongs s k c app → s.isOpen c = true

theorem HeldOpen.isOpen (h : HeldOpen s k st app) (hs : AppsOk s) (hk : s.groups k = some st)
    (hb : Belongs s k c app) (hc : c ∈ s.sockhash) : s.isOpen c = true := by
  rcases h with hl | ho
  · rcases Sys.alive_iff.mp (hs.alive c hc) with ho | ⟨q, hq, rfl⟩
    · exact ho
    · obtain ⟨sock, st₀, hsock, hk₀, hl₀⟩ := hs.fds q hq
      obtain ⟨sock', _, hsock', hkey, _⟩ := hb
      cases hsock.symm.trans hsock'
      rw [hkey] at hk₀
      cases hk.symm.trans hk₀
      simp [hl] at hl₀
  · exact ho c hc hb

theorem live_kept {b : UInt32} (h : execute p s a = some t) (hs : AppsOk s)
    (hk : s.groups k = some st) (ho : HeldOpen s k st app) (hb : changedApp k s a = some b)
    (hne : b ≠ app) (hc : Belongs s k c app) : c ∈ t.sockhash ↔ c ∈ s.sockhash := by
  rcases sockhash_step h with ⟨env, rfl, ⟨hacc⟩⟩ | ⟨hsub, hkept⟩
  · obtain ⟨rfl, rfl⟩ := changedApp_accepted hacc hb
    have hpend := hs.pending hacc.k hacc.pid hacc.cookie hacc.gen hacc.app (by simp [hacc.ring_eq])
    constructor
    · intro hmem
      rcases hacc.sockhash_sub hmem with hmem | rfl
      · exact hmem
      · exact absurd (hpend.unique hc) hne
    · intro hmem
      exact hacc.mem_sockhash (.inl hmem) (ho.isOpen hs hk hc hmem)
  · refine ⟨fun hmem => hsub hmem, fun hmem => hkept c hmem (Sys.alive_of_isOpen ?_)⟩
    refine isOpen_kept h ?_ (ho.isOpen hs hk hc hmem)
    rintro rfl
    obtain ⟨sock, ss, hsock, _, hss, rfl, _⟩ := hc
    obtain ⟨_, ss', hss', rfl⟩ := changedApp_sock hsock hb
    cases hss.symm.trans hss'
    exact hne rfl

theorem changedApp_not_socket {b : UInt32} (hb : changedApp k s a = some b) (c : UInt64)
    (sk : BpfSock) (netnsCookie : UInt64) : a ≠ .socket c sk netnsCookie := by
  rintro rfl
  cases hb

/-- The application of a socket that calls has its own working generation. -/
theorem workingGen_distinct {b : UInt32} (hs : AppsOk s) (hk : s.groups k = some st)
    (hmax : st.dis.maxApps.toNat ≤ MAX_APPS) (happ : app < st.dis.maxApps)
    (hb : changedApp k s a = some b) (hne : b ≠ app)
    (ha : ∃ c ctx env, a = .setsockopt c ctx env) :
    Fin.ofNat MAX_APPS app.toNat ≠ Fin.ofNat MAX_APPS b.toNat := by
  obtain ⟨c, ctx, env, rfl⟩ := ha
  have hlt := UInt32.lt_iff_toNat_lt.mp happ
  have hlt' : b.toNat < st.dis.maxApps.toNat := by
    cases hsock : s.socks c with
    | none => simp [changedApp, hsock] at hb
    | some sock =>
      obtain ⟨hkey, ss, hss, rfl⟩ := changedApp_sock hsock hb
      have hrange := hs.app c sock ss hsock hss
      rw [hkey, xmaxApps_of_group hk, UInt32.lt_iff_toNat_lt] at hrange
      rcases hrange with hzero | hrange
      · rw [hzero, UInt32.toNat_zero]
        omega
      · exact hrange
  intro he
  have hval := congrArg Fin.val he
  rw [Fin.val_ofNat, Fin.val_ofNat, Nat.mod_eq_of_lt (by omega),
    Nat.mod_eq_of_lt (by omega)] at hval
  exact hne (UInt32.toNat_inj.mp hval.symm)

/-- New flows of an application go where they went before a step of another one. -/
theorem newFlowTarget_kept {b : UInt32} (h : execute p s a = some t) (ha : keepsApp s a = true)
    (hs : AppsOk s) (hk : s.groups k = some st) (hmax : st.dis.maxApps.toNat ≤ MAX_APPS)
    (happ : app < st.dis.maxApps) (ho : HeldOpen s k st app) (hb : changedApp k s a = some b)
    (hne : b ≠ app) (r : UInt64) (mdHash : UInt32) :
    t.newFlowTarget k r app mdHash = s.newFlowTarget k r app mdHash := by
  obtain ⟨st', hk', hdis, hrows⟩ := rows_kept h ha hs hk hmax happ hb hne
  have hcookie : newFlowCookie st' app mdHash = newFlowCookie st app mdHash := by
    have hgen := workingGen_kept h hb hk hk' (workingGen_distinct hs hk hmax happ hb hne)
    obtain ⟨hcook, hidx⟩ := hrows (st.workingGen (Fin.ofNat MAX_APPS app.toNat))
    simp only [registeredRow] at hcook hidx
    simp only [newFlowCookie, hdis, hgen, hcook, hidx]
  have hsel : t.selectReuseport r (newFlowCookie st app mdHash) =
      s.selectReuseport r (newFlowCookie st app mdHash) := by
    have hid : ∀ c, SameIdentity s t c := fun c => sameIdentity_step h (changedApp_not_socket hb c)
    by_cases hz : newFlowCookie st app mdHash = 0
    · have hmissing : ∀ {u : Sys}, SocksWf u → u.socks 0 = none := by
        intro u hw
        by_contra hsome
        obtain ⟨sock, hsock⟩ := Option.ne_none_iff_exists'.mp hsome
        exact hw.ne_zero 0 sock hsock rfl
      rw [hz, selectReuseport_missing (hmissing hs.wf),
        selectReuseport_missing (hmissing (hs.wf.step h))]
    · have hbelongs : Belongs s k (newFlowCookie st app mdHash) app :=
        hs.row_belongs hk hmax happ hz
      exact selectReuseport_kept (live_kept h hs hk ho hb hne hbelongs) (hid r) (hid _)
  rw [Sys.newFlowTarget_eq hk, Sys.newFlowTarget_eq hk', hcookie, hsel]

theorem selectReuseport_zero {r : UInt64} {kr : Sock} (hr : s.socks r = some kr)
    (h : s.selectReuseport r c = 0) : c ∈ s.sockhash ∧ ∃ sock, s.socks c = some sock ∧
      sock.key = kr.key ∧ sock.netnsCookie = kr.netnsCookie := by
  unfold Sys.selectReuseport at h
  split_ifs at h with hmem
  · refine ⟨hmem, ?_⟩
    cases hc : s.socks c with
    | none => simp [hr, hc] at h
    | some sock =>
      simp only [hr, hc] at h
      split_ifs at h with hkey
      · exact ⟨sock, rfl, hkey.1.symm, hkey.2.symm⟩
      · cases h
      · cases h

end Rows

/-- In every state of a group with at most `MAX_APPS` applications: a new flow for which the
dissector selects an application goes to a live socket of that application in the same group,
if it goes anywhere, and no step of another application changes where. -/
theorem applications_isolated {as : List Action} {st : ReuseportStorage} {app : UInt32}
    (hrun : Transition.Run ((system p).restrict fun s a => keepsApp s a = true) Sys.initial as s)
    (hk : s.groups k = some st) (hmax : st.dis.maxApps.toNat ≤ MAX_APPS)
    (happ : app < st.dis.maxApps) :
    (∀ r kr md now c, s.socks r = some kr → kr.key = k →
      (firstStage p md st).app = some app →
      (receive p (s.tick now) r md now).1 = .newFlow (some c) →
      c ∈ s.sockhash ∧ s.alive c = true ∧ ∃ sock ss, s.socks c = some sock ∧ sock.key = k ∧
        sock.netnsCookie = kr.netnsCookie ∧ sock.storage = some ss ∧ ss.sockApp = app) ∧
    ∀ a t b, execute p s a = some t → keepsApp s a = true → changedApp k s a = some b →
      b ≠ app → HeldOpen s k st app →
      ∀ r mdHash, t.newFlowTarget k r app mdHash = s.newFlowTarget k r app mdHash := by
  have hs := appsOk_run hrun
  refine ⟨fun r kr md now c hr hkey hd hv => ?_, fun a t b h ha hb hne ho r mdHash =>
    newFlowTarget_kept h ha hs hk hmax happ ho hb hne r mdHash⟩
  subst hkey
  have htarget : some c = s.newFlowTarget kr.key r app md.hash :=
    receive_newFlow (s := s.tick now) hr hk hd hv
  rw [Sys.newFlowTarget_eq hk] at htarget
  split_ifs at htarget with hsel
  cases htarget
  obtain ⟨hmem, sock, hsock, hkey, hnetns⟩ := selectReuseport_zero hr hsel
  have hb : Belongs s kr.key (newFlowCookie st app md.hash) app :=
    hs.row_belongs hk hmax happ (hs.wf.ne_zero _ sock hsock)
  obtain ⟨sock', ss, hsock', _, hss, happ', _⟩ := hb
  cases hsock.symm.trans hsock'
  exact ⟨hmem, hs.alive _ hmem, sock, ss, hsock, hkey, hnetns, hss, happ'⟩

/-! ### Two applications -/

/-- The BESPOKE program selects application zero for every packet. -/
def Programs.selectsZero : Programs :=
  ⟨fun _ _ => (.ok, 0), fun _ _ _ => (.ok, 0x80000000), fun _ => 0⟩

/-- Sockets 1 and 2 of a group with two applications and a BESPOKE dissector. -/
def twoSockets (label : UInt8) : List Action :=
  Action.openBound 1 ++ Action.openBound 2 ++
    [.call 1 202 ([3, 0, 0, 0, 0, 0, 0, 0, 2, 0, 0, 0, 0xAD, 0xDE, 0, 0, label] ++
      List.replicate 99 0), .daemon 0]

/-- A packet of no content. -/
def Md.blank : Md := ⟨0, 0, 0, [], []⟩

/-- Socket 1 is registered for application 0; socket 2 has asked for application 1. -/
def bothRegister : List Action :=
  twoSockets 0 ++ [.call 2 204 [1, 0, 0, 0], .call 1 201 [0, 0, 0, 0], .daemon 10,
    .call 2 201 [0, 0, 0, 0]]

theorem applications_isolated_two :
    ∃ s, Transition.Run ((system .selectsZero).restrict fun s a => keepsApp s a = true)
        Sys.initial bothRegister s ∧
      (receive .selectsZero (s.tick 0) 2 .blank 0).1 = .newFlow (some 1) ∧
      (∃ sock ss, s.socks 1 = some sock ∧ sock.storage = some ss ∧ ss.sockApp = 0) ∧
      ∃ t, execute .selectsZero s (.daemon 11) = some t ∧
        ∀ r mdHash, t.newFlowTarget (skeyFromBpfSock .loopback) r 0 mdHash =
          s.newFlowTarget (skeyFromBpfSock .loopback) r 0 mdHash := by
  obtain ⟨s, hs, hx⟩ := Transition.run_restrict_of_any (execute .selectsZero) keepsApp
    Sys.initial bothRegister
    (fun s : Sys => (s.groups (skeyFromBpfSock .loopback)).any (fun st : ReuseportStorage =>
        decide (st.dis.maxApps = 2) && !st.dis.labelled &&
          decide ((firstStage .selectsZero .blank st).app = some 0)) &&
      ((s.socks 2).any fun kr : Sock => decide (kr.key = skeyFromBpfSock .loopback)) &&
      decide ((receive .selectsZero (s.tick 0) 2 .blank 0).1 = .newFlow (some 1)) &&
      (execute .selectsZero s (.daemon 11)).isSome && keepsApp s (.daemon 11) &&
      decide (changedApp (skeyFromBpfSock .loopback) s (.daemon 11) = some 1)) (by decide +kernel)
  simp only [Bool.and_eq_true, decide_eq_true_eq, Option.any_eq_true, Bool.not_eq_true',
    Option.isSome_iff_exists] at hx
  obtain ⟨⟨⟨⟨⟨⟨st, hk, ⟨hmax, hl⟩, hd⟩, kr, hr, hkey⟩, hv⟩, t, ht⟩, ha⟩, hb⟩ := hx
  have hlt : (0 : UInt32) < st.dis.maxApps := by
    rw [hmax]
    decide
  have happs := applications_isolated hs hk (by rw [hmax]; decide) hlt
  obtain ⟨_, _, sock, ss, hsock, _, _, hss, happ⟩ := happs.1 2 kr .blank 0 1 hr hkey hd hv
  exact ⟨s, hs, hv, ⟨sock, ss, hsock, hss, happ⟩, t, ht,
    happs.2 _ t 1 ht ha hb (by decide) (.inl hl)⟩

/-- Socket 1 asks for generation 0xffffffff and then for another application, before the daemon
answers. Socket 2, of application 0, announces the generation of that row. -/
def renumbered : List Action :=
  twoSockets 0 ++ [.call 1 201 [0xff, 0xff, 0xff, 0xff], .call 1 204 [1, 0, 0, 0], .daemon 10,
    .call 2 200 [15, 0, 0, 0]]

/-- The daemon keeps socket 1, of application 0, for Tubular when its process closes it.
Socket 2, of application 1, announces generation 0. -/
def keptForTubular : List Action :=
  twoSockets 0x61 ++ [.call 2 204 [1, 0, 0, 0], .call 1 201 [0, 0, 0, 0], .daemon 10, .close 1,
    .call 2 200 [0, 0, 0, 0]]

/-- A new flow of application 0 goes to a socket of application 1; and the working generation
of application 1 takes away the socket that new flows of application 0 go to. -/
theorem applications_mixed :
    (∃ s, Run .selectsZero Sys.initial renumbered s ∧
      (∃ st, s.groups (skeyFromBpfSock .loopback) = some st ∧ st.dis.maxApps = 2 ∧
        (firstStage .selectsZero .blank st).app = some 0) ∧
      (receive .selectsZero (s.tick 0) 2 .blank 0).1 = .newFlow (some 1) ∧
      ((s.socks 1).bind (·.storage)).map (·.sockApp) = some 1) ∧
    ∃ s t, Run .selectsZero Sys.initial keptForTubular s ∧
      changedApp (skeyFromBpfSock .loopback) s (.daemon 0) = some 1 ∧
      execute .selectsZero s (.daemon 0) = some t ∧
      s.newFlowTarget (skeyFromBpfSock .loopback) 2 0 0 = some 1 ∧
      t.newFlowTarget (skeyFromBpfSock .loopback) 2 0 0 = none := by
  constructor
  · obtain ⟨s, hs, hx⟩ := Transition.run_of_any (execute .selectsZero) Sys.initial renumbered
      (fun s : Sys => (s.groups (skeyFromBpfSock .loopback)).any (fun st : ReuseportStorage =>
          decide (st.dis.maxApps = 2 ∧ (firstStage .selectsZero .blank st).app = some 0)) &&
        decide ((receive .selectsZero (s.tick 0) 2 .blank 0).1 = .newFlow (some 1)) &&
        decide (((s.socks 1).bind (·.storage)).map (·.sockApp) = some 1)) (by decide +kernel)
    simp only [Bool.and_eq_true, decide_eq_true_eq, Option.any_eq_true] at hx
    exact ⟨s, hs, hx.1.1, hx.1.2, hx.2⟩
  · obtain ⟨s, hs, hx⟩ := Transition.run_of_any (execute .selectsZero) Sys.initial keptForTubular
      (fun s : Sys => (execute .selectsZero s (.daemon 0)).any (fun t : Sys =>
          decide (t.newFlowTarget (skeyFromBpfSock .loopback) 2 0 0 = none)) &&
        decide (changedApp (skeyFromBpfSock .loopback) s (.daemon 0) = some 1) &&
        decide (s.newFlowTarget (skeyFromBpfSock .loopback) 2 0 0 = some 1)) (by decide +kernel)
    simp only [Bool.and_eq_true, decide_eq_true_eq, Option.any_eq_true] at hx
    obtain ⟨⟨⟨t, ht, hnone⟩, hb⟩, hsome⟩ := hx
    exact ⟨s, t, hs, hb, ht, hsome, hnone⟩

end Udpgrm
