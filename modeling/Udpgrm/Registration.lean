import Udpgrm.Sockets

/-! Registered sockets and the slots of the cookie table that hold them. -/
namespace Udpgrm

open LittleEndian

variable {p : Programs} {s t : Sys} {a : Action} {c : UInt64} {sock : Sock}
  {st : ReuseportStorage}

/-! ### Sockets and their messages -/

/-- Storage carries the cookie of its own socket, and a registration on its way to the daemon
names a socket of the group it names. -/
structure SocksWf (s : Sys) : Prop where
  ne_zero : ∀ c sock, s.socks c = some sock → c ≠ 0
  own_cookie : ∀ c sock ss, s.socks c = some sock → sock.storage = some ss → ss.soCookie = c
  pending : ∀ k pid cookie gen app, .registerSocket k pid cookie gen app ∈ s.ring →
    ∃ sock, s.socks cookie = some sock ∧ sock.key = k

theorem SocksWf.initial : SocksWf Sys.initial := by
  constructor <;> simp [Sys.initial]

theorem SockStep.own_cookie {sock' : Sock} (h : SockStep s a t c sock sock')
    (hs : ∀ ss, sock.storage = some ss → ss.soCookie = c) :
    ∀ ss, sock'.storage = some ss → ss.soCookie = c := by
  cases h with
  | same | closed => exact hs
  | bound =>
    rintro _ ⟨⟩
    rfl
  | generation _ _ _ _ _ _ ss hss | application _ _ _ ss hss =>
    rintro _ ⟨⟩
    exact hs ss hss
  | index _ _ hacc _ hss =>
    rintro _ ⟨⟩
    exact hs hacc.ss hss

theorem SocksWf.step (h : execute p s a = some t) (hw : SocksWf s) : SocksWf t where
  ne_zero c sock' hc' := by
    rcases sock_origin h hc' with ⟨sock, hc, _⟩ | ⟨_, hz, _⟩
    · exact hw.ne_zero c sock hc
    · exact hz
  own_cookie c sock' ss hc' hss := by
    rcases sock_origin h hc' with ⟨sock, hc, hstep⟩ | ⟨_, _, hnone⟩
    · exact hstep.own_cookie (fun ss => hw.own_cookie c sock ss hc) ss hss
    · rw [hnone] at hss
      cases hss
  pending k pid cookie gen app hm := by
    have hkept : (∃ sock, s.socks cookie = some sock ∧ sock.key = k) →
        ∃ sock, t.socks cookie = some sock ∧ sock.key = k := by
      rintro ⟨sock, hc, hk⟩
      obtain ⟨sock', hc', hstep⟩ := sock_step h hc
      exact ⟨sock', hc', hstep.key_eq.trans hk⟩
    apply hkept
    cases ring_change h with
    | same hr => exact hw.pending k pid cookie gen app (hr ▸ hm)
    | handled _ _ m hr => exact hw.pending k pid cookie gen app (hr ▸ List.mem_cons_of_mem m hm)
    | posted m hp hr =>
      rw [hr, List.mem_append, List.mem_singleton] at hm
      rcases hm with hm | rfl
      · exact hw.pending k pid cookie gen app hm
      · cases hp with
        | @register c _ _ sock ss _ hs hss _ _ _ =>
          exact ⟨sock, by rw [hw.own_cookie c sock ss hs hss, hs], rfl⟩

theorem socksWf_reachable {as : List Action} (h : Run p Sys.initial as s) : SocksWf s :=
  Transition.Run.inv h (fun htr hw => SocksWf.step htr hw) .initial

/-! ### Slots of live sockets -/

theorem idxSlot_ofNat (i : ℕ) :
    idxSlot (UInt32.ofNat i) = Fin.ofNat MAX_SOCKETS_IN_GEN i := by
  apply Fin.ext
  simp only [idxSlot, Fin.ofNat, UInt32.toNat_ofNat', MAX_SOCKETS_IN_GEN]
  omega

/-- A registration overwrites a slot whose socket is dead. -/
theorem Accepted.slot_dead {env : DaemonEnv} (h : Accepted s env t) :
    h.st.cookies (genRow h.wg) (idxSlot (UInt32.ofNat h.pos)) ∉ s.sockhash := by
  obtain ⟨_, hdead, _⟩ := SlotScan.free_spec (congrArg Prod.fst h.scan_eq)
  rw [idxSlot_ofNat]
  exact of_decide_eq_false hdead

/-- The slot of a live socket keeps its cookie. -/
theorem slot_kept {k : Key} {r : Row} {j : Slot} (h : execute p s a = some t)
    (hd : a ≠ .delete k) (hk : s.groups k = some st) (hlive : st.cookies r j ∈ s.sockhash) :
    ∃ st', t.groups k = some st' ∧ st'.dis = st.dis ∧ st'.cookies r j = st.cookies r j := by
  have hsome : (t.groups k).isSome := group_survives h hd (by simp [hk])
  obtain ⟨st', hk'⟩ := Option.isSome_iff_exists.mp hsome
  refine ⟨st', hk', ?_⟩
  rcases quiet_or_accepted h with hq | ⟨env, rfl, ⟨hacc⟩⟩
  · cases hq k st' hk' with
    | kept st₀ hk₀ hstep =>
      rw [hk, Option.some.injEq] at hk₀
      subst hk₀
      exact ⟨hstep.sameTable.dis, by rw [hstep.sameTable.cookies]⟩
    | born _ _ _ _ _ hnone _ => simp [hk] at hnone
  · rw [hacc.groups] at hk'
    by_cases he : k = hacc.k
    · subst he
      have hst : st = hacc.st := by simpa [hk] using hacc.group_eq
      subst hst
      rw [Function.update_self, Option.some.injEq] at hk'
      subst hk'
      refine ⟨rfl, ?_⟩
      rw [setCookie_cookies, if_neg]
      rintro ⟨rfl, rfl⟩
      exact hacc.slot_dead hlive
    · rw [Function.update_of_ne he, hk, Option.some.injEq] at hk'
      subst hk'
      exact ⟨rfl, rfl⟩

/-- A live socket stays in `sockhash` until it is closed. -/
theorem sockhash_kept (h : execute p s a = some t) (hc : c ∈ s.sockhash)
    (ho : s.isOpen c = true) (ho' : t.isOpen c = true) : c ∈ t.sockhash := by
  rcases sockhash_step h with ⟨env, rfl, ⟨hacc⟩⟩ | ⟨_, hkeep⟩
  · exact hacc.mem_sockhash (.inl hc) ho
  · exact hkeep c hc (Sys.alive_of_isOpen ho')

/-! ### Published cookies -/

/-- Every open socket with an index is in the slot that getsockopt computes for it. -/
def Published (s : Sys) : Prop :=
  ∀ c sock ss, s.socks c = some sock → sock.isOpen = true → sock.storage = some ss →
    ss.sockIdx ≠ UNSET →
    c ∈ s.sockhash ∧ ∃ st, s.groups sock.key = some st ∧
      st.cookies (registeredRow st.dis.maxApps ss.sockApp ss.sockGen) (idxSlot ss.sockIdx) = c

/-- The step keeps generation and index of a socket together: a socket that has an index asks
only for generations of the row it is in, the daemon answers a request only while the socket
still asks for that row, and no group is deleted. -/
def keepsRow (s : Sys) : Action → Bool
  | .setsockopt c ctx _ =>
    match s.socks c, ctx.opt, copyIn ctx.optval with
    | some sock, some .socketGen, some data =>
      sock.storage.all fun ss => decide (ss.sockIdx = UNSET ∨
        registeredRow (xmaxApps s sock.key) ss.sockApp (u32 data 0) =
          registeredRow (xmaxApps s sock.key) ss.sockApp ss.sockGen)
    | _, _, _ => true
  | .handle env =>
    match s.ring, env.fished with
    | .registerSocket k _ cookie gen app :: _, .found _ =>
      ((s.socks cookie).bind (·.storage)).all fun ss => decide
        (registeredRow (xmaxApps s k) ss.sockApp ss.sockGen = registeredRow (xmaxApps s k) app gen)
    | _, _ => true
  | .delete _ => false
  | _ => true

theorem keepsRow_ne_delete (h : keepsRow s a = true) (k : Key) : a ≠ .delete k := by
  rintro rfl
  cases h

theorem xmaxApps_of_group {k : Key} (h : s.groups k = some st) :
    xmaxApps s k = st.dis.maxApps := by
  simp [xmaxApps, h]

/-- The accepted socket is in the slot of its stored generation. -/
theorem Accepted.published {env : DaemonEnv} (h : Accepted s env t)
    (hc : keepsRow s (.handle env) = true) :
    ∃ st', t.groups h.k = some st' ∧
      st'.cookies (registeredRow st'.dis.maxApps h.ss.sockApp h.ss.sockGen)
        (idxSlot (UInt32.ofNat h.pos)) = h.cookie := by
  refine ⟨_, by rw [h.groups, Function.update_self], ?_⟩
  have hrow : registeredRow h.st.dis.maxApps h.ss.sockApp h.ss.sockGen = genRow h.wg := by
    have := by simpa [keepsRow, h.ring_eq, h.fished, h.storage_eq] using hc
    rw [xmaxApps_of_group h.group_eq] at this
    rw [this, registeredRow, h.toWrkGen_eq]
  show (h.st.setCookie h.wg _ _ h.cookie).cookies
    (registeredRow h.st.dis.maxApps h.ss.sockApp h.ss.sockGen) _ = _
  rw [hrow, setCookie_cookies_self]

theorem Published.step (h : execute p s a = some t) (hc : keepsRow s a = true)
    (hw : SocksWf s) (hp : Published s) : Published t := by
  intro c sock' ss' hs' ho' hss' hi'
  have hopen' : t.isOpen c = true := by simp [Sys.isOpen, hs', ho']
  -- a socket whose index stays as it was is still in its slot
  have hkept : ∀ sock ss, s.socks c = some sock → sock.isOpen = true → sock.storage = some ss →
      ss.sockIdx ≠ UNSET → c ∈ t.sockhash ∧ ∃ st st', s.groups sock.key = some st ∧
        t.groups sock.key = some st' ∧ st'.dis = st.dis ∧
        st'.cookies (registeredRow st.dis.maxApps ss.sockApp ss.sockGen)
          (idxSlot ss.sockIdx) = c := by
    intro sock ss hs ho hss hi
    have hopen : s.isOpen c = true := by simp [Sys.isOpen, hs, ho]
    obtain ⟨hlive, st, hk, hslot⟩ := hp c sock ss hs ho hss hi
    obtain ⟨st', hk', hdis, hslot'⟩ := slot_kept h (keepsRow_ne_delete hc _) hk (hslot ▸ hlive)
    exact ⟨sockhash_kept h hlive hopen hopen', st, st', hk, hk', hdis, hslot'.trans hslot⟩
  rcases sock_origin h hs' with ⟨sock, hs, hstep⟩ | ⟨_, _, hnone⟩
  swap
  · rw [hnone] at hss'
    cases hss'
  cases hstep with
  | same =>
    obtain ⟨hlive, st, st', _, hk', hdis, hslot⟩ := hkept _ ss' hs ho' hss' hi'
    exact ⟨hlive, st', hk', hdis ▸ hslot⟩
  | bound =>
    cases hss'
    exact absurd rfl hi'
  | application _ _ _ _ _ _ hi =>
    cases hss'
    exact absurd hi hi'
  | closed => cases ho'
  | generation ctx env ha ho data hd ss hss =>
    subst ha
    cases hss'
    obtain ⟨hlive, st, st', hk, hk', hdis, hslot⟩ := hkept sock ss hs ho' hss hi'
    refine ⟨hlive, st', hk', ?_⟩
    have hrow := by simpa [keepsRow, hs, ho, hd, hss] using hc
    rw [xmaxApps_of_group hk] at hrow
    rw [hdis, hrow.resolve_left hi', hslot]
  | index env ha hacc hcook hss =>
    subst ha
    cases hss'
    have hopen : s.isOpen c = true := hcook ▸ hacc.isOpen
    obtain ⟨sock₀, hs₀, hkey⟩ := hw.pending hacc.k hacc.pid hacc.cookie hacc.gen hacc.app
      (by simp [hacc.ring_eq])
    rw [← hcook, hs, Option.some.injEq] at hs₀
    subst hs₀
    obtain ⟨st', hk', hslot⟩ := hacc.published hc
    rw [← hkey] at hk'
    exact ⟨hacc.mem_sockhash (.inr hcook) hopen, st', hk', hslot.trans hcook.symm⟩

theorem published_reachable {as : List Action}
    (h : Transition.Run ((system p).restrict fun s a => keepsRow s a = true) Sys.initial as s) :
    SocksWf s ∧ Published s := by
  refine Transition.Run.inv_restrict (P := fun s => SocksWf s ∧ Published s) h ?_ ⟨.initial, ?_⟩
  · intro s a t htr hc ⟨hw, hp⟩
    exact ⟨SocksWf.step htr hw, Published.step htr hc hw hp⟩
  · intro c sock ss hs
    simp [Sys.initial] at hs

theorem cookieOfGrm_pack (st : ReuseportStorage) (g i : UInt32) :
    cookieOfGrm st (grmCookiePack g i) = st.cookies (genRow g) (idxSlot i) := by
  simp only [cookieOfGrm, grmCookieUnpack_pack, genRow_and_mask, idxSlot_and_mask]

theorem firstStage_cookie {md : Md} {grm : UInt16} {app : UInt32} (f : Metrics → Metrics)
    (hk : st.dis.kind = some .cbpf ∨ st.dis.kind = some .bespoke)
    (hd : dissectorCbpf p md st = (.ok, grm, app)) :
    firstStage p md (st.count f) = .haveCookie (cookieOfGrm st grm) app := by
  have hd' : dissectorCbpf p md (st.count f) = (.ok, grm, app) := hd
  rcases hk with hk | hk <;> simp only [firstStage, ReuseportStorage.count_dis, hk, hd'] <;> rfl

/-- A packet whose dissector finds the cookie of a live socket of its group goes there. -/
theorem receive_cookie {r now : UInt64} {kr : Sock} {md : Md} {grm : UInt16} {app : UInt32}
    (hr : s.socks r = some kr) (hg : s.groups kr.key = some st)
    (hk : st.dis.kind = some .cbpf ∨ st.dis.kind = some .bespoke)
    (hd : dissectorCbpf p md st = (.ok, grm, app))
    (hsel : s.selectReuseport r (cookieOfGrm st grm) = 0) :
    (receive p s r md now).1 = .existing (cookieOfGrm st grm) := by
  simp [receive, hr, hg, udpgrmReuseportProg, firstStage_cookie _ hk hd, haveCookie, hsel]

theorem selectReuseport_eq_zero {r : UInt64} {kr : Sock} (hr : s.socks r = some kr)
    (hs : s.socks c = some sock) (hc : c ∈ s.sockhash) (hk : kr.key = sock.key)
    (hn : kr.netnsCookie = sock.netnsCookie) : s.selectReuseport r c = 0 := by
  simp [Sys.selectReuseport, hc, hr, hs, hk, hn]

/-- While generations and indices stay together, the cookie that getsockopt reports unpacks to
a slot that holds the cookie of the socket, and packets that carry it are dispatched there. -/
theorem published_cookie_routes {as : List Action} {gen idx : UInt32} {grm : UInt16}
    (h : Transition.Run ((system p).restrict fun s a => keepsRow s a = true) Sys.initial as s)
    (ho : s.isOpen c = true) (hg : getSocketGen s c = some (gen, idx, grm)) (hi : idx ≠ UNSET) :
    ∃ sock ss st g i, s.socks c = some sock ∧ sock.storage = some ss ∧ ss.soCookie = c ∧
      s.groups sock.key = some st ∧ grmCookieUnpack grm = some (g, i) ∧
      st.cookies (genRow g) (idxSlot i) = ss.soCookie ∧
      ∀ r kr md now app, s.socks r = some kr → kr.key = sock.key →
        kr.netnsCookie = sock.netnsCookie →
        (st.dis.kind = some .cbpf ∨ st.dis.kind = some .bespoke) →
        dissectorCbpf p md st = (.ok, grm, app) →
        (receive p (s.tick now) r md now).1 = .existing ss.soCookie := by
  obtain ⟨hw, hp⟩ := published_reachable h
  obtain ⟨sock, hs, hg⟩ := Option.bind_eq_some_iff.mp hg
  obtain ⟨ss, hss, hg⟩ := Option.map_eq_some_iff.mp hg
  cases hg
  have hopen : sock.isOpen = true := by simpa [Sys.isOpen, hs] using ho
  have hown : ss.soCookie = c := hw.own_cookie c sock ss hs hss
  obtain ⟨hlive, st, hk, hslot⟩ := hp c sock ss hs hopen hss hi
  rw [xmaxApps_of_group hk]
  refine ⟨sock, ss, st, _, _, hs, hss, hown, hk, grmCookieUnpack_pack _ _, ?_, ?_⟩
  · rw [genRow_and_mask, idxSlot_and_mask, hown]
    exact hslot
  · intro r kr md now app hr hkey hnetns hkind hd
    have hcook : cookieOfGrm st (grmCookiePack (toWrkGen st.dis.maxApps ss.sockApp ss.sockGen)
        ss.sockIdx) = c := (cookieOfGrm_pack ..).trans hslot
    have hsel : (s.tick now).selectReuseport r c = 0 :=
      selectReuseport_eq_zero hr hs hlive hkey hnetns
    have hroute : (receive p (s.tick now) r md now).1 = .existing (cookieOfGrm st _) :=
      receive_cookie (s := s.tick now) hr (hkey ▸ hk) hkind hd (hcook.symm ▸ hsel)
    rw [hroute, hcook, hown]

/-- A socket registers for generation 1 and the daemon answers. -/
def registerRun : List Action := Action.openBound 1 ++ [.call 1 201 [1, 0, 0, 0], .daemon 10]

theorem published_cookie_routes_first : ∃ s,
    Transition.Run ((system .const).restrict fun s a => keepsRow s a = true) Sys.initial
      registerRun s ∧ getSocketGen s 1 = some (1, 0, grmCookiePack 1 0) ∧
    ∃ sock ss st g i, s.socks 1 = some sock ∧ sock.storage = some ss ∧ ss.soCookie = 1 ∧
      s.groups sock.key = some st ∧ grmCookieUnpack (grmCookiePack 1 0) = some (g, i) ∧
      st.cookies (genRow g) (idxSlot i) = ss.soCookie ∧
      ∀ r kr md now app, s.socks r = some kr → kr.key = sock.key →
        kr.netnsCookie = sock.netnsCookie →
        (st.dis.kind = some .cbpf ∨ st.dis.kind = some .bespoke) →
        dissectorCbpf .const md st = (.ok, grmCookiePack 1 0, app) →
        (receive .const (s.tick now) r md now).1 = .existing ss.soCookie := by
  obtain ⟨s, hs, ht⟩ := Transition.run_restrict_of_any (execute .const) keepsRow Sys.initial
    registerRun (fun s : Sys => decide (s.isOpen 1 = true ∧
      getSocketGen s 1 = some (1, 0, grmCookiePack 1 0))) (by decide +kernel)
  obtain ⟨ho, hg⟩ := of_decide_eq_true ht
  exact ⟨s, hs, hg, published_cookie_routes hs ho hg (by decide)⟩

/-- The socket then asks for generation 2. Until the daemon answers, getsockopt combines the
new generation with the old index. -/
theorem moved_socket_publishes_empty_slot : ∃ s,
    Run .const Sys.initial (registerRun ++ [.call 1 201 [2, 0, 0, 0]]) s ∧ s.isOpen 1 = true ∧
    getSocketGen s 1 = some (2, 0, grmCookiePack 2 0) ∧
    grmCookieUnpack (grmCookiePack 2 0) = some (2, 0) ∧
    ∃ st, s.groups (skeyFromBpfSock .loopback) = some st ∧ st.cookies 2 0 = 0 := by
  obtain ⟨s, hs, ht⟩ := Transition.run_of_any (execute .const) Sys.initial
    (registerRun ++ [.call 1 201 [2, 0, 0, 0]])
    (fun s : Sys => decide (s.isOpen 1 = true ∧
      getSocketGen s 1 = some (2, 0, grmCookiePack 2 0)) &&
      (s.groups (skeyFromBpfSock .loopback)).any fun st : ReuseportStorage =>
        decide (st.cookies 2 0 = 0)) (by decide +kernel)
  rw [Bool.and_eq_true, decide_eq_true_eq, Option.any_eq_true] at ht
  obtain ⟨⟨ho, hg⟩, st, hk, hz⟩ := ht
  exact ⟨s, hs, ho, hg, by decide, st, hk, of_decide_eq_true hz⟩

/-! ### One slot for each socket -/

/-- No cookie is in two slots of the table. An empty slot holds zero. -/
def ReuseportStorage.OneSlot (st : ReuseportStorage) : Prop :=
  ∀ c, c ≠ 0 → ∀ r j r' j', st.cookies r j = c → st.cookies r' j' = c → r = r' ∧ j = j'

/-- The daemon is asked to register only sockets that the table does not hold. -/
def newToTable (s : Sys) : Action → Bool
  | .handle env =>
    match s.ring, env.fished with
    | .registerSocket k _ cookie _ _ :: _, .found _ =>
      (s.groups k).all fun st => decide (∀ r j, st.cookies r j ≠ cookie)
    | _, _ => true
  | _ => true

theorem oneSlot_of_empty (h : ∀ r j, st.cookies r j = 0) : st.OneSlot := by
  intro c hc r j _ _ hr
  exact absurd (hr ▸ h r j) hc

theorem oneSlot_setCookie {g i n : UInt32} (h : st.OneSlot) (hnew : ∀ r j, st.cookies r j ≠ c) :
    (st.setCookie g i n c).OneSlot := by
  intro d hd r j r' j' hr hr'
  rw [setCookie_cookies] at hr hr'
  split_ifs at hr hr' with h₁ h₂ h₂
  · exact ⟨h₁.1.trans h₂.1.symm, h₁.2.trans h₂.2.symm⟩
  · exact absurd (hr'.trans hr.symm) (hnew r' j')
  · exact absurd (hr.trans hr'.symm) (hnew r j)
  · exact h d hd r j r' j' hr hr'

theorem oneSlot_step (h : execute p s a = some t) (hc : newToTable s a = true)
    (hs : ∀ k st, s.groups k = some st → st.OneSlot) :
    ∀ k st, t.groups k = some st → st.OneSlot := by
  intro k st' hk'
  rcases quiet_or_accepted h with hq | ⟨env, rfl, ⟨hacc⟩⟩
  · cases hq k st' hk' with
    | kept st hk hstep =>
      intro c hz
      rw [hstep.sameTable.cookies]
      exact hs k st hk c hz
    | born _ _ _ _ _ _ hb => exact oneSlot_of_empty hb.cookies_eq
  · rw [hacc.groups] at hk'
    by_cases he : k = hacc.k
    · rw [he, Function.update_self, Option.some.injEq] at hk'
      have hnew : ∀ r j, hacc.st.cookies r j ≠ hacc.cookie := by
        simpa [newToTable, hacc.ring_eq, hacc.fished, hacc.group_eq] using hc
      exact hk' ▸ oneSlot_setCookie (hs _ _ hacc.group_eq) hnew
    · rw [Function.update_of_ne he] at hk'
      exact hs k st' hk'

/-- While no socket is registered twice, each live socket is in at most one slot, and gets new
flows only of the generation that this slot belongs to. -/
theorem one_slot_per_socket {as : List Action} {k : Key} {r : Row} {j : Slot}
    (h : Transition.Run ((system p).restrict fun s a => newToTable s a = true) Sys.initial as s)
    (ho : s.isOpen c = true) (hk : s.groups k = some st) (hc : st.cookies r j = c) :
    (∀ r' j', st.cookies r' j' = c → r' = r ∧ j' = j) ∧
      ∀ app hash, newFlowCookie st app hash = c →
        registeredRow st.dis.maxApps app (st.workingGen (Fin.ofNat MAX_APPS app.toNat)) = r := by
  have hinv : SocksWf s ∧ ∀ k st, s.groups k = some st → st.OneSlot := by
    refine Transition.Run.inv_restrict (P := fun s => SocksWf s ∧
      ∀ k st, s.groups k = some st → st.OneSlot) h ?_ ⟨.initial, by simp [Sys.initial]⟩
    rintro s a t htr hc ⟨hw, hs⟩
    exact ⟨SocksWf.step htr hw, oneSlot_step htr hc hs⟩
  obtain ⟨hw, hone⟩ := hinv
  obtain ⟨sock, hs, _⟩ := Option.any_eq_true .. |>.mp ho
  have hunique : ∀ r' j', st.cookies r' j' = c → r' = r ∧ j' = j := fun r' j' hc' =>
    hone k st hk c (hw.ne_zero c sock hs) r' j' r j hc' hc
  exact ⟨hunique, fun app hash hnew => (hunique _ _ hnew).1⟩

theorem one_slot_per_socket_first : ∃ s st,
    Transition.Run ((system .const).restrict fun s a => newToTable s a = true) Sys.initial
      registerRun s ∧ s.groups (skeyFromBpfSock .loopback) = some st ∧ st.cookies 1 0 = 1 ∧
    (∀ r' j', st.cookies r' j' = 1 → r' = 1 ∧ j' = 0) ∧
      ∀ app hash, newFlowCookie st app hash = 1 →
        registeredRow st.dis.maxApps app (st.workingGen (Fin.ofNat MAX_APPS app.toNat)) = 1 := by
  obtain ⟨s, hs, ht⟩ := Transition.run_restrict_of_any (execute .const) newToTable Sys.initial
    registerRun (fun s : Sys => s.isOpen 1 &&
      (s.groups (skeyFromBpfSock .loopback)).any fun st : ReuseportStorage =>
        decide (st.cookies 1 0 = 1)) (by decide +kernel)
  rw [Bool.and_eq_true, Option.any_eq_true] at ht
  obtain ⟨ho, st, hk, hc⟩ := ht
  have hc := of_decide_eq_true hc
  exact ⟨s, st, hs, hk, hc, one_slot_per_socket hs ho hk hc⟩

/-- Asking twice for one generation before the daemon answers takes two slots. -/
theorem repeated_registration_takes_two_slots : ∃ s st,
    Run .const Sys.initial (Action.openBound 1 ++ [.call 1 201 [1, 0, 0, 0],
      .call 1 201 [1, 0, 0, 0], .daemon 10, .daemon 11]) s ∧
    s.ring = [] ∧ s.isOpen 1 = true ∧ s.groups (skeyFromBpfSock .loopback) = some st ∧
    st.cookies 1 0 = 1 ∧ st.cookies 1 1 = 1 := by
  obtain ⟨s, hs, ht⟩ := Transition.run_of_any (execute .const) Sys.initial
    (Action.openBound 1 ++ [.call 1 201 [1, 0, 0, 0],
      .call 1 201 [1, 0, 0, 0], .daemon 10, .daemon 11])
    (fun s : Sys => decide (s.ring = [] ∧ s.isOpen 1 = true) &&
      (s.groups (skeyFromBpfSock .loopback)).any fun st : ReuseportStorage =>
        decide (st.cookies 1 0 = 1 ∧ st.cookies 1 1 = 1)) (by decide +kernel)
  rw [Bool.and_eq_true, decide_eq_true_eq, Option.any_eq_true] at ht
  obtain ⟨⟨hr, ho⟩, st, hk, hc⟩ := ht
  obtain ⟨h₀, h₁⟩ := of_decide_eq_true hc
  exact ⟨s, st, hs, hr, ho, hk, h₀, h₁⟩

end Udpgrm
