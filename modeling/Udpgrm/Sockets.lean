import Udpgrm.Groups

/-! How one step changes one socket, the message ring and `sockhash`. -/
namespace Udpgrm

open LittleEndian

variable {p : Programs} {s t : Sys} {a : Action} {c : UInt64} {sock : Sock}

/-! ### Sockets -/

/-- Everything that can happen to a socket that exists. -/
inductive SockStep (s : Sys) (a : Action) (t : Sys) (c : UInt64) (sock : Sock) : Sock → Prop
  | same : SockStep s a t c sock sock
  | bound (ctx : BindCtx) (ha : a = .bind c ctx) :
      SockStep s a t c sock
        { sock with storage := some ⟨UNSET, UNSET, sock.app, c, sock.netnsCookie⟩ }
  | generation (ctx : SockoptCtx) (env : OptEnv) (ha : a = .setsockopt c ctx env)
      (ho : ctx.opt = some .socketGen) (data : List UInt8) (hd : copyIn ctx.optval = some data)
      (ss : SocketStorage) (hss : sock.storage = some ss) :
      SockStep s a t c sock { sock with storage := some { ss with sockGen := u32 data 0 } }
  | application (ctx : SockoptCtx) (env : OptEnv) (ha : a = .setsockopt c ctx env)
      (ss : SocketStorage) (hss : sock.storage = some ss) (hg : ss.sockGen = UNSET)
      (hi : ss.sockIdx = UNSET) (app : UInt32) (happ : app < xmaxApps s sock.key) :
      SockStep s a t c sock { sock with storage := some { ss with sockApp := app } }
  | index (env : DaemonEnv) (ha : a = .handle env) (hacc : Accepted s env t)
      (hc : c = hacc.cookie) (hss : sock.storage = some hacc.ss) :
      SockStep s a t c sock
        { sock with storage := some { hacc.ss with sockIdx := UInt32.ofNat hacc.pos } }
  | closed (ha : a = .close c) : SockStep s a t c sock { sock with isOpen := false }

theorem SockStep.identity {sock' : Sock} (h : SockStep s a t c sock sock') :
    sock'.sk = sock.sk ∧ sock'.netnsCookie = sock.netnsCookie := by
  cases h <;> exact ⟨rfl, rfl⟩

theorem SockStep.key_eq {sock' : Sock} (h : SockStep s a t c sock sock') :
    sock'.key = sock.key := by
  rw [Sock.key, Sock.key, h.identity.1]

theorem setStorage_socks (s : Sys) (c c' : UInt64) (ss : SocketStorage) :
    (s.setStorage c' ss).socks c =
      if c = c' then (s.socks c).map fun k => { k with storage := some ss } else s.socks c := by
  by_cases h : c = c'
  · subst h
    simp [Sys.setStorage]
  · simp [Sys.setStorage, h]

theorem Base.socks {env : OptEnv} {k : Key} {ss : SocketStorage} {b : Sys}
    {st : ReuseportStorage} {created : Bool} (hb : Base env s k ss b st created) :
    b.socks = s.socks := by
  cases hb <;> rfl

theorem Base.maxApps {env : OptEnv} {k : Key} {ss : SocketStorage} {b : Sys}
    {st : ReuseportStorage} {created : Bool} (hb : Base env s k ss b st created) :
    st.dis.maxApps = xmaxApps s k := by
  cases hb with
  | existing h => simp [xmaxApps, h]
  | created h => simp [xmaxApps, h, freshGroup, Dissector.empty]

theorem setsockopt_sock {env : OptEnv} {c' now : UInt64} {ctx : SockoptCtx} {r : OptRet}
    (h : SetsockoptEffect p env (s.tick now) c' ctx r t) (hc : s.socks c = some sock) :
    ∃ sock', t.socks c = some sock' ∧ SockStep s (.setsockopt c' ctx env) t c sock sock' := by
  cases h with
  | untouched => exact ⟨sock, hc, .same⟩
  | @body sock' ss b _ st created data o _ hs hss hb hd ho hn he =>
    have hb' : b.socks c = some sock := hb.socks ▸ hc
    cases he with
    | stay | workingGen | verbose | undo | install | flow => exact ⟨sock, hb', .same⟩
    | socketGen =>
      by_cases heq : c = c'
      · subst heq
        have : sock' = sock := Option.some.inj (hs.symm.trans hc)
        subst this
        refine ⟨_, ?_, .generation ctx env rfl ho data hd ss hss⟩
        simp [Sys.push, setStorage_socks, hb']
      · refine ⟨sock, ?_, .same⟩
        simp [Sys.push, setStorage_socks, heq, hb']
    | socketApp hg hi happ =>
      by_cases heq : c = c'
      · subst heq
        have : sock' = sock := Option.some.inj (hs.symm.trans hc)
        subst this
        refine ⟨_, ?_, .application ctx env rfl ss hss hg hi (u32 data 0) (hb.maxApps ▸ happ)⟩
        simp [setStorage_socks, hb']
      · exact ⟨sock, by simp [setStorage_socks, heq, hb'], .same⟩

theorem bpfBind_sock {c' : UInt64} {ctx : BindCtx} (hc : s.socks c = some sock) :
    ∃ sock', (bpfBind s c' ctx).socks c = some sock' ∧
      SockStep s (.bind c' ctx) t c sock sock' := by
  rcases bpfBind_cases s c' ctx with h | ⟨k, hs, h⟩ <;> rw [h]
  · exact ⟨sock, hc, .same⟩
  · by_cases heq : c = c'
    · subst heq
      have : k = sock := by simpa [hs] using hc
      subst this
      exact ⟨_, by simp [setStorage_socks, hc], .bound ctx rfl⟩
    · exact ⟨sock, by simp [setStorage_socks, heq, hc], .same⟩

theorem udpSendmsg_socks (p : Programs) (env : FlowEnv) (s : Sys) (c : UInt64) (dst : SockAddr) :
    (udpSendmsg p env s c dst).socks = s.socks := by
  rcases udpSendmsg_cases p env s c dst with h | ⟨_, _, _, _, _, _, _, h⟩ <;> rw [h]
  rfl

theorem receive_socks (p : Programs) (s : Sys) (r : UInt64) (md : Md) (now : UInt64) :
    (receive p s r md now).2.socks = s.socks := by
  rcases receive_cases p s r md now with h | ⟨_, _, _, _, h⟩ <;> rw [h]
  rfl

theorem acceptSocket_socks (env : DaemonEnv) (s : Sys) (k : Key) (st : ReuseportStorage)
    (ss : SocketStorage) (cookie : UInt64) (gen : UInt32) (pos len f : ℕ) :
    (acceptSocket env s k st ss cookie gen pos len f).socks =
      (s.setStorage cookie { ss with sockIdx := UInt32.ofNat pos }).socks := by
  unfold acceptSocket
  simp only [Sys.setStorage, Sys.setGroup]
  split <;> rfl

theorem Accepted.socks {env : DaemonEnv} (h : Accepted s env t) (c : UInt64) :
    t.socks c = if c = h.cookie then
      (s.socks c).map fun k => { k with
        storage := some { h.ss with sockIdx := UInt32.ofNat h.pos } }
      else s.socks c := by
  have hsocks := congrArg Sys.socks h.after_eq
  rw [congrFun (hsocks.trans (acceptSocket_socks ..)) c, setStorage_socks]
  rfl

theorem Accepted.registered {env : DaemonEnv} (h : Accepted s env t) :
    ∃ sock, s.socks h.cookie = some sock ∧ sock.storage = some h.ss :=
  Option.bind_eq_some_iff.mp h.storage_eq

/-- A socket is never forgotten, and changes by one of the listed ways. -/
theorem sock_step (h : execute p s a = some t) (hc : s.socks c = some sock) :
    ∃ sock', t.socks c = some sock' ∧ SockStep s a t c sock sock' := by
  cases execute_effect h with
  | @socket c' _ _ hnone _ =>
    have hne : c ≠ c' := by
      rintro rfl
      rw [hc] at hnone
      cases hnone
    exact ⟨sock, by simp [hne, hc], .same⟩
  | bind _ => exact bpfBind_sock hc
  | setsockopt _ _ _ => exact setsockopt_sock (udpgrmSetsockopt_effect ..) hc
  | sendmsg _ _ _ => exact ⟨sock, by rwa [udpSendmsg_socks], .same⟩
  | packet _ _ => exact ⟨sock, by rwa [receive_socks], .same⟩
  | ignored _ _ _ _ | notFound _ _ _ _ _ _ | announced _ _ _ _ _ | crashed _ _ _ _ _
  | cleanup _ _ | delete => exact ⟨sock, hc, .same⟩
  | @close c' _ =>
    by_cases heq : c = c'
    · subst heq
      exact ⟨{ sock with isOpen := false }, by simp [Sys.closeSock, Sys.reap, hc], .closed rfl⟩
    · exact ⟨sock, by simp [Sys.closeSock, Sys.reap, heq, hc], .same⟩
  | @accepted env _ hacc =>
    by_cases heq : c = hacc.cookie
    · obtain ⟨sock', hs, hss⟩ := hacc.registered
      have : sock' = sock := by
        rw [← heq, hc] at hs
        exact (Option.some.inj hs).symm
      subst this
      refine ⟨_, ?_, .index env rfl hacc heq hss⟩
      rw [hacc.socks, if_pos heq, hc]
      rfl
    · exact ⟨sock, by rw [hacc.socks, if_neg heq, hc], .same⟩

theorem setsockopt_none {env : OptEnv} {c' : UInt64} {ctx : SockoptCtx} {r : OptRet}
    (h : SetsockoptEffect p env s c' ctx r t) (hc : s.socks c = none) : t.socks c = none := by
  cases h with
  | untouched => exact hc
  | @body sock' ss b _ st created data o _ hs hss hb hd ho hn he =>
    have hb' : b.socks c = none := hb.socks ▸ hc
    cases he with
    | stay | workingGen | verbose | undo | install | flow => exact hb'
    | socketGen | socketApp => simp [Sys.push, setStorage_socks, hb']

theorem sock_new {sock' : Sock} (h : execute p s a = some t) (hc : s.socks c = none)
    (hc' : t.socks c = some sock') :
    ∃ sk netnsCookie, a = .socket c sk netnsCookie ∧ c ≠ 0 ∧
      sock' = ⟨sk, netnsCookie, true, none⟩ := by
  -- every step but the creation of this socket leaves it missing
  have hnone : (∀ sk netnsCookie, a ≠ .socket c sk netnsCookie) → t.socks c = none := by
    intro hne
    cases execute_effect h with
    | @socket c' netnsCookie sk _ _ =>
      have hne' : c ≠ c' := by
        rintro rfl
        exact hne sk netnsCookie rfl
      simp [hne', hc]
    | @bind c' ctx _ =>
      rcases bpfBind_cases s c' ctx with h | ⟨k, hs, h⟩ <;> rw [h]
      · exact hc
      · simp [setStorage_socks, hc]
    | setsockopt _ _ _ => exact setsockopt_none (udpgrmSetsockopt_effect ..) hc
    | sendmsg _ _ _ => rwa [udpSendmsg_socks]
    | packet _ _ => rwa [receive_socks]
    | ignored _ _ _ _ | notFound _ _ _ _ _ _ | announced _ _ _ _ _ | crashed _ _ _ _ _
    | cleanup _ _ | delete => exact hc
    | @close c' _ =>
      have hne' : c ≠ c' := by
        rintro rfl
        simp [Sys.isOpen, hc] at *
      simp [Sys.closeSock, Sys.reap, hne', hc]
    | accepted hacc => simp [hacc.socks, hc]
  by_cases hex : ∃ sk netnsCookie, a = .socket c sk netnsCookie
  · obtain ⟨sk, netnsCookie, rfl⟩ := hex
    cases execute_effect h with
    | socket _ hz =>
      simp only [Function.update_self, Option.some.injEq] at hc'
      exact ⟨sk, netnsCookie, rfl, hz, hc'.symm⟩
  · rw [hnone fun sk netnsCookie he => hex ⟨sk, netnsCookie, he⟩] at hc'
    cases hc'

/-- Where a socket of the state after a step comes from. -/
theorem sock_origin {sock' : Sock} (h : execute p s a = some t) (hc' : t.socks c = some sock') :
    (∃ sock, s.socks c = some sock ∧ SockStep s a t c sock sock') ∨
      (s.socks c = none ∧ c ≠ 0 ∧ sock'.storage = none) := by
  cases hc : s.socks c with
  | none =>
    obtain ⟨_, _, _, hz, rfl⟩ := sock_new h hc hc'
    exact .inr ⟨rfl, hz, rfl⟩
  | some sock =>
    obtain ⟨sock'', hc'', hstep⟩ := sock_step h hc
    rw [hc', Option.some.injEq] at hc''
    subst hc''
    exact .inl ⟨sock, rfl, hstep⟩

/-- The application has let go of the socket. Cookies are not reused, so this is for good. -/
def Sys.closed (s : Sys) (c : UInt64) : Prop := ∃ sock, s.socks c = some sock ∧ sock.isOpen = false

theorem Sys.isOpen_iff : s.isOpen c = true ↔ ∃ sock, s.socks c = some sock ∧ sock.isOpen = true :=
  Option.any_eq_true ..

theorem Sys.not_closed (h : s.isOpen c = true) : ¬ s.closed c := by
  rintro ⟨sock, hs, hc⟩
  simp [Sys.isOpen, hs, hc] at h

theorem SockStep.isOpen {sock' : Sock} (h : SockStep s a t c sock sock') :
    sock'.isOpen = sock.isOpen ∨ a = .close c ∧ sock'.isOpen = false := by
  cases h with
  | closed ha => exact .inr ⟨ha, rfl⟩
  | _ => exact .inl rfl

theorem isOpen_kept (h : execute p s a = some t) (ha : a ≠ .close c) (ho : s.isOpen c = true) :
    t.isOpen c = true := by
  obtain ⟨sock, hs, ho⟩ := Sys.isOpen_iff.mp ho
  obtain ⟨sock', hs', hstep⟩ := sock_step h hs
  rcases hstep.isOpen with he | ⟨hclose, _⟩
  · exact Sys.isOpen_iff.mpr ⟨sock', hs', he.trans ho⟩
  · exact absurd hclose ha

theorem closed_kept (h : execute p s a = some t) (hc : s.closed c) : t.closed c := by
  obtain ⟨sock, hs, ho⟩ := hc
  obtain ⟨sock', hs', hstep⟩ := sock_step h hs
  rcases hstep.isOpen with he | ⟨_, hclosed⟩
  · exact ⟨sock', hs', he.trans ho⟩
  · exact ⟨sock', hs', hclosed⟩

/-! ### The message ring -/

/-- The message that a setsockopt call posts. -/
inductive Posted (s : Sys) : Action → Msg → Prop
  | register {c : UInt64} {ctx : SockoptCtx} {env : OptEnv} {sock : Sock} {ss : SocketStorage}
      {data : List UInt8} (hs : s.socks c = some sock) (hss : sock.storage = some ss)
      (ho : ctx.opt = some .socketGen) (hd : copyIn ctx.optval = some data)
      (hg : ss.sockGen ≠ u32 data 0 ∨ ss.sockIdx = UNSET) :
      Posted s (.setsockopt c ctx env)
        (.registerSocket sock.key env.pid ss.soCookie (u32 data 0) ss.sockApp)
  | announce {c : UInt64} {ctx : SockoptCtx} {env : OptEnv} {sock : Sock} {ss : SocketStorage}
      {data : List UInt8} (hs : s.socks c = some sock) (hss : sock.storage = some ss)
      (ho : ctx.opt = some .workingGen) (hd : copyIn ctx.optval = some data) :
      Posted s (.setsockopt c ctx env) (.setWorkingGen sock.key
        (UInt32.ofNat (Fin.ofNat MAX_APPS ss.sockApp.toNat).val) (u32 data 0))
  | dissector {c : UInt64} {ctx : SockoptCtx} {env : OptEnv} {k : Key} :
      Posted s (.setsockopt c ctx env) (.setDissector k)

/-- The ring grows by one message at its end or shrinks by one at its head. -/
inductive RingChange (s : Sys) (a : Action) (t : Sys) : Prop
  | same (h : t.ring = s.ring)
  | posted (m : Msg) (hm : Posted s a m) (h : t.ring = s.ring ++ [m])
  | handled (env : DaemonEnv) (ha : a = .handle env) (m : Msg) (h : s.ring = m :: t.ring)

theorem setsockopt_ring {env : OptEnv} {ctx : SockoptCtx} {r : OptRet} {now : UInt64}
    (h : SetsockoptEffect p env (s.tick now) c ctx r t) :
    RingChange s (.setsockopt c ctx env) t := by
  cases h with
  | untouched => exact .same rfl
  | @body sock' ss b _ st created data o _ hs hss hb hd ho hn he =>
    have hb' : b.ring = s.ring := by cases hb <;> rfl
    cases he with
    | stay | verbose | undo | flow | socketApp => exact .same hb'
    | workingGen => exact .posted _ (.announce hs hss ho hd) (by simp [Sys.push, Sys.setGroup, hb'])
    | socketGen hg =>
      exact .posted _ (.register hs hss ho hd hg) (by simp [Sys.push, Sys.setStorage, hb'])
    | install =>
      exact .posted _ (.dissector (k := sock'.key)) (by simp [Sys.push, Sys.setGroup, hb'])

theorem acceptSocket_ring (env : DaemonEnv) (s : Sys) (k : Key) (st : ReuseportStorage)
    (ss : SocketStorage) (cookie : UInt64) (gen : UInt32) (pos len f : ℕ) :
    (acceptSocket env s k st ss cookie gen pos len f).ring = s.ring := by
  unfold acceptSocket
  simp only [Sys.setStorage, Sys.setGroup]
  split <;> rfl

theorem Accepted.ring {env : DaemonEnv} (h : Accepted s env t) : t.ring = h.rest :=
  (congrArg Sys.ring h.after_eq).trans (acceptSocket_ring ..)

theorem handle_ring {env : DaemonEnv} (h : execute p s (.handle env) = some t) :
    ∃ m, s.ring = m :: t.ring := by
  cases execute_effect h with
  | ignored _ hr | notFound _ hr | announced _ hr | crashed _ hr => exact ⟨_, hr⟩
  | accepted hacc => exact ⟨_, hacc.ring ▸ hacc.ring_eq⟩

theorem ring_change (h : execute p s a = some t) : RingChange s a t := by
  cases execute_effect h with
  | socket _ _ | close _ | cleanup _ _ | delete => exact .same rfl
  | @bind c' ctx _ =>
    rcases bpfBind_cases s c' ctx with h | ⟨k, hs, h⟩ <;> rw [h] <;> exact .same rfl
  | setsockopt _ _ _ => exact setsockopt_ring (udpgrmSetsockopt_effect ..)
  | @sendmsg c' dst env _ _ _ =>
    rcases udpSendmsg_cases p env (s.tick env.later) c' dst with h | ⟨_, _, _, _, _, _, _, h⟩ <;>
      rw [h] <;> exact .same rfl
  | @packet r now md _ _ =>
    rcases receive_cases p (s.tick now) r md now with h | ⟨_, _, _, _, h⟩ <;> rw [h] <;>
      exact .same rfl
  | ignored | notFound | announced | crashed | accepted =>
    obtain ⟨m, hr⟩ := handle_ring h
    exact .handled _ rfl m hr

/-- What a UDP_GRM_SOCKET_GEN call does to its socket and to the ring. -/
inductive GenCall (s : Sys) (c : UInt64) (ctx : SockoptCtx) (env : OptEnv) (r : OptRet) (t : Sys) :
    Prop
  | failed (hr : r ≠ .ok) (hs : t.socks = s.socks) (hq : t.ring = s.ring)
  | kept (sock : Sock) (ss : SocketStorage) (data : List UInt8) (hr : r = .ok)
      (hc : s.socks c = some sock) (hss : sock.storage = some ss)
      (hd : copyIn ctx.optval = some data) (hg : ss.sockGen = u32 data 0)
      (hi : ss.sockIdx ≠ UNSET) (hs : t.socks = s.socks) (hq : t.ring = s.ring)
  | posted (sock : Sock) (ss : SocketStorage) (data : List UInt8) (hr : r = .ok)
      (hc : s.socks c = some sock) (hss : sock.storage = some ss)
      (hd : copyIn ctx.optval = some data)
      (hs : t.socks = (s.setStorage c { ss with sockGen := u32 data 0 }).socks)
      (hq : t.ring = s.ring ++
        [.registerSocket sock.key env.pid ss.soCookie (u32 data 0) ss.sockApp])

theorem setsockopt_genCall (p : Programs) (env : OptEnv) (s : Sys) (c : UInt64) (ctx : SockoptCtx)
    (ho : ctx.opt = some .socketGen) :
    GenCall s c ctx env (udpgrmSetsockopt p env s c ctx).1 (udpgrmSetsockopt p env s c ctx).2 := by
  unfold udpgrmSetsockopt
  rw [ho]
  dsimp only
  split
  · exact .failed (by simp) rfl rfl
  · split
    · exact .failed (by simp) rfl rfl
    · rename_i data hd
      split
      · exact .failed (by simp) rfl rfl
      · rename_i k ss hsock
        obtain ⟨sock, hs, hss⟩ := Option.bind_eq_some_iff.mp hsock
        obtain ⟨ss', hss, hks⟩ := Option.map_eq_some_iff.mp hss
        cases hks
        split
        · exact .failed (by simp) rfl rfl
        · rename_i b st created hg
          have hb := getStateCreate_base hg
          have hbs : b.socks = s.socks := hb.socks
          have hbr : b.ring = s.ring := by cases hb <;> rfl
          split
          · exact .failed (by simp) hbs hbr
          · simp only [setsockoptBody]
            split
            · split
              · refine .posted sock ss data rfl hs hss hd ?_ ?_
                · simp [Sys.push, Sys.setStorage, hbs]
                · simp [Sys.push, Sys.setStorage, hbr]
              · exact .failed (by simp) hbs hbr
            · rename_i hne
              rw [not_or, not_not] at hne
              exact .kept sock ss data rfl hs hss hd hne.1 hne.2 hbs hbr

/-! ### Live sockets -/

theorem Sys.alive_of_isOpen (h : s.isOpen c = true) : s.alive c = true := by
  simp [Sys.alive, h]

@[simp] theorem Sys.mem_reap : c ∈ s.reap.sockhash ↔ c ∈ s.sockhash ∧ s.alive c = true := by
  simp [Sys.reap]

@[simp] theorem setStorage_isOpen (s : Sys) (c c' : UInt64) (ss : SocketStorage) :
    (s.setStorage c' ss).isOpen c = s.isOpen c := by
  unfold Sys.isOpen
  rw [setStorage_socks]
  split
  · simp [Option.any_map]
  · rfl

theorem mem_sockhashUpdate {h h' : Finset UInt64} {cookie : UInt64}
    (hu : sockhashUpdate h cookie = some h') : c ∈ h' ↔ c ∈ h ∨ c = cookie := by
  unfold sockhashUpdate at hu
  split_ifs at hu with hmem
  · cases hu
    constructor
    · exact .inl
    · rintro (hc | rfl)
      · exact hc
      · exact hmem
  · cases hu
    rw [Finset.mem_insert, or_comm]

theorem acceptSocket_sockhash (env : DaemonEnv) (s : Sys) (k : Key) (st : ReuseportStorage)
    (ss : SocketStorage) (cookie : UInt64) (gen : UInt32) (pos len f : ℕ) :
    (acceptSocket env s k st ss cookie gen pos len f).sockhash ⊆ s.sockhash ∧
      ∀ c ∈ s.sockhash, s.isOpen c = true →
        c ∈ (acceptSocket env s k st ss cookie gen pos len f).sockhash := by
  unfold acceptSocket
  simp only [Sys.setStorage, Sys.setGroup]
  split
  · exact ⟨fun _ h => h, fun _ h _ => h⟩
  · refine ⟨fun c hc => (Sys.mem_reap.mp hc).1, fun c hc ho => Sys.mem_reap.mpr ⟨hc, ?_⟩⟩
    exact Sys.alive_of_isOpen ho

theorem Accepted.sockhash_sub {env : DaemonEnv} (h : Accepted s env t) (hc : c ∈ t.sockhash) :
    c ∈ s.sockhash ∨ c = h.cookie := by
  rw [h.after_eq] at hc
  exact (mem_sockhashUpdate h.sockhash_eq).mp ((acceptSocket_sockhash ..).1 hc)

theorem Accepted.mem_sockhash {env : DaemonEnv} (h : Accepted s env t)
    (hc : c ∈ s.sockhash ∨ c = h.cookie) (ho : s.isOpen c = true) : c ∈ t.sockhash := by
  have hmem : c ∈ h.sockhash := (mem_sockhashUpdate h.sockhash_eq).mpr hc
  have hafter := (acceptSocket_sockhash env
    { s.tick env.now with ring := h.rest, sockhash := h.sockhash } h.k h.st h.ss h.cookie h.wg
    h.pos h.len h.f).2 c hmem ho
  rwa [← h.after_eq] at hafter

theorem setsockopt_sockhash {env : OptEnv} {ctx : SockoptCtx} {r : OptRet}
    (h : SetsockoptEffect p env s c ctx r t) : t.sockhash = s.sockhash := by
  cases h with
  | untouched => rfl
  | body _ _ hb _ _ _ he => cases hb <;> cases he <;> rfl

/-- Registrations add to `sockhash`; every other step only drops sockets that are dead. -/
theorem sockhash_step (h : execute p s a = some t) :
    (∃ env, a = .handle env ∧ Nonempty (Accepted s env t)) ∨
      (t.sockhash ⊆ s.sockhash ∧ ∀ c ∈ s.sockhash, t.alive c = true → c ∈ t.sockhash) := by
  have hsame : t.sockhash = s.sockhash →
      t.sockhash ⊆ s.sockhash ∧ ∀ c ∈ s.sockhash, t.alive c = true → c ∈ t.sockhash :=
    fun he => ⟨he.subset, fun c hc _ => he ▸ hc⟩
  cases execute_effect h with
  | socket _ _ | delete | ignored _ _ _ _ | notFound _ _ _ _ _ _ => exact .inr (hsame rfl)
  | @bind c' ctx _ =>
    right
    rcases bpfBind_cases s c' ctx with h | ⟨k, hs, h⟩ <;> rw [h] at hsame ⊢ <;>
      exact hsame rfl
  | @setsockopt c ctx env _ _ _ =>
    have he := setsockopt_sockhash (udpgrmSetsockopt_effect p env (s.tick env.flow.later) c ctx)
    exact .inr (hsame he)
  | @sendmsg c' dst env _ _ _ =>
    right
    rcases udpSendmsg_cases p env (s.tick env.later) c' dst with h | ⟨_, _, _, _, _, _, _, h⟩ <;>
      rw [h] at hsame ⊢ <;> exact hsame rfl
  | @packet r now md _ _ =>
    right
    rcases receive_cases p (s.tick now) r md now with h | ⟨_, _, _, _, h⟩ <;>
      rw [h] at hsame ⊢ <;> exact hsame rfl
  | announced _ _ _ _ _ | crashed _ _ _ _ _ | close _ | cleanup _ _ =>
    exact .inr ⟨fun c hc => (Sys.mem_reap.mp hc).1, fun c hc ha => Sys.mem_reap.mpr ⟨hc, ha⟩⟩
  | @accepted env _ hacc => exact .inl ⟨env, rfl, ⟨hacc⟩⟩

/-! ### The clock -/

theorem setsockopt_clock {env : OptEnv} {ctx : SockoptCtx} {r : OptRet}
    (h : SetsockoptEffect p env s c ctx r t) : t.clock = s.clock := by
  cases h with
  | untouched => rfl
  | body _ _ hb _ _ _ he => cases hb <;> cases he <;> rfl

theorem acceptSocket_clock (env : DaemonEnv) (s : Sys) (k : Key) (st : ReuseportStorage)
    (ss : SocketStorage) (cookie : UInt64) (gen : UInt32) (pos len f : ℕ) :
    (acceptSocket env s k st ss cookie gen pos len f).clock = s.clock := by
  unfold acceptSocket
  simp only [Sys.setStorage, Sys.setGroup]
  split <;> rfl

/-- The clock never goes backwards. -/
theorem clock_step (h : execute p s a = some t) : s.clock ≤ t.clock := by
  cases execute_effect h with
  | socket | close | delete => exact UInt64.le_refl _
  | @bind c ctx =>
    rcases bpfBind_cases s c ctx with h | ⟨_, _, h⟩ <;> rw [h] <;> exact UInt64.le_refl _
  | setsockopt _ hnow hlater =>
    rw [setsockopt_clock (udpgrmSetsockopt_effect ..)]
    exact UInt64.le_trans hnow hlater
  | @sendmsg c dst env _ hnow hlater =>
    rcases udpSendmsg_cases p env (s.tick env.later) c dst with h | ⟨_, _, _, _, _, _, _, h⟩ <;>
      rw [h] <;> exact UInt64.le_trans hnow hlater
  | @packet r now md _ hnow =>
    rcases receive_cases p (s.tick now) r md now with h | ⟨_, _, _, _, h⟩ <;> rw [h] <;> exact hnow
  | ignored hnow | notFound hnow | announced hnow | crashed hnow | cleanup hnow => exact hnow
  | accepted hacc =>
    rw [congrArg Sys.clock hacc.after_eq, acceptSocket_clock]
    exact hacc.now_le

end Udpgrm
