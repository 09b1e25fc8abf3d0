import Udpgrm.CookieTable
import Udpgrm.Isolation

/-! One group used by a single application of one namespace, with no group left to Tubular. -/
namespace Udpgrm

open LittleEndian

variable {p : Programs} {k : Key} {ns c : UInt64}

/-- The steps of such a system. -/
def singleAppStep (k : Key) (ns : UInt64) (s : Sys) : Action → Bool
  | .socket _ sk netnsCookie => decide (skeyFromBpfSock sk = k → netnsCookie = ns)
  | .setsockopt c ctx _ =>
    match ctx.opt, copyIn ctx.optval with
    | some .dissector, some data =>
      !(Dissector.ofBytes data).labelled &&
        decide ((s.socks c).map Sock.key = some k → (Dissector.ofBytes data).maxApps.toNat ≤ 1)
    | _, _ => true
  | .delete k' => decide (k' ≠ k)
  | _ => true

/-- The registration that the daemon is working on. -/
def DaemonPc.fishing : DaemonPc → Option Fishing
  | .idle => none
  | .reading r => some r
  | .scanning r _ _ | .entered r _ _ _ | .published r _ _ | .closing r _ => some r.toFishing

/-- The daemon holds the descriptor that it has fished, and no other. -/
def DaemonPc.held (pc : DaemonPc) : List (ℕ × UInt64) :=
  pc.fishing.toList.map fun r => (r.f, r.cookie)

/-- The descriptor is kept for Tubular. -/
def DaemonPc.keeps : DaemonPc → Bool
  | .published _ _ keep | .closing _ keep => keep
  | .idle | .reading _ | .scanning _ _ _ | .entered _ _ _ _ => false

structure SingleFishing (k : Key) (s : Sys) (r : Fishing) : Prop where
  sock : ∃ sock, s.socks r.cookie = some sock ∧ sock.key = r.k
  unlabelled : r.st.dis.labelled = false
  maxApps : r.k = k → r.st.dis.maxApps.toNat ≤ 1
  app : r.k = k → r.app = 0

/-- The daemon keeps no descriptors, so `sockhash` holds open sockets and the one that is being
registered, and every socket and every registration of the group belongs to application zero. -/
structure SingleApp (k : Key) (ns : UInt64) (s : MicroSys) : Prop where
  wf : CopyWf s
  fds : s.sys.fds = s.daemon.held
  keeps : s.daemon.keeps = false
  live_alive : ∀ c ∈ s.sys.sockhash, s.sys.alive c = true
  unlabelled : ∀ k' st, s.sys.groups k' = some st → st.dis.labelled = false
  maxApps : ∀ st, s.sys.groups k = some st → st.dis.maxApps.toNat ≤ 1
  netns : ∀ c sock, s.sys.socks c = some sock → sock.key = k → sock.netnsCookie = ns
  app : ∀ c sock, s.sys.socks c = some sock → sock.key = k → sock.app = 0
  pending : ∀ pid cookie gen app, .registerSocket k pid cookie gen app ∈ s.sys.ring → app = 0
  fishing : ∀ r, s.daemon.fishing = some r → SingleFishing k s.sys r
  copy : ∀ r, s.daemon.copy = some r → r.k = k → r.ss.sockApp = 0

theorem SingleApp.initial : SingleApp k ns .initial := by
  refine ⟨⟨.initial, ?_⟩, rfl, rfl, ?_, ?_, ?_, ?_, ?_, ?_, ?_, ?_⟩ <;>
    simp [MicroSys.initial, Sys.initial, DaemonPc.fishing, DaemonPc.copy]

section State

variable {s : MicroSys}

theorem SingleApp.alive_iff (h : SingleApp k ns s) : s.sys.alive c = true ↔
    s.sys.isOpen c = true ∨ ∃ r, s.daemon.fishing = some r ∧ r.cookie = c := by
  rw [Sys.alive_iff, h.fds, DaemonPc.held]
  simp

theorem SingleApp.known (h : SingleApp k ns s) (hc : c ∈ s.sys.sockhash) :
    (s.sys.socks c).isSome := by
  rcases h.alive_iff.mp (h.live_alive c hc) with ho | ⟨r, hr, rfl⟩
  · obtain ⟨sock, hs, _⟩ := Sys.isOpen_iff.mp ho
    simp [hs]
  · obtain ⟨sock, hs, _⟩ := (h.fishing r hr).sock
    simp [hs]

theorem SingleApp.not_zero (h : SingleApp k ns s) : 0 ∉ s.sys.sockhash := by
  intro hz
  obtain ⟨sock, hs⟩ := Option.isSome_iff_exists.mp (h.known hz)
  exact h.wf.socks.ne_zero 0 sock hs rfl

end State

/-! ### Steps of hooks and applications -/

section Sys

variable {s : MicroSys} {t : Sys} {a : Action}

theorem singleApp_fds (ha : s.admits a = true) (h : execute p s.sys a = some t)
    (hs : s.sys.fds = s.daemon.held) : t.fds = s.daemon.held := by
  cases hd : s.daemon.isIdle with
  | true =>
    have hnil : s.daemon.held = [] := by
      cases hpc : s.daemon <;> simp [hpc, DaemonPc.isIdle, DaemonPc.held, DaemonPc.fishing] at hd ⊢
    rw [hnil] at hs ⊢
    refine List.eq_nil_iff_forall_not_mem.mpr fun q hq => ?_
    have hold := fds_sub h (not_accepted ha) q hq
    simp [hs] at hold
  | false =>
    rw [← hs]
    refine fds_hook h ?_ ?_
    · rintro env rfl
      simp [MicroSys.admits, hd] at ha
    · rintro now rfl
      simp [MicroSys.admits, hd] at ha

/-- The dissector of a group that a step creates. -/
theorem GroupBirth.singleApp {s : Sys} {ctx : SockoptCtx} {env : OptEnv} {st : ReuseportStorage}
    (h : GroupBirth p ctx st) (hc : singleAppStep k ns s (.setsockopt c ctx env) = true) :
    st.dis.labelled = false ∧
      ((s.socks c).map Sock.key = some k → st.dis.maxApps.toNat ≤ 1) := by
  cases h with
  | implicit env ss h =>
    rw [h.sameTable.dis]
    exact ⟨rfl, fun _ => Nat.zero_le 1⟩
  | install env ss data hd ho _ h =>
    subst h
    simp only [singleAppStep, ho, hd, Bool.and_eq_true, Bool.not_eq_true', decide_eq_true_eq] at hc
    exact hc

theorem singleApp_dis (h : execute p s.sys a = some t) (hc : singleAppStep k ns s.sys a = true)
    (hs : SingleApp k ns s) : ∀ k' st, t.groups k' = some st →
      st.dis.labelled = false ∧ (k' = k → st.dis.maxApps.toNat ≤ 1) := by
  intro k' st' hk'
  cases group_change h hk' with
  | kept st hst hstep =>
    rw [hstep.dis_eq]
    refine ⟨hs.unlabelled k' st hst, ?_⟩
    rintro rfl
    exact hs.maxApps st hst
  | born c ctx env ha hkey _ hb =>
    subst ha
    obtain ⟨hl, hm⟩ := hb.singleApp hc
    exact ⟨hl, fun he => hm (he ▸ hkey)⟩

/-- A socket of the group stays with application zero. -/
theorem SockStep.app_zero {sock sock' : Sock} (h : SockStep s.sys a t c sock sock')
    (hs : SingleApp k ns s) (hkey : sock.key = k) (happ : sock.app = 0) : sock'.app = 0 := by
  cases h with
  | same | closed => exact happ
  | bound => exact happ
  | generation _ _ _ _ _ _ ss hss =>
    rw [Sock.app, hss] at happ
    exact happ
  | index _ _ hacc _ hss =>
    rw [Sock.app, hss] at happ
    exact happ
  | application _ _ _ _ _ _ _ app hlt =>
    rw [hkey, UInt32.lt_iff_toNat_lt] at hlt
    have hzero : app.toNat = 0 := by
      cases hst : s.sys.groups k with
      | none => simp [xmaxApps, hst] at hlt
      | some st =>
        have := hs.maxApps st hst
        rw [xmaxApps_of_group hst] at hlt
        omega
    exact UInt32.toNat_inj.mp hzero

theorem SingleApp.sys (ha : s.admits a = true) (h : execute p s.sys a = some t)
    (hc : singleAppStep k ns s.sys a = true) (hs : SingleApp k ns s) :
    SingleApp k ns ⟨t, s.daemon⟩ where
  wf := ⟨SocksWf.step h hs.wf.socks, hs.wf.copy⟩
  fds := singleApp_fds (s := s) ha h hs.fds
  keeps := hs.keeps
  live_alive := alive_step h hs.live_alive
  unlabelled k' st hk' := (singleApp_dis h hc hs k' st hk').1
  maxApps st hk' := (singleApp_dis h hc hs k st hk').2 rfl
  netns c sock' hs' hkey := by
    cases hold : s.sys.socks c with
    | none =>
      obtain ⟨sk, netns, rfl, _, rfl⟩ := sock_new h hold hs'
      exact of_decide_eq_true hc hkey
    | some sock =>
      obtain ⟨sock'', hs'', hstep⟩ := sock_step h hold
      rw [hs', Option.some.injEq] at hs''
      subst hs''
      exact hstep.identity.2.trans (hs.netns c sock hold (hstep.key_eq ▸ hkey))
  app c sock' hs' hkey := by
    rcases sock_origin h hs' with ⟨sock, hold, hstep⟩ | ⟨_, _, hnone⟩
    · have hkey' : sock.key = k := hstep.key_eq ▸ hkey
      exact hstep.app_zero hs hkey' (hs.app c sock hold hkey')
    · rw [Sock.app, hnone]
      rfl
  pending pid cookie gen app hm := by
    cases ring_change h with
    | same hr => exact hs.pending pid cookie gen app (hr ▸ hm)
    | handled _ _ m hr => exact hs.pending pid cookie gen app (hr ▸ List.mem_cons_of_mem m hm)
    | posted m hp hr =>
      rw [hr, List.mem_append, List.mem_singleton] at hm
      rcases hm with hm | hm
      · exact hs.pending pid cookie gen app hm
      · generalize hkey : k = k' at hm
        cases hm
        cases hp with
        | register hsock hss =>
          have happ := hs.app _ _ hsock hkey.symm
          rwa [Sock.app, hss] at happ
  fishing r hr := by
    obtain ⟨⟨sock, hsock, hkey⟩, hl, hm, happ⟩ := hs.fishing r hr
    obtain ⟨sock', hsock', hstep⟩ := sock_step h hsock
    exact ⟨⟨sock', hsock', hstep.key_eq.trans hkey⟩, hl, hm, happ⟩
  copy := hs.copy

end Sys

/-! ### Steps of the daemon -/

section Daemon

variable {s t : MicroSys}

/-- What the daemon forgets is of no use to the others. -/
theorem SingleApp.release {t : Sys} (hs : SingleApp k ns s) (hg : t.groups = s.sys.groups)
    (hsocks : t.socks = s.sys.socks) (hr : ∀ m ∈ t.ring, m ∈ s.sys.ring) (hf : t.fds = [])
    (hlive : ∀ c ∈ t.sockhash, t.alive c = true) : SingleApp k ns ⟨t, .idle⟩ where
  wf := ⟨hs.wf.socks.of_eq hsocks hr, by rintro _ ⟨⟩⟩
  fds := hf
  keeps := rfl
  live_alive := hlive
  unlabelled := hg ▸ hs.unlabelled
  maxApps := hg ▸ hs.maxApps
  netns := hsocks ▸ hs.netns
  app := hsocks ▸ hs.app
  pending pid cookie gen app hm := hs.pending pid cookie gen app (hr _ hm)
  fishing := by rintro _ ⟨⟩
  copy := by rintro _ ⟨⟩

theorem SingleApp.crash (hs : SingleApp k ns s) : SingleApp k ns s.crash :=
  hs.release rfl rfl (fun _ hm => hm) rfl fun _ hc => (Sys.mem_reap.mp hc).2

theorem SingleApp.fish {env : DaemonEnv} (h : s.fish env = some t) (hs : SingleApp k ns s) :
    SingleApp k ns t := by
  have hwf : CopyWf t := copyWf_step (p := .const) (a := .fish env) h hs.wf
  cases fish_effect (p := .const) h with
  | @lost _ m rest hd hr =>
    exact hs.release rfl rfl (fun m hm => hr ▸ List.mem_cons_of_mem _ hm) rfl
      fun _ hc => (Sys.mem_reap.mp hc).2
  | @fished _ k' pid gen app cookie rest f st hd hr ho hk =>
    have hfds : s.sys.fds = [] := by
      rw [hs.fds, hd]
      rfl
    have hring : ∀ m ∈ rest, m ∈ s.sys.ring := fun m hm => hr ▸ List.mem_cons_of_mem _ hm
    have hm : .registerSocket k' pid cookie gen app ∈ s.sys.ring := by simp [hr]
    refine ⟨hwf, by simp [hfds, DaemonPc.held, DaemonPc.fishing], rfl, ?_, hs.unlabelled,
      hs.maxApps, hs.netns, hs.app,
      fun pid cookie gen app hm => hs.pending pid cookie gen app (hring _ hm), ?_,
      by rintro _ ⟨⟩⟩
    · intro c hc
      have halive := hs.live_alive c hc
      rw [Sys.alive_iff] at halive ⊢
      exact halive.imp_right fun ⟨q, hq, hqc⟩ => ⟨q, List.mem_cons_of_mem _ hq, hqc⟩
    · rintro r ⟨⟩
      refine ⟨hs.wf.socks.pending k' pid cookie gen app hm, hs.unlabelled k' st hk, ?_, ?_⟩
      · rintro rfl
        exact hs.maxApps st hk
      · rintro rfl
        exact hs.pending pid cookie gen app hm

/-- The sockets keep their keys and namespaces, and those of the group their application. -/
theorem DaemonEffect.identity {sock' : Sock} (h : DaemonEffect s t) (hs : SingleApp k ns s)
    (hsock' : t.sys.socks c = some sock') : ∃ sock, s.sys.socks c = some sock ∧
      sock'.key = sock.key ∧ sock'.netnsCookie = sock.netnsCookie ∧
      (sock'.key = k → sock.app = 0 → sock'.app = 0) := by
  cases hc : s.sys.socks c with
  | none =>
    rw [h.sock_none hc] at hsock'
    cases hsock'
  | some sock =>
    rcases h.sock hc with hkept | ⟨r, pos, keep, hd, rfl, hkept⟩ <;>
      obtain rfl := Option.some.inj (hkept.symm.trans hsock')
    · exact ⟨sock, rfl, rfl, rfl, fun _ happ => happ⟩
    · refine ⟨sock, rfl, rfl, rfl, fun hkey _ => ?_⟩
      obtain ⟨sock₀, hsock₀, hkey₀⟩ := (hs.fishing r.toFishing (by rw [hd]; rfl)).sock
      obtain rfl := Option.some.inj (hc.symm.trans hsock₀)
      exact hs.copy r (by rw [hd]; rfl) (hkey₀.symm.trans hkey)

/-- A step with the descriptor still in hand. -/
theorem SingleApp.go_on (hs : SingleApp k ns s) (hwf : CopyWf t) (h : DaemonEffect s t)
    (hf : t.sys.fds = s.sys.fds) (hd : t.daemon.fishing = s.daemon.fishing)
    (hk : t.daemon.keeps = false) (hlive : ∀ c ∈ t.sys.sockhash, t.sys.alive c = true)
    (hcopy : ∀ r, t.daemon.copy = some r → r.k = k → r.ss.sockApp = 0) : SingleApp k ns t where
  wf := hwf
  fds := by rw [hf, hs.fds, DaemonPc.held, DaemonPc.held, hd]
  keeps := hk
  live_alive := hlive
  unlabelled k' st' hk' := by
    obtain ⟨st, hk, hdis⟩ := h.dis hk'
    exact hdis ▸ hs.unlabelled k' st hk
  maxApps st' hk' := by
    obtain ⟨st, hk, hdis⟩ := h.dis hk'
    exact hdis ▸ hs.maxApps st hk
  netns c sock' hsock' hkey' := by
    obtain ⟨sock, hsock, hkey, hns, _⟩ := h.identity hs hsock'
    exact hns.trans (hs.netns c sock hsock (hkey ▸ hkey'))
  app c sock' hsock' hkey' := by
    obtain ⟨sock, hsock, hkey, _, happ⟩ := h.identity hs hsock'
    exact happ hkey' (hs.app c sock hsock (hkey ▸ hkey'))
  pending := h.ring ▸ hs.pending
  fishing r hr := by
    obtain ⟨⟨sock, hsock, hkey⟩, hl, hm, happ⟩ := hs.fishing r (hd ▸ hr)
    rcases h.sock hsock with hsock' | ⟨_, _, _, _, _, hsock'⟩ <;>
      exact ⟨⟨_, hsock', hkey⟩, hl, hm, happ⟩
  copy := hcopy

theorem SingleApp.daemon (h : s.daemonStep = some t) (hs : SingleApp k ns s) :
    SingleApp k ns t := by
  have hwf : CopyWf t := copyWf_step (p := .const) (a := .daemon) h hs.wf
  have heff := daemonStep_effect h
  have hgo := hs.go_on hwf heff
  have hkeeps := hs.keeps
  have hcopy := hs.copy
  cases heff with
  | crashed => exact hs.crash
  | @read r ss wg hd hss =>
    refine hgo rfl (by rw [hd]; rfl) rfl hs.live_alive ?_
    rintro r' ⟨⟩ hkey
    obtain ⟨sock, hsock, hss⟩ := Option.bind_eq_some_iff.mp hss
    obtain ⟨sock₀, hsock₀, hkey₀⟩ := (hs.fishing r (by rw [hd]; rfl)).sock
    obtain rfl := Option.some.inj (hsock.symm.trans hsock₀)
    have happ := hs.app _ sock hsock (hkey₀.trans hkey)
    rwa [Sock.app, hss] at happ
  | looked hd =>
    rw [hd] at hcopy
    exact hgo rfl (by rw [hd]; rfl) rfl hs.live_alive hcopy
  | refused hd => exact hgo rfl (by rw [hd]; rfl) rfl hs.live_alive (by rintro _ ⟨⟩)
  | @entered r seen found pos sockhash hd hge hf hsh =>
    rw [hd] at hcopy
    refine hgo rfl (by rw [hd]; rfl) rfl ?_ hcopy
    intro c hc
    rcases (mem_sockhashUpdate hsh).mp hc with hc | rfl
    · exact hs.live_alive c hc
    · exact hs.alive_iff.mpr (.inr ⟨r.toFishing, by rw [hd]; rfl, rfl⟩)
  | @published r seen pos len st base keep hd hk hb =>
    rw [hd] at hcopy
    rcases hb with ⟨rfl, rfl⟩ | ⟨hl, _⟩
    · exact hgo rfl (by rw [hd]; rfl) rfl hs.live_alive hcopy
    · have hl' := (hs.fishing r.toFishing (by rw [hd]; rfl)).unlabelled
      simp [hl] at hl'
  | @wrote r pos keep hd =>
    rw [hd] at hkeeps
    refine hgo rfl (by rw [hd]; rfl) hkeeps ?_ (by rintro _ ⟨⟩)
    intro c hc
    have halive := hs.live_alive c hc
    rw [Sys.alive_iff] at halive ⊢
    rwa [setStorage_isOpen]
  | @closed r keep hd =>
    rw [hd] at hkeeps
    obtain rfl : keep = false := hkeeps
    refine hs.release rfl rfl (fun _ hm => hm) ?_ fun _ hc => (Sys.mem_reap.mp hc).2
    have hfds := hs.fds
    rw [hd] at hfds
    simp [Sys.closeFds, Sys.reap, hfds, DaemonPc.held, DaemonPc.fishing]

end Daemon

end Udpgrm
