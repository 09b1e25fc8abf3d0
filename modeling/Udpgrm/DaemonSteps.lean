import Udpgrm.Handover
import Udpgrm.Registration

/-!
The registration of a socket as the daemon carries it out, one system call at a time, while
applications and hooks go on.
-/
namespace Udpgrm

/-- A registration message, the daemon's copy of the group, and the descriptor it fished. -/
structure Fishing where
  k : Key
  cookie : UInt64
  gen : UInt32
  app : UInt32
  st : ReuseportStorage
  f : ℕ

/-- The same with the copy of the socket storage, and the row. -/
structure Placing extends Fishing where
  ss : SocketStorage
  wg : UInt32

/-- Where the daemon stands in `handle_msg`. `seen` lists what the slot search found so far;
the program keeps the results of the search only. -/
inductive DaemonPc
  | idle
  | reading (r : Fishing)
  | scanning (r : Placing) (seen : List Bool) (found : FindEmpty)
  | entered (r : Placing) (seen : List Bool) (pos len : ℕ)
  | published (r : Placing) (pos : ℕ) (keep : Bool)
  | closing (r : Placing) (keep : Bool)

structure MicroSys where
  sys : Sys
  daemon : DaemonPc

namespace MicroSys

def initial : MicroSys := ⟨.initial, .idle⟩

def crash (s : MicroSys) : MicroSys := ⟨s.sys.crash, .idle⟩

/-- The message is popped, the group copied and the socket fished. -/
def fish (s : MicroSys) (env : DaemonEnv) : Option MicroSys :=
  match s.daemon, s.sys.ring, env.fished with
  | .idle, .registerSocket k pid cookie gen app :: rest, .found f =>
    if s.sys.clock ≤ env.now ∧ s.sys.exited = false ∧
        fishable s.sys env (.registerSocket k pid cookie gen app) = true then
      match s.sys.groups k with
      | none => some (⟨{ s.sys.tick env.now with ring := rest }, .idle⟩ : MicroSys).crash
      | some st =>
        some ⟨{ s.sys.tick env.now with ring := rest, fds := (f, cookie) :: s.sys.fds },
          .reading ⟨k, cookie, gen, app, st, f⟩⟩
    else none
  | _, _, _ => none

/-- The next step of the daemon on the registration it is working on. -/
def daemonStep (s : MicroSys) : Option MicroSys :=
  match s.daemon with
  | .idle => none
  | .reading r =>
    match (s.sys.socks r.cookie).bind (·.storage) with
    | none => some s.crash
    | some ss =>
      match toWrkGen? r.st.dis.maxApps r.app r.gen with
      | none => some s.crash
      | some wg => some ⟨s.sys, .scanning ⟨r, ss, wg⟩ [] ⟨none, none, 0⟩⟩
  | .scanning r seen found =>
    if seen.length < MAX_SOCKETS_IN_GEN then
      let row := genRow r.wg
      some ⟨s.sys, .scanning r (seen ++ [rowLive r.st row s.sys.sockhash seen.length])
        (findEmptyStep (rowCookies r.st row) s.sys.sockhash r.cookie found seen.length)⟩
    else
      match found.freePos with
      | none => some ⟨s.sys, .closing r false⟩
      | some pos =>
        match sockhashUpdate s.sys.sockhash r.cookie with
        | none => some s.crash
        | some sockhash =>
          some ⟨{ s.sys with sockhash := sockhash }, .entered r seen pos found.genLen⟩
  | .entered r _ pos len =>
    match s.sys.groups r.k with
    | none => some s.crash
    | some st =>
      let st' := st.setCookie r.wg (UInt32.ofNat pos) (UInt32.ofNat len) r.cookie
      match tubularMaybePreserveFd s.sys.tubular r.st r.wg len (Fin.ofNat MAX_SOCKETS_IN_GEN pos)
          r.f s.sys.clock with
      | none => some ⟨s.sys.setGroup r.k st', .published r pos false⟩
      | some (store, closed) =>
        some ⟨(({ s.sys with tubular := store } : Sys).closeFds closed).setGroup r.k st',
          .published r pos true⟩
  | .published r pos keep =>
    some ⟨s.sys.setStorage r.cookie { r.ss with sockIdx := UInt32.ofNat pos }, .closing r keep⟩
  | .closing r keep => some ⟨if keep then s.sys else s.sys.closeFds [r.f], .idle⟩

end MicroSys

inductive MicroAction
  | sys (a : Action)
  | fish (env : DaemonEnv)
  | daemon

def DaemonPc.isIdle : DaemonPc → Bool
  | .idle => true
  | _ => false

/-- The next message is a registration and its socket is found. -/
def registersFished (s : Sys) (env : DaemonEnv) : Bool :=
  match s.ring, env.fished with
  | .registerSocket _ _ _ _ _ :: _, .found _ => true
  | _, _ => false

/-- The daemon has one thread: it handles a message or cleans up only between registrations,
and a registration whose socket it finds takes the steps above. -/
def MicroSys.admits (s : MicroSys) : Action → Bool
  | .handle env => s.daemon.isIdle && !registersFished s.sys env
  | .cleanup _ => s.daemon.isIdle
  | _ => true

def microExecute (p : Programs) (s : MicroSys) : MicroAction → Option MicroSys
  | .sys a => if s.admits a then (execute p s.sys a).map fun t => ⟨t, s.daemon⟩ else none
  | .fish env => s.fish env
  | .daemon => s.daemonStep

def microSystem (p : Programs) : Transition.LTS MicroSys MicroAction := .ofFn (microExecute p)

abbrev MicroRun (p : Programs) (s : MicroSys) (as : List MicroAction) (t : MicroSys) : Prop :=
  Transition.Run (microSystem p) s as t

/-! ### What one step can do -/

/-- The next step on the registration is fatal. -/
def MicroSys.Fails (s : MicroSys) : Prop :=
  match s.daemon with
  | .reading r => (s.sys.socks r.cookie).bind (·.storage) = none ∨
      toWrkGen? r.st.dis.maxApps r.app r.gen = none
  | .scanning r _ _ => sockhashUpdate s.sys.sockhash r.cookie = none
  | .entered r _ _ _ => s.sys.groups r.k = none
  | .idle | .published _ _ _ | .closing _ _ => False

theorem MicroSys.Fails.not_published {s : MicroSys} (h : s.Fails) (r : Placing) (pos : ℕ)
    (keep : Bool) : s.daemon ≠ .published r pos keep := by
  intro hd
  rw [MicroSys.Fails, hd] at h
  exact h

theorem MicroSys.Fails.group_none {s : MicroSys} {r : Placing} {seen : List Bool} {pos len : ℕ}
    (h : s.Fails) (hd : s.daemon = .entered r seen pos len) : s.sys.groups r.k = none := by
  rwa [MicroSys.Fails, hd] at h

inductive DaemonEffect (s : MicroSys) : MicroSys → Prop
  | crashed (hf : s.Fails) : DaemonEffect s s.crash
  | read {r : Fishing} {ss : SocketStorage} {wg : UInt32} (hd : s.daemon = .reading r)
      (hss : (s.sys.socks r.cookie).bind (·.storage) = some ss)
      (hwg : toWrkGen? r.st.dis.maxApps r.app r.gen = some wg) :
      DaemonEffect s ⟨s.sys, .scanning ⟨r, ss, wg⟩ [] ⟨none, none, 0⟩⟩
  | looked {r : Placing} {seen : List Bool} {found : FindEmpty}
      (hd : s.daemon = .scanning r seen found) (hlt : seen.length < MAX_SOCKETS_IN_GEN) :
      DaemonEffect s ⟨s.sys, .scanning r
        (seen ++ [rowLive r.st (genRow r.wg) s.sys.sockhash seen.length])
        (findEmptyStep (rowCookies r.st (genRow r.wg)) s.sys.sockhash r.cookie found seen.length)⟩
  | refused {r : Placing} {seen : List Bool} {found : FindEmpty}
      (hd : s.daemon = .scanning r seen found) (hge : MAX_SOCKETS_IN_GEN ≤ seen.length)
      (hf : found.freePos = none) : DaemonEffect s ⟨s.sys, .closing r false⟩
  | entered {r : Placing} {seen : List Bool} {found : FindEmpty} {pos : ℕ}
      {sockhash : Finset UInt64} (hd : s.daemon = .scanning r seen found)
      (hge : MAX_SOCKETS_IN_GEN ≤ seen.length) (hf : found.freePos = some pos)
      (hsh : sockhashUpdate s.sys.sockhash r.cookie = some sockhash) :
      DaemonEffect s ⟨{ s.sys with sockhash := sockhash }, .entered r seen pos found.genLen⟩
  | published {r : Placing} {seen : List Bool} {pos len : ℕ} {st : ReuseportStorage}
      {base : Sys} {keep : Bool} (hd : s.daemon = .entered r seen pos len)
      (hk : s.sys.groups r.k = some st)
      (hb : base = s.sys ∧ keep = false ∨ r.st.dis.labelled = true ∧ ∃ store closed,
        base = ({ s.sys with tubular := store } : Sys).closeFds closed) :
      DaemonEffect s ⟨base.setGroup r.k
        (st.setCookie r.wg (UInt32.ofNat pos) (UInt32.ofNat len) r.cookie), .published r pos keep⟩
  | wrote {r : Placing} {pos : ℕ} {keep : Bool} (hd : s.daemon = .published r pos keep) :
      DaemonEffect s ⟨s.sys.setStorage r.cookie { r.ss with sockIdx := UInt32.ofNat pos },
        .closing r keep⟩
  | closed {r : Placing} {keep : Bool} (hd : s.daemon = .closing r keep) :
      DaemonEffect s ⟨if keep then s.sys else s.sys.closeFds [r.f], .idle⟩

theorem preserveFd_labelled {l : TubularStore} {st : ReuseportStorage} {gen : UInt32} {len f : ℕ}
    {pos : Slot} {now : UInt64} {q : TubularStore × List ℕ}
    (h : tubularMaybePreserveFd l st gen len pos f now = some q) : st.dis.labelled = true := by
  unfold tubularMaybePreserveFd at h
  split_ifs at h with hl
  exact hl

theorem daemonStep_effect {s t : MicroSys} (h : s.daemonStep = some t) : DaemonEffect s t := by
  cases hd : s.daemon with
  | idle => simp [MicroSys.daemonStep, hd] at h
  | reading r =>
    simp only [MicroSys.daemonStep, hd] at h
    split at h
    · rename_i hnone
      cases h
      exact .crashed (by rw [MicroSys.Fails, hd]; exact .inl hnone)
    · rename_i ss hss
      split at h
      · rename_i hnone
        cases h
        exact .crashed (by rw [MicroSys.Fails, hd]; exact .inr hnone)
      · rename_i wg hwg
        cases h
        exact .read hd hss hwg
  | scanning r seen found =>
    simp only [MicroSys.daemonStep, hd] at h
    split at h
    · cases h
      exact .looked hd ‹_›
    · rename_i hge
      rw [Nat.not_lt] at hge
      split at h
      · cases h
        exact .refused hd hge ‹_›
      · rename_i pos hf
        split at h
        · rename_i hnone
          cases h
          exact .crashed (by rw [MicroSys.Fails, hd]; exact hnone)
        · cases h
          exact .entered hd hge hf ‹_›
  | entered r seen pos len =>
    simp only [MicroSys.daemonStep, hd] at h
    split at h
    · rename_i hnone
      cases h
      exact .crashed (by rw [MicroSys.Fails, hd]; exact hnone)
    · rename_i st hk
      split at h
      · cases h
        exact .published hd hk (.inl ⟨rfl, rfl⟩)
      · rename_i htub
        cases h
        exact .published hd hk (.inr ⟨preserveFd_labelled htub, _, _, rfl⟩)
  | published r pos keep =>
    simp only [MicroSys.daemonStep, hd, Option.some.injEq] at h
    subst h
    exact .wrote hd
  | closing r keep =>
    simp only [MicroSys.daemonStep, hd, Option.some.injEq] at h
    subst h
    exact .closed hd

inductive MicroEffect (p : Programs) (s : MicroSys) : MicroAction → MicroSys → Prop
  | sys {a : Action} {t : Sys} (ha : s.admits a = true) (h : execute p s.sys a = some t) :
      MicroEffect p s (.sys a) ⟨t, s.daemon⟩
  | lost {env : DaemonEnv} {m : Msg} {rest : List Msg} (hd : s.daemon = .idle)
      (hr : s.sys.ring = m :: rest) (hk : s.sys.groups m.skey = none) :
      MicroEffect p s (.fish env)
        (⟨{ s.sys.tick env.now with ring := rest }, .idle⟩ : MicroSys).crash
  | fished {env : DaemonEnv} {k : Key} {pid gen app : UInt32} {cookie : UInt64} {rest : List Msg}
      {f : ℕ} {st : ReuseportStorage} (hd : s.daemon = .idle)
      (hr : s.sys.ring = .registerSocket k pid cookie gen app :: rest)
      (ho : s.sys.isOpen cookie = true) (hk : s.sys.groups k = some st) :
      MicroEffect p s (.fish env)
        ⟨{ s.sys.tick env.now with ring := rest, fds := (f, cookie) :: s.sys.fds },
          .reading ⟨k, cookie, gen, app, st, f⟩⟩
  | daemon {t : MicroSys} (h : DaemonEffect s t) : MicroEffect p s .daemon t

theorem fish_effect {p : Programs} {s t : MicroSys} {env : DaemonEnv} (h : s.fish env = some t) :
    MicroEffect p s (.fish env) t := by
  unfold MicroSys.fish at h
  split at h
  · rename_i k pid cookie gen app rest f hd hr hf
    split_ifs at h with hg
    split at h
    · rename_i hnone
      cases h
      exact .lost hd hr hnone
    · cases h
      exact .fished hd hr (fishable_found hg.2.2 hf).1 ‹_›
  · cases h

theorem microExecute_effect {p : Programs} {s t : MicroSys} {a : MicroAction}
    (h : microExecute p s a = some t) : MicroEffect p s a t := by
  cases a with
  | sys a =>
    simp only [microExecute] at h
    split_ifs at h with ha
    obtain ⟨t', ht', rfl⟩ := Option.map_eq_some_iff.mp h
    exact .sys ha ht'
  | fish env => exact fish_effect h
  | daemon => exact .daemon (daemonStep_effect h)

theorem not_accepted {s : MicroSys} {t : Sys} {a : Action} (ha : s.admits a = true) :
    ∀ env, a = .handle env → IsEmpty (Accepted s.sys env t) := by
  rintro env rfl
  refine ⟨fun hacc => ?_⟩
  simp [MicroSys.admits, registersFished, hacc.ring_eq, hacc.fished] at ha

/-! ### What a registration in progress changes -/

section Progress

variable {p : Programs} {k : Key} {c : UInt64} {s t : MicroSys}

theorem DaemonEffect.ring (h : DaemonEffect s t) : t.sys.ring = s.sys.ring := by
  cases h with
  | crashed | read | looked | refused | entered | wrote => rfl
  | published _ _ hb => rcases hb with ⟨rfl, _⟩ | ⟨_, _, _, rfl⟩ <;> rfl
  | @closed r keep => cases keep <;> rfl

/-- A group keeps everything, or the slot of the registration is written. -/
theorem DaemonEffect.group {st : ReuseportStorage} (h : DaemonEffect s t)
    (hk : s.sys.groups k = some st) :
    t.sys.groups k = some st ∨ ∃ r seen pos len, s.daemon = .entered r seen pos len ∧ r.k = k ∧
      t.sys.groups k =
        some (st.setCookie r.wg (UInt32.ofNat pos) (UInt32.ofNat len) r.cookie) := by
  cases h with
  | crashed | read | looked | refused | entered | wrote => exact .inl hk
  | @published r seen pos len st' base keep hd hk' hb =>
    have hbase : base.groups = s.sys.groups := by
      rcases hb with ⟨rfl, _⟩ | ⟨_, _, _, rfl⟩ <;> rfl
    by_cases he : k = r.k
    · subst he
      obtain rfl : st = st' := Option.some.inj (hk.symm.trans hk')
      exact .inr ⟨r, seen, pos, len, hd, rfl, Function.update_self ..⟩
    · left
      simp only [Sys.setGroup, Function.update_of_ne he, hbase]
      exact hk
  | @closed r keep => cases keep <;> exact .inl hk

theorem DaemonEffect.group_none (h : DaemonEffect s t) (hk : s.sys.groups k = none) :
    t.sys.groups k = none := by
  cases h with
  | crashed | read | looked | refused | entered | wrote => exact hk
  | @published r seen pos len st base keep hd hk' hb =>
    have hbase : base.groups = s.sys.groups := by
      rcases hb with ⟨rfl, _⟩ | ⟨_, _, _, rfl⟩ <;> rfl
    have hne : k ≠ r.k := by
      rintro rfl
      rw [hk] at hk'
      cases hk'
    simp only [Sys.setGroup, Function.update_of_ne hne, hbase]
    exact hk
  | @closed r keep => cases keep <;> exact hk

/-- The groups keep their dissectors. -/
theorem DaemonEffect.dis {st' : ReuseportStorage} (h : DaemonEffect s t)
    (hk' : t.sys.groups k = some st') : ∃ st, s.sys.groups k = some st ∧ st'.dis = st.dis := by
  cases hk : s.sys.groups k with
  | none =>
    rw [h.group_none hk] at hk'
    cases hk'
  | some st =>
    rcases h.group hk with hkept | ⟨_, _, _, _, _, _, hkept⟩ <;>
      obtain rfl := Option.some.inj (hkept.symm.trans hk') <;> exact ⟨_, rfl, rfl⟩

/-- A socket keeps everything, or the daemon writes back its copy of the storage. -/
theorem DaemonEffect.sock {sock : Sock} (h : DaemonEffect s t) (hs : s.sys.socks c = some sock) :
    t.sys.socks c = some sock ∨ ∃ r pos keep, s.daemon = .published r pos keep ∧ c = r.cookie ∧
      t.sys.socks c =
        some { sock with storage := some { r.ss with sockIdx := UInt32.ofNat pos } } := by
  cases h with
  | crashed | read | looked | refused | entered => exact .inl hs
  | published _ _ hb =>
    left
    rcases hb with ⟨rfl, _⟩ | ⟨_, _, _, rfl⟩ <;> exact hs
  | @wrote r pos keep hd =>
    simp only [setStorage_socks]
    split_ifs with he
    · exact .inr ⟨r, pos, keep, hd, he, by rw [hs]; rfl⟩
    · exact .inl hs
  | @closed r keep => cases keep <;> exact .inl hs

theorem DaemonEffect.sock_none (h : DaemonEffect s t) (hs : s.sys.socks c = none) :
    t.sys.socks c = none := by
  cases h with
  | crashed | read | looked | refused | entered => exact hs
  | published _ _ hb => rcases hb with ⟨rfl, _⟩ | ⟨_, _, _, rfl⟩ <;> exact hs
  | wrote => simp [setStorage_socks, hs]
  | @closed r keep => cases keep <;> exact hs

/-- The copy of a socket storage that the daemon has not written back yet. -/
def DaemonPc.copy : DaemonPc → Option Placing
  | .scanning r _ _ | .entered r _ _ _ | .published r _ _ => some r
  | _ => none

/-- Sockets are well formed, and the daemon's copy belongs to the socket that it registers. -/
structure CopyWf (s : MicroSys) : Prop where
  socks : SocksWf s.sys
  copy : ∀ r, s.daemon.copy = some r → r.ss.soCookie = r.cookie

theorem SocksWf.of_eq {s t : Sys} (h : SocksWf s) (hs : t.socks = s.socks)
    (hr : ∀ m ∈ t.ring, m ∈ s.ring) : SocksWf t := by
  refine ⟨?_, ?_, fun k pid cookie gen app hm => ?_⟩
  · rw [hs]
    exact h.ne_zero
  · rw [hs]
    exact h.own_cookie
  · rw [hs]
    exact h.pending k pid cookie gen app (hr _ hm)

theorem SocksWf.setStorage {s : Sys} {ss : SocketStorage} (h : SocksWf s)
    (hss : ss.soCookie = c) : SocksWf (s.setStorage c ss) := by
  have horigin : ∀ c' sock', (s.setStorage c ss).socks c' = some sock' →
      ∃ sock, s.socks c' = some sock ∧ (sock' = sock ∨
        c' = c ∧ sock' = { sock with storage := some ss }) := by
    intro c' sock' hc
    rw [setStorage_socks] at hc
    split_ifs at hc with he
    · obtain ⟨sock, hs, rfl⟩ := Option.map_eq_some_iff.mp hc
      exact ⟨sock, hs, .inr ⟨he, rfl⟩⟩
    · exact ⟨sock', hc, .inl rfl⟩
  refine ⟨fun c' sock' hc => ?_, fun c' sock' ss' hc hss' => ?_, fun k pid cookie gen app hm => ?_⟩
  · obtain ⟨sock, hs, _⟩ := horigin c' sock' hc
    exact h.ne_zero c' sock hs
  · obtain ⟨sock, hs, rfl | ⟨rfl, rfl⟩⟩ := horigin c' sock' hc
    · exact h.own_cookie c' sock' ss' hs hss'
    · cases hss'
      exact hss
  · obtain ⟨sock, hs, hk⟩ := h.pending k pid cookie gen app hm
    rw [setStorage_socks, hs]
    split
    · exact ⟨_, rfl, hk⟩
    · exact ⟨sock, rfl, hk⟩

theorem copyWf_step {a : MicroAction} (h : microExecute p s a = some t)
    (hw : CopyWf s) : CopyWf t := by
  obtain ⟨hsocks, hcopy⟩ := hw
  cases microExecute_effect h with
  | sys _ he => exact ⟨SocksWf.step he hsocks, hcopy⟩
  | lost _ hr =>
    refine ⟨hsocks.of_eq rfl fun m hm => hr ▸ List.mem_cons_of_mem _ hm, ?_⟩
    rintro r ⟨⟩
  | fished _ hr =>
    refine ⟨hsocks.of_eq rfl fun m hm => hr ▸ List.mem_cons_of_mem _ hm, ?_⟩
    rintro r ⟨⟩
  | daemon he =>
    cases he with
    | crashed =>
      refine ⟨hsocks.of_eq rfl fun m hm => hm, ?_⟩
      rintro r ⟨⟩
    | read hd hss hwg =>
      refine ⟨hsocks, ?_⟩
      rintro r ⟨⟩
      obtain ⟨sock, hs, hss⟩ := Option.bind_eq_some_iff.mp hss
      exact hsocks.own_cookie _ sock _ hs hss
    | looked hd =>
      refine ⟨hsocks, ?_⟩
      rintro r ⟨⟩
      exact hcopy _ (by rw [hd]; rfl)
    | refused =>
      refine ⟨hsocks, ?_⟩
      rintro r ⟨⟩
    | entered hd =>
      refine ⟨hsocks.of_eq rfl fun m hm => hm, ?_⟩
      rintro r ⟨⟩
      exact hcopy _ (by rw [hd]; rfl)
    | published hd hk hb =>
      refine ⟨?_, ?_⟩
      · rcases hb with ⟨rfl, _⟩ | ⟨_, _, _, rfl⟩
        · exact hsocks.of_eq rfl fun m hm => hm
        · exact hsocks.of_eq rfl fun m hm => hm
      · rintro r ⟨⟩
        exact hcopy _ (by rw [hd]; rfl)
    | wrote hd =>
      refine ⟨hsocks.setStorage (hcopy _ (by rw [hd]; rfl)), ?_⟩
      rintro r ⟨⟩
    | @closed r keep hd =>
      refine ⟨?_, ?_⟩
      · cases keep with
        | true => exact hsocks
        | false => exact hsocks.of_eq rfl fun m hm => hm
      · rintro r ⟨⟩

end Progress

/-! ### Alone -/

section Alone

variable {p : Programs} {s t : Sys} {env : DaemonEnv}

theorem daemon_tr {s t : MicroSys} (h : s.daemonStep = some t) :
    (microSystem p).Tr s .daemon t := h

/-- The slot search with nothing in between is `cookies_find_empty`. -/
theorem scan_alone (s : Sys) (r : Placing) :
    ∃ seen : List Bool, seen.length = MAX_SOCKETS_IN_GEN ∧
      MicroRun p ⟨s, .scanning r [] ⟨none, none, 0⟩⟩
        (List.replicate MAX_SOCKETS_IN_GEN .daemon)
        ⟨s, .scanning r seen (cookiesFindEmpty r.st r.wg s.sockhash r.cookie)⟩ := by
  suffices h : ∀ n ≤ MAX_SOCKETS_IN_GEN, ∃ seen : List Bool, seen.length = n ∧
      MicroRun p ⟨s, .scanning r [] ⟨none, none, 0⟩⟩ (List.replicate n .daemon)
        ⟨s, .scanning r seen ((List.range n).foldl
          (findEmptyStep (rowCookies r.st (genRow r.wg)) s.sockhash r.cookie) ⟨none, none, 0⟩)⟩ from
    h _ le_rfl
  intro n hn
  induction n with
  | zero => exact ⟨[], rfl, .refl⟩
  | succ n ih =>
    obtain ⟨seen, hlen, hrun⟩ := ih (by omega)
    refine ⟨seen ++ [rowLive r.st (genRow r.wg) s.sockhash seen.length], by simp [hlen], ?_⟩
    rw [List.replicate_succ', List.range_succ, List.foldl_append]
    refine hrun.append (.single (daemon_tr ?_))
    have hlt : seen.length < MAX_SOCKETS_IN_GEN := by omega
    simp only [MicroSys.daemonStep, if_pos hlt, List.foldl_cons, List.foldl_nil]
    rw [hlen]

/-- A descriptor opened for a registration and closed at its end leaves no trace. -/
theorem closeFds_fresh (fds : List (ℕ × UInt64)) {f : ℕ} {c : UInt64}
    (hfds : s.fds = (f, c) :: fds) (hnew : ∀ q ∈ fds, q.1 ≠ f)
    (hlive : ∀ c ∈ s.sockhash, ({ s with fds := fds } : Sys).alive c = true) :
    s.closeFds [f] = { s with fds := fds } := by
  have hfilter : s.fds.filter (fun q => decide (q.1 ∉ [f])) = fds := by
    rw [hfds, List.filter_cons_of_neg (by simp), List.filter_eq_self]
    intro q hq
    simpa using hnew q hq
  unfold Sys.closeFds
  rw [hfilter, Sys.reap]
  congr 1
  exact Finset.filter_true_of_mem hlive

/-- The state after the slot search and what follows it. `fds` are the descriptors that the
daemon held before this registration. -/
def placed (env : DaemonEnv) (s : Sys) (fds : List (ℕ × UInt64)) (r : Placing) : Sys :=
  let found := cookiesFindEmpty r.st r.wg s.sockhash r.cookie
  match found.freePos with
  | none => { s with fds := fds }
  | some pos =>
    match sockhashUpdate s.sockhash r.cookie with
    | none => s.crash
    | some sockhash =>
      acceptSocket env { s with sockhash := sockhash, fds := fds } r.k r.st r.ss r.cookie r.wg pos
        found.genLen r.f

theorem place_alone (p : Programs) (env : DaemonEnv) {fds : List (ℕ × UInt64)} {r : Placing}
    (hfds : s.fds = (r.f, r.cookie) :: fds) (hnew : ∀ q ∈ fds, q.1 ≠ r.f)
    (ho : s.isOpen r.cookie = true)
    (hlive : ∀ c ∈ s.sockhash, ({ s with fds := fds } : Sys).alive c = true)
    (hk : s.groups r.k = some r.st) (hnow : env.now = s.clock) :
    ∃ n, MicroRun p ⟨s, .scanning r [] ⟨none, none, 0⟩⟩ (List.replicate n .daemon)
      ⟨placed env s fds r, .idle⟩ := by
  obtain ⟨seen, hlen, hscan⟩ := scan_alone (p := p) s r
  have hge : ¬ seen.length < MAX_SOCKETS_IN_GEN := by omega
  suffices hend : ∃ n, Transition.exec (microExecute p)
      ⟨s, .scanning r seen (cookiesFindEmpty r.st r.wg s.sockhash r.cookie)⟩
      (List.replicate n .daemon) = some ⟨placed env s fds r, .idle⟩ by
    obtain ⟨n, hn⟩ := hend
    exact ⟨_, List.replicate_add .. ▸ hscan.append (Transition.run_ofFn_iff.mpr hn)⟩
  unfold placed
  generalize cookiesFindEmpty r.st r.wg s.sockhash r.cookie = found
  cases hpos : found.freePos with
  | none =>
    refine ⟨2, ?_⟩
    simp [Transition.exec, microExecute, MicroSys.daemonStep, List.replicate, hge, hpos,
      closeFds_fresh fds hfds hnew hlive]
  | some pos =>
    cases hsh : sockhashUpdate s.sockhash r.cookie with
    | none =>
      refine ⟨1, ?_⟩
      simp [Transition.exec, microExecute, MicroSys.daemonStep, MicroSys.crash, List.replicate,
        hge, hpos, hsh]
    | some sockhash =>
      refine ⟨4, ?_⟩
      have hlive' : ∀ c ∈ sockhash, ({ s with fds := fds } : Sys).alive c = true := by
        intro c hc
        rcases (mem_sockhashUpdate hsh).mp hc with hc | rfl
        · exact hlive c hc
        · exact Sys.alive_of_isOpen ho
      cases htub : tubularMaybePreserveFd s.tubular r.st r.wg found.genLen
          (Fin.ofNat MAX_SOCKETS_IN_GEN pos) r.f s.clock with
      | none =>
        simp only [Transition.exec, microExecute, MicroSys.daemonStep, List.replicate, hge, hpos,
          hsh, hk, hnow, htub, acceptSocket, Option.bind_some, ite_false, Bool.false_eq_true]
        refine congrArg (fun x => some (⟨x, .idle⟩ : MicroSys)) (closeFds_fresh fds hfds hnew ?_)
        intro c hc
        rw [Sys.alive, ← hlive' c hc, Sys.alive]
        exact congrArg (· || _) (setStorage_isOpen _ c _ _)
      | some q =>
        simp only [Transition.exec, microExecute, MicroSys.daemonStep, List.replicate, hge, hpos,
          hsh, hk, hnow, htub, acceptSocket, Option.bind_some, ite_false, ite_true, hfds]

/-- With no other step in between, the steps of the daemon are the handling of the message. -/
theorem handle_alone (hlive : ∀ c ∈ s.sockhash, s.alive c = true)
    (hf : registersFished s env = true) (h : execute p s (.handle env) = some t) :
    ∃ n, MicroRun p ⟨s, .idle⟩ (.fish env :: List.replicate n .daemon) ⟨t, .idle⟩ := by
  unfold registersFished at hf
  split at hf
  · rename_i k pid cookie gen app rest f hr hfished
    simp only [execute] at h
    split_ifs at h with hnow
    have hr' : (s.tick env.now).ring = .registerSocket k pid cookie gen app :: rest := hr
    simp only [handleStep, hr'] at h
    split_ifs at h with hg
    rw [not_or, Bool.not_eq_true, Bool.not_eq_false] at hg
    have hguard : s.clock ≤ env.now ∧ s.exited = false ∧
        fishable s env (.registerSocket k pid cookie gen app) = true := ⟨hnow, hg.1, hg.2⟩
    obtain ⟨ho, _, hnew⟩ := fishable_found hg.2 hfished
    cases hk : s.groups k with
    | none =>
      have hk' : (s.tick env.now).groups k = none := hk
      simp only [handleMsg, Msg.skey, hk'] at h
      cases h
      refine ⟨0, .single ?_⟩
      show MicroSys.fish _ _ = _
      simp only [MicroSys.fish, hr, hfished, if_pos hguard, hk]
      rfl
    | some st =>
      have hk' : (s.tick env.now).groups k = some st := hk
      set u : Sys := { s.tick env.now with ring := rest, fds := (f, cookie) :: s.fds }
      have hfish : (microSystem p).Tr ⟨s, .idle⟩ (.fish env)
          ⟨u, .reading ⟨k, cookie, gen, app, st, f⟩⟩ := by
        show MicroSys.fish _ _ = _
        simp only [MicroSys.fish, hr, hfished, if_pos hguard, hk]
        rfl
      simp only [handleMsg, Msg.skey, hk', handleRegister, hfished] at h
      cases hss : (s.socks cookie).bind (·.storage) with
      | none =>
        have hss' : ((s.tick env.now).socks cookie).bind (·.storage) = none := hss
        rw [hss'] at h
        cases h
        refine ⟨1, .stepL hfish (.single (daemon_tr ?_))⟩
        have hu : (u.socks cookie).bind (·.storage) = none := hss
        simp only [MicroSys.daemonStep, hu]
        rfl
      | some ss =>
        have hss' : ((s.tick env.now).socks cookie).bind (·.storage) = some ss := hss
        have hu : (u.socks cookie).bind (·.storage) = some ss := hss
        rw [hss'] at h
        dsimp only at h
        cases hwg : toWrkGen? st.dis.maxApps app gen with
        | none =>
          rw [hwg] at h
          cases h
          refine ⟨1, .stepL hfish (.single (daemon_tr ?_))⟩
          simp only [MicroSys.daemonStep, hu, hwg]
          rfl
        | some wg =>
          rw [hwg] at h
          have hread : MicroSys.daemonStep ⟨u, .reading ⟨k, cookie, gen, app, st, f⟩⟩ =
              some ⟨u, .scanning ⟨⟨k, cookie, gen, app, st, f⟩, ss, wg⟩ [] ⟨none, none, 0⟩⟩ := by
            simp only [MicroSys.daemonStep, hu, hwg]
          have ht : t = placed env u s.fds ⟨⟨k, cookie, gen, app, st, f⟩, ss, wg⟩ := by
            unfold placed
            have hu' : u.sockhash = (s.tick env.now).sockhash := rfl
            dsimp only at h ⊢
            rw [hu']
            cases hpos : (cookiesFindEmpty st wg (s.tick env.now).sockhash cookie).freePos with
            | none =>
              simp only [hpos, Except.map] at h
              cases h
              rfl
            | some pos =>
              cases hupd : sockhashUpdate (s.tick env.now).sockhash cookie with
              | none | some _ =>
                simp only [hpos, hupd, Except.map] at h
                cases h
                rfl
          subst ht
          obtain ⟨n, hn⟩ := place_alone p env
            (r := ⟨⟨k, cookie, gen, app, st, f⟩, ss, wg⟩) (s := u) rfl hnew ho hlive hk rfl
          exact ⟨n + 1, .stepL hfish (.stepL (daemon_tr hread) hn)⟩
  · cases hf

end Alone

end Udpgrm
