import Udpgrm.DaemonSteps
import Udpgrm.Housing
import Udpgrm.RingLog

/-! The life of the daemon: what kills it, and the runs it outlives. -/
namespace Udpgrm

open LittleEndian

variable {p : Programs} {s t : Sys} {a : Action} {k : Key} {c : UInt64} {st : ReuseportStorage}

/-! ### A message at a time -/

/-- The registration that kills the daemon: its socket is found, and the row of its application is
a modulo by zero, or there is a slot for it but no room in `sockhash`. -/
def Deadly (env : DaemonEnv) (s : Sys) (st : ReuseportStorage) (cookie : UInt64)
    (gen app : UInt32) : Prop :=
  (∃ f, env.fished = .found f) ∧
    (32 < st.dis.maxApps.toNat ∨
      rowFull s st (registeredRow st.dis.maxApps app gen) = false ∧ cookie ∉ s.sockhash ∧
        MAX_SOCKETS_IN_GEN * MAX_GENS ≤ s.sockhash.card)

theorem toWrkGen?_eq_none_iff {m : UInt32} (app gen : UInt32) :
    toWrkGen? m app gen = none ↔ 32 < m.toNat := by
  rw [← slotSize_eq_zero_iff, toWrkGen?]
  split_ifs with h <;> simp [h]

theorem handleRegister_error_iff {env : DaemonEnv} {gen app : UInt32} {ss : SocketStorage}
    (hss : (s.socks c).bind (·.storage) = some ss) :
    (∃ e, handleRegister env s k st c gen app = .error e) ↔ Deadly env s st c gen app := by
  unfold Deadly
  cases hf : env.fished with
  | died | notFound => simp [handleRegister, hf]
  | found f =>
    cases hwg : toWrkGen? st.dis.maxApps app gen with
    | none =>
      have hbig := (toWrkGen?_eq_none_iff app gen).mp hwg
      exact iff_of_true ⟨_, handleRegister_division hf hss hwg⟩ ⟨⟨f, rfl⟩, .inl hbig⟩
    | some wg =>
      have hsmall : ¬ 32 < st.dis.maxApps.toNat := by
        rw [← toWrkGen?_eq_none_iff app gen, hwg]
        simp
      have hrow : registeredRow st.dis.maxApps app gen = genRow wg := by
        rw [registeredRow, toWrkGen?_eq_some hwg]
      rw [hrow]
      cases hfull : rowFull s st (genRow wg) with
      | true => simp [handleRegister_rowFull hf hss hwg hfull, hsmall]
      | false =>
        obtain ⟨pos, len, _, heq⟩ := handleRegister_free (k := k) hf hss hwg hfull
        rw [heq, ← sockhashUpdate_eq_none_iff]
        cases sockhashUpdate s.sockhash c <;> simp [hsmall]

theorem acceptSocket_exited (env : DaemonEnv) (s : Sys) (k : Key) (st : ReuseportStorage)
    (ss : SocketStorage) (cookie : UInt64) (gen : UInt32) (pos len f : ℕ) :
    (acceptSocket env s k st ss cookie gen pos len f).exited = s.exited := by
  unfold acceptSocket
  simp only [Sys.setStorage, Sys.setGroup]
  split <;> rfl

theorem HandleEffect.exited {env : DaemonEnv} {m : Msg} {call : Option (Row × List Int)}
    (h : HandleEffect env s m t call) : t.exited = s.exited := by
  cases h with
  | accepted => exact acceptSocket_exited ..
  | _ => rfl

/-- Without deletions the daemon dies of such a registration and of nothing else. -/
theorem dies_iff {env : DaemonEnv} {m : Msg} {rest : List Msg} (hans : Answerable s)
    (hr : s.ring = m :: rest) (h : execute p s (.handle env) = some t) :
    t.exited = true ↔ ∃ k pid cookie gen app st, m = .registerSocket k pid cookie gen app ∧
      s.groups k = some st ∧ Deadly env s st cookie gen app := by
  obtain ⟨_, hrunning, _, hend⟩ := execute_handle hr h
  have hmem : m ∈ s.ring := by simp [hr]
  obtain ⟨st, hk⟩ := Option.isSome_iff_exists.mp (hans.group m hmem)
  obtain ⟨u, hu⟩ : ∃ u : Sys, u = { s.tick env.now with ring := rest } := ⟨_, rfl⟩
  have hku : u.groups m.skey = some st := hu ▸ hk
  rw [← hu] at hend
  -- a fatal message is fatal, and a message that is not leaves the daemon running
  have hfatal : t.exited = true ↔ ∃ e, handleMsg env u m = .error e := by
    rcases hend with ⟨call, hm⟩ | ⟨e, hm, hx⟩
    · rw [(handleMsg_effect hm).exited, hm, hu]
      simp [Sys.tick, hrunning]
    · exact iff_of_true hx ⟨e, hm⟩
  rw [hfatal]
  cases m with
  | registerSocket k pid cookie gen app =>
    obtain ⟨ss, hss⟩ := Option.isSome_iff_exists.mp (hans.storage _ _ _ _ _ hmem)
    have hdeadly : (∃ e, handleRegister env u k st cookie gen app = .error e) ↔
        Deadly env s st cookie gen app := by
      have hssu : (u.socks cookie).bind (·.storage) = some ss := by
        rw [hu]
        exact hss
      rw [handleRegister_error_iff hssu, hu]
      rfl
    have hmsg : handleMsg env u (.registerSocket k pid cookie gen app) =
        (handleRegister env u k st cookie gen app).map fun t => (t, none) := handleMsg_register hku
    rw [hmsg]
    constructor
    · rintro ⟨e, he⟩
      cases hreg : handleRegister env u k st cookie gen app with
      | ok t => simp [hreg, Except.map] at he
      | error e' => exact ⟨k, pid, cookie, gen, app, st, rfl, hk, hdeadly.mp ⟨e', hreg⟩⟩
    · rintro ⟨_, _, _, _, _, st', ⟨⟩, hk', hd⟩
      cases hk.symm.trans hk'
      obtain ⟨e, he⟩ := hdeadly.mpr hd
      exact ⟨e, by rw [he]; rfl⟩
  | log | setWorkingGen | setDissector | other => simp [handleMsg, hku]

theorem exited_of_ne_handle (h : execute p s a = some t) (ha : ∀ env, a ≠ .handle env) :
    t.exited = s.exited := by
  cases execute_effect h with
  | socket | close | cleanup | delete => rfl
  | @bind c ctx => rcases bpfBind_cases s c ctx with h | ⟨_, _, h⟩ <;> rw [h]; rfl
  | @setsockopt c ctx env =>
    have hsame := setsockopt_exited (udpgrmSetsockopt_effect p env (s.tick env.flow.later) c ctx)
    exact hsame
  | @sendmsg c dst env =>
    rcases udpSendmsg_cases p env (s.tick env.later) c dst with h | ⟨_, _, _, _, _, _, _, h⟩ <;>
      rw [h] <;> rfl
  | @packet r now md =>
    rcases receive_cases p (s.tick now) r md now with h | ⟨_, _, _, _, h⟩ <;> rw [h] <;> rfl
  | ignored | notFound | announced | crashed | accepted => exact absurd rfl (ha _)

/-! ### A system call at a time -/

/-- No group is deleted or configured with more than 32 applications. -/
def sparesDaemon : Action → Bool
  | .setsockopt _ ctx _ =>
    match ctx.opt, copyIn ctx.optval with
    | some .dissector, some data => decide ((Dissector.ofBytes data).maxApps.toNat ≤ 32)
    | _, _ => true
  | .delete _ => false
  | _ => true

theorem keepsGroups_of_sparesDaemon (h : sparesDaemon a = true) (k : Key) : a ≠ .delete k := by
  rintro rfl
  cases h

theorem maxApps_step (h : execute p s a = some t) (hc : sparesDaemon a = true)
    (hs : ∀ k st, s.groups k = some st → st.dis.maxApps.toNat ≤ 32) :
    ∀ k st, t.groups k = some st → st.dis.maxApps.toNat ≤ 32 := by
  intro k st' hk'
  cases group_change h hk' with
  | kept st hk hstep =>
    rw [hstep.dis_eq]
    exact hs k st hk
  | born c ctx env ha _ _ hb =>
    cases hb with
    | implicit env ss hq =>
      rw [hq.sameTable.dis]
      exact Nat.zero_le 32
    | install env ss data hd ho hf heq =>
      subst ha heq
      have hmax : (Dissector.ofBytes data).maxApps.toNat ≤ 32 := by
        simpa [sparesDaemon, ho, hd] using hc
      exact hmax


theorem Answerable.of_eq (h : Answerable s) (hg : t.groups = s.groups) (hs : t.socks = s.socks)
    (hr : ∀ m ∈ t.ring, m ∈ s.ring) : Answerable t where
  group m hm := hg ▸ h.group m (hr m hm)
  storage k pid cookie gen app hm := hs ▸ h.storage k pid cookie gen app (hr _ hm)

section Effect

variable {s t : MicroSys}

theorem DaemonEffect.answerable (h : DaemonEffect s t) (hs : Answerable s.sys) :
    Answerable t.sys where
  group m hm := by
    rw [h.ring] at hm
    obtain ⟨st, hk⟩ := Option.isSome_iff_exists.mp (hs.group m hm)
    rcases h.group hk with hk' | ⟨_, _, _, _, _, _, hk'⟩ <;> simp [hk']
  storage k pid cookie gen app hm := by
    rw [h.ring] at hm
    obtain ⟨ss, hss⟩ := Option.isSome_iff_exists.mp (hs.storage k pid cookie gen app hm)
    obtain ⟨sock, hsock, hss⟩ := Option.bind_eq_some_iff.mp hss
    rcases h.sock hsock with hsock' | ⟨_, _, _, _, _, hsock'⟩ <;> simp [hsock', hss]

theorem DaemonEffect.maxApps (h : DaemonEffect s t)
    (hs : ∀ k st, s.sys.groups k = some st → st.dis.maxApps.toNat ≤ 32) :
    ∀ k st, t.sys.groups k = some st → st.dis.maxApps.toNat ≤ 32 := by
  intro k st' hk'
  obtain ⟨st, hk, hdis⟩ := h.dis hk'
  exact hdis ▸ hs k st hk

theorem DaemonEffect.exited (h : DaemonEffect s t) (hf : ¬ s.Fails) :
    t.sys.exited = s.sys.exited := by
  cases h with
  | crashed hfails => exact absurd hfails hf
  | read | looked | refused | entered | wrote => rfl
  | published _ _ hb => rcases hb with ⟨rfl, _⟩ | ⟨_, _, _, rfl⟩ <;> rfl
  | @closed r keep => cases keep <;> rfl

end Effect

/-- What the registration in progress needs: its socket has storage until that is read, its row
can be computed, and its group exists until the slot is written. -/
def Attended (s : Sys) : DaemonPc → Prop
  | .reading r => ((s.socks r.cookie).bind (·.storage)).isSome ∧ r.st.dis.maxApps.toNat ≤ 32 ∧
      (s.groups r.k).isSome
  | .scanning r _ _ | .entered r _ _ _ => (s.groups r.k).isSome
  | .idle | .published _ _ _ | .closing _ _ => True

structure Served (s : MicroSys) : Prop where
  wf : CopyWf s
  answerable : Answerable s.sys
  maxApps : ∀ k st, s.sys.groups k = some st → st.dis.maxApps.toNat ≤ 32
  running : s.sys.exited = false
  attended : Attended s.sys s.daemon

theorem served_initial : Served .initial where
  wf := ⟨.initial, by rintro _ ⟨⟩⟩
  answerable := ⟨by simp [MicroSys.initial, Sys.initial], by simp [MicroSys.initial, Sys.initial]⟩
  maxApps := by simp [MicroSys.initial, Sys.initial]
  running := rfl
  attended := trivial

/-- With room in `sockhash` no step on a registration is fatal. -/
theorem Served.not_fails {s : MicroSys} (hs : Served s)
    (hroom : s.sys.sockhash.card < MAX_SOCKETS_IN_GEN * MAX_GENS) : ¬ s.Fails := by
  have hatt := hs.attended
  unfold MicroSys.Fails
  cases hd : s.daemon with
  | idle | published | closing => exact id
  | reading r =>
    rw [hd] at hatt
    rintro (hnone | hnone)
    · simp [hnone, Attended] at hatt
    · exact absurd ((toWrkGen?_eq_none_iff _ _).mp hnone) (by have := hatt.2.1; omega)
  | scanning r seen found =>
    intro hnone
    have := (sockhashUpdate_eq_none_iff.mp hnone).2
    omega
  | entered r seen pos len =>
    rw [hd] at hatt
    intro hnone
    simp [hnone, Attended] at hatt

theorem served_sys {s : MicroSys} (ha : s.admits a = true) (h : execute p s.sys a = some t)
    (hc : sparesDaemon a = true) (hs : Served s) : Served ⟨t, s.daemon⟩ := by
  have hd := keepsGroups_of_sparesDaemon hc
  refine ⟨⟨SocksWf.step h hs.wf.socks, hs.wf.copy⟩,
    Answerable.step h hd hs.wf.socks hs.answerable, maxApps_step h hc hs.maxApps, ?_, ?_⟩
  · by_cases hh : ∃ env, a = .handle env
    · obtain ⟨env, rfl⟩ := hh
      obtain ⟨m, hr⟩ := handle_ring h
      refine Bool.eq_false_iff.mpr fun hdead => ?_
      obtain ⟨_, _, _, _, _, _, rfl, _, ⟨f, hf⟩, _⟩ := (dies_iff hs.answerable hr h).mp hdead
      simp [MicroSys.admits, registersFished, hr, hf] at ha
    · exact (exited_of_ne_handle h fun env he => hh ⟨env, he⟩).trans hs.running
  · have hatt := hs.attended
    change Attended t s.daemon
    cases hpc : s.daemon with
    | idle | published | closing => trivial
    | reading r =>
      rw [hpc] at hatt
      exact ⟨storage_kept h hatt.1, hatt.2.1, group_survives h (hd _) hatt.2.2⟩
    | scanning r | entered r =>
      rw [hpc] at hatt
      exact group_survives h (hd _) hatt

theorem served_daemon {s t : MicroSys} (h : s.daemonStep = some t)
    (hroom : s.sys.sockhash.card < MAX_SOCKETS_IN_GEN * MAX_GENS) (hs : Served s) : Served t := by
  have heff := daemonStep_effect h
  refine ⟨copyWf_step (p := .const) (a := .daemon) h hs.wf, heff.answerable hs.answerable,
    heff.maxApps hs.maxApps, (heff.exited (hs.not_fails hroom)).trans hs.running, ?_⟩
  have hatt := hs.attended
  cases heff with
  | crashed | refused | published | wrote | closed => trivial
  | read hd =>
    rw [hd] at hatt
    exact hatt.2.2
  | looked hd | entered hd =>
    rw [hd] at hatt
    exact hatt

theorem served_fish {s t : MicroSys} {env : DaemonEnv} (h : s.fish env = some t) (hs : Served s) :
    Served t := by
  have hwf : CopyWf t := copyWf_step (p := .const) (a := .fish env) h hs.wf
  cases fish_effect (p := .const) h with
  | @lost _ m rest hd hr hk =>
    have hgroup := hs.answerable.group m (by simp [hr])
    simp [hk] at hgroup
  | @fished _ k pid gen app cookie rest f st hd hr ho hk =>
    have hans : Answerable
        { s.sys.tick env.now with ring := rest, fds := (f, cookie) :: s.sys.fds } :=
      hs.answerable.of_eq rfl rfl fun m hm => hr ▸ List.mem_cons_of_mem _ hm
    refine ⟨hwf, hans, hs.maxApps, hs.running, ?_⟩
    have hstorage := hs.answerable.storage k pid cookie gen app (by simp [hr])
    exact ⟨hstorage, hs.maxApps k st hk, Option.isSome_of_mem hk⟩

/-- Messages can be forgotten. -/
theorem Served.forget {s : MicroSys} {rest : List Msg} (hs : Served s)
    (hr : ∀ m ∈ rest, m ∈ s.sys.ring) : Served ⟨{ s.sys with ring := rest }, s.daemon⟩ := by
  exact ⟨⟨hs.wf.socks.of_eq rfl hr, hs.wf.copy⟩, hs.answerable.of_eq rfl rfl hr, hs.maxApps,
    hs.running, hs.attended⟩

/-! ### A record at a time -/

/-- Which of the kernel calls succeed that end `handle_msg` otherwise: the test run of
`udpgrm_cb_update_map`, the update of `sk_storage_map`, `bpf_program__fd` and
SO_ATTACH_REUSEPORT_EBPF. -/
structure KernelCalls where
  cbUpdateMap : Bool
  skStorage : Bool
  programFd : Bool
  attachReuseport : Bool
deriving DecidableEq, Repr

def KernelCalls.succeed (calls : KernelCalls) : Bool :=
  calls.cbUpdateMap && calls.skStorage && calls.programFd && calls.attachReuseport

/-- The calls of the next step on a registration. -/
def DaemonPc.passes (calls : KernelCalls) : DaemonPc → Bool
  | .entered _ _ _ _ => calls.cbUpdateMap
  | .published _ _ _ => calls.skStorage
  | .closing _ _ => calls.programFd && calls.attachReuseport
  | .idle | .reading _ | .scanning _ _ _ => true

def MicroSys.daemonCall (s : MicroSys) (calls : KernelCalls) : Option MicroSys :=
  if s.daemon.passes calls then s.daemonStep else some s.crash

/-- `metric_incr_critical` is called, which runs `udpgrm_cb_update_map`. -/
def countsCritical (env : DaemonEnv) : Msg → Bool
  | .registerSocket _ _ _ _ _ => decide (env.fished = .notFound)
  | .setWorkingGen _ _ _ => true
  | .log _ _ | .setDissector _ | .other _ _ => false

/-- `handle_msg` on the oldest message `m`, while the daemon is idle. -/
def MicroSys.handleCall (s : MicroSys) (p : Programs) (env : DaemonEnv) (calls : KernelCalls)
    (m : Msg) : Option MicroSys :=
  if registersFished s.sys env then s.fish env
  else (execute p s.sys (.handle env)).map fun t =>
    ⟨if countsCritical env m && !calls.cbUpdateMap then t.crash else t, .idle⟩

/-- The system with the bytes of `msg_rb`, in the place of the queue of messages. -/
structure Wired where
  micro : MicroSys
  ring : MsgRing

inductive WiredAction
  | act (a : Action)
  | log (skey : Option Key) (out : Snprintf)
  | take (env : DaemonEnv) (calls : KernelCalls)
  | daemon (calls : KernelCalls)

namespace Wired

variable (w : Wired)

def initial : Wired := ⟨.initial, .initial⟩

/-- The queue of messages is what the ring holds. -/
def view : MicroSys := ⟨{ w.micro.sys with ring := w.ring.pending }, w.micro.daemon⟩

/-- A message that a step has posted goes to the ring. -/
def post (before after : List Msg) : Option MsgRing :=
  match after.drop before.length with
  | [] => some w.ring
  | m :: _ => w.ring.postEvent m

/-- The daemon takes the next record: a discarded one is skipped, a log line printed. -/
def take (p : Programs) (env : DaemonEnv) (calls : KernelCalls) : Option Wired :=
  if w.micro.daemon.isIdle && !w.micro.sys.exited then
    (w.ring.ring.next MSG_RB).bind fun next => w.ring.consume.bind fun ring =>
      if next.1.discarded then some ⟨w.micro, ring⟩
      else
        match decodeMsg next.1.data with
        | .log _ _ => some ⟨w.micro, ring⟩
        | m =>
          let s : MicroSys := ⟨{ w.micro.sys with ring := m :: ring.pending }, .idle⟩
          (s.handleCall p env calls m).map fun t => ⟨t, ring⟩
  else none

/-- Applications and hooks act, a hook writes a log line, the daemon takes a record or goes on
with a registration. -/
def step (p : Programs) : WiredAction → Option Wired
  | .act (.handle _) => none
  | .act a => (microExecute p w.view (.sys a)).bind fun t =>
      (w.post w.ring.pending t.sys.ring).map fun ring => ⟨t, ring⟩
  | .log skey out => some ⟨w.micro, w.ring.logPrintf skey out⟩
  | .take env calls => w.take p env calls
  | .daemon calls => (w.view.daemonCall calls).map fun t => ⟨t, w.ring⟩

/-- No group is deleted or configured with more than 32 applications, log lines find a clear type
field, the kernel calls of the daemon succeed, and `sockhash` has room while a socket is
registered. -/
def spares : WiredAction → Bool
  | .act a => sparesDaemon a
  | .log skey out => typeClear w.ring (.log skey out)
  | .take _ calls => calls.succeed
  | .daemon calls =>
    calls.succeed && decide (w.micro.sys.sockhash.card < MAX_SOCKETS_IN_GEN * MAX_GENS)

end Wired

def wiredSystem (p : Programs) : Transition.LTS Wired WiredAction := .ofFn fun w a => w.step p a

variable {w w' : Wired} {x y : MsgRing}

theorem Wired.view_mk {t : MicroSys} (h : t.sys.ring = x.pending) : (⟨t, x⟩ : Wired).view = t := by
  rw [Wired.view, ← h]

theorem pending_logPrintf (skey : Option Key) (out : Snprintf) :
    (x.logPrintf skey out).pending = x.pending := by
  unfold MsgRing.logPrintf
  split_ifs <;> simp [MsgRing.pending, MsgRing.scratch, MsgRing.put]

theorem pending_postEvent {m : Msg} (h : x.postEvent m = some y) :
    y.pending = x.pending ++ [m] := by
  obtain ⟨⟨size, ws⟩, _, hy⟩ := Option.bind_eq_some_iff.mp h
  dsimp only at hy
  split_ifs at hy
  cases hy
  simp [MsgRing.pending, MsgRing.put]

/-- The ring comes from log lines with a clear type field, and the daemon of the view lives. -/
structure WiredOk (w : Wired) : Prop where
  ring : ∃ acts, Transition.Run (ringLts.restrict fun x a => typeClear x a = true) .initial acts
    w.ring
  served : Served w.view

theorem ring_extend (act : RingAct)
    (h : ∃ acts, Transition.Run (ringLts.restrict fun x a => typeClear x a = true) .initial acts x)
    (hc : typeClear x act = true) (hstep : x.step act = some y) :
    ∃ acts, Transition.Run (ringLts.restrict fun x a => typeClear x a = true) .initial acts y := by
  obtain ⟨acts, hrun⟩ := h
  exact ⟨_, hrun.append (.single ⟨hc, hstep⟩)⟩

theorem fish_ring {s t : MicroSys} {env : DaemonEnv} (h : s.fish env = some t) :
    ∃ m, s.sys.ring = m :: t.sys.ring := by
  cases fish_effect (p := .const) h with
  | lost _ hr => exact ⟨_, hr⟩
  | fished _ hr => exact ⟨_, hr⟩

theorem wiredOk_act (h : w.step p (.act a) = some w') (hc : sparesDaemon a = true)
    (hw : WiredOk w) : WiredOk w' := by
  have hh : ∀ env, a ≠ .handle env := by
    rintro env rfl
    cases h
  obtain ⟨t, ht, hpost⟩ : ∃ t, microExecute p w.view (.sys a) = some t ∧
      (w.post w.ring.pending t.sys.ring).map (fun ring => (⟨t, ring⟩ : Wired)) = some w' := by
    cases a with
    | handle env => exact absurd rfl (hh env)
    | _ => exact Option.bind_eq_some_iff.mp h
  obtain ⟨ring, hring, rfl⟩ := Option.map_eq_some_iff.mp hpost
  cases microExecute_effect ht with
  | @sys _ t ha he =>
    have hserved := served_sys ha he hc hw.served
    unfold Wired.post at hring
    cases ring_change he with
    | same hr =>
      have hr' : t.ring = w.ring.pending := hr
      simp only [hr', List.drop_length, Option.some.injEq] at hring
      subst hring
      exact ⟨hw.ring, (Wired.view_mk (t := ⟨t, w.view.daemon⟩) hr').symm ▸ hserved⟩
    | handled env he => exact absurd he (hh env)
    | posted m _ hr =>
      have hr' : t.ring = w.ring.pending ++ [m] := hr
      simp only [hr', List.drop_left] at hring
      have hpending := hr'.trans (pending_postEvent hring).symm
      exact ⟨ring_extend (.event m) hw.ring rfl hring,
        (Wired.view_mk (t := ⟨t, w.view.daemon⟩) hpending).symm ▸ hserved⟩

theorem served_handleCall {s t : MicroSys} {env : DaemonEnv} {calls : KernelCalls} {m : Msg}
    (h : s.handleCall p env calls m = some t) (hc : calls.succeed = true)
    (hd : s.daemon = .idle) (hs : Served s) : Served t ∧ ∃ m, s.sys.ring = m :: t.sys.ring := by
  unfold MicroSys.handleCall at h
  split_ifs at h with hfish hcall
  · exact ⟨served_fish h hs, fish_ring h⟩
  · simp only [KernelCalls.succeed, Bool.and_eq_true] at hc
    simp [hc.1.1.1] at hcall
  · obtain ⟨t, ht, rfl⟩ := Option.map_eq_some_iff.mp h
    have hadmits : s.admits (.handle env) = true := by
      simp [MicroSys.admits, hd, DaemonPc.isIdle, hfish]
    exact ⟨hd ▸ served_sys hadmits ht rfl hs, handle_ring ht⟩

theorem wiredOk_take {env : DaemonEnv} {calls : KernelCalls} (h : w.take p env calls = some w')
    (hc : calls.succeed = true) (hw : WiredOk w) : WiredOk w' := by
  obtain ⟨acts, hrun⟩ := id hw.ring
  unfold Wired.take at h
  split_ifs at h with hidle
  obtain ⟨⟨rec, r⟩, hnext, h⟩ := Option.bind_eq_some_iff.mp h
  obtain ⟨y, hy, h⟩ := Option.bind_eq_some_iff.mp h
  obtain ⟨rec', r', hnext', hrec⟩ := consume_pending hrun hy
  cases hnext.symm.trans hnext'
  have hring := ring_extend .consume hw.ring rfl hy
  -- a record that is skipped or printed takes at most its message from the queue
  have hskip : WiredOk ⟨w.micro, y⟩ := by
    refine ⟨hring, hw.served.forget fun m hm => ?_⟩
    change m ∈ w.ring.pending
    rcases hrec with ⟨_, hp⟩ | ⟨hp, _⟩
    · exact hp ▸ List.mem_cons_of_mem _ hm
    · exact hp ▸ hm
  dsimp only at h
  split_ifs at h with hdiscarded
  · cases h
    exact hskip
  · split at h
    · cases h
      exact hskip
    · rename_i hlog
      have hp : w.ring.pending = decodeMsg rec.data :: y.pending := by
        rcases hrec with ⟨_, hp⟩ | ⟨_, hd | ⟨k, text, hd⟩⟩
        · exact hp
        · exact absurd hd hdiscarded
        · exact absurd hd (hlog k text)
      have hd : w.micro.daemon = .idle := by
        cases hpc : w.micro.daemon with
        | idle => rfl
        | _ => simp [hpc, DaemonPc.isIdle] at hidle
      have hview : (⟨{ w.micro.sys with ring := decodeMsg rec.data :: y.pending }, .idle⟩ :
          MicroSys) = w.view := by
        rw [Wired.view, hp, hd]
      obtain ⟨t, ht, rfl⟩ := Option.map_eq_some_iff.mp h
      rw [hview] at ht
      obtain ⟨hserved, m, hr⟩ := served_handleCall ht hc hd hw.served
      have hrest : t.sys.ring = y.pending := (List.cons.inj (hr.symm.trans hp)).2
      exact ⟨hring, (Wired.view_mk hrest).symm ▸ hserved⟩

theorem wiredOk_step {act : WiredAction} (h : w.step p act = some w') (hc : w.spares act = true)
    (hw : WiredOk w) : WiredOk w' := by
  cases act with
  | act a => exact wiredOk_act h hc hw
  | log skey out =>
    cases h
    refine ⟨ring_extend (.log skey out) hw.ring hc rfl, ?_⟩
    rw [Wired.view, pending_logPrintf]
    exact hw.served
  | take env calls => exact wiredOk_take h hc hw
  | daemon calls =>
    obtain ⟨t, ht, rfl⟩ := Option.map_eq_some_iff.mp h
    simp only [Wired.spares, KernelCalls.succeed, Bool.and_eq_true, decide_eq_true_eq] at hc
    obtain ⟨⟨⟨⟨hcb, hss⟩, hfd⟩, hattach⟩, hroom⟩ := hc
    have hpass : w.view.daemon.passes calls = true := by
      cases w.view.daemon <;> simp [DaemonPc.passes, hcb, hss, hfd, hattach]
    rw [MicroSys.daemonCall, if_pos hpass] at ht
    have hring : t.sys.ring = w.ring.pending := (daemonStep_effect ht).ring
    exact ⟨hw.ring, (Wired.view_mk hring).symm ▸ served_daemon ht hroom hw.served⟩

/-- The daemon outlives every run in which no group is deleted or configured with more than 32
applications, fewer than 8192 sockets are registered at a time, log lines find a clear type field
and the kernel calls of the daemon succeed. -/
theorem daemon_survives {as : List WiredAction}
    (h : Transition.Run ((wiredSystem p).restrict fun w a => w.spares a = true) .initial as w) :
    w.micro.sys.exited = false := by
  have hok : WiredOk w := h.inv_restrict wiredOk_step ⟨⟨[], .refl⟩, served_initial⟩
  exact hok.served.running

/-- A log line, and a socket that asks for generation 0 and is registered. -/
def loggedRegistration : List WiredAction :=
  .log none (.text [111, 107]) ::
    (Action.openBound 1 ++ [Action.call 1 201 [0, 0, 0, 0]]).map .act ++
    List.replicate 3 (.take ⟨.found 10, true, 0, 0⟩ ⟨true, true, true, true⟩) ++
    List.replicate (MAX_SOCKETS_IN_GEN + 5) (.daemon ⟨true, true, true, true⟩)

theorem daemon_survives_logged : ∃ w,
    Transition.Run ((wiredSystem .const).restrict fun w a => w.spares a = true) .initial
      loggedRegistration w ∧ 1 ∈ w.micro.sys.sockhash ∧ w.micro.sys.exited = false := by
  obtain ⟨w, hw, hreg⟩ := Transition.run_restrict_of_any (fun w a => w.step .const a)
    Wired.spares .initial loggedRegistration (fun w => decide (1 ∈ w.micro.sys.sockhash))
    (by decide +kernel)
  exact ⟨w, hw, of_decide_eq_true hreg, daemon_survives hw⟩

end Udpgrm
