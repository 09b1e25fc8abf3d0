import Mathlib.Data.Finset.Card
import Udpgrm.Lib.SlotScan
import Udpgrm.System

/-! The daemon: slot search and message handling, and the commands that read the maps. -/
namespace Udpgrm

/-! ### Slot search -/

/-- The three results of `cookies_find_empty`; none stands for -1. -/
structure FindEmpty where
  prevPos : Option ℕ
  freePos : Option ℕ
  genLen : ℕ
deriving DecidableEq, Repr

/-- One turn of the loop. A cookie found in `sockhash` belongs to a live socket, whose own
cookie is the value read back. -/
def findEmptyStep (row : ℕ → UInt64) (sockhash : Finset UInt64) (cookie : UInt64)
    (r : FindEmpty) (i : ℕ) : FindEmpty :=
  let uc := row i
  if uc ∈ sockhash then
    { prevPos := if uc = cookie ∧ r.prevPos = none then some i else r.prevPos
      freePos := r.freePos
      genLen := i + 1 }
  else if r.freePos = none then { r with freePos := some i, genLen := i + 1 }
  else r

def rowCookies (st : ReuseportStorage) (r : Row) (i : ℕ) : UInt64 :=
  st.cookies r (Fin.ofNat MAX_SOCKETS_IN_GEN i)

def cookiesFindEmpty (st : ReuseportStorage) (gen : UInt32) (sockhash : Finset UInt64)
    (cookie : UInt64) : FindEmpty :=
  (List.range MAX_SOCKETS_IN_GEN).foldl
    (findEmptyStep (rowCookies st (genRow gen)) sockhash cookie) ⟨none, none, 0⟩

/-- The slots of a row that hold live sockets. -/
def rowLive (st : ReuseportStorage) (r : Row) (sockhash : Finset UInt64) (i : ℕ) : Bool :=
  decide (rowCookies st r i ∈ sockhash)

/-- The slot and the length come from a scan for the first free slot. The third result,
`prev_pos`, has no influence on them. -/
theorem cookiesFindEmpty_scan (st : ReuseportStorage) (gen : UInt32)
    (sockhash : Finset UInt64) (cookie : UInt64) :
    ((cookiesFindEmpty st gen sockhash cookie).freePos,
      (cookiesFindEmpty st gen sockhash cookie).genLen) =
        SlotScan.scan (rowLive st (genRow gen) sockhash) MAX_SOCKETS_IN_GEN := by
  unfold cookiesFindEmpty
  generalize MAX_SOCKETS_IN_GEN = n
  induction n with
  | zero => rfl
  | succ n ih =>
    rw [SlotScan.scan_succ, ← ih, List.range_succ, List.foldl_append]
    generalize (List.range n).foldl _ _ = r
    by_cases hl : rowCookies st (genRow gen) n ∈ sockhash
    · simp [findEmptyStep, SlotScan.step, rowLive, hl]
    · cases hf : r.freePos <;> simp [findEmptyStep, SlotScan.step, rowLive, hl, hf]

/-! ### Messages -/

/-- Why the daemon dies. -/
inductive Fatal
  | emptyState
  | skStorage
  | divisionByZero
  | sockhash
deriving DecidableEq, Repr

/-- The outcome of `pidfd_open` and `pidfd_find_socket`. -/
inductive Fished
  | died
  | notFound
  | found (f : ℕ)
deriving DecidableEq, Repr

/-- The daemon's surroundings while it handles one message. -/
structure DaemonEnv where
  fished : Fished
  tubularPath : Bool
  registerErr : ℕ
  now : UInt64
deriving DecidableEq, Repr

/-- `metric_incr_critical`: both callbacks add to their counter. -/
def ReuseportStorage.metricIncrCritical (st : ReuseportStorage) (counter gauge : ℕ) :
    ReuseportStorage :=
  st.count fun m => { m with
    socketCriticalGauge := m.socketCriticalGauge + gauge
    socketCritical := m.socketCritical + counter }

/-- The insertion of a socket into `sockhash` with BPF_NOEXIST: a second insertion is
tolerated, a full map is fatal. -/
def sockhashUpdate (sockhash : Finset UInt64) (cookie : UInt64) : Option (Finset UInt64) :=
  if cookie ∈ sockhash then some sockhash
  else if sockhash.card < MAX_SOCKETS_IN_GEN * MAX_GENS then some (insert cookie sockhash)
  else none

/-- The accepted half of MSG_REGISTER_SOCKET: publish the slot, then the index. -/
def acceptSocket (env : DaemonEnv) (s : Sys) (k : Key) (st : ReuseportStorage)
    (ss : SocketStorage) (cookie : UInt64) (gen : UInt32) (freePos genLen f : ℕ) : Sys :=
  let st' := st.setCookie gen (UInt32.ofNat freePos) (UInt32.ofNat genLen) cookie
  let s' :=
    match tubularMaybePreserveFd s.tubular st gen genLen
        (Fin.ofNat MAX_SOCKETS_IN_GEN freePos) f env.now with
    | none => s
    | some (store, closed) =>
      ({ s with tubular := store, fds := (f, cookie) :: s.fds } : Sys).closeFds closed
  (s'.setGroup k st').setStorage cookie { ss with sockIdx := UInt32.ofNat freePos }

/-- MSG_REGISTER_SOCKET. -/
def handleRegister (env : DaemonEnv) (s : Sys) (k : Key) (st : ReuseportStorage)
    (cookie : UInt64) (socketGen socketApp : UInt32) : Except Fatal Sys :=
  match env.fished with
  | .died => .ok s
  | .notFound => .ok (s.setGroup k (st.metricIncrCritical 1 1))
  | .found f =>
    match (s.socks cookie).bind (·.storage) with
    | none => .error .skStorage
    | some ss =>
      match toWrkGen? st.dis.maxApps socketApp socketGen with
      | none => .error .divisionByZero
      | some gen =>
        let r := cookiesFindEmpty st gen s.sockhash cookie
        match r.freePos with
        | none => .ok s
        | some freePos =>
          match sockhashUpdate s.sockhash cookie with
          | none => .error .sockhash
          | some sockhash =>
            .ok (acceptSocket env { s with sockhash := sockhash } k st ss cookie gen freePos
              r.genLen f)

/-- MSG_SET_WORKING_GEN: the row is the generation modulo the row count. -/
def handleWorkingGen (env : DaemonEnv) (s : Sys) (k : Key) (st : ReuseportStorage)
    (appWorkingGen : UInt32) : Sys × Option (Row × List Int) :=
  let h := tubularMaybeRegister s.tubular st (genRow appWorkingGen) env.tubularPath
    env.registerErr
  let st' := if h.err ≠ 0 then st.metricIncrCritical 1 1 else st.metricIncrCritical 0 0
  ((({ s with tubular := h.store } : Sys).closeFds h.closed).setGroup k st', h.call)

/-- `handle_msg`: the state afterwards and the call to `tubular_register`, if any. -/
def handleMsg (env : DaemonEnv) (s : Sys) (m : Msg) :
    Except Fatal (Sys × Option (Row × List Int)) :=
  match s.groups m.skey, m with
  | _, .log _ _ => .ok (s, none)
  | none, _ => .error .emptyState
  | some st, .registerSocket k _ cookie socketGen socketApp =>
    (handleRegister env s k st cookie socketGen socketApp).map fun s' => (s', none)
  | some st, .setWorkingGen k _ appWorkingGen => .ok (handleWorkingGen env s k st appWorkingGen)
  | some _, .setDissector _ => .ok (s, none)
  | some _, .other _ _ => .ok (s, none)

/-- The fatal error of a handler, where it has one. -/
def fatalOf {α : Type} : Except Fatal α → Option Fatal
  | .error e => some e
  | .ok _ => none

theorem fatalOf_eq_some {α : Type} {x : Except Fatal α} {e : Fatal} :
    fatalOf x = some e ↔ x = .error e := by
  cases x <;> simp [fatalOf]

/-! ### The list and metrics commands -/

/-- `gen_pointed_by_wrk_gen`: none is a division by zero, `some none` is -1. -/
def genPointedByWrkGen (gen : UInt32) (st : ReuseportStorage) : Option (Option (Fin MAX_APPS)) :=
  (List.finRange MAX_APPS).foldl
    (fun acc (app : Fin MAX_APPS) => acc.bind fun found =>
      match found with
      | some a => some (some a)
      | none => (toWrkGen? st.dis.maxApps (UInt32.ofNat app.val) (st.workingGen app)).map fun wg =>
          if gen = wg then some app else none)
    (some none)

/-- The elements of `working_gen` that `do_socket_metrics` prints. -/
def doSocketMetricsReads (st : ReuseportStorage) : List ℕ := List.range (numApps st.dis.maxApps)

end Udpgrm
