import Udpgrm.Config

/-! Two UDP_GRM_DISSECTOR calls on a group that is not there yet, one map operation at a time. -/
namespace Udpgrm

/-- One of the two calls. The other one is `!i`. -/
abbrev Caller := Bool

/-- Where a call stands in `udpgrm_setsockopt`. Elements of `reuseport_storage_map` are numbered,
and a call that has looked one up holds its number. -/
inductive CallPc
  | start
  | missing
  | updated
  | created (e : ℕ)
  | found (e : ℕ) (created : Bool)
  | compare (e : ℕ)
  | same (e : ℕ)
  | rejected
  | valid (e : ℕ)
  | reserved (e : ℕ)
  | stored
  | done (r : OptRet)
deriving DecidableEq

/-- What the two calls are made with, by sockets of one network namespace. -/
structure Calls where
  cfg : Caller → Dissector
  env : Caller → OptEnv
  netns : UInt64

/-- `cur` is the element that the map has for the group, if any. `owner` tells whose update put
an element there, and `creator` the element that a call with `created` set works on. -/
structure GroupRace where
  cur : Option ℕ
  mem : ℕ → ReuseportStorage
  owner : ℕ → Caller
  next : ℕ
  pc : Caller → CallPc
  creator : Caller → Option ℕ

namespace GroupRace

def initial : GroupRace :=
  ⟨none, fun _ => emptyState, fun _ => false, 0, fun _ => .start, fun _ => none⟩

variable (s : GroupRace)

def goto (i : Caller) (pc : CallPc) : GroupRace := { s with pc := Function.update s.pc i pc }

/-- The BPF_NOEXIST update of call `i`. It fails if the group is there or the map is full. -/
def update (i : Caller) (mapRoom : Bool) : GroupRace :=
  if s.cur = none ∧ mapRoom = true then
    { s with
      cur := some s.next
      mem := Function.update s.mem s.next emptyState
      owner := Function.update s.owner s.next i
      next := s.next + 1 }
  else s

def write (e : ℕ) (st : ReuseportStorage) : GroupRace :=
  { s with mem := Function.update s.mem e st }

def setCreator (i : Caller) (e : ℕ) : GroupRace :=
  { s with creator := Function.update s.creator i (some e) }

/-- What the map has for the group. -/
def group : Option ReuseportStorage := s.cur.map s.mem

end GroupRace

/-- The writes of a call that has set `created`. -/
def ReuseportStorage.initialised (st : ReuseportStorage) (env : OptEnv) (netns : UInt64) :
    ReuseportStorage :=
  { st with
    randomId := env.prandom
    netnsCookie := netns
    verbose := false
    dis := { st.dis with dissectorType := 0 } }

/-- The writes of a call that installs its dissector. -/
def ReuseportStorage.install (st : ReuseportStorage) (d : Dissector) : ReuseportStorage :=
  { st with dis := d.stored, verbose := verboseFlag d }

/-- The next step of call `i`. -/
def Calls.step (x : Calls) (s : GroupRace) (i : Caller) : Option GroupRace :=
  match s.pc i with
  | .start => some (s.goto i (s.cur.elim .missing fun e => .found e false))
  -- the result of the update is logged only
  | .missing => some ((s.update i (x.env i).mapRoom).goto i .updated)
  | .updated =>
    match s.cur with
    | none => some (s.goto i (.done (.err .ebadf)))
    | some e => some ((s.setCreator i e).goto i (.created e))
  | .created e =>
    some ((s.write e ((s.mem e).initialised (x.env i) x.netns)).goto i (.found e true))
  | .found e created =>
    some (s.goto i
      (if (s.mem e).netnsCookie ≠ x.netns then .done (.err .ebadf)
        else if !created then .compare e
        else if dissectorFail (x.cfg i) then .rejected
        else .valid e))
  | .compare e =>
    some (s.goto i (if dissectorCmp (s.mem e).dis (x.cfg i) then .same e else .done (.err .eperm)))
  | .same e =>
    some ((s.write e { s.mem e with verbose := verboseFlag (x.cfg i) }).goto i (.done .ok))
  | .rejected => some ({ s with cur := none }.goto i (.done (.err .eperm)))
  | .valid e =>
    some (s.goto i (if (x.env i).ringRoom then .reserved e else .done (.err .eagain)))
  | .reserved e => some ((s.write e ((s.mem e).install (x.cfg i))).goto i .stored)
  | .stored => some (s.goto i (.done .ok))
  | .done _ => none

def groupRace (x : Calls) : Transition.LTS GroupRace Caller := .ofFn x.step

/-! ### A call by itself -/

variable {x : Calls} {s t : GroupRace} {i k : Caller} {e : ℕ}

/-- The same call as one step of the whole system. -/
def atomicCall (p : Programs) (env : OptEnv) (u : Sys) (c : UInt64) (key : Key)
    (ss : SocketStorage) (data : List UInt8) : OptRet × Sys :=
  match getStateCreate env u key ss with
  | none => (.err .ebadf, u)
  | some (v, st, created) =>
    if st.netnsCookie ≠ ss.netnsCookie then (.err .ebadf, v)
    else setsockoptBody p env v c key ss st created data .dissector

theorem udpgrmSetsockopt_atomicCall {p : Programs} {env : OptEnv} {u : Sys} {c : UInt64}
    {ctx : SockoptCtx} {sock : Sock} {ss : SocketStorage} {data : List UInt8}
    (ho : ctx.opt = some .dissector) (hh : ctx.handled = false)
    (hd : copyIn ctx.optval = some data) (hs : u.socks c = some sock)
    (hss : sock.storage = some ss) :
    udpgrmSetsockopt p env u c ctx = atomicCall p env u c sock.key ss data := by
  simp only [udpgrmSetsockopt, ho, hh, hd, hs, hss, atomicCall, Option.bind_some, Option.map_some]
  rfl

@[simp] theorem GroupRace.goto_pc (s : GroupRace) (i : Caller) (pc : CallPc) :
    (s.goto i pc).pc i = pc :=
  Function.update_self ..

/-- Call `i` runs to its end with result `r`, and leaves `g` in the map. -/
def Ends (x : Calls) (s : GroupRace) (i : Caller) (r : OptRet) (g : Option ReuseportStorage) :
    Prop :=
  ∃ n t, Transition.Run (groupRace x) s (List.replicate n i) t ∧ t.pc i = .done r ∧ t.group = g

theorem Ends.done {r : OptRet} (h : s.pc i = .done r) : Ends x s i r s.group :=
  ⟨0, s, .refl, h, rfl⟩

theorem Ends.step {r : OptRet} {g : Option ReuseportStorage} (h : x.step s i = some t)
    (ht : Ends x t i r g) : Ends x s i r g := by
  obtain ⟨n, u, hrun, hpc, hg⟩ := ht
  exact ⟨n + 1, u, .stepL h hrun, hpc, hg⟩

/-- From the comparison on: the outcome for a group that was there. -/
theorem ends_compare (hp : s.pc i = .compare e) (hcur : s.cur = some e) :
    Ends x s i (if dissectorCmp (s.mem e).dis (x.cfg i) then .ok else .err .eperm)
      (some (if dissectorCmp (s.mem e).dis (x.cfg i) then
        { s.mem e with verbose := verboseFlag (x.cfg i) } else s.mem e)) := by
  refine .step (t := s.goto i _) (by rw [Calls.step, hp]) ?_
  split
  · refine .step (t := (GroupRace.write _ e _).goto i (.done .ok))
      (by rw [Calls.step, GroupRace.goto_pc]) ?_
    have hend := Ends.done (x := x) (GroupRace.goto_pc ((s.goto i (.same e)).write e
      { s.mem e with verbose := verboseFlag (x.cfg i) }) i (.done .ok))
    simpa [GroupRace.group, GroupRace.goto, GroupRace.write, hcur] using hend
  · have hend := Ends.done (x := x) (GroupRace.goto_pc s i (.done (.err .eperm)))
    simpa [GroupRace.group, GroupRace.goto, hcur] using hend

/-- From the end of the validation on: the outcome for a group that the call created. -/
theorem ends_valid (hp : s.pc i = .valid e) (hcur : s.cur = some e) :
    Ends x s i (if (x.env i).ringRoom then .ok else .err .eagain)
      (some (if (x.env i).ringRoom then (s.mem e).install (x.cfg i) else s.mem e)) := by
  refine .step (t := s.goto i _) (by rw [Calls.step, hp]) ?_
  split
  · refine .step (t := (GroupRace.write _ e _).goto i .stored)
      (by rw [Calls.step, GroupRace.goto_pc]) ?_
    refine .step (t := GroupRace.goto _ i (.done .ok)) (by rw [Calls.step, GroupRace.goto_pc]) ?_
    have hend := Ends.done (x := x) (GroupRace.goto_pc (((s.goto i (.reserved e)).write e
      ((s.mem e).install (x.cfg i))).goto i .stored) i (.done .ok))
    simpa [GroupRace.group, GroupRace.goto, GroupRace.write, hcur] using hend
  · have hend := Ends.done (x := x) (GroupRace.goto_pc s i (.done (.err .eagain)))
    simpa [GroupRace.group, GroupRace.goto, hcur] using hend

/-- From the validation on. -/
theorem ends_found (hp : s.pc i = .found e true) (hcur : s.cur = some e)
    (hnet : (s.mem e).netnsCookie = x.netns) :
    Ends x s i
      (if dissectorFail (x.cfg i) then .err .eperm
        else if (x.env i).ringRoom then .ok else .err .eagain)
      (if dissectorFail (x.cfg i) then none
        else some (if (x.env i).ringRoom then (s.mem e).install (x.cfg i) else s.mem e)) := by
  cases hf : dissectorFail (x.cfg i) with
  | true =>
    refine .step (t := s.goto i .rejected) (by simp [Calls.step, hp, hnet, hf]) ?_
    refine .step (t := GroupRace.goto _ i (.done (.err .eperm)))
      (by rw [Calls.step, GroupRace.goto_pc]) ?_
    exact .done (GroupRace.goto_pc ..)
  | false =>
    refine .step (t := s.goto i (.valid e)) (by simp [Calls.step, hp, hnet, hf]) ?_
    exact ends_valid (GroupRace.goto_pc ..) hcur

/-- From the second lookup on, of the element that the call has put there itself. -/
theorem ends_created (hp : s.pc i = .updated) (hcur : s.cur = some e)
    (hm : s.mem e = emptyState) :
    Ends x s i
      (if dissectorFail (x.cfg i) then .err .eperm
        else if (x.env i).ringRoom then .ok else .err .eagain)
      (if dissectorFail (x.cfg i) then none
        else some (if (x.env i).ringRoom
          then (emptyState.initialised (x.env i) x.netns).install (x.cfg i)
          else emptyState.initialised (x.env i) x.netns)) := by
  refine .step (t := (s.setCreator i e).goto i (.created e)) (by simp [Calls.step, hp, hcur]) ?_
  refine .step (t := (GroupRace.write _ e _).goto i (.found e true))
    (by rw [Calls.step, GroupRace.goto_pc]) ?_
  have hmem : (((((s.setCreator i e).goto i (.created e)).write e
      ((((s.setCreator i e).goto i (.created e)).mem e).initialised (x.env i) x.netns)).goto i
        (.found e true)).mem e) = emptyState.initialised (x.env i) x.netns := by
    simp [GroupRace.goto, GroupRace.write, GroupRace.setCreator, hm]
  have hend := ends_found (x := x) (GroupRace.goto_pc
    (((s.setCreator i e).goto i (.created e)).write e
      ((((s.setCreator i e).goto i (.created e)).mem e).initialised (x.env i) x.netns)) i
        (.found e true)) hcur (by rw [hmem]; rfl)
  rwa [hmem] at hend

/-- From the first lookup on, for a group that is there. -/
theorem ends_existing (hp : s.pc i = .found e false) (hcur : s.cur = some e) :
    Ends x s i
      (if (s.mem e).netnsCookie ≠ x.netns then .err .ebadf
        else if dissectorCmp (s.mem e).dis (x.cfg i) then .ok else .err .eperm)
      (some (if (s.mem e).netnsCookie ≠ x.netns then s.mem e
        else if dissectorCmp (s.mem e).dis (x.cfg i) then
          { s.mem e with verbose := verboseFlag (x.cfg i) } else s.mem e)) := by
  by_cases hnet : (s.mem e).netnsCookie = x.netns
  · refine .step (t := s.goto i (.compare e)) (by simp [Calls.step, hp, hnet]) ?_
    rw [if_neg (not_not.mpr hnet), if_neg (not_not.mpr hnet)]
    exact ends_compare (GroupRace.goto_pc s i (.compare e)) hcur
  · refine .step (t := s.goto i (.done (.err .ebadf))) (by simp [Calls.step, hp, hnet]) ?_
    simpa [GroupRace.group, GroupRace.goto, hnet, hcur] using
      Ends.done (x := x) (GroupRace.goto_pc s i (.done (.err .ebadf)))

/-- From the first lookup on, for a group that is not there. -/
theorem ends_missing (hp : s.pc i = .missing) (hcur : s.cur = none) :
    Ends x s i
      (if (x.env i).mapRoom = false then .err .ebadf
        else if dissectorFail (x.cfg i) then .err .eperm
        else if (x.env i).ringRoom then .ok else .err .eagain)
      (if (x.env i).mapRoom = false ∨ dissectorFail (x.cfg i) = true then none
        else some (if (x.env i).ringRoom
          then (emptyState.initialised (x.env i) x.netns).install (x.cfg i)
          else emptyState.initialised (x.env i) x.netns)) := by
  cases hroom : (x.env i).mapRoom with
  | false =>
    refine .step (t := s.goto i .updated) (by simp [Calls.step, hp, hroom, GroupRace.update]) ?_
    refine .step (t := (s.goto i .updated).goto i (.done (.err .ebadf)))
      (by simp [Calls.step, GroupRace.goto, hcur]) ?_
    simpa [GroupRace.group, GroupRace.goto, hcur] using
      Ends.done (x := x) (GroupRace.goto_pc (s.goto i .updated) i (.done (.err .ebadf)))
  | true =>
    refine .step (t := (s.update i true).goto i .updated) (by simp [Calls.step, hp, hroom]) ?_
    have hnew : (s.update i true).cur = some s.next ∧
        (s.update i true).mem s.next = emptyState := by simp [GroupRace.update, hcur]
    simpa using ends_created (x := x) (GroupRace.goto_pc (s.update i true) i .updated) hnew.1 hnew.2

section Alone

variable {p : Programs} {u : Sys} {c : UInt64} {key : Key} {ss : SocketStorage}
  {data : List UInt8}

theorem ends_atomicCall (hp : s.pc i = .start) (hu : u.groups key = s.group)
    (hn : ss.netnsCookie = x.netns) (hd : x.cfg i = .ofBytes data) :
    Ends x s i (atomicCall p (x.env i) u c key ss data).1
      ((atomicCall p (x.env i) u c key ss data).2.groups key) := by
  cases hcur : s.cur with
  | some e =>
    have hk : u.groups key = some (s.mem e) := by
      rw [hu, GroupRace.group, hcur]
      rfl
    refine .step (t := s.goto i (.found e false)) (by simp [Calls.step, hp, hcur]) ?_
    have hend := ends_existing (x := x) (GroupRace.goto_pc s i (.found e false)) hcur
    rw [hd] at hend
    by_cases hnet : (s.mem e).netnsCookie = x.netns
    · cases hcmp : dissectorCmp (s.mem e).dis (.ofBytes data) <;>
        simpa [atomicCall, getStateCreate, hk, hn, hnet, setsockoptBody, GroupRace.goto, hcmp,
          Sys.setGroup] using hend
    · simpa [atomicCall, getStateCreate, hk, hn, hnet, GroupRace.goto] using hend
  | none =>
    have hk : u.groups key = none := by
      rw [hu, GroupRace.group, hcur]
      rfl
    refine .step (t := s.goto i .missing) (by simp [Calls.step, hp, hcur]) ?_
    have hend := ends_missing (x := x) (GroupRace.goto_pc s i .missing) hcur
    rw [hd] at hend
    have hfresh : freshGroup (x.env i) ss = emptyState.initialised (x.env i) x.netns := by
      rw [← hn]
      rfl
    cases hroom : (x.env i).mapRoom with
    | false => simpa [atomicCall, getStateCreate, hk, hroom] using hend
    | true =>
      have hnet : (emptyState.initialised (x.env i) x.netns).netnsCookie = x.netns := rfl
      cases hf : dissectorFail (.ofBytes data) <;> cases hr : (x.env i).ringRoom <;>
        simpa [atomicCall, getStateCreate, hk, hn, hroom, hfresh, hnet, setsockoptBody, hf, hr,
          Sys.setGroup, Sys.eraseGroup, Sys.push, ReuseportStorage.install] using hend

/-- A call that is left alone does what the hook does as one step of the system. -/
theorem call_alone {ctx : SockoptCtx} {sock : Sock} (ho : ctx.opt = some .dissector)
    (hh : ctx.handled = false) (hc : copyIn ctx.optval = some data) (hs : u.socks c = some sock)
    (hss : sock.storage = some ss) (hp : s.pc i = .start) (hu : u.groups sock.key = s.group)
    (hn : ss.netnsCookie = x.netns) (hd : x.cfg i = .ofBytes data) :
    Ends x s i (udpgrmSetsockopt p (x.env i) u c ctx).1
      ((udpgrmSetsockopt p (x.env i) u c ctx).2.groups sock.key) := by
  rw [udpgrmSetsockopt_atomicCall ho hh hc hs hss]
  exact ends_atomicCall hp hu hn hd

end Alone

end Udpgrm
