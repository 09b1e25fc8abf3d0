import Udpgrm.CommandLine
import Udpgrm.Isolation
import Udpgrm.Restart

/-! The script that prepares the sockets of the next instance, beside a running instance and
everything else that uses the daemon. -/
namespace Udpgrm

variable {p : Programs} {s t : Sys} {a : Action} {k : Key} {ns c : UInt64} {x₀ x y : Rollout}
  {pc : DaemonPc}

/-! ### The script -/

/-- Where `udpgrm_activate.py` is: it makes its sockets, with a dissector for the first and an
application for each of them, registers them for the generation after the working one, waits until
each of them has an index, and sets the working generation. -/
inductive Stage
  | opening
  | binding (c : UInt64)
  | installing (c : UInt64) (tries : ℕ)
  | labelling (c : UInt64) (tries : ℕ)
  | registering (gen : UInt32) (left : List UInt64) (tries : ℕ)
  | waiting (gen : UInt32) (left : List UInt64) (polls : ℕ)
  | advancing (gen : UInt32) (tries : ℕ)
  | finished
  | exited
deriving DecidableEq, Repr

structure Activation where
  sockets : List UInt64
  stage : Stage
deriving DecidableEq, Repr

def Activation.start (args : ActivateArgs) : Activation :=
  ⟨[], if args.refused then .exited else .opening⟩

/-- `sys.exit`, or an exception that nobody catches. -/
def Activation.exit (act : Activation) : Activation := ⟨act.sockets, .exited⟩

/-- The sockets that the script holds, bound or not. -/
def Activation.own (act : Activation) : List UInt64 :=
  match act.stage with
  | .binding c | .installing c _ | .labelling c _ => c :: act.sockets
  | .exited => []
  | _ => act.sockets

/-- `retrying_setsockopt`: on EAGAIN the call is made again, up to eight times. Having failed eight
times it returns like a call that succeeded. -/
def retryingSetsockopt (tries : ℕ) (again next : Activation) : OptRet → Activation
  | .ok => next
  | .err .eagain => if tries + 1 < 8 then again else next
  | _ => again.exit

def Activation.append (act : Activation) (c : UInt64) : Activation :=
  ⟨act.sockets ++ [c], .opening⟩

/-- Behind the call for the dissector. -/
def Activation.configured (args : ActivateArgs) (act : Activation) (c : UInt64) : Activation :=
  if args.asksApp then ⟨act.sockets, .labelling c 0⟩ else act.append c

/-- Behind `bind`. Only the first socket asks for the dissector. -/
def Activation.bound (args : ActivateArgs) (act : Activation) (c : UInt64) : Activation :=
  if act.sockets = [] ∧ args.configures then
    match args.value with
    | some _ => ⟨act.sockets, .installing c 0⟩
    | none => act.exit
  else act.configured args c

/-- The next generation is passed as a C int, which 2 ^ 31 does not fit. -/
def firstAsk (workingGen : UInt32) (sockets : List UInt64) : Stage :=
  if workingGen = 0x7fffffff then .exited else .registering (workingGen + 1) sockets 0

/-- A socket without an index is asked again, eight times in all. -/
def polled (gen : UInt32) (c : UInt64) (left : List UInt64) (polls : ℕ) (registered : Bool) :
    Stage :=
  if registered then .waiting gen left 0
  else if 7 ≤ polls then .exited
  else .waiting gen (c :: left) (polls + 1)

/-- A call of the setsockopt hook by a socket, with its option and value. -/
def isCall (c : UInt64) (o : SockOpt) (optval : List UInt8) : Action → Bool
  | .setsockopt c' ctx _ => decide (c' = c ∧ ctx.opt = some o ∧ ctx.optval = optval)
  | _ => false

/-- The script makes a call that changes the system. -/
def Activation.call (p : Programs) (k : Key) (ns : UInt64) (args : ActivateArgs) (x : Rollout)
    (act : Activation) (a : Action) : Option Activation :=
  match act.stage with
  | .opening =>
    match a with
    | .socket c sk netnsCookie =>
      if act.sockets.length < args.count ∧ skeyFromBpfSock sk = k ∧ netnsCookie = ns then
        some ⟨act.sockets, .binding c⟩
      else none
    | _ => none
  | .binding c =>
    match a with
    | .bind c' _ => if c' = c then some (act.bound args c) else none
    | _ => none
  | .installing c tries =>
    args.value.bind fun v =>
      if isCall c .dissector v a then
        some (retryingSetsockopt tries ⟨act.sockets, .installing c (tries + 1)⟩
          (act.configured args c) (answer p x.sys a))
      else none
  | .labelling c tries =>
    if isCall c .socketApp (LittleEndian.ofNat 4 (args.app.getD 0).toNat) a then
      some (retryingSetsockopt tries ⟨act.sockets, .labelling c (tries + 1)⟩ (act.append c)
        (answer p x.sys a))
    else none
  | .registering gen (c :: left) tries =>
    if groupCall k x.sys a = some (c, .socketGen, gen) then
      some (retryingSetsockopt tries ⟨act.sockets, .registering gen (c :: left) (tries + 1)⟩
        ⟨act.sockets, .registering gen left 0⟩ (answer p x.sys a))
    else none
  | .advancing gen tries =>
    -- the loop over the sockets has left its variable at the last of them
    match act.sockets.getLast? with
    | some c =>
      if groupCall k x.sys a = some (c, .workingGen, gen) then
        some (retryingSetsockopt tries ⟨act.sockets, .advancing gen (tries + 1)⟩
          ⟨act.sockets, .finished⟩ (answer p x.sys a))
      else none
    | none => none
  | _ => none

/-- The script reads an option, or goes on to its next loop. -/
def Activation.look (k : Key) (args : ActivateArgs) (s : Sys) (act : Activation) :
    Option Activation :=
  match act.stage with
  | .opening =>
    if act.sockets.length = args.count then
      if args.noRegister then some ⟨act.sockets, .finished⟩
      else
        match act.sockets.head? with
        | some c => some ⟨act.sockets, firstAsk (getWorkingGen s c k) act.sockets⟩
        | none => some act.exit
    else none
  | .registering gen [] _ => some ⟨act.sockets, .waiting gen act.sockets 0⟩
  | .waiting gen (c :: left) polls =>
    some ⟨act.sockets, polled gen c left polls (reportsIndex s c)⟩
  | .waiting gen [] _ =>
    some ⟨act.sockets, if args.advanceWorkingGen then .advancing gen 0 else .finished⟩
  | _ => none

/-- A system call outside the hooks fails, or somebody kills the script. -/
def Activation.stop (act : Activation) : Option Activation :=
  match act.stage with
  | .finished | .exited => none
  | _ => some act.exit

/-! ### The script beside the others -/

/-- What anybody else does meanwhile. No other instance starts: nobody else asks for a generation or
sets the working one in the group. Nobody touches the sockets of the script, the sockets of the
running instance stay open, and so do those that the script has registered, in the descriptor store
once it is gone. -/
def bystander (k : Key) (ns : UInt64) (x : Rollout) (act : Activation) (a : Action) : Bool :=
  singleAppStep k ns x.sys a && closesRetired x a &&
    (match groupCall k x.sys a with
    | some (_, .socketGen, _) => false
    | some (_, .workingGen, _) => false
    | _ => true) &&
    (match a with
    | .bind c _ => decide (c ∉ act.own)
    | .close c => decide (c ∉ act.own)
    | .setsockopt c _ _ => decide (c ∉ act.own)
    | _ => true)

inductive ScriptMove
  | other (b : MicroAction)
  | call (a : Action)
  | look
  | stop

/-- The daemon's own steps on a registration are free. -/
def mayMove (k : Key) (ns : UInt64) (x : Rollout) (act : Activation) : MicroAction → Bool
  | .sys a => bystander k ns x act a
  | .fish _ | .daemon => true

def activateStep (p : Programs) (k : Key) (ns : UInt64) (args : ActivateArgs)
    (z : SteppedRollout × Activation) : ScriptMove → Option (SteppedRollout × Activation)
  | .other b =>
    if mayMove k ns z.1.rollout z.2 b then (z.1.step p k b).map fun y => (y, z.2) else none
  | .call a =>
    (z.2.call p k ns args z.1.rollout a).bind fun act =>
      (z.1.step p k (.sys a)).map fun y => (y, act)
  | .look => (z.2.look k args z.1.rollout.sys).map fun act => (z.1, act)
  | .stop => z.2.stop.map fun act => (z.1, act)

/-! ### What a step leaves of a socket -/

theorem reportsIndex_iff : reportsIndex s c = true ↔
    ∃ sock ss, s.socks c = some sock ∧ sock.storage = some ss ∧ ss.sockIdx ≠ UNSET := by
  constructor
  · intro h
    obtain ⟨_, hget, hi⟩ := (Option.any_eq_true ..).mp h
    obtain ⟨sock, hs, hget⟩ := Option.bind_eq_some_iff.mp hget
    obtain ⟨ss, hss, rfl⟩ := Option.map_eq_some_iff.mp hget
    exact ⟨sock, ss, hs, hss, of_decide_eq_true hi⟩
  · rintro ⟨sock, ss, hs, hss, hi⟩
    simpa [reportsIndex, getSocketGen, hs, hss] using hi

/-- A socket keeps its index unless it is bound again. -/
theorem reportsIndex_kept (h : execute p s a = some t) (hb : ∀ ctx, a ≠ .bind c ctx)
    (hr : reportsIndex s c = true) : reportsIndex t c = true := by
  obtain ⟨sock, ss, hs, hss, hi⟩ := reportsIndex_iff.mp hr
  obtain ⟨sock', hs', hstep⟩ := sock_step h hs
  apply reportsIndex_iff.mpr
  cases hstep with
  | same => exact ⟨sock, ss, hs', hss, hi⟩
  | bound ctx ha => exact absurd ha (hb ctx)
  | generation _ _ _ _ _ _ ss' hss' =>
    obtain rfl : ss = ss' := Option.some.inj (hss.symm.trans hss')
    exact ⟨_, _, hs', rfl, hi⟩
  | application _ _ _ ss' hss' _ hi' =>
    obtain rfl : ss = ss' := Option.some.inj (hss.symm.trans hss')
    exact absurd hi' hi
  | index _ _ hacc => exact ⟨_, _, hs', rfl, hacc.pos_ne_unset⟩
  | closed => exact ⟨_, ss, hs', hss, hi⟩

/-- An open socket of the group. -/
def OpenIn (k : Key) (s : Sys) (c : UInt64) : Prop :=
  s.isOpen c = true ∧ ∃ sock, s.socks c = some sock ∧ sock.key = k

theorem openIn_kept (h : execute p s a = some t) (ha : a ≠ .close c) (hc : OpenIn k s c) :
    OpenIn k t c := by
  obtain ⟨ho, sock, hs, hkey⟩ := hc
  obtain ⟨sock', hs', hstep⟩ := sock_step h hs
  exact ⟨isOpen_kept h ha ho, sock', hs', hstep.key_eq.trans hkey⟩

section Handling

variable {u v : MicroSys} {b : MicroAction}

/-- The daemon's steps on a registration change of a socket the index only, to the slot that they
have found. -/
theorem handling_sock {sock : Sock} (h : microExecute p u b = some v) (hb : ∀ a, b ≠ .sys a)
    (hs : u.sys.socks c = some sock) :
    v.sys.socks c = some sock ∨ ∃ r pos keep, u.daemon = .published r pos keep ∧ c = r.cookie ∧
      v.sys.socks c =
        some { sock with storage := some { r.ss with sockIdx := UInt32.ofNat pos } } := by
  cases microExecute_effect h with
  | sys => exact absurd rfl (hb _)
  | lost | fished => exact .inl hs
  | daemon he => exact he.sock hs

theorem handling_closed (h : microExecute p u b = some v) (hb : ∀ a, b ≠ .sys a)
    (hc : u.sys.closed c) : v.sys.closed c := by
  obtain ⟨sock, hs, ho⟩ := hc
  rcases handling_sock h hb hs with hs' | ⟨_, _, _, _, _, hs'⟩ <;> exact ⟨_, hs', ho⟩

theorem handling_openIn (h : microExecute p u b = some v) (hb : ∀ a, b ≠ .sys a)
    (hc : OpenIn k u.sys c) : OpenIn k v.sys c := by
  obtain ⟨ho, sock, hs, hkey⟩ := hc
  rcases handling_sock h hb hs with hs' | ⟨_, _, _, _, _, hs'⟩ <;>
    exact ⟨by simpa [Sys.isOpen, hs, hs'] using ho, _, hs', hkey⟩

theorem handling_reportsIndex (hx : RolloutInv k ns x pc)
    (h : microExecute p ⟨x.sys, pc⟩ b = some v) (hb : ∀ a, b ≠ .sys a)
    (hc : OpenIn k x.sys c) (hr : reportsIndex x.sys c = true) : reportsIndex v.sys c = true := by
  obtain ⟨sock, ss, hs, hss, hi⟩ := reportsIndex_iff.mp hr
  obtain ⟨_, sock', hs', hkey⟩ := hc
  obtain rfl := Option.some.inj (hs.symm.trans hs')
  apply reportsIndex_iff.mpr
  rcases handling_sock h hb hs with hsame | ⟨r, pos, keep, hpc, rfl, hnew⟩
  · exact ⟨sock, ss, hsame, hss, hi⟩
  · obtain rfl : pc = .published r pos keep := hpc
    obtain ⟨sock', hs', hkey'⟩ := (hx.app.fishing r.toFishing rfl).sock
    obtain rfl := Option.some.inj (hs.symm.trans hs')
    exact ⟨_, _, hnew, rfl, slot_ne_unset (hx.progress (hkey'.symm.trans hkey)).1⟩

end Handling

/-! ### The invariant -/

/-- What the script has done so far of its next stage. -/
def StageOk (x : Rollout) (sockets : List UInt64) : Stage → Prop
  | .registering gen left _ => gen = x.gen + 1 ∧ (∀ c ∈ left, c ∈ sockets) ∧
      ∀ c ∈ sockets, c ∈ left ∨ c ∈ x.starting
  | .waiting gen left _ => gen = x.gen + 1 ∧
      ∀ c ∈ sockets, c ∈ x.starting ∧ (c ∈ left ∨ reportsIndex x.sys c = true)
  | .advancing gen _ => gen = x.gen + 1 ∧
      ∀ c ∈ sockets, c ∈ x.starting ∧ reportsIndex x.sys c = true
  | _ => True

/-- The instance of `x₀` is in place and that of the script is not yet. -/
structure Preparing (k : Key) (x₀ x : Rollout) (act : Activation) : Prop where
  gen : x.gen = x₀.gen
  current : x.current = x₀.current
  closed : ∀ d ∈ x.retired, x.sys.closed d
  own : ∀ c ∈ act.own, OpenIn k x.sys c ∧ c ∉ x.current ∧ c ∉ x.retired
  starting : ∀ c ∈ x.starting, c ∈ act.sockets
  stage : StageOk x act.sockets act.stage

/-- The instance of the script is in place. -/
structure TakenOver (x₀ x : Rollout) (act : Activation) : Prop where
  stage : act.stage = .finished
  gen : x.gen = x₀.gen + 1
  current : x.current = act.sockets.toFinset

section Preparing

variable {act : Activation}

theorem StageOk.kept (h : StageOk x act.sockets act.stage)
    (hr : ∀ c ∈ act.own, reportsIndex x.sys c = true → reportsIndex t c = true) :
    StageOk { x with sys := t } act.sockets act.stage := by
  obtain ⟨sockets, stage⟩ := act
  cases stage with
  | registering => exact h
  | waiting =>
    refine ⟨h.1, fun c hc => ?_⟩
    exact ⟨(h.2 c hc).1, (h.2 c hc).2.imp_right (hr c hc)⟩
  | advancing =>
    refine ⟨h.1, fun c hc => ?_⟩
    exact ⟨(h.2 c hc).1, hr c hc (h.2 c hc).2⟩
  | _ => trivial

/-- What the script has prepared stays when nobody binds or closes its sockets. -/
theorem Preparing.step (h : Preparing k x₀ x act) (ht : execute p x.sys a = some t)
    (hclose : ∀ c ∈ act.own, a ≠ .close c) (hb : ∀ c ∈ act.own, ∀ ctx, a ≠ .bind c ctx) :
    Preparing k x₀ { x with sys := t } act where
  gen := h.gen
  current := h.current
  closed d hd := closed_kept ht (h.closed d hd)
  own c hc := ⟨openIn_kept ht (hclose c hc) (h.own c hc).1, (h.own c hc).2⟩
  starting := h.starting
  stage := h.stage.kept fun c hc => reportsIndex_kept ht (hb c hc)

/-- So it does while the daemon handles a registration. -/
theorem Preparing.handling {v : MicroSys} {b : MicroAction} (h : Preparing k x₀ x act)
    (hx : RolloutInv k ns x pc) (hv : microExecute p ⟨x.sys, pc⟩ b = some v)
    (hb : ∀ a, b ≠ .sys a) : Preparing k x₀ { x with sys := v.sys } act where
  gen := h.gen
  current := h.current
  closed d hd := handling_closed hv hb (h.closed d hd)
  own c hc := ⟨handling_openIn hv hb (h.own c hc).1, (h.own c hc).2⟩
  starting := h.starting
  stage := h.stage.kept fun c hc => handling_reportsIndex hx hv hb (h.own c hc).1

/-- The script goes on. -/
theorem Preparing.goto (h : Preparing k x₀ x act) (act' : Activation)
    (hown : ∀ c ∈ act'.own, c ∈ act.own) (hsub : ∀ c ∈ act.sockets, c ∈ act'.sockets)
    (hstage : StageOk x act'.sockets act'.stage) : Preparing k x₀ x act' where
  gen := h.gen
  current := h.current
  closed := h.closed
  own c hc := h.own c (hown c hc)
  starting c hc := hsub c (h.starting c hc)
  stage := hstage

theorem Preparing.exit (h : Preparing k x₀ x act) : Preparing k x₀ x act.exit :=
  h.goto act.exit (fun _ hc => absurd hc List.not_mem_nil) (fun _ hc => hc) trivial

/-- The script reads the generation of the running instance. -/
theorem Preparing.workingGen (h : Preparing k x₀ x act) (hx : RolloutInv k ns x pc)
    (hw : WorkingGen k x) (hne : x₀.current.Nonempty) (hc : c ∈ act.own) :
    getWorkingGen x.sys c k = x.gen := by
  have hne' : x.current.Nonempty := h.current ▸ hne
  obtain ⟨st, _, hk, _, _⟩ := hx.serving hne'
  obtain ⟨⟨_, sock, hs, hkey⟩, _⟩ := h.own c hc
  have happ := hx.app.app c sock hs hkey
  rw [← hw hne' st hk]
  cases hss : sock.storage with
  | none =>
    simp only [getWorkingGen, hk, hs, Option.bind_some, hss]
    rfl
  | some ss =>
    have hzero : ss.sockApp = 0 := by simpa [Sock.app, hss] using happ
    simp only [getWorkingGen, hk, hs, Option.bind_some, hss, hzero]
    rfl

end Preparing

end Udpgrm
