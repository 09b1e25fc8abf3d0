import Udpgrm.Registration

/-! The table of live sockets is shared by all groups, and what the daemon does once it is full. -/
namespace Udpgrm

open LittleEndian

variable {p : Programs} {s t : Sys} {a : Action} {k : Key} {c : UInt64} {st : ReuseportStorage}

/-! ### Messages can be answered -/

theorem setsockopt_posted_group {env : OptEnv} {ctx : SockoptCtx} {r : OptRet} {m : Msg}
    (h : SetsockoptEffect p env s c ctx r t) (hr : t.ring = s.ring ++ [m]) :
    (t.groups m.skey).isSome := by
  cases h with
  | untouched => simp at hr
  | @body sock ss b _ st created data o _ hs hss hb hd ho hn he =>
    have hring : b.ring = s.ring := by cases hb <;> rfl
    have hgroup : (b.groups sock.key).isSome := by
      cases hb with
      | existing h => simp [h]
      | created => simp [Sys.setGroup]
    cases he with
    | stay | verbose | undo | flow | socketApp =>
      simp [hring, Sys.setGroup, Sys.eraseGroup, Sys.setLru, Sys.setStorage] at hr
    | workingGen | install | socketGen =>
      simp only [Sys.push, Sys.setGroup, Sys.setStorage, hring, List.append_cancel_left_eq,
        List.cons.injEq, and_true] at hr
      subst hr
      first
        | exact hgroup
        | simp [Msg.skey, Sys.push, Sys.setGroup]

/-- A message on its way to the daemon is about a group that exists, and a registration is about
a socket with storage. -/
structure Answerable (s : Sys) : Prop where
  group : ∀ m ∈ s.ring, (s.groups m.skey).isSome
  storage : ∀ k pid cookie gen app, .registerSocket k pid cookie gen app ∈ s.ring →
    ((s.socks cookie).bind (·.storage)).isSome

theorem SockStep.storage_kept {sock sock' : Sock} (h : SockStep s a t c sock sock')
    (hs : sock.storage.isSome) : sock'.storage.isSome := by
  cases h with
  | same | closed => exact hs
  | bound | generation | application | index => rfl

theorem storage_kept (h : execute p s a = some t)
    (hc : ((s.socks c).bind (·.storage)).isSome) : ((t.socks c).bind (·.storage)).isSome := by
  obtain ⟨ss, hss⟩ := Option.isSome_iff_exists.mp hc
  obtain ⟨sock, hs, hss⟩ := Option.bind_eq_some_iff.mp hss
  obtain ⟨sock', hs', hstep⟩ := sock_step h hs
  rw [hs']
  exact hstep.storage_kept (by simp [hss])

theorem Answerable.step (h : execute p s a = some t) (hd : ∀ k, a ≠ .delete k) (hw : SocksWf s)
    (hs : Answerable s) : Answerable t := by
  have hgroup : ∀ m ∈ s.ring, (t.groups m.skey).isSome :=
    fun m hm => group_survives h (hd _) (hs.group m hm)
  have hstorage : ∀ k pid cookie gen app, .registerSocket k pid cookie gen app ∈ s.ring →
      ((t.socks cookie).bind (·.storage)).isSome :=
    fun k pid cookie gen app hm => storage_kept h (hs.storage k pid cookie gen app hm)
  cases ring_change h with
  | same hr => exact ⟨hr ▸ hgroup, hr ▸ hstorage⟩
  | handled _ _ m hr =>
    refine ⟨fun m' hm => hgroup m' (hr ▸ List.mem_cons_of_mem m hm), ?_⟩
    intro k pid cookie gen app hm
    exact hstorage k pid cookie gen app (hr ▸ List.mem_cons_of_mem m hm)
  | posted m hp hr =>
    constructor
    · intro m' hm
      rw [hr, List.mem_append, List.mem_singleton] at hm
      rcases hm with hm | rfl
      · exact hgroup m' hm
      · cases execute_effect h with
        | setsockopt => exact setsockopt_posted_group (udpgrmSetsockopt_effect ..) hr
        | _ => cases hp
    · intro k pid cookie gen app hm
      rw [hr, List.mem_append, List.mem_singleton] at hm
      rcases hm with hm | rfl
      · exact hstorage k pid cookie gen app hm
      · cases hp with
        | @register c _ _ sock ss _ hsock hss =>
          apply storage_kept h
          rw [hw.own_cookie c sock ss hsock hss, hsock]
          simp [hss]

/-- No group is deleted. -/
def keepsGroups (_ : Sys) (a : Action) : Prop := ∀ k, a ≠ .delete k

theorem answerable_run {as : List Action}
    (h : Transition.Run ((system p).restrict keepsGroups) Sys.initial as s) :
    SocksWf s ∧ Answerable s := by
  refine h.inv_restrict (P := fun s => SocksWf s ∧ Answerable s) ?_ ⟨.initial, ?_⟩
  · intro s a t htr hd ⟨hw, hs⟩
    exact ⟨SocksWf.step htr hw, Answerable.step htr hd hw hs⟩
  · constructor <;> simp [Sys.initial]

theorem keepsGroups_run {as : List Action} (h : Run p s as t)
    (hd : ∀ a ∈ as, ∀ k, a ≠ .delete k) :
    Transition.Run ((system p).restrict keepsGroups) s as t := by
  induction h with
  | refl => exact .refl
  | stepL htr _ ih =>
    refine .stepL ⟨hd _ List.mem_cons_self, htr⟩ (ih fun a ha => hd a (List.mem_cons_of_mem _ ha))

/-! ### A full table -/

/-- Every slot of the row holds a live socket. -/
def rowFull (s : Sys) (st : ReuseportStorage) (r : Row) : Bool :=
  decide (∀ j : Slot, st.cookies r j ∈ s.sockhash)

/-- The next registration is one of a socket in `sockhash`, or there is room in `sockhash`, or
there is none in the row. -/
def roomFor (s : Sys) (env : DaemonEnv) : Bool :=
  match s.ring, env.fished with
  | .registerSocket k _ cookie gen app :: _, .found _ =>
    decide (cookie ∈ s.sockhash) || decide (s.sockhash.card < MAX_SOCKETS_IN_GEN * MAX_GENS) ||
      (s.groups k).any fun st =>
        (toWrkGen? st.dis.maxApps app gen).any fun wg => rowFull s st (genRow wg)
  | _, _ => true

theorem freePos_eq_none_iff (st : ReuseportStorage) (wg : UInt32) (cookie : UInt64) :
    (cookiesFindEmpty st wg s.sockhash cookie).freePos = none ↔
      rowFull s st (genRow wg) = true := by
  have hscan := congrArg Prod.fst (cookiesFindEmpty_scan st wg s.sockhash cookie)
  rw [rowFull, decide_eq_true_iff]
  change (cookiesFindEmpty st wg s.sockhash cookie).freePos = _ at hscan
  rw [hscan, SlotScan.free_none_iff]
  constructor
  · intro h j
    simpa [rowLive, rowCookies] using h j j.isLt
  · intro h i _
    exact decide_eq_true (h (Fin.ofNat MAX_SOCKETS_IN_GEN i))

theorem sockhashUpdate_eq_none_iff {sockhash : Finset UInt64} :
    sockhashUpdate sockhash c = none ↔
      c ∉ sockhash ∧ MAX_SOCKETS_IN_GEN * MAX_GENS ≤ sockhash.card := by
  unfold sockhashUpdate
  split_ifs with hmem hroom
  · simp [hmem]
  · simp [hroom]
  · simp [hmem, not_lt.mp hroom]

/-- How a registration of socket `c` should end: not in `error()`, and where there is no room
for a new socket, with the message dropped and nothing else changed. -/
structure OnlyRejects (env : DaemonEnv) (s : Sys) (m : Msg) (rest : List Msg) (c : UInt64)
    (t : Sys) : Prop where
  no_error : ∀ e, handleMsg env { s.tick env.now with ring := rest } m = .error e →
    e = .divisionByZero
  dropped : ∀ f, env.fished = .found f → c ∉ s.sockhash →
    MAX_SOCKETS_IN_GEN * MAX_GENS ≤ s.sockhash.card → t = { s.tick env.now with ring := rest }

theorem execute_handle {env : DaemonEnv} {m : Msg} {rest : List Msg}
    (hr : s.ring = m :: rest) (h : execute p s (.handle env) = some t) :
    s.clock ≤ env.now ∧ s.exited = false ∧ fishable (s.tick env.now) env m = true ∧
      ((∃ call, handleMsg env { s.tick env.now with ring := rest } m = .ok (t, call)) ∨
        ∃ e, handleMsg env { s.tick env.now with ring := rest } m = .error e ∧
          t.exited = true) := by
  simp only [execute] at h
  split_ifs at h with hnow
  have hr' : (s.tick env.now).ring = m :: rest := hr
  simp only [handleStep, hr'] at h
  split_ifs at h with hg
  rw [not_or, Bool.not_eq_true, Bool.not_eq_false] at hg
  refine ⟨hnow, hg.1, hg.2, ?_⟩
  split at h
  · rename_i hm
    cases h
    exact .inl ⟨_, hm⟩
  · rename_i hm
    cases h
    exact .inr ⟨_, hm, rfl⟩

section Register

variable {env : DaemonEnv} {pid gen app wg : UInt32} {ss : SocketStorage} {f : ℕ}

theorem handleMsg_register (hk : s.groups k = some st) :
    handleMsg env s (.registerSocket k pid c gen app) =
      (handleRegister env s k st c gen app).map fun t => (t, none) := by
  simp [handleMsg, Msg.skey, hk]

theorem handleRegister_unfished (hf : ∀ f, env.fished ≠ .found f) (e : Fatal) :
    handleRegister env s k st c gen app ≠ .error e := by
  cases h : env.fished with
  | died | notFound => simp [handleRegister, h]
  | found f => exact absurd h (hf f)

theorem handleRegister_division (hf : env.fished = .found f)
    (hss : (s.socks c).bind (·.storage) = some ss)
    (hwg : toWrkGen? st.dis.maxApps app gen = none) :
    handleRegister env s k st c gen app = .error .divisionByZero := by
  simp [handleRegister, hf, hss, hwg]

theorem handleRegister_rowFull (hf : env.fished = .found f)
    (hss : (s.socks c).bind (·.storage) = some ss)
    (hwg : toWrkGen? st.dis.maxApps app gen = some wg) (hfull : rowFull s st (genRow wg) = true) :
    handleRegister env s k st c gen app = .ok s := by
  simp [handleRegister, hf, hss, hwg, (freePos_eq_none_iff st wg c).mpr hfull]

theorem handleRegister_free (hf : env.fished = .found f)
    (hss : (s.socks c).bind (·.storage) = some ss)
    (hwg : toWrkGen? st.dis.maxApps app gen = some wg)
    (hfree : rowFull s st (genRow wg) = false) :
    ∃ pos len, SlotScan.scan (rowLive st (genRow wg) s.sockhash) MAX_SOCKETS_IN_GEN =
        (some pos, len) ∧
      handleRegister env s k st c gen app =
        match sockhashUpdate s.sockhash c with
        | none => .error .sockhash
        | some sockhash =>
          .ok (acceptSocket env { s with sockhash := sockhash } k st ss c wg pos len f) := by
  have hscan := cookiesFindEmpty_scan st wg s.sockhash c
  cases hpos : (cookiesFindEmpty st wg s.sockhash c).freePos with
  | none => simp [(freePos_eq_none_iff st wg c).mp hpos] at hfree
  | some pos =>
    rw [hpos] at hscan
    refine ⟨pos, _, hscan.symm, ?_⟩
    cases hup : sockhashUpdate s.sockhash c <;>
      simp only [handleRegister, hf, hss, hwg, hpos, hup]

/-- Once the socket is found, the daemon dies, the row is full, or the socket is accepted. -/
theorem register_outcome {rest : List Msg}
    (hr : s.ring = .registerSocket k pid c gen app :: rest) (hf : env.fished = .found f)
    (h : execute p s (.handle env) = some t) :
    t.exited = true ∨
      (∃ st, s.groups k = some st ∧
        rowFull s st (registeredRow st.dis.maxApps app gen) = true) ∨
      ∃ hacc : Accepted s env t,
        hacc.k = k ∧ hacc.cookie = c ∧ hacc.gen = gen ∧ hacc.app = app := by
  obtain ⟨hnow, hx, hfish, ⟨call, hm⟩ | ⟨_, _, hexit⟩⟩ := execute_handle hr h
  swap
  · exact .inl hexit
  cases hk : s.groups k with
  | none => simp [handleMsg, Msg.skey, Sys.tick, hk] at hm
  | some st =>
    obtain ⟨u, hu⟩ : ∃ u : Sys, u = { s.tick env.now with ring := rest } := ⟨_, rfl⟩
    have hku : u.groups k = some st := hu ▸ hk
    have hsh : u.sockhash = s.sockhash := hu ▸ rfl
    rw [← hu, handleMsg_register hku] at hm
    cases hss : (u.socks c).bind (·.storage) with
    | none => simp [handleRegister, hf, hss, Except.map] at hm
    | some ss =>
      cases hwg : toWrkGen? st.dis.maxApps app gen with
      | none => simp [handleRegister_division hf hss hwg, Except.map] at hm
      | some wg =>
        have hrow : registeredRow st.dis.maxApps app gen = genRow wg := by
          rw [registeredRow, toWrkGen?_eq_some hwg]
        cases hfull : rowFull s st (genRow wg) with
        | true => exact .inr (.inl ⟨st, rfl, hrow ▸ hfull⟩)
        | false =>
          have hfree : rowFull u st (genRow wg) = false := by simpa [rowFull, hsh] using hfull
          obtain ⟨pos, len, hscan, hreg⟩ := handleRegister_free (k := k) hf hss hwg hfree
          rw [hreg] at hm
          cases hupd : sockhashUpdate u.sockhash c with
          | none => simp [hupd, Except.map] at hm
          | some sockhash =>
            rw [hupd] at hm
            have ht := (Prod.mk.inj (Except.ok.inj hm)).1
            subst hu
            exact .inr (.inr ⟨⟨k, pid, gen, app, wg, c, rest, st, ss, sockhash, f, pos, len, hnow,
              hr, hx, hk, hf, hfish, hss, hwg, hscan, hupd, ht.symm⟩, rfl, rfl, rfl, rfl⟩)

end Register

theorem onlyRejects_iff {env : DaemonEnv} {pid gen app : UInt32} {rest : List Msg} {u : Sys}
    (hu : u = { s.tick env.now with ring := rest }) (hk : u.groups k = some st) :
    OnlyRejects env s (.registerSocket k pid c gen app) rest c t ↔
      (∀ e, handleRegister env u k st c gen app = .error e → e = .divisionByZero) ∧
      ∀ f, env.fished = .found f → c ∉ s.sockhash →
        MAX_SOCKETS_IN_GEN * MAX_GENS ≤ s.sockhash.card → t = u := by
  subst hu
  constructor
  · rintro ⟨herr, hdrop⟩
    refine ⟨fun e he => herr e ?_, hdrop⟩
    rw [handleMsg_register hk, he]
    rfl
  · rintro ⟨herr, hdrop⟩
    refine ⟨fun e he => herr e ?_, hdrop⟩
    rw [handleMsg_register hk] at he
    cases hreg : handleRegister env { s.tick env.now with ring := rest } k st c gen app with
    | ok t => simp [hreg, Except.map] at he
    | error e' => simpa [hreg, Except.map] using he

/-- In a run without deletes, a registration ends well exactly if `sockhash` has room for its
socket or the row has none. -/
theorem registration_rejected_iff {as : List Action} {env : DaemonEnv} {pid gen app : UInt32}
    {rest : List Msg} (h : Transition.Run ((system p).restrict keepsGroups) Sys.initial as s)
    (hr : s.ring = .registerSocket k pid c gen app :: rest)
    (ht : execute p s (.handle env) = some t) :
    OnlyRejects env s (.registerSocket k pid c gen app) rest c t ↔ roomFor s env = true := by
  obtain ⟨_, hans⟩ := answerable_run h
  have hmem : .registerSocket k pid c gen app ∈ s.ring := by simp [hr]
  obtain ⟨st, hk⟩ := Option.isSome_iff_exists.mp (hans.group _ hmem)
  obtain ⟨ss, hss⟩ := Option.isSome_iff_exists.mp (hans.storage _ _ _ _ _ hmem)
  obtain ⟨_, hrunning, _, hend⟩ := execute_handle hr ht
  obtain ⟨u, hu⟩ : ∃ u : Sys, u = { s.tick env.now with ring := rest } := ⟨_, rfl⟩
  have hku : u.groups k = some st := hu ▸ hk
  have hssu : (u.socks c).bind (·.storage) = some ss := hu ▸ hss
  have hsh : u.sockhash = s.sockhash := hu ▸ rfl
  have hfullu : ∀ r, rowFull u st r = rowFull s st r := by simp [rowFull, hsh]
  have hstop : u.exited = false := hu ▸ hrunning
  have hks : s.groups k = some st := hk
  rw [onlyRejects_iff hu hku]
  rw [← hu, handleMsg_register hku] at hend
  cases hf : env.fished with
  | died | notFound =>
    refine iff_of_true ⟨fun e he => ?_, fun f hfound => by simp at hfound⟩
      (by simp [roomFor, hr, hf])
    exact absurd he (handleRegister_unfished (by simp [hf]) e)
  | found f =>
    simp only [roomFor, hr, hf, hks, Option.any_some, Bool.or_eq_true, decide_eq_true_eq]
    cases hwg : toWrkGen? st.dis.maxApps app gen with
    | none =>
      have hreg := handleRegister_division (k := k) hf hssu hwg
      have hcrash : t ≠ u := by
        rintro rfl
        simp [hreg, Except.map, hstop] at hend
      rw [hreg, Option.any_none]
      constructor
      · rintro ⟨_, hdrop⟩
        by_contra hno
        simp only [Bool.false_eq_true, or_false, not_or, not_lt] at hno
        exact hcrash (hdrop f rfl hno.1 hno.2)
      · intro hroom
        refine ⟨fun e he => (Except.error.inj he).symm, fun _ _ hc hcard => ?_⟩
        exact absurd hroom (by simp [hc, hcard])
    | some wg =>
      rw [Option.any_some]
      cases hfull : rowFull s st (genRow wg) with
      | true =>
        have hreg := handleRegister_rowFull (k := k) hf hssu hwg ((hfullu _).trans hfull)
        have hu' : t = u := by
          rw [hreg] at hend
          rcases hend with ⟨call, hcall⟩ | ⟨e, he, _⟩
          · exact (Prod.mk.inj (Except.ok.inj hcall)).1.symm
          · cases he
        exact iff_of_true ⟨by simp [hreg], fun _ _ _ _ => hu'⟩ (.inr rfl)
      | false =>
        obtain ⟨pos, len, _, hreg⟩ :=
          handleRegister_free (k := k) hf hssu hwg ((hfullu _).trans hfull)
        cases hupd : sockhashUpdate u.sockhash c with
        | none =>
          obtain ⟨hc, hcard⟩ := sockhashUpdate_eq_none_iff.mp (hsh ▸ hupd)
          rw [hupd] at hreg
          refine iff_of_false (fun hrej => ?_) (by simp [hc, hcard])
          cases hrej.1 _ hreg
        | some sockhash =>
          have hroom : c ∈ s.sockhash ∨ s.sockhash.card < MAX_SOCKETS_IN_GEN * MAX_GENS := by
            by_contra hno
            rw [not_or, not_lt, ← sockhashUpdate_eq_none_iff, ← hsh, hupd] at hno
            cases hno
          rw [hupd] at hreg
          refine iff_of_true ⟨by simp [hreg], fun _ _ hc hcard => ?_⟩ (.inl hroom)
          exact absurd hroom (by simp [hc, hcard])

/-- A registration with room in `sockhash` goes through. -/
theorem registration_rejected_room : ∃ s t,
    Transition.Run ((system .const).restrict keepsGroups) Sys.initial
      (Action.openBound 1 ++ [.call 1 201 [1, 0, 0, 0]]) s ∧
      s.ring = [.registerSocket (skeyFromBpfSock .loopback) 100 1 1 0] ∧
      execute .const s (.daemon 10) = some t ∧ roomFor s ⟨.found 10, true, 0, 0⟩ = true ∧
      OnlyRejects ⟨.found 10, true, 0, 0⟩ s
        (.registerSocket (skeyFromBpfSock .loopback) 100 1 1 0) [] 1 t := by
  obtain ⟨s, hs, hx⟩ := Transition.run_of_any (execute .const) Sys.initial
    (Action.openBound 1 ++ [.call 1 201 [1, 0, 0, 0]])
    (fun s : Sys => decide (s.ring = [.registerSocket (skeyFromBpfSock .loopback) 100 1 1 0]) &&
      (execute .const s (.daemon 10)).isSome && roomFor s ⟨.found 10, true, 0, 0⟩)
    (by decide +kernel)
  simp only [Bool.and_eq_true, decide_eq_true_eq, Option.isSome_iff_exists] at hx
  obtain ⟨⟨hr, t, ht⟩, hroom⟩ := hx
  have hrun := keepsGroups_run hs (by simp [Action.openBound, Action.call])
  exact ⟨s, t, hrun, hr, ht, hroom, (registration_rejected_iff hrun hr ht).mpr hroom⟩

/-! ### Filling the table -/

/-- A socket is opened and bound at an address, and asks for a generation. -/
def Action.asks (c : UInt64) (sk : BpfSock) (gen : UInt8) : List Action :=
  [.socket c sk 5, .bind c ⟨AF_INET, IPPROTO_UDP, some 1, true⟩, .call c 201 [gen, 0, 0, 0]]

/-- The group of an address after a call by one of its sockets. -/
def Sys.groupOf (s : Sys) (sk : BpfSock) : ReuseportStorage :=
  (s.groups (skeyFromBpfSock sk)).getD (freshGroup .roomy ⟨UNSET, UNSET, 0, 0, 5⟩)

/-- The state once the new socket has asked. -/
def Sys.asked (s : Sys) (c : UInt64) (sk : BpfSock) (gen : UInt8) : Sys :=
  { s with
    groups := Function.update s.groups (skeyFromBpfSock sk) (some (s.groupOf sk))
    socks := Function.update s.socks c (some ⟨sk, 5, true, some ⟨gen.toUInt32, UNSET, 0, c, 5⟩⟩)
    ring := s.ring ++ [.registerSocket (skeyFromBpfSock sk) 100 c gen.toUInt32 0]
    clock := 0 }

theorem copyIn_generation (gen : UInt8) :
    ∃ data, copyIn [gen, 0, 0, 0] = some data ∧ u32 data 0 = gen.toUInt32 := by
  refine ⟨[gen, 0, 0, 0] ++ List.replicate 1020 0, rfl, ?_⟩
  change UInt32.ofNat (LittleEndian.toNat [gen, 0, 0, 0]) = _
  apply UInt32.toNat_inj.mp
  simp only [LittleEndian.toNat, UInt32.toNat_ofNat', UInt8.toNat_toUInt32]
  simp

theorem asks_run {sk : BpfSock} {gen : UInt8} (hs : s.socks c = none) (hc : c ≠ 0)
    (hclock : s.clock = 0)
    (hn : ∀ st, s.groups (skeyFromBpfSock sk) = some st → st.netnsCookie = 5) :
    Run p s (Action.asks c sk gen) (s.asked c sk gen) := by
  obtain ⟨data, hd, hgen⟩ := copyIn_generation gen
  have hopened : execute p s (.socket c sk 5) =
      some { s with socks := Function.update s.socks c (some ⟨sk, 5, true, none⟩) } := by
    simp [execute, hs, hc]
  have hbound : execute p { s with socks := Function.update s.socks c (some ⟨sk, 5, true, none⟩) }
      (.bind c ⟨AF_INET, IPPROTO_UDP, some 1, true⟩) = some { s with
        socks := Function.update s.socks c
          (some ⟨sk, 5, true, some ⟨UNSET, UNSET, 0, c, 5⟩⟩) } := by
    simp [execute, bpfBind, Sys.isOpen, Sys.setStorage]
  have hasked : execute p { s with
        socks := Function.update s.socks c (some ⟨sk, 5, true, some ⟨UNSET, UNSET, 0, c, 5⟩⟩) }
      (.call c 201 [gen, 0, 0, 0]) = some (s.asked c sk gen) := by
    have ho : SockoptCtx.opt ⟨IPPROTO_UDP, 201, [gen, 0, 0, 0], false⟩ = some .socketGen := rfl
    cases hk : s.groups (skeyFromBpfSock sk) with
    | none =>
      simp [execute, Action.call, Sys.isOpen, OptEnv.roomy, hclock, udpgrmSetsockopt, ho, hd,
        Sock.key, getStateCreate, hk, freshGroup, setsockoptBody, Sys.tick, Sys.setGroup,
        Sys.setStorage, Sys.push, Sys.asked, Sys.groupOf, hgen]
    | some st =>
      have hself : Function.update s.groups (skeyFromBpfSock sk) (some st) = s.groups := by
        rw [← hk, Function.update_eq_self]
      simp [execute, Action.call, Sys.isOpen, OptEnv.roomy, hclock, udpgrmSetsockopt, ho, hd,
        Sock.key, getStateCreate, hk, hn st hk, setsockoptBody, Sys.tick, Sys.setStorage, Sys.push,
        Sys.asked, Sys.groupOf, hgen, hself]
  exact .stepL hopened (.stepL hbound (.single hasked))

/-- The daemon has nothing to do and holds no descriptor. -/
structure Sys.Idle (s : Sys) : Prop where
  ring : s.ring = []
  fds : s.fds = []
  clock : s.clock = 0
  exited : s.exited = false

section Asked

variable {sk : BpfSock} {gen : UInt8} {wg : UInt32} {pos len : ℕ}

theorem cookiesFindEmpty_of_scan (h : SlotScan.scan (rowLive st (genRow wg) s.sockhash)
    MAX_SOCKETS_IN_GEN = (some pos, len)) :
    (cookiesFindEmpty st wg s.sockhash c).freePos = some pos ∧
      (cookiesFindEmpty st wg s.sockhash c).genLen = len :=
  Prod.mk.inj ((cookiesFindEmpty_scan st wg s.sockhash c).trans h)

/-- The state once the new socket is registered. -/
def Sys.registered (s : Sys) (c : UInt64) (sk : BpfSock) (gen : UInt8) (wg : UInt32)
    (pos len : ℕ) : Sys :=
  { s with
    groups := Function.update s.groups (skeyFromBpfSock sk) (some
      ((s.groupOf sk).setCookie wg (UInt32.ofNat pos) (UInt32.ofNat len) c))
    socks := Function.update s.socks c
      (some ⟨sk, 5, true, some ⟨gen.toUInt32, UInt32.ofNat pos, 0, c, 5⟩⟩)
    sockhash := insert c s.sockhash }

/-- With room, the daemon accepts the socket that asked. -/
theorem asked_accepted (hi : s.Idle) (hnew : c ∉ s.sockhash)
    (hcard : s.sockhash.card < MAX_SOCKETS_IN_GEN * MAX_GENS)
    (hl : (s.groupOf sk).dis.labelled = false)
    (hwg : toWrkGen? (s.groupOf sk).dis.maxApps 0 gen.toUInt32 = some wg)
    (hscan : SlotScan.scan (rowLive (s.groupOf sk) (genRow wg) s.sockhash) MAX_SOCKETS_IN_GEN =
      (some pos, len)) :
    execute p (s.asked c sk gen) (.daemon 10) = some (s.registered c sk gen wg pos len) := by
  obtain ⟨hpos, hlen⟩ := cookiesFindEmpty_of_scan (c := c) hscan
  simp [execute, Action.daemon, handleStep, Sys.tick, Sys.asked, hi.ring, hi.exited, fishable,
    Sys.isOpen, hi.fds, hi.clock, handleMsg, Msg.skey, handleRegister, hwg, hpos, hlen,
    sockhashUpdate, hnew, hcard, acceptSocket, tubularMaybePreserveFd, hl, Except.map,
    Sys.registered, Sys.setGroup, Sys.setStorage]

/-- Without room, the daemon dies. -/
theorem asked_fatal (hi : s.Idle) (hnew : c ∉ s.sockhash)
    (hcard : MAX_SOCKETS_IN_GEN * MAX_GENS ≤ s.sockhash.card)
    (hwg : toWrkGen? (s.groupOf sk).dis.maxApps 0 gen.toUInt32 = some wg)
    (hscan : SlotScan.scan (rowLive (s.groupOf sk) (genRow wg) s.sockhash) MAX_SOCKETS_IN_GEN =
      (some pos, len)) :
    ∃ t, execute p (s.asked c sk gen) (.daemon 10) = some t ∧ t.exited = true := by
  obtain ⟨hpos, hlen⟩ := cookiesFindEmpty_of_scan (c := c) hscan
  simp [execute, Action.daemon, handleStep, Sys.tick, Sys.asked, hi.ring, hi.exited, fishable,
    Sys.isOpen, hi.fds, handleMsg, Msg.skey, handleRegister, hwg, hpos,
    sockhashUpdate, hnew, not_lt.mpr hcard, Except.map, Sys.crash, Sys.reap]

end Asked

/-- The first `n` sockets fill the table of one group, row by row. -/
structure FilledTo (n : ℕ) (s : Sys) : Prop where
  idle : s.Idle
  unused : ∀ c : UInt64, n < c.toNat → s.socks c = none
  live : ∀ c : UInt64, c ∈ s.sockhash ↔ 0 < c.toNat ∧ c.toNat ≤ n
  card : s.sockhash.card = n
  netns : (s.groupOf .loopback).netnsCookie = 5
  dis : (s.groupOf .loopback).dis = .empty
  cookies : ∀ (r : Row) (j : Slot), (s.groupOf .loopback).cookies r j =
    if 256 * r.val + j.val < n then UInt64.ofNat (256 * r.val + j.val + 1) else 0
  other : s.groups (skeyFromBpfSock .loopback444) = none

theorem filledTo_zero : FilledTo 0 Sys.initial where
  idle := ⟨rfl, rfl, rfl, rfl⟩
  unused _ _ := rfl
  live c := by
    simp only [Sys.initial, Finset.notMem_empty, false_iff]
    omega
  card := rfl
  netns := rfl
  dis := rfl
  cookies r j := by
    rw [if_neg (by omega)]
    rfl
  other := rfl

theorem toWrkGen?_empty (gen : UInt32) :
    toWrkGen? Dissector.empty.maxApps 0 gen = some (toWrkGen 0 0 gen) := by
  simp [toWrkGen?, Dissector.empty, slotSize]

theorem genRow_byte {n : ℕ} (hn : n < 32) :
    (genRow (toWrkGen 0 0 (UInt8.ofNat n).toUInt32)).val = n := by
  rw [genRow_toWrkGen_single (by decide), genRow_val]
  simp only [UInt8.toNat_toUInt32, UInt8.toNat_ofNat']
  omega

/-- In the row that is being filled, the live slots come first. -/
theorem FilledTo.scan {n : ℕ} (h : FilledTo n s) {r : Row} (hr : r.val = n / 256)
    (hn : n < MAX_SOCKETS_IN_GEN * MAX_GENS) :
    SlotScan.scan (rowLive (s.groupOf .loopback) r s.sockhash) MAX_SOCKETS_IN_GEN =
      (some (n % 256), n % 256 + 1) := by
  have hn' : n < 256 * 32 := hn
  have hlive : ∀ i < MAX_SOCKETS_IN_GEN, rowLive (s.groupOf .loopback) r s.sockhash i = true ↔
      i < n % 256 := by
    intro i hi
    have hi' : i < 256 := hi
    have hv : (Fin.ofNat MAX_SOCKETS_IN_GEN i).val = i := Nat.mod_eq_of_lt hi
    rw [rowLive, decide_eq_true_iff, rowCookies, h.cookies, h.live, hr, hv]
    split
    · rw [UInt64.toNat_ofNat']
      omega
    · simp only [UInt64.toNat_zero]
      omega
  refine SlotScan.scan_filled (Nat.mod_lt _ (by decide)) (fun i hi => ?_) fun i hle hi => ?_
  · exact (hlive i (hi.trans (Nat.mod_lt _ (by decide)))).mpr hi
  · have hnot := mt (hlive i hi).mp (by omega)
    simpa using hnot

theorem registered_groupOf (s : Sys) (c : UInt64) (sk : BpfSock) (gen : UInt8) (wg : UInt32)
    (pos len : ℕ) : (s.registered c sk gen wg pos len).groupOf sk =
      (s.groupOf sk).setCookie wg (UInt32.ofNat pos) (UInt32.ofNat len) c := by
  simp [Sys.groupOf, Sys.registered]

theorem filledTo_registered {n : ℕ} {gen : UInt8} {wg : UInt32} (h : FilledTo n s)
    (hn : n < MAX_SOCKETS_IN_GEN * MAX_GENS) (hrow : (genRow wg).val = n / 256) :
    FilledTo (n + 1)
      (s.registered (UInt64.ofNat (n + 1)) .loopback gen wg (n % 256) (n % 256 + 1)) := by
  have hn' : n < 256 * 32 := hn
  have hc : (UInt64.ofNat (n + 1)).toNat = n + 1 := by
    rw [UInt64.toNat_ofNat']
    omega
  have hnew : UInt64.ofNat (n + 1) ∉ s.sockhash := by
    rw [h.live, hc]
    omega
  constructor
  · exact ⟨h.idle.ring, h.idle.fds, h.idle.clock, h.idle.exited⟩
  · intro c hlt
    have hne : c ≠ UInt64.ofNat (n + 1) := by
      rintro rfl
      omega
    exact (Function.update_of_ne hne _ _).trans (h.unused c (by omega))
  · intro c
    rw [Sys.registered, Finset.mem_insert, h.live, ← UInt64.toNat_inj, hc]
    omega
  · rw [Sys.registered, Finset.card_insert_of_notMem hnew, h.card]
  · rw [registered_groupOf]
    exact h.netns
  · rw [registered_groupOf]
    exact h.dis
  · intro r j
    have hslot : (idxSlot (UInt32.ofNat (n % 256))).val = n % 256 := by
      rw [idxSlot_ofNat]
      exact Nat.mod_eq_of_lt (Nat.mod_lt _ (by decide))
    have hr := r.isLt
    have hj := j.isLt
    have hj' : j.val < 256 := hj
    rw [registered_groupOf, setCookie_cookies, h.cookies]
    by_cases hrj : 256 * r.val + j.val = n
    · rw [if_pos, if_pos (by omega), hrj]
      exact ⟨Fin.ext (by omega), Fin.ext (by omega)⟩
    · rw [if_neg]
      · by_cases hlt : 256 * r.val + j.val < n
        · rw [if_pos hlt, if_pos (by omega)]
        · rw [if_neg hlt, if_neg (by omega)]
      · rintro ⟨rfl, rfl⟩
        omega
  · have hne : skeyFromBpfSock .loopback444 ≠ skeyFromBpfSock .loopback := by decide
    simpa [Sys.registered, Function.update_of_ne hne] using h.other

theorem filledTo_step {n : ℕ} (h : FilledTo n s) (hn : n < MAX_SOCKETS_IN_GEN * MAX_GENS) :
    ∃ t, Run p s (Action.asks (UInt64.ofNat (n + 1)) .loopback (UInt8.ofNat (n / 256)) ++
        [.daemon 10]) t ∧ FilledTo (n + 1) t := by
  have hn' : n < 256 * 32 := hn
  have hc : (UInt64.ofNat (n + 1)).toNat = n + 1 := by
    rw [UInt64.toNat_ofNat']
    omega
  have hrow := genRow_byte (n := n / 256) (by omega)
  have hasks : Run p s _ (s.asked (UInt64.ofNat (n + 1)) .loopback (UInt8.ofNat (n / 256))) :=
    asks_run (h.unused _ (by omega)) (fun hz => by simp [hz] at hc) h.idle.clock
      (fun st hst => by simpa [Sys.groupOf, hst] using h.netns)
  have haccept : execute p (s.asked (UInt64.ofNat (n + 1)) .loopback (UInt8.ofNat (n / 256)))
      (.daemon 10) = some (s.registered _ _ _ _ _ _) :=
    asked_accepted h.idle (by rw [h.live, hc]; omega) (by rw [h.card]; exact hn)
      (by rw [h.dis]; decide) (by rw [h.dis]; exact toWrkGen?_empty _) (h.scan hrow hn)
  exact ⟨_, hasks.append (.single haccept), filledTo_registered h hn hrow⟩

theorem filledTo_run {n : ℕ} (hn : n ≤ MAX_SOCKETS_IN_GEN * MAX_GENS) :
    ∃ as s, Transition.Run ((system p).restrict keepsGroups) Sys.initial as s ∧ FilledTo n s := by
  induction n with
  | zero => exact ⟨[], Sys.initial, .refl, filledTo_zero⟩
  | succ n ih =>
    obtain ⟨as, s, hs, hf⟩ := ih (by omega)
    obtain ⟨t, ht, hf'⟩ := filledTo_step (p := p) hf (by omega)
    exact ⟨_, t, hs.append (keepsGroups_run ht (by simp [Action.asks, Action.call, Action.daemon])),
      hf'⟩

/-- Every row of one group is full, and the first socket of a second group kills the daemon. -/
theorem second_group_kills_daemon : ∃ as s t,
    Transition.Run ((system .const).restrict keepsGroups) Sys.initial as s ∧
      s.ring = [.registerSocket (skeyFromBpfSock .loopback444) 100 8193 0 0] ∧
      execute .const s (.daemon 10) = some t ∧ t.exited = true ∧
      ¬ OnlyRejects ⟨.found 10, true, 0, 0⟩ s
        (.registerSocket (skeyFromBpfSock .loopback444) 100 8193 0 0) [] 8193 t := by
  obtain ⟨as, s, hs, hf⟩ := filledTo_run (p := .const) (n := 8192) (by decide)
  have hgroup : s.groupOf .loopback444 = freshGroup .roomy ⟨UNSET, UNSET, 0, 0, 5⟩ := by
    rw [Sys.groupOf, hf.other]
    rfl
  have hzero : (0 : UInt64) ∉ s.sockhash := by
    rw [hf.live]
    decide
  have hscan : SlotScan.scan (rowLive (s.groupOf .loopback444) (genRow (toWrkGen 0 0 0)) s.sockhash)
      MAX_SOCKETS_IN_GEN = (some 0, 1) := by
    refine SlotScan.scan_filled (by decide) (fun i hi => absurd hi (by omega)) fun i _ _ => ?_
    rw [hgroup]
    exact decide_eq_false hzero
  have hasks : Run .const s _ (s.asked 8193 .loopback444 0) :=
    asks_run (hf.unused _ (by decide)) (by decide) hf.idle.clock (by simp [hf.other])
  have hnew : (8193 : UInt64) ∉ s.sockhash := by
    rw [hf.live]
    decide
  have hcard : MAX_SOCKETS_IN_GEN * MAX_GENS ≤ s.sockhash.card := by
    rw [hf.card]
    decide
  obtain ⟨t, ht, hx⟩ : ∃ t, execute .const (s.asked 8193 .loopback444 0) (.daemon 10) = some t ∧
      t.exited = true :=
    asked_fatal hf.idle hnew hcard (by rw [hgroup]; exact toWrkGen?_empty 0) hscan
  refine ⟨_, _, t, hs.append (keepsGroups_run hasks (by simp [Action.asks, Action.call])), ?_, ht,
    hx, fun hrej => ?_⟩
  · rw [Sys.asked, hf.idle.ring]
    rfl
  · have hdrop := congrArg Sys.exited (hrej.dropped 10 rfl hnew hcard)
    exact absurd (hx.symm.trans (hdrop.trans hf.idle.exited)) (by decide)

end Udpgrm
