import Udpgrm.Activation

/-! The script beside the others keeps to the restart protocol, along every run. -/
namespace Udpgrm

variable {p : Programs} {s t : Sys} {a : Action} {k : Key} {ns c : UInt64} {x₀ x y : Rollout}
  {pc : DaemonPc}

section Preparing

variable {act : Activation} {gen : UInt32} {sockets left : List UInt64} {n : ℕ}
  {args : ActivateArgs}

/-! ### Steps of the others -/

theorem bystander_cases (h : bystander k ns x act a = true) :
    singleAppStep k ns x.sys a = true ∧ closesRetired x a = true ∧
      (∀ c g, groupCall k x.sys a ≠ some (c, .socketGen, g)) ∧
      (∀ c g, groupCall k x.sys a ≠ some (c, .workingGen, g)) ∧
      (∀ c ∈ act.own, a ≠ .close c) ∧ ∀ c ∈ act.own, ∀ ctx, a ≠ .bind c ctx := by
  simp only [bystander, Bool.and_eq_true] at h
  obtain ⟨⟨⟨hsingle, hclose⟩, hquiet⟩, howned⟩ := h
  refine ⟨hsingle, hclose, ?_, ?_, ?_, ?_⟩
  · intro c g hcall
    simp [hcall] at hquiet
  · intro c g hcall
    simp [hcall] at hquiet
  · rintro c hc rfl
    exact of_decide_eq_true howned hc
  · rintro c hc ctx rfl
    exact of_decide_eq_true howned hc

/-- A step that is no call of an instance is one of the protocol and leaves the instances. -/
theorem quiet_step (hsingle : singleAppStep k ns x.sys a = true) (hclose : closesRetired x a = true)
    (hask : ∀ c g, groupCall k x.sys a ≠ some (c, .socketGen, g))
    (hset : ∀ c g, groupCall k x.sys a ≠ some (c, .workingGen, g)) :
    followsProtocol k ns x a = true ∧ x.note p k a = x := by
  have hcalls : callsInOrder k x a = true := by
    unfold callsInOrder
    split
    · exact absurd ‹_› (hask _ _)
    · exact absurd ‹_› (hset _ _)
    · rfl
  refine ⟨by simp [followsProtocol, hsingle, hcalls, hclose], ?_⟩
  unfold Rollout.note
  split
  · exact absurd ‹_› (hask _ _)
  · exact absurd ‹_› (hset _ _)
  · rfl

theorem other_step (h : Preparing k x₀ x act ∨ TakenOver x₀ x act)
    (hb : bystander k ns x act a = true) (hstep : Rollout.step p k x a = some y) :
    followsProtocol k ns x a = true ∧ (Preparing k x₀ y act ∨ TakenOver x₀ y act) := by
  obtain ⟨hsingle, hclose, hask, hset, hopen, hbound⟩ := bystander_cases hb
  obtain ⟨hf, hnote⟩ := quiet_step (p := p) hsingle hclose hask hset
  obtain ⟨t, ht, rfl⟩ := Option.map_eq_some_iff.mp hstep
  rw [hnote]
  refine ⟨hf, h.imp ?_ ?_⟩
  · intro h
    exact h.step ht hopen hbound
  · intro h
    exact ⟨h.stage, h.gen, h.current⟩

theorem handling_step {v : MicroSys} {b : MicroAction}
    (h : Preparing k x₀ x act ∨ TakenOver x₀ x act) (hx : RolloutInv k ns x pc)
    (hv : microExecute p ⟨x.sys, pc⟩ b = some v) (hb : ∀ a, b ≠ .sys a) :
    Preparing k x₀ { x with sys := v.sys } act ∨ TakenOver x₀ { x with sys := v.sys } act :=
  h.imp (fun h => h.handling hx hv hb) fun h => ⟨h.stage, h.gen, h.current⟩

/-! ### Steps of the script -/

theorem socket_step {sk : BpfSock} (h : Preparing k x₀ x ⟨sockets, .opening⟩)
    (hx : RolloutInv k ns x pc)
    (hkey : skeyFromBpfSock sk = k) (hstep : Rollout.step p k x (.socket c sk ns) = some y) :
    followsProtocol k ns x (.socket c sk ns) = true ∧
      Preparing k x₀ y ⟨sockets, .binding c⟩ := by
  have hsingle : singleAppStep k ns x.sys (.socket c sk ns) = true := by simp [singleAppStep]
  obtain ⟨hf, hnote⟩ := quiet_step (p := p) hsingle rfl (by simp [groupCall]) (by simp [groupCall])
  obtain ⟨t, ht, rfl⟩ := Option.map_eq_some_iff.mp hstep
  rw [hnote]
  have hkept := h.step ht (by simp) (by simp)
  cases execute_effect ht with
  | socket hnone _ =>
    have hnew : ¬ x.Member c := by
      intro hm
      obtain ⟨sock, hs, _⟩ := hx.members c hm
      rw [hnone] at hs
      cases hs
    refine ⟨hf, hkept.gen, hkept.current, hkept.closed, ?_, hkept.starting, trivial⟩
    intro d hd
    rcases List.mem_cons.mp hd with rfl | hd
    · refine ⟨⟨by simp [Sys.isOpen], _, Function.update_self .., hkey⟩, ?_, ?_⟩
      · exact fun hc => hnew (.inl hc)
      · exact fun hc => hnew (.inr (.inr hc))
    · exact hkept.own d hd

theorem Preparing.append (h : Preparing k x₀ x act) (hown : act.own = c :: act.sockets) :
    Preparing k x₀ x (act.append c) := by
  refine h.goto _ (fun d hd => ?_) (fun d hd => List.mem_append_left _ hd) trivial
  have hd : d ∈ act.sockets ++ [c] := hd
  rw [hown]
  simpa [or_comm] using hd

theorem Preparing.configured (h : Preparing k x₀ x act) (hown : act.own = c :: act.sockets) :
    Preparing k x₀ x (act.configured args c) := by
  unfold Activation.configured
  split_ifs
  · exact h.goto _ (fun d hd => hown ▸ hd) (fun d hd => hd) trivial
  · exact h.append hown

theorem Preparing.bound (h : Preparing k x₀ x act) (hown : act.own = c :: act.sockets) :
    Preparing k x₀ x (act.bound args c) := by
  unfold Activation.bound
  split_ifs
  · split
    · exact h.goto _ (fun d hd => hown ▸ hd) (fun d hd => hd) trivial
    · exact h.exit
  · exact h.configured hown

theorem bind_step {ctx : BindCtx} (h : Preparing k x₀ x ⟨sockets, .binding c⟩)
    (hstep : Rollout.step p k x (.bind c ctx) = some y) :
    followsProtocol k ns x (.bind c ctx) = true ∧
      Preparing k x₀ y (Activation.bound args ⟨sockets, .binding c⟩ c) := by
  have hsingle : singleAppStep k ns x.sys (.bind c ctx) = true := rfl
  obtain ⟨hf, hnote⟩ := quiet_step (p := p) hsingle rfl (by simp [groupCall]) (by simp [groupCall])
  obtain ⟨t, ht, rfl⟩ := Option.map_eq_some_iff.mp hstep
  rw [hnote]
  have hkept : Preparing k x₀ { x with sys := t } ⟨sockets, .binding c⟩ :=
    ⟨h.gen, h.current, fun d hd => closed_kept ht (h.closed d hd),
      fun d hd => ⟨openIn_kept ht (by simp) (h.own d hd).1, (h.own d hd).2⟩, h.starting, trivial⟩
  exact ⟨hf, hkept.bound rfl⟩

theorem isCall_cases {o : SockOpt} {v : List UInt8} (h : isCall c o v a = true) :
    ∃ ctx env, a = .setsockopt c ctx env ∧ ctx.opt = some o ∧ ctx.optval = v := by
  cases a with
  | setsockopt c' ctx env =>
    obtain ⟨rfl, ho, hv⟩ := of_decide_eq_true h
    exact ⟨ctx, env, rfl, ho, hv⟩
  | _ => cases h

/-- The calls for the dissector and for the application. -/
theorem option_step (ns : UInt64) {o : SockOpt} {v : List UInt8} (h : Preparing k x₀ x act)
    (hcall : isCall c o v a = true) (ho : o = .dissector ∨ o = .socketApp)
    (hv : o = .dissector → ∀ data, copyIn v = some data →
      (Dissector.ofBytes data).labelled = false ∧ (Dissector.ofBytes data).maxApps.toNat ≤ 1)
    (hstep : Rollout.step p k x a = some y) :
    followsProtocol k ns x a = true ∧ Preparing k x₀ y act := by
  obtain ⟨ctx, env, rfl, hopt, rfl⟩ := isCall_cases hcall
  have hsingle : singleAppStep k ns x.sys (.setsockopt c ctx env) = true := by
    rcases ho with rfl | rfl
    · simp only [singleAppStep, hopt]
      cases hdata : copyIn ctx.optval with
      | none => rfl
      | some data =>
        obtain ⟨hl, hm⟩ := hv rfl data hdata
        simp [hl, hm]
    · simp only [singleAppStep, hopt]
  have hother : ∀ d o' g, o' ≠ o →
      groupCall k x.sys (.setsockopt c ctx env) ≠ some (d, o', g) := by
    intro d o' g hne hcall
    obtain ⟨ctx', env', sock, data, heq, -, -, hopt', -⟩ := groupCall_some hcall
    cases heq
    exact hne (Option.some.inj (hopt'.symm.trans hopt))
  obtain ⟨hf, hnote⟩ := quiet_step (p := p) hsingle rfl
    (fun d g => hother d .socketGen g (by rcases ho with rfl | rfl <;> decide))
    (fun d g => hother d .workingGen g (by rcases ho with rfl | rfl <;> decide))
  obtain ⟨t, ht, rfl⟩ := Option.map_eq_some_iff.mp hstep
  rw [hnote]
  exact ⟨hf, h.step ht (by simp) (by simp)⟩

/-- A call of an instance is allowed to a single application and closes nothing. -/
theorem call_allowed (ns : UInt64) {o : SockOpt} {g : UInt32}
    (hcall : groupCall k x.sys a = some (c, o, g)) (ho : o ≠ .dissector) :
    singleAppStep k ns x.sys a = true ∧ closesRetired x a = true ∧ (∀ d, a ≠ .close d) ∧
      ∀ d ctx, a ≠ .bind d ctx := by
  obtain ⟨ctx, env, sock, data, rfl, _, _, hopt, hdata, _⟩ := groupCall_some hcall
  refine ⟨?_, rfl, by simp, by simp⟩
  cases o <;> simp_all [singleAppStep]

theorem retryingSetsockopt_cases {P : Activation → Prop} {again next : Activation}
    (hagain : P again) (hnext : P next) (hexited : P again.exit) (ret : OptRet) :
    P (retryingSetsockopt n again next ret) := by
  unfold retryingSetsockopt
  split
  · exact hnext
  · split_ifs
    · exact hagain
    · exact hnext
  · exact hexited

theorem install_step {v : List UInt8} (h : Preparing k x₀ x ⟨sockets, .installing c n⟩)
    (hlabel : args.tubular = []) (happs : args.appsMax.toNat ≤ 1) (hv : args.value = some v)
    (hcall : isCall c .dissector v a = true) (hstep : Rollout.step p k x a = some y) :
    followsProtocol k ns x a = true ∧ Preparing k x₀ y
      (retryingSetsockopt n ⟨sockets, .installing c (n + 1)⟩
        (Activation.configured args ⟨sockets, .installing c n⟩ c) (answer p x.sys a)) := by
  obtain ⟨hf, hkept⟩ := option_step ns h hcall (.inl rfl)
    (fun _ data => value_single hlabel happs hv) hstep
  refine ⟨hf, retryingSetsockopt_cases (P := Preparing k x₀ y) ?_ (hkept.configured rfl) ?_ _⟩
  · exact hkept.goto _ (fun d hd => hd) (fun d hd => hd) trivial
  · exact hkept.exit

theorem label_step {v : List UInt8} (h : Preparing k x₀ x ⟨sockets, .labelling c n⟩)
    (hcall : isCall c .socketApp v a = true) (hstep : Rollout.step p k x a = some y) :
    followsProtocol k ns x a = true ∧ Preparing k x₀ y
      (retryingSetsockopt n ⟨sockets, .labelling c (n + 1)⟩
        (Activation.append ⟨sockets, .labelling c n⟩ c) (answer p x.sys a)) := by
  obtain ⟨hf, hkept⟩ := option_step ns h hcall (.inr rfl) (by simp) hstep
  refine ⟨hf, retryingSetsockopt_cases (P := Preparing k x₀ y) ?_ (hkept.append rfl) ?_ _⟩
  · exact hkept.goto _ (fun d hd => hd) (fun d hd => hd) trivial
  · exact hkept.exit

theorem ask_step (h : Preparing k x₀ x ⟨sockets, .registering gen (c :: left) n⟩)
    (hcall : groupCall k x.sys a = some (c, .socketGen, gen))
    (hstep : Rollout.step p k x a = some y) :
    followsProtocol k ns x a = true ∧ Preparing k x₀ y
      (retryingSetsockopt n ⟨sockets, .registering gen (c :: left) (n + 1)⟩
        ⟨sockets, .registering gen left 0⟩ (answer p x.sys a)) := by
  obtain ⟨hsingle, hcloses, hclose, hbind⟩ := call_allowed ns hcall (by simp)
  obtain ⟨hgen, hleft, hasked⟩ := h.stage
  have hc : c ∈ sockets := hleft c List.mem_cons_self
  obtain ⟨-, hcur, hret⟩ := h.own c hc
  have hcalls : callsInOrder k x a = true := by
    simp only [callsInOrder, hcall]
    refine decide_eq_true ⟨hgen, hcur, hret, fun d hd => ?_⟩
    obtain ⟨sock, hs, ho⟩ := h.closed d hd
    simp [Sys.isOpen, hs, ho]
  have hnote : x.note p k a = { x with starting := insert c x.starting } := by
    simp only [Rollout.note, hcall]
  obtain ⟨t, ht, rfl⟩ := Option.map_eq_some_iff.mp hstep
  have hkept := h.step ht (fun d _ => hclose d) fun d _ ctx => hbind d ctx
  -- the socket has joined, however the call was answered
  have hjoined : Preparing k x₀ { x with starting := insert c x.starting, sys := t }
      ⟨sockets, .registering gen (c :: left) (n + 1)⟩ := by
    refine ⟨hkept.gen, hkept.current, hkept.closed, hkept.own, ?_, hgen, hleft, ?_⟩
    · intro d hd
      rcases Finset.mem_insert.mp hd with rfl | hd
      · exact hc
      · exact h.starting d hd
    · exact fun d hd => (hasked d hd).imp_right Finset.mem_insert_of_mem
  rw [hnote]
  refine ⟨by simp [followsProtocol, hsingle, hcalls, hcloses],
    retryingSetsockopt_cases (P := Preparing k x₀ _) hjoined ?_ hjoined.exit _⟩
  refine hjoined.goto _ (fun d hd => hd) (fun d hd => hd) ⟨hgen, ?_, ?_⟩
  · exact fun d hd => hleft d (List.mem_cons_of_mem c hd)
  · intro d hd
    rcases hasked d hd with hd | hd
    · rcases List.mem_cons.mp hd with rfl | hd
      · exact .inr (Finset.mem_insert_self ..)
      · exact .inl hd
    · exact .inr (Finset.mem_insert_of_mem hd)

/-- The last call of the script: either the instance of the script takes over or nothing changes. -/
theorem advance_step (h : Preparing k x₀ x ⟨sockets, .advancing gen n⟩)
    (hc : c ∈ sockets) (hcall : groupCall k x.sys a = some (c, .workingGen, gen))
    (hstep : Rollout.step p k x a = some y) :
    let next := retryingSetsockopt n ⟨sockets, .advancing gen (n + 1)⟩
      ⟨sockets, .finished⟩ (answer p x.sys a)
    followsProtocol k ns x a = true ∧ (Preparing k x₀ y next ∨ TakenOver x₀ y next) := by
  obtain ⟨hsingle, hcloses, hclose, hbind⟩ := call_allowed ns hcall (by simp)
  obtain ⟨hgen, hready⟩ := h.stage
  have hcalls : callsInOrder k x a = true := by
    simp only [callsInOrder, hcall]
    exact decide_eq_true ⟨hgen, (hready c hc).1, fun d hd => (hready d (h.starting d hd)).2⟩
  obtain ⟨t, ht, rfl⟩ := Option.map_eq_some_iff.mp hstep
  refine ⟨by simp [followsProtocol, hsingle, hcalls, hcloses], ?_⟩
  by_cases hans : answer p x.sys a = .ok
  · have hsame : x.starting = sockets.toFinset := by
      ext d
      rw [List.mem_toFinset]
      exact ⟨h.starting d, fun hd => (hready d hd).1⟩
    refine .inr ⟨by rw [hans]; rfl, ?_, ?_⟩
    · show (x.note p k a).gen = _
      rw [Rollout.note_over hcall hans, h.gen]
    · simp only [Rollout.note, hcall, if_pos hans, hsame]
      rw [hans]
      rfl
  · have hnote : x.note p k a = x := by simp only [Rollout.note, hcall, if_neg hans]
    have hkept := h.step ht (fun d _ => hclose d) fun d _ ctx => hbind d ctx
    rw [hnote]
    refine .inl (retryingSetsockopt_cases (P := Preparing k x₀ _) ?_ ?_ ?_ _)
    · exact hkept.goto _ (fun d hd => hd) (fun d hd => hd) hkept.stage
    · exact hkept.goto _ (fun d hd => hd) (fun d hd => hd) trivial
    · exact hkept.exit

theorem call_step {act' : Activation} (hlabel : args.tubular = [])
    (happs : args.appsMax.toNat ≤ 1) (h : Preparing k x₀ x act) (hx : RolloutInv k ns x pc)
    (hcall : act.call p k ns args x a = some act') (hstep : Rollout.step p k x a = some y) :
    followsProtocol k ns x a = true ∧ (Preparing k x₀ y act' ∨ TakenOver x₀ y act') := by
  obtain ⟨sockets, stage⟩ := act
  cases stage with
  | opening =>
    simp only [Activation.call] at hcall
    split at hcall
    · split_ifs at hcall with hargs
      obtain ⟨_, hkey, rfl⟩ := hargs
      cases hcall
      exact (socket_step h hx hkey hstep).imp_right .inl
    · cases hcall
  | binding c =>
    simp only [Activation.call] at hcall
    split at hcall
    · split_ifs at hcall with he
      cases hcall
      subst he
      exact (bind_step h hstep).imp_right .inl
    · cases hcall
  | installing c n =>
    obtain ⟨v, hv, hcall⟩ := Option.bind_eq_some_iff.mp hcall
    split_ifs at hcall with hask
    cases hcall
    exact (install_step h hlabel happs hv hask hstep).imp_right .inl
  | labelling c n =>
    simp only [Activation.call] at hcall
    split_ifs at hcall with hask
    cases hcall
    exact (label_step h hask hstep).imp_right .inl
  | registering gen left n =>
    cases left with
    | nil => cases hcall
    | cons c left =>
      simp only [Activation.call] at hcall
      split_ifs at hcall with hask
      cases hcall
      exact (ask_step h hask hstep).imp_right .inl
  | advancing gen n =>
    simp only [Activation.call] at hcall
    split at hcall
    · rename_i hlast
      split_ifs at hcall with hset
      cases hcall
      exact advance_step h (List.mem_of_getLast? hlast) hset hstep
    · cases hcall
  | waiting gen left n => cases hcall
  | finished => cases hcall
  | exited => cases hcall

theorem look_step {act' : Activation} (h : Preparing k x₀ x act) (hx : RolloutInv k ns x pc)
    (hw : WorkingGen k x) (hne : x₀.current.Nonempty)
    (hlook : act.look k args x.sys = some act') : Preparing k x₀ x act' := by
  obtain ⟨sockets, stage⟩ := act
  -- the loops leave the sockets as they are
  have hgoto : ∀ stage', (∀ c ∈ (⟨sockets, stage'⟩ : Activation).own,
      c ∈ (⟨sockets, stage⟩ : Activation).own) → StageOk x sockets stage' →
      Preparing k x₀ x ⟨sockets, stage'⟩ :=
    fun stage' hown hstage => h.goto ⟨sockets, stage'⟩ hown (fun _ hc => hc) hstage
  cases stage with
  | opening =>
    simp only [Activation.look] at hlook
    split_ifs at hlook with hcount hreg
    · cases hlook
      exact hgoto _ (fun d hd => hd) trivial
    · split at hlook
      · rename_i c hc
        cases hlook
        have hread := h.workingGen hx hw hne (List.mem_of_mem_head? hc)
        unfold firstAsk
        split_ifs
        · exact h.exit
        · exact hgoto _ (fun d hd => hd)
            ⟨by rw [hread], fun d hd => hd, fun d hd => .inl hd⟩
      · cases hlook
        exact h.exit
  | registering gen left n =>
    cases left with
    | nil =>
      cases hlook
      refine hgoto _ (fun d hd => hd) ⟨h.stage.1, fun d hd => ?_⟩
      rcases h.stage.2.2 d hd with hd' | hd'
      · cases hd'
      · exact ⟨hd', .inl hd⟩
    | cons c left => cases hlook
  | waiting gen left n =>
    cases left with
    | nil =>
      cases hlook
      split_ifs
      · refine hgoto _ (fun d hd => hd) ⟨h.stage.1, fun d hd => ?_⟩
        obtain ⟨hs, hd' | hr⟩ := h.stage.2 d hd
        · cases hd'
        · exact ⟨hs, hr⟩
      · exact hgoto _ (fun d hd => hd) trivial
    | cons c left =>
      cases hlook
      unfold polled
      split_ifs with hindex
      · refine hgoto _ (fun d hd => hd) ⟨h.stage.1, fun d hd => ?_⟩
        obtain ⟨hs, hd' | hr⟩ := h.stage.2 d hd
        · rcases List.mem_cons.mp hd' with rfl | hd'
          · exact ⟨hs, .inr hindex⟩
          · exact ⟨hs, .inl hd'⟩
        · exact ⟨hs, .inr hr⟩
      · exact h.exit
      · exact hgoto _ (fun d hd => hd) h.stage
  | binding => cases hlook
  | installing => cases hlook
  | labelling => cases hlook
  | advancing => cases hlook
  | finished => cases hlook
  | exited => cases hlook

theorem stop_step {act' : Activation} (h : Preparing k x₀ x act) (hstop : act.stop = some act') :
    Preparing k x₀ x act' := by
  unfold Activation.stop at hstop
  split at hstop
  · cases hstop
  · cases hstop
  · cases hstop
    exact h.exit

end Preparing

/-! ### Runs -/

def ScriptMove.action : ScriptMove → Option MicroAction
  | .other b => some b
  | .call a => some (.sys a)
  | .look | .stop => none

/-- What holds all the time while the script runs. -/
structure ActivationInv (k : Key) (ns : UInt64) (x₀ : Rollout) (z : SteppedRollout × Activation) :
    Prop where
  rollout : RolloutInv k ns z.1.rollout z.1.daemon ∧ WorkingGen k z.1.rollout
  nonempty : z.1.rollout.current.Nonempty
  script : Preparing k x₀ z.1.rollout z.2 ∨ TakenOver x₀ z.1.rollout z.2

section Runs

variable {args : ActivateArgs} {z z' : SteppedRollout × Activation} {m : ScriptMove}
  {y₀ y₁ : SteppedRollout} {act : Activation} {b : MicroAction}

/-- A step of the protocol keeps an instance in place. -/
theorem ActivationInv.protocol (h : ActivationInv k ns x₀ z)
    (hf : z.1.followsProtocol k ns b = true) (hstep : z.1.step p k b = some y₁)
    (hscript : Preparing k x₀ y₁.rollout act ∨ TakenOver x₀ y₁.rollout act) :
    ActivationInv k ns x₀ (y₁, act) :=
  ⟨stepped_step h.rollout hf hstep, stepped_nonempty h.nonempty hf hstep, hscript⟩

theorem TakenOver.no_call (h : TakenOver x₀ z.1.rollout z.2) :
    z.2.call p k ns args z.1.rollout a = none := by
  simp only [Activation.call, h.stage]

theorem TakenOver.no_look (h : TakenOver x₀ z.1.rollout z.2) : z.2.look k args s = none := by
  simp only [Activation.look, h.stage]

theorem TakenOver.no_stop (h : TakenOver x₀ z.1.rollout z.2) : z.2.stop = none := by
  simp only [Activation.stop, h.stage]

/-- Others may move as the protocol allows, and leave the script where it is. -/
theorem mayMove_step (h : ActivationInv k ns x₀ z)
    (hb : mayMove k ns z.1.rollout z.2 b = true) (hstep : z.1.step p k b = some y₁) :
    z.1.followsProtocol k ns b = true ∧
      (Preparing k x₀ y₁.rollout z.2 ∨ TakenOver x₀ y₁.rollout z.2) := by
  cases b with
  | sys a => exact other_step h.script hb (SteppedRollout.step_sys hstep)
  | fish | daemon =>
    obtain ⟨v, hv, rfl⟩ := Option.map_eq_some_iff.mp hstep
    exact ⟨rfl, handling_step h.script h.rollout.1 hv (by simp)⟩

/-- Whoever moves, the system makes a step of the restart protocol or none. -/
theorem activate_step (hlabel : args.tubular = []) (happs : args.appsMax.toNat ≤ 1)
    (hne : x₀.current.Nonempty) (h : ActivationInv k ns x₀ z)
    (hstep : activateStep p k ns args z m = some z') :
    ActivationInv k ns x₀ z' ∧
      Transition.Run (steppedProtocol p k ns) z.1 m.action.toList z'.1 := by
  cases m with
  | other b =>
    simp only [activateStep] at hstep
    split_ifs at hstep with hb
    obtain ⟨y, hy, rfl⟩ := Option.map_eq_some_iff.mp hstep
    obtain ⟨hf, hscript⟩ := mayMove_step h hb hy
    exact ⟨h.protocol hf hy hscript, .single ⟨hf, hy⟩⟩
  | call a =>
    obtain ⟨act, hact, hstep⟩ := Option.bind_eq_some_iff.mp hstep
    obtain ⟨y, hy, rfl⟩ := Option.map_eq_some_iff.mp hstep
    rcases h.script with hprep | hover
    · obtain ⟨hf, hscript⟩ := call_step hlabel happs hprep h.rollout.1 hact
        (SteppedRollout.step_sys hy)
      exact ⟨h.protocol (b := .sys a) hf hy hscript, .single ⟨hf, hy⟩⟩
    · rw [hover.no_call] at hact
      cases hact
  | look =>
    obtain ⟨act, hact, rfl⟩ := Option.map_eq_some_iff.mp hstep
    rcases h.script with hprep | hover
    · have hscript := look_step hprep h.rollout.1 h.rollout.2 hne hact
      exact ⟨⟨h.rollout, h.nonempty, .inl hscript⟩, .refl⟩
    · rw [hover.no_look] at hact
      cases hact
  | stop =>
    obtain ⟨act, hact, rfl⟩ := Option.map_eq_some_iff.mp hstep
    rcases h.script with hprep | hover
    · exact ⟨⟨h.rollout, h.nonempty, .inl (stop_step hprep hact)⟩, .refl⟩
    · rw [hover.no_stop] at hact
      cases hact

theorem activate_run {ms : List ScriptMove} (hlabel : args.tubular = [])
    (happs : args.appsMax.toNat ≤ 1) (hne : x₀.current.Nonempty)
    (hrun : Transition.Run (.ofFn (activateStep p k ns args)) z ms z')
    (h : ActivationInv k ns x₀ z) : ActivationInv k ns x₀ z' ∧
      Transition.Run (steppedProtocol p k ns) z.1 (ms.filterMap ScriptMove.action) z'.1 := by
  obtain ⟨_, hproto, rfl, hinv⟩ := hrun.simulate (f := ScriptMove.action)
    (R := fun z x => x = z.1 ∧ ActivationInv k ns x₀ z)
    (by
      rintro z m z' _ hstep ⟨rfl, hz⟩
      obtain ⟨hz', hfirst⟩ := activate_step hlabel happs hne hz hstep
      exact ⟨z'.1, hfirst, rfl, hz'⟩)
    ⟨rfl, h⟩
  exact ⟨hinv, hproto⟩

theorem ActivationInv.start
    (h : RolloutInv k ns y₀.rollout y₀.daemon ∧ WorkingGen k y₀.rollout)
    (hne : y₀.rollout.current.Nonempty) (hstart : y₀.rollout.starting = ∅)
    (hgone : ∀ d ∈ y₀.rollout.retired, y₀.rollout.sys.closed d) :
    ActivationInv k ns y₀.rollout (y₀, .start args) := by
  have hfresh : Preparing k y₀.rollout y₀.rollout ⟨[], .opening⟩ := by
    refine ⟨rfl, rfl, hgone, fun c hc => absurd hc List.not_mem_nil, ?_, trivial⟩
    intro c hc
    rw [hstart] at hc
    exact absurd hc (Finset.notMem_empty c)
  refine ⟨h, hne, .inl ?_⟩
  unfold Activation.start
  split_ifs
  · exact hfresh.exit
  · exact hfresh

/-- Started beside a running instance, for one unlabelled application, the script keeps to the
restart protocol whatever else goes on, wherever the daemon stands in its registrations and
wherever the script ends. The running instance serves new flows until the script's last call
succeeds, and from then on the sockets of the script do. -/
theorem activation_restarts {g : UInt32} {bs : List MicroAction} {ms : List ScriptMove}
    (hlabel : args.tubular = []) (happs : args.appsMax.toNat ≤ 1)
    (h₀ : Transition.Run (steppedProtocol p k ns) (.initial g) bs y₀)
    (hne : y₀.rollout.current.Nonempty) (hstart : y₀.rollout.starting = ∅)
    (hgone : ∀ d ∈ y₀.rollout.retired, y₀.rollout.sys.closed d)
    (h : Transition.Run (.ofFn (activateStep p k ns args)) (y₀, .start args) ms (y₁, act)) :
    Transition.Run (steppedProtocol p k ns) y₀ (ms.filterMap ScriptMove.action) y₁ ∧
      (y₁.rollout.gen = y₀.rollout.gen ∧ y₁.rollout.current = y₀.rollout.current ∨
        act.stage = .finished ∧ y₁.rollout.gen = y₀.rollout.gen + 1 ∧
          y₁.rollout.current = act.sockets.toFinset) ∧
      ∀ r kr md now v, y₁.rollout.sys.socks r = some kr → kr.key = k →
        (receive p (y₁.rollout.sys.tick now) r md now).1 = .newFlow v →
        ∃ c ∈ y₁.rollout.current, v = some c ∧ y₁.rollout.sys.isOpen c = true := by
  obtain ⟨⟨⟨hx, hw⟩, hcur, hscript⟩, hrun⟩ :=
    activate_run hlabel happs hne h (.start (stepped_reachable h₀) hne hstart hgone)
  refine ⟨hrun, ?_, ?_⟩
  · rcases hscript with hprep | hover
    · exact .inl ⟨hprep.gen, hprep.current⟩
    · exact .inr ⟨hover.stage, hover.gen, hover.current⟩
  · intro r kr md now v hr hkey hv
    obtain ⟨st, _, hk, _, _⟩ := hx.serving hcur
    exact hx.flows hw hcur hk hr hkey hv

/-- The daemon takes a registration and carries it through. -/
def registerSteps (f : ℕ) : List MicroAction :=
  .fish ⟨.found f, true, 0, 0⟩ :: List.replicate (MAX_SOCKETS_IN_GEN + 5) .daemon

/-- The first instance has one socket and generation 1. -/
def firstInstance : List MicroAction :=
  (Action.openBound 1 ++ [Action.call 1 201 [1, 0, 0, 0]]).map .sys ++ registerSteps 10 ++
    [.sys (.call 1 200 [1, 0, 0, 0]), .sys (.daemon 0)]

/-- `udpgrm_activate.py --apps-max 1 --advance-working-gen`. -/
def secondArgs : ActivateArgs :=
  { ActivateArgs.default with appsMax := 1, advanceWorkingGen := true }

/-- The script prepares one socket for generation 2. It looks for the index of the socket before
the daemon has found one, and again when the daemon is through. -/
def activateRun : List ScriptMove :=
  (Action.openBound 2).map .call ++
    [.call (.call 2 204 [0, 0, 0, 0]), .look, .call (.call 2 201 [2, 0, 0, 0]), .look, .look] ++
    (registerSteps 11).map .other ++ [.look, .look, .call (.call 2 200 [2, 0, 0, 0])]

/-- The first instance runs alone, and then the script takes over. -/
def takesOver (x : SteppedRollout) : Bool :=
  decide (x.rollout.current = {1}) && decide (x.rollout.starting = ∅) &&
    decide (x.rollout.retired = ∅) &&
    (Transition.exec (activateStep .const (skeyFromBpfSock .loopback) 5 secondArgs)
      (x, .start secondArgs) activateRun).any fun z : SteppedRollout × Activation =>
        decide (z.1.rollout.gen = x.rollout.gen + 1) && decide (z.2.sockets = [2])

theorem activation_restarts_second : ∃ x z,
    Transition.Run (.ofFn (activateStep .const (skeyFromBpfSock .loopback) 5 secondArgs))
      (x, .start secondArgs) activateRun z ∧ x.rollout.current = {1} ∧
    z.1.rollout.current = {2} ∧
    ∃ bs, Transition.Run (steppedProtocol .const (skeyFromBpfSock .loopback) 5) x bs z.1 := by
  obtain ⟨x, hx, hP⟩ := Transition.run_restrict_of_any
    (SteppedRollout.step .const (skeyFromBpfSock .loopback))
    (SteppedRollout.followsProtocol (skeyFromBpfSock .loopback) 5) (.initial 0) firstInstance
    takesOver (by decide +kernel)
  simp only [takesOver, Bool.and_eq_true, decide_eq_true_eq] at hP
  obtain ⟨⟨⟨hcur, hstart⟩, hret⟩, hscript⟩ := hP
  obtain ⟨z, hz, hend⟩ := Transition.run_of_any _ _ _ _ hscript
  simp only [Bool.and_eq_true, decide_eq_true_eq] at hend
  obtain ⟨hrun, hcases, -⟩ :=
    activation_restarts rfl (by decide) hx (by simp [hcur]) hstart (by simp [hret]) hz
  refine ⟨x, z, hz, hcur, ?_, _, hrun⟩
  rcases hcases with ⟨hgen, -⟩ | ⟨-, -, hnew⟩
  · have hne : x.rollout.gen + 1 ≠ x.rollout.gen := by simp
    exact absurd (hend.1.symm.trans hgen) hne
  · rw [hnew, hend.2]
    rfl

end Runs

end Udpgrm
