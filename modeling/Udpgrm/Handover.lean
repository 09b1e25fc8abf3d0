import Mathlib.Tactic.IntervalCases
import Udpgrm.Step

/-! Descriptors on their way to Tubular: which rows they wait in and who is given them. -/
namespace Udpgrm

variable {p : Programs} {s t : Sys} {a : Action} {k : Key} {st : ReuseportStorage}

/-! ### How a step changes the store -/

theorem setsockopt_store {env : OptEnv} {c : UInt64} {ctx : SockoptCtx} {r : OptRet}
    (h : SetsockoptEffect p env s c ctx r t) : t.tubular = s.tubular ∧ t.fds = s.fds := by
  cases h with
  | untouched => exact ⟨rfl, rfl⟩
  | body _ _ hb _ _ _ he => cases hb <;> cases he <;> exact ⟨rfl, rfl⟩

theorem bpfBind_store (s : Sys) (c : UInt64) (ctx : BindCtx) :
    (bpfBind s c ctx).tubular = s.tubular ∧ (bpfBind s c ctx).fds = s.fds := by
  rcases bpfBind_cases s c ctx with h | ⟨_, _, h⟩ <;> rw [h] <;> exact ⟨rfl, rfl⟩

theorem udpSendmsg_store (p : Programs) (env : FlowEnv) (s : Sys) (c : UInt64) (dst : SockAddr) :
    (udpSendmsg p env s c dst).tubular = s.tubular ∧ (udpSendmsg p env s c dst).fds = s.fds := by
  rcases udpSendmsg_cases p env s c dst with h | ⟨_, _, _, _, _, _, _, h⟩ <;> rw [h] <;>
    exact ⟨rfl, rfl⟩

theorem receive_store (p : Programs) (s : Sys) (r : UInt64) (md : Md) (now : UInt64) :
    (receive p s r md now).2.tubular = s.tubular ∧ (receive p s r md now).2.fds = s.fds := by
  rcases receive_cases p s r md now with h | ⟨_, _, _, _, h⟩ <;> rw [h] <;> exact ⟨rfl, rfl⟩

/-- The daemon's descriptors after some were closed. -/
def fdsWithout (fds : List (ℕ × UInt64)) (closed : List ℕ) : List (ℕ × UInt64) :=
  fds.filter fun p => decide (p.1 ∉ closed)

/-- The store and the open descriptors change together: not at all, with the end of the
daemon, by closing, or by preserving the socket of an accepted registration. -/
inductive StoreChange (s : Sys) (a : Action) (t : Sys) : Prop
  | same (ht : t.tubular = s.tubular) (hf : t.fds = s.fds)
  | reset (ht : t.tubular = []) (hf : t.fds = [])
  | shrunk (closed : List ℕ) (ht : Shrinks s.tubular t.tubular closed)
      (hf : t.fds = fdsWithout s.fds closed)
  | preserved (env : DaemonEnv) (ha : a = .handle env) (hacc : Accepted s env t)
      (hl : hacc.st.dis.labelled = true) (closed : List ℕ)
      (ht : Preserves s.tubular t.tubular closed hacc.st.randomId (genRow hacc.wg)
        (Fin.ofNat MAX_SOCKETS_IN_GEN hacc.pos) hacc.len hacc.f)
      (hf : t.fds = fdsWithout ((hacc.f, hacc.cookie) :: s.fds) closed)

theorem acceptSocket_store_unlabelled (env : DaemonEnv) (s : Sys) (k : Key)
    (ss : SocketStorage) (cookie : UInt64) (gen : UInt32) (pos len f : ℕ)
    (hl : st.dis.labelled = false) :
    (acceptSocket env s k st ss cookie gen pos len f).tubular = s.tubular ∧
      (acceptSocket env s k st ss cookie gen pos len f).fds = s.fds := by
  simp [acceptSocket, tubularMaybePreserveFd, hl, Sys.setStorage, Sys.setGroup]

theorem acceptSocket_store_labelled (env : DaemonEnv) (s : Sys) (k : Key)
    (ss : SocketStorage) (cookie : UInt64) (gen : UInt32) (pos len f : ℕ)
    (hu : UniqueIds s.tubular) (hl : st.dis.labelled = true) :
    ∃ closed,
      Preserves s.tubular (acceptSocket env s k st ss cookie gen pos len f).tubular closed
        st.randomId (genRow gen) (Fin.ofNat MAX_SOCKETS_IN_GEN pos) len f ∧
      (acceptSocket env s k st ss cookie gen pos len f).fds =
        fdsWithout ((f, cookie) :: s.fds) closed := by
  obtain ⟨l', closed, he, hp⟩ := tubularMaybePreserveFd_preserves hu hl gen len
    (Fin.ofNat MAX_SOCKETS_IN_GEN pos) f env.now
  refine ⟨closed, ?_, ?_⟩
  · simp only [acceptSocket, he]
    exact hp
  · simp only [acceptSocket, he]
    rfl

theorem store_change (h : execute p s a = some t) (hu : UniqueIds s.tubular) :
    StoreChange s a t := by
  cases execute_effect h with
  | socket _ _ => exact .same rfl rfl
  | bind _ => exact .same (bpfBind_store ..).1 (bpfBind_store ..).2
  | setsockopt _ _ _ =>
    obtain ⟨ht, hf⟩ := setsockopt_store (udpgrmSetsockopt_effect p _ (s.tick _) _ _)
    exact .same ht hf
  | sendmsg _ _ _ => exact .same (udpSendmsg_store ..).1 (udpSendmsg_store ..).2
  | packet _ _ => exact .same (receive_store ..).1 (receive_store ..).2
  | crashed _ _ _ _ _ => exact .reset rfl rfl
  | close _ => exact .same rfl rfl
  | cleanup _ _ => exact .shrunk _ (cleanup_shrinks hu _) rfl
  | delete => exact .same rfl rfl
  | ignored _ _ _ _ => exact .same rfl rfl
  | notFound _ _ _ _ _ _ => exact .same rfl rfl
  | announced _ _ _ _ _ => exact .shrunk _ (tubularMaybeRegister_shrinks hu _ _ _ _) rfl
  | @accepted env _ hacc =>
    cases hl : hacc.st.dis.labelled with
    | false =>
      obtain ⟨ht, hf⟩ := acceptSocket_store_unlabelled env
        { s.tick env.now with ring := hacc.rest, sockhash := hacc.sockhash } hacc.k hacc.ss
        hacc.cookie hacc.wg hacc.pos hacc.len hacc.f hl
      rw [← hacc.after_eq] at ht hf
      exact .same ht hf
    | true =>
      obtain ⟨closed, ht, hf⟩ := acceptSocket_store_labelled env
        { s.tick env.now with ring := hacc.rest, sockhash := hacc.sockhash } hacc.k hacc.ss
        hacc.cookie hacc.wg hacc.pos hacc.len hacc.f hu hl
      rw [← hacc.after_eq] at ht hf
      exact .preserved env rfl hacc hl closed ht hf

/-! ### Descriptors and live sockets -/

theorem Sys.alive_iff : s.alive c = true ↔ s.isOpen c = true ∨ ∃ q ∈ s.fds, q.2 = c := by
  simp [Sys.alive]

theorem fds_hook (h : execute p s a = some t) (hh : ∀ env, a ≠ .handle env)
    (hc : ∀ now, a ≠ .cleanup now) : t.fds = s.fds := by
  cases execute_effect h with
  | socket | delete | close => rfl
  | bind => exact (bpfBind_store ..).2
  | @setsockopt c ctx env =>
    exact (setsockopt_store (udpgrmSetsockopt_effect p env (s.tick env.flow.later) c ctx)).2
  | sendmsg => exact (udpSendmsg_store ..).2
  | packet => exact (receive_store ..).2
  | ignored | notFound | announced | crashed | accepted => exact absurd rfl (hh _)
  | cleanup => exact absurd rfl (hc _)

theorem fds_sub (h : execute p s a = some t)
    (hna : ∀ env, a = .handle env → IsEmpty (Accepted s env t)) : ∀ q ∈ t.fds, q ∈ s.fds := by
  by_cases hhook : (∀ env, a ≠ .handle env) ∧ ∀ now, a ≠ .cleanup now
  · intro q hq
    rwa [fds_hook h hhook.1 hhook.2] at hq
  · intro q hq
    cases execute_effect h with
    | ignored | notFound => exact hq
    | announced | cleanup => exact List.mem_of_mem_filter hq
    | crashed => cases hq
    | accepted hacc => exact ((hna _ rfl).false hacc).elim
    | _ => simp at hhook

/-- A new descriptor is that of an accepted registration in a labelled group. -/
theorem Accepted.fds_sub {env : DaemonEnv} (h : Accepted s env t) {q : ℕ × UInt64}
    (hq : q ∈ t.fds) : q ∈ s.fds ∨ q.2 = h.cookie ∧ h.st.dis.labelled = true := by
  rw [h.after_eq] at hq
  unfold acceptSocket at hq
  simp only [Sys.setStorage, Sys.setGroup] at hq
  split at hq
  · exact .inl hq
  · rename_i closed hpreserve
    have hq' : q ∈ fdsWithout ((h.f, h.cookie) :: s.fds) closed := hq
    rcases List.mem_cons.mp (List.mem_of_mem_filter hq') with rfl | hq
    · refine .inr ⟨rfl, ?_⟩
      by_contra hl
      simp [tubularMaybePreserveFd, hl] at hpreserve
    · exact .inl hq

/-! ### Descriptors in the store are open and stored once -/

structure StoreWf (s : Sys) : Prop where
  unique : UniqueIds s.tubular
  isOpen : ∀ id r j f, Holds s.tubular id r j f → ∃ c, (f, c) ∈ s.fds
  once : ∀ id r j id' r' j' f, Holds s.tubular id r j f → Holds s.tubular id' r' j' f →
    id = id' ∧ r = r' ∧ j = j'

theorem holds_nil (id : UInt32) (r : Row) (j : Slot) (f : ℕ) : ¬ Holds [] id r j f := by
  rintro ⟨g, hg, _⟩
  cases hg

theorem storeWf_initial : StoreWf Sys.initial :=
  ⟨List.nodup_nil, fun id r j f h => absurd h (holds_nil id r j f),
    fun id r j _ _ _ f h => absurd h (holds_nil id r j f)⟩

theorem mem_fdsWithout {fds : List (ℕ × UInt64)} {closed : List ℕ} {q : ℕ × UInt64} :
    q ∈ fdsWithout fds closed ↔ q ∈ fds ∧ q.1 ∉ closed := by
  simp [fdsWithout]

theorem storeWf_shrunk {closed : List ℕ} (hw : StoreWf s)
    (ht : Shrinks s.tubular t.tubular closed) (hf : t.fds = fdsWithout s.fds closed) :
    StoreWf t := by
  refine ⟨ht.unique, fun id r j f hh => ?_, fun id r j id' r' j' f h h' => ?_⟩
  · obtain ⟨c, hc⟩ := hw.isOpen id r j f (ht.kept id r j f hh)
    refine ⟨c, hf ▸ mem_fdsWithout.mpr ⟨hc, fun hclosed => ?_⟩⟩
    obtain ⟨id', r', j', hbefore, hafter⟩ := ht.closed f hclosed
    obtain ⟨rfl, rfl, rfl⟩ := hw.once _ _ _ _ _ _ f (ht.kept id r j f hh) hbefore
    exact hafter hh
  · exact hw.once _ _ _ _ _ _ f (ht.kept _ _ _ _ h) (ht.kept _ _ _ _ h')

theorem storeWf_preserved {closed : List ℕ} {id : UInt32} {row : Row} {pos : Slot} {len f : ℕ}
    {cookie : UInt64} (hw : StoreWf s) (hnew : ∀ q ∈ s.fds, q.1 ≠ f)
    (ht : Preserves s.tubular t.tubular closed id row pos len f)
    (hf : t.fds = fdsWithout ((f, cookie) :: s.fds) closed) : StoreWf t := by
  have hfresh : ∀ id r j, ¬ Holds s.tubular id r j f := by
    intro id r j hh
    obtain ⟨c, hc⟩ := hw.isOpen id r j f hh
    exact hnew _ hc rfl
  refine ⟨ht.unique, fun id₁ r₁ j₁ f₁ hh => ?_, fun id₁ r₁ j₁ id₂ r₂ j₂ f₁ h₁ h₂ => ?_⟩
  · rcases ht.held id₁ r₁ j₁ f₁ hh with ⟨_, _, _, rfl⟩ | ⟨hold, hne⟩
    · refine ⟨cookie, hf ▸ mem_fdsWithout.mpr ⟨List.mem_cons_self, fun hclosed => ?_⟩⟩
      exact hfresh _ _ _ (ht.closed _ hclosed)
    · obtain ⟨c, hc⟩ := hw.isOpen id₁ r₁ j₁ f₁ hold
      refine ⟨c, hf ▸ mem_fdsWithout.mpr ⟨List.mem_cons_of_mem _ hc, fun hclosed => ?_⟩⟩
      exact hne (hw.once _ _ _ _ _ _ f₁ hold (ht.closed _ hclosed))
  · rcases ht.held id₁ r₁ j₁ f₁ h₁ with ⟨hi, hr, hj, hf₁⟩ | ⟨hold₁, _⟩
    · rcases ht.held id₂ r₂ j₂ f₁ h₂ with ⟨hi', hr', hj', _⟩ | ⟨hold₂, _⟩
      · exact ⟨hi.trans hi'.symm, hr.trans hr'.symm, hj.trans hj'.symm⟩
      · exact absurd (hf₁ ▸ hold₂) (hfresh _ _ _)
    · rcases ht.held id₂ r₂ j₂ f₁ h₂ with ⟨_, _, _, hf₂⟩ | ⟨hold₂, _⟩
      · exact absurd (hf₂ ▸ hold₁) (hfresh _ _ _)
      · exact hw.once _ _ _ _ _ _ f₁ hold₁ hold₂

theorem storeWf_step (h : execute p s a = some t) (hw : StoreWf s) : StoreWf t := by
  cases store_change h hw.unique with
  | same ht hf => exact ⟨ht ▸ hw.unique, ht ▸ hf ▸ hw.isOpen, ht ▸ hw.once⟩
  | reset ht hf =>
    refine ⟨ht ▸ List.nodup_nil, fun id r j f h => ?_, fun id r j _ _ _ f h => ?_⟩
    · exact absurd (ht ▸ h) (holds_nil id r j f)
    · exact absurd (ht ▸ h) (holds_nil id r j f)
  | shrunk closed ht hf => exact storeWf_shrunk hw ht hf
  | preserved _ _ hacc _ _ ht hf => exact storeWf_preserved hw hacc.fd_new.2 ht hf

/-! ### What is handed over -/

/-- The descriptor in a slot of the store, zero where there is no group. -/
def storedFd (l : TubularStore) (id : UInt32) (r : Row) (j : Slot) : Int :=
  match reuseportGroupLookup l id with
  | none => 0
  | some g => g.sockets r j

theorem storedFd_pos {l : TubularStore} {id : UInt32} {r : Row} {j : Slot}
    (h : 0 < storedFd l id r j) : ∃ f, Holds l id r j f := by
  unfold storedFd at h
  split at h
  · omega
  · rename_i g hg
    exact ⟨(g.sockets r j).toNat, g, hg, by omega, by omega⟩

theorem handedOver_spec {env : DaemonEnv} {row : Row} {arr : List Int}
    (h : handedOver s env = some (row, arr)) :
    ∃ k app gen rest st g, s.ring = .setWorkingGen k app gen :: rest ∧
      s.groups k = some st ∧ row = genRow gen ∧
      reuseportGroupLookup s.tubular st.randomId = some g ∧
      ∀ e ∈ arr, ∃ j : Slot, j.val < g.maxIdx row ∧ g.sockets row j = e := by
  unfold handedOver at h
  split at h
  · cases h
  · rename_i m rest hr
    split at h
    · rename_i call hm
      cases handleMsg_effect hm with
      | ignored | notFound | accepted => cases h
      | @workingGen k app gen st hk =>
        obtain ⟨rfl, g, hg, he⟩ := tubularMaybeRegister_call h
        exact ⟨k, app, gen, rest, st, g, hr, hk, rfl, hg, he⟩
    · cases h

/-- In this row of the cookie table, every slot up to the last live one holds a descriptor
in the store, but for the first dead slot. -/
def rowPreserved (s : Sys) (st : ReuseportStorage) (r : Row) : Bool :=
  decide (∀ last : Slot, rowLive st r s.sockhash last = true → ∀ j : Slot, j ≤ last →
    (rowLive st r s.sockhash j = true ∨ ∃ i : Slot, i < j ∧ rowLive st r s.sockhash i = false) →
    0 < storedFd s.tubular st.randomId r j)

/-- The step accepts registrations of labelled groups into preserved rows only. -/
def registrationPreserves (s : Sys) : Action → Bool
  | .handle env =>
    match s.ring, env.fished with
    | .registerSocket k _ _ gen app :: _, .found _ =>
      match s.groups k with
      | some st => !st.dis.labelled ||
        (toWrkGen? st.dis.maxApps app gen).all fun wg => rowPreserved s st (genRow wg)
      | none => true
    | _, _ => true
  | _ => true

/-- The slots that a registration takes over as they are. -/
theorem rowPreserved_scan {r : Row} {pos len : ℕ} (h : rowPreserved s st r = true)
    (hscan : SlotScan.scan (rowLive st r s.sockhash) MAX_SOCKETS_IN_GEN = (some pos, len))
    (j : Slot) (hj : j.val < len) (hne : j ≠ Fin.ofNat MAX_SOCKETS_IN_GEN pos) :
    ∃ f, Holds s.tubular st.randomId r j f := by
  have hfree := congrArg Prod.fst hscan
  have hlen := congrArg Prod.snd hscan
  obtain ⟨hpos, hdead, hbefore⟩ := SlotScan.free_spec hfree
  have hjpos : j.val ≠ pos := by
    rintro rfl
    exact hne (Fin.ext (Nat.mod_eq_of_lt hpos).symm)
  have hgap : rowLive st r s.sockhash j = true ∨ pos < j.val := by
    rcases Nat.lt_or_gt_of_ne hjpos with hlt | hgt
    · exact .inl (hbefore j hlt)
    · exact .inr hgt
  have hlast : ∃ i : Slot, j ≤ i ∧ rowLive st r s.sockhash i = true := by
    obtain ⟨i, hji, hi, hlive | hlive⟩ := SlotScan.len_tight (hj.trans_eq hlen.symm)
    · exact ⟨⟨i, hi⟩, hji, hlive⟩
    · rw [hfree, Option.some.injEq] at hlive
      exact ⟨j, Nat.le_refl _, hgap.resolve_right (by omega)⟩
  obtain ⟨i, hji, hlive⟩ := hlast
  apply storedFd_pos
  apply of_decide_eq_true h i hlive j hji
  rcases hgap with hlive | hgt
  · exact .inl hlive
  · exact .inr ⟨⟨pos, hpos⟩, hgt, hdead⟩

theorem filled_step (h : execute p s a = some t) (hc : registrationPreserves s a = true)
    (hw : StoreWf s) (hfill : Filled s.tubular) : Filled t.tubular := by
  cases store_change h hw.unique with
  | same ht _ => exact ht ▸ hfill
  | reset ht _ =>
    intro id g hg
    rw [ht] at hg
    cases hg
  | shrunk closed ht _ => exact ht.filled hfill
  | preserved env ha hacc hl closed ht _ =>
    subst ha
    have hrow : rowPreserved s hacc.st (genRow hacc.wg) = true := by
      simpa [registrationPreserves, hacc.ring_eq, hacc.fished, hacc.group_eq, hl, hacc.wg_eq]
        using hc
    exact ht.filled hacc.fd_new.1 hfill (rowPreserved_scan hrow hacc.scan_eq)

theorem filled_run {as : List Action}
    (h : Transition.Run ((system p).restrict fun s a => registrationPreserves s a = true)
      Sys.initial as s) : StoreWf s ∧ Filled s.tubular := by
  refine h.inv_restrict (P := fun s => StoreWf s ∧ Filled s.tubular) ?_ ⟨storeWf_initial, ?_⟩
  · intro s a t hs hc hi
    exact ⟨storeWf_step hs hi.1, filled_step hs hc hi.1 hi.2⟩
  · intro id g hg
    cases hg

/-- While registrations go into preserved rows, every entry that `tubular_register` gets
is a descriptor that the daemon stored in that row and holds open. -/
theorem handed_over_open {as : List Action} {env : DaemonEnv} {row : Row} {arr : List Int}
    (h : Transition.Run ((system p).restrict fun s a => registrationPreserves s a = true)
      Sys.initial as s) (hc : handedOver s env = some (row, arr)) :
    ∀ e ∈ arr, 0 < e ∧ (∃ c, (e.toNat, c) ∈ s.fds) ∧
      ∃ id j, Holds s.tubular id row j e.toNat := by
  obtain ⟨hw, hfill⟩ := filled_run h
  obtain ⟨k, app, gen, rest, st, g, hr, hk, _, hg, harr⟩ := handedOver_spec hc
  intro e he
  obtain ⟨j, hj, rfl⟩ := harr e he
  have hpos := hfill _ g hg row j hj
  have hholds : Holds s.tubular st.randomId row j (g.sockets row j).toNat :=
    ⟨g, hg, by omega, by omega⟩
  exact ⟨hpos, hw.isOpen _ _ _ _ hholds, _, j, hholds⟩

/-- A group for Tubular, with a BESPOKE dissector of `maxApps` applications. -/
def labelledDissector (maxApps : UInt8) : List UInt8 :=
  [3, 0, 0, 0, 0, 0, 0, 0, maxApps, 0, 0, 0, 0xAD, 0xDE, 0, 0, 0x61] ++ List.replicate 99 0

/-- One socket is registered and handed over. -/
def handoverRun : List Action :=
  Action.openBound 1 ++
    [.call 1 202 (labelledDissector 1), .daemon 0, .call 1 201 [0, 0, 0, 0], .daemon 10,
      .call 1 200 [0, 0, 0, 0]]

theorem handed_over_open_single :
    ∃ s, Transition.Run ((system .const).restrict fun s a => registrationPreserves s a = true)
        Sys.initial handoverRun s ∧
      handedOver s ⟨.died, true, 0, 0⟩ = some (0, [10]) ∧ ∃ c, (10, c) ∈ s.fds := by
  obtain ⟨s, hs, hx⟩ := Transition.run_restrict_of_any (execute .const) registrationPreserves
    Sys.initial handoverRun
    (fun s => decide (handedOver s ⟨.died, true, 0, 0⟩ = some (0, [10]))) (by decide +kernel)
  have hc := of_decide_eq_true hx
  exact ⟨s, hs, hc, (handed_over_open hs hc 10 (by decide)).2.1⟩

/-- The second socket of a generation that was handed over before gets slot 1, and the next
hand-over includes the unset slot 0. -/
theorem handed_over_stdin :
    ∃ s, Run .const Sys.initial (handoverRun ++ .daemon 0 :: Action.openBound 2 ++
        [.call 2 201 [0, 0, 0, 0], .daemon 11, .call 1 200 [0, 0, 0, 0]]) s ∧
      handedOver s ⟨.died, true, 0, 0⟩ = some (0, [0, 11]) := by
  obtain ⟨s, hs, hx⟩ := Transition.run_of_any (execute .const) Sys.initial
    (handoverRun ++ .daemon 0 :: Action.openBound 2 ++
        [.call 2 201 [0, 0, 0, 0], .daemon 11, .call 1 200 [0, 0, 0, 0]])
    (fun s => decide (handedOver s ⟨.died, true, 0, 0⟩ = some (0, [0, 11]))) (by decide +kernel)
  exact ⟨s, hs, of_decide_eq_true hx⟩

/-! ### Whose sockets are handed over -/

/-- The registration that a descriptor was fished up for. -/
structure Origin where
  maxApps : UInt32
  app : UInt32
  gen : UInt32
deriving DecidableEq, Repr

/-- The system with a note of the origin of each descriptor. No step reads the note. -/
structure Traced where
  sys : Sys
  origin : ℕ → Option Origin

def Traced.initial : Traced := ⟨Sys.initial, fun _ => none⟩

def originAfter (x : Traced) : Action → ℕ → Option Origin
  | .handle env =>
    match x.sys.ring, env.fished with
    | .registerSocket k _ _ gen app :: _, .found f =>
      Function.update x.origin f (some ⟨xmaxApps x.sys k, app, gen⟩)
    | _, _ => x.origin
  | _ => x.origin

def Traced.step (p : Programs) (x : Traced) (a : Action) : Option Traced :=
  (execute p x.sys a).map fun t => ⟨t, originAfter x a⟩

def traced (p : Programs) : Transition.LTS Traced Action := .ofFn (Traced.step p)

variable {x y : Traced}

theorem Traced.step_sys (h : x.step p a = some y) :
    execute p x.sys a = some y.sys ∧ y.origin = originAfter x a := by
  obtain ⟨t, ht, rfl⟩ := Option.map_eq_some_iff.mp h
  exact ⟨ht, rfl⟩

/-- The runs with notes are the runs of the system. -/
theorem traced_run_iff {as : List Action} :
    (∃ y, Transition.Run (traced p) x as y ∧ y.sys = t) ↔ Run p x.sys as t := by
  constructor
  · rintro ⟨y, h, rfl⟩
    induction h with
    | refl => exact .refl
    | stepL hs _ ih => exact .stepL (Traced.step_sys hs).1 ih
  · intro h
    induction as generalizing x with
    | nil =>
      cases h
      exact ⟨x, .refl, rfl⟩
    | cons a as ih =>
      cases h with
      | @stepL _ u _ _ _ hs hrest =>
        obtain ⟨y, hy, hys⟩ := ih (x := ⟨u, originAfter x a⟩) hrest
        have hstep : execute p x.sys a = some u := hs
        exact ⟨y, .stepL (by simp [traced, Transition.LTS.ofFn, Traced.step, hstep]) hy, hys⟩

theorem originAfter_cases (x : Traced) (a : Action) :
    originAfter x a = x.origin ∨ ∃ env k pid cookie gen app rest f o, a = .handle env ∧
      x.sys.ring = .registerSocket k pid cookie gen app :: rest ∧ env.fished = .found f ∧
      originAfter x a = Function.update x.origin f o := by
  unfold originAfter
  split
  · rename_i env
    split
    · rename_i k pid cookie gen app rest f hr hfound
      exact .inr ⟨env, k, pid, cookie, gen, app, rest, f, _, rfl, hr, hfound, rfl⟩
    · exact .inl rfl
  · exact .inl rfl

/-- A descriptor that is open keeps its note: the ones fished up are new. -/
theorem originAfter_of_open {f : ℕ} {c : UInt64} (h : execute p x.sys a = some t)
    (hf : (f, c) ∈ x.sys.fds) : originAfter x a f = x.origin f := by
  rcases originAfter_cases x a with he | ⟨env, k, pid, cookie, gen, app, rest, f', o, rfl, hr,
    hfound, he⟩
  · rw [he]
  · have hne : f ≠ f' := by
      cases execute_effect h with
      | ignored _ hr' _ hfish | crashed _ hr' _ hfish _ =>
        rw [hr, List.cons.injEq] at hr'
        obtain ⟨rfl, rfl⟩ := hr'
        exact (fishable_found hfish hfound).2.2 _ hf
      | notFound _ _ _ _ _ hfished => rw [hfound] at hfished; cases hfished
      | announced _ hr' _ _ _ => rw [hr] at hr'; cases hr'
      | accepted hacc =>
        have hf' : f' = hacc.f := by simpa [hfound] using hacc.fished
        rw [hf']
        exact hacc.fd_new.2 _ hf
    rw [he, Function.update_of_ne hne]

/-- Every preserved descriptor waits in the row of its own registration. -/
def OriginsKept (x : Traced) : Prop :=
  ∀ id r j f, Holds x.sys.tubular id r j f →
    ∃ o, x.origin f = some o ∧ r = registeredRow o.maxApps o.app o.gen

theorem originsKept_step (h : x.step p a = some y) (hw : StoreWf x.sys) (ho : OriginsKept x) :
    OriginsKept y := by
  obtain ⟨hs, horigin⟩ := Traced.step_sys h
  -- an old descriptor keeps both its row and its note
  have hold : ∀ id r j f, Holds x.sys.tubular id r j f →
      ∃ o, y.origin f = some o ∧ r = registeredRow o.maxApps o.app o.gen := by
    intro id r j f hh
    obtain ⟨c, hc⟩ := hw.isOpen id r j f hh
    rw [horigin, originAfter_of_open hs hc]
    exact ho id r j f hh
  intro id r j f hh
  cases store_change hs hw.unique with
  | same ht _ => exact hold id r j f (ht ▸ hh)
  | reset ht _ => exact absurd (ht ▸ hh) (holds_nil id r j f)
  | shrunk closed ht _ => exact hold id r j f (ht.kept id r j f hh)
  | preserved env ha hacc hl closed ht _ =>
    rcases ht.held id r j f hh with ⟨_, hrow, _, rfl⟩ | ⟨hbefore, _⟩
    · refine ⟨⟨hacc.st.dis.maxApps, hacc.app, hacc.gen⟩, ?_, ?_⟩
      · simp [horigin, originAfter, ha, hacc.ring_eq, hacc.fished, xmaxApps, hacc.group_eq]
      · rw [hrow, registeredRow, hacc.toWrkGen_eq]
    · exact hold id r j f hbefore

theorem originsKept_run {as : List Action} (h : Transition.Run (traced p) .initial as x) :
    StoreWf x.sys ∧ OriginsKept x := by
  refine h.inv (P := fun x => StoreWf x.sys ∧ OriginsKept x) ?_ ⟨storeWf_initial, ?_⟩
  · intro x a y hs hi
    exact ⟨storeWf_step (Traced.step_sys hs).1 hi.1, originsKept_step hs hi.1 hi.2⟩
  · intro id r j f hh
    exact absurd hh (holds_nil id r j f)

/-- The generations for which the row `gen % 32` of the working-generation path is the row
of the application. -/
def rowsAgree (maxApps app gen : UInt32) : Bool :=
  match numApps maxApps with
  | 1 => true
  | 2 => decide (gen.toNat % 32 / 16 = app.toNat)
  | 3 => decide (gen.toNat % 160 / 10 = app.toNat)
  | 4 => decide (gen.toNat % 32 / 8 = app.toNat)
  | _ => false

theorem rowsAgree_iff {m app gen : UInt32} (hm : m.toNat ≤ MAX_APPS)
    (ha : app.toNat < numApps m) :
    genRow gen = registeredRow m app gen ↔ rowsAgree m app gen = true := by
  have hrow : (registeredRow m app gen).val = _ :=
    genRow_toWrkGen gen (hm.trans (by decide)) ha
  have hpos := numApps_pos m
  have hle : numApps m ≤ 4 := by
    unfold numApps
    split
    · decide
    · exact hm
  rw [Fin.ext_iff, hrow, genRow_val]
  unfold rowsAgree
  generalize numApps m = n at *
  interval_cases n
  · simp only [iff_true]
    omega
  · simp only [decide_eq_true_eq]
    omega
  · simp only [decide_eq_true_eq]
    omega
  · simp only [decide_eq_true_eq]
    omega

/-- The row and array of a call are those of an application's generation: the row is where
its registrations go, no other application or generation goes there, and each descriptor
was fished up for a registration of that row. -/
structure HandsOver (x : Traced) (maxApps app gen : UInt32) (row : Row) (arr : List Int) :
    Prop where
  row_eq : row = registeredRow maxApps app gen
  others : ∀ b h : UInt32, b.toNat < numApps maxApps → registeredRow maxApps b h = row →
    b = app ∧ h.toNat % (32 / numApps maxApps) = gen.toNat % (32 / numApps maxApps)
  origins : ∀ e ∈ arr, 0 < e →
    ∃ o, x.origin e.toNat = some o ∧ registeredRow o.maxApps o.app o.gen = row

/-- In every run, Tubular gets the sockets of the announced application and generation
exactly if the two computations of the row agree. -/
theorem handover_row_iff {as : List Action} {app gen : UInt32} {rest : List Msg}
    {env : DaemonEnv} {row : Row} {arr : List Int}
    (h : Transition.Run (traced p) .initial as x)
    (hr : x.sys.ring = .setWorkingGen k app gen :: rest) (hk : x.sys.groups k = some st)
    (hm : st.dis.maxApps.toNat ≤ MAX_APPS) (ha : app.toNat < numApps st.dis.maxApps)
    (hc : handedOver x.sys env = some (row, arr)) :
    HandsOver x st.dis.maxApps app gen row arr ↔ rowsAgree st.dis.maxApps app gen = true := by
  obtain ⟨_, horigins⟩ := originsKept_run h
  obtain ⟨k', app', gen', rest', st', g, hr', hk', hrow, hg, harr⟩ := handedOver_spec hc
  rw [hr, List.cons.injEq, Msg.setWorkingGen.injEq] at hr'
  obtain ⟨⟨rfl, rfl, rfl⟩, rfl⟩ := hr'
  rw [hk, Option.some.injEq] at hk'
  subst hk'
  rw [← rowsAgree_iff hm ha, ← hrow]
  refine ⟨fun hh => hh.row_eq, fun heq => ⟨heq, fun b h hb hbrow => ?_, fun e he hpos => ?_⟩⟩
  · rw [heq] at hbrow
    exact (genRow_toWrkGen_inj (hm.trans (by decide)) hb ha).mp hbrow
  · obtain ⟨j, _, rfl⟩ := harr e he
    obtain ⟨o, ho, hj⟩ := horigins st.randomId row j (g.sockets row j).toNat
      ⟨g, hg, by omega, by omega⟩
    exact ⟨o, ho, hj.symm⟩

/-- The first of two applications registers a socket for generation 0 and the second one for
generation 16, which the second one announces. -/
def secondAppRun : List Action :=
  Action.openBound 1 ++ Action.openBound 2 ++
    [.call 1 202 (labelledDissector 2), .daemon 0, .call 2 204 [1, 0, 0, 0],
      .call 1 201 [0, 0, 0, 0], .daemon 10, .call 2 201 [16, 0, 0, 0], .daemon 11,
      .call 2 200 [16, 0, 0, 0]]

theorem handover_row_second_app :
    ∃ x, Transition.Run (traced .const) .initial secondAppRun x ∧
      HandsOver x 2 1 16 16 [11] := by
  obtain ⟨x, hx, ht⟩ := Transition.run_of_any (Traced.step .const) .initial secondAppRun
    (fun x : Traced => decide (x.sys.ring = [.setWorkingGen (skeyFromBpfSock .loopback) 1 16]) &&
      ((x.sys.groups (skeyFromBpfSock .loopback)).any fun st : ReuseportStorage =>
        decide (st.dis.maxApps = 2)) &&
      decide (handedOver x.sys ⟨.died, true, 0, 0⟩ = some (16, [11]))) (by decide +kernel)
  rw [Bool.and_eq_true, Bool.and_eq_true, Option.any_eq_true] at ht
  obtain ⟨⟨hr, st, hk, happs⟩, hc⟩ := ht
  have happs : st.dis.maxApps = 2 := of_decide_eq_true happs
  have hm : st.dis.maxApps.toNat ≤ MAX_APPS := by rw [happs]; decide
  have ha : (1 : UInt32).toNat < numApps st.dis.maxApps := by rw [happs]; decide
  have hagree : rowsAgree st.dis.maxApps 1 16 = true := by rw [happs]; decide
  have := (handover_row_iff hx (of_decide_eq_true hr) hk hm ha (of_decide_eq_true hc)).mpr hagree
  exact ⟨x, hx, happs ▸ this⟩

/-- Two applications register one socket each for generation 0. -/
def twoAppsRun : List Action :=
  Action.openBound 1 ++ Action.openBound 2 ++
    [.call 1 202 (labelledDissector 2), .daemon 0, .call 2 204 [1, 0, 0, 0],
      .call 1 201 [0, 0, 0, 0], .daemon 10, .call 2 201 [0, 0, 0, 0], .daemon 11,
      .call 2 200 [0, 0, 0, 0]]

/-- The second application announces generation 0, and Tubular gets the first one's socket. -/
theorem handover_of_other_app :
    ∃ x, Transition.Run (traced .const) .initial twoAppsRun x ∧
      x.sys.ring.head? = some (.setWorkingGen (skeyFromBpfSock .loopback) 1 0) ∧
      xmaxApps x.sys (skeyFromBpfSock .loopback) = 2 ∧
      handedOver x.sys ⟨.died, true, 0, 0⟩ = some (0, [10]) ∧
      x.origin 10 = some ⟨2, 0, 0⟩ ∧ x.origin 11 = some ⟨2, 1, 0⟩ ∧
      ¬ HandsOver x 2 1 0 0 [10] := by
  obtain ⟨x, hx, ht⟩ := Transition.run_of_any (Traced.step .const) .initial twoAppsRun
    (fun x : Traced => decide (
      x.sys.ring.head? = some (.setWorkingGen (skeyFromBpfSock .loopback) 1 0) ∧
      xmaxApps x.sys (skeyFromBpfSock .loopback) = 2 ∧
      handedOver x.sys ⟨.died, true, 0, 0⟩ = some (0, [10]) ∧
      x.origin 10 = some ⟨2, 0, 0⟩ ∧ x.origin 11 = some ⟨2, 1, 0⟩)) (by decide +kernel)
  obtain ⟨hr, happs, hc, h₁, h₂⟩ := of_decide_eq_true ht
  refine ⟨x, hx, hr, happs, hc, h₁, h₂, fun hh => ?_⟩
  exact absurd hh.row_eq (by decide)

end Udpgrm
