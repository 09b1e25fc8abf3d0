import Udpgrm.Flow
import Udpgrm.Lib.Transition

/-! The packet path and `flow_assure` on one flow entry, step by step on several CPUs. -/
namespace Udpgrm

open Transition (exec run_of_any run_restrict_of_any)

/-- What a thread does with the entry: dispatch a packet, or assure the flow for a socket. -/
inductive Job
  | packet
  | assure (cookie : UInt64)
deriving DecidableEq, Repr

/-- Where a thread stands. `latest` is the latest refresh there was at the load of
`last_tx_ns`; no program reads it. -/
inductive FlowPc
  | idle
  | lookup (job : Job)
  | missing (job : Job)
  | creating (cookie now : UInt64)
  | found (job : Job)
  | timed (job : Job) (now : UInt64)
  | loaded (job : Job) (now ts latest : UInt64)
  | existing (job : Job) (now : UInt64)
  | expired (job : Job) (now latest : UInt64)
  | takeover (cookie later : UInt64)
  | stamped (cookie later : UInt64)
deriving DecidableEq, Repr

/-- One entry of `lru_map`, the clock and the threads. `refreshed` is the latest time ever
written to `last_tx_ns`; no program reads it. -/
structure Race (T : Type*) where
  clock : UInt64
  entry : Option LruValue
  refreshed : UInt64
  pc : T → FlowPc

inductive Move (T : Type*)
  | tick (now : UInt64)
  | start (i : T) (job : Job)
  | step (i : T)

namespace Race

variable {T : Type*}

/-- No entry yet, no thread at work. -/
def initial (T : Type*) (clock : UInt64) : Race T := ⟨clock, none, 0, fun _ => .idle⟩

/-- `value->last_tx_ns = v`. -/
def stamp (s : Race T) (v : UInt64) : Race T :=
  { s with
    entry := s.entry.map fun e => { e with lastTxNs := v }
    refreshed := if s.refreshed ≤ v then v else s.refreshed }

/-- The time that the next step of a thread stores in an entry that exists. -/
def writes (s : Race T) (i : T) : Option UInt64 :=
  match s.pc i, s.entry with
  | .existing (.assure cookie) now, some e => if e.cookie = cookie then some now else none
  | .takeover _ later, some _ => some later
  | _, _ => none

variable [DecidableEq T]

def goto (s : Race T) (i : T) (pc : FlowPc) : Race T :=
  { s with pc := Function.update s.pc i pc }

@[simp] theorem goto_pc_self (s : Race T) (i : T) (pc : FlowPc) : (s.goto i pc).pc i = pc :=
  Function.update_self ..

@[simp] theorem goto_entry (s : Race T) (i : T) (pc : FlowPc) : (s.goto i pc).entry = s.entry := rfl

@[simp] theorem goto_clock (s : Race T) (i : T) (pc : FlowPc) : (s.goto i pc).clock = s.clock := rfl

@[simp] theorem goto_refreshed (s : Race T) (i : T) (pc : FlowPc) :
    (s.goto i pc).refreshed = s.refreshed := rfl

/-- The next step of a thread: one access to the entry or one reading of the clock. -/
def threadStep (d : Dissector) (s : Race T) (i : T) : Option (Race T) :=
  match s.pc i, s.entry with
  | .idle, _ => none
  | .lookup job, none => some (s.goto i (.missing job))
  | .lookup job, some _ => some (s.goto i (.found job))
  | .missing .packet, _ => some (s.goto i .idle)
  | .missing (.assure cookie), _ => some (s.goto i (.creating cookie s.clock))
  | .creating cookie now, none =>
    some (({ s with entry := some ⟨now, cookie⟩, refreshed := now } : Race T).goto i .idle)
  -- BPF_NOEXIST
  | .creating _ _, some _ => some (s.goto i .idle)
  | .found job, _ => some (s.goto i (.timed job s.clock))
  | .timed job now, some e => some (s.goto i (.loaded job now e.lastTxNs s.refreshed))
  | .loaded job now ts latest, _ =>
    if now - ts ≤ d.flowTimeoutNs then some (s.goto i (.existing job now))
    else some (s.goto i (.expired job now latest))
  | .existing .packet _, _ => some (s.goto i .idle)
  | .existing (.assure cookie) now, some e =>
    if e.cookie = cookie then some ((s.stamp now).goto i .idle) else some (s.goto i .idle)
  | .expired .packet _ _, _ => some (s.goto i .idle)
  | .expired (.assure cookie) _ _, _ => some (s.goto i (.takeover cookie s.clock))
  | .takeover cookie later, some _ => some ((s.stamp later).goto i (.stamped cookie later))
  | .stamped cookie _, some e =>
    some (({ s with entry := some { e with cookie := cookie } } : Race T).goto i .idle)
  | _, none => none

def move (d : Dissector) (s : Race T) : Move T → Option (Race T)
  | .tick now => if s.clock ≤ now then some { s with clock := now } else none
  | .start i job => if s.pc i = .idle then some (s.goto i (.lookup job)) else none
  | .step i => s.threadStep d i

end Race

/-! ### Alone -/

section Alone

variable {T : Type*} [DecidableEq T] {d : Dissector} {s : Race T} {i : T} {ss : SocketStorage}
  {hash : UInt32} {lru : FlowTable}

/-- With no other step in between, the steps of a thread are `flow_assure`. -/
theorem assure_alone (hi : s.pc i = .idle) (he : s.entry = lru hash) :
    ∃ k, (exec (Race.move d) s (.start i (.assure ss.soCookie) :: List.replicate k (.step i))).map
        (fun t => (t.pc i, t.entry)) =
      some (.idle, flowTableAfter ⟨s.clock, s.clock, true⟩ d ss hash lru hash) := by
  cases hl : lru hash with
  | none =>
    refine ⟨3, ?_⟩
    simp [exec, Race.move, Race.threadStep, List.replicate, flowTableAfter, hi, he, hl]
  | some e =>
    by_cases hf : s.clock - e.lastTxNs ≤ d.flowTimeoutNs
    · refine ⟨5, ?_⟩
      by_cases hc : e.cookie = ss.soCookie <;>
        simp [exec, Race.move, Race.threadStep, Race.stamp, List.replicate, flowTableAfter,
          LruValue.fresh, hi, he, hl, hf, hc]
    · refine ⟨7, ?_⟩
      simp [exec, Race.move, Race.threadStep, Race.stamp, List.replicate, flowTableAfter,
        LruValue.fresh, hi, he, hl, hf]

/-- With no other step in between, a packet meets an entry in force where the second stage of
the reuseport program does. -/
theorem packet_alone {e : LruValue} (hi : s.pc i = .idle) (he : s.entry = some e) :
    (exec (Race.move d) s (.start i .packet :: List.replicate 4 (.step i))).map (fun t => t.pc i) =
      some (if e.fresh d s.clock then .existing .packet s.clock
        else .expired .packet s.clock s.refreshed) := by
  by_cases hf : s.clock - e.lastTxNs ≤ d.flowTimeoutNs <;>
    simp [exec, Race.move, Race.threadStep, List.replicate, LruValue.fresh, hi, he, hf]

end Alone

/-! ### What one step can do -/

section Effect

variable {T : Type*}

/-- The steps that change nothing but the place of the thread. -/
inductive LocalStep (d : Dissector) (s : Race T) : FlowPc → FlowPc → Prop
  | idle {pc : FlowPc} : LocalStep d s pc .idle
  | missing {job : Job} : LocalStep d s (.lookup job) (.missing job)
  | found {job : Job} {e : LruValue} (he : s.entry = some e) :
      LocalStep d s (.lookup job) (.found job)
  | creating {cookie : UInt64} :
      LocalStep d s (.missing (.assure cookie)) (.creating cookie s.clock)
  | timed {job : Job} : LocalStep d s (.found job) (.timed job s.clock)
  | loaded {job : Job} {now : UInt64} {e : LruValue} (he : s.entry = some e) :
      LocalStep d s (.timed job now) (.loaded job now e.lastTxNs s.refreshed)
  | existing {job : Job} {now ts latest : UInt64} (h : now - ts ≤ d.flowTimeoutNs) :
      LocalStep d s (.loaded job now ts latest) (.existing job now)
  | expired {job : Job} {now ts latest : UInt64} (h : ¬ now - ts ≤ d.flowTimeoutNs) :
      LocalStep d s (.loaded job now ts latest) (.expired job now latest)
  | takeover {cookie now latest : UInt64} :
      LocalStep d s (.expired (.assure cookie) now latest) (.takeover cookie s.clock)

variable [DecidableEq T]

inductive ThreadEffect (d : Dissector) (s : Race T) (i : T) : Race T → Prop
  | local_ {pc : FlowPc} (h : LocalStep d s (s.pc i) pc) : ThreadEffect d s i (s.goto i pc)
  | create {cookie now : UInt64} (hpc : s.pc i = .creating cookie now) (he : s.entry = none) :
      ThreadEffect d s i
        (({ s with entry := some ⟨now, cookie⟩, refreshed := now } : Race T).goto i .idle)
  | refresh {cookie now : UInt64} (hpc : s.pc i = .existing (.assure cookie) now)
      (hw : s.writes i = some now) : ThreadEffect d s i ((s.stamp now).goto i .idle)
  | stamp {cookie later : UInt64} (hpc : s.pc i = .takeover cookie later)
      (hw : s.writes i = some later) :
      ThreadEffect d s i ((s.stamp later).goto i (.stamped cookie later))
  | adopt {cookie : UInt64} {e : LruValue} (he : s.entry = some e) :
      ThreadEffect d s i
        (({ s with entry := some { e with cookie := cookie } } : Race T).goto i .idle)

theorem threadStep_effect {d : Dissector} {s t : Race T} {i : T}
    (h : s.threadStep d i = some t) : ThreadEffect d s i t := by
  have hlocal : ∀ {pc pc'}, s.pc i = pc → LocalStep d s pc pc' → t = s.goto i pc' →
      ThreadEffect d s i t := by
    rintro _ _ rfl hstep rfl
    exact .local_ hstep
  cases hpc : s.pc i <;> cases he : s.entry <;> simp only [Race.threadStep, hpc, he] at h
  case lookup.none => exact hlocal hpc .missing (Option.some.inj h.symm)
  case lookup.some e => exact hlocal hpc (.found he) (Option.some.inj h.symm)
  case creating.none =>
    cases h
    exact .create hpc he
  case creating.some => exact hlocal hpc .idle (Option.some.inj h.symm)
  case found.none | found.some => exact hlocal hpc .timed (Option.some.inj h.symm)
  case timed.some e => exact hlocal hpc (.loaded he) (Option.some.inj h.symm)
  case loaded.none | loaded.some =>
    split at h
    · exact hlocal hpc (.existing ‹_›) (Option.some.inj h.symm)
    · exact hlocal hpc (.expired ‹_›) (Option.some.inj h.symm)
  case takeover.some =>
    cases h
    exact .stamp hpc (by simp [Race.writes, hpc, he])
  case stamped.some =>
    cases h
    exact .adopt he
  case missing.none job | missing.some job _ =>
    cases job
    · exact hlocal hpc .idle (Option.some.inj h.symm)
    · exact hlocal hpc .creating (Option.some.inj h.symm)
  case expired.none job _ _ | expired.some job _ _ _ =>
    cases job
    · exact hlocal hpc .idle (Option.some.inj h.symm)
    · exact hlocal hpc .takeover (Option.some.inj h.symm)
  case existing.none job _ =>
    cases job
    · exact hlocal hpc .idle (Option.some.inj h.symm)
    · cases h
  case existing.some job now e =>
    cases job with
    | packet => exact hlocal hpc .idle (Option.some.inj h.symm)
    | assure cookie =>
      dsimp only at h
      by_cases hc : e.cookie = cookie
      · rw [if_pos hc] at h
        cases h
        exact .refresh hpc (by simp [Race.writes, hpc, he, hc])
      · rw [if_neg hc] at h
        exact hlocal hpc .idle (Option.some.inj h.symm)
  all_goals cases h

end Effect

/-! ### Refreshes in order -/

section Order

variable {T : Type*}

/-- The thread is not overtaken by a refresh to `v`: its reading of the clock, if it has yet
to load `last_tx_ns`, is not older, and it is not on the way to take the entry over. -/
def FlowPc.undisturbed (d : Dissector) (v : UInt64) : FlowPc → Bool
  | .timed _ now => v ≤ now
  | .loaded (.assure _) now ts _ => now - ts ≤ d.flowTimeoutNs
  | .expired (.assure _) _ _ | .takeover _ _ | .stamped _ _ => false
  | _ => true

/-- A time that is stored is not older than the one it replaces and overtakes no other
thread. -/
def Race.writesInOrder (d : Dissector) (s : Race T) : Move T → Prop
  | .step i => ∀ v ∈ s.writes i, (∀ e ∈ s.entry, e.lastTxNs ≤ v) ∧
      ∀ j, j ≠ i → (s.pc j).undisturbed d v = true
  | _ => True

/-- What a thread knows at each place. -/
def PcOk (d : Dissector) (s : Race T) : FlowPc → Prop
  | .idle | .lookup _ | .missing _ => True
  | .creating _ now => now ≤ s.clock
  | .found _ => s.entry.isSome
  | .timed _ now => s.entry.isSome ∧ now ≤ s.clock ∧ s.refreshed ≤ now
  | .loaded job now ts latest => s.entry.isSome ∧ now ≤ s.clock ∧ ts = latest ∧ ts ≤ now ∧
      (job ≠ .packet → now - ts ≤ d.flowTimeoutNs ∨ s.refreshed = latest)
  | .existing _ now => s.entry.isSome ∧ now ≤ s.clock
  | .expired job now latest => s.entry.isSome ∧ now ≤ s.clock ∧
      latest.toNat + d.flowTimeout < now.toNat ∧ (job ≠ .packet → s.refreshed = latest)
  | .takeover _ later => s.entry.isSome ∧ later ≤ s.clock ∧
      s.refreshed.toNat + d.flowTimeout < later.toNat
  | .stamped _ later => s.entry.isSome ∧ s.refreshed = later

structure RaceInv (d : Dissector) (s : Race T) : Prop where
  stamp : ∀ e, s.entry = some e → e.lastTxNs = s.refreshed
  refreshed_le : s.refreshed ≤ s.clock
  threads : ∀ i, PcOk d s (s.pc i)

variable {d : Dissector} {s t : Race T} {i : T} {m : Move T} {pc pc' : FlowPc} {v : UInt64}

theorem not_expired_iff {now ts : UInt64} (h : ts ≤ now) :
    now - ts ≤ d.flowTimeoutNs ↔ now.toNat ≤ ts.toNat + d.flowTimeout := by
  have := LruValue.fresh_iff (v := ⟨ts, 0⟩) (d := d) h
  rwa [LruValue.fresh, decide_eq_true_eq] at this

theorem PcOk.local_ (h : LocalStep d s pc pc') (hs : RaceInv d s) (hpc : PcOk d s pc) :
    PcOk d s pc' := by
  cases h with
  | idle | missing => trivial
  | found he => simp [PcOk, he]
  | creating => exact UInt64.le_refl _
  | timed => exact ⟨hpc, UInt64.le_refl _, hs.refreshed_le⟩
  | loaded he =>
    obtain ⟨hsome, hle, hn⟩ := hpc
    have hts := hs.stamp _ he
    exact ⟨hsome, hle, hts, hts ▸ hn, fun _ => .inr rfl⟩
  | existing hf => exact ⟨hpc.1, hpc.2.1⟩
  | expired hf =>
    obtain ⟨hsome, hle, rfl, hts, hjob⟩ := hpc
    have hold := mt (not_expired_iff hts).mpr hf
    exact ⟨hsome, hle, by omega, fun hj => (hjob hj).resolve_left hf⟩
  | takeover =>
    obtain ⟨hsome, hle, hold, hjob⟩ := hpc
    have hnow := UInt64.le_iff_toNat_le.mp hle
    refine ⟨hsome, UInt64.le_refl _, ?_⟩
    rw [hjob (by simp)]
    omega

/-- The clock moves on and all else stays. -/
theorem PcOk.mono (hpc : PcOk d s pc) (he : t.entry.isSome = s.entry.isSome)
    (hr : t.refreshed = s.refreshed) (hc : s.clock ≤ t.clock) : PcOk d t pc := by
  have htrans : ∀ {n}, n ≤ s.clock → n ≤ t.clock := fun h => UInt64.le_trans h hc
  cases pc <;> simp only [PcOk, he, hr] at hpc ⊢
  case creating => exact htrans hpc
  case found => exact hpc
  case timed | loaded | expired | takeover => exact ⟨hpc.1, htrans hpc.2.1, hpc.2.2⟩
  case existing => exact ⟨hpc.1, htrans hpc.2⟩
  case stamped => exact hpc

/-- A thread that a refresh does not overtake. -/
theorem PcOk.stamp (hpc : PcOk d s pc) (hv : s.refreshed ≤ v) (hu : pc.undisturbed d v = true) :
    PcOk d (s.stamp v) pc := by
  have hr : (s.stamp v).refreshed = v := if_pos hv
  have he : (s.stamp v).entry.isSome = s.entry.isSome := by simp [Race.stamp]
  cases pc <;> simp only [PcOk, he, hr] at hpc ⊢
  case creating | found | existing => exact hpc
  case timed => exact ⟨hpc.1, hpc.2.1, of_decide_eq_true hu⟩
  case takeover | stamped => cases hu
  case loaded job now ts latest =>
    obtain ⟨hsome, hle, hlatest, hts, hjob⟩ := hpc
    refine ⟨hsome, hle, hlatest, hts, fun hj => .inl ?_⟩
    cases job with
    | packet => exact absurd rfl hj
    | assure cookie => exact of_decide_eq_true hu
  case expired job now latest =>
    cases job with
    | packet => exact ⟨hpc.1, hpc.2.1, hpc.2.2.1, fun hj => absurd rfl hj⟩
    | assure cookie => cases hu

/-- Before the entry exists no thread works on it. -/
theorem PcOk.create {e : LruValue} (hpc : PcOk d s pc) (he : s.entry = none) :
    PcOk d ({ s with entry := some e, refreshed := v } : Race T) pc := by
  cases pc <;> simp only [PcOk, he] at hpc ⊢
  case creating => exact hpc
  all_goals simp at hpc

variable [DecidableEq T]

/-- The thread that moves and the others, after a change of entry or clock. -/
theorem threads_goto {s' : Race T} (hpc : s'.pc = s.pc) (hi : PcOk d s' pc)
    (hj : ∀ j, j ≠ i → PcOk d s' (s.pc j)) (j : T) :
    PcOk d (s'.goto i pc) ((s'.goto i pc).pc j) := by
  have hok : PcOk d s' ((s'.goto i pc).pc j) := by
    by_cases h : j = i
    · subst h
      simpa [Race.goto] using hi
    · simpa [Race.goto, h, hpc] using hj j h
  exact hok.mono rfl rfl (UInt64.le_refl _)

theorem raceInv_stamp (hs : RaceInv d s) (hv : s.refreshed ≤ v) (hc : v ≤ s.clock)
    (hpc : PcOk d (s.stamp v) pc)
    (hu : ∀ j, j ≠ i → (s.pc j).undisturbed d v = true) : RaceInv d ((s.stamp v).goto i pc) where
  stamp e he := by
    obtain ⟨e₀, _, rfl⟩ := Option.map_eq_some_iff.mp he
    exact (if_pos hv).symm
  refreshed_le := by
    have hr : ((s.stamp v).goto i pc).refreshed = v := if_pos hv
    rw [hr]
    exact hc
  threads := threads_goto rfl hpc fun j hj => (hs.threads j).stamp hv (hu j hj)

theorem raceInv_thread (h : ThreadEffect d s i t) (hc : s.writesInOrder d (.step i))
    (hs : RaceInv d s) : RaceInv d t := by
  have hi := hs.threads i
  have hord : ∀ {v}, s.writes i = some v → s.entry.isSome → s.refreshed ≤ v ∧
      ∀ j, j ≠ i → (s.pc j).undisturbed d v = true := by
    intro v hw hsome
    obtain ⟨e, he⟩ := Option.isSome_iff_exists.mp hsome
    obtain ⟨hle, hothers⟩ := hc v hw
    exact ⟨hs.stamp e he ▸ hle e he, hothers⟩
  cases h with
  | local_ hl =>
    exact ⟨hs.stamp, hs.refreshed_le, threads_goto rfl (hi.local_ hl hs) fun j _ => hs.threads j⟩
  | @create cookie now hpc he =>
    rw [hpc] at hi
    refine ⟨?_, hi, threads_goto rfl trivial fun j _ => (hs.threads j).create he⟩
    intro e he
    cases he
    rfl
  | refresh hpc hw =>
    rw [hpc] at hi
    obtain ⟨hv, hu⟩ := hord hw hi.1
    exact raceInv_stamp hs hv hi.2 trivial hu
  | stamp hpc hw =>
    rw [hpc] at hi
    obtain ⟨hv, hu⟩ := hord hw hi.1
    exact raceInv_stamp hs hv hi.2.1 ⟨by simpa [Race.stamp] using hi.1, if_pos hv⟩ hu
  | @adopt cookie e he =>
    refine ⟨?_, hs.refreshed_le, threads_goto rfl trivial fun j _ => ?_⟩
    · intro e' he'
      cases he'
      exact hs.stamp e he
    · exact (hs.threads j).mono (by simp [he]) rfl (UInt64.le_refl _)

theorem raceInv_step (h : s.move d m = some t) (hc : s.writesInOrder d m) (hs : RaceInv d s) :
    RaceInv d t := by
  cases m with
  | tick now =>
    simp only [Race.move] at h
    split_ifs at h with hnow
    cases h
    exact ⟨hs.stamp, UInt64.le_trans hs.refreshed_le hnow,
      fun j => (hs.threads j).mono rfl rfl hnow⟩
  | start i job =>
    simp only [Race.move] at h
    split_ifs at h
    cases h
    exact ⟨hs.stamp, hs.refreshed_le, threads_goto rfl trivial fun j _ => hs.threads j⟩
  | step i => exact raceInv_thread (threadStep_effect h) hc hs

theorem raceInv_run {clock : UInt64} {ms : List (Move T)}
    (h : Transition.Run ((Transition.LTS.ofFn (Race.move d)).restrict (Race.writesInOrder d))
      (Race.initial T clock) ms t) : RaceInv d t := by
  refine h.inv_restrict raceInv_step ⟨?_, UInt64.le_iff_toNat_le.mpr (Nat.zero_le _), ?_⟩
  · intro e he
    cases he
  · exact fun _ => trivial

/-- While every refresh is in order, the subtraction never wraps, an entry refreshed within
the timeout is found in force, and no flow is dispatched as new or taken over that was
refreshed within the timeout. -/
theorem refreshed_never_expired {clock : UInt64} {ms : List (Move T)}
    (h : Transition.Run ((Transition.LTS.ofFn (Race.move d)).restrict (Race.writesInOrder d))
      (Race.initial T clock) ms t) (i : T) :
    (∀ job now ts latest, t.pc i = .loaded job now ts latest →
      ts ≤ now ∧ (now - ts).toNat = now.toNat - ts.toNat ∧
        (now.toNat ≤ latest.toNat + d.flowTimeout →
          t.threadStep d i = some (t.goto i (.existing job now)))) ∧
      (∀ job now latest, t.pc i = .expired job now latest →
        latest.toNat + d.flowTimeout < now.toNat) ∧
      (∀ cookie later, t.pc i = .takeover cookie later →
        t.refreshed.toNat + d.flowTimeout < later.toNat) ∧
      ∀ cookie later, t.pc i = .stamped cookie later → t.refreshed = later := by
  have hi := (raceInv_run h).threads i
  refine ⟨?_, ?_, ?_, ?_⟩
  · intro job now ts latest hpc
    rw [hpc] at hi
    obtain ⟨_, _, rfl, hts, _⟩ := hi
    refine ⟨hts, UInt64.toNat_sub_of_le _ _ hts, fun hfresh => ?_⟩
    simp only [Race.threadStep, hpc, if_pos ((not_expired_iff hts).mpr hfresh)]
  · intro job now latest hpc
    rw [hpc] at hi
    exact hi.2.2.1
  · intro cookie later hpc
    rw [hpc] at hi
    exact hi.2.2
  · intro cookie later hpc
    rw [hpc] at hi
    exact hi.2

end Order

/-! ### Two threads -/

/-- The order of refreshes, tested for two threads. -/
def pairInOrder (d : Dissector) (s : Race Bool) : Move Bool → Bool
  | .step i =>
    match s.writes i with
    | none => true
    | some v => (s.entry.all fun e => decide (e.lastTxNs ≤ v)) && (s.pc !i).undisturbed d v
  | _ => true

theorem writesInOrder_pair {d : Dissector} (s : Race Bool) (m : Move Bool)
    (h : pairInOrder d s m = true) : s.writesInOrder d m := by
  cases m with
  | tick | start => trivial
  | step i =>
    intro v hv
    have hw : s.writes i = some v := hv
    simp only [pairInOrder, hw, Bool.and_eq_true, Option.all_eq_true, decide_eq_true_eq] at h
    refine ⟨h.1, fun j hj => ?_⟩
    rw [Bool.eq_not_of_ne hj]
    exact h.2

/-- A socket creates a flow entry and refreshes it; another thread comes to the entry with its
clock reading before, or after, the refresh. -/
def createFlow : List (Move Bool) := .start false (.assure 1) :: List.replicate 3 (.step false)

def refreshFlow : List (Move Bool) := .start false (.assure 1) :: List.replicate 5 (.step false)

def readBefore (job : Job) : List (Move Bool) :=
  createFlow ++ [.tick 10, .start true job, .step true, .step true, .tick 11] ++ refreshFlow ++
    [.step true]

def readAfter (job : Job) : List (Move Bool) :=
  createFlow ++ [.tick 10] ++ refreshFlow ++
    [.tick 11, .start true job, .step true, .step true, .step true]

theorem refreshed_never_expired_read_after :
    ∃ t, Transition.Run
        ((Transition.LTS.ofFn (Race.move .empty)).restrict (Race.writesInOrder .empty))
        (Race.initial Bool 0) (readAfter (.assure 2)) t ∧
      t.pc true = .loaded (.assure 2) 11 10 10 ∧
      t.threadStep .empty true = some (t.goto true (.existing (.assure 2) 11)) := by
  obtain ⟨t, ht, hx⟩ := run_restrict_of_any (Race.move .empty) (pairInOrder .empty)
    (Race.initial Bool 0) (readAfter (.assure 2))
    (fun t : Race Bool => decide (t.pc true = .loaded (.assure 2) 11 10 10)) (by decide +kernel)
  have hrun := ht.weaken writesInOrder_pair
  have hpc : t.pc true = .loaded (.assure 2) 11 10 10 := of_decide_eq_true hx
  exact ⟨t, hrun, hpc, ((refreshed_never_expired hrun true).1 _ _ _ _ hpc).2.2 (by decide)⟩

/-- With the refresh between its reading of the clock and its load, the thread finds the entry
expired, although it was refreshed within the timeout. -/
def FoundExpired (job : Job) : Prop :=
  ∃ t, Transition.Run (Transition.LTS.ofFn (Race.move .empty)) (Race.initial Bool 0)
      (readBefore job) t ∧
    t.pc true = .loaded job 10 11 11 ∧
    (10 : UInt64).toNat ≤ (11 : UInt64).toNat + Dissector.empty.flowTimeout ∧
    (t.threadStep .empty true).map (fun u => u.pc true) = some (.expired job 10 11)

theorem foundExpired_of_exec {job : Job}
    (h : (exec (Race.move .empty) (Race.initial Bool 0) (readBefore job)).any (fun t =>
      decide (t.pc true = .loaded job 10 11 11 ∧
        (t.threadStep .empty true).map (fun u => u.pc true) = some (.expired job 10 11))) = true) :
    FoundExpired job := by
  obtain ⟨t, ht, hx⟩ := run_of_any _ _ _ _ h
  have hx := of_decide_eq_true hx
  exact ⟨t, ht, hx.1, by decide, hx.2⟩

/-- A packet of the flow is dispatched as new, and another socket goes on to take it over. -/
theorem refreshed_found_expired : FoundExpired .packet ∧ FoundExpired (.assure 2) :=
  ⟨foundExpired_of_exec (by decide +kernel), foundExpired_of_exec (by decide +kernel)⟩

end Udpgrm
