import Udpgrm.Wire

/-! The flow table: creation, refresh, conflict and takeover of an entry. -/
namespace Udpgrm

abbrev FlowTable := UInt32 → Option LruValue

/-- What the kernel answers during one `flow_assure`: the clock on first and second
reading, and whether a new entry could be inserted. -/
structure FlowEnv where
  now : UInt64
  later : UInt64
  inserted : Bool
deriving DecidableEq, Repr

/-- An entry stays in force until more than the timeout has passed since its last refresh.
The subtraction is on 64-bit words, as in both hooks. -/
def LruValue.fresh (v : LruValue) (d : Dissector) (now : UInt64) : Bool :=
  decide (now - v.lastTxNs ≤ d.flowTimeoutNs)

/-- The timeout in nanoseconds, as a number. -/
def Dissector.flowTimeout (d : Dissector) : ℕ :=
  (if d.flowEntryTimeoutSec = 0 then 125 else d.flowEntryTimeoutSec.toNat) * 1000000000

theorem Dissector.flowTimeoutNs_toNat (d : Dissector) : d.flowTimeoutNs.toNat = d.flowTimeout := by
  have hsec := d.flowEntryTimeoutSec.toNat_lt
  unfold Dissector.flowTimeoutNs Dissector.flowTimeout
  split
  · rfl
  · simp only [UInt64.toNat_mul, UInt32.toNat_toUInt64, UInt64.reduceToNat]
    omega

/-- With a clock that does not go backwards the 64-bit difference is the elapsed time. -/
theorem LruValue.fresh_iff {v : LruValue} {d : Dissector} {now : UInt64} (h : v.lastTxNs ≤ now) :
    v.fresh d now = true ↔ now.toNat ≤ v.lastTxNs.toNat + d.flowTimeout := by
  have hle : v.lastTxNs.toNat ≤ now.toNat := h
  rw [LruValue.fresh, decide_eq_true_eq, UInt64.le_iff_toNat_le, UInt64.toNat_sub_of_le _ _ h,
    d.flowTimeoutNs_toNat]
  omega

/-- `flow_assure`: the answer, the group with its counters, and the flow table. -/
def flowAssure (env : FlowEnv) (st : ReuseportStorage) (s : SocketStorage) (hash : UInt32)
    (lru : FlowTable) : Bool × ReuseportStorage × FlowTable :=
  let st := st.count fun m => { m with txTotal := m.txTotal + 1 }
  match lru hash with
  | none =>
    if env.inserted then
      (true, st.count fun m => { m with txFlowCreateOk := m.txFlowCreateOk + 1 },
        Function.update lru hash (some ⟨env.now, s.soCookie⟩))
    else
      (false, st.count fun m => { m with txFlowCreateError := m.txFlowCreateError + 1 }, lru)
  | some value =>
    if value.fresh st.dis env.now then
      if value.cookie = s.soCookie then
        (true, st.count fun m => { m with txFlowUpdateOk := m.txFlowUpdateOk + 1 },
          Function.update lru hash (some { value with lastTxNs := env.now }))
      else
        (false, st.count fun m => { m with txFlowUpdateConflict := m.txFlowUpdateConflict + 1 },
          lru)
    else
      (true, st.count fun m => { m with
          txFlowCreateOk := m.txFlowCreateOk + 1
          txFlowCreateFromExpiredOk := m.txFlowCreateFromExpiredOk + 1 },
        Function.update lru hash (some ⟨env.later, s.soCookie⟩))

/-- Everything of a group but its counters. -/
def ReuseportStorage.SameConfig (st st' : ReuseportStorage) : Prop :=
  ∃ m, st' = { st with metrics := m }

theorem ReuseportStorage.SameConfig.refl (st : ReuseportStorage) : st.SameConfig st :=
  ⟨st.metrics, rfl⟩

theorem ReuseportStorage.SameConfig.trans {a b c : ReuseportStorage}
    (h : a.SameConfig b) (h' : b.SameConfig c) : a.SameConfig c := by
  obtain ⟨m, rfl⟩ := h
  obtain ⟨m', rfl⟩ := h'
  exact ⟨m', rfl⟩

/-- `flow_assure` changes counters of the group and nothing else. -/
theorem flowAssure_sameConfig (env : FlowEnv) (st : ReuseportStorage) (s : SocketStorage)
    (hash : UInt32) (lru : FlowTable) : st.SameConfig (flowAssure env st s hash lru).2.1 := by
  unfold flowAssure
  simp only
  split <;> split
  all_goals try split
  all_goals exact ⟨_, rfl⟩

/-- When `flow_assure` refuses: no room for a new entry, or a live entry of another socket. -/
def flowRefuses (env : FlowEnv) (d : Dissector) (s : SocketStorage) (hash : UInt32)
    (lru : FlowTable) : Bool :=
  match lru hash with
  | none => !env.inserted
  | some value => value.fresh d env.now && decide (value.cookie ≠ s.soCookie)

theorem flowAssure_fst (env : FlowEnv) (st : ReuseportStorage) (s : SocketStorage)
    (hash : UInt32) (lru : FlowTable) :
    (flowAssure env st s hash lru).1 = !flowRefuses env st.dis s hash lru := by
  unfold flowAssure flowRefuses
  cases hl : lru hash with
  | none => cases env.inserted <;> simp
  | some value =>
    by_cases hf : value.fresh st.dis env.now = true <;>
      by_cases hc : value.cookie = s.soCookie <;>
      simp [ReuseportStorage.count, hf, hc]

/-- The flow table after `flow_assure`. The group matters through its timeout only. -/
def flowTableAfter (env : FlowEnv) (d : Dissector) (s : SocketStorage) (hash : UInt32)
    (lru : FlowTable) : FlowTable :=
  match lru hash with
  | none => if env.inserted then Function.update lru hash (some ⟨env.now, s.soCookie⟩) else lru
  | some value =>
    if value.fresh d env.now then
      if value.cookie = s.soCookie then
        Function.update lru hash (some { value with lastTxNs := env.now })
      else lru
    else Function.update lru hash (some ⟨env.later, s.soCookie⟩)

theorem flowAssure_lru (env : FlowEnv) (st : ReuseportStorage) (s : SocketStorage)
    (hash : UInt32) (lru : FlowTable) :
    (flowAssure env st s hash lru).2.2 = flowTableAfter env st.dis s hash lru := by
  unfold flowAssure flowTableAfter
  cases hl : lru hash with
  | none => cases env.inserted <;> rfl
  | some value =>
    by_cases hf : value.fresh st.dis env.now = true <;>
      by_cases hc : value.cookie = s.soCookie <;>
      simp [ReuseportStorage.count, hf, hc]

/-- Entries under other hashes are left alone. -/
theorem flowTableAfter_of_ne {env : FlowEnv} {d : Dissector} {s : SocketStorage}
    {hash h : UInt32} {lru : FlowTable} (hne : h ≠ hash) :
    flowTableAfter env d s hash lru h = lru h := by
  unfold flowTableAfter
  cases lru hash with
  | none => cases env.inserted <;> simp [hne]
  | some value =>
    by_cases hf : value.fresh d env.now = true <;>
      by_cases hc : value.cookie = s.soCookie <;> simp [hf, hc, hne]

/-- A refused call leaves the flow table as it was. -/
theorem flowTableAfter_refused {env : FlowEnv} {d : Dissector} {s : SocketStorage}
    {hash : UInt32} {lru : FlowTable} (h : flowRefuses env d s hash lru = true) :
    flowTableAfter env d s hash lru = lru := by
  unfold flowRefuses at h
  unfold flowTableAfter
  split at h
  · simp_all
  · simp_all

end Udpgrm
