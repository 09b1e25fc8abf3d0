import Udpgrm.Groups

/-! Every packet and every flow call is counted once in each stage it passes. -/
namespace Udpgrm

/-- The counters while `parsing`, `matching` and `dispatching` packets stand before the
outcome of the first, the second and the third stage. -/
structure Metrics.InFlight (m : Metrics) (parsing matching dispatching : ℕ) : Prop where
  parsed : m.rxProcessedTotal = m.rxInternalStateError + m.rxCbpfProgError +
    m.rxPacketTooShortError + m.rxDissectedOkTotal + parsing
  matched : m.rxDissectedOkTotal = m.rxFlowOk + m.rxFlowRgConflict + m.rxFlowOtherError +
    m.rxFlowNewUnseen + matching
  passedOn : m.rxDissectedOkTotal = m.rxFlowOk + m.rxNewFlowTotal + matching + dispatching
  dispatched : m.rxNewFlowTotal =
    m.rxNewFlowWorkingGenDispatchOk + m.rxNewFlowWorkingGenDispatchError
  unseen : m.rxFlowNewHadExpired + m.rxFlowNewBadCookie ≤ m.rxFlowNewUnseen
  sent : m.txTotal = m.txFlowCreateOk + m.txFlowCreateError + m.txFlowUpdateOk +
    m.txFlowUpdateConflict
  fromExpired : m.txFlowCreateFromExpiredOk ≤ m.txFlowCreateOk

/-- No packet is on its way. -/
abbrev Metrics.Settled (m : Metrics) : Prop := m.InFlight 0 0 0

variable {st : ReuseportStorage}

theorem thirdStage_settled {select : UInt64 → Int} {appIdx mdHash : UInt32}
    (h : st.metrics.InFlight 0 0 1) :
    (thirdStage select appIdx mdHash st).2.metrics.Settled := by
  obtain ⟨h₁, h₂, h₃, h₄, h₅, h₆, h₇⟩ := h
  unfold thirdStage
  simp only
  split <;> constructor <;> simp only [ReuseportStorage.count] <;> omega

theorem haveHash_settled {select : UInt64 → Int} {lru : FlowTable} {now : UInt64}
    {hash mdHash : UInt32} (h : st.metrics.InFlight 1 0 0) :
    (haveHash select lru now hash mdHash st).2.metrics.Settled := by
  obtain ⟨h₁, h₂, h₃, h₄, h₅, h₆, h₇⟩ := h
  unfold haveHash
  simp only
  split
  · apply thirdStage_settled
    constructor <;> simp only [ReuseportStorage.count] <;> omega
  · split
    · split
      · constructor <;> simp only [ReuseportStorage.count] <;> omega
      · split
        all_goals
          apply thirdStage_settled
          constructor <;> simp only [ReuseportStorage.count] <;> omega
    · apply thirdStage_settled
      constructor <;> simp only [ReuseportStorage.count] <;> omega

theorem haveCookie_settled {select : UInt64 → Int} {sockCookie : UInt64}
    {appIdx mdHash : UInt32} (h : st.metrics.InFlight 1 0 0) :
    (haveCookie select sockCookie appIdx mdHash st).2.metrics.Settled := by
  obtain ⟨h₁, h₂, h₃, h₄, h₅, h₆, h₇⟩ := h
  unfold haveCookie
  simp only
  split
  · constructor <;> simp only [ReuseportStorage.count] <;> omega
  · split
    · apply thirdStage_settled
      constructor <;> simp only [ReuseportStorage.count] <;> omega
    · split
      · apply thirdStage_settled
        by_cases hb : sockCookie = BAD_COOKIE
        all_goals
          constructor <;> simp only [ReuseportStorage.count, hb, if_true, if_false] <;> omega
      · apply thirdStage_settled
        constructor <;> simp only [ReuseportStorage.count] <;> omega

/-- One packet, whatever the packet programs and helpers answer. -/
theorem udpgrmReuseportProg_settled {p : Programs} {select : UInt64 → Int} {lru : FlowTable}
    {now : UInt64} {md : Md} (h : st.metrics.Settled) :
    (udpgrmReuseportProg p select lru now md st).2.metrics.Settled := by
  have hin : (st.count fun m => { m with
      rxProcessedTotal := m.rxProcessedTotal + 1 }).metrics.InFlight 1 0 0 := by
    obtain ⟨h₁, h₂, h₃, h₄, h₅, h₆, h₇⟩ := h
    constructor <;> simp only [ReuseportStorage.count] <;> omega
  unfold udpgrmReuseportProg
  simp only
  generalize (st.count fun m => { m with rxProcessedTotal := m.rxProcessedTotal + 1 }) = st at hin
  split
  · obtain ⟨h₁, h₂, h₃, h₄, h₅, h₆, h₇⟩ := hin
    constructor <;> simp only [ReuseportStorage.count] <;> omega
  · obtain ⟨h₁, h₂, h₃, h₄, h₅, h₆, h₇⟩ := hin
    constructor <;> simp only [ReuseportStorage.count] <;> omega
  · obtain ⟨h₁, h₂, h₃, h₄, h₅, h₆, h₇⟩ := hin
    constructor <;> simp only [ReuseportStorage.count] <;> omega
  · exact haveHash_settled hin
  · exact haveCookie_settled hin
  · apply thirdStage_settled
    obtain ⟨h₁, h₂, h₃, h₄, h₅, h₆, h₇⟩ := hin
    constructor <;> simp only [ReuseportStorage.count] <;> omega

/-- One flow call, whatever the flow table holds and the insertion returns. -/
theorem flowAssure_settled {env : FlowEnv} {ss : SocketStorage} {hash : UInt32}
    {lru : FlowTable} (h : st.metrics.Settled) :
    (flowAssure env st ss hash lru).2.1.metrics.Settled := by
  obtain ⟨h₁, h₂, h₃, h₄, h₅, h₆, h₇⟩ := h
  unfold flowAssure
  simp only
  split <;> split
  all_goals try split
  all_goals constructor <;> simp only [ReuseportStorage.count] <;> omega

theorem QuietStep.settled {p : Programs} {st' : ReuseportStorage} (h : QuietStep p st st')
    (hs : st.metrics.Settled) : st'.metrics.Settled := by
  cases h with
  | refl | workingGen | verbose => exact hs
  | flow => exact flowAssure_settled hs
  | packet => exact udpgrmReuseportProg_settled hs
  | critical =>
    obtain ⟨h₁, h₂, h₃, h₄, h₅, h₆, h₇⟩ := hs
    exact ⟨h₁, h₂, h₃, h₄, h₅, h₆, h₇⟩

theorem GroupStep.settled {p : Programs} {st' : ReuseportStorage} (h : GroupStep p st st')
    (hs : st.metrics.Settled) : st'.metrics.Settled := by
  cases h with
  | quiet h => exact h.settled hs
  | cookie => exact hs

theorem settled_zero : ({} : Metrics).Settled := by
  constructor <;> decide

theorem GroupReachable.settled {p : Programs} (h : GroupReachable p st) :
    st.metrics.Settled := by
  induction h with
  | created | installed => exact settled_zero
  | step _ hs ih => exact hs.settled ih

/-- Within each stage a packet is accounted for exactly once, and so is a flow call. -/
theorem group_accounting {p : Programs} (h : GroupReachable p st) :
    st.metrics.rxProcessedTotal = st.metrics.rxInternalStateError + st.metrics.rxCbpfProgError +
        st.metrics.rxPacketTooShortError + st.metrics.rxDissectedOkTotal ∧
      st.metrics.rxDissectedOkTotal = st.metrics.rxFlowOk + st.metrics.rxFlowRgConflict +
        st.metrics.rxFlowOtherError + st.metrics.rxFlowNewUnseen ∧
      st.metrics.rxFlowOk ≤ st.metrics.rxDissectedOkTotal ∧
      st.metrics.rxNewFlowTotal = st.metrics.rxDissectedOkTotal - st.metrics.rxFlowOk ∧
      st.metrics.rxNewFlowTotal = st.metrics.rxNewFlowWorkingGenDispatchOk +
        st.metrics.rxNewFlowWorkingGenDispatchError ∧
      st.metrics.rxFlowNewHadExpired + st.metrics.rxFlowNewBadCookie ≤
        st.metrics.rxFlowNewUnseen ∧
      st.metrics.txTotal = st.metrics.txFlowCreateOk + st.metrics.txFlowCreateError +
        st.metrics.txFlowUpdateOk + st.metrics.txFlowUpdateConflict ∧
      st.metrics.txFlowCreateFromExpiredOk ≤ st.metrics.txFlowCreateOk := by
  obtain ⟨h₁, h₂, h₃, h₄, h₅, h₆, h₇⟩ := h.settled
  exact ⟨h₁, h₂, by omega, by omega, h₄, h₅, h₆, h₇⟩

/-- A packet too short for its ports, on a group that a call has just created. -/
theorem group_accounting_short_packet :
    ∃ st, GroupReachable .const st ∧ st.metrics.rxProcessedTotal = 1 ∧
      st.metrics.rxProcessedTotal = st.metrics.rxInternalStateError +
        st.metrics.rxCbpfProgError + st.metrics.rxPacketTooShortError +
        st.metrics.rxDissectedOkTotal :=
  have h : GroupReachable .const _ := .step (.created .roomy ⟨UNSET, UNSET, 0, 1, 0⟩)
    (.quiet (.packet (fun _ => 0) (fun _ => none) 0 ⟨0, ETH_P_IP, 0, [], []⟩))
  ⟨_, h, rfl, (group_accounting h).1⟩

end Udpgrm
