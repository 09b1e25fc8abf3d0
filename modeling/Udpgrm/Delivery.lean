import Udpgrm.Classification
import Udpgrm.Housing

/-! Where packets go: to sockets of the group they arrive at, and to no other. -/
namespace Udpgrm

variable {p : Programs} {s : Sys} {r c now : UInt64} {md : Md} {st : ReuseportStorage}
  {select : UInt64 → Int} {lru : FlowTable}

/-! ### The verdict -/

/-- The socket of the flow, where there is one that can be selected, and otherwise a socket of the
working generation. -/
def verdictOf (select : UInt64 → Int) (tried : Option UInt64) (fresh : UInt64) : Verdict :=
  match tried.filter fun c => decide (select c = 0) with
  | some c => .existing c
  | none => .newFlow (if select fresh = 0 then some fresh else none)

/-- What the reuseport program does with a packet, without its counters. -/
def verdict (p : Programs) (select : UInt64 → Int) (lru : FlowTable) (now : UInt64) (md : Md)
    (st : ReuseportStorage) : Verdict :=
  let d := firstStage p md st
  match d.app with
  | none => .fallback
  | some app => verdictOf select (d.tried lru now st.dis) (newFlowCookie st app md.hash)

theorem verdictOf_newFlow {tried : Option UInt64}
    (h : (tried.filter fun c => decide (select c = 0)) = none) (app mdHash : UInt32) :
    verdictOf select tried (newFlowCookie st app mdHash) =
      (thirdStage select app mdHash st).1 := by
  rw [verdictOf, h, thirdStage_verdict]

theorem verdictOf_existing {tried : Option UInt64} {fresh : UInt64}
    (h : (tried.filter fun c => decide (select c = 0)) = some c) :
    verdictOf select tried fresh = .existing c := by
  rw [verdictOf, h]

theorem haveHash_verdict (hash mdHash : UInt32) :
    (haveHash select lru now hash mdHash st).1 =
      verdictOf select ((Dissected.haveHash hash).tried lru now st.dis)
        (newFlowCookie st 0 mdHash) := by
  unfold haveHash Dissected.tried
  cases hl : lru hash with
  | none =>
    rw [verdictOf_newFlow (by simp [hl])]
    simp only [thirdStage_count]
  | some v =>
    by_cases hf : v.fresh st.dis now = true
    · by_cases hsel : select v.cookie = 0
      · rw [verdictOf_existing (c := v.cookie) (by simp [hl, hf, hsel])]
        simp [hf, hsel]
      · rw [verdictOf_newFlow (by simp [hl, hf, hsel])]
        simp only [ReuseportStorage.count_dis, hf, hsel, if_true, if_false]
        split_ifs <;> simp only [thirdStage_count]
    · rw [verdictOf_newFlow (by simp [hl, hf])]
      simp only [ReuseportStorage.count_dis, hf, Bool.false_eq_true, if_false, thirdStage_count]

theorem haveCookie_verdict (sockCookie : UInt64) (appIdx mdHash : UInt32) :
    (haveCookie select sockCookie appIdx mdHash st).1 =
      verdictOf select (some sockCookie) (newFlowCookie st appIdx mdHash) := by
  unfold haveCookie
  by_cases hsel : select sockCookie = 0
  · rw [verdictOf_existing (c := sockCookie) (by simp [hsel])]
    simp [hsel]
  · rw [verdictOf_newFlow (by simp [hsel])]
    simp only [hsel, if_false]
    split_ifs <;> simp only [thirdStage_count]

theorem udpgrmReuseportProg_verdict :
    (udpgrmReuseportProg p select lru now md st).1 = verdict p select lru now md st := by
  have hfirst : ∀ f, firstStage p md (st.count f) = firstStage p md st := fun f => rfl
  simp only [udpgrmReuseportProg, hfirst, verdict]
  cases firstStage p md st with
  | internalStateError | cbpfProgError | skbLoadBytesError => rfl
  | haveThirdStage =>
    simp only [thirdStage_count]
    exact (verdictOf_newFlow rfl 0 md.hash).symm
  | haveHash hash => exact haveHash_verdict hash md.hash
  | haveCookie cookie app => exact haveCookie_verdict cookie app md.hash

theorem receive_is_verdict {kr : Sock} (hr : s.socks r = some kr)
    (hk : s.groups kr.key = some st) :
    (receive p s r md now).1 = verdict p (s.selectReuseport r) s.lru now md st := by
  simp only [receive, hr, hk, udpgrmReuseportProg_verdict]

/-- `bpf_sk_select_reuseport` succeeds for live sockets of the receiving group only. -/
theorem selected_in_group (h : s.selectReuseport r c = 0) :
    c ∈ s.sockhash ∧ ∃ kr kc, s.socks r = some kr ∧ s.socks c = some kc ∧ kr.key = kc.key ∧
      kr.netnsCookie = kc.netnsCookie := by
  unfold Sys.selectReuseport at h
  split_ifs at h with hc
  · split at h
    · rename_i kr kc hr hk
      split_ifs at h with hg hfam
      · exact ⟨hc, kr, kc, hr, hk, hg⟩
      · exact absurd h (by decide)
      · exact absurd h (by decide)
    · cases h

end Udpgrm
