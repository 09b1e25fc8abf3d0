import Udpgrm.Sockets

/-! How the second stage counts a packet that it could not give to the socket of its flow. -/
namespace Udpgrm

open Transition (run_of_any)

variable {p : Programs} {s : Sys} {r c now : UInt64} {md : Md} {st : ReuseportStorage}
  {sock : Sock} {select : UInt64 → Int}

/-- A cookie of a registered socket that is still there. -/
def Sys.LiveSocket (s : Sys) (c : UInt64) : Prop := c ∈ s.sockhash ∧ (s.socks c).isSome

/-- A live socket outside the reuseport group of socket `r`. -/
def Sys.LiveElsewhere (s : Sys) (r c : UInt64) : Prop :=
  c ∈ s.sockhash ∧ ∃ kr kc, s.socks r = some kr ∧ s.socks c = some kc ∧
    ¬ (kr.key = kc.key ∧ kr.netnsCookie = kc.netnsCookie)

/-- All sockets are of one address family. -/
def Sys.OneFamily (s : Sys) : Prop :=
  ∀ c c' k k', s.socks c = some k → s.socks c' = some k' → k.sk.family = k'.sk.family

/-- The values that stand for no cookie, an empty slot and a bad checksum. -/
def reservedCookie (c : UInt64) : Bool := c = NO_COOKIE ∨ c = 0 ∨ c = BAD_COOKIE

/-- The cookie that the second stage hands to `bpf_sk_select_reuseport`. -/
def Dissected.tried (d : Dissected) (lru : FlowTable) (now : UInt64) (dis : Dissector) :
    Option UInt64 :=
  match d with
  | .haveHash hash => ((lru hash).filter fun v => v.fresh dis now).map (·.cookie)
  | .haveCookie sockCookie _ => some sockCookie
  | _ => none

/-- The socket that a flow entry in force, or the packet, names. -/
def Dissected.named (d : Dissected) (lru : FlowTable) (now : UInt64) (dis : Dissector) :
    Option UInt64 :=
  match d with
  | .haveCookie sockCookie _ => if reservedCookie sockCookie then none else some sockCookie
  | d => d.tried lru now dis

/-- The packet went through the flow table or gave a cookie. -/
def Dissected.secondStage : Dissected → Bool
  | .haveHash _ | .haveCookie _ _ => true
  | _ => false

/-- The counter moved by one if `P` holds and not at all otherwise. -/
def Counted (P : Prop) (before after : ℕ) : Prop :=
  (P → after = before + 1) ∧ (¬ P → after = before)

/-- The three fallbacks of the second stage as the documentation tells them apart. -/
structure Classified (s : Sys) (r now : UInt64) (d : Dissected) (st st' : ReuseportStorage) :
    Prop where
  conflict : Counted (∃ c, d.tried s.lru now st.dis = some c ∧ s.LiveElsewhere r c)
    st.metrics.rxFlowRgConflict st'.metrics.rxFlowRgConflict
  otherError : Counted (∃ c, d.named s.lru now st.dis = some c ∧ ¬ s.LiveSocket c)
    st.metrics.rxFlowOtherError st'.metrics.rxFlowOtherError
  unseen : Counted (d.named s.lru now st.dis = none)
    st.metrics.rxFlowNewUnseen st'.metrics.rxFlowNewUnseen

/-! ### The kernel's answer -/

/-- In one family the helper succeeds, finds nothing, or finds a socket of another group. -/
theorem selectReuseport_cases (hs : s.socks r = some sock) (hf : s.OneFamily) (c : UInt64) :
    (s.selectReuseport r c = 0 ∧ s.LiveSocket c ∧ ¬ s.LiveElsewhere r c) ∨
      (s.selectReuseport r c = -2 ∧ ¬ s.LiveSocket c ∧ ¬ s.LiveElsewhere r c) ∨
      (s.selectReuseport r c = -Sys.EBADFD ∧ s.LiveSocket c ∧ s.LiveElsewhere r c) := by
  by_cases hc : c ∈ s.sockhash
  · cases hk : s.socks c with
    | none =>
      refine .inr (.inl ⟨?_, ?_, ?_⟩)
      · simp [Sys.selectReuseport, hc, hs, hk]
      · rintro ⟨_, h⟩
        simp [hk] at h
      · rintro ⟨_, _, kc, _, h, _⟩
        simp [hk] at h
    | some kc =>
      have hlive : s.LiveSocket c := ⟨hc, by simp [hk]⟩
      by_cases hg : sock.key = kc.key ∧ sock.netnsCookie = kc.netnsCookie
      · refine .inl ⟨by simp [Sys.selectReuseport, hc, hs, hk, hg], hlive, ?_⟩
        rintro ⟨_, kr, kc', hr, hc', hne⟩
        cases hs.symm.trans hr
        cases hk.symm.trans hc'
        exact hne hg
      · have hfam : sock.sk.family = kc.sk.family := hf _ _ _ _ hs hk
        refine .inr (.inr ⟨?_, hlive, hc, sock, kc, hs, hk, hg⟩)
        simp [Sys.selectReuseport, hc, hs, hk, hg, hfam]
  · refine .inr (.inl ⟨by simp [Sys.selectReuseport, hc], ?_, ?_⟩)
    · rintro ⟨h, _⟩
      exact hc h
    · rintro ⟨h, _⟩
      exact hc h

/-! ### The counters -/

/-- The counters of the second stage. -/
def Metrics.fallbacks (m : Metrics) : ℕ × ℕ × ℕ :=
  (m.rxFlowRgConflict, m.rxFlowOtherError, m.rxFlowNewUnseen)

theorem thirdStage_fallbacks (appIdx mdHash : UInt32) (st : ReuseportStorage) :
    (thirdStage select appIdx mdHash st).2.metrics.fallbacks = st.metrics.fallbacks := by
  unfold thirdStage
  simp only
  split <;> rfl

/-- The verdict gives the packet to the socket of its flow. -/
def Verdict.isExisting : Verdict → Bool
  | .existing _ => true
  | _ => false

/-- What the second stage adds to its counters when it does not dispatch the packet. -/
def Dissected.fallback (d : Dissected) (select : UInt64 → Int) (lru : FlowTable) (now : UInt64)
    (dis : Dissector) (m : ℕ × ℕ × ℕ) : ℕ × ℕ × ℕ :=
  match d.tried lru now dis with
  | none => (m.1, m.2.1, m.2.2 + 1)
  | some c =>
    if select c = -EBADF then (m.1 + 1, m.2.1, m.2.2)
    else if d.named lru now dis = none then (m.1, m.2.1, m.2.2 + 1)
    else (m.1, m.2.1 + 1, m.2.2)

theorem haveHash_fallback {lru : FlowTable} {hash mdHash : UInt32}
    (hnot : (haveHash select lru now hash mdHash st).1.isExisting = false) :
    (∀ c, (Dissected.haveHash hash).tried lru now st.dis = some c → select c ≠ 0) ∧
      (haveHash select lru now hash mdHash st).2.metrics.fallbacks =
        (Dissected.haveHash hash).fallback select lru now st.dis st.metrics.fallbacks := by
  cases hv : lru hash with
  | none =>
    simp only [haveHash, hv, thirdStage_fallbacks, Dissected.fallback, Dissected.tried,
      Option.filter_none, Option.map_none]
    exact ⟨by simp, rfl⟩
  | some v =>
    by_cases hfresh : v.fresh st.dis now = true
    · have htried : (Dissected.haveHash hash).tried lru now st.dis = some v.cookie := by
        simp [Dissected.tried, hv, hfresh]
      have hnamed : (Dissected.haveHash hash).named lru now st.dis = some v.cookie := htried
      simp only [haveHash, hv, ReuseportStorage.count_dis, hfresh, if_true] at hnot ⊢
      by_cases h0 : select v.cookie = 0
      · simp [h0, Verdict.isExisting] at hnot
      · refine ⟨fun c hc => ?_, ?_⟩
        · cases htried.symm.trans hc
          exact h0
        · simp only [Dissected.fallback, htried, hnamed, h0, if_false, reduceCtorEq]
          split <;> rw [thirdStage_fallbacks] <;> rfl
    · have htried : (Dissected.haveHash hash).tried lru now st.dis = none := by
        simp [Dissected.tried, hv, hfresh]
      simp only [haveHash, hv, ReuseportStorage.count_dis, hfresh, if_false, thirdStage_fallbacks,
        Dissected.fallback, htried, Bool.false_eq_true]
      exact ⟨by simp, rfl⟩

theorem haveCookie_fallback {lru : FlowTable} {sockCookie : UInt64} {appIdx mdHash : UInt32}
    (hnot : (haveCookie select sockCookie appIdx mdHash st).1.isExisting = false) :
    (∀ c, (Dissected.haveCookie sockCookie appIdx).tried lru now st.dis = some c →
        select c ≠ 0) ∧
      (haveCookie select sockCookie appIdx mdHash st).2.metrics.fallbacks =
        (Dissected.haveCookie sockCookie appIdx).fallback select lru now st.dis
          st.metrics.fallbacks := by
  have hnamed : (Dissected.haveCookie sockCookie appIdx).named lru now st.dis = none ↔
      (sockCookie = NO_COOKIE ∨ sockCookie = 0 ∨ sockCookie = BAD_COOKIE) := by
    simp only [Dissected.named, reservedCookie, decide_eq_true_eq]
    split <;> simp_all
  simp only [haveCookie] at hnot ⊢
  by_cases h0 : select sockCookie = 0
  · simp [h0, Verdict.isExisting] at hnot
  · refine ⟨fun c hc => ?_, ?_⟩
    · cases hc
      exact h0
    · simp only [Dissected.fallback, Dissected.tried, hnamed, h0, if_false]
      split
      · rw [thirdStage_fallbacks]
        rfl
      · split <;> rw [thirdStage_fallbacks] <;> rfl

/-- A packet that passed the first stage and was not dispatched to the socket of its flow. -/
theorem udpgrmReuseportProg_fallback {lru : FlowTable}
    (hsec : (firstStage p md st).secondStage = true)
    (hnot : (udpgrmReuseportProg p select lru now md st).1.isExisting = false) :
    (∀ c, (firstStage p md st).tried lru now st.dis = some c → select c ≠ 0) ∧
      (udpgrmReuseportProg p select lru now md st).2.metrics.fallbacks =
        (firstStage p md st).fallback select lru now st.dis st.metrics.fallbacks := by
  have hstage : ∀ f, firstStage p md (st.count f) = firstStage p md st := fun _ => rfl
  simp only [udpgrmReuseportProg, hstage] at hnot ⊢
  cases hd : firstStage p md st with
  | haveHash hash =>
    simp only [hd] at hnot ⊢
    exact haveHash_fallback hnot
  | haveCookie sockCookie appIdx =>
    simp only [hd] at hnot ⊢
    exact haveCookie_fallback hnot
  | _ => simp [hd, Dissected.secondStage] at hsec

/-! ### Classification -/

theorem Dissected.tried_of_named {d : Dissected} {lru : FlowTable} {dis : Dissector}
    (h : d.named lru now dis = some c) : d.tried lru now dis = some c := by
  cases d with
  | haveCookie sockCookie appIdx =>
    simp only [Dissected.named] at h
    split at h
    · cases h
    · exact h
  | _ => exact h

/-- The helper answers -EBADFD for a socket of another group and the program tests for -EBADF,
so that a packet is counted as documented exactly if its cookie is not that of a live socket in
another reuseport group. -/
theorem failed_dispatch_classified_iff (hs : s.socks r = some sock) (hf : s.OneFamily)
    (hsec : (firstStage p md st).secondStage = true)
    (hnot : (udpgrmReuseportProg p (s.selectReuseport r) s.lru now md st).1.isExisting = false) :
    Classified s r now (firstStage p md st) st
        (udpgrmReuseportProg p (s.selectReuseport r) s.lru now md st).2 ↔
      ¬ ∃ c, (firstStage p md st).tried s.lru now st.dis = some c ∧ s.LiveElsewhere r c := by
  obtain ⟨hne, hcount⟩ := udpgrmReuseportProg_fallback hsec hnot
  generalize (udpgrmReuseportProg p (s.selectReuseport r) s.lru now md st).2 = st' at hcount
  generalize firstStage p md st = d at hne hcount
  obtain ⟨hrg, hrest⟩ := Prod.ext_iff.mp hcount
  obtain ⟨hother, hunseen⟩ := Prod.ext_iff.mp hrest
  cases ht : d.tried s.lru now st.dis with
  | none =>
    have hn : d.named s.lru now st.dis = none := by
      cases hn : d.named s.lru now st.dis with
      | none => rfl
      | some c => rw [Dissected.tried_of_named hn] at ht; cases ht
    simp only [Dissected.fallback, ht, Metrics.fallbacks] at hrg hother hunseen
    constructor
    · rintro _ ⟨c, hc, _⟩
      cases hc
    · intro _
      refine ⟨?_, ?_, ?_⟩
      · simp [Counted, ht, hrg]
      · simp [Counted, hn, hother]
      · simp [Counted, hn, hunseen]
  | some c =>
    rcases selectReuseport_cases hs hf c with ⟨h0, _, _⟩ | ⟨h2, hdead, hno⟩ | ⟨h77, _, hyes⟩
    · exact absurd h0 (hne c ht)
    · have hx : ¬ s.selectReuseport r c = -EBADF := by rw [h2]; decide
      simp only [Dissected.fallback, ht, hx, if_false, Metrics.fallbacks] at hrg hother hunseen
      constructor
      · rintro _ ⟨c', hc', h⟩
        cases hc'
        exact hno h
      · intro _
        cases hn : d.named s.lru now st.dis with
        | none =>
          simp only [hn, if_true] at hrg hother hunseen
          refine ⟨?_, ?_, ?_⟩
          · simp [Counted, ht, hno, hrg]
          · simp [Counted, hn, hother]
          · simp [Counted, hn, hunseen]
        | some c' =>
          cases ht.symm.trans (Dissected.tried_of_named hn)
          simp only [hn, if_false, reduceCtorEq] at hrg hother hunseen
          refine ⟨?_, ?_, ?_⟩
          · simp [Counted, ht, hno, hrg]
          · simp [Counted, hn, hdead, hother]
          · simp [Counted, hn, hunseen]
    · have hx : ¬ s.selectReuseport r c = -EBADF := by rw [h77]; decide
      -- the conflict counter stands still although the socket lives in another group
      have hrg' : st'.metrics.rxFlowRgConflict = st.metrics.rxFlowRgConflict := by
        simp only [Dissected.fallback, ht, hx, if_false, Metrics.fallbacks] at hrg
        split at hrg <;> exact hrg
      constructor
      · intro hclass
        have := hclass.conflict.1 ⟨c, ht, hyes⟩
        omega
      · intro h
        exact absurd ⟨c, rfl, hyes⟩ h

/-! ### A collision in the flow table -/

theorem family_run {as : List Action} {t : Sys} {family : UInt32} (h : Run p Sys.initial as t)
    (ha : ∀ c sk netnsCookie, .socket c sk netnsCookie ∈ as → sk.family = family) :
    ∀ c sock, t.socks c = some sock → sock.sk.family = family := by
  suffices ∀ {s as t}, Run p s as t →
      (∀ c sk netnsCookie, .socket c sk netnsCookie ∈ as → sk.family = family) →
      (∀ c sock, s.socks c = some sock → sock.sk.family = family) →
      ∀ c sock, t.socks c = some sock → sock.sk.family = family from
    this h ha (by simp [Sys.initial])
  intro s as t h
  induction h with
  | refl => exact fun _ hs => hs
  | @stepL s u t a as hstep _ ih =>
    intro ha hs
    apply ih fun c sk netnsCookie hm => ha c sk netnsCookie (List.mem_cons_of_mem _ hm)
    intro c sock' hc'
    cases hc : s.socks c with
    | none =>
      obtain ⟨sk, netnsCookie, rfl, _, rfl⟩ := sock_new hstep hc hc'
      exact ha c sk netnsCookie List.mem_cons_self
    | some sock =>
      obtain ⟨sock'', hc'', hss⟩ := sock_step hstep hc
      cases hc'.symm.trans hc''
      rw [hss.identity.1]
      exact hs c sock hc

/-- A socket is registered at each of two addresses. -/
def twoGroups : List Action :=
  Action.openBound 1 ++
    [.socket 2 .loopback444 5, .bind 2 ⟨AF_INET, IPPROTO_UDP, some 1, true⟩,
      .call 1 201 [0, 0, 0, 0], .daemon 10, .call 2 201 [0, 0, 0, 0], .daemon 11]

/-- Socket 1 sends to a client. -/
def Action.toClient : Action := .sendmsg 1 (.inet [10, 0, 0, 1] [0, 53]) ⟨0, 0, true⟩

theorem twoGroups_family {as : List Action} (has : as ⊆ [Action.toClient]) {t : Sys}
    (h : Run p Sys.initial (twoGroups ++ as) t) : t.OneFamily := by
  have hfam : ∀ c sk netnsCookie, .socket c sk netnsCookie ∈ twoGroups ++ as →
      sk.family = AF_INET := by
    intro c sk netnsCookie hm
    rcases List.mem_append.mp hm with hm | hm
    · simp only [twoGroups, Action.openBound, List.cons_append, List.nil_append, List.mem_cons,
        Action.socket.injEq, reduceCtorEq, List.not_mem_nil, or_false, false_or, Action.call,
        Action.daemon] at hm
      rcases hm with ⟨_, rfl, _⟩ | ⟨_, rfl, _⟩ <;> rfl
    · have := List.mem_singleton.mp (has hm)
      cases this
  intro c c' k k' hk hk'
  rw [family_run h hfam c k hk, family_run h hfam c' k' hk']

/-- An IPv4 packet from 10.0.0.1 port 53. -/
def Md.fromClient : Md :=
  ⟨0, ETH_P_IP, 8, List.replicate 12 0 ++ [10, 0, 0, 1], [0, 53, 1, 188, 0, 8, 0, 0]⟩

/-- A packet of an unknown flow is counted as documented. -/
theorem failed_dispatch_classified_unseen :
    ∃ s st, Run .const Sys.initial twoGroups s ∧
      s.groups (skeyFromBpfSock .loopback444) = some st ∧
      Classified s 2 0 (firstStage .const .fromClient st) st
        (udpgrmReuseportProg .const (s.selectReuseport 2) s.lru 0 .fromClient st).2 := by
  obtain ⟨s, hs, hx⟩ := run_of_any (execute .const) Sys.initial twoGroups
    (fun s : Sys => (s.socks 2).isSome &&
      (s.groups (skeyFromBpfSock .loopback444)).any fun st : ReuseportStorage =>
        decide ((firstStage .const .fromClient st).secondStage = true ∧
          (firstStage .const .fromClient st).tried s.lru 0 st.dis = none ∧
          (udpgrmReuseportProg .const (s.selectReuseport 2) s.lru 0 .fromClient st).1.isExisting =
            false)) (by decide +kernel)
  rw [Bool.and_eq_true, Option.isSome_iff_exists, Option.any_eq_true] at hx
  obtain ⟨⟨sock, hsock⟩, st, hst, hx⟩ := hx
  obtain ⟨hsec, htried, hnot⟩ := of_decide_eq_true hx
  refine ⟨s, st, hs, hst, (failed_dispatch_classified_iff hsock ?_ hsec hnot).mpr ?_⟩
  · have hs' : Run .const Sys.initial (twoGroups ++ []) s := by
      rw [List.append_nil]
      exact hs
    exact twoGroups_family (List.nil_subset _) hs'
  · rintro ⟨c, hc, _⟩
    simp [htried] at hc

/-- The flow entry of socket 1 collides with that of a flow to socket 2. The packet is counted
under `rx_flow_other_error` although the socket of the entry lives in another group. -/
theorem foreign_flow_counted_as_other_error :
    ∃ s st, Run .const Sys.initial (twoGroups ++ [.toClient]) s ∧ s.OneFamily ∧
      s.groups (skeyFromBpfSock .loopback444) = some st ∧
      (firstStage .const .fromClient st).tried s.lru 0 st.dis = some 1 ∧ s.LiveElsewhere 2 1 ∧
      ¬ Classified s 2 0 (firstStage .const .fromClient st) st
        (udpgrmReuseportProg .const (s.selectReuseport 2) s.lru 0 .fromClient st).2 := by
  obtain ⟨s, hs, hx⟩ := run_of_any (execute .const) Sys.initial (twoGroups ++ [.toClient])
    (fun s : Sys => decide (1 ∈ s.sockhash) &&
      (s.socks 2).any (fun kr : Sock => (s.socks 1).any fun kc : Sock =>
        decide (kr.key ≠ kc.key)) &&
      (s.groups (skeyFromBpfSock .loopback444)).any fun st : ReuseportStorage =>
        decide ((firstStage .const .fromClient st).tried s.lru 0 st.dis = some 1 ∧
          (udpgrmReuseportProg .const (s.selectReuseport 2) s.lru 0 .fromClient
            st).2.metrics.rxFlowRgConflict = st.metrics.rxFlowRgConflict)) (by decide +kernel)
  simp only [Bool.and_eq_true, Option.any_eq_true, decide_eq_true_eq] at hx
  obtain ⟨⟨hmem, kr, hr, kc, hc, hne⟩, st, hst, htried, hcount⟩ := hx
  have hlive : s.LiveElsewhere 2 1 := ⟨hmem, kr, kc, hr, hc, fun h => hne h.1⟩
  refine ⟨s, st, hs, twoGroups_family (by simp) hs, hst, htried, hlive, fun hclass => ?_⟩
  have := hclass.conflict.1 ⟨1, htried, hlive⟩
  omega

end Udpgrm
