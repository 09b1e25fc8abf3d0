import Udpgrm.CbpfPrograms
import Udpgrm.CbpfSafety
import Udpgrm.Delivery

/-! Connections of a QUIC server behind `cbpf-naive-quic.sh`: packets that carry the cookie of a
socket reach it. -/
namespace Udpgrm

variable {p : Programs} {s : Sys} {c : UInt64}

theorem cbpf_admitted {d : Dissector} (hkind : d.kind = some .cbpf)
    (hadm : dissectorFail d = false) : d.bespokeDigest = 0 ∧ d.maxApps ≤ 4 := by
  simp only [dissectorFail, hkind, Bool.or_eq_false_iff, decide_eq_false_iff_not, not_not,
    not_lt] at hadm
  exact ⟨hadm.2, hadm.1.2⟩

/-- A packet for which the first stage finds the cookie that an open socket reports goes to this
socket. -/
theorem dissected_routes {gen idx : UInt32} {grm : UInt16} (hp : Published s)
    (ho : s.isOpen c = true) (hg : getSocketGen s c = some (gen, idx, grm)) (hi : idx ≠ UNSET) :
    ∃ sock st, s.socks c = some sock ∧ s.groups sock.key = some st ∧
      ∀ r kr md now app, s.socks r = some kr → kr.key = sock.key →
        kr.netnsCookie = sock.netnsCookie →
        firstStage p md st = .haveCookie (cookieOfGrm st grm) app →
        (receive p (s.tick now) r md now).1 = .existing c := by
  obtain ⟨sock, hs, hg⟩ := Option.bind_eq_some_iff.mp hg
  obtain ⟨ss, hss, hg⟩ := Option.map_eq_some_iff.mp hg
  cases hg
  have hopen : sock.isOpen = true := by simpa [Sys.isOpen, hs] using ho
  obtain ⟨hlive, st, hk, hslot⟩ := hp c sock ss hs hopen hss hi
  refine ⟨sock, st, hs, hk, ?_⟩
  intro r kr md now app hr hkey hnetns hfirst
  have hcookie : cookieOfGrm st (grmCookiePack (toWrkGen (xmaxApps s sock.key) ss.sockApp
      ss.sockGen) ss.sockIdx) = c := by
    rw [xmaxApps_of_group hk, cookieOfGrm_pack]
    exact hslot
  rw [hcookie] at hfirst
  have hsel : (s.tick now).selectReuseport r c = 0 :=
    selectReuseport_eq_zero hr hs hlive hkey hnetns
  have hgroup : s.groups kr.key = some st := hkey ▸ hk
  rw [receive_is_verdict (s := s.tick now) hr hgroup, verdict, hfirst]
  exact verdictOf_existing (by simp [Dissected.tried, hsel])

/-- A QUIC packet whose destination connection ID starts with the cookie: with a short header, or
with a long one and an ID of 16 bytes. -/
def CarriesCookie (data : List UInt8) (grm : UInt16) : Prop :=
  (data.getD 8 0 &&& 0x80 = 0 ∧ 11 ≤ data.length ∧ BigEndian.u16 data 9 = grm) ∨
    (data.getD 8 0 &&& 0x80 ≠ 0 ∧ 16 ≤ data.length ∧ data.getD 13 0 = 16 ∧
      BigEndian.u16 data 14 = grm)

theorem naiveQuicDissected_cookie {st : ReuseportStorage} {data : List UInt8} {grm : UInt16}
    (h : CarriesCookie data grm) :
    naiveQuicDissected st data = .haveCookie (cookieOfGrm st grm) 0 := by
  unfold naiveQuicDissected cookieDissected
  rcases h with ⟨hform, hlength, rfl⟩ | ⟨hform, hlength, hid, rfl⟩
  · rw [if_neg (by omega), if_pos hform, if_neg (by omega)]
  · rw [if_neg (by omega), if_neg hform, if_neg (by omega), if_pos hid, if_neg (by omega)]

/-- While generations and indices stay together, the packets of a connection whose server put the
reported cookie in front of its connection IDs reach the socket of that server. -/
theorem naive_quic_keeps_connections {as : List Action} {gen idx : UInt32} {grm : UInt16}
    (h : Transition.Run ((system p.withInterpreter).restrict fun s a => keepsRow s a = true)
      Sys.initial as s)
    (ho : s.isOpen c = true) (hg : getSocketGen s c = some (gen, idx, grm)) (hi : idx ≠ UNSET) :
    ∃ sock st, s.socks c = some sock ∧ s.groups sock.key = some st ∧
      (st.dis.kind = some .cbpf → st.dis.program = cbpfNaiveQuic →
        ∀ r kr md now, s.socks r = some kr → kr.key = sock.key →
          kr.netnsCookie = sock.netnsCookie → md.WellFormed → CarriesCookie md.data grm →
          (receive p.withInterpreter (s.tick now) r md now).1 = .existing c) := by
  obtain ⟨hw, hp⟩ := published_reachable h
  obtain ⟨sock, st, hs, hk, hroute⟩ := dissected_routes (p := p.withInterpreter) hp ho hg hi
  refine ⟨sock, st, hs, hk, ?_⟩
  intro hkind hprog r kr md now hr hkey hnetns hmd hcarries
  have hadm := groupReachable_admitted (groups_reachable h.unrestrict _ st hk) hkind
  obtain ⟨hdigest, hmax⟩ := cbpf_admitted hkind hadm
  refine hroute r kr md now 0 hr hkey hnetns ?_
  rw [firstStage_naive_quic hmd hkind hdigest hmax hprog, naiveQuicDissected_cookie hcarries]

/-- The structure that configures `cbpf-naive-quic.sh` for one application. -/
def naiveQuicOption : List UInt8 :=
  LittleEndian.ofNat 4 1 ++ LittleEndian.ofNat 4 0 ++ LittleEndian.ofNat 4 1 ++
    LittleEndian.ofNat 4 0 ++ List.replicate 100 0 ++ LittleEndian.ofNat 4 12 ++
    (cbpfNaiveQuic.map sockFilterOf).flatMap SockFilter.toBytes ++ List.replicate 416 0

/-- A socket sets up the group, asks for generation 1 and is registered. -/
def naiveQuicRun : List Action :=
  Action.openBound 1 ++ [.call 1 202 naiveQuicOption, .daemon 9, .call 1 201 [1, 0, 0, 0],
    .daemon 10]

/-- A packet with a short header and the cookie of generation 1, index 0. -/
def shortCookieMd : Md :=
  ⟨0, 0, 11, [], [0, 0, 0, 0, 0, 0, 0, 0, 0x40, (grmCookiePack 1 0 >>> 8).toUInt8,
    (grmCookiePack 1 0).toUInt8]⟩

theorem naive_quic_keeps_connections_first : ∃ s,
    Transition.Run ((system (Programs.withInterpreter .const)).restrict fun s a =>
      keepsRow s a = true) Sys.initial naiveQuicRun s ∧
      (receive (Programs.withInterpreter .const) (s.tick 0) 1 shortCookieMd 0).1 = .existing 1 := by
  obtain ⟨s, hs, hx⟩ := Transition.run_restrict_of_any (execute (Programs.withInterpreter .const))
    keepsRow Sys.initial naiveQuicRun (fun s : Sys => s.isOpen 1 &&
      decide (getSocketGen s 1 = some (1, 0, grmCookiePack 1 0)) &&
      (s.socks 1).any fun sock : Sock => (s.groups sock.key).any fun st : ReuseportStorage =>
        decide (st.dis.kind = some .cbpf ∧ st.dis.program = cbpfNaiveQuic)) (by decide +kernel)
  simp only [Bool.and_eq_true, decide_eq_true_eq, Option.any_eq_true] at hx
  obtain ⟨⟨ho, hg⟩, sock, hsock, st, hk, hkind, hprog⟩ := hx
  obtain ⟨sock', st', hsock', hk', hroute⟩ := naive_quic_keeps_connections hs ho hg (by decide)
  cases hsock.symm.trans hsock'
  cases hk.symm.trans hk'
  exact ⟨s, hs, hroute hkind hprog 1 sock shortCookieMd 0 hsock rfl rfl (by decide)
    (.inl (by decide))⟩

end Udpgrm
