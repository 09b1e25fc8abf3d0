import Udpgrm.ConnectionIds
import Udpgrm.CookieRouting
import Udpgrm.SniRouting

/-! Servers behind the dissector for QUIC: the first packet of a connection goes to the application
of the host it asks for, and the others to the socket in their connection ID. -/
namespace Udpgrm

open LittleEndian (field)
open QuicInitial (VarintSize)
open TlsHello (Extension Hello hostName length_hostName)

variable {p : Programs} {s : Sys} {md : Md} {st : ReuseportStorage} {linear : Md → ℕ}
  {page : Md → Scratch}

/-! ### The first stage -/

/-- A group with this dissector. -/
structure QuicGroup (st : ReuseportStorage) : Prop where
  kind : st.dis.kind = some .bespoke
  digest : st.dis.bespokeDigest = 0xDEAD
  maxApps : st.dis.maxApps ≤ 4

theorem firstStage_quic {v : UInt32} (hq : QuicGroup st)
    (h : (run0xDEAD md (linear md) st.dis (page md)).2 = .ok v) :
    firstStage (p.withQuic linear page) md st = dissectedBy st (.ret v) := by
  have hrun : (p.withQuic linear page).runBespokeByDigest md 0xDEAD st.dis = (.ok, v) := by
    simp only [Programs.withQuic, runBespokeByDigest, if_true, h]
  have hdigest : ¬ (0xDEAD : UInt32) = 0 := by decide
  simp only [firstStage, hq.kind, dissectorCbpf, hq.digest, if_neg hdigest, hrun, dissectedBy]
  by_cases happ : v - 0x80000000 < st.dis.maxApps
  · simp [happ]
  · by_cases hlarge : v > 0xffff <;> simp [happ, hlarge]

theorem dissectedBy_entry (e : SniEntry) (h : e.1.toUInt32 < st.dis.maxApps) :
    dissectedBy st (.ret (appRetval (some e))) = .haveCookie NO_COOKIE e.1.toUInt32 := by
  have hbyte : e.1.toNat < 2 ^ 31 := lt_trans e.1.toNat_lt (by decide)
  have hor : (0x80000000 ||| e.1.toUInt32).toNat = 0x80000000 + e.1.toNat := by
    rw [UInt32.toNat_or, UInt8.toNat_toUInt32]
    exact (Nat.two_pow_add_eq_or_of_lt hbyte 1).symm
  have hsub : (0x80000000 ||| e.1.toUInt32) - 0x80000000 = e.1.toUInt32 := by
    apply UInt32.toNat_inj.mp
    rw [UInt32.toNat_sub_of_le, hor, UInt8.toNat_toUInt32]
    · exact Nat.add_sub_cancel_left ..
    · rw [UInt32.le_iff_toNat_le, hor]
      exact Nat.le_add_right ..
  rw [appRetval_some, dissectedBy, hsub, if_pos h]

/-! ### The first packet of a connection -/

/-- An Initial packet of a client that asks for a host. The ClientHello starts the payload, and as
much as is ever copied of the name is in the first 1024 bytes. -/
structure ClientInitial (host : List UInt8) where
  packet : QuicInitial.Packet
  wellFormed : packet.WellFormed
  dcid : 8 ≤ packet.dcid.length
  token : packet.token.length ≤ 255
  number : packet.number < 256 ^ packet.numberLength
  hello : Hello
  helloWellFormed : hello.WellFormed
  count : hello.extensions.length ≤ 32
  offsetSize : VarintSize
  lengthSize : VarintSize
  frameLength : ℕ
  frameLength_lt : frameLength < lengthSize.limit
  before : List Extension
  after : List Extension
  extensions : hello.extensions = before ++ ⟨0, hostName host⟩ :: after
  first : ∀ e ∈ before, e.type ≠ 0
  padding : List UInt8
  payload : packet.payload = hello.frame offsetSize lengthSize frameLength ++ padding
  inBuffer : (hello.frame offsetSize lengthSize frameLength).length ≤ 1024
  room :
    nameOff (hello.opening offsetSize lengthSize frameLength) hello.extensions + SNI_SIZE ≤ 1024

namespace ClientInitial

variable {host : List UInt8} (ci : ClientInitial host)

def frame : List UInt8 := ci.hello.frame ci.offsetSize ci.lengthSize ci.frameLength

/-- The packet arrives behind a UDP header, all of it linear. -/
structure Arrives (md : Md) : Prop where
  data : ∃ udp rest, udp.length = 8 ∧ md.data = datagram udp ci.packet rest
  length : md.len.toNat = md.data.length

variable {ci}

/-- The buffer starts with the ClientHello, whatever earlier packets left in it. -/
theorem nameIn_overlaid {old : List UInt8} (hold : old.length = 1024) :
    nameIn (overlaid (ci.packet.payload.take 1024) old) =
      some (zeroPadded (BESPOKE_SNI_LEN - 1) host) := by
  have hframe : ci.frame.length ≤ 1024 := ci.inBuffer
  have htext : ci.packet.payload.take 1024 =
      ci.frame ++ ci.padding.take (1024 - ci.frame.length) := by
    rw [ci.payload, ← frame, List.take_append, List.take_of_length_le hframe]
  have hlength : (overlaid (ci.packet.payload.take 1024) old).length = 1024 :=
    length_overlaid (by simp) hold
  obtain ⟨rest, hbuf⟩ : ∃ rest, overlaid (ci.packet.payload.take 1024) old = ci.frame ++ rest := by
    rw [overlaid, htext, List.append_assoc, List.take_append, List.take_of_length_le hframe]
    exact ⟨_, rfl⟩
  rw [hbuf] at hlength ⊢
  have hwalk : clientHelloSni (ci.frame ++ rest) = _ :=
    clientHelloSni_present ci.helloWellFormed ci.count ci.frameLength_lt ci.extensions ci.first
  rw [← frame, hlength, if_pos ci.room] at hwalk
  refine nameIn_hostName hwalk hlength ?_
  have hname : field (ci.frame ++ rest) _ (hostName host).length = _ :=
    field_name ci.extensions ci.first le_rfl
  have hinside := congrArg List.length hname
  rw [field, List.length_take, List.length_drop, hlength, List.length_take] at hinside
  rw [hname, List.take_of_length_le le_rfl, List.take_of_length_le (by omega)]

theorem length_payload (ci : ClientInitial host) : 5 ≤ ci.packet.payload.length := by
  have hsplit : ci.packet.payload = _ := ci.payload.trans (frame_split ci.extensions)
  have hname := length_hostName host
  rw [hsplit]
  simp only [List.length_append]
  omega

theorem length_datagram {udp rest : List UInt8} (hudp : udp.length = 8) :
    40 ≤ (datagram udp ci.packet rest).length := by
  have hwell := ci.wellFormed
  have hdcid := ci.dcid
  have hlength : ci.packet.length =
      ci.packet.numberLength + ci.packet.payload.length + ci.packet.tag.length := rfl
  have hsample := hwell.sample
  have hsealed : ci.packet.sealed.length = _ := QuicInitial.Packet.length_sealed
  have hnumber := hwell.length_protectedNumber
  have hfields : 5 + ci.packet.dcid.length ≤ ci.packet.fields.length := by
    simp [QuicInitial.Packet.fields]
    omega
  simp only [datagram, QuicInitial.Packet.wire, List.length_append, List.length_cons]
  omega

/-- The dissector finds the first entry that starts like the host. -/
theorem run0xDEAD_client {entries : List SniEntry} {dis : Dissector} (ha : ci.Arrives md)
    (hz : 0 ∉ host) (hc : Configured dis entries) (scratch : Scratch) :
    (run0xDEAD md md.data.length dis scratch).2 =
      .ok (appRetval (entries.find? (fun e => SameStart e.2 host))) := by
  obtain ⟨udp, rest, hudp, hdata⟩ := ha.data
  have hpayload := ci.length_payload
  have htag := ci.wellFormed.tag
  have hlength : ci.packet.length =
      ci.packet.numberLength + ci.packet.payload.length + ci.packet.tag.length := rfl
  have hpos : 1 ≤ ci.packet.numberLength := by
    have hnumber := ci.wellFormed.numberLength
    omega
  have h40 : 40 ≤ md.data.length := hdata ▸ length_datagram hudp
  have hfits : HeaderFits (datagram udp ci.packet rest) :=
    datagram_fits hudp ci.wellFormed ci.dcid ci.token (by omega)
  have hlook : lookedAt md md.data.length = datagram udp ci.packet rest :=
    (lookedAt_linear ha.length).trans hdata
  obtain ⟨fast, -, hrun⟩ := run0xDEAD_datagram hudp ci.wellFormed ci.dcid ci.number (by omega)
    hdata ⟨ha.length, by omega, le_rfl⟩ h40 hlook hfits
  rw [hrun, oldBytes_linear ha.length, nameIn_overlaid (by simp), sniRetval, Option.elim_some,
    matchSni_eq hc hz]

end ClientInitial

/-- The host is configured for the application, and no other host starts with the same 61 bytes. -/
structure Serves (entries : List SniEntry) (app : UInt8) (host : List UInt8) : Prop where
  mem : (app, host) ∈ entries
  only : ∀ e ∈ entries, SameStart e.2 host → e = (app, host)

theorem Serves.find {entries : List SniEntry} {app : UInt8} {host : List UInt8}
    (h : Serves entries app host) :
    entries.find? (fun e => SameStart e.2 host) = some (app, host) := by
  cases hfind : entries.find? (fun e => SameStart e.2 host) with
  | none =>
    have hne : ¬ SameStart host host := by simpa using List.find?_eq_none.mp hfind _ h.mem
    exact absurd rfl hne
  | some e =>
    have hsame : SameStart e.2 host := by simpa using List.find?_some hfind
    rw [h.only e (List.mem_of_find?_eq_some hfind) hsame]

/-- A client's first packet is given to a live socket of the application that its host is configured
for, in the group and the namespace it arrived at, or to none. -/
theorem host_reaches_application {as : List Action} {entries : List SniEntry} {app : UInt8}
    {host : List UInt8} {ci : ClientInitial host} {r now : UInt64} {kr : Sock}
    (h : Transition.Run ((system (p.withQuic linear page)).restrict fun s a => keepsApp s a = true)
      Sys.initial as s)
    (hr : s.socks r = some kr) (hk : s.groups kr.key = some st) (hq : QuicGroup st)
    (hc : Configured st.dis entries) (hserves : Serves entries app host)
    (happ : app.toUInt32 < st.dis.maxApps) (hno : s.socks NO_COOKIE = none)
    (ha : ci.Arrives md) (hlin : linear md = md.data.length) :
    let target := s.newFlowTarget kr.key r app.toUInt32 md.hash
    (receive (p.withQuic linear page) (s.tick now) r md now).1 = .newFlow target ∧
      ∀ c, target = some c → c ∈ s.sockhash ∧ s.alive c = true ∧
        Belongs s kr.key c app.toUInt32 ∧
        ∃ sock, s.socks c = some sock ∧ sock.netnsCookie = kr.netnsCookie := by
  have hs := appsOk_run h
  have hz : 0 ∉ host := (hc.names _ hserves.mem).2
  have hfirst : firstStage (p.withQuic linear page) md st = .haveCookie NO_COOKIE app.toUInt32 := by
    rw [← dissectedBy_entry (app, host) happ]
    apply firstStage_quic hq
    rw [hlin, ClientInitial.run0xDEAD_client ha hz hc, hserves.find]
  have hselect : ¬ s.selectReuseport r NO_COOKIE = 0 := by
    intro hsel
    obtain ⟨-, _, kc, -, hkc, -⟩ := selected_in_group hsel
    cases hno.symm.trans hkc
  refine ⟨?_, ?_⟩
  · rw [receive_is_verdict (s := s.tick now) hr hk, verdict, hfirst, Sys.newFlowTarget_eq hk]
    have hunknown : ((Dissected.haveCookie NO_COOKIE app.toUInt32).tried s.lru now st.dis).filter
        (fun c => decide (s.selectReuseport r c = 0)) = none := by
      simp [Dissected.tried, hselect]
    exact (verdictOf_newFlow hunknown _ _).trans (thirdStage_verdict ..)
  · intro c hc
    rw [Sys.newFlowTarget_eq hk] at hc
    split_ifs at hc with hsel
    cases hc
    obtain ⟨hmem, sock, hsock, hkey, hnetns⟩ := selectReuseport_zero hr hsel
    have hmax : st.dis.maxApps.toNat ≤ MAX_APPS := hq.maxApps
    exact ⟨hmem, hs.alive _ hmem, hs.row_belongs hk hmax happ (hs.wf.ne_zero _ sock hsock), sock,
      hsock, hnetns⟩

/-- A client of the host `h`, with the ClientHello in one frame. -/
def namedClient (h : List UInt8) (hh : h.length ≤ 255) : ClientInitial h where
  packet := plainPacket 0 (namedPayload h)
  wellFormed := plainPacket_wellFormed (by decide) (length_namedPayload hh)
  dcid := (by decide : 8 ≤ 8)
  token := Nat.zero_le _
  number := (by decide : 0 < 256 ^ 1)
  hello := namedHello h
  helloWellFormed := namedHello_wellFormed hh
  count := (by decide : 1 ≤ 32)
  offsetSize := .one
  lengthSize := .two
  frameLength := (namedHello h).length + 4
  frameLength_lt := namedHello_length hh
  before := []
  after := []
  extensions := rfl
  first := fun e he => absurd he List.not_mem_nil
  padding := List.replicate (1105 - h.length) 0
  payload := rfl
  inBuffer := (length_namedFrame hh).trans_le (by omega)
  room := by
    have hes : (namedHello h).extensions = [] ++ ⟨0, hostName h⟩ :: [] := rfl
    rw [nameOff_eq _ hes (by simp), namedHello_opening hh]
    decide

theorem namedClient_arrives {h : List UInt8} (hh : h.length ≤ 255) :
    (namedClient h hh).Arrives (plainMd 0 (namedPayload h)) where
  data := ⟨List.replicate 8 0, [], rfl, rfl⟩
  length := (plainMd_length (by decide) (length_namedPayload hh)).symm

/-- The structure for two applications, the second of which is for one host. -/
def hostOption (host : List UInt8) : List UInt8 :=
  LittleEndian.ofNat 4 3 ++ LittleEndian.ofNat 4 0 ++ LittleEndian.ofNat 4 2 ++
    LittleEndian.ofNat 4 0xDEAD ++ List.replicate 100 0 ++ LittleEndian.ofNat 4 1 ++
    sniEntryBytes (1, host) ++ List.replicate 448 0

/-- A socket is registered for generation 0 of the second application. -/
def hostRun (host : List UInt8) : List Action :=
  Action.openBound 1 ++ [.call 1 202 (hostOption host), .daemon 9, .call 1 204 [1, 0, 0, 0],
    .call 1 201 [0, 0, 0, 0], .daemon 10]

theorem host_reaches_application_second : ∃ s,
    Transition.Run ((system (Programs.const.withQuic (fun md => md.data.length)
      (fun _ => zeroPage))).restrict fun s a => keepsApp s a = true) Sys.initial
      (hostRun (longName 4)) s ∧
      (receive (Programs.const.withQuic (fun md => md.data.length) (fun _ => zeroPage)) (s.tick 0) 1
        (plainMd 0 (namedPayload (longName 4))) 0).1 = .newFlow (some 1) := by
  obtain ⟨s, hs, hx⟩ := Transition.run_restrict_of_any
    (execute (Programs.const.withQuic (fun md => md.data.length) (fun _ => zeroPage))) keepsApp
    Sys.initial (hostRun (longName 4)) (fun s : Sys => (s.socks NO_COOKIE).isNone &&
      (s.socks 1).any fun sock : Sock => decide (s.newFlowTarget sock.key 1 1 0 = some 1) &&
        (s.groups sock.key).any fun st : ReuseportStorage =>
          decide (st.dis.kind = some .bespoke ∧ st.dis.bespokeDigest = 0xDEAD ∧
            st.dis.maxApps = 2 ∧ st.dis.filterLen = 1 ∧ bespokeApp st.dis 0 = 1 ∧
            bespokeHostname st.dis 0 = zeroPadded BESPOKE_SNI_LEN (longName 4)))
    (by decide +kernel)
  simp only [Bool.and_eq_true, decide_eq_true_eq, Option.any_eq_true, Option.isNone_iff_eq_none]
    at hx
  obtain ⟨hno, sock, hsock, htarget, st, hk, hkind, hdigest, hmax, hlen, happ, hname⟩ := hx
  have hentries : ∀ e ∈ [((1, longName 4) : SniEntry)], e = (1, longName 4) := by simp
  have hc : Configured st.dis [(1, longName 4)] := by
    refine ⟨by decide, by rw [hlen]; rfl, ?_, ?_⟩
    · intro e he
      rw [hentries e he]
      exact ⟨by decide, longName_zero_free 4⟩
    · intro i e he
      obtain ⟨rfl, rfl⟩ : i = 0 ∧ e = (1, longName 4) := by
        simpa [List.getElem?_singleton, eq_comm] using he
      exact ⟨happ, hname⟩
  obtain ⟨hreceive, -⟩ := host_reaches_application hs hsock hk
    ⟨hkind, hdigest, by rw [hmax]; decide⟩ hc
    ⟨List.mem_singleton_self _, fun e he _ => hentries e he⟩ (by rw [hmax]; decide) hno
    (namedClient_arrives (by decide)) rfl
  exact ⟨s, hs, hreceive.trans (congrArg _ htarget)⟩

/-! ### The other packets of a connection -/

theorem firstStage_minted {n : ℕ} {grm : UInt16} (hq : QuicGroup st)
    (hm : MintedPacket md.data n grm) (hlen : md.len.toNat = md.data.length)
    (hlin : linear md ≤ md.data.length) (h40 : 40 ≤ md.data.length)
    (hinitial : md.data.getD 8 0 >>> 4 ≠ 0xC) :
    firstStage (p.withQuic linear page) md st = .haveCookie (cookieOfGrm st grm) 0 := by
  obtain ⟨fast, hfast, hcookie, hinit⟩ := parseQuicFast_minted hm hlen hlin h40
  rw [← dissectedBy_cookie hq.maxApps]
  apply firstStage_quic hq
  rw [run0xDEAD_other hfast (hinit.trans (decide_eq_false hinitial)), hcookie]

/-- While generations and indices stay together, the packets behind the first of a connection reach
the server that put the cookie reported for its socket into its connection IDs. -/
theorem minted_ids_keep_connections {as : List Action} {c : UInt64} {gen idx : UInt32}
    {grm : UInt16}
    (h : Transition.Run ((system (p.withQuic linear page)).restrict fun s a => keepsRow s a = true)
      Sys.initial as s)
    (ho : s.isOpen c = true) (hg : getSocketGen s c = some (gen, idx, grm)) (hi : idx ≠ UNSET) :
    ∃ sock st, s.socks c = some sock ∧ s.groups sock.key = some st ∧ (QuicGroup st →
      ∀ r kr md n now, s.socks r = some kr → kr.key = sock.key →
        kr.netnsCookie = sock.netnsCookie → MintedPacket md.data n grm →
        md.len.toNat = md.data.length → linear md ≤ md.data.length → 40 ≤ md.data.length →
        md.data.getD 8 0 >>> 4 ≠ 0xC →
        (receive (p.withQuic linear page) (s.tick now) r md now).1 = .existing c) := by
  obtain ⟨-, hp⟩ := published_reachable h
  obtain ⟨sock, st, hs, hk, hroute⟩ := dissected_routes hp ho hg hi
  refine ⟨sock, st, hs, hk, ?_⟩
  intro hq r kr md n now hr hkey hnetns hm hlen hlin h40 hinitial
  exact hroute r kr md now 0 hr hkey hnetns (firstStage_minted hq hm hlen hlin h40 hinitial)

/-- A packet with a short header and the cookie of generation 1, index 0. -/
def mintedMd : Md :=
  let start : List UInt8 := [0, 0, 0, 0, 0, 0, 0, 0, 0x40, 1, (grmCookiePack 1 0 >>> 8).toUInt8,
    (grmCookiePack 1 0).toUInt8]
  ⟨0, 0, 40, [], start ++ List.replicate 28 0⟩

theorem mintedMd_minted : MintedPacket mintedMd.data 8 (grmCookiePack 1 0) :=
  ⟨by decide, fun _ => ⟨⟨by decide, by decide, by decide⟩, by decide⟩,
    fun hlong => absurd hlong (by decide)⟩

/-- A socket of the second application asks for generation 1 and is registered. -/
def mintedRun : List Action :=
  Action.openBound 1 ++ [.call 1 202 (hostOption (longName 4)), .daemon 9,
    .call 1 201 [1, 0, 0, 0], .daemon 10]

theorem minted_ids_keep_connections_first : ∃ s,
    Transition.Run ((system (Programs.const.withQuic (fun md => md.data.length)
      (fun _ => zeroPage))).restrict fun s a => keepsRow s a = true) Sys.initial mintedRun s ∧
      (receive (Programs.const.withQuic (fun md => md.data.length) (fun _ => zeroPage)) (s.tick 0) 1
        mintedMd 0).1 = .existing 1 := by
  obtain ⟨s, hs, hx⟩ := Transition.run_restrict_of_any
    (execute (Programs.const.withQuic (fun md => md.data.length) (fun _ => zeroPage))) keepsRow
    Sys.initial mintedRun (fun s : Sys => s.isOpen 1 &&
      decide (getSocketGen s 1 = some (1, 0, grmCookiePack 1 0)) &&
      (s.socks 1).any fun sock : Sock => (s.groups sock.key).any fun st : ReuseportStorage =>
        decide (st.dis.kind = some .bespoke ∧ st.dis.bespokeDigest = 0xDEAD ∧
          st.dis.maxApps ≤ 4)) (by decide +kernel)
  simp only [Bool.and_eq_true, decide_eq_true_eq, Option.any_eq_true] at hx
  obtain ⟨⟨ho, hg⟩, sock, hsock, st, hk, hkind, hdigest, hmax⟩ := hx
  obtain ⟨sock', st', hsock', hk', hroute⟩ := minted_ids_keep_connections hs ho hg (by decide)
  cases hsock.symm.trans hsock'
  cases hk.symm.trans hk'
  exact ⟨s, hs, hroute ⟨hkind, hdigest, hmax⟩ 1 sock mintedMd 8 0 hsock rfl rfl mintedMd_minted
    rfl le_rfl (by decide) (by decide)⟩

end Udpgrm
