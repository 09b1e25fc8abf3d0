import Udpgrm.SingleApp

/-! The restart protocol of a single application, and what holds of the cookie table meanwhile. -/
namespace Udpgrm

open LittleEndian

variable {p : Programs} {s t : Sys} {a : Action} {k : Key} {ns c : UInt64}
  {st st' : ReuseportStorage} {live live' S S' : Finset UInt64} {r : Row} {n : ℕ}

/-! ### Packed rows -/

/-- The first `n` slots of a row hold live sockets of `S`, the others hold none. -/
structure Packed (st : ReuseportStorage) (live S : Finset UInt64) (r : Row) (n : ℕ) : Prop where
  held : ∀ j : Slot, j.val < n → st.cookies r j ∈ S ∧ st.cookies r j ∈ live
  free : ∀ j : Slot, n ≤ j.val → st.cookies r j ∉ live
  maxIdx : 0 < n → st.maxIdx r = UInt32.ofNat n
  le : n ≤ MAX_SOCKETS_IN_GEN

theorem Packed.mono (h : Packed st live S r n) (hS : S ⊆ S') : Packed st live S' r n :=
  ⟨fun j hj => ⟨hS (h.held j hj).1, (h.held j hj).2⟩, h.free, h.maxIdx, h.le⟩

/-- A row keeps its shape while its slots, its length and the life of its sockets stay. -/
theorem Packed.frame (h : Packed st live S r n) (hc : st'.cookies r = st.cookies r)
    (hm : st'.maxIdx r = st.maxIdx r)
    (hlive : ∀ j, st.cookies r j ∈ S → st.cookies r j ∈ live → st.cookies r j ∈ live')
    (hdead : ∀ j, st.cookies r j ∈ live' → st.cookies r j ∈ live) : Packed st' live' S r n where
  held j hj := by
    rw [hc]
    exact ⟨(h.held j hj).1, hlive j (h.held j hj).1 (h.held j hj).2⟩
  free j hj := by
    rw [hc]
    exact fun hl => h.free j hj (hdead j hl)
  maxIdx hn := hm.trans (h.maxIdx hn)
  le := h.le

theorem Packed.live_iff (h : Packed st live S r n) (j : Slot) :
    st.cookies r j ∈ live ↔ j.val < n := by
  constructor
  · intro hl
    by_contra hge
    exact h.free j (by omega) hl
  · exact fun hj => (h.held j hj).2

theorem Packed.scan {pos len : ℕ} (h : Packed st live S r n)
    (hscan : SlotScan.scan (rowLive st r live) MAX_SOCKETS_IN_GEN = (some pos, len)) :
    pos = n ∧ len = n + 1 ∧ n < MAX_SOCKETS_IN_GEN := by
  have hval : ∀ i, i < MAX_SOCKETS_IN_GEN → (Fin.ofNat MAX_SOCKETS_IN_GEN i).val = i :=
    fun i hi => Nat.mod_eq_of_lt hi
  have hle := h.le
  refine SlotScan.scan_filled_eq ?_ ?_ hscan
  · intro i hi
    have hlt : (Fin.ofNat MAX_SOCKETS_IN_GEN i).val < n := by rwa [hval i (by omega)]
    exact decide_eq_true (h.held _ hlt).2
  · intro i hni hi
    have hge : n ≤ (Fin.ofNat MAX_SOCKETS_IN_GEN i).val := by rwa [hval i hi]
    exact decide_eq_false (h.free _ hge)

/-- A packed row grows at its end. -/
theorem Packed.accept {g : UInt32} {pos len : ℕ} (h : Packed st live S (genRow g) n)
    (hscan : SlotScan.scan (rowLive st (genRow g) live) MAX_SOCKETS_IN_GEN = (some pos, len))
    (hS : c ∈ S) (hc : c ∈ live')
    (hlive : ∀ j, st.cookies (genRow g) j ∈ S → st.cookies (genRow g) j ∈ live →
      st.cookies (genRow g) j ∈ live')
    (hdead : ∀ j, st.cookies (genRow g) j ∈ live' → st.cookies (genRow g) j ∈ live) :
    Packed (st.setCookie g (UInt32.ofNat pos) (UInt32.ofNat len) c) live' S (genRow g) (n + 1) := by
  obtain ⟨rfl, rfl, hn⟩ := h.scan hscan
  have hslot : (idxSlot (UInt32.ofNat pos)).val = pos := by
    rw [idxSlot_ofNat]
    exact Nat.mod_eq_of_lt hn
  refine ⟨fun j hj => ?_, fun j hj => ?_, fun _ => setCookie_maxIdx_self .., hn⟩
  · by_cases he : j = idxSlot (UInt32.ofNat pos)
    · rw [he, setCookie_cookies_self]
      exact ⟨hS, hc⟩
    · have hlt : j.val < pos := by
        have hne : j.val ≠ pos := fun h => he (Fin.ext (h.trans hslot.symm))
        omega
      rw [setCookie_cookies_slot _ _ _ _ _ he]
      exact ⟨(h.held j hlt).1, hlive j (h.held j hlt).1 (h.held j hlt).2⟩
  · have hne : j ≠ idxSlot (UInt32.ofNat pos) := by
      rintro rfl
      omega
    rw [setCookie_cookies_slot _ _ _ _ _ hne]
    exact fun hl => h.free j (by omega) (hdead j hl)

/-- Whatever the hash of a packet, a packed row has a live socket for it. -/
theorem Packed.dispatch (h : Packed st live S r n) (hn : 0 < n) (hash : UInt32) :
    st.cookies r (idxSlot (hash % st.maxIdx r)) ∈ S ∧
      st.cookies r (idxSlot (hash % st.maxIdx r)) ∈ live := by
  apply h.held
  have hle := h.le
  have hmod := Nat.mod_lt hash.toNat hn
  have hlen : (UInt32.ofNat n).toNat = n := by
    simp only [MAX_SOCKETS_IN_GEN] at hle
    rw [UInt32.toNat_ofNat', Nat.mod_eq_of_lt (by omega)]
  simp only [idxSlot, Fin.ofNat, UInt32.toNat_mod, h.maxIdx hn, hlen]
  exact lt_of_le_of_lt (Nat.mod_le _ _) hmod

/-! ### The restart protocol -/

/-- The system with the sockets of the instance whose generation is the working generation, of
the instance that is starting, and of earlier instances. -/
structure Rollout where
  sys : Sys
  gen : UInt32
  current : Finset UInt64
  starting : Finset UInt64
  retired : Finset UInt64

/-- No instance has started. The first one will use the generation after `g`. -/
def Rollout.initial (g : UInt32) : Rollout := ⟨Sys.initial, g, ∅, ∅, ∅⟩

/-- A call by a socket of the group: the socket, the option and the number it passes. -/
def groupCall (k : Key) (s : Sys) : Action → Option (UInt64 × SockOpt × UInt32)
  | .setsockopt c ctx _ =>
    if (s.socks c).map Sock.key = some k then
      ctx.opt.bind fun o => (copyIn ctx.optval).map fun data => (c, o, u32 data 0)
    else none
  | _ => none

def answer (p : Programs) (s : Sys) : Action → OptRet
  | .setsockopt c ctx env => (udpgrmSetsockopt p env (s.tick env.flow.later) c ctx).1
  | _ => .pass

/-- A socket that asks for a generation belongs to the starting instance, which becomes the
current one by setting the working generation. -/
def Rollout.note (p : Programs) (k : Key) (x : Rollout) (a : Action) : Rollout :=
  match groupCall k x.sys a with
  | some (c, .socketGen, _) => { x with starting := insert c x.starting }
  | some (_, .workingGen, _) =>
    if answer p x.sys a = .ok then
      { x with
        gen := x.gen + 1
        current := x.starting
        starting := ∅
        retired := x.retired ∪ x.current }
    else x
  | _ => x

def Rollout.step (p : Programs) (k : Key) (x : Rollout) (a : Action) : Option Rollout :=
  (execute p x.sys a).map fun t => { x.note p k a with sys := t }

def reportsIndex (s : Sys) (c : UInt64) : Bool :=
  (getSocketGen s c).any fun x => decide (x.2.1 ≠ UNSET)

/-- Go through the set, not through all cookies. -/
instance (priority := high) decidableForallCookies (s : Finset UInt64) (P : UInt64 → Prop)
    [DecidablePred P] : Decidable (∀ d ∈ s, P d) := Finset.decidableDforallFinset

/-- What the instances keep to in their calls. An instance starts when the sockets of the
instances before the current one are closed. Each of its sockets asks for the next generation,
and it sets the working generation when all of them report an index. -/
def callsInOrder (k : Key) (x : Rollout) (a : Action) : Bool :=
  match groupCall k x.sys a with
  | some (c, .socketGen, g) => decide (g = x.gen + 1 ∧ c ∉ x.current ∧ c ∉ x.retired ∧
      ∀ d ∈ x.retired, x.sys.isOpen d = false)
  | some (c, .workingGen, g) => decide (g = x.gen + 1 ∧ c ∈ x.starting ∧
      ∀ d ∈ x.starting, reportsIndex x.sys d = true)
  | _ => true

/-- Nobody closes a socket of the current or of the starting instance. -/
def closesRetired (x : Rollout) : Action → Bool
  | .close c => decide (c ∉ x.current ∧ c ∉ x.starting)
  | _ => true

def followsProtocol (k : Key) (ns : UInt64) (x : Rollout) (a : Action) : Bool :=
  singleAppStep k ns x.sys a && callsInOrder k x a && closesRetired x a

abbrev restartProtocol (p : Programs) (k : Key) (ns : UInt64) : Transition.LTS Rollout Action :=
  (Transition.LTS.ofFn (Rollout.step p k)).restrict fun x a => followsProtocol k ns x a = true

theorem groupCall_eq {ctx : SockoptCtx} {env : OptEnv} {sock : Sock} {o : SockOpt}
    {data : List UInt8} (hs : s.socks c = some sock) (hkey : sock.key = k) (ho : ctx.opt = some o)
    (hd : copyIn ctx.optval = some data) :
    groupCall k s (.setsockopt c ctx env) = some (c, o, u32 data 0) := by
  simp [groupCall, hs, hkey, ho, hd]

theorem groupCall_some {o : SockOpt} {g : UInt32} (h : groupCall k s a = some (c, o, g)) :
    ∃ ctx env sock data, a = .setsockopt c ctx env ∧ s.socks c = some sock ∧ sock.key = k ∧
      ctx.opt = some o ∧ copyIn ctx.optval = some data ∧ u32 data 0 = g := by
  cases a with
  | setsockopt c' ctx env =>
    simp only [groupCall] at h
    split_ifs at h with hc
    obtain ⟨sock, hs, hkey⟩ := Option.map_eq_some_iff.mp hc
    obtain ⟨o', ho, h⟩ := Option.bind_eq_some_iff.mp h
    obtain ⟨data, hd, h⟩ := Option.map_eq_some_iff.mp h
    cases h
    exact ⟨ctx, env, sock, data, rfl, hs, hkey, ho, hd, rfl⟩
  | _ => cases h

section CallsInOrder

variable {x : Rollout} {g : UInt32}

theorem callsInOrder_socketGen (hcall : groupCall k x.sys a = some (c, .socketGen, g))
    (h : callsInOrder k x a = true) :
    g = x.gen + 1 ∧ c ∉ x.current ∧ c ∉ x.retired ∧ ∀ d ∈ x.retired, x.sys.isOpen d = false := by
  simp only [callsInOrder, hcall] at h
  exact of_decide_eq_true h

theorem callsInOrder_workingGen (hcall : groupCall k x.sys a = some (c, .workingGen, g))
    (h : callsInOrder k x a = true) :
    g = x.gen + 1 ∧ c ∈ x.starting ∧ ∀ d ∈ x.starting, reportsIndex x.sys d = true := by
  simp only [callsInOrder, hcall] at h
  exact of_decide_eq_true h

end CallsInOrder

/-! ### The invariant -/

section Invariant

variable {x : Rollout} {pc pc' : DaemonPc}

def Rollout.Member (x : Rollout) (c : UInt64) : Prop :=
  c ∈ x.current ∨ c ∈ x.starting ∨ c ∈ x.retired

/-- A socket on its way to the table asks for the generation of its instance. Of the earlier
instances, only sockets of the last one can still be open. -/
inductive Rollout.Asks (x : Rollout) (c : UInt64) (g : UInt32) : Prop
  | starting (hc : c ∈ x.starting) (hg : g = x.gen + 1)
  | current (hc : c ∈ x.current) (hg : g = x.gen)
  | retired (hc : c ∈ x.retired) (hg : x.sys.closed c ∨ g + 1 = x.gen)

def Sys.Unindexed (s : Sys) (c : UInt64) : Prop :=
  ∀ sock ss, s.socks c = some sock → sock.storage = some ss → ss.sockIdx = UNSET

/-- The socket in the daemon's hands. As long as it is one of an earlier instance, the daemon has
come to none of the starting instance. -/
inductive Rollout.InHand (x : Rollout) (c : UInt64) (g : UInt32) : Prop
  | starting (hc : c ∈ x.starting) (hg : g = x.gen + 1)
  | current (hc : c ∈ x.current) (hg : g = x.gen)
  | retired (hc : c ∈ x.retired) (hg : g + 1 = x.gen)
      (hidx : ∀ d ∈ x.starting, x.sys.Unindexed d)

theorem Rollout.InHand.member {g : UInt32} (h : x.InHand c g) : x.Member c := by
  cases h with
  | starting hc => exact .inr (.inl hc)
  | current hc => exact .inl hc
  | retired hc => exact .inr (.inr hc)

/-- A live socket in the table is in the row of its instance, and none of an earlier instance is
in the next row. -/
inductive Rollout.Stands (x : Rollout) (r : Row) (c : UInt64) : Prop
  | starting (hc : c ∈ x.starting) (hr : r = genRow (x.gen + 1))
  | current (hc : c ∈ x.current) (hr : r = genRow x.gen)
  | retired (hc : c ∈ x.retired) (hr : r ≠ genRow (x.gen + 1))

theorem Rollout.Stands.kept {row : Row} (h : x.Stands row c) :
    ({ x with sys := t } : Rollout).Stands row c := by
  cases h with
  | starting hc hr => exact .starting hc hr
  | current hc hr => exact .current hc hr
  | retired hc hr => exact .retired hc hr

theorem Rollout.Asks.kept {g : UInt32} (h : x.Asks c g)
    (hclosed : x.sys.closed c → t.closed c) : ({ x with sys := t } : Rollout).Asks c g := by
  cases h with
  | starting hc hg => exact .starting hc hg
  | current hc hg => exact .current hc hg
  | retired hc hg => exact .retired hc (hg.imp_left hclosed)

/-- The slot search for a socket of the current or of the starting instance: the daemon's copy of
the table is the table, and what it has seen of the row still holds. -/
structure Rollout.Scanned (k : Key) (x : Rollout) (r : Placing) (seen : List Bool)
    (result : Option ℕ × ℕ) : Prop where
  copied : ∃ st, x.sys.groups k = some st ∧ st.cookies = r.st.cookies
  row : genRow r.wg = genRow r.gen
  accurate : r.cookie ∈ x.current ∨ r.cookie ∈ x.starting → ∀ j : Slot, j.val < seen.length →
    seen.getD j.val false = decide (r.st.cookies (genRow r.wg) j ∈ x.sys.sockhash)
  result : result = SlotScan.scan (seen.getD · false) seen.length

/-- How far a registration in the group has come. -/
def Rollout.Progress (k : Key) (x : Rollout) : DaemonPc → Prop
  | .reading r => r.k = k → ∃ st, x.sys.groups k = some st ∧ st.cookies = r.st.cookies
  | .scanning r seen found => r.k = k →
      seen.length ≤ MAX_SOCKETS_IN_GEN ∧ x.Scanned k r seen (found.freePos, found.genLen)
  | .entered r seen pos len => r.k = k → seen.length = MAX_SOCKETS_IN_GEN ∧
      x.Scanned k r seen (some pos, len) ∧ r.cookie ∈ x.sys.sockhash
  | .published r pos _ => r.k = k → pos < MAX_SOCKETS_IN_GEN ∧ (r.cookie ∈ x.starting → ∃ st j,
      x.sys.groups k = some st ∧ st.cookies (genRow (x.gen + 1)) j = r.cookie ∧
        r.cookie ∈ x.sys.sockhash)
  | .idle | .closing _ _ => True

/-- What holds in every state of a rollout, wherever the daemon stands in `handle_msg`. -/
structure RolloutInv (k : Key) (ns : UInt64) (x : Rollout) (pc : DaemonPc) : Prop where
  app : SingleApp k ns ⟨x.sys, pc⟩
  members : ∀ c, x.Member c → ∃ sock, x.sys.socks c = some sock ∧ sock.key = k
  opened : ∀ c, c ∈ x.current ∨ c ∈ x.starting → x.sys.isOpen c = true
  disjoint : ∀ c ∈ x.starting, c ∉ x.current ∧ c ∉ x.retired
  apart : ∀ c ∈ x.current, c ∉ x.retired
  registered : ∀ c sock ss, x.sys.socks c = some sock → sock.key = k → sock.storage = some ss →
    ss.sockIdx ≠ UNSET → x.Member c
  pending : ∀ pid cookie gen app, .registerSocket k pid cookie gen app ∈ x.sys.ring →
    x.Asks cookie gen
  placed : ∀ st, x.sys.groups k = some st → ∀ r j, st.cookies r j ∈ x.sys.sockhash →
    x.Stands r (st.cookies r j)
  dead : ∀ st, x.sys.groups k = some st → ∀ r j, st.cookies r j = 0 ∨
    st.cookies r j ∈ x.sys.sockhash ∨
    (x.sys.socks (st.cookies r j)).isSome ∧ x.sys.alive (st.cookies r j) = false
  serving : x.current.Nonempty → ∃ st n, x.sys.groups k = some st ∧ 0 < n ∧
    Packed st x.sys.sockhash x.current (genRow x.gen) n
  filling : x.starting.Nonempty → ∃ n, (0 < n → (x.sys.groups k).isSome) ∧
    (n = 0 → ∀ c ∈ x.starting, x.sys.Unindexed c) ∧
    ∀ st, x.sys.groups k = some st →
      Packed st x.sys.sockhash x.starting (genRow (x.gen + 1)) n
  drained : x.starting.Nonempty → ∀ c ∈ x.retired, x.sys.closed c
  inHand : ∀ r, pc.fishing = some r → r.k = k → x.InHand r.cookie r.gen
  progress : x.Progress k pc

theorem RolloutInv.initial (k : Key) (ns : UInt64) (g : UInt32) :
    RolloutInv k ns (.initial g) .idle := by
  refine ⟨.initial, ?_, ?_, ?_, ?_, ?_, ?_, ?_, ?_, ?_, ?_, ?_, ?_, trivial⟩ <;>
    simp [Rollout.initial, Sys.initial, Rollout.Member, DaemonPc.fishing]

/-! ### A socket joins, an instance takes over -/

/-- With no instance starting, no live socket is in the row of the next generation. -/
theorem RolloutInv.next_row_free (hx : RolloutInv k ns x pc) (hs : ¬ x.starting.Nonempty)
    (hk : x.sys.groups k = some st) (j : Slot) :
    st.cookies (genRow (x.gen + 1)) j ∉ x.sys.sockhash := by
  intro hl
  cases hx.placed st hk _ j hl with
  | starting hc => exact hs ⟨_, hc⟩
  | current _ he => exact genRow_succ_ne x.gen he
  | retired _ he => exact he rfl

theorem RolloutInv.unindexed (hx : RolloutInv k ns x pc) {sock : Sock}
    (hs : x.sys.socks c = some sock) (hkey : sock.key = k) (hc : ¬ x.Member c) :
    x.sys.Unindexed c := by
  intro sock' ss hs' hss
  obtain rfl := Option.some.inj (hs.symm.trans hs')
  by_contra hi
  exact hc (hx.registered c sock ss hs hkey hss hi)

/-- The starting instance, with a socket that joins it, has come no further. -/
theorem RolloutInv.joined {sock : Sock} {d : UInt64} (hx : RolloutInv k ns x pc)
    (hs : x.sys.socks c = some sock) (hkey : sock.key = k) (hcur : c ∉ x.current)
    (hret : c ∉ x.retired) (hold : ∀ d ∈ x.starting, x.sys.Unindexed d)
    (hd : d ∈ insert c x.starting) : x.sys.Unindexed d := by
  by_cases hmem : d ∈ x.starting
  · exact hold d hmem
  · obtain rfl : d = c := (Finset.mem_insert.mp hd).resolve_right hmem
    refine hx.unindexed hs hkey ?_
    rintro (h | h | h)
    · exact hcur h
    · exact hmem h
    · exact hret h

/-- The socket in hand has joined its instance before. -/
theorem RolloutInv.hand_old (hx : RolloutInv k ns x pc) (r : Fishing)
    (hr : pc.fishing = some r) (hk : r.k = k) (hcur : c ∉ x.current) (hret : c ∉ x.retired)
    (hc : r.cookie ∈ insert c x.starting) : r.cookie ∈ x.starting := by
  rcases Finset.mem_insert.mp hc with rfl | hc
  · rcases (hx.inHand r hr hk).member with h | h | h
    · exact absurd h hcur
    · exact h
    · exact absurd h hret
  · exact hc

theorem RolloutInv.join_progress (hx : RolloutInv k ns x pc) (hcur : c ∉ x.current)
    (hret : c ∉ x.retired) :
    ({ x with starting := insert c x.starting } : Rollout).Progress k pc := by
  have hprog := hx.progress
  cases pc with
  | idle | closing => trivial
  | reading r => exact hprog
  | scanning r seen found =>
    intro hk
    obtain ⟨hlen, hcopied, hrow, hseen, hresult⟩ := hprog hk
    refine ⟨hlen, hcopied, hrow, fun hc => hseen ?_, hresult⟩
    exact hc.imp_right (hx.hand_old r.toFishing rfl hk hcur hret)
  | entered r seen pos len =>
    intro hk
    obtain ⟨hlen, ⟨hcopied, hrow, hseen, hresult⟩, hlive⟩ := hprog hk
    refine ⟨hlen, ⟨hcopied, hrow, fun hc => hseen ?_, hresult⟩, hlive⟩
    exact hc.imp_right (hx.hand_old r.toFishing rfl hk hcur hret)
  | published r pos keep =>
    intro hk
    obtain ⟨hpos, hslot⟩ := hprog hk
    exact ⟨hpos, fun hc => hslot (hx.hand_old r.toFishing rfl hk hcur hret hc)⟩

theorem RolloutInv.join {sock : Sock} (hx : RolloutInv k ns x pc)
    (hs : x.sys.socks c = some sock) (hkey : sock.key = k) (ho : x.sys.isOpen c = true)
    (hcur : c ∉ x.current) (hret : c ∉ x.retired)
    (hgone : ∀ d ∈ x.retired, x.sys.isOpen d = false) :
    RolloutInv k ns { x with starting := insert c x.starting } pc where
  app := hx.app
  members d hd := by
    rcases hd with hd | hd | hd
    · exact hx.members d (.inl hd)
    · rcases Finset.mem_insert.mp hd with rfl | hd
      · exact ⟨sock, hs, hkey⟩
      · exact hx.members d (.inr (.inl hd))
    · exact hx.members d (.inr (.inr hd))
  opened d hd := by
    rcases hd with hd | hd
    · exact hx.opened d (.inl hd)
    · rcases Finset.mem_insert.mp hd with rfl | hd
      · exact ho
      · exact hx.opened d (.inr hd)
  disjoint d hd := by
    rcases Finset.mem_insert.mp hd with rfl | hd
    · exact ⟨hcur, hret⟩
    · exact hx.disjoint d hd
  apart := hx.apart
  registered d sock ss hd hkey hss hi := by
    rcases hx.registered d sock ss hd hkey hss hi with h | h | h
    · exact .inl h
    · exact .inr (.inl (Finset.mem_insert_of_mem h))
    · exact .inr (.inr h)
  pending pid cookie gen app hm := by
    cases hx.pending pid cookie gen app hm with
    | starting hc hg => exact .starting (Finset.mem_insert_of_mem hc) hg
    | current hc hg => exact .current hc hg
    | retired hc hg => exact .retired hc hg
  placed st hk r j hl := by
    cases hx.placed st hk r j hl with
    | starting hc hr => exact .starting (Finset.mem_insert_of_mem hc) hr
    | current hc hr => exact .current hc hr
    | retired hc hr => exact .retired hc hr
  dead := hx.dead
  serving := hx.serving
  filling _ := by
    by_cases hne : x.starting.Nonempty
    · obtain ⟨n, hsome, hidx, hpacked⟩ := hx.filling hne
      exact ⟨n, hsome, fun hn d hd => hx.joined hs hkey hcur hret (hidx hn) hd, fun st hk =>
        (hpacked st hk).mono (Finset.subset_insert ..)⟩
    · have hnone : ∀ d ∈ x.starting, x.sys.Unindexed d := fun d hd => absurd ⟨d, hd⟩ hne
      refine ⟨0, fun h => absurd h (by decide),
        fun _ d hd => hx.joined hs hkey hcur hret hnone hd,
        fun st hk => ⟨fun j hj => absurd hj (Nat.not_lt_zero _), fun j _ => ?_,
          fun h => absurd h (by decide), Nat.zero_le _⟩⟩
      exact hx.next_row_free hne hk j
  drained _ d hd := by
    obtain ⟨sock, hs, _⟩ := hx.members d (.inr (.inr hd))
    exact ⟨sock, hs, by simpa [Sys.isOpen, hs] using hgone d hd⟩
  inHand r hr hk := by
    cases hx.inHand r hr hk with
    | starting hc hg => exact .starting (Finset.mem_insert_of_mem hc) hg
    | current hc hg => exact .current hc hg
    | retired hc hg hidx =>
      exact .retired hc hg fun d hd => hx.joined hs hkey hcur hret hidx hd
  progress := hx.join_progress hcur hret

theorem reportsIndex_indexed {s : Sys} (h : reportsIndex s c = true) : ¬ s.Unindexed c := by
  intro hun
  obtain ⟨_, hget, hi⟩ := (Option.any_eq_true ..).mp h
  obtain ⟨sock, hs, hget⟩ := Option.bind_eq_some_iff.mp hget
  obtain ⟨ss, hss, rfl⟩ := Option.map_eq_some_iff.mp hget
  exact of_decide_eq_true hi (hun sock ss hs hss)

/-- When an instance takes over, the earlier ones have left the table. -/
theorem RolloutInv.retired_dead (hx : RolloutInv k ns x pc) (hne : x.starting.Nonempty)
    (hidx : ∀ d ∈ x.starting, reportsIndex x.sys d = true) (hc : c ∈ x.retired) :
    c ∉ x.sys.sockhash := by
  intro hl
  have hclosed := hx.drained hne c hc
  rcases hx.app.alive_iff.mp (hx.app.live_alive c hl) with ho | ⟨r, hr, rfl⟩
  · exact Sys.not_closed ho hclosed
  · obtain ⟨sock, hs, hkey⟩ := hx.members _ (.inr (.inr hc))
    obtain ⟨sock', hs', hkey'⟩ := (hx.app.fishing r hr).sock
    obtain rfl := Option.some.inj (hs.symm.trans hs')
    cases hx.inHand r hr (hkey'.symm.trans hkey) with
    | starting hc' => exact (hx.disjoint _ hc').2 hc
    | current hc' => exact Sys.not_closed (hx.opened _ (.inl hc')) hclosed
    | retired _ _ hun =>
      obtain ⟨d, hd⟩ := hne
      exact reportsIndex_indexed (hidx d hd) (hun d hd)

/-- The starting instance becomes the current one. -/
theorem RolloutInv.takeOver (hx : RolloutInv k ns x pc) (hne : x.starting.Nonempty)
    (hidx : ∀ d ∈ x.starting, reportsIndex x.sys d = true) :
    RolloutInv k ns { x with
      gen := x.gen + 1
      current := x.starting
      starting := ∅
      retired := x.retired ∪ x.current } pc where
  app := hx.app
  members d hd := by
    rcases hd with hd | hd | hd
    · exact hx.members d (.inr (.inl hd))
    · exact absurd hd (Finset.notMem_empty d)
    · rcases Finset.mem_union.mp hd with hd | hd
      · exact hx.members d (.inr (.inr hd))
      · exact hx.members d (.inl hd)
  opened d hd := by
    rcases hd with hd | hd
    · exact hx.opened d (.inr hd)
    · exact absurd hd (Finset.notMem_empty d)
  disjoint d hd := absurd hd (Finset.notMem_empty d)
  apart d hd hr := by
    obtain ⟨hcur, hret⟩ := hx.disjoint d hd
    rcases Finset.mem_union.mp hr with hr | hr
    · exact hret hr
    · exact hcur hr
  registered d sock ss hd hkey hss hi := by
    rcases hx.registered d sock ss hd hkey hss hi with h | h | h
    · exact .inr (.inr (Finset.mem_union_right _ h))
    · exact .inl h
    · exact .inr (.inr (Finset.mem_union_left _ h))
  pending pid cookie gen app hm := by
    cases hx.pending pid cookie gen app hm with
    | starting hc hg => exact .current hc hg
    | current hc hg => exact .retired (Finset.mem_union_right _ hc) (.inr (hg ▸ rfl))
    | retired hc _ => exact .retired (Finset.mem_union_left _ hc) (.inl (hx.drained hne _ hc))
  placed st hk r j hl := by
    cases hx.placed st hk r j hl with
    | starting hc hr => exact .current hc hr
    | current hc hr =>
      exact .retired (Finset.mem_union_right _ hc) (hr ▸ (genRow_add_two_ne x.gen).symm)
    | retired hc => exact absurd hl (hx.retired_dead hne hidx hc)
  dead := hx.dead
  serving _ := by
    obtain ⟨n, hsome, hunset, hpacked⟩ := hx.filling hne
    have hn : 0 < n := by
      -- an index is reported, so a registration was accepted
      by_contra h0
      obtain ⟨d, hd⟩ := hne
      exact reportsIndex_indexed (hidx d hd) (hunset (by omega) d hd)
    obtain ⟨st, hk⟩ := Option.isSome_iff_exists.mp (hsome hn)
    exact ⟨st, n, hk, hn, hpacked st hk⟩
  filling h := absurd h Finset.not_nonempty_empty
  drained h := absurd h Finset.not_nonempty_empty
  inHand r hr hk := by
    cases hx.inHand r hr hk with
    | starting hc hg => exact .current hc hg
    | current hc hg =>
      refine .retired (Finset.mem_union_right _ hc) (hg ▸ rfl) fun d hd => ?_
      exact absurd hd (Finset.notMem_empty d)
    | retired _ _ hun =>
      obtain ⟨d, hd⟩ := hne
      exact absurd (hun d hd) (reportsIndex_indexed (hidx d hd))
  progress := by
    have hprog := hx.progress
    cases pc with
    | idle | closing => trivial
    | reading r => exact hprog
    | scanning r seen found =>
      intro hk
      obtain ⟨hlen, hcopied, hrow, hseen, hresult⟩ := hprog hk
      refine ⟨hlen, hcopied, hrow, fun hc => hseen (.inr ?_), hresult⟩
      exact hc.resolve_right (Finset.notMem_empty _)
    | entered r seen pos len =>
      intro hk
      obtain ⟨hlen, ⟨hcopied, hrow, hseen, hresult⟩, hlive⟩ := hprog hk
      refine ⟨hlen, ⟨hcopied, hrow, fun hc => hseen (.inr ?_), hresult⟩, hlive⟩
      exact hc.resolve_right (Finset.notMem_empty _)
    | published r pos keep =>
      exact fun hk => ⟨(hprog hk).1, fun hc => absurd hc (Finset.notMem_empty _)⟩

end Invariant

end Udpgrm
