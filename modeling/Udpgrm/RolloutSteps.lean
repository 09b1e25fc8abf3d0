import Udpgrm.Rollout

/-! The steps of a rollout: hooks and applications, and the daemon one system call at a time. -/
namespace Udpgrm

open LittleEndian

variable {p : Programs} {s t : Sys} {a : Action} {k : Key} {ns c : UInt64}
  {st st' : ReuseportStorage} {S : Finset UInt64} {r : Row} {n : ℕ} {x : Rollout}
  {pc pc' : DaemonPc}

/-! ### Steps that leave the table alone -/

/-- What the invariant needs of such a step. Nothing comes back to life, and a socket of the
group gets an index only where its instance has a slot. -/
structure Rollout.Frame (k : Key) (x : Rollout) (t : Sys) : Prop where
  alive : ∀ c, (x.sys.socks c).isSome → t.alive c = true → x.sys.alive c = true
  back : ∀ st r j, x.sys.groups k = some st → st.cookies r j ∈ t.sockhash →
    st.cookies r j ∈ x.sys.sockhash
  live : ∀ c ∈ x.sys.sockhash, t.alive c = true → c ∈ t.sockhash
  socks : ∀ c sock, x.sys.socks c = some sock →
    ∃ sock', t.socks c = some sock' ∧ sock'.key = sock.key
  opened : ∀ c, c ∈ x.current ∨ c ∈ x.starting → t.isOpen c = true
  closed : ∀ c, x.sys.closed c → t.closed c
  indexed : ∀ c sock ss, t.socks c = some sock → sock.key = k → sock.storage = some ss →
    ss.sockIdx ≠ UNSET → ¬ x.sys.Unindexed c ∨ x.Member c ∧ (c ∈ x.starting → ∃ st j,
      x.sys.groups k = some st ∧ st.cookies (genRow (x.gen + 1)) j ∈ x.sys.sockhash)
  kept : ∀ st, x.sys.groups k = some st → ∃ st', t.groups k = some st' ∧
    st'.cookies = st.cookies ∧ st'.maxIdx = st.maxIdx
  born : x.sys.groups k = none → ∀ st', t.groups k = some st' → ∀ r j, st'.cookies r j = 0

/-- The table after the step is the one before it, or it is empty. -/
theorem Rollout.Frame.table (hf : x.Frame k t) (hk' : t.groups k = some st') :
    (∃ st, x.sys.groups k = some st ∧ st'.cookies = st.cookies ∧ st'.maxIdx = st.maxIdx) ∨
      x.sys.groups k = none ∧ ∀ r j, st'.cookies r j = 0 := by
  cases hk : x.sys.groups k with
  | none => exact .inr ⟨rfl, hf.born hk st' hk'⟩
  | some st =>
    obtain ⟨st₁, hk₁, hcookies, hmax⟩ := hf.kept st hk
    obtain rfl := Option.some.inj (hk₁.symm.trans hk')
    exact .inl ⟨st, rfl, hcookies, hmax⟩

theorem Rollout.Frame.packed (hf : x.Frame k t) (hk : x.sys.groups k = some st)
    (hP : Packed st x.sys.sockhash S r n) (hS : ∀ c ∈ S, c ∈ x.current ∨ c ∈ x.starting)
    (hcookies : st'.cookies = st.cookies) (hmax : st'.maxIdx = st.maxIdx) :
    Packed st' t.sockhash S r n := by
  refine hP.frame (by rw [hcookies]) (by rw [hmax]) (fun j hjS hl => ?_) fun j => hf.back st r j hk
  exact hf.live _ hl (Sys.alive_of_isOpen (hf.opened _ (hS _ hjS)))

theorem Rollout.Frame.registered (hf : x.Frame k t) (hx : RolloutInv k ns x pc) {sock : Sock}
    {ss : SocketStorage} (hs : t.socks c = some sock) (hkey : sock.key = k)
    (hss : sock.storage = some ss) (hi : ss.sockIdx ≠ UNSET) : x.Member c := by
  rcases hf.indexed c sock ss hs hkey hss hi with hidx | ⟨hmem, _⟩
  · by_contra hnot
    refine hidx fun sock₀ ss₀ hs₀ hss₀ => ?_
    obtain ⟨sock', hs', hkey'⟩ := hf.socks c sock₀ hs₀
    obtain rfl := Option.some.inj (hs.symm.trans hs')
    exact hx.unindexed hs₀ (hkey'.symm.trans hkey) hnot sock₀ ss₀ hs₀ hss₀
  · exact hmem

/-- With no slot of its instance written, a starting socket gets no index. -/
theorem Rollout.Frame.unindexed (hf : x.Frame k t) (hx : RolloutInv k ns x pc)
    (hc : c ∈ x.starting) (hun : x.sys.Unindexed c)
    (hfree : ∀ st, x.sys.groups k = some st → ∀ j,
      st.cookies (genRow (x.gen + 1)) j ∉ x.sys.sockhash) : t.Unindexed c := by
  intro sock' ss' hs' hss'
  by_contra hi
  obtain ⟨sock, hs, hkey⟩ := hx.members c (.inr (.inl hc))
  obtain ⟨sock₁, hs₁, hkey₁⟩ := hf.socks c sock hs
  obtain rfl := Option.some.inj (hs'.symm.trans hs₁)
  rcases hf.indexed c sock' ss' hs' (hkey₁.trans hkey) hss' hi with hidx | ⟨_, hslot⟩
  · exact hidx hun
  · obtain ⟨st, j, hk, hl⟩ := hslot hc
    exact hfree st hk j hl

theorem RolloutInv.frame (hx : RolloutInv k ns x pc) (hf : x.Frame k t)
    (happ : SingleApp k ns ⟨t, pc'⟩)
    (hpend : ∀ pid cookie gen app, .registerSocket k pid cookie gen app ∈ t.ring →
      x.Asks cookie gen)
    (hhand : ∀ r, pc'.fishing = some r → r.k = k →
      ({ x with sys := t } : Rollout).InHand r.cookie r.gen)
    (hprog : ({ x with sys := t } : Rollout).Progress k pc') :
    RolloutInv k ns { x with sys := t } pc' where
  app := happ
  members c hc := by
    obtain ⟨sock, hs, hkey⟩ := hx.members c hc
    obtain ⟨sock', hs', hkey'⟩ := hf.socks c sock hs
    exact ⟨sock', hs', hkey'.trans hkey⟩
  opened := hf.opened
  disjoint := hx.disjoint
  apart := hx.apart
  registered c sock ss hs hkey hss hi := hf.registered hx hs hkey hss hi
  pending pid cookie gen app hm := (hpend pid cookie gen app hm).kept (hf.closed _)
  placed st' hk' r j hl := by
    rcases hf.table hk' with ⟨st, hk, hcookies, _⟩ | ⟨_, hzero⟩
    · rw [hcookies] at hl ⊢
      exact (hx.placed st hk r j (hf.back st r j hk hl)).kept
    · rw [hzero] at hl
      exact absurd hl happ.not_zero
  dead st' hk' r j := by
    rcases hf.table hk' with ⟨st, hk, hcookies, _⟩ | ⟨_, hzero⟩
    · rw [hcookies]
      have hknown : (x.sys.socks (st.cookies r j)).isSome →
          (t.socks (st.cookies r j)).isSome := by
        intro hsome
        obtain ⟨sock, hs⟩ := Option.isSome_iff_exists.mp hsome
        obtain ⟨sock', hs', _⟩ := hf.socks _ sock hs
        simp [hs']
      rcases hx.dead st hk r j with hz | hl | ⟨hsome, hdead⟩
      · exact .inl hz
      · cases halive : t.alive (st.cookies r j) with
        | true => exact .inr (.inl (hf.live _ hl halive))
        | false => exact .inr (.inr ⟨hknown (hx.app.known hl), rfl⟩)
      · refine .inr (.inr ⟨hknown hsome, Bool.eq_false_iff.mpr fun halive => ?_⟩)
        rw [hf.alive _ hsome halive] at hdead
        cases hdead
    · exact .inl (hzero r j)
  serving hne := by
    obtain ⟨st, n, hk, hn, hP⟩ := hx.serving hne
    obtain ⟨st', hk', hcookies, hmax⟩ := hf.kept st hk
    exact ⟨st', n, hk', hn, hf.packed hk hP (fun _ hc => .inl hc) hcookies hmax⟩
  filling hne := by
    obtain ⟨n, hsome, hidx, hpacked⟩ := hx.filling hne
    refine ⟨n, fun hn => ?_, fun hn c hc => hf.unindexed hx hc (hidx hn c hc) ?_,
      fun st' hk' => ?_⟩
    · obtain ⟨st, hk⟩ := Option.isSome_iff_exists.mp (hsome hn)
      obtain ⟨st', hk', _⟩ := hf.kept st hk
      simp [hk']
    · intro st hk j hl
      have hlt := ((hpacked st hk).live_iff j).mp hl
      omega
    · rcases hf.table hk' with ⟨st, hk, hcookies, hmax⟩ | ⟨hnone, hzero⟩
      · exact hf.packed hk (hpacked st hk) (fun _ hc => .inr hc) hcookies hmax
      · obtain rfl : n = 0 := by
          by_contra hn
          simpa [hnone] using hsome (by omega)
        refine ⟨fun j hj => absurd hj (Nat.not_lt_zero _), fun j _ => ?_,
          fun h => absurd h (by decide), Nat.zero_le _⟩
        rw [hzero]
        exact happ.not_zero
  drained hne c hc := hf.closed c (hx.drained hne c hc)
  inHand := hhand
  progress := hprog

/-! ### Hooks and applications -/

/-- What the invariant needs of a step, once the instances have been noted. -/
structure Rollout.StepOk (k : Key) (ns : UInt64) (x : Rollout) (a : Action) : Prop where
  single : singleAppStep k ns x.sys a = true
  close : closesRetired x a = true
  asks : ∀ c g, groupCall k x.sys a = some (c, .socketGen, g) → c ∈ x.starting ∧ g = x.gen + 1

theorem Rollout.StepOk.ne_delete (h : x.StepOk k ns a) : a ≠ .delete k := by
  rintro rfl
  exact of_decide_eq_true h.single rfl

theorem Rollout.StepOk.isOpen (hok : x.StepOk k ns a) (hx : RolloutInv k ns x pc)
    (h : execute p x.sys a = some t) (hc : c ∈ x.current ∨ c ∈ x.starting) :
    t.isOpen c = true := by
  refine isOpen_kept h ?_ (hx.opened c hc)
  rintro rfl
  obtain ⟨hcur, hstart⟩ := of_decide_eq_true hok.close
  exact hc.elim hcur hstart

/-- Only the daemon gives out indices. -/
theorem unindexed_step (h : execute p s a = some t)
    (hna : ∀ env, a = .handle env → IsEmpty (Accepted s env t)) (hun : s.Unindexed c) :
    t.Unindexed c := by
  intro sock' ss' hs' hss'
  rcases sock_origin h hs' with ⟨sock, hs, hstep⟩ | ⟨_, _, hnone⟩
  · cases hstep with
    | same => exact hun _ ss' hs hss'
    | closed => exact hun sock ss' hs hss'
    | bound =>
      cases hss'
      rfl
    | generation _ _ _ _ _ _ ss hss =>
      cases hss'
      exact hun sock ss hs hss
    | application _ _ _ _ _ _ hi =>
      cases hss'
      exact hi
    | index env ha hacc => exact ((hna env ha).false hacc).elim
  · rw [hnone] at hss'
    cases hss'

theorem Rollout.StepOk.frame (hok : x.StepOk k ns a) (hx : RolloutInv k ns x pc)
    (ha : MicroSys.admits ⟨x.sys, pc⟩ a = true) (h : execute p x.sys a = some t) :
    x.Frame k t := by
  have hna : ∀ env, a = .handle env → IsEmpty (Accepted x.sys env t) := not_accepted ha
  have hcalm := calm_sys h hna
  have htables := tablesKept_sys h hna
  refine ⟨hcalm.alive, fun _ _ _ _ hl => hcalm.sockhash_sub hl, hcalm.sockhash_kept, ?_,
    fun c hc => hok.isOpen hx h hc, fun c => closed_kept h, ?_, ?_, ?_⟩
  · intro c sock hs
    obtain ⟨sock', hs', hstep⟩ := sock_step h hs
    exact ⟨sock', hs', hstep.key_eq⟩
  · intro c sock ss hs _ hss hi
    exact .inl fun hun => hi (unindexed_step h hna hun sock ss hs hss)
  · intro st hk
    obtain ⟨st', hk'⟩ :=
      Option.isSome_iff_exists.mp (group_survives h hok.ne_delete (by simp [hk]))
    rcases htables k st' hk' with ⟨st₀, hk₀, hcookies, hmax⟩ | ⟨hnone, _⟩
    · obtain rfl := Option.some.inj (hk.symm.trans hk₀)
      exact ⟨st', hk', hcookies, hmax⟩
    · rw [hk] at hnone
      cases hnone
  · intro hnone st' hk'
    rcases htables k st' hk' with ⟨st, hk, _⟩ | ⟨_, hzero, _⟩
    · rw [hk] at hnone
      cases hnone
    · exact hzero

/-- The row that a socket of the current or of the starting instance is registered in. -/
theorem RolloutInv.hand_row {r : Fishing} (hx : RolloutInv k ns x pc)
    (hr : pc.fishing = some r) (hkey : r.k = k)
    (hc : r.cookie ∈ x.current ∨ r.cookie ∈ x.starting) (hk : x.sys.groups k = some st) :
    ∃ S n, Packed st x.sys.sockhash S (genRow r.gen) n ∧
      ∀ c ∈ S, c ∈ x.current ∨ c ∈ x.starting := by
  cases hx.inHand r hr hkey with
  | starting hs hg =>
    obtain ⟨n, _, _, hpacked⟩ := hx.filling ⟨_, hs⟩
    exact ⟨x.starting, n, hg ▸ hpacked st hk, fun _ hc => .inr hc⟩
  | current hs hg =>
    obtain ⟨st', n, hk', _, hP⟩ := hx.serving ⟨_, hs⟩
    obtain rfl := Option.some.inj (hk.symm.trans hk')
    exact ⟨x.current, n, hg ▸ hP, fun _ hc => .inl hc⟩
  | retired hs =>
    rcases hc with hc | hc
    · exact absurd hs (hx.apart _ hc)
    · exact absurd hs (hx.disjoint _ hc).2

theorem Rollout.Scanned.frame {r : Placing} {seen : List Bool} {result : Option ℕ × ℕ}
    (h : x.Scanned k r seen result) (hx : RolloutInv k ns x pc) (hf : x.Frame k t)
    (hr : pc.fishing = some r.toFishing) (hkey : r.k = k) :
    ({ x with sys := t } : Rollout).Scanned k r seen result := by
  obtain ⟨⟨st, hk, hcopy⟩, hrow, hacc, hresult⟩ := h
  obtain ⟨st', hk', hcookies, hmax⟩ := hf.kept st hk
  refine ⟨⟨st', hk', hcookies.trans hcopy⟩, hrow, fun hc j hj => ?_, hresult⟩
  obtain ⟨S, n, hP, hS⟩ := hx.hand_row hr hkey hc hk
  have hP' := hf.packed hk hP hS hcookies hmax
  have hiff := (hP.live_iff j).trans (hP'.live_iff j).symm
  rw [hcookies, hcopy, ← hrow] at hiff
  rw [hacc hc j hj]
  exact decide_eq_decide.mpr hiff

theorem RolloutInv.frame_progress (hx : RolloutInv k ns x pc) (hf : x.Frame k t)
    (happ : SingleApp k ns ⟨t, pc⟩) : ({ x with sys := t } : Rollout).Progress k pc := by
  have hprog := hx.progress
  -- the socket in hand cannot die
  have hlive : ∀ r, pc.fishing = some r → r.cookie ∈ x.sys.sockhash →
      r.cookie ∈ t.sockhash := by
    intro r hr hl
    exact hf.live _ hl (happ.alive_iff.mpr (.inr ⟨r, hr, rfl⟩))
  cases pc with
  | idle | closing => trivial
  | reading r =>
    intro hkey
    obtain ⟨st, hk, hcopy⟩ := hprog hkey
    obtain ⟨st', hk', hcookies, _⟩ := hf.kept st hk
    exact ⟨st', hk', hcookies.trans hcopy⟩
  | scanning r seen found =>
    intro hkey
    obtain ⟨hlen, hscan⟩ := hprog hkey
    exact ⟨hlen, hscan.frame hx hf rfl hkey⟩
  | entered r seen pos len =>
    intro hkey
    obtain ⟨hlen, hscan, hl⟩ := hprog hkey
    exact ⟨hlen, hscan.frame hx hf rfl hkey, hlive r.toFishing rfl hl⟩
  | published r pos keep =>
    intro hkey
    obtain ⟨hpos, hslot⟩ := hprog hkey
    refine ⟨hpos, fun hc => ?_⟩
    obtain ⟨st, j, hk, hslot, hl⟩ := hslot hc
    obtain ⟨st', hk', hcookies, _⟩ := hf.kept st hk
    exact ⟨st', j, hk', hcookies ▸ hslot, hlive r.toFishing rfl hl⟩

theorem Rollout.InHand.kept {g : UInt32} (h : x.InHand c g)
    (hidx : ∀ d ∈ x.starting, x.sys.Unindexed d → t.Unindexed d) :
    ({ x with sys := t } : Rollout).InHand c g := by
  cases h with
  | starting hc hg => exact .starting hc hg
  | current hc hg => exact .current hc hg
  | retired hc hg hun => exact .retired hc hg fun d hd => hidx d hd (hun d hd)

theorem RolloutInv.pending_step (hx : RolloutInv k ns x pc) (hok : x.StepOk k ns a)
    (h : execute p x.sys a = some t) {pid gen app : UInt32} {cookie : UInt64}
    (hm : .registerSocket k pid cookie gen app ∈ t.ring) : x.Asks cookie gen := by
  cases ring_change h with
  | same hr => exact hx.pending pid cookie gen app (hr ▸ hm)
  | handled _ _ m hr => exact hx.pending pid cookie gen app (hr ▸ List.mem_cons_of_mem m hm)
  | posted m hp hr =>
    rw [hr, List.mem_append, List.mem_singleton] at hm
    rcases hm with hm | hm
    · exact hx.pending pid cookie gen app hm
    · generalize hkey : k = k' at hm
      cases hm
      cases hp with
      | @register c ctx env sock ss data hs hss ho hd _ =>
        obtain ⟨hc, hg⟩ := hok.asks c _ (groupCall_eq hs hkey.symm ho hd)
        rw [hx.app.wf.socks.own_cookie c sock ss hs hss]
        exact .starting hc hg

theorem RolloutInv.sys_step (hx : RolloutInv k ns x pc) (hok : x.StepOk k ns a)
    (ha : MicroSys.admits ⟨x.sys, pc⟩ a = true) (h : execute p x.sys a = some t) :
    RolloutInv k ns { x with sys := t } pc := by
  have hf := hok.frame hx ha h
  have happ : SingleApp k ns ⟨t, pc⟩ := SingleApp.sys ha h hok.single hx.app
  refine hx.frame hf happ (fun _ _ _ _ hm => hx.pending_step hok h hm) (fun r hr hkey => ?_)
    (hx.frame_progress hf happ)
  exact (hx.inHand r hr hkey).kept fun d _ => unindexed_step h (not_accepted ha)

/-! ### The daemon -/

theorem RolloutInv.frame_of_eq (hx : RolloutInv k ns x pc) (hs : t.socks = x.sys.socks)
    (hg : t.groups k = x.sys.groups k)
    (halive : ∀ c, (x.sys.socks c).isSome → t.alive c = true → x.sys.alive c = true)
    (hback : ∀ st r j, x.sys.groups k = some st → st.cookies r j ∈ t.sockhash →
      st.cookies r j ∈ x.sys.sockhash)
    (hlive : ∀ c ∈ x.sys.sockhash, t.alive c = true → c ∈ t.sockhash) : x.Frame k t where
  alive := halive
  back := hback
  live := hlive
  socks c sock h := ⟨sock, hs ▸ h, rfl⟩
  opened c hc := by
    rw [Sys.isOpen, hs]
    exact hx.opened c hc
  closed c := by
    rintro ⟨sock, h, ho⟩
    exact ⟨sock, hs ▸ h, ho⟩
  indexed c sock ss h _ hss hi := .inl fun hun => hi (hun sock ss (hs ▸ h) hss)
  kept st hk := ⟨st, hg.trans hk, rfl, rfl⟩
  born hnone st' hk' := by
    rw [hg, hnone] at hk'
    cases hk'

theorem RolloutInv.frame_of_calm (hx : RolloutInv k ns x pc) (hc : Calm x.sys t)
    (hs : t.socks = x.sys.socks) (hg : t.groups k = x.sys.groups k) : x.Frame k t :=
  hx.frame_of_eq hs hg hc.alive (fun _ _ _ _ hl => hc.sockhash_sub hl) hc.sockhash_kept

/-- The daemon lets go of the registration. -/
theorem RolloutInv.release (hx : RolloutInv k ns x pc) (hc : Calm x.sys t)
    (hs : t.socks = x.sys.socks) (hg : t.groups = x.sys.groups)
    (hr : ∀ m ∈ t.ring, m ∈ x.sys.ring) (happ : SingleApp k ns ⟨t, .idle⟩) :
    RolloutInv k ns { x with sys := t } .idle := by
  refine hx.frame (hx.frame_of_calm hc hs (by rw [hg])) happ ?_ (by rintro _ ⟨⟩) trivial
  intro pid cookie gen app hm
  exact hx.pending pid cookie gen app (hr _ hm)

/-- A socket that the daemon has found is open, so it is not one of a long gone instance. -/
theorem Rollout.Asks.inHand {g : UInt32} (h : x.Asks c g) (hx : RolloutInv k ns x pc)
    (ho : x.sys.isOpen c = true) : x.InHand c g := by
  have hopen := Sys.not_closed ho
  cases h with
  | starting hc hg => exact .starting hc hg
  | current hc hg => exact .current hc hg
  | retired hc hg =>
    refine .retired hc (hg.resolve_left hopen) fun d hd => ?_
    exact absurd (hx.drained ⟨d, hd⟩ c hc) hopen

theorem RolloutInv.fish {env : DaemonEnv} {u : MicroSys} (hx : RolloutInv k ns x pc)
    (h : MicroSys.fish ⟨x.sys, pc⟩ env = some u) :
    RolloutInv k ns { x with sys := u.sys } u.daemon := by
  have happ := hx.app.fish h
  cases fish_effect (p := .const) h with
  | @lost _ m rest hd hr =>
    have hcalm := calm_crash { x.sys.tick env.now with ring := rest }
    refine hx.release ⟨hcalm.known, hcalm.zero, hcalm.alive, hcalm.fds, hcalm.sockhash_sub,
      hcalm.sockhash_kept⟩ rfl rfl (fun m hm => ?_) happ
    exact (show x.sys.ring = _ from hr) ▸ List.mem_cons_of_mem _ hm
  | @fished _ k' pid gen app cookie rest f st hd hr ho hk =>
    have hring : x.sys.ring = .registerSocket k' pid cookie gen app :: rest := hr
    refine hx.frame (hx.frame_of_calm (calm_fished ho) rfl rfl) happ ?_ ?_ ?_
    · intro pid cookie gen app hm
      exact hx.pending pid cookie gen app (hring ▸ List.mem_cons_of_mem _ hm)
    · rintro r ⟨⟩ rfl
      have hasks := hx.pending pid cookie gen app (by simp [hring])
      exact (hasks.inHand hx ho).kept fun _ _ hun => hun
    · rintro rfl
      exact ⟨st, hk, rfl⟩

/-- The socket in hand enters `sockhash`; slots that hold it were live before. -/
theorem RolloutInv.enter {r : Placing} {seen : List Bool} {found : FindEmpty}
    {sockhash : Finset UInt64} (hx : RolloutInv k ns x (.scanning r seen found))
    (hsh : sockhashUpdate x.sys.sockhash r.cookie = some sockhash) :
    x.Frame k { x.sys with sockhash := sockhash } := by
  refine hx.frame_of_eq rfl rfl (fun _ _ ha => ha) (fun st row j hk hl => ?_) fun c hc _ =>
    (mem_sockhashUpdate hsh).mpr (.inl hc)
  rcases (mem_sockhashUpdate hsh).mp hl with hl | he
  · exact hl
  · have halive : x.sys.alive r.cookie = true := hx.app.alive_iff.mpr (.inr ⟨_, rfl, rfl⟩)
    obtain ⟨sock, hs, _⟩ := (hx.app.fishing r.toFishing rfl).sock
    rcases hx.dead st hk row j with hz | hl | ⟨_, hdead⟩
    · exact absurd (he.symm.trans hz) (hx.app.wf.socks.ne_zero _ sock hs)
    · exact hl
    · rw [he, halive] at hdead
      cases hdead

/-- Where a registration goes. -/
theorem RolloutInv.place {r : Fishing} (hx : RolloutInv k ns x pc) (hr : pc.fishing = some r)
    (hkey : r.k = k) : x.Stands (genRow r.gen) r.cookie ∧
      (genRow r.gen = genRow x.gen → r.cookie ∈ x.current) ∧
      (genRow r.gen = genRow (x.gen + 1) → r.cookie ∈ x.starting) := by
  cases hx.inHand r hr hkey with
  | starting hc hg =>
    rw [hg]
    exact ⟨.starting hc rfl, fun he => absurd he (genRow_succ_ne x.gen), fun _ => hc⟩
  | current hc hg =>
    rw [hg]
    exact ⟨.current hc rfl, fun _ => hc, fun he => absurd he.symm (genRow_succ_ne x.gen)⟩
  | retired hc hg =>
    rw [← hg]
    exact ⟨.retired hc (hg ▸ (genRow_add_two_ne r.gen).symm),
      fun he => absurd he.symm (genRow_succ_ne r.gen),
      fun he => absurd he.symm (genRow_add_two_ne r.gen)⟩

theorem Rollout.Scanned.scan_eq {r : Placing} {seen : List Bool} {pos len : ℕ}
    (h : x.Scanned k r seen (some pos, len)) (hlen : seen.length = MAX_SOCKETS_IN_GEN)
    (hk : x.sys.groups k = some st) (hc : r.cookie ∈ x.current ∨ r.cookie ∈ x.starting) :
    SlotScan.scan (rowLive st (genRow r.wg) x.sys.sockhash) MAX_SOCKETS_IN_GEN =
      (some pos, len) := by
  obtain ⟨⟨st', hk', hcopy⟩, _, hacc, hresult⟩ := h
  obtain rfl := Option.some.inj (hk.symm.trans hk')
  rw [hresult, hlen]
  refine SlotScan.scan_congr fun i hi => ?_
  have hslot := hacc hc ⟨i, hi⟩ (by rw [hlen]; exact hi)
  rw [← rowCookies_val, rowCookies, ← hcopy] at hslot
  exact hslot.symm

/-- The slot is written at the end of a packed row, or in a row of no interest. -/
theorem RolloutInv.packed_publish {r : Placing} {seen : List Bool} {pos len : ℕ} {row : Row}
    (hx : RolloutInv k ns x (.entered r seen pos len)) (hkey : r.k = k)
    (hk : x.sys.groups k = some st) (hP : Packed st x.sys.sockhash S row n)
    (hS : genRow r.wg = row → r.cookie ∈ S)
    (hc : genRow r.wg = row → r.cookie ∈ x.current ∨ r.cookie ∈ x.starting) :
    ∃ n', n ≤ n' ∧ Packed (st.setCookie r.wg (UInt32.ofNat pos) (UInt32.ofNat len) r.cookie)
      x.sys.sockhash S row n' := by
  obtain ⟨hlen, hscan, hlive⟩ := hx.progress hkey
  by_cases hr : genRow r.wg = row
  · subst hr
    exact ⟨n + 1, n.le_succ, hP.accept (hscan.scan_eq hlen hk (hc rfl)) (hS rfl) hlive
      (fun _ _ hl => hl) fun _ hl => hl⟩
  · exact ⟨n, le_rfl, hP.frame (setCookie_cookies_row _ _ _ _ _ (Ne.symm hr))
      (setCookie_maxIdx_row _ _ _ _ _ (Ne.symm hr)) (fun _ _ hl => hl) fun _ hl => hl⟩

theorem RolloutInv.publish {r : Placing} {seen : List Bool} {pos len : ℕ} {keep : Bool}
    (hx : RolloutInv k ns x (.entered r seen pos len)) (hkey : r.k = k)
    (hk : x.sys.groups k = some st)
    (hst' : st' = st.setCookie r.wg (UInt32.ofNat pos) (UInt32.ofNat len) r.cookie)
    (happ : SingleApp k ns ⟨x.sys.setGroup k st', .published r pos keep⟩) :
    RolloutInv k ns { x with sys := x.sys.setGroup k st' } (.published r pos keep) := by
  obtain ⟨hlen, hscan, hlive⟩ := hx.progress hkey
  obtain ⟨hstands, hcur, hstart⟩ := hx.place (r := r.toFishing) rfl hkey
  rw [← hscan.row] at hstands hcur hstart
  have hk' : (x.sys.setGroup k st').groups k = some st' := Function.update_self ..
  have hat : ∀ row j, (row = genRow r.wg ∧ st'.cookies row j = r.cookie) ∨
      st'.cookies row j = st.cookies row j := by
    intro row j
    rw [hst', setCookie_cookies]
    split_ifs with he
    · exact .inl ⟨he.1, rfl⟩
    · exact .inr rfl
  refine ⟨happ, hx.members, hx.opened, hx.disjoint, hx.apart, hx.registered, ?_, ?_, ?_, ?_, ?_,
    hx.drained, ?_, ?_⟩
  · intro pid cookie gen app hm
    exact (hx.pending pid cookie gen app hm).kept id
  · intro st₁ hk₁ row j hl
    obtain rfl := Option.some.inj (hk'.symm.trans hk₁)
    rcases hat row j with ⟨rfl, he⟩ | he <;> rw [he] at hl ⊢
    · exact hstands.kept
    · exact (hx.placed st hk row j hl).kept
  · intro st₁ hk₁ row j
    obtain rfl := Option.some.inj (hk'.symm.trans hk₁)
    rcases hat row j with ⟨rfl, he⟩ | he <;> rw [he]
    · exact .inr (.inl hlive)
    · exact hx.dead st hk row j
  · intro hne
    obtain ⟨st₀, n, hk₀, hn, hP⟩ := hx.serving hne
    obtain rfl := Option.some.inj (hk.symm.trans hk₀)
    obtain ⟨n', hle, hP'⟩ := hx.packed_publish hkey hk hP hcur fun hr => .inl (hcur hr)
    exact ⟨st', n', hk', by omega, hst' ▸ hP'⟩
  · intro hne
    obtain ⟨n, _, hidx, hpacked⟩ := hx.filling hne
    obtain ⟨n', hle, hP'⟩ := hx.packed_publish hkey hk (hpacked st hk) hstart fun hr =>
      .inr (hstart hr)
    refine ⟨n', fun _ => by simp [hk'], fun hn => hidx (by omega), fun st₁ hk₁ => ?_⟩
    obtain rfl := Option.some.inj (hk'.symm.trans hk₁)
    exact hst' ▸ hP'
  · intro r' hr' hkey'
    exact (hx.inHand r' hr' hkey').kept fun _ _ hun => hun
  · intro _
    refine ⟨?_, fun hc => ⟨st', idxSlot (UInt32.ofNat pos), hk', ?_, hlive⟩⟩
    · have hpos := (SlotScan.free_spec (congrArg Prod.fst hscan.result.symm)).1
      rwa [hlen] at hpos
    · have hr : genRow (x.gen + 1) = genRow r.wg := by
        cases hstands with
        | starting _ hr => exact hr.symm
        | current hc' => exact absurd hc' (hx.disjoint _ hc).1
        | retired hc' => exact absurd hc' (hx.disjoint _ hc).2
      rw [hr, hst', setCookie_cookies_self]

/-- The daemon writes the index of the socket in hand. -/
theorem RolloutInv.frame_index {r : Placing} {pos : ℕ} {keep : Bool} {ss : SocketStorage}
    (hx : RolloutInv k ns x (.published r pos keep)) :
    x.Frame k (x.sys.setStorage r.cookie ss) where
  alive := (calm_setStorage x.sys r.cookie ss).alive
  back _ _ _ _ hl := hl
  live _ hl _ := hl
  socks c sock hs := by
    rw [setStorage_socks]
    split_ifs
    · exact ⟨{ sock with storage := some ss }, by rw [hs]; rfl, rfl⟩
    · exact ⟨sock, hs, rfl⟩
  opened c hc := by
    rw [setStorage_isOpen]
    exact hx.opened c hc
  closed c := by
    rintro ⟨sock, hs, ho⟩
    rw [Sys.closed, setStorage_socks]
    split_ifs
    · exact ⟨{ sock with storage := some ss }, by rw [hs]; rfl, ho⟩
    · exact ⟨sock, hs, ho⟩
  indexed c sock ss' hs hkey hss hi := by
    rw [setStorage_socks] at hs
    split_ifs at hs with he
    · subst he
      obtain ⟨sock₀, hs₀, rfl⟩ := Option.map_eq_some_iff.mp hs
      obtain ⟨sock₁, hs₁, hkey₁⟩ := (hx.app.fishing r.toFishing rfl).sock
      obtain rfl := Option.some.inj (hs₀.symm.trans hs₁)
      have hrk : r.k = k := hkey₁.symm.trans hkey
      refine .inr ⟨(hx.inHand r.toFishing rfl hrk).member, fun hc => ?_⟩
      obtain ⟨st, j, hk, hslot, hlive⟩ := (hx.progress hrk).2 hc
      exact ⟨st, j, hk, hslot ▸ hlive⟩
    · exact .inl fun hun => hi (hun sock ss' hs hss)
  kept st hk := ⟨st, hk, rfl, rfl⟩
  born hnone st' hk' := by
    have hk₀ : x.sys.groups k = some st' := hk'
    rw [hnone] at hk₀
    cases hk₀

theorem RolloutInv.wrote {r : Placing} {pos : ℕ} {keep : Bool} {ss : SocketStorage}
    (hx : RolloutInv k ns x (.published r pos keep))
    (happ : SingleApp k ns ⟨x.sys.setStorage r.cookie ss, .closing r keep⟩) :
    RolloutInv k ns { x with sys := x.sys.setStorage r.cookie ss } (.closing r keep) := by
  refine hx.frame hx.frame_index happ hx.pending ?_ trivial
  rintro _ ⟨⟩ hkey
  -- the index goes to the socket in hand, which is not one of the starting instance here
  cases hx.inHand r.toFishing rfl hkey with
  | starting hc hg => exact .starting hc hg
  | current hc hg => exact .current hc hg
  | retired hc hg hun =>
    refine .retired hc hg fun d hd sock ss' hs hss => ?_
    have hne : d ≠ r.cookie := by
      rintro rfl
      exact (hx.disjoint _ hd).2 hc
    rw [setStorage_socks, if_neg hne] at hs
    exact hun d hd sock ss' hs hss

theorem RolloutInv.daemon {u : MicroSys} (hx : RolloutInv k ns x pc)
    (h : MicroSys.daemonStep ⟨x.sys, pc⟩ = some u) :
    RolloutInv k ns { x with sys := u.sys } u.daemon := by
  have happ := hx.app.daemon h
  have hself : x.Frame k x.sys := hx.frame_of_calm (calm_of_eq rfl rfl rfl) rfl rfl
  cases daemonStep_effect h with
  | crashed => exact hx.release (calm_crash _) rfl rfl (fun _ hm => hm) happ
  | @read r ss wg hd hss hwg =>
    obtain rfl : pc = .reading r := hd
    refine hx.frame hself happ hx.pending ?_ fun hkey => ?_
    · rintro _ ⟨⟩ hkey
      exact hx.inHand r rfl hkey
    · have hfish := hx.app.fishing r rfl
      have hrow : genRow wg = genRow r.gen := by
        rw [← toWrkGen?_eq_some hwg, hfish.app hkey]
        exact genRow_toWrkGen_single (hfish.maxApps hkey)
      refine ⟨Nat.zero_le _, hx.progress hkey, hrow, fun _ j hj => ?_, rfl⟩
      exact absurd hj (Nat.not_lt_zero _)
  | @looked r seen found hd hlt =>
    obtain rfl : pc = .scanning r seen found := hd
    refine hx.frame hself happ hx.pending ?_ fun hkey => ?_
    · rintro _ ⟨⟩ hkey
      exact hx.inHand r.toFishing rfl hkey
    · obtain ⟨_, hcopied, hrow, hacc, hresult⟩ := hx.progress hkey
      refine ⟨?_, hcopied, hrow, fun hc j hj => ?_, scan_look x.sys.sockhash r.cookie hresult⟩
      · rw [List.length_append, List.length_singleton]
        exact hlt
      · obtain ⟨hold, hnew⟩ :=
          getD_look seen (rowLive r.st (genRow r.wg) x.sys.sockhash seen.length)
        rw [List.length_append, List.length_singleton] at hj
        rcases Nat.lt_succ_iff_lt_or_eq.mp hj with hj | hj
        · exact (hold _ hj).trans (hacc hc j hj)
        · rw [hj]
          refine hnew.trans ?_
          rw [rowLive, ← hj, rowCookies_val]
  | @refused r seen found hd =>
    obtain rfl : pc = .scanning r seen found := hd
    refine hx.frame hself happ hx.pending ?_ trivial
    rintro _ ⟨⟩ hkey
    exact hx.inHand r.toFishing rfl hkey
  | @entered r seen found pos sockhash hd hge hfree hsh =>
    obtain rfl : pc = .scanning r seen found := hd
    have hf := hx.enter hsh
    refine hx.frame hf happ hx.pending ?_ fun hkey => ?_
    · rintro _ ⟨⟩ hkey
      exact (hx.inHand r.toFishing rfl hkey).kept fun _ _ hun => hun
    · obtain ⟨hle, hscan⟩ := hx.progress hkey
      rw [hfree] at hscan
      exact ⟨le_antisymm hle hge, hscan.frame hx hf rfl hkey,
        (mem_sockhashUpdate hsh).mpr (.inr rfl)⟩
  | @published r seen pos len st base keep hd hk hb =>
    obtain rfl : pc = .entered r seen pos len := hd
    have hfish := hx.app.fishing r.toFishing rfl
    obtain ⟨rfl, rfl⟩ : base = x.sys ∧ keep = false := by
      refine hb.resolve_right fun hlabel => ?_
      have := hfish.unlabelled
      simp [hlabel.1] at this
    by_cases hkey : r.k = k
    · subst hkey
      exact hx.publish rfl hk rfl happ
    · have hne : k ≠ r.k := fun he => hkey he.symm
      have hf : x.Frame k (x.sys.setGroup r.k
          (st.setCookie r.wg (UInt32.ofNat pos) (UInt32.ofNat len) r.cookie)) :=
        hx.frame_of_calm (calm_of_eq rfl rfl rfl) rfl (Function.update_of_ne hne ..)
      refine hx.frame hf happ hx.pending ?_ fun he => absurd he hkey
      rintro _ ⟨⟩ he
      exact absurd he hkey
  | @wrote r pos keep hd =>
    obtain rfl : pc = .published r pos keep := hd
    exact hx.wrote happ
  | @closed r keep hd =>
    obtain rfl : pc = .closing r keep := hd
    obtain rfl : keep = false := hx.app.keeps
    exact hx.release (calm_closeFds x.sys x.sys.tubular [r.f]) rfl rfl (fun _ hm => hm) happ

/-! ### Instances along a run -/

theorem Rollout.note_sys (p : Programs) (k : Key) (x : Rollout) (a : Action) :
    (x.note p k a).sys = x.sys := by
  unfold Rollout.note
  split
  · rfl
  · split <;> rfl
  · rfl

theorem RolloutInv.noted (hx : RolloutInv k ns x pc) (hf : followsProtocol k ns x a = true)
    (h : execute p x.sys a = some t) :
    RolloutInv k ns (x.note p k a) pc ∧ (x.note p k a).StepOk k ns a := by
  rw [followsProtocol, Bool.and_eq_true, Bool.and_eq_true] at hf
  obtain ⟨⟨hsingle, hcalls⟩, hclose⟩ := hf
  unfold Rollout.note
  split
  · rename_i c g hcall
    obtain ⟨hg, hcur, hret, hgone⟩ := callsInOrder_socketGen hcall hcalls
    obtain ⟨ctx, env, sock, data, rfl, hs, hkey, _⟩ := groupCall_some hcall
    have ho : x.sys.isOpen c = true := by
      cases execute_effect h with
      | setsockopt ho => exact ho
    refine ⟨hx.join hs hkey ho hcur hret hgone, hsingle, rfl, fun c' g' hcall' => ?_⟩
    rw [hcall] at hcall'
    cases hcall'
    exact ⟨Finset.mem_insert_self .., hg⟩
  · rename_i c g hcall
    obtain ⟨_, hc, hidx⟩ := callsInOrder_workingGen hcall hcalls
    obtain ⟨ctx, env, sock, data, rfl, _⟩ := groupCall_some hcall
    split
    · refine ⟨hx.takeOver ⟨c, hc⟩ hidx, hsingle, rfl, fun c' g' hcall' => ?_⟩
      rw [hcall] at hcall'
      cases hcall'
    · refine ⟨hx, hsingle, rfl, fun c' g' hcall' => ?_⟩
      rw [hcall] at hcall'
      cases hcall'
  · rename_i hnot _
    exact ⟨hx, hsingle, hclose, fun c' g' hcall' => absurd hcall' (hnot c' g')⟩

/-- With no other step in between, the daemon goes from message to message. -/
theorem RolloutInv.alone {u v : MicroSys} (hx : RolloutInv k ns { x with sys := u.sys } u.daemon)
    (h : MicroRun p u (List.replicate n .daemon) v) :
    RolloutInv k ns { x with sys := v.sys } v.daemon := by
  induction n generalizing u with
  | zero =>
    cases h
    exact hx
  | succ n ih =>
    cases h with
    | stepL hstep hrest => exact ih (hx.daemon hstep) hrest

theorem RolloutInv.step (hx : RolloutInv k ns x .idle) (hf : followsProtocol k ns x a = true)
    (h : execute p x.sys a = some t) :
    RolloutInv k ns { x.note p k a with sys := t } .idle := by
  by_cases hfish : ∃ env, a = .handle env ∧ registersFished x.sys env = true
  · obtain ⟨env, rfl, hfish⟩ := hfish
    obtain ⟨m, hrun⟩ := handle_alone hx.app.live_alive hfish h
    cases hrun with
    | stepL hstep hrest => exact (hx.fish hstep).alone hrest
  · obtain ⟨hx', hok⟩ := hx.noted hf h
    rw [← Rollout.note_sys p k x a] at h
    refine hx'.sys_step hok ?_ h
    cases a with
    | handle env =>
      rw [Rollout.note_sys]
      simpa [MicroSys.admits, DaemonPc.isIdle] using hfish
    | _ => rfl

/-! ### A rollout with the daemon's steps -/

/-- A rollout with the place where the daemon stands in `handle_msg`. -/
structure SteppedRollout where
  rollout : Rollout
  daemon : DaemonPc

namespace SteppedRollout

def initial (g : UInt32) : SteppedRollout := ⟨.initial g, .idle⟩

def micro (x : SteppedRollout) : MicroSys := ⟨x.rollout.sys, x.daemon⟩

/-- The instances change by the calls of applications only. -/
def note (p : Programs) (k : Key) (x : SteppedRollout) : MicroAction → Rollout
  | .sys a => x.rollout.note p k a
  | .fish _ | .daemon => x.rollout

def step (p : Programs) (k : Key) (x : SteppedRollout) (a : MicroAction) :
    Option SteppedRollout :=
  (microExecute p x.micro a).map fun t => ⟨{ x.note p k a with sys := t.sys }, t.daemon⟩

def followsProtocol (k : Key) (ns : UInt64) (x : SteppedRollout) : MicroAction → Bool
  | .sys a => Udpgrm.followsProtocol k ns x.rollout a
  | .fish _ | .daemon => true

theorem step_sys {x y : SteppedRollout} (h : x.step p k (.sys a) = some y) :
    Rollout.step p k x.rollout a = some y.rollout := by
  obtain ⟨t, ht, rfl⟩ := Option.map_eq_some_iff.mp h
  cases microExecute_effect ht with
  | sys _ he => exact Option.map_eq_some_iff.mpr ⟨_, he, rfl⟩

end SteppedRollout

abbrev steppedProtocol (p : Programs) (k : Key) (ns : UInt64) :
    Transition.LTS SteppedRollout MicroAction :=
  (Transition.LTS.ofFn (SteppedRollout.step p k)).restrict fun x a =>
    x.followsProtocol k ns a = true

theorem RolloutInv.stepped {x y : SteppedRollout} {a : MicroAction}
    (hx : RolloutInv k ns x.rollout x.daemon) (hf : x.followsProtocol k ns a = true)
    (h : x.step p k a = some y) : RolloutInv k ns y.rollout y.daemon := by
  obtain ⟨t, ht, rfl⟩ := Option.map_eq_some_iff.mp h
  cases a with
  | sys a =>
    cases microExecute_effect ht with
    | sys ha he =>
      obtain ⟨hx', hok⟩ := hx.noted hf he
      refine hx'.sys_step (p := p) hok ?_ ?_ <;> rwa [Rollout.note_sys]
  | fish env => exact hx.fish ht
  | daemon => exact hx.daemon ht

end Udpgrm
