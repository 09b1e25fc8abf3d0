import Udpgrm.DaemonSteps

/-! The cookie table while registrations and closes go on: the shape of its rows. -/
namespace Udpgrm

variable {p : Programs} {s t : Sys} {a : Action} {c : UInt64}

/-! ### Rows -/

/-- Exactly the slots below some `n` are in use, `max_idx` is at most `n` and positive where
the row is in use, and every live socket is below `max_idx`. -/
def RowOk (live : Finset UInt64) (row : Slot → UInt64) (maxIdx : UInt32) : Prop :=
  ∃ n ≤ MAX_SOCKETS_IN_GEN, (∀ j : Slot, row j ≠ 0 ↔ j.val < n) ∧ maxIdx.toNat ≤ n ∧
    (0 < n → 0 < maxIdx.toNat) ∧ ∀ j, row j ∈ live → j.val < maxIdx.toNat

theorem RowOk.mono {live live' : Finset UInt64} {row : Slot → UInt64} {maxIdx : UInt32}
    (h : RowOk live row maxIdx) (hsub : ∀ j, row j ∈ live' → row j ∈ live) :
    RowOk live' row maxIdx := by
  obtain ⟨n, hn, hused, hmax, hpos, hlive⟩ := h
  exact ⟨n, hn, hused, hmax, hpos, fun j hj => hlive j (hsub j hj)⟩

theorem rowOk_unused {live : Finset UInt64} {row : Slot → UInt64} {maxIdx : UInt32}
    (hz : 0 ∉ live) (hrow : ∀ j, row j = 0) (hmax : maxIdx = 0) : RowOk live row maxIdx := by
  refine ⟨0, Nat.zero_le _, fun j => ?_, by simp [hmax], by simp, fun j hj => ?_⟩
  · simp [hrow j]
  · rw [hrow j] at hj
    exact absurd hj hz

/-- A registration into the slot that the scan found. What the scan saw live was in use, and
what it saw free is not live when the slot is written. -/
theorem RowOk.register {live : Finset UInt64} {row row' : Slot → UInt64} {maxIdx : UInt32}
    {seen : ℕ → Bool} {pos len : ℕ} (h : RowOk live row maxIdx) (hc : c ≠ 0)
    (hscan : SlotScan.scan seen MAX_SOCKETS_IN_GEN = (some pos, len))
    (hseen : ∀ j : Slot, seen j.val = true → row j ≠ 0)
    (hfree : ∀ j : Slot, seen j.val = false → row j ∉ live)
    (hrow : row' = Function.update row (Fin.ofNat MAX_SOCKETS_IN_GEN pos) c) :
    RowOk live row' (UInt32.ofNat len) := by
  obtain ⟨n, hn, hused, _, _, _⟩ := h
  obtain ⟨hpos, _, _⟩ := SlotScan.free_spec (congrArg Prod.fst hscan)
  have hslot : ∀ j : Slot, j = Fin.ofNat MAX_SOCKETS_IN_GEN pos ↔ j.val = pos := by
    intro j
    rw [Fin.ext_iff, Fin.val_ofNat, Nat.mod_eq_of_lt hpos]
  have hwithin : ∀ i < MAX_SOCKETS_IN_GEN, seen i = true → i < n := by
    intro i hi hs
    exact (hused ⟨i, hi⟩).mp (hseen ⟨i, hi⟩ hs)
  obtain ⟨hle, hlen⟩ := SlotScan.scan_within hwithin hscan
  have hfree_lt : pos < len := by
    have := SlotScan.free_lt_len (congrArg Prod.fst hscan)
    rwa [hscan] at this
  have hlen_le : len ≤ MAX_SOCKETS_IN_GEN := by
    have : (SlotScan.scan seen MAX_SOCKETS_IN_GEN).2 ≤ MAX_SOCKETS_IN_GEN := SlotScan.len_le
    rwa [hscan] at this
  have htoNat : (UInt32.ofNat len).toNat = len := by
    rw [UInt32.toNat_ofNat', Nat.mod_eq_of_lt]
    exact lt_of_le_of_lt hlen_le (by decide)
  rw [RowOk, htoNat, hrow]
  refine ⟨max n (pos + 1), by omega, fun j => ?_, hlen, fun _ => by omega, fun j hj => ?_⟩
  · by_cases hj : j = Fin.ofNat MAX_SOCKETS_IN_GEN pos
    · have := (hslot j).mp hj
      rw [hj, Function.update_self, ← hj]
      exact ⟨fun _ => by omega, fun _ => hc⟩
    · have := mt (hslot j).mpr hj
      rw [Function.update_of_ne hj, hused]
      omega
  · by_cases hjp : j = Fin.ofNat MAX_SOCKETS_IN_GEN pos
    · rw [(hslot j).mp hjp]
      exact hfree_lt
    · rw [Function.update_of_ne hjp] at hj
      cases hs : seen j.val with
      | false => exact absurd hj (hfree j hs)
      | true =>
        have := SlotScan.live_lt_len j.isLt hs
        rwa [hscan] at this

/-! ### Steps that add nothing to `sockhash` -/

/-- No socket comes to life, is forgotten or enters `sockhash`, and `sockhash` loses dead
sockets only. -/
structure Calm (s t : Sys) : Prop where
  known : ∀ c, (s.socks c).isSome → (t.socks c).isSome
  zero : s.socks 0 = none → t.socks 0 = none
  alive : ∀ c, (s.socks c).isSome → t.alive c = true → s.alive c = true
  fds : ∀ q ∈ t.fds, q ∈ s.fds ∨ (t.socks q.2).isSome
  sockhash_sub : t.sockhash ⊆ s.sockhash
  sockhash_kept : ∀ c ∈ s.sockhash, t.alive c = true → c ∈ t.sockhash

/-- The daemon lets go of descriptors. -/
theorem calm_closeFds (s : Sys) (store : TubularStore) (closed : List ℕ) :
    Calm s (({ s with tubular := store } : Sys).closeFds closed) where
  known _ h := h
  zero h := h
  alive c _ ha := by
    rw [Sys.alive_iff] at ha ⊢
    refine ha.imp_right ?_
    rintro ⟨q, hq, rfl⟩
    exact ⟨q, List.mem_of_mem_filter hq, rfl⟩
  fds q hq := .inl (List.mem_of_mem_filter hq)
  sockhash_sub _ hc := (Sys.mem_reap.mp hc).1
  sockhash_kept _ hc ha := Sys.mem_reap.mpr ⟨hc, ha⟩

theorem calm_crash (s : Sys) : Calm s s.crash where
  known _ h := h
  zero h := h
  alive c _ ha := by
    rw [Sys.alive_iff] at ha ⊢
    exact ha.imp_right fun ⟨q, hq, _⟩ => by cases hq
  fds q hq := by cases hq
  sockhash_sub _ hc := (Sys.mem_reap.mp hc).1
  sockhash_kept _ hc ha := Sys.mem_reap.mpr ⟨hc, ha⟩

theorem calm_setStorage (s : Sys) (c' : UInt64) (ss : SocketStorage) :
    Calm s (s.setStorage c' ss) where
  known c h := by
    rw [setStorage_socks]
    split <;> simp [h]
  zero h := by simp [setStorage_socks, h]
  alive c _ ha := by
    rw [Sys.alive_iff] at ha ⊢
    rwa [setStorage_isOpen] at ha
  fds _ hq := .inl hq
  sockhash_sub _ hc := hc
  sockhash_kept _ hc _ := hc

theorem calm_sys (h : execute p s a = some t)
    (hna : ∀ env, a = .handle env → IsEmpty (Accepted s env t)) : Calm s t := by
  have hsh : t.sockhash ⊆ s.sockhash ∧ ∀ c ∈ s.sockhash, t.alive c = true → c ∈ t.sockhash := by
    rcases sockhash_step h with ⟨env, rfl, ⟨hacc⟩⟩ | hsh
    · exact ((hna env rfl).false hacc).elim
    · exact hsh
  refine ⟨fun c hc => ?_, fun hz => ?_, fun c hc ha => ?_, fun q hq => ?_, hsh.1, hsh.2⟩
  · obtain ⟨sock, hs⟩ := Option.isSome_iff_exists.mp hc
    obtain ⟨sock', hs', _⟩ := sock_step h hs
    simp [hs']
  · cases hz' : t.socks 0 with
    | none => rfl
    | some sock =>
      obtain ⟨_, _, _, hne, _⟩ := sock_new h hz hz'
      exact absurd rfl hne
  · obtain ⟨sock, hs⟩ := Option.isSome_iff_exists.mp hc
    rw [Sys.alive_iff] at ha ⊢
    refine ha.imp (fun ho => ?_) fun ⟨q, hq, hqc⟩ => ⟨q, fds_sub h hna q hq, hqc⟩
    by_contra hno
    have hclosed : s.closed c := ⟨sock, hs, by simpa [Sys.isOpen, hs] using hno⟩
    exact Sys.not_closed ho (closed_kept h hclosed)
  · exact .inl (fds_sub h hna q hq)

/-! ### The table -/

/-- The tables of all groups, and what ties them to the sockets. -/
structure TableOk (s : Sys) : Prop where
  zero : s.socks 0 = none
  fds : ∀ q ∈ s.fds, (s.socks q.2).isSome
  known : ∀ k st r j, s.groups k = some st → st.cookies r j ≠ 0 →
    (s.socks (st.cookies r j)).isSome
  held : ∀ k st r j, s.groups k = some st → s.alive (st.cookies r j) = true →
    st.cookies r j ∈ s.sockhash
  rows : ∀ k st r, s.groups k = some st → RowOk s.sockhash (st.cookies r) (st.maxIdx r)
  sockets : ∀ c ∈ s.sockhash, (s.socks c).isSome

theorem alive_zero (hz : s.socks 0 = none) (hfds : ∀ q ∈ s.fds, (s.socks q.2).isSome) :
    s.alive 0 = false := by
  rw [← Bool.not_eq_true, Sys.alive_iff]
  rintro (ho | ⟨q, hq, hq0⟩)
  · simp [Sys.isOpen, hz] at ho
  · have := hfds q hq
    simp [hq0, hz] at this

theorem TableOk.zero_not_mem (h : TableOk s) : 0 ∉ s.sockhash := by
  intro hz
  have := h.sockets 0 hz
  simp [h.zero] at this

/-- A cookie of the table that is dead stays dead. -/
theorem TableOk.dead_kept {k : Key} {st : ReuseportStorage} {r : Row} {j : Slot}
    (h : TableOk s) (hc : Calm s t) (hk : s.groups k = some st)
    (hdead : s.alive (st.cookies r j) = false) (ht : TableOk t) :
    t.alive (st.cookies r j) = false := by
  by_cases hz : st.cookies r j = 0
  · rw [hz]
    exact alive_zero ht.zero ht.fds
  · rw [← Bool.not_eq_true]
    intro ha
    have := hc.alive _ (h.known k st r j hk hz) ha
    simp [hdead] at this

/-- Each group keeps its table or is new. -/
def TablesKept (s t : Sys) : Prop :=
  ∀ k st', t.groups k = some st' →
    (∃ st, s.groups k = some st ∧ st'.cookies = st.cookies ∧ st'.maxIdx = st.maxIdx) ∨
      (s.groups k = none ∧ (∀ r j, st'.cookies r j = 0) ∧ ∀ r, st'.maxIdx r = 0)

theorem TablesKept.of_eq (h : t.groups = s.groups) : TablesKept s t :=
  fun _ st' hk => .inl ⟨st', h ▸ hk, rfl, rfl⟩

theorem tableOk_calm (hc : Calm s t) (hg : TablesKept s t) (h : TableOk s) : TableOk t := by
  have hzero : t.socks 0 = none := hc.zero h.zero
  have hfds : ∀ q ∈ t.fds, (t.socks q.2).isSome := by
    intro q hq
    rcases hc.fds q hq with hq | hq
    · exact hc.known _ (h.fds q hq)
    · exact hq
  have hz : t.alive 0 = false := alive_zero hzero hfds
  refine ⟨hzero, hfds, fun k st' r j hk hne => ?_, fun k st' r j hk ha => ?_,
    fun k st' r hk => ?_, fun c hmem => hc.known c (h.sockets c (hc.sockhash_sub hmem))⟩
  · rcases hg k st' hk with ⟨st, hst, hcook, _⟩ | ⟨_, hnew, _⟩
    · rw [hcook] at hne ⊢
      exact hc.known _ (h.known k st r j hst hne)
    · exact absurd (hnew r j) hne
  · rcases hg k st' hk with ⟨st, hst, hcook, _⟩ | ⟨_, hnew, _⟩
    · rw [hcook] at ha ⊢
      by_cases hne : st.cookies r j = 0
      · simp [hne, hz] at ha
      · have halive := hc.alive _ (h.known k st r j hst hne) ha
        exact hc.sockhash_kept _ (h.held k st r j hst halive) ha
    · simp [hnew r j, hz] at ha
  · rcases hg k st' hk with ⟨st, hst, hcook, hmax⟩ | ⟨_, hnew, hmax⟩
    · rw [hcook, hmax]
      exact (h.rows k st r hst).mono fun j hj => hc.sockhash_sub hj
    · have hz' : 0 ∉ t.sockhash := fun hmem => h.zero_not_mem (hc.sockhash_sub hmem)
      exact rowOk_unused hz' (hnew r) (hmax r)

/-! ### The registration in progress -/

/-- The daemon holds the socket, and its copy of the cookie table is the table. -/
def InHand (s : Sys) (r : Fishing) : Prop :=
  (r.f, r.cookie) ∈ s.fds ∧ ∃ st, s.groups r.k = some st ∧ st.cookies = r.st.cookies

/-- What was seen live was in use; what was seen free is dead. -/
def SeenOk (s : Sys) (r : Placing) (seen : List Bool) : Prop :=
  ∀ i < seen.length,
    (seen.getD i false = true → rowCookies r.st (genRow r.wg) i ≠ 0) ∧
    (seen.getD i false = false → s.alive (rowCookies r.st (genRow r.wg) i) = false ∧
      rowCookies r.st (genRow r.wg) i ∉ s.sockhash)

def ScanOk (s : Sys) (r : Placing) (seen : List Bool) (result : Option ℕ × ℕ) : Prop :=
  InHand s r.toFishing ∧ SeenOk s r seen ∧ result = SlotScan.scan (seen.getD · false) seen.length

def DaemonOk (s : MicroSys) : Prop :=
  match s.daemon with
  | .reading r => InHand s.sys r
  | .scanning r seen found => seen.length ≤ MAX_SOCKETS_IN_GEN ∧
      ScanOk s.sys r seen (found.freePos, found.genLen)
  | .entered r seen pos len => seen.length = MAX_SOCKETS_IN_GEN ∧
      ScanOk s.sys r seen (some pos, len) ∧ r.cookie ∈ s.sys.sockhash
  | _ => True

theorem InHand.alive {r : Fishing} (h : InHand s r) : s.alive r.cookie = true :=
  Sys.alive_iff.mpr (.inr ⟨_, h.1, rfl⟩)

theorem InHand.kept {r : Fishing} (h : InHand s r) (hfds : t.fds = s.fds)
    (hg : ∀ st, s.groups r.k = some st → ∃ st', t.groups r.k = some st' ∧
      st'.cookies = st.cookies) : InHand t r := by
  obtain ⟨hf, st, hk, hcook⟩ := h
  obtain ⟨st', hk', hcook'⟩ := hg st hk
  exact ⟨hfds ▸ hf, st', hk', hcook'.trans hcook⟩

theorem SeenOk.kept {r : Placing} {seen : List Bool} (h : SeenOk s r seen)
    (hin : InHand s r.toFishing) (hc : Calm s t) (hs : TableOk s) (ht : TableOk t) :
    SeenOk t r seen := by
  obtain ⟨_, st, hk, hcook⟩ := hin
  intro i hi
  refine ⟨(h i hi).1, fun hfree => ?_⟩
  obtain ⟨hdead, hout⟩ := (h i hi).2 hfree
  refine ⟨?_, fun hmem => hout (hc.sockhash_sub hmem)⟩
  rw [rowCookies, ← hcook] at hdead ⊢
  exact hs.dead_kept hc hk hdead ht

theorem tablesKept_sys (h : execute p s a = some t)
    (hna : ∀ env, a = .handle env → IsEmpty (Accepted s env t)) : TablesKept s t := by
  intro k st' hk
  rcases quiet_or_accepted h with hq | ⟨env, rfl, ⟨hacc⟩⟩
  · cases hq k st' hk with
    | kept st hst hstep => exact .inl ⟨st, hst, hstep.sameTable.cookies, hstep.sameTable.maxIdx⟩
    | born _ _ _ _ _ hnone hb => exact .inr ⟨hnone, hb.cookies_eq, hb.maxIdx_eq⟩
  · exact ((hna env rfl).false hacc).elim

/-- No group is deleted while a socket is registered in it. -/
def deletesNoneInHand (s : MicroSys) : MicroAction → Bool
  | .sys (.delete k) =>
    match s.daemon with
    | .reading r => decide (k ≠ r.k)
    | .scanning r _ _ | .entered r _ _ _ => decide (k ≠ r.k)
    | _ => true
  | _ => true

theorem inHand_sys {s : MicroSys} {r : Fishing} (ha : s.admits a = true)
    (hbusy : s.daemon.isIdle = false) (hd : a ≠ .delete r.k) (h : execute p s.sys a = some t)
    (hin : InHand s.sys r) : InHand t r := by
  have hh : ∀ env, a ≠ .handle env := by
    rintro env rfl
    simp [MicroSys.admits, hbusy] at ha
  have hcl : ∀ now, a ≠ .cleanup now := by
    rintro now rfl
    simp [MicroSys.admits, hbusy] at ha
  refine hin.kept (fds_hook h hh hcl) fun st hk => ?_
  obtain ⟨st', hk'⟩ := Option.isSome_iff_exists.mp (group_survives h hd (by simp [hk]))
  rcases tablesKept_sys h (not_accepted ha) _ st' hk' with ⟨st₀, hk₀, hcook, _⟩ | ⟨hnone, _⟩
  · cases hk.symm.trans hk₀
    exact ⟨st', hk', hcook⟩
  · cases hk.symm.trans hnone

structure TableInv (s : MicroSys) : Prop where
  table : TableOk s.sys
  daemon : DaemonOk s

theorem tableInv_sys {s : MicroSys} (ha : s.admits a = true) (h : execute p s.sys a = some t)
    (hd : deletesNoneInHand s (.sys a) = true) (hs : TableInv s) : TableInv ⟨t, s.daemon⟩ := by
  have hna := not_accepted (t := t) ha
  have hcalm := calm_sys h hna
  have ht := tableOk_calm hcalm (tablesKept_sys h hna) hs.table
  have hin : ∀ r : Fishing, s.daemon.isIdle = false → (∀ k, a = .delete k → k ≠ r.k) →
      InHand s.sys r → InHand t r := by
    intro r hbusy hne
    exact inHand_sys ha hbusy (fun he => hne _ he rfl) h
  refine ⟨ht, ?_⟩
  have hdaemon := hs.daemon
  unfold DaemonOk at hdaemon ⊢
  cases hpc : s.daemon with
  | idle | published | closing => trivial
  | reading r =>
    rw [hpc] at hdaemon
    refine hin r (by simp [hpc, DaemonPc.isIdle]) ?_ hdaemon
    rintro k rfl
    simpa [deletesNoneInHand, hpc] using hd
  | scanning r seen found =>
    rw [hpc] at hdaemon
    obtain ⟨hlen, hhand, hseen, hscan⟩ := hdaemon
    refine ⟨hlen, hin _ (by simp [hpc, DaemonPc.isIdle]) ?_ hhand,
      hseen.kept hhand hcalm hs.table ht, hscan⟩
    rintro k rfl
    simpa [deletesNoneInHand, hpc] using hd
  | entered r seen pos len =>
    rw [hpc] at hdaemon
    obtain ⟨hlen, ⟨hhand, hseen, hscan⟩, hmem⟩ := hdaemon
    have hhand' : InHand t r.toFishing := by
      refine hin _ (by simp [hpc, DaemonPc.isIdle]) ?_ hhand
      rintro k rfl
      simpa [deletesNoneInHand, hpc] using hd
    exact ⟨hlen, ⟨hhand', hseen.kept hhand hcalm hs.table ht, hscan⟩,
      hcalm.sockhash_kept _ hmem hhand'.alive⟩

theorem calm_of_eq (hs : t.socks = s.socks) (hf : t.fds = s.fds) (hh : t.sockhash = s.sockhash) :
    Calm s t := by
  have halive : ∀ c, t.alive c = s.alive c := fun c => by
    simp [Sys.alive, Sys.isOpen, hs, hf]
  exact ⟨fun c => by rw [hs]; exact id, fun hz => by rwa [hs], fun c _ ha => halive c ▸ ha,
    fun q hq => .inl (hf ▸ hq), hh.subset, fun c hc _ => hh ▸ hc⟩

/-- A descriptor of an open socket brings nothing to life. -/
theorem calm_fished {now : UInt64} {rest : List Msg} {f : ℕ} (ho : s.isOpen c = true) :
    Calm s { s.tick now with ring := rest, fds := (f, c) :: s.fds } where
  known _ h := h
  zero h := h
  alive c' _ ha := by
    rw [Sys.alive_iff] at ha ⊢
    rcases ha with ha | ⟨q, hq, rfl⟩
    · exact .inl ha
    · rcases List.mem_cons.mp hq with rfl | hq
      · exact .inl ho
      · exact .inr ⟨q, hq, rfl⟩
  fds q hq := by
    rcases List.mem_cons.mp hq with rfl | hq
    · obtain ⟨sock, hs, _⟩ := Sys.isOpen_iff.mp ho
      exact .inr (Option.isSome_iff_exists.mpr ⟨sock, hs⟩)
    · exact .inl hq
  sockhash_sub _ hc := hc
  sockhash_kept _ hc _ := hc

theorem getD_look (seen : List Bool) (live : Bool) :
    (∀ i < seen.length, (seen ++ [live]).getD i false = seen.getD i false) ∧
      (seen ++ [live]).getD seen.length false = live := by
  refine ⟨fun i hi => ?_, by simp⟩
  simp [List.getD_eq_getElem?_getD, List.getElem?_append_left hi]

/-- One more turn of the search is one more slot of the scan. -/
theorem scan_look {r : Placing} {seen : List Bool} {found : FindEmpty} (sockhash : Finset UInt64)
    (cookie : UInt64)
    (h : (found.freePos, found.genLen) = SlotScan.scan (seen.getD · false) seen.length) :
    let live := rowLive r.st (genRow r.wg) sockhash seen.length
    let found' := findEmptyStep (rowCookies r.st (genRow r.wg)) sockhash cookie found seen.length
    (found'.freePos, found'.genLen) =
      SlotScan.scan ((seen ++ [live]).getD · false) (seen ++ [live]).length := by
  intro live found'
  obtain ⟨hold, hnew⟩ := getD_look seen live
  rw [List.length_append, List.length_singleton, SlotScan.scan_succ, SlotScan.scan_congr hold,
    ← h, SlotScan.step, hnew]
  by_cases hl : rowCookies r.st (genRow r.wg) seen.length ∈ sockhash
  · simp [found', live, findEmptyStep, rowLive, hl]
  · cases hf : found.freePos <;> simp [found', live, findEmptyStep, rowLive, hl, hf]

/-- The daemon looks at one more slot. -/
theorem ScanOk.look {r : Placing} {seen : List Bool} {found : FindEmpty} {cookie : UInt64}
    (h : ScanOk s r seen (found.freePos, found.genLen)) (hs : TableOk s) :
    let live := rowLive r.st (genRow r.wg) s.sockhash seen.length
    let found' := findEmptyStep (rowCookies r.st (genRow r.wg)) s.sockhash cookie found seen.length
    ScanOk s r (seen ++ [live]) (found'.freePos, found'.genLen) := by
  intro live found'
  obtain ⟨hin, hseen, hscan⟩ := h
  obtain ⟨hold, hnew⟩ := getD_look seen live
  refine ⟨hin, fun i hi => ?_, scan_look s.sockhash cookie hscan⟩
  rw [List.length_append, List.length_singleton] at hi
  rcases Nat.lt_succ_iff_lt_or_eq.mp hi with hi | rfl
  · rw [hold i hi]
    exact hseen i hi
  · rw [hnew]
    refine ⟨fun hlive hzero => ?_, fun hfree => ?_⟩
    · have hmem := of_decide_eq_true hlive
      rw [hzero] at hmem
      exact hs.zero_not_mem hmem
    · have hout := of_decide_eq_false hfree
      refine ⟨?_, hout⟩
      obtain ⟨_, st, hk, hcook⟩ := hin
      rw [rowCookies, ← hcook] at hout ⊢
      rw [← Bool.not_eq_true]
      exact fun ha => hout (hs.held _ st _ _ hk ha)

/-- The socket in hand enters `sockhash`. Slots that hold its cookie were live before. -/
theorem TableOk.enter {r : Fishing} {sockhash : Finset UInt64} (h : TableOk s) (hin : InHand s r)
    (hsh : sockhashUpdate s.sockhash r.cookie = some sockhash) :
    TableOk { s with sockhash := sockhash } := by
  refine ⟨h.zero, h.fds, h.known, fun k st r' j hk ha => ?_, fun k st r' hk => ?_, fun c hc => ?_⟩
  · exact (mem_sockhashUpdate hsh).mpr (.inl (h.held k st r' j hk ha))
  · refine (h.rows k st r' hk).mono fun j hj => ?_
    rcases (mem_sockhashUpdate hsh).mp hj with hj | hj
    · exact hj
    · exact h.held k st r' j hk (hj ▸ hin.alive)
  · rcases (mem_sockhashUpdate hsh).mp hc with hc | rfl
    · exact h.sockets c hc
    · exact h.fds _ hin.1

theorem ScanOk.enter {r : Placing} {seen : List Bool} {result : Option ℕ × ℕ}
    {sockhash : Finset UInt64} (h : ScanOk s r seen result)
    (hsh : sockhashUpdate s.sockhash r.cookie = some sockhash) :
    ScanOk { s with sockhash := sockhash } r seen result := by
  obtain ⟨hin, hseen, hscan⟩ := h
  refine ⟨hin, fun i hi => ⟨(hseen i hi).1, fun hfree => ?_⟩, hscan⟩
  obtain ⟨hdead, hout⟩ := (hseen i hi).2 hfree
  refine ⟨hdead, fun hmem => ?_⟩
  rcases (mem_sockhashUpdate hsh).mp hmem with hmem | hmem
  · exact hout hmem
  · have := hin.alive
    simp [← hmem, hdead] at this

theorem setGroup_cases {k k' : Key} {st st' : ReuseportStorage}
    (h : (s.setGroup k st).groups k' = some st') : s.groups k' = some st' ∨ k' = k ∧ st' = st := by
  change Function.update s.groups k (some st) k' = some st' at h
  by_cases he : k' = k
  · subst he
    rw [Function.update_self, Option.some.injEq] at h
    exact .inr ⟨rfl, h.symm⟩
  · rw [Function.update_of_ne he] at h
    exact .inl h

theorem rowCookies_val (st : ReuseportStorage) (r : Row) (j : Slot) :
    rowCookies st r j.val = st.cookies r j := by
  rw [rowCookies]
  congr 1
  apply Fin.ext
  rw [Fin.val_ofNat, Nat.mod_eq_of_lt j.isLt]

/-- The cookie and the new length are written. -/
theorem TableOk.publish {r : Placing} {seen : List Bool} {pos len : ℕ} {st : ReuseportStorage}
    (h : TableOk s) (hlen : seen.length = MAX_SOCKETS_IN_GEN)
    (hseen : SeenOk s r seen)
    (hscan : (some pos, len) = SlotScan.scan (seen.getD · false) seen.length)
    (hk : s.groups r.k = some st) (hcook : st.cookies = r.st.cookies)
    (hknown : (s.socks r.cookie).isSome)
    (hmem : s.alive r.cookie = true → r.cookie ∈ s.sockhash) :
    TableOk (s.setGroup r.k
      (st.setCookie r.wg (UInt32.ofNat pos) (UInt32.ofNat len) r.cookie)) := by
  have hc0 : r.cookie ≠ 0 := by
    intro h0
    simp [h0, h.zero] at hknown
  have hlt : ∀ j : Slot, j.val < seen.length := fun j => by
    rw [hlen]
    exact j.isLt
  refine ⟨h.zero, h.fds, fun k st' r' j hk' hne => ?_, fun k st' r' j hk' ha => ?_,
    fun k st' r' hk' => ?_, h.sockets⟩
  · rcases setGroup_cases hk' with hk' | ⟨_, rfl⟩
    · exact h.known k st' r' j hk' hne
    · rw [setCookie_cookies] at hne ⊢
      split_ifs at hne ⊢
      · exact hknown
      · exact h.known _ st r' j hk hne
  · rcases setGroup_cases hk' with hk' | ⟨_, rfl⟩
    · exact h.held k st' r' j hk' ha
    · rw [setCookie_cookies] at ha ⊢
      split_ifs at ha ⊢
      · exact hmem ha
      · exact h.held _ st r' j hk ha
  · rcases setGroup_cases hk' with hk' | ⟨_, rfl⟩
    · exact h.rows k st' r' hk'
    · by_cases hrow : r' = genRow r.wg
      · subst hrow
        rw [setCookie_maxIdx_self]
        rw [hlen] at hscan
        refine (h.rows _ st (genRow r.wg) hk).register hc0 hscan.symm ?_ ?_ ?_
        · intro j hs
          rw [hcook, ← rowCookies_val]
          exact (hseen j.val (hlt j)).1 hs
        · intro j hs
          rw [hcook, ← rowCookies_val]
          exact ((hseen j.val (hlt j)).2 hs).2
        · funext j
          rw [setCookie_cookies, idxSlot_ofNat, Function.update_apply]
          simp
      · rw [setCookie_cookies_row _ _ _ _ _ hrow, setCookie_maxIdx_row _ _ _ _ _ hrow]
        exact h.rows _ st r' hk

theorem tableInv_daemon {s t : MicroSys} (h : DaemonEffect s t) (hs : TableInv s) :
    TableInv t := by
  have hd := hs.daemon
  unfold DaemonOk at hd
  cases h with
  | crashed => exact ⟨tableOk_calm (calm_crash _) (.of_eq rfl) hs.table, trivial⟩
  | read hpc =>
    rw [hpc] at hd
    exact ⟨hs.table, Nat.zero_le _, hd, fun i hi => absurd hi (Nat.not_lt_zero i), rfl⟩
  | looked hpc hlt =>
    rw [hpc] at hd
    refine ⟨hs.table, ?_, hd.2.look hs.table⟩
    rw [List.length_append, List.length_singleton]
    exact hlt
  | refused => exact ⟨hs.table, trivial⟩
  | entered hpc hge hf hsh =>
    rw [hpc] at hd
    refine ⟨hs.table.enter hd.2.1 hsh, le_antisymm hd.1 hge, ?_,
      (mem_sockhashUpdate hsh).mpr (.inr rfl)⟩
    rw [← hf]
    exact hd.2.enter hsh
  | @published r seen pos len st base keep hpc hk hb =>
    rw [hpc] at hd
    obtain ⟨hlen, ⟨hin, hseen, hscan⟩, hmem⟩ := hd
    have hgroups : base.groups = s.sys.groups := by
      rcases hb with ⟨rfl, _⟩ | ⟨_, store, closed, rfl⟩ <;> rfl
    have hcalm : Calm s.sys base := by
      rcases hb with ⟨rfl, _⟩ | ⟨_, store, closed, rfl⟩
      · exact calm_of_eq rfl rfl rfl
      · exact calm_closeFds s.sys store closed
    have hbase := tableOk_calm hcalm (.of_eq hgroups) hs.table
    obtain ⟨_, st', hk', hcook⟩ := id hin
    cases hk.symm.trans hk'
    refine ⟨hbase.publish hlen (hseen.kept hin hcalm hs.table hbase) hscan (hgroups ▸ hk) hcook
      (hcalm.known _ (hs.table.fds _ hin.1)) fun ha => ?_, trivial⟩
    exact hcalm.sockhash_kept _ hmem ha
  | wrote => exact ⟨tableOk_calm (calm_setStorage _ _ _) (.of_eq rfl) hs.table, trivial⟩
  | @closed r keep =>
    refine ⟨?_, trivial⟩
    cases keep with
    | true => exact hs.table
    | false => exact tableOk_calm (calm_closeFds s.sys s.sys.tubular [r.f]) (.of_eq rfl) hs.table

theorem tableInv_step {s t : MicroSys} {a : MicroAction} (h : microExecute p s a = some t)
    (hd : deletesNoneInHand s a = true) (hs : TableInv s) : TableInv t := by
  cases microExecute_effect h with
  | sys ha he => exact tableInv_sys ha he hd hs
  | @lost env m rest _ _ =>
    have hring : TableOk { s.sys.tick env.now with ring := rest } :=
      tableOk_calm (s := s.sys) (calm_of_eq rfl rfl rfl) (.of_eq rfl) hs.table
    exact ⟨tableOk_calm (calm_crash _) (.of_eq rfl) hring, trivial⟩
  | fished _ _ ho hk =>
    exact ⟨tableOk_calm (calm_fished ho) (.of_eq rfl) hs.table, List.mem_cons_self, _, hk, rfl⟩
  | daemon he => exact tableInv_daemon he hs

theorem tableInv_initial : TableInv MicroSys.initial := by
  refine ⟨⟨rfl, ?_, ?_, ?_, ?_, ?_⟩, trivial⟩ <;> simp [MicroSys.initial, Sys.initial]

theorem tableInv_run {s : MicroSys} {as : List MicroAction}
    (h : Transition.Run ((microSystem p).restrict fun s a => deletesNoneInHand s a = true)
      .initial as s) : TableInv s :=
  h.inv_restrict tableInv_step tableInv_initial

/-! ### Readers of the table -/

/-- The slots of a row that the loops of `do_list` and `do_flows` come to: they stop at
`max_idx` or at the first cookie that is zero. -/
def listedSlots (st : ReuseportStorage) (r : Row) : List ℕ :=
  (List.range (st.maxIdx r).toNat).takeWhile fun j => decide (rowCookies st r j ≠ 0)

theorem mem_takeWhile_range {q : ℕ → Bool} {m j : ℕ} (hj : j < m) (hq : ∀ i ≤ j, q i = true) :
    j ∈ (List.range m).takeWhile q := by
  obtain ⟨d, rfl⟩ : ∃ d, m = j + 1 + d := ⟨m - (j + 1), by omega⟩
  have hall : ∀ i ∈ List.range (j + 1), q i = true := by
    intro i hi
    exact hq i (by simpa [Nat.lt_succ_iff] using hi)
  rw [List.range_add, List.takeWhile_append_of_pos hall]
  simp

variable {st : ReuseportStorage} {row : Row} {live : Finset UInt64}

theorem RowOk.listed (h : RowOk live (st.cookies row) (st.maxIdx row)) {j : Slot}
    (hj : st.cookies row j ∈ live) : j.val ∈ listedSlots st row := by
  obtain ⟨n, hn, hused, hmax, _, hlive⟩ := h
  have hlt := hlive j hj
  refine mem_takeWhile_range hlt fun i hi => ?_
  have hi' : i < MAX_SOCKETS_IN_GEN := by omega
  have hne := (hused ⟨i, hi'⟩).mpr (by simp only; omega)
  rw [← rowCookies_val] at hne
  exact decide_eq_true hne

/-- The slot of a new flow has been used, where the row has. -/
theorem RowOk.picks_used (h : RowOk live (st.cookies row) (st.maxIdx row))
    (hrow : ∃ j, st.cookies row j ≠ 0) (mdHash : UInt32) :
    st.cookies row (idxSlot (mdHash % st.maxIdx row)) ≠ 0 := by
  obtain ⟨n, hn, hused, hmax, hpos, _⟩ := h
  obtain ⟨j, hj⟩ := hrow
  have hlt := (hused j).mp hj
  have hmod : (mdHash % st.maxIdx row).toNat < (st.maxIdx row).toNat := by
    rw [UInt32.toNat_mod]
    exact Nat.mod_lt _ (hpos (by omega))
  rw [hused, idxSlot, Fin.val_ofNat, Nat.mod_eq_of_lt (by omega)]
  omega

/-! ### Registrations -/

theorem TableInv.entered {s : MicroSys} {r : Placing} {seen : List Bool} {pos len : ℕ}
    (h : TableInv s) (hpc : s.daemon = .entered r seen pos len) :
    seen.length = MAX_SOCKETS_IN_GEN ∧ seen.getD pos false = false ∧
      (∀ i < pos, seen.getD i false = true) ∧
      ∃ st, s.sys.groups r.k = some st ∧
        s.sys.alive (st.cookies (genRow r.wg) (idxSlot (UInt32.ofNat pos))) = false ∧
        ∃ t st', s.daemonStep = some t ∧ t.sys.groups r.k = some st' ∧
          st' = st.setCookie r.wg (UInt32.ofNat pos) (UInt32.ofNat len) r.cookie := by
  have hd := h.daemon
  rw [DaemonOk, hpc] at hd
  obtain ⟨hlen, ⟨hin, hseen, hscan⟩, _⟩ := hd
  obtain ⟨_, st, hk, hcook⟩ := hin
  obtain ⟨hpos, hfree, hbefore⟩ := SlotScan.free_spec (congrArg Prod.fst hscan.symm)
  refine ⟨hlen, hfree, hbefore, st, hk, ?_, ?_⟩
  · rw [idxSlot_ofNat, hcook]
    exact ((hseen pos hpos).2 hfree).1
  · simp only [MicroSys.daemonStep, hpc, hk]
    split
    · exact ⟨_, _, rfl, Function.update_self .., rfl⟩
    · exact ⟨_, _, rfl, Function.update_self .., rfl⟩

theorem TableInv.refused_iff {s : MicroSys} {r : Placing} {seen : List Bool} {found : FindEmpty}
    (h : TableInv s) (hpc : s.daemon = .scanning r seen found)
    (hlen : seen.length = MAX_SOCKETS_IN_GEN) :
    s.daemonStep = some ⟨s.sys, .closing r false⟩ ↔
      ∀ i < MAX_SOCKETS_IN_GEN, seen.getD i false = true := by
  have hd := h.daemon
  rw [DaemonOk, hpc] at hd
  obtain ⟨_, _, _, hscan⟩ := hd
  rw [← SlotScan.free_none_iff, ← hlen, ← hscan]
  have hge : ¬ seen.length < MAX_SOCKETS_IN_GEN := by omega
  simp only [MicroSys.daemonStep, hpc, if_neg hge]
  cases found.freePos with
  | none => simp
  | some pos =>
    cases sockhashUpdate s.sys.sockhash r.cookie <;> simp [MicroSys.crash]

/-- In every state that registrations and closes lead to, step by step: each row of each table
is well shaped, a new flow is given a used slot of a row in use, the commands come to every
live socket, a registration writes the first slot that its scan did not find live and whose
socket is dead, and it is refused where the scan found all slots live. -/
theorem cookie_table_ok {s : MicroSys} {as : List MicroAction}
    (h : Transition.Run ((microSystem p).restrict fun s a => deletesNoneInHand s a = true)
      .initial as s) :
    (∀ k st, s.sys.groups k = some st → ∀ row,
      RowOk s.sys.sockhash (st.cookies row) (st.maxIdx row) ∧
      ((∃ j, st.cookies row j ≠ 0) →
        ∀ mdHash : UInt32, st.cookies row (idxSlot (mdHash % st.maxIdx row)) ≠ 0) ∧
      ∀ j : Slot, st.cookies row j ∈ s.sys.sockhash → j.val ∈ listedSlots st row) ∧
    (∀ r seen pos len, s.daemon = .entered r seen pos len →
      seen.length = MAX_SOCKETS_IN_GEN ∧ seen.getD pos false = false ∧
        (∀ i < pos, seen.getD i false = true) ∧
        ∃ st, s.sys.groups r.k = some st ∧
          s.sys.alive (st.cookies (genRow r.wg) (idxSlot (UInt32.ofNat pos))) = false ∧
          ∃ t st', s.daemonStep = some t ∧ t.sys.groups r.k = some st' ∧
            st' = st.setCookie r.wg (UInt32.ofNat pos) (UInt32.ofNat len) r.cookie) ∧
    ∀ r seen found, s.daemon = .scanning r seen found → seen.length = MAX_SOCKETS_IN_GEN →
      (s.daemonStep = some ⟨s.sys, .closing r false⟩ ↔
        ∀ i < MAX_SOCKETS_IN_GEN, seen.getD i false = true) := by
  have hinv := tableInv_run h
  refine ⟨fun k st hk row => ?_, fun r seen pos len hpc => hinv.entered hpc,
    fun r seen found hpc hlen => hinv.refused_iff hpc hlen⟩
  have hrow := hinv.table.rows k st row hk
  exact ⟨hrow, hrow.picks_used, fun j hj => hrow.listed hj⟩

/-- A socket asks for generation 0 and the daemon registers it; another one is closed before
the daemon has looked at the first slot. -/
def registerOne : List MicroAction :=
  (Action.openBound 1 ++ Action.openBound 2 ++ [Action.call 1 201 [0, 0, 0, 0]]).map .sys ++
    [.fish ⟨.found 10, true, 0, 0⟩, .daemon, .sys (.close 2)] ++
    List.replicate (MAX_SOCKETS_IN_GEN + 4) .daemon

theorem cookie_table_ok_one :
    ∃ s : MicroSys, Transition.Run
        ((microSystem .const).restrict fun s a => deletesNoneInHand s a = true)
        .initial registerOne s ∧
      ∃ st, s.sys.groups (skeyFromBpfSock .loopback) = some st ∧ st.cookies 0 0 = 1 ∧
        st.cookies 0 0 ∈ s.sys.sockhash ∧ 0 ∈ listedSlots st 0 := by
  obtain ⟨s, hs, hx⟩ := Transition.run_restrict_of_any (microExecute .const) deletesNoneInHand
    .initial registerOne
    (fun s : MicroSys => (s.sys.groups (skeyFromBpfSock .loopback)).any
      fun st : ReuseportStorage => decide (st.cookies 0 0 = 1) && decide (1 ∈ s.sys.sockhash))
    (by decide +kernel)
  simp only [Option.any_eq_true, Bool.and_eq_true, decide_eq_true_eq] at hx
  obtain ⟨st, hst, hcookie, hlive⟩ := hx
  rw [← hcookie] at hlive
  exact ⟨s, hs, st, hst, hcookie, hlive, ((cookie_table_ok hs).1 _ st hst 0).2.2 0 hlive⟩

end Udpgrm
