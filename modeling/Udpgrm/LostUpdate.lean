import Udpgrm.DaemonSteps

/-! The generation of a socket while the daemon reads and writes back its storage. -/
namespace Udpgrm

open LittleEndian
open Transition (run_of_any run_restrict_of_any)

/-! ### History -/

/-- What has happened to one socket so far: the generation of its last successful call, and
the generation of the last request that the daemon took up with the index it assigned. -/
structure History where
  lastGen : Option UInt32
  handled : Option (UInt32 × Option ℕ)

/-- The generation that a message asks for on behalf of socket `c`. -/
def requestedGen (c : UInt64) : Msg → Option UInt32
  | .registerSocket _ _ cookie gen _ => if cookie = c then some gen else none
  | _ => none

namespace History

def initial : History := ⟨none, none⟩

/-- The daemon takes the first message. -/
def pop (c : UInt64) (h : History) : List Msg → History
  | [] => h
  | m :: _ =>
    match requestedGen c m with
    | none => h
    | some gen => { h with handled := some (gen, none) }

/-- The daemon writes a cookie to the slot that it found. -/
def assign (c : UInt64) (h : History) (s : MicroSys) : History :=
  match s.daemon with
  | .entered r _ pos _ =>
    if r.cookie = c ∧ (s.sys.groups r.k).isSome then { h with handled := some (r.gen, some pos) }
    else h
  | _ => h

def next (p : Programs) (c : UInt64) (s : MicroSys) (h : History) : MicroAction → History
  | .sys (.setsockopt c' ctx env) =>
    if c' = c ∧ ctx.opt = some .socketGen ∧
        (udpgrmSetsockopt p env (s.sys.tick env.flow.later) c' ctx).1 = .ok then
      { h with lastGen := (copyIn ctx.optval).map (u32 · 0) }
    else h
  | .sys (.handle _) | .fish _ => h.pop c s.sys.ring
  | .daemon => h.assign c s
  | _ => h

end History

/-- A step with the history of socket `c` written alongside. -/
def recorded (p : Programs) (c : UInt64) (x : MicroSys × History) (a : MicroAction) :
    Option (MicroSys × History) :=
  (microExecute p x.1 a).map fun t => (t, x.2.next p c x.1 a)

def withHistory (p : Programs) (c : UInt64) :
    Transition.LTS (MicroSys × History) MicroAction := .ofFn (recorded p c)

/-- The registration that the daemon has not finished. -/
def DaemonPc.handling : DaemonPc → Option Fishing
  | .reading r => some r
  | .scanning r _ _ | .entered r _ _ _ | .published r _ _ => some r.toFishing
  | _ => none

def Sys.storageOf (s : Sys) (c : UInt64) : Option SocketStorage := (s.socks c).bind (·.storage)

/-- While the daemon holds a copy of the storage of `c`, a call on `c` carries the stored
generation; and `c` is bound once. -/
def noRace (c : UInt64) (s : MicroSys) : MicroAction → Bool
  | .sys (.setsockopt c' ctx _) =>
    if c' = c ∧ ctx.opt = some .socketGen ∧ s.daemon.copy.any (fun r => r.cookie = c) then
      decide ((copyIn ctx.optval).map (u32 · 0) = (s.sys.storageOf c).map (·.sockGen))
    else true
  | .sys (.bind c' _) => decide (c' ≠ c) || (s.sys.storageOf c).isNone
  | _ => true

/-! ### Storage and its copy -/

variable {p : Programs} {c : UInt64}

theorem Sys.storageOf_eq_some {s : Sys} {ss : SocketStorage} :
    s.storageOf c = some ss ↔ ∃ sock, s.socks c = some sock ∧ sock.storage = some ss :=
  Option.bind_eq_some_iff

theorem storageOf_setStorage (s : Sys) (c c' : UInt64) (ss : SocketStorage) :
    (s.setStorage c' ss).storageOf c =
      if c = c' then (s.socks c).map fun _ => ss else s.storageOf c := by
  unfold Sys.storageOf
  rw [setStorage_socks]
  split
  · cases s.socks c <;> rfl
  · rfl

/-! ### The generation -/

def ringGens (c : UInt64) (ring : List Msg) : List UInt32 := ring.filterMap (requestedGen c)

/-- The generation of the last request: one on its way, or the last that was taken up. -/
def History.latest (h : History) (pending : List UInt32) : Option UInt32 :=
  pending.getLast? <|> h.handled.map Prod.fst

theorem History.latest_append (h : History) (pending : List UInt32) (g : UInt32) :
    h.latest (pending ++ [g]) = some g := by
  simp [History.latest]

theorem History.latest_pop (h : History) (m : Msg) (rest : List Msg) :
    (h.pop c (m :: rest)).latest (ringGens c rest) = h.latest (ringGens c (m :: rest)) := by
  unfold History.latest History.pop ringGens
  cases hm : requestedGen c m with
  | none => simp [hm]
  | some g => cases hr : rest.filterMap (requestedGen c) <;> simp [hm, hr, List.getLast?_cons]

structure GenInv (c : UInt64) (s : MicroSys) (h : History) : Prop where
  last : ∀ g, h.lastGen = some g → ∃ ss, s.sys.storageOf c = some ss ∧ ss.sockGen = g
  unset : h.lastGen = none → ∀ ss, s.sys.storageOf c = some ss → ss.sockIdx = UNSET
  latest : h.latest (ringGens c s.sys.ring) = h.lastGen
  index : ∀ g pos, h.handled = some (g, some pos) →
    (∃ ss, s.sys.storageOf c = some ss ∧ ss.sockIdx = UInt32.ofNat pos) ∨
      ∃ r keep, s.daemon = .published r pos keep ∧ r.cookie = c
  copy : ∀ r, s.daemon.copy = some r → r.cookie = c →
    ∃ ss, s.sys.storageOf c = some ss ∧ ss.sockGen = r.ss.sockGen
  handling : ∀ r, s.daemon.handling = some r → r.cookie = c →
    h.handled.map Prod.fst = some r.gen
  published : ∀ r pos keep, s.daemon = .published r pos keep → r.cookie = c →
    h.handled = some (r.gen, some pos)

/-- Generation and index of `c` stay as they are; new storage has no index. -/
structure StorageKept (c : UInt64) (s t : Sys) : Prop where
  kept : ∀ ss, s.storageOf c = some ss →
    ∃ ss', t.storageOf c = some ss' ∧ ss'.sockGen = ss.sockGen ∧ ss'.sockIdx = ss.sockIdx
  new : ∀ ss', s.storageOf c = none → t.storageOf c = some ss' → ss'.sockIdx = UNSET

theorem StorageKept.of_eq {s t : Sys} (h : t.socks = s.socks) : StorageKept c s t := by
  have he : t.storageOf c = s.storageOf c := by rw [Sys.storageOf, Sys.storageOf, h]
  refine ⟨fun ss hss => ⟨ss, he.trans hss, rfl, rfl⟩, fun ss' hnone hss => ?_⟩
  rw [he, hnone] at hss
  cases hss

theorem StorageKept.gen {s t : Sys} {g : UInt32} (h : StorageKept c s t)
    (hg : ∃ ss, s.storageOf c = some ss ∧ ss.sockGen = g) :
    ∃ ss, t.storageOf c = some ss ∧ ss.sockGen = g := by
  obtain ⟨ss, hss, rfl⟩ := hg
  obtain ⟨ss', hss', hgen, _⟩ := h.kept ss hss
  exact ⟨ss', hss', hgen⟩

theorem StorageKept.idx {s t : Sys} {i : UInt32} (h : StorageKept c s t)
    (hi : ∃ ss, s.storageOf c = some ss ∧ ss.sockIdx = i) :
    ∃ ss, t.storageOf c = some ss ∧ ss.sockIdx = i := by
  obtain ⟨ss, hss, rfl⟩ := hi
  obtain ⟨ss', hss', _, hidx⟩ := h.kept ss hss
  exact ⟨ss', hss', hidx⟩

theorem StorageKept.unset {s t : Sys} (h : StorageKept c s t)
    (hu : ∀ ss, s.storageOf c = some ss → ss.sockIdx = UNSET) :
    ∀ ss, t.storageOf c = some ss → ss.sockIdx = UNSET := by
  intro ss' hss'
  cases hs : s.storageOf c with
  | none => exact h.new ss' hs hss'
  | some ss =>
    obtain ⟨ss'', hss'', _, hidx⟩ := h.kept ss hs
    cases hss'.symm.trans hss''
    exact hidx.trans (hu ss hs)

section

variable {s t : MicroSys} {h : History}

theorem GenInv.kept (hi : GenInv c s h) (hk : StorageKept c s.sys t.sys)
    (hd : t.daemon = s.daemon) (hr : ringGens c t.sys.ring = ringGens c s.sys.ring) :
    GenInv c t h := by
  refine ⟨fun g hg => hk.gen (hi.last g hg), fun hn => hk.unset (hi.unset hn), ?_,
    fun g pos hp => ?_, fun r hc he => ?_, ?_, ?_⟩
  · rw [hr]
    exact hi.latest
  · rw [hd]
    exact (hi.index g pos hp).imp_left hk.idx
  · rw [hd] at hc
    exact hk.gen (hi.copy r hc he)
  · rw [hd]
    exact hi.handling
  · rw [hd]
    exact hi.published

/-- A message is taken from the ring. -/
theorem GenInv.pop {m : Msg} (hi : GenInv c s h) (hk : StorageKept c s.sys t.sys)
    (hd : s.daemon = .idle) (hr : s.sys.ring = m :: t.sys.ring) (hcopy : t.daemon.copy = none)
    (hhand : ∀ r, t.daemon.handling = some r → r.cookie = c → requestedGen c m = some r.gen) :
    GenInv c t (h.pop c s.sys.ring) := by
  have hlast : (h.pop c s.sys.ring).lastGen = h.lastGen := by
    rw [hr, History.pop]
    split <;> rfl
  refine ⟨fun g hg => hk.gen (hi.last g (hlast ▸ hg)),
    fun hn => hk.unset (hi.unset (hlast ▸ hn)), ?_, fun g pos hp => ?_, fun r hc => ?_,
    fun r hh he => ?_, fun r pos keep hp => ?_⟩
  · rw [hlast, ← hi.latest, hr, History.latest_pop]
  · left
    rw [hr, History.pop] at hp
    split at hp
    · rcases hi.index g pos hp with hidx | ⟨r, keep, hpub, _⟩
      · exact hk.idx hidx
      · rw [hd] at hpub
        cases hpub
    · simp at hp
  · rw [hcopy] at hc
    cases hc
  · rw [hr, History.pop, hhand r hh he]
    rfl
  · rw [hp] at hcopy
    cases hcopy

theorem genInv_call {ctx : SockoptCtx} {env : OptEnv} {r : OptRet} {now : UInt64} {t : Sys}
    (hcall : GenCall (s.sys.tick now) c ctx env r t) (hw : CopyWf s) (hi : GenInv c s h)
    (hrace : s.daemon.copy.any (fun r => r.cookie = c) = true →
      (copyIn ctx.optval).map (u32 · 0) = (s.sys.storageOf c).map (·.sockGen)) :
    GenInv c ⟨t, s.daemon⟩
      (if r = .ok then { h with lastGen := (copyIn ctx.optval).map (u32 · 0) } else h) := by
  cases hcall with
  | failed hr hs hq =>
    rw [if_neg hr]
    exact hi.kept (.of_eq hs) rfl (congrArg _ hq)
  | kept sock ss data hr hc hss hd hg hidx hs hq =>
    have hstored : s.sys.storageOf c = some ss := Sys.storageOf_eq_some.mpr ⟨sock, hc, hss⟩
    have hsame : h.lastGen = some (u32 data 0) := by
      cases hl : h.lastGen with
      | none => exact absurd (hi.unset hl ss hstored) hidx
      | some g =>
        obtain ⟨ss', hss', rfl⟩ := hi.last g hl
        cases hstored.symm.trans hss'
        rw [hg]
    rw [if_pos hr, hd, Option.map_some, ← hsame]
    exact hi.kept (.of_eq hs) rfl (congrArg _ hq)
  | posted sock ss data hr hc hss hd hs hq =>
    have hstored : s.sys.storageOf c = some ss := Sys.storageOf_eq_some.mpr ⟨sock, hc, hss⟩
    have hnew : t.storageOf c = some { ss with sockGen := u32 data 0 } := by
      have he : t.storageOf c =
          ((s.sys.tick now).setStorage c { ss with sockGen := u32 data 0 }).storageOf c := by
        rw [Sys.storageOf, hs, Sys.storageOf]
      rw [he, storageOf_setStorage, if_pos rfl, hc]
      rfl
    have hown : ss.soCookie = c := hw.socks.own_cookie c sock ss hc hss
    rw [if_pos hr, hd, Option.map_some]
    refine ⟨?_, ?_, ?_, fun g pos hp => ?_, fun r hcopy he => ?_, hi.handling, hi.published⟩
    · rintro g ⟨⟩
      exact ⟨_, hnew, rfl⟩
    · rintro ⟨⟩
    · have hgens : ringGens c t.ring = ringGens c s.sys.ring ++ [u32 data 0] := by
        rw [hq, ringGens, List.filterMap_append]
        simp [ringGens, requestedGen, hown, Sys.tick]
      show History.latest _ (ringGens c t.ring) = _
      rw [hgens, History.latest_append]
    · refine (hi.index g pos hp).imp_left ?_
      rintro ⟨ss', hss', hidx⟩
      cases hstored.symm.trans hss'
      exact ⟨_, hnew, hidx⟩
    · obtain ⟨ss', hss', hgen⟩ := hi.copy r hcopy he
      cases hstored.symm.trans hss'
      have hsame : some (u32 data 0) = some ss.sockGen := by
        have := hrace (by simp [hcopy, he])
        rwa [hd, hstored] at this
      refine ⟨_, hnew, ?_⟩
      rw [← hgen, ← Option.some.inj hsame]

/-- Every other call leaves generation and index alone. -/
theorem storageKept_sys {s t : Sys} {a : Action} (h : execute p s a = some t)
    (hna : ∀ env, a = .handle env → IsEmpty (Accepted s env t))
    (hgen : ∀ ctx env, a = .setsockopt c ctx env → ctx.opt ≠ some .socketGen)
    (hbind : ∀ ctx, a = .bind c ctx → s.storageOf c = none) : StorageKept c s t := by
  constructor
  · intro ss hss
    obtain ⟨sock, hc, hsto⟩ := Sys.storageOf_eq_some.mp hss
    obtain ⟨sock', hc', hstep⟩ := sock_step h hc
    have hof : ∀ ss', sock'.storage = some ss' → t.storageOf c = some ss' :=
      fun ss' hs => Sys.storageOf_eq_some.mpr ⟨sock', hc', hs⟩
    cases hstep with
    | same | closed => exact ⟨ss, hof ss hsto, rfl, rfl⟩
    | bound ctx ha => simp [hbind ctx ha] at hss
    | generation ctx env ha ho => exact absurd ho (hgen ctx env ha)
    | application _ _ _ ss' hss' =>
      cases hsto.symm.trans hss'
      exact ⟨_, hof _ rfl, rfl, rfl⟩
    | index env ha hacc => exact ((hna env ha).false hacc).elim
  · intro ss' hnone hss'
    obtain ⟨sock', hc', hsto'⟩ := Sys.storageOf_eq_some.mp hss'
    rcases sock_origin h hc' with ⟨sock, hc, hstep⟩ | ⟨_, _, hn⟩
    · have hsto : sock.storage = none := by simpa [Sys.storageOf, hc] using hnone
      cases hstep with
      | same | closed => simp [hsto] at hsto'
      | bound =>
        cases hsto'
        rfl
      | generation _ _ _ _ _ _ ss hss | application _ _ _ ss hss | index _ _ _ _ hss =>
        simp [hsto] at hss
    · simp [hn] at hsto'

theorem ringGens_sys {s t : Sys} {a : Action} (h : execute p s a = some t) (hw : SocksWf s)
    (hgen : ∀ ctx env, a = .setsockopt c ctx env → ctx.opt ≠ some .socketGen)
    (hh : ∀ env, a ≠ .handle env) : ringGens c t.ring = ringGens c s.ring := by
  cases ring_change h with
  | same hr => rw [hr]
  | handled env ha => exact absurd ha (hh env)
  | posted m hm hr =>
    rw [hr, ringGens, List.filterMap_append, ringGens]
    cases hm with
    | @register c' ctx env sock ss data hs hss ho =>
      have hne : ss.soCookie ≠ c := by
        rw [hw.own_cookie c' sock ss hs hss]
        rintro rfl
        exact hgen ctx env rfl ho
      simp [requestedGen, hne]
    | announce | dissector => simp [requestedGen]

theorem genInv_sys {a : Action} {t : Sys} (ha : s.admits a = true)
    (he : execute p s.sys a = some t) (hw : CopyWf s) (hi : GenInv c s h)
    (hrace : noRace c s (.sys a) = true) :
    GenInv c ⟨t, s.daemon⟩ (h.next p c s (.sys a)) := by
  by_cases hcall : ∃ ctx env, a = .setsockopt c ctx env ∧ ctx.opt = some .socketGen
  · obtain ⟨ctx, env, rfl, ho⟩ := hcall
    cases execute_effect he
    simp only [History.next, ho, true_and]
    refine genInv_call (setsockopt_genCall p env _ c ctx ho) hw hi fun hcopy => ?_
    simpa only [noRace, ho, hcopy, and_self, if_true, decide_eq_true_eq] using hrace
  · have hgen : ∀ ctx env, a = .setsockopt c ctx env → ctx.opt ≠ some .socketGen :=
      fun ctx env ha ho => hcall ⟨ctx, env, ha, ho⟩
    have hbind : ∀ ctx, a = .bind c ctx → s.sys.storageOf c = none := by
      rintro ctx rfl
      simpa [noRace] using hrace
    have hk := storageKept_sys he (not_accepted ha) hgen hbind
    by_cases hh : ∃ env, a = .handle env
    · obtain ⟨env, rfl⟩ := hh
      have hidle : s.daemon = .idle := by
        simp only [MicroSys.admits, Bool.and_eq_true] at ha
        cases hd : s.daemon with
        | idle => rfl
        | _ => simp [hd, DaemonPc.isIdle] at ha
      obtain ⟨m, hr⟩ := handle_ring he
      exact hi.pop hk hidle hr (by simp [hidle, DaemonPc.copy]) (by simp [hidle, DaemonPc.handling])
    · rw [not_exists] at hh
      have hnext : h.next p c s (.sys a) = h := by
        cases a with
        | handle env => exact absurd rfl (hh env)
        | setsockopt c' ctx env =>
          refine if_neg ?_
          rintro ⟨rfl, ho, _⟩
          exact hgen ctx env rfl ho
        | _ => rfl
      rw [hnext]
      exact hi.kept hk rfl (ringGens_sys he hw.socks hgen hh)

/-- The daemon moves on without touching generation or index. -/
theorem GenInv.moved (hi : GenInv c s h) (hs : t.sys.socks = s.sys.socks)
    (hr : t.sys.ring = s.sys.ring) (hp : ∀ r pos keep, s.daemon ≠ .published r pos keep)
    (hp' : ∀ r pos keep, t.daemon ≠ .published r pos keep)
    (hcopy : ∀ r, t.daemon.copy = some r → s.daemon.copy = some r ∨
      s.sys.storageOf r.cookie = some r.ss)
    (hhand : ∀ r, t.daemon.handling = some r → s.daemon.handling = some r) : GenInv c t h := by
  have hk : StorageKept c s.sys t.sys := .of_eq hs
  refine ⟨fun g hg => hk.gen (hi.last g hg), fun hn => hk.unset (hi.unset hn), ?_,
    fun g pos hpos => ?_, fun r hc he => hk.gen ?_, fun r hh => hi.handling r (hhand r hh),
    fun r pos keep hpub => absurd hpub (hp' r pos keep)⟩
  · rw [hr]
    exact hi.latest
  · rcases hi.index g pos hpos with hidx | ⟨r, keep, hpub, _⟩
    · exact .inl (hk.idx hidx)
    · exact absurd hpub (hp r pos keep)
  · rcases hcopy r hc with hc | hss
    · exact hi.copy r hc he
    · exact ⟨r.ss, he ▸ hss, rfl⟩

/-- The slot is written: the request now has its index. -/
theorem GenInv.assigned {r : Placing} {seen : List Bool} {pos len : ℕ} {keep : Bool}
    (hi : GenInv c s h) (hd : s.daemon = .entered r seen pos len)
    (hg : (s.sys.groups r.k).isSome) (hs : t.sys.socks = s.sys.socks)
    (hr : t.sys.ring = s.sys.ring) (hd' : t.daemon = .published r pos keep) :
    GenInv c t (h.assign c s) := by
  have hk : StorageKept c s.sys t.sys := .of_eq hs
  have hcopy : ∀ r', t.daemon.copy = some r' → r'.cookie = c →
      ∃ ss, t.sys.storageOf c = some ss ∧ ss.sockGen = r'.ss.sockGen := by
    intro r' hc he
    rw [hd'] at hc
    refine hk.gen (hi.copy r' ?_ he)
    rw [hd]
    exact hc
  by_cases hc : r.cookie = c
  · have hassign : h.assign c s = { h with handled := some (r.gen, some pos) } := by
      simp [History.assign, hd, hc, hg]
    have hfst : h.handled.map Prod.fst = some r.gen := by
      refine hi.handling r.toFishing ?_ hc
      rw [hd]
      rfl
    rw [hassign]
    refine ⟨fun g hg => hk.gen (hi.last g hg), fun hn => hk.unset (hi.unset hn), ?_,
      ?_, hcopy, ?_, ?_⟩
    · have hlatest := hi.latest
      rw [History.latest, hfst, ← hr] at hlatest
      exact hlatest
    · rintro g pos' ⟨⟩
      exact .inr ⟨r, keep, hd', hc⟩
    · rw [hd']
      rintro _ ⟨⟩ _
      rfl
    · rw [hd']
      rintro _ _ _ ⟨⟩ _
      rfl
  · have hassign : h.assign c s = h := by simp [History.assign, hd, hc]
    rw [hassign]
    refine ⟨fun g hg => hk.gen (hi.last g hg), fun hn => hk.unset (hi.unset hn), ?_,
      fun g pos' hpos => ?_, hcopy, ?_, ?_⟩
    · rw [hr]
      exact hi.latest
    · rcases hi.index g pos' hpos with hidx | ⟨r', keep', hpub, _⟩
      · exact .inl (hk.idx hidx)
      · rw [hd] at hpub
        cases hpub
    · rw [hd']
      rintro _ ⟨⟩ he
      exact absurd he hc
    · rw [hd']
      rintro _ _ _ ⟨⟩ he
      exact absurd he hc

/-- The copy is written back with the index. -/
theorem GenInv.written {r : Placing} {pos : ℕ} {keep : Bool} (hi : GenInv c s h)
    (hd : s.daemon = .published r pos keep) :
    GenInv c ⟨s.sys.setStorage r.cookie { r.ss with sockIdx := UInt32.ofNat pos },
      .closing r keep⟩ h := by
  by_cases hc : r.cookie = c
  · have hhandled := hi.published r pos keep hd hc
    obtain ⟨ss, hss, hgen⟩ := hi.copy r (by rw [hd]; rfl) hc
    obtain ⟨sock, hsock, _⟩ := Sys.storageOf_eq_some.mp hss
    have hnew : (s.sys.setStorage r.cookie { r.ss with sockIdx := UInt32.ofNat pos }).storageOf c =
        some { r.ss with sockIdx := UInt32.ofNat pos } := by
      rw [storageOf_setStorage, if_pos hc.symm, hsock]
      rfl
    refine ⟨fun g hg => ⟨_, hnew, ?_⟩, fun hn => ?_, hi.latest, fun g pos' hpos => ?_, ?_, ?_, ?_⟩
    · obtain ⟨ss', hss', rfl⟩ := hi.last g hg
      cases hss.symm.trans hss'
      exact hgen.symm
    · have hlatest := hi.latest
      rw [History.latest, hhandled, hn] at hlatest
      cases hr : (ringGens c s.sys.ring).getLast? <;> simp [hr] at hlatest
    · cases hhandled.symm.trans hpos
      exact .inl ⟨_, hnew, rfl⟩
    · rintro _ ⟨⟩
    · rintro _ ⟨⟩
    · rintro _ _ _ ⟨⟩
  · have hsame : (s.sys.setStorage r.cookie { r.ss with sockIdx := UInt32.ofNat pos }).storageOf c =
        s.sys.storageOf c := by
      rw [storageOf_setStorage, if_neg (Ne.symm hc)]
    refine ⟨fun g hg => ?_, fun hn => ?_, hi.latest, fun g pos' hpos => ?_, ?_, ?_, ?_⟩
    · rw [hsame]
      exact hi.last g hg
    · rw [hsame]
      exact hi.unset hn
    · rcases hi.index g pos' hpos with hidx | ⟨r', keep', hpub, hc'⟩
      · rw [hsame]
        exact .inl hidx
      · cases hd.symm.trans hpub
        exact absurd hc' hc
    · rintro _ ⟨⟩
    · rintro _ ⟨⟩
    · rintro _ _ _ ⟨⟩

theorem genInv_daemon (he : DaemonEffect s t) (hi : GenInv c s h) :
    GenInv c t (h.assign c s) := by
  have hassign : (∀ r seen pos len, s.daemon = .entered r seen pos len →
      s.sys.groups r.k = none) → h.assign c s = h := by
    intro hne
    unfold History.assign
    split
    · rename_i r seen pos len hd
      simp [hne r seen pos len hd]
    · rfl
  cases he with
  | crashed hf =>
    rw [hassign fun _ _ _ _ => hf.group_none]
    exact hi.moved rfl rfl hf.not_published (by rintro _ _ _ ⟨⟩) (by rintro _ ⟨⟩) (by rintro _ ⟨⟩)
  | @read r ss wg hd hss =>
    rw [hassign (by simp [hd])]
    refine hi.moved rfl rfl (by simp [hd]) (by simp) ?_ ?_
    · rintro _ ⟨⟩
      exact .inr hss
    · rintro _ ⟨⟩
      rw [hd]
      rfl
  | looked hd | entered hd =>
    rw [hassign (by simp [hd])]
    refine hi.moved rfl rfl (by simp [hd]) (by simp) ?_ ?_
    · rintro _ ⟨⟩
      left
      rw [hd]
      rfl
    · rintro _ ⟨⟩
      rw [hd]
      rfl
  | refused hd =>
    rw [hassign (by simp [hd])]
    exact hi.moved rfl rfl (by simp [hd]) (by simp) (by rintro _ ⟨⟩) (by rintro _ ⟨⟩)
  | @published r seen pos len st base keep hd hk hb =>
    have hbase : base.socks = s.sys.socks ∧ base.ring = s.sys.ring := by
      rcases hb with ⟨rfl, _⟩ | ⟨_, _, _, rfl⟩
      · exact ⟨rfl, rfl⟩
      · exact ⟨rfl, rfl⟩
    exact hi.assigned hd (by simp [hk]) hbase.1 hbase.2 rfl
  | wrote hd =>
    rw [hassign (by simp [hd])]
    exact hi.written hd
  | @closed r keep hd =>
    rw [hassign (by simp [hd])]
    refine hi.moved ?_ ?_ (by simp [hd]) (by simp) (by rintro _ ⟨⟩) (by rintro _ ⟨⟩)
    · cases keep <;> rfl
    · cases keep <;> rfl

theorem genInv_step {a : MicroAction} (he : microExecute p s a = some t) (hw : CopyWf s)
    (hi : GenInv c s h) (hrace : noRace c s a = true) : GenInv c t (h.next p c s a) := by
  cases microExecute_effect he with
  | sys ha hstep => exact genInv_sys ha hstep hw hi hrace
  | lost hd hr =>
    exact hi.pop (.of_eq rfl) hd hr rfl (by rintro _ ⟨⟩)
  | fished hd hr =>
    refine hi.pop (.of_eq rfl) hd hr rfl ?_
    rintro _ ⟨⟩ hc
    exact if_pos hc
  | daemon hstep => exact genInv_daemon hstep hi

theorem genInv_run {as : List MicroAction} {x : MicroSys × History}
    (hrun : Transition.Run ((withHistory p c).restrict fun x a => noRace c x.1 a = true)
      (.initial, .initial) as x) : GenInv c x.1 x.2 := by
  suffices hboth : CopyWf x.1 ∧ GenInv c x.1 x.2 from hboth.2
  refine hrun.inv_restrict (P := fun x => CopyWf x.1 ∧ GenInv c x.1 x.2) ?_ ⟨⟨.initial, ?_⟩, ?_⟩
  · rintro ⟨s, h⟩ a _ htr hrace ⟨hw, hi⟩
    obtain ⟨t, ht, rfl⟩ := Option.map_eq_some_iff.mp htr
    exact ⟨copyWf_step ht hw, genInv_step ht hw hi hrace⟩
  · rintro _ ⟨⟩
  · constructor <;>
      simp [MicroSys.initial, Sys.initial, Sys.storageOf, History.initial, History.latest,
        ringGens, DaemonPc.copy, DaemonPc.handling]

/-- No update is lost where no call changes the generation between the daemon's read of the
storage and its write. -/
theorem generation_kept {as : List MicroAction} {x : MicroSys × History} {g : UInt32}
    (hrun : Transition.Run ((withHistory p c).restrict fun x a => noRace c x.1 a = true)
      (.initial, .initial) as x) (hring : ringGens c x.1.sys.ring = [])
    (hidle : ∀ r, x.1.daemon.handling = some r → r.cookie ≠ c) (hlast : x.2.lastGen = some g) :
    ∃ ss idx, x.1.sys.storageOf c = some ss ∧ ss.sockGen = g ∧ x.2.handled = some (g, idx) ∧
      ∀ pos, idx = some pos → ss.sockIdx = UInt32.ofNat pos := by
  have hi := genInv_run hrun
  obtain ⟨ss, hss, hgen⟩ := hi.last g hlast
  have hlatest := hi.latest
  rw [hring, hlast] at hlatest
  obtain ⟨⟨g', idx⟩, hhandled, rfl⟩ := Option.map_eq_some_iff.mp hlatest
  refine ⟨ss, idx, hss, hgen, hhandled, ?_⟩
  rintro pos rfl
  rcases hi.index _ pos hhandled with ⟨ss', hss', hidx⟩ | ⟨r, keep, hpub, hc⟩
  · cases hss.symm.trans hss'
    exact hidx
  · exact absurd hc (hidle r.toFishing (by rw [hpub]; rfl))

end

/-! ### A call between the read and the write -/

/-- Socket 1 asks for generations 1 and 2. The second call comes before the daemon looks at
the first message, which then finds no process, or between its read and its write. -/
def askTwice (early : Bool) : List MicroAction :=
  let first := (Action.openBound 1 ++ [Action.call 1 201 [1, 0, 0, 0]]).map .sys
  let second := MicroAction.sys (Action.call 1 201 [2, 0, 0, 0])
  let rest := List.replicate (MAX_SOCKETS_IN_GEN + 4) .daemon
  first ++
    (if early then [second, .sys (.handle ⟨.notFound, true, 0, 0⟩)]
      else [.fish ⟨.found 10, true, 0, 0⟩, .daemon, second] ++ rest) ++
    [.fish ⟨.found 11, true, 0, 0⟩, .daemon] ++ rest

theorem generation_kept_early :
    ∃ x : MicroSys × History, Transition.Run
        ((withHistory .const 1).restrict fun x a => noRace 1 x.1 a = true)
        (.initial, .initial) (askTwice true) x ∧
      ∃ ss idx, x.1.sys.storageOf 1 = some ss ∧ ss.sockGen = 2 ∧ x.2.handled = some (2, idx) ∧
        ∀ pos, idx = some pos → ss.sockIdx = UInt32.ofNat pos := by
  obtain ⟨x, hrun, hx⟩ := run_restrict_of_any (recorded .const 1)
    (fun x a => noRace 1 x.1 a) (.initial, .initial) (askTwice true)
    (fun x => decide (ringGens 1 x.1.sys.ring = []) && x.1.daemon.handling.isNone &&
      decide (x.2.lastGen = some 2)) (by decide +kernel)
  simp only [Bool.and_eq_true, decide_eq_true_eq, Option.isNone_iff_eq_none] at hx
  exact ⟨x, hrun, generation_kept hrun hx.1.1 (by simp [hx.1.2]) hx.2⟩

theorem generation_lost :
    ∃ x : MicroSys × History, Transition.Run (withHistory .const 1)
        (.initial, .initial) (askTwice false) x ∧
      x.1.sys.ring = [] ∧ x.1.daemon.isIdle = true ∧ x.2.lastGen = some 2 ∧
      x.2.handled = some (2, some 0) ∧ (x.1.sys.storageOf 1).map (·.sockGen) = some 1 := by
  obtain ⟨x, hrun, hx⟩ := run_of_any (recorded .const 1) (.initial, .initial) (askTwice false)
    (fun x => decide (x.1.sys.ring = []) && x.1.daemon.isIdle && decide (x.2.lastGen = some 2) &&
      decide (x.2.handled = some (2, some 0)) &&
      decide ((x.1.sys.storageOf 1).map (·.sockGen) = some 1)) (by decide +kernel)
  simp only [Bool.and_eq_true, decide_eq_true_eq] at hx
  obtain ⟨⟨⟨⟨hring, hidle⟩, hlast⟩, hhandled⟩, hgen⟩ := hx
  exact ⟨x, hrun, hring, hidle, hlast, hhandled, hgen⟩

end Udpgrm
