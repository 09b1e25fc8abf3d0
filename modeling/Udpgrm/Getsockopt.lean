import Udpgrm.Groups

/-! The getsockopt hook, and the dissector that a group keeps for life. -/
namespace Udpgrm

open LittleEndian
open Transition (exec run_of_any run_ofFn_iff)

/-! ### The hook -/

/-- The fields of `struct udp_grm_dissector` with their offsets. -/
def Dissector.writes (d : Dissector) : Writes :=
  [(0, ofNat 4 d.dissectorType.toNat), (4, ofNat 4 d.flowEntryTimeoutSec.toNat),
    (8, ofNat 4 d.maxApps.toNat), (12, ofNat 4 d.bespokeDigest.toNat), (16, d.label.toList),
    (116, ofNat 4 d.filterLen.toNat), (120, d.filter.toList)]

/-- What `udpgrm_getsockopt` stores in the zeroed page, by option. -/
def getsockoptWrites (s : Sys) (c : UInt64) (sock : Sock) : SockOpt → Except Errno Writes
  | .workingGen => .ok [(0, ofNat 4 (getWorkingGen s c sock.key).toNat)]
  | .socketGen =>
    match getSocketGen s c with
    | none => .error .ebadfd
    | some (gen, idx, grmCookie) =>
      -- two bytes of the packed cookie are zero padding
      .ok [(0, ofNat 4 gen.toNat), (4, ofNat 4 idx.toNat), (8, ofNat 4 grmCookie.toNat)]
  | .dissector =>
    match s.groups sock.key with
    | none => .error .ebadfd
    | some st => .ok st.dis.writes
  | .socketApp =>
    match sock.storage with
    | none => .error .ebadfd
    | some ss => .ok [(0, ofNat 4 ss.sockApp.toNat)]
  | .flowAssure => .error .eperm

/-- The sizes the copy-out ladder tries: those of the copy-in without `sockaddr_in6`. -/
def copyOutSizes : List ℕ := [632, 116 + 4 + 256, 116, 16, 12, 8, 4]

/-- The caller's buffer after the copy, or none where it has no four bytes. -/
def copyOut (page optval : List UInt8) : Option (List UInt8) :=
  (copyOutSizes.find? (fun n => decide (n ≤ optval.length))).map fun n =>
    patch optval 0 (page.take n)

/-- `udpgrm_getsockopt` by socket `c`: the answer and the caller's buffer. It reads socket and
group and writes neither. -/
def udpgrmGetsockopt (s : Sys) (c : UInt64) (ctx : SockoptCtx) : OptRet × List UInt8 :=
  match ctx.opt, s.socks c with
  | some opt, some sock =>
    if ctx.handled then (.pass, ctx.optval)
    else
      match getsockoptWrites s c sock opt with
      | .error e => (.err e, ctx.optval)
      | .ok ws =>
        match copyOut (patches (List.replicate PERCPU_ARRAY_SIZE 0) ws) ctx.optval with
        | none => (.err .efault, ctx.optval)
        | some optval => (.ok, optval)
  | _, _ => (.pass, ctx.optval)

/-! ### A dissector read back is the dissector stored -/

theorem Dissector.writes_ascending (d : Dissector) {n : ℕ} (h : 632 ≤ n) :
    Ascending n 0 d.writes := by
  simpa [Dissector.writes, Ascending, LABEL_SZ] using h

theorem getD_of_field {bytes bs : List UInt8} {off i : ℕ}
    (h : field bytes off bs.length = bs) (hi : i < bs.length) :
    bytes.getD (off + i) 0 = bs[i] := by
  have hget : bs[i]? = bytes[off + i]? := by
    calc bs[i]? = (field bytes off bs.length)[i]? := by rw [h]
      _ = bytes[off + i]? := by rw [field, List.getElem?_take_of_lt hi, List.getElem?_drop]
  rw [List.getD_eq_getElem?_getD, ← hget, List.getElem?_eq_getElem hi, Option.getD_some]

/-- The structure is determined by its 632 bytes. -/
theorem Dissector.ofBytes_eq {d : Dissector} {bytes : List UInt8}
    (h : ∀ off bs, (off, bs) ∈ d.writes → field bytes off bs.length = bs) :
    Dissector.ofBytes bytes = d := by
  have hword : ∀ off (x : UInt32), (off, ofNat 4 x.toNat) ∈ d.writes → u32 bytes off = x := by
    intro off x hmem
    have hfield := h _ _ hmem
    rw [length_ofNat] at hfield
    exact u32_eq hfield
  have hbytes : ∀ {n} off (v : Vector UInt8 n), (off, v.toList) ∈ d.writes →
      (Vector.ofFn fun i : Fin n => bytes.getD (off + i) 0) = v := by
    intro n off v hmem
    apply Vector.ext
    intro i hi
    have hlen : i < v.toList.length := by simpa using hi
    simp only [Vector.getElem_ofFn]
    rw [getD_of_field (h _ _ hmem) hlen, Vector.getElem_toList]
  unfold Dissector.ofBytes
  rw [hword 0 d.dissectorType (by simp [writes]), hword 4 d.flowEntryTimeoutSec (by simp [writes]),
    hword 8 d.maxApps (by simp [writes]), hword 12 d.bespokeDigest (by simp [writes]),
    hword 116 d.filterLen (by simp [writes]), hbytes 16 d.label (by simp [writes]),
    hbytes 120 d.filter (by simp [writes])]

theorem copyIn_of_le {optval : List UInt8} (h : 632 ≤ optval.length) :
    copyIn optval = some (optval.take 632 ++ List.replicate (PERCPU_ARRAY_SIZE - 632) 0) := by
  simp [copyIn, copyInSizes, h]

theorem copyOut_of_le {page optval : List UInt8} (h : 632 ≤ optval.length) :
    copyOut page optval = some (patch optval 0 (page.take 632)) := by
  simp [copyOut, copyOutSizes, h]

/-- A buffer with room for the whole structure, filled by getsockopt and given to setsockopt,
carries the dissector over. -/
theorem copyIn_copyOut {d : Dissector} {optval : List UInt8} (hlen : 632 ≤ optval.length) :
    ∃ buf data, copyOut (patches (List.replicate PERCPU_ARRAY_SIZE 0) d.writes) optval = some buf ∧
      copyIn buf = some data ∧ Dissector.ofBytes data = d := by
  set page := patches (List.replicate PERCPU_ARRAY_SIZE 0) d.writes
  have hasc := d.writes_ascending (n := (List.replicate PERCPU_ARRAY_SIZE (0 : UInt8)).length)
    (by rw [List.length_replicate]; decide)
  have hplen : (page.take 632).length = 632 := by
    rw [List.length_take, length_patches hasc, List.length_replicate]
    rfl
  have hblen : 632 ≤ (patch optval 0 (page.take 632)).length := by
    rwa [length_patch (by omega)]
  refine ⟨_, _, copyOut_of_le hlen, copyIn_of_le hblen, Dissector.ofBytes_eq ?_⟩
  intro off bs hmem
  have hend : off + bs.length ≤ 632 := (d.writes_ascending le_rfl).mem_le hmem
  have hbuf : (patch optval 0 (page.take 632)).take 632 = page.take 632 := by
    rw [patch, List.take_zero, List.nil_append, List.take_left' hplen]
  rw [hbuf, ← field_take hend, List.take_left' hplen, field_take hend]
  exact field_patches_mem hasc hmem

/-! ### The dissector of a group -/

variable {p : Programs} {s t : Sys} {k : Key} {st : ReuseportStorage} {c : UInt64}
  {ctx : SockoptCtx} {as : List Action}

/-- Equal up to the verbose flag bit. -/
def Dissector.SameButVerbose (a b : Dissector) : Prop :=
  { a with dissectorType := a.dissectorType ||| DISSECTOR_FLAG_VERBOSE } =
    { b with dissectorType := b.dissectorType ||| DISSECTOR_FLAG_VERBOSE }

instance (a b : Dissector) : Decidable (a.SameButVerbose b) :=
  inferInstanceAs (Decidable (_ = _))

theorem Dissector.SameButVerbose.refl (d : Dissector) : d.SameButVerbose d := rfl

theorem dissectorType_eq_iff (x y : UInt32) :
    dissectorType x = dissectorType y ↔
      x ||| DISSECTOR_FLAG_VERBOSE = y ||| DISSECTOR_FLAG_VERBOSE := by
  have hset : ∀ z : UInt32, dissectorType z ||| DISSECTOR_FLAGS = z ||| DISSECTOR_FLAGS := by
    intro z
    apply UInt32.toBitVec_inj.mp
    ext i hi
    simp only [dissectorType, UInt32.toBitVec_or, UInt32.toBitVec_and, UInt32.toBitVec_not,
      BitVec.getElem_or, BitVec.getElem_and, BitVec.getElem_not]
    cases DISSECTOR_FLAGS.toBitVec[i] <;> simp
  have hclear : ∀ z : UInt32, dissectorType (z ||| DISSECTOR_FLAGS) = dissectorType z := by
    intro z
    apply UInt32.toBitVec_inj.mp
    ext i hi
    simp only [dissectorType, UInt32.toBitVec_or, UInt32.toBitVec_and, UInt32.toBitVec_not,
      BitVec.getElem_or, BitVec.getElem_and, BitVec.getElem_not]
    cases DISSECTOR_FLAGS.toBitVec[i] <;> simp
  constructor
  · intro h
    rw [← hset x, ← hset y, h]
  · intro h
    rw [← hclear x, ← hclear y, h]

/-- `dissector_cmp` masks the flags and compares the rest. -/
theorem dissectorCmp_iff (a b : Dissector) : dissectorCmp a b = true ↔ a.SameButVerbose b := by
  simp only [dissectorCmp, Bool.and_eq_true, decide_eq_true_eq, dissectorType_eq_iff,
    Dissector.SameButVerbose, Dissector.mk.injEq]
  tauto

theorem dis_run (h : Run p s as t) (hd : ∀ a ∈ as, a ≠ .delete k) (hk : s.groups k = some st) :
    ∃ st', t.groups k = some st' ∧ st'.dis = st.dis := by
  induction h generalizing st with
  | refl => exact ⟨st, hk, rfl⟩
  | @stepL s u t a as hstep _ ih =>
    obtain ⟨st₁, h₁⟩ := Option.isSome_iff_exists.mp
      (group_survives hstep (hd a (by simp)) (by simp [hk]))
    have hdis : st₁.dis = st.dis := by
      cases group_change hstep h₁ with
      | kept st₀ hst hs =>
        cases hk.symm.trans hst
        exact hs.dis_eq
      | born _ _ _ _ _ hnone _ => simp [hnone] at hk
    obtain ⟨st', h', hdis'⟩ := ih (fun b hb => hd b (by simp [hb])) h₁
    exact ⟨st', h', hdis'.trans hdis⟩

/-- The socket was bound with SO_REUSEPORT, and in the network namespace of the group. -/
structure InGroup (s : Sys) (c : UInt64) (k : Key) (st : ReuseportStorage) : Prop where
  group : s.groups k = some st
  sock : ∃ sock ss, s.socks c = some sock ∧ sock.key = k ∧ sock.storage = some ss ∧
    ss.netnsCookie = st.netnsCookie

/-- An option call that reaches a group that exists. -/
theorem setsockopt_existing {env : OptEnv} {data : List UInt8} (hg : InGroup s c k st)
    (ho : ctx.opt = some .dissector) (hh : ctx.handled = false)
    (hd : copyIn ctx.optval = some data) :
    udpgrmSetsockopt p env s c ctx =
      if st.dis.SameButVerbose (.ofBytes data) then
        (.ok, s.setGroup k { st with verbose := verboseFlag (.ofBytes data) })
      else (.err .eperm, s) := by
  obtain ⟨hk, sock, ss, hs, rfl, hss, hns⟩ := hg
  simp only [udpgrmSetsockopt, ho, hh, hd, hs, hss, getStateCreate, hk, setsockoptBody, hns,
    Option.bind_some, Option.map_some, ne_eq, not_true_eq_false, ite_false, ← dissectorCmp_iff]
  rfl

theorem getsockopt_existing (hc : (s.socks c).map Sock.key = some k) (hk : s.groups k = some st)
    (ho : ctx.opt = some .dissector) (hh : ctx.handled = false) (hlen : 632 ≤ ctx.optval.length) :
    ∃ buf data, udpgrmGetsockopt s c ctx = (.ok, buf) ∧ copyIn buf = some data ∧
      Dissector.ofBytes data = st.dis := by
  obtain ⟨sock, hs, rfl⟩ := Option.map_eq_some_iff.mp hc
  obtain ⟨buf, data, hout, hin, hdis⟩ := copyIn_copyOut (d := st.dis) hlen
  refine ⟨buf, data, ?_, hin, hdis⟩
  simp only [udpgrmGetsockopt, ho, hs, hh, getsockoptWrites, hk, hout]
  rfl

/-- In a run without the delete command the dissector of a group stays as the call that
created the group left it. A UDP_GRM_DISSECTOR call by a socket of the group succeeds where
it names the same dissector, and then sets the verbose flag and nothing else. The structure
read with getsockopt can be written back at any later time. -/
theorem dissector_fixed (hk : s.groups k = some st) (hrun : Run p s as t)
    (hd : ∀ a ∈ as, a ≠ .delete k) :
    ∃ st', t.groups k = some st' ∧ st'.dis = st.dis ∧
      (∀ c ctx data env, InGroup t c k st' → ctx.opt = some .dissector → ctx.handled = false →
        copyIn ctx.optval = some data →
        udpgrmSetsockopt p env t c ctx =
          if st.dis.SameButVerbose (.ofBytes data) then
            (.ok, t.setGroup k { st' with verbose := verboseFlag (.ofBytes data) })
          else (.err .eperm, t)) ∧
      ∀ c c' ctx env, (s.socks c).map Sock.key = some k → InGroup t c' k st' →
        ctx.opt = some .dissector → ctx.handled = false → 632 ≤ ctx.optval.length →
        ∃ buf, udpgrmGetsockopt s c ctx = (.ok, buf) ∧
          (udpgrmSetsockopt p env t c' { ctx with optval := buf }).1 = .ok := by
  obtain ⟨st', hk', hdis⟩ := dis_run hrun hd hk
  refine ⟨st', hk', hdis, ?_, ?_⟩
  · intro c ctx data env hg ho hh hdata
    rw [setsockopt_existing hg ho hh hdata, hdis]
  · intro c c' ctx env hc hg ho hh hlen
    obtain ⟨buf, data, hget, hin, hdata⟩ := getsockopt_existing hc hk ho hh hlen
    refine ⟨buf, hget, ?_⟩
    have ho' : ({ ctx with optval := buf } : SockoptCtx).opt = some .dissector := ho
    rw [setsockopt_existing hg ho' hh hin, hdis, hdata, if_pos (.refl _)]

/-- A group with a FLOW dissector and a timeout of 30 s for its flows. -/
def namedDissector : List Action :=
  Action.openBound 1 ++ [.call 1 202 ([0, 0, 0, 0, 30] ++ List.replicate 111 0), .daemon 0]

/-- Its socket is registered for a generation, which then becomes the working one, and gets a
packet. -/
def laterCalls : List Action :=
  [.call 1 201 [3, 0, 0, 0], .daemon 10, .call 1 200 [3, 0, 0, 0], .daemon 0,
    .packet 1 ⟨0, 0, 8, [], []⟩ 0]

def readDissector : SockoptCtx := ⟨IPPROTO_UDP, 202, List.replicate 632 0, false⟩

theorem readDissector_room : 632 ≤ readDissector.optval.length :=
  List.length_replicate.ge

theorem dissector_fixed_rollout :
    ∃ s t, Run .const Sys.initial namedDissector s ∧ Run .const s laterCalls t ∧
      (∃ st, s.groups (skeyFromBpfSock .loopback) = some st ∧ st.dis.flowEntryTimeoutSec = 30) ∧
      ∃ buf, udpgrmGetsockopt s 1 readDissector = (.ok, buf) ∧
        (udpgrmSetsockopt .const .roomy t 1 { readDissector with optval := buf }).1 = .ok := by
  obtain ⟨s, hs, hx⟩ := run_of_any (execute .const) Sys.initial namedDissector
    (fun s : Sys => decide ((s.socks 1).map Sock.key = some (skeyFromBpfSock .loopback)) &&
      (s.groups (skeyFromBpfSock .loopback)).any (fun st : ReuseportStorage =>
        decide (st.dis.flowEntryTimeoutSec = 30)) &&
      (exec (execute .const) s laterCalls).any fun t : Sys => (t.socks 1).any fun sock : Sock =>
        decide (sock.key = skeyFromBpfSock .loopback) &&
        (t.groups (skeyFromBpfSock .loopback)).any fun st : ReuseportStorage =>
          sock.storage.any fun ss => decide (ss.netnsCookie = st.netnsCookie))
    (by decide +kernel)
  simp only [Bool.and_eq_true, Option.any_eq_true, decide_eq_true_eq] at hx
  obtain ⟨⟨hkey, st, hst, htimeout⟩, t, ht, sock, hsock, hkey', st', hst', ss, hss, hns⟩ := hx
  have hrun : Run .const s laterCalls t := run_ofFn_iff.mpr ht
  obtain ⟨u, hu, _, _, hback⟩ :=
    dissector_fixed hst hrun (by simp [laterCalls, Action.call, Action.daemon])
  cases hu.symm.trans hst'
  exact ⟨s, t, hs, hrun, ⟨st, hst, htimeout⟩, hback 1 1 readDissector .roomy hkey
    ⟨hst', sock, ss, hsock, hkey', hss, hns⟩ rfl rfl readDissector_room⟩

/-- A socket asks for a generation, which creates its group, and a socket in another network
namespace is bound to the same address. -/
def twoNamespaces : List Action :=
  Action.openBound 1 ++ [.call 1 201 [0, 0, 0, 0]] ++
    [.socket 2 .loopback 6, .bind 2 ⟨AF_INET, IPPROTO_UDP, some 1, true⟩]

/-- The socket in the other namespace reads the dissector of the group, and is refused with
EBADF when it writes the same structure back. -/
theorem dissector_other_namespace :
    ∃ s, Run .const Sys.initial twoNamespaces s ∧ ∃ buf,
      udpgrmGetsockopt s 2 readDissector = (.ok, buf) ∧
      (∃ k st data, (s.socks 2).map Sock.key = some k ∧ s.groups k = some st ∧
        copyIn buf = some data ∧ st.dis.SameButVerbose (.ofBytes data)) ∧
      (udpgrmSetsockopt .const .roomy s 2 { readDissector with optval := buf }).1 =
        .err .ebadf := by
  obtain ⟨s, hs, hx⟩ := run_of_any (execute .const) Sys.initial twoNamespaces
    (fun s : Sys => (s.socks 2).any (fun sock : Sock => (s.groups sock.key).any
      fun st : ReuseportStorage => sock.storage.any fun ss =>
        decide (st.netnsCookie ≠ ss.netnsCookie))) (by decide +kernel)
  simp only [Option.any_eq_true, decide_eq_true_eq] at hx
  obtain ⟨sock, hsock, st, hst, ss, hss, hns⟩ := hx
  have hc : (s.socks 2).map Sock.key = some sock.key := by simp [hsock]
  obtain ⟨buf, data, hget, hin, hdata⟩ := getsockopt_existing hc hst rfl rfl readDissector_room
  refine ⟨s, hs, buf, hget, ⟨sock.key, st, data, hc, hst, hin, hdata ▸ .refl _⟩, ?_⟩
  have ho : ({ readDissector with optval := buf } : SockoptCtx).opt = some .dissector := rfl
  simp only [udpgrmSetsockopt, ho, hin, hsock, hss, getStateCreate, hst, Option.bind_some,
    Option.map_some, if_pos hns]
  rfl

end Udpgrm
