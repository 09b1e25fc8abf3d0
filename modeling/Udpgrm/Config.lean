import Udpgrm.Groups

/-! The configuration of a group, and the divisions that rely on it. -/
namespace Udpgrm

open Transition (run_of_any run_restrict_of_any)

/-- What the consumers of a dissector expect of it. -/
structure Dissector.Valid (d : Dissector) : Prop where
  apps : d.maxApps.toNat ≤ MAX_APPS
  cbpf : d.kind = some .cbpf →
    1 ≤ d.filterLen.toNat ∧ d.filterLen.toNat ≤ MAX_INSTR ∧ d.bespokeDigest = 0
  bespoke : d.kind = some .bespoke → d.bespokeDigest ≠ 0
  plain : d.kind = some .flow ∨ d.kind = some .noop →
    d.maxApps = 0 ∧ d.bespokeDigest = 0 ∧ d.filterLen = 0

variable {p : Programs} {s t : Sys} {a : Action} {d : Dissector} {st : ReuseportStorage}

theorem dissectorType_idem (x : UInt32) : dissectorType (dissectorType x) = dissectorType x := by
  rw [dissectorType, dissectorType, UInt32.and_assoc, UInt32.and_self]

@[simp] theorem Dissector.stored_kind (d : Dissector) : d.stored.kind = d.kind := by
  simp only [Dissector.kind, Dissector.stored, dissectorKind, dissectorType_idem]

theorem dissectorFail_stored (d : Dissector) : dissectorFail d.stored = dissectorFail d := by
  rw [dissectorFail, dissectorFail, Dissector.stored_kind]
  rfl

theorem Dissector.empty_valid : Dissector.empty.Valid := by
  constructor <;> decide

/-- The checks that the hook makes for BESPOKE dissectors nowhere. -/
def Dissector.bespokeChecked (d : Dissector) : Bool :=
  d.kind ≠ some .bespoke || d.bespokeDigest ≠ 0 && decide (d.maxApps.toNat ≤ MAX_APPS)

/-- With the checks for BESPOKE added, a dissector that passes validation is valid. -/
theorem stored_valid (hf : dissectorFail d = false) (hb : d.bespokeChecked = true) :
    d.stored.Valid := by
  have hm : d.stored.maxApps = d.maxApps := rfl
  have hl : d.stored.filterLen = d.filterLen := rfl
  have hg : d.stored.bespokeDigest = d.bespokeDigest := rfl
  cases hk : d.kind with
  | none => simp [dissectorFail, hk] at hf
  | some kind =>
    cases kind with
    | flow | noop =>
      simp only [dissectorFail, hk, Bool.or_eq_false_iff, decide_eq_false_iff_not, not_not] at hf
      obtain ⟨⟨hlen, happs⟩, hdig⟩ := hf
      constructor <;> simp [hk, hm, hl, hg, hlen, happs, hdig]
    | cbpf =>
      simp only [dissectorFail, hk, Bool.or_eq_false_iff, decide_eq_false_iff_not, not_not,
        UInt32.not_lt, not_lt] at hf
      obtain ⟨⟨⟨hlo, hhi⟩, happs⟩, hdig⟩ := hf
      refine ⟨happs, fun _ => ⟨?_, hhi, hdig⟩, by simp [hk], by simp [hk]⟩
      rw [hl]
      exact UInt32.le_iff_toNat_le.mp hlo
    | bespoke =>
      simp only [Dissector.bespokeChecked, hk, ne_eq, not_true_eq_false, decide_false,
        Bool.false_or, Bool.and_eq_true, decide_eq_true_eq] at hb
      exact ⟨hb.2, by simp [hk], fun _ => hb.1, by simp [hk]⟩

/-! ### Runs -/

/-- The step creates no group from a BESPOKE dissector that lacks a digest or has more than
MAX_APPS applications. -/
def bespokeCallChecked (s : Sys) : Action → Bool
  | .setsockopt c ctx _ =>
    match ctx.opt, (s.socks c).map Sock.key, copyIn ctx.optval with
    | some .dissector, some k, some data =>
      (s.groups k).isSome || (Dissector.ofBytes data).bespokeChecked
    | _, _, _ => true
  | _ => true

def GroupsValid (s : Sys) : Prop := ∀ k st, s.groups k = some st → st.dis.Valid

theorem groupsValid_step (h : execute p s a = some t) (hc : bespokeCallChecked s a = true)
    (hv : GroupsValid s) : GroupsValid t := by
  intro k st hk
  cases group_change h hk with
  | kept st₀ hst hs =>
    rw [hs.dis_eq]
    exact hv k st₀ hst
  | born c ctx env ha hsock hnone hb =>
    cases hb with
    | implicit env ss hs =>
      rw [hs.sameTable.dis]
      exact Dissector.empty_valid
    | install env ss data hd ho hf heq =>
      subst ha heq
      exact stored_valid hf (by simpa [bespokeCallChecked, ho, hsock, hd, hnone] using hc)

theorem groupsValid_run {as : List Action}
    (h : Transition.Run ((system p).restrict fun s a => bespokeCallChecked s a = true)
      Sys.initial as t) : GroupsValid t :=
  h.inv_restrict groupsValid_step (by simp [GroupsValid, Sys.initial])

/-! ### Consumers -/

theorem slotSize_ne_zero_of_valid (h : d.Valid) : slotSize d.maxApps ≠ 0 := by
  have := h.apps
  rw [ne_eq, slotSize_eq_zero_iff]
  simp only [MAX_APPS] at this
  omega

theorem toWrkGen?_isSome {m : UInt32} (h : slotSize m ≠ 0) (app gen : UInt32) :
    toWrkGen? m app gen = some (toWrkGen m app gen) := by
  simp [toWrkGen?, h]

theorem handleMsg_ne_divisionByZero {env : DaemonEnv} {m : Msg}
    (h : ∀ st, s.groups m.skey = some st → slotSize st.dis.maxApps ≠ 0) :
    handleMsg env s m ≠ .error .divisionByZero := by
  unfold handleMsg
  split
  · simp
  · simp
  · rename_i st k pid cookie gen app hk
    have hslot : slotSize st.dis.maxApps ≠ 0 := h st hk
    simp only [handleRegister, toWrkGen?_isSome hslot]
    repeat' split
    all_goals simp [Except.map]
  all_goals simp

theorem genPointedByWrkGen_ne_none (h : slotSize st.dis.maxApps ≠ 0) (gen : UInt32) :
    genPointedByWrkGen gen st ≠ none := by
  simp only [genPointedByWrkGen, toWrkGen?_isSome h, Option.map_some]
  -- the accumulator stays defined through the loop over the applications
  suffices ∀ (l : List (Fin MAX_APPS)) (found : Option (Fin MAX_APPS)),
      l.foldl _ (some found) ≠ none from this _ none
  intro l
  induction l with
  | nil => simp
  | cons app l ih =>
    intro found
    cases found with
    | some found => exact ih (some found)
    | none => exact ih _

theorem slotSize_xmaxApps_ne_zero (h : GroupsValid s) (k : Key) :
    slotSize (xmaxApps s k) ≠ 0 := by
  unfold xmaxApps
  split
  · exact slotSize_ne_zero_of_valid (h _ _ ‹_›)
  · decide

theorem doSocketMetricsReads_lt (h : st.dis.Valid) :
    ∀ i ∈ doSocketMetricsReads st, i < MAX_APPS := by
  intro i hi
  have happs := h.apps
  simp only [doSocketMetricsReads, List.mem_range, numApps, MAX_APPS] at hi happs ⊢
  split at hi <;> omega

/-- While every BESPOKE dissector that creates a group has a digest and at most MAX_APPS
applications, each group is valid and no reader of a group divides by zero or leaves
`working_gen`. -/
theorem config_valid_of_bespoke_checked {as : List Action}
    (h : Transition.Run ((system p).restrict fun s a => bespokeCallChecked s a = true)
      Sys.initial as t) :
    (∀ k st, t.groups k = some st →
      st.dis.Valid ∧ slotSize st.dis.maxApps ≠ 0 ∧
        (∀ gen, genPointedByWrkGen gen st ≠ none) ∧
        ∀ i ∈ doSocketMetricsReads st, i < MAX_APPS) ∧
      (∀ k, slotSize (xmaxApps t k) ≠ 0) ∧
      ∀ env m, handleMsg env t m ≠ .error .divisionByZero := by
  have hv := groupsValid_run h
  refine ⟨fun k st hk => ?_, slotSize_xmaxApps_ne_zero hv, fun env m => ?_⟩
  · have hslot := slotSize_ne_zero_of_valid (hv k st hk)
    exact ⟨hv k st hk, hslot, genPointedByWrkGen_ne_none hslot,
      doSocketMetricsReads_lt (hv k st hk)⟩
  · exact handleMsg_ne_divisionByZero fun st hst => slotSize_ne_zero_of_valid (hv _ st hst)

/-- A socket asks for a BESPOKE dissector with a digest, and then for a generation. -/
def bespokeRun (maxApps : UInt8) : List Action :=
  Action.openBound 1 ++
    [.call 1 202 [3, 0, 0, 0, 0, 0, 0, 0, maxApps, 0, 0, 0, 0xAD, 0xDE, 0, 0],
      .call 1 201 [0, 0, 0, 0], .daemon 10]

theorem config_valid_bespoke_two_apps :
    ∃ t, Transition.Run ((system .const).restrict fun s a => bespokeCallChecked s a = true)
        Sys.initial (bespokeRun 2) t ∧
      xmaxApps t (skeyFromBpfSock .loopback) = 2 ∧
      slotSize (xmaxApps t (skeyFromBpfSock .loopback)) ≠ 0 := by
  obtain ⟨t, ht, hx⟩ := run_restrict_of_any (execute .const) bespokeCallChecked Sys.initial
    (bespokeRun 2)
    (fun t => decide (xmaxApps t (skeyFromBpfSock .loopback) = 2)) (by decide +kernel)
  exact ⟨t, ht, of_decide_eq_true hx, (config_valid_of_bespoke_checked ht).2.1 _⟩

/-- With 33 applications the hook accepts the same call, the rows per application are zero,
and the daemon divides by zero on the registration that follows. -/
theorem bespoke_33_apps_divides_by_zero :
    ∃ t, Run .const Sys.initial (bespokeRun 33) t ∧
      (∃ k st, t.groups k = some st ∧ ¬ st.dis.Valid ∧ slotSize st.dis.maxApps = 0) ∧
      ∃ env m, t.ring.head? = some m ∧ handleMsg env t m = .error .divisionByZero := by
  obtain ⟨t, ht, hx⟩ := run_of_any (execute .const) Sys.initial (bespokeRun 33)
    (fun t : Sys => ((t.groups (skeyFromBpfSock .loopback)).any fun st : ReuseportStorage =>
        decide (st.dis.maxApps = 33)) &&
      t.ring.head?.any fun m =>
        decide (fatalOf (handleMsg ⟨.found 10, true, 0, 0⟩ t m) = some .divisionByZero))
    (by decide +kernel)
  rw [Bool.and_eq_true, Option.any_eq_true, Option.any_eq_true] at hx
  obtain ⟨⟨st, hst, happs⟩, m, hm, hfatal⟩ := hx
  have happs : st.dis.maxApps = 33 := of_decide_eq_true happs
  refine ⟨t, ht, ⟨_, st, hst, fun hv => ?_, by rw [happs]; decide⟩, _, m, hm,
    fatalOf_eq_some.mp (of_decide_eq_true hfatal)⟩
  have := hv.apps
  rw [happs] at this
  exact absurd this (by decide)

end Udpgrm
