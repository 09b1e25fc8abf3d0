import Udpgrm.Creation

/-! Of two calls that find no group, one creates it, if they do not run into each other. -/
namespace Udpgrm

variable {x : Calls} {s t : GroupRace} {i k : Caller} {e : ℕ}

/-! ### What should hold -/

/-- At most one call takes itself for the creator of an element, a successful call has its
configuration installed, a call that ends while the other one has installed another configuration
ends with EPERM, and a call with an invalid configuration leaves alone what the other one
created. -/
structure OneCreator (x : Calls) (s : GroupRace) : Prop where
  creator : ∀ e, ¬ (s.creator true = some e ∧ s.creator false = some e)
  kept : ∀ i, s.pc i = .done .ok → ∃ e, s.cur = some e ∧ (s.mem e).dis = (x.cfg i).stored
  conflict : ∀ i t r e, x.step s i = some t → t.pc i = .done r → s.cur = some e →
    s.owner e = (!i) ∨ s.pc (!i) = .done .ok → (s.mem e).dis ≠ (x.cfg i).stored → r = .err .eperm
  spared : ∀ i t e, x.step s i = some t → dissectorFail (x.cfg i) = true → s.cur = some e →
    s.owner e = !i → t.cur = some e ∧ t.mem e = s.mem e

namespace CallPc

/-- Between the first lookup and the last write. -/
def busy : CallPc → Bool
  | start | stored | done _ => false
  | _ => true

/-- With `created` set, or about to set it. -/
def creating : CallPc → Bool
  | missing | updated | created _ | found _ true | rejected | valid _ | reserved _ => true
  | _ => false

def succeeded : CallPc → Bool
  | stored | done .ok => true
  | _ => false

end CallPc

/-- No call looks up the group while the other one is at work on it. -/
def serial (s : GroupRace) (i : Caller) : Bool :=
  decide (s.pc i = .start → (s.pc !i).busy = false)

/-! ### Calls one after the other -/

/-- A group that is not being created: initialised, with a valid configuration. -/
structure GroupOk (x : Calls) (st : ReuseportStorage) : Prop where
  netns : st.netnsCookie = x.netns
  flags : dissectorType st.dis.dissectorType = st.dis.dissectorType
  valid : dissectorFail st.dis = false

/-- What a call knows about the group. -/
def CallOk (x : Calls) (s : GroupRace) (i : Caller) : Prop :=
  match s.pc i with
  | .missing => s.cur = none
  | .updated => ∀ e, s.cur = some e → s.owner e = i ∧ s.mem e = emptyState
  | .created e => s.cur = some e ∧ s.owner e = i ∧ s.mem e = emptyState
  | .found e true => s.cur = some e ∧ s.owner e = i ∧ GroupOk x (s.mem e)
  | .valid e | .reserved e =>
    s.cur = some e ∧ s.owner e = i ∧ GroupOk x (s.mem e) ∧ dissectorFail (x.cfg i) = false
  | .rejected => ∃ e, s.cur = some e ∧ s.owner e = i
  | .found e false | .compare e => s.cur = some e ∧ GroupOk x (s.mem e)
  | .same e => s.cur = some e ∧ GroupOk x (s.mem e) ∧ (s.mem e).dis = (x.cfg i).stored
  | .stored | .done .ok =>
    ∃ e, s.cur = some e ∧ GroupOk x (s.mem e) ∧ (s.mem e).dis = (x.cfg i).stored
  | _ => True

structure Serial (x : Calls) (s : GroupRace) : Prop where
  calls : ∀ i, CallOk x s i
  alone : ∀ i, (s.pc i).busy = true → (s.pc !i).busy = false
  creating : ∀ i, (s.pc i).creating = true → (s.pc !i).succeeded = false
  group : (∀ i, (s.pc i).creating = false) → ∀ e, s.cur = some e → GroupOk x (s.mem e)
  owner : ∀ i e, s.creator i = some e → s.owner e = i ∧ e < s.next
  fresh : ∀ e, s.cur = some e → e < s.next

theorem serial_initial : Serial x .initial := by
  constructor <;> simp [GroupRace.initial, CallOk, CallPc.busy, CallPc.creating]

theorem caller_cases (i k : Caller) : k = i ∨ k = !i := by
  cases i <;> cases k <;> simp

theorem not_ne (i : Caller) : (!i) ≠ i := by
  cases i <;> simp

/-- The pieces of the invariant that a step of call `i` has to restore. -/
theorem serial_of_step {pc : CallPc} (hpc : t.pc = Function.update s.pc i pc)
    (hi : CallOk x t i) (ho : CallOk x t (!i))
    (hbusy : pc.busy = true → (s.pc !i).busy = false)
    (hcreating : pc.creating = true → (s.pc !i).succeeded = false)
    (hsucceeded : pc.succeeded = true → (s.pc !i).creating = false)
    (hgroup : pc.creating = false → (s.pc !i).creating = false →
      ∀ e, t.cur = some e → GroupOk x (t.mem e))
    (howner : ∀ k e, t.creator k = some e → t.owner e = k ∧ e < t.next)
    (hfresh : ∀ e, t.cur = some e → e < t.next) : Serial x t := by
  have hself : t.pc i = pc := by rw [hpc, Function.update_self]
  have hother : t.pc (!i) = s.pc (!i) := by rw [hpc, Function.update_of_ne (not_ne i)]
  refine ⟨fun k => ?_, fun k hk => ?_, fun k hk => ?_, fun hk => ?_, howner, hfresh⟩
  · rcases caller_cases i k with rfl | rfl
    · exact hi
    · exact ho
  · rcases caller_cases i k with rfl | rfl
    · rw [hother]
      exact hbusy (hself ▸ hk)
    · rw [Bool.not_not, hself]
      rw [hother] at hk
      by_contra hb
      rw [hbusy (by simpa using hb)] at hk
      cases hk
  · rcases caller_cases i k with rfl | rfl
    · rw [hother]
      exact hcreating (hself ▸ hk)
    · rw [Bool.not_not, hself]
      rw [hother] at hk
      by_contra hb
      rw [hsucceeded (by simpa using hb)] at hk
      cases hk
  · exact hgroup (hself ▸ hk i) (hother ▸ hk !i)

/-- What a call knows stays true while the map and its elements stay as they are. -/
theorem CallOk.congr (h : CallOk x s k) (hpc : t.pc k = s.pc k) (hcur : t.cur = s.cur)
    (hmem : t.mem = s.mem) (howner : t.owner = s.owner) : CallOk x t k := by
  unfold CallOk at h ⊢
  rw [hpc, hcur, hmem, howner]
  exact h

/-- A call that is not at work knows that its configuration is installed, if that. -/
theorem CallOk.of_idle (h : CallOk x s k) (hpc : t.pc k = s.pc k) (hb : (s.pc k).busy = false)
    (hk : (s.pc k).succeeded = true → ∀ e, s.cur = some e → GroupOk x (s.mem e) →
      t.cur = some e ∧ GroupOk x (t.mem e) ∧ (t.mem e).dis = (s.mem e).dis) : CallOk x t k := by
  unfold CallOk at h ⊢
  rw [hpc]
  cases hp : s.pc k with
  | start => trivial
  | stored =>
    rw [hp] at h hk
    obtain ⟨e, hcur, hg, hd⟩ := h
    obtain ⟨hcur', hg', hd'⟩ := hk rfl e hcur hg
    exact ⟨e, hcur', hg', hd'.trans hd⟩
  | done r =>
    cases r with
    | ok =>
      rw [hp] at h hk
      obtain ⟨e, hcur, hg, hd⟩ := h
      obtain ⟨hcur', hg', hd'⟩ := hk rfl e hcur hg
      exact ⟨e, hcur', hg', hd'.trans hd⟩
    | pass | err => trivial
  | _ => simp [hp, CallPc.busy] at hb

/-- A step of `i` that changes nothing but where `i` stands. -/
theorem serial_goto {pc : CallPc} (hs : Serial x s) (hi : CallOk x (s.goto i pc) i)
    (hbusy : pc.busy = true → (s.pc !i).busy = false)
    (hcreating : pc.creating = true → (s.pc !i).succeeded = false)
    (hsucceeded : pc.succeeded = true → (s.pc !i).creating = false)
    (hgroup : pc.creating = false → (s.pc !i).creating = false →
      ∀ e, s.cur = some e → GroupOk x (s.mem e)) : Serial x (s.goto i pc) := by
  refine serial_of_step rfl hi ((hs.calls !i).congr ?_ rfl rfl rfl) hbusy hcreating hsucceeded
    hgroup hs.owner hs.fresh
  exact Function.update_of_ne (not_ne i) _ _

theorem CallPc.busy_of_creating {pc : CallPc} (h : pc.creating = true) : pc.busy = true := by
  unfold creating at h
  split at h <;> first | rfl | cases h

theorem groupOk_initialised (x : Calls) (env : OptEnv) :
    GroupOk x (emptyState.initialised env x.netns) := by
  have hdis : (emptyState.initialised env x.netns).dis = .empty := rfl
  refine ⟨rfl, ?_, ?_⟩ <;> rw [hdis] <;> decide

theorem GroupOk.install {st : ReuseportStorage} {d : Dissector} (h : GroupOk x st)
    (hd : dissectorFail d = false) : GroupOk x (st.install d) :=
  ⟨h.netns, dissectorType_idem _, (dissectorFail_stored d).trans hd⟩

theorem eq_stored_of_dissectorCmp {d d' : Dissector}
    (hf : dissectorType d.dissectorType = d.dissectorType) (h : dissectorCmp d d' = true) :
    d = d'.stored := by
  simp only [dissectorCmp, Bool.and_eq_true, decide_eq_true_eq] at h
  obtain ⟨htype, hrest⟩ := h
  rw [hf] at htype
  cases d
  cases d'
  simp only [Dissector.mk.injEq, true_and] at hrest
  simp only at htype
  simp [Dissector.stored, htype, hrest]

theorem serial_start (hs : Serial x s) (hp : s.pc i = .start) (hc : (s.pc !i).busy = false) :
    Serial x (s.goto i (s.cur.elim .missing fun e => .found e false)) := by
  have hother : (s.pc !i).creating = false := by
    by_contra h
    rw [CallPc.busy_of_creating (by simpa using h)] at hc
    cases hc
  have hgroup : ∀ e, s.cur = some e → GroupOk x (s.mem e) := by
    refine hs.group fun k => ?_
    rcases caller_cases i k with rfl | rfl
    · rw [hp]
      rfl
    · exact hother
  cases hcur : s.cur with
  | none =>
    refine serial_goto hs ?_ (fun _ => hc) (fun _ => ?_) (by simp [CallPc.succeeded])
      fun _ _ => hgroup
    · simp [CallOk, GroupRace.goto, hcur]
    · have hok := hs.calls !i
      unfold CallOk at hok
      cases hpo : s.pc !i with
      | stored => simp [hpo, hcur] at hok
      | done r => cases r <;> simp [hpo, hcur, CallPc.succeeded] at hok ⊢
      | _ => rfl
  | some e =>
    refine serial_goto hs ?_ (fun _ => hc) (by simp [CallPc.creating]) (by simp [CallPc.succeeded])
      fun _ _ => hgroup
    simpa [CallOk, GroupRace.goto, hcur] using hgroup e hcur

/-- While `i` creates a group, the other call knows nothing about it. -/
theorem CallOk.of_creating (hs : Serial x s) (hi : (s.pc i).creating = true)
    (hpc : t.pc (!i) = s.pc (!i)) : CallOk x t (!i) := by
  refine (hs.calls !i).of_idle hpc (hs.alone i (CallPc.busy_of_creating hi)) fun hsucc => ?_
  rw [hs.creating i hi] at hsucc
  cases hsucc

/-- A step of a call that creates the group. -/
theorem serial_creating {pc : CallPc} (hs : Serial x s) (hi : (s.pc i).creating = true)
    (hpc : t.pc = Function.update s.pc i pc) (hok : CallOk x t i)
    (hgroup : pc.creating = false → ∀ e, t.cur = some e → GroupOk x (t.mem e))
    (howner : ∀ k e, t.creator k = some e → t.owner e = k ∧ e < t.next)
    (hfresh : ∀ e, t.cur = some e → e < t.next) : Serial x t := by
  have hidle := hs.alone i (CallPc.busy_of_creating hi)
  have hother : t.pc (!i) = s.pc (!i) := by rw [hpc, Function.update_of_ne (not_ne i)]
  refine serial_of_step hpc hok (.of_creating hs hi hother) (fun _ => hidle)
    (fun _ => hs.creating i hi) (fun _ => ?_) (fun h _ => hgroup h) howner hfresh
  by_contra h
  rw [CallPc.busy_of_creating (by simpa using h)] at hidle
  cases hidle

theorem serial_update (hs : Serial x s) (hp : s.pc i = .missing) (room : Bool) :
    Serial x ((s.update i room).goto i .updated) := by
  have hi : (s.pc i).creating = true := by
    rw [hp]
    rfl
  have hcur : s.cur = none := by simpa [CallOk, hp] using hs.calls i
  cases room with
  | false =>
    have hsame : s.update i false = s := by simp [GroupRace.update]
    rw [hsame]
    refine serial_creating hs hi rfl ?_ (by simp [CallPc.creating]) hs.owner hs.fresh
    simp [CallOk, GroupRace.goto, hcur]
  | true =>
    have hpc : ((s.update i true).goto i .updated).pc = Function.update s.pc i .updated := by
      simp [GroupRace.goto, GroupRace.update, hcur]
    refine serial_creating hs hi hpc ?_ (by simp [CallPc.creating]) ?_ ?_
    · simp [CallOk, GroupRace.goto, GroupRace.update, hcur]
    · intro k e hk
      have hk' : s.creator k = some e := by simpa [GroupRace.goto, GroupRace.update, hcur] using hk
      obtain ⟨ho, hlt⟩ := hs.owner k e hk'
      have hne : e ≠ s.next := by omega
      simp only [GroupRace.goto, GroupRace.update, hcur, true_and, if_true,
        Function.update_of_ne hne, ho]
      omega
    · simp [GroupRace.goto, GroupRace.update, hcur]

theorem serial_lookup (hs : Serial x s) (hp : s.pc i = .updated) (hcur : s.cur = some e) :
    Serial x ((s.setCreator i e).goto i (.created e)) := by
  have hi : (s.pc i).creating = true := by
    rw [hp]
    rfl
  have hok : ∀ e, s.cur = some e → s.owner e = i ∧ s.mem e = emptyState := by
    simpa [CallOk, hp] using hs.calls i
  obtain ⟨howner, hmem⟩ := hok e hcur
  refine serial_creating hs hi rfl ?_ (by simp [CallPc.creating]) ?_ hs.fresh
  · simp [CallOk, GroupRace.goto, GroupRace.setCreator, hcur, howner, hmem]
  · intro k e' hk
    rcases caller_cases i k with rfl | rfl
    · have he : e = e' := by simpa [GroupRace.goto, GroupRace.setCreator] using hk
      subst he
      exact ⟨howner, hs.fresh e hcur⟩
    · have hk' : s.creator (!i) = some e' := by
        simpa [GroupRace.goto, GroupRace.setCreator, Function.update_of_ne (not_ne i)] using hk
      exact hs.owner (!i) e' hk'

theorem serial_initialise (hs : Serial x s) (hp : s.pc i = .created e) (env : OptEnv) :
    Serial x ((s.write e ((s.mem e).initialised env x.netns)).goto i (.found e true)) := by
  have hok : s.cur = some e ∧ s.owner e = i ∧ s.mem e = emptyState := by
    simpa [CallOk, hp] using hs.calls i
  refine serial_creating hs (by rw [hp]; rfl) rfl ?_ (by simp [CallPc.creating]) hs.owner hs.fresh
  simp only [CallOk, GroupRace.goto, GroupRace.write, Function.update_self, hok]
  exact ⟨trivial, trivial, groupOk_initialised x env⟩

theorem serial_found {created : Bool} (hs : Serial x s) (hp : s.pc i = .found e created) :
    Serial x (s.goto i
      (if (s.mem e).netnsCookie ≠ x.netns then .done (.err .ebadf)
        else if !created then .compare e
        else if dissectorFail (x.cfg i) then .rejected
        else .valid e)) := by
  have hok := hs.calls i
  unfold CallOk at hok
  cases created with
  | false =>
    simp only [hp] at hok
    obtain ⟨hcur, hg⟩ := hok
    rw [if_neg (by simp [hg.netns]), if_pos (by simp)]
    refine serial_goto hs (by simpa [CallOk, GroupRace.goto, hcur] using hg)
      (fun _ => hs.alone i (by rw [hp]; rfl)) (by simp [CallPc.creating])
      (by simp [CallPc.succeeded]) ?_
    intro _ _ e' he
    cases hcur.symm.trans he
    exact hg
  | true =>
    simp only [hp] at hok
    obtain ⟨hcur, ho, hg⟩ := hok
    rw [if_neg (by simp [hg.netns]), if_neg (by simp)]
    cases hf : dissectorFail (x.cfg i) with
    | true =>
      refine serial_creating hs (by rw [hp]; rfl) rfl ?_ (by simp [CallPc.creating]) hs.owner
        hs.fresh
      simp [CallOk, GroupRace.goto, hcur, ho]
    | false =>
      refine serial_creating hs (by rw [hp]; rfl) rfl ?_ (by simp [CallPc.creating]) hs.owner
        hs.fresh
      simpa [CallOk, GroupRace.goto, hcur, ho, hf] using hg

theorem serial_compare (hs : Serial x s) (hp : s.pc i = .compare e) :
    Serial x (s.goto i
      (if dissectorCmp (s.mem e).dis (x.cfg i) then .same e else .done (.err .eperm))) := by
  have hok : s.cur = some e ∧ GroupOk x (s.mem e) := by simpa [CallOk, hp] using hs.calls i
  obtain ⟨hcur, hg⟩ := hok
  have hgroup : ∀ e, s.cur = some e → GroupOk x (s.mem e) := by
    intro e' he
    cases hcur.symm.trans he
    exact hg
  split
  · rename_i hcmp
    refine serial_goto hs ?_ (fun _ => hs.alone i (by rw [hp]; rfl)) (by simp [CallPc.creating])
      (by simp [CallPc.succeeded]) fun _ _ => hgroup
    simp only [CallOk, GroupRace.goto, Function.update_self]
    exact ⟨hcur, hg, eq_stored_of_dissectorCmp hg.flags hcmp⟩
  · refine serial_goto hs ?_ (by simp [CallPc.busy]) (by simp [CallPc.creating])
      (by simp [CallPc.succeeded]) fun _ _ => hgroup
    simp [CallOk, GroupRace.goto]

theorem serial_same (hs : Serial x s) (hp : s.pc i = .same e) (v : Bool) :
    Serial x ((s.write e { s.mem e with verbose := v }).goto i (.done .ok)) := by
  have hok : s.cur = some e ∧ GroupOk x (s.mem e) ∧ (s.mem e).dis = (x.cfg i).stored := by
    simpa [CallOk, hp] using hs.calls i
  obtain ⟨hcur, hg, hd⟩ := hok
  have hg' : GroupOk x { s.mem e with verbose := v } := ⟨hg.netns, hg.flags, hg.valid⟩
  have hidle := hs.alone i (by rw [hp]; rfl)
  refine serial_of_step rfl ?_ ?_ (by simp [CallPc.busy]) (by simp [CallPc.creating]) ?_ ?_
    hs.owner hs.fresh
  · simp only [CallOk, GroupRace.goto, GroupRace.write, Function.update_self]
    exact ⟨e, hcur, by rwa [Function.update_self], by rwa [Function.update_self]⟩
  · refine (hs.calls !i).of_idle (Function.update_of_ne (not_ne i) _ _) hidle ?_
    intro _ e' he _
    cases hcur.symm.trans he
    simp only [GroupRace.goto, GroupRace.write, Function.update_self]
    exact ⟨hcur, hg', trivial⟩
  · intro _
    change (s.pc !i).creating = false
    by_contra h
    rw [CallPc.busy_of_creating (by simpa using h)] at hidle
    cases hidle
  · intro _ _ e' he
    cases hcur.symm.trans he
    simpa [GroupRace.goto, GroupRace.write] using hg'

theorem serial_delete (hs : Serial x s) (hp : s.pc i = .rejected) :
    Serial x ({ s with cur := none }.goto i (.done (.err .eperm))) := by
  refine serial_creating hs (by rw [hp]; rfl) rfl ?_ ?_ hs.owner ?_
  · simp [CallOk, GroupRace.goto]
  · simp [GroupRace.goto]
  · simp [GroupRace.goto]

theorem serial_valid (hs : Serial x s) (hp : s.pc i = .valid e) (room : Bool) :
    Serial x (s.goto i (if room then .reserved e else .done (.err .eagain))) := by
  have hok : s.cur = some e ∧ s.owner e = i ∧ GroupOk x (s.mem e) ∧
      dissectorFail (x.cfg i) = false := by simpa [CallOk, hp] using hs.calls i
  have hi : (s.pc i).creating = true := by
    rw [hp]
    rfl
  cases room with
  | true =>
    refine serial_creating hs hi rfl ?_ (by simp [CallPc.creating]) hs.owner hs.fresh
    simpa [CallOk, GroupRace.goto] using hok
  | false =>
    refine serial_creating hs hi rfl (by simp [CallOk, GroupRace.goto]) ?_ hs.owner hs.fresh
    intro _ e' he
    cases hok.1.symm.trans he
    exact hok.2.2.1

theorem serial_install (hs : Serial x s) (hp : s.pc i = .reserved e) :
    Serial x ((s.write e ((s.mem e).install (x.cfg i))).goto i .stored) := by
  have hok : s.cur = some e ∧ s.owner e = i ∧ GroupOk x (s.mem e) ∧
      dissectorFail (x.cfg i) = false := by simpa [CallOk, hp] using hs.calls i
  obtain ⟨hcur, _, hg, hf⟩ := hok
  refine serial_creating hs (by rw [hp]; rfl) rfl ?_ ?_ hs.owner hs.fresh
  · simp only [CallOk, GroupRace.goto, GroupRace.write, Function.update_self]
    exact ⟨e, hcur, by rw [Function.update_self]; exact hg.install hf,
      by rw [Function.update_self]; rfl⟩
  · intro _ e' he
    cases hcur.symm.trans he
    simpa [GroupRace.goto, GroupRace.write] using hg.install hf

theorem serial_submit (hs : Serial x s) (hp : s.pc i = .stored) :
    Serial x (s.goto i (.done .ok)) := by
  have hok : ∃ e, s.cur = some e ∧ GroupOk x (s.mem e) ∧ (s.mem e).dis = (x.cfg i).stored := by
    simpa [CallOk, hp] using hs.calls i
  obtain ⟨e, hcur, hg, hd⟩ := hok
  have hdone : CallOk x (s.goto i (.done .ok)) i := by
    simp only [CallOk, GroupRace.goto, Function.update_self]
    exact ⟨e, hcur, hg, hd⟩
  refine serial_goto hs hdone (by simp [CallPc.busy])
    (by simp [CallPc.creating]) (fun _ => ?_) ?_
  · by_contra h
    have hsucc := hs.creating (!i) (by simpa using h)
    rw [Bool.not_not, hp] at hsucc
    cases hsucc
  · intro _ _ e' he
    cases hcur.symm.trans he
    exact hg

theorem serial_step (h : x.step s i = some t) (hc : serial s i = true) (hs : Serial x s) :
    Serial x t := by
  unfold Calls.step at h
  split at h
  · rename_i hp
    cases h
    exact serial_start hs hp (of_decide_eq_true hc hp)
  · rename_i hp
    cases h
    exact serial_update hs hp _
  · rename_i hp
    split at h
    · rename_i hcur
      cases h
      refine serial_creating hs (by rw [hp]; rfl) rfl (by simp [CallOk, GroupRace.goto]) ?_ hs.owner
        hs.fresh
      intro _ e he
      simp [GroupRace.goto, hcur] at he
    · rename_i hcur
      cases h
      exact serial_lookup hs hp hcur
  · rename_i hp
    cases h
    exact serial_initialise hs hp _
  · rename_i hp
    cases h
    exact serial_found hs hp
  · rename_i hp
    cases h
    exact serial_compare hs hp
  · rename_i hp
    cases h
    exact serial_same hs hp _
  · rename_i hp
    cases h
    exact serial_delete hs hp
  · rename_i hp
    cases h
    exact serial_valid hs hp _
  · rename_i hp
    cases h
    exact serial_install hs hp
  · rename_i hp
    cases h
    exact serial_submit hs hp
  · cases h

/-! ### One creator -/

theorem Serial.installed (hs : Serial x s) (hp : s.pc i = .done .ok) :
    ∃ e, s.cur = some e ∧ (s.mem e).dis = (x.cfg i).stored := by
  have hok : ∃ e, s.cur = some e ∧ GroupOk x (s.mem e) ∧ (s.mem e).dis = (x.cfg i).stored := by
    simpa [CallOk, hp] using hs.calls i
  obtain ⟨e, hcur, _, hd⟩ := hok
  exact ⟨e, hcur, hd⟩

/-- Where the other call has installed another configuration, a call can only be refused. -/
theorem Serial.conflict {r : OptRet} (hs : Serial x s) (h : x.step s i = some t)
    (hr : t.pc i = .done r) (hcur : s.cur = some e)
    (ho : s.owner e = (!i) ∨ s.pc (!i) = .done .ok) (hne : (s.mem e).dis ≠ (x.cfg i).stored) :
    r = .err .eperm := by
  have hmine : ∀ e', s.cur = some e' → s.owner e' = i → (s.pc i).creating ≠ true := by
    intro e' he hi hcr
    cases hcur.symm.trans he
    rcases ho with ho | ho
    · exact not_ne i (ho.symm.trans hi)
    · have hsucc := hs.creating i hcr
      rw [ho] at hsucc
      cases hsucc
  have hok := hs.calls i
  unfold CallOk at hok
  unfold Calls.step at h
  cases hp : s.pc i with
  | start =>
    simp only [hp, hcur, Option.elim, Option.some.injEq] at h
    subst h
    simp [GroupRace.goto] at hr
  | found e' created =>
    cases created with
    | true =>
      simp only [hp] at hok
      exact absurd (by rw [hp]; rfl) (hmine e' hok.1 hok.2.1)
    | false =>
      simp only [hp] at h hok
      cases h
      simp [GroupRace.goto, hok.2.netns] at hr
  | compare e' =>
    simp only [hp] at h
    cases h
    simp only [GroupRace.goto, Function.update_self] at hr
    split at hr
    · cases hr
    · exact (CallPc.done.inj hr).symm
  | same e' =>
    simp only [hp] at hok
    cases hcur.symm.trans hok.1
    exact absurd hok.2.2 hne
  | stored =>
    simp only [hp] at hok
    obtain ⟨e', hcur', _, hd'⟩ := hok
    cases hcur.symm.trans hcur'
    exact absurd hd' hne
  | done => simp [hp] at h
  | missing =>
    simp only [hp] at hok
    simp [hcur] at hok
  | updated =>
    simp only [hp] at hok
    exact absurd (by rw [hp]; rfl) (hmine e hcur (hok e hcur).1)
  | created | valid | reserved =>
    simp only [hp] at hok
    exact absurd (by rw [hp]; rfl) (hmine _ hok.1 hok.2.1)
  | rejected =>
    simp only [hp] at hok
    obtain ⟨e', he', ho'⟩ := hok
    exact absurd (by rw [hp]; rfl) (hmine e' he' ho')

/-- A call with an invalid configuration does nothing to a group of the other call. -/
theorem Serial.spared (hs : Serial x s) (h : x.step s i = some t)
    (hf : dissectorFail (x.cfg i) = true) (hcur : s.cur = some e) (ho : s.owner e = !i) :
    t.cur = some e ∧ t.mem e = s.mem e := by
  have hmine : ∀ e', s.cur = some e' → s.owner e' ≠ i := by
    intro e' he hi
    cases hcur.symm.trans he
    exact not_ne i (ho.symm.trans hi)
  have hok := hs.calls i
  unfold CallOk at hok
  unfold Calls.step at h
  cases hp : s.pc i with
  | start | compare | found | stored =>
    simp only [hp, Option.some.injEq] at h
    subst h
    exact ⟨hcur, rfl⟩
  | missing =>
    simp only [hp] at hok
    simp [hcur] at hok
  | updated =>
    simp only [hp, hcur, Option.some.injEq] at h
    subst h
    exact ⟨hcur, rfl⟩
  | created | valid | reserved =>
    simp only [hp] at hok
    exact absurd hok.2.1 (hmine _ hok.1)
  | rejected =>
    simp only [hp] at hok
    obtain ⟨e', he', ho'⟩ := hok
    exact absurd ho' (hmine e' he')
  | same =>
    simp only [hp] at hok
    have hvalid := hok.2.1.valid
    rw [hok.2.2, dissectorFail_stored, hf] at hvalid
    cases hvalid
  | done => simp [hp] at h

/-- While no call looks up the group as the other one is at work on it, there is one creator. -/
theorem one_creator_serial {is : List Caller}
    (h : Transition.Run ((groupRace x).restrict fun s i => serial s i = true) .initial is s) :
    OneCreator x s := by
  have hs : Serial x s := h.inv_restrict serial_step serial_initial
  refine ⟨fun e he => ?_, fun i => hs.installed, fun i t r e => hs.conflict, fun i t e =>
    hs.spared⟩
  have ht := (hs.owner true e he.1).1
  rw [(hs.owner false e he.2).1] at ht
  cases ht

/-- Two calls with a configuration each. -/
def Calls.two (d d' : Dissector) : Calls := ⟨fun i => if i then d else d', fun _ => .roomy, 5⟩

/-- A NOOP dissector, and one of an unknown type. -/
def Dissector.noop : Dissector := { Dissector.empty with dissectorType := 4 }
def Dissector.unknown : Dissector := { Dissector.empty with dissectorType := 7 }

/-- The first call creates the group, the second one is refused. -/
theorem one_creator_serial_two : ∃ s,
    Transition.Run ((groupRace (.two .noop .empty)).restrict fun s i => serial s i = true) .initial
      (List.replicate 8 true ++ List.replicate 3 false) s ∧
      s.pc true = .done .ok ∧ s.pc false = .done (.err .eperm) ∧
      OneCreator (.two .noop .empty) s := by
  obtain ⟨s, hs, hx⟩ := Transition.run_restrict_of_any (Calls.step (.two .noop .empty)) serial
    .initial (List.replicate 8 true ++ List.replicate 3 false)
    (fun s : GroupRace => decide (s.pc true = .done .ok ∧ s.pc false = .done (.err .eperm)))
    (by decide +kernel)
  obtain ⟨h₁, h₂⟩ := of_decide_eq_true hx
  exact ⟨s, hs, h₁, h₂, one_creator_serial hs⟩

/-- Both calls find no group. The first one creates it and succeeds, and the second one, which
takes itself for the creator too, deletes it because its own configuration is invalid. -/
theorem two_creators : ∃ s,
    Transition.Run (groupRace (.two .noop .unknown)) .initial
      ([true, false] ++ List.replicate 7 true ++ List.replicate 5 false) s ∧
      s.pc true = .done .ok ∧ s.pc false = .done (.err .eperm) ∧ s.cur = none ∧
      s.creator true = some 0 ∧ s.creator false = some 0 ∧
      ¬ OneCreator (.two .noop .unknown) s := by
  obtain ⟨s, hs, hx⟩ := Transition.run_of_any (Calls.step (.two .noop .unknown))
    .initial ([true, false] ++ List.replicate 7 true ++ List.replicate 5 false)
    (fun s : GroupRace => decide (s.pc true = .done .ok ∧ s.pc false = .done (.err .eperm) ∧
      s.cur = none ∧ s.creator true = some 0 ∧ s.creator false = some 0))
    (by decide +kernel)
  obtain ⟨h₁, h₂, h₃, h₄, h₅⟩ := of_decide_eq_true hx
  exact ⟨s, hs, h₁, h₂, h₃, h₄, h₅, fun hone => hone.creator 0 ⟨h₄, h₅⟩⟩

end Udpgrm
