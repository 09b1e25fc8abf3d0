import Udpgrm.Tubular

/-! The functions of the Tubular store close each descriptor that they forget, once. -/
namespace Udpgrm

variable {l l' : TubularStore} {g : ReuseportGroup} {closed : List ℕ} {f : ℕ}

/-- Every descriptor sits at an index below the length of its row. -/
def Below (l : TubularStore) : Prop :=
  ∀ id g, reuseportGroupLookup l id = some g → ∀ r (j : Slot), 0 < g.sockets r j →
    j.val < g.maxIdx r

/-- No descriptor is stored twice. -/
def StoredOnce (l : TubularStore) : Prop :=
  ∀ id r j id' r' j' f, Holds l id r j f → Holds l id' r' j' f → id = id' ∧ r = r' ∧ j = j'

/-- The store lost exactly the descriptors that were closed, each of them closed once. -/
structure ClosesLost (l l' : TubularStore) (closed : List ℕ) : Prop where
  shrinks : Shrinks l l' closed
  lost : ∀ id r j f, Holds l id r j f → Holds l' id r j f ∨ f ∈ closed
  nodup : closed.Nodup
  below : Below l'

theorem openBelow_nodup {r : Row} {n : ℕ}
    (h : ∀ j j', 0 < g.sockets r j → g.sockets r j = g.sockets r j' → j = j') :
    (g.openBelow r n).Nodup := by
  refine List.Nodup.filterMap (fun j j' f hj hj' => ?_) (List.nodup_finRange _)
  simp only [Option.mem_def, Option.ite_none_right_eq_some, Option.some.injEq] at hj hj'
  exact h j j' hj.1.2 (by omega)

/-- The rows are closed one after the other, each as it was. -/
theorem closeAll_fold {rows : List Row} {acc : ReuseportGroup × List ℕ} (hrows : rows.Nodup)
    (h : ∀ r ∈ rows, acc.1.maxIdx r = g.maxIdx r ∧ acc.1.sockets r = g.sockets r) :
    (rows.foldl (fun acc wg =>
      ((tubularCloseWg acc.1 wg).1, acc.2 ++ (tubularCloseWg acc.1 wg).2)) acc).2 =
        acc.2 ++ rows.flatMap fun r => g.openBelow r (g.maxIdx r) := by
  induction rows generalizing acc with
  | nil => simp
  | cons wg rows ih =>
    rw [List.nodup_cons] at hrows
    obtain ⟨hmax, hsock⟩ := h wg (by simp)
    have hopen : (tubularCloseWg acc.1 wg).2 = g.openBelow wg (g.maxIdx wg) := by
      simp only [tubularCloseWg, ReuseportGroup.openBelow, hmax, hsock]
    rw [List.foldl_cons, ih hrows.2, List.flatMap_cons, hopen, List.append_assoc]
    intro r hr
    have hne : r ≠ wg := by
      rintro rfl
      exact hrows.1 hr
    have hr' := h r (List.mem_cons_of_mem _ hr)
    simpa [tubularCloseWg, hne] using hr'

theorem tubularCloseAll_snd (g : ReuseportGroup) :
    (tubularCloseAll g).2 =
      (List.finRange MAX_GENS).flatMap fun r => g.openBelow r (g.maxIdx r) := by
  have hstart : ∀ r ∈ List.finRange MAX_GENS, (g, ([] : List ℕ)).1.maxIdx r = g.maxIdx r ∧
      (g, ([] : List ℕ)).1.sockets r = g.sockets r := fun r _ => ⟨rfl, rfl⟩
  have h := closeAll_fold (List.nodup_finRange MAX_GENS) hstart
  rwa [List.nil_append] at h

theorem mem_tubularCloseAll :
    f ∈ (tubularCloseAll g).2 ↔
      ∃ r, ∃ j : Slot, j.val < g.maxIdx r ∧ 0 < f ∧ g.sockets r j = (f : Int) := by
  simp [tubularCloseAll_snd, mem_openBelow]

theorem closeAll_nodup
    (h : ∀ r j r' j', 0 < g.sockets r j → g.sockets r j = g.sockets r' j' → r = r' ∧ j = j') :
    (tubularCloseAll g).2.Nodup := by
  rw [tubularCloseAll_snd, List.nodup_flatMap]
  refine ⟨fun r _ => openBelow_nodup fun j j' hj he => (h r j r j' hj he).2, ?_⟩
  refine (List.nodup_finRange MAX_GENS).pairwise_of_forall_ne fun r _ r' _ hne f hf hf' => ?_
  obtain ⟨j, _, hpos, he⟩ := mem_openBelow.mp hf
  obtain ⟨j', _, _, he'⟩ := mem_openBelow.mp hf'
  exact hne (h r j r' j' (by omega) (he.trans he'.symm)).1

theorem cleanup_snd (now : UInt64) (l : TubularStore) :
    (reuseportGroupsMaybeCleanupStale now l).2 =
      (l.filter (stale now)).flatMap fun g => (tubularCloseAll g).2 := by
  induction l with
  | nil => rfl
  | cons g l ih =>
    rw [reuseportGroupsMaybeCleanupStale]
    split
    · rename_i hs
      simp [hs, ih]
    · rename_i hs
      simp [hs, ih]

theorem StoredOnce.group (h : StoredOnce l) {id : UInt32}
    (hg : reuseportGroupLookup l id = some g) (r : Row) (j : Slot) (r' : Row) (j' : Slot)
    (hj : 0 < g.sockets r j) (he : g.sockets r j = g.sockets r' j') : r = r' ∧ j = j' := by
  have hn : ((g.sockets r j).toNat : Int) = g.sockets r j := by omega
  exact (h id r j id r' j' (g.sockets r j).toNat ⟨g, hg, by omega, hn.symm⟩
    ⟨g, hg, by omega, by omega⟩).2

theorem cleanup_nodup (hu : UniqueIds l) (ho : StoredOnce l) (now : UInt64) :
    (reuseportGroupsMaybeCleanupStale now l).2.Nodup := by
  have hlook : ∀ g ∈ l, reuseportGroupLookup l g.randomId = some g :=
    fun g hg => KeyedList.find_of_mem hu hg
  rw [cleanup_snd, List.nodup_flatMap]
  constructor
  · intro g hg
    exact closeAll_nodup (ho.group (hlook g (List.mem_of_mem_filter hg)))
  · have hn : (l.filter (stale now)).Nodup := (List.Nodup.of_map _ hu).filter _
    refine hn.pairwise_of_forall_ne fun g hg g' hg' hne f hf hf' => ?_
    obtain ⟨r, j, _, hpos, he⟩ := mem_tubularCloseAll.mp hf
    obtain ⟨r', j', _, _, he'⟩ := mem_tubularCloseAll.mp hf'
    have hl := hlook g (List.mem_of_mem_filter hg)
    have hl' := hlook g' (List.mem_of_mem_filter hg')
    have hid := (ho _ _ _ _ _ _ f ⟨g, hl, hpos, he⟩ ⟨g', hl', hpos, he'⟩).1
    rw [hid, hl', Option.some.injEq] at hl
    exact hne hl.symm

theorem cleanup_closesLost (hu : UniqueIds l) (ho : StoredOnce l) (hb : Below l) (now : UInt64) :
    ClosesLost l (reuseportGroupsMaybeCleanupStale now l).1
      (reuseportGroupsMaybeCleanupStale now l).2 := by
  refine ⟨cleanup_shrinks hu now, ?_, cleanup_nodup hu ho now, ?_⟩
  · rintro id r j f ⟨g, hg, hpos, he⟩
    cases hs : stale now g with
    | false => exact .inl ⟨g, (cleanup_lookup hu now id g).mpr ⟨hg, hs⟩, hpos, he⟩
    | true =>
      refine .inr ?_
      rw [cleanup_snd, List.mem_flatMap]
      refine ⟨g, List.mem_filter.mpr ⟨KeyedList.find_mem hg, hs⟩, ?_⟩
      exact mem_tubularCloseAll.mpr ⟨r, j, hb id g hg r j (by omega), hpos, he⟩
  · intro id g hg
    exact hb id g ((cleanup_lookup hu now id g).mp hg).1

theorem closeWg_closesLost (hu : UniqueIds l) (ho : StoredOnce l) (hb : Below l) {id : UInt32}
    (hg : reuseportGroupLookup l id = some g) (wg : Row) :
    ClosesLost l
      (modifyGroup id (fun g => reuseportGroupMaybeDelete (tubularCloseWg g wg).1) l)
      (tubularCloseWg g wg).2 := by
  have hbelow := hb id g hg
  refine ⟨modifyGroup_closeWg_shrinks hu hg wg, ?_,
    openBelow_nodup fun j j' hj he => (ho.group hg wg j wg j' hj he).2, ?_⟩
  · rintro id' r j f ⟨g', hg', hpos, he⟩
    by_cases hid : id' = id
    · subst hid
      rw [hg, Option.some.injEq] at hg'
      subst hg'
      have hj := hbelow r j (by omega)
      by_cases hr : r = wg
      · subst hr
        exact .inr (mem_openBelow.mpr ⟨j, hj, hpos, he⟩)
      · -- a group with a descriptor in another row is not freed
        have hkeep : reuseportGroupMaybeDelete (tubularCloseWg g wg).1 =
            some (tubularCloseWg g wg).1 := by
          refine if_neg fun h => ?_
          have hz := h r
          rw [tubularCloseWg_maxIdx, if_neg hr] at hz
          omega
        refine .inl ⟨(tubularCloseWg g wg).1, ?_, hpos, ?_⟩
        · rw [closeWg_lookup hu hg, if_pos rfl, hkeep]
        · rw [tubularCloseWg_sockets, if_neg fun h => hr h.1, he]
    · exact .inl ⟨g', by rwa [closeWg_lookup hu hg, if_neg hid], hpos, he⟩
  · intro id' g' hg' r j hj
    rw [closeWg_lookup hu hg] at hg'
    split at hg'
    · rw [reuseportGroupMaybeDelete_eq_some hg'] at hj ⊢
      rw [tubularCloseWg_sockets] at hj
      split at hj
      · omega
      · rename_i hne
        have hlt := hbelow r j hj
        rw [tubularCloseWg_maxIdx, if_neg]
        · exact hlt
        · rintro rfl
          exact hne ⟨rfl, hlt⟩
    · exact hb id' g' hg' r j hj

theorem ClosesLost.refl (hu : UniqueIds l) (hb : Below l) : ClosesLost l l [] :=
  ⟨.refl hu, fun _ _ _ _ h => .inl h, List.nodup_nil, hb⟩

theorem tubularMaybeRegister_closesLost (hu : UniqueIds l) (ho : StoredOnce l) (hb : Below l)
    (st : ReuseportStorage) (wg : Row) (tubularPath : Bool) (registerErr : ℕ) :
    ClosesLost l (tubularMaybeRegister l st wg tubularPath registerErr).store
      (tubularMaybeRegister l st wg tubularPath registerErr).closed := by
  unfold tubularMaybeRegister
  split
  · split
    · exact .refl hu hb
    · exact closeWg_closesLost hu ho hb ‹_› wg
  · exact .refl hu hb

/-- Into a slot that holds nothing, in a row whose descriptors lie below the new length:
nothing is closed and nothing is lost. -/
theorem tubularMaybePreserveFd_free (hu : UniqueIds l) (hb : Below l) {st : ReuseportStorage}
    (hl : st.dis.labelled = true) {gen : UInt32} {len : ℕ} {pos : Slot} (now : UInt64)
    (hf : 0 < f) (hfree : ∀ f', ¬ Holds l st.randomId (genRow gen) pos f')
    (hpos : pos.val < len)
    (hlen : ∀ j f', Holds l st.randomId (genRow gen) j f' → j.val < len) :
    ∃ l', tubularMaybePreserveFd l st gen len pos f now = some (l', []) ∧ Below l' ∧
      Holds l' st.randomId (genRow gen) pos f ∧
      ∀ id r j f', Holds l id r j f' → Holds l' id r j f' := by
  obtain ⟨l', g, he, _, hfound, hheld, _, hlook⟩ :=
    tubularMaybePreserveFd_lookup hu hl gen len pos f now
  have hnew : Holds l' st.randomId (genRow gen) pos f :=
    ⟨_, by rw [hlook, if_pos rfl], hf, by rw [preserve_sockets, if_pos ⟨rfl, rfl⟩]⟩
  have hclosed : (g.preserve gen len pos f now).2 = [] := by
    refine if_neg fun h => ?_
    exact hfree (g.sockets (genRow gen) pos).toNat ((hheld _ _ _).mpr ⟨by omega, by omega⟩)
  refine ⟨l', hclosed ▸ he, ?_, hnew, ?_⟩
  · intro id g' hg' r j hj
    rw [hlook] at hg'
    split at hg'
    · cases hg'
      rw [preserve_maxIdx]
      rw [preserve_sockets] at hj
      split at hj
      · rename_i h
        rw [if_pos h.1, h.2]
        exact hpos
      · split
        · rename_i hr
          subst hr
          exact hlen j (g.sockets (genRow gen) j).toNat
            ((hheld _ _ _).mpr ⟨by omega, by omega⟩)
        · exact hb _ g (hfound r j hj) r j hj
    · exact hb id g' hg' r j hj
  · intro id r j f' hh
    by_cases hid : id = st.randomId
    · subst hid
      refine ⟨_, by rw [hlook, if_pos rfl], ((hheld _ _ _).mp hh).1, ?_⟩
      rw [preserve_sockets, if_neg]
      · exact ((hheld _ _ _).mp hh).2
      · rintro ⟨rfl, rfl⟩
        exact hfree f' hh
    · obtain ⟨g', hg', hpos', he'⟩ := hh
      exact ⟨g', by rwa [hlook, if_neg hid], hpos', he'⟩

end Udpgrm
