import Udpgrm.Lib.KeyedList
import Udpgrm.Storage

/-! The daemon's store of preserved descriptors, waiting to be handed to Tubular. -/
namespace Udpgrm

/-- `struct reuseport_group`: a zero entry is unset, a negative one is closed. -/
structure ReuseportGroup where
  randomId : UInt32
  lastModified : UInt64
  maxIdx : Row → ℕ
  sockets : Row → Slot → Int

/-- `list_of_tubular_sockets`, newest first. -/
abbrev TubularStore := List ReuseportGroup

def reuseportGroupLookup (l : TubularStore) (randomId : UInt32) : Option ReuseportGroup :=
  KeyedList.find ReuseportGroup.randomId randomId l

/-- Rewrite the group that a lookup finds, or unlink it. -/
def modifyGroup (randomId : UInt32) (f : ReuseportGroup → Option ReuseportGroup)
    (l : TubularStore) : TubularStore :=
  KeyedList.modify ReuseportGroup.randomId randomId f l

def reuseportGroupLookupOrAdd (l : TubularStore) (randomId : UInt32) (now : UInt64) :
    TubularStore :=
  match reuseportGroupLookup l randomId with
  | some _ => l
  | none => ⟨randomId, now, fun _ => 0, fun _ _ => 0⟩ :: l

/-- `reuseport_group_maybe_delete`: a group with every row empty is freed. -/
def reuseportGroupMaybeDelete (g : ReuseportGroup) : Option ReuseportGroup :=
  if ∀ r, g.maxIdx r = 0 then none else some g

/-- The positive entries of a row below a bound: what a closing loop closes. -/
def ReuseportGroup.openBelow (g : ReuseportGroup) (r : Row) (n : ℕ) : List ℕ :=
  (List.finRange MAX_SOCKETS_IN_GEN).filterMap fun j =>
    if j.val < n ∧ 0 < g.sockets r j then some (g.sockets r j).toNat else none

/-- `tubular_close_wg`: the group after the loop, and the descriptors it closed. -/
def tubularCloseWg (g : ReuseportGroup) (wg : Row) : ReuseportGroup × List ℕ :=
  ({ g with
      sockets := Function.update g.sockets wg fun j =>
        if j.val < g.maxIdx wg then -1 else g.sockets wg j
      maxIdx := Function.update g.maxIdx wg 0 },
    g.openBelow wg (g.maxIdx wg))

/-- Close every row in turn. -/
def tubularCloseAll (g : ReuseportGroup) : ReuseportGroup × List ℕ :=
  (List.finRange MAX_GENS).foldl
    (fun acc wg => ((tubularCloseWg acc.1 wg).1, acc.2 ++ (tubularCloseWg acc.1 wg).2)) (g, [])

def stale (now : UInt64) (g : ReuseportGroup) : Bool :=
  decide (10 * 1000000000 < now - g.lastModified)

/-- `reuseport_groups_maybe_cleanup_stale`: groups untouched for ten seconds are closed. -/
def reuseportGroupsMaybeCleanupStale (now : UInt64) : TubularStore → TubularStore × List ℕ
  | [] => ([], [])
  | g :: l =>
    let rest := reuseportGroupsMaybeCleanupStale now l
    if stale now g then
      let (g', closed) := tubularCloseAll g
      ((reuseportGroupMaybeDelete g').toList ++ rest.1, closed ++ rest.2)
    else (g :: rest.1, rest.2)

/-- The body of `tubular_maybe_preserve_fd` on the group it found or added. -/
def ReuseportGroup.preserve (g : ReuseportGroup) (gen : UInt32) (genLen : ℕ) (freePos : Slot)
    (f : ℕ) (now : UInt64) : ReuseportGroup × List ℕ :=
  let old := g.sockets (genRow gen) freePos
  ({ g with
      maxIdx := Function.update g.maxIdx (genRow gen) genLen
      sockets := Function.update g.sockets (genRow gen)
        (Function.update (g.sockets (genRow gen)) freePos (f : Int))
      lastModified := now },
    if 0 < old then [old.toNat] else [])

/-- `tubular_maybe_preserve_fd`: none where the caller keeps, and closes, the descriptor. -/
def tubularMaybePreserveFd (l : TubularStore) (st : ReuseportStorage) (gen : UInt32)
    (genLen : ℕ) (freePos : Slot) (f : ℕ) (now : UInt64) : Option (TubularStore × List ℕ) :=
  if st.dis.labelled then
    let l := reuseportGroupLookupOrAdd l st.randomId now
    match reuseportGroupLookup l st.randomId with
    | some g =>
      some (modifyGroup st.randomId (fun g => some (g.preserve gen genLen freePos f now).1) l,
        (g.preserve gen genLen freePos f now).2)
    | none => none
  else none

/-- The array that `tubular_register` receives: the first `max_idx` entries of a row. -/
def ReuseportGroup.handed (g : ReuseportGroup) (wg : Row) : List Int :=
  ((List.finRange MAX_SOCKETS_IN_GEN).filter fun j => decide (j.val < g.maxIdx wg)).map
    (g.sockets wg)

/-- What `tubular_maybe_register` did: its errno, the store, the descriptors it closed, and
the row and array of the call to `tubular_register`, if it was made. -/
structure Handover where
  err : ℕ
  store : TubularStore
  closed : List ℕ
  call : Option (Row × List Int)

abbrev ENOENT : ℕ := 2

/-- `tubular_maybe_register`. `registerErr` is the errno of `tubular_register`. -/
def tubularMaybeRegister (l : TubularStore) (st : ReuseportStorage) (wg : Row)
    (tubularPath : Bool) (registerErr : ℕ) : Handover :=
  if st.dis.labelled then
    match reuseportGroupLookup l st.randomId with
    | none => ⟨if tubularPath then 9 else ENOENT, l, [], none⟩
    | some g =>
      ⟨if tubularPath then registerErr else ENOENT,
        modifyGroup st.randomId (fun g => reuseportGroupMaybeDelete (tubularCloseWg g wg).1) l,
        (tubularCloseWg g wg).2,
        if tubularPath then some (wg, g.handed wg) else none⟩
  else ⟨0, l, [], none⟩

/-! ### What the store holds -/

/-- The store holds descriptor `f` in slot `j` of row `r` of a group. -/
def Holds (l : TubularStore) (id : UInt32) (r : Row) (j : Slot) (f : ℕ) : Prop :=
  ∃ g, reuseportGroupLookup l id = some g ∧ 0 < f ∧ g.sockets r j = (f : Int)

/-- Every entry below the length of its row is a descriptor. -/
def Filled (l : TubularStore) : Prop :=
  ∀ id g, reuseportGroupLookup l id = some g →
    ∀ r (j : Slot), j.val < g.maxIdx r → 0 < g.sockets r j

def UniqueIds (l : TubularStore) : Prop := KeyedList.Unique ReuseportGroup.randomId l

/-- The daemon closed some descriptors and forgot at least those. -/
structure Shrinks (l l' : TubularStore) (closed : List ℕ) : Prop where
  unique : UniqueIds l'
  kept : ∀ id r j f, Holds l' id r j f → Holds l id r j f
  closed : ∀ f ∈ closed, ∃ id r j, Holds l id r j f ∧ ¬ Holds l' id r j f
  filled : Filled l → Filled l'

variable {l : TubularStore} {g : ReuseportGroup} {f : ℕ}

theorem Shrinks.refl (h : UniqueIds l) : Shrinks l l [] :=
  ⟨h, fun _ _ _ _ h => h, fun _ h => absurd h List.not_mem_nil, fun h => h⟩

theorem mem_openBelow {r : Row} {n : ℕ} :
    f ∈ g.openBelow r n ↔ ∃ j : Slot, j.val < n ∧ 0 < f ∧ g.sockets r j = (f : Int) := by
  simp only [ReuseportGroup.openBelow, List.mem_filterMap, List.mem_finRange, true_and]
  constructor
  · rintro ⟨j, hj⟩
    split at hj
    · rename_i h
      refine ⟨j, h.1, ?_, ?_⟩ <;> simp only [Option.some.injEq] at hj <;> omega
    · cases hj
  · rintro ⟨j, hj, hf, he⟩
    refine ⟨j, ?_⟩
    rw [if_pos ⟨hj, by omega⟩, he, Int.toNat_natCast]

theorem tubularCloseWg_sockets (g : ReuseportGroup) (wg r : Row) (j : Slot) :
    (tubularCloseWg g wg).1.sockets r j =
      if r = wg ∧ j.val < g.maxIdx wg then -1 else g.sockets r j := by
  by_cases hr : r = wg
  · subst hr
    simp [tubularCloseWg]
  · simp [tubularCloseWg, hr]

theorem tubularCloseWg_maxIdx (g : ReuseportGroup) (wg r : Row) :
    (tubularCloseWg g wg).1.maxIdx r = if r = wg then 0 else g.maxIdx r := by
  by_cases hr : r = wg
  · subst hr
    simp [tubularCloseWg]
  · simp [tubularCloseWg, hr]

/-- The closing loop over the rows of `g`, once it has passed the rows in `done`. -/
structure ClosedRows (g : ReuseportGroup) (done : List Row) (acc : ReuseportGroup × List ℕ) :
    Prop where
  emptied : ∀ r ∈ done, acc.1.maxIdx r = 0
  entries : ∀ r j, 0 < acc.1.sockets r j → acc.1.sockets r j = g.sockets r j
  closed : ∀ f ∈ acc.2, ∃ r j, 0 < f ∧ g.sockets r j = (f : Int)

theorem ClosedRows.step {done : List Row} {acc : ReuseportGroup × List ℕ}
    (h : ClosedRows g done acc) (wg : Row) :
    ClosedRows g (done ++ [wg])
      ((tubularCloseWg acc.1 wg).1, acc.2 ++ (tubularCloseWg acc.1 wg).2) := by
  refine ⟨fun r hr => ?_, fun r j hj => ?_, fun f hf => ?_⟩
  · rw [tubularCloseWg_maxIdx]
    split
    · rfl
    · rename_i hne
      exact h.emptied r (by simpa [hne] using hr)
  · rw [tubularCloseWg_sockets] at hj ⊢
    split at hj
    · omega
    · rw [if_neg ‹_›]
      exact h.entries r j hj
  · rcases List.mem_append.mp hf with hf | hf
    · exact h.closed f hf
    · obtain ⟨j, _, hpos, he⟩ := mem_openBelow.mp hf
      have hj : 0 < acc.1.sockets wg j := by omega
      exact ⟨wg, j, hpos, (h.entries wg j hj).symm.trans he⟩

theorem ClosedRows.fold {done : List Row} {acc : ReuseportGroup × List ℕ}
    (h : ClosedRows g done acc) (rows : List Row) :
    ClosedRows g (done ++ rows) (rows.foldl (fun acc wg =>
      ((tubularCloseWg acc.1 wg).1, acc.2 ++ (tubularCloseWg acc.1 wg).2)) acc) := by
  induction rows generalizing done acc with
  | nil => simpa using h
  | cons wg rows ih => simpa using ih (h.step wg)

theorem tubularCloseAll_closedRows (g : ReuseportGroup) :
    ClosedRows g (List.finRange MAX_GENS) (tubularCloseAll g) :=
  have h : ClosedRows g [] (g, []) :=
    ⟨fun _ h => absurd h List.not_mem_nil, fun _ _ _ => rfl, fun _ h => absurd h List.not_mem_nil⟩
  h.fold (List.finRange MAX_GENS)

/-- A stale group is always freed: no row is left. -/
theorem reuseportGroupMaybeDelete_closeAll (g : ReuseportGroup) :
    reuseportGroupMaybeDelete (tubularCloseAll g).1 = none :=
  if_pos fun r => (tubularCloseAll_closedRows g).emptied r (List.mem_finRange r)

/-! ### Clean-up -/

theorem reuseportGroupsMaybeCleanupStale_fst (now : UInt64) (l : TubularStore) :
    (reuseportGroupsMaybeCleanupStale now l).1 =
      l.filterMap fun g => if stale now g then none else some g := by
  induction l with
  | nil => rfl
  | cons g l ih =>
    cases h : stale now g <;>
      simp [reuseportGroupsMaybeCleanupStale, h, ih, reuseportGroupMaybeDelete_closeAll]

theorem mem_reuseportGroupsMaybeCleanupStale {now : UInt64} {l : TubularStore}
    (h : f ∈ (reuseportGroupsMaybeCleanupStale now l).2) :
    ∃ g ∈ l, stale now g = true ∧ f ∈ (tubularCloseAll g).2 := by
  induction l with
  | nil => cases h
  | cons g l ih =>
    rw [reuseportGroupsMaybeCleanupStale] at h
    split at h
    · rename_i hs
      rcases List.mem_append.mp h with hf | hf
      · exact ⟨g, List.mem_cons_self, hs, hf⟩
      · obtain ⟨g', hg, hs', hf'⟩ := ih hf
        exact ⟨g', List.mem_cons_of_mem _ hg, hs', hf'⟩
    · obtain ⟨g', hg, hs', hf'⟩ := ih h
      exact ⟨g', List.mem_cons_of_mem _ hg, hs', hf'⟩

theorem keepFresh_randomId {now : UInt64} (g g' : ReuseportGroup)
    (h : (if stale now g then none else some g) = some g') : g'.randomId = g.randomId := by
  split at h
  · cases h
  · rw [Option.some.inj h]

/-- A group is there after the pass exactly if it was there and is not stale. -/
theorem cleanup_lookup (hu : UniqueIds l) (now : UInt64) (id : UInt32) (g : ReuseportGroup) :
    reuseportGroupLookup (reuseportGroupsMaybeCleanupStale now l).1 id = some g ↔
      reuseportGroupLookup l id = some g ∧ stale now g = false := by
  rw [reuseportGroupsMaybeCleanupStale_fst, reuseportGroupLookup, reuseportGroupLookup,
    KeyedList.find_filterMap keepFresh_randomId hu, Option.bind_eq_some_iff]
  constructor
  · rintro ⟨g', hg, hs⟩
    cases hst : stale now g' with
    | true => simp [hst] at hs
    | false =>
      have he : g' = g := by simpa [hst] using hs
      subst he
      exact ⟨hg, hst⟩
  · rintro ⟨hg, hs⟩
    exact ⟨g, hg, by simp [hs]⟩

theorem cleanup_shrinks (hu : UniqueIds l) (now : UInt64) :
    Shrinks l (reuseportGroupsMaybeCleanupStale now l).1
      (reuseportGroupsMaybeCleanupStale now l).2 := by
  have hfind := cleanup_lookup hu now
  refine ⟨?_, ?_, ?_, ?_⟩
  · rw [reuseportGroupsMaybeCleanupStale_fst]
    exact KeyedList.unique_filterMap keepFresh_randomId hu
  · rintro id r j f ⟨g, hg, hpos, he⟩
    exact ⟨g, ((hfind id g).mp hg).1, hpos, he⟩
  · intro f hf
    obtain ⟨g, hg, hs, hf⟩ := mem_reuseportGroupsMaybeCleanupStale hf
    obtain ⟨r, j, hpos, he⟩ := (tubularCloseAll_closedRows g).closed f hf
    have hlook : reuseportGroupLookup l g.randomId = some g := KeyedList.find_of_mem hu hg
    refine ⟨g.randomId, r, j, ⟨g, hlook, hpos, he⟩, ?_⟩
    rintro ⟨g', hg', _, _⟩
    obtain ⟨hg', hs'⟩ := (hfind _ _).mp hg'
    rw [hlook, Option.some.injEq] at hg'
    rw [← hg', hs] at hs'
    cases hs'
  · intro hfill id g hg
    exact hfill id g ((hfind id g).mp hg).1

/-! ### Hand-over -/

theorem reuseportGroupMaybeDelete_eq_some {g' : ReuseportGroup}
    (h : reuseportGroupMaybeDelete g = some g') : g' = g := by
  unfold reuseportGroupMaybeDelete at h
  split at h
  · cases h
  · exact (Option.some.inj h).symm

theorem closeWg_randomId {wg : Row} (g g' : ReuseportGroup)
    (h : reuseportGroupMaybeDelete (tubularCloseWg g wg).1 = some g') :
    g'.randomId = g.randomId := by
  rw [reuseportGroupMaybeDelete_eq_some h]
  rfl

/-- The group closed in row `wg` is kept or freed, and the others are untouched. -/
theorem closeWg_lookup (hu : UniqueIds l) {id : UInt32}
    (hg : reuseportGroupLookup l id = some g) (wg : Row) (id' : UInt32) :
    reuseportGroupLookup
      (modifyGroup id (fun g => reuseportGroupMaybeDelete (tubularCloseWg g wg).1) l) id' =
        if id' = id then reuseportGroupMaybeDelete (tubularCloseWg g wg).1
        else reuseportGroupLookup l id' := by
  rw [reuseportGroupLookup, modifyGroup, KeyedList.find_modify closeWg_randomId hu]
  split
  · rw [← reuseportGroupLookup, hg]
    rfl
  · rfl

theorem modifyGroup_closeWg_shrinks (hu : UniqueIds l) {id : UInt32}
    (hg : reuseportGroupLookup l id = some g) (wg : Row) :
    Shrinks l (modifyGroup id (fun g => reuseportGroupMaybeDelete (tubularCloseWg g wg).1) l)
      (tubularCloseWg g wg).2 := by
  have hfind : ∀ id' g', reuseportGroupLookup
      (modifyGroup id (fun g => reuseportGroupMaybeDelete (tubularCloseWg g wg).1) l) id' =
        some g' → (id' = id ∧ g' = (tubularCloseWg g wg).1) ∨
          (id' ≠ id ∧ reuseportGroupLookup l id' = some g') := by
    intro id' g' h
    rw [closeWg_lookup hu hg] at h
    split at h
    · exact .inl ⟨‹_›, reuseportGroupMaybeDelete_eq_some h⟩
    · exact .inr ⟨‹_›, h⟩
  refine ⟨KeyedList.unique_modify closeWg_randomId hu, ?_, ?_, ?_⟩
  · rintro id' r j f ⟨g', hg', hpos, he⟩
    rcases hfind id' g' hg' with ⟨rfl, rfl⟩ | ⟨_, hl⟩
    · rw [tubularCloseWg_sockets] at he
      split at he
      · omega
      · exact ⟨g, hg, hpos, he⟩
    · exact ⟨g', hl, hpos, he⟩
  · intro f hf
    obtain ⟨j, hj, hpos, he⟩ := mem_openBelow.mp hf
    refine ⟨id, wg, j, ⟨g, hg, hpos, he⟩, ?_⟩
    rintro ⟨g', hg', _, he'⟩
    rcases hfind id g' hg' with ⟨_, rfl⟩ | ⟨hne, _⟩
    · rw [tubularCloseWg_sockets, if_pos ⟨rfl, hj⟩] at he'
      omega
    · exact hne rfl
  · intro hfill id' g' hg' r j hj
    rcases hfind id' g' hg' with ⟨rfl, rfl⟩ | ⟨_, hl⟩
    · rw [tubularCloseWg_maxIdx] at hj
      split at hj
      · omega
      · rename_i hr
        rw [tubularCloseWg_sockets, if_neg fun h => hr h.1]
        exact hfill id' g hg r j hj
    · exact hfill id' g' hl r j hj

theorem tubularMaybeRegister_shrinks (hu : UniqueIds l) (st : ReuseportStorage) (wg : Row)
    (tubularPath : Bool) (registerErr : ℕ) :
    Shrinks l (tubularMaybeRegister l st wg tubularPath registerErr).store
      (tubularMaybeRegister l st wg tubularPath registerErr).closed := by
  unfold tubularMaybeRegister
  split
  · split
    · exact .refl hu
    · exact modifyGroup_closeWg_shrinks hu ‹_› wg
  · exact .refl hu

/-- The array handed over consists of the entries below the length of the row. -/
theorem tubularMaybeRegister_call {st : ReuseportStorage} {wg row : Row} {tubularPath : Bool}
    {registerErr : ℕ} {arr : List Int}
    (h : (tubularMaybeRegister l st wg tubularPath registerErr).call = some (row, arr)) :
    row = wg ∧ ∃ g, reuseportGroupLookup l st.randomId = some g ∧
      ∀ e ∈ arr, ∃ j : Slot, j.val < g.maxIdx wg ∧ g.sockets wg j = e := by
  unfold tubularMaybeRegister at h
  split at h
  · split at h
    · cases h
    · rename_i g hg
      dsimp only at h
      split at h
      · cases h
        refine ⟨rfl, g, hg, fun e he => ?_⟩
        obtain ⟨j, hj, he⟩ := List.mem_map.mp he
        exact ⟨j, by simpa using hj, he⟩
      · cases h
  · cases h

/-! ### Preservation -/

theorem reuseportGroupLookupOrAdd_unique (hu : UniqueIds l) (id : UInt32) (now : UInt64) :
    UniqueIds (reuseportGroupLookupOrAdd l id now) := by
  unfold reuseportGroupLookupOrAdd
  split
  · exact hu
  · rename_i hn
    exact List.nodup_cons.mpr ⟨KeyedList.find_eq_none_iff.mp hn, hu⟩

/-- The group that is found or added: a new one holds no descriptor and has empty rows. -/
theorem reuseportGroupLookupOrAdd_lookup (l : TubularStore) (id : UInt32) (now : UInt64) :
    ∃ g, reuseportGroupLookup (reuseportGroupLookupOrAdd l id now) id = some g ∧
      (∀ r j f, Holds l id r j f ↔ 0 < f ∧ g.sockets r j = (f : ℕ)) ∧
      (Filled l → ∀ r (j : Slot), j.val < g.maxIdx r → 0 < g.sockets r j) ∧
      ∀ id', id' ≠ id → reuseportGroupLookup (reuseportGroupLookupOrAdd l id now) id' =
        reuseportGroupLookup l id' := by
  unfold reuseportGroupLookupOrAdd
  split
  · rename_i g hg
    refine ⟨g, hg, fun r j f => ?_, fun h => h id g hg, fun _ _ => rfl⟩
    simp [Holds, hg]
  · rename_i hn
    refine ⟨⟨id, now, fun _ => 0, fun _ _ => 0⟩, ?_, ?_, ?_, ?_⟩
    · simp [reuseportGroupLookup, KeyedList.find_cons]
    · intro r j f
      simp [Holds, hn]
      omega
    · intro _ r j hj
      simp at hj
    · intro id' hne
      simp [reuseportGroupLookup, KeyedList.find_cons, Ne.symm hne]

theorem reuseportGroupLookupOrAdd_found {id : UInt32} {now : UInt64} {r : Row} {j : Slot}
    (h : reuseportGroupLookup (reuseportGroupLookupOrAdd l id now) id = some g)
    (hpos : 0 < g.sockets r j) : reuseportGroupLookup l id = some g := by
  unfold reuseportGroupLookupOrAdd at h
  split at h
  · exact h
  · simp only [reuseportGroupLookup, KeyedList.find_cons, if_true, Option.some.injEq] at h
    subst h
    simp at hpos

/-- The store after descriptor `f` went into one slot, and what that closed. -/
structure Preserves (l l' : TubularStore) (closed : List ℕ) (id : UInt32) (row : Row)
    (pos : Slot) (len f : ℕ) : Prop where
  unique : UniqueIds l'
  held : ∀ id' r j f', Holds l' id' r j f' →
    (id' = id ∧ r = row ∧ j = pos ∧ f' = f) ∨
      (Holds l id' r j f' ∧ ¬ (id' = id ∧ r = row ∧ j = pos))
  closed : ∀ f' ∈ closed, Holds l id row pos f'
  filled : 0 < f → Filled l →
    (∀ j : Slot, j.val < len → j ≠ pos → ∃ f', Holds l id row j f') → Filled l'

theorem preserve_sockets (g : ReuseportGroup) (gen : UInt32) (len : ℕ) (pos : Slot)
    (now : UInt64) (r : Row) (j : Slot) :
    (g.preserve gen len pos f now).1.sockets r j =
      if r = genRow gen ∧ j = pos then (f : Int) else g.sockets r j := by
  by_cases hr : r = genRow gen <;> by_cases hj : j = pos <;>
    simp [ReuseportGroup.preserve, hr, hj]

theorem preserve_maxIdx (g : ReuseportGroup) (gen : UInt32) (len : ℕ) (pos : Slot)
    (now : UInt64) (r : Row) :
    (g.preserve gen len pos f now).1.maxIdx r = if r = genRow gen then len else g.maxIdx r := by
  by_cases hr : r = genRow gen <;> simp [ReuseportGroup.preserve, hr]

/-- Preservation fills one slot of the group that was found or added. -/
theorem tubularMaybePreserveFd_lookup (hu : UniqueIds l) {st : ReuseportStorage}
    (hl : st.dis.labelled = true) (gen : UInt32) (len : ℕ) (pos : Slot) (f : ℕ) (now : UInt64) :
    ∃ l', ∃ g : ReuseportGroup, tubularMaybePreserveFd l st gen len pos f now =
        some (l', (g.preserve gen len pos f now).2) ∧ UniqueIds l' ∧
      (∀ r j, 0 < g.sockets r j → reuseportGroupLookup l st.randomId = some g) ∧
      (∀ r j f, Holds l st.randomId r j f ↔ 0 < f ∧ g.sockets r j = (f : ℕ)) ∧
      (Filled l → ∀ r (j : Slot), j.val < g.maxIdx r → 0 < g.sockets r j) ∧
      ∀ id, reuseportGroupLookup l' id =
        if id = st.randomId then some (g.preserve gen len pos f now).1
        else reuseportGroupLookup l id := by
  obtain ⟨g, hg, hheld, hfill, hother⟩ := reuseportGroupLookupOrAdd_lookup l st.randomId now
  have hu' := reuseportGroupLookupOrAdd_unique hu st.randomId now
  have hid : ∀ g g' : ReuseportGroup, some (g.preserve gen len pos f now).1 = some g' →
      g'.randomId = g.randomId := by
    intro g g' h
    rw [← Option.some.inj h]
    rfl
  simp only [tubularMaybePreserveFd, hl, if_true, hg, Option.some.injEq, Prod.mk.injEq]
  refine ⟨_, g, ⟨rfl, rfl⟩, KeyedList.unique_modify hid hu',
    fun r j => reuseportGroupLookupOrAdd_found hg, hheld, hfill, fun id => ?_⟩
  rw [reuseportGroupLookup, modifyGroup, KeyedList.find_modify hid hu']
  split
  · rw [← reuseportGroupLookup, hg]
    rfl
  · rename_i hne
    exact hother id hne

theorem tubularMaybePreserveFd_preserves (hu : UniqueIds l) {st : ReuseportStorage}
    (hl : st.dis.labelled = true) (gen : UInt32) (len : ℕ) (pos : Slot) (f : ℕ) (now : UInt64) :
    ∃ l' closed, tubularMaybePreserveFd l st gen len pos f now = some (l', closed) ∧
      Preserves l l' closed st.randomId (genRow gen) pos len f := by
  obtain ⟨l', g, he, hu', _, hheld, hfill, hlook⟩ :=
    tubularMaybePreserveFd_lookup hu hl gen len pos f now
  have hfind : ∀ id' g', reuseportGroupLookup l' id' = some g' →
        (id' = st.randomId ∧ g' = (g.preserve gen len pos f now).1) ∨
          (id' ≠ st.randomId ∧ reuseportGroupLookup l id' = some g') := by
    intro id' g' h
    rw [hlook] at h
    split at h
    · exact .inl ⟨‹_›, (Option.some.inj h).symm⟩
    · exact .inr ⟨‹_›, h⟩
  refine ⟨l', _, he, hu', ?_, ?_, ?_⟩
  · rintro id' r j f' ⟨g', hg', hpos, he⟩
    rcases hfind id' g' hg' with ⟨rfl, rfl⟩ | ⟨hne, hl'⟩
    · rw [preserve_sockets] at he
      split at he
      · rename_i hrj
        exact .inl ⟨rfl, hrj.1, hrj.2, by omega⟩
      · rename_i hrj
        exact .inr ⟨(hheld r j f').mpr ⟨hpos, he⟩, fun h => hrj h.2⟩
    · exact .inr ⟨⟨g', hl', hpos, he⟩, fun h => hne h.1⟩
  · intro f' hf'
    simp only [ReuseportGroup.preserve] at hf'
    split at hf'
    · rw [List.mem_singleton] at hf'
      exact (hheld _ _ f').mpr ⟨by omega, by omega⟩
    · cases hf'
  · intro hpos hfilled hrow id' g' hg' r j hj
    rcases hfind id' g' hg' with ⟨rfl, rfl⟩ | ⟨hne, hl'⟩
    · rw [preserve_maxIdx] at hj
      rw [preserve_sockets]
      split
      · omega
      · rename_i hrj
        split at hj
        · rename_i hr
          subst hr
          obtain ⟨f', hf'⟩ := hrow j hj fun h => hrj ⟨rfl, h⟩
          have := (hheld _ _ f').mp hf'
          omega
        · exact hfill hfilled r j hj
    · exact hfilled id' g' hl' r j hj

end Udpgrm
