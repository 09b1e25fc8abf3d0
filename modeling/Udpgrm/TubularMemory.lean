import Mathlib.Data.Fintype.EquivFin
import Udpgrm.Lib.ListHead
import Udpgrm.Handover

/-!
The daemon's store in memory: groups that are allocated, linked to a list and freed. An access to a
group that is not there fails, and a loop stops when its fuel is used up.
-/
namespace Udpgrm

open ListHead (IsList)

abbrev LIST_POISON1 : ℕ := 0xDEADBEEF
abbrev LIST_POISON2 : ℕ := 0xDEADBEFE

/-- The pointers of `in_list` and the other fields, by the address of the group. -/
structure GroupMemory where
  links : ListHead.Heap ℕ
  groups : ℕ → Option ReuseportGroup

namespace GroupMemory

/-- `LIST_HEAD(list_of_tubular_sockets)` at the address `head`. -/
def initial (head : ℕ) : GroupMemory :=
  ⟨⟨Function.update (fun _ => none) head (some head),
    Function.update (fun _ => none) head (some head)⟩, fun _ => none⟩

def write (m : GroupMemory) (a : ℕ) (g : ReuseportGroup) : GroupMemory :=
  { m with groups := Function.update m.groups a (some g) }

@[simp] theorem write_self (m : GroupMemory) (a : ℕ) (g : ReuseportGroup) :
    (m.write a g).groups a = some g := Function.update_self ..

theorem write_of_ne (m : GroupMemory) {a b : ℕ} (h : b ≠ a) (g : ReuseportGroup) :
    (m.write a g).groups b = m.groups b := Function.update_of_ne h ..

def free (m : GroupMemory) (a : ℕ) : GroupMemory :=
  ⟨m.links.free a, Function.update m.groups a none⟩

@[simp] theorem free_self (m : GroupMemory) (a : ℕ) : (m.free a).groups a = none :=
  Function.update_self ..

theorem free_of_ne (m : GroupMemory) {a b : ℕ} (h : b ≠ a) :
    (m.free a).groups b = m.groups b := Function.update_of_ne h ..

def reuseportGroupsEmpty (head : ℕ) (m : GroupMemory) : Option Bool := m.links.listEmpty head

/-- The loop of `reuseport_group_lookup`. The next pointer is also read to be fetched early. -/
def lookupFrom (head : ℕ) (m : GroupMemory) (randomId : UInt32) : ℕ → ℕ → Option (Option ℕ)
  | 0, _ => none
  | fuel + 1, pos => do
    let next ← m.links.next pos
    if pos = head then some none
    else do
      let skGroup ← m.groups pos
      if skGroup.randomId = randomId then some (some pos)
      else lookupFrom head m randomId fuel next

def reuseportGroupLookup (head fuel : ℕ) (m : GroupMemory) (randomId : UInt32) :
    Option (Option ℕ) := do
  let pos ← m.links.next head
  m.lookupFrom head randomId fuel pos

/-- `reuseport_group_lookup_or_add`, where `calloc` returns `fresh`. -/
def reuseportGroupLookupOrAdd (head fuel fresh : ℕ) (m : GroupMemory) (randomId : UInt32)
    (now : UInt64) : Option (GroupMemory × ℕ) := do
  let found ← m.reuseportGroupLookup head fuel randomId
  match found with
  | some a => some (m, a)
  | none => do
    let links ← (m.links.alloc fresh 0).listAdd fresh head
    some (({ m with links := links } : GroupMemory).write fresh
      ⟨randomId, now, fun _ => 0, fun _ _ => 0⟩, fresh)

def reuseportGroupMaybeDelete (m : GroupMemory) (a : ℕ) : Option GroupMemory := do
  let skGroup ← m.groups a
  if ∀ r, skGroup.maxIdx r = 0 then do
    let links ← m.links.listDel LIST_POISON1 LIST_POISON2 a
    some (({ m with links := links } : GroupMemory).free a)
  else some m

/-- The body of the loop of `reuseport_groups_maybe_cleanup_stale`. -/
def cleanupGroup (now : UInt64) (m : GroupMemory) (pos : ℕ) : Option (GroupMemory × List ℕ) := do
  let skGroup ← m.groups pos
  if stale now skGroup then do
    let (skGroup, closed) := tubularCloseAll skGroup
    let m ← (m.write pos skGroup).reuseportGroupMaybeDelete pos
    some (m, closed)
  else some (m, [])

/-- The loop, with the next node in `tmp`. -/
def cleanupFrom (head : ℕ) (now : UInt64) : ℕ → GroupMemory → ℕ → ℕ →
    Option (GroupMemory × List ℕ)
  | 0, _, _, _ => none
  | fuel + 1, m, pos, tmp =>
    if pos = head then some (m, [])
    else do
      let (m, closed) ← m.cleanupGroup now pos
      let next ← m.links.next tmp
      let (m, rest) ← cleanupFrom head now fuel m tmp next
      some (m, closed ++ rest)

def reuseportGroupsMaybeCleanupStale (head fuel : ℕ) (m : GroupMemory) (now : UInt64) :
    Option (GroupMemory × List ℕ) := do
  let pos ← m.links.next head
  let tmp ← m.links.next pos
  cleanupFrom head now fuel m pos tmp

def tubularMaybePreserveFd (head fuel fresh : ℕ) (m : GroupMemory) (st : ReuseportStorage)
    (gen : UInt32) (genLen : ℕ) (freePos : Slot) (f : ℕ) (now : UInt64) :
    Option (Option (GroupMemory × List ℕ)) :=
  if st.dis.labelled then do
    let (m, a) ← m.reuseportGroupLookupOrAdd head fuel fresh st.randomId now
    let skGroup ← m.groups a
    let (skGroup, closed) := skGroup.preserve gen genLen freePos f now
    some (some (m.write a skGroup, closed))
  else some none

/-- The errno, the memory, the descriptors that were closed, and the call to `tubular_register`. -/
def tubularMaybeRegister (head fuel : ℕ) (m : GroupMemory) (st : ReuseportStorage) (wg : Row)
    (tubularPath : Bool) (registerErr : ℕ) :
    Option (ℕ × GroupMemory × List ℕ × Option (Row × List Int)) :=
  if st.dis.labelled then do
    let found ← m.reuseportGroupLookup head fuel st.randomId
    match found with
    | none => some (if tubularPath then 9 else ENOENT, m, [], none)
    | some a => do
      let skGroup ← m.groups a
      let call := if tubularPath then some (wg, skGroup.handed wg) else none
      let (closedGroup, closed) := tubularCloseWg skGroup wg
      let m ← (m.write a closedGroup).reuseportGroupMaybeDelete a
      some (if tubularPath then registerErr else ENOENT, m, closed, call)
  else some (0, m, [], none)

end GroupMemory

/-! ### What is in memory -/

/-- The memory holds these groups, in the order of the list, and nothing else. -/
structure Stored (head : ℕ) (m : GroupMemory) (ps : List (ℕ × ReuseportGroup)) : Prop where
  list : IsList m.links head (ps.map Prod.fst)
  here : ∀ q ∈ ps, m.groups q.1 = some q.2
  only : ∀ a, a ∉ ps.map Prod.fst → m.groups a = none

namespace Stored

variable {head fuel : ℕ} {m : GroupMemory} {ps qs : List (ℕ × ReuseportGroup)} {a : ℕ}
  {g : ReuseportGroup}

theorem initial (head : ℕ) : Stored head (.initial head) [] := by
  refine ⟨⟨by simp, ?_, ?_⟩, by simp, fun _ _ => rfl⟩
  · simp [ListHead.Path, ListHead.Edge, GroupMemory.initial]
  · intro a ha
    have hne : a ≠ head := by simpa using ha
    simp [GroupMemory.initial, hne]

/-- The addresses of the groups are not the head's and differ. -/
theorem nodup (h : Stored head m ps) : (head :: ps.map Prod.fst).Nodup := h.list.nodup

theorem lookupFrom_path {randomId : UInt32} {pos : ℕ}
    (hp : ListHead.Path m.links a (ps.map Prod.fst) head)
    (hhead : head ∉ ps.map Prod.fst) (hlast : (m.links.next head).isSome)
    (hhere : ∀ q ∈ ps, m.groups q.1 = some q.2)
    (hfuel : ps.length < fuel) (hpos : m.links.next a = some pos) :
    m.lookupFrom head randomId fuel pos =
      some ((ps.find? (fun q => q.2.randomId = randomId)).map Prod.fst) := by
  induction ps generalizing a pos fuel with
  | nil =>
    obtain ⟨n, rfl⟩ : ∃ n, fuel = n + 1 := ⟨fuel - 1, by omega⟩
    obtain rfl : pos = head := Option.some.inj (hpos.symm.trans hp.1)
    obtain ⟨next, hnext⟩ := Option.isSome_iff_exists.mp hlast
    simp [GroupMemory.lookupFrom, hnext]
  | cons q ps ih =>
    obtain ⟨n, rfl⟩ : ∃ n, fuel = n + 1 := ⟨fuel - 1, by simp at hfuel; omega⟩
    obtain rfl : pos = q.1 := Option.some.inj (hpos.symm.trans hp.1.1)
    have hne : q.1 ≠ head := fun he => hhead (by simp [he])
    obtain ⟨next, hnext⟩ := Option.isSome_iff_exists.mp
      (hp.2.next_isSome q.1 List.mem_cons_self)
    have hrest := ih hp.2 (fun hmem => hhead (List.mem_cons_of_mem _ hmem))
      (fun q' hq' => hhere q' (List.mem_cons_of_mem _ hq')) (by simpa using hfuel) hnext
    rw [GroupMemory.lookupFrom, hnext, Option.bind_eq_bind, Option.bind_some, if_neg hne,
      hhere q List.mem_cons_self, Option.bind_eq_bind, Option.bind_some]
    by_cases hid : q.2.randomId = randomId
    · rw [if_pos hid, List.find?_cons_of_pos (by simpa using hid)]
      rfl
    · rw [if_neg hid, hrest, List.find?_cons_of_neg (by simpa using hid)]

theorem lookup (h : Stored head m ps) (hfuel : ps.length < fuel) (randomId : UInt32) :
    m.reuseportGroupLookup head fuel randomId =
      some ((ps.find? (fun q => q.2.randomId = randomId)).map Prod.fst) := by
  have hnext := h.list.path.next_isSome head List.mem_cons_self
  obtain ⟨pos, hpos⟩ := Option.isSome_iff_exists.mp hnext
  rw [GroupMemory.reuseportGroupLookup, hpos, Option.bind_eq_bind, Option.bind_some]
  exact lookupFrom_path h.list.path (List.nodup_cons.mp h.nodup).1 hnext h.here hfuel hpos

theorem mem_groups (h : Stored head m (ps ++ (a, g) :: qs)) : m.groups a = some g :=
  h.here (a, g) (by simp)

/-- The addresses around a group are not its own. -/
theorem ne_of_mem (h : Stored head m (ps ++ (a, g) :: qs)) {q : ℕ × ReuseportGroup}
    (hq : q ∈ ps ++ qs) : q.1 ≠ a := by
  have hnodup := (List.nodup_cons.mp h.nodup).2
  rw [List.map_append, List.map_cons, List.nodup_middle, List.nodup_cons] at hnodup
  rw [← List.map_append] at hnodup
  have hmem : q.1 ∈ (ps ++ qs).map Prod.fst := List.mem_map_of_mem hq
  intro he
  exact hnodup.1 (he ▸ hmem)

theorem write (h : Stored head m (ps ++ (a, g) :: qs)) (g' : ReuseportGroup) :
    Stored head (m.write a g') (ps ++ (a, g') :: qs) := by
  refine ⟨by simpa [GroupMemory.write] using h.list, fun q hq => ?_, fun b hb => ?_⟩
  · by_cases hmem : q ∈ ps ++ qs
    · rw [GroupMemory.write_of_ne _ (h.ne_of_mem hmem)]
      exact h.here q (by simp at hmem ⊢; tauto)
    · obtain rfl : q = (a, g') := by simp at hq hmem; tauto
      exact GroupMemory.write_self ..
  · have hne : b ≠ a := fun he => hb (by simp [he])
    rw [GroupMemory.write_of_ne _ hne]
    exact h.only b (by simpa using hb)

/-- A new group comes in front. -/
theorem add (h : Stored head m ps) {fresh : ℕ} (hfresh : m.links.next fresh = none)
    (g : ReuseportGroup) : ∃ links, (m.links.alloc fresh 0).listAdd fresh head = some links ∧
      Stored head (({ m with links := links } : GroupMemory).write fresh g) ((fresh, g) :: ps) := by
  have hnew : fresh ∉ head :: ps.map Prod.fst := by
    rw [h.list.mem_iff, hfresh]
    decide
  obtain ⟨links, hadd, hlist⟩ := ListHead.listAdd_alloc h.list hnew 0
  refine ⟨links, hadd, hlist, fun q hq => ?_, fun b hb => ?_⟩
  · rcases List.mem_cons.mp hq with rfl | hq
    · exact GroupMemory.write_self ..
    · have hne : q.1 ≠ fresh := fun he =>
        hnew (List.mem_cons_of_mem _ (he ▸ List.mem_map_of_mem hq))
      rw [GroupMemory.write_of_ne _ hne]
      exact h.here q hq
  · have hb : b ≠ fresh ∧ b ∉ ps.map Prod.fst := by simpa using hb
    rw [GroupMemory.write_of_ne _ hb.1]
    exact h.only b hb.2

/-- A group is kept, or unlinked and freed. -/
theorem maybeDelete (h : Stored head m (ps ++ (a, g) :: qs)) :
    ∃ m', m.reuseportGroupMaybeDelete a = some m' ∧
      Stored head m' (ps ++ ((reuseportGroupMaybeDelete g).map (a, ·)).toList ++ qs) := by
  rw [GroupMemory.reuseportGroupMaybeDelete, h.mem_groups, Option.bind_eq_bind, Option.bind_some,
    reuseportGroupMaybeDelete]
  by_cases hempty : ∀ r, g.maxIdx r = 0
  · rw [if_pos hempty, if_pos hempty]
    have hlist := h.list
    rw [List.map_append, List.map_cons] at hlist
    obtain ⟨links, hdel, hlist⟩ := ListHead.free_listDel hlist
    refine ⟨({ m with links := links } : GroupMemory).free a, ?_, ?_, fun q hq => ?_,
      fun b hb => ?_⟩
    · rw [hdel]
      rfl
    · simpa [GroupMemory.free] using hlist
    · have hq : q ∈ ps ++ qs := by simpa using hq
      rw [GroupMemory.free_of_ne _ (h.ne_of_mem hq)]
      exact h.here q (by simp at hq ⊢; tauto)
    · by_cases hba : b = a
      · rw [hba, GroupMemory.free_self]
      · rw [GroupMemory.free_of_ne _ hba]
        exact h.only b (by simp at hb ⊢; tauto)
  · rw [if_neg hempty, if_neg hempty]
    exact ⟨m, rfl, by simpa using h⟩

/-! ### The stale groups -/

theorem cleanupGroup (h : Stored head m (ps ++ (a, g) :: qs)) (now : UInt64) :
    ∃ m', m.cleanupGroup now a =
        some (m', if stale now g then (tubularCloseAll g).2 else []) ∧
      Stored head m' (ps ++ (if stale now g then [] else [(a, g)]) ++ qs) := by
  rw [GroupMemory.cleanupGroup, h.mem_groups, Option.bind_eq_bind, Option.bind_some]
  by_cases hstale : stale now g = true
  · rw [if_pos hstale, if_pos hstale, if_pos hstale]
    obtain ⟨m', hdel, hm⟩ := (h.write (tubularCloseAll g).1).maybeDelete
    rw [reuseportGroupMaybeDelete_closeAll] at hm
    refine ⟨m', ?_, hm⟩
    simp only [hdel]
    rfl
  · rw [if_neg hstale, if_neg hstale, if_neg hstale]
    exact ⟨m, rfl, by simpa using h⟩

/-- The pass over the groups `qs` that are left, with the first of them in `pos`. -/
theorem cleanupFrom {now : UInt64} {pos tmp : ℕ} (h : Stored head m (ps ++ qs))
    (hpos : (qs.map Prod.fst ++ [head]).head? = some pos) (htmp : m.links.next pos = some tmp)
    (hfuel : qs.length < fuel) :
    ∃ m', m.cleanupFrom head now fuel pos tmp =
        some (m', (reuseportGroupsMaybeCleanupStale now (qs.map Prod.snd)).2) ∧
      Stored head m' (ps ++ qs.filter fun q => !stale now q.2) := by
  induction qs generalizing ps m pos tmp fuel with
  | nil =>
    obtain ⟨n, rfl⟩ : ∃ n, fuel = n + 1 := ⟨fuel - 1, by omega⟩
    obtain rfl : head = pos := by simpa using hpos
    exact ⟨m, by simp [GroupMemory.cleanupFrom, reuseportGroupsMaybeCleanupStale], h⟩
  | cons q qs ih =>
    obtain ⟨a, g⟩ := q
    obtain ⟨n, rfl⟩ : ∃ n, fuel = n + 1 := ⟨fuel - 1, by simp at hfuel; omega⟩
    obtain rfl : a = pos := by simpa using hpos
    have hne : a ≠ head := fun he => (List.nodup_cons.mp h.nodup).1 (by simp [he])
    have hpath := h.list.path
    rw [List.map_append, List.map_cons, ListHead.path_append] at hpath
    have hnext : (qs.map Prod.fst ++ [head]).head? = some tmp := hpath.2.next_eq.symm.trans htmp
    obtain ⟨m₁, hgroup, h₁⟩ := h.cleanupGroup now
    -- The saved node is another group or the head, so it outlives this one.
    have hmem : tmp ∈
        head :: (ps ++ (if stale now g then [] else [(a, g)]) ++ qs).map Prod.fst := by
      have hmem := List.mem_of_head? hnext
      simp only [List.map_append, List.mem_cons, List.mem_append] at hmem ⊢
      tauto
    obtain ⟨next, hnext₁⟩ := Option.isSome_iff_exists.mp (h₁.list.mem_iff.mp hmem)
    obtain ⟨m', hrest, h'⟩ := ih h₁ hnext hnext₁ (by simpa using hfuel)
    refine ⟨m', ?_, ?_⟩
    · simp only [GroupMemory.cleanupFrom, if_neg hne, hgroup, Option.bind_eq_bind,
        Option.bind_some, hnext₁, hrest, List.map_cons, reuseportGroupsMaybeCleanupStale]
      cases stale now g <;> simp
    · cases hstale : stale now g <;> simpa [hstale] using h'

theorem filter_snd (now : UInt64) (ps : List (ℕ × ReuseportGroup)) :
    (ps.filter fun q => !stale now q.2).map Prod.snd =
      (reuseportGroupsMaybeCleanupStale now (ps.map Prod.snd)).1 := by
  rw [reuseportGroupsMaybeCleanupStale_fst]
  induction ps with
  | nil => rfl
  | cons q ps ih => cases hstale : stale now q.2 <;> simp [hstale, ih]

theorem cleanup (h : Stored head m ps) (hfuel : ps.length < fuel) (now : UInt64) :
    ∃ m', m.reuseportGroupsMaybeCleanupStale head fuel now =
        some (m', (reuseportGroupsMaybeCleanupStale now (ps.map Prod.snd)).2) ∧
      Stored head m' (ps.filter fun q => !stale now q.2) := by
  obtain ⟨pos, hpos, hmem⟩ := ListHead.exists_next (ps.map Prod.fst) head
  obtain ⟨tmp, htmp⟩ := Option.isSome_iff_exists.mp (h.list.mem_iff.mp hmem)
  have hall : Stored head m ([] ++ ps) := h
  obtain ⟨m', hrun, h'⟩ := hall.cleanupFrom hpos htmp hfuel
  refine ⟨m', ?_, h'⟩
  rw [GroupMemory.reuseportGroupsMaybeCleanupStale, h.list.path.next_eq, hpos]
  simp only [Option.bind_eq_bind, Option.bind_some, htmp]
  exact hrun

/-! ### Lookups in both stores -/

/-- The group that a lookup finds in the list. -/
theorem find_snd (ps : List (ℕ × ReuseportGroup)) (randomId : UInt32) :
    Udpgrm.reuseportGroupLookup (ps.map Prod.snd) randomId =
      (ps.find? (fun q => q.2.randomId = randomId)).map Prod.snd := by
  rw [Udpgrm.reuseportGroupLookup, KeyedList.find, List.find?_map]
  rfl

/-- Where it is found, if it is. -/
theorem lookup_cases (h : Stored head m ps) (hfuel : ps.length < fuel) (randomId : UInt32) :
    (m.reuseportGroupLookup head fuel randomId = some none ∧
      Udpgrm.reuseportGroupLookup (ps.map Prod.snd) randomId = none) ∨
    ∃ before a g after, ps = before ++ (a, g) :: after ∧
      m.reuseportGroupLookup head fuel randomId = some (some a) ∧
      Udpgrm.reuseportGroupLookup (ps.map Prod.snd) randomId = some g ∧
      ∀ f, modifyGroup randomId f (ps.map Prod.snd) =
        before.map Prod.snd ++ (f g).toList ++ after.map Prod.snd := by
  rw [h.lookup hfuel, find_snd]
  cases hfind : ps.find? (fun q => q.2.randomId = randomId) with
  | none => exact .inl ⟨rfl, rfl⟩
  | some q =>
    obtain ⟨hid, before, after, rfl, hbefore⟩ := List.find?_eq_some_iff_append.mp hfind
    refine .inr ⟨before, q.1, q.2, after, rfl, rfl, rfl, fun f => ?_⟩
    rw [modifyGroup, List.map_append, List.map_cons, KeyedList.modify_append]
    · intro g hg
      obtain ⟨q', hq', rfl⟩ := List.mem_map.mp hg
      simpa using hbefore q' hq'
    · simpa using hid

theorem lookupOrAdd (h : Stored head m ps) (hfuel : ps.length < fuel) {fresh : ℕ}
    (hfresh : m.links.next fresh = none) (randomId : UInt32) (now : UInt64) :
    ∃ m' before a g after,
      m.reuseportGroupLookupOrAdd head fuel fresh randomId now = some (m', a) ∧
      Stored head m' (before ++ (a, g) :: after) ∧
      (before ++ (a, g) :: after).length ≤ ps.length + 1 ∧
      Udpgrm.reuseportGroupLookup
        (reuseportGroupLookupOrAdd (ps.map Prod.snd) randomId now) randomId = some g ∧
      ∀ f, modifyGroup randomId f (reuseportGroupLookupOrAdd (ps.map Prod.snd) randomId now) =
        before.map Prod.snd ++ (f g).toList ++ after.map Prod.snd := by
  rcases h.lookup_cases hfuel randomId with
    ⟨hlook, hnone⟩ | ⟨before, a, g, after, rfl, hlook, hfound, hmodify⟩
  · obtain ⟨links, hadd, h'⟩ := h.add hfresh ⟨randomId, now, fun _ => 0, fun _ _ => 0⟩
    refine ⟨_, [], fresh, _, ps, ?_, h', by simp, ?_, fun f => ?_⟩
    · rw [GroupMemory.reuseportGroupLookupOrAdd, hlook, Option.bind_eq_bind, Option.bind_some]
      simp only [hadd]
      rfl
    · simp only [Udpgrm.reuseportGroupLookupOrAdd, hnone]
      simp [Udpgrm.reuseportGroupLookup, KeyedList.find_cons]
    · simp [Udpgrm.reuseportGroupLookupOrAdd, hnone, modifyGroup, KeyedList.modify]
  · refine ⟨m, before, a, g, after, ?_, h, by omega, ?_⟩
    · rw [GroupMemory.reuseportGroupLookupOrAdd, hlook, Option.bind_eq_bind, Option.bind_some]
    · simp only [Udpgrm.reuseportGroupLookupOrAdd, hfound]
      exact ⟨trivial, hmodify⟩

end Stored

/-! ### Both stores side by side -/

/-- What the daemon does with its store. -/
inductive StoreOp
  | preserve (st : ReuseportStorage) (gen : UInt32) (genLen : ℕ) (freePos : Slot) (f : ℕ)
      (now : UInt64)
  | register (st : ReuseportStorage) (wg : Row) (tubularPath : Bool) (registerErr : ℕ)
  | cleanup (now : UInt64)

/-- What it gets: the return value, the descriptors that were closed, and the call to
`tubular_register`. -/
structure StoreEffect where
  ret : ℕ
  closed : List ℕ
  call : Option (Row × List Int)
deriving DecidableEq

namespace StoreOp

def onList : StoreOp → TubularStore → TubularStore × StoreEffect
  | .preserve st gen genLen freePos f now, l =>
    match tubularMaybePreserveFd l st gen genLen freePos f now with
    | none => (l, ⟨1, [], none⟩)
    | some (l, closed) => (l, ⟨0, closed, none⟩)
  | .register st wg tubularPath registerErr, l =>
    let h := tubularMaybeRegister l st wg tubularPath registerErr
    (h.store, ⟨h.err, h.closed, h.call⟩)
  | .cleanup now, l =>
    let (l, closed) := reuseportGroupsMaybeCleanupStale now l
    (l, ⟨0, closed, none⟩)

def inMemory (head fuel fresh : ℕ) : StoreOp → GroupMemory → Option (GroupMemory × StoreEffect)
  | .preserve st gen genLen freePos f now, m => do
    let r ← m.tubularMaybePreserveFd head fuel fresh st gen genLen freePos f now
    match r with
    | none => some (m, ⟨1, [], none⟩)
    | some (m, closed) => some (m, ⟨0, closed, none⟩)
  | .register st wg tubularPath registerErr, m => do
    let (err, m, closed, call) ← m.tubularMaybeRegister head fuel st wg tubularPath registerErr
    some (m, ⟨err, closed, call⟩)
  | .cleanup now, m => do
    let (m, closed) ← m.reuseportGroupsMaybeCleanupStale head fuel now
    some (m, ⟨0, closed, none⟩)

variable {head fuel fresh : ℕ} {m : GroupMemory} {ps : List (ℕ × ReuseportGroup)}

/-- The operation runs to its end in memory, with the same effect, and leaves the same groups. -/
def Agrees (head fuel fresh : ℕ) (m : GroupMemory) (ps : List (ℕ × ReuseportGroup))
    (op : StoreOp) : Prop :=
  ∃ m' ps', op.inMemory head fuel fresh m = some (m', (op.onList (ps.map Prod.snd)).2) ∧
    Stored head m' ps' ∧ ps'.map Prod.snd = (op.onList (ps.map Prod.snd)).1 ∧
    ps'.length ≤ ps.length + 1

theorem agrees_preserve (h : Stored head m ps) (hfuel : ps.length < fuel)
    (hfresh : m.links.next fresh = none) (st : ReuseportStorage) (gen : UInt32) (genLen : ℕ)
    (freePos : Slot) (f : ℕ) (now : UInt64) :
    Agrees head fuel fresh m ps (.preserve st gen genLen freePos f now) := by
  unfold Agrees
  simp only [inMemory, onList, GroupMemory.tubularMaybePreserveFd, tubularMaybePreserveFd]
  by_cases hlabel : st.dis.labelled = true
  · obtain ⟨m', before, a, g, after, hadd, h', hlen, hfound, hmodify⟩ :=
      h.lookupOrAdd hfuel hfresh st.randomId now
    refine ⟨m'.write a (g.preserve gen genLen freePos f now).1, _, ?_, h'.write _, ?_, ?_⟩
    · simp only [if_pos hlabel, hadd, hfound, Option.bind_eq_bind, Option.bind_some, h'.mem_groups]
    · simp only [if_pos hlabel, hfound, hmodify]
      simp
    · simpa using hlen
  · simp only [if_neg hlabel]
    exact ⟨m, ps, rfl, h, rfl, by omega⟩

theorem agrees_register (h : Stored head m ps) (hfuel : ps.length < fuel) (st : ReuseportStorage)
    (wg : Row) (tubularPath : Bool) (registerErr : ℕ) :
    Agrees head fuel fresh m ps (.register st wg tubularPath registerErr) := by
  unfold Agrees
  simp only [inMemory, onList, GroupMemory.tubularMaybeRegister, tubularMaybeRegister]
  by_cases hlabel : st.dis.labelled = true
  · simp only [if_pos hlabel]
    rcases h.lookup_cases hfuel st.randomId with ⟨hlook, hnone⟩ | ⟨before, a, g, after, rfl, hlook,
      hfound, hmodify⟩
    · simp only [hlook, hnone, Option.bind_eq_bind, Option.bind_some]
      exact ⟨m, ps, rfl, h, rfl, by omega⟩
    · obtain ⟨m', hdel, h'⟩ := (h.write (tubularCloseWg g wg).1).maybeDelete
      refine ⟨m', _, ?_, h', ?_, ?_⟩
      · simp only [hlook, hfound, Option.bind_eq_bind, Option.bind_some, h.mem_groups, hdel]
      · simp only [hfound, hmodify]
        cases reuseportGroupMaybeDelete (tubularCloseWg g wg).1 <;> simp
      · cases reuseportGroupMaybeDelete (tubularCloseWg g wg).1 with
        | none =>
          simp
          omega
        | some g' => simp
  · simp only [if_neg hlabel]
    exact ⟨m, ps, rfl, h, rfl, by omega⟩

theorem agrees_cleanup (h : Stored head m ps) (hfuel : ps.length < fuel) (now : UInt64) :
    Agrees head fuel fresh m ps (.cleanup now) := by
  unfold Agrees
  obtain ⟨m', hrun, h'⟩ := h.cleanup hfuel now
  refine ⟨m', _, ?_, h', ?_, ?_⟩
  · simp only [inMemory, hrun, Option.bind_eq_bind, Option.bind_some, onList]
  · exact Stored.filter_snd now ps
  · exact (List.length_filter_le ..).trans (by omega)

theorem agrees (h : Stored head m ps) (hfuel : ps.length < fuel)
    (hfresh : m.links.next fresh = none) (op : StoreOp) : Agrees head fuel fresh m ps op := by
  cases op with
  | preserve st gen genLen freePos f now =>
    exact agrees_preserve h hfuel hfresh st gen genLen freePos f now
  | register st wg tubularPath registerErr =>
    exact agrees_register h hfuel st wg tubularPath registerErr
  | cleanup now => exact agrees_cleanup h hfuel now

end StoreOp

/-! ### Runs -/

/-- One operation in memory, and the address that `calloc` would return, which is not in use. -/
def storeStep (head fuel : ℕ) (m : GroupMemory) (x : StoreOp × ℕ) : Option GroupMemory :=
  if m.links.next x.2 = none then (x.1.inMemory head fuel x.2 m).map Prod.fst else none

/-- The same operations on the list. -/
def StoreOp.onLists (l : TubularStore) (xs : List (StoreOp × ℕ)) : TubularStore :=
  xs.foldl (fun l x => (x.1.onList l).1) l

section Runs

variable {head fuel : ℕ} {m m' : GroupMemory} {ps : List (ℕ × ReuseportGroup)}
  {xs : List (StoreOp × ℕ)}

theorem stored_run (hrun : Transition.Run (.ofFn (storeStep head fuel)) m xs m')
    (h : Stored head m ps) (hfuel : ps.length + xs.length < fuel) :
    ∃ ps', Stored head m' ps' ∧ ps'.map Prod.snd = StoreOp.onLists (ps.map Prod.snd) xs ∧
      ps'.length ≤ ps.length + xs.length := by
  induction hrun generalizing ps with
  | refl => exact ⟨ps, h, rfl, le_rfl⟩
  | @stepL m u _ x xs hstep _ ih =>
    simp only [List.length_cons] at hfuel ⊢
    have hstep : storeStep head fuel m x = some u := hstep
    unfold storeStep at hstep
    split_ifs at hstep with hfresh
    have hroom : ps.length < fuel := by omega
    obtain ⟨u', ps₁, hrun₁, h₁, hlist, hlen⟩ := StoreOp.agrees h hroom hfresh x.1
    rw [hrun₁] at hstep
    obtain rfl : u' = u := Option.some.inj hstep
    obtain ⟨ps', h', hlist', hlen'⟩ := ih h₁ (by omega)
    refine ⟨ps', h', ?_, by omega⟩
    rw [hlist', hlist]
    rfl

/-- Whatever the daemon has done with its store, and wherever its groups were allocated: the list in
memory holds the groups of the model, nothing else is allocated, and the next operation touches only
allocated memory, ends, and has the effect that the model has. -/
theorem pointer_list_refines_store
    (hrun : Transition.Run (.ofFn (storeStep head fuel)) (.initial head) xs m)
    (hfuel : xs.length < fuel) :
    ∃ ps, Stored head m ps ∧ ps.map Prod.snd = StoreOp.onLists [] xs ∧
      m.reuseportGroupsEmpty head = some (StoreOp.onLists [] xs).isEmpty ∧
      ∀ op fresh, m.links.next fresh = none →
        ∃ m', StoreOp.inMemory head fuel fresh op m =
          some (m', (op.onList (StoreOp.onLists [] xs)).2) := by
  obtain ⟨ps, h, hlist, hlen⟩ := stored_run hrun (.initial head) (by simpa using hfuel)
  refine ⟨ps, h, hlist, ?_, fun op fresh hfresh => ?_⟩
  · rw [GroupMemory.reuseportGroupsEmpty, ListHead.listEmpty_eq h.list, ← List.map_nil, ← hlist]
    cases ps <;> rfl
  · have hroom : ps.length < fuel := by
      rw [List.length_nil] at hlen
      omega
    obtain ⟨m', ps', hop, -⟩ := StoreOp.agrees h hroom hfresh op
    rw [hlist] at hop
    exact ⟨m', hop⟩

/-- A group with the label "a". -/
def labelledState : ReuseportStorage :=
  { emptyState with
    dis := { Dissector.empty with label := Vector.ofFn fun i => if i = 0 then 0x61 else 0 } }

/-- Descriptor 5 is preserved in a group at address 2, and everything is fresh at time 7. -/
def preserveRun : List (StoreOp × ℕ) :=
  [(.preserve labelledState 0 1 0 5 7, 2), (.cleanup 7, 3)]

theorem pointer_list_refines_store_kept : ∃ m,
    Transition.Run (.ofFn (storeStep 1 3)) (.initial 1) preserveRun m ∧
      m.reuseportGroupsEmpty 1 = some false ∧
      ∃ m', StoreOp.inMemory 1 3 3 (.register labelledState 0 true 0) m =
        some (m', ⟨0, [5], some (0, [5])⟩) := by
  obtain ⟨m, hrun, hfree⟩ := Transition.run_of_any (storeStep 1 3) (.initial 1) preserveRun
    (fun m : GroupMemory => (m.links.next 3).isNone) (by decide +kernel)
  obtain ⟨ps, -, -, hempty, hnext⟩ := pointer_list_refines_store hrun (by decide)
  obtain ⟨m', hm'⟩ := hnext (.register labelledState 0 true 0) 3 (by simpa using hfree)
  exact ⟨m, hrun, hempty, m', hm'.trans (congrArg (fun e => some (m', e)) (by decide +kernel))⟩

/-- There is always an address left. -/
theorem Stored.exists_fresh (h : Stored head m ps) : ∃ fresh, m.links.next fresh = none := by
  obtain ⟨fresh, hfresh⟩ := Infinite.exists_notMem_finset (head :: ps.map Prod.fst).toFinset
  rw [List.mem_toFinset, h.list.mem_iff] at hfresh
  exact ⟨fresh, by simpa using hfresh⟩

theorem exists_run (ops : List StoreOp) (h : Stored head m ps)
    (hfuel : ps.length + ops.length < fuel) :
    ∃ xs m', xs.map Prod.fst = ops ∧ Transition.Run (.ofFn (storeStep head fuel)) m xs m' := by
  induction ops generalizing m ps with
  | nil => exact ⟨[], m, rfl, .refl⟩
  | cons op ops ih =>
    rw [List.length_cons] at hfuel
    obtain ⟨fresh, hfresh⟩ := h.exists_fresh
    have hroom : ps.length < fuel := by omega
    obtain ⟨u, ps₁, hop, h₁, -, hlen⟩ := StoreOp.agrees h hroom hfresh op
    obtain ⟨xs, m', rfl, hrun⟩ := ih h₁ (by omega)
    refine ⟨(op, fresh) :: xs, m', rfl, .stepL ?_ hrun⟩
    exact show storeStep head fuel m (op, fresh) = some u by
      rw [storeStep, if_pos hfresh, hop, Option.map_some]

end Runs

/-! ### The store of the daemon -/

/-- A step of the system leaves the store alone, ends the daemon, or is one operation on it. -/
theorem store_op {p : Programs} {s t : Sys} {a : Action} (h : execute p s a = some t) :
    t.tubular = s.tubular ∨ t.tubular = [] ∨
      ∃ op : StoreOp, t.tubular = (op.onList s.tubular).1 := by
  cases execute_effect h with
  | socket | close | delete | ignored | notFound => exact .inl rfl
  | bind => exact .inl (bpfBind_store ..).1
  | setsockopt => exact .inl (setsockopt_store (udpgrmSetsockopt_effect p _ (s.tick _) _ _)).1
  | sendmsg => exact .inl (udpSendmsg_store ..).1
  | packet => exact .inl (receive_store ..).1
  | crashed => exact .inr (.inl rfl)
  | @cleanup now => exact .inr (.inr ⟨.cleanup now, rfl⟩)
  | @announced env k app gen rest st =>
    exact .inr (.inr ⟨.register st (genRow gen) env.tubularPath env.registerErr, rfl⟩)
  | @accepted env _ hacc =>
    refine .inr (.inr ⟨.preserve hacc.st hacc.wg hacc.len
      (Fin.ofNat MAX_SOCKETS_IN_GEN hacc.pos) hacc.f env.now, ?_⟩)
    refine (congrArg Sys.tubular hacc.after_eq).trans ?_
    have htick : (s.tick env.now).tubular = s.tubular := rfl
    simp only [acceptSocket, StoreOp.onList, htick]
    cases tubularMaybePreserveFd s.tubular hacc.st hacc.wg hacc.len
      (Fin.ofNat MAX_SOCKETS_IN_GEN hacc.pos) hacc.f env.now <;> rfl

theorem store_ops {p : Programs} {s : Sys} {as : List Action} (h : Run p Sys.initial as s) :
    ∃ ops : List StoreOp, s.tubular = ops.foldl (fun l op => (op.onList l).1) [] := by
  have hstep : ∀ {s a t}, (system p).Tr s a t →
      (∃ ops : List StoreOp, s.tubular = ops.foldl (fun l op => (op.onList l).1) []) →
      ∃ ops : List StoreOp, t.tubular = ops.foldl (fun l op => (op.onList l).1) [] := by
    rintro s a t htr ⟨ops, hops⟩
    rcases store_op htr with ht | ht | ⟨op, ht⟩
    · exact ⟨ops, ht.trans hops⟩
    · exact ⟨[], ht⟩
    · exact ⟨ops ++ [op], by rw [ht, hops, List.foldl_append]; rfl⟩
  exact h.inv hstep ⟨[], rfl⟩

/-- The store of the daemon in any state of the system is what the list in memory can hold. -/
theorem daemon_store_in_memory {p : Programs} {s : Sys} {as : List Action}
    (h : Run p Sys.initial as s) (head : ℕ) : ∃ fuel xs m ps,
      Transition.Run (.ofFn (storeStep head fuel)) (.initial head) xs m ∧ xs.length < fuel ∧
        Stored head m ps ∧ ps.map Prod.snd = s.tubular := by
  obtain ⟨ops, hops⟩ := store_ops h
  have hlength : ([] : List (ℕ × ReuseportGroup)).length + ops.length < ops.length + 1 := by simp
  obtain ⟨xs, m, rfl, hrun⟩ := exists_run ops (Stored.initial head) hlength
  rw [List.length_map] at hrun hlength
  obtain ⟨ps, hstored, hlist, -⟩ := stored_run hrun (.initial head) hlength
  refine ⟨_, xs, m, ps, hrun, by omega, hstored, ?_⟩
  rw [hlist, hops, StoreOp.onLists, List.foldl_map]
  rfl

theorem daemon_store_in_memory_handover : ∃ s, Run .const Sys.initial handoverRun s ∧
    s.tubular.length = 1 ∧ ∃ fuel xs m ps,
      Transition.Run (.ofFn (storeStep 1 fuel)) (.initial 1) xs m ∧ xs.length < fuel ∧
        Stored 1 m ps ∧ ps.map Prod.snd = s.tubular := by
  obtain ⟨s, hs, hx⟩ := Transition.run_of_any (execute .const) Sys.initial handoverRun
    (fun s : Sys => decide (s.tubular.length = 1)) (by decide +kernel)
  exact ⟨s, hs, of_decide_eq_true hx, daemon_store_in_memory hs 1⟩

end Udpgrm
