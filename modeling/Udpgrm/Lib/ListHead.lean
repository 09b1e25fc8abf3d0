import Mathlib.Data.List.Nodup
import Mathlib.Tactic.Common

/-!
Circular doubly linked lists of nodes in memory. A node is two pointers, and a list is a head and
the nodes between it and itself. An access to a node that is not there fails.
-/
namespace ListHead

variable {α : Type*} [DecidableEq α]

/-- The pointers of the nodes that are allocated. -/
structure Heap (α : Type*) where
  next : α → Option α
  prev : α → Option α

namespace Heap

def setNext (h : Heap α) (a v : α) : Option (Heap α) :=
  (h.next a).map fun _ => { h with next := Function.update h.next a (some v) }

def setPrev (h : Heap α) (a v : α) : Option (Heap α) :=
  (h.prev a).map fun _ => { h with prev := Function.update h.prev a (some v) }

/-- A new node, whose pointers are to be set. -/
def alloc (h : Heap α) (a v : α) : Heap α :=
  ⟨Function.update h.next a (some v), Function.update h.prev a (some v)⟩

def free (h : Heap α) (a : α) : Heap α :=
  ⟨Function.update h.next a none, Function.update h.prev a none⟩

/-- `__list_add`: a new node between two known neighbours. -/
def addBetween (h : Heap α) (new prev next : α) : Option (Heap α) := do
  let h ← h.setPrev next new
  let h ← h.setNext new next
  let h ← h.setPrev new prev
  h.setNext prev new

def listAdd (h : Heap α) (new head : α) : Option (Heap α) := do
  let next ← h.next head
  h.addBetween new head next

/-- `__list_del`: two nodes become neighbours. -/
def delBetween (h : Heap α) (prev next : α) : Option (Heap α) := do
  let h ← h.setPrev next prev
  h.setNext prev next

/-- The pointers of a deleted node are poisoned. -/
def listDel (poison1 poison2 : α) (h : Heap α) (entry : α) : Option (Heap α) := do
  let prev ← h.prev entry
  let next ← h.next entry
  let h ← h.delBetween prev next
  let h ← h.setNext entry poison1
  h.setPrev entry poison2

def listEmpty (h : Heap α) (head : α) : Option Bool := (h.next head).map fun a => decide (a = head)

/-! ### Accesses to nodes that are there -/

variable {h : Heap α} {a : α}

theorem setNext_of_isSome (ha : (h.next a).isSome) (v : α) :
    h.setNext a v = some { h with next := Function.update h.next a (some v) } := by
  obtain ⟨b, hb⟩ := Option.isSome_iff_exists.mp ha
  rw [setNext, hb, Option.map_some]

theorem setPrev_of_isSome (ha : (h.prev a).isSome) (v : α) :
    h.setPrev a v = some { h with prev := Function.update h.prev a (some v) } := by
  obtain ⟨b, hb⟩ := Option.isSome_iff_exists.mp ha
  rw [setPrev, hb, Option.map_some]

theorem update_isSome {f : α → Option α} {b v : α} (ha : (f a).isSome) :
    (Function.update f b (some v) a).isSome := by
  by_cases hab : a = b
  · rw [hab, Function.update_self]
    rfl
  · rwa [Function.update_of_ne hab]

theorem addBetween_eq {new prev next : α} (hnext : (h.prev next).isSome)
    (hnew : (h.next new).isSome) (hnew' : (h.prev new).isSome) (hprev : (h.next prev).isSome) :
    h.addBetween new prev next =
      some ⟨Function.update (Function.update h.next new (some next)) prev (some new),
        Function.update (Function.update h.prev next (some new)) new (some prev)⟩ := by
  simp only [addBetween, Option.bind_eq_bind]
  rw [setPrev_of_isSome hnext, Option.bind_some, setNext_of_isSome, Option.bind_some,
    setPrev_of_isSome, Option.bind_some, setNext_of_isSome]
  · exact update_isSome hprev
  · exact update_isSome hnew'
  · exact hnew

theorem listDel_eq {entry prev next poison1 poison2 : α} (hprev : h.prev entry = some prev)
    (hnext : h.next entry = some next) (hprev' : (h.next prev).isSome)
    (hnext' : (h.prev next).isSome) :
    h.listDel poison1 poison2 entry =
      some ⟨Function.update (Function.update h.next prev (some next)) entry (some poison1),
        Function.update (Function.update h.prev next (some prev)) entry (some poison2)⟩ := by
  have hentry : (h.next entry).isSome ∧ (h.prev entry).isSome := by
    rw [hprev, hnext]
    exact ⟨rfl, rfl⟩
  simp only [listDel, hprev, hnext, Option.bind_eq_bind, Option.bind_some, delBetween]
  rw [setPrev_of_isSome hnext', Option.bind_some, setNext_of_isSome, Option.bind_some,
    setNext_of_isSome, Option.bind_some, setPrev_of_isSome]
  · exact update_isSome hentry.2
  · exact update_isSome hentry.1
  · exact hprev'

end Heap

/-! ### Paths -/

/-- Two neighbours point at each other. -/
def Edge (h : Heap α) (a b : α) : Prop := h.next a = some b ∧ h.prev b = some a

/-- From `a` over the nodes in between to `b`. -/
def Path (h : Heap α) : α → List α → α → Prop
  | a, [], b => Edge h a b
  | a, x :: xs, b => Edge h a x ∧ Path h x xs b

section Path

variable {h h' : Heap α} {a b e : α} {xs ys : List α}

omit [DecidableEq α] in
theorem path_append : Path h a (xs ++ e :: ys) b ↔ Path h a xs e ∧ Path h e ys b := by
  induction xs generalizing a with
  | nil => rfl
  | cons x xs ih => simp only [List.cons_append, Path, ih, and_assoc]

omit [DecidableEq α] in
/-- A path stays where its pointers stay. -/
theorem Path.frame (hp : Path h a xs b) (hnext : ∀ c ∈ a :: xs, h'.next c = h.next c)
    (hprev : ∀ c ∈ xs ++ [b], h'.prev c = h.prev c) : Path h' a xs b := by
  induction xs generalizing a with
  | nil =>
    obtain ⟨ha, hb⟩ := hp
    exact ⟨(hnext a List.mem_cons_self).trans ha, (hprev b (by simp)).trans hb⟩
  | cons x xs ih =>
    obtain ⟨⟨ha, hx⟩, hp⟩ := hp
    refine ⟨⟨(hnext a List.mem_cons_self).trans ha, (hprev x (by simp)).trans hx⟩, ih hp ?_ ?_⟩
    · exact fun c hc => hnext c (List.mem_cons_of_mem a hc)
    · exact fun c hc => hprev c (List.mem_cons_of_mem x hc)

omit [DecidableEq α] in
/-- The first step of a path. -/
theorem Path.next_eq (hp : Path h a xs b) : h.next a = (xs ++ [b]).head? := by
  cases xs with
  | nil => exact hp.1
  | cons x xs => exact hp.1.1

omit [DecidableEq α] in
/-- The last step of a path, from the other side. -/
theorem Path.prev_eq (hp : Path h a xs b) : h.prev b = (a :: xs).getLast? := by
  induction xs generalizing a with
  | nil => exact hp.2
  | cons x xs ih => rw [ih hp.2, List.getLast?_cons_cons]

omit [DecidableEq α] in
theorem Path.next_isSome (hp : Path h a xs b) : ∀ c ∈ a :: xs, (h.next c).isSome := by
  induction xs generalizing a with
  | nil =>
    intro c hc
    rw [List.mem_singleton.mp hc, hp.1]
    rfl
  | cons x xs ih =>
    intro c hc
    rcases List.mem_cons.mp hc with rfl | hc
    · rw [hp.1.1]
      rfl
    · exact ih hp.2 c hc

omit [DecidableEq α] in
theorem Path.prev_isSome (hp : Path h a xs b) : ∀ c ∈ xs ++ [b], (h.prev c).isSome := by
  induction xs generalizing a with
  | nil =>
    intro c hc
    rw [List.mem_singleton.mp hc, hp.2]
    rfl
  | cons x xs ih =>
    intro c hc
    rcases List.mem_cons.mp hc with rfl | hc
    · rw [hp.1.2]
      rfl
    · exact ih hp.2 c hc

omit [DecidableEq α] in
/-- What is left when the node between two paths is bridged. -/
theorem Path.bridge {p n : α} (hp : Path h a xs e) (hq : Path h e ys b)
    (hnd : (a :: xs ++ e :: ys).Nodup) (hnd' : (xs ++ e :: ys ++ [b]).Nodup)
    (hlast : (a :: xs).getLast? = some p) (hfirst : (ys ++ [b]).head? = some n)
    (hpn : h'.next p = some n) (hnp : h'.prev n = some p)
    (hnext : ∀ c, c ≠ p → c ≠ e → h'.next c = h.next c)
    (hprev : ∀ c, c ≠ n → c ≠ e → h'.prev c = h.prev c) : Path h' a (xs ++ ys) b := by
  induction xs generalizing a with
  | nil =>
    obtain rfl : a = p := by simpa using hlast
    cases ys with
    | nil =>
      obtain rfl : b = n := by simpa using hfirst
      exact ⟨hpn, hnp⟩
    | cons y ys =>
      obtain rfl : y = n := by simpa using hfirst
      refine ⟨⟨hpn, hnp⟩, hq.2.frame (fun c hc => hnext c ?_ ?_) (fun c hc => hprev c ?_ ?_)⟩
      · exact ne_of_mem_of_not_mem hc (by grind)
      · exact ne_of_mem_of_not_mem hc (by grind)
      · exact ne_of_mem_of_not_mem hc (by grind)
      · exact ne_of_mem_of_not_mem hc (by grind)
  | cons x xs ih =>
    rw [List.getLast?_cons_cons] at hlast
    have hpmem : p ∈ x :: xs := List.mem_of_getLast? hlast
    have hnmem : n ∈ ys ++ [b] := List.mem_of_head? hfirst
    refine ⟨⟨?_, ?_⟩, ih hp.2 (by grind) (by grind) hlast⟩
    · rw [hnext a (by grind) (by grind), hp.1.1]
    · rw [hprev x (by grind) (by grind), hp.1.2]

end Path

/-! ### Lists -/

/-- The heap is a list: its nodes are the head and the ones on the way around. -/
structure IsList (h : Heap α) (head : α) (xs : List α) : Prop where
  nodup : (head :: xs).Nodup
  path : Path h head xs head
  only : ∀ a, a ∉ head :: xs → h.next a = none ∧ h.prev a = none

section IsList

variable {h : Heap α} {head e : α} {xs ys : List α}

omit [DecidableEq α] in
theorem IsList.prev_isSome (hl : IsList h head xs) {a : α} (ha : a ∈ head :: xs) :
    (h.prev a).isSome := by
  apply hl.path.prev_isSome
  rcases List.mem_cons.mp ha with rfl | ha
  · exact List.mem_append_right _ List.mem_cons_self
  · exact List.mem_append_left _ ha

omit [DecidableEq α] in
/-- The nodes are what is allocated. -/
theorem IsList.mem_iff (hl : IsList h head xs) {a : α} : a ∈ head :: xs ↔ (h.next a).isSome := by
  constructor
  · exact hl.path.next_isSome a
  · intro ha
    by_contra hnot
    rw [(hl.only a hnot).1] at ha
    cases ha

theorem listEmpty_eq (hl : IsList h head xs) : h.listEmpty head = some xs.isEmpty := by
  rw [Heap.listEmpty, hl.path.next_eq]
  cases xs with
  | nil => simp
  | cons x xs =>
    have hne : x ≠ head := fun he => (List.nodup_cons.mp hl.nodup).1 (he ▸ List.mem_cons_self)
    simp [hne]

omit [DecidableEq α] in
theorem exists_next (xs : List α) (head : α) :
    ∃ n, (xs ++ [head]).head? = some n ∧ n ∈ head :: xs := by
  cases xs with
  | nil => exact ⟨head, rfl, List.mem_cons_self⟩
  | cons x xs => exact ⟨x, rfl, by simp⟩

/-- A node just allocated is added in front. -/
theorem listAdd_alloc (hl : IsList h head xs) {new : α} (hnew : new ∉ head :: xs) (v : α) :
    ∃ h', (h.alloc new v).listAdd new head = some h' ∧ IsList h' head (new :: xs) := by
  obtain ⟨n, hn, hnmem⟩ := exists_next xs head
  have hnne : n ≠ new := fun he => hnew (he ▸ hnmem)
  have hhne : head ≠ new := fun he => hnew (he ▸ List.mem_cons_self)
  have hfirst : (h.alloc new v).next head = some n := by
    rw [← hn, ← hl.path.next_eq]
    simp [Heap.alloc, hhne]
  have hadd : (h.alloc new v).addBetween new head n = _ :=
    Heap.addBetween_eq (Heap.update_isSome (hl.prev_isSome hnmem)) (by simp [Heap.alloc])
      (by simp [Heap.alloc]) (by rw [hfirst]; rfl)
  refine ⟨_, by rw [Heap.listAdd, hfirst]; exact hadd, ?_, ⟨?_, ?_⟩, ?_⟩
  · grind [hl.nodup]
  · simp [Edge]
  · cases xs with
    | nil =>
      obtain rfl : head = n := by simpa using hn
      simp [Path, Edge, hhne, hhne.symm]
    | cons y ys =>
      obtain rfl : y = n := by simpa using hn
      refine ⟨by simp [Edge, hhne.symm, hnne], hl.path.2.frame ?_ ?_⟩
      · intro c hc
        have hne : c ≠ head ∧ c ≠ new := by grind [hl.nodup]
        simp [Heap.alloc, hne.1, hne.2]
      · intro c hc
        have hne : c ≠ y ∧ c ≠ new := by grind [hl.nodup]
        simp [Heap.alloc, hne.1, hne.2]
  · intro a ha
    have hne : a ≠ head ∧ a ≠ n ∧ a ≠ new := by grind
    have hnone := hl.only a (by grind)
    simp [Heap.alloc, hne.1, hne.2.1, hne.2.2, hnone.1, hnone.2]

/-- A node is unlinked and freed. -/
theorem free_listDel {poison1 poison2 : α} (hl : IsList h head (xs ++ e :: ys)) :
    ∃ h', h.listDel poison1 poison2 e = some h' ∧ IsList (h'.free e) head (xs ++ ys) := by
  obtain ⟨hp, hq⟩ := path_append.mp hl.path
  obtain ⟨n, hn, hnmem⟩ := exists_next ys head
  obtain ⟨p, hlast⟩ : ∃ p, (head :: xs).getLast? = some p :=
    ⟨_, List.getLast?_eq_getLast_of_ne_nil (by simp)⟩
  have hpmem : p ∈ head :: xs := List.mem_of_getLast? hlast
  have hnodup := hl.nodup
  have hpe : p ≠ e := by grind
  have hne : n ≠ e := by grind
  have hdel : h.listDel poison1 poison2 e = _ :=
    Heap.listDel_eq (hp.prev_eq.trans hlast) (hq.next_eq.trans hn) (hp.next_isSome p hpmem)
      (hl.prev_isSome (by grind))
  refine ⟨_, hdel, by grind, ?_, ?_⟩
  · apply hp.bridge hq hnodup (by grind) hlast hn
    · simp [Heap.free, hpe]
    · simp [Heap.free, hne]
    · intro c hcp hce
      simp [Heap.free, hcp, hce]
    · intro c hcn hce
      simp [Heap.free, hcn, hce]
  · intro a ha
    by_cases hae : a = e
    · simp [Heap.free, hae]
    · have hap : a ≠ p := by grind
      have han : a ≠ n := by grind
      have hnone := hl.only a (by grind)
      simp [Heap.free, hae, hap, han, hnone.1, hnone.2]

end IsList

end ListHead
