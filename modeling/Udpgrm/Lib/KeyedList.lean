import Mathlib.Data.List.Nodup
import Mathlib.Tactic.Common

/-! Lists in which at most one element carries each key. -/
namespace KeyedList

variable {α κ : Type*} [DecidableEq κ] {key : α → κ} {k k' : κ} {x y : α} {l : List α}
  {f : α → Option α}

def find (key : α → κ) (k : κ) (l : List α) : Option α := l.find? fun x => decide (key x = k)

/-- Rewrite the first element with a key, or drop it. -/
def modify (key : α → κ) (k : κ) (f : α → Option α) : List α → List α
  | [] => []
  | x :: l => if key x = k then (f x).toList ++ l else x :: modify key k f l

def Unique (key : α → κ) (l : List α) : Prop := (l.map key).Nodup

theorem find_cons : find key k (x :: l) = if key x = k then some x else find key k l := by
  by_cases h : key x = k <;> simp [find, h]

theorem find_key (h : find key k l = some x) : key x = k := by
  simpa using List.find?_some h

theorem find_mem (h : find key k l = some x) : x ∈ l := List.mem_of_find?_eq_some h

theorem find_eq_none_iff : find key k l = none ↔ k ∉ l.map key := by
  simp [find, List.find?_eq_none]

theorem find_of_mem (hu : Unique key l) (hx : x ∈ l) : find key (key x) l = some x := by
  induction l with
  | nil => cases hx
  | cons y l ih =>
    rw [Unique, List.map_cons, List.nodup_cons] at hu
    rw [find_cons]
    rcases List.mem_cons.mp hx with rfl | hx
    · simp
    · have hne : key y ≠ key x := fun he => hu.1 (he ▸ List.mem_map_of_mem hx)
      rw [if_neg hne, ih hu.2 hx]

/-- What comes before the first element with a key, and behind it, stays. -/
theorem modify_append {l' : List α} (hl : ∀ y ∈ l, key y ≠ k) (hx : key x = k) :
    modify key k f (l ++ x :: l') = l ++ (f x).toList ++ l' := by
  induction l with
  | nil => simp [modify, hx]
  | cons y l ih =>
    rw [List.cons_append, modify, if_neg (hl y List.mem_cons_self),
      ih fun z hz => hl z (List.mem_cons_of_mem y hz)]
    rfl

/-- With unique keys, rewriting one element is a pass over the whole list. -/
theorem modify_eq_filterMap (hu : Unique key l) :
    modify key k f l = l.filterMap fun x => if key x = k then f x else some x := by
  induction l with
  | nil => rfl
  | cons x l ih =>
    rw [Unique, List.map_cons, List.nodup_cons] at hu
    by_cases hx : key x = k
    · have hrest : (l.filterMap fun x => if key x = k then f x else some x) = l := by
        rw [List.filterMap_congr (g := some), List.filterMap_some]
        intro y hy
        have hne : key y ≠ k := fun he => hu.1 (hx.trans he.symm ▸ List.mem_map_of_mem hy)
        simp [hne]
      cases hf : f x <;> simp [modify, hx, hf, hrest]
    · simp [modify, hx, ih hu.2]

section FilterMap

variable (hf : ∀ x y, f x = some y → key y = key x)

include hf

omit [DecidableEq κ] in
theorem unique_filterMap (hu : Unique key l) : Unique key (l.filterMap f) := by
  induction l with
  | nil => exact hu
  | cons x l ih =>
    rw [Unique, List.map_cons, List.nodup_cons] at hu
    rw [List.filterMap_cons]
    cases hx : f x with
    | none => exact ih hu.2
    | some y =>
      rw [Unique, List.map_cons, List.nodup_cons]
      refine ⟨fun hy => hu.1 ?_, ih hu.2⟩
      obtain ⟨z, hz, hzy⟩ := List.mem_map.mp hy
      obtain ⟨w, hw, hwz⟩ := List.mem_filterMap.mp hz
      rw [← hf x y hx, ← hzy, hf w z hwz]
      exact List.mem_map_of_mem hw

theorem find_filterMap (hu : Unique key l) :
    find key k (l.filterMap f) = (find key k l).bind f := by
  induction l with
  | nil => rfl
  | cons x l ih =>
    rw [Unique, List.map_cons, List.nodup_cons] at hu
    rw [List.filterMap_cons, find_cons]
    by_cases hx : key x = k
    · have hnone : find key k l = none := find_eq_none_iff.mpr (hx ▸ hu.1)
      cases hy : f x with
      | none => simp [hx, hy, ih hu.2, hnone]
      | some y => simp [hx, hy, find_cons, hf x y hy]
    · cases hy : f x with
      | none => simp [hx, ih hu.2]
      | some y => simp [hx, find_cons, hf x y hy, ih hu.2]

theorem unique_modify (hu : Unique key l) : Unique key (modify key k f l) := by
  rw [modify_eq_filterMap hu]
  refine unique_filterMap (fun x y hxy => ?_) hu
  split at hxy
  · exact hf x y hxy
  · rw [Option.some.inj hxy]

theorem find_modify (hu : Unique key l) :
    find key k' (modify key k f l) =
      if k' = k then (find key k l).bind f else find key k' l := by
  rw [modify_eq_filterMap hu, find_filterMap _ hu]
  · cases hx : find key k' l with
    | none =>
      by_cases hk : k' = k
      · subst hk
        simp [hx]
      · simp [hk]
    | some x =>
      have hkey := find_key hx
      by_cases hk : k' = k
      · subst hk
        simp [hx, hkey]
      · simp [hkey, hk]
  · intro x y hxy
    split at hxy
    · exact hf x y hxy
    · rw [Option.some.inj hxy]

end FilterMap

end KeyedList
