import Mathlib.Algebra.Order.Ring.Nat
import Mathlib.Tactic.Common

/-!
One pass over a row of slots, each of them live or free. The pass remembers the
first free slot and the length of the prefix that covers that slot and every
live one.
-/
namespace SlotScan

variable {live live' : ℕ → Bool} {n i f : ℕ}

def step (live : ℕ → Bool) (r : Option ℕ × ℕ) (i : ℕ) : Option ℕ × ℕ :=
  if live i then (r.1, i + 1)
  else match r.1 with
    | none => (some i, i + 1)
    | some _ => r

def scan (live : ℕ → Bool) (n : ℕ) : Option ℕ × ℕ :=
  (List.range n).foldl (step live) (none, 0)

@[simp] theorem scan_zero : scan live 0 = (none, 0) := rfl

theorem scan_succ : scan live (n + 1) = step live (scan live n) n := by
  simp [scan, List.range_succ]

theorem scan_congr (h : ∀ i < n, live i = live' i) : scan live n = scan live' n := by
  induction n with
  | zero => rfl
  | succ n ih =>
    rw [scan_succ, scan_succ, ih (fun i hi => h i (by omega)), step, step, h n (by omega)]

theorem free_none_iff : (scan live n).1 = none ↔ ∀ i < n, live i = true := by
  induction n with
  | zero => simp
  | succ n ih =>
    rw [scan_succ, step]
    by_cases hl : live n = true
    · simp only [hl, if_true, ih]
      refine ⟨fun h i hi => ?_, fun h i hi => h i (by omega)⟩
      rcases Nat.lt_succ_iff_lt_or_eq.mp hi with hi | rfl
      · exact h i hi
      · exact hl
    · have hno : ¬ ∀ i < n + 1, live i = true := fun h => hl (h n (by omega))
      rw [iff_false_right hno]
      cases hf : (scan live n).1 <;> simp [hl, hf]

theorem free_spec (h : (scan live n).1 = some f) :
    f < n ∧ live f = false ∧ ∀ i < f, live i = true := by
  induction n with
  | zero => simp at h
  | succ n ih =>
    rw [scan_succ, step] at h
    by_cases hl : live n = true
    · obtain ⟨hf, hd, hb⟩ := ih (by simpa [hl] using h)
      exact ⟨by omega, hd, hb⟩
    · cases hf : (scan live n).1 with
      | none =>
        have hfn : n = f := by simpa [hl, hf] using h
        subst hfn
        exact ⟨by omega, by simpa using hl, free_none_iff.mp hf⟩
      | some g =>
        obtain ⟨hf', hd, hb⟩ := ih (by simpa [hl, hf] using h)
        exact ⟨by omega, hd, hb⟩

/-- The first free slot is found exactly where a free slot has only live ones before it. -/
theorem free_eq_some_iff :
    (scan live n).1 = some f ↔ f < n ∧ live f = false ∧ ∀ i < f, live i = true := by
  refine ⟨free_spec, fun ⟨hn, hd, hb⟩ => ?_⟩
  cases hf : (scan live n).1 with
  | none => simp [free_none_iff.mp hf f hn] at hd
  | some g =>
    obtain ⟨_, hd', hb'⟩ := free_spec hf
    rcases lt_trichotomy f g with h | rfl | h
    · simp [hb' f h] at hd
    · rfl
    · simp [hb g h] at hd'

theorem len_le : (scan live n).2 ≤ n := by
  induction n with
  | zero => simp
  | succ n ih =>
    rw [scan_succ, step]
    split
    · simp
    · split
      · simp
      · omega

theorem len_mono : (scan live n).2 ≤ (scan live (n + 1)).2 := by
  have h : (scan live n).2 ≤ n := len_le
  rw [scan_succ, step]
  split
  · simp only; omega
  · split
    · simp only; omega
    · exact le_rfl

theorem live_lt_len (hi : i < n) (hl : live i = true) : i < (scan live n).2 := by
  induction n with
  | zero => omega
  | succ n ih =>
    rcases Nat.lt_succ_iff_lt_or_eq.mp hi with hi | rfl
    · exact lt_of_lt_of_le (ih hi) len_mono
    · simp [scan_succ, step, hl]

theorem free_lt_len (h : (scan live n).1 = some f) : f < (scan live n).2 := by
  induction n with
  | zero => simp at h
  | succ n ih =>
    by_cases hf : (scan live n).1 = some f
    · exact lt_of_lt_of_le (ih hf) len_mono
    · rw [scan_succ, step] at h ⊢
      by_cases hl : live n = true
      · exact absurd (by simpa [hl] using h) hf
      · cases hg : (scan live n).1 with
        | none =>
          have hfn : n = f := by simpa [hl, hg] using h
          subst hfn
          simp [hl]
        | some g => exact absurd (by simpa [hl, hg] using h) hf

/-- The scanned length never passes the last live slot or the free slot it found. -/
theorem len_tight (h : i < (scan live n).2) :
    ∃ j, i ≤ j ∧ j < n ∧ (live j = true ∨ (scan live n).1 = some j) := by
  induction n with
  | zero => simp at h
  | succ n ih =>
    rw [scan_succ, step] at h
    by_cases hl : live n = true
    · exact ⟨n, by simp [hl] at h; omega, by omega, Or.inl hl⟩
    · cases hf : (scan live n).1 with
      | none =>
        refine ⟨n, by simp [hl, hf] at h; omega, by omega, Or.inr ?_⟩
        simp [scan_succ, step, hl, hf]
      | some g =>
        obtain ⟨j, hij, hj, hlj | hlj⟩ := ih (by simpa [hl, hf] using h)
        · exact ⟨j, hij, by omega, Or.inl hlj⟩
        · exact ⟨j, hij, by omega, Or.inr (by simpa [scan_succ, step, hl, hf] using hlj)⟩

/-- Where all live slots lie below `m`, so does the row after the scan, but for one slot that is
filled at its end. -/
theorem scan_within {m l : ℕ} (hm : ∀ i < n, live i = true → i < m)
    (h : scan live n = (some f, l)) : f ≤ m ∧ l ≤ max m (f + 1) := by
  obtain ⟨hf, _, hb⟩ := free_spec (congrArg Prod.fst h)
  constructor
  · by_contra hlt
    exact absurd (hm m (by omega) (hb m (by omega))) (lt_irrefl m)
  · by_contra hlt
    have hpast : max m (f + 1) < (scan live n).2 := by
      rw [h]
      omega
    obtain ⟨j, hj, hjn, hlj | hlj⟩ := len_tight hpast
    · have := hm j hjn hlj
      omega
    · rw [h, Option.some.injEq] at hlj
      omega

/-- With exactly the first `f` slots live, the row grows by one slot at its end. -/
theorem scan_filled (hf : f < n) (hb : ∀ i < f, live i = true)
    (hd : ∀ i, f ≤ i → i < n → live i = false) : scan live n = (some f, f + 1) := by
  have hfree : (scan live n).1 = some f :=
    free_eq_some_iff.mpr ⟨hf, hd f le_rfl hf, hb⟩
  have hlen : (scan live n).2 = f + 1 := by
    have hlo := free_lt_len hfree
    by_contra hne
    have hpast : f + 1 < (scan live n).2 := by omega
    obtain ⟨j, hj, hjn, hlj | hlj⟩ := len_tight hpast
    · simp [hd j (by omega) hjn] at hlj
    · rw [hfree] at hlj
      simp at hlj
      omega
  exact Prod.ext hfree hlen

/-- Where the live slots form a prefix, the scan finds its end. -/
theorem scan_filled_eq {p l : ℕ} (hb : ∀ i < f, live i = true)
    (hd : ∀ i, f ≤ i → i < n → live i = false) (h : scan live n = (some p, l)) :
    p = f ∧ l = f + 1 ∧ f < n := by
  obtain ⟨hp, hdead, hbefore⟩ := free_spec (congrArg Prod.fst h)
  have hf : f < n := by
    by_contra hn
    simp [hb p (by omega)] at hdead
  rw [scan_filled hf hb hd, Prod.mk.injEq, Option.some.injEq] at h
  exact ⟨h.1.symm, h.2.symm, hf⟩

end SlotScan
