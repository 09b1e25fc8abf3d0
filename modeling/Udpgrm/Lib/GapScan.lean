import Mathlib.Algebra.Order.Ring.Nat
import Mathlib.Tactic.Common

/-!
A search through a table with holes that gives up after a number of holes in a row.
-/
namespace GapScan

variable {α : Type*} {table : ℕ → Option α} {test : α → Bool} {limit n i j gap : ℕ}

/-- Visit `n` places from place `i` on, after `gap` holes in a row. -/
def scan (table : ℕ → Option α) (test : α → Bool) (limit : ℕ) : ℕ → ℕ → ℕ → Option ℕ
  | 0, _, _ => none
  | n + 1, i, gap =>
    if gap < limit then
      match table i with
      | none => scan table test limit n (i + 1) (gap + 1)
      | some x => if test x then some i else scan table test limit n (i + 1) 0
    else none

/-- There are no `limit` holes in a row before place `j`. -/
def NoGap (table : ℕ → Option α) (limit j : ℕ) : Prop :=
  ∀ m ≤ j, m + limit ≤ j → ∃ d < limit, (table (m + d)).isSome

instance : Decidable (NoGap table limit j) :=
  inferInstanceAs (Decidable (∀ m ≤ j, m + limit ≤ j → ∃ d < limit, (table (m + d)).isSome))

/-- The last `gap` places before `i` are holes. -/
def HolesBefore (table : ℕ → Option α) (i gap : ℕ) : Prop :=
  gap ≤ i ∧ ∀ d < gap, table (i - gap + d) = none

theorem HolesBefore.succ (h : HolesBefore table i gap) (hi : table i = none) :
    HolesBefore table (i + 1) (gap + 1) := by
  refine ⟨by have := h.1; omega, fun d hd => ?_⟩
  have he : i + 1 - (gap + 1) + d = i - gap + d := by omega
  rw [he]
  by_cases hlt : d < gap
  · exact h.2 d hlt
  · have hlast : i - gap + d = i := by
      have := h.1
      omega
    rw [hlast, hi]

/-- Where no gap stops it, the search does not miss a place that passes the test. -/
theorem scan_isSome {x : α} (hgap : HolesBefore table i gap) (hno : NoGap table limit j)
    (hlimit : gap ≤ limit) (hij : i ≤ j) (hjn : j < i + n) (hx : table j = some x)
    (ht : test x = true) : (scan table test limit n i gap).isSome := by
  induction n generalizing i gap with
  | zero => omega
  | succ n ih =>
    have hlt : gap < limit := by
      by_contra hge
      have heq : gap = limit := by omega
      subst heq
      obtain ⟨d, hd, hsome⟩ := hno (i - gap) (by omega) (by have := hgap.1; omega)
      rw [hgap.2 d hd] at hsome
      cases hsome
    rw [scan, if_pos hlt]
    cases hti : table i with
    | none =>
      have hne : i ≠ j := by
        rintro rfl
        rw [hx] at hti
        cases hti
      exact ih (hgap.succ hti) (by omega) (by omega) (by omega)
    | some y =>
      by_cases hy : test y = true
      · simp [hy]
      · have hne : i ≠ j := by
          rintro rfl
          rw [hx, Option.some.injEq] at hti
          exact hy (hti ▸ ht)
        simp only [hy]
        exact ih ⟨Nat.zero_le _, by omega⟩ (Nat.zero_le _) (by omega) (by omega)

end GapScan
