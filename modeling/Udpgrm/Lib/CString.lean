import Mathlib.Data.Int.Notation
import Mathlib.Data.List.Basic
import Mathlib.Data.List.TakeWhile
import Mathlib.Data.Nat.Basic
import Mathlib.Tactic.Common

/-! Functions of the C library on strings. A string is the list of the characters before the zero
byte that ends it. -/
namespace CString

/-- Where the last such character stands. -/
def strrchr (c : Char) : List Char → Option ℕ
  | [] => none
  | x :: xs =>
    match strrchr c xs with
    | some i => some (i + 1)
    | none => if x = c then some 0 else none

theorem strrchr_eq_none {c : Char} {s : List Char} (h : c ∉ s) : strrchr c s = none := by
  induction s with
  | nil => rfl
  | cons x xs ih =>
    rw [List.mem_cons, not_or] at h
    rw [strrchr, ih h.2]
    exact if_neg (Ne.symm h.1)

theorem strrchr_last {c : Char} {b : List Char} (a : List Char) (h : c ∉ b) :
    strrchr c (a ++ c :: b) = some a.length := by
  induction a with
  | nil =>
    rw [List.nil_append, strrchr, strrchr_eq_none h]
    exact if_pos rfl
  | cons x xs ih => rw [List.cons_append, strrchr, ih, List.length_cons]

def isspace (c : Char) : Bool := c = ' ' || ('\t' ≤ c && c ≤ '\r')

abbrev LONG_MAX : ℤ := 9223372036854775807
abbrev LONG_MIN : ℤ := -9223372036854775808

/-- The optional sign of a number, and what follows it. -/
def sign : List Char → ℤ × List Char
  | '-' :: s => (-1, s)
  | '+' :: s => (1, s)
  | s => (1, s)

/-- A number as a `long`, cut to its range. -/
def toLong (n : ℤ) : ℤ := if n < LONG_MIN then LONG_MIN else if LONG_MAX < n then LONG_MAX else n

/-- `strtol` in base 10: the number, and the string from `endptr` on. -/
def strtol (s : List Char) : ℤ × List Char :=
  let (sgn, t) := sign (s.dropWhile isspace)
  let digits := t.takeWhile Char.isDigit
  if digits = [] then (0, s)
  else (toLong (sgn * Nat.ofDigitChars 10 digits 0), t.dropWhile Char.isDigit)

theorem sign_of_isDigit {c : Char} {s : List Char} (h : c.isDigit = true) :
    sign (c :: s) = (1, c :: s) := by
  unfold sign
  split
  · rename_i heq
    rw [(List.cons.inj heq).1] at h
    cases h
  · rename_i heq
    rw [(List.cons.inj heq).1] at h
    cases h
  · rfl

theorem isspace_of_isDigit {c : Char} (h : c.isDigit = true) : isspace c = false := by
  rw [Char.isDigit, Bool.and_eq_true, decide_eq_true_eq, decide_eq_true_eq] at h
  rw [isspace, Bool.or_eq_false_iff, decide_eq_false_iff_not, Bool.and_eq_false_iff,
    decide_eq_false_iff_not, decide_eq_false_iff_not]
  refine ⟨?_, .inr fun hle => ?_⟩
  · rintro rfl
    exact absurd h.1 (by decide)
  · have hle : c.val ≤ '\r'.val := hle
    have hzero : '0'.val ≤ '\r'.val := UInt32.le_trans h.1 hle
    exact absurd hzero (by decide)

theorem toDigits_ne_nil (n : ℕ) : Nat.toDigits 10 n ≠ [] := by
  rw [Nat.toDigits_eq_if (by decide)]
  split <;> simp

/-- A number that was printed with `%d` is read back, to its end. -/
theorem strtol_toDigits {n : ℕ} (h : (n : ℤ) ≤ LONG_MAX) :
    strtol (Nat.toDigits 10 n) = ((n : ℤ), []) := by
  have hdigit : ∀ c ∈ Nat.toDigits 10 n, c.isDigit = true := fun c hc =>
    Nat.isDigit_of_mem_toDigits (by decide) le_rfl hc
  have htake : (Nat.toDigits 10 n).takeWhile Char.isDigit = Nat.toDigits 10 n :=
    List.takeWhile_eq_self_iff.mpr hdigit
  have hdrop : (Nat.toDigits 10 n).dropWhile Char.isDigit = [] :=
    List.dropWhile_eq_nil_iff.mpr hdigit
  have hsign : sign ((Nat.toDigits 10 n).dropWhile isspace) = (1, Nat.toDigits 10 n) := by
    generalize Nat.toDigits 10 n = digits at hdigit
    cases digits with
    | nil => rfl
    | cons c cs =>
      have hc := hdigit c (by simp)
      rw [List.dropWhile_cons_of_neg (by rw [isspace_of_isDigit hc]; decide), sign_of_isDigit hc]
  have hmin : LONG_MIN ≤ 0 := by decide
  rw [strtol, hsign]
  dsimp only
  rw [htake, hdrop, if_neg (toDigits_ne_nil n), Nat.ofDigitChars_toDigits (by decide) le_rfl,
    Int.one_mul, toLong, if_neg (by omega), if_neg (by omega)]

end CString
