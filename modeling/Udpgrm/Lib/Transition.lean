import Mathlib.Logic.Basic

/-! Finite runs of labelled transition systems, with per-step side conditions. -/
namespace Transition

structure LTS (State Label : Type*) where
  Tr : State → Label → State → Prop

variable {State Label : Type*} {lts : LTS State Label} {s t u : State}
  {a : Label} {xs ys : List Label}

/-- A partial step function read as a transition system. -/
def LTS.ofFn (f : State → Label → Option State) : LTS State Label :=
  ⟨fun s a t => f s a = some t⟩

/-- Keep only the steps whose source state and label meet a condition. -/
def LTS.restrict (lts : LTS State Label) (C : State → Label → Prop) : LTS State Label :=
  ⟨fun s a t => C s a ∧ lts.Tr s a t⟩

inductive Run (lts : LTS State Label) : State → List Label → State → Prop
  | refl {s : State} : Run lts s [] s
  | stepL {s u t : State} {a : Label} {xs : List Label} :
      lts.Tr s a u → Run lts u xs t → Run lts s (a :: xs) t

theorem Run.single (h : lts.Tr s a t) : Run lts s [a] t := .stepL h .refl

theorem Run.append (h : Run lts s xs u) (h' : Run lts u ys t) : Run lts s (xs ++ ys) t := by
  induction h with
  | refl => exact h'
  | stepL hs _ ih => exact .stepL hs (ih h')

/-- What every step preserves, every run preserves. -/
theorem Run.inv {P : State → Prop} (h : Run lts s xs t)
    (hstep : ∀ {s a t}, lts.Tr s a t → P s → P t) (hs : P s) : P t := by
  induction h with
  | refl => exact hs
  | stepL htr _ ih => exact ih (hstep htr hs)

theorem Run.inv_restrict {C : State → Label → Prop} {P : State → Prop}
    (h : Run (lts.restrict C) s xs t)
    (hstep : ∀ {s a t}, lts.Tr s a t → C s a → P s → P t) (hs : P s) : P t :=
  h.inv (fun htr hp => hstep htr.2 htr.1 hp) hs

theorem Run.unrestrict {C : State → Label → Prop} (h : Run (lts.restrict C) s xs t) :
    Run lts s xs t := by
  induction h with
  | refl => exact .refl
  | stepL htr _ ih => exact .stepL htr.2 ih

theorem Run.weaken {C C' : State → Label → Prop} (h : Run (lts.restrict C) s xs t)
    (hC : ∀ s a, C s a → C' s a) : Run (lts.restrict C') s xs t := by
  induction h with
  | refl => exact .refl
  | stepL htr _ ih => exact .stepL ⟨hC _ _ htr.1, htr.2⟩ ih

/-- What every step keeps while it counts down at the labels of a kind, every run does. -/
theorem Run.countdown {tick : Label → Bool} {P : Nat → State → Prop} {n : Nat}
    (h : Run lts s xs t)
    (hstep : ∀ {s a t n}, lts.Tr s a t → P n s → P (if tick a then n - 1 else n) t)
    (hs : P n s) : P (n - xs.countP tick) t := by
  induction h generalizing n with
  | refl => simpa using hs
  | @stepL _ _ _ a xs htr _ ih =>
    have hrest := ih (hstep htr hs)
    by_cases ha : tick a = true
    · rw [if_pos ha, Nat.sub_sub, Nat.add_comm] at hrest
      rwa [List.countP_cons_of_pos ha]
    · rw [if_neg ha] at hrest
      rwa [List.countP_cons_of_neg ha]

/-- A run is followed by another system that takes a step for some of the labels and none for the
others. -/
theorem Run.simulate {State' Label' : Type*} {lts' : LTS State' Label'} {R : State → State' → Prop}
    {f : Label → Option Label'} {s' : State'} (h : Run lts s xs t)
    (hstep : ∀ {s a t s'}, lts.Tr s a t → R s s' → ∃ t', Run lts' s' (f a).toList t' ∧ R t t')
    (hs : R s s') : ∃ t', Run lts' s' (xs.filterMap f) t' ∧ R t t' := by
  induction h generalizing s' with
  | refl => exact ⟨s', .refl, hs⟩
  | @stepL _ _ _ a xs htr _ ih =>
    obtain ⟨u', hfirst, hu⟩ := hstep htr hs
    obtain ⟨t', hrest, ht⟩ := ih hu
    have hlabels : (a :: xs).filterMap f = (f a).toList ++ xs.filterMap f := by
      cases hf : f a <;> simp [hf]
    rw [hlabels]
    exact ⟨t', hfirst.append hrest, ht⟩

/-- A whole run of a partial step function. -/
def exec (f : State → Label → Option State) : State → List Label → Option State
  | s, [] => some s
  | s, a :: as => (f s a).bind fun u => exec f u as

theorem run_ofFn_iff {f : State → Label → Option State} :
    Run (.ofFn f) s xs t ↔ exec f s xs = some t := by
  constructor
  · intro h
    induction h with
    | refl => rfl
    | stepL hs _ ih =>
      have hf : f _ _ = some _ := hs
      simp [exec, hf, ih]
  · intro h
    induction xs generalizing s with
    | nil =>
      cases h
      exact .refl
    | cons a as ih =>
      obtain ⟨u, hu, hs⟩ := Option.bind_eq_some_iff.mp h
      exact .stepL hu (ih hs)

/-- A concrete run, evaluated together with what it should show. -/
theorem run_of_any (f : State → Label → Option State) (s : State) (xs : List Label)
    (P : State → Bool) (h : (exec f s xs).any P = true) :
    ∃ t, Run (.ofFn f) s xs t ∧ P t = true := by
  cases hs : exec f s xs with
  | none => simp [hs] at h
  | some t => exact ⟨t, run_ofFn_iff.mpr hs, by simpa [hs] using h⟩

/-- A restriction by a test is a partial step function again. -/
theorem restrict_ofFn (f : State → Label → Option State) (C : State → Label → Bool) :
    (LTS.ofFn f).restrict (fun s a => C s a = true) =
      .ofFn fun s a => if C s a then f s a else none := by
  have h : ∀ s a t, (C s a = true ∧ f s a = some t) ↔
      (if C s a then f s a else none) = some t := by
    intro s a t
    by_cases hc : C s a = true <;> simp [hc]
  simp only [LTS.ofFn, LTS.restrict, h]

theorem run_restrict_of_any (f : State → Label → Option State) (C : State → Label → Bool)
    (s : State) (xs : List Label) (P : State → Bool)
    (h : (exec (fun s a => if C s a then f s a else none) s xs).any P = true) :
    ∃ t, Run ((LTS.ofFn f).restrict fun s a => C s a = true) s xs t ∧ P t = true := by
  rw [restrict_ofFn]
  exact run_of_any _ s xs P h

end Transition
