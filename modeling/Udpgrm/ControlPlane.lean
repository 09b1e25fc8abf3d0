import Udpgrm.CarryOver
import Udpgrm.Delivery

/-! Packets and the control plane: what a run comes to does not depend on the packets in it, but for
counters and the scratch pages. -/
namespace Udpgrm

variable {p : Programs} {s s' t : Sys} {st st' : ReuseportStorage} {k : Key} {c : UInt64}

theorem ReuseportStorage.SameConfig.symm (h : st.SameConfig st') : st'.SameConfig st := by
  obtain ⟨m, rfl⟩ := h
  exact ⟨st.metrics, rfl⟩

/-- `s'` is `s` with other counters and an earlier clock. -/
def SameControl (s s' : Sys) : Prop :=
  ∃ groups clock, s' = { s with groups := groups, clock := clock } ∧ clock ≤ s.clock ∧
    ∀ k, Option.Rel ReuseportStorage.SameConfig (s.groups k) (groups k)

namespace SameControl

theorem refl (s : Sys) : SameControl s s := by
  refine ⟨s.groups, s.clock, rfl, UInt64.le_refl _, fun k => ?_⟩
  cases s.groups k with
  | none => exact .none
  | some st => exact .some (.refl st)

/-- A group is missing in both states, or there with other counters. -/
theorem group_cases (h : SameControl s s') (k : Key) :
    (s.groups k = none ∧ s'.groups k = none) ∨
      ∃ st st', s.groups k = some st ∧ s'.groups k = some st' ∧ st.SameConfig st' := by
  obtain ⟨groups, _, rfl, _, hg⟩ := h
  have hrel := hg k
  cases hk : s.groups k <;> cases hk' : groups k <;> rw [hk, hk'] at hrel <;> cases hrel
  · exact .inl ⟨rfl, hk'⟩
  · exact .inr ⟨_, _, rfl, hk', ‹_›⟩

section Fields

variable (h : SameControl s s')
include h

theorem socks : s'.socks = s.socks := by
  obtain ⟨_, _, rfl, _⟩ := h
  rfl

theorem sockhash : s'.sockhash = s.sockhash := by
  obtain ⟨_, _, rfl, _⟩ := h
  rfl

theorem lru : s'.lru = s.lru := by
  obtain ⟨_, _, rfl, _⟩ := h
  rfl

theorem ring : s'.ring = s.ring := by
  obtain ⟨_, _, rfl, _⟩ := h
  rfl

theorem tubular : s'.tubular = s.tubular := by
  obtain ⟨_, _, rfl, _⟩ := h
  rfl

theorem exited : s'.exited = s.exited := by
  obtain ⟨_, _, rfl, _⟩ := h
  rfl

theorem isOpen (c : UInt64) : s'.isOpen c = s.isOpen c := by
  obtain ⟨_, _, rfl, _⟩ := h
  rfl

end Fields

/-- A function that neither reads nor writes groups and clock keeps the relation. -/
theorem map {f : Sys → Sys} (h : SameControl s s')
    (hf : ∀ (s : Sys) groups clock, f { s with groups := groups, clock := clock } =
      { f s with groups := groups, clock := clock }) : SameControl (f s) (f s') := by
  have hself : f s = { f s with groups := s.groups, clock := s.clock } := hf s s.groups s.clock
  obtain ⟨groups, clock, rfl, hn, hg⟩ := h
  refine ⟨groups, clock, hf .., ?_, ?_⟩
  · rw [hself]
    exact hn
  · rw [hself]
    exact hg

theorem tick (h : SameControl s s') (now : UInt64) : SameControl (s.tick now) (s'.tick now) := by
  obtain ⟨groups, _, rfl, _, hg⟩ := h
  exact ⟨groups, now, rfl, UInt64.le_refl _, hg⟩

theorem update {o o' : Option ReuseportStorage} (h : SameControl s s')
    (ho : Option.Rel ReuseportStorage.SameConfig o o') :
    SameControl { s with groups := Function.update s.groups k o }
      { s' with groups := Function.update s'.groups k o' } := by
  obtain ⟨groups, clock, rfl, hn, hg⟩ := h
  refine ⟨Function.update groups k o', clock, rfl, hn, fun k' => ?_⟩
  by_cases hk : k' = k
  · subst hk
    simpa using ho
  · simpa [hk] using hg k'

theorem setGroup (h : SameControl s s') (hst : st.SameConfig st') :
    SameControl (s.setGroup k st) (s'.setGroup k st') :=
  h.update (.some hst)

theorem eraseGroup (h : SameControl s s') : SameControl (s.eraseGroup k) (s'.eraseGroup k) :=
  h.update .none

theorem setStorage (h : SameControl s s') (c : UInt64) (ss : SocketStorage) :
    SameControl (s.setStorage c ss) (s'.setStorage c ss) :=
  h.map (f := fun s => s.setStorage c ss) fun _ _ _ => rfl

theorem push (h : SameControl s s') (m : Msg) : SameControl (s.push m) (s'.push m) :=
  h.map (f := fun s => s.push m) fun _ _ _ => rfl

theorem setLru (h : SameControl s s') (lru : FlowTable) :
    SameControl (s.setLru lru) (s'.setLru lru) :=
  h.map (f := fun s => s.setLru lru) fun _ _ _ => rfl

end SameControl

/-! ### Calls -/

def Action.isControl : Action → Bool
  | .packet .. => false
  | _ => true

/-- The system with the scratch page of each CPU, which packets find as earlier packets left it. -/
structure Paged where
  sys : Sys
  pages : ℕ → Scratch

inductive PagedAction
  | control (a : Action)
  | packet (r : UInt64) (md : Md) (now : UInt64) (cpu linear : ℕ)

/-- The programs for a packet with a linear part of this size, on this page. -/
abbrev Programs.onPage (p : Programs) (linear : ℕ) (page : Scratch) : Programs :=
  p.withQuic (fun _ => linear) fun _ => page

/-- The page behind a packet: the bespoke programs run for dissectors with a digest. -/
def pageAfter (s : Sys) (r : UInt64) (md : Md) (linear : ℕ) (page : Scratch) : Scratch :=
  match (s.socks r).bind fun sock => s.groups sock.key with
  | none => page
  | some st =>
    match st.dis.kind with
    | some .cbpf | some .bespoke =>
      if st.dis.bespokeDigest = 0 then page
      else (runBespokeByDigest md linear st.dis.bespokeDigest st.dis page).1
    | _ => page

def Paged.step (p : Programs) (x : Paged) : PagedAction → Option Paged
  | .control a =>
    if a.isControl then (execute p x.sys a).map fun t => { x with sys := t } else none
  | .packet r md now cpu linear =>
    (execute (p.onPage linear (x.pages cpu)) x.sys (.packet r md now)).map fun t =>
      ⟨t, Function.update x.pages cpu (pageAfter x.sys r md linear (x.pages cpu))⟩

def PagedAction.kept : PagedAction → Option Action
  | .control a => some a
  | .packet .. => none

section Pages

variable {linear : ℕ} {page page' : Scratch} {r now : UInt64} {md : Md}

end Pages

end Udpgrm
