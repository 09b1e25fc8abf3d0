import Udpgrm.Restart

/-! The working generation of an application is a register: it holds what the last call stored. -/
namespace Udpgrm

open LittleEndian

variable {p : Programs} {s t : Sys} {a : Action} {k : Key} {st st' : ReuseportStorage}
  {app : Fin MAX_APPS}

/-- The element of `working_gen` that a socket owns. -/
def Sys.appIdx (s : Sys) (c : UInt64) : Option (Fin MAX_APPS) :=
  ((s.socks c).bind (·.storage)).map fun ss => Fin.ofNat MAX_APPS ss.sockApp.toNat

/-- The working generation that a step announces for an application of a group. -/
def announcedGen (p : Programs) (k : Key) (app : Fin MAX_APPS) (s : Sys) (a : Action) :
    Option UInt32 :=
  match groupCall k s a with
  | some (c, .workingGen, gen) =>
    if answer p s a = .ok ∧ s.appIdx c = some app then some gen else none
  | _ => none

/-- The last of a run. -/
def lastAnnounced (p : Programs) (k : Key) (app : Fin MAX_APPS) : Sys → List Action → Option UInt32
  | _, [] => none
  | s, a :: as =>
    (execute p s a).bind fun u => (lastAnnounced p k app u as).or (announcedGen p k app s a)

/-- A successful call writes the element of its own socket. -/
theorem setsockopt_announces {c : UInt64} {gen : UInt32} (h : execute p s a = some t)
    (hcall : groupCall k s a = some (c, .workingGen, gen)) (hok : answer p s a = .ok)
    (hk : s.groups k = some st) (hk' : t.groups k = some st') :
    ∃ own, s.appIdx c = some own ∧ st'.workingGen = Function.update st.workingGen own gen := by
  obtain ⟨ctx, env, sock, data, rfl, hs, rfl, ho, hd, rfl⟩ := groupCall_some hcall
  obtain ⟨sock', ss, b, st₀, created, data', hs', hss, hb, hd', heq⟩ := setsockopt_ok hok ho
  cases hs.symm.trans hs'
  cases hd.symm.trans hd'
  refine ⟨Fin.ofNat MAX_APPS ss.sockApp.toNat, by simp [Sys.appIdx, hs, hss], ?_⟩
  cases execute_effect h with
  | setsockopt =>
    have hroom : env.ringRoom = true := by
      by_contra hfull
      rw [answer, heq, setsockoptBody, if_neg hfull] at hok
      cases hok
    rw [heq, setsockoptBody, if_pos hroom] at hk'
    cases (Function.update_self ..).symm.trans hk'
    cases hb with
    | existing hst =>
      cases hk.symm.trans hst
      rfl
    | created hnone => cases hk.symm.trans hnone

/-- Any other step leaves the working generations of a group as they are. -/
theorem workingGen_same (h : execute p s a = some t)
    (hcall : ∀ c gen, groupCall k s a = some (c, .workingGen, gen) → answer p s a ≠ .ok)
    (hk : s.groups k = some st) (hk' : t.groups k = some st') :
    st'.workingGen = st.workingGen := by
  cases group_touch h hk hk' with
  | packet =>
    obtain ⟨m, hm⟩ := udpgrmReuseportProg_sameConfig p _ s.lru _ _ st
    rw [hm]
  | announced hc hok => exact absurd hok (hcall _ _ hc)
  | other hw => exact hw

theorem workingGen_announced (h : execute p s a = some t) (hk : s.groups k = some st)
    (hk' : t.groups k = some st') (app : Fin MAX_APPS) :
    st'.workingGen app = (announcedGen p k app s a).getD (st.workingGen app) := by
  by_cases hcall : ∃ c gen, groupCall k s a = some (c, .workingGen, gen) ∧ answer p s a = .ok
  · obtain ⟨c, gen, hcall, hok⟩ := hcall
    obtain ⟨own, hown, hset⟩ := setsockopt_announces h hcall hok hk hk'
    simp only [announcedGen, hcall, hok, hown, Option.some.injEq, true_and, hset]
    by_cases happ : own = app
    · subst happ
      simp
    · rw [if_neg happ, Function.update_of_ne (Ne.symm happ)]
      rfl
  · have hnone : announcedGen p k app s a = none := by
      unfold announcedGen
      split
      · rename_i c gen hc
        rw [if_neg fun hok => hcall ⟨c, gen, hc, hok.1⟩]
      · rfl
    rw [hnone, workingGen_same h (fun c gen hc hok => hcall ⟨c, gen, hc, hok⟩) hk hk']
    rfl

/-- While its group is not deleted, an application has the working generation of the last
successful call, and this is where its new flows go. -/
theorem working_gen_is_register {as : List Action} (h : Run p s as t)
    (hd : ∀ a ∈ as, a ≠ .delete k) (hk : s.groups k = some st) :
    ∃ st', t.groups k = some st' ∧ ∀ app : UInt32,
      let own := Fin.ofNat MAX_APPS app.toNat
      let gen := (lastAnnounced p k own s as).getD (st.workingGen own)
      st'.workingGen own = gen ∧ ∀ hash, ∃ slot,
        newFlowCookie st' app hash = st'.cookies (registeredRow st.dis.maxApps app gen) slot := by
  have hregister : ∃ st', t.groups k = some st' ∧ st'.dis = st.dis ∧
      ∀ app, st'.workingGen app = (lastAnnounced p k app s as).getD (st.workingGen app) := by
    induction h generalizing st with
    | refl => exact ⟨st, hk, rfl, fun _ => rfl⟩
    | @stepL s u t a as htr _ ih =>
      obtain ⟨st₁, hk₁, hdis⟩ := group_kept htr (hd a List.mem_cons_self) hk
      obtain ⟨st', hk', hdis', hlast⟩ := ih (fun b hb => hd b (List.mem_cons_of_mem a hb)) hk₁
      refine ⟨st', hk', hdis'.trans hdis, fun app => ?_⟩
      rw [hlast, workingGen_announced htr hk hk₁, lastAnnounced,
        show execute p s a = some u from htr, Option.bind_some]
      cases lastAnnounced p k app u as <;> rfl
  obtain ⟨st', hk', hdis, hlast⟩ := hregister
  refine ⟨st', hk', fun app => ⟨hlast _, fun hash => ?_⟩⟩
  rw [← hlast, ← hdis]
  exact ⟨_, rfl⟩

theorem working_gen_is_register_set : ∃ s t st',
    Run .const Sys.initial registerRun s ∧ Run .const s [.call 1 200 [3, 0, 0, 0]] t ∧
      t.groups (skeyFromBpfSock .loopback) = some st' ∧ st'.workingGen 0 = 3 := by
  obtain ⟨s, hs, hx⟩ := Transition.run_of_any (execute .const) Sys.initial registerRun
    (fun s : Sys => (s.groups (skeyFromBpfSock .loopback)).isSome &&
      (Transition.exec (execute .const) s [.call 1 200 [3, 0, 0, 0]]).isSome &&
      decide (lastAnnounced .const (skeyFromBpfSock .loopback) 0 s [.call 1 200 [3, 0, 0, 0]] =
        some 3)) (by decide +kernel)
  simp only [Bool.and_eq_true, decide_eq_true_eq, Option.isSome_iff_exists] at hx
  obtain ⟨⟨⟨st, hk⟩, t, ht⟩, hlast⟩ := hx
  have hrun : Run .const s [.call 1 200 [3, 0, 0, 0]] t := Transition.run_ofFn_iff.mpr ht
  obtain ⟨st', hk', happ⟩ := working_gen_is_register hrun (by simp [Action.call]) hk
  refine ⟨s, t, st', hs, hrun, hk', ?_⟩
  have hzero := (happ 0).1
  rwa [show (Fin.ofNat MAX_APPS (0 : UInt32).toNat) = 0 from rfl, hlast] at hzero

end Udpgrm
