import Udpgrm.Completeness

/-! Groups that are not deleted: their messages find them, and their sockets are in their tables. -/
namespace Udpgrm

open LittleEndian

variable {p : Programs} {s t : Sys} {a : Action} {k : Key} {c : UInt64} {st st' : ReuseportStorage}

/-- A registration on its way to the daemon is of a socket in the namespace of its group, and every
registered socket is alive and in the table of its group. -/
structure Housed (s : Sys) : Prop where
  own_netns : ∀ c sock ss, s.socks c = some sock → sock.storage = some ss →
    ss.netnsCookie = sock.netnsCookie
  pending : ∀ k pid cookie gen app, .registerSocket k pid cookie gen app ∈ s.ring →
    ∃ sock st, s.socks cookie = some sock ∧ sock.key = k ∧ s.groups k = some st ∧
      st.netnsCookie = sock.netnsCookie
  alive : ∀ c ∈ s.sockhash, s.alive c = true
  registered : ∀ c ∈ s.sockhash, ∃ sock st r j, s.socks c = some sock ∧
    s.groups sock.key = some st ∧ st.netnsCookie = sock.netnsCookie ∧ st.cookies r j = c

theorem Housed.initial : Housed Sys.initial := by
  constructor <;> simp [Sys.initial]

/-! ### One step -/

theorem GroupStep.netnsCookie_eq (h : GroupStep p st st') : st'.netnsCookie = st.netnsCookie := by
  cases h with
  | quiet h => exact h.sameTable.netnsCookie
  | cookie => rfl

theorem netns_kept (h : execute p s a = some t) (hd : a ≠ .delete k) (hk : s.groups k = some st) :
    ∃ st', t.groups k = some st' ∧ st'.netnsCookie = st.netnsCookie := by
  obtain ⟨st', hk'⟩ := Option.isSome_iff_exists.mp (group_survives h hd (by simp [hk]))
  cases group_change h hk' with
  | kept st₀ hk₀ hstep =>
    cases hk.symm.trans hk₀
    exact ⟨st', hk', hstep.netnsCookie_eq⟩
  | born _ _ _ _ _ hnone _ => simp [hk] at hnone

/-- A registration is posted in the namespace of its group. -/
theorem setsockopt_registers {env : OptEnv} {ctx : SockoptCtx} {r : OptRet} {pid gen app : UInt32}
    {cookie : UInt64} (h : SetsockoptEffect p env s c ctx r t)
    (hr : t.ring = s.ring ++ [.registerSocket k pid cookie gen app]) :
    ∃ sock ss st, s.socks c = some sock ∧ sock.storage = some ss ∧ sock.key = k ∧
      cookie = ss.soCookie ∧ t.groups k = some st ∧ st.netnsCookie = ss.netnsCookie := by
  cases h with
  | untouched => simp at hr
  | @body sock ss b _ st created data o _ hs hss hb hd ho hn he =>
    have hring : b.ring = s.ring := by cases hb <;> rfl
    cases he with
    | stay | verbose | undo | flow | socketApp =>
      simp [hring, Sys.setGroup, Sys.eraseGroup, Sys.setLru, Sys.setStorage] at hr
    | workingGen | install =>
      simp [Sys.push, Sys.setGroup, hring] at hr
    | socketGen =>
      simp only [Sys.push, Sys.setStorage, hring, List.append_cancel_left_eq, List.cons.injEq,
        and_true] at hr
      cases hr
      exact ⟨sock, ss, st, hs, hss, rfl, rfl, hb.groups, hn⟩

theorem SockStep.own_netns {sock sock' : Sock} (h : SockStep s a t c sock sock')
    (hs : ∀ ss, sock.storage = some ss → ss.netnsCookie = sock.netnsCookie) :
    ∀ ss, sock'.storage = some ss → ss.netnsCookie = sock'.netnsCookie := by
  cases h with
  | same | closed => exact hs
  | bound =>
    rintro _ ⟨⟩
    rfl
  | generation _ _ _ _ _ _ ss hss | application _ _ _ ss hss =>
    rintro _ ⟨⟩
    exact hs ss hss
  | index _ _ hacc _ hss =>
    rintro _ ⟨⟩
    exact hs hacc.ss hss

theorem Housed.step (h : execute p s a = some t) (hd : keepsGroups s a) (hw : SocksWf s)
    (hh : Housed s) : Housed t where
  own_netns c sock' ss hc' hss := by
    rcases sock_origin h hc' with ⟨sock, hc, hstep⟩ | ⟨_, _, hnone⟩
    · exact hstep.own_netns (fun ss => hh.own_netns c sock ss hc) ss hss
    · rw [hnone] at hss
      cases hss
  pending k pid cookie gen app hm := by
    have hold : .registerSocket k pid cookie gen app ∈ s.ring → ∃ sock st,
        t.socks cookie = some sock ∧ sock.key = k ∧ t.groups k = some st ∧
          st.netnsCookie = sock.netnsCookie := by
      intro hm
      obtain ⟨sock, st, hc, hkey, hk, hn⟩ := hh.pending k pid cookie gen app hm
      obtain ⟨sock', hc', hstep⟩ := sock_step h hc
      obtain ⟨st', hk', hn'⟩ := netns_kept h (hd _) hk
      exact ⟨sock', st', hc', hstep.key_eq.trans hkey, hk',
        hn'.trans (hn.trans hstep.identity.2.symm)⟩
    cases ring_change h with
    | same hr => exact hold (hr ▸ hm)
    | handled _ _ m hr => exact hold (hr ▸ List.mem_cons_of_mem m hm)
    | posted m hp hr =>
      rw [hr, List.mem_append, List.mem_singleton] at hm
      rcases hm with hm | rfl
      · exact hold hm
      · cases execute_effect h with
        | setsockopt =>
          obtain ⟨sock, ss, st, hc, hss, hkey, rfl, hk, hn⟩ :=
            setsockopt_registers (udpgrmSetsockopt_effect ..) hr
          obtain ⟨sock', hc', hstep⟩ := sock_step h hc
          have hown := hw.own_cookie _ sock ss hc hss
          exact ⟨sock', st, by rw [hown]; exact hc', hstep.key_eq.trans hkey, hk,
            hn.trans ((hh.own_netns _ sock ss hc hss).trans hstep.identity.2.symm)⟩
        | _ => cases hp
  alive := alive_step h hh.alive
  registered c hc := by
    -- a socket that was registered before is still in its slot
    have hold : c ∈ s.sockhash → ∃ sock st r j, t.socks c = some sock ∧
        t.groups sock.key = some st ∧ st.netnsCookie = sock.netnsCookie ∧ st.cookies r j = c := by
      intro hlive
      obtain ⟨sock, st, r, j, hs, hk, hn, hslot⟩ := hh.registered c hlive
      obtain ⟨sock', hs', hstep⟩ := sock_step h hs
      obtain ⟨st', hk', _, hslot'⟩ := slot_kept h (hd _) hk (hslot ▸ hlive)
      obtain ⟨st₁, hk₁, hn'⟩ := netns_kept h (hd _) hk
      cases hk'.symm.trans hk₁
      exact ⟨sock', st', r, j, hs', hstep.key_eq ▸ hk',
        hn'.trans (hn.trans hstep.identity.2.symm), hslot'.trans hslot⟩
    rcases sockhash_step h with ⟨env, rfl, ⟨hacc⟩⟩ | ⟨hsub, _⟩
    swap
    · exact hold (hsub hc)
    rcases hacc.sockhash_sub hc with hlive | rfl
    · exact hold hlive
    · obtain ⟨sock, st, hs, hkey, hk, hn⟩ := hh.pending hacc.k hacc.pid hacc.cookie hacc.gen
        hacc.app (by simp [hacc.ring_eq])
      obtain ⟨sock', hs', hstep⟩ := sock_step h hs
      cases hk.symm.trans hacc.group_eq
      have hk' : t.groups sock'.key = some (hacc.st.setCookie hacc.wg (UInt32.ofNat hacc.pos)
          (UInt32.ofNat hacc.len) hacc.cookie) := by
        rw [hstep.key_eq, hkey, hacc.groups, Function.update_self]
      exact ⟨sock', _, _, _, hs', hk', hn.trans hstep.identity.2.symm, setCookie_cookies_self ..⟩

end Udpgrm
