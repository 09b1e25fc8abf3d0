import Udpgrm.CbpfMeaning
import Udpgrm.Config

/-! Loads outside the payload and jumps outside the program. -/
namespace Udpgrm

open ClassicBpf

variable {md : Md} {d : Dissector} {c : InterpretCtx} {f : SockFilter} {r : Regs}
  {size : Size} {off : UInt32} {i n : ℕ}

/-- The target of a jump as an unbounded number. -/
def SockFilter.target (f : SockFilter) (r : Regs) (i : ℕ) : Option ℕ :=
  match f.op with
  | some .ja => some (i + 1 + f.k.toNat)
  | some (.jmp op src) =>
    some (i + 1 + if op.holds r.a (src.value f.k r) then f.jt.toNat else f.jf.toNat)
  | _ => none

/-- The call for the index `i` stays inside: a load succeeds exactly if all its bytes lie in the
payload and ends the program with IERR_LOAD otherwise, and after a jump to the end of the program
or past it nothing is executed and the program ends with IERR_INSTREXCEEDED. -/
structure Contained (md : Md) (d : Dissector) (i : ℕ) (c : InterpretCtx) : Prop where
  load : ∀ size off, (d.sockFilter i).load c.r = some (size, off) →
    if off.toNat + size.bytes ≤ md.data.length - 8 then
      (doInterpretLoop md d (UInt32.ofNat i) c).2 = false
    else doInterpretLoop md d (UInt32.ofNat i) c = ({ c with retcode := .load }, true)
  jump : ∀ target, (d.sockFilter i).target c.r i = some target → d.filterLen.toNat ≤ target →
    loopReport md d (i + 1) (d.filterLen.toNat - (i + 1))
      (doInterpretLoop md d (UInt32.ofNat i) c).1 = ⟨[], .instrExceeded, c.retval⟩

/-! ### Loads -/

theorem interpretInstr_of_load (h : f.load r = some (size, off)) :
    ∃ set, interpretInstr md f r = extractTo md size off r set := by
  unfold SockFilter.load at h
  split at h
  · rename_i size' hop
    split_ifs at h with hproto
    cases h
    exact ⟨_, by rw [interpretInstr, hop]; exact (interpretOp_ldAbs ..).trans (if_neg hproto)⟩
  · rename_i size' hop
    cases h
    exact ⟨_, by rw [interpretInstr, hop]; rfl⟩
  · rename_i hop
    cases h
    exact ⟨_, by rw [interpretInstr, hop]; rfl⟩
  · cases h

theorem load_contained_iff (hmd : md.WellFormed) (hi : i < MAX_INSTR)
    (hc : c.nextIndex.toNat ≤ i) (h : (d.sockFilter i).load c.r = some (size, off)) :
    (if off.toNat + size.bytes ≤ md.data.length - 8 then
        (doInterpretLoop md d (UInt32.ofNat i) c).2 = false
      else doInterpretLoop md d (UInt32.ofNat i) c = ({ c with retcode := .load }, true)) ↔
      ¬ ReachesHeader md size off := by
  obtain ⟨set, hset⟩ : ∃ set, interpretInstr md (d.sockFilter i) c.r =
      extractTo md size off c.r set := interpretInstr_of_load h
  have hcall : doInterpretLoop md d (UInt32.ofNat i) c =
      (extract md size off).elim ({ c with retcode := .load }, true)
        fun v => ({ c with r := set v }, false) := by
    rw [doInterpretLoop_execute hi hc, hset, extractTo]
    cases extract md size off <;> rfl
  have hlen := length_payload md
  rw [hcall]
  by_cases hr : ReachesHeader md size off
  · -- the load succeeds although its offset lies far behind the payload
    obtain ⟨-, hsome⟩ := extract_of_wraps hmd size hr.1
    obtain ⟨v, hv⟩ := Option.isSome_iff_exists.mp (hsome.mpr hr)
    have hsmall := hmd.small
    have hout : ¬ off.toNat + size.bytes ≤ md.data.length - 8 := by
      have := hr.1
      omega
    simp [hv, hout, hr]
  · rw [(extract_eq_load_iff hmd size off).mpr hr, Packet.load, hlen]
    by_cases hin : off.toNat + size.bytes ≤ md.data.length - 8 <;> simp [hin, hr]

/-! ### Jumps -/

theorem interpretInstr_of_target {target : ℕ} (h : f.target r i = some target) :
    ∃ distance : UInt32, interpretInstr md f r = (r, .jump distance) ∧
      target = i + 1 + distance.toNat := by
  unfold SockFilter.target at h
  split at h
  · rename_i hop
    cases h
    exact ⟨f.k, by rw [interpretInstr, hop]; rfl, rfl⟩
  · rename_i op src hop
    cases h
    refine ⟨_, by rw [interpretInstr, hop]; exact interpretOp_jmp .., ?_⟩
    rw [UInt8.toNat_toUInt32, apply_ite UInt8.toNat]
  · cases h

/-- From a target at the end of the program or past it nothing is executed. -/
theorem loopReport_past (hmax : d.filterLen.toNat ≤ MAX_INSTR) (hn : i + n = d.filterLen.toNat)
    (hc : d.filterLen.toNat ≤ c.nextIndex.toNat) :
    loopReport md d i n c = ⟨[], c.retcode, c.retval⟩ := by
  induction n generalizing i with
  | zero => rfl
  | succ n ih =>
    have hskip : UInt32.ofNat i < c.nextIndex := by
      rw [UInt32.lt_iff_toNat_lt, toNat_index (by omega)]
      omega
    rw [loopReport_skip hskip, ih (by omega)]

/-- A jump whose target wraps goes on behind itself, if there is an instruction. -/
theorem jump_contained_iff {target : ℕ} (hmax : d.filterLen.toNat ≤ MAX_INSTR)
    (hi : i < d.filterLen.toNat) (hc : c.nextIndex.toNat ≤ i) (hcode : c.retcode = .instrExceeded)
    (h : (d.sockFilter i).target c.r i = some target) (hpast : d.filterLen.toNat ≤ target) :
    loopReport md d (i + 1) (d.filterLen.toNat - (i + 1))
        (doInterpretLoop md d (UInt32.ofNat i) c).1 = ⟨[], .instrExceeded, c.retval⟩ ↔
      ¬ (2 ^ 32 ≤ target ∧ i + 1 < d.filterLen.toNat) := by
  have h64 : MAX_INSTR = 64 := rfl
  obtain ⟨distance, hinstr, rfl⟩ : ∃ distance : UInt32,
      interpretInstr md (d.sockFilter i) c.r = (c.r, .jump distance) ∧
        target = i + 1 + distance.toNat := interpretInstr_of_target h
  have hlt := distance.toNat_lt
  have hnext : (1 + UInt32.ofNat i + distance).toNat = (i + 1 + distance.toNat) % 2 ^ 32 := by
    rw [UInt32.toNat_add, UInt32.toNat_add, toNat_index (by omega)]
    simp
    omega
  rw [doInterpretLoop_execute (by omega) hc, hinstr]
  by_cases hwrap : 2 ^ 32 ≤ i + 1 + distance.toNat
  · by_cases hlast : i + 1 < d.filterLen.toNat
    · refine iff_of_false ?_ (not_not.mpr ⟨hwrap, hlast⟩)
      obtain ⟨n, hn⟩ : ∃ n, d.filterLen.toNat - (i + 1) = n + 1 :=
        ⟨d.filterLen.toNat - (i + 1) - 1, by omega⟩
      rw [hn, loopReport_execute (by omega) (by simp only [hnext]; omega)]
      -- the next instruction is in the trace
      split <;> simp [Report.cons]
    · refine iff_of_true ?_ (by omega)
      rw [show d.filterLen.toNat - (i + 1) = 0 by omega]
      simp [loopReport, executed, bpfLoop, hcode]
  · refine iff_of_true ?_ (by omega)
    rw [loopReport_past hmax (by omega) (by simp only [hnext]; omega), hcode]

/-! ### Programs that were admitted -/

theorem filterLen_le_of_admitted (hkind : d.kind = some .cbpf) (hadm : dissectorFail d = false) :
    d.filterLen.toNat ≤ MAX_INSTR := by
  simp only [dissectorFail, hkind, Bool.or_eq_false_iff, decide_eq_false_iff_not] at hadm
  omega

theorem groupReachable_admitted {p : Programs} {st : ReuseportStorage} (h : GroupReachable p st)
    (hkind : st.dis.kind = some .cbpf) : dissectorFail st.dis = false := by
  induction h with
  | created env ss => exact absurd hkind (show Dissector.empty.kind ≠ _ by decide)
  | installed env ss d hf => exact (dissectorFail_stored d).trans hf
  | step _ hs ih =>
    rw [hs.dis_eq] at hkind ⊢
    exact ih hkind

theorem bpfLoop_ne_sanity (hn : i + n ≤ MAX_INSTR) (hc : c.retcode ≠ .sanity) :
    (bpfLoop (doInterpretLoop md d) i n c).retcode ≠ .sanity := by
  induction n generalizing i c with
  | zero => exact hc
  | succ n ih =>
    rw [bpfLoop]
    by_cases hskip : i < c.nextIndex.toNat
    · have hlt : UInt32.ofNat i < c.nextIndex := by
        rwa [UInt32.lt_iff_toNat_lt, toNat_index (by omega)]
      rw [doInterpretLoop, if_pos hlt]
      exact ih (by omega) hc
    · have hallowed := interpretInstr_allowed md (d.sockFilter i) c.r
      rw [doInterpretLoop_execute (by omega) (by omega)]
      rcases hx : interpretInstr md (d.sockFilter i) c.r with ⟨r', _ | distance | v | e⟩
      · exact ih (by omega) hc
      · exact ih (by omega) hc
      · intro h
        cases h
      · intro h
        cases h
        rw [hx] at hallowed
        rcases hallowed with h | h <;> cases h

/-- In no run of the system does a packet of a cBPF group end with IERR_SANITY. -/
theorem cbpf_group_never_sanity {p : Programs} {as : List Action} {t : Sys} {k : Key}
    {st : ReuseportStorage} (h : Run p.withInterpreter Sys.initial as t)
    (hk : t.groups k = some st) (hkind : st.dis.kind = some .cbpf) (md : Md) :
    (p.withInterpreter.interpretCbpf md st.dis).1 ≠ .sanity := by
  have hadm := groupReachable_admitted (groups_reachable h k st hk) hkind
  have hmax := filterLen_le_of_admitted hkind hadm
  exact bpfLoop_ne_sanity (by omega) nofun

/-- Every instruction that is executed stays inside the payload and the program exactly if its
load does not reach the header and its jump does not wrap in front of another instruction. -/
theorem contained_iff (hmd : md.WellFormed) (hkind : d.kind = some .cbpf)
    (hadm : dissectorFail d = false) (hi : i < d.filterLen.toNat) (hc : c.nextIndex.toNat ≤ i)
    (hcode : c.retcode = .instrExceeded) :
    Contained md d i c ↔
      (∀ size off, (d.sockFilter i).load c.r = some (size, off) → ¬ ReachesHeader md size off) ∧
        ∀ target, (d.sockFilter i).target c.r i = some target →
          ¬ (2 ^ 32 ≤ target ∧ i + 1 < d.filterLen.toNat) := by
  have hmax := filterLen_le_of_admitted hkind hadm
  constructor
  · intro h
    refine ⟨fun size off hl => ?_, fun target ht hwrap => ?_⟩
    · exact (load_contained_iff hmd (by omega) hc hl).mp (h.load size off hl)
    · have h64 : MAX_INSTR = 64 := rfl
      have hpast : d.filterLen.toNat ≤ target := by omega
      exact (jump_contained_iff hmax hi hc hcode ht hpast).mp (h.jump target ht hpast) hwrap
  · rintro ⟨hload, hjump⟩
    refine ⟨fun size off hl => ?_, fun target ht hpast => ?_⟩
    · exact (load_contained_iff hmd (by omega) hc hl).mpr (hload size off hl)
    · exact (jump_contained_iff hmax hi hc hcode ht hpast).mpr (hjump target ht)

/-- `ldb [3]`: one byte behind the payload. -/
def loadPast : Dissector :=
  .ofProgram [⟨BPF_LD ||| BPF_B ||| BPF_ABS, 0, 0, 3⟩, ⟨BPF_RET ||| BPF_A, 0, 0, 0⟩]

theorem contained_load_past :
    Contained .threeBytes loadPast 0 .initial ∧
      doInterpretLoop .threeBytes loadPast 0 .initial =
        ({ InterpretCtx.initial with retcode := .load }, true) := by
  have hload : (loadPast.sockFilter 0).load Regs.zero = some (.byte, 3) := by decide +kernel
  have htarget : (loadPast.sockFilter 0).target Regs.zero 0 = none := by decide +kernel
  have hcont : Contained .threeBytes loadPast 0 .initial := by
    refine (contained_iff (by decide) (by decide) (by decide +kernel) (by decide) (by decide)
      rfl).mpr ⟨fun size off h => ?_, fun target h => ?_⟩
    · cases hload.symm.trans h
      decide
    · cases htarget.symm.trans h
  exact ⟨hcont, hcont.load .byte 3 hload⟩

/-- `ldb [0xfffffff8]; ret a`. -/
def loadHeader : Dissector :=
  .ofProgram [⟨BPF_LD ||| BPF_B ||| BPF_ABS, 0, 0, 0xfffffff8⟩, ⟨BPF_RET ||| BPF_A, 0, 0, 0⟩]

/-- `ja 0xffffffff; ret 5`. -/
def jumpFar : Dissector :=
  .ofProgram [⟨BPF_JMP ||| BPF_JA, 0, 0, 0xffffffff⟩, ⟨BPF_RET ||| BPF_K, 0, 0, 5⟩]

/-- Both programs are admitted. The first returns a byte of the source port, the second returns
although its jump leads far behind its end. -/
theorem header_loaded_and_jump_lost :
    (loadHeader.kind = some .cbpf ∧ dissectorFail loadHeader = false ∧
      (loadHeader.sockFilter 0).load Regs.zero = some (.byte, 0xfffffff8) ∧
      interpretCbpf .threeBytes loadHeader = (.ok, 0xab)) ∧
    jumpFar.kind = some .cbpf ∧ dissectorFail jumpFar = false ∧
      (jumpFar.sockFilter 0).target Regs.zero 0 = some (2 ^ 32) ∧
      interpretCbpf .threeBytes jumpFar = (.ok, 5) := by
  decide +kernel

end Udpgrm
