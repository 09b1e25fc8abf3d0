import Mathlib.Tactic.IntervalCases
import Udpgrm.CbpfMeaning
import Udpgrm.Step

/-! Whole cBPF programs: the interpreter against classic BPF, and the programs that come with the
repository. -/
namespace Udpgrm

open ClassicBpf

variable {md : Md} {d : Dissector} {f : SockFilter} {r : Regs} {op : Op} {i pc : ℕ}

/-! ### Runs -/

def SockFilter.instr (f : SockFilter) : Instr := ⟨f.code, f.jt, f.jf, f.k⟩

def sockFilterOf (f : Instr) : SockFilter := ⟨f.code, f.jt, f.jf, f.k⟩

/-- The program that `interpret_cbpf` runs. -/
def Dissector.program (d : Dissector) : List Instr :=
  (List.range d.filterLen.toNat).map fun i => (d.sockFilter i).instr

/-- The code and the `retval` for the end of a program. -/
def resultOf : Result → IErr × UInt32
  | .ret v => (.ok, v)
  | .fault e => (Fault.code e, 0)
  | .invalid => (.badInstr, 0)
  | .pastEnd => (.instrExceeded, 0)

/-- The interpreter knows the instruction as classic BPF does, and executes it so. -/
structure Plain (md : Md) (f : SockFilter) (i : ℕ) (r : Regs) : Prop where
  known : f.op = decode f.code
  memory : ∀ op, f.op = some op → op.usesMemory → f.k.toNat < 16
  exact : ¬ Deviates md f i r

theorem getElem?_program (h : i < d.filterLen.toNat) :
    d.program[i]? = some (d.sockFilter i).instr := by
  simp [Dissector.program, h]

theorem length_program : d.program.length = d.filterLen.toNat := by
  simp [Dissector.program]

/-- One instruction of the interpreter, from what classic BPF says. -/
theorem interpretInstr_of_plain (hmd : md.WellFormed) (hi : i < MAX_INSTR) (hp : Plain md f i r)
    (hop : decode f.code = some op) :
    exitOutcome i (interpretInstr md f r) =
      classicOutcome i (step md.packet op f.jt f.jf f.k r) := by
  have hknown : f.op = some op := hp.known.trans hop
  rw [interpretInstr, hknown]
  exact (interpretOp_outcome_iff hmd hi hknown (hp.memory op hknown)).mpr hp.exact

/-- What a run comes to. -/
def Report.result (rep : Report) : IErr × UInt32 := (rep.code, rep.retval)

theorem interpretCbpf_eq (hmax : d.filterLen.toNat ≤ MAX_INSTR) (hfit : JumpsFit d) :
    interpretCbpf md d = (pcRun md d 0 0 .zero).result := by
  have hsim : loopReport md d 0 d.filterLen.toNat .initial = pcRun md d 0 0 .zero :=
    loopReport_eq_pcRun hmax hfit (Nat.zero_add _) rfl
  rw [← hsim]
  rfl

/-! #### The machine with a program counter -/

section Machine

variable {t : ℕ} {r' : Regs} {v : UInt32} {e : IErr}

theorem pcRun_goto (hmax : d.filterLen.toNat ≤ MAX_INSTR) (hfit : JumpsFit d)
    (hpc : pc < d.filterLen.toNat)
    (h : exitOutcome pc (interpretInstr md (d.sockFilter pc) r) = (r', .goto t)) :
    pc < t ∧ (pcRun md d 0 pc r).result = (pcRun md d 0 t r').result := by
  have h64 : MAX_INSTR = 64 := rfl
  have hallowed := interpretInstr_allowed md (d.sockFilter pc) r
  rw [pcRun, if_pos hpc]
  rcases hx : interpretInstr md (d.sockFilter pc) r with ⟨r₁, _ | distance | v | e⟩
  · rw [hx] at h
    cases h
    exact ⟨Nat.lt_succ_self pc, rfl⟩
  · rw [hx] at h hallowed
    have hdist : pc + 1 + distance.toNat < 2 ^ 32 := by
      rcases hallowed with ⟨hja, rfl⟩ | hbyte
      · exact hfit pc hpc hja
      · omega
    have hnext : (1 + UInt32.ofNat pc + distance).toNat = pc + 1 + distance.toNat := by
      rw [UInt32.toNat_add, UInt32.toNat_add, toNat_index (by omega)]
      simp
      omega
    rw [exitOutcome, hnext, max_eq_right (by omega)] at h
    cases h
    exact ⟨by omega, rfl⟩
  · rw [hx] at h
    cases h
  · rw [hx] at h
    cases h

theorem pcRun_ret (hpc : pc < d.filterLen.toNat)
    (h : exitOutcome pc (interpretInstr md (d.sockFilter pc) r) = (r', .ret v)) :
    (pcRun md d 0 pc r).result = (.ok, v) := by
  rw [pcRun, if_pos hpc]
  rcases hx : interpretInstr md (d.sockFilter pc) r with ⟨r₁, _ | distance | v | e⟩ <;>
    rw [hx] at h <;> cases h
  rfl

theorem pcRun_stop (hpc : pc < d.filterLen.toNat)
    (h : exitOutcome pc (interpretInstr md (d.sockFilter pc) r) = (r', .stop e)) :
    (pcRun md d 0 pc r).result = (e, 0) := by
  rw [pcRun, if_pos hpc]
  rcases hx : interpretInstr md (d.sockFilter pc) r with ⟨r₁, _ | distance | v | e⟩ <;>
    rw [hx] at h <;> cases h
  rfl

end Machine

/-- Every instruction that classic BPF gets to is executed as it says. -/
def RunsPlain (md : Md) (d : Dissector) : Prop :=
  ∀ pc r, Visits md.packet d.program pc r → pc < d.filterLen.toNat →
    Plain md (d.sockFilter pc) pc r

/-- The machine and classic BPF come to the same end. -/
theorem pcRun_eq_run (hmd : md.WellFormed) (hmax : d.filterLen.toNat ≤ MAX_INSTR)
    (hfit : JumpsFit d) (hplain : RunsPlain md d) (hv : Visits md.packet d.program pc r) :
    (pcRun md d 0 pc r).result = resultOf (run md.packet d.program pc r) := by
  -- induction on the instructions that are left
  induction hleft : d.filterLen.toNat - pc using Nat.strong_induction_on generalizing pc r with
  | _ left ih =>
    by_cases hpc : pc < d.filterLen.toNat
    · have hf := getElem?_program hpc
      have hp := hplain pc r hv hpc
      cases hop : decode (d.sockFilter pc).code with
      | none =>
        rw [run_invalid hf hop]
        have hstop : exitOutcome pc (interpretInstr md (d.sockFilter pc) r) =
            (r, .stop .badInstr) := by
          rw [interpretInstr, hp.known, hop]
          rfl
        exact pcRun_stop hpc hstop
      | some op =>
        have hsame := interpretInstr_of_plain hmd (by omega) hp hop
        rcases hstep : step md.packet op (d.sockFilter pc).jt (d.sockFilter pc).jf
          (d.sockFilter pc).k r with ⟨r', _ | distance | v | e⟩
        · rw [hstep, classicOutcome] at hsame
          obtain ⟨hlt, hrun⟩ := pcRun_goto hmax hfit hpc hsame
          rw [hrun, run_next hf hop hstep]
          exact ih _ (by omega) (hv.next hf hop hstep) rfl
        · rw [hstep, classicOutcome] at hsame
          obtain ⟨hlt, hrun⟩ := pcRun_goto hmax hfit hpc hsame
          rw [hrun, run_jump hf hop hstep]
          exact ih _ (by omega) (hv.jump hf hop hstep) rfl
        · rw [hstep, classicOutcome] at hsame
          rw [pcRun_ret hpc hsame, run_ret hf hop hstep]
          rfl
        · rw [hstep, classicOutcome] at hsame
          rw [pcRun_stop hpc hsame, run_fault hf hop hstep]
          rfl
    · rw [pcRun, if_neg hpc, run_pastEnd (by rw [length_program]; omega)]
      rfl

theorem interpretCbpf_of_plain (hmd : md.WellFormed) (hmax : d.filterLen.toNat ≤ MAX_INSTR)
    (hfit : JumpsFit d) (hplain : RunsPlain md d) :
    interpretCbpf md d = resultOf (run md.packet d.program 0 .zero) := by
  rw [interpretCbpf_eq hmax hfit]
  exact pcRun_eq_run hmd hmax hfit hplain .start

/-! ### The first stage -/

/-- What the first stage makes of the end of a program: a value from 0x80000000 on is the number of
an application, and one of 16 bits is a cookie. -/
def dissectedBy (st : ReuseportStorage) : Result → Dissected
  | .ret v =>
    if v - 0x80000000 < st.dis.maxApps then .haveCookie NO_COOKIE (v - 0x80000000)
    else if v > 0xffff then .haveCookie NO_COOKIE 0
    else .haveCookie (cookieOfGrm st v.toUInt16) 0
  | .fault .load => .skbLoadBytesError
  | .fault _ | .invalid | .pastEnd => .cbpfProgError

section FirstStage

variable {p : Programs} {st : ReuseportStorage} {res : Result}

theorem firstStage_of_result (hkind : st.dis.kind = some .cbpf) (hdigest : st.dis.bespokeDigest = 0)
    (h : interpretCbpf md st.dis = resultOf res) :
    firstStage p.withInterpreter md st = dissectedBy st res := by
  have hrun : p.withInterpreter.interpretCbpf md st.dis = resultOf res := h
  simp only [firstStage, hkind, dissectorCbpf, hdigest, if_true, hrun]
  rcases res with v | e | _ | _
  · simp only [resultOf, dissectedBy]
    by_cases happ : v - 0x80000000 < st.dis.maxApps
    · simp [happ]
    · by_cases hlarge : v > 0xffff <;> simp [happ, hlarge]
  · cases e <;> rfl
  · rfl
  · rfl

/-- A group with a cBPF dissector does with a packet what its program means in classic BPF. -/
theorem cbpf_stage_is_classic (hmd : md.WellFormed) (hkind : st.dis.kind = some .cbpf)
    (hdigest : st.dis.bespokeDigest = 0) (hmax : st.dis.filterLen.toNat ≤ MAX_INSTR)
    (hfit : JumpsFit st.dis) (hplain : RunsPlain md st.dis) :
    firstStage p.withInterpreter md st =
      dissectedBy st (run md.packet st.dis.program 0 .zero) :=
  firstStage_of_result hkind hdigest (interpretCbpf_of_plain hmd hmax hfit hplain)

end FirstStage

/-! ### Programs that are right on every packet -/

/-- An operation that the interpreter executes as classic BPF does, wherever it gets to it: not
`ldx #len`, no indirect load, and no offset or distance that wraps. -/
def safeOp (k : UInt32) (i : ℕ) : Op → Bool
  | .ldxLen | .ldInd _ => false
  | .ldAbs _ | .ldxMsh => k.toNat + 8 < 2 ^ 32
  | .ldMem | .ldxMem | .st | .stx => k.toNat < 16
  | .ja => i + 1 + k.toNat < 2 ^ 32
  | _ => true

def SockFilter.safe (f : SockFilter) (i : ℕ) : Bool :=
  decide (f.op = decode f.code) && f.op.all (safeOp f.k i)

def safeProgram (prog : List Instr) : Bool :=
  prog.zipIdx.all fun (f, i) => (sockFilterOf f).safe i

theorem safe_sockFilter (h : safeProgram d.program = true) (hi : i < d.filterLen.toNat) :
    (d.sockFilter i).safe i = true := by
  have hmem : ((d.sockFilter i).instr, i) ∈ d.program.zipIdx :=
    List.mem_zipIdx_iff_getElem?.mpr (getElem?_program hi)
  exact List.all_eq_true.mp h _ hmem

theorem safe_load {size : Size} {off : UInt32} (hsafe : f.op.all (safeOp f.k i) = true)
    (hload : f.load r = some (size, off)) : ¬ ReachesHeader md size off := by
  have hk : off = f.k ∧ f.k.toNat + 8 < 2 ^ 32 := by
    unfold SockFilter.load at hload
    split at hload
    · rename_i size' hop
      rw [hop, Option.all_some] at hsafe
      split_ifs at hload
      exact ⟨(Prod.mk.inj (Option.some.inj hload)).2.symm, of_decide_eq_true hsafe⟩
    · rename_i size' hop
      rw [hop, Option.all_some] at hsafe
      cases hsafe
    · rename_i hop
      rw [hop, Option.all_some] at hsafe
      exact ⟨(Prod.mk.inj (Option.some.inj hload)).2.symm, of_decide_eq_true hsafe⟩
    · cases hload
  rintro ⟨hwrap, -⟩
  rw [hk.1] at hwrap
  omega

theorem plain_of_safe (h : f.safe i = true) (md : Md) (r : Regs) : Plain md f i r := by
  rw [SockFilter.safe, Bool.and_eq_true, decide_eq_true_eq] at h
  obtain ⟨hknown, hsafe⟩ := h
  refine ⟨hknown, fun op hop huses => ?_, ?_⟩
  · rw [hop, Option.all_some] at hsafe
    cases op with
    | ldMem | ldxMem | st | stx => exact of_decide_eq_true hsafe
    | _ => cases huses
  · rintro (⟨hop, -⟩ | ⟨⟨size, off⟩, hload, hreach⟩ | ⟨hop, hwrap⟩)
    · rw [hop, Option.all_some] at hsafe
      cases hsafe
    · exact safe_load hsafe hload hreach
    · rw [hop, Option.all_some] at hsafe
      have hlt : i + 1 + f.k.toNat < 2 ^ 32 := of_decide_eq_true hsafe
      omega

theorem jumpsFit_of_safe (hsafe : safeProgram d.program = true) : JumpsFit d := by
  intro i hi hop
  have h := safe_sockFilter hsafe hi
  rw [SockFilter.safe, Bool.and_eq_true, hop, Option.all_some] at h
  exact of_decide_eq_true h.2

theorem runsPlain_of_safe (hsafe : safeProgram d.program = true) : RunsPlain md d :=
  fun _ r _ hpc => plain_of_safe (safe_sockFilter hsafe hpc) md r

/-- The storage of a group whose dissector runs a program. -/
def storageOf (prog : List Instr) : ReuseportStorage :=
  { emptyState with dis := { Dissector.ofProgram (prog.map sockFilterOf) with maxApps := 1 } }

def lenProgram : List Instr := [⟨0x80, 0, 0, 0⟩, ⟨0x16, 0, 0, 0⟩]

/-- A payload of eight bytes, on `ld #len; ret a`. -/
theorem cbpf_stage_is_classic_len :
    firstStage (Programs.withInterpreter .const) ⟨0, 0, 16, [], List.replicate 16 0⟩
      (storageOf lenProgram) = dissectedBy (storageOf lenProgram) (.ret 8) := by
  have hprog : (storageOf lenProgram).dis.program = lenProgram := by decide +kernel
  have hsafe : safeProgram (storageOf lenProgram).dis.program = true := by
    rw [hprog]
    decide
  rw [cbpf_stage_is_classic (by decide) rfl rfl (by decide) (jumpsFit_of_safe hsafe)
    (runsPlain_of_safe hsafe), hprog, run_next (f := ⟨0x80, 0, 0, 0⟩) rfl rfl rfl,
    run_ret (f := ⟨0x16, 0, 0, 0⟩) rfl rfl rfl]
  rfl

/-! ### The program for numbered applications -/

/-- `examples/cbpf-basic.sh`. -/
def cbpfBasic : List Instr :=
  [⟨0x30, 0, 0, 0⟩, ⟨0x35, 0, 4, 0x30⟩, ⟨0x25, 3, 0, 0x33⟩, ⟨0x14, 0, 0, 0x30⟩,
    ⟨0x44, 0, 0, 0x80000000⟩, ⟨0x16, 0, 0, 0⟩, ⟨0x28, 0, 0, 1⟩, ⟨0x16, 0, 0, 0⟩]

/-- An ASCII digit from 0 to 3 at the start is the number of an application. Otherwise the cookie
is at offset 1. -/
def basicResult (payload : List UInt8) : Result :=
  let b := payload.getD 0 0
  if payload = [] then .fault .load
  else if 0x30 ≤ b ∧ b ≤ 0x33 then .ret (b.toUInt32 - 0x30 ||| 0x80000000)
  else if payload.length < 3 then .fault .load
  else .ret (BigEndian.u16 payload 1).toUInt32

section Basic

variable {pkt : Packet}

/-- The last two instructions: the cookie at offset 1. -/
theorem run_basic_cookie :
    run pkt cbpfBasic 6 r =
      if pkt.payload.length < 3 then .fault .load
      else .ret (BigEndian.u16 pkt.payload 1).toUInt32 := by
  have hfetch : cbpfBasic[6]? = some ⟨0x28, 0, 0, 1⟩ := rfl
  have hop : decode 0x28 = some (.ldAbs .half) := rfl
  split_ifs with hshort
  · have hload : pkt.load .half 1 = none := load_eq_none hshort
    have hstep : step pkt (.ldAbs .half) 0 0 1 r = (r, .fault .load) := by
      simp [step, hload, resume, protocolOffset]
    exact run_fault hfetch hop hstep
  · have hload : pkt.load .half 1 = some (BigEndian.u16 pkt.payload 1).toUInt32 :=
      load_half (show 1 + 2 ≤ _ by omega)
    have hstep : step pkt (.ldAbs .half) 0 0 1 r =
        ({ r with a := (BigEndian.u16 pkt.payload 1).toUInt32 }, .next) := by
      simp [step, hload, resume, protocolOffset]
    rw [run_next hfetch hop hstep]
    exact run_ret (f := ⟨0x16, 0, 0, 0⟩) rfl rfl rfl

/-- The two comparisons, and the number of the application where both hold. -/
theorem run_basic_digit {b : UInt8} (h : r.a = b.toUInt32) :
    run pkt cbpfBasic 1 r =
      if 0x30 ≤ b ∧ b ≤ 0x33 then .ret (b.toUInt32 - 0x30 ||| 0x80000000)
      else run pkt cbpfBasic 6 r := by
  have hge : JmpOp.jge.holds r.a 0x30 = decide (0x30 ≤ b.toNat) := by
    rw [h]
    rfl
  have hgt : JmpOp.jgt.holds r.a 0x33 = decide (0x33 < b.toNat) := by
    rw [h]
    rfl
  have hfirst : run pkt cbpfBasic 1 r =
      run pkt cbpfBasic (2 + if 0x30 ≤ b.toNat then 0 else 4) r := by
    have hop : decode 0x35 = some (.jmp .jge .k) := rfl
    refine run_jump (f := ⟨0x35, 0, 4, 0x30⟩) rfl hop ?_
    simp [step, Source.value, hge]
  have hsecond : run pkt cbpfBasic 2 r =
      run pkt cbpfBasic (3 + if 0x33 < b.toNat then 3 else 0) r := by
    have hop : decode 0x25 = some (.jmp .jgt .k) := rfl
    refine run_jump (f := ⟨0x25, 3, 0, 0x33⟩) rfl hop ?_
    simp [step, Source.value, hgt]
  have hthird : run pkt cbpfBasic 3 r = .ret (b.toUInt32 - 0x30 ||| 0x80000000) := by
    rw [run_next (f := ⟨0x14, 0, 0, 0x30⟩) rfl rfl rfl,
      run_next (f := ⟨0x44, 0, 0, 0x80000000⟩) rfl rfl rfl,
      run_ret (f := ⟨0x16, 0, 0, 0⟩) rfl rfl rfl, ← h]
    rfl
  have hbounds : (0x30 ≤ b ∧ b ≤ 0x33) ↔ 0x30 ≤ b.toNat ∧ b.toNat ≤ 0x33 := by
    rw [UInt8.le_iff_toNat_le, UInt8.le_iff_toNat_le]
    rfl
  simp only [hbounds]
  rw [hfirst]
  by_cases hlow : 0x30 ≤ b.toNat
  · rw [if_pos hlow, hsecond]
    by_cases hhigh : 0x33 < b.toNat
    · rw [if_pos hhigh, if_neg (by omega)]
    · rw [if_neg hhigh, if_pos ⟨hlow, by omega⟩, hthird]
  · rw [if_neg hlow, if_neg (by omega)]

theorem run_basic : run pkt cbpfBasic 0 .zero = basicResult pkt.payload := by
  have hop : decode 0x30 = some (.ldAbs .byte) := rfl
  by_cases hempty : pkt.payload = []
  · have hload : pkt.load .byte 0 = none := load_eq_none (by rw [hempty]; decide)
    have hstep : step pkt (.ldAbs .byte) 0 0 0 .zero = (.zero, .fault .load) := by
      simp [step, hload, resume]
    rw [basicResult, if_pos hempty]
    exact run_fault (f := ⟨0x30, 0, 0, 0⟩) rfl hop hstep
  · have hload : pkt.load .byte 0 = some (pkt.payload.getD 0 0).toUInt32 :=
      load_byte (List.length_pos_of_ne_nil hempty)
    have hstep : step pkt (.ldAbs .byte) 0 0 0 .zero =
        ({ Regs.zero with a := (pkt.payload.getD 0 0).toUInt32 }, .next) := by
      simp [step, hload, resume]
    rw [basicResult, if_neg hempty, run_next (f := ⟨0x30, 0, 0, 0⟩) rfl hop hstep,
      run_basic_digit rfl, run_basic_cookie]

theorem interpretCbpf_basic (hmd : md.WellFormed) (hprog : d.program = cbpfBasic) :
    interpretCbpf md d = resultOf (basicResult md.packet.payload) := by
  have hlength : d.filterLen.toNat = 8 := by
    rw [← length_program, hprog]
    rfl
  have hsafe : safeProgram d.program = true := by
    rw [hprog]
    decide
  rw [interpretCbpf_of_plain hmd (by rw [hlength]; decide) (jumpsFit_of_safe hsafe)
    (runsPlain_of_safe hsafe), hprog, run_basic]

end Basic

/-! ### The program for QUIC -/

/-- `examples/cbpf-naive-quic.sh`. -/
def cbpfNaiveQuic : List Instr :=
  [⟨0x30, 0, 0, 0⟩, ⟨0x54, 0, 0, 0x80⟩, ⟨0x15, 0, 5, 0x80⟩, ⟨0x30, 0, 0, 5⟩, ⟨0x15, 0, 2, 0x10⟩,
    ⟨0x01, 0, 0, 6⟩, ⟨0x05, 0, 0, 3⟩, ⟨0x06, 0, 0, 0xffffffff⟩, ⟨0x01, 0, 0, 1⟩, ⟨0x05, 0, 0, 0⟩,
    ⟨0x48, 0, 0, 0⟩, ⟨0x16, 0, 0, 0⟩]

/-- The cookie of 16 bits at an offset of the payload. -/
def cookieAt (payload : List UInt8) (off : ℕ) : Result :=
  if payload.length < off + 2 then .fault .load
  else .ret (BigEndian.u16 payload off).toUInt32

/-- The cookie is in the destination connection ID: at offset 1 with a short header, and at
offset 6 with a long one, which must give a length of 16. -/
def naiveQuicResult (payload : List UInt8) : Result :=
  if payload = [] then .fault .load
  else if payload.getD 0 0 &&& 0x80 = 0 then cookieAt payload 1
  else if payload.length < 6 then .fault .load
  else if payload.getD 5 0 = 16 then cookieAt payload 6
  else .ret 0xffffffff

section NaiveQuic

variable {pkt : Packet}

/-- Where the program jumps, and how far. -/
theorem naive_jumps {distance : ℕ} {f : Instr} {r' : Regs} (hf : cbpfNaiveQuic[pc]? = some f)
    (hop : decode f.code = some op) (hstep : step pkt op f.jt f.jf f.k r = (r', .jump distance)) :
    r' = r ∧ ((pc = 2 ∧ (distance = 0 ∨ distance = 5)) ∨ (pc = 4 ∧ (distance = 0 ∨ distance = 2)) ∨
      (pc = 6 ∧ distance = 3) ∨ (pc = 9 ∧ distance = 0)) := by
  obtain ⟨rfl, hkind⟩ := eq_of_step_jump hstep
  have hpc : pc < 12 := (List.getElem?_eq_some_iff.mp hf).1
  refine ⟨rfl, ?_⟩
  interval_cases pc <;> obtain rfl := Option.some.inj hf <;> obtain rfl := Option.some.inj hop <;>
    rcases hkind with ⟨hja, hdist⟩ | ⟨cond, src, hjmp, hdist⟩ <;> first
      | cases hja
      | cases hjmp
  all_goals simpa using hdist

/-- From the instruction that sets it to the load, X is the offset of the cookie. -/
def OffsetSet (pc : ℕ) (r : Regs) : Prop :=
  (pc = 6 → r.x = 6) ∧ (pc = 9 → r.x = 1) ∧ (pc = 10 → r.x = 1 ∨ r.x = 6)

theorem offsetSet_of_visits (hv : Visits pkt cbpfNaiveQuic pc r) : OffsetSet pc r := by
  induction hv with
  | start => exact ⟨fun h => by omega, fun h => by omega, fun h => by omega⟩
  | @next pc r r' f op hv hf hop hstep ih =>
    refine ⟨fun h6 => ?_, fun h9 => ?_, fun h10 => ?_⟩
    · obtain rfl : pc = 5 := by omega
      cases hf
      cases hop
      cases hstep
      rfl
    · obtain rfl : pc = 8 := by omega
      cases hf
      cases hop
      cases hstep
      rfl
    · obtain rfl : pc = 9 := by omega
      cases hf
      cases hop
      cases hstep
  | @jump pc distance r r' f op hv hf hop hstep ih =>
    obtain ⟨rfl, hjump⟩ := naive_jumps hf hop hstep
    refine ⟨fun h6 => by omega, fun h9 => by omega, fun h10 => ?_⟩
    obtain h6 | h9 : pc = 6 ∨ pc = 9 := by omega
    · exact .inr (ih.1 h6)
    · exact .inl (ih.2.1 h9)

theorem plain_of_indirect {size : Size} (hop : f.op = some (.ldInd size))
    (hknown : f.op = decode f.code) (hoff : (r.x + f.k).toNat + 8 < 2 ^ 32) :
    Plain md f i r := by
  have hload : f.load r = some (size, r.x + f.k) := by rw [SockFilter.load, hop]
  refine ⟨hknown, fun op hop' huses => ?_, ?_⟩
  · cases hop.symm.trans hop'
    cases huses
  · rintro (⟨h, -⟩ | ⟨l, h, hreach, -⟩ | ⟨h, -⟩)
    · cases hop.symm.trans h
    · cases hload.symm.trans h
      exact absurd hreach (Nat.not_le.mpr hoff)
    · cases hop.symm.trans h

theorem instr_naive (hprog : d.program = cbpfNaiveQuic) (hpc : pc < d.filterLen.toNat) :
    cbpfNaiveQuic[pc]? = some (d.sockFilter pc).instr :=
  hprog ▸ getElem?_program hpc

/-- Every instruction but the load through X is right on every packet. -/
theorem safe_naive {f : Instr} (hf : cbpfNaiveQuic[pc]? = some f) (hpc : pc ≠ 10) :
    (sockFilterOf f).safe pc = true := by
  have hlt : pc < 12 := (List.getElem?_eq_some_iff.mp hf).1
  interval_cases pc <;> first
    | exact absurd rfl hpc
    | (cases hf; rfl)

theorem runsPlain_naive (hprog : d.program = cbpfNaiveQuic) : RunsPlain md d := by
  intro pc r hv hlt
  have hf := instr_naive hprog hlt
  by_cases hpc : pc = 10
  · subst hpc
    have hsf : d.sockFilter 10 = ⟨0x48, 0, 0, 0⟩ :=
      congrArg sockFilterOf (Option.some.inj hf).symm
    have hx := (offsetSet_of_visits (hprog ▸ hv)).2.2 rfl
    have hoff : (r.x + 0).toNat + 8 < 2 ^ 32 := by
      rcases hx with h | h <;> rw [h] <;> decide
    have hop : (⟨0x48, 0, 0, 0⟩ : SockFilter).op = some (.ldInd .half) := rfl
    rw [hsf]
    exact plain_of_indirect hop rfl hoff
  · exact plain_of_safe (safe_naive hf hpc) md r

theorem jumpsFit_naive (hprog : d.program = cbpfNaiveQuic) : JumpsFit d := by
  intro i hi hop
  have hf := instr_naive hprog hi
  by_cases hpc : i = 10
  · subst hpc
    have hsf : d.sockFilter 10 = ⟨0x48, 0, 0, 0⟩ :=
      congrArg sockFilterOf (Option.some.inj hf).symm
    rw [hsf] at hop
    cases hop
  · have h : (d.sockFilter i).safe i = true := safe_naive hf hpc
    rw [SockFilter.safe, Bool.and_eq_true, hop, Option.all_some] at h
    exact of_decide_eq_true h.2

/-- `parse_dcid`: the cookie is at the offset in X. -/
theorem run_parse_dcid {n : ℕ} (hx : r.x.toNat = n) :
    run pkt cbpfNaiveQuic 10 r = cookieAt pkt.payload n := by
  have hfetch : cbpfNaiveQuic[10]? = some ⟨0x48, 0, 0, 0⟩ := rfl
  have hop : decode 0x48 = some (.ldInd .half) := rfl
  have hzero : r.x + 0 = r.x := UInt32.add_zero r.x
  unfold cookieAt
  split_ifs with hshort
  · have hload : pkt.load .half r.x = none := load_eq_none (hx.symm ▸ hshort)
    have hstep : step pkt (.ldInd .half) 0 0 0 r = (r, .fault .load) := by
      simp [step, hload, resume]
    exact run_fault hfetch hop hstep
  · have hload : pkt.load .half r.x = some (BigEndian.u16 pkt.payload n).toUInt32 := by
      rw [← hx]
      exact load_half (by omega)
    have hstep : step pkt (.ldInd .half) 0 0 0 r =
        ({ r with a := (BigEndian.u16 pkt.payload n).toUInt32 }, .next) := by
      simp [step, hload, resume]
    rw [run_next hfetch hop hstep]
    exact run_ret (f := ⟨0x16, 0, 0, 0⟩) rfl rfl rfl

theorem run_short_form : run pkt cbpfNaiveQuic 8 r = cookieAt pkt.payload 1 := by
  rw [run_next (f := ⟨0x01, 0, 0, 1⟩) rfl rfl rfl, run_jump (f := ⟨0x05, 0, 0, 0⟩) rfl rfl rfl]
  exact run_parse_dcid rfl

theorem run_long_form :
    run pkt cbpfNaiveQuic 3 r =
      if pkt.payload.length < 6 then .fault .load
      else if pkt.payload.getD 5 0 = 16 then cookieAt pkt.payload 6
      else .ret 0xffffffff := by
  have hfetch : cbpfNaiveQuic[3]? = some ⟨0x30, 0, 0, 5⟩ := rfl
  have hop : decode 0x30 = some (.ldAbs .byte) := rfl
  by_cases hshort : pkt.payload.length < 6
  · have hload : pkt.load .byte 5 = none := load_eq_none hshort
    have hstep : step pkt (.ldAbs .byte) 0 0 5 r = (r, .fault .load) := by
      simp [step, hload, resume]
    rw [if_pos hshort, run_fault hfetch hop hstep]
  · have hload : pkt.load .byte 5 = some (pkt.payload.getD 5 0).toUInt32 :=
      load_byte (show 5 < _ by omega)
    have hstep : step pkt (.ldAbs .byte) 0 0 5 r =
        ({ r with a := (pkt.payload.getD 5 0).toUInt32 }, .next) := by
      simp [step, hload, resume]
    rw [if_neg hshort, run_next hfetch hop hstep]
    have hjump : ∀ r, run pkt cbpfNaiveQuic 4 r =
        run pkt cbpfNaiveQuic (5 + if r.a = 16 then 0 else 2) r := fun r =>
      run_jeq (f := ⟨0x15, 0, 2, 16⟩) rfl rfl
    rw [hjump]
    by_cases h16 : pkt.payload.getD 5 0 = 16
    · have heq : (pkt.payload.getD 5 0).toUInt32 = 16 := congrArg UInt8.toUInt32 h16
      rw [if_pos h16, if_pos heq, run_next (f := ⟨0x01, 0, 0, 6⟩) rfl rfl rfl,
        run_jump (f := ⟨0x05, 0, 0, 3⟩) rfl rfl rfl]
      exact run_parse_dcid rfl
    · have hne : ¬ (pkt.payload.getD 5 0).toUInt32 = 16 := fun h => h16 (by
        have hnat := congrArg UInt32.toNat h
        rw [UInt8.toNat_toUInt32] at hnat
        exact UInt8.toNat_inj.mp hnat)
      rw [if_neg h16, if_neg hne]
      exact run_ret (f := ⟨0x06, 0, 0, 0xffffffff⟩) rfl rfl rfl

/-- The first bit decides between the two forms. -/
theorem run_form :
    run pkt cbpfNaiveQuic 1 r =
      if r.a &&& 0x80 = 0x80 then run pkt cbpfNaiveQuic 3 { r with a := r.a &&& 0x80 }
      else run pkt cbpfNaiveQuic 8 { r with a := r.a &&& 0x80 } := by
  have hand : run pkt cbpfNaiveQuic 1 r = run pkt cbpfNaiveQuic 2 { r with a := r.a &&& 0x80 } :=
    run_next (f := ⟨0x54, 0, 0, 0x80⟩) rfl rfl rfl
  rw [hand, run_jeq (f := ⟨0x15, 0, 5, 0x80⟩) rfl rfl]
  split_ifs <;> rfl

theorem form_bit (b : UInt8) :
    (b &&& 0x80 = 0 ∧ b.toUInt32 &&& 0x80 = 0) ∨ (b &&& 0x80 ≠ 0 ∧ b.toUInt32 &&& 0x80 = 0x80) := by
  have hall : ∀ b : BitVec 8, (b &&& 0x80 = 0 ∧ b.setWidth 32 &&& 0x80 = 0) ∨
      (b &&& 0x80 ≠ 0 ∧ b.setWidth 32 &&& 0x80 = 0x80) := by decide +kernel
  simpa [← UInt8.toBitVec_inj, ← UInt32.toBitVec_inj] using hall b.toBitVec

theorem run_naive_quic : run pkt cbpfNaiveQuic 0 .zero = naiveQuicResult pkt.payload := by
  have hfetch : cbpfNaiveQuic[0]? = some ⟨0x30, 0, 0, 0⟩ := rfl
  have hop : decode 0x30 = some (.ldAbs .byte) := rfl
  unfold naiveQuicResult
  by_cases hempty : pkt.payload = []
  · have hload : pkt.load .byte 0 = none := load_eq_none (by rw [hempty]; decide)
    have hstep : step pkt (.ldAbs .byte) 0 0 0 .zero = (.zero, .fault .load) := by
      simp [step, hload, resume]
    rw [if_pos hempty, run_fault hfetch hop hstep]
  · have hload : pkt.load .byte 0 = some (pkt.payload.getD 0 0).toUInt32 :=
      load_byte (List.length_pos_of_ne_nil hempty)
    have hstep : step pkt (.ldAbs .byte) 0 0 0 .zero =
        ({ Regs.zero with a := (pkt.payload.getD 0 0).toUInt32 }, .next) := by
      simp [step, hload, resume]
    rw [if_neg hempty, run_next hfetch hop hstep, run_form]
    rcases form_bit (pkt.payload.getD 0 0) with ⟨hbit, hmask⟩ | ⟨hbit, hmask⟩
    · have hne : ¬ (pkt.payload.getD 0 0).toUInt32 &&& 0x80 = 0x80 := by
        rw [hmask]
        decide
      rw [if_pos hbit, if_neg hne, run_short_form]
    · rw [if_neg hbit, if_pos hmask, run_long_form]

theorem interpretCbpf_naive_quic (hmd : md.WellFormed) (hprog : d.program = cbpfNaiveQuic) :
    interpretCbpf md d = resultOf (naiveQuicResult md.packet.payload) := by
  have hlength : d.filterLen.toNat = 12 := by
    rw [← length_program, hprog]
    rfl
  have hrun := interpretCbpf_of_plain hmd (by rw [hlength]; decide) (jumpsFit_naive hprog)
    (runsPlain_naive hprog)
  rw [hrun, hprog, run_naive_quic]

end NaiveQuic

theorem u16_drop (bytes : List UInt8) (n off : ℕ) :
    BigEndian.u16 (bytes.drop n) off = BigEndian.u16 bytes (n + off) := by
  rw [BigEndian.u16, BigEndian.u16, LittleEndian.field, LittleEndian.field, List.drop_drop]

theorem getD_drop (bytes : List UInt8) (n i : ℕ) :
    (bytes.drop n).getD i 0 = bytes.getD (n + i) 0 := by
  simp [List.getD_eq_getElem?_getD]

section Shipped

variable {p : Programs} {st : ReuseportStorage}

/-- The value for an application, and the cookie of 16 bits. -/
theorem dissectedBy_app {n : UInt32} (h : n ≤ 3) :
    dissectedBy st (.ret (n ||| 0x80000000)) =
      .haveCookie NO_COOKIE (if n < st.dis.maxApps then n else 0) := by
  have hn : n = 0 ∨ n = 1 ∨ n = 2 ∨ n = 3 := by
    have hle : n.toNat ≤ 3 := h
    simp only [← UInt32.toNat_inj]
    change n.toNat = 0 ∨ n.toNat = 1 ∨ n.toNat = 2 ∨ n.toNat = 3
    omega
  have hsub : (n ||| 0x80000000) - 0x80000000 = n ∧ n ||| 0x80000000 > 0xffff := by
    rcases hn with rfl | rfl | rfl | rfl <;> decide
  rw [dissectedBy, hsub.1, if_pos hsub.2]
  split_ifs <;> rfl

theorem dissectedBy_cookie (hmax : st.dis.maxApps ≤ 4) (grm : UInt16) :
    dissectedBy st (.ret grm.toUInt32) = .haveCookie (cookieOfGrm st grm) 0 := by
  have hmax : st.dis.maxApps.toNat ≤ 4 := hmax
  have hlt := grm.toNat_lt
  have hnat : grm.toUInt32.toNat = grm.toNat := UInt16.toNat_toUInt32 grm
  have hsub : (grm.toUInt32 - 0x80000000).toNat = 0x80000000 + grm.toNat := by
    rw [UInt32.toNat_sub, hnat]
    exact show (2 ^ 32 - 0x80000000 + grm.toNat) % 2 ^ 32 = _ by omega
  have happ : ¬ grm.toUInt32 - 0x80000000 < st.dis.maxApps := by
    rw [UInt32.lt_iff_toNat_lt, hsub]
    omega
  have hsmall : ¬ grm.toUInt32 > 0xffff := by
    rw [gt_iff_lt, UInt32.lt_iff_toNat_lt, hnat]
    exact show ¬ 0xffff < grm.toNat by omega
  rw [dissectedBy, if_neg happ, if_neg hsmall]
  simp

theorem digit_le {b : UInt8} (h : 0x30 ≤ b ∧ b ≤ 0x33) : b.toUInt32 - 0x30 ≤ 3 := by
  have hlow : 0x30 ≤ b.toNat := h.1
  have hhigh : b.toNat ≤ 0x33 := h.2
  have hle : (0x30 : UInt32) ≤ b.toUInt32 := by
    rw [UInt32.le_iff_toNat_le, UInt8.toNat_toUInt32]
    exact hlow
  rw [UInt32.le_iff_toNat_le, UInt32.toNat_sub_of_le _ _ hle, UInt8.toNat_toUInt32]
  exact show b.toNat - 0x30 ≤ 3 by omega

/-- What the first program is for. -/
def basicDissected (st : ReuseportStorage) (data : List UInt8) : Dissected :=
  let b := data.getD 8 0
  if data.length ≤ 8 then .skbLoadBytesError
  else if 0x30 ≤ b ∧ b ≤ 0x33 then
    .haveCookie NO_COOKIE
      (if b.toUInt32 - 0x30 < st.dis.maxApps then b.toUInt32 - 0x30 else 0)
  else if data.length < 11 then .skbLoadBytesError
  else .haveCookie (cookieOfGrm st (BigEndian.u16 data 9)) 0

/-- With `cbpf-basic.sh`, a packet that starts with an ASCII digit is a new flow of that
application, and any other packet is one of the socket whose cookie is in its next two bytes. -/
theorem basic_program_dissects (hmd : md.WellFormed) (hkind : st.dis.kind = some .cbpf)
    (hdigest : st.dis.bespokeDigest = 0) (hmax : st.dis.maxApps ≤ 4)
    (hprog : st.dis.program = cbpfBasic) :
    firstStage p.withInterpreter md st = basicDissected st md.data := by
  have hpayload : md.packet.payload = md.data.drop 8 := rfl
  have hempty : md.data.drop 8 = [] ↔ md.data.length ≤ 8 := List.drop_eq_nil_iff
  have hshort : (md.data.drop 8).length < 3 ↔ md.data.length < 11 := by
    have hheader := hmd.header
    rw [List.length_drop]
    omega
  rw [firstStage_of_result hkind hdigest (interpretCbpf_basic hmd hprog), basicResult, hpayload,
    basicDissected]
  simp only [hempty, hshort, getD_drop, u16_drop, Nat.add_zero]
  by_cases h8 : md.data.length ≤ 8
  · rw [if_pos h8, if_pos h8]
    rfl
  · rw [if_neg h8, if_neg h8]
    by_cases hdigit : 0x30 ≤ md.data.getD 8 0 ∧ md.data.getD 8 0 ≤ 0x33
    · rw [if_pos hdigit, if_pos hdigit, dissectedBy_app (digit_le hdigit)]
    · rw [if_neg hdigit, if_neg hdigit]
      by_cases h11 : md.data.length < 11
      · rw [if_pos h11, if_pos h11]
        rfl
      · rw [if_neg h11, if_neg h11, dissectedBy_cookie hmax]

/-- A payload that starts with the digit 0. -/
theorem basic_program_dissects_digit :
    firstStage (Programs.withInterpreter .const)
        ⟨0, 0, 10, [], [0, 0, 0, 0, 0, 0, 0, 0, 0x30, 0]⟩ (storageOf cbpfBasic) =
      .haveCookie NO_COOKIE 0 := by
  rw [basic_program_dissects (by decide) rfl rfl (by decide) (by decide +kernel)]
  decide +kernel

/-- The cookie at an offset of the datagram. -/
def cookieDissected (st : ReuseportStorage) (data : List UInt8) (off : ℕ) : Dissected :=
  if data.length < off + 2 then .skbLoadBytesError
  else .haveCookie (cookieOfGrm st (BigEndian.u16 data off)) 0

theorem dissectedBy_cookieAt (hmax : st.dis.maxApps ≤ 4) {data : List UInt8}
    (hheader : 8 ≤ data.length) (off : ℕ) :
    dissectedBy st (cookieAt (data.drop 8) off) = cookieDissected st data (8 + off) := by
  have hshort : (data.drop 8).length < off + 2 ↔ data.length < 8 + off + 2 := by
    rw [List.length_drop]
    omega
  unfold cookieAt cookieDissected
  simp only [hshort, u16_drop]
  split_ifs
  · rfl
  · exact dissectedBy_cookie hmax _

/-- What the second program is for. -/
def naiveQuicDissected (st : ReuseportStorage) (data : List UInt8) : Dissected :=
  if data.length ≤ 8 then .skbLoadBytesError
  else if data.getD 8 0 &&& 0x80 = 0 then cookieDissected st data 9
  else if data.length < 14 then .skbLoadBytesError
  else if data.getD 13 0 = 16 then cookieDissected st data 14
  else .haveCookie NO_COOKIE 0

theorem dissectedBy_minus_one (hmax : st.dis.maxApps ≤ 4) :
    dissectedBy st (.ret 0xffffffff) = .haveCookie NO_COOKIE 0 := by
  have hmax : st.dis.maxApps.toNat ≤ 4 := hmax
  have happ : ¬ (0xffffffff : UInt32) - 0x80000000 < st.dis.maxApps := by
    rw [UInt32.lt_iff_toNat_lt]
    exact show ¬ 0x7fffffff < st.dis.maxApps.toNat by omega
  rw [dissectedBy, if_neg happ, if_pos (by decide)]

/-- With `cbpf-naive-quic.sh`, the cookie of a packet is in its destination connection ID, and a
long header with a connection ID of another length is a new flow of the first application. -/
theorem firstStage_naive_quic (hmd : md.WellFormed) (hkind : st.dis.kind = some .cbpf)
    (hdigest : st.dis.bespokeDigest = 0) (hmax : st.dis.maxApps ≤ 4)
    (hprog : st.dis.program = cbpfNaiveQuic) :
    firstStage p.withInterpreter md st = naiveQuicDissected st md.data := by
  have hheader := hmd.header
  have hpayload : md.packet.payload = md.data.drop 8 := rfl
  have hempty : md.data.drop 8 = [] ↔ md.data.length ≤ 8 := List.drop_eq_nil_iff
  have hshort : (md.data.drop 8).length < 6 ↔ md.data.length < 14 := by
    rw [List.length_drop]
    omega
  rw [firstStage_of_result hkind hdigest (interpretCbpf_naive_quic hmd hprog), naiveQuicResult,
    hpayload, naiveQuicDissected]
  simp only [hempty, hshort, getD_drop, Nat.add_zero]
  split_ifs
  · rfl
  · exact dissectedBy_cookieAt hmax hheader 1
  · rfl
  · exact dissectedBy_cookieAt hmax hheader 6
  · exact dissectedBy_minus_one hmax

end Shipped

end Udpgrm
