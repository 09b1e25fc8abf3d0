import Udpgrm.Cbpf

/-! The loop that skips ahead against a machine with a program counter. -/
namespace Udpgrm

open ClassicBpf

variable {md : Md} {d : Dissector} {c : InterpretCtx} {f : SockFilter} {r r' : Regs}
  {i n pc : ℕ}

/-! ### The machine -/

/-- What a run showed: the indices of the instructions it executed, its code and its value. -/
structure Report where
  trace : List ℕ
  code : IErr
  retval : UInt32
deriving DecidableEq, Repr

def Report.cons (pc : ℕ) (rep : Report) : Report := { rep with trace := pc :: rep.trace }

/-- The direct machine: it executes the instruction at `pc` and goes on behind it, or behind it
by the distance of a jump. -/
def pcRun (md : Md) (d : Dissector) (retval : UInt32) (pc : ℕ) (r : Regs) : Report :=
  if pc < d.filterLen.toNat then
    match interpretInstr md (d.sockFilter pc) r with
    | (r', .next) => (pcRun md d retval (pc + 1) r').cons pc
    | (r', .jump distance) => (pcRun md d retval (pc + 1 + distance.toNat) r').cons pc
    | (_, .ret v) => ⟨[pc], .ok, v⟩
    | (_, .fault e) => ⟨[pc], e, retval⟩
  else ⟨[], .instrExceeded, retval⟩
termination_by d.filterLen.toNat - pc

/-- The indices at which the callback gets to its switch, from index `i` on with `n` calls
left. -/
def executed (md : Md) (d : Dissector) : ℕ → ℕ → InterpretCtx → List ℕ
  | _, 0, _ => []
  | i, n + 1, c =>
    let rest :=
      match doInterpretLoop md d (UInt32.ofNat i) c with
      | (_, true) => []
      | (c', false) => executed md d (i + 1) n c'
    if UInt32.ofNat i < c.nextIndex ∨ MAX_INSTR ≤ i then rest else i :: rest

/-- No unconditional jump of the program leaves the range of its 32-bit counter. -/
def JumpsFit (d : Dissector) : Prop :=
  ∀ i < d.filterLen.toNat, (d.sockFilter i).op = some .ja →
    i + 1 + (d.sockFilter i).k.toNat < 2 ^ 32

instance (d : Dissector) : Decidable (JumpsFit d) :=
  inferInstanceAs (Decidable (∀ i < d.filterLen.toNat, _))

/-! ### How an instruction ends -/

/-- Every case of the switch goes on, jumps, returns or faults with one of two codes. Only
BPF_JA jumps by more than a byte. -/
def Exit.Allowed (f : SockFilter) : Exit → Prop
  | .next | .ret _ => True
  | .jump distance => (f.op = some .ja ∧ distance = f.k) ∨ distance.toNat < 256
  | .fault e => e = .load ∨ e = .badInstr

theorem extractTo_allowed (size : Size) (off : UInt32) (set : UInt32 → Regs) :
    (extractTo md size off r set).2.Allowed f := by
  unfold extractTo
  split
  · trivial
  · exact .inl rfl

theorem branch_allowed (taken : Bool) : (branch f taken).Allowed f := by
  refine .inr ?_
  rw [UInt8.toNat_toUInt32]
  exact UInt8.toNat_lt _

theorem interpretInstr_allowed (md : Md) (f : SockFilter) (r : Regs) :
    (interpretInstr md f r).2.Allowed f := by
  unfold interpretInstr
  cases hop : f.op with
  | none => exact .inr rfl
  | some op =>
    simp only
    unfold interpretOp
    split <;> first
      | exact trivial
      | exact extractTo_allowed ..
      | exact branch_allowed _
      | exact .inl ⟨hop, rfl⟩
      | skip
    · split
      · trivial
      · exact extractTo_allowed ..
    all_goals
      split
      · exact .inr rfl
      · trivial

/-! ### The simulation -/

/-- What the loop shows from index `i` on. -/
def loopReport (md : Md) (d : Dissector) (i n : ℕ) (c : InterpretCtx) : Report :=
  ⟨executed md d i n c, (bpfLoop (doInterpretLoop md d) i n c).retcode,
    (bpfLoop (doInterpretLoop md d) i n c).retval⟩

theorem toNat_index (hi : i < MAX_INSTR) : (UInt32.ofNat i).toNat = i := by
  rw [UInt32.toNat_ofNat']
  exact Nat.mod_eq_of_lt (lt_trans hi (by decide))

/-- A call for an index at or behind the stored target executes the instruction there. -/
theorem doInterpretLoop_execute (hi : i < MAX_INSTR) (hc : c.nextIndex.toNat ≤ i) :
    doInterpretLoop md d (UInt32.ofNat i) c =
      match interpretInstr md (d.sockFilter i) c.r with
      | (r', .next) => ({ c with r := r' }, false)
      | (r', .jump distance) =>
        ({ c with r := r', nextIndex := 1 + UInt32.ofNat i + distance }, false)
      | (r', .ret v) => ({ c with r := r', retcode := .ok, retval := v }, true)
      | (r', .fault e) => ({ c with r := r', retcode := e }, true) := by
  have hskip : ¬ UInt32.ofNat i < c.nextIndex := by
    rw [UInt32.lt_iff_toNat_lt, toNat_index hi]
    omega
  have hmax : ¬ MAX_INSTR ≤ i := Nat.not_le.mpr hi
  cases hstep : interpretInstr md (d.sockFilter i) c.r with
  | mk r' flow =>
    cases flow <;> simp only [doInterpretLoop, if_neg hskip, toNat_index hi, if_neg hmax, hstep]

/-- A call for an index below the stored target does nothing. -/
theorem loopReport_skip (h : UInt32.ofNat i < c.nextIndex) :
    loopReport md d i (n + 1) c = loopReport md d (i + 1) n c := by
  simp [loopReport, executed, bpfLoop, doInterpretLoop, h]

theorem loopReport_execute (hi : i < MAX_INSTR) (hc : c.nextIndex.toNat ≤ i) :
    loopReport md d i (n + 1) c =
      match interpretInstr md (d.sockFilter i) c.r with
      | (r', .next) => (loopReport md d (i + 1) n { c with r := r' }).cons i
      | (r', .jump distance) =>
        (loopReport md d (i + 1) n
          { c with r := r', nextIndex := 1 + UInt32.ofNat i + distance }).cons i
      | (_, .ret v) => ⟨[i], .ok, v⟩
      | (_, .fault e) => ⟨[i], e, c.retval⟩ := by
  have hskip : ¬ (UInt32.ofNat i < c.nextIndex ∨ MAX_INSTR ≤ i) := by
    rw [UInt32.lt_iff_toNat_lt, toNat_index hi]
    omega
  simp only [loopReport, executed, bpfLoop, doInterpretLoop_execute hi hc, if_neg hskip]
  rcases interpretInstr md (d.sockFilter i) c.r with ⟨r', _ | _ | _ | _⟩ <;> rfl

/-- The counter of the machine is the index of the loop, or the target it skips to. -/
theorem loopReport_eq_pcRun (hmax : d.filterLen.toNat ≤ MAX_INSTR) (hfit : JumpsFit d)
    (hn : i + n = d.filterLen.toNat) (hc : c.retcode = .instrExceeded) :
    loopReport md d i n c = pcRun md d c.retval (max i c.nextIndex.toNat) c.r := by
  have h64 : MAX_INSTR = 64 := rfl
  -- induction on the calls that are left, for every context that has not stopped
  induction n generalizing i c with
  | zero =>
    rw [pcRun, if_neg (by omega)]
    simp [loopReport, executed, bpfLoop, hc]
  | succ n ih =>
    have hi : i < d.filterLen.toNat := by omega
    have hnat : (UInt32.ofNat i).toNat = i := toNat_index (by omega)
    by_cases hskip : UInt32.ofNat i < c.nextIndex
    · have hlt : i < c.nextIndex.toNat := hnat ▸ hskip
      rw [loopReport_skip hskip, ih (by omega) hc, max_eq_right (by omega),
        max_eq_right (by omega)]
    · have hle : c.nextIndex.toNat ≤ i := by
        rw [UInt32.lt_iff_toNat_lt, hnat] at hskip
        omega
      have hallowed := interpretInstr_allowed md (d.sockFilter i) c.r
      rw [loopReport_execute (by omega) hle, max_eq_left hle, pcRun, if_pos hi]
      rcases hx : interpretInstr md (d.sockFilter i) c.r with ⟨r', _ | distance | v | e⟩
      · simp only
        rw [ih (c := { c with r := r' }) (by omega) hc, max_eq_left (by simp only; omega)]
      · have hdist : i + 1 + distance.toNat < 2 ^ 32 := by
          rw [hx] at hallowed
          rcases hallowed with ⟨hja, rfl⟩ | hbyte
          · exact hfit i hi hja
          · omega
        have hnext : (1 + UInt32.ofNat i + distance).toNat = i + 1 + distance.toNat := by
          rw [UInt32.toNat_add, UInt32.toNat_add, hnat]
          simp
          omega
        simp only
        rw [ih (c := { c with r := r', nextIndex := 1 + UInt32.ofNat i + distance }) (by omega) hc,
          hnext, max_eq_right (by omega)]
      · rfl
      · rfl

/-! ### What the machine executes -/

/-- The executed indices grow, from `pc` to the end of the program, and no run ends with
IERR_SANITY. -/
structure Report.Sound (d : Dissector) (pc : ℕ) (rep : Report) : Prop where
  increasing : rep.trace.Pairwise (· < ·)
  bounds : ∀ i ∈ rep.trace, pc ≤ i ∧ i < d.filterLen.toNat
  code : rep.code ≠ .sanity

theorem Report.Sound.cons {pc' : ℕ} {rep : Report} (h : rep.Sound d pc') (hlt : pc < pc')
    (hpc : pc < d.filterLen.toNat) : (rep.cons pc).Sound d pc where
  increasing := List.pairwise_cons.mpr ⟨fun i hi => lt_of_lt_of_le hlt (h.bounds i hi).1,
    h.increasing⟩
  bounds := by
    intro i hi
    rcases List.mem_cons.mp hi with rfl | hi
    · exact ⟨le_rfl, hpc⟩
    · have := h.bounds i hi
      omega
  code := h.code

theorem Report.sound_single {code : IErr} {v : UInt32} (hpc : pc < d.filterLen.toNat)
    (hcode : code ≠ .sanity) : Report.Sound d pc ⟨[pc], code, v⟩ where
  increasing := List.pairwise_singleton ..
  bounds := by
    intro i hi
    obtain rfl := List.mem_singleton.mp hi
    exact ⟨le_rfl, hpc⟩
  code := hcode

theorem pcRun_sound (md : Md) (d : Dissector) (v : UInt32) (pc : ℕ) (r : Regs) :
    (pcRun md d v pc r).Sound d pc := by
  fun_induction pcRun md d v pc r with
  | case1 pc r hpc r' hx ih => exact ih.cons (Nat.lt_succ_self pc) hpc
  | case2 pc r hpc r' distance hx ih => exact ih.cons (by omega) hpc
  | case3 pc r hpc r' value hx => exact Report.sound_single hpc (by decide)
  | case4 pc r hpc r' e hx =>
    have hallowed := interpretInstr_allowed md (d.sockFilter pc) r
    rw [hx] at hallowed
    refine Report.sound_single hpc ?_
    rcases hallowed with rfl | rfl <;> decide
  | case5 pc r hpc => exact ⟨List.Pairwise.nil, by simp, nofun⟩

/-- The loop that ignores indices up to its target is the machine with a program counter: it
returns the same code and the same value and executes the same instructions, each of them once
and inside the program, and never ends with IERR_SANITY. -/
theorem interpret_cbpf_is_machine (hmax : d.filterLen.toNat ≤ MAX_INSTR) (hfit : JumpsFit d) :
    interpretCbpf md d = ((pcRun md d 0 0 .zero).code, (pcRun md d 0 0 .zero).retval) ∧
      executed md d 0 d.filterLen.toNat .initial = (pcRun md d 0 0 .zero).trace ∧
      (∀ i ∈ executed md d 0 d.filterLen.toNat .initial, i < d.filterLen.toNat) ∧
      (executed md d 0 d.filterLen.toNat .initial).Nodup ∧
      (interpretCbpf md d).1 ≠ .sanity := by
  have hsim : loopReport md d 0 d.filterLen.toNat .initial = pcRun md d 0 0 .zero :=
    loopReport_eq_pcRun hmax hfit (Nat.zero_add _) rfl
  have hsound := pcRun_sound md d 0 0 .zero
  have hres : interpretCbpf md d =
      ((pcRun md d 0 0 .zero).code, (pcRun md d 0 0 .zero).retval) := by
    rw [← hsim]
    rfl
  have htrace : executed md d 0 d.filterLen.toNat .initial = (pcRun md d 0 0 .zero).trace := by
    rw [← hsim]
    rfl
  refine ⟨hres, htrace, ?_, ?_, ?_⟩
  · intro i hi
    exact (hsound.bounds i (htrace ▸ hi)).2
  · rw [htrace]
    exact hsound.increasing.imp fun h => Nat.ne_of_lt h
  · rw [hres]
    exact hsound.code

def SockFilter.toBytes (f : SockFilter) : List UInt8 :=
  LittleEndian.ofNat 2 f.code.toNat ++ [f.jt, f.jf] ++ LittleEndian.ofNat 4 f.k.toNat

/-- A cBPF dissector with a program. -/
def Dissector.ofProgram (fs : List SockFilter) : Dissector :=
  { Dissector.empty with
    dissectorType := 1
    filterLen := UInt32.ofNat fs.length
    filter := Vector.ofFn fun i => (fs.flatMap SockFilter.toBytes).getD i 0 }

/-- A jump over an unknown instruction to `ret 7`. -/
def jumpOver : Dissector :=
  .ofProgram [⟨BPF_JMP ||| BPF_JA, 0, 0, 1⟩, ⟨999, 0, 0, 0⟩, ⟨BPF_RET ||| BPF_K, 0, 0, 7⟩]

theorem interpret_cbpf_is_machine_jump :
    JumpsFit jumpOver ∧
      interpretCbpf ⟨0, 0, 8, [], List.replicate 8 0⟩ jumpOver = (.ok, 7) ∧
      executed ⟨0, 0, 8, [], List.replicate 8 0⟩ jumpOver 0 3 .initial = [0, 2] ∧
      (executed ⟨0, 0, 8, [], List.replicate 8 0⟩ jumpOver 0 3 .initial).Nodup := by
  have hfit : JumpsFit jumpOver := by decide +kernel
  exact ⟨hfit, by decide +kernel, by decide +kernel,
    (interpret_cbpf_is_machine (by decide) hfit).2.2.2.1⟩

end Udpgrm
