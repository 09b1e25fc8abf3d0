import Udpgrm.CbpfMachine
import Udpgrm.Setsockopt

/-! The instructions of the interpreter against classic BPF on the UDP payload. -/
namespace Udpgrm

open ClassicBpf

variable {md : Md} {d : Dissector} {c : InterpretCtx} {f : SockFilter} {r : Regs} {op : Op}
  {size : Size} {off : UInt32} {i : ℕ}

/-! ### Packets -/

/-- A packet as the reuseport program gets it: `data` is all of it from the UDP header on. -/
structure Md.WellFormed (md : Md) : Prop where
  len_eq : md.len.toNat = md.data.length
  header : 8 ≤ md.data.length
  small : md.data.length ≤ 0x7fffffff

instance (md : Md) : Decidable md.WellFormed :=
  decidable_of_iff (md.len.toNat = md.data.length ∧ 8 ≤ md.data.length ∧
    md.data.length ≤ 0x7fffffff)
    ⟨fun h => ⟨h.1, h.2.1, h.2.2⟩, fun h => ⟨h.len_eq, h.header, h.small⟩⟩

/-- What classic BPF sees of it. -/
def Md.packet (md : Md) : Packet :=
  ⟨md.data.drop 8, UInt16.ofNat (BigEndian.toNat (LittleEndian.ofNat 2 md.ethProtocol.toNat))⟩

theorem length_payload (md : Md) :
    md.packet.payload.length = md.data.length - 8 := List.length_drop

/-! ### Loads -/

/-- The offset is within eight bytes of the largest one, so that the sum with the size of the
UDP header wraps into it, and the packet has the bytes there. -/
def ReachesHeader (md : Md) (size : Size) (off : UInt32) : Prop :=
  2 ^ 32 ≤ off.toNat + 8 ∧ off.toNat + 8 - 2 ^ 32 + size.bytes ≤ md.data.length

instance (md : Md) (size : Size) (off : UInt32) : Decidable (ReachesHeader md size off) :=
  inferInstanceAs (Decidable (_ ∧ _))

/-- The bytes as the helper loads them. -/
def extractBytes (md : Md) (size : Size) (off : UInt32) : Option (List UInt8) :=
  skbLoadBytes md (UDPHDR + off) size.bytes

theorem length_of_skbLoadBytes {n : ℕ} {v : List UInt8} (h : skbLoadBytes md off n = some v) :
    v.length = n := by
  unfold skbLoadBytes at h
  split_ifs at h
  exact length_of_loadBytes h

/-- The three macros read a big-endian number. -/
theorem extract_eq (md : Md) (size : Size) (off : UInt32) :
    extract md size off =
      (extractBytes md size off).map fun v => UInt32.ofNat (BigEndian.toNat v) := by
  cases size with
  | word =>
    refine Option.map_congr fun v hv => ?_
    have hlen : v.length = 4 := length_of_skbLoadBytes hv
    rw [bpfNtohl, LittleEndian.ofNat_u32 (by omega), LittleEndian.field, List.drop_zero,
      List.take_of_length_le (by omega)]
  | half =>
    refine Option.map_congr fun v hv => ?_
    have hlen : v.length = 2 := length_of_skbLoadBytes hv
    have hlt := BigEndian.toNat_lt v
    rw [bpfNtohs, LittleEndian.ofNat_u16 (by omega), LittleEndian.field, List.drop_zero,
      List.take_of_length_le (by omega)]
    apply UInt32.toNat_inj.mp
    rw [hlen] at hlt
    rw [UInt16.toNat_toUInt32, UInt16.toNat_ofNat', UInt32.toNat_ofNat']
    omega
  | byte =>
    refine Option.map_congr fun v hv => ?_
    have hlen : v.length = 1 := length_of_skbLoadBytes hv
    obtain ⟨b, rfl⟩ := List.length_eq_one_iff.mp hlen
    simp [BigEndian.toNat, LittleEndian.toNat]

theorem toNat_udphdr_add (off : UInt32) :
    (UDPHDR + off).toNat = (8 + off.toNat) % 2 ^ 32 := UInt32.toNat_add ..

/-- Where the sum does not wrap, a load is one of the payload. -/
theorem extract_of_fits (hmd : md.WellFormed) (h : off.toNat + 8 < 2 ^ 32) :
    extract md size off = md.packet.load size off := by
  have hoff : (UDPHDR + off).toNat = 8 + off.toNat := by
    rw [toNat_udphdr_add]
    exact Nat.mod_eq_of_lt (by omega)
  have hsmall := hmd.small
  have hlen := length_payload md
  rw [extract_eq, extractBytes, skbLoadBytes, hoff, loadBytes, Packet.load, hlen]
  by_cases hin : off.toNat + size.bytes ≤ md.data.length - 8
  · have hheader := hmd.header
    have hpos : 0 < size.bytes := by cases size <;> decide
    rw [if_pos (by omega), if_pos (by omega), if_pos hin, Option.map_some, LittleEndian.field,
      Md.packet, List.drop_drop]
  · rw [if_neg hin, if_neg (show ¬ 8 + off.toNat + size.bytes ≤ md.data.length by omega), ite_self]
    rfl

/-- Where it wraps, a load of the payload fails and the macros load from the header. -/
theorem extract_of_wraps (hmd : md.WellFormed) (size : Size) (h : 2 ^ 32 ≤ off.toNat + 8) :
    md.packet.load size off = none ∧
      ((extract md size off).isSome ↔ ReachesHeader md size off) := by
  have hoff : (UDPHDR + off).toNat = off.toNat + 8 - 2 ^ 32 := by
    have hlt := off.toNat_lt
    rw [toNat_udphdr_add]
    omega
  have hsmall := hmd.small
  have hlen := length_payload md
  constructor
  · rw [Packet.load, if_neg (by omega)]
  · rw [extract_eq, extractBytes, skbLoadBytes, hoff, loadBytes, ReachesHeader, Option.isSome_map,
      if_pos (by have := off.toNat_lt; omega)]
    constructor
    · intro hsome
      refine ⟨h, ?_⟩
      by_contra hin
      rw [if_neg hin] at hsome
      cases hsome
    · rintro ⟨-, hin⟩
      rw [if_pos hin]
      rfl

/-- The macros load from the payload exactly if they do not reach the header. -/
theorem extract_eq_load_iff (hmd : md.WellFormed) (size : Size) (off : UInt32) :
    extract md size off = md.packet.load size off ↔ ¬ ReachesHeader md size off := by
  by_cases h : 2 ^ 32 ≤ off.toNat + 8
  · obtain ⟨hnone, hsome⟩ := extract_of_wraps hmd size h
    rw [hnone, ← hsome, Option.isSome_iff_ne_none, not_not]
  · exact iff_of_true (extract_of_fits hmd (by omega)) fun hr => h hr.1

/-! ### Outcomes -/

/-- Where a program goes on, or how it ends. -/
inductive Outcome
  | goto (pc : ℕ)
  | ret (value : UInt32)
  | stop (e : IErr)
deriving DecidableEq, Repr

def Fault.code : Fault → IErr
  | .load => .load
  | .divZero | .memory => .badInstr

/-- What classic BPF says about the instruction at `i`. -/
def classicOutcome (i : ℕ) : Regs × Control → Regs × Outcome
  | (r, .next) => (r, .goto (i + 1))
  | (r, .jump distance) => (r, .goto (i + 1 + distance))
  | (r, .ret v) => (r, .ret v)
  | (r, .fault e) => (r, .stop (Fault.code e))

/-- What a call of `_do_interpret_loop` for the index `i` came to: the next instruction is the
first one behind `i` that the loop does not skip. -/
def callOutcome (i : ℕ) : InterpretCtx × Bool → Regs × Outcome
  | (c, false) => (c.r, .goto (max (i + 1) c.nextIndex.toNat))
  | (c, true) => (c.r, if c.retcode = .ok then .ret c.retval else .stop c.retcode)

/-- The call for the index `i` does what its instruction means in classic BPF. -/
def MeansClassic (md : Md) (d : Dissector) (i : ℕ) (c : InterpretCtx) : Prop :=
  ∃ op, ClassicBpf.decode (d.sockFilter i).code = some op ∧
    callOutcome i (doInterpretLoop md d (UInt32.ofNat i) c) =
      classicOutcome i (step md.packet op (d.sockFilter i).jt (d.sockFilter i).jf
        (d.sockFilter i).k c.r)

/-- The same about the switch alone. -/
def exitOutcome (i : ℕ) : Regs × Exit → Regs × Outcome
  | (r, .next) => (r, .goto (i + 1))
  | (r, .jump distance) => (r, .goto (max (i + 1) (1 + UInt32.ofNat i + distance).toNat))
  | (r, .ret v) => (r, .ret v)
  | (r, .fault e) => (r, .stop e)

theorem callOutcome_eq (hi : i < MAX_INSTR) (hc : c.nextIndex.toNat ≤ i) :
    callOutcome i (doInterpretLoop md d (UInt32.ofNat i) c) =
      exitOutcome i (interpretInstr md (d.sockFilter i) c.r) := by
  have hallowed := interpretInstr_allowed md (d.sockFilter i) c.r
  rw [doInterpretLoop_execute hi hc]
  rcases hx : interpretInstr md (d.sockFilter i) c.r with ⟨r', _ | distance | v | e⟩
  · simp only [callOutcome, exitOutcome]
    rw [max_eq_left (by omega)]
  · rfl
  · rfl
  · rw [hx] at hallowed
    have he : e ≠ .ok := by rcases hallowed with rfl | rfl <;> decide
    simp only [callOutcome, exitOutcome, if_neg he]

/-- The table of the switch and the bit fields of the code name the same operation. -/
theorem decode_of_op (h : f.op = some op) : ClassicBpf.decode f.code = some op := by
  have hall : ∀ e ∈ opcodes, ClassicBpf.decode e.1 = some e.2 := by decide
  obtain ⟨l₁, l₂, hl, -⟩ := List.lookup_eq_some_iff.mp h
  exact hall (f.code, op) (by simp [hl])

/-! ### Instruction by instruction -/

theorem shiftLeft_eq (a b : UInt32) :
    a <<< b = UInt32.ofNat (a.toNat * 2 ^ (b.toNat % 32)) := by
  apply UInt32.toNat_inj.mp
  rw [UInt32.toNat_shiftLeft, UInt32.toNat_ofNat', Nat.shiftLeft_eq]

theorem shiftRight_eq (a b : UInt32) :
    a >>> b = UInt32.ofNat (a.toNat / 2 ^ (b.toNat % 32)) := by
  apply UInt32.toNat_inj.mp
  have hlt : a.toNat / 2 ^ (b.toNat % 32) < 2 ^ 32 :=
    lt_of_le_of_lt (Nat.div_le_self ..) a.toNat_lt
  rw [UInt32.toNat_shiftRight, UInt32.toNat_ofNat', Nat.shiftRight_eq_div_pow]
  exact (Nat.mod_eq_of_lt hlt).symm

theorem operand_eq (src : Source) (f : SockFilter) (r : Regs) :
    operand src f r = src.value f.k r := by
  cases src <;> rfl

theorem interpretOp_alu (op : AluOp) (src : Source) :
    exitOutcome i (interpretOp md f r (.alu op src)) =
      classicOutcome i (step md.packet (.alu op src) f.jt f.jf f.k r) := by
  cases op with
  | add | sub | mul | or | and | xor =>
    simp only [interpretOp, step, operand_eq, AluOp.eval, resume, exitOutcome, classicOutcome]
  | lsh =>
    simp only [interpretOp, step, operand_eq, AluOp.eval, resume, exitOutcome, classicOutcome,
      shiftLeft_eq]
  | rsh =>
    simp only [interpretOp, step, operand_eq, AluOp.eval, resume, exitOutcome, classicOutcome,
      shiftRight_eq]
  | div | mod =>
    simp only [interpretOp, step, operand_eq, AluOp.eval]
    split <;> rfl

theorem branch_outcome (hi : i < MAX_INSTR) (taken : Bool) :
    exitOutcome i (r, branch f taken) =
      classicOutcome i (r, .jump (if taken then f.jt.toNat else f.jf.toNat)) := by
  have h64 : MAX_INSTR = 64 := rfl
  have hb := (if taken then f.jt else f.jf).toNat_lt
  have hnext : (1 + UInt32.ofNat i + (if taken then f.jt else f.jf).toUInt32).toNat =
      i + 1 + (if taken then f.jt else f.jf).toNat := by
    rw [UInt32.toNat_add, UInt32.toNat_add, UInt32.toNat_ofNat', UInt8.toNat_toUInt32]
    simp
    omega
  simp only [branch, exitOutcome, classicOutcome, hnext]
  rw [max_eq_right (by omega), apply_ite UInt8.toNat]

theorem interpretOp_jmp (md : Md) (f : SockFilter) (r : Regs) (op : JmpOp) (src : Source) :
    interpretOp md f r (.jmp op src) = (r, branch f (op.holds r.a (src.value f.k r))) := by
  rw [← operand_eq]
  cases op with
  | jeq =>
    rw [interpretOp, show JmpOp.holds .jeq r.a (operand src f r) = _ from
      decide_eq_decide.mpr UInt32.toNat_inj]
  | jgt =>
    rw [interpretOp, show JmpOp.holds .jgt r.a (operand src f r) = _ from
      decide_eq_decide.mpr UInt32.lt_iff_toNat_lt.symm]
  | jge =>
    rw [interpretOp, show JmpOp.holds .jge r.a (operand src f r) = _ from
      decide_eq_decide.mpr UInt32.le_iff_toNat_le.symm]
  | jset => rfl

theorem and_mask (h : f.k.toNat < 16) : (f.k &&& MEMWORDS_MASK).toNat = f.k.toNat := by
  rw [UInt32.toNat_and]
  exact (Nat.and_two_pow_sub_one_eq_mod f.k.toNat 4).trans (Nat.mod_eq_of_lt h)

theorem interpretOp_memory (hop : op.usesMemory) (h : f.k.toNat < 16) :
    exitOutcome i (interpretOp md f r op) =
      classicOutcome i (step md.packet op f.jt f.jf f.k r) := by
  cases op with
  | ldMem | ldxMem =>
    simp [interpretOp, step, and_mask h, resume, exitOutcome, classicOutcome, h, Vector.getD]
  | st | stx =>
    simp [interpretOp, step, and_mask h, exitOutcome, classicOutcome, h, Vector.setIfInBounds,
      Array.setIfInBounds]
  | _ => cases hop

/-- The load of an instruction, other than that of the protocol: its size and its offset. -/
def SockFilter.load (f : SockFilter) (r : Regs) : Option (Size × UInt32) :=
  match f.op with
  | some (.ldAbs size) =>
    if size = .half ∧ f.k = SKF_AD_OFF + SKF_AD_PROTOCOL then none else some (size, f.k)
  | some (.ldInd size) => some (size, r.x + f.k)
  | some .ldxMsh => some (.byte, f.k)
  | _ => none

/-- A load is that of the payload exactly if it does not reach the header. -/
theorem extractTo_outcome (hmd : md.WellFormed) (size : Size) (off : UInt32)
    (set : UInt32 → Regs) :
    exitOutcome i (extractTo md size off r set) =
        classicOutcome i (resume r .load set (md.packet.load size off)) ↔
      ¬ ReachesHeader md size off := by
  by_cases hr : ReachesHeader md size off
  · -- the macro succeeds where the load of the payload fails
    obtain ⟨hnone, hsome⟩ := extract_of_wraps hmd size hr.1
    obtain ⟨v, hv⟩ := Option.isSome_iff_exists.mp (hsome.mpr hr)
    refine iff_of_false ?_ (not_not.mpr hr)
    simp [extractTo, hv, hnone, resume, exitOutcome, classicOutcome]
  · refine iff_of_true ?_ hr
    rw [extractTo, (extract_eq_load_iff hmd size off).mpr hr]
    cases md.packet.load size off <;> rfl

theorem len_sub (hmd : md.WellFormed) :
    UInt32.ofNat md.packet.payload.length = md.len - UDPHDR := by
  have hheader := hmd.header
  have hle : UDPHDR ≤ md.len := by
    rw [UInt32.le_iff_toNat_le, hmd.len_eq]
    exact hheader
  apply UInt32.toNat_inj.mp
  rw [UInt32.toNat_sub_of_le _ _ hle, hmd.len_eq, length_payload, UInt32.toNat_ofNat']
  have hsmall := hmd.small
  exact Nat.mod_eq_of_lt (by omega)

theorem msh_eq (v : UInt32) : (v &&& 0xf) <<< 2 = 4 * (v % 16) := by
  apply UInt32.toNat_inj.mp
  have hand : (v &&& 0xf).toNat = v.toNat % 16 := by
    rw [UInt32.toNat_and]
    exact Nat.and_two_pow_sub_one_eq_mod v.toNat 4
  have hmod : (v % 16).toNat = v.toNat % 16 := UInt32.toNat_mod ..
  have hmul : (4 * (v % 16)).toNat = 4 * (v % 16).toNat % 2 ^ 32 := UInt32.toNat_mul ..
  rw [shiftLeft_eq, UInt32.toNat_ofNat', hand, hmul, hmod]
  show v.toNat % 16 * 4 % 2 ^ 32 = 4 * (v.toNat % 16) % 2 ^ 32
  omega

/-- The calls that do something else: a length that goes to A instead of X, a load that reaches
the UDP header, and a jump whose target wraps. -/
def Deviates (md : Md) (f : SockFilter) (i : ℕ) (r : Regs) : Prop :=
  (f.op = some .ldxLen ∧ ¬ (r.a = md.len - UDPHDR ∧ r.x = md.len - UDPHDR)) ∨
    (∃ l ∈ f.load r, ReachesHeader md l.1 l.2) ∨
    (f.op = some .ja ∧ 2 ^ 32 ≤ i + 1 + f.k.toNat)

instance (md : Md) (f : SockFilter) (i : ℕ) (r : Regs) : Decidable (Deviates md f i r) :=
  inferInstanceAs (Decidable (_ ∨ _ ∨ _))

/-- An instruction that is none of the three kinds never deviates. -/
theorem not_deviates (hop : f.op = some op) (hlen : op ≠ .ldxLen) (hja : op ≠ .ja)
    (hload : f.load r = none) : ¬ Deviates md f i r := by
  rintro (⟨h, -⟩ | ⟨l, h, -⟩ | ⟨h, -⟩)
  · exact hlen (Option.some.inj (hop.symm.trans h))
  · rw [hload] at h
    cases h
  · exact hja (Option.some.inj (hop.symm.trans h))

theorem deviates_load (hop : f.op = some op) (hlen : op ≠ .ldxLen) (hja : op ≠ .ja)
    (hload : f.load r = some (size, off)) :
    Deviates md f i r ↔ ReachesHeader md size off := by
  constructor
  · rintro (⟨h, -⟩ | ⟨l, h, hr⟩ | ⟨h, -⟩)
    · exact absurd (Option.some.inj (hop.symm.trans h)) hlen
    · cases hload.symm.trans h
      exact hr
    · exact absurd (Option.some.inj (hop.symm.trans h)) hja
  · exact fun hr => .inr (.inl ⟨(size, off), hload, hr⟩)

theorem interpretOp_ldAbs (md : Md) (f : SockFilter) (r : Regs) (size : Size) :
    interpretOp md f r (.ldAbs size) =
      if size = .half ∧ f.k = SKF_AD_OFF + SKF_AD_PROTOCOL then
        ({ r with a := md.packet.protocol.toUInt32 }, .next)
      else extractTo md size f.k r fun v => { r with a := v } := by
  cases size with
  | half =>
    simp only [interpretOp, true_and]
    rfl
  | word | byte => rfl

theorem ja_outcome_iff (hi : i < MAX_INSTR) :
    exitOutcome i (r, .jump f.k) = classicOutcome i (r, .jump f.k.toNat) ↔
      ¬ 2 ^ 32 ≤ i + 1 + f.k.toNat := by
  have h64 : MAX_INSTR = 64 := rfl
  have hlt := f.k.toNat_lt
  have hnext : (1 + UInt32.ofNat i + f.k).toNat = (1 + i + f.k.toNat) % 2 ^ 32 := by
    rw [UInt32.toNat_add, UInt32.toNat_add, UInt32.toNat_ofNat']
    simp
  simp only [exitOutcome, classicOutcome, hnext, Prod.mk.injEq, true_and, Outcome.goto.injEq]
  omega

/-- The switch does what classic BPF says exactly if it does not deviate. -/
theorem interpretOp_outcome_iff (hmd : md.WellFormed) (hi : i < MAX_INSTR) (hop : f.op = some op)
    (hmem : op.usesMemory → f.k.toNat < 16) :
    exitOutcome i (interpretOp md f r op) =
        classicOutcome i (step md.packet op f.jt f.jf f.k r) ↔ ¬ Deviates md f i r := by
  have plain (heq : exitOutcome i (interpretOp md f r op) =
      classicOutcome i (step md.packet op f.jt f.jf f.k r)) (hlen : op ≠ .ldxLen)
      (hja : op ≠ .ja) (hload : f.load r = none) :
      exitOutcome i (interpretOp md f r op) =
        classicOutcome i (step md.packet op f.jt f.jf f.k r) ↔ ¬ Deviates md f i r :=
    iff_of_true heq (not_deviates hop hlen hja hload)
  cases op with
  | alu op src =>
    exact plain (interpretOp_alu op src) (by simp) (by simp) (by simp [SockFilter.load, hop])
  | jmp op src =>
    refine plain ?_ (by simp) (by simp) (by simp [SockFilter.load, hop])
    rw [interpretOp_jmp, step, branch_outcome hi]
  | ldMem | ldxMem | st | stx =>
    exact plain (interpretOp_memory rfl (hmem rfl)) (by simp) (by simp)
      (by simp [SockFilter.load, hop])
  | ldImm | ldxImm | tax | txa =>
    exact plain rfl (by simp) (by simp) (by simp [SockFilter.load, hop])
  | neg =>
    refine plain ?_ (by simp) (by simp) (by simp [SockFilter.load, hop])
    rw [interpretOp, step, UInt32.zero_sub]
    rfl
  | ret v => cases v <;> exact plain rfl (by simp) (by simp) (by simp [SockFilter.load, hop])
  | ldLen =>
    refine plain ?_ (by simp) (by simp) (by simp [SockFilter.load, hop])
    rw [interpretOp, step, len_sub hmd]
    rfl
  | ldAbs size =>
    have hoffset : protocolOffset = SKF_AD_OFF + SKF_AD_PROTOCOL := by decide
    by_cases hproto : size = .half ∧ f.k = SKF_AD_OFF + SKF_AD_PROTOCOL
    · refine plain ?_ (by simp) (by simp) (by simp only [SockFilter.load, hop, if_pos hproto])
      rw [interpretOp_ldAbs, if_pos hproto, step, hoffset, if_pos hproto]
      rfl
    · have hload : f.load r = some (size, f.k) := by
        simp only [SockFilter.load, hop, if_neg hproto]
      rw [deviates_load hop (by simp) (by simp) hload, interpretOp_ldAbs, if_neg hproto, step,
        hoffset, if_neg hproto]
      exact extractTo_outcome hmd ..
  | ldInd size =>
    have hload : f.load r = some (size, r.x + f.k) := by simp only [SockFilter.load, hop]
    rw [deviates_load hop (by simp) (by simp) hload]
    exact extractTo_outcome hmd ..
  | ldxMsh =>
    have hload : f.load r = some (.byte, f.k) := by simp only [SockFilter.load, hop]
    rw [deviates_load hop (by simp) (by simp) hload, interpretOp]
    simp only [msh_eq]
    exact extractTo_outcome hmd ..
  | ldxLen =>
    have hdev : Deviates md f i r ↔ ¬ (r.a = md.len - UDPHDR ∧ r.x = md.len - UDPHDR) := by
      simp [Deviates, hop, SockFilter.load]
    rw [hdev, not_not, interpretOp, step, len_sub hmd]
    obtain ⟨a, x, m⟩ := r
    simp only [exitOutcome, classicOutcome, Prod.mk.injEq, Regs.mk.injEq, and_true]
    exact and_congr_left' eq_comm
  | ja =>
    have hdev : Deviates md f i r ↔ 2 ^ 32 ≤ i + 1 + f.k.toNat := by
      simp [Deviates, hop, SockFilter.load]
    rw [hdev]
    exact ja_outcome_iff hi

/-- A call means what classic BPF says exactly if it does not deviate: every load to A and X,
store, comparison and arithmetic operation is right, except that the length goes to A also where
the code asks for X, and that offsets and jump distances near 2^32 wrap. -/
theorem means_classic_iff (hmd : md.WellFormed) (hi : i < MAX_INSTR)
    (hc : c.nextIndex.toNat ≤ i) (hop : (d.sockFilter i).op = some op)
    (hmem : op.usesMemory → (d.sockFilter i).k.toNat < 16) :
    MeansClassic md d i c ↔ ¬ Deviates md (d.sockFilter i) i c.r := by
  rw [← interpretOp_outcome_iff hmd hi hop hmem, MeansClassic, decode_of_op hop,
    callOutcome_eq hi hc, interpretInstr, hop]
  simp

/-- A packet with the payload `1 2 3`. -/
def Md.threeBytes : Md := ⟨0, ETH_P_IP, 11, [], [0xab, 0xcd, 1, 187, 0, 11, 0, 0, 1, 2, 3]⟩

/-- `ldh [1]` loads a big-endian half word of the payload. -/
theorem means_classic_ldh :
    MeansClassic .threeBytes (.ofProgram [⟨BPF_LD ||| BPF_H ||| BPF_ABS, 0, 0, 1⟩]) 0
      .initial := by
  have hop : ((Dissector.ofProgram [⟨BPF_LD ||| BPF_H ||| BPF_ABS, 0, 0, 1⟩]).sockFilter 0).op =
      some (.ldAbs .half) := by decide +kernel
  exact (means_classic_iff (by decide) (by decide) (by decide) hop nofun).mpr (by decide +kernel)

/-- `ldx #len` changes A and leaves X. -/
theorem ldx_len_loads_a :
    ∃ d, (d.sockFilter 0).code = BPF_LDX ||| BPF_W ||| BPF_LEN ∧
      doInterpretLoop .threeBytes d 0 .initial =
        ({ InterpretCtx.initial with r := { Regs.zero with a := 3 } }, false) ∧
      ¬ MeansClassic .threeBytes d 0 .initial := by
  refine ⟨.ofProgram [⟨BPF_LDX ||| BPF_W ||| BPF_LEN, 0, 0, 0⟩], by decide +kernel,
    by decide +kernel, ?_⟩
  rintro ⟨op, hop, h⟩
  have hdecode : ClassicBpf.decode ((Dissector.ofProgram
      [⟨BPF_LDX ||| BPF_W ||| BPF_LEN, 0, 0, 0⟩]).sockFilter 0).code = some .ldxLen := by
    decide +kernel
  obtain rfl : op = .ldxLen := Option.some.inj (hop.symm.trans hdecode)
  revert h
  decide +kernel

end Udpgrm
