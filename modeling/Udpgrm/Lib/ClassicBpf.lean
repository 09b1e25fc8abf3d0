import Udpgrm.Lib.BigEndian
import Mathlib.Data.Vector.Defs

/-! Classic BPF: operation codes by their bit fields and the meaning of one instruction. -/
namespace ClassicBpf

/-! ### Operations -/

inductive Size
  | word
  | half
  | byte
deriving DecidableEq, Repr

def Size.bytes : Size → ℕ
  | .word => 4
  | .half => 2
  | .byte => 1

inductive Source
  | k
  | x
deriving DecidableEq, Repr

inductive AluOp
  | add
  | sub
  | mul
  | div
  | or
  | and
  | lsh
  | rsh
  | mod
  | xor
deriving DecidableEq, Repr

inductive JmpOp
  | jeq
  | jgt
  | jge
  | jset
deriving DecidableEq, Repr

inductive RetValue
  | k
  | x
  | a
deriving DecidableEq, Repr

/-- An operation without its operands. -/
inductive Op
  | ldAbs (size : Size)
  | ldInd (size : Size)
  | ldLen
  | ldImm
  | ldMem
  | ldxMsh
  | ldxLen
  | ldxImm
  | ldxMem
  | st
  | stx
  | alu (op : AluOp) (src : Source)
  | neg
  | ja
  | jmp (op : JmpOp) (src : Source)
  | ret (value : RetValue)
  | tax
  | txa
deriving DecidableEq, Repr

def Op.usesMemory : Op → Bool
  | .ldMem | .ldxMem | .st | .stx => true
  | _ => false

/-! ### Operation codes -/

def decodeSize (code : UInt16) : Option Size :=
  match (code &&& 0x18).toNat with
  | 0x00 => some .word
  | 0x08 => some .half
  | 0x10 => some .byte
  | _ => none

def decodeSource (code : UInt16) : Source := if code &&& 0x08 = 0 then .k else .x

def decodeAlu (code : UInt16) : Option Op :=
  match (code &&& 0xf0).toNat with
  | 0x00 => some (.alu .add (decodeSource code))
  | 0x10 => some (.alu .sub (decodeSource code))
  | 0x20 => some (.alu .mul (decodeSource code))
  | 0x30 => some (.alu .div (decodeSource code))
  | 0x40 => some (.alu .or (decodeSource code))
  | 0x50 => some (.alu .and (decodeSource code))
  | 0x60 => some (.alu .lsh (decodeSource code))
  | 0x70 => some (.alu .rsh (decodeSource code))
  | 0x80 => some .neg
  | 0x90 => some (.alu .mod (decodeSource code))
  | 0xa0 => some (.alu .xor (decodeSource code))
  | _ => none

def decodeJmp (code : UInt16) : Option Op :=
  match (code &&& 0xf0).toNat with
  | 0x00 => some .ja
  | 0x10 => some (.jmp .jeq (decodeSource code))
  | 0x20 => some (.jmp .jgt (decodeSource code))
  | 0x30 => some (.jmp .jge (decodeSource code))
  | 0x40 => some (.jmp .jset (decodeSource code))
  | _ => none

/-- The operation of a code: the class is in the lowest three bits, then come the size and the
addressing mode of loads, or the operation and the source of arithmetic and jumps. -/
def decode (code : UInt16) : Option Op :=
  match (code &&& 0x07).toNat with
  | 0x00 =>
    match (code &&& 0xe0).toNat with
    | 0x00 => some .ldImm
    | 0x20 => (decodeSize code).map .ldAbs
    | 0x40 => (decodeSize code).map .ldInd
    | 0x60 => some .ldMem
    | 0x80 => some .ldLen
    | _ => none
  | 0x01 =>
    match (code &&& 0xe0).toNat with
    | 0x00 => some .ldxImm
    | 0x60 => some .ldxMem
    | 0x80 => some .ldxLen
    | 0xa0 => some .ldxMsh
    | _ => none
  | 0x02 => some .st
  | 0x03 => some .stx
  | 0x04 => decodeAlu code
  | 0x05 => decodeJmp code
  | 0x06 =>
    match (code &&& 0x18).toNat with
    | 0x00 => some (.ret .k)
    | 0x08 => some (.ret .x)
    | 0x10 => some (.ret .a)
    | _ => none
  | 0x07 =>
    match (code &&& 0xf8).toNat with
    | 0x00 => some .tax
    | 0x80 => some .txa
    | _ => none
  | _ => none

/-! ### Meaning -/

/-- The scratch memory has sixteen words. -/
structure Regs where
  a : UInt32
  x : UInt32
  m : Vector UInt32 16
deriving DecidableEq, Repr

def Regs.zero : Regs := ⟨0, 0, Vector.replicate 16 0⟩

/-- What a program can read: the bytes it was started on, and the protocol as the one ancillary
value, a half word at `protocolOffset`. -/
structure Packet where
  payload : List UInt8
  protocol : UInt16
deriving DecidableEq, Repr

def protocolOffset : UInt32 := 0xfffff000

inductive Fault
  | load
  | divZero
  | memory
deriving DecidableEq, Repr

/-- A jump counts from the next instruction. -/
inductive Control
  | next
  | jump (distance : ℕ)
  | ret (value : UInt32)
  | fault (e : Fault)
deriving DecidableEq, Repr

/-- A big-endian number of the payload, where it lies inside. -/
def Packet.load (pkt : Packet) (size : Size) (off : UInt32) : Option UInt32 :=
  if off.toNat + size.bytes ≤ pkt.payload.length then
    some (UInt32.ofNat (BigEndian.toNat ((pkt.payload.drop off.toNat).take size.bytes)))
  else none

def AluOp.eval (op : AluOp) (a b : UInt32) : Option UInt32 :=
  match op with
  | .add => some (a + b)
  | .sub => some (a - b)
  | .mul => some (a * b)
  | .div => if b = 0 then none else some (a / b)
  | .mod => if b = 0 then none else some (a % b)
  | .or => some (a ||| b)
  | .and => some (a &&& b)
  | .xor => some (a ^^^ b)
  | .lsh => some (UInt32.ofNat (a.toNat * 2 ^ (b.toNat % 32)))
  | .rsh => some (UInt32.ofNat (a.toNat / 2 ^ (b.toNat % 32)))

def JmpOp.holds (op : JmpOp) (a b : UInt32) : Bool :=
  match op with
  | .jeq => a.toNat = b.toNat
  | .jgt => b.toNat < a.toNat
  | .jge => b.toNat ≤ a.toNat
  | .jset => a &&& b ≠ 0

def Source.value (src : Source) (k : UInt32) (r : Regs) : UInt32 :=
  match src with
  | .k => k
  | .x => r.x

/-- Continue with what an operation computed, or stop. -/
def resume (r : Regs) (e : Fault) (set : UInt32 → Regs) : Option UInt32 → Regs × Control
  | some v => (set v, .next)
  | none => (r, .fault e)

/-- One instruction: the operation with its operands `jt`, `jf` and `k`. -/
def step (pkt : Packet) (op : Op) (jt jf : UInt8) (k : UInt32) (r : Regs) : Regs × Control :=
  match op with
  | .ldAbs size =>
    if size = .half ∧ k = protocolOffset then ({ r with a := pkt.protocol.toUInt32 }, .next)
    else resume r .load (fun v => { r with a := v }) (pkt.load size k)
  | .ldInd size => resume r .load (fun v => { r with a := v }) (pkt.load size (r.x + k))
  | .ldLen => ({ r with a := UInt32.ofNat pkt.payload.length }, .next)
  | .ldImm => ({ r with a := k }, .next)
  | .ldMem => resume r .memory (fun v => { r with a := v }) r.m[k.toNat]?
  | .ldxMsh =>
    resume r .load (fun v => { r with x := 4 * (v % 16) }) (pkt.load .byte k)
  | .ldxLen => ({ r with x := UInt32.ofNat pkt.payload.length }, .next)
  | .ldxImm => ({ r with x := k }, .next)
  | .ldxMem => resume r .memory (fun v => { r with x := v }) r.m[k.toNat]?
  | .st =>
    if h : k.toNat < 16 then ({ r with m := r.m.set k.toNat r.a h }, .next)
    else (r, .fault .memory)
  | .stx =>
    if h : k.toNat < 16 then ({ r with m := r.m.set k.toNat r.x h }, .next)
    else (r, .fault .memory)
  | .alu op src => resume r .divZero (fun v => { r with a := v }) (op.eval r.a (src.value k r))
  | .neg => ({ r with a := 0 - r.a }, .next)
  | .ja => (r, .jump k.toNat)
  | .jmp op src => (r, .jump (if op.holds r.a (src.value k r) then jt.toNat else jf.toNat))
  | .ret .k => (r, .ret k)
  | .ret .x => (r, .ret r.x)
  | .ret .a => (r, .ret r.a)
  | .tax => ({ r with x := r.a }, .next)
  | .txa => ({ r with a := r.x }, .next)

section Loads

variable {pkt : Packet} {off : UInt32}

theorem load_eq_none {size : Size} (h : pkt.payload.length < off.toNat + size.bytes) :
    pkt.load size off = none := by
  rw [Packet.load, if_neg (by omega)]

theorem load_byte (h : off.toNat < pkt.payload.length) :
    pkt.load .byte off = some (pkt.payload.getD off.toNat 0).toUInt32 := by
  have hone : (pkt.payload.drop off.toNat).take 1 = [pkt.payload.getD off.toNat 0] := by
    rw [List.drop_eq_getElem_cons h, List.take_succ_cons, List.take_zero]
    simp [h]
  have hbyte (b : UInt8) : UInt32.ofNat (BigEndian.toNat [b]) = b.toUInt32 := by
    simp [BigEndian.toNat, LittleEndian.toNat]
  rw [Packet.load, Size.bytes, if_pos (by omega), hone, hbyte]

theorem load_half (h : off.toNat + 2 ≤ pkt.payload.length) :
    pkt.load .half off = some (BigEndian.u16 pkt.payload off.toNat).toUInt32 := by
  have hlt : BigEndian.toNat (LittleEndian.field pkt.payload off.toNat 2) < 2 ^ 16 := by
    have hlt := BigEndian.toNat_lt (LittleEndian.field pkt.payload off.toNat 2)
    rwa [LittleEndian.length_field h] at hlt
  have hfield : (pkt.payload.drop off.toNat).take 2 =
      LittleEndian.field pkt.payload off.toNat 2 := rfl
  rw [Packet.load, Size.bytes, if_pos h, hfield, BigEndian.u16]
  refine congrArg some (UInt32.toNat_inj.mp ?_)
  rw [UInt32.toNat_ofNat', UInt16.toNat_toUInt32, UInt16.toNat_ofNat']
  omega

end Loads

/-! ### Programs -/

structure Instr where
  code : UInt16
  jt : UInt8
  jf : UInt8
  k : UInt32
deriving DecidableEq, Repr

/-- How a program ends: with a value, with a fault, at an instruction that is none, or past its
last instruction. -/
inductive Result
  | ret (value : UInt32)
  | fault (e : Fault)
  | invalid
  | pastEnd
deriving DecidableEq, Repr

/-- The program from the instruction at `pc` on. -/
def run (pkt : Packet) (prog : List Instr) (pc : ℕ) (r : Regs) : Result :=
  if h : pc < prog.length then
    match decode (prog.get ⟨pc, h⟩).code with
    | none => .invalid
    | some op =>
      match step pkt op (prog.get ⟨pc, h⟩).jt (prog.get ⟨pc, h⟩).jf (prog.get ⟨pc, h⟩).k r with
      | (r', .next) => run pkt prog (pc + 1) r'
      | (r', .jump distance) => run pkt prog (pc + 1 + distance) r'
      | (_, .ret v) => .ret v
      | (_, .fault e) => .fault e
  else .pastEnd
termination_by prog.length - pc

/-- The instructions that a run gets to, with the registers it has there. -/
inductive Visits (pkt : Packet) (prog : List Instr) : ℕ → Regs → Prop
  | start : Visits pkt prog 0 .zero
  | next {pc : ℕ} {r r' : Regs} {f : Instr} {op : Op} : Visits pkt prog pc r →
      prog[pc]? = some f → decode f.code = some op → step pkt op f.jt f.jf f.k r = (r', .next) →
      Visits pkt prog (pc + 1) r'
  | jump {pc distance : ℕ} {r r' : Regs} {f : Instr} {op : Op} : Visits pkt prog pc r →
      prog[pc]? = some f → decode f.code = some op →
      step pkt op f.jt f.jf f.k r = (r', .jump distance) → Visits pkt prog (pc + 1 + distance) r'

section Rules

variable {pkt : Packet} {prog : List Instr} {pc distance : ℕ} {r r' : Regs} {f : Instr} {op : Op}

theorem resume_ne_jump {e : Fault} {set : UInt32 → Regs} {v : Option UInt32} :
    resume r e set v ≠ (r', .jump distance) := by
  cases v <;> simp [resume]

/-- Only jumps jump, and they leave the registers as they are. -/
theorem eq_of_step_jump {jt jf : UInt8} {k : UInt32}
    (h : step pkt op jt jf k r = (r', .jump distance)) :
    r' = r ∧ ((op = .ja ∧ distance = k.toNat) ∨
      ∃ cond src, op = .jmp cond src ∧ (distance = jt.toNat ∨ distance = jf.toNat)) := by
  cases op with
  | ja =>
    cases h
    exact ⟨rfl, .inl ⟨rfl, rfl⟩⟩
  | jmp cond src =>
    rw [step, Prod.mk.injEq, Control.jump.injEq] at h
    refine ⟨h.1.symm, .inr ⟨cond, src, rfl, ?_⟩⟩
    rw [← h.2]
    split_ifs
    · exact .inl rfl
    · exact .inr rfl
  | ldAbs size =>
    rw [step] at h
    split_ifs at h
    · cases h
    · exact absurd h resume_ne_jump
  | ldInd | ldMem | ldxMsh | ldxMem | alu => exact absurd h resume_ne_jump
  | st | stx =>
    rw [step] at h
    split_ifs at h
    · cases h
    · cases h
  | ret v => cases v <;> cases h
  | _ => cases h

theorem run_of_instr (hf : prog[pc]? = some f) (hop : decode f.code = some op) :
    run pkt prog pc r =
      match step pkt op f.jt f.jf f.k r with
      | (r', .next) => run pkt prog (pc + 1) r'
      | (r', .jump distance) => run pkt prog (pc + 1 + distance) r'
      | (_, .ret v) => .ret v
      | (_, .fault e) => .fault e := by
  obtain ⟨h, rfl⟩ := List.getElem?_eq_some_iff.mp hf
  have hget : prog.get ⟨pc, h⟩ = prog[pc] := rfl
  rw [run, dif_pos h, hget, hop]

theorem run_next (hf : prog[pc]? = some f) (hop : decode f.code = some op)
    (hstep : step pkt op f.jt f.jf f.k r = (r', .next)) :
    run pkt prog pc r = run pkt prog (pc + 1) r' := by
  rw [run_of_instr hf hop, hstep]

theorem run_jump (hf : prog[pc]? = some f) (hop : decode f.code = some op)
    (hstep : step pkt op f.jt f.jf f.k r = (r', .jump distance)) :
    run pkt prog pc r = run pkt prog (pc + 1 + distance) r' := by
  rw [run_of_instr hf hop, hstep]

theorem run_jeq (hf : prog[pc]? = some f) (hop : decode f.code = some (.jmp .jeq .k)) :
    run pkt prog pc r =
      run pkt prog (pc + 1 + if r.a = f.k then f.jt.toNat else f.jf.toNat) r := by
  refine run_jump hf hop ?_
  simp [step, Source.value, JmpOp.holds, UInt32.toNat_inj]

theorem run_ret {v : UInt32} (hf : prog[pc]? = some f) (hop : decode f.code = some op)
    (hstep : step pkt op f.jt f.jf f.k r = (r', .ret v)) : run pkt prog pc r = .ret v := by
  rw [run_of_instr hf hop, hstep]

theorem run_fault {e : Fault} (hf : prog[pc]? = some f) (hop : decode f.code = some op)
    (hstep : step pkt op f.jt f.jf f.k r = (r', .fault e)) : run pkt prog pc r = .fault e := by
  rw [run_of_instr hf hop, hstep]

theorem run_invalid (hf : prog[pc]? = some f) (hop : decode f.code = none) :
    run pkt prog pc r = .invalid := by
  obtain ⟨h, rfl⟩ := List.getElem?_eq_some_iff.mp hf
  have hget : prog.get ⟨pc, h⟩ = prog[pc] := rfl
  rw [run, dif_pos h, hget, hop]

theorem run_pastEnd (h : prog.length ≤ pc) : run pkt prog pc r = .pastEnd := by
  rw [run, dif_neg (by omega)]

end Rules

end ClassicBpf
