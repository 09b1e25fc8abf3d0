import Udpgrm.Dispatch
import Udpgrm.Lib.ClassicBpf

/-! The cBPF interpreter of the reuseport program: one instruction and the loop around it. -/
namespace Udpgrm

open ClassicBpf

/-! ### Operation codes -/

abbrev BPF_LD : UInt16 := 0x00
abbrev BPF_LDX : UInt16 := 0x01
abbrev BPF_ST : UInt16 := 0x02
abbrev BPF_STX : UInt16 := 0x03
abbrev BPF_ALU : UInt16 := 0x04
abbrev BPF_JMP : UInt16 := 0x05
abbrev BPF_RET : UInt16 := 0x06
abbrev BPF_MISC : UInt16 := 0x07

abbrev BPF_W : UInt16 := 0x00
abbrev BPF_H : UInt16 := 0x08
abbrev BPF_B : UInt16 := 0x10

abbrev BPF_IMM : UInt16 := 0x00
abbrev BPF_ABS : UInt16 := 0x20
abbrev BPF_IND : UInt16 := 0x40
abbrev BPF_MEM : UInt16 := 0x60
abbrev BPF_LEN : UInt16 := 0x80
abbrev BPF_MSH : UInt16 := 0xa0

abbrev BPF_ADD : UInt16 := 0x00
abbrev BPF_SUB : UInt16 := 0x10
abbrev BPF_MUL : UInt16 := 0x20
abbrev BPF_DIV : UInt16 := 0x30
abbrev BPF_OR : UInt16 := 0x40
abbrev BPF_AND : UInt16 := 0x50
abbrev BPF_LSH : UInt16 := 0x60
abbrev BPF_RSH : UInt16 := 0x70
abbrev BPF_NEG : UInt16 := 0x80
abbrev BPF_MOD : UInt16 := 0x90
abbrev BPF_XOR : UInt16 := 0xa0

abbrev BPF_JA : UInt16 := 0x00
abbrev BPF_JEQ : UInt16 := 0x10
abbrev BPF_JGT : UInt16 := 0x20
abbrev BPF_JGE : UInt16 := 0x30
abbrev BPF_JSET : UInt16 := 0x40

abbrev BPF_K : UInt16 := 0x00
abbrev BPF_X : UInt16 := 0x08
abbrev BPF_A : UInt16 := 0x10

abbrev BPF_TAX : UInt16 := 0x00
abbrev BPF_TXA : UInt16 := 0x80

/-- The cases of the switch in `_do_interpret_loop`, in its order. -/
def opcodes : List (UInt16 × Op) :=
  [(BPF_MISC ||| BPF_TAX, .tax), (BPF_MISC ||| BPF_TXA, .txa), (BPF_ST, .st), (BPF_STX, .stx),
    (BPF_LD ||| BPF_W ||| BPF_ABS, .ldAbs .word), (BPF_LD ||| BPF_H ||| BPF_ABS, .ldAbs .half),
    (BPF_LD ||| BPF_B ||| BPF_ABS, .ldAbs .byte), (BPF_LD ||| BPF_W ||| BPF_IND, .ldInd .word),
    (BPF_LD ||| BPF_H ||| BPF_IND, .ldInd .half), (BPF_LD ||| BPF_B ||| BPF_IND, .ldInd .byte),
    (BPF_LDX ||| BPF_B ||| BPF_MSH, .ldxMsh), (BPF_LD ||| BPF_W ||| BPF_LEN, .ldLen),
    (BPF_LDX ||| BPF_W ||| BPF_LEN, .ldxLen), (BPF_LD ||| BPF_IMM, .ldImm),
    (BPF_LDX ||| BPF_IMM, .ldxImm), (BPF_LD ||| BPF_MEM, .ldMem), (BPF_LDX ||| BPF_MEM, .ldxMem),
    (BPF_JMP ||| BPF_JA, .ja),
    (BPF_JMP ||| BPF_JGT ||| BPF_X, .jmp .jgt .x), (BPF_JMP ||| BPF_JGT ||| BPF_K, .jmp .jgt .k),
    (BPF_JMP ||| BPF_JGE ||| BPF_X, .jmp .jge .x), (BPF_JMP ||| BPF_JGE ||| BPF_K, .jmp .jge .k),
    (BPF_JMP ||| BPF_JEQ ||| BPF_X, .jmp .jeq .x), (BPF_JMP ||| BPF_JEQ ||| BPF_K, .jmp .jeq .k),
    (BPF_JMP ||| BPF_JSET ||| BPF_X, .jmp .jset .x),
    (BPF_JMP ||| BPF_JSET ||| BPF_K, .jmp .jset .k),
    (BPF_ALU ||| BPF_NEG, .neg),
    (BPF_ALU ||| BPF_LSH ||| BPF_X, .alu .lsh .x), (BPF_ALU ||| BPF_LSH ||| BPF_K, .alu .lsh .k),
    (BPF_ALU ||| BPF_RSH ||| BPF_X, .alu .rsh .x), (BPF_ALU ||| BPF_RSH ||| BPF_K, .alu .rsh .k),
    (BPF_ALU ||| BPF_ADD ||| BPF_X, .alu .add .x), (BPF_ALU ||| BPF_ADD ||| BPF_K, .alu .add .k),
    (BPF_ALU ||| BPF_SUB ||| BPF_X, .alu .sub .x), (BPF_ALU ||| BPF_SUB ||| BPF_K, .alu .sub .k),
    (BPF_ALU ||| BPF_MUL ||| BPF_X, .alu .mul .x), (BPF_ALU ||| BPF_MUL ||| BPF_K, .alu .mul .k),
    (BPF_ALU ||| BPF_DIV ||| BPF_X, .alu .div .x), (BPF_ALU ||| BPF_MOD ||| BPF_X, .alu .mod .x),
    (BPF_ALU ||| BPF_DIV ||| BPF_K, .alu .div .k), (BPF_ALU ||| BPF_MOD ||| BPF_K, .alu .mod .k),
    (BPF_ALU ||| BPF_AND ||| BPF_X, .alu .and .x), (BPF_ALU ||| BPF_AND ||| BPF_K, .alu .and .k),
    (BPF_ALU ||| BPF_OR ||| BPF_X, .alu .or .x), (BPF_ALU ||| BPF_OR ||| BPF_K, .alu .or .k),
    (BPF_ALU ||| BPF_XOR ||| BPF_X, .alu .xor .x), (BPF_ALU ||| BPF_XOR ||| BPF_K, .alu .xor .k),
    (BPF_RET ||| BPF_K, .ret .k), (BPF_RET ||| BPF_X, .ret .x), (BPF_RET ||| BPF_A, .ret .a)]

/-- `struct sock_filter`. -/
structure SockFilter where
  code : UInt16
  jt : UInt8
  jf : UInt8
  k : UInt32
deriving DecidableEq, Repr

/-- The operation of an instruction, none for the default case. -/
def SockFilter.op (f : SockFilter) : Option Op := opcodes.lookup f.code

/-- `dis.filter[index]`, eight bytes each. -/
def Dissector.sockFilter (d : Dissector) (index : ℕ) : SockFilter where
  code := LittleEndian.u16 d.filter.toList (8 * index)
  jt := d.filter.toList.getD (8 * index + 2) 0
  jf := d.filter.toList.getD (8 * index + 3) 0
  k := LittleEndian.u32 d.filter.toList (8 * index + 4)

/-! ### One instruction -/

/-- `c->offset`: the size of `struct udphdr`. -/
abbrev UDPHDR : UInt32 := 8

abbrev SKF_AD_OFF : UInt32 := -0x1000
abbrev SKF_AD_PROTOCOL : UInt32 := 0

abbrev MEMWORDS_MASK : UInt32 := 15

/-- `bpf_skb_load_bytes` on the packet from its UDP header on. -/
def skbLoadBytes (md : Md) (off : UInt32) (n : ℕ) : Option (List UInt8) :=
  if off.toNat ≤ 0x7fffffff then loadBytes md.data off.toNat n else none

/-- `bpf_ntohl` and `bpf_ntohs`: the bytes of a number in memory, read from the other end. -/
def bpfNtohl (v : UInt32) : UInt32 :=
  UInt32.ofNat (BigEndian.toNat (LittleEndian.ofNat 4 v.toNat))
def bpfNtohs (v : UInt16) : UInt16 :=
  UInt16.ofNat (BigEndian.toNat (LittleEndian.ofNat 2 v.toNat))

/-- `extract_u32`, `extract_u16` and `extract_u8`. The sum of the offsets is a `uint32_t`. -/
def extract (md : Md) : Size → UInt32 → Option UInt32
  | .word, off =>
    (skbLoadBytes md (UDPHDR + off) 4).map fun v => bpfNtohl (LittleEndian.u32 v 0)
  | .half, off =>
    (skbLoadBytes md (UDPHDR + off) 2).map fun v => (bpfNtohs (LittleEndian.u16 v 0)).toUInt32
  | .byte, off => (skbLoadBytes md (UDPHDR + off) 1).map fun v => (v.getD 0 0).toUInt32

/-- How a case of the switch ends: with `break`, with a new `next_index` at a distance from the
next instruction, or with LOOP_BREAK. -/
inductive Exit
  | next
  | jump (distance : UInt32)
  | ret (value : UInt32)
  | fault (e : IErr)
deriving DecidableEq, Repr

def extractTo (md : Md) (size : Size) (off : UInt32) (r : Regs) (set : UInt32 → Regs) :
    Regs × Exit :=
  match extract md size off with
  | some v => (set v, .next)
  | none => (r, .fault .load)

/-- The operand of the X and K variants of a case. -/
def operand (src : Source) (f : SockFilter) (r : Regs) : UInt32 :=
  match src with
  | .k => f.k
  | .x => r.x

/-- The distance of a conditional jump. -/
def branch (f : SockFilter) (taken : Bool) : Exit :=
  .jump (if taken then f.jt else f.jf).toUInt32

/-- The switch of `_do_interpret_loop`. -/
def interpretOp (md : Md) (f : SockFilter) (r : Regs) : Op → Regs × Exit
  | .tax => ({ r with x := r.a }, .next)
  | .txa => ({ r with a := r.x }, .next)
  | .st => ({ r with m := r.m.setIfInBounds (f.k &&& MEMWORDS_MASK).toNat r.a }, .next)
  | .stx => ({ r with m := r.m.setIfInBounds (f.k &&& MEMWORDS_MASK).toNat r.x }, .next)
  | .ldAbs .half =>
    if f.k = SKF_AD_OFF + SKF_AD_PROTOCOL then
      ({ r with a := (bpfNtohs md.ethProtocol).toUInt32 }, .next)
    else extractTo md .half f.k r fun v => { r with a := v }
  | .ldAbs size => extractTo md size f.k r fun v => { r with a := v }
  | .ldInd size => extractTo md size (r.x + f.k) r fun v => { r with a := v }
  | .ldxMsh => extractTo md .byte f.k r fun v => { r with x := (v &&& 0xf) <<< 2 }
  -- one body for the two case labels
  | .ldLen | .ldxLen => ({ r with a := md.len - UDPHDR }, .next)
  | .ldImm => ({ r with a := f.k }, .next)
  | .ldxImm => ({ r with x := f.k }, .next)
  | .ldMem => ({ r with a := r.m.getD (f.k &&& MEMWORDS_MASK).toNat 0 }, .next)
  | .ldxMem => ({ r with x := r.m.getD (f.k &&& MEMWORDS_MASK).toNat 0 }, .next)
  | .ja => (r, .jump f.k)
  | .jmp .jgt src => (r, branch f (operand src f r < r.a))
  | .jmp .jge src => (r, branch f (operand src f r ≤ r.a))
  | .jmp .jeq src => (r, branch f (r.a = operand src f r))
  | .jmp .jset src => (r, branch f (r.a &&& operand src f r ≠ 0))
  | .neg => ({ r with a := -r.a }, .next)
  -- 32-bit shifts use the low five bits of the count
  | .alu .lsh src => ({ r with a := r.a <<< operand src f r }, .next)
  | .alu .rsh src => ({ r with a := r.a >>> operand src f r }, .next)
  | .alu .add src => ({ r with a := r.a + operand src f r }, .next)
  | .alu .sub src => ({ r with a := r.a - operand src f r }, .next)
  | .alu .mul src => ({ r with a := r.a * operand src f r }, .next)
  | .alu .div src =>
    if operand src f r = 0 then (r, .fault .badInstr)
    else ({ r with a := r.a / operand src f r }, .next)
  | .alu .mod src =>
    if operand src f r = 0 then (r, .fault .badInstr)
    else ({ r with a := r.a % operand src f r }, .next)
  | .alu .and src => ({ r with a := r.a &&& operand src f r }, .next)
  | .alu .or src => ({ r with a := r.a ||| operand src f r }, .next)
  | .alu .xor src => ({ r with a := r.a ^^^ operand src f r }, .next)
  | .ret .k => (r, .ret f.k)
  | .ret .x => (r, .ret r.x)
  | .ret .a => (r, .ret r.a)

def interpretInstr (md : Md) (f : SockFilter) (r : Regs) : Regs × Exit :=
  match f.op with
  | some op => interpretOp md f r op
  | none => (r, .fault .badInstr)

/-! ### The loop -/

/-- `struct interpret_ctx`, without the pointers and the offset that never change. -/
structure InterpretCtx where
  r : Regs
  retval : UInt32
  retcode : IErr
  nextIndex : UInt32
deriving DecidableEq, Repr

/-- `_do_interpret_loop`: the context afterwards, and whether it returned LOOP_BREAK. -/
def doInterpretLoop (md : Md) (d : Dissector) (index : UInt32) (c : InterpretCtx) :
    InterpretCtx × Bool :=
  if index < c.nextIndex then (c, false)
  else if MAX_INSTR ≤ index.toNat then ({ c with retcode := .sanity }, true)
  else
    match interpretInstr md (d.sockFilter index.toNat) c.r with
    | (r, .next) => ({ c with r := r }, false)
    | (r, .jump distance) => ({ c with r := r, nextIndex := 1 + index + distance }, false)
    | (r, .ret v) => ({ c with r := r, retcode := .ok, retval := v }, true)
    | (r, .fault e) => ({ c with r := r, retcode := e }, true)

/-- `bpf_loop` from index `i` on, with `n` calls left. -/
def bpfLoop {σ : Type} (callback : UInt32 → σ → σ × Bool) : ℕ → ℕ → σ → σ
  | _, 0, s => s
  | i, n + 1, s =>
    match callback (UInt32.ofNat i) s with
    | (t, true) => t
    | (t, false) => bpfLoop callback (i + 1) n t

def InterpretCtx.initial : InterpretCtx := ⟨Regs.zero, 0, .instrExceeded, 0⟩

/-- `interpret_cbpf`, with the `retval` of `dissector_cbpf`, which starts as zero. -/
def interpretCbpf (md : Md) (d : Dissector) : IErr × UInt32 :=
  let ctx := bpfLoop (doInterpretLoop md d) 0 d.filterLen.toNat .initial
  (ctx.retcode, ctx.retval)

/-- The packet programs with this interpreter. -/
def Programs.withInterpreter (p : Programs) : Programs :=
  { p with interpretCbpf := Udpgrm.interpretCbpf }

end Udpgrm
