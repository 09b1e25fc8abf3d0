import Udpgrm.Lib.Aes
import Udpgrm.Lib.Sha256

/-! Initial packets of QUIC version 1 that a client sends, and how they are protected. -/
namespace QuicInitial

open LittleEndian (field)

/-! ### Numbers of variable length -/

inductive VarintSize
  | one
  | two
  | four
  | eight
deriving DecidableEq, Repr

def VarintSize.bytes : VarintSize → ℕ
  | one => 1
  | two => 2
  | four => 4
  | eight => 8

def VarintSize.tag : VarintSize → ℕ
  | one => 0
  | two => 1
  | four => 2
  | eight => 3

/-- Two bits of the first byte tell the size. -/
def VarintSize.limit (size : VarintSize) : ℕ := 256 ^ size.bytes / 4

def varint (size : VarintSize) (v : ℕ) : List UInt8 :=
  BigEndian.ofNat size.bytes (size.tag * size.limit + v)

@[simp] theorem length_varint (size : VarintSize) (v : ℕ) : (varint size v).length = size.bytes :=
  BigEndian.length_ofNat ..

/-! ### Keys -/

def salt : List UInt8 :=
  [0x38, 0x76, 0x2c, 0xf7, 0xf5, 0x59, 0x34, 0xb3, 0x4d, 0x17, 0x9a, 0xe6, 0xa4, 0xc8, 0x0c, 0xad,
    0xcc, 0xbb, 0x7f, 0x0a]

/-! The labels "client in", "quic key", "quic iv" and "quic hp". -/

def clientLabel : List UInt8 := [0x63, 0x6c, 0x69, 0x65, 0x6e, 0x74, 0x20, 0x69, 0x6e]
def keyLabel : List UInt8 := [0x71, 0x75, 0x69, 0x63, 0x20, 0x6b, 0x65, 0x79]
def ivLabel : List UInt8 := [0x71, 0x75, 0x69, 0x63, 0x20, 0x69, 0x76]
def hpLabel : List UInt8 := [0x71, 0x75, 0x69, 0x63, 0x20, 0x68, 0x70]

def initialSecret (dcid : List UInt8) : List UInt8 := Sha256.extract salt dcid

def clientSecret (dcid : List UInt8) : List UInt8 :=
  Sha256.expandLabel (initialSecret dcid) clientLabel 32

def clientKey (dcid : List UInt8) : List UInt8 :=
  Sha256.expandLabel (clientSecret dcid) keyLabel 16

def clientIv (dcid : List UInt8) : List UInt8 :=
  Sha256.expandLabel (clientSecret dcid) ivLabel 12

def clientHp (dcid : List UInt8) : List UInt8 :=
  Sha256.expandLabel (clientSecret dcid) hpLabel 16

theorem length_clientKey (dcid : List UInt8) : (clientKey dcid).length = 16 :=
  Sha256.length_expandLabel (by decide) (by decide)

theorem length_clientIv (dcid : List UInt8) : (clientIv dcid).length = 12 :=
  Sha256.length_expandLabel (by decide) (by decide)

theorem length_clientHp (dcid : List UInt8) : (clientHp dcid).length = 16 :=
  Sha256.length_expandLabel (by decide) (by decide)

/-! ### Payload protection -/

def block (bs : List UInt8) : Aes.Block := Vector.ofFn fun i => bs.getD i.val 0

theorem toList_block_of_le {bs : List UInt8} (h : bs.length ≤ 16) :
    (block bs).toList = bs ++ List.replicate (16 - bs.length) 0 := by
  apply List.ext_getElem (by simp; omega)
  intro i hi hi'
  by_cases hin : i < bs.length
  · simp [block, hin]
  · rw [List.getElem_append_right (by omega), List.getElem_replicate]
    simp [block, hin]

theorem toList_block {bs : List UInt8} (h : bs.length = 16) : (block bs).toList = bs := by
  rw [toList_block_of_le h.le, h]
  simp

/-- The packet number is added to the end of the vector. -/
def nonce (iv : List UInt8) (number : ℕ) : List UInt8 :=
  List.zipWith (· ^^^ ·) iv (BigEndian.ofNat 12 number)

def counterBlock (nonce : List UInt8) (k : ℕ) : Aes.Block :=
  block (nonce ++ BigEndian.ofNat 4 k)

/-- Counter 1 is for the tag, and the payload starts with counter 2. -/
def keystream (key nonce : List UInt8) (i : ℕ) : UInt8 :=
  (Aes.encrypt (block key) (counterBlock nonce (i / 16 + 2))).toList.getD (i % 16) 0

def encrypt (key nonce text : List UInt8) : List UInt8 :=
  text.mapIdx fun i b => b ^^^ keystream key nonce i

@[simp] theorem length_encrypt (key nonce text : List UInt8) :
    (encrypt key nonce text).length = text.length :=
  List.length_mapIdx

theorem getD_encrypt {key nonce text : List UInt8} {i : ℕ} (h : i < text.length) :
    (encrypt key nonce text).getD i 0 = text.getD i 0 ^^^ keystream key nonce i := by
  simp [encrypt, List.getD_eq_getElem?_getD, h]

theorem encrypt_take (key nonce text : List UInt8) (n : ℕ) :
    encrypt key nonce (text.take n) = (encrypt key nonce text).take n := by
  apply List.ext_getElem (by simp)
  intro i hi hi'
  simp [encrypt]

/-- What was encrypted is decrypted in the same way. -/
theorem encrypt_encrypt (key nonce text : List UInt8) :
    encrypt key nonce (encrypt key nonce text) = text := by
  apply List.ext_getElem (by simp)
  intro i hi hi'
  simp only [encrypt, List.getElem_mapIdx]
  rw [UInt8.xor_assoc, UInt8.xor_self, UInt8.xor_zero]

/-! ### Packets -/

/-- A packet with its whole number, of which `numberLength` bytes are sent. The tag that
authenticates the packet is left free. -/
structure Packet where
  first : UInt8
  dcid : List UInt8
  scid : List UInt8
  token : List UInt8
  tokenSize : VarintSize
  lengthSize : VarintSize
  number : ℕ
  numberLength : ℕ
  payload : List UInt8
  tag : List UInt8
deriving DecidableEq, Repr

namespace Packet

variable (q : Packet)

/-- The Length field: everything behind it. -/
def length : ℕ := q.numberLength + q.payload.length + q.tag.length

/-- The lengths fit into their fields. -/
structure Encodable : Prop where
  dcid : q.dcid.length ≤ 20
  scid : q.scid.length ≤ 255
  token : q.token.length < q.tokenSize.limit
  length : q.length < q.lengthSize.limit

structure WellFormed : Prop extends q.Encodable where
  initial : q.first >>> 4 = 0xC
  numberLength : (q.first &&& 3).toNat + 1 = q.numberLength
  number : q.number < 2 ^ 62
  tag : q.tag.length = 16
  sample : 20 ≤ q.length

/-- What stands between the first byte and the packet number. -/
def fields : List UInt8 :=
  BigEndian.ofNat 4 1 ++ UInt8.ofNat q.dcid.length :: q.dcid ++
    UInt8.ofNat q.scid.length :: q.scid ++ varint q.tokenSize q.token.length ++ q.token ++
    varint q.lengthSize q.length

def sealed : List UInt8 :=
  encrypt (clientKey q.dcid) (nonce (clientIv q.dcid) q.number) q.payload ++ q.tag

/-- The sample is taken as if the packet number had four bytes. -/
def sample : List UInt8 := field q.sealed (4 - q.numberLength) 16

def mask : List UInt8 := (Aes.encrypt (block (clientHp q.dcid)) (block q.sample)).toList

def protectedFirst : UInt8 := q.first ^^^ (q.mask.getD 0 0 &&& 0x0f)

def protectedNumber : List UInt8 :=
  List.zipWith (· ^^^ ·) (BigEndian.ofNat q.numberLength q.number) (field q.mask 1 q.numberLength)

def wire : List UInt8 := q.protectedFirst :: q.fields ++ q.protectedNumber ++ q.sealed

variable {q}

theorem length_sealed : q.sealed.length = q.payload.length + q.tag.length := by
  simp [sealed]

theorem length_mask : q.mask.length = 16 := by
  simp [mask]

theorem WellFormed.numberLength_le (h : q.WellFormed) :
    1 ≤ q.numberLength ∧ q.numberLength ≤ 4 := by
  have hlt : (q.first &&& 3).toNat ≤ 3 := by
    rw [UInt8.toNat_and]
    exact Nat.and_le_right
  have heq := h.numberLength
  omega

theorem WellFormed.length_protectedNumber (h : q.WellFormed) :
    q.protectedNumber.length = q.numberLength := by
  have hle := h.numberLength_le
  rw [protectedNumber, List.length_zipWith, BigEndian.length_ofNat,
    LittleEndian.length_field (by rw [length_mask]; omega), Nat.min_self]

end Packet

end QuicInitial
