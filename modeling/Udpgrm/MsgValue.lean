import Udpgrm.Lib.LittleEndian
import Udpgrm.Storage

/-! The bytes of `struct msg_value`, as the hooks write them and `handle_msg` reads them. -/
namespace Udpgrm

open LittleEndian

abbrev MSG_LOG : UInt32 := 0
abbrev MSG_REGISTER_SOCKET : UInt32 := 1
abbrev MSG_SET_WORKING_GEN : UInt32 := 2
abbrev MSG_SET_DISSECTOR : UInt32 := 3

/-- `sizeof(struct msg_value)` and the offset of its union, where also `log` lies. -/
abbrev MSG_SIZE : ℕ := 128
abbrev MSG_LOG_OFFSET : ℕ := 24
abbrev MSG_LOG_SIZE : ℕ := 100

/-- The bytes of a `struct reuseport_storage_key`. -/
def Key.toBytes (k : Key) : List UInt8 :=
  [k.family, k.reserved] ++ ofNat 2 k.srcPort.toNat ++
    k.srcIp6.toList.flatMap fun w => ofNat 4 w.toNat

def Key.ofBytes (b : List UInt8) : Key :=
  ⟨b.getD 0 0, b.getD 1 0, u16 b 2, #v[u32 b 4, u32 b 8, u32 b 12, u32 b 16]⟩

@[simp] theorem Key.length_toBytes (k : Key) : k.toBytes.length = 20 := by
  obtain ⟨family, reserved, port, ⟨⟨ip⟩, hip⟩⟩ := k
  match ip, hip with
  | [a, b, c, d], _ => simp [toBytes]

theorem Key.ofBytes_toBytes (k : Key) : Key.ofBytes k.toBytes = k := by
  obtain ⟨family, reserved, port, ⟨⟨ip⟩, hip⟩⟩ := k
  match ip, hip with
  | [a, b, c, d], _ =>
    -- every field of the key lies where `ofBytes` reads it
    generalize hk : Key.toBytes ⟨family, reserved, port, #v[a, b, c, d]⟩ = bytes
    have hfamily : bytes.getD 0 0 = family := hk ▸ rfl
    have hreserved : bytes.getD 1 0 = reserved := hk ▸ rfl
    have hport : u16 bytes 2 = port := u16_eq (hk ▸ rfl)
    have ha : u32 bytes 4 = a := u32_eq (hk ▸ rfl)
    have hb : u32 bytes 8 = b := u32_eq (hk ▸ rfl)
    have hc : u32 bytes 12 = c := u32_eq (hk ▸ rfl)
    have hd : u32 bytes 16 = d := u32_eq (hk ▸ rfl)
    rw [Key.ofBytes, hfamily, hreserved, hport, ha, hb, hc, hd]

/-- `handle_msg` copies a record into a cleared `struct msg_value`. -/
def msgValue (data : List UInt8) : List UInt8 :=
  data ++ List.replicate (MSG_SIZE - data.length) 0

def msgType (data : List UInt8) : UInt32 := u32 (msgValue data) 0

/-- The message that `handle_msg` sees in a record. -/
def decodeMsg (data : List UInt8) : Msg :=
  let e := msgValue data
  let skey := Key.ofBytes (field e 4 20)
  if msgType data = MSG_LOG then .log skey (field e MSG_LOG_OFFSET MSG_LOG_SIZE)
  else if msgType data = MSG_REGISTER_SOCKET then
    .registerSocket skey (u32 e 24) (u64 e 32) (u32 e 40) (u32 e 44)
  else if msgType data = MSG_SET_WORKING_GEN then .setWorkingGen skey (u32 e 24) (u32 e 28)
  else if msgType data = MSG_SET_DISSECTOR then .setDissector skey
  else .other (msgType data) skey

/-- The `ev_size` of a hook's message and the fields that the hook stores in it. The hooks
post no log and no other message this way. -/
def Msg.writes : Msg → Option (ℕ × Writes)
  | .registerSocket skey pid socketCookie socketGen socketApp =>
    some (52, [(0, ofNat 4 MSG_REGISTER_SOCKET.toNat), (4, skey.toBytes), (24, ofNat 4 pid.toNat),
      (32, ofNat 8 socketCookie.toNat), (40, ofNat 4 socketGen.toNat),
      (44, ofNat 4 socketApp.toNat)])
  | .setWorkingGen skey appIdx appWorkingGen =>
    some (40, [(0, ofNat 4 MSG_SET_WORKING_GEN.toNat), (4, skey.toBytes),
      (24, ofNat 4 appIdx.toNat), (28, ofNat 4 appWorkingGen.toNat)])
  | .setDissector skey =>
    some (32, [(0, ofNat 4 MSG_SET_DISSECTOR.toNat), (4, skey.toBytes), (24, ofNat 4 0)])
  | .log _ _ | .other _ _ => none

section Decode

variable {m : Msg} {size : ℕ} {ws : Writes} {stale data bs : List UInt8} {off n : ℕ}

theorem Msg.writes_ascending (h : m.writes = some (size, ws)) :
    Ascending size 0 ws ∧ size ≤ MSG_SIZE := by
  cases m <;> simp only [Msg.writes, Option.some.injEq, Prod.mk.injEq, reduceCtorEq] at h
  all_goals
    obtain ⟨rfl, rfl⟩ := h
    simp [Ascending, MSG_SIZE]

theorem field_msgValue (h : off + n ≤ data.length) :
    field (msgValue data) off n = field data off n := by
  rw [field, field, msgValue, List.drop_append_of_le_length (by omega),
    List.take_append_of_le_length (by simp; omega)]

/-- What a hook has stored is found by `handle_msg`, whatever else the record holds. -/
theorem field_event (h : Ascending stale.length 0 ws) (hw : (off, bs) ∈ ws) :
    field (msgValue (patches stale ws)) off bs.length = bs := by
  have hfield := field_patches_mem h hw
  have hlen : off + bs.length ≤ (patches stale ws).length := length_patches h ▸ h.mem_le hw
  rw [field_msgValue hlen, hfield]

theorem skey_event {k : Key} (h : Ascending stale.length 0 ws) (hw : (4, k.toBytes) ∈ ws) :
    Key.ofBytes (field (msgValue (patches stale ws)) 4 20) = k := by
  rw [← k.length_toBytes, field_event h hw, Key.ofBytes_toBytes]

theorem u32_event {x : UInt32} (h : Ascending stale.length 0 ws)
    (hw : (off, ofNat 4 x.toNat) ∈ ws) : u32 (msgValue (patches stale ws)) off = x := by
  apply u32_eq
  have hfield := field_event h hw
  rwa [length_ofNat] at hfield

theorem u64_event {x : UInt64} (h : Ascending stale.length 0 ws)
    (hw : (off, ofNat 8 x.toNat) ∈ ws) : u64 (msgValue (patches stale ws)) off = x := by
  apply u64_eq
  have hfield := field_event h hw
  rwa [length_ofNat] at hfield

/-- A posted message reaches `handle_msg` as it is, whatever its memory held before. -/
theorem decodeMsg_event (h : m.writes = some (size, ws)) (hlen : stale.length = size) :
    decodeMsg (patches stale ws) = m := by
  have hasc := hlen ▸ (Msg.writes_ascending h).1
  cases m <;> simp only [Msg.writes, Option.some.injEq, Prod.mk.injEq, reduceCtorEq] at h
  case registerSocket k pid cookie gen app =>
    obtain ⟨rfl, rfl⟩ := h
    have htype : msgType _ = MSG_REGISTER_SOCKET := u32_event hasc (by simp)
    have hskey : Key.ofBytes _ = k := skey_event hasc (by simp)
    have hpid : u32 _ 24 = pid := u32_event hasc (by simp)
    have hcookie : u64 _ 32 = cookie := u64_event hasc (by simp)
    have hgen : u32 _ 40 = gen := u32_event hasc (by simp)
    have happ : u32 _ 44 = app := u32_event hasc (by simp)
    simp only [decodeMsg, htype, hskey, hpid, hcookie, hgen, happ]
    rfl
  case setWorkingGen k app gen =>
    obtain ⟨rfl, rfl⟩ := h
    have htype : msgType _ = MSG_SET_WORKING_GEN := u32_event hasc (by simp)
    have hskey : Key.ofBytes _ = k := skey_event hasc (by simp)
    have happ : u32 _ 24 = app := u32_event hasc (by simp)
    have hgen : u32 _ 28 = gen := u32_event hasc (by simp)
    simp only [decodeMsg, htype, hskey, happ, hgen]
    rfl
  case setDissector k =>
    obtain ⟨rfl, rfl⟩ := h
    have htype : msgType _ = MSG_SET_DISSECTOR := u32_event hasc (by simp)
    have hskey : Key.ofBytes _ = k := skey_event hasc (by simp)
    simp only [decodeMsg, htype, hskey]
    rfl

end Decode

end Udpgrm
