import Udpgrm.Basic

/-! The structures kept in eBPF maps and passed through the message ring. -/
namespace Udpgrm

abbrev AF_INET : UInt32 := 2
abbrev AF_INET6 : UInt32 := 10

/-- `struct reuseport_storage_key`. The IPv4 address is the first word of the union. -/
structure Key where
  family : UInt8
  reserved : UInt8
  srcPort : UInt16
  srcIp6 : Vector UInt32 4
deriving DecidableEq, Repr

/-- The fields of `struct bpf_sock` that identify a reuseport group. -/
structure BpfSock where
  family : UInt32
  srcPort : UInt32
  srcIp4 : UInt32
  srcIp6 : Vector UInt32 4
deriving DecidableEq, Repr

def skeyFromBpfSock (sk : BpfSock) : Key :=
  let skey : Key := ⟨sk.family.toUInt8, 0, sk.srcPort.toUInt16, Vector.replicate 4 0⟩
  if sk.family = AF_INET then { skey with srcIp6 := skey.srcIp6.set 0 sk.srcIp4 }
  else if sk.family = AF_INET6 then { skey with srcIp6 := sk.srcIp6 }
  else skey

/-! ### Dissectors -/

inductive DissectorKind
  | flow
  | cbpf
  | bespoke
  | noop
deriving DecidableEq, Repr

abbrev DISSECTOR_FLAG_VERBOSE : UInt32 := 0x8000
abbrev DISSECTOR_FLAGS : UInt32 := DISSECTOR_FLAG_VERBOSE

/-- `DISSECTOR_TYPE`: the type number without its flag bits. -/
def dissectorType (x : UInt32) : UInt32 := x &&& ~~~DISSECTOR_FLAGS

/-- The cases of the switches over `DISSECTOR_TYPE`; none is their default case. -/
def dissectorKind (x : UInt32) : Option DissectorKind :=
  if dissectorType x = 0 then some .flow
  else if dissectorType x = 1 then some .cbpf
  else if dissectorType x = 3 then some .bespoke
  else if dissectorType x = 4 then some .noop
  else none

/-- `struct udp_grm_dissector`. `filterLen` and `filter` are also `bespoke_hostname_len`
and the bytes of `bespoke_sni`, which share their storage. -/
structure Dissector where
  dissectorType : UInt32
  flowEntryTimeoutSec : UInt32
  maxApps : UInt32
  bespokeDigest : UInt32
  label : Vector UInt8 LABEL_SZ
  filterLen : UInt32
  filter : Vector UInt8 512
deriving DecidableEq

def Dissector.empty : Dissector :=
  ⟨0, 0, 0, 0, Vector.replicate LABEL_SZ 0, 0, Vector.replicate 512 0⟩

def Dissector.kind (d : Dissector) : Option DissectorKind := dissectorKind d.dissectorType

/-- `state->dis.label[0] != 0`: the sockets of the group go to Tubular. -/
def Dissector.labelled (d : Dissector) : Bool := d.label[0] ≠ 0

abbrev FLOW_DEFAULT_TIMEOUT_SEC : UInt32 := 125

/-- `SEC_TO_NSEC` of the flow timeout, with the default for zero. -/
def Dissector.flowTimeoutNs (d : Dissector) : UInt64 :=
  (if d.flowEntryTimeoutSec = 0 then FLOW_DEFAULT_TIMEOUT_SEC
    else d.flowEntryTimeoutSec).toUInt64 * 1000000000

/-! ### Reuseport groups, sockets, flows -/

/-- The counters of `struct reuseport_storage`, as unbounded naturals. -/
structure Metrics where
  socketCriticalGauge : ℕ := 0
  socketCritical : ℕ := 0
  rxProcessedTotal : ℕ := 0
  rxInternalStateError : ℕ := 0
  rxCbpfProgError : ℕ := 0
  rxPacketTooShortError : ℕ := 0
  rxDissectedOkTotal : ℕ := 0
  rxFlowOk : ℕ := 0
  rxFlowRgConflict : ℕ := 0
  rxFlowOtherError : ℕ := 0
  rxFlowNewUnseen : ℕ := 0
  rxFlowNewHadExpired : ℕ := 0
  rxFlowNewBadCookie : ℕ := 0
  rxNewFlowTotal : ℕ := 0
  rxNewFlowWorkingGenDispatchOk : ℕ := 0
  rxNewFlowWorkingGenDispatchError : ℕ := 0
  txTotal : ℕ := 0
  txFlowCreateOk : ℕ := 0
  txFlowCreateFromExpiredOk : ℕ := 0
  txFlowCreateError : ℕ := 0
  txFlowUpdateOk : ℕ := 0
  txFlowUpdateConflict : ℕ := 0
deriving DecidableEq, Repr

structure ReuseportStorage where
  verbose : Bool
  netnsCookie : UInt64
  randomId : UInt32
  dis : Dissector
  workingGen : Fin MAX_APPS → UInt32
  maxIdx : Row → UInt32
  cookies : Row → Slot → UInt64
  metrics : Metrics

def emptyState : ReuseportStorage where
  verbose := false
  netnsCookie := 0
  randomId := 0
  dis := .empty
  workingGen _ := 0
  maxIdx _ := 0
  cookies _ _ := 0
  metrics := {}

/-- `METRIC_INC` and its kin: a state that differs in its counters only. -/
def ReuseportStorage.count (st : ReuseportStorage) (f : Metrics → Metrics) : ReuseportStorage :=
  { st with metrics := f st.metrics }

@[simp] theorem ReuseportStorage.count_dis (st : ReuseportStorage) (f : Metrics → Metrics) :
    (st.count f).dis = st.dis := rfl

/-- `GSM_SET_COOKIES` in `udpgrm_cb_update_map`. -/
def ReuseportStorage.setCookie (st : ReuseportStorage) (sockGen sockIdx genLen : UInt32)
    (sockCookie : UInt64) : ReuseportStorage :=
  { st with
    cookies := Function.update st.cookies (genRow sockGen)
      (Function.update (st.cookies (genRow sockGen)) (idxSlot sockIdx) sockCookie)
    maxIdx := Function.update st.maxIdx (genRow sockGen) genLen }

structure SocketStorage where
  sockGen : UInt32
  sockIdx : UInt32
  sockApp : UInt32
  soCookie : UInt64
  netnsCookie : UInt64
deriving DecidableEq, Repr

structure LruValue where
  lastTxNs : UInt64
  cookie : UInt64
deriving DecidableEq, Repr

/-- `struct msg_value` as `handle_msg` reads it, one constructor per message type it knows. -/
inductive Msg
  | log (skey : Key) (text : List UInt8)
  | registerSocket (skey : Key) (pid : UInt32) (socketCookie : UInt64)
      (socketGen socketApp : UInt32)
  | setWorkingGen (skey : Key) (appIdx appWorkingGen : UInt32)
  | setDissector (skey : Key)
  | other (type : UInt32) (skey : Key)
deriving DecidableEq, Repr

def Msg.skey : Msg → Key
  | log k _ | registerSocket k _ _ _ _ | setWorkingGen k _ _ | setDissector k | other _ k => k

section SetCookie

variable (st : ReuseportStorage) (g i n : UInt32) (c : UInt64)

@[simp] theorem setCookie_cookies_self :
    (st.setCookie g i n c).cookies (genRow g) (idxSlot i) = c := by
  simp [ReuseportStorage.setCookie]

theorem setCookie_cookies_row {r : Row} (h : r ≠ genRow g) :
    (st.setCookie g i n c).cookies r = st.cookies r := by
  simp [ReuseportStorage.setCookie, h]

theorem setCookie_cookies_slot {j : Slot} (h : j ≠ idxSlot i) (r : Row) :
    (st.setCookie g i n c).cookies r j = st.cookies r j := by
  by_cases hr : r = genRow g
  · subst hr
    simp [ReuseportStorage.setCookie, h]
  · rw [setCookie_cookies_row st g i n c hr]

/-- The table holds what it held, but for the one slot written. -/
theorem setCookie_cookies (r : Row) (j : Slot) :
    (st.setCookie g i n c).cookies r j =
      if r = genRow g ∧ j = idxSlot i then c else st.cookies r j := by
  by_cases hr : r = genRow g <;> by_cases hj : j = idxSlot i <;>
    simp [ReuseportStorage.setCookie, hr, hj]

@[simp] theorem setCookie_maxIdx_self : (st.setCookie g i n c).maxIdx (genRow g) = n := by
  simp [ReuseportStorage.setCookie]

theorem setCookie_maxIdx_row {r : Row} (h : r ≠ genRow g) :
    (st.setCookie g i n c).maxIdx r = st.maxIdx r := by
  simp [ReuseportStorage.setCookie, h]

end SetCookie

end Udpgrm
