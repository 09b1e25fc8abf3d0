import Udpgrm.Flow

/-!
The reuseport program: parse the packet, try the socket of an existing flow, and
fall back to the working generation.
-/
namespace Udpgrm

inductive IErr
  | ok
  | stack
  | load
  | instrExceeded
  | badInstr
  | sanity
  | badReturnValue
deriving DecidableEq, Repr

/-- The packet programs: a code and the 32 bits of `retval`. -/
structure Programs where
  interpretCbpf : Md → Dissector → IErr × UInt32
  runBespokeByDigest : Md → UInt32 → Dissector → IErr × UInt32
  hsiphash : List UInt8 → UInt32

def Programs.countIpFlowHash (p : Programs) (f : IpFlowHash) : UInt32 := p.hsiphash f.toBytes

/-- `dissector_cbpf`: its code, the udpgrm cookie and the application number. A negative
`retval` is one above `0x7fffffff` here. -/
def dissectorCbpf (p : Programs) (md : Md) (st : ReuseportStorage) : IErr × UInt16 × UInt32 :=
  let (r, retval) :=
    if st.dis.bespokeDigest = 0 then p.interpretCbpf md st.dis
    else p.runBespokeByDigest md st.dis.bespokeDigest st.dis
  if r ≠ .ok then (r, 0, 0)
  else
    let appIdx := retval - 0x80000000
    if appIdx < st.dis.maxApps then (.badReturnValue, 0, appIdx)
    else if retval > 0xffff then (.badReturnValue, 0, 0)
    else (.ok, retval.toUInt16, 0)

/-- Where the first stage jumps. -/
inductive Dissected
  | internalStateError
  | cbpfProgError
  | skbLoadBytesError
  | haveHash (hash : UInt32)
  | haveCookie (sockCookie : UInt64) (appIdx : UInt32)
  | haveThirdStage
deriving DecidableEq, Repr

abbrev NO_COOKIE : UInt64 := 0xffffffffffffffff
abbrev BAD_COOKIE : UInt64 := 0xfffffffffffffffe

/-- The socket cookie that a dissected udpgrm cookie stands for. -/
def cookieOfGrm (st : ReuseportStorage) (grmCookie : UInt16) : UInt64 :=
  match grmCookieUnpack grmCookie with
  | some (sockGen, sockIdx) => st.cookies (genRow sockGen) (idxSlot sockIdx)
  | none => BAD_COOKIE

def firstStage (p : Programs) (md : Md) (st : ReuseportStorage) : Dissected :=
  match st.dis.kind with
  | some .flow =>
    match dissectorFlow md with
    | none => .skbLoadBytesError
    | some r => .haveHash (p.countIpFlowHash (r.flow st.randomId))
  | some .cbpf | some .bespoke =>
    match dissectorCbpf p md st with
    | (.load, _, _) => .skbLoadBytesError
    | (.badReturnValue, _, appIdx) => .haveCookie NO_COOKIE appIdx
    | (.ok, grmCookie, appIdx) => .haveCookie (cookieOfGrm st grmCookie) appIdx
    | _ => .cbpfProgError
  | some .noop => .haveThirdStage
  | none => .internalStateError

/-- How the program leaves a packet: to the default reuseport choice, to the socket of
its flow, or to the outcome of the new-flow stage. -/
inductive Verdict
  | fallback
  | existing (sockCookie : UInt64)
  | newFlow (selected : Option UInt64)
deriving DecidableEq, Repr

def Verdict.selected : Verdict → Option UInt64
  | fallback => none
  | existing c => some c
  | newFlow c => c

/-- The cookie that the third stage hands to `bpf_sk_select_reuseport`. -/
def newFlowCookie (st : ReuseportStorage) (appIdx mdHash : UInt32) : UInt64 :=
  let wrkGen := toWrkGen st.dis.maxApps appIdx (st.workingGen (Fin.ofNat MAX_APPS appIdx.toNat))
  st.cookies (genRow wrkGen) (idxSlot (mdHash % st.maxIdx (genRow wrkGen)))

def thirdStage (select : UInt64 → Int) (appIdx mdHash : UInt32) (st : ReuseportStorage) :
    Verdict × ReuseportStorage :=
  let st := st.count fun m => { m with rxNewFlowTotal := m.rxNewFlowTotal + 1 }
  let sockCookie := newFlowCookie st appIdx mdHash
  if select sockCookie = 0 then
    (.newFlow (some sockCookie), st.count fun m =>
      { m with rxNewFlowWorkingGenDispatchOk := m.rxNewFlowWorkingGenDispatchOk + 1 })
  else
    (.newFlow none, st.count fun m =>
      { m with rxNewFlowWorkingGenDispatchError := m.rxNewFlowWorkingGenDispatchError + 1 })

abbrev EBADF : Int := 9

/-- `have_hash`: a flow entry in force names the socket. -/
def haveHash (select : UInt64 → Int) (lru : FlowTable) (now : UInt64) (hash mdHash : UInt32)
    (st : ReuseportStorage) : Verdict × ReuseportStorage :=
  let st := st.count fun m => { m with rxDissectedOkTotal := m.rxDissectedOkTotal + 1 }
  match lru hash with
  | none =>
    thirdStage select 0 mdHash
      (st.count fun m => { m with rxFlowNewUnseen := m.rxFlowNewUnseen + 1 })
  | some value =>
    if value.fresh st.dis now then
      if select value.cookie = 0 then
        (.existing value.cookie, st.count fun m => { m with rxFlowOk := m.rxFlowOk + 1 })
      else if select value.cookie = -EBADF then
        thirdStage select 0 mdHash
          (st.count fun m => { m with rxFlowRgConflict := m.rxFlowRgConflict + 1 })
      else
        thirdStage select 0 mdHash
          (st.count fun m => { m with rxFlowOtherError := m.rxFlowOtherError + 1 })
    else
      thirdStage select 0 mdHash (st.count fun m => { m with
        rxFlowNewUnseen := m.rxFlowNewUnseen + 1
        rxFlowNewHadExpired := m.rxFlowNewHadExpired + 1 })

/-- `have_cookie`: the packet itself names the socket. -/
def haveCookie (select : UInt64 → Int) (sockCookie : UInt64) (appIdx mdHash : UInt32)
    (st : ReuseportStorage) : Verdict × ReuseportStorage :=
  let st := st.count fun m => { m with rxDissectedOkTotal := m.rxDissectedOkTotal + 1 }
  if select sockCookie = 0 then
    (.existing sockCookie, st.count fun m => { m with rxFlowOk := m.rxFlowOk + 1 })
  else if select sockCookie = -EBADF then
    thirdStage select appIdx mdHash
      (st.count fun m => { m with rxFlowRgConflict := m.rxFlowRgConflict + 1 })
  else if sockCookie = NO_COOKIE ∨ sockCookie = 0 ∨ sockCookie = BAD_COOKIE then
    thirdStage select appIdx mdHash (st.count fun m => { m with
      rxFlowNewUnseen := m.rxFlowNewUnseen + 1
      rxFlowNewBadCookie := m.rxFlowNewBadCookie + if sockCookie = BAD_COOKIE then 1 else 0 })
  else
    thirdStage select appIdx mdHash
      (st.count fun m => { m with rxFlowOtherError := m.rxFlowOtherError + 1 })

/-- `udpgrm_reuseport_prog` on the group of the receiving socket. `select` is what
`bpf_sk_select_reuseport` returns for a cookie. -/
def udpgrmReuseportProg (p : Programs) (select : UInt64 → Int) (lru : FlowTable)
    (now : UInt64) (md : Md) (st : ReuseportStorage) : Verdict × ReuseportStorage :=
  let st := st.count fun m => { m with rxProcessedTotal := m.rxProcessedTotal + 1 }
  match firstStage p md st with
  | .internalStateError =>
    (.fallback, st.count fun m => { m with rxInternalStateError := m.rxInternalStateError + 1 })
  | .skbLoadBytesError =>
    (.fallback, st.count fun m =>
      { m with rxPacketTooShortError := m.rxPacketTooShortError + 1 })
  | .cbpfProgError =>
    (.fallback, st.count fun m => { m with rxCbpfProgError := m.rxCbpfProgError + 1 })
  | .haveHash hash => haveHash select lru now hash md.hash st
  | .haveCookie sockCookie appIdx => haveCookie select sockCookie appIdx md.hash st
  | .haveThirdStage =>
    thirdStage select 0 md.hash (st.count fun m => { m with
      rxDissectedOkTotal := m.rxDissectedOkTotal + 1
      rxFlowNewUnseen := m.rxFlowNewUnseen + 1 })

/-! ### What a packet can change -/

theorem newFlowCookie_count (st : ReuseportStorage) (f : Metrics → Metrics)
    (appIdx mdHash : UInt32) :
    newFlowCookie (st.count f) appIdx mdHash = newFlowCookie st appIdx mdHash := rfl

theorem thirdStage_sameConfig (select : UInt64 → Int) (appIdx mdHash : UInt32)
    (st : ReuseportStorage) : st.SameConfig (thirdStage select appIdx mdHash st).2 := by
  unfold thirdStage
  simp only
  split <;> exact ⟨_, rfl⟩

theorem haveHash_sameConfig (select : UInt64 → Int) (lru : FlowTable) (now : UInt64)
    (hash mdHash : UInt32) (st : ReuseportStorage) :
    st.SameConfig (haveHash select lru now hash mdHash st).2 := by
  unfold haveHash
  simp only
  split
  · exact .trans ⟨_, rfl⟩ (thirdStage_sameConfig ..)
  · split
    · split
      · exact ⟨_, rfl⟩
      · split <;> exact .trans ⟨_, rfl⟩ (thirdStage_sameConfig ..)
    · exact .trans ⟨_, rfl⟩ (thirdStage_sameConfig ..)

theorem haveCookie_sameConfig (select : UInt64 → Int) (sockCookie : UInt64)
    (appIdx mdHash : UInt32) (st : ReuseportStorage) :
    st.SameConfig (haveCookie select sockCookie appIdx mdHash st).2 := by
  unfold haveCookie
  simp only
  split
  · exact ⟨_, rfl⟩
  · split
    · exact .trans ⟨_, rfl⟩ (thirdStage_sameConfig ..)
    · split <;> exact .trans ⟨_, rfl⟩ (thirdStage_sameConfig ..)

/-- A packet moves counters of its group and nothing else. -/
theorem udpgrmReuseportProg_sameConfig (p : Programs) (select : UInt64 → Int)
    (lru : FlowTable) (now : UInt64) (md : Md) (st : ReuseportStorage) :
    st.SameConfig (udpgrmReuseportProg p select lru now md st).2 := by
  unfold udpgrmReuseportProg
  simp only
  split
  · exact ⟨_, rfl⟩
  · exact ⟨_, rfl⟩
  · exact ⟨_, rfl⟩
  · exact .trans ⟨_, rfl⟩ (haveHash_sameConfig ..)
  · exact .trans ⟨_, rfl⟩ (haveCookie_sameConfig ..)
  · exact .trans ⟨_, rfl⟩ (thirdStage_sameConfig ..)

end Udpgrm
