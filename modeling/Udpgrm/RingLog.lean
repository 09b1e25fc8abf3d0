import Udpgrm.Daemon
import Udpgrm.Lib.RingBuffer
import Udpgrm.Lib.Transition
import Udpgrm.MsgValue

/-!
`msg_rb` byte by byte: the hooks' messages and log lines share one ring, and both are
written over what earlier records have left there.
-/
namespace Udpgrm

open CircularMemory LittleEndian RingBuffer Transition

/-- `max_entries` of `msg_rb`. -/
abbrev MSG_RB : ℕ := 512 * 1024

/-- The page of a record, as its header keeps it: three pages come before the data. -/
def recPgOff (pos : ℕ) : ℕ := 3 + pos % MSG_RB / 4096

/-- Who has made a record: a log line, the scratch memory of a log line, or a message. -/
inductive RecOrigin
  | log
  | scratch
  | event (m : Msg)
deriving DecidableEq

/-- The ring, and the origins of the records in it. The latter are not in the program. -/
structure MsgRing where
  ring : Ring
  origins : List RecOrigin

def MsgRing.initial : MsgRing := ⟨⟨fun _ => 0, 0, 0⟩, []⟩

/-- What `bpf_snprintf` does: it formats a text, or fails and stores nothing. -/
inductive Snprintf
  | text (t : List UInt8)
  | error (errno : ℕ)

/-- A long text is cut; it always ends with a zero. -/
def Snprintf.writes : Snprintf → Writes
  | text t => [(MSG_LOG_OFFSET, t.take (MSG_LOG_SIZE - 1) ++ [0])]
  | error _ => []

/-- The length of the whole text, with its zero. -/
def Snprintf.ret : Snprintf → ℤ
  | text t => t.length + 1
  | error errno => -errno

/-- `ll`, computed in unsigned arithmetic. -/
def Snprintf.ll (out : Snprintf) : ℕ :=
  min ((MSG_LOG_OFFSET + out.ret) % 2 ^ 32).toNat MSG_SIZE

/-- `log_printfs` stores the key before the text; `log_printf` stores only the text. -/
def logWrites (skey : Option Key) (out : Snprintf) : Writes :=
  (skey.map fun k => (4, k.toBytes)).toList ++ out.writes

namespace MsgRing

variable (x : MsgRing)

/-- The bytes found in memory reserved next. -/
def stale (n : ℕ) : List UInt8 := read MSG_RB x.ring.mem (x.ring.prod + 8) n

/-- The record that a log line leaves for the daemon. -/
def logRecord (skey : Option Key) (out : Snprintf) : List UInt8 :=
  (patches (x.stale MSG_SIZE) (logWrites skey out)).take out.ll

/-- Reserve, fill and submit or discard one record. -/
def put (o : RecOrigin) (len : ℕ) (discarded : Bool) (fill : List UInt8 → List UInt8) : MsgRing :=
  ⟨x.ring.put MSG_RB recPgOff len discarded fill, x.origins ++ [o]⟩

/-- The reserved memory that a log line is formatted in. It is discarded in the end. -/
def scratch (skey : Option Key) (out : Snprintf) : MsgRing :=
  x.put .scratch MSG_SIZE true fun e => patches e (logWrites skey out)

/-- `log_printf` and `log_printfs`: format in reserved memory, then copy the result to a
record of its own length. -/
def logPrintf (skey : Option Key) (out : Snprintf) : MsgRing :=
  if x.ring.fits MSG_RB MSG_SIZE then
    if (x.scratch skey out).ring.fits MSG_RB out.ll then
      (x.scratch skey out).put .log out.ll false fun _ => x.logRecord skey out
    else x.scratch skey out
  else x

/-- Reserve a record for a message, store the fields, submit. None is a full ring. -/
def postEvent (m : Msg) : Option MsgRing :=
  m.writes.bind fun (size, ws) =>
    if x.ring.fits MSG_RB size then some (x.put (.event m) size false fun e => patches e ws)
    else none

/-- The daemon moves past the oldest record. -/
def consume : Option MsgRing :=
  (x.ring.next MSG_RB).map fun (_, r) => ⟨r, x.origins.tail⟩

end MsgRing

inductive RingAct
  | log (skey : Option Key) (out : Snprintf)
  | event (m : Msg)
  | consume

def MsgRing.step (x : MsgRing) : RingAct → Option MsgRing
  | .log skey out => some (x.logPrintf skey out)
  | .event m => x.postEvent m
  | .consume => x.consume

abbrev ringLts : LTS MsgRing RingAct := .ofFn MsgRing.step

/-! ### Log records -/

section LogRecord

variable (x : MsgRing) (skey : Option Key) (out : Snprintf)

theorem Snprintf.ll_le : out.ll ≤ MSG_SIZE := Nat.min_le_right ..

theorem logWrites_ascending : Ascending MSG_SIZE 4 (logWrites skey out) := by
  cases skey <;> cases out <;>
    simp [logWrites, Snprintf.writes, Ascending, MSG_SIZE, MSG_LOG_OFFSET, MSG_LOG_SIZE]
  all_goals omega

@[simp] theorem MsgRing.length_stale (n : ℕ) : (x.stale n).length = n := length_read

theorem length_scratch :
    (patches (x.stale MSG_SIZE) (logWrites skey out)).length = MSG_SIZE := by
  have h : Ascending (x.stale MSG_SIZE).length 4 (logWrites skey out) := by
    rw [x.length_stale]
    exact logWrites_ascending skey out
  rw [length_patches h, x.length_stale]

theorem MsgRing.length_logRecord : (x.logRecord skey out).length = out.ll := by
  rw [logRecord, List.length_take, length_scratch, Nat.min_eq_left out.ll_le]

/-- Nobody stores the type: a log record starts with what its memory held. -/
theorem MsgRing.logRecord_type : (x.logRecord skey out).take 4 = (x.stale 4).take out.ll := by
  have h : Ascending (x.stale MSG_SIZE).length 4 (logWrites skey out) := by
    rw [x.length_stale]
    exact logWrites_ascending skey out
  have hfield : field (patches (x.stale MSG_SIZE) (logWrites skey out)) 0 4 =
      field (x.stale MSG_SIZE) 0 4 := field_patches_below h le_rfl
  simp only [field, List.drop_zero] at hfield
  rw [logRecord, List.take_take, Nat.min_comm, ← List.take_take, hfield, stale,
    take_read (by decide)]
  rfl

/-- If that was zero, the record has the type MSG_LOG. -/
theorem MsgRing.logRecord_msgType (h : x.stale 4 = List.replicate 4 0) :
    msgType (x.logRecord skey out) = MSG_LOG := by
  have hzero : ∀ b ∈ (msgValue (x.logRecord skey out)).take 4, b = 0 := by
    intro b hb
    rw [msgValue, List.take_append, x.logRecord_type, h] at hb
    rcases List.mem_append.mp hb with hb | hb
    · exact List.eq_of_mem_replicate (List.mem_of_mem_take hb)
    · exact List.eq_of_mem_replicate (List.mem_of_mem_take hb)
  rw [msgType, u32, field, List.drop_zero, toNat_eq_zero hzero]
  rfl

end LogRecord

theorem decodeMsg_log {data : List UInt8} (h : msgType data = MSG_LOG) :
    decodeMsg data =
      .log (Key.ofBytes (field (msgValue data) 4 20))
        (field (msgValue data) MSG_LOG_OFFSET MSG_LOG_SIZE) := by
  rw [decodeMsg, if_pos h]

/-! ### The ring as a queue of records -/

/-- What is known of a record by its origin. -/
def Matches (P : List UInt8 → Prop) : RecOrigin → Rec → Prop
  | .log, rec => rec.discarded = false ∧ P rec.data
  | .scratch, rec => rec.discarded = true
  | .event m, rec => rec.discarded = false ∧ decodeMsg rec.data = m

structure Queued (P : List UInt8 → Prop) (x : MsgRing) (recs : List Rec) : Prop where
  holds : RingBuffer.Holds MSG_RB x.ring recs
  origins : List.Forall₂ (Matches P) x.origins recs

section Queued

variable {P : List UInt8 → Prop} {x y : MsgRing} {recs : List Rec} {rec : Rec} {len : ℕ}
  {discarded : Bool} {fill : List UInt8 → List UInt8} {o : RecOrigin}

theorem Queued.put (h : Queued P x recs) (hfit : x.ring.fits MSG_RB len = true)
    (hlen : len ≤ MSG_SIZE) (hf : (fill (x.stale len)).length = len)
    (ho : Matches P o ⟨fill (x.stale len), discarded⟩) :
    Queued P (x.put o len discarded fill) (recs ++ [⟨fill (x.stale len), discarded⟩]) where
  holds := put_holds h.holds hfit (lt_of_le_of_lt hlen (by decide)) hf
  origins := List.rel_append h.origins (.cons ho .nil)

/-- The state once the daemon is past a record of `len` bytes. -/
def MsgRing.past (x : MsgRing) (len : ℕ) : MsgRing :=
  ⟨{ x.ring with cons := x.ring.cons + span len }, x.origins.tail⟩

theorem Queued.consume (h : Queued P x (rec :: recs)) :
    x.consume = some (x.past rec.data.length) ∧ Queued P (x.past rec.data.length) recs := by
  obtain ⟨hnext, hholds⟩ := next_holds h.holds
  obtain ⟨o, os, _, hos, horigins⟩ := List.forall₂_cons_right_iff.mp h.origins
  refine ⟨by rw [MsgRing.consume, hnext]; rfl, hholds, ?_⟩
  rw [MsgRing.past, horigins]
  exact hos

theorem length_event {m : Msg} {size : ℕ} {ws : Writes} (h : m.writes = some (size, ws)) :
    (patches (x.stale size) ws).length = size := by
  rw [length_patches (x.length_stale size ▸ (Msg.writes_ascending h).1), x.length_stale]

theorem Queued.postEvent {m : Msg} (h : Queued P x recs) (hy : x.postEvent m = some y) :
    ∃ recs', Queued P y recs' := by
  obtain ⟨⟨size, ws⟩, hw, hy⟩ := Option.bind_eq_some_iff.mp hy
  dsimp only at hy
  split_ifs at hy with hfit
  cases hy
  have hsize := (Msg.writes_ascending hw).2
  exact ⟨_, h.put hfit hsize (length_event hw) ⟨rfl, decodeMsg_event hw (x.length_stale size)⟩⟩

theorem Queued.scratch (skey : Option Key) (out : Snprintf) (h : Queued P x recs)
    (hfit : x.ring.fits MSG_RB MSG_SIZE = true) :
    Queued P (x.scratch skey out)
      (recs ++ [⟨patches (x.stale MSG_SIZE) (logWrites skey out), true⟩]) := by
  have hlen := length_scratch x skey out
  exact h.put hfit le_rfl hlen rfl

theorem Queued.logPrintf {skey : Option Key} {out : Snprintf} (h : Queued P x recs)
    (hP : P (x.logRecord skey out)) : ∃ recs', Queued P (x.logPrintf skey out) recs' := by
  rw [MsgRing.logPrintf]
  split_ifs with hfit hfit'
  · exact ⟨_, (h.scratch skey out hfit).put hfit' out.ll_le (x.length_logRecord skey out) ⟨rfl, hP⟩⟩
  · exact ⟨_, h.scratch skey out hfit⟩
  · exact ⟨_, h⟩

theorem Queued.step {a : RingAct} (h : Queued P x recs) (hy : x.step a = some y)
    (hP : ∀ skey out, a = .log skey out → P (x.logRecord skey out)) :
    ∃ recs', Queued P y recs' := by
  cases a with
  | log skey out =>
    cases hy
    exact h.logPrintf (hP skey out rfl)
  | event m => exact h.postEvent hy
  | consume =>
    cases recs with
    | nil =>
      have hempty : x.ring.cons = x.ring.prod := h.holds.laid
      simp [MsgRing.step, MsgRing.consume, Ring.next, hempty] at hy
    | cons rec recs =>
      obtain ⟨hnext, hrest⟩ := h.consume
      have hyx : y = x.past rec.data.length := by simpa [MsgRing.step, hnext] using hy.symm
      exact ⟨recs, hyx ▸ hrest⟩

theorem queued_initial : Queued P .initial [] := ⟨holds_empty _ _ (by decide), .nil⟩

/-- The daemon gets a record that fits its origin. -/
theorem Queued.next {os : List RecOrigin} (h : Queued P x recs) (ho : x.origins = o :: os) :
    ∃ rec r, x.ring.next MSG_RB = some (rec, r) ∧ Matches P o rec := by
  obtain ⟨rec, rest, hmatch, _, rfl⟩ := List.forall₂_cons_left_iff.mp (ho ▸ h.origins)
  exact ⟨rec, _, (next_holds h.holds).1, hmatch⟩

end Queued

/-- The daemon has handled everything, and the next record goes to position `q`. -/
structure MsgRing.Idle (x : MsgRing) (q : ℕ) : Prop where
  cons : x.ring.cons = q
  prod : x.ring.prod = q
  origins : x.origins = []

section Idle

variable {P : List UInt8 → Prop} {x y : MsgRing} {q n w : ℕ} {recs : List Rec}
  {acts : List RingAct} {m : Msg} {skey : Option Key} {out : Snprintf}

theorem MsgRing.Idle.queued (h : x.Idle q) : Queued P x [] := by
  refine ⟨⟨h.cons.trans h.prod.symm, ?_⟩, by rw [h.origins]; exact .nil⟩
  rw [h.cons, h.prod]
  exact Nat.lt_add_of_pos_right (by decide)

/-- A log line with room for both of its records. -/
theorem log_room (skey : Option Key) (out : Snprintf)
    (hroom : x.ring.prod + 2 * span MSG_SIZE < x.ring.cons + MSG_RB) :
    ∃ y, x.step (.log skey out) = some y ∧ y.ring.cons = x.ring.cons ∧
      y.ring.prod = x.ring.prod + (span MSG_SIZE + span out.ll) ∧
      y.origins = x.origins ++ [.scratch, .log] := by
  have hll : span out.ll ≤ span MSG_SIZE := span_le out.ll_le
  have hfit : x.ring.fits MSG_RB MSG_SIZE = true := decide_eq_true (by omega)
  have hfit' : (x.scratch skey out).ring.fits MSG_RB out.ll = true :=
    decide_eq_true (by simp only [MsgRing.scratch, MsgRing.put, Ring.put]; omega)
  refine ⟨_, rfl, ?_⟩
  rw [MsgRing.logPrintf, if_pos hfit, if_pos hfit']
  simp [MsgRing.scratch, MsgRing.put, Ring.put, Nat.add_assoc]

/-- A message with room for its record. -/
theorem event_room {size : ℕ} {ws : Writes} (hw : m.writes = some (size, ws))
    (hroom : x.ring.prod + span size < x.ring.cons + MSG_RB) :
    ∃ y, x.step (.event m) = some y ∧ y.ring.cons = x.ring.cons ∧
      y.ring.prod = x.ring.prod + span size ∧ y.origins = x.origins ++ [.event m] ∧
      read MSG_RB y.ring.mem (x.ring.prod + 8) size = patches (x.stale size) ws := by
  have hfit : x.ring.fits MSG_RB size = true := decide_eq_true hroom
  have hsize : size ≤ MSG_RB := (Msg.writes_ascending hw).2.trans (by decide)
  have hlen : (patches (x.stale size) ws).length = size := length_event hw
  refine ⟨x.put (.event m) size false fun e => patches e ws, ?_, rfl, rfl, rfl, ?_⟩
  · rw [MsgRing.step, MsgRing.postEvent, hw, Option.bind_some]
    exact if_pos hfit
  · exact read_put hlen hsize

/-- The daemon catches up. -/
theorem Queued.drain (h : Queued P x recs) :
    ∃ y, Run ringLts x (List.replicate recs.length .consume) y ∧ y.Idle x.ring.prod := by
  induction recs generalizing x with
  | nil =>
    have hempty : x.ring.cons = x.ring.prod := h.holds.laid
    exact ⟨x, .refl, hempty, rfl, List.forall₂_nil_right_iff.mp h.origins⟩
  | cons rec recs ih =>
    obtain ⟨hnext, hrest⟩ := h.consume
    obtain ⟨y, hrun, hidle⟩ := ih hrest
    exact ⟨y, .stepL hnext hrun, hidle⟩

end Idle

/-! ### What the daemon gets -/

/-- At a log line, the memory where its type will lie is zero. -/
def typeClear (x : MsgRing) : RingAct → Bool
  | .log _ _ => decide (x.stale 4 = List.replicate 4 0)
  | .event _ | .consume => true

section Delivered

variable {x y : MsgRing} {acts : List RingAct} {os : List RecOrigin}

theorem queued_reachable (h : Run ringLts .initial acts x) :
    ∃ recs, Queued (fun _ => True) x recs := by
  refine h.inv (P := fun x => ∃ recs, Queued (fun _ => True) x recs) ?_ ⟨[], queued_initial⟩
  rintro s a t htr ⟨recs, hq⟩
  exact hq.step htr fun _ _ _ => trivial

/-- Messages reach the daemon as they were posted, in every run. -/
theorem event_delivered {m : Msg} (h : Run ringLts .initial acts x)
    (ho : x.origins = .event m :: os) :
    ∃ rec r, x.ring.next MSG_RB = some (rec, r) ∧ rec.discarded = false ∧
      decodeMsg rec.data = m := by
  obtain ⟨recs, hq⟩ := queued_reachable h
  exact hq.next ho

theorem log_queued_reachable
    (h : Run (ringLts.restrict fun s a => typeClear s a = true) .initial acts x) :
    ∃ recs, Queued (fun data => msgType data = MSG_LOG) x recs := by
  refine h.inv_restrict (P := fun x => ∃ recs, Queued (fun data => msgType data = MSG_LOG) x recs)
    ?_ ⟨[], queued_initial⟩
  rintro s a t htr hclear ⟨recs, hq⟩
  refine hq.step htr ?_
  rintro skey out rfl
  exact s.logRecord_msgType skey out (of_decide_eq_true hclear)

theorem handleMsg_log {data : List UInt8} (h : msgType data = MSG_LOG) (env : DaemonEnv)
    (s : Sys) : handleMsg env s (decodeMsg data) = .ok (s, none) := by
  rw [decodeMsg_log h]
  rfl

/-- Where log lines find a clear type field, the daemon prints them and does nothing else. -/
theorem log_only_printed
    (h : Run (ringLts.restrict fun s a => typeClear s a = true) .initial acts x)
    (ho : x.origins = .log :: os) :
    ∃ rec r, x.ring.next MSG_RB = some (rec, r) ∧ rec.discarded = false ∧
      msgType rec.data = MSG_LOG ∧
      ∀ env s, handleMsg env s (decodeMsg rec.data) = .ok (s, none) := by
  obtain ⟨recs, hq⟩ := log_queued_reachable h
  obtain ⟨rec, r, hnext, hkept, htype⟩ := hq.next ho
  exact ⟨rec, r, hnext, hkept, htype, handleMsg_log htype⟩

theorem log_only_printed_first :
    ∃ x, Run (ringLts.restrict fun s a => typeClear s a = true) .initial
        [.log none (.text [111, 107]), .consume] x ∧
      ∃ rec r, x.ring.next MSG_RB = some (rec, r) ∧ rec.discarded = false ∧
        msgType rec.data = MSG_LOG ∧
        ∀ env s, handleMsg env s (decodeMsg rec.data) = .ok (s, none) := by
  have hclear : typeClear .initial (.log none (.text [111, 107])) = true := by decide
  obtain ⟨y, hlog, -, -, ho⟩ := log_room (x := .initial) none (.text [111, 107]) (by decide)
  obtain ⟨recs, hq⟩ := (queued_initial (P := fun _ => True)).step hlog fun _ _ _ => trivial
  obtain ⟨rec, rest, -, -, rfl⟩ := List.forall₂_cons_left_iff.mp (ho ▸ hq.origins)
  have hrun : Run (ringLts.restrict fun s a => typeClear s a = true) .initial
      [.log none (.text [111, 107]), .consume] (y.past rec.data.length) :=
    .stepL ⟨hclear, hlog⟩ (.single ⟨rfl, hq.consume.1⟩)
  have hlast : (y.past rec.data.length).origins = [.log] := by rw [MsgRing.past, ho]; rfl
  exact ⟨_, hrun, log_only_printed hrun hlast⟩

/-- The messages in the ring, in the order in which they were posted. -/
def MsgRing.pending (x : MsgRing) : List Msg :=
  x.origins.filterMap fun
    | .event m => some m
    | .log | .scratch => none

/-- Then the ring is the queue of messages that the daemon model reads: a record is the
oldest message, or it is discarded or a log line. -/
theorem consume_pending
    (h : Run (ringLts.restrict fun s a => typeClear s a = true) .initial acts x)
    (hy : x.consume = some y) :
    ∃ rec r, x.ring.next MSG_RB = some (rec, r) ∧
      (rec.discarded = false ∧ x.pending = decodeMsg rec.data :: y.pending ∨
        x.pending = y.pending ∧
          (rec.discarded = true ∨ ∃ k text, decodeMsg rec.data = .log k text)) := by
  obtain ⟨recs, hq⟩ := log_queued_reachable h
  obtain ⟨⟨rec, r⟩, hnext, rfl⟩ := Option.map_eq_some_iff.mp hy
  refine ⟨rec, r, hnext, ?_⟩
  cases ho : x.origins with
  | nil =>
    obtain rfl : recs = [] := List.forall₂_nil_left_iff.mp (ho ▸ hq.origins)
    have hempty : x.ring.cons = x.ring.prod := hq.holds.laid
    simp [Ring.next, hempty] at hnext
  | cons o os =>
    obtain ⟨rec', r', hnext', hmatch⟩ := hq.next ho
    cases hnext.symm.trans hnext'
    cases o with
    | log => exact .inr ⟨by simp [MsgRing.pending, ho], .inr ⟨_, _, decodeMsg_log hmatch.2⟩⟩
    | scratch => exact .inr ⟨by simp [MsgRing.pending, ho], .inl hmatch⟩
    | event m =>
      have hm : decodeMsg rec.data = m := hmatch.2
      exact .inl ⟨hmatch.1, by simp [MsgRing.pending, ho, hm]⟩

end Delivered

/-! ### Memory is reused after a lap -/

/-- From `x` to `y`, what lies behind the producer is kept until it is a lap ahead. -/
def Kept (x y : MsgRing) : Prop :=
  x.ring.prod ≤ y.ring.prod ∧ ∀ p < x.ring.prod, y.ring.prod ≤ p + MSG_RB →
    y.ring.mem (p % MSG_RB) = x.ring.mem (p % MSG_RB)

section Kept

variable {x y z : MsgRing} {a : RingAct} {acts : List RingAct}

theorem Kept.refl (x : MsgRing) : Kept x x := ⟨le_rfl, fun _ _ _ => rfl⟩

theorem Kept.trans (h : Kept x y) (h' : Kept y z) : Kept x z := by
  refine ⟨h.1.trans h'.1, ?_⟩
  intro p hp hlap
  have hxy := h.1
  have hyz := h'.1
  exact (h'.2 p (by omega) hlap).trans (h.2 p hp (by omega))

theorem kept_put {o : RecOrigin} {len : ℕ} {discarded : Bool} {fill : List UInt8 → List UInt8}
    (hf : (fill (x.stale len)).length = len) : Kept x (x.put o len discarded fill) :=
  ⟨Nat.le_add_right .., fun _ hp hlap => put_mem_behind hf hp hlap⟩

theorem kept_scratch (skey : Option Key) (out : Snprintf) : Kept x (x.scratch skey out) := by
  have hlen := length_scratch x skey out
  exact kept_put hlen

theorem kept_step (h : x.step a = some y) : Kept x y := by
  cases a with
  | log skey out =>
    cases h
    rw [MsgRing.logPrintf]
    split_ifs
    · exact (kept_scratch skey out).trans (kept_put (x.length_logRecord skey out))
    · exact kept_scratch skey out
    · exact .refl x
  | event m =>
    obtain ⟨⟨size, ws⟩, hw, hy⟩ := Option.bind_eq_some_iff.mp h
    dsimp only at hy
    split_ifs at hy
    cases hy
    exact kept_put (length_event hw)
  | consume =>
    obtain ⟨⟨rec, r⟩, hnext, rfl⟩ := Option.map_eq_some_iff.mp h
    rw [Ring.next] at hnext
    split_ifs at hnext
    cases hnext
    exact .refl x

theorem kept_run (h : Run ringLts x acts y) : Kept x y := by
  induction h with
  | refl => exact .refl _
  | stepL htr _ ih => exact (kept_step htr).trans ih

end Kept

/-! ### A log line over an old message -/

def percentD (x : UInt32) : String := toString x.toInt32.toInt

/-- The log line of `get_state` for a new group. -/
def groupCreated : Snprintf := .text "[#] socket group created\n".toUTF8.toList

/-- The log line of UDP_GRM_WORKING_GEN. -/
def settingWorkingGen (gen old app : UInt32) : Snprintf :=
  .text ("[+] setting working gen " ++ percentD gen ++ " (old=" ++ percentD old ++ ") (app=" ++
    percentD app ++ ")\n").toUTF8.toList

/-- What a successful UDP_GRM_WORKING_GEN does to the ring. -/
def workingGenCall (k : Key) (gen old : UInt32) : List RingAct :=
  [.event (.setWorkingGen k 0 gen), .log (some k) (settingWorkingGen gen old 0)]

/-- Such a call, and the daemon handling its three records. -/
def handledCall (k : Key) (gen old : UInt32) : List RingAct :=
  workingGenCall k gen old ++ List.replicate 3 .consume

/-- The bytes that a handled call takes in the ring. -/
def callSpan (gen old : UInt32) : ℕ :=
  span 40 + (span MSG_SIZE + span (settingWorkingGen gen old 0).ll)

section Lap

variable {x y : MsgRing} {q : ℕ} {k : Key} {gen old : UInt32}

/-- A call to an idle ring: the state after the message and the state after the log line. -/
theorem call_idle (k : Key) (gen old : UInt32) (h : x.Idle q) :
    ∃ y z, x.step (.event (.setWorkingGen k 0 gen)) = some y ∧
      y.step (.log (some k) (settingWorkingGen gen old 0)) = some z ∧
      y.ring.prod = q + span 40 ∧ z.ring.prod = q + callSpan gen old ∧
      z.origins = [.event (.setWorkingGen k 0 gen), .scratch, .log] ∧
      read MSG_RB y.ring.mem (q + 8) 4 = ofNat 4 MSG_SET_WORKING_GEN.toNat := by
  obtain ⟨y, hy, hycons, hyprod, hyo, hdata⟩ :=
    event_room (x := x) (m := .setWorkingGen k 0 gen) rfl (by
      rw [h.cons, h.prod]
      exact Nat.add_lt_add_left (by decide) q)
  obtain ⟨z, hz, -, hzprod, hzo⟩ :=
    log_room (x := y) (some k) (settingWorkingGen gen old 0) (by
      rw [hycons, hyprod, h.cons, h.prod, Nat.add_assoc]
      exact Nat.add_lt_add_left (by decide) q)
  rw [h.prod] at hyprod hdata
  rw [hyprod, Nat.add_assoc] at hzprod
  rw [hyo, h.origins] at hzo
  refine ⟨y, z, hy, hz, hyprod, hzprod, hzo, ?_⟩
  have hasc : Ascending (x.stale 40).length 0 _ :=
    x.length_stale 40 ▸ (Msg.writes_ascending (m := .setWorkingGen k 0 gen) rfl).1
  have htype : field (patches (x.stale 40) _) 0 (ofNat 4 MSG_SET_WORKING_GEN.toNat).length =
      ofNat 4 MSG_SET_WORKING_GEN.toNat := field_patches_mem hasc (by simp)
  rw [← hdata, length_ofNat, field, List.drop_zero, take_read (by decide)] at htype
  exact htype

/-- The daemon handles the call; `y` is the state after the message. -/
theorem handledCall_idle (k : Key) (gen old : UInt32) (h : x.Idle q) :
    ∃ y z, x.step (.event (.setWorkingGen k 0 gen)) = some y ∧
      Run ringLts y (handledCall k gen old).tail z ∧ z.Idle (q + callSpan gen old) ∧
      y.ring.prod = q + span 40 ∧
      read MSG_RB y.ring.mem (q + 8) 4 = ofNat 4 MSG_SET_WORKING_GEN.toNat := by
  obtain ⟨y, z, hy, hz, hyprod, hzprod, hzo, htype⟩ := call_idle k gen old h
  obtain ⟨_, hqy⟩ := (h.queued (P := fun _ => True)).step hy fun _ _ _ => trivial
  obtain ⟨recs, hqz⟩ := hqy.step hz fun _ _ _ => trivial
  have hlen : recs.length = 3 := by rw [← hqz.origins.length_eq, hzo]; rfl
  obtain ⟨w, hrun, hidle⟩ := hqz.drain
  rw [hlen] at hrun
  exact ⟨y, w, hy, .stepL hz hrun, hzprod ▸ hidle, hyprod, htype⟩

theorem handledCalls_idle (k : Key) (gen old : UInt32) (n : ℕ) (h : x.Idle q) :
    ∃ y, Run ringLts x (List.replicate n (handledCall k gen old)).flatten y ∧
      y.Idle (q + n * callSpan gen old) := by
  induction n generalizing x q with
  | zero => exact ⟨x, .refl, by simpa using h⟩
  | succ n ih =>
    obtain ⟨y, z, hy, hrun, hidle, -⟩ := handledCall_idle k gen old h
    obtain ⟨w, hrun', hidle'⟩ := ih hidle
    refine ⟨w, (Run.stepL hy hrun).append hrun', ?_⟩
    rwa [Nat.succ_mul, Nat.add_comm (n * _), ← Nat.add_assoc]

theorem groupCreated_idle (k : Key) (h : x.Idle q) :
    ∃ y, Run ringLts x [.log (some k) groupCreated, .consume, .consume] y ∧
      y.Idle (q + (span MSG_SIZE + span groupCreated.ll)) := by
  obtain ⟨y, hy, -, hprod, ho⟩ := log_room (x := x) (some k) groupCreated (by
    rw [h.cons, h.prod]
    exact Nat.add_lt_add_left (by decide) q)
  obtain ⟨recs, hq⟩ := (h.queued (P := fun _ => True)).step hy fun _ _ _ => trivial
  have hlen : recs.length = 2 := by rw [← hq.origins.length_eq, ho, h.origins]; rfl
  obtain ⟨z, hrun, hidle⟩ := hq.drain
  rw [hlen] at hrun
  rw [hprod, h.prod] at hidle
  exact ⟨z, .stepL hy hrun, hidle⟩

/-- A log line with a key and old type bytes of MSG_SET_WORKING_GEN reads as that message. -/
theorem decodeMsg_stale {out : Snprintf} (hll : MSG_LOG_OFFSET ≤ out.ll)
    (h : x.stale 4 = ofNat 4 MSG_SET_WORKING_GEN.toNat) :
    ∃ app gen, decodeMsg (x.logRecord (some k) out) = .setWorkingGen k app gen := by
  have hlen := x.length_logRecord (some k) out
  have hle : 24 ≤ out.ll := hll
  have htype : msgType (x.logRecord (some k) out) = MSG_SET_WORKING_GEN := by
    apply u32_eq
    rw [field_msgValue (by omega), field, List.drop_zero, x.logRecord_type, ← h]
    exact List.take_of_length_le (by rw [x.length_stale]; omega)
  have hskey : Key.ofBytes (field (msgValue (x.logRecord (some k) out)) 4 20) = k := by
    have hasc : Ascending (x.stale MSG_SIZE).length 4 (logWrites (some k) out) :=
      x.length_stale MSG_SIZE ▸ logWrites_ascending (some k) out
    have hmem : (4, k.toBytes) ∈ logWrites (some k) out := by simp [logWrites]
    have hkey := field_patches_mem hasc hmem
    rw [k.length_toBytes] at hkey
    rw [field_msgValue (by omega), MsgRing.logRecord, field_take (by omega), hkey,
      k.ofBytes_toBytes]
  refine ⟨u32 (msgValue (x.logRecord (some k) out)) 24,
    u32 (msgValue (x.logRecord (some k) out)) 28, ?_⟩
  rw [decodeMsg, htype, hskey]
  rfl

/-- The daemon has handled the message and passed the scratch memory: next is the log line. -/
theorem delivered_after_call {skey : Option Key} {out : Snprintf} {m : Msg} {z : MsgRing}
    (h : x.Idle q) (hy : x.step (.event m) = some y) (hz : y.step (.log skey out) = some z)
    (ho : z.origins = [.event m, .scratch, .log]) :
    ∃ w, Run ringLts z [.consume, .consume] w ∧ w.origins = [.log] ∧
      ∃ rec r, w.ring.next MSG_RB = some (rec, r) ∧ rec.discarded = false ∧
        rec.data = y.logRecord skey out := by
  obtain ⟨_, hqy⟩ := (h.queued (P := (· = y.logRecord skey out))).step hy
    fun _ _ ha => by cases ha
  obtain ⟨recs, hqz⟩ := hqy.step hz fun _ _ ha => by cases ha; rfl
  obtain ⟨rec₁, rest, -, horest, rfl⟩ := List.forall₂_cons_left_iff.mp (ho ▸ hqz.origins)
  obtain ⟨rec₂, rest, -, -, rfl⟩ := List.forall₂_cons_left_iff.mp horest
  obtain ⟨hnext₁, hq₁⟩ := hqz.consume
  obtain ⟨hnext₂, hq₂⟩ := hq₁.consume
  have hlast : ((z.past rec₁.data.length).past rec₂.data.length).origins = [.log] := by
    rw [MsgRing.past, MsgRing.past, ho]
    rfl
  exact ⟨_, .stepL hnext₁ (.single hnext₂), hlast, hq₂.next hlast⟩

/-- A group is created and its working generation is set 1986 times. The log line of the
last call lies where the first call had its message. -/
def lapRun (k : Key) : List RingAct :=
  [.log (some k) groupCreated, .consume, .consume] ++ handledCall k 1 0 ++
    (List.replicate 1958 (handledCall k 1 1)).flatten ++ handledCall k 1000 1 ++
    (List.replicate 25 (handledCall k 1000 1000)).flatten ++
    (workingGenCall k 1000 1000 ++ [.consume, .consume])

theorem lap_positions : span MSG_SIZE + span groupCreated.ll = 200 ∧ callSpan 1 0 = 264 ∧
    callSpan 1 1 = 264 ∧ callSpan 1000 1 = 264 ∧ callSpan 1000 1000 = 272 := by
  decide +kernel

theorem lapRun_delivers (k : Key) :
    ∃ x rec r app gen, Run ringLts .initial (lapRun k) x ∧ x.origins = [.log] ∧
      x.ring.next MSG_RB = some (rec, r) ∧ rec.discarded = false ∧
      decodeMsg rec.data = .setWorkingGen k app gen := by
  obtain ⟨hcreated, hfirst, hones, hjump, hthousands⟩ := lap_positions
  have hinit : MsgRing.initial.Idle 0 := ⟨rfl, rfl, rfl⟩
  obtain ⟨x₁, hrun₁, hidle₁⟩ := groupCreated_idle k hinit
  obtain ⟨y, x₂, hy, hrun₂, hidle₂, hyprod, htype⟩ := handledCall_idle k 1 0 hidle₁
  obtain ⟨x₃, hrun₃, hidle₃⟩ := handledCalls_idle k 1 1 1958 hidle₂
  obtain ⟨y₄, x₄, hy₄, hrun₄, hidle₄, -⟩ := handledCall_idle k 1000 1 hidle₃
  obtain ⟨x₅, hrun₅, hidle₅⟩ := handledCalls_idle k 1000 1000 25 hidle₄
  obtain ⟨u, v, hu, hv, huprod, -, hvo, -⟩ := call_idle k 1000 1000 hidle₅
  rw [hcreated] at hyprod htype
  rw [hcreated, hfirst, hones, hjump, hthousands] at huprod
  -- a lap lies between the first message and the last log line
  have hkept : Kept y u :=
    kept_run (hrun₂.append (hrun₃.append
      ((Run.stepL hy₄ hrun₄).append (hrun₅.append (.single hu)))))
  have hstale : u.stale 4 = ofNat 4 MSG_SET_WORKING_GEN.toNat := by
    have hpos : u.ring.prod + 8 = 0 + 200 + 8 + MSG_RB := huprod ▸ rfl
    rw [MsgRing.stale, hpos, read_add_size, ← htype]
    refine read_congr fun i hi => hkept.2 _ ?_ ?_
    · rw [hyprod]
      exact lt_of_lt_of_le (Nat.add_lt_add_left hi _) (by decide)
    · omega
  have hll : MSG_LOG_OFFSET ≤ (settingWorkingGen 1000 1000 0).ll := by decide +kernel
  obtain ⟨app, gen, hdecode⟩ := decodeMsg_stale (k := k) hll hstale
  obtain ⟨w, hrun, ho, rec, r, hnext, hkeep, hdata⟩ := delivered_after_call hidle₅ hu hv hvo
  refine ⟨w, rec, r, app, gen, ?_, ho, hnext, hkeep, hdata ▸ hdecode⟩
  exact ((((hrun₁.append (.stepL hy hrun₂)).append hrun₃).append (.stepL hy₄ hrun₄)).append
    hrun₅).append (.stepL hu (.stepL hv hrun))

end Lap

/-- The daemon takes a log line for MSG_SET_WORKING_GEN. It acts on the group in its key,
and dies if there is none. -/
theorem log_taken_for_message :
    ∃ k : Key, ∃ x rec r, Run ringLts .initial (lapRun k) x ∧ x.origins = [.log] ∧
      x.ring.next MSG_RB = some (rec, r) ∧ rec.discarded = false ∧
      msgType rec.data ≠ MSG_LOG ∧
      (∀ env s, s.groups k = none → handleMsg env s (decodeMsg rec.data) = .error .emptyState) ∧
      ∃ gen, ∀ env s st, s.groups k = some st →
        handleMsg env s (decodeMsg rec.data) = .ok (handleWorkingGen env s k st gen) := by
  obtain ⟨x, rec, r, app, gen, hrun, ho, hnext, hkeep, hdecode⟩ :=
    lapRun_delivers ⟨2, 0, 53, #v[0x0100007f, 0, 0, 0]⟩
  refine ⟨_, x, rec, r, hrun, ho, hnext, hkeep, ?_, ?_, gen, ?_⟩
  · intro htype
    simp [decodeMsg_log htype] at hdecode
  · intro env s hgroup
    simp [hdecode, handleMsg, Msg.skey, hgroup]
  · intro env s st hgroup
    simp [hdecode, handleMsg, Msg.skey, hgroup]

end Udpgrm
