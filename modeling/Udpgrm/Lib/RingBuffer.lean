import Udpgrm.Lib.CircularMemory
import Udpgrm.Lib.LittleEndian

/-!
A ring buffer of variable-length records in circular memory. Each record has a header
with its length and a flag that tells the consumer to skip it. Reserved memory is not
cleared: the producer finds in it what an earlier lap has left.
-/
namespace RingBuffer

open CircularMemory LittleEndian

variable {size len pos e : ℕ} {m m' : ℕ → UInt8} {pgOff : ℕ → ℕ}

structure Rec where
  data : List UInt8
  discarded : Bool
deriving DecidableEq

/-- The length of a record in memory: the header, and the data rounded up to a word. -/
def span (len : ℕ) : ℕ := 8 + (len + 7) / 8 * 8

theorem le_span (len : ℕ) : 8 + len ≤ span len := by
  unfold span
  omega

theorem span_le {n : ℕ} (h : len ≤ n) : span len ≤ span n := by
  unfold span
  omega

/-- Length and flag, and a page offset that is of no interest to the consumer. -/
def header (len : ℕ) (discarded : Bool) (pgOff : ℕ) : List UInt8 :=
  ofNat 4 (len + if discarded then 2 ^ 30 else 0) ++ ofNat 4 pgOff

@[simp] theorem length_header (len : ℕ) (discarded : Bool) (pgOff : ℕ) :
    (header len discarded pgOff).length = 8 := by simp [header]

/-- The flag is above the length. -/
theorem toNat_header {discarded : Bool} {pgOff : ℕ} (h : len < 2 ^ 30) :
    toNat ((header len discarded pgOff).take 4) = len + if discarded then 2 ^ 30 else 0 := by
  rw [header, List.take_left' (length_ofNat ..), toNat_ofNat, Nat.mod_eq_of_lt]
  split <;> omega

structure Ring where
  mem : ℕ → UInt8
  cons : ℕ
  prod : ℕ

/-- There is room for a record: the producer stays less than a lap ahead. -/
def Ring.fits (size : ℕ) (r : Ring) (len : ℕ) : Bool :=
  decide (r.prod + span len < r.cons + size)

/-- Reserve, fill and commit a record. `fill` sees the bytes that lie in the memory. -/
def Ring.put (size : ℕ) (pgOff : ℕ → ℕ) (r : Ring) (len : ℕ) (discarded : Bool)
    (fill : List UInt8 → List UInt8) : Ring where
  mem := write size (write size r.mem r.prod (header len discarded (pgOff r.prod))) (r.prod + 8)
    (fill (read size r.mem (r.prod + 8) len))
  cons := r.cons
  prod := r.prod + span len

/-- The consumer takes the next record. -/
def Ring.next (size : ℕ) (r : Ring) : Option (Rec × Ring) :=
  if r.cons = r.prod then none
  else
    let h := toNat (read size r.mem r.cons 4)
    some (⟨read size r.mem (r.cons + 8) (h % 2 ^ 30), decide (2 ^ 30 ≤ h)⟩,
      { r with cons := r.cons + span (h % 2 ^ 30) })

/-! ### The ring is a queue -/

/-- Records lie in memory one after the other. -/
def Laid (size : ℕ) (m : ℕ → UInt8) : ℕ → List Rec → ℕ → Prop
  | pos, [], e => pos = e
  | pos, rec :: rs, e =>
    (∃ off, read size m pos 8 = header rec.data.length rec.discarded off) ∧
    read size m (pos + 8) rec.data.length = rec.data ∧ rec.data.length < 2 ^ 30 ∧
    Laid size m (pos + span rec.data.length) rs e

theorem Laid.le {rs : List Rec} (h : Laid size m pos rs e) : pos ≤ e := by
  induction rs generalizing pos with
  | nil => exact Nat.le_of_eq h
  | cons rec rs ih => exact le_trans (Nat.le_add_right ..) (ih h.2.2.2)

theorem Laid.frame {rs : List Rec} (h : Laid size m pos rs e)
    (hm : ∀ q, pos ≤ q → q < e → m' (q % size) = m (q % size)) : Laid size m' pos rs e := by
  induction rs generalizing pos with
  | nil => exact h
  | cons rec rs ih =>
    obtain ⟨⟨off, hoff⟩, hdata, hlen, hrest⟩ := h
    have hspan := le_span rec.data.length
    have hle := hrest.le
    refine ⟨⟨off, ?_⟩, ?_, hlen, ih hrest fun q hq => hm q (by omega)⟩
    · rw [← hoff]
      exact read_congr fun i hi => hm _ (by omega) (by omega)
    · refine Eq.trans ?_ hdata
      exact read_congr fun i hi => hm _ (by omega) (by omega)

theorem Laid.snoc {rs : List Rec} {rec : Rec} {off : ℕ} (h : Laid size m pos rs e)
    (hh : read size m e 8 = header rec.data.length rec.discarded off)
    (hd : read size m (e + 8) rec.data.length = rec.data) (hlen : rec.data.length < 2 ^ 30) :
    Laid size m pos (rs ++ [rec]) (e + span rec.data.length) := by
  induction rs generalizing pos with
  | nil =>
    obtain rfl : pos = e := h
    exact ⟨⟨off, hh⟩, hd, hlen, rfl⟩
  | cons rec' rs ih => exact ⟨h.1, h.2.1, h.2.2.1, ih h.2.2.2⟩

/-- The ring holds these records, in this order. -/
structure Holds (size : ℕ) (r : Ring) (rs : List Rec) : Prop where
  laid : Laid size r.mem r.cons rs r.prod
  lt : r.prod < r.cons + size

theorem holds_empty (m : ℕ → UInt8) (pos : ℕ) (h : 0 < size) : Holds size ⟨m, pos, pos⟩ [] :=
  ⟨rfl, Nat.lt_add_of_pos_right h⟩

section Put

variable {r : Ring} {rs : List Rec} {discarded : Bool} {fill : List UInt8 → List UInt8}

/-- What a record is made of: the bytes found in memory, filled in by the producer. -/
abbrev Ring.filled (size : ℕ) (r : Ring) (len : ℕ) (fill : List UInt8 → List UInt8) :
    List UInt8 := fill (read size r.mem (r.prod + 8) len)

/-- A record reuses the memory of positions a lap behind it and touches nothing else. -/
theorem put_mem_behind {q : ℕ} (hf : (r.filled size len fill).length = len) (hq : q < r.prod)
    (hlap : r.prod + span len ≤ q + size) :
    (r.put size pgOff len discarded fill).mem (q % size) = r.mem (q % size) := by
  have hspan := le_span len
  simp only [Ring.put]
  rw [write_behind (by omega) (by rw [hf]; omega), write_behind hq (by simp; omega)]

theorem read_put (hf : (r.filled size len fill).length = len) (hlen : len ≤ size) :
    read size (r.put size pgOff len discarded fill).mem (r.prod + 8) len =
      r.filled size len fill := by
  have hself : read size (r.put size pgOff len discarded fill).mem (r.prod + 8)
      (r.filled size len fill).length = r.filled size len fill :=
    read_write_self (by rwa [hf])
  rwa [hf] at hself

theorem put_holds (h : Holds size r rs) (hfit : r.fits size len = true) (hlen : len < 2 ^ 30)
    (hf : (r.filled size len fill).length = len) :
    Holds size (r.put size pgOff len discarded fill)
      (rs ++ [⟨r.filled size len fill, discarded⟩]) := by
  have hspan := le_span len
  have hlap : r.prod + span len < r.cons + size := of_decide_eq_true hfit
  have hle := h.laid.le
  refine ⟨?_, hlap⟩
  have hkept : Laid size (r.put size pgOff len discarded fill).mem r.cons rs r.prod :=
    h.laid.frame fun q hq hq' => put_mem_behind hf hq' (by omega)
  have hhead : read size (r.put size pgOff len discarded fill).mem r.prod 8 =
      header (r.filled size len fill).length discarded (pgOff r.prod) := by
    have hself : read size (write size r.mem r.prod (header len discarded (pgOff r.prod))) r.prod
        (header len discarded (pgOff r.prod)).length = header len discarded (pgOff r.prod) :=
      read_write_self (by simp; omega)
    simp only [Ring.put]
    rwa [hf, read_write_behind (by omega) (by rw [hf]; omega), ← length_header len discarded]
  have hdata : read size (r.put size pgOff len discarded fill).mem (r.prod + 8)
      (r.filled size len fill).length = r.filled size len fill := by
    rw [hf]
    exact read_put hf (by omega)
  have hnew : Laid size (r.put size pgOff len discarded fill).mem r.cons
      (rs ++ [⟨r.filled size len fill, discarded⟩])
      (r.prod + span (r.filled size len fill).length) :=
    hkept.snoc hhead hdata (by rwa [hf])
  rwa [hf] at hnew

/-- The consumer gets the oldest record. -/
theorem next_holds {rec : Rec} (h : Holds size r (rec :: rs)) :
    r.next size = some (rec, { r with cons := r.cons + span rec.data.length }) ∧
      Holds size { r with cons := r.cons + span rec.data.length } rs := by
  obtain ⟨⟨⟨off, hoff⟩, hdata, hlen, hrest⟩, hlt⟩ := h
  have hspan := le_span rec.data.length
  have hle := hrest.le
  have hne : r.cons ≠ r.prod := by omega
  have hhead : toNat (read size r.mem r.cons 4) =
      rec.data.length + if rec.discarded then 2 ^ 30 else 0 := by
    rw [← take_read (n := 8) (by omega), hoff, toNat_header hlen]
  have hmod : toNat (read size r.mem r.cons 4) % 2 ^ 30 = rec.data.length := by
    rw [hhead]
    split
    · rw [Nat.add_mod_right, Nat.mod_eq_of_lt hlen]
    · exact Nat.mod_eq_of_lt hlen
  have hflag : decide (2 ^ 30 ≤ toNat (read size r.mem r.cons 4)) = rec.discarded := by
    rw [hhead]
    cases rec.discarded with
    | false => simpa using hlen
    | true => simp
  refine ⟨?_, hrest, by simp only; omega⟩
  rw [Ring.next, if_neg hne]
  simp only [hmod, hdata, hflag]

end Put

end RingBuffer
