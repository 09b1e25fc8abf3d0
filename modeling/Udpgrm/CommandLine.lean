import Udpgrm.CbpfMachine
import Udpgrm.OptionBuffers
import Udpgrm.SniRouting

/-! The command line of `udpgrm_activate.py` and the dissector that the script packs from it. -/
namespace Udpgrm

open LittleEndian

/-- The options that lead to calls of the hooks. `cbpf` is what was read from the file of `--bpf`,
and `app` the number given with `--app`. -/
structure ActivateArgs where
  count : ℕ
  verbose : Bool
  noRegister : Bool
  advanceWorkingGen : Bool
  cbpf : Option (List SockFilter)
  app : Option UInt32
  appsMax : UInt32
  tubular : List UInt8
  flowTimeout : UInt32
  sni : List SniEntry
  digest : UInt32
  noop : Bool

namespace ActivateArgs

/-- The defaults of the options. -/
def default : ActivateArgs :=
  ⟨1, false, false, false, none, none, 0, [], 124, [], 0, false⟩

variable (args : ActivateArgs)

/-- An application number without a dissector that could tell applications apart. -/
def refused : Bool :=
  args.app.isSome && decide (args.digest = 0) && args.cbpf.isNone && args.sni.isEmpty

def filters : List SockFilter := args.cbpf.getD []

def flags : UInt32 := if args.verbose then DISSECTOR_FLAG_VERBOSE else 0

/-- The first socket asks for a dissector. -/
def configures : Bool :=
  !args.filters.isEmpty || decide (args.digest ≠ 0) || !args.tubular.isEmpty ||
    !args.sni.isEmpty || args.noop

/-- Each socket asks for its application. -/
def asksApp : Bool := decide (args.app.getD 0 ≠ 0) || decide (args.appsMax ≠ 0)

end ActivateArgs

/-! ### The packed value -/

/-- `struct.pack("IIII100s", ...)`. -/
def packLabelled (type timeout apps digest : UInt32) (label : List UInt8) : List UInt8 :=
  ofNat 4 type.toNat ++ (ofNat 4 timeout.toNat ++ (ofNat 4 apps.toNat ++
    (ofNat 4 digest.toNat ++ zeroPadded LABEL_SZ label)))

/-- `struct.pack("IIII100sI512s", ...)`. -/
def packProgram (type apps digest : UInt32) (label : List UInt8) (len : ℕ) (body : List UInt8) :
    List UInt8 :=
  packLabelled type 0 apps digest label ++ (ofNat 4 len ++ zeroPadded 512 body)

/-- The value of UDP_GRM_DISSECTOR. With host names alone no branch assigns it. -/
def ActivateArgs.value (args : ActivateArgs) : Option (List UInt8) :=
  if args.filters ≠ [] then
    some (packProgram (1 ||| args.flags) args.appsMax 0 args.tubular args.filters.length
      (args.filters.flatMap SockFilter.toBytes))
  else if args.digest ≠ 0 then
    some (packProgram (3 ||| args.flags) args.appsMax args.digest args.tubular args.sni.length
      (args.sni.flatMap sniEntryBytes))
  else if args.noop then some (packLabelled (4 ||| args.flags) 0 0 0 args.tubular)
  else if args.tubular ≠ [] then
    some (packLabelled (0 ||| args.flags) args.flowTimeout 0 0 args.tubular)
  else none

section Packed

variable {args : ActivateArgs} {type timeout apps digest : UInt32}
  {label rest body v data : List UInt8} {n : ℕ}

theorem length_packLabelled (type timeout apps digest : UInt32) (label : List UInt8) :
    (packLabelled type timeout apps digest label).length = 116 := by
  simp [packLabelled, length_zeroPadded, LABEL_SZ]

theorem length_packProgram (type apps digest : UInt32) (label : List UInt8) (n : ℕ)
    (body : List UInt8) : (packProgram type apps digest label n body).length = 632 := by
  simp [packProgram, length_packLabelled, length_zeroPadded]

/-- The fields in front of the program are read back as they were packed. -/
theorem ofBytes_packLabelled (type timeout apps digest : UInt32) (label rest : List UInt8) :
    let d := Dissector.ofBytes (packLabelled type timeout apps digest label ++ rest)
    d.dissectorType = type ∧ d.flowEntryTimeoutSec = timeout ∧ d.maxApps = apps ∧
      d.bespokeDigest = digest ∧ d.label.toList = zeroPadded LABEL_SZ label := by
  have hsplit : packLabelled type timeout apps digest label ++ rest =
      ofNat 4 type.toNat ++ (ofNat 4 timeout.toNat ++ (ofNat 4 apps.toNat ++
        (ofNat 4 digest.toNat ++ (zeroPadded LABEL_SZ label ++ rest)))) := by
    simp only [packLabelled, List.append_assoc]
  have hlen : ∀ x : UInt32, (ofNat 4 x.toNat).length = 4 := fun x => length_ofNat 4 x.toNat
  have hword : ∀ (x : UInt32) (l : List UInt8),
      field (ofNat 4 x.toNat ++ l) 0 4 = ofNat 4 x.toNat :=
    fun x l => field_append_left l (hlen x)
  have hnext : ∀ (x : UInt32) (l : List UInt8) (k n : ℕ),
      field (ofNat 4 x.toNat ++ l) (4 + k) n = field l k n :=
    fun x l k n => field_append_right l (by rw [hlen])
  refine ⟨u32_eq ?_, u32_eq ?_, u32_eq ?_, u32_eq ?_, ?_⟩
  · rw [hsplit, hword]
  · rw [hsplit, hnext _ _ 0, hword]
  · rw [hsplit, hnext _ _ 4, hnext _ _ 0, hword]
  · rw [hsplit, hnext _ _ 8, hnext _ _ 4, hnext _ _ 0, hword]
  · refine (toList_ofFn_getD ?_).trans ?_
    · rw [List.length_append, length_packLabelled]
      exact Nat.le_add_right 116 _
    · rw [hsplit, hnext _ _ 12, hnext _ _ 8, hnext _ _ 4, hnext _ _ 0]
      exact field_append_left rest (length_zeroPadded LABEL_SZ label)

theorem copyIn_packLabelled :
    copyIn (packLabelled type timeout apps digest label) =
      some (packLabelled type timeout apps digest label ++
        List.replicate (PERCPU_ARRAY_SIZE - 116) 0) := by
  have hlen := length_packLabelled type timeout apps digest label
  rw [copyIn, hlen]
  have hrung : copyInSizes.find? (fun n => decide (n ≤ 116)) = some 116 := by decide
  rw [hrung, Option.map_some, List.take_of_length_le hlen.le]

theorem copyIn_packProgram :
    copyIn (packProgram type apps digest label n body) =
      some (packProgram type apps digest label n body ++
        List.replicate (PERCPU_ARRAY_SIZE - 632) 0) := by
  have hlen := length_packProgram type apps digest label n body
  rw [copyIn_of_le hlen.ge, List.take_of_length_le hlen.le]

/-- Both formats have a size of the copy-in ladder, so the hook gets them whole. -/
theorem copyIn_value (hv : args.value = some v) (hdata : copyIn v = some data) :
    ∃ type timeout apps digest rest,
      data = packLabelled type timeout apps digest args.tubular ++ rest ∧
        (apps = args.appsMax ∨ apps = 0) := by
  simp only [ActivateArgs.value] at hv
  split_ifs at hv <;> obtain rfl := Option.some.inj hv
  · rw [copyIn_packProgram] at hdata
    obtain rfl := Option.some.inj hdata
    exact ⟨_, _, _, _, _, by rw [packProgram, List.append_assoc], .inl rfl⟩
  · rw [copyIn_packProgram] at hdata
    obtain rfl := Option.some.inj hdata
    exact ⟨_, _, _, _, _, by rw [packProgram, List.append_assoc], .inl rfl⟩
  · rw [copyIn_packLabelled] at hdata
    exact ⟨_, _, _, _, _, (Option.some.inj hdata).symm, .inr rfl⟩
  · rw [copyIn_packLabelled] at hdata
    exact ⟨_, _, _, _, _, (Option.some.inj hdata).symm, .inr rfl⟩

/-- Without `--tubular` and with at most one application the group keeps to a single one. -/
theorem value_single (hlabel : args.tubular = []) (happs : args.appsMax.toNat ≤ 1)
    (hv : args.value = some v) (hdata : copyIn v = some data) :
    (Dissector.ofBytes data).labelled = false ∧ (Dissector.ofBytes data).maxApps.toNat ≤ 1 := by
  obtain ⟨type, timeout, apps, digest, rest, rfl, hmax⟩ := copyIn_value hv hdata
  obtain ⟨-, -, hread, -, hbytes⟩ :=
    ofBytes_packLabelled type timeout apps digest args.tubular rest
  set d := Dissector.ofBytes (packLabelled type timeout apps digest args.tubular ++ rest)
  have hfirst : d.label[0] = 0 := by
    have hzero : d.label.toList[0]? = some 0 := by
      rw [hbytes, hlabel]
      rfl
    simpa using hzero
  refine ⟨by rw [Dissector.labelled, hfirst]; rfl, ?_⟩
  rw [hread]
  rcases hmax with rfl | rfl
  · exact happs
  · decide

end Packed

end Udpgrm
