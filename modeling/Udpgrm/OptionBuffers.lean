import Udpgrm.Getsockopt

/-! What the copy ladders of the two option hooks carry over, for buffers of every length. -/
namespace Udpgrm

open LittleEndian
open Transition (run_of_any)

/-! ### The bytes of a dissector -/

/-- `struct udp_grm_dissector` as it lies in memory. -/
def Dissector.toBytes (d : Dissector) : List UInt8 := (d.writes.map Prod.snd).flatten

theorem Dissector.length_toBytes (d : Dissector) : d.toBytes.length = 632 := by
  simp [toBytes, writes, LABEL_SZ]

theorem toList_ofFn_getD {data : List UInt8} {off n : ℕ} (h : off + n ≤ data.length) :
    (Vector.ofFn fun i : Fin n => data.getD (off + i) 0).toList = field data off n := by
  apply List.ext_getElem
  · simp [field]
    omega
  · intro i hi _
    rw [Vector.length_toList] at hi
    simp [field, List.getElem?_eq_getElem (show off + i < data.length by omega)]

variable {p : Programs} {s t u : Sys} {k : Key} {st : ReuseportStorage} {c : UInt64}
  {ctx : SockoptCtx} {env : OptEnv} {as : List Action}

end Udpgrm
