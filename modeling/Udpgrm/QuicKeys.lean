import Udpgrm.Aes128
import Udpgrm.Lib.QuicInitial
import Udpgrm.Sha256

/-! The scratch page of the packet program, and the keys that it derives from a connection ID. -/
namespace Udpgrm

open ByteMemory

/-- `struct scratch`: the union, the keys and the packet. -/
structure Scratch where
  area : ScratchUnion
  quicKey : AesKey
  quicIv : AesKey
  quicHp : AesKey
  pkt : Memory 1024

abbrev Dcid := Vector UInt8 20

inductive QuicConst
  | initialSalt
  | clientIn
  | quicKey
  | quicIv
  | quicHp
deriving DecidableEq, Repr

/-- The arrays of `load_const`. The labels are lengths and text, and the strings that are shorter
than 20 bytes end with zeros. -/
def QuicConst.bytes : QuicConst → List UInt8
  | initialSalt => [0x38, 0x76, 0x2c, 0xf7, 0xf5, 0x59, 0x34, 0xb3, 0x4d, 0x17, 0x9a, 0xe6, 0xa4,
      0xc8, 0x0c, 0xad, 0xcc, 0xbb, 0x7f, 0x0a]
  | clientIn => [0x00, 0x20, 0x0f, 0x74, 0x6c, 0x73, 0x31, 0x33, 0x20, 0x63, 0x6c, 0x69, 0x65,
      0x6e, 0x74, 0x20, 0x69, 0x6e, 0x00, 0x01]
  | quicKey => [0x00, 0x10, 0x0e, 0x74, 0x6c, 0x73, 0x31, 0x33, 0x20, 0x71, 0x75, 0x69, 0x63, 0x20,
      0x6b, 0x65, 0x79, 0x00, 0x01, 0x00]
  | quicIv => [0x00, 0x0c, 0x0d, 0x74, 0x6c, 0x73, 0x31, 0x33, 0x20, 0x71, 0x75, 0x69, 0x63, 0x20,
      0x69, 0x76, 0x00, 0x01, 0x00, 0x00]
  | quicHp => [0x00, 0x10, 0x0d, 0x74, 0x6c, 0x73, 0x31, 0x33, 0x20, 0x71, 0x75, 0x69, 0x63, 0x20,
      0x68, 0x70, 0x00, 0x01, 0x00, 0x00]

def loadConst (area : ScratchUnion) (tmp : ℕ) (i : QuicConst) : ScratchUnion :=
  store (store area (tmp + 20) (List.replicate 44 0)) tmp i.bytes

/-- Sixteen bytes of the union. -/
def keyAt (area : ScratchUnion) (off : ℕ) : AesKey := Vector.ofFn fun i => byte area (off + i.val)

/-- A label is hashed with the secret that is in place. -/
def hashConst (area : ScratchUnion) (i : QuicConst) (len : ℕ) : ScratchUnion :=
  sha256Hmac (loadConst area tmpOff i) secretOff tmpOff len

/-- `*secret = *tmp`. -/
def copySecret (area : ScratchUnion) : ScratchUnion := store area secretOff (load area tmpOff 64)

def expandClientKeysFromDcid (scratch : Scratch) (userDcid : Dcid) (dcidLen : ℕ) : Scratch :=
  let area := store (store scratch.area tmpOff (List.replicate 64 0)) tmpOff userDcid.toList
  let area := loadConst area secretOff .initialSalt
  -- initial_salt -> initial_secret
  let area := copySecret (sha256Hmac area secretOff tmpOff dcidLen)
  -- initial_secret -> client_initial_secret
  let area := copySecret (hashConst area .clientIn 20)
  -- client_initial_secret -> quic hp, quic key and quic iv
  let hp := hashConst area .quicHp 18
  let key := hashConst hp .quicKey 19
  let iv := hashConst key .quicIv 18
  { scratch with
    area := iv
    quicHp := keyAt hp tmpOff
    quicKey := keyAt key tmpOff
    quicIv := Vector.ofFn fun i => if i.val < 12 then byte iv (tmpOff + i.val) else 0 }

/-! ### The keys are those of the standard -/

variable {area : ScratchUnion} {key msg : List UInt8} {i : QuicConst} {k : ℕ}

theorem QuicConst.length_bytes (i : QuicConst) : i.bytes.length = 20 := by
  cases i <;> rfl

theorem load_loadConst {off : ℕ} (hoff : off + 64 ≤ 416) :
    load (loadConst area off i) off 64 = i.bytes ++ List.replicate 44 0 := by
  have hlen := i.length_bytes
  have hzero : load (store area (off + 20) (List.replicate 44 0)) off 64 =
      LittleEndian.patch (load area off 64) 20 (List.replicate 44 0) :=
    load_store_inside (by simp) hoff
  have hconst : load (loadConst area off i) (off + 0) 64 = LittleEndian.patch
      (load (store area (off + 20) (List.replicate 44 0)) off 64) 0 i.bytes :=
    load_store_inside (k := 0) (by omega) hoff
  rw [Nat.add_zero] at hconst
  rw [hconst, hzero, LittleEndian.patch, LittleEndian.patch, hlen]
  simp

theorem HmacArea.loadConst (h : HmacArea area key msg) (hk : k ≤ 20)
    (hz : i.bytes = i.bytes.take k ++ List.replicate (20 - k) 0) :
    HmacArea (loadConst area tmpOff i) key (i.bytes.take k) := by
  have hlen : (i.bytes.take k).length = k := by rw [List.length_take, i.length_bytes]; omega
  constructor
  · rw [load_loadConst (by simp [tmpOff]), hlen]
    nth_rewrite 1 [hz]
    rw [List.append_assoc, List.replicate_append_replicate]
    congr 2
    omega
  · rw [Udpgrm.loadConst, load_store_of_disjoint, load_store_of_disjoint, h.secret]
    · right
      simp [tmpOff, secretOff]
    · right
      simp [tmpOff, secretOff, i.length_bytes]

/-- A label is hashed under the secret. -/
theorem HmacArea.hashConst (h : HmacArea area (Sha256.hmacKey key) msg) (hk : k ≤ 20)
    (hz : i.bytes = i.bytes.take k ++ List.replicate (20 - k) 0) :
    HmacArea (hashConst area i k) (Sha256.hmacKey key) (Sha256.hmac key (i.bytes.take k)) := by
  have hlen : (i.bytes.take k).length = k := by rw [List.length_take, i.length_bytes]; omega
  have hhash := sha256Hmac_area (h.loadConst hk hz) (by omega)
  rwa [hlen] at hhash

theorem HmacArea.copySecret (h : HmacArea area key msg) (hlen : msg.length ≤ 64) :
    HmacArea (copySecret area) (Sha256.hmacKey msg) msg := by
  constructor
  · rw [Udpgrm.copySecret, load_store_of_disjoint, h.tmp]
    left
    simp [tmpOff, secretOff]
  · have hself : load (Udpgrm.copySecret area) secretOff (load area tmpOff 64).length =
        load area tmpOff 64 := load_store_self (by simp [secretOff])
    rw [length_load] at hself
    rw [hself, h.tmp, Sha256.hmacKey, if_pos hlen]

theorem keyAt_eq (h : HmacArea area key msg) (hlen : 16 ≤ msg.length) :
    keyAt area tmpOff = QuicInitial.block (msg.take 16) := by
  apply Vector.ext
  intro j hj
  have hbyte : (load area tmpOff 64).getD j 0 = byte area (tmpOff + j) := load_getD (by omega)
  rw [h.tmp, List.getD_append _ _ _ _ (by omega)] at hbyte
  simp only [keyAt, QuicInitial.block, Vector.getElem_ofFn, ← hbyte, List.getD_eq_getElem?_getD,
    List.getElem?_take_of_lt hj]

theorem ivAt_eq (h : HmacArea area key msg) (hlen : 12 ≤ msg.length) :
    (Vector.ofFn fun j => if j.val < 12 then byte area (tmpOff + j.val) else 0 : AesKey) =
      QuicInitial.block (msg.take 12) := by
  apply Vector.ext
  intro j hj
  have hbyte : (load area tmpOff 64).getD j 0 = byte area (tmpOff + j) := load_getD (by omega)
  simp only [QuicInitial.block, Vector.getElem_ofFn]
  split
  · rename_i hlt
    rw [← hbyte, h.tmp, List.getD_append _ _ _ _ (by omega)]
    simp only [List.getD_eq_getElem?_getD, List.getElem?_take_of_lt hlt]
  · rw [List.getD_eq_default _ _ (by rw [List.length_take]; omega)]

theorem expandLabel_const {secret label : List UInt8} {len : ℕ} (h0 : 0 < len) (h : len ≤ 32)
    (hc : i.bytes.take k = BigEndian.ofNat 2 len ++ UInt8.ofNat (Sha256.labelStart.length +
      label.length) :: (Sha256.labelStart ++ label) ++ [0] ++ [1]) :
    Sha256.expandLabel secret label len = (Sha256.hmac secret (i.bytes.take k)).take len := by
  rw [Sha256.expandLabel, Sha256.expand_of_le h0 h, hc]

/-- The connection ID is in place of the data, and the salt in place of the key. -/
theorem dcid_area (area : ScratchUnion) (dcid : Dcid) {n : ℕ}
    (hz : dcid.toList = dcid.toList.take n ++ List.replicate (20 - n) 0) (hn : n ≤ 20) :
    HmacArea (loadConst (store (store area tmpOff (List.replicate 64 0)) tmpOff dcid.toList)
      secretOff .initialSalt) (Sha256.hmacKey QuicInitial.salt) (dcid.toList.take n) := by
  have hlen : dcid.toList.length = 20 := by simp
  have htake : (dcid.toList.take n).length = n := by rw [List.length_take]; omega
  constructor
  · rw [Udpgrm.loadConst, load_store_of_disjoint, load_store_of_disjoint]
    · have hzero : load (store area tmpOff (List.replicate 64 0)) tmpOff
          (List.replicate 64 (0 : UInt8)).length = List.replicate 64 0 :=
        load_store_self (by simp [tmpOff])
      have hin : load (store (store area tmpOff (List.replicate 64 0)) (tmpOff + 0) dcid.toList)
          tmpOff 64 = LittleEndian.patch
            (load (store area tmpOff (List.replicate 64 0)) tmpOff 64) 0 dcid.toList :=
        load_store_inside (k := 0) (by omega) (by simp [tmpOff])
      rw [List.length_replicate] at hzero
      rw [Nat.add_zero] at hin
      rw [hin, hzero, LittleEndian.patch, hlen, htake]
      nth_rewrite 1 [hz]
      rw [List.take_zero, List.nil_append, List.drop_replicate, List.append_assoc,
        List.replicate_append_replicate]
      congr 2
      omega
    · left
      simp [tmpOff, secretOff]
    · left
      simp [tmpOff, secretOff]
  · rw [load_loadConst (by simp [secretOff])]
    rfl

/-- The page holds the keys of the connection ID, whatever it held before. -/
theorem expandClientKeysFromDcid_keys (scratch : Scratch) (dcid : Dcid) {n : ℕ} (hn : n ≤ 20)
    (hz : dcid.toList = dcid.toList.take n ++ List.replicate (20 - n) 0) :
    (expandClientKeysFromDcid scratch dcid n).quicKey =
        QuicInitial.block (QuicInitial.clientKey (dcid.toList.take n)) ∧
      (expandClientKeysFromDcid scratch dcid n).quicHp =
        QuicInitial.block (QuicInitial.clientHp (dcid.toList.take n)) ∧
      (expandClientKeysFromDcid scratch dcid n).quicIv =
        QuicInitial.block (QuicInitial.clientIv (dcid.toList.take n)) := by
  have htake : (dcid.toList.take n).length = n := by rw [List.length_take]; simp; omega
  have hinitial := sha256Hmac_area (dcid_area scratch.area dcid hz hn) (by omega)
  rw [htake] at hinitial
  have hclient := ((hinitial.copySecret (by simp)).hashConst (i := .clientIn) (k := 20) le_rfl
    rfl).copySecret (by simp)
  have hsecret : QuicInitial.clientSecret (dcid.toList.take n) = Sha256.hmac
      (Sha256.hmac QuicInitial.salt (dcid.toList.take n)) (QuicConst.clientIn.bytes.take 20) := by
    rw [QuicInitial.clientSecret, QuicInitial.initialSecret, Sha256.extract,
      expandLabel_const (i := .clientIn) (k := 20) (by decide) (by decide) (by decide),
      List.take_of_length_le (by simp)]
  rw [← hsecret] at hclient
  have hhp := hclient.hashConst (i := .quicHp) (k := 18) (by omega) rfl
  have hkey := hhp.hashConst (i := .quicKey) (k := 19) (by omega) rfl
  have hiv := hkey.hashConst (i := .quicIv) (k := 18) (by omega) rfl
  refine ⟨?_, ?_, ?_⟩
  · rw [QuicInitial.clientKey,
      expandLabel_const (i := .quicKey) (k := 19) (by decide) (by decide) (by decide)]
    exact keyAt_eq hkey (by simp)
  · rw [QuicInitial.clientHp,
      expandLabel_const (i := .quicHp) (k := 18) (by decide) (by decide) (by decide)]
    exact keyAt_eq hhp (by simp)
  · rw [QuicInitial.clientIv,
      expandLabel_const (i := .quicIv) (k := 18) (by decide) (by decide) (by decide)]
    exact ivAt_eq hiv (by simp)

theorem zero_filled {dcid : Dcid} {n : ℕ}
    (hz : ∀ i (hi : i < 20), n ≤ i → dcid[i] = 0) :
    dcid.toList = dcid.toList.take n ++ List.replicate (20 - n) 0 := by
  have hdrop : dcid.toList.drop n = List.replicate (20 - n) 0 := by
    apply List.ext_getElem (by simp)
    intro i hi hi'
    rw [List.getElem_drop, Vector.getElem_toList, List.getElem_replicate]
    exact hz _ _ (Nat.le_add_right n i)
  rw [← hdrop, List.take_append_drop]

/-- The keys are those of the standard, and so is the keyed hash under them: of any key block of 64
bytes and any data that leaves room for the padding in its block. -/
theorem client_keys_standard (scratch : Scratch) (dcid : Dcid) (n : ℕ) (h20 : n ≤ 20)
    (hz : ∀ i (hi : i < 20), n ≤ i → dcid[i] = 0) :
    ((expandClientKeysFromDcid scratch dcid n).quicHp.toList =
        QuicInitial.clientHp (dcid.toList.take n) ∧
      (expandClientKeysFromDcid scratch dcid n).quicKey.toList =
        QuicInitial.clientKey (dcid.toList.take n) ∧
      (expandClientKeysFromDcid scratch dcid n).quicIv.toList =
        QuicInitial.clientIv (dcid.toList.take n) ++ [0, 0, 0, 0]) ∧
    ∀ (area : ScratchUnion) (key msg : List UInt8), key.length = 64 → msg.length ≤ 55 →
      load area secretOff 64 = key →
      load area tmpOff 64 = msg ++ List.replicate (64 - msg.length) 0 →
      load (sha256Hmac area secretOff tmpOff msg.length) tmpOff 64 =
          Sha256.hmac key msg ++ List.replicate 32 0 ∧
        load (sha256Hmac area secretOff tmpOff msg.length) secretOff 64 = key := by
  constructor
  · obtain ⟨hkey, hhp, hiv⟩ := expandClientKeysFromDcid_keys scratch dcid h20 (zero_filled hz)
    refine ⟨?_, ?_, ?_⟩
    · rw [hhp, QuicInitial.toList_block (QuicInitial.length_clientHp _)]
    · rw [hkey, QuicInitial.toList_block (QuicInitial.length_clientKey _)]
    · have hlen := QuicInitial.length_clientIv (dcid.toList.take n)
      rw [hiv, QuicInitial.toList_block_of_le (by omega), hlen]
      rfl
  · intro area key msg hkey hmsg hsecret htmp
    have hself : Sha256.hmacKey key = key := by simp [Sha256.hmacKey, hkey]
    have harea : HmacArea area (Sha256.hmacKey key) msg := ⟨htmp, hself.symm ▸ hsecret⟩
    obtain ⟨htmp', hsecret'⟩ := sha256Hmac_area harea hmsg
    rw [Sha256.length_hmac] at htmp'
    exact ⟨htmp', hsecret'.trans hself⟩

/-- The first connection ID of a client, of eight bytes. -/
def sampleDcid : Dcid :=
  #v[0x83, 0x94, 0xc8, 0xf0, 0x3e, 0x51, 0x57, 0x08, 0, 0, 0, 0, 0, 0, 0, 0, 0, 0, 0, 0]

/-- A key block and data for the keyed hash, as they lie in the page. -/
def sampleArea : ScratchUnion :=
  store (store (filled 416 []) tmpOff ([0x48, 0x69] ++ List.replicate 62 0)) secretOff
    (List.replicate 64 0x0b)

theorem client_keys_sample :
    (expandClientKeysFromDcid ⟨filled 416 [], filled 16 [], filled 16 [], filled 16 [],
        filled 1024 []⟩ sampleDcid 8).quicKey.toList =
      QuicInitial.clientKey [0x83, 0x94, 0xc8, 0xf0, 0x3e, 0x51, 0x57, 0x08] ∧
    load (sha256Hmac sampleArea secretOff tmpOff 2) tmpOff 64 =
      Sha256.hmac (List.replicate 64 0x0b) [0x48, 0x69] ++ List.replicate 32 0 :=
  have h := client_keys_standard ⟨filled 416 [], filled 16 [], filled 16 [], filled 16 [],
    filled 1024 []⟩ sampleDcid 8 (by decide) (by decide)
  have hsecret : load sampleArea secretOff 64 = List.replicate 64 0x0b :=
    load_store_self (by decide)
  have hmsg : load sampleArea tmpOff 64 = [0x48, 0x69] ++ List.replicate 62 0 :=
    (load_store_of_disjoint (by decide)).trans (load_store_self (by decide))
  ⟨h.1.2.1, (h.2 sampleArea (List.replicate 64 0x0b) [0x48, 0x69] (by decide) (by decide)
    hsecret hmsg).1⟩

end Udpgrm
