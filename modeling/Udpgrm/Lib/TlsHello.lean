import Udpgrm.Lib.QuicInitial

/-! The ClientHello of TLS, in the CRYPTO frame that carries it. -/
namespace TlsHello

open QuicInitial (VarintSize varint)

structure Extension where
  type : UInt16
  body : List UInt8
deriving DecidableEq, Repr

namespace Extension

def bytes (e : Extension) : List UInt8 :=
  BigEndian.ofNat 2 e.type.toNat ++ BigEndian.ofNat 2 e.body.length ++ e.body

theorem length_bytes (e : Extension) : e.bytes.length = 4 + e.body.length := by
  simp [bytes]
  omega

/-- Extensions, one behind the other. -/
def listBytes (es : List Extension) : List UInt8 := es.flatMap bytes

theorem listBytes_cons (e : Extension) (es : List Extension) :
    listBytes (e :: es) = e.bytes ++ listBytes es :=
  List.flatMap_cons

theorem listBytes_append (es fs : List Extension) :
    listBytes (es ++ fs) = listBytes es ++ listBytes fs :=
  List.flatMap_append

end Extension

/-- The body of a `server_name` extension: a list with one host name. -/
def hostName (h : List UInt8) : List UInt8 :=
  BigEndian.ofNat 2 (h.length + 3) ++ 0 :: BigEndian.ofNat 2 h.length ++ h

theorem length_hostName (h : List UInt8) : (hostName h).length = 5 + h.length := by
  simp [hostName]
  omega

/-- A CRYPTO frame and a ClientHello up to the first extension. The lengths of what follows are
numbers of their own. -/
structure Opening where
  offsetSize : VarintSize
  offset : ℕ
  lengthSize : VarintSize
  length : ℕ
  helloLength : ℕ
  version : UInt16
  random : List UInt8
  sessionId : List UInt8
  cipherSuites : List UInt8
  compression : List UInt8
  extensionsLength : ℕ
deriving DecidableEq, Repr

namespace Opening

variable (o : Opening)

structure WellFormed : Prop where
  offset : o.offset < o.offsetSize.limit
  length : o.length < o.lengthSize.limit
  helloLength : o.helloLength < 256 ^ 3
  random : o.random.length = 32
  sessionId : o.sessionId.length < 256
  cipherSuites : o.cipherSuites.length < 256 ^ 2
  compression : o.compression.length < 256
  extensionsLength : o.extensionsLength < 256 ^ 2

def frameHeader : List UInt8 :=
  6 :: varint o.offsetSize o.offset ++ varint o.lengthSize o.length

def helloHeader : List UInt8 :=
  1 :: BigEndian.ofNat 3 o.helloLength ++ BigEndian.ofNat 2 o.version.toNat ++ o.random

def bytes : List UInt8 :=
  o.frameHeader ++ o.helloHeader ++ UInt8.ofNat o.sessionId.length :: o.sessionId ++
    BigEndian.ofNat 2 o.cipherSuites.length ++ o.cipherSuites ++
    UInt8.ofNat o.compression.length :: o.compression ++ BigEndian.ofNat 2 o.extensionsLength

/-- Where the data of the frame ends. -/
def dataEnd : ℕ := o.frameHeader.length + o.length

/-- Where the extensions end. -/
def extensionsEnd : ℕ := o.bytes.length + o.extensionsLength

theorem length_frameHeader :
    o.frameHeader.length = 1 + o.offsetSize.bytes + o.lengthSize.bytes := by
  simp [frameHeader]
  omega

variable {o}

theorem length_helloHeader (h : o.WellFormed) : o.helloHeader.length = 38 := by
  simp [helloHeader, h.random]

theorem length_bytes (h : o.WellFormed) : o.bytes.length =
    o.frameHeader.length + 44 + o.sessionId.length + o.cipherSuites.length +
      o.compression.length := by
  simp [bytes, length_helloHeader h]
  omega

end Opening

/-- A whole ClientHello. -/
structure Hello where
  version : UInt16
  random : List UInt8
  sessionId : List UInt8
  cipherSuites : List UInt8
  compression : List UInt8
  extensions : List Extension
deriving DecidableEq, Repr

namespace Hello

variable (h : Hello)

structure WellFormed : Prop where
  random : h.random.length = 32
  sessionId : h.sessionId.length < 256
  cipherSuites : h.cipherSuites.length < 256 ^ 2
  compression : h.compression.length < 256
  bodies : ∀ e ∈ h.extensions, e.body.length < 256 ^ 2
  extensions : (Extension.listBytes h.extensions).length < 256 ^ 2

/-- The message behind its type and length. -/
def length : ℕ :=
  40 + h.sessionId.length + h.cipherSuites.length + h.compression.length +
    (Extension.listBytes h.extensions).length

/-- The frame that starts the stream with this message, as far as the first extension. The stream
may go on behind the message. -/
def opening (offsetSize lengthSize : VarintSize) (length : ℕ) : Opening where
  offsetSize := offsetSize
  offset := 0
  lengthSize := lengthSize
  length := length
  helloLength := h.length
  version := h.version
  random := h.random
  sessionId := h.sessionId
  cipherSuites := h.cipherSuites
  compression := h.compression
  extensionsLength := (Extension.listBytes h.extensions).length

def frame (offsetSize lengthSize : VarintSize) (length : ℕ) : List UInt8 :=
  (h.opening offsetSize lengthSize length).bytes ++ Extension.listBytes h.extensions

/-- The body of the `server_name` extension. -/
def serverName : Option (List UInt8) := (h.extensions.find? (·.type = 0)).map (·.body)

variable {h}

theorem WellFormed.opening (hw : h.WellFormed) {offsetSize lengthSize : VarintSize} {length : ℕ}
    (hl : length < lengthSize.limit) : (h.opening offsetSize lengthSize length).WellFormed where
  offset := by
    have hpos : 0 < offsetSize.limit := by cases offsetSize <;> decide
    exact hpos
  length := hl
  helloLength := by
    have hs := hw.sessionId
    have hc := hw.cipherSuites
    have hz := hw.compression
    have he := hw.extensions
    simp only [Hello.opening, Hello.length]
    omega
  random := hw.random
  sessionId := hw.sessionId
  cipherSuites := hw.cipherSuites
  compression := hw.compression
  extensionsLength := hw.extensions

end Hello

end TlsHello
