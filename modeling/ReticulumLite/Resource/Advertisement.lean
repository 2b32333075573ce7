import ReticulumLite.Link.Handshake

/-!
# Resource advertisements

A resource is announced by a map of eleven entries in the msgpack format: sizes, hashes, flags and one
short hash for each part. Output buffers are represented by their length, and a reader by what is left
to read.
-/

namespace ReticulumLite

open Bounded

abbrev maphashLen : Nat := 4
abbrev randomHashSize : Nat := 4
abbrev requestIdMax : Nat := 32
abbrev advPackedMax : Nat := 192
abbrev maxParts : Nat := 8

inductive ResourceError
  | tooLarge
  | invalidAdvertisement
  | compressedUnsupported
  | splitUnsupported
  | metadataUnsupported
  | requestResponseUnsupported
  | encryptionRequired
  | mapHashCollision
  | invalidRequest
  | incomplete
  | hashMismatch
  | corrupt
  | invalidState
  | outputTooSmall
  | crypto (e : CryptoError)
  deriving DecidableEq

structure ResourceFlags where
  encrypted : Bool
  compressed : Bool
  split : Bool
  isRequest : Bool
  isResponse : Bool
  hasMetadata : Bool
  deriving DecidableEq

namespace ResourceFlags

def zero : ResourceFlags := ⟨false, false, false, false, false, false⟩

def toByte (f : ResourceFlags) : UInt8 :=
  f.encrypted.toUInt8 ||| (f.compressed.toUInt8 <<< 1) ||| (f.split.toUInt8 <<< 2) |||
    (f.isRequest.toUInt8 <<< 3) ||| (f.isResponse.toUInt8 <<< 4) ||| (f.hasMetadata.toUInt8 <<< 5)

def fromByte (b : UInt8) : ResourceFlags where
  encrypted := decide (b &&& 0x01 ≠ 0)
  compressed := decide (b &&& 0x02 ≠ 0)
  split := decide (b &&& 0x04 ≠ 0)
  isRequest := decide (b &&& 0x08 ≠ 0)
  isResponse := decide (b &&& 0x10 ≠ 0)
  hasMetadata := decide (b &&& 0x20 ≠ 0)

theorem fromByte_toByte (f : ResourceFlags) : fromByte f.toByte = f := by
  obtain ⟨a, b, c, d, e, g⟩ := f
  revert a b c d e g
  decide

end ResourceFlags

/-- The fields of an advertisement. Two arrays hold as many bytes as their lengths say. -/
structure ResourceAdv where
  transferSize : UInt32
  dataSize : UInt32
  numParts : UInt32
  resourceHash : Bytes 32
  randomHash : Bytes 4
  originalHash : Bytes 32
  segmentIndex : UInt32
  totalSegments : UInt32
  requestIdLen : Nat
  requestId : Bytes 32
  flags : ResourceFlags
  hashmapLen : Nat
  hashmap : Bytes 32
  deriving DecidableEq

def ResourceAdv.zero : ResourceAdv where
  transferSize := 0
  dataSize := 0
  numParts := 0
  resourceHash := Bytes.zero
  randomHash := Bytes.zero
  originalHash := Bytes.zero
  segmentIndex := 0
  totalSegments := 0
  requestIdLen := 0
  requestId := Bytes.zero
  flags := .zero
  hashmapLen := 0
  hashmap := Bytes.zero

/-- The keys of the map, in the order they are written. -/
inductive AdvKey
  | t | d | n | h | r | o | i | l | q | f | m
  deriving DecidableEq

namespace AdvKey

def toByte : AdvKey → UInt8
  | t => 0x74
  | d => 0x64
  | n => 0x6E
  | h => 0x68
  | r => 0x72
  | o => 0x6F
  | i => 0x69
  | l => 0x6C
  | q => 0x71
  | f => 0x66
  | m => 0x6D

def ofByte (b : UInt8) : Option AdvKey :=
  [t, d, n, h, r, o, i, l, q, f, m].find? fun key => decide (key.toByte = b)

theorem ofByte_toByte (key : AdvKey) : ofByte key.toByte = some key := by
  cases key <;> decide

theorem ofByte_eq_some {b : UInt8} {key : AdvKey} : ofByte b = some key ↔ b = key.toByte := by
  constructor
  · intro h
    unfold ofByte at h
    have hfound := List.find?_some h
    exact (of_decide_eq_true hfound).symm
  · rintro rfl
    exact ofByte_toByte key

end AdvKey

/-! ### Writing -/

structure MpWriter where
  outLen : Nat
  written : List UInt8

namespace MpWriter

def put (w : MpWriter) (bytes : List UInt8) : Except ResourceError MpWriter :=
  if w.written.length + bytes.length > w.outLen then .error .outputTooSmall
  else .ok { w with written := w.written ++ bytes }

def key (w : MpWriter) (k : AdvKey) : Except ResourceError MpWriter := w.put [0xA1, k.toByte]

def uint (w : MpWriter) (v : UInt32) : Except ResourceError MpWriter :=
  if v < 0x80 then w.put [v.toUInt8]
  else if v ≤ 0xFF then w.put [0xCC, v.toUInt8]
  else if v ≤ 0xFFFF then w.put (0xCD :: (Bytes.ofNat 2 v.toNat).toList)
  else w.put (0xCE :: (Bytes.ofNat 4 v.toNat).toList)

def bin (w : MpWriter) (data : List UInt8) : Except ResourceError MpWriter :=
  if data.length ≤ 0xFF then do
    let w ← w.put [0xC4, UInt8.ofNat data.length]
    w.put data
  else if data.length ≤ 0xFFFF then do
    let w ← w.put (0xC5 :: (Bytes.ofNat 2 data.length).toList)
    w.put data
  else .error .tooLarge

def nil (w : MpWriter) : Except ResourceError MpWriter := w.put [0xC0]

end MpWriter

def ResourceAdv.pack (adv : ResourceAdv) (outLen : Nat) : Except ResourceError (List UInt8) := do
  refuseIf (adv.hashmapLen > maxParts * maphashLen ∨ adv.requestIdLen > requestIdMax)
    .invalidAdvertisement
  let w : MpWriter := ⟨outLen, []⟩
  let w ← w.put [0x8B]
  let w ← w.key .t
  let w ← w.uint adv.transferSize
  let w ← w.key .d
  let w ← w.uint adv.dataSize
  let w ← w.key .n
  let w ← w.uint adv.numParts
  let w ← w.key .h
  let w ← w.bin adv.resourceHash.toList
  let w ← w.key .r
  let w ← w.bin adv.randomHash.toList
  let w ← w.key .o
  let w ← w.bin adv.originalHash.toList
  let w ← w.key .i
  let w ← w.uint adv.segmentIndex
  let w ← w.key .l
  let w ← w.uint adv.totalSegments
  let w ← w.key .q
  let w ← if adv.requestIdLen = 0 then w.nil else w.bin (adv.requestId.toList.take adv.requestIdLen)
  let w ← w.key .f
  let w ← w.uint adv.flags.toByte.toUInt32
  let w ← w.key .m
  let w ← w.bin (adv.hashmap.toList.take adv.hashmapLen)
  return w.written

/-! ### Reading -/

namespace MpReader

def byte (data : List UInt8) : Except ResourceError (UInt8 × List UInt8) :=
  match data with
  | [] => .error .invalidAdvertisement
  | b :: rest => .ok (b, rest)

def take (n : Nat) (data : List UInt8) : Except ResourceError (List UInt8 × List UInt8) :=
  if n > data.length then .error .invalidAdvertisement
  else .ok (data.take n, data.drop n)

def uint (data : List UInt8) : Except ResourceError (UInt32 × List UInt8) := do
  let (b, rest) ← byte data
  if b ≤ 0x7F then return (b.toUInt32, rest)
  else if b = 0xCC then
    let (b, rest) ← byte rest
    return (b.toUInt32, rest)
  else if b = 0xCD then
    let (s, rest) ← take 2 rest
    return (UInt32.ofNat (beNat s), rest)
  else if b = 0xCE then
    let (s, rest) ← take 4 rest
    return (UInt32.ofNat (beNat s), rest)
  else if b = 0xCF then
    let (s, rest) ← take 8 rest
    if beNat s < 2 ^ 32 then return (UInt32.ofNat (beNat s), rest)
    else throw .tooLarge
  else throw .invalidAdvertisement

def bin (data : List UInt8) : Except ResourceError (List UInt8 × List UInt8) := do
  let (b, rest) ← byte data
  if b = 0xC4 then
    let (n, rest) ← byte rest
    take n.toNat rest
  else if b = 0xC5 then
    let (s, rest) ← take 2 rest
    take (beNat s) rest
  else throw .invalidAdvertisement

end MpReader

namespace ResourceAdv

def readValue (adv : ResourceAdv) (key : AdvKey) (data : List UInt8) :
    Except ResourceError (ResourceAdv × List UInt8) :=
  match key with
  | .t => do
      let (v, rest) ← MpReader.uint data
      return ({ adv with transferSize := v }, rest)
  | .d => do
      let (v, rest) ← MpReader.uint data
      return ({ adv with dataSize := v }, rest)
  | .n => do
      let (v, rest) ← MpReader.uint data
      return ({ adv with numParts := v }, rest)
  | .h => do
      let (s, rest) ← MpReader.bin data
      refuseIf (s.length ≠ 32) .invalidAdvertisement
      return ({ adv with resourceHash := Bytes.slice 32 s 0 }, rest)
  | .r => do
      let (s, rest) ← MpReader.bin data
      refuseIf (s.length ≠ randomHashSize) .invalidAdvertisement
      return ({ adv with randomHash := Bytes.slice 4 s 0 }, rest)
  | .o => do
      let (s, rest) ← MpReader.bin data
      refuseIf (s.length ≠ 32) .invalidAdvertisement
      return ({ adv with originalHash := Bytes.slice 32 s 0 }, rest)
  | .i => do
      let (v, rest) ← MpReader.uint data
      return ({ adv with segmentIndex := v }, rest)
  | .l => do
      let (v, rest) ← MpReader.uint data
      return ({ adv with totalSegments := v }, rest)
  | .q =>
      if data.head? = some 0xC0 then .ok (adv, data.tail)
      else do
        let (s, rest) ← MpReader.bin data
        refuseIf (s.length > requestIdMax) .invalidAdvertisement
        return ({ adv with
          requestId := Bytes.slice 32 (s ++ adv.requestId.toList.drop s.length) 0
          requestIdLen := s.length }, rest)
  | .f => do
      let (v, rest) ← MpReader.uint data
      refuseIf (v > 0xFF) .invalidAdvertisement
      return ({ adv with flags := .fromByte v.toUInt8 }, rest)
  | .m => do
      let (s, rest) ← MpReader.bin data
      refuseIf (s.length % maphashLen ≠ 0) .invalidAdvertisement
      let hashmap :=
        if s.length ≤ maxParts * maphashLen then
          Bytes.slice 32 (s ++ adv.hashmap.toList.drop s.length) 0
        else adv.hashmap
      return ({ adv with hashmap, hashmapLen := s.length }, rest)

/-- Read `n` more entries; no key may come twice. -/
def readEntries : Nat → List AdvKey → ResourceAdv → List UInt8 → Except ResourceError ResourceAdv
  | 0, _, adv, _ => .ok adv
  | n + 1, seen, adv, data => do
      let (mark, rest) ← MpReader.byte data
      refuseIf (mark ≠ 0xA1) .invalidAdvertisement
      let (k, rest) ← MpReader.byte rest
      let key ← okOr (AdvKey.ofByte k) .invalidAdvertisement
      refuseIf (key ∈ seen) .invalidAdvertisement
      let (adv, rest) ← adv.readValue key rest
      readEntries n (key :: seen) adv rest

/-- Read the whole map. A hashmap that is too long is checked but not kept. -/
def parseBounded (data : List UInt8) : Except ResourceError ResourceAdv := do
  let (head, rest) ← MpReader.byte data
  refuseIf (¬ (0x80 ≤ head ∧ head ≤ 0x8F) ∨ head &&& 0x0F ≠ 11) .invalidAdvertisement
  readEntries 11 [] zero rest

def parse (data : List UInt8) : Except ResourceError ResourceAdv := do
  let adv ← parseBounded data
  refuseIf (adv.hashmapLen > maxParts * maphashLen) .tooLarge
  return adv

def rejectionHash (data : List UInt8) : Except ResourceError (Bytes 32) := do
  let adv ← parseBounded data
  return adv.resourceHash

def responseId (data : List UInt8) : Except ResourceError (Bytes 16) := do
  let adv ← parseBounded data
  refuseIf (!adv.flags.isResponse ∨ adv.flags.isRequest ∨ adv.requestIdLen ≠ 16) .invalidAdvertisement
  return Bytes.slice 16 adv.requestId.toList 0

end ResourceAdv

end ReticulumLite
