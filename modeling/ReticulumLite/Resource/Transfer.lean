import ReticulumLite.Resource.Advertisement

/-!
# Resource transfers

The sender encrypts a resource once and cuts the token into parts; the receiver is told the short
hash of every part, asks for the missing parts of a window, puts what arrives into its buffer, and
decrypts in place when the buffer is full. Of an array with a length beside it only the used part is
kept.
-/

namespace ReticulumLite

open Bounded

abbrev sdu : Nat := 464
abbrev transferMax : Nat := maxParts * sdu
abbrev dataMax : Nat := (transferMax - tokenOverhead) - 1 - randomHashSize
abbrev proofLen : Nat := 64
abbrev requestMax : Nat := 1 + 32 + maxParts * maphashLen
abbrev hashmapIsNotExhausted : UInt8 := 0x00
abbrev hashmapIsExhausted : UInt8 := 0xFF

abbrev windowInitial : Nat := 4
abbrev windowMin : Nat := 2
abbrev windowMaxSlow : Nat := 10
abbrev windowMaxVerySlow : Nat := 4
abbrev windowMaxFast : Nat := 75
abbrev fastRateThreshold : Nat := 4
abbrev verySlowRateThreshold : Nat := 2
abbrev rateFast : Nat := 6250
abbrev rateVerySlow : Nat := 250
abbrev windowFlexibility : Nat := 4

def tokenLen (ptLen : Nat) : Nat := 16 + (ptLen / 16 + 1) * 16 + 32

def partCount (total : Nat) : Nat := (total + sdu - 1) / sdu

section Hashes

variable [Crypto]

def hashPair (a b : List UInt8) : Bytes 32 := sha256 (a ++ b)

def getMapHash (part : List UInt8) (randomHash : Bytes 4) : Bytes 4 :=
  Bytes.slice 4 (hashPair part randomHash.toList).toList 0

def computeResourceHash (data : List UInt8) (randomHash : Bytes 4) : Bytes 32 :=
  hashPair data randomHash.toList

def computeExpectedProof (data : List UInt8) (resourceHash : Bytes 32) : Bytes 32 :=
  hashPair data resourceHash.toList

end Hashes

/-! ### Part requests -/

structure PartRequestView where
  wantsMoreHashmap : Bool
  lastMapHash : Option (Bytes 4)
  resourceHash : Bytes 32
  requested : List UInt8

namespace PartRequestView

def parse (data : List UInt8) : Except ResourceError PartRequestView := do
  refuseIf (data = []) .invalidRequest
  let wantsMoreHashmap := decide (byteAt data 0 = hashmapIsExhausted)
  let offset := if wantsMoreHashmap then 1 + maphashLen else 1
  refuseIf (data.length < offset + 32) .invalidRequest
  return { wantsMoreHashmap
           lastMapHash := if wantsMoreHashmap then some (Bytes.slice 4 data 1) else none
           resourceHash := Bytes.slice 32 data offset
           requested := data.drop (offset + 32) }

/-- The whole hashes of the request; a rest of less than four bytes is left out. -/
def requestedHashes (view : PartRequestView) : List (Bytes 4) :=
  (List.range (view.requested.length / maphashLen)).map fun i =>
    Bytes.slice 4 view.requested (i * maphashLen)

end PartRequestView

/-! ### The window -/

structure WindowState where
  window : Nat
  windowMin : Nat
  windowMax : Nat
  fastRateRounds : Nat
  verySlowRateRounds : Nat
  deriving DecidableEq

namespace WindowState

def new : WindowState := ⟨windowInitial, ReticulumLite.windowMin, windowMaxSlow, 0, 0⟩

/-- One more part at once, as long as there is room; the lower bound follows at a distance. -/
def widen (w : WindowState) : WindowState :=
  if w.window < w.windowMax then
    let window := w.window + 1
    if window - w.windowMin > windowFlexibility - 1 then
      { w with window, windowMin := w.windowMin + 1 }
    else { w with window }
  else w

def grow (w : WindowState) (rate : Nat) : WindowState :=
  let w := w.widen
  if rate = 0 then w
  else if rate > rateFast then
    let fastRateRounds := w.fastRateRounds + 1
    { w with
      fastRateRounds
      verySlowRateRounds := 0
      windowMax := if fastRateRounds ≥ fastRateThreshold then windowMaxFast else w.windowMax }
  else if rate < rateVerySlow then
    let verySlowRateRounds := w.verySlowRateRounds + 1
    if verySlowRateRounds ≥ verySlowRateThreshold then
      { w with
        verySlowRateRounds
        fastRateRounds := 0
        windowMax := windowMaxVerySlow
        window := min w.window windowMaxVerySlow }
    else { w with verySlowRateRounds, fastRateRounds := 0 }
  else { w with fastRateRounds := 0, verySlowRateRounds := 0 }

def shrink (w : WindowState) : WindowState :=
  let window := if w.window > w.windowMin then w.window - 1 else w.window
  let windowMax := if w.windowMax > w.windowMin then w.windowMax - 1 else w.windowMax
  { w with
    window
    windowMax := if windowMax - window > windowFlexibility - 1 then windowMax - 1 else windowMax }

end WindowState

/-! ### The sender -/

structure OutboundResource where
  buf : List UInt8
  totalSize : Nat
  dataSize : Nat
  numParts : Nat
  resourceHash : Bytes 32
  expectedProof : Bytes 32
  randomHash : Bytes 4
  mapHashes : List (Bytes 4)

namespace OutboundResource

def zeroed : OutboundResource where
  buf := List.replicate transferMax 0
  totalSize := 0
  dataSize := 0
  numParts := 0
  resourceHash := Bytes.zero
  expectedProof := Bytes.zero
  randomHash := Bytes.zero
  mapHashes := []

def hasMapHashCollision (mapHashes : List (Bytes 4)) : Bool := !decide mapHashes.Nodup

section

variable [Crypto]

/-- Encrypt the random hash and the data, and hash the parts. -/
def buildInto (r : OutboundResource) (data : List UInt8) (keys : LinkKeys) (randomHash : Bytes 4)
    (iv : Bytes 16) : OutboundResource × Except ResourceError Unit :=
  if data.length > dataMax then (r, .error .tooLarge)
  else
    let resourceHash := computeResourceHash data randomHash
    let expectedProof := computeExpectedProof data resourceHash
    let plain := overwrite (overwrite (List.replicate transferMax 0) 16 randomHash.toList)
      (16 + randomHashSize) data
    let encrypted := tokenEncryptInPlace keys.key iv plain (randomHashSize + data.length)
    let cleared := { r with buf := encrypted.1, totalSize := 0, dataSize := 0, numParts := 0 }
    match encrypted.2 with
    | .error e => (cleared, .error (.crypto e))
    | .ok total =>
        let numParts := partCount total
        let mapHashes := (List.range numParts).map fun i =>
          getMapHash (between encrypted.1 (i * sdu) (min ((i + 1) * sdu) total)) randomHash
        if hasMapHashCollision mapHashes then (cleared, .error .mapHashCollision)
        else
          ({ buf := encrypted.1
             totalSize := total
             dataSize := data.length
             numParts
             resourceHash
             expectedProof
             randomHash
             mapHashes }, .ok ())

def build (data : List UInt8) (keys : LinkKeys) (randomHash : Bytes 4) (iv : Bytes 16) :
    Except ResourceError OutboundResource :=
  let built := zeroed.buildInto data keys randomHash iv
  match built.2 with
  | .ok () => .ok built.1
  | .error e => .error e

end

def part (r : OutboundResource) (i : Nat) : Option (List UInt8) :=
  if i ≥ r.numParts then none
  else some (between r.buf (i * sdu) (min ((i + 1) * sdu) r.totalSize))

def advertisement (r : OutboundResource) : ResourceAdv :=
  { ResourceAdv.zero with
    transferSize := UInt32.ofNat r.totalSize
    dataSize := UInt32.ofNat r.dataSize
    numParts := UInt32.ofNat r.numParts
    resourceHash := r.resourceHash
    randomHash := r.randomHash
    originalHash := r.resourceHash
    segmentIndex := 1
    totalSegments := 1
    flags := { ResourceFlags.zero with encrypted := true }
    hashmapLen := r.numParts * maphashLen
    hashmap := Bytes.slice 32 (r.mapHashes.flatMap List.Vector.toList) 0 }

def requestedParts (r : OutboundResource) (req : PartRequestView) : List Nat :=
  if req.resourceHash ≠ r.resourceHash then []
  else (List.range r.numParts).filter fun i =>
    req.requestedHashes.any fun h => decide (some h = r.mapHashes[i]?)

def validateProof (r : OutboundResource) (proof : List UInt8) : Bool :=
  decide (proof.length = proofLen) && decide (proof.take 32 = r.resourceHash.toList) &&
    decide (proof.drop 32 = r.expectedProof.toList)

end OutboundResource

/-! ### The receiver -/

inductive InboundState
  | transferring
  | assembled
  | corrupt
  deriving DecidableEq

structure InboundResource where
  buf : List UInt8
  resourceHash : Bytes 32
  randomHash : Bytes 4
  proof : Bytes 32
  transferSize : Nat
  dataSize : Nat
  dataLen : Nat
  numParts : Nat
  consecutiveCompleted : Nat
  received : List Bool
  mapHashes : List (Bytes 4)
  state : InboundState
  window : WindowState

namespace InboundResource

/-- Whether the advertisement is for the purpose that was expected. -/
def purposeValid (adv : ResourceAdv) (expectedResponse : Option (Bytes 16)) : Bool :=
  match expectedResponse with
  | none => !adv.flags.isRequest && !adv.flags.isResponse && decide (adv.requestIdLen = 0)
  | some target => !adv.flags.isRequest && adv.flags.isResponse && decide (adv.requestIdLen = 16) &&
      decide (adv.requestId.toList.take 16 = target.toList)

/-- The short hashes of the parts of an advertisement that can be received. -/
def validateAdv (adv : ResourceAdv) (expectedResponse : Option (Bytes 16)) :
    Except ResourceError (List (Bytes 4)) := do
  refuseIf adv.flags.compressed .compressedUnsupported
  refuseIf adv.flags.hasMetadata .metadataUnsupported
  refuseIf (adv.flags.split ∨ adv.totalSegments ≠ 1 ∨ adv.segmentIndex ≠ 1) .splitUnsupported
  refuseIf (!purposeValid adv expectedResponse) .requestResponseUnsupported
  refuseIf (!adv.flags.encrypted) .encryptionRequired
  let transfer := adv.transferSize.toNat
  let dataSize := adv.dataSize.toNat
  refuseIf (transfer > transferMax ∨ dataSize > dataMax) .tooLarge
  refuseIf (transfer < tokenOverhead + 16) .invalidAdvertisement
  refuseIf (tokenLen (randomHashSize + dataSize) ≠ transfer) .invalidAdvertisement
  let numParts := partCount transfer
  refuseIf (adv.numParts.toNat ≠ numParts) .invalidAdvertisement
  refuseIf (adv.hashmapLen ≠ numParts * maphashLen) .invalidAdvertisement
  return (List.range numParts).map fun i => Bytes.slice 4 adv.hashmap.toList (i * maphashLen)

def accepted (adv : ResourceAdv) (mapHashes : List (Bytes 4)) : InboundResource where
  buf := List.replicate transferMax 0
  resourceHash := adv.resourceHash
  randomHash := adv.randomHash
  proof := Bytes.zero
  transferSize := adv.transferSize.toNat
  dataSize := adv.dataSize.toNat
  dataLen := 0
  numParts := mapHashes.length
  consecutiveCompleted := 0
  received := List.replicate maxParts false
  mapHashes
  state := .transferring
  window := .new

def acceptInto (r : InboundResource) (adv : ResourceAdv) (expected : Option (Bytes 16)) :
    InboundResource × Except ResourceError Unit :=
  match validateAdv adv expected with
  | .error e => (r, .error e)
  | .ok mapHashes => (accepted adv mapHashes, .ok ())

def fromAdvertisementInto (r : InboundResource) (adv : ResourceAdv) :
    InboundResource × Except ResourceError Unit :=
  r.acceptInto adv none

def fromResponseInto (r : InboundResource) (adv : ResourceAdv) (expectedRequestId : Bytes 16) :
    InboundResource × Except ResourceError Unit :=
  r.acceptInto adv (some expectedRequestId)

def fromAdvertisement (adv : ResourceAdv) : Except ResourceError InboundResource :=
  (validateAdv adv none).map (accepted adv)

def expectedPartLen (r : InboundResource) (i : Nat) : Nat :=
  if i + 1 = r.numParts then r.transferSize - i * sdu else sdu

def got (r : InboundResource) (i : Nat) : Bool := r.received.getD i false

def windowEnd (r : InboundResource) : Nat :=
  min (r.consecutiveCompleted + r.window.window) r.numParts

def inWindow (r : InboundResource) : List Nat :=
  List.range' r.consecutiveCompleted (r.windowEnd - r.consecutiveCompleted)

def isComplete (r : InboundResource) : Bool := decide (r.consecutiveCompleted = r.numParts)

/-- Count on from `c` over parts that were received, at most `fuel` of them. -/
def advance (received : List Bool) : (fuel c : Nat) → Nat
  | 0, c => c
  | fuel + 1, c => if received.getD c false then advance received fuel (c + 1) else c

def fill (r : InboundResource) (i : Nat) (part : List UInt8) : InboundResource :=
  let received := r.received.set i true
  { r with
    buf := overwrite r.buf (i * sdu) part
    received
    consecutiveCompleted :=
      advance received (r.numParts - r.consecutiveCompleted) r.consecutiveCompleted }

def buildPartRequest (r : InboundResource) (outLen : Nat) : Except ResourceError (List UInt8) := do
  refuseIf (r.state ≠ .transferring ∨ r.isComplete) .invalidState
  let missing := (r.inWindow.filter fun i => !r.got i).take r.window.window
  refuseIf (outLen < 1 + 32 + missing.length * maphashLen) .outputTooSmall
  return hashmapIsNotExhausted :: r.resourceHash.toList ++
    missing.flatMap fun i => (r.mapHashes.getD i Bytes.zero).toList

def data (r : InboundResource) : Option (List UInt8) :=
  if r.state ≠ .assembled then none
  else some (between r.buf (16 + randomHashSize) (16 + randomHashSize + r.dataLen))

def buildProof (r : InboundResource) (outLen : Nat) : Except ResourceError (List UInt8) := do
  refuseIf (r.state ≠ .assembled) .invalidState
  refuseIf (outLen < proofLen) .outputTooSmall
  return r.resourceHash.toList ++ r.proof.toList

section

variable [Crypto]

def matchesPart (r : InboundResource) (part : List UInt8) : Bool :=
  if r.state = .corrupt then false
  else
    let hash := getMapHash part r.randomHash
    (List.range r.numParts).any fun i =>
      (r.got i || decide (r.consecutiveCompleted ≤ i ∧ i < r.windowEnd)) &&
        decide (r.mapHashes.getD i Bytes.zero = hash) && decide (part.length = r.expectedPartLen i)

def slotOf (r : InboundResource) (part : List UInt8) : Option Nat :=
  r.inWindow.find? fun i => !r.got i &&
    decide (r.mapHashes.getD i Bytes.zero = getMapHash part r.randomHash) &&
    decide (part.length = r.expectedPartLen i)

def receivePart (r : InboundResource) (part : List UInt8) : InboundResource × Bool :=
  if r.state ≠ .transferring then (r, false)
  else
    match r.slotOf part with
    | none => (r, false)
    | some i => (r.fill i part, true)

/-- Decrypt the buffer in place and check what it holds against the advertised hash. -/
def assemble (r : InboundResource) (keys : LinkKeys) : InboundResource × Except ResourceError Nat :=
  if r.state ≠ .transferring then (r, .error .invalidState)
  else if !r.isComplete then (r, .error .incomplete)
  else
    let decrypted := tokenDecryptInPlace keys.key (r.buf.take r.transferSize)
    let buf := decrypted.1 ++ r.buf.drop r.transferSize
    match decrypted.2 with
    | .error e => ({ r with buf, state := .corrupt }, .error (.crypto e))
    | .ok n =>
        if n < randomHashSize then ({ r with buf, state := .corrupt }, .error .corrupt)
        else
          let dataLen := n - randomHashSize
          let text := between buf (16 + randomHashSize) (16 + randomHashSize + dataLen)
          if computeResourceHash text r.randomHash ≠ r.resourceHash then
            ({ r with buf, state := .corrupt }, .error .hashMismatch)
          else
            ({ r with
               buf
               proof := computeExpectedProof text r.resourceHash
               dataLen
               state := .assembled }, .ok dataLen)

end

end InboundResource

end ReticulumLite
