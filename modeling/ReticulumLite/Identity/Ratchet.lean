import ReticulumLite.Base.Words
import ReticulumLite.Crypto

/-!
# Ratchet keys of a destination

A destination keeps its last private keys, newest first, so that a message encrypted to an older one
can still be read. The age of a key is a wall time, an uptime of the current boot, or not known. A
rotation is prepared as a blob, stored by the host, and then committed from that blob.
-/

namespace ReticulumLite

open Bounded

abbrev ratchetRingMax : Nat := 64
abbrev ratchetIntervalSecs : Nat := 60 * 60 * 12
abbrev ratchetExpirySecs : Nat := 60 * 60 * 24 * 30

def ringBlobLen (len : Nat) : Nat := 2 + len * 41

abbrev ratchetRingBlobMax : Nat := ringBlobLen ratchetRingMax

abbrev ringBlobVersion : UInt8 := 2
abbrev legacyRingBlobVersion : UInt8 := 1

abbrev ageUnknown : UInt8 := 0
abbrev ageWall : UInt8 := 1
abbrev ageUptime : UInt8 := 2

inductive RatchetError
  | invalidBlob
  | outputTooSmall
  | invalidCandidate
  deriving DecidableEq

/-- Wall time, where the host has one, and the uptime of the current boot. -/
structure RatchetClock where
  wallSecs : Option UInt64
  uptimeSecs : UInt64
  deriving DecidableEq

/-! ### Ages -/

/-- An age kind and its seconds. The source keeps them in two arrays; an unknown age has no seconds
there, since every blob that is applied is checked for it. -/
inductive RatchetAge
  | unknown
  | wall (since : UInt64)
  | uptime (since : UInt64)
  deriving DecidableEq

namespace RatchetAge

def kind : RatchetAge → UInt8
  | unknown => ageUnknown
  | wall _ => ageWall
  | uptime _ => ageUptime

def seconds : RatchetAge → UInt64
  | unknown => 0
  | wall since => since
  | uptime since => since

def ofParts (kind : UInt8) (seconds : UInt64) : RatchetAge :=
  if kind = ageWall then wall seconds
  else if kind = ageUptime then uptime seconds
  else unknown

theorem ofParts_kind_seconds (age : RatchetAge) : ofParts age.kind age.seconds = age := by
  cases age <;> rfl

end RatchetAge

namespace RatchetClock

/-- A wall time of zero from the host means that there is none. -/
def fromHost (wallSecs uptimeSecs : UInt64) : RatchetClock :=
  ⟨if wallSecs = 0 then none else some wallSecs, uptimeSecs⟩

def anchor (clock : RatchetClock) : RatchetAge :=
  match clock.wallSecs with
  | some wall => .wall wall
  | none => .uptime clock.uptimeSecs

end RatchetClock

def ageKindValid (kind : UInt8) : Bool :=
  decide (kind = ageUnknown ∨ kind = ageWall ∨ kind = ageUptime)

def ageComparable (age : RatchetAge) (clock : RatchetClock) : Bool :=
  match age with
  | .wall since => clock.wallSecs.any fun now => decide (since ≤ now)
  | .uptime since => decide (since ≤ clock.uptimeSecs)
  | .unknown => false

def ageElapsedAtLeast (age : RatchetAge) (clock : RatchetClock) (interval : Nat) : Bool :=
  match age with
  | .wall since =>
      clock.wallSecs.any fun now => decide (since ≤ now ∧ interval ≤ now.toNat - since.toNat)
  | .uptime since =>
      decide (since ≤ clock.uptimeSecs ∧ interval ≤ clock.uptimeSecs.toNat - since.toNat)
  | .unknown => false

def ageExpired (age : RatchetAge) (clock : RatchetClock) : Bool :=
  match age with
  | .wall since =>
      clock.wallSecs.any fun now =>
        decide (since ≤ now ∧ ratchetExpirySecs < now.toNat - since.toNat)
  | .uptime since =>
      decide (since ≤ clock.uptimeSecs ∧ ratchetExpirySecs < clock.uptimeSecs.toNat - since.toNat)
  | .unknown => false

def effectiveAge (age : RatchetAge) (clock : RatchetClock) : RatchetAge :=
  if ageComparable age clock then age else clock.anchor

/-! ### Stored ages -/

structure StoredAge where
  kind : UInt8
  secs : UInt64
  deriving DecidableEq

namespace StoredAge

def empty : StoredAge := ⟨ageUnknown, 0⟩

/-- The age that the two stand for. A kind that is none of the three is treated as unknown wherever
ages are compared. -/
def age (stored : StoredAge) : RatchetAge := .ofParts stored.kind stored.secs

/-- The check of an age in a blob: a known kind, and no seconds where the age is unknown. -/
def valid (kind : UInt8) (seconds : Bytes 8) : Bool :=
  ageKindValid kind &&
    !(decide (kind = ageUnknown) && seconds.toList.any fun byte => decide (byte ≠ 0))

end StoredAge

def RatchetAge.stored (age : RatchetAge) : StoredAge := ⟨age.kind, age.seconds⟩

def secondsOf (bytes : Bytes 8) : UInt64 := UInt64.ofNat (beNat bytes.toList)

/-! ### The ring -/

inductive RatchetRotationAction
  | unchanged
  | persistMetadata
  | rotate
  | fullRingProtected
  deriving DecidableEq

inductive RatchetPreparation
  | unchanged
  | persistMetadata (blobLen : Nat)
  | rotated (blobLen : Nat) (publicKey : Bytes 32)
  | fullRingProtected
  deriving DecidableEq

structure RatchetKey where
  age : RatchetAge
  key : Bytes 32
  deriving DecidableEq

structure StoredKey where
  age : StoredAge
  key : Bytes 32
  deriving DecidableEq

/-- The used part of the arrays, newest first. -/
structure RatchetRing where
  slots : List RatchetKey
  bound : slots.length ≤ ratchetRingMax

def RatchetKey.stored (slot : RatchetKey) : StoredKey := ⟨slot.age.stored, slot.key⟩

def StoredKey.bytes (slot : StoredKey) : List UInt8 :=
  slot.age.kind :: (Bytes.ofNat 8 slot.age.secs.toNat).toList ++ slot.key.toList

def storeBlob (slots : List StoredKey) : List UInt8 :=
  ringBlobVersion :: UInt8.ofNat slots.length :: slots.flatMap StoredKey.bytes

def ringBlob (slots : List RatchetKey) : List UInt8 := storeBlob (slots.map RatchetKey.stored)

def ringBlobKey (blob : List UInt8) (index : Nat) : Bytes 32 :=
  Bytes.slice 32 blob (2 + index * 41 + 9)

def ringBlobKind (blob : List UInt8) (index : Nat) : UInt8 := byteAt blob (2 + index * 41)

def ringBlobSeconds (blob : List UInt8) (index : Nat) : Bytes 8 :=
  Bytes.slice 8 blob (2 + index * 41 + 1)

/-- The shape of a blob; the only error of this check is an invalid blob. -/
def validateRingBlob (blob : List UInt8) (allowLegacy : Bool) : Bool :=
  let len := (byteAt blob 1).toNat
  decide (2 ≤ blob.length) && decide (len ≤ ratchetRingMax) &&
    if byteAt blob 0 = ringBlobVersion then
      decide (blob.length = ringBlobLen len) && (List.range len).all fun index =>
        StoredAge.valid (ringBlobKind blob index) (ringBlobSeconds blob index)
    else decide (byteAt blob 0 = legacyRingBlobVersion) &&
      (allowLegacy && decide (blob.length = 10 + len * 32))

/-- What a blob puts in the arrays. A blob of the first version has one age, the wall time of the last
rotation. Uptimes that were stored in an earlier boot mean nothing in this one, and the seconds of an
unknown age are not taken over. -/
def storedOfBlob (blob : List UInt8) (persisted : Bool) : List StoredKey :=
  let len := (byteAt blob 1).toNat
  if byteAt blob 0 = legacyRingBlobVersion then
    let lastRotation := secondsOf (Bytes.slice 8 blob 2)
    (List.range len).map fun index =>
      { age := if index = 0 ∧ lastRotation ≠ 0 then ⟨ageWall, lastRotation⟩ else .empty
        key := Bytes.slice 32 blob (10 + index * 32) }
  else
    (List.range len).map fun index =>
      let storedKind := ringBlobKind blob index
      let kind := if persisted ∧ storedKind = ageUptime then ageUnknown else storedKind
      { age := ⟨kind, if kind = ageUnknown then 0 else secondsOf (ringBlobSeconds blob index)⟩
        key := ringBlobKey blob index }

theorem length_storedOfBlob (blob : List UInt8) (persisted : Bool) :
    (storedOfBlob blob persisted).length = (byteAt blob 1).toNat := by
  unfold storedOfBlob
  dsimp only
  split <;> simp

theorem length_storedOfBlob_le {blob : List UInt8} {allowLegacy : Bool}
    (h : validateRingBlob blob allowLegacy = true) (persisted : Bool) :
    (storedOfBlob blob persisted).length ≤ ratchetRingMax := by
  rw [length_storedOfBlob]
  simp only [validateRingBlob, Bool.and_eq_true, decide_eq_true_eq] at h
  exact h.1.2

def applyBlob (blob : List UInt8) (persisted : Bool) : List RatchetKey :=
  (storedOfBlob blob persisted).map fun slot => ⟨slot.age.age, slot.key⟩

theorem length_applyBlob_le {blob : List UInt8} {allowLegacy : Bool}
    (h : validateRingBlob blob allowLegacy = true) (persisted : Bool) :
    (applyBlob blob persisted).length ≤ ratchetRingMax := by
  rw [applyBlob, List.length_map]
  exact length_storedOfBlob_le h persisted

namespace RatchetRing

def keys (ring : RatchetRing) : List (Bytes 32) := ring.slots.map RatchetKey.key

def len (ring : RatchetRing) : Nat := ring.slots.length

/-- Some age cannot be compared with the clock. -/
def needsAnchor (ring : RatchetRing) (clock : RatchetClock) : Bool :=
  ring.slots.any fun slot => !ageComparable slot.age clock

def rotationAction (ring : RatchetRing) (clock : RatchetClock) : RatchetRotationAction :=
  match ring.slots.head?, ring.slots.getLast? with
  | some newest, some oldest =>
      if ageElapsedAtLeast newest.age clock ratchetIntervalSecs = false then
        if ring.needsAnchor clock then .persistMetadata else .unchanged
      else if ring.len < ratchetRingMax ∨ ageExpired oldest.age clock = true then .rotate
      else if ring.needsAnchor clock then .persistMetadata
      else .fullRingProtected
  | _, _ => .rotate

/-- The slots of a candidate: every age that cannot be compared starts again now, and a rotation puts a
fresh key first. -/
def candidate (ring : RatchetRing) (rotating : Bool) (fresh : Bytes 32) (clock : RatchetClock) :
    List RatchetKey :=
  let kept := ring.slots.map fun slot => { slot with age := effectiveAge slot.age clock }
  if rotating then (⟨clock.anchor, fresh⟩ :: kept).take (min (ring.len + 1) ratchetRingMax) else kept

/-- Prepare a candidate in a buffer. The ring is only read. -/
def prepareRotationInto [Crypto] (ring : RatchetRing) (freshPrivate : Bytes 32)
    (clock : RatchetClock) (out : List UInt8) : List UInt8 × Except RatchetError RatchetPreparation :=
  match ring.rotationAction clock with
  | .unchanged => (out, .ok .unchanged)
  | .fullRingProtected => (out, .ok .fullRingProtected)
  | .rotate =>
      let candidate := ring.candidate true freshPrivate clock
      let need := ringBlobLen candidate.length
      if out.length < need then (out, .error .outputTooSmall)
      else (ringBlob candidate ++ out.drop need,
        .ok (.rotated need (Crypto.x25519Public freshPrivate)))
  | .persistMetadata =>
      let candidate := ring.candidate false freshPrivate clock
      let need := ringBlobLen candidate.length
      if out.length < need then (out, .error .outputTooSmall)
      else (ringBlob candidate ++ out.drop need, .ok (.persistMetadata need))

def keyAt (ring : RatchetRing) (index : Nat) : Bytes 32 := ring.keys.getD index Bytes.zero

/-- The blob repeats the keys of the ring, or repeats them after one more. -/
def isValidCandidate (ring : RatchetRing) (blob : List UInt8) : Bool :=
  let candidateLen := (byteAt blob 1).toNat
  if ring.len = 0 then decide (candidateLen = 1)
  else
    decide (candidateLen = ring.len) &&
      ((List.range ring.len).all fun index => decide (ringBlobKey blob index = ring.keyAt index)) ||
    decide (candidateLen = min (ring.len + 1) ratchetRingMax) &&
      (List.range candidateLen).all fun index =>
        decide (index = 0 ∨ ringBlobKey blob index = ring.keyAt (index - 1))

def commitPreparedBlob (ring : RatchetRing) (blob : List UInt8) :
    RatchetRing × Except RatchetError Unit :=
  if h : validateRingBlob blob false then
    if byteAt blob 0 ≠ ringBlobVersion ∨ !ring.isValidCandidate blob then
      (ring, .error .invalidCandidate)
    else (⟨applyBlob blob false, length_applyBlob_le h false⟩, .ok ())
  else (ring, .error .invalidBlob)

end RatchetRing

end ReticulumLite
