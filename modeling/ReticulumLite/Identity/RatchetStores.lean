import ReticulumLite.Base.Shifts
import ReticulumLite.Identity.Ratchet

/-!
# The ratchet stores as they are kept

Both stores hold an age as a byte for its kind and a number of seconds, and write the two as they
are. The ring of a destination's own keys is that of `Identity.Ratchet` with the ages in this form.
The table of the keys of peers is an array whose first entries are in use, newest first, and are
moved within it.
-/

namespace ReticulumLite

open Bounded

/-! ### The ring -/

/-- The used part of the three arrays. -/
structure RingStore where
  slots : List StoredKey
  bound : slots.length ≤ ratchetRingMax
  deriving DecidableEq

namespace RingStore

def new : RingStore := ⟨[], Nat.zero_le _⟩

def len (store : RingStore) : Nat := store.slots.length

def ring (store : RingStore) : RatchetRing :=
  ⟨store.slots.map fun slot => ⟨slot.age.age, slot.key⟩, by rw [List.length_map]; exact store.bound⟩

/-- Only the keys of the ring decide whether a candidate is valid. -/
def commitPreparedBlob (store : RingStore) (blob : List UInt8) :
    RingStore × Except RatchetError Unit :=
  if h : validateRingBlob blob false then
    if byteAt blob 0 ≠ ringBlobVersion ∨ !store.ring.isValidCandidate blob then
      (store, .error .invalidCandidate)
    else (⟨storedOfBlob blob false, length_storedOfBlob_le h false⟩, .ok ())
  else (store, .error .invalidBlob)

def loadPersisted (store : RingStore) (blob : List UInt8) : RingStore × Except RatchetError Unit :=
  if h : validateRingBlob blob true then
    (⟨storedOfBlob blob true, length_storedOfBlob_le h true⟩, .ok ())
  else (store, .error .invalidBlob)

def serializeInto (store : RingStore) (out : List UInt8) : List UInt8 × Except RatchetError Nat :=
  let need := ringBlobLen store.len
  if out.length < need then (out, .error .outputTooSmall)
  else (storeBlob store.slots ++ out.drop need, .ok need)

def deserialize (blob : List UInt8) : Except RatchetError RingStore :=
  match new.loadPersisted blob with
  | (store, .ok ()) => .ok store
  | (_, .error e) => .error e

end RingStore

/-! ### The table of peers -/

abbrev peerRatchetsMax : Nat := 32

abbrev peerBlobVersion : UInt8 := 2
abbrev legacyPeerBlobVersion : UInt8 := 1

structure PeerRatchet where
  destHash : Bytes 16
  ratchet : Bytes 32
  age : StoredAge
  deriving DecidableEq

namespace PeerRatchet

def empty : PeerRatchet := ⟨Bytes.zero, Bytes.zero, .empty⟩

def isExpired (entry : PeerRatchet) (clock : RatchetClock) : Bool := ageExpired entry.age.age clock

end PeerRatchet

structure PeerRatchets where
  entries : List PeerRatchet
  size : entries.length = peerRatchetsMax
  len : Nat
  len_le : len ≤ peerRatchetsMax
  deriving DecidableEq

namespace PeerRatchets

def new : PeerRatchets := ⟨List.replicate peerRatchetsMax .empty, List.length_replicate, 0, by decide⟩

def live (t : PeerRatchets) : List PeerRatchet := t.entries.take t.len

def entryAt (t : PeerRatchets) (index : Nat) : PeerRatchet := t.entries.getD index .empty

def remove (t : PeerRatchets) (index : Nat) : PeerRatchets where
  entries := (pullDown t.entries index (t.len - 1 - index)).set (t.len - 1) .empty
  size := by rw [List.length_set, length_pullDown, t.size]
  len := t.len - 1
  len_le := (Nat.sub_le _ _).trans t.len_le

/-- The loop from a place on, with the number of entries it still has to look at. -/
def purgeFrom (clock : RatchetClock) (t : PeerRatchets) (index : Nat) : Nat → PeerRatchets
  | 0 => t
  | remaining + 1 =>
      if (t.entryAt index).isExpired clock then purgeFrom clock (t.remove index) index remaining
      else purgeFrom clock t (index + 1) remaining

def purgeExpired (t : PeerRatchets) (clock : RatchetClock) : PeerRatchets :=
  purgeFrom clock t 0 t.len

/-- A full table loses its last entry. -/
def makeRoom (t : PeerRatchets) : PeerRatchets :=
  if t.len = peerRatchetsMax then t.remove (t.len - 1) else t

theorem len_makeRoom_lt (t : PeerRatchets) : t.makeRoom.len < peerRatchetsMax := by
  unfold makeRoom
  split
  · next hfull =>
      show t.len - 1 < peerRatchetsMax
      rw [hfull]
      decide
  · next hroom => exact lt_of_le_of_ne t.len_le hroom

def pushFront (t : PeerRatchets) (hroom : t.len < peerRatchetsMax) (entry : PeerRatchet) :
    PeerRatchets where
  entries := (pushUp t.entries t.len).set 0 entry
  size := by rw [List.length_set, length_pushUp, t.size]
  len := t.len + 1
  len_le := hroom

def insert (t : PeerRatchets) (destHash : Bytes 16) (ratchet : Bytes 32) (clock : RatchetClock) :
    PeerRatchets :=
  (t.purgeExpired clock).makeRoom.pushFront (len_makeRoom_lt _) ⟨destHash, ratchet, clock.anchor.stored⟩

/-- Remember the key of a destination; the answer is whether the table changed. -/
def remember (t : PeerRatchets) (destHash : Bytes 16) (ratchet : Bytes 32) (clock : RatchetClock) :
    PeerRatchets × Bool :=
  match (List.range t.len).find? fun index => decide ((t.entryAt index).destHash = destHash) with
  | some index =>
      if (t.entryAt index).ratchet = ratchet then (t, false)
      else ((t.remove index).insert destHash ratchet clock, true)
  | none => (t.insert destHash ratchet clock, true)

/-- An age that cannot be compared with the clock starts again now. -/
def anchored (clock : RatchetClock) (entry : PeerRatchet) : PeerRatchet :=
  if ageComparable entry.age.age clock then entry else { entry with age := clock.anchor.stored }

def anchorUnknownAges (t : PeerRatchets) (clock : RatchetClock) : PeerRatchets × Bool :=
  ({ t with
      entries := t.live.map (anchored clock) ++ t.entries.drop t.len
      size := by
        rw [List.length_append, List.length_map, ← List.length_append, live, List.take_append_drop,
          t.size] },
    t.live.any fun entry => !ageComparable entry.age.age clock)

def get (t : PeerRatchets) (destHash : Bytes 16) (clock : RatchetClock) : Option (Bytes 32) :=
  t.live.findSome? fun entry =>
    if entry.destHash = destHash ∧ entry.isExpired clock = false then some entry.ratchet else none

end PeerRatchets

/-! ### Blobs of the table -/

def peerBlobLen (len : Nat) : Nat := 2 + len * 57

def PeerRatchet.bytes (entry : PeerRatchet) : List UInt8 :=
  entry.destHash.toList ++ entry.ratchet.toList ++
    entry.age.kind :: (Bytes.ofNat 8 entry.age.secs.toNat).toList

def peerBlob (entries : List PeerRatchet) : List UInt8 :=
  peerBlobVersion :: UInt8.ofNat entries.length :: entries.flatMap PeerRatchet.bytes

/-- The shape of a blob; the only error of this check is an invalid blob. -/
def validatePeerBlob (blob : List UInt8) : Bool :=
  let count := (byteAt blob 1).toNat
  decide (2 ≤ blob.length) && decide (count ≤ peerRatchetsMax) &&
    if byteAt blob 0 = peerBlobVersion then
      decide (blob.length = peerBlobLen count) && (List.range count).all fun index =>
        StoredAge.valid (byteAt blob (2 + index * 57 + 48)) (Bytes.slice 8 blob (2 + index * 57 + 49))
    else decide (byteAt blob 0 = legacyPeerBlobVersion) && decide (blob.length = 2 + count * 56)

/-- One entry of a blob. A blob of the first version has no kinds: no seconds mean that the age is
unknown. -/
def peerOfBlob (blob : List UInt8) (index : Nat) : PeerRatchet :=
  if byteAt blob 0 = legacyPeerBlobVersion then
    let pos := 2 + index * 56
    let seconds := secondsOf (Bytes.slice 8 blob (pos + 48))
    { destHash := Bytes.slice 16 blob pos
      ratchet := Bytes.slice 32 blob (pos + 16)
      age := ⟨if seconds = 0 then ageUnknown else ageWall, seconds⟩ }
  else
    let pos := 2 + index * 57
    let storedKind := byteAt blob (pos + 48)
    let seconds := secondsOf (Bytes.slice 8 blob (pos + 49))
    { destHash := Bytes.slice 16 blob pos
      ratchet := Bytes.slice 32 blob (pos + 16)
      age :=
        ⟨if storedKind = ageUptime then ageUnknown else storedKind,
          if storedKind = ageUptime then 0 else seconds⟩ }

namespace PeerRatchets

def ofEntries (entries : List PeerRatchet) (h : entries.length ≤ peerRatchetsMax) : PeerRatchets where
  entries := entries ++ List.replicate (peerRatchetsMax - entries.length) .empty
  size := by rw [List.length_append, List.length_replicate, Nat.add_sub_cancel' h]
  len := entries.length
  len_le := h

theorem count_le_of_validate {blob : List UInt8} (h : validatePeerBlob blob = true) :
    ((List.range (byteAt blob 1).toNat).map (peerOfBlob blob)).length ≤ peerRatchetsMax := by
  rw [List.length_map, List.length_range]
  simp only [validatePeerBlob, Bool.and_eq_true, decide_eq_true_eq] at h
  exact h.1.2

def serializeInto (t : PeerRatchets) (out : List UInt8) : List UInt8 × Except RatchetError Nat :=
  let need := peerBlobLen t.len
  if out.length < need then (out, .error .outputTooSmall)
  else (peerBlob t.live ++ out.drop need, .ok need)

def loadPersisted (t : PeerRatchets) (blob : List UInt8) : PeerRatchets × Except RatchetError Unit :=
  if h : validatePeerBlob blob then
    (ofEntries ((List.range (byteAt blob 1).toNat).map (peerOfBlob blob)) (count_le_of_validate h),
      .ok ())
  else (t, .error .invalidBlob)

end PeerRatchets

end ReticulumLite
