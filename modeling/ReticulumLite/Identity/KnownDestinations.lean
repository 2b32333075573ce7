import ReticulumLite.Identity.Announce
import ReticulumLite.Base.Words

/-!
# Known destinations

The keys of delivery destinations seen so far, bounded in number, with the least recently used one
given up for a new one. A stored key never changes: a conflicting key is refused.
-/

namespace ReticulumLite

open Bounded

structure KnownDestination where
  destinationHash : Bytes 16
  publicKey : Bytes 64
  lastSeen : Nat
  deriving DecidableEq

inductive KnownDestinationError
  | emptyCapacity
  | keyConflict
  | outputTooSmall
  | invalidHeader
  | unsupportedVersion
  | countTooLarge
  | invalidLength
  | destinationHashMismatch
  | duplicateDestination
  deriving DecidableEq

/-- The used part of the table. -/
structure KnownDestinations (n : Nat) where
  entries : List KnownDestination
  length_le : entries.length ≤ n
  deriving DecidableEq

namespace KnownDestinations

variable {n : Nat}

def new : KnownDestinations n := ⟨[], Nat.zero_le _⟩

/-- The text `RKD1`. -/
def blobMagic : List UInt8 := [0x52, 0x4b, 0x44, 0x31]
def blobVersion : UInt8 := 1
abbrev blobHeaderLen : Nat := 7
abbrev entryLen : Nat := 16 + 64 + 8

def peek (k : KnownDestinations n) (destinationHash : Bytes 16) : Option (Bytes 64) :=
  (k.entries.find? fun e => e.destinationHash = destinationHash).map (·.publicKey)

def nextRecency (k : KnownDestinations n) : Nat :=
  satAdd ((k.entries.map (·.lastSeen)).foldl max 0) 1

def recallDestination (k : KnownDestinations n) (destinationHash : Bytes 16) :
    KnownDestinations n × Option (Bytes 64) :=
  match k.entries.findIdx? fun e => e.destinationHash = destinationHash with
  | none => (k, none)
  | some index =>
      (⟨k.entries.modify index ({ · with lastSeen := k.nextRecency }), by
          rw [List.length_modify]; exact k.length_le⟩,
        k.entries[index]?.map (·.publicKey))

def oldest (entries : List KnownDestination) : Nat :=
  entries.findIdx fun e => entries.all fun e' => e.lastSeen ≤ e'.lastSeen

variable [Crypto]

def deliveryDestinationHash (publicKey : Bytes 64) : Bytes 16 :=
  destinationHashFromName lxmfDeliveryName (some (identityHash publicKey))

def learn (k : KnownDestinations n) (destinationHash : Bytes 16) (publicKey : Bytes 64)
    (now : Nat) : Except KnownDestinationError (KnownDestinations n × Bool) :=
  if n = 0 then .error .emptyCapacity
  else match k.entries.find? fun e => e.destinationHash = destinationHash with
  | some entry => if entry.publicKey = publicKey then .ok (k, false) else .error .keyConflict
  | none =>
      if deliveryDestinationHash publicKey ≠ destinationHash then .error .destinationHashMismatch
      else
        let entry := { destinationHash, publicKey, lastSeen := max now k.nextRecency }
        if h : k.entries.length < n then
          .ok (⟨k.entries ++ [entry], by rw [List.length_append, List.length_singleton]; omega⟩,
            true)
        else
          .ok (⟨k.entries.set (oldest k.entries) entry, by
            rw [List.length_set]; exact k.length_le⟩, true)

def decodeEntry (blob : List UInt8) (index now : Nat) : KnownDestination :=
  let pos := blobHeaderLen + index * entryLen
  { destinationHash := Bytes.slice 16 blob pos
    publicKey := Bytes.slice 64 blob (pos + 16)
    lastSeen := min (beNat (Bytes.slice 8 blob (pos + 16 + 64)).toList) now }

/-- The checks on one stored entry: it is bound to its key and repeats no earlier one. -/
def checkEntry (blob : List UInt8) (now index : Nat) : Except KnownDestinationError Unit := do
  let entry := decodeEntry blob index now
  refuseIf (deliveryDestinationHash entry.publicKey ≠ entry.destinationHash)
    .destinationHashMismatch
  refuseIf (∃ prior ∈ List.range index,
    (decodeEntry blob prior now).destinationHash = entry.destinationHash) .duplicateDestination

/-- What is checked before a blob replaces the table: the number of its entries. -/
def checkBlob (n : Nat) (blob : List UInt8) (now : Nat) :
    Except KnownDestinationError { count : Nat // count ≤ n } := do
  refuseIf (blob.length < blobHeaderLen ∨ blob.take 4 ≠ blobMagic) .invalidHeader
  refuseIf (byteAt blob 4 ≠ blobVersion) .unsupportedVersion
  let count := beNat [byteAt blob 5, byteAt blob 6]
  if h : count > n then .error .countTooLarge
  else
    refuseIf (blob.length ≠ blobHeaderLen + count * entryLen) .invalidLength
    (List.range count).forM (checkEntry blob now)
    return ⟨count, not_lt.mp h⟩

def «import» (blob : List UInt8) (now : Nat) :
    Except KnownDestinationError (KnownDestinations n) :=
  (checkBlob n blob now).map fun count : { count : Nat // count ≤ n } =>
    ⟨(List.range count).map fun index => decodeEntry blob index now, by
      rw [List.length_map, List.length_range]; exact count.2⟩

/-- Learning cannot fail for a key that derives the destination and agrees with what is known. -/
theorem learn_ok {k : KnownDestinations n} {dest : Bytes 16} {key : Bytes 64} (now : Nat)
    (hn : n ≠ 0) (hknown : ∀ known, k.peek dest = some known → known = key)
    (hbound : deliveryDestinationHash key = dest) : ∃ r, k.learn dest key now = .ok r := by
  unfold learn
  rw [if_neg hn]
  cases hfind : k.entries.find? fun e => e.destinationHash = dest with
  | some entry =>
      have hkey : entry.publicKey = key := hknown _ (by simp [peek, hfind])
      exact ⟨_, if_pos hkey⟩
  | none =>
      simp only [hbound, ne_eq, not_true_eq_false, if_false]
      split <;> exact ⟨_, rfl⟩

end KnownDestinations

end ReticulumLite
