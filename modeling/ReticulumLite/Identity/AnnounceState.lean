import ReticulumLite.Base.Bytes
import ReticulumLite.Base.Words

/-!
# The ordering value of local announces

A device orders its own announces by a value of forty bits that every relay reads out of the random
hash. The next value is prepared, stored by the host in seven bytes, and only then committed, so
that a value that was used is never forgotten.
-/

namespace ReticulumLite

open Bounded

/-- The largest value the wire field holds. -/
abbrev announceTimeMax : Nat := 2 ^ 40 - 1

abbrev announceWireStateBlobLen : Nat := 7

abbrev announceWireStateVersion : UInt8 := 1

abbrev hasLastValue : UInt8 := 0x01

inductive AnnounceWireError
  | invalidBlob
  | outputTooSmall
  | exhausted
  | staleCandidate
  deriving DecidableEq

structure AnnounceWireState where
  lastValue : Option Nat
  deriving DecidableEq

namespace AnnounceWireState

def new : AnnounceWireState := ⟨none⟩

/-- Plan the next value. A wall time is used as it is, unless it does not exceed the last value; with
no wall time the values count up from zero. -/
def prepareNext (s : AnnounceWireState) (wallSecs : Option Nat) :
    Except AnnounceWireError (Option AnnounceWireState) :=
  match wallSecs with
  | some now =>
      if now > announceTimeMax then .error .exhausted
      else if s.lastValue.any fun last => decide (now ≤ last) then .ok none
      else .ok (some ⟨some now⟩)
  | none =>
      match s.lastValue with
      | none => .ok (some ⟨some 0⟩)
      | some last =>
          match (checkedSucc last).filter fun value => decide (value ≤ announceTimeMax) with
          | none => .error .exhausted
          | some next => .ok (some ⟨some next⟩)

/-- Make a stored candidate the live state; a candidate that does not advance it is refused. -/
def commitPrepared (s prepared : AnnounceWireState) :
    AnnounceWireState × Except AnnounceWireError Nat :=
  match prepared.lastValue with
  | none => (s, .error .staleCandidate)
  | some next =>
      if s.lastValue.any fun last => decide (next ≤ last) then (s, .error .staleCandidate)
      else (⟨some next⟩, .ok next)

def serializeInto (s : AnnounceWireState) (out : List UInt8) :
    List UInt8 × Except AnnounceWireError Nat :=
  if out.length < announceWireStateBlobLen then (out, .error .outputTooSmall)
  else
    let start := [announceWireStateVersion, if s.lastValue.isSome then hasLastValue else 0]
    let value := s.lastValue.getD 0
    if value > announceTimeMax then (start ++ out.drop 2, .error .invalidBlob)
    else (start ++ (Bytes.ofNat 5 value).toList ++ out.drop 7, .ok announceWireStateBlobLen)

def deserialize (blob : List UInt8) : Except AnnounceWireError AnnounceWireState :=
  if blob.length ≠ announceWireStateBlobLen ∨ byteAt blob 0 ≠ announceWireStateVersion ∨
      byteAt blob 1 &&& ~~~ hasLastValue ≠ 0 then .error .invalidBlob
  else
    let value := beNat (Bytes.slice 5 blob 2).toList
    if byteAt blob 1 &&& hasLastValue ≠ 0 then .ok ⟨some value⟩
    else if value ≠ 0 then .error .invalidBlob
    else .ok ⟨none⟩

/-- What is stored of a state: the bytes written to a buffer of the right size. -/
def blob (s : AnnounceWireState) : List UInt8 :=
  (s.serializeInto (List.replicate announceWireStateBlobLen 0)).1

variable {s t : AnnounceWireState}

def Fits (s : AnnounceWireState) : Prop := ∀ value ∈ s.lastValue, value ≤ announceTimeMax

/-- The order of states: no value comes before every value. -/
def Before (s t : AnnounceWireState) : Prop :=
  ∀ value ∈ s.lastValue, ∃ later ∈ t.lastValue, value ≤ later

theorem serializeInto_of_fits (h : s.Fits) :
    s.serializeInto (List.replicate announceWireStateBlobLen 0) =
      ([announceWireStateVersion, if s.lastValue.isSome then hasLastValue else 0] ++
        (Bytes.ofNat 5 (s.lastValue.getD 0)).toList, .ok announceWireStateBlobLen) := by
  have hvalue : ¬ s.lastValue.getD 0 > announceTimeMax := by
    cases hlast : s.lastValue with
    | none => simp
    | some value => exact not_lt.mpr (h value hlast)
  unfold serializeInto
  rw [if_neg (by simp)]
  simp only [hvalue, if_false]
  simp

theorem deserialize_blob (h : s.Fits) : deserialize s.blob = .ok s := by
  have hvalue : s.lastValue.getD 0 < 256 ^ 5 := by
    cases hlast : s.lastValue with
    | none => simp
    | some value =>
        have hle := h value hlast
        simp only [announceTimeMax] at hle
        simp only [Option.getD_some]
        omega
  have hread : beNat (Bytes.slice 5 s.blob 2).toList = s.lastValue.getD 0 := by
    unfold blob
    rw [serializeInto_of_fits h, Bytes.slice_append_right (by simp)]
    simp only [List.length_cons, List.length_nil, Nat.sub_self, Bytes.slice_toList]
    rw [Bytes.beNat_ofNat, Nat.mod_eq_of_lt hvalue]
  unfold deserialize
  simp only [hread]
  unfold blob
  rw [serializeInto_of_fits h]
  cases hlast : s.lastValue with
  | none =>
      obtain ⟨last⟩ := s
      obtain rfl : last = none := hlast
      simp [byteAt]
  | some value =>
      obtain ⟨last⟩ := s
      obtain rfl : last = some value := hlast
      have hflag : hasLastValue ≠ 0 := by decide
      simp [byteAt, hflag]

end AnnounceWireState

end ReticulumLite
