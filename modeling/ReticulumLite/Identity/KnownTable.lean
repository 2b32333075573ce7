import ReticulumLite.Identity.KnownDestinations
import ReticulumLite.Base.Buffers
import ReticulumLite.Base.Records
import ReticulumLite.Base.Runs
import Mathlib.Data.Finset.Max

/-!
# The table of known destinations as it is stored

An array of entries and the number in use, which nothing in the type keeps in agreement. A table
that starts empty and is used by its operations is the list of `KnownDestinations`, which a node is
modelled with, followed by empty entries, and each operation on the array is that on the list.
-/

namespace ReticulumLite

open Bounded

@[ext]
structure KnownTable (n : Nat) where
  entries : List.Vector KnownDestination n
  len : Nat

namespace KnownTable

open KnownDestinations (oldest deliveryDestinationHash decodeEntry checkBlob blobMagic blobVersion
  blobHeaderLen entryLen)

variable {n : Nat}

def emptyEntry : KnownDestination := ⟨Bytes.zero, Bytes.zero, 0⟩

def new : KnownTable n := ⟨List.Vector.replicate n emptyEntry, 0⟩

/-- The slice `entries[..len]`. -/
def used (k : KnownTable n) : List KnownDestination := k.entries.toList.take k.len

def write (entries : List.Vector KnownDestination n) (index : Nat) (entry : KnownDestination) :
    List.Vector KnownDestination n :=
  ⟨entries.toList.set index entry, by rw [List.length_set, List.Vector.toList_length]⟩

def peek (k : KnownTable n) (destinationHash : Bytes 16) : Option (Bytes 64) :=
  (k.used.find? fun e => e.destinationHash = destinationHash).map (·.publicKey)

def nextRecency (k : KnownTable n) : Nat := satAdd ((k.used.map (·.lastSeen)).foldl max 0) 1

def recallDestination (k : KnownTable n) (destinationHash : Bytes 16) :
    KnownTable n × Option (Bytes 64) :=
  match k.used.findIdx? fun e => e.destinationHash = destinationHash with
  | none => (k, none)
  | some index =>
      let entry := k.entries.toList.getD index emptyEntry
      ({ k with entries := write k.entries index { entry with lastSeen := k.nextRecency } },
        some entry.publicKey)

def exportEntry (state : List UInt8 × Nat) (entry : KnownDestination) : List UInt8 × Nat :=
  let pos := state.2
  let out := overwrite state.1 pos entry.destinationHash.toList
  let pos := pos + 16
  let out := overwrite out pos entry.publicKey.toList
  let pos := pos + 64
  let out := overwrite out pos (Bytes.ofNat 8 entry.lastSeen).toList
  (out, pos + 8)

/-- The buffer afterwards and the length of the blob. The count is written as a 16-bit word. -/
def exportInto (k : KnownTable n) (out : List UInt8) :
    List UInt8 × Except KnownDestinationError Nat :=
  let needed := blobHeaderLen + k.len * entryLen
  if out.length < needed then (out, .error .outputTooSmall)
  else
    let out := overwrite out 0 blobMagic
    let out := out.set 4 blobVersion
    let out := overwrite out 5 (Bytes.ofNat 2 k.len).toList
    let state := k.used.foldl exportEntry (out, blobHeaderLen)
    (state.1, .ok state.2)

section

variable [Crypto]

def learn (k : KnownTable n) (destinationHash : Bytes 16) (publicKey : Bytes 64) (now : Nat) :
    KnownTable n × Except KnownDestinationError Bool :=
  if n = 0 then (k, .error .emptyCapacity)
  else match k.used.find? fun e => e.destinationHash = destinationHash with
  | some entry => if entry.publicKey = publicKey then (k, .ok false) else (k, .error .keyConflict)
  | none =>
      if deliveryDestinationHash publicKey ≠ destinationHash then
        (k, .error .destinationHashMismatch)
      else
        let entry := { destinationHash, publicKey, lastSeen := max now k.nextRecency }
        if k.len < n then (⟨write k.entries k.len entry, k.len + 1⟩, .ok true)
        else ({ k with entries := write k.entries (oldest k.used) entry }, .ok true)

def «import» (k : KnownTable n) (blob : List UInt8) (now : Nat) :
    KnownTable n × Except KnownDestinationError Unit :=
  match checkBlob n blob now with
  | .error e => (k, .error e)
  | .ok count =>
      let entries := (List.range count).foldl
        (fun entries index => write entries index (decodeEntry blob index now))
        (List.Vector.replicate n emptyEntry)
      (⟨entries, count⟩, .ok ())

/-! ### Runs -/

inductive Operation
  | learn (destinationHash : Bytes 16) (publicKey : Bytes 64) (now : Nat)
  | recall (destinationHash : Bytes 16)
  | «import» (blob : List UInt8) (now : Nat)

def perform (k : KnownTable n) : Operation → KnownTable n
  | .learn destinationHash publicKey now => (k.learn destinationHash publicKey now).1
  | .recall destinationHash => (k.recallDestination destinationHash).1
  | .«import» blob now => (k.«import» blob now).1

/-- The destination an operation uses: the new one it stores, or the one it recalls. -/
def usedBy (k : KnownTable n) : Operation → Option (Bytes 16)
  | .learn destinationHash publicKey now =>
      if (k.learn destinationHash publicKey now).2 = .ok true then some destinationHash else none
  | .recall destinationHash =>
      if (k.recallDestination destinationHash).2.isSome then some destinationHash else none
  | .«import» _ _ => none

end

def Operation.Timely : Operation → Prop
  | .learn _ _ now => now ≤ u64Max
  | .recall _ => True
  | .«import» _ now => now ≤ u64Max

def Operation.Imports : Operation → Prop
  | .learn _ _ _ => False
  | .recall _ => False
  | .«import» _ _ => True

/-! ### The list a table stores -/

def ofList (l : KnownDestinations n) : KnownTable n where
  entries := ⟨l.entries ++ List.replicate (n - l.entries.length) emptyEntry, by
    rw [List.length_append, List.length_replicate]
    exact Nat.add_sub_cancel' l.length_le⟩
  len := l.entries.length

theorem new_eq_ofList : (new : KnownTable n) = ofList KnownDestinations.new := rfl

section

variable (l : KnownDestinations n) (dest : Bytes 16)

theorem len_ofList : (ofList l).len = l.entries.length := rfl

@[simp] theorem used_ofList : (ofList l).used = l.entries :=
  List.take_left

@[simp] theorem nextRecency_ofList : (ofList l).nextRecency = l.nextRecency := by
  rw [nextRecency, used_ofList, KnownDestinations.nextRecency]

theorem peek_ofList : (ofList l).peek dest = l.peek dest := by
  rw [peek, used_ofList, KnownDestinations.peek]

theorem eq_ofList {k : KnownTable n} {l : KnownDestinations n} (hlen : k.len = l.entries.length)
    (hentries : k.entries.toList =
      l.entries ++ List.replicate (n - l.entries.length) emptyEntry) : k = ofList l :=
  KnownTable.ext (List.Vector.eq _ _ hentries) hlen

theorem write_used {l l' : KnownDestinations n} {index : Nat} {entry : KnownDestination}
    (hindex : index < l.entries.length) (hl' : l'.entries = l.entries.set index entry) :
    ({ ofList l with entries := write (ofList l).entries index entry } : KnownTable n) =
      ofList l' := by
  apply eq_ofList
  · change l.entries.length = l'.entries.length
    rw [hl', List.length_set]
  · change (l.entries ++ List.replicate _ emptyEntry).set index entry = _
    rw [List.set_append_left _ _ hindex, hl', List.length_set]

theorem write_next {l l' : KnownDestinations n} {entry : KnownDestination}
    (hroom : l.entries.length < n) (hl' : l'.entries = l.entries ++ [entry]) :
    (⟨write (ofList l).entries (ofList l).len entry, (ofList l).len + 1⟩ : KnownTable n) =
      ofList l' := by
  apply eq_ofList
  · change l.entries.length + 1 = l'.entries.length
    rw [hl', List.length_append, List.length_singleton]
  · change (l.entries ++ List.replicate (n - l.entries.length) emptyEntry).set
      l.entries.length entry = _
    rw [List.set_append_right _ _ le_rfl, Nat.sub_self, hl', List.length_append,
      List.length_singleton, List.append_assoc, show n - l.entries.length =
        n - (l.entries.length + 1) + 1 by omega, List.replicate_succ]
    rfl

theorem recall_ofList :
    (ofList l).recallDestination dest =
      (ofList (l.recallDestination dest).1, (l.recallDestination dest).2) := by
  unfold recallDestination KnownDestinations.recallDestination
  rw [used_ofList]
  cases hfind : l.entries.findIdx? fun e => decide (e.destinationHash = dest) with
  | none => rfl
  | some index =>
      obtain ⟨hindex, _⟩ := List.findIdx?_eq_some_iff_getElem.mp hfind
      have hget : (ofList l).entries.toList.getD index emptyEntry = l.entries[index] := by
        change (l.entries ++ List.replicate _ emptyEntry).getD index emptyEntry = _
        rw [List.getD_eq_getElem?_getD, List.getElem?_append_left hindex,
          List.getElem?_eq_getElem hindex, Option.getD_some]
      dsimp only
      rw [hget, List.getElem?_eq_getElem hindex, nextRecency_ofList]
      refine Prod.ext (write_used hindex ?_) rfl
      change l.entries.modify index _ = _
      rw [List.modify_eq_set_getElem?, List.getElem?_eq_getElem hindex]
      rfl

end

theorem oldest_lt {entries : List KnownDestination} (h : entries ≠ []) :
    oldest entries < entries.length := by
  obtain ⟨e, he, hleast⟩ := entries.toFinset.exists_min_image (·.lastSeen)
    (List.toFinset_nonempty_iff entries |>.mpr h)
  apply List.findIdx_lt_length_of_exists
  refine ⟨e, List.mem_toFinset.mp he, ?_⟩
  rw [List.all_eq_true]
  intro e' he'
  exact decide_eq_true (hleast e' (List.mem_toFinset.mpr he'))

theorem foldl_write (decode : Nat → KnownDestination) {count : Nat} (hcount : count ≤ n) :
    ((List.range count).foldl (fun entries index => write entries index (decode index))
        (List.Vector.replicate n emptyEntry)).toList =
      (List.range count).map decode ++ List.replicate (n - count) emptyEntry := by
  induction count with
  | zero => rfl
  | succ count ih =>
      rw [List.range_succ, List.foldl_append, List.map_append, List.foldl_cons, List.foldl_nil]
      change List.set _ count (decode count) = _
      have hlength : ((List.range count).map decode).length ≤ count := by simp
      rw [ih (by omega), List.set_append_right _ _ hlength, List.length_map, List.length_range,
        Nat.sub_self, show n - count = n - (count + 1) + 1 by omega, List.replicate_succ,
        List.append_assoc]
      rfl

variable [Crypto]

theorem learn_ofList (l : KnownDestinations n) (dest : Bytes 16) (key : Bytes 64) (now : Nat) :
    (ofList l).learn dest key now =
      match l.learn dest key now with
      | .ok (l', stored) => (ofList l', .ok stored)
      | .error e => (ofList l, .error e) := by
  unfold learn KnownDestinations.learn
  rw [used_ofList, nextRecency_ofList]
  by_cases hn : n = 0
  · rw [if_pos hn, if_pos hn]
  rw [if_neg hn, if_neg hn]
  cases hfind : l.entries.find? fun e => decide (e.destinationHash = dest) with
  | some entry =>
      dsimp only
      split_ifs
      · rfl
      · rfl
  | none =>
      dsimp only
      by_cases hbound : deliveryDestinationHash key ≠ dest
      · rw [if_pos hbound, if_pos hbound]
      rw [if_neg hbound, if_neg hbound]
      by_cases hroom : l.entries.length < n
      · rw [if_pos (show (ofList l).len < n from hroom), dif_pos hroom]
        exact Prod.ext (write_next hroom rfl) rfl
      · have hfull := l.length_le
        have hne : l.entries ≠ [] := by
          intro hempty
          rw [hempty, List.length_nil] at hroom
          omega
        rw [if_neg (show ¬ (ofList l).len < n from hroom), dif_neg hroom]
        exact Prod.ext (write_used (oldest_lt hne) rfl) rfl

theorem import_eq (k : KnownTable n) (blob : List UInt8) (now : Nat) :
    k.«import» blob now =
      match (KnownDestinations.«import» blob now :
        Except KnownDestinationError (KnownDestinations n)) with
      | .ok l => (ofList l, .ok ())
      | .error e => (k, .error e) := by
  unfold «import» KnownDestinations.«import»
  cases checkBlob n blob now with
  | error e => rfl
  | ok count =>
      refine Prod.ext (eq_ofList ?_ ?_) rfl
      · rw [List.length_map, List.length_range]
      · rw [List.length_map, List.length_range]
        exact foldl_write _ count.2

end KnownTable

end ReticulumLite
