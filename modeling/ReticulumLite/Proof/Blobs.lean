import ReticulumLite.Base.Records
import ReticulumLite.Identity.RatchetStores

/-!
# Ages and records of ratchet blobs

The check of a blob refuses an age of no known kind, and an unknown age that has seconds. Ages that
pass stand for an age and hold nothing else, and what was written of them passes the check and is
read back.
-/

namespace ReticulumLite

open Bounded

/-! ### Ages -/

namespace StoredAge

def Sound (stored : StoredAge) : Prop := stored.age.stored = stored

def restarted (stored : StoredAge) : StoredAge := if stored.kind = ageUptime then .empty else stored

variable {stored : StoredAge} {kind : UInt8} {secs : UInt64}

theorem sound_stored (age : RatchetAge) : age.stored.Sound := by
  unfold Sound StoredAge.age RatchetAge.stored
  rw [RatchetAge.ofParts_kind_seconds]

theorem sound_empty : empty.Sound := rfl

theorem sound_of_valid (hkind : ageKindValid kind = true) (hzero : kind = ageUnknown → secs = 0) :
    Sound ⟨kind, secs⟩ := by
  unfold Sound StoredAge.age RatchetAge.stored RatchetAge.ofParts
  rcases of_decide_eq_true hkind with rfl | rfl | rfl
  · rw [hzero rfl]
    rfl
  · rfl
  · rfl

theorem Sound.kind_valid (hsound : stored.Sound) : ageKindValid stored.kind = true := by
  rw [← hsound]
  cases stored.age <;> rfl

theorem Sound.secs_eq_zero (hsound : stored.Sound) (hunknown : stored.kind = ageUnknown) :
    stored.secs = 0 := by
  rw [← hsound] at hunknown ⊢
  cases hage : stored.age with
  | unknown => rfl
  | wall since =>
      rw [hage] at hunknown
      cases hunknown
  | uptime since =>
      rw [hage] at hunknown
      cases hunknown

theorem Sound.restarted (hsound : stored.Sound) : stored.restarted.Sound := by
  unfold StoredAge.restarted
  split
  · exact sound_empty
  · exact hsound

theorem restarted_kind_ne (stored : StoredAge) : stored.restarted.kind ≠ ageUptime := by
  unfold restarted
  split
  · decide
  · next hkind => exact hkind

theorem restarted_restarted (stored : StoredAge) : stored.restarted.restarted = stored.restarted :=
  if_neg (restarted_kind_ne stored)

theorem secondsOf_ofNat (secs : UInt64) : secondsOf (Bytes.ofNat 8 secs.toNat) = secs := by
  unfold secondsOf
  rw [Bytes.beNat_ofNat, Nat.mod_eq_of_lt (by simpa using UInt64.toNat_lt _), UInt64.ofNat_toNat]

theorem ofNat_secondsOf (bytes : Bytes 8) : Bytes.ofNat 8 (secondsOf bytes).toNat = bytes := by
  have hlt : beNat bytes.toList < 2 ^ 64 := Bytes.beNat_lt bytes
  unfold secondsOf
  rw [UInt64.toNat_ofNat', Nat.mod_eq_of_lt hlt, Bytes.ofNat_beNat]

theorem Sound.valid (hsound : stored.Sound) :
    StoredAge.valid stored.kind (Bytes.ofNat 8 stored.secs.toNat) = true := by
  unfold StoredAge.valid
  rw [hsound.kind_valid, Bool.true_and, Bool.not_eq_true', Bool.and_eq_false_iff]
  by_cases hunknown : stored.kind = ageUnknown
  · rw [hsound.secs_eq_zero hunknown]
    exact Or.inr (by decide)
  · exact Or.inl (decide_eq_false hunknown)

theorem sound_of_check {bytes : Bytes 8} (hvalid : StoredAge.valid kind bytes = true) :
    Sound ⟨kind, secondsOf bytes⟩ := by
  unfold StoredAge.valid at hvalid
  rw [Bool.and_eq_true, Bool.not_eq_true', Bool.and_eq_false_iff] at hvalid
  refine sound_of_valid hvalid.1 fun hunknown => ?_
  have hzeros : bytes.toList.any (fun byte => decide (byte ≠ 0)) = false :=
    hvalid.2.resolve_left (by rw [hunknown]; decide)
  have hall : ∀ byte ∈ bytes.toList, byte = 0 := by
    simpa using hzeros
  have hbytes : bytes = Bytes.ofNat 8 0 := by
    apply Bytes.ext_toList
    rw [List.eq_replicate_of_mem hall, Bytes.length_toList]
    rfl
  rw [hbytes]
  rfl

end StoredAge

/-! ### Versions -/

/-- The check of a blob has a bound on its records and one form for each of two versions. -/
theorem versions_iff {len count max : Nat} {version current legacy : UInt8} {whole old : Bool}
    (hversions : current ≠ legacy) :
    (decide (2 ≤ len) && decide (count ≤ max) &&
        if version = current then whole else decide (version = legacy) && old) = true ↔
      2 ≤ len ∧ count ≤ max ∧
        (version = current ∧ whole = true ∨ version = legacy ∧ old = true) := by
  rw [Bool.and_eq_true, Bool.and_eq_true, decide_eq_true_eq, decide_eq_true_eq, and_assoc]
  refine and_congr_right fun _ => and_congr_right fun _ => ?_
  by_cases hversion : version = current
  · simp [hversion, hversions]
  · simp [hversion]

/-! ### Records of the ring -/

@[simp] theorem StoredKey.length_bytes (slot : StoredKey) : slot.bytes.length = 41 := by
  simp [StoredKey.bytes]

def StoredKey.restarted (slot : StoredKey) : StoredKey := { slot with age := slot.age.restarted }

def recordOf (blob : List UInt8) (index : Nat) : StoredKey :=
  ⟨⟨ringBlobKind blob index, secondsOf (ringBlobSeconds blob index)⟩, ringBlobKey blob index⟩

section RingBlob

variable {slots : List StoredKey} {blob : List UInt8} {allowLegacy persisted : Bool} {index : Nat}

theorem length_storeBlob (slots : List StoredKey) :
    (storeBlob slots).length = ringBlobLen slots.length := by
  simp only [storeBlob, List.length_cons, length_records StoredKey.length_bytes, ringBlobLen]
  omega

theorem byteAt_storeBlob_one (hslots : slots.length ≤ ratchetRingMax) :
    (byteAt (storeBlob slots) 1).toNat = slots.length := by
  simp only [storeBlob, byteAt_cons_succ, byteAt_cons_zero, UInt8.toNat_ofNat']
  exact Nat.mod_eq_of_lt (lt_of_le_of_lt hslots (by decide))

theorem drop_storeBlob (hindex : index < slots.length) :
    (storeBlob slots).drop (2 + index * 41) =
      slots[index].bytes ++ (slots.drop (index + 1)).flatMap StoredKey.bytes :=
  drop_table_of_lt StoredKey.length_bytes _ _ hindex

theorem ringBlobKind_storeBlob (hindex : index < slots.length) :
    ringBlobKind (storeBlob slots) index = slots[index].age.kind := by
  have hdrop := byteAt_drop (storeBlob slots) (2 + index * 41) 0
  rw [drop_storeBlob hindex] at hdrop
  exact hdrop.symm

theorem ringBlobSeconds_storeBlob (hindex : index < slots.length) :
    ringBlobSeconds (storeBlob slots) index = Bytes.ofNat 8 slots[index].age.secs.toNat := by
  unfold ringBlobSeconds
  rw [← Bytes.slice_drop, drop_storeBlob hindex, StoredKey.bytes, List.append_assoc, List.cons_append,
    Bytes.slice_cons, Bytes.slice_toList_append]

theorem ringBlobKey_storeBlob (hindex : index < slots.length) :
    ringBlobKey (storeBlob slots) index = slots[index].key := by
  unfold ringBlobKey
  rw [← Bytes.slice_drop, drop_storeBlob hindex, StoredKey.bytes, List.append_assoc, List.cons_append,
    Bytes.slice_cons, Bytes.slice_append_right (by simp)]
  simp only [Bytes.length_toList, Nat.sub_self, Bytes.slice_toList_append]

theorem validateRingBlob_iff : validateRingBlob blob allowLegacy = true ↔
    2 ≤ blob.length ∧ (byteAt blob 1).toNat ≤ ratchetRingMax ∧
      (byteAt blob 0 = ringBlobVersion ∧ blob.length = ringBlobLen (byteAt blob 1).toNat ∧
          (∀ index < (byteAt blob 1).toNat,
            StoredAge.valid (ringBlobKind blob index) (ringBlobSeconds blob index) = true) ∨
        byteAt blob 0 = legacyRingBlobVersion ∧ allowLegacy = true ∧
          blob.length = 10 + (byteAt blob 1).toNat * 32) := by
  unfold validateRingBlob
  dsimp only
  rw [versions_iff (by decide)]
  simp only [Bool.and_eq_true, decide_eq_true_eq, List.all_eq_true, List.mem_range]

theorem validateRingBlob_storeBlob (hslots : slots.length ≤ ratchetRingMax)
    (hsound : ∀ slot ∈ slots, slot.age.Sound) (allowLegacy : Bool) :
    validateRingBlob (storeBlob slots) allowLegacy = true := by
  rw [validateRingBlob_iff, byteAt_storeBlob_one hslots, length_storeBlob]
  refine ⟨by unfold ringBlobLen; omega, hslots, Or.inl ⟨rfl, rfl, fun index hindex => ?_⟩⟩
  rw [ringBlobKind_storeBlob hindex, ringBlobSeconds_storeBlob hindex]
  exact (hsound _ (List.getElem_mem hindex)).valid

theorem recordOf_storeBlob (hindex : index < slots.length) :
    recordOf (storeBlob slots) index = slots[index] := by
  unfold recordOf
  rw [ringBlobKind_storeBlob hindex, ringBlobSeconds_storeBlob hindex, ringBlobKey_storeBlob hindex,
    StoredAge.secondsOf_ofNat]

theorem age_of_check {kind : UInt8} {bytes : Bytes 8} (hvalid : StoredAge.valid kind bytes = true) :
    (⟨kind, if kind = ageUnknown then 0 else secondsOf bytes⟩ : StoredAge) = ⟨kind, secondsOf bytes⟩ := by
  by_cases hunknown : kind = ageUnknown
  · have hzero : secondsOf bytes = 0 := (StoredAge.sound_of_check hvalid).secs_eq_zero hunknown
    rw [if_pos hunknown, hzero]
  · rw [if_neg hunknown]

theorem storedOfBlob_of_version (hversion : byteAt blob 0 = ringBlobVersion)
    (hvalid : ∀ index < (byteAt blob 1).toNat,
      StoredAge.valid (ringBlobKind blob index) (ringBlobSeconds blob index) = true) :
    storedOfBlob blob persisted = (List.range (byteAt blob 1).toNat).map fun index =>
      if persisted then (recordOf blob index).restarted else recordOf blob index := by
  unfold storedOfBlob
  dsimp only
  rw [if_neg (by rw [hversion]; decide)]
  refine List.map_congr_left fun index hindex => ?_
  have hage := age_of_check (hvalid index (List.mem_range.mp hindex))
  cases persisted with
  | false =>
      simp only [Bool.false_eq_true, false_and, if_false]
      rw [hage]
      rfl
  | true =>
      by_cases huptime : ringBlobKind blob index = ageUptime
      · simp only [true_and, huptime, if_true, StoredKey.restarted, StoredAge.restarted, recordOf]
        rfl
      · simp only [true_and, huptime, if_true, if_false, StoredKey.restarted, StoredAge.restarted,
          recordOf]
        rw [hage]

theorem storedOfBlob_storeBlob (hslots : slots.length ≤ ratchetRingMax)
    (hsound : ∀ slot ∈ slots, slot.age.Sound) :
    storedOfBlob (storeBlob slots) persisted =
      slots.map fun slot => if persisted then slot.restarted else slot := by
  have hvalid := validateRingBlob_iff.mp (validateRingBlob_storeBlob hslots hsound false)
  have hrecords := (hvalid.2.2.resolve_right fun hlegacy => Bool.false_ne_true hlegacy.2.1).2.2
  rw [storedOfBlob_of_version rfl hrecords, byteAt_storeBlob_one hslots]
  apply List.ext_getElem (by simp)
  intro index hindex hlt
  rw [List.length_map] at hlt
  simp only [List.getElem_map, List.getElem_range, recordOf_storeBlob hlt]

end RingBlob

/-! ### Records of the table of peers -/

def PeerRatchet.restarted (entry : PeerRatchet) : PeerRatchet :=
  { entry with age := entry.age.restarted }

@[simp] theorem PeerRatchet.length_bytes (entry : PeerRatchet) : entry.bytes.length = 57 := by
  simp [PeerRatchet.bytes]

section PeerBlob

variable {entries : List PeerRatchet} {blob : List UInt8} {index : Nat}

theorem length_peerBlob (entries : List PeerRatchet) :
    (peerBlob entries).length = peerBlobLen entries.length := by
  simp only [peerBlob, List.length_cons, length_records PeerRatchet.length_bytes, peerBlobLen]
  omega

theorem byteAt_peerBlob_one (hentries : entries.length ≤ peerRatchetsMax) :
    (byteAt (peerBlob entries) 1).toNat = entries.length := by
  simp only [peerBlob, byteAt_cons_succ, byteAt_cons_zero, UInt8.toNat_ofNat']
  exact Nat.mod_eq_of_lt (lt_of_le_of_lt hentries (by decide))

section

variable (hindex : index < entries.length)

include hindex

theorem drop_peerBlob :
    (peerBlob entries).drop (2 + index * 57) =
      entries[index].bytes ++ (entries.drop (index + 1)).flatMap PeerRatchet.bytes :=
  drop_table_of_lt PeerRatchet.length_bytes _ _ hindex

theorem dest_peerBlob :
    Bytes.slice 16 (peerBlob entries) (2 + index * 57) = entries[index].destHash := by
  have hdrop := Bytes.slice_drop (n := 16) (peerBlob entries) (2 + index * 57) 0
  rw [drop_peerBlob hindex, PeerRatchet.bytes, List.append_assoc, List.append_assoc,
    Bytes.slice_toList_append] at hdrop
  exact hdrop.symm

theorem ratchet_peerBlob :
    Bytes.slice 32 (peerBlob entries) (2 + index * 57 + 16) = entries[index].ratchet := by
  rw [← Bytes.slice_drop, drop_peerBlob hindex, PeerRatchet.bytes, List.append_assoc,
    List.append_assoc]
  exact Bytes.slice_between (Bytes.length_toList _) _ _

theorem kind_peerBlob :
    byteAt (peerBlob entries) (2 + index * 57 + 48) = entries[index].age.kind := by
  rw [← byteAt_drop, drop_peerBlob hindex, PeerRatchet.bytes, List.append_assoc,
    byteAt_append_right (by simp)]
  simp

theorem seconds_peerBlob :
    Bytes.slice 8 (peerBlob entries) (2 + index * 57 + 49) =
      Bytes.ofNat 8 entries[index].age.secs.toNat := by
  have hhead : (entries[index].destHash.toList ++ entries[index].ratchet.toList ++
      [entries[index].age.kind]).length = 49 := by simp
  have hbytes : entries[index].bytes = (entries[index].destHash.toList ++
      entries[index].ratchet.toList ++ [entries[index].age.kind]) ++
        (Bytes.ofNat 8 entries[index].age.secs.toNat).toList := by
    simp [PeerRatchet.bytes]
  rw [← Bytes.slice_drop, drop_peerBlob hindex, hbytes, List.append_assoc]
  exact Bytes.slice_between hhead _ _

end

theorem validatePeerBlob_iff : validatePeerBlob blob = true ↔
    2 ≤ blob.length ∧ (byteAt blob 1).toNat ≤ peerRatchetsMax ∧
      (byteAt blob 0 = peerBlobVersion ∧ blob.length = peerBlobLen (byteAt blob 1).toNat ∧
          (∀ index < (byteAt blob 1).toNat,
            StoredAge.valid (byteAt blob (2 + index * 57 + 48))
              (Bytes.slice 8 blob (2 + index * 57 + 49)) = true) ∨
        byteAt blob 0 = legacyPeerBlobVersion ∧ blob.length = 2 + (byteAt blob 1).toNat * 56) := by
  unfold validatePeerBlob
  dsimp only
  rw [versions_iff (by decide)]
  simp only [Bool.and_eq_true, decide_eq_true_eq, List.all_eq_true, List.mem_range]

theorem validatePeerBlob_peerBlob (hentries : entries.length ≤ peerRatchetsMax)
    (hsound : ∀ entry ∈ entries, entry.age.Sound) : validatePeerBlob (peerBlob entries) = true := by
  rw [validatePeerBlob_iff, byteAt_peerBlob_one hentries, length_peerBlob]
  refine ⟨by unfold peerBlobLen; omega, hentries, Or.inl ⟨rfl, rfl, fun index hindex => ?_⟩⟩
  rw [kind_peerBlob hindex, seconds_peerBlob hindex]
  exact (hsound _ (List.getElem_mem hindex)).valid

theorem peerOfBlob_peerBlob (hindex : index < entries.length) :
    peerOfBlob (peerBlob entries) index = entries[index].restarted := by
  have hversion : byteAt (peerBlob entries) 0 ≠ legacyPeerBlobVersion := by
    show peerBlobVersion ≠ legacyPeerBlobVersion
    decide
  unfold peerOfBlob
  dsimp only
  rw [if_neg hversion, dest_peerBlob hindex, ratchet_peerBlob hindex, kind_peerBlob hindex,
    seconds_peerBlob hindex, StoredAge.secondsOf_ofNat]
  unfold PeerRatchet.restarted StoredAge.restarted
  by_cases huptime : entries[index].age.kind = ageUptime
  · rw [if_pos huptime, if_pos huptime, if_pos huptime]
    rfl
  · rw [if_neg huptime, if_neg huptime, if_neg huptime]

theorem sound_peerOfBlob (hvalid : validatePeerBlob blob = true)
    (hindex : index < (byteAt blob 1).toNat) : (peerOfBlob blob index).age.Sound := by
  unfold peerOfBlob
  dsimp only
  obtain ⟨-, -, ⟨hversion, -, hrecords⟩ | ⟨hlegacy, -⟩⟩ := validatePeerBlob_iff.mp hvalid
  · have hage := StoredAge.sound_of_check (hrecords index hindex)
    rw [if_neg (by rw [hversion]; decide)]
    by_cases huptime : byteAt blob (2 + index * 57 + 48) = ageUptime
    · simp only [if_pos huptime]
      exact StoredAge.sound_empty
    · simp only [if_neg huptime]
      exact hage
  · rw [if_pos hlegacy]
    by_cases hzero : secondsOf (Bytes.slice 8 blob (2 + index * 56 + 48)) = 0
    · simp only [hzero, if_true]
      exact StoredAge.sound_empty
    · simp only [if_neg hzero]
      exact StoredAge.sound_stored (.wall _)

end PeerBlob

end ReticulumLite
