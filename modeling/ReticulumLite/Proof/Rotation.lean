import ReticulumLite.Proof.Blobs

/-!
# Rotation keeps the keys

A candidate read back from its blob is the one that was prepared, so a commit of it puts a fresh key
before the old ones or leaves the keys as they are. Whatever the blob, a commit can do no more.
-/

namespace ReticulumLite

open Bounded

/-! ### Blobs -/

section Blob

variable {slots : List RatchetKey}

theorem length_ringBlob (slots : List RatchetKey) :
    (ringBlob slots).length = ringBlobLen slots.length := by
  rw [ringBlob, length_storeBlob, List.length_map]

theorem take_ringBlob (slots : List RatchetKey) (rest : List UInt8) :
    (ringBlob slots ++ rest).take (ringBlobLen slots.length) = ringBlob slots :=
  List.take_left' (length_ringBlob slots)

theorem sound_stored : ∀ slot ∈ slots.map RatchetKey.stored, slot.age.Sound := by
  intro slot hslot
  obtain ⟨key, -, rfl⟩ := List.mem_map.mp hslot
  exact StoredAge.sound_stored key.age

theorem applyBlob_ringBlob (h : slots.length ≤ ratchetRingMax) :
    applyBlob (ringBlob slots) false = slots := by
  rw [applyBlob, ringBlob, storedOfBlob_storeBlob (by rwa [List.length_map]) sound_stored,
    List.map_map, List.map_map]
  refine (List.map_congr_left fun key _ => ?_).trans (List.map_id slots)
  show RatchetKey.mk (.ofParts key.age.kind key.age.seconds) key.key = key
  rw [RatchetAge.ofParts_kind_seconds]

theorem validateRingBlob_ringBlob (h : slots.length ≤ ratchetRingMax) :
    validateRingBlob (ringBlob slots) false = true := by
  rw [ringBlob]
  exact validateRingBlob_storeBlob (by rwa [List.length_map]) sound_stored false

end Blob

/-! ### Ages after a candidate is prepared -/

theorem ageComparable_anchor (clock : RatchetClock) : ageComparable clock.anchor clock = true := by
  obtain ⟨wallSecs, uptimeSecs⟩ := clock
  cases wallSecs <;> simp [RatchetClock.anchor, ageComparable]

theorem not_ageElapsedAtLeast_anchor {interval : Nat} (h : 0 < interval) (clock : RatchetClock) :
    ageElapsedAtLeast clock.anchor clock interval = false := by
  obtain ⟨wallSecs, uptimeSecs⟩ := clock
  cases wallSecs <;> simp [RatchetClock.anchor, ageElapsedAtLeast, h.ne']

theorem not_ageExpired_anchor (clock : RatchetClock) : ageExpired clock.anchor clock = false := by
  obtain ⟨wallSecs, uptimeSecs⟩ := clock
  cases wallSecs <;> simp [RatchetClock.anchor, ageExpired]

theorem ageComparable_effectiveAge (age : RatchetAge) (clock : RatchetClock) :
    ageComparable (effectiveAge age clock) clock = true := by
  unfold effectiveAge
  split
  · next h => exact h
  · exact ageComparable_anchor clock

theorem not_ageElapsedAtLeast_effectiveAge {age : RatchetAge} {clock : RatchetClock} {interval : Nat}
    (hinterval : 0 < interval) (h : ageElapsedAtLeast age clock interval = false) :
    ageElapsedAtLeast (effectiveAge age clock) clock interval = false := by
  unfold effectiveAge
  split
  · exact h
  · exact not_ageElapsedAtLeast_anchor hinterval clock

theorem not_ageExpired_effectiveAge {age : RatchetAge} {clock : RatchetClock}
    (h : ageExpired age clock = false) : ageExpired (effectiveAge age clock) clock = false := by
  unfold effectiveAge
  split
  · exact h
  · exact not_ageExpired_anchor clock

def RatchetAge.Outlived (age : RatchetAge) (clock : RatchetClock) : Prop :=
  (∃ since now, age = .wall since ∧ clock.wallSecs = some now ∧
    since.toNat + ratchetExpirySecs < now.toNat) ∨
  ∃ since, age = .uptime since ∧ since.toNat + ratchetExpirySecs < clock.uptimeSecs.toNat

theorem ageExpired_iff {age : RatchetAge} {clock : RatchetClock} :
    ageExpired age clock = true ↔ age.Outlived clock := by
  constructor
  · intro h
    cases age with
    | unknown => cases h
    | wall since =>
        obtain ⟨now, hnow, hexpired⟩ := (Option.any_eq_true _ _).mp h
        exact .inl ⟨since, now, rfl, hnow, by have := (of_decide_eq_true hexpired).2; omega⟩
    | uptime since => exact .inr ⟨since, rfl, by have := (of_decide_eq_true h).2; omega⟩
  · rintro (⟨since, now, rfl, hnow, hlt⟩ | ⟨since, rfl, hlt⟩)
    · refine (Option.any_eq_true _ _).mpr ⟨now, hnow, decide_eq_true ⟨?_, by omega⟩⟩
      rw [UInt64.le_iff_toNat_le]
      omega
    · refine decide_eq_true ⟨?_, by omega⟩
      rw [UInt64.le_iff_toNat_le]
      omega

/-! ### Candidates -/

def blobKeys (blob : List UInt8) : List (Bytes 32) :=
  (List.range (byteAt blob 1).toNat).map (ringBlobKey blob)

@[simp] theorem length_blobKeys (blob : List UInt8) :
    (blobKeys blob).length = (byteAt blob 1).toNat := by
  simp [blobKeys]

theorem getElem_blobKeys {blob : List UInt8} {index : Nat} (h : index < (blobKeys blob).length) :
    (blobKeys blob)[index] = ringBlobKey blob index := by
  simp [blobKeys]

theorem keys_applyBlob {blob : List UInt8} (h : byteAt blob 0 = ringBlobVersion) :
    (applyBlob blob false).map RatchetKey.key = blobKeys blob := by
  unfold applyBlob storedOfBlob
  dsimp only
  rw [if_neg (by rw [h]; decide), List.map_map, List.map_map]
  rfl

namespace RatchetRing

variable {ring : RatchetRing} {blob : List UInt8} {clock : RatchetClock} {fresh : Bytes 32}

@[simp] theorem length_keys (ring : RatchetRing) : ring.keys.length = ring.len := by
  simp [keys, len]

theorem keyAt_eq {index : Nat} (h : index < ring.keys.length) : ring.keyAt index = ring.keys[index] := by
  rw [keyAt, List.getD_eq_getElem?_getD, List.getElem?_eq_getElem h, Option.getD_some]

theorem blobKeys_eq_keys_iff : blobKeys blob = ring.keys ↔
    (byteAt blob 1).toNat = ring.len ∧
      ∀ index < ring.len, ringBlobKey blob index = ring.keyAt index := by
  constructor
  · intro h
    have hlen : (byteAt blob 1).toNat = ring.len := by rw [← length_blobKeys, h, length_keys]
    refine ⟨hlen, fun index hindex => ?_⟩
    rw [keyAt_eq (by simpa using hindex), ← getElem_blobKeys (by simpa [hlen] using hindex)]
    exact List.getElem_of_eq h _
  · rintro ⟨hlen, hkeys⟩
    apply List.ext_getElem (by rw [length_blobKeys, hlen, length_keys])
    intro index hindex hlt
    rw [getElem_blobKeys, hkeys index (by simpa using hlt), keyAt_eq]

theorem blobKeys_eq_cons_iff : (∃ key, blobKeys blob = (key :: ring.keys).take ratchetRingMax) ↔
    (byteAt blob 1).toNat = min (ring.len + 1) ratchetRingMax ∧
      ∀ index < (byteAt blob 1).toNat,
        index = 0 ∨ ringBlobKey blob index = ring.keyAt (index - 1) := by
  constructor
  · rintro ⟨key, h⟩
    have hlen : (byteAt blob 1).toNat = min (ring.len + 1) ratchetRingMax := by
      rw [← length_blobKeys, h, List.length_take, List.length_cons, length_keys, Nat.min_comm]
    refine ⟨hlen, fun index hindex => ?_⟩
    cases index with
    | zero => exact .inl rfl
    | succ index =>
        have hlt : index < ring.keys.length := by
          rw [length_keys]
          omega
        rw [← getElem_blobKeys (by rwa [length_blobKeys]), List.getElem_of_eq h]
        rw [List.getElem_take, List.getElem_cons_succ, Nat.add_sub_cancel, keyAt_eq hlt]
        exact .inr rfl
  · rintro ⟨hlen, hkeys⟩
    refine ⟨ringBlobKey blob 0, List.ext_getElem ?_ fun index hindex hlt => ?_⟩
    · rw [length_blobKeys, hlen, List.length_take, List.length_cons, length_keys, Nat.min_comm]
    · rw [getElem_blobKeys, List.getElem_take]
      cases index with
      | zero => rfl
      | succ index =>
          rw [length_blobKeys] at hindex
          rcases hkeys _ hindex with hzero | hkey
          · cases hzero
          · rw [hkey, List.getElem_cons_succ, Nat.add_sub_cancel, keyAt_eq]

theorem isValidCandidate_iff : ring.isValidCandidate blob = true ↔
    ring.len ≠ 0 ∧ blobKeys blob = ring.keys ∨
      ∃ key, blobKeys blob = (key :: ring.keys).take ratchetRingMax := by
  by_cases hempty : ring.len = 0
  · have hkeys : ring.keys = [] := List.length_eq_zero_iff.mp ((length_keys ring).trans hempty)
    simp only [isValidCandidate, hempty, if_true, decide_eq_true_eq, ne_eq, not_true_eq_false,
      false_and, false_or, hkeys, ← length_blobKeys]
    exact List.length_eq_one_iff
  · rw [blobKeys_eq_keys_iff, blobKeys_eq_cons_iff]
    simp [isValidCandidate, hempty]

theorem commitPreparedBlob_cases (ring : RatchetRing) (blob : List UInt8) :
    (∃ e, ring.commitPreparedBlob blob = (ring, .error e)) ∨
      ∃ hbound, ring.isValidCandidate blob = true ∧ byteAt blob 0 = ringBlobVersion ∧
        ring.commitPreparedBlob blob = (⟨applyBlob blob false, hbound⟩, .ok ()) := by
  unfold commitPreparedBlob
  split_ifs with hvalid hcandidate
  · exact .inl ⟨_, rfl⟩
  · simp only [not_or, not_not, Bool.not_eq_true', Bool.not_eq_false] at hcandidate
    exact .inr ⟨length_applyBlob_le hvalid false, hcandidate.2, hcandidate.1, rfl⟩
  · exact .inl ⟨_, rfl⟩

theorem commitPreparedBlob_ringBlob {slots : List RatchetKey} (hbound : slots.length ≤ ratchetRingMax)
    (hcandidate : ring.isValidCandidate (ringBlob slots) = true) :
    ring.commitPreparedBlob (ringBlob slots) = (⟨slots, hbound⟩, .ok ()) := by
  unfold commitPreparedBlob
  rw [dif_pos (validateRingBlob_ringBlob hbound), if_neg]
  · simp only [applyBlob_ringBlob hbound]
  · rw [hcandidate]
    simp [ringBlob, storeBlob]

/-! ### What a preparation leads to -/

theorem exists_ends (h : ring.len ≠ 0) :
    ∃ newest oldest, ring.slots.head? = some newest ∧ ring.slots.getLast? = some oldest := by
  have hne : ring.slots ≠ [] := fun hnil => h (by rw [len, hnil]; rfl)
  exact ⟨_, _, List.head?_eq_some_head hne, List.getLast?_eq_some_getLast hne⟩

theorem rotationAction_of_empty (h : ring.len = 0) : ring.rotationAction clock = .rotate := by
  rw [rotationAction, List.length_eq_zero_iff.mp h]
  rfl

section

variable {newest oldest : RatchetKey} (hnewest : ring.slots.head? = some newest)
  (holdest : ring.slots.getLast? = some oldest)

include hnewest holdest

theorem rotationAction_eq :
    ring.rotationAction clock =
      if ageElapsedAtLeast newest.age clock ratchetIntervalSecs = false then
        if ring.needsAnchor clock then .persistMetadata else .unchanged
      else if ring.len < ratchetRingMax ∨ ageExpired oldest.age clock = true then .rotate
      else if ring.needsAnchor clock then .persistMetadata
      else .fullRingProtected := by
  simp only [rotationAction, hnewest, holdest]

/-- With every age comparable, nothing is left to do unless the newest key is due and there is room. -/
theorem rotationAction_of_comparable
    (hcomparable : ∀ slot ∈ ring.slots, ageComparable slot.age clock = true)
    (h : ageElapsedAtLeast newest.age clock ratchetIntervalSecs = true →
      ring.len = ratchetRingMax ∧ ageExpired oldest.age clock = false) :
    ring.rotationAction clock = .unchanged ∨ ring.rotationAction clock = .fullRingProtected := by
  have hanchor : ring.needsAnchor clock = false := by
    simpa [needsAnchor] using hcomparable
  rw [rotationAction_eq hnewest holdest, hanchor]
  cases hdue : ageElapsedAtLeast newest.age clock ratchetIntervalSecs with
  | false => exact .inl rfl
  | true =>
      obtain ⟨hfull, hkept⟩ := h hdue
      rw [hfull, hkept]
      exact .inr rfl

end

theorem comparable_candidate (ring : RatchetRing) (rotating : Bool) (fresh : Bytes 32)
    (clock : RatchetClock) :
    ∀ slot ∈ ring.candidate rotating fresh clock, ageComparable slot.age clock = true := by
  have hkept : ∀ slot ∈ ring.slots.map fun slot => { slot with age := effectiveAge slot.age clock },
      ageComparable slot.age clock = true := by
    intro slot hslot
    obtain ⟨old, _, rfl⟩ := List.mem_map.mp hslot
    exact ageComparable_effectiveAge old.age clock
  intro slot hslot
  unfold candidate at hslot
  cases rotating with
  | false => exact hkept slot hslot
  | true =>
      rcases List.mem_cons.mp (List.mem_of_mem_take hslot) with rfl | hslot
      · exact ageComparable_anchor clock
      · exact hkept slot hslot

theorem length_candidate_le (ring : RatchetRing) (rotating : Bool) (fresh : Bytes 32)
    (clock : RatchetClock) :
    (ring.candidate rotating fresh clock).length ≤ ratchetRingMax := by
  cases rotating with
  | false => simpa [candidate] using ring.bound
  | true => exact (List.length_take_le _ _).trans (Nat.min_le_right _ _)

theorem keys_candidate_keep (ring : RatchetRing) (fresh : Bytes 32) (clock : RatchetClock) :
    (ring.candidate false fresh clock).map RatchetKey.key = ring.keys := by
  simp [candidate, keys]

theorem keys_candidate_rotate (ring : RatchetRing) (fresh : Bytes 32) (clock : RatchetClock) :
    (ring.candidate true fresh clock).map RatchetKey.key =
    (fresh :: ring.keys).take ratchetRingMax := by
  have hkeys : (ring.slots.map fun slot => { slot with age := effectiveAge slot.age clock }).map
      RatchetKey.key = ring.keys := keys_candidate_keep ring fresh clock
  simp only [candidate, if_true, List.map_take, List.map_cons, hkeys]
  rw [List.take_eq_take_iff, List.length_cons, length_keys]
  omega

theorem blobKeys_ringBlob {slots : List RatchetKey} (h : slots.length ≤ ratchetRingMax) :
    blobKeys (ringBlob slots) = slots.map RatchetKey.key := by
  rw [← keys_applyBlob rfl, applyBlob_ringBlob h]

theorem commit_candidate {rotating : Bool} (h : rotating = false → ring.len ≠ 0) :
    ring.commitPreparedBlob (ringBlob (ring.candidate rotating fresh clock)) =
      (⟨ring.candidate rotating fresh clock, length_candidate_le ring rotating fresh clock⟩, .ok ()) := by
  apply commitPreparedBlob_ringBlob
  rw [isValidCandidate_iff, blobKeys_ringBlob (length_candidate_le ring rotating fresh clock)]
  cases rotating with
  | false => exact .inl ⟨h rfl, keys_candidate_keep ring fresh clock⟩
  | true => exact .inr ⟨fresh, keys_candidate_rotate ring fresh clock⟩

theorem settled_of_rotate {hbound : (ring.candidate true fresh clock).length ≤ ratchetRingMax} :
    rotationAction ⟨ring.candidate true fresh clock, hbound⟩ clock = .unchanged ∨
      rotationAction ⟨ring.candidate true fresh clock, hbound⟩ clock = .fullRingProtected := by
  have hhead : (ring.candidate true fresh clock).head? = some ⟨clock.anchor, fresh⟩ := by
    simp [candidate, List.head?_take]
  obtain ⟨oldest, holdest⟩ : ∃ oldest, (ring.candidate true fresh clock).getLast? = some oldest := by
    rw [← Option.isSome_iff_exists, List.getLast?_isSome]
    intro hnil
    rw [hnil] at hhead
    cases hhead
  refine rotationAction_of_comparable hhead holdest (comparable_candidate ring true fresh clock) fun hdue => ?_
  rw [not_ageElapsedAtLeast_anchor (by decide)] at hdue
  cases hdue

theorem len_ne_zero_of_persistMetadata (h : ring.rotationAction clock = .persistMetadata) :
    ring.len ≠ 0 := by
  intro hempty
  rw [rotationAction_of_empty hempty] at h
  cases h

theorem settled_of_persistMetadata (h : ring.rotationAction clock = .persistMetadata)
    {hbound : (ring.candidate false fresh clock).length ≤ ratchetRingMax} :
    rotationAction ⟨ring.candidate false fresh clock, hbound⟩ clock = .unchanged ∨
      rotationAction ⟨ring.candidate false fresh clock, hbound⟩ clock = .fullRingProtected := by
  obtain ⟨newest, oldest, hnewest, holdest⟩ := exists_ends (len_ne_zero_of_persistMetadata h)
  have hhead : (ring.candidate false fresh clock).head? =
      some { newest with age := effectiveAge newest.age clock } := by
    simp [candidate, hnewest]
  have hlast : (ring.candidate false fresh clock).getLast? =
      some { oldest with age := effectiveAge oldest.age clock } := by
    simp [candidate, holdest]
  have hlen : (RatchetRing.mk (ring.candidate false fresh clock) hbound).len = ring.len := by
    simp [candidate, len]
  refine rotationAction_of_comparable hhead hlast (comparable_candidate ring false fresh clock)
    fun hdue => ?_
  -- the newest key was due before, since an age that starts again now is not
  have hwas : ¬ ageElapsedAtLeast newest.age clock ratchetIntervalSecs = false := by
    intro hnot
    rw [not_ageElapsedAtLeast_effectiveAge (by decide) hnot] at hdue
    cases hdue
  rw [rotationAction_eq hnewest holdest, if_neg hwas] at h
  split_ifs at h with hroom
  obtain ⟨hfull, hexpired⟩ := not_or.mp hroom
  rw [hlen]
  exact ⟨le_antisymm ring.bound (not_lt.mp hfull),
    not_ageExpired_effectiveAge (Bool.eq_false_iff.mpr hexpired)⟩

/-- A ring is rotated only when it has room or its oldest key is proved to be expired. -/
theorem outlived_of_rotate (h : ring.rotationAction clock = .rotate) (hfull : ring.len = ratchetRingMax) :
    ∃ oldest, ring.slots.getLast? = some oldest ∧ oldest.age.Outlived clock := by
  have hne : ring.len ≠ 0 := by
    rw [hfull]
    decide
  obtain ⟨newest, oldest, hnewest, holdest⟩ := exists_ends hne
  refine ⟨oldest, holdest, ageExpired_iff.mp ?_⟩
  rw [rotationAction_eq hnewest holdest] at h
  split_ifs at h with _ _ hroom
  · rcases hroom with hroom | hexpired
    · exact absurd hfull hroom.ne
    · exact hexpired

section Prepared

variable [Crypto] {out : List UInt8}

theorem prepareRotationInto_of_room (h : ratchetRingBlobMax ≤ out.length) :
    ∃ preparation, (ring.prepareRotationInto fresh clock out).2 = .ok preparation := by
  have hroom : ∀ rotating, ¬ out.length <
      ringBlobLen (ring.candidate rotating fresh clock).length := by
    intro rotating
    have hle := length_candidate_le ring rotating fresh clock
    simp only [ratchetRingBlobMax, ringBlobLen] at h ⊢
    omega
  unfold prepareRotationInto
  cases ring.rotationAction clock with
  | unchanged => exact ⟨_, rfl⟩
  | fullRingProtected => exact ⟨_, rfl⟩
  | rotate => exact ⟨_, by dsimp only; rw [if_neg (hroom true)]⟩
  | persistMetadata => exact ⟨_, by dsimp only; rw [if_neg (hroom false)]⟩

/-- What is to be written out stands at the front of the output. -/
theorem prepareRotationInto_blob : ∀ {preparation},
    (ring.prepareRotationInto fresh clock out).2 = .ok preparation → match preparation with
    | .rotated blobLen _ => ring.rotationAction clock = .rotate ∧
        (ring.prepareRotationInto fresh clock out).1.take blobLen =
          ringBlob (ring.candidate true fresh clock)
    | .persistMetadata blobLen => ring.rotationAction clock = .persistMetadata ∧
        (ring.prepareRotationInto fresh clock out).1.take blobLen =
          ringBlob (ring.candidate false fresh clock)
    | _ => True := by
  intro preparation h
  unfold prepareRotationInto at h ⊢
  cases haction : ring.rotationAction clock with
  | rotate | persistMetadata =>
      simp only [haction] at h ⊢
      split_ifs at h ⊢
      cases h
      exact ⟨trivial, take_ringBlob _ _⟩
  | _ =>
      simp only [haction] at h
      cases h
      trivial

end Prepared

/-- The keys after one key was put before those of the ring: the last one of a full ring is dropped. -/
def Prepends (ring : RatchetRing) (key : Bytes 32) (keys : List (Bytes 32)) : Prop :=
  ring.len < ratchetRingMax ∧ keys = key :: ring.keys ∨
    ring.len = ratchetRingMax ∧ keys = key :: ring.keys.dropLast

theorem prepends_take (ring : RatchetRing) (key : Bytes 32) :
    ring.Prepends key ((key :: ring.keys).take ratchetRingMax) := by
  rcases lt_or_eq_of_le ring.bound with hroom | hfull
  · exact .inl ⟨hroom, List.take_of_length_le (by rw [List.length_cons, length_keys]; exact hroom)⟩
  · refine .inr ⟨hfull, ?_⟩
    rw [List.dropLast_eq_take, length_keys, len, hfull]
    rfl

/-- A commit, whatever the blob: an error and no change, the same keys, or one key more. -/
theorem commitPreparedBlob_keys (ring : RatchetRing) (blob : List UInt8) :
    (∃ e, ring.commitPreparedBlob blob = (ring, .error e)) ∨
      ∃ ring', ring.commitPreparedBlob blob = (ring', .ok ()) ∧
        (ring'.keys = ring.keys ∨ ∃ key, ring.Prepends key ring'.keys) := by
  rcases commitPreparedBlob_cases ring blob with herror | ⟨hbound, hcandidate, hversion, heq⟩
  · exact .inl herror
  · refine .inr ⟨_, heq, ?_⟩
    have hblob : keys ⟨applyBlob blob false, hbound⟩ = blobKeys blob := keys_applyBlob hversion
    rw [hblob]
    rcases isValidCandidate_iff.mp hcandidate with ⟨_, hkeys⟩ | ⟨key, hkeys⟩
    · exact .inl hkeys
    · exact .inr ⟨key, hkeys ▸ prepends_take ring key⟩

/-- The ring has nothing more to do at this time. -/
def Settled (ring : RatchetRing) (clock : RatchetClock) : Prop :=
  ring.rotationAction clock = .unchanged ∨ ring.rotationAction clock = .fullRingProtected

/-- Whatever the ring and the clock, a rotation that is prepared and committed puts the fresh key before
the old ones, drops the last of them only from a full ring when it is proved to be expired, and settles
the ring; new metadata keeps every key. No blob at all does more to the keys than a rotation could. -/
theorem rotation_keeps_keys [Crypto] (ring : RatchetRing) (fresh : Bytes 32) (clock : RatchetClock)
    (out : List UInt8) :
    (ratchetRingBlobMax ≤ out.length →
      ∃ preparation, (ring.prepareRotationInto fresh clock out).2 = .ok preparation) ∧
    (∀ blobLen publicKey,
      (ring.prepareRotationInto fresh clock out).2 = .ok (.rotated blobLen publicKey) →
      ∃ ring', ring.commitPreparedBlob
          ((ring.prepareRotationInto fresh clock out).1.take blobLen) = (ring', .ok ()) ∧
        ring.Prepends fresh ring'.keys ∧
        (ring.len = ratchetRingMax →
          ∃ oldest, ring.slots.getLast? = some oldest ∧ oldest.age.Outlived clock) ∧
        ring'.Settled clock) ∧
    (∀ blobLen, (ring.prepareRotationInto fresh clock out).2 = .ok (.persistMetadata blobLen) →
      ∃ ring', ring.commitPreparedBlob
          ((ring.prepareRotationInto fresh clock out).1.take blobLen) = (ring', .ok ()) ∧
        ring'.keys = ring.keys ∧ ring'.Settled clock) ∧
    ∀ blob, (∃ e, ring.commitPreparedBlob blob = (ring, .error e)) ∨
      ∃ ring', ring.commitPreparedBlob blob = (ring', .ok ()) ∧
        (ring'.keys = ring.keys ∨ ∃ key, ring.Prepends key ring'.keys) := by
  refine ⟨prepareRotationInto_of_room, ?_, ?_, commitPreparedBlob_keys ring⟩
  · intro blobLen publicKey h
    obtain ⟨haction, hblob⟩ := prepareRotationInto_blob h
    refine ⟨⟨ring.candidate true fresh clock, length_candidate_le ring true fresh clock⟩, ?_, ?_,
      outlived_of_rotate haction, settled_of_rotate⟩
    · rw [hblob, commit_candidate (by simp)]
    · rw [keys, keys_candidate_rotate]
      exact prepends_take ring fresh
  · intro blobLen h
    obtain ⟨haction, hblob⟩ := prepareRotationInto_blob h
    refine ⟨⟨ring.candidate false fresh clock, length_candidate_le ring false fresh clock⟩, ?_,
      keys_candidate_keep ring fresh clock, settled_of_persistMetadata haction⟩
    rw [hblob, commit_candidate fun _ => len_ne_zero_of_persistMetadata haction]

/-- A full ring of keys that are as old as the clock. -/
private def fullRing : RatchetRing :=
  ⟨(List.range 64).map fun i => ⟨.uptime 0, Bytes.ofNat 32 i⟩, by decide⟩

/-- The X25519 key of bytes 0x22, and its public key. -/
private def freshKey : Bytes 32 := List.Vector.replicate 32 0x22

private def freshPublic : Bytes 32 :=
  Bytes.ofNat 32 0x0faa684ed28867b97f4a6a2dee5df8ce974e76b7018e3f22a1c4cf2678570f20

/-- When the oldest key has expired the fresh one takes its place. -/
theorem rotation_keeps_keys_fullRing :
    letI : Crypto := { Crypto.constant with x25519Public := fun _ => freshPublic }
    let prepared := fullRing.prepareRotationInto freshKey ⟨none, 2592001⟩
      (List.replicate ratchetRingBlobMax 0)
    prepared.2 = .ok (.rotated ratchetRingBlobMax freshPublic) ∧
      ∃ ring', fullRing.commitPreparedBlob (prepared.1.take ratchetRingBlobMax) = (ring', .ok ()) ∧
        ring'.keys = freshKey :: (List.range 63).map (Bytes.ofNat 32) := by
  let _ : Crypto := { Crypto.constant with x25519Public := fun _ => freshPublic }
  intro prepared
  have hprepared : prepared.2 = .ok (.rotated ratchetRingBlobMax freshPublic) := by decide +kernel
  obtain ⟨ring', hcommit, hkeys, -⟩ := (rotation_keeps_keys fullRing freshKey ⟨none, 2592001⟩
    (List.replicate ratchetRingBlobMax 0)).2.1 _ _ hprepared
  refine ⟨hprepared, ring', hcommit, ?_⟩
  rcases hkeys with ⟨hroom, _⟩ | ⟨_, hkeys⟩
  · exact absurd hroom (by decide)
  · rw [hkeys]
    decide +kernel

end RatchetRing

end ReticulumLite
