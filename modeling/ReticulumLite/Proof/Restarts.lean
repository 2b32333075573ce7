import ReticulumLite.Base.Runs
import ReticulumLite.Proof.Peers

/-!
# Ratchet stores survive a restart

A store's own check refuses an unknown age that has seconds. None ever does: not in what is read
from a blob of either version, nor in an age taken from a clock. So a store can always be read back,
with the uptimes of the boot that ended turned into unknown ages and all else the same.
-/

namespace ReticulumLite

open Bounded

/-! ### What surviving means -/

/-- A store that is written to a blob and read from one. -/
structure StoreCodec (S E : Type) where
  entries : S → List E
  blobLen : Nat → Nat
  serializeInto : S → List UInt8 → List UInt8 × Except RatchetError Nat
  loadPersisted : S → List UInt8 → S × Except RatchetError Unit
  /-- What a restart makes of one entry. -/
  restarted : E → E

namespace StoreCodec

variable {S E : Type}

/-- With room for it the blob is written; read into any store at all it gives one whose entries are
those written, as a restart leaves them; and that one is read back as itself. -/
def Survives (codec : StoreCodec S E) (s : S) : Prop :=
  ∀ out, codec.blobLen (codec.entries s).length ≤ out.length →
    ∃ blob, blob.length = codec.blobLen (codec.entries s).length ∧
      codec.serializeInto s out = (blob ++ out.drop blob.length, .ok blob.length) ∧
      ∃ restored, codec.entries restored = (codec.entries s).map codec.restarted ∧
        (∀ live, codec.loadPersisted live blob = (restored, .ok ())) ∧
        ∀ out', codec.blobLen (codec.entries restored).length ≤ out'.length →
          ∃ blob', codec.serializeInto restored out' =
              (blob' ++ out'.drop blob'.length, .ok blob'.length) ∧
            ∀ live, codec.loadPersisted live blob' = (restored, .ok ())

/-- A store survives when what it writes is read as the restarted store, which a second restart does
not change. -/
theorem survives_of {codec : StoreCodec S E} {blob : List E → List UInt8} (Sound : S → Prop)
    (restart : S → S)
    (hblob : ∀ s, (blob (codec.entries s)).length = codec.blobLen (codec.entries s).length)
    (hserialize : ∀ s out, codec.blobLen (codec.entries s).length ≤ out.length →
      codec.serializeInto s out = (blob (codec.entries s) ++
        out.drop (codec.blobLen (codec.entries s).length),
        .ok (codec.blobLen (codec.entries s).length)))
    (hload : ∀ s, Sound s → ∀ live,
      codec.loadPersisted live (blob (codec.entries s)) = (restart s, .ok ()))
    (hentries : ∀ s, codec.entries (restart s) = (codec.entries s).map codec.restarted)
    (hsound : ∀ s, Sound s → Sound (restart s)) (hagain : ∀ s, restart (restart s) = restart s)
    {s : S} (hs : Sound s) : codec.Survives s := by
  intro out hout
  refine ⟨blob (codec.entries s), hblob s, ?_, restart s, hentries s, hload s hs, fun out' hout' => ?_⟩
  · rw [hserialize s out hout, hblob]
  · refine ⟨blob (codec.entries (restart s)), ?_, fun live => ?_⟩
    · rw [hserialize _ out' hout', hblob]
    · rw [hload _ (hsound s hs) live, hagain]

end StoreCodec

/-! ### The ring -/

section RingBlob

variable {slots : List StoredKey} {blob : List UInt8} {allowLegacy persisted : Bool} {index : Nat}

theorem bytes_recordOf (hindex : 2 + index * 41 + 41 ≤ blob.length) :
    (recordOf blob index).bytes = (Bytes.slice 41 blob (2 + index * 41)).toList := by
  have htail : (ringBlobSeconds blob index).toList ++ (ringBlobKey blob index).toList =
      (Bytes.slice 40 blob (2 + index * 41 + 1)).toList :=
    Bytes.toList_slice_append (by omega)
  have hhead : blob.drop (2 + index * 41) =
      byteAt blob (2 + index * 41) :: blob.drop (2 + index * 41 + 1) :=
    drop_eq_byteAt_cons (by omega)
  unfold recordOf StoredKey.bytes
  dsimp only
  rw [StoredAge.ofNat_secondsOf, List.cons_append, htail, Bytes.toList_slice (by omega),
    Bytes.toList_slice hindex, hhead, List.take_succ_cons]
  rfl

theorem storeBlob_records (hversion : byteAt blob 0 = ringBlobVersion)
    (hlen : blob.length = ringBlobLen (byteAt blob 1).toNat) :
    storeBlob ((List.range (byteAt blob 1).toNat).map (recordOf blob)) = blob := by
  unfold ringBlobLen at hlen
  have hrest : (blob.drop 2).length = (byteAt blob 1).toNat * 41 := by
    rw [List.length_drop]
    omega
  have hrecords : (List.range (byteAt blob 1).toNat).flatMap (fun index => (recordOf blob index).bytes) =
      blob.drop 2 := by
    refine (List.flatMap_congr fun index hindex => ?_).trans (records_eq hrest)
    have hlt := List.mem_range.mp hindex
    rw [bytes_recordOf (by omega), Bytes.slice_drop]
  unfold storeBlob
  rw [List.flatMap_map, hrecords, List.length_map, List.length_range, UInt8.ofNat_toNat, ← hversion,
    ← drop_eq_byteAt_cons (by omega), ← drop_eq_byteAt_cons (by omega), List.drop_zero]

theorem sound_storedOfBlob (hvalid : validateRingBlob blob allowLegacy = true) :
    ∀ slot ∈ storedOfBlob blob persisted, slot.age.Sound := by
  obtain ⟨-, -, ⟨hversion, -, hrecords⟩ | ⟨hlegacy, -⟩⟩ := validateRingBlob_iff.mp hvalid
  · rw [storedOfBlob_of_version hversion hrecords]
    intro slot hslot
    obtain ⟨index, hindex, rfl⟩ := List.mem_map.mp hslot
    have hsound := StoredAge.sound_of_check (hrecords index (List.mem_range.mp hindex))
    cases persisted with
    | false => exact hsound
    | true => exact hsound.restarted
  · intro slot hslot
    unfold storedOfBlob at hslot
    dsimp only at hslot
    rw [if_pos hlegacy] at hslot
    obtain ⟨index, -, rfl⟩ := List.mem_map.mp hslot
    dsimp only
    split
    · exact StoredAge.sound_stored (.wall _)
    · exact StoredAge.sound_empty

end RingBlob

namespace RingStore

variable {store : RingStore} {blob : List UInt8}

/-- The operations of a ring that change it. A preparation and a serialization only read it, and a
ring made from a blob is a new one that loads it. -/
inductive Operation where
  | loadPersisted (blob : List UInt8)
  | commitPreparedBlob (blob : List UInt8)
  | zeroize

def perform (store : RingStore) : Operation → RingStore
  | .loadPersisted blob => (store.loadPersisted blob).1
  | .commitPreparedBlob blob => (store.commitPreparedBlob blob).1
  | .zeroize => new

def Sound (store : RingStore) : Prop := ∀ slot ∈ store.slots, slot.age.Sound

def restart (store : RingStore) : RingStore :=
  ⟨store.slots.map StoredKey.restarted, by rw [List.length_map]; exact store.bound⟩

theorem sound_new : new.Sound := fun _ hslot => (List.not_mem_nil hslot).elim

theorem Sound.loadPersisted (hsound : store.Sound) (blob : List UInt8) :
    (store.loadPersisted blob).1.Sound := by
  unfold RingStore.loadPersisted
  split
  · next hvalid => exact sound_storedOfBlob hvalid
  · exact hsound

theorem Sound.commitPreparedBlob (hsound : store.Sound) (blob : List UInt8) :
    (store.commitPreparedBlob blob).1.Sound := by
  unfold RingStore.commitPreparedBlob
  split
  · next hvalid =>
      split
      · exact hsound
      · exact sound_storedOfBlob hvalid
  · exact hsound

theorem Sound.perform (hsound : store.Sound) (op : Operation) : (store.perform op).Sound := by
  cases op with
  | loadPersisted blob => exact hsound.loadPersisted blob
  | commitPreparedBlob blob => exact hsound.commitPreparedBlob blob
  | zeroize => exact sound_new

theorem Sound.restart (hsound : store.Sound) : store.restart.Sound := by
  intro restarted hrestarted
  obtain ⟨slot, hslot, rfl⟩ := List.mem_map.mp hrestarted
  exact (hsound slot hslot).restarted

theorem restart_restart (store : RingStore) : store.restart.restart = store.restart := by
  unfold restart
  congr 1
  rw [List.map_map]
  refine List.map_congr_left fun slot _ => ?_
  show StoredKey.mk slot.age.restarted.restarted slot.key = StoredKey.mk slot.age.restarted slot.key
  rw [StoredAge.restarted_restarted]

theorem loadPersisted_storeBlob (hsound : store.Sound) (live : RingStore) :
    live.loadPersisted (storeBlob store.slots) = (store.restart, .ok ()) := by
  unfold RingStore.loadPersisted
  rw [dif_pos (validateRingBlob_storeBlob store.bound hsound true)]
  simp only [storedOfBlob_storeBlob store.bound hsound, if_true]
  rfl

def codec : StoreCodec RingStore StoredKey where
  entries := slots
  blobLen := ringBlobLen
  serializeInto := serializeInto
  loadPersisted := loadPersisted
  restarted := StoredKey.restarted

theorem serializeInto_of_room {out : List UInt8} (hroom : ringBlobLen store.slots.length ≤ out.length) :
    store.serializeInto out = (storeBlob store.slots ++ out.drop (ringBlobLen store.slots.length),
      .ok (ringBlobLen store.slots.length)) :=
  if_neg (not_lt.mpr hroom)

theorem survives_of_sound (hsound : store.Sound) : codec.Survives store :=
  StoreCodec.survives_of Sound restart (fun store => length_storeBlob store.slots)
    (fun _ _ hroom => serializeInto_of_room hroom) (fun _ hsound => loadPersisted_storeBlob hsound)
    (fun _ => rfl) (fun _ hsound => hsound.restart) restart_restart hsound

theorem loadPersisted_of_error {e : RatchetError} (herror : (store.loadPersisted blob).2 = .error e) :
    (store.loadPersisted blob).1 = store := by
  unfold RingStore.loadPersisted at herror ⊢
  split at herror
  · cases herror
  · next hvalid => rw [dif_neg hvalid]

/-- A blob of the present version that holds no uptime is written again as it was read. -/
theorem storeBlob_of_loadPersisted {restored : RingStore}
    (hload : store.loadPersisted blob = (restored, .ok ())) (hversion : byteAt blob 0 = ringBlobVersion)
    (huptime : ∀ index < (byteAt blob 1).toNat, ringBlobKind blob index ≠ ageUptime) :
    storeBlob restored.slots = blob := by
  unfold RingStore.loadPersisted at hload
  split at hload
  · next hvalid =>
      cases hload
      obtain ⟨-, -, ⟨-, hlen, hrecords⟩ | ⟨hlegacy, -⟩⟩ := validateRingBlob_iff.mp hvalid
      · have hslots : storedOfBlob blob true =
            (List.range (byteAt blob 1).toNat).map (recordOf blob) := by
          rw [storedOfBlob_of_version hversion hrecords]
          refine List.map_congr_left fun index hindex => ?_
          have hage : (recordOf blob index).age.restarted = (recordOf blob index).age :=
            if_neg (huptime index (List.mem_range.mp hindex))
          rw [if_pos rfl, StoredKey.restarted, hage]
        dsimp only
        rw [hslots, storeBlob_records hversion hlen]
      · rw [hversion] at hlegacy
        cases hlegacy
  · cases hload

/-! ### The arrays stand for the ring -/

theorem ring_commitPreparedBlob (store : RingStore) (blob : List UInt8) :
    ((store.commitPreparedBlob blob).1.ring, (store.commitPreparedBlob blob).2) =
      store.ring.commitPreparedBlob blob := by
  unfold RingStore.commitPreparedBlob RatchetRing.commitPreparedBlob
  split
  · split
    · rfl
    · rfl
  · rfl

/-- Commits put fresh keys before those of the ring and drop the last ones beyond its capacity,
whatever the blobs: no key is replaced or reordered. -/
theorem keys_shift (blobs : List (List UInt8)) (store : RingStore) : ∃ fresh : List (Bytes 32),
    fresh.length ≤ blobs.length ∧
      (blobs.foldl (fun store blob => (store.commitPreparedBlob blob).1) store).ring.keys =
        (fresh ++ store.ring.keys).take ratchetRingMax := by
  induction blobs generalizing store with
  | nil =>
      refine ⟨[], le_rfl, (List.take_of_length_le ?_).symm⟩
      exact (RatchetRing.length_keys store.ring).trans_le store.ring.bound
  | cons blob blobs ih =>
      obtain ⟨fresh, hfresh, hkeys⟩ := ih (store.commitPreparedBlob blob).1
      have hring := congrArg Prod.fst (ring_commitPreparedBlob store blob)
      simp only at hring
      rw [List.foldl_cons, hkeys, hring]
      rcases store.ring.commitPreparedBlob_keys blob with
        ⟨e, herror⟩ | ⟨ring', hok, hsame | ⟨key, hprepends⟩⟩
      · exact ⟨fresh, Nat.le_succ_of_le hfresh, by rw [herror]⟩
      · exact ⟨fresh, Nat.le_succ_of_le hfresh, by rw [hok, hsame]⟩
      · have hcut : ring'.keys = (key :: store.ring.keys).take ratchetRingMax := by
          rcases hprepends, store.ring.prepends_take key with ⟨⟨_, h⟩ | ⟨_, h⟩, ⟨_, h'⟩ | ⟨_, h'⟩⟩
          all_goals first | exact h.trans h'.symm | omega
        refine ⟨fresh ++ [key], by simpa using hfresh, ?_⟩
        rw [hok, hcut, List.append_assoc, List.take_append, List.take_append, List.take_take,
          min_eq_left (Nat.sub_le _ _)]
        rfl

end RingStore

/-! ### The table of peers -/

namespace PeerRatchets

variable {t : PeerRatchets} {blob : List UInt8}

inductive Operation where
  | remember (destHash : Bytes 16) (ratchet : Bytes 32) (clock : RatchetClock)
  | anchorUnknownAges (clock : RatchetClock)
  | loadPersisted (blob : List UInt8)
  | zeroize

def perform (t : PeerRatchets) : Operation → PeerRatchets
  | .remember destHash ratchet clock => (t.remember destHash ratchet clock).1
  | .anchorUnknownAges clock => (t.anchorUnknownAges clock).1
  | .loadPersisted blob => (t.loadPersisted blob).1
  | .zeroize => new

theorem Sound.perform (hsound : t.Sound) (op : Operation) : (t.perform op).Sound := by
  cases op with
  | remember destHash ratchet clock => exact hsound.remember destHash ratchet clock
  | anchorUnknownAges clock => exact hsound.anchorUnknownAges clock
  | loadPersisted blob => exact hsound.loadPersisted blob
  | zeroize => exact sound_new

theorem restart_restart (t : PeerRatchets) : t.restart.restart = t.restart := by
  have hentries : t.restart.live.map PeerRatchet.restarted = t.live.map PeerRatchet.restarted := by
    rw [live_restart, List.map_map]
    refine List.map_congr_left fun entry _ => ?_
    show { entry with age := entry.age.restarted.restarted } = { entry with age := entry.age.restarted }
    rw [StoredAge.restarted_restarted]
  unfold restart at hentries ⊢
  simp only [hentries]

def codec : StoreCodec PeerRatchets PeerRatchet where
  entries := live
  blobLen := peerBlobLen
  serializeInto := serializeInto
  loadPersisted := loadPersisted
  restarted := PeerRatchet.restarted

theorem survives_of_sound (hsound : t.Sound) : codec.Survives t :=
  StoreCodec.survives_of Sound restart (fun t => length_peerBlob t.live)
    (fun _ _ hroom => serializeInto_of_room hroom) (fun _ hsound => loadPersisted_peerBlob hsound)
    live_restart (fun _ hsound => hsound.restart) restart_restart hsound

theorem loadPersisted_of_error {e : RatchetError} (herror : (t.loadPersisted blob).2 = .error e) :
    (t.loadPersisted blob).1 = t := by
  unfold PeerRatchets.loadPersisted at herror ⊢
  split at herror
  · cases herror
  · next hvalid => rw [dif_neg hvalid]

end PeerRatchets

/-- Whatever was done to them, the two stores are written and read back with nothing lost but the
uptimes, and a second time with no change. A blob that is refused changes nothing, and a ring read from
a blob of the present version without uptimes writes that blob again. -/
theorem stores_survive :
    (∀ ops store, Runs RingStore.perform (fun _ _ => True) .new ops store →
      RingStore.codec.Survives store) ∧
    (∀ ops table, Runs PeerRatchets.perform (fun _ _ => True) .new ops table →
      PeerRatchets.codec.Survives table) ∧
    (∀ (store : RingStore) blob e, (store.loadPersisted blob).2 = .error e →
      (store.loadPersisted blob).1 = store) ∧
    (∀ (table : PeerRatchets) blob e, (table.loadPersisted blob).2 = .error e →
      (table.loadPersisted blob).1 = table) ∧
    (∀ (store : RingStore) blob restored, store.loadPersisted blob = (restored, .ok ()) →
      byteAt blob 0 = ringBlobVersion →
      (∀ index < (byteAt blob 1).toNat, ringBlobKind blob index ≠ ageUptime) →
      ∀ out : List UInt8, blob.length ≤ out.length →
        restored.serializeInto out = (blob ++ out.drop blob.length, .ok blob.length)) := by
  refine ⟨fun ops store hruns => ?_, fun ops table hruns => ?_,
    fun store blob e => RingStore.loadPersisted_of_error,
    fun table blob e => PeerRatchets.loadPersisted_of_error,
    fun store blob restored hload hversion huptime out hout => ?_⟩
  · exact RingStore.survives_of_sound
      (hruns.invariant (fun _ op _ hsound => RingStore.Sound.perform hsound op) RingStore.sound_new)
  · exact PeerRatchets.survives_of_sound
      (hruns.invariant (fun _ op _ hsound => PeerRatchets.Sound.perform hsound op)
        PeerRatchets.sound_new)
  · have hblob := RingStore.storeBlob_of_loadPersisted hload hversion huptime
    have hlen : ringBlobLen restored.slots.length = blob.length := by
      rw [← hblob, length_storeBlob]
    rw [RingStore.serializeInto_of_room (by rwa [hlen]), hblob, hlen]

end ReticulumLite
