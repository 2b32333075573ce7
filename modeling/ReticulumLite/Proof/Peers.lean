import ReticulumLite.Proof.Rotation

/-!
# The table of peer ratchets

On the entries in use, the four loops of the table erase an entry, filter the expired ones, drop the
last and put one first. So a new key is first in the table, the others keep their order, and an
entry that is not expired is lost only when it is the oldest of 32.
-/

namespace ReticulumLite

open Bounded

namespace PeerRatchets

variable {t : PeerRatchets} {destHash : Bytes 16} {ratchet : Bytes 32} {clock : RatchetClock}
  {index : Nat}

/-! ### The entries in use -/

theorem len_le_length (t : PeerRatchets) : t.len ≤ t.entries.length := t.len_le.trans t.size.ge

@[simp] theorem length_live (t : PeerRatchets) : t.live.length = t.len := by
  rw [live, List.length_take, min_eq_left t.len_le_length]

theorem entryAt_eq (hindex : index < t.live.length) : t.entryAt index = t.live[index] := by
  have hlt : index < t.len := by rwa [length_live] at hindex
  have hentry : t.entries[index]? = t.live[index]? := by
    rw [live, List.getElem?_take, if_pos hlt]
  rw [entryAt, List.getD_eq_getElem?_getD, hentry, List.getElem?_eq_getElem hindex, Option.getD_some]

theorem live_remove (hindex : index < t.len) : (t.remove index).live = t.live.eraseIdx index := by
  unfold remove live
  dsimp only
  rw [List.take_set_of_le le_rfl]
  exact take_pullDown hindex t.len_le_length

theorem live_purgeFrom {remaining : Nat} (hremaining : index + remaining = t.len) :
    (purgeFrom clock t index remaining).live =
      t.live.take index ++ (t.live.drop index).filter fun entry => !entry.isExpired clock := by
  induction remaining generalizing t index with
  | zero =>
      have hall : t.live.length ≤ index := by rw [length_live]; omega
      rw [purgeFrom, List.take_of_length_le hall, List.drop_eq_nil_of_le hall, List.filter_nil,
        List.append_nil]
  | succ remaining ih =>
      have hlt : index < t.live.length := by rw [length_live]; omega
      rw [purgeFrom, entryAt_eq hlt, List.drop_eq_getElem_cons hlt]
      cases hexpired : t.live[index].isExpired clock with
      | true =>
          have hlen : index + remaining = (t.remove index).len := by
            show index + remaining = t.len - 1
            omega
          have hkept : (t.live.take index).length = index := List.length_take_of_le hlt.le
          rw [if_pos rfl, ih hlen, live_remove (by omega), List.eraseIdx_eq_take_drop_succ,
            List.take_left' hkept, List.drop_left' hkept,
            List.filter_cons_of_neg (by rw [hexpired]; decide)]
      | false =>
          rw [if_neg Bool.false_ne_true, ih (by omega), List.filter_cons_of_pos (by rw [hexpired]; rfl),
            List.take_succ_eq_append_getElem hlt, List.append_assoc, List.singleton_append]

theorem live_purgeExpired (t : PeerRatchets) (clock : RatchetClock) :
    (t.purgeExpired clock).live = t.live.filter fun entry => !entry.isExpired clock := by
  unfold purgeExpired
  rw [live_purgeFrom (Nat.zero_add _), List.take_zero, List.nil_append, List.drop_zero]

/-- The last one goes when there are as many as the table holds. -/
def roomFor (entries : List PeerRatchet) : List PeerRatchet :=
  if entries.length = peerRatchetsMax then entries.dropLast else entries

theorem live_makeRoom (t : PeerRatchets) : t.makeRoom.live = roomFor t.live := by
  unfold makeRoom roomFor
  rw [length_live]
  by_cases hfull : t.len = peerRatchetsMax
  · rw [if_pos hfull, if_pos hfull, live_remove (by rw [hfull]; decide), ← length_live,
      List.eraseIdx_length_sub_one]
  · rw [if_neg hfull, if_neg hfull]

theorem live_pushFront (hroom : t.len < peerRatchetsMax) (entry : PeerRatchet) :
    (t.pushFront hroom entry).live = entry :: t.live :=
  take_pushUp (hroom.trans_le t.size.ge) entry

section

variable (t destHash ratchet clock)

theorem live_insert :
    (t.insert destHash ratchet clock).live = ⟨destHash, ratchet, clock.anchor.stored⟩ ::
      roomFor (t.live.filter fun entry => !entry.isExpired clock) := by
  unfold insert
  rw [live_pushFront, live_makeRoom, live_purgeExpired]

theorem live_anchorUnknownAges :
    (t.anchorUnknownAges clock).1.live = t.live.map (anchored clock) := by
  unfold anchorUnknownAges
  show (t.live.map (anchored clock) ++ t.entries.drop t.len).take t.len = _
  exact List.take_left' (by rw [List.length_map, length_live])

theorem live_ofEntries {entries : List PeerRatchet} (hentries : entries.length ≤ peerRatchetsMax) :
    (ofEntries entries hentries).live = entries :=
  List.take_left

/-! ### Remembering -/

/-- The destination has this key already, or its entry, if it has one, goes and the new one is put
in. -/
theorem remember_cases :
    (∃ index, ∃ hindex : index < t.live.length, t.live[index].destHash = destHash ∧
        (t.live[index].ratchet = ratchet ∧ t.remember destHash ratchet clock = (t, false) ∨
          t.live[index].ratchet ≠ ratchet ∧ t.remember destHash ratchet clock =
            ((t.remove index).insert destHash ratchet clock, true))) ∨
      (∀ entry ∈ t.live, entry.destHash ≠ destHash) ∧
        t.remember destHash ratchet clock = (t.insert destHash ratchet clock, true) := by
  unfold remember
  cases hfind : (List.range t.len).find? fun index =>
      decide ((t.entryAt index).destHash = destHash) with
  | some index =>
      have hindex : index < t.live.length := by
        rw [length_live]
        exact List.mem_range.mp (List.mem_of_find?_eq_some hfind)
      have hdest : (t.entryAt index).destHash = destHash := by
        have hfound := List.find?_some hfind
        exact of_decide_eq_true hfound
      dsimp only
      rw [entryAt_eq hindex] at hdest ⊢
      refine Or.inl ⟨index, hindex, hdest, ?_⟩
      by_cases hsame : t.live[index].ratchet = ratchet
      · exact Or.inl ⟨hsame, if_pos hsame⟩
      · exact Or.inr ⟨hsame, if_neg hsame⟩
  | none =>
      refine Or.inr ⟨fun entry hentry => ?_, rfl⟩
      obtain ⟨index, hindex, rfl⟩ := List.getElem_of_mem hentry
      have hnot := List.find?_eq_none.mp hfind index
        (List.mem_range.mpr (by rwa [length_live] at hindex))
      rw [entryAt_eq hindex] at hnot
      simpa using hnot

end

theorem mem_roomFor {entries : List PeerRatchet} {entry : PeerRatchet} (hentry : entry ∈ roomFor entries) :
    entry ∈ entries := by
  unfold roomFor at hentry
  split at hentry
  · exact List.mem_of_mem_dropLast hentry
  · exact hentry

theorem mem_live_remember {entry : PeerRatchet}
    (hentry : entry ∈ (t.remember destHash ratchet clock).1.live) :
    entry ∈ t.live ∨ entry = ⟨destHash, ratchet, clock.anchor.stored⟩ := by
  have hinsert : ∀ t' : PeerRatchets, entry ∈ (t'.insert destHash ratchet clock).live →
      entry ∈ t'.live ∨ entry = ⟨destHash, ratchet, clock.anchor.stored⟩ := by
    intro t' hmem
    rw [live_insert] at hmem
    rcases List.mem_cons.mp hmem with heq | hmem
    · exact Or.inr heq
    · exact Or.inl (List.mem_of_mem_filter (mem_roomFor hmem))
  rcases remember_cases t destHash ratchet clock with
    ⟨index, hindex, -, ⟨-, heq⟩ | ⟨-, heq⟩⟩ | ⟨-, heq⟩
  · rw [heq] at hentry
    exact Or.inl hentry
  · rw [heq] at hentry
    rcases hinsert _ hentry with hmem | hnew
    · rw [live_remove (by rwa [length_live] at hindex)] at hmem
      exact Or.inl (List.mem_of_mem_eraseIdx hmem)
    · exact Or.inr hnew
  · rw [heq] at hentry
    exact hinsert t hentry

/-- The other entries that the clock does not prove expired. -/
def others (t : PeerRatchets) (destHash : Bytes 16) (clock : RatchetClock) : List PeerRatchet :=
  t.live.filter fun entry => decide (entry.destHash ≠ destHash) && !entry.isExpired clock

def Distinct (t : PeerRatchets) : Prop := (t.live.map PeerRatchet.destHash).Nodup

theorem remember_of_distinct (hdistinct : t.Distinct) (destHash : Bytes 16) (ratchet : Bytes 32)
    (clock : RatchetClock) :
    (∃ entry ∈ t.live, entry.destHash = destHash ∧ entry.ratchet = ratchet) ∧
        t.remember destHash ratchet clock = (t, false) ∨
      (¬ ∃ entry ∈ t.live, entry.destHash = destHash ∧ entry.ratchet = ratchet) ∧
        (t.remember destHash ratchet clock).2 = true ∧
        (t.remember destHash ratchet clock).1.live =
          ⟨destHash, ratchet, clock.anchor.stored⟩ :: roomFor (t.others destHash clock) := by
  rcases remember_cases t destHash ratchet clock with
    ⟨index, hindex, hdest, ⟨hsame, heq⟩ | ⟨hother, heq⟩⟩ | ⟨hnone, heq⟩
  · exact Or.inl ⟨⟨_, List.getElem_mem hindex, hdest, hsame⟩, heq⟩
  · refine Or.inr ⟨?_, by rw [heq], ?_⟩
    · rintro ⟨entry, hentry, hentryDest, hentryKey⟩
      have hunique : entry = t.live[index] :=
        List.inj_on_of_nodup_map hdistinct hentry (List.getElem_mem hindex)
          (hentryDest.trans hdest.symm)
      rw [hunique] at hentryKey
      exact hother hentryKey
    · rw [heq, live_insert, live_remove (by rwa [length_live] at hindex),
        eraseIdx_eq_filter hdistinct hindex, hdest, List.filter_filter]
      unfold others
      congr 3
      funext entry
      exact Bool.and_comm _ _
  · refine Or.inr ⟨?_, by rw [heq], ?_⟩
    · rintro ⟨entry, hentry, hdest, -⟩
      exact hnone entry hentry hdest
    · rw [heq, live_insert]
      unfold others
      congr 2
      refine List.filter_congr fun entry hentry => ?_
      rw [decide_eq_true (hnone entry hentry), Bool.true_and]

/-! ### Storing and loading -/

def Sound (t : PeerRatchets) : Prop := ∀ entry ∈ t.live, entry.age.Sound

def restart (t : PeerRatchets) : PeerRatchets :=
  ofEntries (t.live.map PeerRatchet.restarted) (by rw [List.length_map, length_live]; exact t.len_le)

theorem live_restart (t : PeerRatchets) : t.restart.live = t.live.map PeerRatchet.restarted :=
  live_ofEntries _

theorem sound_new : new.Sound := fun _ hentry => (List.not_mem_nil hentry).elim

theorem Sound.remember (hsound : t.Sound) (destHash : Bytes 16) (ratchet : Bytes 32)
    (clock : RatchetClock) : (t.remember destHash ratchet clock).1.Sound := by
  intro entry hentry
  rcases mem_live_remember hentry with hold | rfl
  · exact hsound entry hold
  · exact StoredAge.sound_stored clock.anchor

theorem Sound.anchorUnknownAges (hsound : t.Sound) (clock : RatchetClock) :
    (t.anchorUnknownAges clock).1.Sound := by
  intro entry hentry
  rw [live_anchorUnknownAges] at hentry
  obtain ⟨old, hold, rfl⟩ := List.mem_map.mp hentry
  unfold anchored
  split
  · exact hsound old hold
  · exact StoredAge.sound_stored clock.anchor

theorem Sound.loadPersisted (hsound : t.Sound) (blob : List UInt8) :
    (t.loadPersisted blob).1.Sound := by
  unfold PeerRatchets.loadPersisted
  split
  · next hvalid =>
      intro entry hentry
      rw [live_ofEntries] at hentry
      obtain ⟨index, hindex, rfl⟩ := List.mem_map.mp hentry
      exact sound_peerOfBlob hvalid (List.mem_range.mp hindex)
  · exact hsound

theorem Sound.restart (hsound : t.Sound) : t.restart.Sound := by
  intro entry hentry
  rw [live_restart] at hentry
  obtain ⟨old, hold, rfl⟩ := List.mem_map.mp hentry
  exact (hsound old hold).restarted

theorem serializeInto_of_room {out : List UInt8} (hroom : peerBlobLen t.live.length ≤ out.length) :
    t.serializeInto out =
      (peerBlob t.live ++ out.drop (peerBlobLen t.live.length), .ok (peerBlobLen t.live.length)) := by
  rw [length_live] at hroom ⊢
  exact if_neg (not_lt.mpr hroom)

theorem loadPersisted_peerBlob (hsound : t.Sound) (live : PeerRatchets) :
    live.loadPersisted (peerBlob t.live) = (t.restart, .ok ()) := by
  have hbound : t.live.length ≤ peerRatchetsMax := by
    rw [length_live]
    exact t.len_le
  have hentries : (List.range (byteAt (peerBlob t.live) 1).toNat).map (peerOfBlob (peerBlob t.live)) =
      t.live.map PeerRatchet.restarted := by
    rw [byteAt_peerBlob_one hbound]
    apply List.ext_getElem (by simp)
    intro index hindex hlt
    rw [List.length_map] at hlt
    rw [List.getElem_map, List.getElem_range, List.getElem_map, peerOfBlob_peerBlob hlt]
  unfold PeerRatchets.loadPersisted
  rw [dif_pos (validatePeerBlob_peerBlob hbound hsound)]
  simp only [hentries]
  rfl

/-! ### Reachable tables -/

/-- A table that remembering, anchoring and loading what a table wrote can lead to, the number of the
call that put in the entry of each destination, and the number of the next call. -/
inductive Reachable : PeerRatchets → (Bytes 16 → Nat) → Nat → Prop
  | new : Reachable new (fun _ => 0) 0
  | remember {t : PeerRatchets} {inserted : Bytes 16 → Nat} {next : Nat} (destHash : Bytes 16)
      (ratchet : Bytes 32) (clock : RatchetClock) (hreach : Reachable t inserted next) :
      Reachable (t.remember destHash ratchet clock).1
        (if (t.remember destHash ratchet clock).2 then Function.update inserted destHash next
          else inserted) (next + 1)
  | anchorUnknownAges {t : PeerRatchets} {inserted : Bytes 16 → Nat} {next : Nat}
      (clock : RatchetClock) (hreach : Reachable t inserted next) :
      Reachable (t.anchorUnknownAges clock).1 inserted next
  | loadPersisted {t written : PeerRatchets} {inserted inserted' : Bytes 16 → Nat} {next next' : Nat}
      (out : List UInt8) (size : Nat) (hsize : (written.serializeInto out).2 = .ok size)
      (hreach : Reachable t inserted next) (hwritten : Reachable written inserted' next') :
      Reachable (t.loadPersisted ((written.serializeInto out).1.take size)).1 inserted'
        (max next next')

/-- The entries are in the order they were put in, newest first. -/
structure Ordered (t : PeerRatchets) (inserted : Bytes 16 → Nat) (next : Nat) : Prop where
  sound : t.Sound
  newestFirst : t.live.Pairwise fun entry older => inserted older.destHash < inserted entry.destHash
  past : ∀ entry ∈ t.live, inserted entry.destHash < next

variable {inserted : Bytes 16 → Nat} {next : Nat}

theorem Ordered.distinct (hordered : t.Ordered inserted next) : t.Distinct :=
  List.pairwise_map.mpr (hordered.newestFirst.imp fun hlt heq => by rw [heq] at hlt; omega)

theorem others_sublist (t : PeerRatchets) (destHash : Bytes 16) (clock : RatchetClock) :
    (t.others destHash clock).Sublist t.live := List.filter_sublist

theorem roomFor_sublist (entries : List PeerRatchet) : (roomFor entries).Sublist entries := by
  unfold roomFor
  split
  · exact List.dropLast_sublist entries
  · exact List.Sublist.refl entries

theorem mem_others {entry : PeerRatchet} : entry ∈ t.others destHash clock ↔
    entry ∈ t.live ∧ entry.destHash ≠ destHash ∧ ¬ entry.age.age.Outlived clock := by
  unfold others PeerRatchet.isExpired
  rw [List.mem_filter, Bool.and_eq_true, decide_eq_true_eq, Bool.not_eq_true', ← ageExpired_iff,
    Bool.not_eq_true]

theorem Ordered.remember (hordered : t.Ordered inserted next) (destHash : Bytes 16)
    (ratchet : Bytes 32) (clock : RatchetClock) :
    (t.remember destHash ratchet clock).1.Ordered
      (if (t.remember destHash ratchet clock).2 then Function.update inserted destHash next
        else inserted) (next + 1) := by
  have hsound := hordered.sound.remember destHash ratchet clock
  rcases remember_of_distinct hordered.distinct destHash ratchet clock with
    ⟨-, heq⟩ | ⟨-, hchanged, hlive⟩
  · rw [heq, if_neg Bool.false_ne_true]
    exact ⟨hordered.sound, hordered.newestFirst,
      fun entry hentry => (hordered.past entry hentry).trans (Nat.lt_succ_self _)⟩
  · rw [if_pos hchanged]
    have hsublist : (roomFor (t.others destHash clock)).Sublist t.live :=
      (roomFor_sublist _).trans (others_sublist t destHash clock)
    -- the number of an entry that stays is not that of the new one
    have hsame : ∀ entry ∈ roomFor (t.others destHash clock),
        Function.update inserted destHash next entry.destHash = inserted entry.destHash :=
      fun entry hentry => Function.update_of_ne (mem_others.mp (mem_roomFor hentry)).2.1 _ _
    refine ⟨hsound, ?_, ?_⟩
    · rw [hlive, List.pairwise_cons]
      refine ⟨fun entry hentry => ?_, ?_⟩
      · rw [hsame entry hentry, Function.update_self]
        exact hordered.past entry (hsublist.mem hentry)
      · refine (hordered.newestFirst.sublist hsublist).imp_of_mem fun hentry holder hlt => ?_
        rwa [hsame _ hentry, hsame _ holder]
    · rw [hlive, List.forall_mem_cons, Function.update_self]
      refine ⟨Nat.lt_succ_self _, fun entry hentry => ?_⟩
      rw [hsame entry hentry]
      exact (hordered.past entry (hsublist.mem hentry)).trans (Nat.lt_succ_self _)

theorem Ordered.of_map (hordered : t.Ordered inserted next) {t' : PeerRatchets}
    {f : PeerRatchet → PeerRatchet} (hf : ∀ entry, (f entry).destHash = entry.destHash)
    (hlive : t'.live = t.live.map f) (hsound : t'.Sound) : t'.Ordered inserted next := by
  refine ⟨hsound, ?_, ?_⟩
  · rw [hlive, List.pairwise_map]
    simp only [hf]
    exact hordered.newestFirst
  · rw [hlive]
    intro entry hentry
    obtain ⟨old, hold, rfl⟩ := List.mem_map.mp hentry
    rw [hf]
    exact hordered.past old hold

theorem anchored_destHash (clock : RatchetClock) (entry : PeerRatchet) :
    (anchored clock entry).destHash = entry.destHash := by
  unfold anchored
  split <;> rfl

theorem take_serializeInto {out : List UInt8} {size : Nat} (hsize : (t.serializeInto out).2 = .ok size) :
    (t.serializeInto out).1.take size = peerBlob t.live := by
  unfold serializeInto at hsize ⊢
  dsimp only at hsize ⊢
  split at hsize
  · cases hsize
  · next hroom =>
      cases hsize
      rw [if_neg hroom]
      exact List.take_left' (by rw [length_peerBlob, length_live])

theorem Reachable.ordered (hreach : Reachable t inserted next) : t.Ordered inserted next := by
  induction hreach with
  | new => exact ⟨sound_new, List.Pairwise.nil, fun _ hentry => (List.not_mem_nil hentry).elim⟩
  | remember destHash ratchet clock _ ih => exact ih.remember destHash ratchet clock
  | anchorUnknownAges clock _ ih =>
      exact ih.of_map (anchored_destHash clock) (live_anchorUnknownAges _ clock)
        (ih.sound.anchorUnknownAges clock)
  | loadPersisted out size hsize _ _ _ ih =>
      rw [take_serializeInto hsize, loadPersisted_peerBlob ih.sound]
      have hdest : ∀ entry : PeerRatchet, entry.restarted.destHash = entry.destHash := fun _ => rfl
      have hrestart := ih.of_map hdest (live_restart _) ih.sound.restart
      exact ⟨hrestart.sound, hrestart.newestFirst,
        fun entry hentry => (hrestart.past entry hentry).trans_le (le_max_right _ _)⟩

/-! ### What remembering does -/

theorem get_of_live {entry : PeerRatchet} {rest : List PeerRatchet} (hlive : t.live = entry :: rest)
    (hexpired : entry.isExpired clock = false) : t.get entry.destHash clock = some entry.ratchet := by
  unfold get
  rw [hlive, List.findSome?_cons, if_pos ⟨rfl, hexpired⟩]

theorem isExpired_anchor (destHash : Bytes 16) (ratchet : Bytes 32) (clock : RatchetClock) :
    PeerRatchet.isExpired ⟨destHash, ratchet, clock.anchor.stored⟩ clock = false := by
  have hage : clock.anchor.stored.age = clock.anchor := RatchetAge.ofParts_kind_seconds _
  unfold PeerRatchet.isExpired
  rw [hage, not_ageExpired_anchor]

/-- Of others in the order they were put in, a full table loses the oldest. -/
theorem notMem_roomFor_iff {entry : PeerRatchet} (hordered : t.Ordered inserted next)
    (hentry : entry ∈ t.others destHash clock) : entry ∉ roomFor (t.others destHash clock) ↔
      (t.others destHash clock).length = peerRatchetsMax ∧
        ∀ other ∈ t.others destHash clock, inserted entry.destHash ≤ inserted other.destHash := by
  have hsorted := hordered.newestFirst.sublist (others_sublist t destHash clock)
  unfold roomFor
  by_cases hfull : (t.others destHash clock).length = peerRatchetsMax
  · rw [if_pos hfull, notMem_dropLast_iff hsorted hentry]
    exact (and_iff_right hfull).symm
  · rw [if_neg hfull]
    exact iff_of_false (not_not.mpr hentry) fun hlost => hfull hlost.1

/-- In every table that can be reached the destinations differ. The key that is stored for a
destination leaves the table as it is. Any other is put first and found there at once; the entries
before it stay in their order, but for the destination's own, those expired, and the one put in first
when 32 others are left. -/
theorem remembers_newest (hreach : Reachable t inserted next) (destHash : Bytes 16)
    (ratchet : Bytes 32) (clock : RatchetClock) :
    (t.live.map PeerRatchet.destHash).Nodup ∧ t.live.length ≤ 32 ∧
    ((∃ entry ∈ t.live, entry.destHash = destHash ∧ entry.ratchet = ratchet) →
      t.remember destHash ratchet clock = (t, false)) ∧
    ((¬ ∃ entry ∈ t.live, entry.destHash = destHash ∧ entry.ratchet = ratchet) →
      (t.remember destHash ratchet clock).2 = true ∧
      (t.remember destHash ratchet clock).1.get destHash clock = some ratchet ∧
      ∃ survivors, survivors.Sublist t.live ∧
        (t.remember destHash ratchet clock).1.live =
          ⟨destHash, ratchet, clock.anchor.stored⟩ :: survivors ∧
        ∀ entry ∈ t.live, entry ∉ survivors ↔
          entry.destHash = destHash ∨ entry.age.age.Outlived clock ∨
            ((t.others destHash clock).length = 32 ∧ entry ∈ t.others destHash clock ∧
              ∀ other ∈ t.others destHash clock,
                inserted entry.destHash ≤ inserted other.destHash)) := by
  have hordered := hreach.ordered
  refine ⟨hordered.distinct, (length_live t).le.trans t.len_le, fun hstored => ?_, fun hnew => ?_⟩
  · rcases remember_of_distinct hordered.distinct destHash ratchet clock with
      ⟨-, heq⟩ | ⟨hnot, -⟩
    · exact heq
    · exact absurd hstored hnot
  · rcases remember_of_distinct hordered.distinct destHash ratchet clock with
      ⟨hstored, -⟩ | ⟨-, hchanged, hlive⟩
    · exact absurd hstored hnew
    refine ⟨hchanged, get_of_live hlive (isExpired_anchor destHash ratchet clock),
      roomFor (t.others destHash clock),
      (roomFor_sublist _).trans (others_sublist t destHash clock), hlive, fun entry hentry => ?_⟩
    by_cases hother : entry ∈ t.others destHash clock
    · obtain ⟨-, hdest, halive⟩ := mem_others.mp hother
      rw [notMem_roomFor_iff hordered hother]
      simp only [hdest, halive, hother, false_or, true_and]
    · refine iff_of_true (fun hmem => hother (mem_roomFor hmem)) ?_
      have hlost : ¬ (entry.destHash ≠ destHash ∧ ¬ entry.age.age.Outlived clock) :=
        fun hkept => hother (mem_others.mpr ⟨hentry, hkept⟩)
      rw [not_and_or, not_not, not_not] at hlost
      rcases hlost with hdest | hexpired
      · exact Or.inl hdest
      · exact Or.inr (Or.inl hexpired)

private def samplePeer (n : Nat) : Bytes 16 := Bytes.ofNat 16 n

private def sampleRatchet (n : Nat) : Bytes 32 := Bytes.ofNat 32 n

/-- The key of a second peer is found at once; the key of the first again, 31 days on, changes nothing
though it is expired by then. -/
theorem remembers_newest_again :
    ((new.remember (samplePeer 1) (sampleRatchet 1) ⟨none, 0⟩).1.remember (samplePeer 2)
      (sampleRatchet 2) ⟨none, 5⟩).1.get (samplePeer 2) ⟨none, 5⟩ = some (sampleRatchet 2) ∧
    ((new.remember (samplePeer 1) (sampleRatchet 1) ⟨none, 0⟩).1.remember (samplePeer 1)
      (sampleRatchet 1) ⟨none, 2678400⟩) =
        ((new.remember (samplePeer 1) (sampleRatchet 1) ⟨none, 0⟩).1, false) := by
  have hreach := Reachable.remember (samplePeer 1) (sampleRatchet 1) ⟨none, 0⟩ Reachable.new
  have hsecond := remembers_newest hreach (samplePeer 2) (sampleRatchet 2) ⟨none, 5⟩
  have hagain := remembers_newest hreach (samplePeer 1) (sampleRatchet 1) ⟨none, 2678400⟩
  exact ⟨(hsecond.2.2.2 (by decide +kernel)).2.1, hagain.2.2.1 (by decide +kernel)⟩

end PeerRatchets

end ReticulumLite
