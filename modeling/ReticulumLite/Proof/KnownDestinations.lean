import ReticulumLite.Identity.KnownTable
import Mathlib.Data.List.Fold
import Mathlib.Data.List.MinMax

/-!
# The store of known destinations

Learning and recalling change one entry at a time, and importing replaces all of them after every
check has passed, so a table that started empty holds each destination once and bound to its key.
Such a table passes the checks of its own export.
-/

namespace ReticulumLite

open Bounded

namespace KnownDestinations

variable {n : Nat}

/-! ### Recencies -/

theorem lastSeen_le_newest {entries : List KnownDestination} {e : KnownDestination}
    (he : e ∈ entries) : e.lastSeen ≤ (entries.map (·.lastSeen)).foldl max 0 := by
  rw [List.foldl_eq_foldr]
  exact List.le_max_of_le' 0 (List.mem_map_of_mem he) le_rfl

theorem lastSeen_lt_nextRecency {l : KnownDestinations n}
    (hspare : ∀ e ∈ l.entries, e.lastSeen < u64Max) {e : KnownDestination} (he : e ∈ l.entries) :
    e.lastSeen < l.nextRecency := by
  have hnewest : (l.entries.map (·.lastSeen)).foldl max 0 ≤ u64Max - 1 := by
    rw [List.foldl_eq_foldr]
    apply List.max_le_of_forall_le
    intro recency hrecency
    obtain ⟨e', he', rfl⟩ := List.mem_map.mp hrecency
    have hlt := hspare e' he'
    omega
  have hpos : 0 < u64Max := by decide
  exact lt_of_le_of_lt (lastSeen_le_newest he) (lt_satAdd (by omega) Nat.zero_lt_one)

/-! ### The use of one destination -/

theorem place_unique {entries : List KnownDestination}
    (hdistinct : (entries.map (·.destinationHash)).Nodup) {i j : Nat} (hi : i < entries.length)
    (hj : j < entries.length)
    (hsame : entries[i].destinationHash = entries[j].destinationHash) : i = j := by
  have hi' : i < (entries.map (·.destinationHash)).length := by rwa [List.length_map]
  have hj' : j < (entries.map (·.destinationHash)).length := by rwa [List.length_map]
  have heq : (entries.map (·.destinationHash))[i] = (entries.map (·.destinationHash))[j] := by
    rw [List.getElem_map, List.getElem_map]
    exact hsame
  exact hdistinct.getElem_inj_iff.mp heq

/-- A destination was used: it has the entry given and no other, which is written last. The other
destinations keep their entries, or lose them. -/
structure Uses (l l' : KnownDestinations n) (entry : KnownDestination) : Prop where
  mem : ∀ e ∈ l'.entries, e = entry ∨ e ∈ l.entries ∧ e.destinationHash ≠ entry.destinationHash
  distinct : (l.entries.map (·.destinationHash)).Nodup → (l'.entries.map (·.destinationHash)).Nodup
  key : ∀ e ∈ l.entries, e.destinationHash = entry.destinationHash → e.publicKey = entry.publicKey
  later : l.nextRecency ≤ entry.lastSeen

theorem Uses.of_set {l l' : KnownDestinations n} {index : Nat} {entry : KnownDestination}
    (hindex : index < l.entries.length) (hl' : l'.entries = l.entries.set index entry)
    (hothers : ∀ j (hj : j < l.entries.length), j ≠ index →
      l.entries[j].destinationHash ≠ entry.destinationHash)
    (hkey : l.entries[index].destinationHash = entry.destinationHash →
      l.entries[index].publicKey = entry.publicKey)
    (hlater : l.nextRecency ≤ entry.lastSeen) : Uses l l' entry where
  mem e he := by
    rw [hl'] at he
    obtain ⟨j, hj, rfl⟩ := List.mem_iff_getElem.mp he
    rw [List.length_set] at hj
    rw [List.getElem_set]
    split_ifs with hplace
    · exact .inl rfl
    · exact .inr ⟨List.getElem_mem hj, hothers j hj (Ne.symm hplace)⟩
  distinct hnodup := by
    rw [hl', List.map_set]
    by_cases hsame : l.entries[index].destinationHash = entry.destinationHash
    · have hplace : index < (l.entries.map (·.destinationHash)).length := by
        rwa [List.length_map]
      have hget : (l.entries.map (·.destinationHash))[index] = entry.destinationHash := by
        rw [List.getElem_map, hsame]
      rw [← hget, List.set_getElem_self]
      exact hnodup
    · refine hnodup.set ?_
      intro hmem
      obtain ⟨e, he, hdest⟩ := List.mem_map.mp hmem
      obtain ⟨j, hj, rfl⟩ := List.mem_iff_getElem.mp he
      by_cases hplace : j = index
      · exact hsame (by simpa only [hplace] using hdest)
      · exact hothers j hj hplace hdest
  key e he hdest := by
    obtain ⟨j, hj, rfl⟩ := List.mem_iff_getElem.mp he
    by_cases hplace : j = index
    · subst hplace
      exact hkey hdest
    · exact absurd hdest (hothers j hj hplace)
  later := hlater

theorem Uses.of_append {l l' : KnownDestinations n} {entry : KnownDestination}
    (hl' : l'.entries = l.entries ++ [entry])
    (hnew : ∀ e ∈ l.entries, e.destinationHash ≠ entry.destinationHash)
    (hlater : l.nextRecency ≤ entry.lastSeen) : Uses l l' entry where
  mem e he := by
    rw [hl', List.mem_append, List.mem_singleton] at he
    rcases he with he | rfl
    · exact .inr ⟨he, hnew e he⟩
    · exact .inl rfl
  distinct hnodup := by
    rw [hl', List.map_append, List.map_singleton]
    refine hnodup.append (List.nodup_singleton _) ?_
    rw [List.disjoint_singleton]
    intro hmem
    obtain ⟨e, he, hdest⟩ := List.mem_map.mp hmem
    exact hnew e he hdest
  key e he hdest := absurd hdest (hnew e he)
  later := hlater

theorem recall_cases (l : KnownDestinations n) (dest : Bytes 16) :
    l.recallDestination dest = (l, none) ∨
      ∃ l' e, e ∈ l.entries ∧ e.destinationHash = dest ∧
        l.recallDestination dest = (l', some e.publicKey) ∧
        ((l.entries.map (·.destinationHash)).Nodup →
          Uses l l' { e with lastSeen := l.nextRecency }) := by
  unfold recallDestination
  cases hfind : l.entries.findIdx? fun e => decide (e.destinationHash = dest) with
  | none => exact .inl rfl
  | some index =>
      obtain ⟨hindex, hdest, _⟩ := List.findIdx?_eq_some_iff_getElem.mp hfind
      have hdest : l.entries[index].destinationHash = dest := of_decide_eq_true hdest
      right
      dsimp only
      rw [List.getElem?_eq_getElem hindex]
      refine ⟨_, l.entries[index], List.getElem_mem hindex, hdest, rfl, ?_⟩
      intro hnodup
      refine Uses.of_set hindex ?_ ?_ (fun _ => rfl) le_rfl
      · change l.entries.modify index _ = _
        rw [List.modify_eq_set_getElem?, List.getElem?_eq_getElem hindex]
        rfl
      · intro j hj hplace hsame
        exact hplace (place_unique hnodup hj hindex hsame)

variable {l l' : KnownDestinations n} {entry : KnownDestination}

theorem peek_eq_some (hdistinct : (l.entries.map (·.destinationHash)).Nodup) {dest : Bytes 16}
    {key : Bytes 64} : l.peek dest = some key ↔
      ∃ e ∈ l.entries, e.destinationHash = dest ∧ e.publicKey = key := by
  rw [peek, Option.map_eq_some_iff]
  constructor
  · rintro ⟨e, hfind, hkey⟩
    exact ⟨e, List.mem_of_find?_eq_some hfind, by simpa using List.find?_some hfind, hkey⟩
  · rintro ⟨e, he, hdest, hkey⟩
    refine ⟨e, ?_, hkey⟩
    have hsome : (l.entries.find? fun e => decide (e.destinationHash = dest)).isSome :=
      List.find?_isSome.mpr ⟨e, he, decide_eq_true hdest⟩
    obtain ⟨e', hfind⟩ := Option.isSome_iff_exists.mp hsome
    have hdest' : e'.destinationHash = dest := by simpa using List.find?_some hfind
    rw [hfind, List.inj_on_of_nodup_map hdistinct (List.mem_of_find?_eq_some hfind) he
      (hdest'.trans hdest.symm)]

theorem Uses.peek_eq (h : Uses l l' entry) (hl : (l.entries.map (·.destinationHash)).Nodup)
    {dest : Bytes 16} (hbefore : (l.peek dest).isSome) (hafter : (l'.peek dest).isSome) :
    l'.peek dest = l.peek dest := by
  obtain ⟨key, hkey⟩ := Option.isSome_iff_exists.mp hbefore
  obtain ⟨key', hkey'⟩ := Option.isSome_iff_exists.mp hafter
  rw [hkey, hkey']
  obtain ⟨e, he, hdest, rfl⟩ := (peek_eq_some hl).mp hkey
  obtain ⟨e', he', hdest', rfl⟩ := (peek_eq_some (h.distinct hl)).mp hkey'
  rcases h.mem e' he' with rfl | ⟨hmem, _⟩
  · rw [h.key e he (hdest.trans hdest'.symm)]
  · have hsame := (peek_eq_some hl).mpr ⟨e', hmem, hdest', rfl⟩
    exact hsame.symm.trans hkey

variable [Crypto]

theorem learn_cases (l : KnownDestinations n) (dest : Bytes 16) (key : Bytes 64) (now : Nat) :
    (∃ e, l.learn dest key now = .error e) ∨ l.learn dest key now = .ok (l, false) ∨
      ∃ l' entry, entry.destinationHash = dest ∧ entry.publicKey = key ∧
        entry.lastSeen = max now l.nextRecency ∧ dest = deliveryDestinationHash key ∧
        l.learn dest key now = .ok (l', true) ∧ Uses l l' entry ∧
        (l.entries.length = n → l.entries ≠ [] ∧
          l'.entries = l.entries.set (oldest l.entries) entry) := by
  unfold learn
  by_cases hn : n = 0
  · exact .inl ⟨_, if_pos hn⟩
  rw [if_neg hn]
  cases hfind : l.entries.find? fun e => decide (e.destinationHash = dest) with
  | some entry =>
      dsimp only
      split_ifs
      · exact .inr (.inl rfl)
      · exact .inl ⟨_, rfl⟩
  | none =>
      have hnew : ∀ e ∈ l.entries, e.destinationHash ≠ dest := by
        intro e he
        simpa using List.find?_eq_none.mp hfind e he
      dsimp only
      by_cases hbound : deliveryDestinationHash key ≠ dest
      · exact .inl ⟨_, if_pos hbound⟩
      rw [if_neg hbound]
      right
      right
      have hlater := le_max_right now l.nextRecency
      by_cases hroom : l.entries.length < n
      · rw [dif_pos hroom]
        refine ⟨_, ⟨dest, key, max now l.nextRecency⟩, rfl, rfl, rfl, (not_not.mp hbound).symm, rfl,
          Uses.of_append rfl hnew hlater, fun hfull => absurd hroom (by omega)⟩
      · rw [dif_neg hroom]
        have hne : l.entries ≠ [] := by
          intro hempty
          rw [hempty, List.length_nil] at hroom
          omega
        refine ⟨_, ⟨dest, key, max now l.nextRecency⟩, rfl, rfl, rfl, (not_not.mp hbound).symm, rfl,
          Uses.of_set (KnownTable.oldest_lt hne) rfl ?_ ?_ hlater, fun _ => ⟨hne, rfl⟩⟩
        · intro j hj _
          exact hnew _ (List.getElem_mem hj)
        · intro hsame
          exact absurd hsame (hnew _ (List.getElem_mem _))

/-- Each destination once, bound to its key, with a recency that fits a word. -/
structure Sound (l : KnownDestinations n) : Prop where
  distinct : (l.entries.map (·.destinationHash)).Nodup
  bound : ∀ e ∈ l.entries, e.destinationHash = deliveryDestinationHash e.publicKey
  word : ∀ e ∈ l.entries, e.lastSeen ≤ u64Max

theorem sound_new : (new : KnownDestinations n).Sound where
  distinct := List.nodup_nil
  bound _ he := absurd he List.not_mem_nil
  word _ he := absurd he List.not_mem_nil

theorem Uses.sound (h : Uses l l' entry) (hl : l.Sound)
    (hbound : entry.destinationHash = deliveryDestinationHash entry.publicKey)
    (hword : entry.lastSeen ≤ u64Max) : l'.Sound where
  distinct := h.distinct hl.distinct
  bound e he := by
    rcases h.mem e he with rfl | ⟨hmem, _⟩
    · exact hbound
    · exact hl.bound e hmem
  word e he := by
    rcases h.mem e he with rfl | ⟨hmem, _⟩
    · exact hword
    · exact hl.word e hmem

theorem checkBlob_eq_ok {blob : List UInt8} {now : Nat} {count : { count : Nat // count ≤ n }}
    (h : checkBlob n blob now = .ok count) : ∀ index < count.val,
      (decodeEntry blob index now).destinationHash =
          deliveryDestinationHash (decodeEntry blob index now).publicKey ∧
        ∀ prior < index, (decodeEntry blob prior now).destinationHash ≠
          (decodeEntry blob index now).destinationHash := by
  unfold checkBlob at h
  obtain ⟨_, _, h⟩ := bind_eq_ok.mp h
  obtain ⟨_, _, h⟩ := bind_eq_ok.mp h
  dsimp only at h
  split_ifs at h
  obtain ⟨_, _, h⟩ := bind_eq_ok.mp h
  obtain ⟨_, hchecks, h⟩ := bind_eq_ok.mp h
  obtain rfl := pure_eq_ok.mp h
  intro index hindex
  have hentry := forM_eq_ok.mp hchecks index (List.mem_range.mpr hindex)
  unfold checkEntry at hentry
  obtain ⟨_, hbound, hprior⟩ := bind_eq_ok.mp hentry
  refine ⟨(not_not.mp (refuseIf_eq_ok.mp hbound)).symm, ?_⟩
  intro prior hlt hsame
  exact refuseIf_eq_ok.mp hprior ⟨prior, List.mem_range.mpr hlt, hsame⟩

theorem import_sound {blob : List UInt8} {now : Nat} (hnow : now ≤ u64Max)
    (h : KnownDestinations.«import» blob now = .ok l) : l.Sound := by
  unfold «import» at h
  cases hcheck : checkBlob n blob now with
  | error e =>
      rw [hcheck] at h
      cases h
  | ok count =>
      rw [hcheck] at h
      obtain rfl := Except.ok.inj h
      have hentries := checkBlob_eq_ok hcheck
      have hmem : ∀ e ∈ (List.range count).map (fun index => decodeEntry blob index now),
          ∃ index < count.val, decodeEntry blob index now = e := by
        intro e he
        obtain ⟨index, hindex, hentry⟩ := List.mem_map.mp he
        exact ⟨index, List.mem_range.mp hindex, hentry⟩
      constructor
      · rw [List.map_map, List.Nodup, List.pairwise_map]
        refine List.pairwise_lt_range.imp_of_mem ?_
        intro prior index _ hindex hlt
        exact (hentries index (List.mem_range.mp hindex)).2 prior hlt
      · intro e he
        obtain ⟨index, hindex, rfl⟩ := hmem e he
        exact (hentries index hindex).1
      · intro e he
        obtain ⟨index, _, rfl⟩ := hmem e he
        exact (min_le_right _ _).trans hnow

end KnownDestinations

namespace KnownTable

open KnownDestinations (Uses Sound deliveryDestinationHash blobMagic blobVersion blobHeaderLen
  entryLen decodeEntry checkEntry checkBlob)

variable {n : Nat}

/-! ### One operation -/

section

variable [Crypto] {k : KnownTable n}

theorem learn_error {dest : Bytes 16} {key : Bytes 64} {now : Nat} {e : KnownDestinationError}
    (h : (k.learn dest key now).2 = .error e) : (k.learn dest key now).1 = k := by
  unfold learn at h ⊢
  cases hfind : k.used.find? fun e => decide (e.destinationHash = dest) with
  | _ =>
      rw [hfind] at h
      dsimp only at h ⊢
      split_ifs at h ⊢
      · rfl
      · rfl

theorem import_error {blob : List UInt8} {now : Nat} {e : KnownDestinationError}
    (h : (k.«import» blob now).2 = .error e) : (k.«import» blob now).1 = k := by
  rw [import_eq] at h ⊢
  split at h
  · cases h
  · rfl

theorem perform_cases {l : KnownDestinations n} (hl : l.Sound) {op : Operation}
    (hop : ¬ op.Imports) :
    (usedBy (ofList l) op = none ∧ perform (ofList l) op = ofList l) ∨
      ∃ l' entry, usedBy (ofList l) op = some entry.destinationHash ∧
        perform (ofList l) op = ofList l' ∧ Uses l l' entry ∧
        entry.destinationHash = deliveryDestinationHash entry.publicKey ∧
        (op.Timely → entry.lastSeen ≤ u64Max) := by
  cases op with
  | learn dest key now =>
      dsimp only [usedBy, perform]
      rw [learn_ofList]
      rcases l.learn_cases dest key now with
        ⟨e, h⟩ | h | ⟨l', entry, rfl, rfl, hrecency, hbound, h, huses, _⟩
      · rw [h]
        exact .inl ⟨rfl, rfl⟩
      · rw [h]
        exact .inl ⟨rfl, rfl⟩
      · rw [h]
        refine .inr ⟨l', entry, rfl, rfl, huses, hbound, ?_⟩
        intro hnow
        rw [hrecency]
        exact max_le hnow (satAdd_le_u64Max _ _)
  | «recall» dest =>
      dsimp only [usedBy, perform]
      rw [recall_ofList]
      rcases l.recall_cases dest with h | ⟨l', e, he, rfl, h, huses⟩
      · rw [h]
        exact .inl ⟨rfl, rfl⟩
      · rw [h]
        exact .inr ⟨l', { e with lastSeen := l.nextRecency }, rfl, rfl, huses hl.distinct,
          hl.bound e he, fun _ => satAdd_le_u64Max _ _⟩
  | «import» blob now => exact absurd trivial hop

/-- The table stores a sound list, and nothing after it. -/
def Stores (k : KnownTable n) : Prop := ∃ l : KnownDestinations n, l.Sound ∧ k = ofList l

theorem stores_new : (new : KnownTable n).Stores :=
  ⟨KnownDestinations.new, KnownDestinations.sound_new, new_eq_ofList⟩

theorem Stores.perform (h : k.Stores) {op : Operation} (hop : op.Timely) :
    (k.perform op).Stores := by
  obtain ⟨l, hl, rfl⟩ := h
  by_cases himport : op.Imports
  · cases op with
    | learn dest key now => exact absurd himport not_false
    | «recall» dest => exact absurd himport not_false
    | «import» blob now =>
        dsimp only [KnownTable.perform]
        rw [import_eq]
        cases hblob : (KnownDestinations.«import» blob now :
            Except KnownDestinationError (KnownDestinations n)) with
        | error e => exact ⟨l, hl, rfl⟩
        | ok l' => exact ⟨l', KnownDestinations.import_sound hop hblob, rfl⟩
  · rcases perform_cases hl himport with ⟨_, hsame⟩ | ⟨l', entry, _, hl', huses, hbound, hword⟩
    · exact ⟨l, hl, hsame⟩
    · exact ⟨l', huses.sound hl hbound (hword hop), hl'⟩

end

/-! ### The exported blob -/

def record (e : KnownDestination) : List UInt8 :=
  e.destinationHash.toList ++ e.publicKey.toList ++ (Bytes.ofNat 8 e.lastSeen).toList

theorem length_record (e : KnownDestination) : (record e).length = entryLen := by
  simp [record]

def header (count : Nat) : List UInt8 :=
  blobMagic ++ [blobVersion] ++ (Bytes.ofNat 2 count).toList

theorem length_header (count : Nat) : (header count).length = blobHeaderLen := by
  simp [header, blobMagic]

def blob (entries : List KnownDestination) : List UInt8 :=
  header entries.length ++ entries.flatMap record

theorem length_blob (entries : List KnownDestination) :
    (blob entries).length = blobHeaderLen + entries.length * entryLen := by
  rw [blob, List.length_append, length_header, length_records length_record]

theorem exportEntry_eq (front rest : List UInt8) (e : KnownDestination) :
    exportEntry (front ++ rest, front.length) e =
      (front ++ record e ++ rest.drop entryLen, (front ++ record e).length) := by
  unfold exportEntry
  dsimp only
  have hkey : (front ++ e.destinationHash.toList).length = front.length + 16 := by simp
  have hrecency : (front ++ e.destinationHash.toList ++ e.publicKey.toList).length =
      front.length + 16 + 64 := by simp
  rw [overwrite_append rfl, overwrite_append hkey, overwrite_append hrecency, List.drop_drop,
    List.drop_drop, Bytes.length_toList, Bytes.length_toList, Bytes.length_toList]
  refine Prod.ext ?_ ?_
  · simp only [record, List.append_assoc]
  · rw [List.length_append, length_record]
    rfl

theorem foldl_exportEntry (entries : List KnownDestination) (front rest : List UInt8) :
    entries.foldl exportEntry (front ++ rest, front.length) =
      (front ++ entries.flatMap record ++ rest.drop (entries.length * entryLen),
        (front ++ entries.flatMap record).length) := by
  induction entries generalizing front rest with
  | nil => simp
  | cons e entries ih =>
      rw [List.foldl_cons, exportEntry_eq, ih, List.drop_drop, List.flatMap_cons, List.length_cons,
        Nat.succ_mul, Nat.add_comm entryLen, List.append_assoc front]

theorem exportInto_ofList (l : KnownDestinations n) {out : List UInt8}
    (hroom : (blob l.entries).length ≤ out.length) :
    (ofList l).exportInto out =
      (blob l.entries ++ out.drop (blob l.entries).length, .ok (blob l.entries).length) := by
  rw [length_blob] at hroom
  have hversion : 4 < out.length := by
    simp only [blobHeaderLen] at hroom
    omega
  have hheader : overwrite ((overwrite out 0 blobMagic).set 4 blobVersion) 5
      (Bytes.ofNat 2 l.entries.length).toList =
        header l.entries.length ++ out.drop blobHeaderLen := by
    have hmagic : blobMagic.length = 4 := rfl
    have hfront : (blobMagic ++ [blobVersion]).length = 5 := rfl
    rw [overwrite_zero, hmagic, List.set_append_right _ _ (le_of_eq hmagic), hmagic, Nat.sub_self,
      List.drop_eq_getElem_cons hversion, List.set_cons_zero, List.append_cons,
      overwrite_append hfront, List.drop_drop, Bytes.length_toList, header]
  have hentries := foldl_exportEntry l.entries (header l.entries.length) (out.drop blobHeaderLen)
  rw [length_header, List.drop_drop, ← length_blob, ← blob] at hentries
  unfold exportInto
  dsimp only
  rw [len_ofList, if_neg (not_lt.mpr hroom), hheader, used_ofList, hentries]

theorem drop_blob {entries : List KnownDestination} {i : Nat} (hi : i < entries.length) :
    (blob entries).drop (blobHeaderLen + i * entryLen) =
      record entries[i] ++ (entries.drop (i + 1)).flatMap record := by
  rw [← drop_records_of_lt length_record hi, blob, ← List.drop_drop,
    List.drop_left' (length_header _)]

theorem slice_record (e : KnownDestination) (rest : List UInt8) :
    Bytes.slice 16 (record e ++ rest) 0 = e.destinationHash ∧
      Bytes.slice 64 (record e ++ rest) 16 = e.publicKey ∧
      Bytes.slice 8 (record e ++ rest) (16 + 64) = Bytes.ofNat 8 e.lastSeen := by
  have hkey : e.destinationHash.toList.length = 16 := by simp
  have hrecency : (e.destinationHash.toList ++ e.publicKey.toList).length = 16 + 64 := by simp
  refine ⟨?_, ?_, ?_⟩
  · rw [record, List.append_assoc, List.append_assoc]
    exact Bytes.slice_toList_append _ _
  · rw [record, List.append_assoc, List.append_assoc]
    exact Bytes.slice_between hkey _ _
  · rw [record, List.append_assoc]
    exact Bytes.slice_between hrecency _ _

/-- What was exported is read back, unless it is clamped. -/
theorem decodeEntry_blob {entries : List KnownDestination} {i now : Nat} (hi : i < entries.length)
    (hword : entries[i].lastSeen ≤ u64Max) (hnow : entries[i].lastSeen ≤ now) :
    decodeEntry (blob entries) i now = entries[i] := by
  have hread (m off : Nat) : Bytes.slice m (blob entries) (blobHeaderLen + i * entryLen + off) =
      Bytes.slice m (record entries[i] ++ (entries.drop (i + 1)).flatMap record) off := by
    rw [← drop_blob hi, Bytes.slice_drop]
  obtain ⟨hdest, hkey, hrecency⟩ :=
    slice_record entries[i] ((entries.drop (i + 1)).flatMap record)
  rw [← hread] at hdest hkey hrecency
  have hvalue : beNat (Bytes.ofNat 8 entries[i].lastSeen).toList = entries[i].lastSeen := by
    rw [Bytes.beNat_ofNat]
    exact Nat.mod_eq_of_lt (lt_of_le_of_lt hword (by decide))
  unfold decodeEntry
  dsimp only
  rw [Nat.add_assoc _ 16 64, hrecency, hkey, ← Nat.add_zero (blobHeaderLen + i * entryLen), hdest,
    hvalue, min_eq_left hnow]

theorem count_blob {entries : List KnownDestination} (h : entries.length ≤ 65535) :
    beNat [byteAt (blob entries) 5, byteAt (blob entries) 6] = entries.length := by
  obtain ⟨high, low, hword⟩ := List.length_eq_two.mp
    (Bytes.length_toList (Bytes.ofNat 2 entries.length))
  have hvalue := Bytes.beNat_ofNat 2 entries.length
  rw [hword, Nat.mod_eq_of_lt (by omega)] at hvalue
  rw [blob, header, hword]
  exact hvalue

section

variable [Crypto]

theorem checkBlob_blob {l : KnownDestinations n} (hl : l.Sound) (hn : n ≤ 65535) {now : Nat}
    (hdecode : ∀ i (hi : i < l.entries.length),
      decodeEntry (blob l.entries) i now = l.entries[i]) :
    checkBlob n (blob l.entries) now = .ok ⟨l.entries.length, l.length_le⟩ := by
  have hheader : ¬ ((blob l.entries).length < blobHeaderLen ∨
      (blob l.entries).take 4 ≠ blobMagic) := by
    refine not_or.mpr ⟨?_, not_not.mpr rfl⟩
    rw [length_blob]
    omega
  have hversion : ¬ byteAt (blob l.entries) 4 ≠ blobVersion := not_not.mpr rfl
  have hchecks : (List.range l.entries.length).forM (checkEntry (blob l.entries) now) = .ok () := by
    rw [forM_eq_ok]
    intro i hi
    have hi : i < l.entries.length := List.mem_range.mp hi
    unfold checkEntry
    dsimp only
    rw [hdecode i hi, refuseIf_of_not (not_not.mpr (hl.bound _ (List.getElem_mem hi)).symm),
      ok_bind, refuseIf_of_not]
    rintro ⟨prior, hprior, hsame⟩
    have hlt : prior < i := List.mem_range.mp hprior
    rw [hdecode prior (hlt.trans hi)] at hsame
    exact hlt.ne (KnownDestinations.place_unique hl.distinct _ hi hsame)
  unfold checkBlob
  dsimp only
  rw [refuseIf_of_not hheader, ok_bind, refuseIf_of_not hversion, ok_bind]
  simp only [count_blob (l.length_le.trans hn)]
  rw [dif_neg (not_lt.mpr l.length_le), refuseIf_of_not (not_not.mpr (length_blob _)), ok_bind,
    hchecks]
  rfl

theorem import_blob (k : KnownTable n) {l : KnownDestinations n} (hl : l.Sound) (hn : n ≤ 65535)
    {now : Nat} (hnow : ∀ e ∈ l.entries, e.lastSeen ≤ now) :
    k.«import» (blob l.entries) now = (ofList l, .ok ()) := by
  have hdecode (i : Nat) (hi : i < l.entries.length) :
      decodeEntry (blob l.entries) i now = l.entries[i] :=
    decodeEntry_blob hi (hl.word _ (List.getElem_mem hi)) (hnow _ (List.getElem_mem hi))
  have hall : (List.range l.entries.length).map (fun i => decodeEntry (blob l.entries) i now) =
      l.entries := by
    apply List.ext_getElem
    · rw [List.length_map, List.length_range]
    · intro i _ hi
      rw [List.getElem_map, List.getElem_range, hdecode i hi]
  unfold «import»
  rw [checkBlob_blob hl hn hdecode]
  refine Prod.ext (eq_ofList rfl ?_) rfl
  dsimp only
  rw [foldl_write _ l.length_le, hall]

/-! ### Any number of operations -/

/-- Not more entries than places, each destination once and bound to its key, and nothing in the
places that are not in use. -/
structure Integrity (k : KnownTable n) : Prop where
  len_le : k.len ≤ n
  distinct : (k.used.map (·.destinationHash)).Nodup
  bound : ∀ e ∈ k.used, e.destinationHash = deliveryDestinationHash e.publicKey
  unused : ∀ e ∈ k.entries.toList.drop k.len, e = emptyEntry

theorem integrity_ofList {l : KnownDestinations n} (hl : l.Sound) : (ofList l).Integrity where
  len_le := l.length_le
  distinct := by
    rw [used_ofList]
    exact hl.distinct
  bound := by
    rw [used_ofList]
    exact hl.bound
  unused e he := by
    change e ∈ (l.entries ++ List.replicate _ emptyEntry).drop l.entries.length at he
    rw [List.drop_left] at he
    exact List.eq_of_mem_replicate he

theorem peek_perform {k : KnownTable n} (hk : k.Stores) {op : Operation} (hop : ¬ op.Imports)
    {dest : Bytes 16} (hbefore : (k.peek dest).isSome)
    (hafter : ((k.perform op).peek dest).isSome) : (k.perform op).peek dest = k.peek dest := by
  obtain ⟨l, hl, rfl⟩ := hk
  rcases perform_cases hl hop with ⟨_, hsame⟩ | ⟨l', entry, _, hl', huses, _, _⟩
  · rw [hsame]
  · rw [hl', peek_ofList] at hafter ⊢
    rw [peek_ofList] at hbefore ⊢
    exact huses.peek_eq hl.distinct hbefore hafter

/-- A table of at most 65535 places used through learning, recalling and importing holds each
destination once and bound to its key, with nothing in the places not in use. As long as a
destination stays and nothing is imported it keeps its key. What is refused changes nothing, and the
export of the table, imported at a time not before any recency, makes any table equal to it. -/
theorem known_destinations_integrity (hn : n ≤ 65535) {ops : List Operation} {k : KnownTable n}
    (h : Runs perform (fun _ op => op.Timely) new ops k) :
    k.Integrity ∧
      (∀ dest later k',
        Runs perform (fun k op => op.Timely ∧ ¬ op.Imports ∧ ((k.perform op).peek dest).isSome)
            k later k' →
          (k.peek dest).isSome → k'.peek dest = k.peek dest) ∧
      (∀ dest key now e, (k.learn dest key now).2 = .error e → (k.learn dest key now).1 = k) ∧
      (∀ bytes now e, (k.«import» bytes now).2 = .error e → (k.«import» bytes now).1 = k) ∧
      ∀ now out, (∀ e ∈ k.used, e.lastSeen ≤ now) →
        blobHeaderLen + k.len * entryLen ≤ out.length →
          ∃ out' length, k.exportInto out = (out', .ok length) ∧
            ∀ k' : KnownTable n, k'.«import» (out'.take length) now = (k, .ok ()) := by
  have hstores : k.Stores := h.invariant (fun _ _ hop hs => hs.perform hop) stores_new
  refine ⟨?_, ?_, fun _ _ _ _ => learn_error, fun _ _ _ => import_error, ?_⟩
  · obtain ⟨l, hl, rfl⟩ := hstores
    exact integrity_ofList hl
  · intro dest later k' hlater hbefore
    -- along the run: the table is sound, and the destination has the key it had
    have hkept := hlater.invariant (I := fun k' => k'.Stores ∧ k'.peek dest = k.peek dest)
      (fun k' op hop hk' => ⟨hk'.1.perform hop.1, by
        have hstays : (k'.peek dest).isSome := by rwa [hk'.2]
        exact (peek_perform hk'.1 hop.2.1 hstays hop.2.2).trans hk'.2⟩) ⟨hstores, rfl⟩
    exact hkept.2
  · intro now out hnow hroom
    obtain ⟨l, hl, rfl⟩ := hstores
    rw [used_ofList] at hnow
    rw [len_ofList, ← length_blob] at hroom
    refine ⟨_, _, exportInto_ofList l hroom, ?_⟩
    intro k'
    rw [List.take_left]
    exact import_blob k' hl hn hnow

end

/-! ### Three destinations -/

def keyOf (byte : UInt8) : Bytes 64 := List.Vector.replicate 64 byte

def firstDest : Bytes 16 := Bytes.ofNat 16 0x2d3324debef637a30e5066a5a39306ba

def secondDest : Bytes 16 := Bytes.ofNat 16 0x48a977a55a8f49cc808f9f425899c83b

def thirdDest : Bytes 16 := Bytes.ofNat 16 0xeef6fbcb63c2ed4dc85bdc2ac36304b2

/-- The SHA-256 digest of a key, and that of the name and the identity hash. -/
private def keyDigests (key : Bytes 64) (identity destination : Nat) :
    List (List UInt8 × Bytes 32) :=
  [(key.toList, Bytes.ofNat 32 identity),
   ((Bytes.slice 10 KnownIdentity.nameDigest.toList 0).toList ++
      (Bytes.slice 16 (Bytes.ofNat 32 identity).toList 0).toList, Bytes.ofNat 32 destination)]

/-- Primitives that know the digests of the three keys. -/
@[reducible] def threeKeys : Crypto :=
  Crypto.known ((lxmfDeliveryName, KnownIdentity.nameDigest) ::
    (keyDigests (keyOf 1) 0x7c8975e1e60a5c8337f28edf8c33c3b180360b7279644a9bc1af3c51e6220bf5
        0x2d3324debef637a30e5066a5a39306ba59bdac24b107cdb36eb9070a251a5621 ++
      keyDigests (keyOf 2) 0xf83b332be4e6a5a4b1c56aaf6db52657da495e149870057d8590ab9d7a6167ad
        0x48a977a55a8f49cc808f9f425899c83ba1e823f5a463b737569d5d26c45a7e41 ++
      keyDigests (keyOf 3) 0x6aa56c4bcd208911792ad24c7681fefb93bed51903afc54860c9bd37e41e5a31
        0xeef6fbcb63c2ed4dc85bdc2ac36304b26d39f1f31ecb8eea1e9e60bc9e446838)) []

/-- Two destinations are learned, the second at an earlier time, and the first is recalled. -/
def learnTwo : List Operation :=
  [.learn firstDest (keyOf 1) 10, .learn secondDest (keyOf 2) 3, .recall firstDest]

theorem known_destinations_integrity_learnTwo :
    letI := threeKeys
    let k : KnownTable 2 := learnTwo.foldl perform new
    k.used = [⟨firstDest, keyOf 1, 12⟩, ⟨secondDest, keyOf 2, 11⟩] ∧ k.Integrity ∧
      ∃ out length, k.exportInto (List.replicate 183 0) = (out, .ok length) ∧
        ∀ k' : KnownTable 2, k'.«import» (out.take length) 12 = (k, .ok ()) := by
  let _ := threeKeys
  have hrun : Runs perform (fun _ op => op.Timely) (new : KnownTable 2) learnTwo
      (learnTwo.foldl perform new) :=
    .cons (show 10 ≤ u64Max by decide) (.cons (show 3 ≤ u64Max by decide) (.cons trivial (.nil _)))
  have hused : (learnTwo.foldl perform (new : KnownTable 2)).used =
      [⟨firstDest, keyOf 1, 12⟩, ⟨secondDest, keyOf 2, 11⟩] := by
    decide +kernel
  have hlen : (learnTwo.foldl perform (new : KnownTable 2)).len = 2 := by decide +kernel
  obtain ⟨hintegrity, _, _, _, hexport⟩ := @known_destinations_integrity 2 threeKeys (by decide)
    learnTwo _ hrun
  refine ⟨hused, hintegrity, hexport 12 (List.replicate 183 0) ?_ ?_⟩
  · rw [hused]
    decide
  · rw [hlen, List.length_replicate]
    decide

end KnownTable

end ReticulumLite
