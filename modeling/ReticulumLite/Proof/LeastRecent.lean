import ReticulumLite.Proof.KnownDestinations

/-!
# Which destination is given up

A recency mixes the times of callers with the successor of the greatest one so far. Whatever the
times, each use of a destination gets a later one than all others, until one reaches the largest
word: the order of the recencies is that of the last uses, and the least belongs to the destination
that was not used for the longest time.
-/

namespace ReticulumLite

open Bounded

namespace KnownTable

open KnownDestinations (Uses oldest lastSeen_lt_nextRecency)

variable {n : Nat}

/-- A table, and the destinations that were used, the last one first. -/
structure Traced (n : Nat) where
  table : KnownTable n
  uses : List (Bytes 16)

namespace Traced

def new : Traced n := ⟨KnownTable.new, []⟩

section

variable [Crypto]

def perform (t : Traced n) (op : Operation) : Traced n :=
  ⟨t.table.perform op, (t.table.usedBy op).toList ++ t.uses⟩

/-- A learn or a recall after which no recency is the largest word. -/
def Spares (t : Traced n) (op : Operation) : Prop :=
  op.Timely ∧ ¬ op.Imports ∧ ∀ e ∈ (t.table.perform op).used, e.lastSeen < u64Max

end

/-! ### Recencies in the order of use -/

/-- The later a destination was used last, the greater is its recency. -/
structure Ordered (l : KnownDestinations n) (uses : List (Bytes 16)) : Prop where
  logged : ∀ e ∈ l.entries, e.destinationHash ∈ uses
  order : ∀ e ∈ l.entries, ∀ e' ∈ l.entries,
    uses.idxOf e'.destinationHash < uses.idxOf e.destinationHash → e.lastSeen < e'.lastSeen

variable {l l' : KnownDestinations n} {uses : List (Bytes 16)} {entry : KnownDestination}

theorem Ordered.use (h : Ordered l uses) (hspare : ∀ e ∈ l.entries, e.lastSeen < u64Max)
    (huses : Uses l l' entry) : Ordered l' (entry.destinationHash :: uses) where
  logged e he := by
    rcases huses.mem e he with rfl | ⟨hmem, _⟩
    · exact List.mem_cons_self
    · exact List.mem_cons_of_mem _ (h.logged e hmem)
  order e he e' he' hlater := by
    rcases huses.mem e he with rfl | ⟨hmem, hne⟩
    · -- nothing was used after the entry
      rw [List.idxOf_cons_self] at hlater
      exact absurd hlater (Nat.not_lt_zero _)
    rcases huses.mem e' he' with rfl | ⟨hmem', hne'⟩
    · exact lt_of_lt_of_le (lastSeen_lt_nextRecency hspare hmem) huses.later
    · rw [List.idxOf_cons_ne _ (Ne.symm hne), List.idxOf_cons_ne _ (Ne.symm hne')] at hlater
      exact h.order e hmem e' hmem' (Nat.lt_of_succ_lt_succ hlater)

theorem Ordered.eq_of_lastSeen (h : Ordered l uses)
    (hdistinct : (l.entries.map (·.destinationHash)).Nodup) {e e' : KnownDestination}
    (he : e ∈ l.entries) (he' : e' ∈ l.entries) (hsame : e.lastSeen = e'.lastSeen) : e = e' := by
  rcases lt_trichotomy (uses.idxOf e.destinationHash) (uses.idxOf e'.destinationHash) with
    hlt | heq | hgt
  · exact absurd (h.order e' he' e he hlt) (by omega)
  · exact List.inj_on_of_nodup_map hdistinct he he' ((List.idxOf_inj (h.logged e he)).mp heq)
  · exact absurd (h.order e he e' he' hgt) (by omega)

theorem Ordered.nodup (h : Ordered l uses)
    (hdistinct : (l.entries.map (·.destinationHash)).Nodup) :
    (l.entries.map (·.lastSeen)).Nodup :=
  hdistinct.of_map.map_on fun _ he _ he' hsame => h.eq_of_lastSeen hdistinct he he' hsame

theorem oldest_least {entries : List KnownDestination} (hlt : oldest entries < entries.length)
    {e : KnownDestination} (he : e ∈ entries) : entries[oldest entries].lastSeen ≤ e.lastSeen := by
  have hall : (entries.all fun e' => decide (entries[oldest entries].lastSeen ≤ e'.lastSeen)) =
      true :=
    @List.findIdx_getElem _ (fun e : KnownDestination =>
      entries.all fun e' => decide (e.lastSeen ≤ e'.lastSeen)) entries hlt
  exact of_decide_eq_true (List.all_eq_true.mp hall e he)

theorem Ordered.victim (h : Ordered l uses)
    (hdistinct : (l.entries.map (·.destinationHash)).Nodup) (hne : l.entries ≠ []) :
    ∃ victim, l.entries[oldest l.entries]? = some victim ∧ victim.destinationHash ∈ uses ∧
      ∀ e ∈ l.entries, e ≠ victim →
        uses.idxOf e.destinationHash < uses.idxOf victim.destinationHash := by
  have hlt := oldest_lt hne
  have hmem : l.entries[oldest l.entries] ∈ l.entries := List.getElem_mem hlt
  refine ⟨l.entries[oldest l.entries], List.getElem?_eq_getElem hlt, h.logged _ hmem, ?_⟩
  intro e he hother
  by_contra hnot
  rcases (not_lt.mp hnot).lt_or_eq with hlater | heq
  · have hrecency := h.order e he _ hmem hlater
    have hleast := oldest_least hlt he
    omega
  · refine hother (List.inj_on_of_nodup_map hdistinct he hmem ?_)
    exact (List.idxOf_inj (h.logged e he)).mp heq.symm

/-! ### Any number of calls -/

variable [Crypto]

/-- The table stores a sound list with spare recencies, in the order of the uses. -/
def InOrder (t : Traced n) : Prop :=
  ∃ l : KnownDestinations n, l.Sound ∧ t.table = ofList l ∧ Ordered l t.uses ∧
    ∀ e ∈ l.entries, e.lastSeen < u64Max

theorem inOrder_new : (new : Traced n).InOrder := by
  refine ⟨KnownDestinations.new, KnownDestinations.sound_new, new_eq_ofList, ⟨?_, ?_⟩, ?_⟩
  · exact fun _ he => absurd he List.not_mem_nil
  · exact fun _ he => absurd he List.not_mem_nil
  · exact fun _ he => absurd he List.not_mem_nil

theorem InOrder.perform {t : Traced n} (h : t.InOrder) {op : Operation} (hop : Spares t op) :
    (t.perform op).InOrder := by
  obtain ⟨l, hl, htable, hordered, hspare⟩ := h
  obtain ⟨htimely, himport, hspares⟩ := hop
  unfold Traced.perform
  rw [htable] at hspares ⊢
  rcases perform_cases hl himport with
    ⟨hnone, hsame⟩ | ⟨l', entry, hsome, hl', huses, hbound, hword⟩
  · rw [hnone, hsame]
    exact ⟨l, hl, rfl, hordered, hspare⟩
  · rw [hl', used_ofList] at hspares
    rw [hsome, hl']
    exact ⟨l', huses.sound hl hbound (hword htimely), rfl, hordered.use hspare huses, hspares⟩

/-- As long as no recency reaches the largest word, the recencies are distinct, and learning a new
destination with a full table replaces the entry of the destination whose last use is the
earliest. Learning a known destination again is no use. -/
theorem learn_evicts_least_recent {ops : List Operation} {t : Traced n}
    (h : Runs Traced.perform Spares new ops t) :
    (t.table.used.map (·.lastSeen)).Nodup ∧
      ∀ dest key now, t.table.len = n → (t.table.learn dest key now).2 = .ok true →
        ∃ place victim entry, t.table.used[place]? = some victim ∧
          victim.destinationHash ∈ t.uses ∧
          (∀ e ∈ t.table.used, e ≠ victim →
            t.uses.idxOf e.destinationHash < t.uses.idxOf victim.destinationHash) ∧
          entry.destinationHash = dest ∧ entry.publicKey = key ∧
          (t.table.learn dest key now).1.used = t.table.used.set place entry := by
  obtain ⟨l, hl, htable, hordered, hspare⟩ := h.invariant (fun _ _ hop ht => ht.perform hop)
    inOrder_new
  rw [htable, used_ofList]
  refine ⟨hordered.nodup hl.distinct, ?_⟩
  intro dest key now hfull hstored
  rw [learn_ofList] at hstored ⊢
  rcases l.learn_cases dest key now with
    ⟨e, hlearn⟩ | hlearn | ⟨l', entry, hdest, hkey, _, _, hlearn, _, hset⟩
  · rw [hlearn] at hstored
    cases hstored
  · rw [hlearn] at hstored
    cases hstored
  · obtain ⟨hne, hl'⟩ := hset hfull
    obtain ⟨victim, hvictim, hlogged, hearliest⟩ := hordered.victim hl.distinct hne
    refine ⟨oldest l.entries, victim, entry, hvictim, hlogged, hearliest, hdest, hkey, ?_⟩
    rw [hlearn, used_ofList, hl']

end Traced

theorem learn_evicts_least_recent_learnTwo :
    letI := threeKeys
    let t : Traced 2 := learnTwo.foldl Traced.perform Traced.new
    t.uses = [firstDest, secondDest, firstDest] ∧
      (t.table.learn thirdDest (keyOf 3) 0).1.used =
        [⟨firstDest, keyOf 1, 12⟩, ⟨thirdDest, keyOf 3, 13⟩] ∧
      ∃ place victim entry, t.table.used[place]? = some victim ∧
        victim.destinationHash ∈ t.uses ∧
        (∀ e ∈ t.table.used, e ≠ victim →
          t.uses.idxOf e.destinationHash < t.uses.idxOf victim.destinationHash) ∧
        entry.destinationHash = thirdDest ∧ entry.publicKey = keyOf 3 ∧
        (t.table.learn thirdDest (keyOf 3) 0).1.used = t.table.used.set place entry := by
  let _ := threeKeys
  have hrun : Runs Traced.perform Traced.Spares (Traced.new : Traced 2) learnTwo
      (learnTwo.foldl Traced.perform Traced.new) :=
    .cons ⟨show 10 ≤ u64Max by decide, not_false, by decide +kernel⟩
      (.cons ⟨show 3 ≤ u64Max by decide, not_false, by decide +kernel⟩
        (.cons ⟨trivial, not_false, by decide +kernel⟩ (.nil _)))
  obtain ⟨_, hevicts⟩ := @Traced.learn_evicts_least_recent 2 threeKeys learnTwo _ hrun
  exact ⟨by decide +kernel, by decide +kernel, hevicts thirdDest (keyOf 3) 0 (by decide +kernel)
    (by decide +kernel)⟩

end KnownTable

end ReticulumLite
