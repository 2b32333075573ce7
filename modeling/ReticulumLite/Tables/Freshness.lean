import ReticulumLite.Tables.Transit

/-!
# Which routes the path table takes

For a destination that has a live row, only the time of emission counts: a later announce replaces
the row and any other is refused, whatever its hops. For one that has none, the newcomer needs a
number and a place, and one merely overheard in bulk takes no place from a route that is not.
-/

namespace ReticulumLite

open Bounded

/-! ### When a route is taken -/

theorem exists_free_or_victim {α : Type} {n : Nat} (s : Slots α n) (bulk : α → Bool) (age : α → Nat)
    (hn : 0 < n) : ∃ i, s.free.or (classVictim s false bulk age) = some i := by
  obtain ⟨i, hi⟩ := exists_free_or_oldest s age hn
  unfold classVictim
  cases hfree : s.free with
  | some j => exact ⟨j, rfl⟩
  | none =>
      rw [hfree] at hi
      have holdest : oldestIndex s age = some i := hi
      rw [holdest]
      cases (s.selectBy bulk fun a b => decide (age a < age b)).map (·.1) with
      | some j => exact ⟨j, rfl⟩
      | none => exact ⟨i, rfl⟩

namespace PathTable

variable {n : Nat}

/-- The route that is there, as an insertion looks for it. -/
def liveRow (t : PathTable n) (destinationHash : Hash16) (nowMs : Nat) : Option PathEntry :=
  t.entries.find fun e => decide (e.destinationHash = destinationHash) && e.isLive nowMs

structure Welcomes (t : PathTable n) (entry : PathEntry) (nowMs : Nat) : Prop where
  newer : ∀ old, t.liveRow entry.destinationHash nowMs = some old →
    announceEmitted old.randomHash < announceEmitted entry.randomHash
  room : n ≠ 0
  number : t.lastGeneration < u64Max ∨
    ∃ old, t.liveRow entry.destinationHash nowMs = some old ∧ sameRoute old entry = true

variable {nowMs : Nat}

theorem shouldReplace_of_live {old : PathEntry} (h : old.isLive nowMs = true) (entry : PathEntry) :
    shouldReplace old entry nowMs =
      decide (announceEmitted old.randomHash < announceEmitted entry.randomHash) := by
  have hseen : entry.randomHash = old.randomHash →
      ¬ announceEmitted old.randomHash < announceEmitted entry.randomHash := by
    intro heq
    rw [heq]
    exact lt_irrefl _
  unfold shouldReplace
  simp only [h]
  by_cases hnewer : announceEmitted old.randomHash < announceEmitted entry.randomHash
  · have hunseen : entry.randomHash ≠ old.randomHash := fun heq => hseen heq hnewer
    simp [hnewer, hunseen]
  · simp [hnewer]

variable {t : PathTable n} {i : Fin n} {entry : PathEntry}

theorem replaceEntry_taken_iff :
    (replaceEntry t i entry).2 = true ↔
      t.lastGeneration < u64Max ∨ ∃ old, t.entries.get i = some old ∧ sameRoute old entry = true := by
  have hroom : n ≠ 0 := by
    rintro rfl
    exact i.elim0
  unfold replaceEntry GenTable.nextGeneration checkedSucc
  cases hi : t.entries.get i with
  | none =>
      simp only [Option.any_none, Bool.false_eq_true, if_false, hroom]
      split
      · rename_i hnone
        split at hnone
        · cases hnone
        · rename_i hlast
          simp [hlast]
      · rename_i hsome
        split at hsome
        · rename_i hlast
          simp [hlast]
        · cases hsome
  | some old =>
      simp only [Option.any_some, hroom, if_false]
      split
      · rename_i hsame
        simp [hsame]
      rename_i hother
      split
      · rename_i hnone
        split at hnone
        · cases hnone
        · rename_i hlast
          simp [hlast, hother]
      · rename_i hsome
        split at hsome
        · rename_i hlast
          simp [hlast]
        · cases hsome

theorem insertOrUpdate_taken_iff (hbulk : entry.bulk = false) :
    (insertOrUpdate t entry nowMs).2 = true ↔ t.Welcomes entry nowMs := by
  have hfind : (t.entries.indexOf fun e =>
      decide (e.destinationHash = entry.destinationHash) && e.isLive nowMs) =
      (expire t nowMs).entries.indexOf fun e =>
        decide (e.destinationHash = entry.destinationHash) := by
    simp only [expire, GenTable.clearWhere, Slots.indexOf_clearWhere, Bool.not_not]
  have hrow : t.liveRow entry.destinationHash nowMs =
      ((expire t nowMs).entries.indexOf fun e =>
        decide (e.destinationHash = entry.destinationHash)).bind t.entries.get := by
    rw [← hfind]
    rfl
  unfold insertOrUpdate
  simp only
  split
  · rename_i i hi
    obtain ⟨⟨old, hold, _⟩, _⟩ := Slots.indexOf_eq_some.mp hi
    obtain ⟨hget, hlive⟩ := Slots.get_clearWhere_eq_some.mp hold
    rw [Bool.not_eq_false'] at hlive
    have hthere : t.liveRow entry.destinationHash nowMs = some old := by
      rw [hrow, hi]
      exact hget
    have hroom : n ≠ 0 := by
      rintro rfl
      exact i.elim0
    rw [hold]
    simp only [shouldReplace_of_live hlive]
    by_cases hnewer : announceEmitted old.randomHash < announceEmitted entry.randomHash
    · rw [if_pos (decide_eq_true hnewer), replaceEntry_taken_iff, hold]
      constructor
      · intro hnumber
        refine ⟨fun old' hold' => ?_, hroom, ?_⟩
        · obtain rfl := Option.some.inj (hthere.symm.trans hold')
          exact hnewer
        · rw [hthere]
          exact hnumber
      · intro hwelcome
        have hnumber := hwelcome.number
        rw [hthere] at hnumber
        exact hnumber
    · rw [if_neg (by simpa using hnewer)]
      refine iff_of_false Bool.false_ne_true fun hwelcome => ?_
      exact hnewer (hwelcome.newer old hthere)
  · rename_i habsent
    have hnone : t.liveRow entry.destinationHash nowMs = none := by
      rw [hrow, habsent]
      rfl
    rcases Nat.eq_zero_or_pos n with rfl | hn
    · refine iff_of_false ?_ fun hwelcome => hwelcome.room rfl
      split
      · rename_i i _
        exact i.elim0
      · exact Bool.false_ne_true
    · obtain ⟨i, hi⟩ := exists_free_or_victim (expire t nowMs).entries PathEntry.bulk
        PathEntry.expiresMs hn
      have hother (old : PathEntry) (hold : (expire t nowMs).entries.get i = some old) :
          sameRoute old entry = false := by
        have hdest := Slots.indexOf_eq_none.mp habsent i old hold
        simp [sameRoute, hdest]
      simp only [hbulk, hi]
      rw [replaceEntry_taken_iff]
      constructor
      · rintro (hlast | ⟨old, hold, hsame⟩)
        · refine ⟨fun old hold => ?_, hn.ne', .inl hlast⟩
          rw [hnone] at hold
          cases hold
        · rw [hother old hold] at hsame
          cases hsame
      · intro hwelcome
        rcases hwelcome.number with hlast | ⟨old, hold, _⟩
        · exact .inl hlast
        · rw [hnone] at hold
          cases hold

/-- A destination that has a live row: only a later emission is taken, and a route that leads
elsewhere needs a number. -/
theorem insertOrUpdate_of_live (hkeyed : t.entries.Keyed PathEntry.destinationHash)
    {old : PathEntry} (hi : t.entries.get i = some old)
    (hdest : old.destinationHash = entry.destinationHash) (hlive : nowMs < old.expiresMs) :
    (insertOrUpdate t entry nowMs).2 = true ↔
      announceEmitted old.randomHash < announceEmitted entry.randomHash ∧
        (old.interfaceId = entry.interfaceId ∧ old.nextHop = entry.nextHop ∧
          old.hops = entry.hops ∨ t.lastGeneration < u64Max) := by
  have hold : (expire t nowMs).entries.get i = some old :=
    Slots.get_clearWhere_eq_some.mpr ⟨hi, by simpa [PathEntry.isLive] using hlive⟩
  have hexpire : (expire t nowMs).entries.Keyed PathEntry.destinationHash := hkeyed.clearWhere _
  have hfound : ((expire t nowMs).entries.indexOf fun e =>
      decide (e.destinationHash = entry.destinationHash)) = some i := by
    rw [← hdest]
    simpa using hexpire.indexOf_eq (q := fun _ => true) hold rfl
  have hroute : sameRoute old entry = true ↔ old.interfaceId = entry.interfaceId ∧
      old.nextHop = entry.nextHop ∧ old.hops = entry.hops := by
    simp [sameRoute, hdest, and_assoc]
  unfold insertOrUpdate
  simp only [hfound, hold, shouldReplace_of_live (decide_eq_true hlive)]
  by_cases hnewer : announceEmitted old.randomHash < announceEmitted entry.randomHash
  · rw [if_pos (decide_eq_true hnewer), replaceEntry_taken_iff, hold]
    simp only [Option.some.injEq, exists_eq_left', hroute]
    exact ⟨fun h => ⟨hnewer, h.symm⟩, fun h => h.2.symm⟩
  · rw [if_neg (by simpa using hnewer)]
    exact iff_of_false Bool.false_ne_true fun h => hnewer h.1

/-! ### Room for a new destination -/

def New (t : PathTable n) (destinationHash : Hash16) (nowMs : Nat) : Prop :=
  ∀ i e, t.entries.get i = some e → e.destinationHash = destinationHash → e.expiresMs ≤ nowMs

/-- The place a newcomer is given: a free one; failing that, that of the bulk row which expires
first; failing that, for a newcomer that is not itself bulk, that of the row which expires first. -/
def GivesWay (rows : Slots PathEntry n) (bulk : Bool) (i : Fin n) : Prop :=
  rows.get i = none ∨
    (∀ j, rows.get j ≠ none) ∧
      ((∃ victim, rows.get i = some victim ∧ victim.bulk = true ∧
          ∀ j e, rows.get j = some e → e.bulk = true → victim.expiresMs ≤ e.expiresMs) ∨
        bulk = false ∧ (∀ j e, rows.get j = some e → e.bulk = false) ∧
          ∃ victim, rows.get i = some victim ∧
            ∀ j e, rows.get j = some e → victim.expiresMs ≤ e.expiresMs)

/-- No place gives way to a newcomer that is bulk where every place holds a route that is not. -/
structure Crowded (rows : Slots PathEntry n) (bulk : Bool) : Prop where
  newcomer : bulk = true
  full : ∀ j, rows.get j ≠ none
  regular : ∀ j e, rows.get j = some e → e.bulk = false

theorem full_of_free_eq_none {rows : Slots PathEntry n} (h : rows.free = none) :
    ∀ j, rows.get j ≠ none := by
  intro j hj
  obtain ⟨e, he⟩ := Slots.free_eq_none.mp h j
  rw [hj] at he
  cases he

def chosen (t : PathTable n) (bulk : Bool) : Option (Fin n) :=
  t.entries.free.or (classVictim t.entries bulk (·.bulk) (·.expiresMs))

/-- The place that is chosen gives way, and where none is chosen none does. -/
theorem chosen_cases (t : PathTable n) (bulk : Bool) (hn : 1 ≤ n) :
    (∃ i, chosen t bulk = some i ∧ GivesWay t.entries bulk i) ∨
      chosen t bulk = none ∧ Crowded t.entries bulk := by
  unfold chosen
  cases hfree : t.entries.free with
  | some i => exact .inl ⟨i, rfl, .inl (Slots.get_of_free hfree)⟩
  | none =>
      have hfull := full_of_free_eq_none hfree
      unfold classVictim
      cases hbulk : t.entries.selectBy PathEntry.bulk fun a b =>
          decide (a.expiresMs < b.expiresMs) with
      | some best =>
          obtain ⟨i, victim⟩ := best
          obtain ⟨hget, hvictim, hleast⟩ := Slots.selectBy_eq_some (fun a b => rfl) hbulk
          exact .inl ⟨i, rfl, .inr ⟨hfull, .inl ⟨victim, hget, hvictim, hleast⟩⟩⟩
      | none =>
          have hregular := Slots.selectBy_eq_none (fun a b => rfl) hbulk
          cases bulk with
          | true => exact .inr ⟨rfl, rfl, hfull, hregular⟩
          | false =>
              obtain ⟨i, hi⟩ := exists_free_or_oldest t.entries PathEntry.expiresMs hn
              rw [hfree] at hi
              have holdest : oldestIndex t.entries PathEntry.expiresMs = some i := hi
              obtain ⟨victim, hget, hleast⟩ := oldestIndex_eq_some holdest
              exact .inl ⟨i, holdest, .inr ⟨hfull, .inr ⟨rfl, hregular, victim, hget, hleast⟩⟩⟩

variable {dest : Hash16}

theorem other_of_new (hnew : New t dest nowMs) (i : Fin n) (e : PathEntry)
    (he : (expire t nowMs).entries.get i = some e) :
    e.destinationHash ≠ dest := by
  intro heq
  obtain ⟨hget, hlive⟩ := Slots.get_clearWhere_eq_some.mp he
  simp only [PathEntry.isLive, Bool.not_eq_false', decide_eq_true_eq] at hlive
  exact absurd (hnew i e hget heq) (not_le.mpr hlive)

theorem insertOrUpdate_of_new (hnew : New t entry.destinationHash nowMs) :
    (∀ i g, chosen (expire t nowMs) entry.bulk = some i →
        (expire t nowMs).nextGeneration = some g →
        insertOrUpdate t entry nowMs = ((expire t nowMs).admitAt i entry g, true)) ∧
      (chosen (expire t nowMs) entry.bulk = none ∨ (expire t nowMs).nextGeneration = none →
        insertOrUpdate t entry nowMs = (expire t nowMs, false)) := by
  have hother := other_of_new hnew
  have habsent : ((expire t nowMs).entries.indexOf fun e =>
      decide (e.destinationHash = entry.destinationHash)) = none :=
    Slots.indexOf_eq_none.mpr fun i e he => decide_eq_false (hother i e he)
  have hroute : ∀ i,
      ((expire t nowMs).entries.get i).any (fun old => sameRoute old entry) = false := by
    intro i
    cases hget : (expire t nowMs).entries.get i with
    | none => rfl
    | some old => simp [sameRoute, hother i old hget]
  unfold insertOrUpdate
  simp only [habsent, ← chosen.eq_1, replaceEntry, hroute, Bool.false_eq_true, if_false]
  constructor
  · intro i g hi hg
    simp only [hi, hg]
  · rintro (hnone | hnone)
    · simp only [hnone]
    · simp only [hnone]
      split <;> rfl

/-! ### Runs of a table -/

inductive Operation
  | insertOrUpdate (entry : PathEntry) (nowMs : Nat)
  | touch (destinationHash : Hash16) (nowMs : Nat)
  | dropPath (destinationHash : Hash16)
  | removeInterface (interface : InterfaceId)
  | expire (nowMs : Nat)
  | clear

def perform (t : PathTable n) : Operation → PathTable n
  | .insertOrUpdate entry nowMs => (t.insertOrUpdate entry nowMs).1
  | .touch destinationHash nowMs => t.touch destinationHash nowMs
  | .dropPath destinationHash => (t.dropPath destinationHash).1
  | .removeInterface interface => t.removeInterface interface
  | .expire nowMs => PathTable.expire t nowMs
  | .clear => GenTable.clear t

def Operation.time : Operation → Option Nat
  | .insertOrUpdate _ nowMs | .touch _ nowMs | .expire nowMs => some nowMs
  | .dropPath _ | .removeInterface _ | .clear => none

/-- The tables that operations lead to, at whatever times they are done. -/
abbrev Reaches (t : PathTable n) (ops : List Operation) (t' : PathTable n) : Prop :=
  Runs perform (fun _ _ => True) t ops t'

/-- The destination has a row, alive when an operation is done. -/
def Resident (t : PathTable n) (dest : Hash16) (time : Option Nat) : Prop :=
  ∃ i e, t.entries.get i = some e ∧ e.destinationHash = dest ∧ ∀ nowMs ∈ time, nowMs < e.expiresMs

def Resides (dest : Hash16) : PathTable n → List Operation → Prop
  | t, [] => Resident t dest none
  | t, op :: ops => Resident t dest op.time ∧ Resides dest (perform t op) ops

/-- The emissions of the entries that were taken for a destination, in order. -/
def taken (dest : Hash16) : PathTable n → List Operation → List Nat
  | _, [] => []
  | t, .insertOrUpdate entry nowMs :: ops =>
      if entry.destinationHash = dest ∧ (t.insertOrUpdate entry nowMs).2 = true then
        announceEmitted entry.randomHash :: taken dest (perform t (.insertOrUpdate entry nowMs)) ops
      else taken dest (perform t (.insertOrUpdate entry nowMs)) ops
  | t, op :: ops => taken dest (perform t op) ops

theorem keyed_perform (h : t.entries.Keyed PathEntry.destinationHash) (op : Operation) :
    (perform t op).entries.Keyed PathEntry.destinationHash := by
  cases op with
  | insertOrUpdate entry nowMs => exact keyed_insertOrUpdate h entry nowMs
  | touch dest nowMs => exact keyed_touch h dest nowMs
  | dropPath dest =>
      refine h.within fun i e he => ?_
      unfold perform dropPath at he
      simp only at he
      split at he
      · rename_i j _
        rw [GenTable.freeAt, Slots.get_put] at he
        split at he
        · cases he
        · exact he
      · exact he
  | removeInterface interface => exact h.clearWhere _
  | expire nowMs => exact h.clearWhere _
  | clear => exact Slots.keyed_empty

variable {op : Operation} {e : PathEntry}

/-- A row that is there after an operation that took no entry for its destination was there before
it, perhaps with other times. -/
theorem row_of_perform {g : Nat} (h : (perform t op).Row g e) :
    (∃ e', t.Row g e' ∧ e'.destinationHash = e.destinationHash ∧ e'.randomHash = e.randomHash) ∨
      ∃ nowMs, op = .insertOrUpdate e nowMs ∧ (t.insertOrUpdate e nowMs).2 = true := by
  cases op with
  | insertOrUpdate entry nowMs =>
      rcases (insertOrUpdate_spec t entry nowMs).2 g e h with hrow | ⟨rfl, htaken⟩
      · exact .inl ⟨e, hrow, rfl, rfl⟩
      · exact .inr ⟨nowMs, rfl, htaken⟩
  | touch dest nowMs =>
      obtain ⟨e', hrow, heq⟩ := row_touch h
      refine .inl ⟨e', hrow, ?_, ?_⟩
      · rw [heq]
      · rw [heq]
  | dropPath dest => exact .inl ⟨e, row_of_dropPath h, rfl, rfl⟩
  | removeInterface interface => exact .inl ⟨e, (GenTable.row_clearWhere.mp h).1, rfl, rfl⟩
  | expire nowMs => exact .inl ⟨e, (GenTable.row_clearWhere.mp h).1, rfl, rfl⟩
  | clear => exact absurd h (GenTable.not_row_clear t g e)

variable {ops : List Operation}

theorem taken_cons_of_not
    (h : ∀ entry nowMs, op = .insertOrUpdate entry nowMs → entry.destinationHash = dest →
      (t.insertOrUpdate entry nowMs).2 = false) :
    taken dest t (op :: ops) = taken dest (perform t op) ops := by
  cases op with
  | insertOrUpdate entry nowMs =>
      rw [taken, if_neg]
      rintro ⟨hdest, htaken⟩
      rw [h entry nowMs rfl hdest] at htaken
      cases htaken
  | _ => rfl

/-- One operation during a residence: the row keeps its emission, or gives way to a later one. -/
theorem taken_cons (hkeyed : t.entries.Keyed PathEntry.destinationHash) {j : Fin n} {e' : PathEntry}
    (hi : t.entries.get i = some e) (hdest : e.destinationHash = dest)
    (hlive : ∀ nowMs ∈ op.time, nowMs < e.expiresMs) (hj : (perform t op).entries.get j = some e')
    (hdest' : e'.destinationHash = dest) (ops : List Operation) :
    announceEmitted e'.randomHash = announceEmitted e.randomHash ∧
        taken dest t (op :: ops) = taken dest (perform t op) ops ∨
      announceEmitted e.randomHash < announceEmitted e'.randomHash ∧
        taken dest t (op :: ops) =
          announceEmitted e'.randomHash :: taken dest (perform t op) ops := by
  by_cases htaken : ∃ entry nowMs, op = .insertOrUpdate entry nowMs ∧
      entry.destinationHash = dest ∧ (t.insertOrUpdate entry nowMs).2 = true
  · obtain ⟨entry, nowMs, rfl, hentry, htaken⟩ := htaken
    have hlater := ((insertOrUpdate_of_live hkeyed hi (hdest.trans hentry.symm)
      (hlive nowMs rfl)).mp htaken).1
    obtain ⟨g, hrow⟩ := row_insertOrUpdate htaken
    obtain rfl := row_unique (keyed_insertOrUpdate hkeyed entry nowMs) hrow ⟨j, hj, rfl⟩
      (hentry.trans hdest'.symm)
    refine .inr ⟨hlater, ?_⟩
    rw [taken, if_pos ⟨hentry, htaken⟩]
  · have hnot : ∀ entry nowMs, op = .insertOrUpdate entry nowMs → entry.destinationHash = dest →
        (t.insertOrUpdate entry nowMs).2 = false := by
      intro entry nowMs hop hentry
      by_contra hcontra
      exact htaken ⟨entry, nowMs, hop, hentry, Bool.not_eq_false _ ▸ hcontra⟩
    refine .inl ⟨?_, taken_cons_of_not hnot⟩
    rcases row_of_perform ⟨j, hj, rfl⟩ with ⟨old, hold, hkey, hrandom⟩ | ⟨nowMs, hop, hyes⟩
    · obtain rfl := row_unique hkeyed hold ⟨i, hi, rfl⟩ (hkey.trans (hdest'.trans hdest.symm))
      rw [hrandom]
    · rw [hnot e' nowMs hop hdest'] at hyes
      cases hyes

theorem Resides.resident (h : Resides dest t ops) :
    ∃ i e, t.entries.get i = some e ∧ e.destinationHash = dest := by
  cases ops with
  | nil =>
      obtain ⟨i, e, hi, hdest, _⟩ := h
      exact ⟨i, e, hi, hdest⟩
  | cons op ops =>
      obtain ⟨⟨i, e, hi, hdest, _⟩, _⟩ := h
      exact ⟨i, e, hi, hdest⟩

/-- Along a residence the emissions that are taken increase, and the last of them is the one that
the row has in the end. -/
theorem taken_increasing (hkeyed : t.entries.Keyed PathEntry.destinationHash)
    (hres : Resides dest t ops) (hi : t.entries.get i = some e) (hdest : e.destinationHash = dest) :
    (announceEmitted e.randomHash :: taken dest t ops).IsChain (· < ·) ∧
      ∃ j e', (ops.foldl perform t).entries.get j = some e' ∧ e'.destinationHash = dest ∧
        (announceEmitted e.randomHash :: taken dest t ops).getLast? =
          some (announceEmitted e'.randomHash) := by
  induction ops generalizing t i e with
  | nil => exact ⟨.singleton _, i, e, hi, hdest, rfl⟩
  | cons op ops ih =>
      obtain ⟨⟨i', e', hi', hdest', hlive⟩, hrest⟩ := hres
      obtain rfl := hkeyed hi hi' (hdest.trans hdest'.symm)
      obtain rfl := Option.some.inj (hi.symm.trans hi')
      obtain ⟨j, e', hj, hdest'⟩ := hrest.resident
      obtain ⟨hchain, k, last, hk, hlast, hget⟩ := ih (keyed_perform hkeyed op) hrest hj hdest'
      rcases taken_cons hkeyed hi hdest hlive hj hdest' ops with ⟨hsame, heq⟩ | ⟨hlater, heq⟩
      · rw [heq, ← hsame]
        exact ⟨hchain, k, last, hk, hlast, hget⟩
      · rw [heq]
        refine ⟨.cons_cons hlater hchain, k, last, hk, hlast, ?_⟩
        rw [List.getLast?_cons_cons]
        exact hget

/-! ### The discipline of the table -/

/-- What a table does with any entry it is offered. -/
structure Disciplined (t : PathTable n) : Prop where
  keyed : t.entries.Keyed PathEntry.destinationHash
  /-- A destination with a live row takes later emissions, whatever their hops. -/
  fresh : ∀ entry old nowMs i, t.entries.get i = some old →
    old.destinationHash = entry.destinationHash → nowMs < old.expiresMs →
    ((t.insertOrUpdate entry nowMs).2 = true ↔
      announceEmitted old.randomHash < announceEmitted entry.randomHash ∧
        (old.interfaceId = entry.interfaceId ∧ old.nextHop = entry.nextHop ∧
          old.hops = entry.hops ∨ t.lastGeneration < u64Max))
  /-- Without a number, a new destination is refused and only expired rows go. -/
  exhausted : ∀ entry nowMs, New t entry.destinationHash nowMs → ¬ t.lastGeneration < u64Max →
    t.insertOrUpdate entry nowMs = (PathTable.expire t nowMs, false)
  /-- With a number, it is given the place that gives way, if there is one. -/
  admitted : ∀ entry nowMs, New t entry.destinationHash nowMs → t.lastGeneration < u64Max →
    (∃ i, GivesWay (PathTable.expire t nowMs).entries entry.bulk i ∧
      t.insertOrUpdate entry nowMs =
        ((PathTable.expire t nowMs).admitAt i entry (t.lastGeneration + 1), true)) ∨
    Crowded (PathTable.expire t nowMs).entries entry.bulk ∧
      t.insertOrUpdate entry nowMs = (PathTable.expire t nowMs, false)
  /-- A bulk newcomer never costs a live route that is not bulk. -/
  spared : ∀ entry nowMs g e, New t entry.destinationHash nowMs → entry.bulk = true → t.Row g e →
    e.bulk = false → nowMs < e.expiresMs → (t.insertOrUpdate entry nowMs).1.Row g e

theorem disciplined_of_keyed (hn : 1 ≤ n) (hkeyed : t.entries.Keyed PathEntry.destinationHash) :
    Disciplined t := by
  have hnumber (nowMs : Nat) : (PathTable.expire t nowMs).nextGeneration =
      checkedSucc t.lastGeneration := by
    unfold GenTable.nextGeneration
    rw [if_neg (Nat.one_le_iff_ne_zero.mp hn)]
    rfl
  have hexhausted (entry : PathEntry) (nowMs : Nat) (hnew : New t entry.destinationHash nowMs)
      (hlast : ¬ t.lastGeneration < u64Max) :
      t.insertOrUpdate entry nowMs = (PathTable.expire t nowMs, false) := by
    refine (insertOrUpdate_of_new hnew).2 (.inr ?_)
    rw [hnumber, checkedSucc, if_neg hlast]
  have hadmitted (entry : PathEntry) (nowMs : Nat) (hnew : New t entry.destinationHash nowMs)
      (hlast : t.lastGeneration < u64Max) :
      (∃ i, GivesWay (PathTable.expire t nowMs).entries entry.bulk i ∧
        t.insertOrUpdate entry nowMs =
          ((PathTable.expire t nowMs).admitAt i entry (t.lastGeneration + 1), true)) ∨
      Crowded (PathTable.expire t nowMs).entries entry.bulk ∧
        t.insertOrUpdate entry nowMs = (PathTable.expire t nowMs, false) := by
    have hg : (PathTable.expire t nowMs).nextGeneration = some (t.lastGeneration + 1) := by
      rw [hnumber, checkedSucc, if_pos hlast]
    rcases chosen_cases (PathTable.expire t nowMs) entry.bulk hn with ⟨i, hi, hgives⟩ | ⟨hi, hcrowd⟩
    · exact .inl ⟨i, hgives, (insertOrUpdate_of_new hnew).1 i _ hi hg⟩
    · exact .inr ⟨hcrowd, (insertOrUpdate_of_new hnew).2 (.inl hi)⟩
  refine ⟨hkeyed, fun entry old nowMs i hi hdest hlive => insertOrUpdate_of_live hkeyed hi hdest hlive,
    hexhausted, hadmitted, ?_⟩
  intro entry nowMs g e hnew hbulk hrow hregular hlive
  have hkept : (PathTable.expire t nowMs).Row g e := row_expire.mpr ⟨hrow, hlive⟩
  by_cases hlast : t.lastGeneration < u64Max
  · rcases hadmitted entry nowMs hnew hlast with ⟨i, hgives, heq⟩ | ⟨_, heq⟩
    · rw [heq]
      obtain ⟨j, hj, hg⟩ := hkept
      refine GenTable.row_put.mpr (.inr ⟨j, ?_, hj, hg⟩)
      rintro rfl
      -- the place was free or held a bulk row, and this row is neither
      rcases hgives with hfree | ⟨_, ⟨victim, hvictim, hbulk', _⟩ | ⟨hnot, _⟩⟩
      · rw [hj] at hfree
        cases hfree
      · obtain rfl := Option.some.inj (hj.symm.trans hvictim)
        rw [hregular] at hbulk'
        cases hbulk'
      · rw [hbulk] at hnot
        cases hnot
    · rw [heq]
      exact hkept
  · rw [hexhausted entry nowMs hnew hlast]
    exact hkept

theorem keyed_of_reaches (hrun : Reaches GenTable.new ops t) :
    t.entries.Keyed PathEntry.destinationHash :=
  Runs.invariant (I := fun t : PathTable n => t.entries.Keyed PathEntry.destinationHash)
    (fun _ op _ h => keyed_perform h op) hrun Slots.keyed_empty

/-- Every table that operations lead to is disciplined, and whatever is done to it next, the
emissions stored for a destination increase strictly as long as the destination keeps a live row. -/
theorem disciplined_of_reaches (hn : 1 ≤ n) {ops : List Operation} {t : PathTable n}
    (hrun : Reaches GenTable.new ops t) :
    Disciplined t ∧
      ∀ dest later i e, t.entries.get i = some e → e.destinationHash = dest → Resides dest t later →
        (announceEmitted e.randomHash :: taken dest t later).Pairwise (· < ·) ∧
          ∃ j e', (later.foldl perform t).entries.get j = some e' ∧ e'.destinationHash = dest ∧
            (announceEmitted e.randomHash :: taken dest t later).getLast? =
              some (announceEmitted e'.randomHash) := by
  have hkeyed := keyed_of_reaches hrun
  refine ⟨disciplined_of_keyed hn hkeyed, fun dest later i e hi hdest hres => ?_⟩
  obtain ⟨hchain, hlast⟩ := taken_increasing hkeyed hres hi hdest
  exact ⟨List.isChain_iff_pairwise.mp hchain, hlast⟩

def sampleRoute (emitted : Nat) : PathEntry where
  destinationHash := Bytes.zero
  nextHop := none
  hops := 1
  interfaceId := 1
  expiresMs := 100
  lastSeenMs := 0
  packetHash := Bytes.zero
  randomHash := Bytes.ofNat 10 emitted
  publicKey := Bytes.zero
  bulk := false

def sampleTable : PathTable 1 := perform GenTable.new (.insertOrUpdate (sampleRoute 5) 0)

theorem disciplined_of_reaches_sampleTable :
    Disciplined sampleTable ∧
      (5 :: taken Bytes.zero sampleTable
        [.insertOrUpdate (sampleRoute 4) 1, .insertOrUpdate (sampleRoute 7) 2]) = [5, 7] ∧
      [5, 7].Pairwise (· < ·) := by
  have hrun : Reaches GenTable.new [.insertOrUpdate (sampleRoute 5) 0] sampleTable :=
    .cons trivial (.nil _)
  obtain ⟨hdisciplined, hincreasing⟩ := disciplined_of_reaches (by decide) hrun
  have hget : sampleTable.entries.get ⟨0, by decide⟩ = some (sampleRoute 5) := by decide +kernel
  have htaken : taken Bytes.zero sampleTable
      [.insertOrUpdate (sampleRoute 4) 1, .insertOrUpdate (sampleRoute 7) 2] = [7] := by
    decide +kernel
  have hres : Resides Bytes.zero sampleTable
      [.insertOrUpdate (sampleRoute 4) 1, .insertOrUpdate (sampleRoute 7) 2] :=
    ⟨⟨⟨0, by decide⟩, sampleRoute 5, hget, rfl, by decide⟩,
      ⟨⟨0, by decide⟩, sampleRoute 5, by decide +kernel, rfl, by decide⟩,
      ⟨0, by decide⟩, sampleRoute 7, by decide +kernel, rfl, by decide⟩
  have hpair := (hincreasing Bytes.zero _ ⟨0, by decide⟩ (sampleRoute 5) hget rfl hres).1
  rw [htaken] at hpair
  refine ⟨hdisciplined, by rw [htaken], ?_⟩
  have hemitted : announceEmitted (sampleRoute 5).randomHash = 5 := by decide +kernel
  rw [hemitted] at hpair
  exact hpair

end PathTable

end ReticulumLite
