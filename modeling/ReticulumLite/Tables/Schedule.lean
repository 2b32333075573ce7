import ReticulumLite.Tables.Transit
import Mathlib.Data.Prod.Lex
import Mathlib.Data.Finset.Card

/-!
# The order of scheduled announces

A router owes an announce to several interfaces, and lets each have it when its gate opens. The rows
are searched by one order, fewest hops and then the earliest: from the front for the next release,
from the back for the one given up in a full table. What is owed is a set of pairs of a row and a
place, and a release takes exactly one out of it.
-/

namespace ReticulumLite

open Bounded

namespace ScheduledAnnounce

/-- What announces are ordered by: their hops, then their time. -/
def releaseKey (e : ScheduledAnnounce) : Nat ×ₗ Nat := toLex (e.hops.toNat, e.expiresMs)

def cleared (e : ScheduledAnnounce) (slot : Fin 8) : ScheduledAnnounce :=
  { e with pendingTargets := e.pendingTargets &&& ~~~ slotBit slot }

def Owes (e : ScheduledAnnounce) (slot : Fin 8) : Prop := e.pendingTargets.getLsbD slot.val = true

def Done (e : ScheduledAnnounce) : Prop := e.pendingOnly = true ∧ e.pendingTargets = 0

instance (e : ScheduledAnnounce) : Decidable e.Done := inferInstanceAs (Decidable (_ ∧ _))

theorem releasePrecedes_eq (e e' : ScheduledAnnounce) :
    releasePrecedes e.hops e.expiresMs e'.hops e'.expiresMs =
      decide (e.releaseKey < e'.releaseKey) := by
  rw [Bool.eq_iff_iff, decide_eq_true_eq]
  unfold releasePrecedes releaseKey
  simp only [Bool.or_eq_true, Bool.and_eq_true, decide_eq_true_eq, Prod.Lex.toLex_lt_toLex,
    UInt8.lt_iff_toNat_lt, UInt8.toNat_inj]

theorem owes_cleared {e : ScheduledAnnounce} {slot slot' : Fin 8} :
    (e.cleared slot).Owes slot' ↔ e.Owes slot' ∧ slot ≠ slot' := by
  simp only [Owes, cleared, getLsbD_clear_slotBit, Bool.and_eq_true, Bool.not_eq_true',
    decide_eq_false_iff_not, ne_eq]

end ScheduledAnnounce

namespace AnnounceSchedule

open ScheduledAnnounce

variable {n : Nat} {t : AnnounceSchedule n} {slot : Fin 8} {nowMs : Nat}

theorem settle_eq (e : ScheduledAnnounce) (slot : Fin 8) :
    settle e slot = if (e.cleared slot).Done then none else some (e.cleared slot) := by
  by_cases hdone : (e.cleared slot).Done
  · rw [if_pos hdone]
    refine if_neg ?_
    rintro (hleft | hleft)
    · exact hleft hdone.2
    · exact Bool.false_ne_true (hleft.symm.trans hdone.1)
  · rw [if_neg hdone]
    refine if_pos ?_
    cases honly : (e.cleared slot).pendingOnly with
    | false => exact .inr honly
    | true => exact .inl fun hnone => hdone ⟨honly, hnone⟩

variable {i : Fin n} {e : ScheduledAnnounce}

theorem get_expire : (expire t nowMs).get i = some e ↔ t.get i = some e ∧ nowMs < e.expiresMs := by
  simp [expire]

/-! ### Releasing -/

/-- The row that a place is to get next: the first of the least among those that run and are owed
to it. -/
structure Next (t : AnnounceSchedule n) (slot : Fin 8) (nowMs : Nat) (i : Fin n)
    (e : ScheduledAnnounce) : Prop where
  holds : t.get i = some e
  live : nowMs < e.expiresMs
  owes : e.Owes slot
  least : ∀ j e', t.get j = some e' → nowMs < e'.expiresMs → e'.Owes slot →
    e.releaseKey ≤ e'.releaseKey ∧ (j < i → e.releaseKey < e'.releaseKey)

theorem releasePending_cases (t : AnnounceSchedule n) (slot : Fin 8) (nowMs : Nat) :
    (∀ i e, t.get i = some e → nowMs < e.expiresMs → ¬ e.Owes slot) ∧
        t.releasePending slot nowMs = (t.expire nowMs, none) ∨
      ∃ i e, t.Next slot nowMs i e ∧ t.releasePending slot nowMs =
        ((t.expire nowMs).put i (if (e.cleared slot).Done then none else some (e.cleared slot)),
          some (e.cleared slot)) := by
  have hbetter : ∀ a b : ScheduledAnnounce,
      releasePrecedes a.hops a.expiresMs b.hops b.expiresMs = decide (a.releaseKey < b.releaseKey) :=
    releasePrecedes_eq
  unfold releasePending
  dsimp only
  split
  · rename_i hnone
    refine .inl ⟨fun i e he hlive howes => ?_, rfl⟩
    have hnot := Slots.selectBy_eq_none hbetter hnone i e (get_expire.mpr ⟨he, hlive⟩)
    rw [show e.pendingTargets.getLsbD slot.val = true from howes] at hnot
    cases hnot
  · rename_i i e hsel
    obtain ⟨hget, howes, hleast⟩ := Slots.selectBy_eq_some hbetter hsel
    have hfirst := Slots.selectBy_first hbetter hsel
    obtain ⟨hget, hlive⟩ := get_expire.mp hget
    refine .inr ⟨i, e, ⟨hget, hlive, howes, fun j e' he' hlive' howes' => ?_⟩, ?_⟩
    · have he' := get_expire.mpr ⟨he', hlive'⟩
      exact ⟨hleast j e' he' howes', fun hj => hfirst j e' hj he' howes'⟩
    · rw [settle_eq]
      rfl

/-! ### What is owed -/

def Owed (t : AnnounceSchedule n) (nowMs : Nat) (pair : Hash16 × Fin 8) : Prop :=
  ∃ e, t.Holds e ∧ nowMs < e.expiresMs ∧ e.destinationHash = pair.1 ∧ e.Owes pair.2

/-- Release what is owed to one place after another, all at one time. -/
def releases (nowMs : Nat) : AnnounceSchedule n → List (Fin 8) →
    AnnounceSchedule n × List (Fin 8 × ScheduledAnnounce)
  | t, [] => (t, [])
  | t, slot :: slots =>
      let released := t.releasePending slot nowMs
      let rest := releases nowMs released.1 slots
      (rest.1, (released.2.map fun e => (slot, e)).toList ++ rest.2)

theorem owed_expire {pair : Hash16 × Fin 8} : (t.expire nowMs).Owed nowMs pair ↔ t.Owed nowMs pair := by
  constructor
  · rintro ⟨e, ⟨i, hi⟩, hrest⟩
    exact ⟨e, ⟨i, (get_expire.mp hi).1⟩, hrest⟩
  · rintro ⟨e, ⟨i, hi⟩, hlive, hrest⟩
    exact ⟨e, ⟨i, get_expire.mpr ⟨hi, hlive⟩⟩, hlive, hrest⟩

variable {e' : ScheduledAnnounce}

theorem get_release {j : Fin n} :
    (Slots.put (t.expire nowMs) i (if (e.cleared slot).Done then none else some (e.cleared slot))).get j =
        some e' ↔
      j = i ∧ ¬ (e.cleared slot).Done ∧ e' = e.cleared slot ∨
        j ≠ i ∧ t.get j = some e' ∧ nowMs < e'.expiresMs := by
  rw [Slots.get_put]
  by_cases hij : i = j
  · rw [if_pos hij]
    by_cases hdone : (e.cleared slot).Done
    · simp [hdone, hij]
    · simp [hdone, hij, eq_comm]
  · rw [if_neg hij, get_expire]
    simp [Ne.symm hij]

theorem not_done_of_owes (h : e.Owes slot) : ¬ e.Done := by
  rintro ⟨_, hnone⟩
  rw [Owes, hnone] at h
  simp at h

theorem owed_of_next (hkeyed : t.Keyed ScheduledAnnounce.destinationHash)
    (hnext : t.Next slot nowMs i e) {pair : Hash16 × Fin 8} :
    Owed (Slots.put (t.expire nowMs) i
        (if (e.cleared slot).Done then none else some (e.cleared slot))) nowMs pair ↔
      t.Owed nowMs pair ∧ pair ≠ (e.destinationHash, slot) := by
  obtain ⟨dest, slot'⟩ := pair
  constructor
  · rintro ⟨e', ⟨j, hj⟩, hlive, hdest, howes⟩
    rcases get_release.mp hj with ⟨_, _, rfl⟩ | ⟨hji, hget, _⟩
    · obtain ⟨howes, hne⟩ := owes_cleared.mp howes
      exact ⟨⟨e, ⟨i, hnext.holds⟩, hlive, hdest, howes⟩, fun heq => hne (Prod.mk.inj heq).2.symm⟩
    · refine ⟨⟨e', ⟨j, hget⟩, hlive, hdest, howes⟩, fun heq => hji ?_⟩
      exact hkeyed hget hnext.holds (hdest.trans (Prod.mk.inj heq).1)
  · rintro ⟨⟨e', ⟨j, hj⟩, hlive, hdest, howes⟩, hne⟩
    by_cases hji : j = i
    · subst hji
      obtain rfl := Option.some.inj (hnext.holds.symm.trans hj)
      have hslot : slot ≠ slot' := fun heq => hne (Prod.ext hdest.symm heq.symm)
      have hleft : (e.cleared slot).Owes slot' := owes_cleared.mpr ⟨howes, hslot⟩
      exact ⟨e.cleared slot, ⟨j, get_release.mpr (.inl ⟨rfl, not_done_of_owes hleft, rfl⟩)⟩, hlive,
        hdest, hleft⟩
    · exact ⟨e', ⟨j, get_release.mpr (.inr ⟨hji, hj, hlive⟩)⟩, hlive, hdest, howes⟩

variable {t' : AnnounceSchedule n}

theorem Lessens.holds (h : t.Lessens t') (he' : t'.Holds e') :
    ∃ e : ScheduledAnnounce, t.Holds e ∧ e.Lessened e' := by
  obtain ⟨i, hi⟩ := he'
  obtain ⟨e, he, hless⟩ := h i e' hi
  exact ⟨e, ⟨i, he⟩, hless⟩

variable {slots : List (Fin 8)}

theorem releases_mem {r : Fin 8 × ScheduledAnnounce} (h : r ∈ (releases nowMs t slots).2) :
    ∃ e, t.Holds e ∧ nowMs < e.expiresMs ∧ e.Owes r.1 ∧ r.2.destinationHash = e.destinationHash ∧
      r.2.releaseKey = e.releaseKey := by
  induction slots generalizing t with
  | nil => cases h
  | cons slot slots ih =>
      have hless := lessens_releasePending t slot nowMs
      rw [releases, List.mem_append, Option.mem_toList] at h
      rcases h with h | h
      · obtain ⟨released, hreleased, rfl⟩ := Option.map_eq_some_iff.mp h
        rcases releasePending_cases t slot nowMs with ⟨_, heq⟩ | ⟨i, e, hnext, heq⟩
        · rw [heq] at hreleased
          cases hreleased
        · rw [heq] at hreleased
          obtain rfl := Option.some.inj hreleased
          exact ⟨e, ⟨i, hnext.holds⟩, hnext.live, hnext.owes, rfl, rfl⟩
      · obtain ⟨e', he', hlive, howes, hdest, hkey⟩ := ih h
        obtain ⟨e, he, hle⟩ := hless.holds he'
        rw [hle.same] at hlive hdest hkey
        exact ⟨e, he, hlive, hle.pending _ howes, hdest, hkey⟩

def pairOf (r : Fin 8 × ScheduledAnnounce) : Hash16 × Fin 8 := (r.2.destinationHash, r.1)

/-- Every pair that is owed is released once, in order, or still owed. -/
structure ReleasesOnce (t : AnnounceSchedule n) (nowMs : Nat) (t' : AnnounceSchedule n)
    (released : List (Fin 8 × ScheduledAnnounce)) : Prop where
  once : (released.map pairOf).Nodup
  owed : ∀ pair, t.Owed nowMs pair ↔ pair ∈ released.map pairOf ∨ t'.Owed nowMs pair
  gone : ∀ pair ∈ released.map pairOf, ¬ t'.Owed nowMs pair
  ordered : ∀ slot, (released.filter fun r => decide (r.1 = slot)).Pairwise
    fun r r' => r.2.releaseKey ≤ r'.2.releaseKey

theorem ReleasesOnce.cons {released : List (Fin 8 × ScheduledAnnounce)}
    (hkeyed : t.Keyed ScheduledAnnounce.destinationHash) (hnext : t.Next slot nowMs i e)
    (h : ReleasesOnce (Slots.put (t.expire nowMs) i
      (if (e.cleared slot).Done then none else some (e.cleared slot))) nowMs t' released)
    (hkeys : ∀ r ∈ released, r.1 = slot → e.releaseKey ≤ r.2.releaseKey) :
    t.ReleasesOnce nowMs t' ((slot, e.cleared slot) :: released) := by
  have howed : ∀ pair, t.Owed nowMs pair ∧ pair ≠ (e.destinationHash, slot) ↔
      pair ∈ released.map pairOf ∨ t'.Owed nowMs pair :=
    fun pair => (owed_of_next hkeyed hnext).symm.trans (h.owed pair)
  have hpair : pairOf (slot, e.cleared slot) = (e.destinationHash, slot) := rfl
  have hnot : ¬ ((e.destinationHash, slot) ∈ released.map pairOf ∨
      t'.Owed nowMs (e.destinationHash, slot)) := fun hleft => ((howed _).mpr hleft).2 rfl
  have hfirst : t.Owed nowMs (e.destinationHash, slot) :=
    ⟨e, ⟨i, hnext.holds⟩, hnext.live, rfl, hnext.owes⟩
  constructor
  · rw [List.map_cons, hpair, List.nodup_cons]
    exact ⟨fun hmem => hnot (.inl hmem), h.once⟩
  · intro pair
    rw [List.map_cons, hpair, List.mem_cons, or_assoc, ← howed pair]
    by_cases heq : pair = (e.destinationHash, slot)
    · simp [heq, hfirst]
    · simp [heq]
  · rw [List.map_cons, hpair, List.forall_mem_cons]
    exact ⟨fun hleft => hnot (.inr hleft), h.gone⟩
  · intro slot'
    rw [List.filter_cons]
    split
    · rename_i hslot
      refine List.pairwise_cons.mpr ⟨fun r hr => ?_, h.ordered slot'⟩
      obtain ⟨hr, hslot'⟩ := List.mem_filter.mp hr
      exact hkeys r hr ((of_decide_eq_true hslot').trans (of_decide_eq_true hslot).symm)
    · exact h.ordered slot'

theorem releasesOnce (hkeyed : t.Keyed ScheduledAnnounce.destinationHash) (slots : List (Fin 8)) :
    t.ReleasesOnce nowMs (releases nowMs t slots).1 (releases nowMs t slots).2 := by
  induction slots generalizing t with
  | nil =>
      exact ⟨List.nodup_nil, fun pair => by simp [releases], by simp [releases], by simp [releases]⟩
  | cons slot slots ih =>
      have hless := lessens_releasePending t slot nowMs
      have hrest := ih (hless.keyed hkeyed)
      rw [releases]
      rcases releasePending_cases t slot nowMs with ⟨_, heq⟩ | ⟨i, e, hnext, heq⟩
      · rw [heq] at hrest ⊢
        exact ⟨hrest.once, fun pair => owed_expire.symm.trans (hrest.owed pair), hrest.gone,
          hrest.ordered⟩
      · have hkeys : ∀ r ∈ (releases nowMs (t.releasePending slot nowMs).1 slots).2, r.1 = slot →
            e.releaseKey ≤ r.2.releaseKey := by
          rintro r hr rfl
          obtain ⟨e', he', hlive, howes, _, hkey⟩ := releases_mem hr
          obtain ⟨a, ⟨j, hj⟩, hle⟩ := hless.holds he'
          rw [hle.same] at hlive hkey
          rw [hkey]
          exact (hnext.least j a hj hlive (hle.pending _ howes)).1
        rw [heq] at hrest hkeys ⊢
        exact hrest.cons hkeyed hnext hkeys

/-! ### As many calls as places -/

def owing (t : AnnounceSchedule n) (slot : Fin 8) (nowMs : Nat) : Finset (Fin n) :=
  Finset.univ.filter fun i =>
    (t.get i).any (fun e => decide (nowMs < e.expiresMs) && e.pendingTargets.getLsbD slot.val) = true

theorem mem_owing : i ∈ t.owing slot nowMs ↔
    ∃ e, t.get i = some e ∧ nowMs < e.expiresMs ∧ e.Owes slot := by
  simp only [owing, Finset.mem_filter, Finset.mem_univ, true_and, Option.any_eq_true,
    Bool.and_eq_true, decide_eq_true_eq, Owes]

theorem card_owing_le (t : AnnounceSchedule n) (slot : Fin 8) (nowMs : Nat) :
    (t.owing slot nowMs).card ≤ n :=
  (Finset.card_le_univ _).trans (Fintype.card_fin n).le

/-- A call for a place takes a row off those owed to it, if there is one, and none off others. -/
theorem owing_releasePending (t : AnnounceSchedule n) (slot slot' : Fin 8) (nowMs : Nat) :
    owing (t.releasePending slot nowMs).1 slot' nowMs ⊆ t.owing slot' nowMs ∧
      (slot = slot' → ∀ i ∈ t.owing slot' nowMs,
        ∃ j ∈ t.owing slot' nowMs, j ∉ owing (t.releasePending slot nowMs).1 slot' nowMs) := by
  constructor
  · intro i hi
    obtain ⟨e', he', hlive, howes⟩ := mem_owing.mp hi
    obtain ⟨e, he, hless⟩ := lessens_releasePending t slot nowMs i e' he'
    rw [hless.same] at hlive
    exact mem_owing.mpr ⟨e, he, hlive, hless.pending _ howes⟩
  · rintro rfl i hi
    obtain ⟨e, he, hlive, howes⟩ := mem_owing.mp hi
    rcases releasePending_cases t slot nowMs with ⟨hnone, _⟩ | ⟨j, a, hnext, heq⟩
    · exact absurd howes (hnone i e he hlive)
    · refine ⟨j, mem_owing.mpr ⟨a, hnext.holds, hnext.live, hnext.owes⟩, fun hj => ?_⟩
      rw [heq] at hj
      obtain ⟨e', he', _, howes'⟩ := mem_owing.mp hj
      rcases get_release.mp he' with ⟨_, _, rfl⟩ | ⟨hne, _⟩
      · exact (owes_cleared.mp howes').2 rfl
      · exact hne rfl

theorem lessens_of_release {r : Option ScheduledAnnounce}
    (h : t.releasePending slot nowMs = (t', r)) : t.Lessens t' := by
  have hless := lessens_releasePending t slot nowMs
  rwa [h] at hless

theorem card_owing_lt (h : t.releasePending slot nowMs = (t', some e)) :
    (t'.owing slot nowMs).card < (t.owing slot nowMs).card := by
  obtain ⟨hsub, hless⟩ := owing_releasePending t slot slot nowMs
  rcases releasePending_cases t slot nowMs with ⟨_, heq⟩ | ⟨i, a, hnext, heq⟩
  · rw [h] at heq
    cases heq
  · rw [h] at hsub hless
    have hi := mem_owing.mpr ⟨a, hnext.holds, hnext.live, hnext.owes⟩
    exact Finset.card_lt_card ((Finset.ssubset_iff_of_subset hsub).mpr (hless rfl i hi))

theorem card_owing_clearWhere (t : AnnounceSchedule n) (slot : Fin 8) (nowMs : Nat)
    (p : ScheduledAnnounce → Bool) :
    (owing (t.clearWhere p) slot nowMs).card ≤ (t.owing slot nowMs).card := by
  refine Finset.card_le_card fun i hi => ?_
  obtain ⟨e, he, hrest⟩ := mem_owing.mp hi
  exact mem_owing.mpr ⟨e, (Slots.get_clearWhere_eq_some.mp he).1, hrest⟩

theorem owing_releases (h : (t.owing slot nowMs).card ≤ slots.count slot) :
    owing (releases nowMs t slots).1 slot nowMs = ∅ := by
  induction slots generalizing t with
  | nil =>
      rw [List.count_nil, Nat.le_zero, Finset.card_eq_zero] at h
      exact h
  | cons slot' slots ih =>
      rw [releases]
      refine ih ?_
      obtain ⟨hsub, hless⟩ := owing_releasePending t slot' slot nowMs
      rw [List.count_cons] at h
      by_cases heq : slot' = slot
      · rcases Finset.eq_empty_or_nonempty (t.owing slot nowMs) with hnone | ⟨i, hi⟩
        · rw [hnone, Finset.subset_empty] at hsub
          rw [hsub, Finset.card_empty]
          exact Nat.zero_le _
        · obtain ⟨j, hj, hnot⟩ := hless heq i hi
          have hlt := Finset.card_lt_card ((Finset.ssubset_iff_of_subset hsub).mpr ⟨j, hj, hnot⟩)
          rw [if_pos (by simpa using heq)] at h
          omega
      · rw [if_neg (by simpa using heq)] at h
        exact (Finset.card_le_card hsub).trans h

theorem not_owed_releases (h : n ≤ slots.count slot) (dest : Hash16) :
    ¬ (releases nowMs t slots).1.Owed nowMs (dest, slot) := by
  rintro ⟨e, ⟨i, hi⟩, hlive, _, howes⟩
  have hcard : (t.owing slot nowMs).card ≤ slots.count slot := (card_owing_le t slot nowMs).trans h
  have hmem := mem_owing.mpr ⟨e, hi, hlive, howes⟩
  rw [owing_releases hcard] at hmem
  exact absurd hmem (Finset.notMem_empty i)

/-! ### Forgetting a place -/

theorem get_clearTarget :
    (t.clearTarget slot).get i = some e' ↔
      ∃ e, t.get i = some e ∧ e' = e.cleared slot ∧ ¬ (e.cleared slot).Done := by
  rw [clearTarget, List.Vector.get_map, Option.bind_eq_some_iff]
  refine exists_congr fun e => and_congr_right fun _ => ?_
  rw [settle_eq]
  by_cases hdone : (e.cleared slot).Done
  · simp [hdone]
  · simp [hdone, eq_comm]

/-! ### Making room -/

/-- The row that a full schedule gives up: the first of the greatest among those that only wait for
an interface; without one, the first of those that end soonest. -/
structure Yields (t : AnnounceSchedule n) (i : Fin n) (e : ScheduledAnnounce) : Prop where
  holds : t.get i = some e
  full : ∀ j, ∃ e', t.get j = some e'
  choice : e.pendingOnly = true ∧ (∀ j e', t.get j = some e' → e'.pendingOnly = true →
        e'.releaseKey ≤ e.releaseKey ∧ (j < i → e'.releaseKey < e.releaseKey)) ∨
      (∀ j e', t.get j = some e' → e'.pendingOnly = false) ∧
        ∀ j e', t.get j = some e' → e.expiresMs ≤ e'.expiresMs ∧ (j < i → e.expiresMs < e'.expiresMs)

theorem releasePrecedes_toDual (a b : ScheduledAnnounce) :
    releasePrecedes b.hops b.expiresMs a.hops a.expiresMs =
      decide (OrderDual.toDual a.releaseKey < OrderDual.toDual b.releaseKey) :=
  releasePrecedes_eq b a

theorem yields_of_last (hfull : ∀ j, ∃ e', t.get j = some e') (h : t.lastReleasedPending = some i) :
    ∃ e, t.Yields i e := by
  obtain ⟨⟨i', e⟩, hsel, rfl⟩ := Option.map_eq_some_iff.mp h
  obtain ⟨hget, honly, hgreatest⟩ := Slots.selectBy_eq_some releasePrecedes_toDual hsel
  have hfirst := Slots.selectBy_first releasePrecedes_toDual hsel
  exact ⟨e, hget, hfull, .inl ⟨honly, fun j e' he' honly' =>
    ⟨hgreatest j e' he' honly', fun hj => hfirst j e' hj he' honly'⟩⟩⟩

theorem yields_of_oldest (hfull : ∀ j, ∃ e', t.get j = some e')
    (hlast : t.lastReleasedPending = none) (h : oldestIndex t ScheduledAnnounce.expiresMs = some i) :
    ∃ e, t.Yields i e := by
  have hnone : ∀ j e', t.get j = some e' → e'.pendingOnly = false :=
    Slots.selectBy_eq_none releasePrecedes_toDual (Option.map_eq_none_iff.mp hlast)
  obtain ⟨⟨i', e⟩, hsel, rfl⟩ := Option.map_eq_some_iff.mp h
  obtain ⟨hget, _, hleast⟩ := Slots.selectBy_eq_some (fun a b => rfl) hsel
  have hfirst := Slots.selectBy_first (fun a b => rfl) hsel
  exact ⟨e, hget, hfull, .inr ⟨hnone, fun j e' he' =>
    ⟨hleast j e' he' rfl, fun hj => hfirst j e' hj he' rfl⟩⟩⟩

/-- An insertion writes one place of what still runs: that of the destination; if it is new, one that
is free; if none is, that of the row that is given up. -/
theorem insert_cases (t : AnnounceSchedule n) (entry : ScheduledAnnounce) (nowMs : Nat) :
    n = 0 ∨ ∃ i, t.insert entry nowMs = (t.expire nowMs).put i (some entry) ∧
      ((∃ old, (t.expire nowMs).get i = some old ∧ old.destinationHash = entry.destinationHash) ∨
        (∀ j old, (t.expire nowMs).get j = some old →
            old.destinationHash ≠ entry.destinationHash) ∧
          ((t.expire nowMs).get i = none ∨ ∃ e, (t.expire nowMs).Yields i e)) := by
  rcases Nat.eq_zero_or_pos n with hn | hn
  · exact .inl hn
  right
  unfold insert
  dsimp only
  cases hindex : (t.expire nowMs).indexOf fun old =>
      decide (old.destinationHash = entry.destinationHash) with
  | some i =>
      obtain ⟨⟨old, hold, hsame⟩, _⟩ := Slots.indexOf_eq_some.mp hindex
      exact ⟨i, rfl, .inl ⟨old, hold, of_decide_eq_true hsame⟩⟩
  | none =>
      have habsent : ∀ j old, (t.expire nowMs).get j = some old →
          old.destinationHash ≠ entry.destinationHash :=
        fun j old hold => of_decide_eq_false (Slots.indexOf_eq_none.mp hindex j old hold)
      cases hfree : (t.expire nowMs).free with
      | some i => exact ⟨i, rfl, .inr ⟨habsent, .inl (Slots.get_of_free hfree)⟩⟩
      | none =>
          have hfull := Slots.free_eq_none.mp hfree
          cases hlast : (t.expire nowMs).lastReleasedPending with
          | some i => exact ⟨i, rfl, .inr ⟨habsent, .inr (yields_of_last hfull hlast)⟩⟩
          | none =>
              obtain ⟨i, hi⟩ := exists_free_or_oldest (t.expire nowMs) ScheduledAnnounce.expiresMs hn
              rw [hfree, Option.none_or] at hi
              refine ⟨i, ?_, .inr ⟨habsent, .inr (yields_of_oldest hfull hlast hi)⟩⟩
              rw [Option.none_or, Option.none_or, hi]

/-! ### Every run -/

inductive Operation
  | clear
  | insert (entry : ScheduledAnnounce) (nowMs : Nat)
  | releasePending (slot : Fin 8) (nowMs : Nat)
  | clearTarget (slot : Fin 8)
  | popDue (nowMs : Nat)
  | modify (destinationHash : Hash16) (f : ScheduledAnnounce → ScheduledAnnounce)
  | remove (destinationHash : Hash16)
  | removeInterface (interface : InterfaceId)
  | expire (nowMs : Nat)

/-- Writing through the entry of a destination leaves it the entry of that destination. -/
def Operation.KeepsDestination : Operation → Prop
  | .modify _ f => ∀ e : ScheduledAnnounce, (f e).destinationHash = e.destinationHash
  | _ => True

def perform (t : AnnounceSchedule n) : Operation → AnnounceSchedule n
  | .clear => Slots.empty
  | .insert entry nowMs => t.insert entry nowMs
  | .releasePending slot nowMs => (t.releasePending slot nowMs).1
  | .clearTarget slot => t.clearTarget slot
  | .popDue nowMs => (t.popDue nowMs).1
  | .modify destinationHash f => t.modify destinationHash f
  | .remove destinationHash => t.remove destinationHash
  | .removeInterface interface => t.removeInterface interface
  | .expire nowMs => t.expire nowMs

theorem keyed_modify (hkeyed : t.Keyed ScheduledAnnounce.destinationHash) (dest : Hash16)
    {f : ScheduledAnnounce → ScheduledAnnounce}
    (hf : ∀ e : ScheduledAnnounce, (f e).destinationHash = e.destinationHash) :
    (t.modify dest f).Keyed ScheduledAnnounce.destinationHash := by
  unfold modify
  split
  · exact hkeyed
  · rename_i i hi
    obtain ⟨⟨e, he, _⟩, _⟩ := Slots.indexOf_eq_some.mp hi
    rw [he]
    refine hkeyed.put_same he fun e' he' => ?_
    obtain rfl := Option.some.inj he'
    exact hf e

theorem keyed_perform (hkeyed : t.Keyed ScheduledAnnounce.destinationHash) {op : Operation}
    (hop : op.KeepsDestination) : (t.perform op).Keyed ScheduledAnnounce.destinationHash := by
  cases op with
  | clear => exact Slots.keyed_empty
  | insert entry nowMs => exact keyed_insert hkeyed entry nowMs
  | releasePending slot nowMs => exact (lessens_releasePending t slot nowMs).keyed hkeyed
  | clearTarget slot => exact (lessens_clearTarget t slot).keyed hkeyed
  | popDue nowMs => exact (lessens_popDue t nowMs).keyed hkeyed
  | modify dest f => exact keyed_modify hkeyed dest hop
  | remove dest => exact hkeyed.clearWhere _
  | removeInterface interface => exact hkeyed.clearWhere _
  | expire nowMs => exact hkeyed.clearWhere _

structure Orderly (t : AnnounceSchedule n) : Prop where
  unique : t.Keyed ScheduledAnnounce.destinationHash
  /-- Nothing is released when nothing that runs is owed to the place, and only then. -/
  released_none : ∀ slot nowMs, (t.releasePending slot nowMs).2 = none ↔
    ∀ i e, t.get i = some e → nowMs < e.expiresMs → ¬ e.Owes slot
  /-- What is released is the next row; it loses that bit, and its place when nothing is left. -/
  released_some : ∀ slot nowMs r, (t.releasePending slot nowMs).2 = some r →
    ∃ i e, t.Next slot nowMs i e ∧ r = e.cleared slot ∧
      ∀ j e', (t.releasePending slot nowMs).1.get j = some e' ↔
        j = i ∧ ¬ (e.cleared slot).Done ∧ e' = e.cleared slot ∨
          j ≠ i ∧ t.get j = some e' ∧ nowMs < e'.expiresMs
  /-- Calls at one time release what is owed once and in order. -/
  releases_once : ∀ nowMs slots,
    t.ReleasesOnce nowMs (releases nowMs t slots).1 (releases nowMs t slots).2
  /-- Enough calls for a place release all that is owed to it. -/
  releases_all : ∀ nowMs slots slot, n ≤ slots.count slot →
    ∀ dest, ¬ (releases nowMs t slots).1.Owed nowMs (dest, slot)
  clears : ∀ slot i e', (t.clearTarget slot).get i = some e' ↔
    ∃ e, t.get i = some e ∧ e' = e.cleared slot ∧ ¬ (e.cleared slot).Done
  /-- One place is written: that of the destination, a free one, or that of the row given up. -/
  inserts : ∀ entry nowMs, n = 0 ∨ ∃ i,
    t.insert entry nowMs = (t.expire nowMs).put i (some entry) ∧
      ((∃ old, (t.expire nowMs).get i = some old ∧ old.destinationHash = entry.destinationHash) ∨
        (∀ j old, (t.expire nowMs).get j = some old →
            old.destinationHash ≠ entry.destinationHash) ∧
          ((t.expire nowMs).get i = none ∨ ∃ e, (t.expire nowMs).Yields i e))

/-- Every schedule that its operations lead to is orderly, whatever the times they are given. -/
theorem orderly_of_runs {ops : List Operation}
    (hrun : Runs perform (fun _ op => op.KeepsDestination) (Slots.empty : AnnounceSchedule n) ops t) :
    t.Orderly := by
  have hkeyed : t.Keyed ScheduledAnnounce.destinationHash :=
    hrun.invariant (fun _ _ hop hkeyed => keyed_perform hkeyed hop) Slots.keyed_empty
  refine ⟨hkeyed, fun slot nowMs => ?_, fun slot nowMs r hr => ?_,
    fun nowMs slots => releasesOnce hkeyed slots, fun nowMs slots slot => not_owed_releases,
    fun slot i e' => get_clearTarget, insert_cases t⟩
  · rcases releasePending_cases t slot nowMs with ⟨hnone, heq⟩ | ⟨i, e, hnext, heq⟩
    · rw [heq]
      exact iff_of_true rfl hnone
    · rw [heq]
      refine iff_of_false (by simp) fun hnone => ?_
      exact hnone i e hnext.holds hnext.live hnext.owes
  · rcases releasePending_cases t slot nowMs with ⟨_, heq⟩ | ⟨i, e, hnext, heq⟩
    · rw [heq] at hr
      cases hr
    · rw [heq] at hr ⊢
      exact ⟨i, e, hnext, (Option.some.inj hr).symm, fun j e' => get_release⟩

private def waiting (tag hops : UInt8) (expiresMs : Nat) : ScheduledAnnounce where
  destinationHash := List.Vector.replicate 16 tag
  packet := PacketBuffer.new
  interfaceId := 1
  dueMs := pendingOnlyDue
  expiresMs := expiresMs
  blockRebroadcast := false
  hops := hops
  retries := 0
  localRebroadcasts := 0
  pendingTargets := 3

private def crowding : List Operation :=
  [.insert (waiting 1 4 900) 0, .insert (waiting 2 7 800) 10, .insert (waiting 3 5 900) 20]

/-- The farther of two announces that wait is given up for a third, and the nearer one released. -/
theorem orderly_of_runs_crowding :
    Orderly (crowding.foldl perform (Slots.empty : AnnounceSchedule 2)) ∧
      (releases 30 (crowding.foldl perform (Slots.empty : AnnounceSchedule 2)) [0, 0]).2.map
        (·.2.hops) = [4, 5] := by
  have hrun : Runs perform (fun _ op => op.KeepsDestination) (Slots.empty : AnnounceSchedule 2)
      crowding (crowding.foldl perform Slots.empty) :=
    .cons trivial (.cons trivial (.cons trivial (.nil _)))
  exact ⟨orderly_of_runs hrun, by decide +kernel⟩

end AnnounceSchedule

end ReticulumLite
