import Mathlib.Data.Vector.Basic
import Mathlib.Data.Fintype.Card
import Mathlib.Data.List.FinRange
import Mathlib.Order.Lattice

/-!
# Fixed-capacity slot arrays

A slot array has `n` places, each free or holding one entry. A table over it looks for the first
place with a property, picks the best entry by some order, overwrites one place, or frees every
place whose entry has a property. Each comes with one lemma that says what it leaves in every place,
so that no later proof walks an array again.
-/

namespace Bounded

/-- A fixed-capacity array of optional entries. -/
abbrev Slots (α : Type) (n : Nat) := List.Vector (Option α) n

def firstIndex {n : Nat} (p : Fin n → Bool) : Option (Fin n) := (List.finRange n).find? p

theorem firstIndex_eq_some {n : Nat} {p : Fin n → Bool} {i : Fin n} :
    firstIndex p = some i ↔ p i = true ∧ ∀ j < i, p j = false := by
  unfold firstIndex
  rw [List.find?_eq_some_iff_getElem]
  constructor
  · rintro ⟨hp, k, hk, hget, hbefore⟩
    have hk' : k < n := by simpa using hk
    have hi : i = ⟨k, hk'⟩ := by
      rw [← hget, List.getElem_finRange]
      rfl
    refine ⟨hp, fun j hj => ?_⟩
    have hjk : j.val < k := by
      rw [hi] at hj
      exact hj
    have := hbefore j.val hjk
    simpa [List.getElem_finRange] using this
  · rintro ⟨hp, hbefore⟩
    refine ⟨hp, i.val, by simp, by simp [List.getElem_finRange], fun j hj => ?_⟩
    have := hbefore ⟨j, hj.trans i.isLt⟩ hj
    simpa [List.getElem_finRange] using this

theorem firstIndex_eq_none {n : Nat} {p : Fin n → Bool} :
    firstIndex p = none ↔ ∀ i, p i = false := by
  simp [firstIndex, List.find?_eq_none]

namespace Slots

variable {α : Type} {n : Nat}

def empty : Slots α n := List.Vector.replicate n none

@[simp] theorem get_empty (i : Fin n) : (empty : Slots α n).get i = none :=
  List.Vector.get_replicate _ _

def position (p : Option α → Bool) (s : Slots α n) : Option (Fin n) :=
  firstIndex fun i => p (s.get i)

variable {s : Slots α n} {i : Fin n}

theorem position_eq_some {p : Option α → Bool} :
    s.position p = some i ↔ p (s.get i) = true ∧ ∀ j < i, p (s.get j) = false :=
  firstIndex_eq_some

theorem position_eq_none {p : Option α → Bool} : s.position p = none ↔ ∀ i, p (s.get i) = false :=
  firstIndex_eq_none

def indexOf (p : α → Bool) (s : Slots α n) : Option (Fin n) := s.position (·.any p)

variable {p : α → Bool}

theorem indexOf_eq_some :
    s.indexOf p = some i ↔
      (∃ e, s.get i = some e ∧ p e = true) ∧ ∀ j < i, ∀ e, s.get j = some e → p e = false := by
  unfold indexOf
  rw [position_eq_some]
  refine and_congr ?_ (forall₂_congr fun j _ => ?_)
  · cases s.get i <;> simp
  · cases s.get j <;> simp

theorem indexOf_eq_none : s.indexOf p = none ↔ ∀ i e, s.get i = some e → p e = false := by
  unfold indexOf
  rw [position_eq_none]
  refine forall_congr' fun i => ?_
  cases s.get i <;> simp

def free (s : Slots α n) : Option (Fin n) := s.position Option.isNone

theorem get_of_free (h : s.free = some i) : s.get i = none := by
  simpa using (position_eq_some.mp h).1

theorem free_eq_none : s.free = none ↔ ∀ i, ∃ e, s.get i = some e := by
  unfold free
  rw [position_eq_none]
  refine forall_congr' fun i => ?_
  cases s.get i <;> simp

def find (p : α → Bool) (s : Slots α n) : Option α := (s.indexOf p).bind s.get

variable {e : α}

theorem find_eq_some : s.find p = some e ↔ ∃ i, s.indexOf p = some i ∧ s.get i = some e := by
  simp [find, Option.bind_eq_some_iff]

theorem find_mem (h : s.find p = some e) : (∃ i, s.get i = some e) ∧ p e = true := by
  obtain ⟨i, hi, he⟩ := find_eq_some.mp h
  obtain ⟨e', he', hp⟩ := (indexOf_eq_some.mp hi).1
  rw [he] at he'
  obtain rfl := Option.some.inj he'
  exact ⟨⟨i, he⟩, hp⟩

theorem find_eq_none : s.find p = none ↔ ∀ i e, s.get i = some e → p e = false := by
  rw [← indexOf_eq_none]
  constructor
  · intro h
    cases hi : s.indexOf p with
    | none => rfl
    | some i =>
        obtain ⟨e, he, _⟩ := (indexOf_eq_some.mp hi).1
        simp [find, hi, he] at h
  · intro h
    simp [find, h]

def clearWhere (p : α → Bool) (s : Slots α n) : Slots α n :=
  s.map fun slot => slot.filter fun e => !p e

@[simp] theorem get_clearWhere (p : α → Bool) (s : Slots α n) (i : Fin n) :
    (s.clearWhere p).get i = (s.get i).filter fun e => !p e :=
  List.Vector.get_map _ _ _

theorem get_clearWhere_eq_some :
    (s.clearWhere p).get i = some e ↔ s.get i = some e ∧ p e = false := by
  simp [Option.filter_eq_some_iff]

theorem indexOf_clearWhere (p q : α → Bool) (s : Slots α n) :
    (s.clearWhere q).indexOf p = s.indexOf fun e => p e && !q e := by
  unfold indexOf position
  congr 1
  funext i
  rw [get_clearWhere]
  cases s.get i with
  | none => rfl
  | some e => cases hq : q e <;> simp [hq]

theorem find_clearWhere (p q : α → Bool) (s : Slots α n) :
    (s.clearWhere q).find p = s.find fun e => p e && !q e := by
  unfold find
  rw [indexOf_clearWhere]
  cases hi : s.indexOf fun e => p e && !q e with
  | none => rfl
  | some i =>
      obtain ⟨⟨e, he, hpq⟩, _⟩ := indexOf_eq_some.mp hi
      simp only [Bool.and_eq_true, Bool.not_eq_true'] at hpq
      simp [he, hpq.2]

theorem clearWhere_eq_self (h : ∀ i e, s.get i = some e → p e = false) : s.clearWhere p = s := by
  apply List.Vector.ext
  intro i
  rw [get_clearWhere]
  cases hi : s.get i with
  | none => rfl
  | some e => simp [h i e hi]

@[simp] theorem clearWhere_clearWhere (p : α → Bool) (s : Slots α n) :
    (s.clearWhere p).clearWhere p = s.clearWhere p :=
  clearWhere_eq_self fun _ _ he => (get_clearWhere_eq_some.mp he).2

def put (s : Slots α n) (i : Fin n) (slot : Option α) : Slots α n := s.set i slot

theorem get_put (s : Slots α n) (i j : Fin n) (slot : Option α) :
    (s.put i slot).get j = if i = j then slot else s.get j :=
  List.Vector.get_set_eq_if slot

@[simp] theorem get_put_self (s : Slots α n) (i : Fin n) (slot : Option α) :
    (s.put i slot).get i = slot := by simp [get_put]

theorem get_put_of_ne {j : Fin n} (h : i ≠ j) (slot : Option α) :
    (s.put i slot).get j = s.get j := by simp [get_put, h]

variable {slot : Option α}

theorem put_of_get (h : s.get i = slot) : s.put i slot = s := by
  refine List.Vector.ext fun j => ?_
  rw [get_put]
  split
  · rename_i hij
    rw [← hij, h]
  · rfl

theorem indexOf_put_of_not (hold : ∀ e, s.get i = some e → p e = false)
    (hnew : ∀ e, slot = some e → p e = false) :
    (s.put i slot).indexOf p = s.indexOf p := by
  unfold indexOf position
  congr 1
  funext j
  rw [get_put]
  split
  · rename_i hij
    subst hij
    cases hs : s.get i with
    | none => cases slot with
      | none => rfl
      | some e => simp [hnew e rfl]
    | some e' => cases slot with
      | none => simp [hold e' hs]
      | some e => simp [hold e' hs, hnew e rfl]
  · rfl

theorem find_put_of_not (hold : ∀ e, s.get i = some e → p e = false)
    (hnew : ∀ e, slot = some e → p e = false) :
    (s.put i slot).find p = s.find p := by
  unfold find
  rw [indexOf_put_of_not hold hnew]
  cases hj : s.indexOf p with
  | none => rfl
  | some j =>
      obtain ⟨⟨e, he, hpe⟩, _⟩ := indexOf_eq_some.mp hj
      have hij : i ≠ j := by
        rintro rfl
        rw [hold e he] at hpe
        cases hpe
      exact get_put_of_ne hij _

def All (P : α → Prop) (s : Slots α n) : Prop := ∀ i e, s.get i = some e → P e

variable {P : α → Prop}

theorem all_empty : All P (empty : Slots α n) := by
  intro i e he
  simp at he

theorem All.clearWhere (h : s.All P) (p : α → Bool) : (s.clearWhere p).All P :=
  fun i e he => h i e (get_clearWhere_eq_some.mp he).1

theorem All.put (h : s.All P) (hslot : ∀ e, slot = some e → P e) : (s.put i slot).All P := by
  intro j e he
  rw [get_put] at he
  split at he
  · exact hslot e he
  · exact h j e he

theorem All.mono {Q : α → Prop} (h : s.All P) (hPQ : ∀ e, P e → Q e) : s.All Q :=
  fun i e he => hPQ e (h i e he)

/-- Whatever one array holds, the other holds in the same place. -/
def Within (s' s : Slots α n) : Prop := ∀ i e, s'.get i = some e → s.get i = some e

theorem Within.refl (s : Slots α n) : s.Within s := fun _ _ h => h

variable {s' : Slots α n}

theorem Within.trans {s'' : Slots α n} (h : s''.Within s') (h' : s'.Within s) :
    s''.Within s := fun i e he => h' i e (h i e he)

theorem within_clearWhere (p : α → Bool) (s : Slots α n) : (s.clearWhere p).Within s :=
  fun _ _ he => (get_clearWhere_eq_some.mp he).1

theorem within_empty (s : Slots α n) : (empty : Slots α n).Within s := by
  intro i e he
  simp at he

def Holds (s : Slots α n) (e : α) : Prop := ∃ i, s.get i = some e

instance [DecidableEq α] (s : Slots α n) (e : α) : Decidable (s.Holds e) :=
  inferInstanceAs (Decidable (∃ i, s.get i = some e))

theorem Within.holds (h : s'.Within s) (he : s'.Holds e) : s.Holds e := by
  obtain ⟨i, hi⟩ := he
  exact ⟨i, h i e hi⟩

theorem Within.holds_put_iff (h : s'.Within s) (i : Fin n) (e : α) :
    (∀ a, (s'.put i (some e)).Holds a → s.Holds a) ↔ s.Holds e := by
  constructor
  · intro hall
    exact hall e ⟨i, get_put_self s' i (some e)⟩
  · intro he a ha
    obtain ⟨j, hj⟩ := ha
    rw [get_put] at hj
    split at hj
    · obtain rfl := Option.some.inj hj
      exact he
    · exact h.holds ⟨j, hj⟩

/-! ### Arrays with keys -/

section Keyed

variable {κ : Type} {key : α → κ}

def Keyed (key : α → κ) (s : Slots α n) : Prop :=
  ∀ ⦃i j a b⦄, s.get i = some a → s.get j = some b → key a = key b → i = j

theorem keyed_empty : Keyed key (empty : Slots α n) := by
  intro i j a b ha
  simp at ha

variable {s : Slots α n}

theorem Keyed.clearWhere (h : s.Keyed key) (p : α → Bool) : (s.clearWhere p).Keyed key := by
  intro i j a b ha hb hkey
  exact h (get_clearWhere_eq_some.mp ha).1 (get_clearWhere_eq_some.mp hb).1 hkey

theorem Keyed.within {s' : Slots α n} (h : s.Keyed key) (hs : s'.Within s) : s'.Keyed key :=
  fun i j a b ha hb hkey => h (hs i a ha) (hs j b hb) hkey

variable {i : Fin n}

theorem Keyed.put (h : s.Keyed key) {slot : Option α}
    (hslot : ∀ e, slot = some e → ∀ j a, j ≠ i → s.get j = some a → key a ≠ key e) :
    (s.put i slot).Keyed key := by
  intro j k a b ha hb hkey
  rw [get_put] at ha hb
  by_cases hj : i = j
  · by_cases hk : i = k
    · exact hj.symm.trans hk
    · rw [if_pos hj] at ha
      rw [if_neg hk] at hb
      exact absurd hkey.symm (hslot a ha k b (Ne.symm hk) hb)
  · by_cases hk : i = k
    · rw [if_neg hj] at ha
      rw [if_pos hk] at hb
      exact absurd hkey (hslot b hb j a (Ne.symm hj) ha)
    · rw [if_neg hj] at ha
      rw [if_neg hk] at hb
      exact h ha hb hkey

theorem Keyed.put_same (h : s.Keyed key) {old : α} {slot : Option α} (hold : s.get i = some old)
    (hslot : ∀ e, slot = some e → key e = key old) :
    (s.put i slot).Keyed key := by
  refine h.put fun e he j a hj ha hkey => hj ?_
  exact h ha hold (hkey.trans (hslot e he))

/-- An array whose every key is also a key of an array that is no longer, and which lacks one of
the keys there, has a free place. -/
theorem Keyed.exists_free {β : Type} {p : Nat} {f : β → κ} {t : Slots β p} (h : s.Keyed key)
    (hp : p ≤ n) (hpartner : ∀ i a, s.get i = some a → ∃ j b, t.get j = some b ∧ f b = key a)
    {k : Fin p} {c : β} (hc : t.get k = some c) (hlacks : ∀ i a, s.get i = some a → key a ≠ f c) :
    ∃ i, s.free = some i := by
  by_contra hnone
  have hfull := free_eq_none.mp (Option.eq_none_iff_forall_not_mem.mpr fun i hi => hnone ⟨i, hi⟩)
  have hchoice : ∀ i, ∃ j a b, s.get i = some a ∧ t.get j = some b ∧ f b = key a := by
    intro i
    obtain ⟨a, ha⟩ := hfull i
    obtain ⟨j, b, hb, hkey⟩ := hpartner i a ha
    exact ⟨j, a, b, ha, hb, hkey⟩
  choose g a b ha hb hkey using hchoice
  -- partners are distinct, and none is the lacking one: too many for the other array
  have hinj : Function.Injective g := by
    intro i i' hii'
    have hbb : b i = b i' := Option.some.inj ((hb i).symm.trans (hii' ▸ hb i'))
    exact h (ha i) (ha i') ((hkey i).symm.trans (hbb ▸ hkey i'))
  have hmiss : ¬ Function.Surjective g := by
    intro hsurj
    obtain ⟨i, hi⟩ := hsurj k
    have hbc : b i = c := Option.some.inj ((hb i).symm.trans (hi ▸ hc))
    exact hlacks i (a i) (ha i) (hbc ▸ (hkey i).symm)
  have hcard := Fintype.card_lt_of_injective_not_surjective g hinj hmiss
  rw [Fintype.card_fin, Fintype.card_fin] at hcard
  exact absurd hcard (not_lt.mpr hp)

theorem Keyed.exists_keys (h : s.Keyed key) (hfull : ∀ i, ∃ e, s.get i = some e) :
    ∃ keys : Finset κ, keys.card = n ∧ ∀ k ∈ keys, ∃ e, s.Holds e ∧ key e = k := by
  choose e he using hfull
  have hinj : Function.Injective fun i => key (e i) := fun i j hij => h (he i) (he j) hij
  refine ⟨Finset.univ.map ⟨_, hinj⟩, by simp, fun k hk => ?_⟩
  obtain ⟨i, _, hi⟩ := Finset.mem_map.mp hk
  exact ⟨e i, ⟨i, he i⟩, hi⟩

variable [DecidableEq κ]

variable {e : α}

theorem Keyed.put_of_absent (h : s.Keyed key)
    (habsent : s.indexOf (fun old => decide (key old = key e)) = none) (i : Fin n) :
    (s.put i (some e)).Keyed key := by
  refine h.put fun e' he' j a _ ha => ?_
  obtain rfl := Option.some.inj he'
  simpa using indexOf_eq_none.mp habsent j a ha

theorem Keyed.put_indexOf (h : s.Keyed key)
    (hi : s.indexOf (fun old => decide (key old = key e)) = some i) :
    (s.put i (some e)).Keyed key := by
  obtain ⟨⟨old, hold, hkey⟩, _⟩ := indexOf_eq_some.mp hi
  refine h.put_same hold fun e' he' => ?_
  obtain rfl := Option.some.inj he'
  exact (of_decide_eq_true hkey).symm

theorem Keyed.indexOf_eq (h : s.Keyed key) {q : α → Bool} (he : s.get i = some e) (hq : q e = true) :
    s.indexOf (fun e' => decide (key e' = key e) && q e') = some i := by
  refine indexOf_eq_some.mpr ⟨⟨e, he, by simpa using hq⟩, fun j hj a ha => ?_⟩
  by_cases hkey : key a = key e
  · exact absurd (h ha he hkey) (ne_of_lt hj)
  · simp [hkey]

theorem Keyed.find_eq (h : s.Keyed key) {q : α → Bool} (he : s.get i = some e) (hq : q e = true) :
    s.find (fun e' => decide (key e' = key e) && q e') = some e :=
  find_eq_some.mpr ⟨i, h.indexOf_eq he hq, he⟩

end Keyed

/-! ### The best entry

One pass over the array that keeps the best candidate seen so far. A later entry replaces the kept
one only when it is strictly better, so among equals the first place wins. -/

def keepBetter (candidate : α → Bool) (better : α → α → Bool) (s : Slots α n)
    (kept : Option (Fin n × α)) (i : Fin n) : Option (Fin n × α) :=
  match (s.get i).filter candidate with
  | none => kept
  | some e =>
      match kept with
      | none => some (i, e)
      | some (j, old) => if better e old then some (i, e) else some (j, old)

/-- The first best candidate and the place that holds it. -/
def selectBy (candidate : α → Bool) (better : α → α → Bool) (s : Slots α n) :
    Option (Fin n × α) :=
  (List.finRange n).foldl (s.keepBetter candidate better) none

variable {candidate : α → Bool} {better : α → α → Bool}

theorem selectBy_mem (h : s.selectBy candidate better = some (i, e)) :
    s.get i = some e ∧ candidate e = true := by
  have hloop : ∀ (rest : List (Fin n)) (kept : Option (Fin n × α)),
      (∀ j a, kept = some (j, a) → s.get j = some a ∧ candidate a = true) →
      ∀ j a, rest.foldl (s.keepBetter candidate better) kept = some (j, a) →
        s.get j = some a ∧ candidate a = true := by
    intro rest
    induction rest with
    | nil => exact fun kept hkept => hkept
    | cons k rest ih =>
        intro kept hkept
        refine ih _ fun j a hja => ?_
        unfold keepBetter at hja
        split at hja
        · exact hkept j a hja
        · rename_i new hnew
          have hmem := Option.filter_eq_some_iff.mp hnew
          split at hja
          · cases hja
            exact hmem
          · split at hja
            · cases hja
              exact hmem
            · exact hkept j a hja
  exact hloop _ none (by simp) i e h

/-- What the pass has established about the places it has visited. -/
def Kept {β : Type} [LinearOrder β] (candidate : α → Bool) (key : α → β) (s : Slots α n)
    (visited : List (Fin n)) : Option (Fin n × α) → Prop
  | none => ∀ i ∈ visited, ∀ e, s.get i = some e → candidate e = false
  | some (i, e) => i ∈ visited ∧ s.get i = some e ∧ candidate e = true ∧
      ∀ j ∈ visited, ∀ e', s.get j = some e' → candidate e' = true →
        key e ≤ key e' ∧ (j < i → key e < key e')

section

variable {β : Type} [LinearOrder β] {key : α → β}
  (hbetter : ∀ a b, better a b = decide (key a < key b)) (s : Slots α n)

include hbetter

theorem kept_keepBetter (visited : List (Fin n)) (kept : Option (Fin n × α)) (i : Fin n)
    (hlater : ∀ j ∈ visited, j < i) (h : Kept candidate key s visited kept) :
    Kept candidate key s (visited ++ [i]) (s.keepBetter candidate better kept i) := by
  unfold keepBetter
  cases hi : (s.get i).filter candidate with
  | none =>
      -- the visited place is free or not a candidate, so nothing new has to be compared
      have hnot : ∀ e, s.get i = some e → candidate e = false := by
        intro e he
        simpa [he, Option.filter] using hi
      cases kept with
      | none =>
          intro j hj e he
          rcases List.mem_append.mp hj with hj | hj
          · exact h j hj e he
          · obtain rfl := List.mem_singleton.mp hj
            exact hnot e he
      | some best =>
          obtain ⟨hmem, hget, hcand, hleast⟩ := h
          refine ⟨List.mem_append_left _ hmem, hget, hcand, fun j hj e he hc => ?_⟩
          rcases List.mem_append.mp hj with hj | hj
          · exact hleast j hj e he hc
          · obtain rfl := List.mem_singleton.mp hj
            simp [hnot e he] at hc
  | some e =>
      obtain ⟨hget, hcand⟩ := Option.filter_eq_some_iff.mp hi
      have hself : ∀ e', s.get i = some e' → key e ≤ key e' ∧ (i < i → key e < key e') := by
        intro e' he'
        rw [hget] at he'
        exact ⟨(congrArg key (Option.some.inj he')).le, fun hlt => absurd hlt (lt_irrefl i)⟩
      cases kept with
      | none =>
          refine ⟨by simp, hget, hcand, fun j hj e' he' hc => ?_⟩
          rcases List.mem_append.mp hj with hj | hj
          · simp [h j hj e' he'] at hc
          · obtain rfl := List.mem_singleton.mp hj
            exact hself e' he'
      | some best =>
          obtain ⟨hmem, hgetBest, hcandBest, hleast⟩ := h
          by_cases hlt : key e < key best.2
          · simp only [hbetter, hlt, decide_true, if_true]
            refine ⟨by simp, hget, hcand, fun j hj e' he' hc => ?_⟩
            rcases List.mem_append.mp hj with hj | hj
            · have hless := hlt.trans_le (hleast j hj e' he' hc).1
              exact ⟨hless.le, fun _ => hless⟩
            · obtain rfl := List.mem_singleton.mp hj
              exact hself e' he'
          · simp only [hbetter, hlt, decide_false]
            refine ⟨List.mem_append_left _ hmem, hgetBest, hcandBest, fun j hj e' he' hc => ?_⟩
            rcases List.mem_append.mp hj with hj | hj
            · exact hleast j hj e' he' hc
            · obtain rfl := List.mem_singleton.mp hj
              rw [hget] at he'
              obtain rfl := Option.some.inj he'
              exact ⟨not_lt.mp hlt, fun hbefore => absurd (hlater _ hmem) (lt_asymm hbefore)⟩

theorem kept_foldl (rest visited : List (Fin n)) (kept : Option (Fin n × α))
    (horder : (visited ++ rest).Pairwise (· < ·)) (h : Kept candidate key s visited kept) :
    Kept candidate key s (visited ++ rest) (rest.foldl (s.keepBetter candidate better) kept) := by
  induction rest generalizing visited kept with
  | nil => simpa using h
  | cons i rest ih =>
      have hlater : ∀ j ∈ visited, j < i := fun j hj =>
        (List.pairwise_append.mp horder).2.2 j hj i List.mem_cons_self
      have := ih (visited ++ [i]) _ (by simpa using horder)
        (kept_keepBetter hbetter s visited kept i hlater h)
      simpa using this

end

theorem kept_selectBy {β : Type} [LinearOrder β] (candidate : α → Bool) {key : α → β}
    (hbetter : ∀ a b, better a b = decide (key a < key b)) (s : Slots α n) :
    Kept candidate key s (List.finRange n) (s.selectBy candidate better) := by
  have hstart : Kept candidate key s [] (none : Option (Fin n × α)) := by
    intro i hi
    simp at hi
  exact kept_foldl hbetter s (List.finRange n) [] none (List.pairwise_lt_finRange n) hstart

section Order

variable {β : Type} [LinearOrder β] {candidate : α → Bool} {better : α → α → Bool} {key : α → β}
  (hbetter : ∀ a b, better a b = decide (key a < key b)) {s : Slots α n}

include hbetter

theorem selectBy_eq_some {i : Fin n} {e : α} (h : s.selectBy candidate better = some (i, e)) :
    s.get i = some e ∧ candidate e = true ∧
      ∀ j e', s.get j = some e' → candidate e' = true → key e ≤ key e' := by
  have hkept := kept_selectBy candidate hbetter s
  rw [h] at hkept
  obtain ⟨_, hget, hcand, hleast⟩ := hkept
  exact ⟨hget, hcand, fun j e' he' hc => (hleast j (List.mem_finRange j) e' he' hc).1⟩

theorem selectBy_first {i : Fin n} {e : α} (h : s.selectBy candidate better = some (i, e)) :
    ∀ j e', j < i → s.get j = some e' → candidate e' = true → key e < key e' := by
  have hkept := kept_selectBy candidate hbetter s
  rw [h] at hkept
  exact fun j e' hj he' hc => (hkept.2.2.2 j (List.mem_finRange j) e' he' hc).2 hj

theorem selectBy_eq_none (h : s.selectBy candidate better = none) :
    ∀ i e, s.get i = some e → candidate e = false := by
  have hkept := kept_selectBy candidate hbetter s
  rw [h] at hkept
  exact fun i => hkept i (List.mem_finRange i)

end Order

end Slots

end Bounded
