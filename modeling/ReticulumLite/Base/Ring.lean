import ReticulumLite.Base.Slots
import Mathlib.Data.List.ReduceOption
import Mathlib.Data.List.Rotate
import Mathlib.Data.Nat.ModEq

/-!
# A ring buffer and the list it stands for

An array of `n` places, the place of the oldest entry and the number of entries; entry `p` sits at
place `(head + p) % n`. The structure carries that exactly the first `len` logical positions are
occupied. Each operation is written over the array and comes with the equation for `toList`, and
nothing outside this module reads the array.
-/

namespace Bounded

namespace Slots

variable {α : Type} {n : Nat}

/-- The content of a place given by its number, nothing when the number is out of range. -/
def at? (s : Slots α n) (k : Nat) : Option α := if h : k < n then s.get ⟨k, h⟩ else none

def putAt (s : Slots α n) (k : Nat) (slot : Option α) : Slots α n :=
  if h : k < n then s.put ⟨k, h⟩ slot else s

theorem at?_putAt (s : Slots α n) (k j : Nat) (slot : Option α) (hk : k < n) :
    (s.putAt k slot).at? j = if j = k then slot else s.at? j := by
  unfold putAt at?
  rw [dif_pos hk]
  by_cases hj : j < n
  · simp only [hj, dif_pos, get_put, Fin.mk.injEq]
    by_cases h : k = j
    · simp [h]
    · simp [h, Ne.symm h]
  · have : j ≠ k := by omega
    simp [hj, this]

end Slots

theorem ring_index_inj {n head p q : Nat} (hp : p < n) (hq : q < n)
    (h : (head + p) % n = (head + q) % n) : p = q := by
  have h' : (p : Nat) ≡ q [MOD n] := Nat.ModEq.add_left_cancel' head h
  rwa [Nat.ModEq, Nat.mod_eq_of_lt hp, Nat.mod_eq_of_lt hq] at h'

theorem ring_index_ne {n head p : Nat} (hp : p + 1 < n) : (head + (p + 1)) % n ≠ head % n :=
  fun h => p.succ_ne_zero (@ring_index_inj n head (p + 1) 0 hp (by omega) (by simpa using h))

theorem ring_index_next {n head p : Nat} :
    ((head + 1) % n + p) % n = (head + (p + 1)) % n := by
  rw [Nat.mod_add_mod, Nat.add_assoc, Nat.add_comm 1]

theorem ring_index_surj {n head k : Nat} (hk : k < n) : ∃ p < n, (head + p) % n = k := by
  have hround : head = n * (head / n) + head % n := (Nat.div_add_mod head n).symm
  have hlt : head % n < n := Nat.mod_lt _ (by omega)
  by_cases hle : head % n ≤ k
  · refine ⟨k - head % n, by omega, ?_⟩
    rw [show head + (k - head % n) = n * (head / n) + k by omega, Nat.mul_add_mod,
      Nat.mod_eq_of_lt hk]
  · refine ⟨k + n - head % n, by omega, ?_⟩
    rw [show head + (k + n - head % n) = n * (head / n) + (k + n) by omega, Nat.mul_add_mod,
      Nat.add_mod_right, Nat.mod_eq_of_lt hk]

/-- A bounded first-in first-out queue over a circular array. -/
structure Ring (α : Type) (n : Nat) where
  entries : Slots α n
  head : Nat
  len : Nat
  len_le : len ≤ n
  occupied : ∀ p < n, (entries.at? ((head + p) % n)).isSome = decide (p < len)

namespace Ring

variable {α : Type} {n : Nat}

def read (r : Ring α n) (p : Nat) : Option α := r.entries.at? ((r.head + p) % n)

variable {p : Nat}

theorem read_isSome (r : Ring α n) (hp : p < n) : (r.read p).isSome = decide (p < r.len) :=
  r.occupied p hp

/-- The entries in queue order. -/
def toList (r : Ring α n) : List α := (List.range r.len).filterMap r.read

theorem exists_read (r : Ring α n) (hp : p < r.len) : ∃ e, r.read p = some e := by
  apply Option.isSome_iff_exists.mp
  rw [r.read_isSome (hp.trans_le r.len_le)]
  exact decide_eq_true hp

private theorem filterMap_range (f : Nat → Option α) (k : Nat) (h : ∀ p < k, ∃ e, f p = some e) :
    ((List.range k).filterMap f).length = k ∧
      ∀ p < k, ((List.range k).filterMap f)[p]? = f p := by
  induction k with
  | zero => exact ⟨rfl, fun p hp => absurd hp (Nat.not_lt_zero p)⟩
  | succ k ih =>
      obtain ⟨hlen, hget⟩ := ih fun p hp => h p (by omega)
      obtain ⟨e, he⟩ := h k (by omega)
      rw [List.range_succ, List.filterMap_append]
      simp only [List.filterMap_cons, List.filterMap_nil, he]
      refine ⟨by simp [hlen], fun p hp => ?_⟩
      by_cases hk : p < k
      · rw [List.getElem?_append_left (by omega)]
        exact hget p hk
      · obtain rfl : p = k := by omega
        rw [List.getElem?_append_right (by omega)]
        simp [hlen, he]

@[simp] theorem length_toList (r : Ring α n) : r.toList.length = r.len :=
  (filterMap_range r.read r.len fun _ hp => r.exists_read hp).1

theorem getElem?_toList (r : Ring α n) (hp : p < r.len) : r.toList[p]? = r.read p :=
  (filterMap_range r.read r.len fun _ hp => r.exists_read hp).2 p hp

theorem length_toList_le (r : Ring α n) : r.toList.length ≤ n := by
  rw [length_toList]
  exact r.len_le

theorem toList_eq (r : Ring α n) {l : List α} (hlen : l.length = r.len)
    (hread : ∀ p < r.len, l[p]? = r.read p) : r.toList = l := by
  apply List.ext_getElem?
  intro p
  by_cases hp : p < r.len
  · rw [getElem?_toList r hp, hread p hp]
  · rw [List.getElem?_eq_none (by simpa using hp), List.getElem?_eq_none (by omega)]

/-! ### The empty queue -/

def empty : Ring α n where
  entries := Slots.empty
  head := 0
  len := 0
  len_le := Nat.zero_le n
  occupied := by
    intro p _
    unfold Slots.at?
    split <;> simp

@[simp] theorem toList_empty : (empty : Ring α n).toList = [] := rfl

/-! ### Pushing -/

/-- Append an entry, replacing the oldest one when the queue is full; the flag says whether an entry
was lost. With no capacity the value is discarded. -/
def pushDropOldest (r : Ring α n) (value : α) : Bool × Ring α n :=
  if hn : n = 0 then (false, r)
  else if hfull : r.len = n then
    (true,
      { r with
        entries := r.entries.putAt (r.head % n) (some value)
        head := (r.head + 1) % n
        occupied := by
          intro p hp
          have hpos : 0 < n := Nat.pos_of_ne_zero hn
          rw [Slots.at?_putAt _ _ _ _ (Nat.mod_lt _ hpos), ring_index_next, ← Nat.add_mod_mod]
          split
          · simp [hfull, hp]
          · rw [r.occupied _ (Nat.mod_lt _ hpos), hfull]
            simp [hp, Nat.mod_lt _ hpos] })
  else
    (false,
      { r with
        entries := r.entries.putAt ((r.head + r.len) % n) (some value)
        len := r.len + 1
        len_le := by
          have := r.len_le
          omega
        occupied := by
          intro p hp
          have hlt : r.len < n := lt_of_le_of_ne r.len_le hfull
          rw [Slots.at?_putAt _ _ _ _ (Nat.mod_lt _ (by omega))]
          by_cases h : p = r.len
          · subst h
            simp
          · have hne : (r.head + p) % n ≠ (r.head + r.len) % n :=
              fun he => h (ring_index_inj hp hlt he)
            rw [if_neg hne, r.occupied p hp]
            simp only [decide_eq_decide]
            omega })

theorem pushDropOldest_of_lt (r : Ring α n) (value : α) (h : r.len < n) :
    (r.pushDropOldest value).1 = false ∧
      (r.pushDropOldest value).2.toList = r.toList ++ [value] := by
  have hn : n ≠ 0 := by omega
  have hfull : r.len ≠ n := by omega
  unfold pushDropOldest
  rw [dif_neg hn, dif_neg hfull]
  refine ⟨rfl, ?_⟩
  apply toList_eq
  · simp
  intro p hp
  change p < r.len + 1 at hp
  change _ = (r.entries.putAt _ _).at? _
  rw [Slots.at?_putAt _ _ _ _ (Nat.mod_lt _ (by omega))]
  by_cases hpl : p < r.len
  · have hne : (r.head + p) % n ≠ (r.head + r.len) % n :=
      fun he => hpl.ne (ring_index_inj (by omega) h he)
    rw [List.getElem?_append_left (by simpa using hpl), getElem?_toList r hpl, if_neg hne]
    rfl
  · obtain rfl : p = r.len := by omega
    rw [List.getElem?_append_right (by simp)]
    simp

theorem pushDropOldest_full (r : Ring α n) (value : α) (h : r.len = n) (hn : n ≠ 0) :
    (r.pushDropOldest value).1 = true ∧
      (r.pushDropOldest value).2.toList = r.toList.tail ++ [value] := by
  have hpos : 0 < n := Nat.pos_of_ne_zero hn
  unfold pushDropOldest
  rw [dif_neg hn, dif_pos h]
  refine ⟨rfl, ?_⟩
  apply toList_eq
  · simp only [List.length_append, List.length_tail, length_toList, List.length_singleton]
    omega
  intro p hp
  change p < r.len at hp
  change _ = (r.entries.putAt _ _).at? _
  rw [Slots.at?_putAt _ _ _ _ (Nat.mod_lt _ hpos), ring_index_next]
  have htail : r.toList.tail.length = n - 1 := by simp [h]
  by_cases hlast : p + 1 < n
  · rw [List.getElem?_append_left (by omega), List.getElem?_tail,
      getElem?_toList r (by omega : p + 1 < r.len), if_neg (ring_index_ne hlast)]
    rfl
  · have he : (r.head + (p + 1)) % n = r.head % n := by
      rw [show p + 1 = n by omega, Nat.add_mod_right]
    rw [List.getElem?_append_right (by omega), he]
    simp [htail, show p - (n - 1) = 0 by omega]

/-! ### Removing

Taking the entry at an offset moves every later entry one place down, one place at a time. -/

def shiftOne (head : Nat) (s : Slots α n) (shift : Nat) : Slots α n :=
  let moved := s.at? ((head + shift + 1) % n)
  (s.putAt ((head + shift + 1) % n) none).putAt ((head + shift) % n) moved

/-- The loop that closes the gap left at `offset`. -/
def closeGap (head offset len : Nat) (s : Slots α n) : Slots α n :=
  (List.range' offset (len - 1 - offset)).foldl (shiftOne head) s

variable {head : Nat} {s : Slots α n}

theorem at?_shiftOne {shift : Nat} (hshift : shift + 1 < n) (hp : p < n) :
    (shiftOne head s shift).at? ((head + p) % n) =
      if p = shift then s.at? ((head + shift + 1) % n)
      else if p = shift + 1 then none else s.at? ((head + p) % n) := by
  have hpos : 0 < n := by omega
  unfold shiftOne
  rw [Slots.at?_putAt _ _ _ _ (Nat.mod_lt _ hpos), Slots.at?_putAt _ _ _ _ (Nat.mod_lt _ hpos)]
  by_cases h : p = shift
  · subst h
    simp
  · have hne : (head + p) % n ≠ (head + shift) % n :=
      fun he => h (ring_index_inj hp (by omega) he)
    rw [if_neg hne, if_neg h]
    by_cases h1 : p = shift + 1
    · subst h1
      simp [Nat.add_assoc]
    · have hne1 : (head + p) % n ≠ (head + shift + 1) % n := by
        rw [Nat.add_assoc]
        exact fun he => h1 (ring_index_inj hp hshift he)
      rw [if_neg hne1, if_neg h1]

/-- After `count` steps of the loop the gap has moved up by `count` positions. -/
theorem at?_shift_loop {offset : Nat} (count : Nat) (hcount : offset + count < n)
    (hgap : s.at? ((head + offset) % n) = none) (hp : p < n) :
    ((List.range' offset count).foldl (shiftOne head) s).at? ((head + p) % n) =
      if p < offset then s.at? ((head + p) % n)
      else if p < offset + count then s.at? ((head + (p + 1)) % n)
      else if p = offset + count then none else s.at? ((head + p) % n) := by
  induction count generalizing p with
  | zero =>
      simp only [List.range'_zero, List.foldl_nil, Nat.add_zero]
      by_cases h1 : p < offset
      · simp [h1]
      · by_cases h2 : p = offset
        · simp [h2, hgap]
        · simp [h1, h2]
  | succ count ih =>
      rw [List.range'_concat, List.foldl_append, List.foldl_cons, List.foldl_nil,
        Nat.one_mul, at?_shiftOne (by omega) hp, Nat.add_assoc head, ih (by omega) (by omega),
        ih (by omega) hp]
      split
      · subst p
        simp only [show ¬ offset + count + 1 < offset by omega,
          show ¬ offset + count + 1 < offset + count by omega,
          show ¬ offset + count + 1 = offset + count by omega,
          show ¬ offset + count < offset by omega,
          show offset + count < offset + (count + 1) by omega, if_true, if_false]
      · split
        · subst p
          rw [if_neg (by omega), if_neg (by omega), if_pos (by omega)]
        · by_cases h1 : p < offset
          · simp [h1]
          · by_cases h2 : p < offset + count
            · simp only [h1, h2, show p < offset + (count + 1) by omega, if_true, if_false]
            · simp only [h1, h2, show ¬ p < offset + (count + 1) by omega,
                show ¬ p = offset + (count + 1) by omega, if_false]

theorem at?_closeGap {offset len : Nat} (hoffset : offset < len) (hlen : len ≤ n) (hp : p < n) :
    (closeGap head offset len (s.putAt ((head + offset) % n) none)).at? ((head + p) % n) =
      if p < offset then s.at? ((head + p) % n)
      else if p < len - 1 then s.at? ((head + (p + 1)) % n)
      else if p = len - 1 then none else s.at? ((head + p) % n) := by
  have hpos : 0 < n := by omega
  have hput : ∀ q < n, (s.putAt ((head + offset) % n) none).at? ((head + q) % n) =
      if q = offset then none else s.at? ((head + q) % n) := by
    intro q hq
    rw [Slots.at?_putAt _ _ _ _ (Nat.mod_lt _ hpos)]
    by_cases h : q = offset
    · simp [h]
    · rw [if_neg h, if_neg fun he => h (ring_index_inj hq (by omega) he)]
  have hend : offset + (len - 1 - offset) = len - 1 := by omega
  unfold closeGap
  rw [at?_shift_loop _ (by omega) (by rw [hput _ (by omega), if_pos rfl]) hp, hend, hput p hp]
  by_cases h1 : p < offset
  · simp [h1, show p ≠ offset by omega]
  · by_cases h2 : p < len - 1
    · rw [if_neg h1, if_pos h2, if_neg h1, if_pos h2, hput (p + 1) (by omega),
        if_neg (by omega : ¬ p + 1 = offset)]
    · by_cases h3 : p = len - 1
      · rw [if_neg h1, if_neg h2, if_pos h3, if_neg h1, if_neg h2, if_pos h3]
      · simp [h1, h2, h3, show p ≠ offset by omega]

/-- Remove the entry at an offset in queue order, keeping the order of the others. -/
def remove (r : Ring α n) (offset : Nat) : Option α × Ring α n :=
  if h : offset < r.len then
    (r.read offset,
      { entries := closeGap r.head offset r.len (r.entries.putAt ((r.head + offset) % n) none)
        head := r.head
        len := r.len - 1
        len_le := (Nat.sub_le _ _).trans r.len_le
        occupied := by
          intro p hp
          rw [at?_closeGap h r.len_le hp]
          by_cases h1 : p < offset
          · rw [if_pos h1, r.occupied p hp]
            simp only [decide_eq_decide]
            omega
          · by_cases h2 : p < r.len - 1
            · rw [if_neg h1, if_pos h2, r.occupied (p + 1) (by have := r.len_le; omega)]
              simp only [decide_eq_decide]
              omega
            · by_cases h3 : p = r.len - 1
              · rw [if_neg h1, if_neg h2, if_pos h3]
                simp only [Option.isSome_none, Bool.false_eq, decide_eq_false_iff_not]
                omega
              · rw [if_neg h1, if_neg h2, if_neg h3, r.occupied p hp]
                simp only [decide_eq_decide]
                omega })
  else (none, r)

theorem remove_fst (r : Ring α n) (offset : Nat) : (r.remove offset).1 = r.toList[offset]? := by
  unfold remove
  split
  · rename_i h
    exact (getElem?_toList r h).symm
  · rename_i h
    rw [List.getElem?_eq_none (by simpa using h)]

theorem toList_remove (r : Ring α n) (offset : Nat) :
    (r.remove offset).2.toList = r.toList.eraseIdx offset := by
  unfold remove
  split
  · rename_i h
    apply toList_eq
    · simp [List.length_eraseIdx, h]
    intro p hp
    change p < r.len - 1 at hp
    have hp' : p < n := by
      have := r.len_le
      omega
    change _ = (closeGap _ _ _ _).at? _
    rw [at?_closeGap h r.len_le hp', List.getElem?_eraseIdx]
    by_cases h1 : p < offset
    · rw [if_pos h1, if_pos h1, getElem?_toList r (by omega)]
      rfl
    · rw [if_neg h1, if_neg h1, if_pos hp, getElem?_toList r (by omega)]
      rfl
  · rename_i h
    rw [List.eraseIdx_of_length_le (by simpa using h)]

def pop (r : Ring α n) : Option α × Ring α n :=
  if h : 0 < r.len then
    (r.read 0,
      { entries := r.entries.putAt (r.head % n) none
        head := (r.head + 1) % n
        len := r.len - 1
        len_le := (Nat.sub_le _ _).trans r.len_le
        occupied := by
          intro p hp
          have hpos : 0 < n := by omega
          have hlen := r.len_le
          rw [Slots.at?_putAt _ _ _ _ (Nat.mod_lt _ hpos), ring_index_next]
          by_cases hlast : p + 1 < n
          · rw [if_neg (ring_index_ne hlast), r.occupied _ hlast]
            simp only [decide_eq_decide]
            omega
          · rw [show p + 1 = n by omega, Nat.add_mod_right, if_pos rfl]
            simp only [Option.isSome_none, Bool.false_eq, decide_eq_false_iff_not]
            omega })
  else (none, r)

theorem pop_fst (r : Ring α n) : r.pop.1 = r.toList.head? := by
  unfold pop
  split
  · rename_i h
    rw [List.head?_eq_getElem?, getElem?_toList r h]
  · rename_i h
    have : r.toList = [] := List.length_eq_zero_iff.mp (by simpa using h)
    simp [this]

theorem toList_pop (r : Ring α n) : r.pop.2.toList = r.toList.tail := by
  unfold pop
  split
  · rename_i h
    have hlen := r.len_le
    apply toList_eq
    · simp
    intro p hp
    change p < r.len - 1 at hp
    change _ = (r.entries.putAt _ _).at? _
    rw [List.getElem?_tail, getElem?_toList r (by omega : p + 1 < r.len),
      Slots.at?_putAt _ _ _ _ (Nat.mod_lt _ (by omega)), ring_index_next,
      if_neg (ring_index_ne (by omega))]
    rfl
  · rename_i h
    have : r.toList = [] := List.length_eq_zero_iff.mp (by simpa using h)
    simp [this]

/-! ### Rewriting entries in place -/

def mapEntries (r : Ring α n) (f : α → α) : Ring α n :=
  { r with
    entries := r.entries.map fun slot => slot.map f
    occupied := by
      intro p hp
      rw [← r.occupied p hp]
      unfold Slots.at?
      split <;> simp [List.Vector.get_map] }

theorem toList_mapEntries (r : Ring α n) (f : α → α) : (r.mapEntries f).toList = r.toList.map f := by
  apply toList_eq
  · simp [mapEntries]
  intro p hp
  change p < r.len at hp
  rw [List.getElem?_map, getElem?_toList r hp]
  change Option.map f (Slots.at? r.entries _) =
    Slots.at? (r.entries.map fun slot => slot.map f) ((r.head + p) % n)
  unfold Slots.at?
  split <;> simp [List.Vector.get_map]

def modifyAt (r : Ring α n) (offset : Nat) (f : α → α) : Ring α n :=
  if h : offset < r.len then
    { r with
      entries := r.entries.putAt ((r.head + offset) % n) ((r.read offset).map f)
      occupied := by
        intro p hp
        have hlen := r.len_le
        rw [Slots.at?_putAt _ _ _ _ (Nat.mod_lt _ (by omega))]
        split
        · rename_i he
          obtain rfl := ring_index_inj hp (by omega) he
          rw [Option.isSome_map, r.read_isSome hp]
        · exact r.occupied p hp }
  else r

theorem toList_modifyAt (r : Ring α n) (offset : Nat) (f : α → α) :
    (r.modifyAt offset f).toList = r.toList.modify offset f := by
  unfold modifyAt
  split
  · rename_i h
    have hlen := r.len_le
    apply toList_eq
    · simp
    intro p hp
    change p < r.len at hp
    change _ = (r.entries.putAt _ _).at? _
    rw [Slots.at?_putAt _ _ _ _ (Nat.mod_lt _ (by omega)), List.getElem?_modify,
      getElem?_toList r hp]
    by_cases he : offset = p
    · subst he
      simp
    · have hne : (r.head + p) % n ≠ (r.head + offset) % n :=
        fun h' => he (ring_index_inj (by omega) (by omega) h').symm
      rw [if_neg hne]
      simp [he]
      rfl
  · rename_i h
    rw [List.modify_eq_self (by simpa using h)]

/-! ### All places in order

Whoever goes through the array meets the entries from the first place on, not from the head on: the
queue turned round by as many as sit between the head and the end of the array. -/

theorem rotate_entries (r : Ring α n) :
    r.entries.toList.rotate r.head = (List.range n).map r.read := by
  apply List.ext_getElem
  · simp
  intro p hp _
  have hn : p < n := by simpa using hp
  have hplace : (p + r.head) % n < n := Nat.mod_lt _ (by omega)
  have hread : r.read p = r.entries.get ⟨(p + r.head) % n, hplace⟩ := by
    unfold read Slots.at?
    rw [dif_pos (Nat.mod_lt _ (by omega))]
    simp only [Nat.add_comm]
  rw [List.getElem_rotate, List.getElem_map, List.getElem_range, hread, List.Vector.get_eq_get_toList]
  simp

theorem toList_eq_reduceOption (r : Ring α n) :
    r.toList = (r.entries.toList.rotate r.head).reduceOption := by
  have hnone : (List.range' r.len (n - r.len)).filterMap r.read = [] := by
    rw [List.filterMap_eq_nil_iff]
    intro p hp
    obtain ⟨hle, hlt⟩ := List.mem_range'_1.mp hp
    have hread := r.read_isSome (show p < n by omega)
    rw [decide_eq_false (by omega), Option.isSome_eq_false_iff, Option.isNone_iff_eq_none] at hread
    exact hread
  have hsplit : List.range n = List.range r.len ++ List.range' r.len (n - r.len) := by
    have happend : List.range' 0 r.len ++ List.range' (0 + r.len) (n - r.len) =
        List.range' 0 (r.len + (n - r.len)) := List.range'_append_1
    rw [Nat.zero_add, Nat.add_sub_cancel' r.len_le] at happend
    rw [List.range_eq_range', List.range_eq_range', happend]
  rw [rotate_entries, List.reduceOption, List.filterMap_map, hsplit, List.filterMap_append]
  change r.toList = r.toList ++ (List.range' r.len (n - r.len)).filterMap r.read
  rw [hnone, List.append_nil]

/-- How many entries sit before the end of the array. -/
def turn (r : Ring α n) : Nat := (r.entries.toList.drop (r.head % n)).reduceOption.length

theorem reduceOption_entries (r : Ring α n) :
    r.entries.toList.reduceOption = r.toList.rotate r.turn := by
  have hturned : r.entries.toList.rotate r.head =
      r.entries.toList.drop (r.head % n) ++ r.entries.toList.take (r.head % n) := by
    rw [List.rotate_eq_drop_append_take_mod, List.Vector.toList_length]
  rw [toList_eq_reduceOption, hturned, List.reduceOption_append, turn,
    List.rotate_append_length_eq, ← List.reduceOption_append, List.take_append_drop]

def withEntries (r : Ring α n) (entries : Slots α n)
    (h : entries.toList.map Option.isSome = r.entries.toList.map Option.isSome) : Ring α n :=
  { r with
    entries
    occupied := by
      intro p hp
      have hplace : (r.head + p) % n < n := Nat.mod_lt _ (by omega)
      have hsome := congrArg (fun l => l[(r.head + p) % n]?) h
      rw [← r.occupied p hp]
      unfold Slots.at?
      rw [dif_pos hplace, dif_pos hplace]
      simpa [hplace, List.Vector.get_eq_get_toList] using hsome }

theorem turn_withEntries (r : Ring α n) {entries : Slots α n}
    (h : entries.toList.map Option.isSome = r.entries.toList.map Option.isSome) :
    (r.withEntries entries h).turn = r.turn := by
  have hlength (l : List (Option α)) : l.reduceOption.length = (l.map Option.isSome).count true := by
    rw [List.reduceOption_length_eq, ← List.countP_eq_length_filter, List.count, List.countP_map]
    congr 1
    funext e
    cases e <;> rfl
  unfold turn
  rw [hlength, hlength, List.map_drop, List.map_drop]
  exact congrArg (fun l => (l.drop (r.head % n)).count true) h

end Ring

end Bounded
