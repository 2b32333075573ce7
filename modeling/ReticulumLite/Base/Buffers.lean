import Mathlib.Data.List.Basic

/-!
# Buffers written in place

A buffer is a list whose length stays the same. A piece of it is read between two positions, and a
write replaces the elements from one position on. Buffers are compared position by position.
-/

namespace Bounded

variable {α : Type}

/-- The elements from position `start` up to position `stop`. -/
def between (xs : List α) (start stop : Nat) : List α := (xs.take stop).drop start

/-- Replace the elements from position `start` on by others. -/
def overwrite (xs : List α) (start : Nat) (ys : List α) : List α :=
  xs.take start ++ ys ++ xs.drop (start + ys.length)

variable {xs ys zs : List α} {start stop p : Nat}

theorem length_between (xs : List α) (start stop : Nat) :
    (between xs start stop).length = min stop xs.length - start := by
  simp [between]

theorem getElem?_between (xs : List α) (start stop p : Nat) :
    (between xs start stop)[p]? = if start + p < stop then xs[start + p]? else none := by
  unfold between
  rw [List.getElem?_drop, List.getElem?_take]

theorem between_append (xs ys zs : List α) :
    between (xs ++ ys ++ zs) xs.length (xs.length + ys.length) = ys := by
  unfold between
  rw [← List.length_append, List.take_left, List.drop_left]

theorem between_append_right (h : xs.length = start) (n : Nat) :
    between (xs ++ ys) start (start + n) = ys.take n := by
  subst h
  rw [between, List.take_length_add_append, List.drop_left]

theorem between_take_drop {a n : Nat} (h : stop ≤ n) :
    between ((xs.drop a).take n) start stop = between xs (a + start) (a + stop) := by
  apply List.ext_getElem?
  intro p
  rw [getElem?_between, getElem?_between, Nat.add_assoc]
  by_cases hp : start + p < stop
  · rw [if_pos hp, if_pos (by omega), List.getElem?_take_of_lt (by omega), List.getElem?_drop]
  · rw [if_neg hp, if_neg (by omega)]

theorem length_overwrite (h : start + ys.length ≤ xs.length) :
    (overwrite xs start ys).length = xs.length := by
  simp only [overwrite, List.length_append, List.length_take, List.length_drop]
  omega

theorem overwrite_append (h : xs.length = start) :
    overwrite (xs ++ zs) start ys = xs ++ ys ++ zs.drop ys.length := by
  rw [overwrite, List.take_left' h, ← h, List.drop_append, Nat.add_sub_cancel_left,
    List.drop_of_length_le (Nat.le_add_right _ _), List.nil_append]

theorem overwrite_zero : overwrite xs 0 ys = ys ++ xs.drop ys.length :=
  by simp [overwrite]

theorem getElem?_overwrite (h : start ≤ xs.length) (p : Nat) :
    (overwrite xs start ys)[p]? =
      if start ≤ p ∧ p < start + ys.length then ys[p - start]? else xs[p]? := by
  have htake : (xs.take start).length = start := by
    rw [List.length_take]
    omega
  unfold overwrite
  rw [List.append_assoc]
  by_cases hbefore : p < start
  · rw [List.getElem?_append_left (by omega), List.getElem?_take, if_pos hbefore, if_neg (by omega)]
  · rw [List.getElem?_append_right (by omega), htake]
    by_cases hinside : p - start < ys.length
    · rw [List.getElem?_append_left hinside, if_pos (by omega)]
    · rw [List.getElem?_append_right (by omega), List.getElem?_drop, if_neg (by omega)]
      congr 1
      omega

theorem overwrite_overwrite (h : start + ys.length ≤ xs.length) :
    overwrite (overwrite xs start ys) (start + ys.length) zs = overwrite xs start (ys ++ zs) := by
  apply List.ext_getElem?
  intro p
  rw [getElem?_overwrite (by rw [length_overwrite h]; exact h), getElem?_overwrite (by omega),
    getElem?_overwrite (by omega), List.length_append]
  by_cases hlast : start + ys.length ≤ p
  · rw [if_neg (show ¬ (start ≤ p ∧ p < start + ys.length) by omega),
      List.getElem?_append_right (by omega), ← Nat.sub_add_eq]
    simp only [show start + ys.length ≤ p ∧ p < start + ys.length + zs.length ↔
      start ≤ p ∧ p < start + (ys.length + zs.length) by omega]
  · rw [if_neg (by omega)]
    split_ifs with hfirst hboth
    · rw [List.getElem?_append_left (by omega)]
    · omega
    · omega
    · rfl

theorem between_eq_between_iff : between xs start stop = between ys start stop ↔
    ∀ p, start ≤ p → p < stop → xs[p]? = ys[p]? := by
  constructor
  · intro h p hstart hstop
    have hp := congrArg (fun zs => zs[p - start]?) h
    simpa only [getElem?_between, Nat.add_sub_cancel' hstart, if_pos hstop] using hp
  · intro h
    apply List.ext_getElem?
    intro p
    rw [getElem?_between, getElem?_between]
    split_ifs with hp
    · exact h _ (Nat.le_add_right _ _) hp
    · rfl

theorem between_overwrite (h : start + ys.length ≤ xs.length) :
    between (overwrite xs start ys) start (start + ys.length) = ys := by
  apply List.ext_getElem?
  intro p
  rw [getElem?_between, getElem?_overwrite (by omega)]
  split_ifs with hp hinside
  · rw [Nat.add_sub_cancel_left]
  · omega
  · exact (List.getElem?_eq_none (by omega)).symm

theorem between_overwrite_of_disjoint (hstart : start ≤ xs.length) {a b : Nat}
    (h : b ≤ start ∨ start + ys.length ≤ a) :
    between (overwrite xs start ys) a b = between xs a b := by
  rw [between_eq_between_iff]
  intro p hle hlt
  rw [getElem?_overwrite hstart, if_neg (by omega)]

end Bounded
