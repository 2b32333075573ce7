import Mathlib.Data.List.Basic

/-!
# Shifting part of an array in place

An array of fixed size whose first part is in use. An element is removed by moving the later ones
down, and a place at the front is made by moving all of them up, from the last one on. Each loop
copies one element at a time; on the part in use the loops erase an element and insert one.
-/

namespace Bounded

variable {α : Type}

def copyWithin (xs : List α) (source target : Nat) : List α := xs[source]?.elim xs (xs.set target)

/-- Copy a number of elements one place down, from a place on. -/
def pullDown (xs : List α) (cursor : Nat) : Nat → List α
  | 0 => xs
  | steps + 1 => pullDown (copyWithin xs (cursor + 1) cursor) (cursor + 1) steps

/-- Copy the first elements one place up, the last of them first. -/
def pushUp (xs : List α) : Nat → List α
  | 0 => xs
  | index + 1 => pushUp (copyWithin xs index (index + 1)) index

variable {xs : List α}

@[simp] theorem length_copyWithin (xs : List α) (source target : Nat) :
    (copyWithin xs source target).length = xs.length := by
  unfold copyWithin
  cases xs[source]? with
  | none => rfl
  | some x => exact List.length_set

@[simp] theorem length_pullDown (xs : List α) (cursor steps : Nat) :
    (pullDown xs cursor steps).length = xs.length := by
  induction steps generalizing xs cursor with
  | zero => rfl
  | succ steps ih => rw [pullDown, ih, length_copyWithin]

@[simp] theorem length_pushUp (xs : List α) (index : Nat) :
    (pushUp xs index).length = xs.length := by
  induction index generalizing xs with
  | zero => rfl
  | succ index ih => rw [pushUp, ih, length_copyWithin]

theorem getElem?_copyWithin {source target : Nat} (hsource : source < xs.length)
    (htarget : target < xs.length) (i : Nat) :
    (copyWithin xs source target)[i]? = if i = target then xs[source]? else xs[i]? := by
  unfold copyWithin
  rw [List.getElem?_eq_getElem hsource, Option.elim_some, List.getElem?_set]
  by_cases hi : i = target
  · rw [if_pos hi, if_pos hi.symm, if_pos htarget]
  · rw [if_neg hi, if_neg (Ne.symm hi)]

theorem getElem?_pullDown {cursor steps : Nat} (hfits : cursor + steps < xs.length) (i : Nat) :
    (pullDown xs cursor steps)[i]? =
      if cursor ≤ i ∧ i < cursor + steps then xs[i + 1]? else xs[i]? := by
  induction steps generalizing xs cursor with
  | zero =>
      rw [if_neg (by omega)]
      rfl
  | succ steps ih =>
      have hcopy : ∀ i, (copyWithin xs (cursor + 1) cursor)[i]? =
          if i = cursor then xs[cursor + 1]? else xs[i]? :=
        getElem?_copyWithin (by omega) (by omega)
      rw [pullDown, ih (by rw [length_copyWithin]; omega), hcopy i, hcopy (i + 1)]
      by_cases hlater : cursor + 1 ≤ i ∧ i < cursor + 1 + steps
      · rw [if_pos hlater, if_neg (by omega), if_pos (by omega)]
      · rw [if_neg hlater]
        by_cases hi : i = cursor
        · rw [if_pos hi, if_pos (by omega), hi]
        · rw [if_neg hi, if_neg (by omega)]

theorem getElem?_pushUp {index : Nat} (hfits : index < xs.length) (i : Nat) :
    (pushUp xs index)[i]? = if 1 ≤ i ∧ i ≤ index then xs[i - 1]? else xs[i]? := by
  induction index generalizing xs with
  | zero =>
      rw [if_neg (by omega)]
      rfl
  | succ index ih =>
      have hcopy : ∀ i, (copyWithin xs index (index + 1))[i]? =
          if i = index + 1 then xs[index]? else xs[i]? :=
        getElem?_copyWithin (by omega) (by omega)
      rw [pushUp, ih (by rw [length_copyWithin]; omega), hcopy i, hcopy (i - 1)]
      by_cases hearlier : 1 ≤ i ∧ i ≤ index
      · rw [if_pos hearlier, if_neg (by omega), if_pos (by omega)]
      · rw [if_neg hearlier]
        by_cases hi : i = index + 1
        · rw [if_pos hi, if_pos (by omega), hi, Nat.add_sub_cancel]
        · rw [if_neg hi, if_neg (by omega)]

theorem take_pullDown {len index : Nat} (hindex : index < len) (hlen : len ≤ xs.length) :
    (pullDown xs index (len - 1 - index)).take (len - 1) = (xs.take len).eraseIdx index := by
  apply List.ext_getElem?
  intro i
  rw [List.getElem?_eraseIdx, List.getElem?_take, List.getElem?_take, List.getElem?_take,
    getElem?_pullDown (by omega)]
  by_cases hbefore : i < index
  · rw [if_pos hbefore, if_pos (by omega), if_neg (by omega), if_pos (by omega)]
  · rw [if_neg hbefore]
    by_cases hused : i < len - 1
    · rw [if_pos hused, if_pos (by omega), if_pos (by omega)]
    · rw [if_neg hused, if_neg (by omega)]

theorem take_pushUp {len : Nat} (hlen : len < xs.length) (x : α) :
    ((pushUp xs len).set 0 x).take (len + 1) = x :: xs.take len := by
  apply List.ext_getElem?
  intro i
  cases i with
  | zero =>
      rw [List.getElem?_take, if_pos (by omega), List.getElem?_set, if_pos rfl,
        if_pos (by rw [length_pushUp]; omega), List.getElem?_cons_zero]
  | succ i =>
      rw [List.getElem?_take, List.getElem?_set_ne (by omega), getElem?_pushUp hlen,
        List.getElem?_cons_succ, List.getElem?_take, Nat.add_sub_cancel]
      by_cases hused : i < len
      · rw [if_pos (by omega), if_pos (by omega), if_pos hused]
      · rw [if_neg (by omega), if_neg hused]

theorem eraseIdx_eq_filter {β : Type} [DecidableEq β] {key : α → β} {index : Nat}
    (hkeys : (xs.map key).Nodup) (hindex : index < xs.length) :
    xs.eraseIdx index = xs.filter fun x => decide (key x ≠ key xs[index]) := by
  induction xs generalizing index with
  | nil => cases hindex
  | cons x xs ih =>
      obtain ⟨hx, hxs⟩ := List.nodup_cons.mp hkeys
      cases index with
      | zero =>
          rw [List.eraseIdx_cons_zero, List.getElem_cons_zero, List.filter_cons_of_neg (by simp)]
          refine (List.filter_eq_self.mpr fun y hy => ?_).symm
          refine decide_eq_true fun heq => hx ?_
          rw [← heq]
          exact List.mem_map_of_mem hy
      | succ index =>
          have hlt : index < xs.length := Nat.lt_of_succ_lt_succ hindex
          have hne : key x ≠ key xs[index] := by
            intro heq
            rw [heq] at hx
            exact hx (List.mem_map_of_mem (List.getElem_mem hlt))
          rw [List.eraseIdx_cons_succ, List.getElem_cons_succ, List.filter_cons,
            if_pos (decide_eq_true hne), ih hxs hlt]

theorem notMem_dropLast_iff {rank : α → Nat} {x : α}
    (hsorted : xs.Pairwise fun y z => rank z < rank y) (hx : x ∈ xs) :
    x ∉ xs.dropLast ↔ ∀ y ∈ xs, rank x ≤ rank y := by
  have hne : xs ≠ [] := List.ne_nil_of_mem hx
  have hsplit := List.dropLast_append_getLast hne
  have hleast : ∀ y ∈ xs.dropLast, rank (xs.getLast hne) < rank y := by
    rw [← hsplit] at hsorted
    intro y hy
    exact (List.pairwise_append.mp hsorted).2.2 y hy _ List.mem_cons_self
  have hcases : ∀ y ∈ xs, y ∈ xs.dropLast ∨ y = xs.getLast hne := by
    intro y hy
    rw [← hsplit, List.mem_append, List.mem_singleton] at hy
    exact hy
  constructor
  · intro hdropped y hy
    rw [(hcases x hx).resolve_left hdropped]
    rcases hcases y hy with hkept | rfl
    · exact Nat.le_of_lt (hleast y hkept)
    · exact Nat.le_refl _
  · intro hle hkept
    exact absurd (hle _ (List.getLast_mem hne)) (Nat.not_le.mpr (hleast x hkept))

end Bounded
