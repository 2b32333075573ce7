import ReticulumLite.Base.Bytes

/-!
# Strings of records of one width

A table is often stored as its records one after the other, each of the same width. A record is then
read at a multiple of the width.
-/

namespace Bounded

theorem byteAt_drop (xs : List UInt8) (k i : Nat) : byteAt (xs.drop k) i = byteAt xs (k + i) := by
  simp [byteAt, List.getD]

theorem Bytes.slice_drop {n : Nat} (xs : List UInt8) (k start : Nat) :
    slice n (xs.drop k) start = slice n xs (k + start) := by
  apply ext_toList
  simp only [slice, toList_mk, List.drop_drop]

section Records

variable {α : Type} {width : Nat} {f : α → List UInt8}

theorem length_records (hf : ∀ x, (f x).length = width) (xs : List α) :
    (xs.flatMap f).length = xs.length * width := by
  induction xs with
  | nil => simp
  | cons x xs ih =>
      rw [List.flatMap_cons, List.length_append, ih, hf, List.length_cons, Nat.succ_mul, Nat.add_comm]

theorem drop_records (hf : ∀ x, (f x).length = width) (xs : List α) (i : Nat) :
    (xs.flatMap f).drop (i * width) = (xs.drop i).flatMap f := by
  induction i generalizing xs with
  | zero => simp
  | succ i ih =>
      cases xs with
      | nil => simp
      | cons x xs =>
          rw [List.flatMap_cons, List.drop_succ_cons, ← ih, Nat.succ_mul, Nat.add_comm,
            ← List.drop_drop, List.drop_left' (hf x)]

variable {xs : List α} {i : Nat}

theorem drop_records_of_lt (hf : ∀ x, (f x).length = width) (hi : i < xs.length) :
    (xs.flatMap f).drop (i * width) = f xs[i] ++ (xs.drop (i + 1)).flatMap f := by
  rw [drop_records hf, List.drop_eq_getElem_cons hi, List.flatMap_cons]

theorem drop_table_of_lt (hf : ∀ x, (f x).length = width) (first second : UInt8)
    (hi : i < xs.length) :
    (first :: second :: xs.flatMap f).drop (2 + i * width) =
      f xs[i] ++ (xs.drop (i + 1)).flatMap f := by
  rw [← drop_records_of_lt hf hi, Nat.add_comm]
  rfl

theorem slice_records {g : α → Bytes width} (hi : i < xs.length) :
    Bytes.slice width (xs.flatMap fun x => (g x).toList) (i * width) = g xs[i] := by
  have hdrop := Bytes.slice_drop (n := width) (xs.flatMap fun x => (g x).toList) (i * width) 0
  rw [Nat.add_zero] at hdrop
  rw [← hdrop, drop_records_of_lt (fun x => Bytes.length_toList (g x)) hi, Bytes.slice_toList_append]

/-- All records that were written are read back, whatever follows them. -/
theorem map_slice_records (g : α → Bytes width) (xs : List α) (rest : List UInt8) :
    ((List.range xs.length).map fun i =>
      Bytes.slice width ((xs.flatMap fun x => (g x).toList) ++ rest) (i * width)) = xs.map g := by
  apply List.ext_getElem
  · simp
  · intro i _ hi
    have hi : i < xs.length := by simpa using hi
    have hfit : i * width + width ≤ (xs.flatMap fun x => (g x).toList).length := by
      rw [length_records fun x => Bytes.length_toList (g x), ← Nat.succ_mul]
      exact Nat.mul_le_mul_right _ hi
    rw [List.getElem_map, List.getElem_range, List.getElem_map, Bytes.slice_append_left hfit,
      slice_records hi]

theorem records_eq {n : Nat} {xs : List UInt8} (hxs : xs.length = n * width) :
    (List.range n).flatMap (fun i => (Bytes.slice width xs (i * width)).toList) = xs := by
  induction n generalizing xs with
  | zero => exact (List.length_eq_zero_iff.mp (hxs.trans (Nat.zero_mul _))).symm
  | succ n ih =>
      rw [Nat.succ_mul] at hxs
      have hrest : (xs.drop width).length = n * width := by
        rw [List.length_drop]
        omega
      have hslice : (fun i => (Bytes.slice width xs ((i + 1) * width)).toList) =
          fun i => (Bytes.slice width (xs.drop width) (i * width)).toList := by
        funext i
        rw [Bytes.slice_drop, Nat.succ_mul, Nat.add_comm]
      have hsplit : xs = (Bytes.slice width xs (0 * width)).toList ++ xs.drop width := by
        have hdrop : xs.drop 0 = (Bytes.slice width xs 0).toList ++ xs.drop (0 + width) :=
          Bytes.drop_eq_slice_append (by omega)
        rwa [List.drop_zero, Nat.zero_add, ← Nat.zero_mul width] at hdrop
      rw [List.range_succ_eq_map, List.flatMap_cons, List.flatMap_map]
      show _ ++ (List.range n).flatMap (fun i => (Bytes.slice width xs ((i + 1) * width)).toList) = xs
      rw [hslice, ih hrest]
      exact hsplit.symm

end Records

end Bounded
