import Mathlib.Data.Vector.Basic
import Mathlib.Data.UInt
import Mathlib.Tactic.Ring

/-!
# Byte strings and fixed byte arrays

A byte string of any length is a list; a fixed array is a vector. `slice` copies a range of a string
into an array, with zeros where the string ends early: its callers check the length first.
-/

namespace Bounded

abbrev Bytes (n : Nat) := List.Vector UInt8 n

theorem forall_byte {p : UInt8 → Prop} (h : ∀ b : Fin 256, p (UInt8.ofFin b)) (b : UInt8) : p b :=
  h b.toFin

/-- The byte at a position, zero beyond the end. -/
def byteAt (xs : List UInt8) (i : Nat) : UInt8 := xs.getD i 0

@[simp] theorem byteAt_cons_zero (x : UInt8) (xs : List UInt8) : byteAt (x :: xs) 0 = x := rfl

@[simp] theorem byteAt_cons_succ (x : UInt8) (xs : List UInt8) (i : Nat) :
    byteAt (x :: xs) (i + 1) = byteAt xs i := rfl

theorem byteAt_append_right {xs ys : List UInt8} {i : Nat} (h : xs.length ≤ i) :
    byteAt (xs ++ ys) i = byteAt ys (i - xs.length) := by
  simp [byteAt, List.getElem?_append_right h]

theorem drop_eq_byteAt_cons {xs : List UInt8} {i : Nat} (h : i < xs.length) :
    xs.drop i = byteAt xs i :: xs.drop (i + 1) := by
  rw [List.drop_eq_getElem_cons h]
  simp [byteAt, h]

/-- A string read as a big-endian number. -/
def beNat (xs : List UInt8) : Nat := xs.foldl (fun acc b => acc * 256 + b.toNat) 0

theorem beNat_append (xs ys : List UInt8) :
    beNat (xs ++ ys) = beNat xs * 256 ^ ys.length + beNat ys := by
  unfold beNat
  rw [List.foldl_append]
  generalize xs.foldl _ 0 = acc
  induction ys generalizing acc with
  | nil => simp
  | cons y ys ih =>
      simp only [List.foldl_cons, List.length_cons]
      rw [ih, ih (0 * 256 + y.toNat)]
      ring

namespace Bytes

variable {n m k : Nat}

def zero : Bytes n := List.Vector.replicate n 0

/-- A number as `n` bytes, the highest first. -/
def ofNat (n value : Nat) : Bytes n :=
  ⟨(List.range n).map fun i => UInt8.ofNat (value / 256 ^ (n - 1 - i)), by simp⟩

/-- The `n` bytes of a string from position `start`. -/
def slice (n : Nat) (xs : List UInt8) (start : Nat) : Bytes n :=
  ⟨(xs.drop start).takeD n 0, List.takeD_length _ _ _⟩

@[simp] theorem length_toList (b : Bytes n) : b.toList.length = n := b.2

@[simp] theorem toList_mk (xs : List UInt8) (h : xs.length = n) :
    List.Vector.toList (⟨xs, h⟩ : Bytes n) = xs := rfl

@[ext] theorem ext_toList {a b : Bytes n} (h : a.toList = b.toList) : a = b :=
  List.Vector.toList_injective h

variable {xs : List UInt8} {start : Nat}

theorem toList_slice (h : start + n ≤ xs.length) :
    (slice n xs start).toList = (xs.drop start).take n := by
  have hlen : n ≤ (xs.drop start).length := by
    rw [List.length_drop]
    omega
  exact List.takeD_eq_take 0 hlen

theorem toList_slice_zero (h : xs.length ≤ n) :
    (slice n xs 0).toList = xs ++ List.replicate (n - xs.length) 0 := by
  show xs.takeD n 0 = _
  induction xs generalizing n with
  | nil => simp
  | cons x xs ih =>
      obtain ⟨n, rfl⟩ : ∃ k, n = k + 1 := ⟨n - 1, by simp at h; omega⟩
      rw [List.takeD_succ, List.head?_cons, List.tail_cons, ih (by simpa using h), List.length_cons,
        Nat.add_sub_add_right]
      rfl

theorem drop_eq_slice_append (h : start + n ≤ xs.length) :
    xs.drop start = (slice n xs start).toList ++ xs.drop (start + n) := by
  rw [toList_slice h, ← List.drop_drop, List.take_append_drop]

theorem toList_ofNat_succ (n value : Nat) :
    (ofNat (n + 1) value).toList = (ofNat n (value / 256)).toList ++ [UInt8.ofNat value] := by
  unfold ofNat
  rw [toList_mk, toList_mk, List.range_succ, List.map_append]
  congr 1
  · apply List.map_congr_left
    intro i hi
    have hlt := List.mem_range.mp hi
    rw [Nat.div_div_eq_div_mul, ← Nat.pow_succ']
    congr 3
    omega
  · simp

theorem beNat_ofNat (n value : Nat) : beNat (ofNat n value).toList = value % 256 ^ n := by
  induction n generalizing value with
  | zero => simp [ofNat, beNat, Nat.mod_one]
  | succ n ih =>
      rw [toList_ofNat_succ, beNat_append, ih, Nat.pow_succ', Nat.mod_mul, Nat.mul_comm, Nat.add_comm]
      congr 1
      simp [beNat]

theorem toList_ofNat_beNat (xs : List UInt8) : (ofNat xs.length (beNat xs)).toList = xs := by
  induction xs using List.reverseRecOn with
  | nil => rfl
  | append_singleton xs x ih =>
      have hvalue : beNat (xs ++ [x]) = beNat xs * 256 + x.toNat := by
        rw [beNat_append]
        simp [beNat]
      have hhigh : (beNat xs * 256 + x.toNat) / 256 = beNat xs := by
        have := x.toNat_lt
        omega
      have hlow : UInt8.ofNat (beNat xs * 256 + x.toNat) = x := by
        rw [← UInt8.toNat_inj, UInt8.toNat_ofNat']
        have := x.toNat_lt
        omega
      rw [List.length_append, List.length_singleton, toList_ofNat_succ, hvalue, hhigh, hlow, ih]

theorem ofNat_beNat (b : Bytes n) : ofNat n (beNat b.toList) = b := by
  apply ext_toList
  have hwritten := toList_ofNat_beNat b.toList
  rwa [length_toList] at hwritten

theorem beNat_lt (b : Bytes n) : beNat b.toList < 256 ^ n := by
  have hvalue := beNat_ofNat n (beNat b.toList)
  rw [ofNat_beNat] at hvalue
  rw [hvalue]
  exact Nat.mod_lt _ (Nat.pow_pos (by decide))

theorem slice_append_right {ys : List UInt8} (h : xs.length ≤ start) :
    slice n (xs ++ ys) start = slice n ys (start - xs.length) := by
  apply ext_toList
  simp only [slice, toList_mk, List.drop_append, List.drop_eq_nil_of_le h, List.nil_append]

theorem slice_append_left {ys : List UInt8} (h : start + n ≤ xs.length) :
    slice n (xs ++ ys) start = slice n xs start := by
  apply ext_toList
  rw [toList_slice h, toList_slice (by rw [List.length_append]; omega),
    List.drop_append_of_le_length (by omega), List.take_append_of_le_length]
  rw [List.length_drop]
  omega

@[simp] theorem slice_toList (b : Bytes n) : slice n b.toList 0 = b := by
  apply ext_toList
  rw [toList_slice (by simp)]
  simp

theorem slice_toList_append (b : Bytes n) (ys : List UInt8) :
    slice n (b.toList ++ ys) 0 = b := by
  rw [slice_append_left (by simp), slice_toList]

theorem slice_between (h : xs.length = start) (b : Bytes n) (ys : List UInt8) :
    slice n (xs ++ (b.toList ++ ys)) start = b := by
  rw [slice_append_right h.le, h, Nat.sub_self, slice_toList_append]

theorem slice_cons {x : UInt8} : slice n (x :: xs) (start + 1) = slice n xs start := rfl

theorem toList_slice_append (h : start + n + m ≤ xs.length) :
    (slice n xs start).toList ++ (slice m xs (start + n)).toList =
      (slice (n + m) xs start).toList := by
  rw [toList_slice (by omega), toList_slice h, toList_slice (by omega), ← List.drop_drop,
    List.take_add]

end Bytes

/-! ### The lowest byte first -/

/-- A string read as a little-endian number. -/
def leNat (xs : List UInt8) : Nat := beNat xs.reverse

/-- A number as `n` bytes, the lowest first. -/
def Bytes.ofNatLe (n value : Nat) : Bytes n := (Bytes.ofNat n value).reverse

theorem Bytes.toList_ofNatLe (n value : Nat) :
    (Bytes.ofNatLe n value).toList = (Bytes.ofNat n value).toList.reverse :=
  List.Vector.toList_reverse

theorem Bytes.leNat_ofNatLe (n value : Nat) :
    leNat (Bytes.ofNatLe n value).toList = value % 256 ^ n := by
  rw [leNat, toList_ofNatLe, List.reverse_reverse, beNat_ofNat]

theorem Bytes.ofNatLe_leNat {n : Nat} (b : Bytes n) : Bytes.ofNatLe n (leNat b.toList) = b := by
  apply ext_toList
  have hlength : b.toList.reverse.length = n := by simp
  have hwritten := toList_ofNat_beNat b.toList.reverse
  rw [hlength] at hwritten
  rw [toList_ofNatLe, leNat, hwritten, List.reverse_reverse]

theorem Bytes.leNat_lt {n : Nat} (b : Bytes n) : leNat b.toList < 256 ^ n := by
  have hvalue := leNat_ofNatLe n (leNat b.toList)
  rw [ofNatLe_leNat] at hvalue
  rw [hvalue]
  exact Nat.mod_lt _ (Nat.pow_pos (by decide))

end Bounded
