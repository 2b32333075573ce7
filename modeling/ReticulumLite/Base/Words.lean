import Mathlib.Order.Basic
import Mathlib.Tactic.Ring

/-!
# Saturating and checked 64-bit arithmetic

Times and counters are natural numbers that stay below `2 ^ 64`. A sum that would leave the range
either stops at the largest word or is refused, and these are the two operations that say so.
-/

namespace Bounded

def u64Max : Nat := 2 ^ 64 - 1

def satAdd (a b : Nat) : Nat := min (a + b) u64Max

def satMul (a b : Nat) : Nat := min (a * b) u64Max

/-- The successor of a counter, refused once the counter is exhausted. -/
def checkedSucc (a : Nat) : Option Nat := if a < u64Max then some (a + 1) else none

def satSucc8 (a : UInt8) : UInt8 := if a = 255 then 255 else a + 1

def satPred8 (a : UInt8) : UInt8 := if a = 0 then 0 else a - 1

variable {a b : Nat}

theorem checkedSucc_eq_some : checkedSucc a = some b ↔ a < u64Max ∧ b = a + 1 := by
  unfold checkedSucc
  split <;> simp_all [eq_comm]

theorem lt_of_checkedSucc (h : checkedSucc a = some b) : a < b := by
  have := (checkedSucc_eq_some.mp h).2
  omega

theorem satAdd_le (a b : Nat) : satAdd a b ≤ a + b := min_le_left _ _

theorem satAdd_le_u64Max (a b : Nat) : satAdd a b ≤ u64Max := min_le_right _ _

theorem satAdd_eq (h : a + b ≤ u64Max) : satAdd a b = a + b := min_eq_left h

theorem le_satAdd (ha : a ≤ u64Max) : a ≤ satAdd a b :=
  le_min (Nat.le_add_right a b) ha

theorem lt_satAdd (ha : a < u64Max) (hb : 0 < b) : a < satAdd a b :=
  lt_min (Nat.lt_add_of_pos_right hb) ha

end Bounded
