import Mathlib.Data.Fin.Basic
import Mathlib.Tactic.Linarith

/-!
# Small bit masks

A mask of eight bits stands for a set of places: bit `i` is set when place `i` is in the set.
-/

namespace Bounded

def slotBit (i : Fin 8) : BitVec 8 := 1#8 <<< i.val

def popcount (m : BitVec 8) : Nat := ((List.finRange 8).filter fun i => m.getLsbD i.val).length

/-- The mask of the places with a property, set bit by bit. -/
def maskOf (p : Fin 8 → Bool) : BitVec 8 :=
  (List.finRange 8).foldl (fun mask i => if p i then mask ||| slotBit i else mask) 0#8

theorem getLsbD_slotBit (i j : Fin 8) : (slotBit i).getLsbD j.val = decide (i = j) := by
  revert i j
  decide

theorem getLsbD_or_slotBit (m : BitVec 8) (i j : Fin 8) :
    (m ||| slotBit i).getLsbD j.val = (m.getLsbD j.val || decide (i = j)) := by
  rw [BitVec.getLsbD_or, getLsbD_slotBit]

theorem getLsbD_clear_slotBit (m : BitVec 8) (i j : Fin 8) :
    (m &&& ~~~ slotBit i).getLsbD j.val = (m.getLsbD j.val && !decide (i = j)) := by
  rw [BitVec.getLsbD_and, BitVec.getLsbD_not, getLsbD_slotBit]
  simp

private theorem getLsbD_foldl_mask (p : Fin 8 → Bool) (l : List (Fin 8)) (m : BitVec 8)
    (j : Fin 8) :
    (l.foldl (fun mask i => if p i then mask ||| slotBit i else mask) m).getLsbD j.val = true ↔
      m.getLsbD j.val = true ∨ j ∈ l ∧ p j = true := by
  induction l generalizing m with
  | nil => simp
  | cons i l ih =>
      rw [List.foldl_cons, ih, List.mem_cons]
      cases hp : p i with
      | false =>
          have hne (hpj : p j = true) : j ≠ i := fun h => Bool.false_ne_true (hp ▸ h ▸ hpj)
          simp only [Bool.false_eq_true, if_false]
          exact or_congr_right ⟨fun h => ⟨.inr h.1, h.2⟩, fun h => ⟨h.1.resolve_left (hne h.2), h.2⟩⟩
      | true =>
          rw [if_pos rfl, getLsbD_or_slotBit, Bool.or_eq_true, decide_eq_true_eq]
          by_cases hij : i = j
          · subst hij
            simp [hp]
          · simp [hij, Ne.symm hij]

@[simp] theorem getLsbD_maskOf (p : Fin 8 → Bool) (j : Fin 8) : (maskOf p).getLsbD j.val = p j := by
  unfold maskOf
  rw [Bool.eq_iff_iff, getLsbD_foldl_mask]
  simp

end Bounded
