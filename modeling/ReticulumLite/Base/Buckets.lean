import Mathlib.Data.List.Chain
import Mathlib.Tactic.Ring

/-!
# Token buckets

A bucket is filled at a rate, which may change with time, and holds at most what the rate brings in
a fixed number of time units, the cost of one token. The tokens drawn in an interval are bounded by
what the highest rate fills in it, and a bucket drawn from slowly enough for the lowest rate never
runs dry.
-/

namespace Bounded

/-- A bucket: what it held when it was last drawn from. One that was never drawn from is full. -/
structure Bucket where
  last : Nat
  credit : Nat
  started : Bool

namespace Bucket

variable (rate : Nat → Nat) (cost : Nat)

def filled (b : Bucket) (now : Nat) : Nat :=
  if b.started then min (b.credit + (now - b.last) * rate now) (rate now * cost) else rate now * cost

def draw (b : Bucket) (now : Nat) : Bucket × Bool :=
  if b.filled rate cost now < cost then (⟨now, b.filled rate cost now, true⟩, false)
  else (⟨now, b.filled rate cost now - cost, true⟩, true)

def draws : Bucket → List Nat → List (Nat × Bool)
  | _, [] => []
  | b, now :: times => (now, (b.draw rate cost now).2) :: draws (b.draw rate cost now).1 times

def drawn (t₁ t₂ : Nat) (outcomes : List (Nat × Bool)) : Nat :=
  outcomes.countP fun o => o.2 && decide (t₁ ≤ o.1) && decide (o.1 ≤ t₂)

variable {rate cost} {b : Bucket} {now high t₁ t₂ : Nat} {times : List Nat}

theorem filled_le (b : Bucket) (now : Nat) : b.filled rate cost now ≤ rate now * cost := by
  unfold filled
  split
  · exact min_le_right _ _
  · exact le_rfl

theorem filled_le_credit (hstarted : b.started = true) :
    b.filled rate cost now ≤ b.credit + (now - b.last) * rate now := by
  unfold filled
  rw [if_pos hstarted]
  exact min_le_left _ _

theorem draw_spec (rate : Nat → Nat) (cost : Nat) (b : Bucket) (now : Nat) :
    (b.draw rate cost now).1.last = now ∧ (b.draw rate cost now).1.started = true ∧
      (b.draw rate cost now).1.credit + cost * (b.draw rate cost now).2.toNat =
        b.filled rate cost now := by
  unfold draw
  split
  · exact ⟨rfl, rfl, by simp⟩
  · rename_i hle
    refine ⟨rfl, rfl, ?_⟩
    simp only [Bool.toNat_true, Nat.mul_one]
    exact Nat.sub_add_cancel (not_lt.mp hle)

theorem draw_credit_le (b : Bucket) (now : Nat) :
    (b.draw rate cost now).1.credit ≤ rate now * cost := by
  have hbalance := (draw_spec rate cost b now).2.2
  have hfilled : b.filled rate cost now ≤ rate now * cost := b.filled_le now
  omega

/-! ### How many tokens -/

theorem drawn_cons (o : Nat × Bool) (outcomes : List (Nat × Bool)) :
    drawn t₁ t₂ (o :: outcomes) =
      (o.2 && decide (t₁ ≤ o.1) && decide (o.1 ≤ t₂)).toNat + drawn t₁ t₂ outcomes := by
  unfold drawn
  rw [List.countP_cons, Nat.add_comm]
  cases o.2 && decide (t₁ ≤ o.1) && decide (o.1 ≤ t₂) <;> rfl

theorem drawn_of_late (b : Bucket) (h : ∀ t ∈ times, t₂ < t) :
    drawn t₁ t₂ (draws rate cost b times) = 0 := by
  induction times generalizing b with
  | nil => rfl
  | cons now times ih =>
      rw [draws, drawn_cons, ih _ fun t ht => h t (List.mem_cons_of_mem _ ht),
        decide_eq_false (not_le.mpr (h now List.mem_cons_self)), Bool.and_false]
      rfl

/-- What is drawn from a bucket is paid for by what it held and by what flowed in since. -/
theorem drawn_le_credit (hrate : ∀ t, rate t ≤ high) (hstarted : b.started = true)
    (hsorted : (b.last :: times).Pairwise (· ≤ ·)) (hlast : b.last ≤ t₂) :
    cost * drawn t₁ t₂ (draws rate cost b times) ≤ b.credit + high * (t₂ - b.last) := by
  induction times generalizing b with
  | nil => exact Nat.zero_le _
  | cons now times ih =>
      obtain ⟨hfirst, hrest⟩ := List.pairwise_cons.mp hsorted
      have hle : b.last ≤ now := hfirst now List.mem_cons_self
      by_cases hin : now ≤ t₂
      · obtain ⟨hlast', hstarted', hbalance⟩ := draw_spec rate cost b now
        have hrest' := ih hstarted' (hlast'.symm ▸ hrest) (hlast'.symm ▸ hin)
        have hfilled : b.filled rate cost now ≤ b.credit + (now - b.last) * high :=
          (filled_le_credit hstarted).trans (by gcongr; exact hrate now)
        have hone : ((b.draw rate cost now).2 && decide (t₁ ≤ now) && decide (now ≤ t₂)).toNat ≤
            (b.draw rate cost now).2.toNat := by
          cases (b.draw rate cost now).2 <;> simp [Bool.toNat_le]
        have hflow : high * (t₂ - b.last) = (now - b.last) * high + high * (t₂ - now) := by
          rw [Nat.mul_comm (now - b.last), ← Nat.mul_add]
          congr 1
          omega
        rw [hlast'] at hrest'
        rw [draws, drawn_cons, Nat.mul_add]
        dsimp only
        have hpaid := Nat.mul_le_mul_left cost hone
        omega
      · have hlate : ∀ t ∈ now :: times, t₂ < t := by
          refine List.forall_mem_cons.mpr ⟨not_le.mp hin, fun t ht => ?_⟩
          exact lt_of_lt_of_le (not_le.mp hin) ((List.pairwise_cons.mp hrest).1 t ht)
        rw [drawn_of_late b hlate]
        exact Nat.zero_le _

/-- The tokens drawn in an interval: a full bucket, and what the highest rate fills. -/
theorem drawn_le (hrate : ∀ t, rate t ≤ high) (hsorted : times.Pairwise (· ≤ ·)) (b : Bucket) :
    cost * drawn t₁ t₂ (draws rate cost b times) ≤ high * cost + high * (t₂ - t₁) := by
  induction times generalizing b with
  | nil => exact Nat.zero_le _
  | cons now times ih =>
      have hrest := (List.pairwise_cons.mp hsorted).2
      obtain ⟨hlast', hstarted', hbalance⟩ := draw_spec rate cost b now
      rw [draws, drawn_cons]
      dsimp only
      by_cases hin : t₁ ≤ now ∧ now ≤ t₂
      · -- the first draw of the interval: from here on the bucket pays
        have hpaid : cost * drawn t₁ t₂ (draws rate cost (b.draw rate cost now).1 times) ≤
            (b.draw rate cost now).1.credit + high * (t₂ - (b.draw rate cost now).1.last) :=
          drawn_le_credit hrate hstarted' (hlast'.symm ▸ hsorted) (hlast'.symm ▸ hin.2)
        have hfilled : b.filled rate cost now ≤ high * cost :=
          (b.filled_le now).trans (Nat.mul_le_mul_right _ (hrate now))
        have hflow : high * (t₂ - now) ≤ high * (t₂ - t₁) := by
          gcongr
          exact hin.1
        rw [hlast'] at hpaid
        rw [decide_eq_true hin.1, decide_eq_true hin.2, Bool.and_true, Bool.and_true, Nat.mul_add]
        omega
      · have hnone : ((b.draw rate cost now).2 && decide (t₁ ≤ now) && decide (now ≤ t₂)) = false := by
          rw [Bool.and_assoc, ← Bool.decide_and, decide_eq_false hin, Bool.and_false]
        rw [hnone, Bool.toNat_false, Nat.zero_add]
        exact ih hrest _

/-! ### When there is always a token -/

/-- A bucket that is drawn from no faster than it fills always has a token. -/
theorem draws_all {gap : Nat} (hrate : ∀ t, 0 < rate t) (hgap : ∀ t, cost ≤ gap * rate t)
    (hspaced : times.IsChain fun t t' => t + gap ≤ t')
    (hfirst : b.started = true → ∀ t ∈ times.head?, b.last + gap ≤ t) :
    ∀ o ∈ draws rate cost b times, o.2 = true := by
  induction times generalizing b with
  | nil => exact fun o ho => absurd ho List.not_mem_nil
  | cons now times ih =>
      have hcapacity : cost ≤ rate now * cost := Nat.le_mul_of_pos_left _ (hrate now)
      have hfull : cost ≤ b.filled rate cost now := by
        unfold filled
        split
        · rename_i hstarted
          refine le_min ?_ hcapacity
          have hwait : gap ≤ now - b.last := Nat.le_sub_of_add_le' (hfirst hstarted now rfl)
          exact (hgap now).trans
            ((Nat.mul_le_mul_right _ hwait).trans (Nat.le_add_left _ _))
        · exact hcapacity
      have hdrawn : (b.draw rate cost now).2 = true := by
        unfold draw
        rw [if_neg (not_lt.mpr hfull)]
      rw [draws]
      refine List.forall_mem_cons.mpr ⟨hdrawn, ih hspaced.tail fun _ t ht => ?_⟩
      rw [(draw_spec rate cost b now).1]
      exact List.IsChain.rel_head? hspaced ht

end Bucket

end Bounded
