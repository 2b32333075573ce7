import ReticulumLite.Radio
import ReticulumLite.Base.Buckets
import Mathlib.GroupTheory.GroupAction.Ring

/-!
# Announces are admitted as from a token bucket

Announces that answer path requests pass. All others draw from a bucket whose rate changes once,
when the grace period ends. The code's sums stop at the largest word; within the words of a
configuration none gets that far, so the code does what the exact bucket does.
-/

namespace ReticulumLite

open Bounded

/-- The fields of a configuration are words of 16, 16 and 32 bits. -/
structure AnnounceAdmissionConfig.Words (config : AnnounceAdmissionConfig) : Prop where
  steadyPerSec : config.steadyPerSec < 2 ^ 16
  gracePerSec : config.gracePerSec < 2 ^ 16
  graceSecs : config.graceSecs < 2 ^ 32

def AnnounceAdmissionConfig.rate (config : AnnounceAdmissionConfig) (nowMs : Nat) : Nat :=
  if nowMs < config.graceSecs * 1000 then config.gracePerSec else config.steadyPerSec

namespace AnnounceAdmission

variable {config : AnnounceAdmissionConfig} {a : AnnounceAdmission} {calls : List (Bool × Nat)}
  {nowMs : Nat}

def bucket (a : AnnounceAdmission) : Bucket := ⟨a.lastRefillMs, a.creditMilli, a.initialized⟩

theorem rate_lt (hwords : config.Words) (nowMs : Nat) : config.rate nowMs < 2 ^ 16 := by
  unfold AnnounceAdmissionConfig.rate
  split
  · exact hwords.gracePerSec
  · exact hwords.steadyPerSec

theorem rate_le (config : AnnounceAdmissionConfig) (nowMs : Nat) :
    config.rate nowMs ≤ max config.steadyPerSec config.gracePerSec := by
  unfold AnnounceAdmissionConfig.rate
  split
  · exact le_max_right _ _
  · exact le_max_left _ _

theorem le_rate (config : AnnounceAdmissionConfig) (nowMs : Nat) :
    min config.steadyPerSec config.gracePerSec ≤ config.rate nowMs := by
  unfold AnnounceAdmissionConfig.rate
  split
  · exact min_le_right _ _
  · exact min_le_left _ _

theorem admitAnnounce_draw (hwords : config.Words) (hrate : config.rate nowMs ≠ 0)
    (a : AnnounceAdmission) :
    ((a.admitAnnounce config false nowMs).1.bucket, (a.admitAnnounce config false nowMs).2) =
      a.bucket.draw config.rate 1000 nowMs := by
  have hgrace : min (config.graceSecs * 1000) u64Max = config.graceSecs * 1000 := by
    have := hwords.graceSecs
    exact min_eq_left (by unfold u64Max; omega)
  have hcapacity : min (config.rate nowMs * 1000) u64Max = config.rate nowMs * 1000 := by
    have := rate_lt hwords nowMs
    exact min_eq_left (by unfold u64Max; omega)
  have hle : config.rate nowMs * 1000 ≤ u64Max := hcapacity ▸ min_le_right _ _
  have hrateEq : (if decide (nowMs < config.graceSecs * 1000) = true then config.gracePerSec
      else config.steadyPerSec) = config.rate nowMs := by
    simp only [decide_eq_true_eq, AnnounceAdmissionConfig.rate]
  have hrefill : ∀ credit flow, min (satAdd credit (min flow u64Max)) (config.rate nowMs * 1000) =
      min (credit + flow) (config.rate nowMs * 1000) := by
    intro credit flow
    unfold satAdd
    omega
  obtain ⟨last, credit, initialized⟩ := a
  unfold admitAnnounce Bucket.draw Bucket.filled
  cases initialized with
  | false =>
      simp only [Bool.false_eq_true, if_false, Bool.not_false, if_true, hgrace, hrateEq, hcapacity,
        hrate, bucket]
      split <;> rfl
  | true =>
      simp only [Bool.false_eq_true, if_false, Bool.not_true, if_true, hgrace, hrateEq, hcapacity,
        hrate, hrefill, bucket]
      split <;> rfl

/-! ### Sequences of calls -/

/-- Every call, with its answer. A call says whether the announce answers a path request, and when. -/
def verdicts (config : AnnounceAdmissionConfig) : AnnounceAdmission → List (Bool × Nat) →
    List ((Bool × Nat) × Bool)
  | _, [] => []
  | a, call :: calls =>
      (call, (a.admitAnnounce config call.1 call.2).2) ::
        verdicts config (a.admitAnnounce config call.1 call.2).1 calls

def ordinary (calls : List (Bool × Nat)) : List Nat := (calls.filter fun call => !call.1).map (·.2)

def admittedWithin (config : AnnounceAdmissionConfig) (calls : List (Bool × Nat)) (t₁ t₂ : Nat) :
    Nat :=
  (verdicts config new calls).countP fun v =>
    !v.1.1 && (v.2 && decide (t₁ ≤ v.1.2) && decide (v.1.2 ≤ t₂))

theorem admitAnnounce_response (config : AnnounceAdmissionConfig) (a : AnnounceAdmission)
    (nowMs : Nat) : a.admitAnnounce config true nowMs = (a, true) := by
  unfold admitAnnounce
  rw [if_pos rfl]

theorem verdicts_ordinary (hwords : config.Words) (hrate : ∀ t, config.rate t ≠ 0)
    (a : AnnounceAdmission) (calls : List (Bool × Nat)) :
    ((verdicts config a calls).filter fun v => !v.1.1).map (fun v => (v.1.2, v.2)) =
      a.bucket.draws config.rate 1000 (ordinary calls) := by
  induction calls generalizing a with
  | nil => rfl
  | cons call calls ih =>
      obtain ⟨response, nowMs⟩ := call
      cases response with
      | true =>
          rw [verdicts, admitAnnounce_response]
          exact ih a
      | false =>
          have hdraw := admitAnnounce_draw hwords (hrate nowMs) a
          have hordinary : ordinary ((false, nowMs) :: calls) = nowMs :: ordinary calls := rfl
          rw [verdicts, hordinary, Bucket.draws, ← hdraw, ← ih]
          rfl

theorem admittedWithin_eq (hwords : config.Words) (hrate : ∀ t, config.rate t ≠ 0) (t₁ t₂ : Nat) :
    admittedWithin config calls t₁ t₂ =
      Bucket.drawn t₁ t₂ (new.bucket.draws config.rate 1000 (ordinary calls)) := by
  rw [← verdicts_ordinary hwords hrate, Bucket.drawn, List.countP_map, List.countP_filter]
  unfold admittedWithin
  congr 1
  funext v
  exact Bool.and_comm _ _

theorem verdicts_response {v : (Bool × Nat) × Bool} (hv : v ∈ verdicts config a calls)
    (hresponse : v.1.1 = true) : v.2 = true := by
  induction calls generalizing a with
  | nil => cases hv
  | cons call calls ih =>
      rcases List.mem_cons.mp hv with rfl | hv
      · have hcall : call.1 = true := hresponse
        dsimp only
        rw [hcall, admitAnnounce_response]
      · exact ih hv

theorem sorted_ordinary (hsorted : calls.Pairwise fun c c' => c.2 ≤ c'.2) :
    (ordinary calls).Pairwise (· ≤ ·) :=
  List.pairwise_map.mpr (hsorted.sublist List.filter_sublist)

theorem creditMilli_le (hwords : config.Words) (hrate : config.rate nowMs ≠ 0)
    (a : AnnounceAdmission) :
    (a.admitAnnounce config false nowMs).1.creditMilli ≤ 1000 * config.rate nowMs := by
  have hdraw := congrArg (fun r => r.1.credit) (admitAnnounce_draw hwords hrate a)
  rw [Nat.mul_comm]
  exact hdraw.le.trans (Bucket.draw_credit_le _ _)

def after (config : AnnounceAdmissionConfig) (a : AnnounceAdmission) (calls : List (Bool × Nat)) :
    AnnounceAdmission :=
  calls.foldl (fun a call => (a.admitAnnounce config call.1 call.2).1) a

theorem words_after (hwords : config.Words) (hrate : ∀ t, config.rate t ≠ 0)
    (htimes : ∀ call ∈ calls, call.2 ≤ u64Max) (ha : a.lastRefillMs ≤ u64Max ∧ a.creditMilli ≤ u64Max) :
    (after config a calls).lastRefillMs ≤ u64Max ∧ (after config a calls).creditMilli ≤ u64Max := by
  induction calls generalizing a with
  | nil => exact ha
  | cons call calls ih =>
      obtain ⟨hcall, hcalls⟩ := List.forall_mem_cons.mp htimes
      refine ih hcalls ?_
      obtain ⟨response, nowMs⟩ := call
      cases response with
      | true =>
          dsimp only
          rw [admitAnnounce_response]
          exact ha
      | false =>
          have hlast := congrArg (fun r => r.1.last) (admitAnnounce_draw hwords (hrate nowMs) a)
          refine ⟨(hlast.trans (Bucket.draw_spec _ _ _ _).1).le.trans hcall, ?_⟩
          have hlt := rate_lt hwords nowMs
          exact (creditMilli_le hwords (hrate nowMs) a).trans (by unfold u64Max; omega)

/-- Whatever the calls and their times: no interval admits more than the higher rate allows, calls as
far apart as the lower rate wants are all admitted, answers to path requests pass and leave no trace,
the credit stays within the rate, and no sum reaches the end of its word. -/
theorem announces_admitted (hwords : config.Words) (hsteady : config.steadyPerSec ≠ 0)
    (hgrace : config.gracePerSec ≠ 0) (hsorted : calls.Pairwise fun c c' => c.2 ≤ c'.2) :
    (∀ t₁ t₂, admittedWithin config calls t₁ t₂ ≤ max config.steadyPerSec config.gracePerSec +
      max config.steadyPerSec config.gracePerSec * (t₂ - t₁) / 1000) ∧
    ((ordinary calls).IsChain (fun t t' =>
        t + 1000 ⌈/⌉ min config.steadyPerSec config.gracePerSec ≤ t') →
      ∀ v ∈ verdicts config new calls, v.2 = true) ∧
    (∀ a nowMs, admitAnnounce a config true nowMs = (a, true)) ∧
    (∀ a nowMs, (admitAnnounce a config false nowMs).1.creditMilli ≤ 1000 * config.rate nowMs) ∧
    (∀ a nowMs, ((admitAnnounce a config false nowMs).1.bucket,
        (admitAnnounce a config false nowMs).2) = a.bucket.draw config.rate 1000 nowMs) ∧
    ((∀ call ∈ calls, call.2 ≤ u64Max) →
      (after config new calls).lastRefillMs ≤ u64Max ∧
      (after config new calls).creditMilli ≤ u64Max) := by
  have hlow : 0 < min config.steadyPerSec config.gracePerSec :=
    lt_min (Nat.pos_of_ne_zero hsteady) (Nat.pos_of_ne_zero hgrace)
  have hrate : ∀ t, config.rate t ≠ 0 := fun t => (lt_of_lt_of_le hlow (le_rate config t)).ne'
  refine ⟨fun t₁ t₂ => ?_, fun hspaced v hv => ?_, admitAnnounce_response config,
    fun a nowMs => creditMilli_le hwords (hrate nowMs) a,
    fun a nowMs => admitAnnounce_draw hwords (hrate nowMs) a,
    fun htimes => words_after hwords hrate htimes ⟨Nat.zero_le _, Nat.zero_le _⟩⟩
  · have hdrawn : 1000 * Bucket.drawn t₁ t₂ (new.bucket.draws config.rate 1000 (ordinary calls)) ≤
        max config.steadyPerSec config.gracePerSec * 1000 +
          max config.steadyPerSec config.gracePerSec * (t₂ - t₁) :=
      Bucket.drawn_le (rate_le config) (sorted_ordinary hsorted) new.bucket
    rw [admittedWithin_eq hwords hrate]
    omega
  · cases hresponse : v.1.1 with
    | true => exact verdicts_response hv hresponse
    | false =>
        have hgap : ∀ t, 1000 ≤
            1000 ⌈/⌉ min config.steadyPerSec config.gracePerSec * config.rate t := fun t =>
          (le_smul_ceilDiv hlow).trans
            ((Nat.mul_comm _ _).le.trans (Nat.mul_le_mul_left _ (le_rate config t)))
        have hmem : (v.1.2, v.2) ∈ new.bucket.draws config.rate 1000 (ordinary calls) := by
          rw [← verdicts_ordinary hwords hrate]
          refine List.mem_map.mpr ⟨v, List.mem_filter.mpr ⟨hv, ?_⟩, rfl⟩
          rw [hresponse, Bool.not_false]
        have hnew : new.bucket.started = true → ∀ t ∈ (ordinary calls).head?,
            new.bucket.last + 1000 ⌈/⌉ min config.steadyPerSec config.gracePerSec ≤ t :=
          fun hstarted => absurd hstarted Bool.false_ne_true
        exact Bucket.draws_all (fun t => Nat.pos_of_ne_zero (hrate t)) hgap hspaced hnew _ hmem

private def burst : List (Bool × Nat) :=
  List.replicate 6 (false, 0) ++ List.replicate 6 (false, 60000)

/-- Six ordinary calls at once, of which the three of the grace rate are admitted, and as many after
the grace period as the steady rate has. -/
theorem announces_admitted_burst :
    (∀ t₁ t₂, admittedWithin ⟨5, 3, 60⟩ burst t₁ t₂ ≤ 5 + 5 * (t₂ - t₁) / 1000) ∧
      admittedWithin ⟨5, 3, 60⟩ burst 0 60000 = 8 := by
  have hwords : AnnounceAdmissionConfig.Words ⟨5, 3, 60⟩ := ⟨by decide, by decide, by decide⟩
  have hadmitted := announces_admitted hwords (by decide) (by decide)
    (show burst.Pairwise fun c c' => c.2 ≤ c'.2 by decide)
  exact ⟨hadmitted.1, by decide +kernel⟩

end AnnounceAdmission

end ReticulumLite
