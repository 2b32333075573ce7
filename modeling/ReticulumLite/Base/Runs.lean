import Mathlib.Logic.Basic

/-!
# Runs of a deterministic system

A system is a state and a step function on operations, with a predicate for which operations a state
may take. A run is a finite sequence of allowed operations; what every allowed step keeps, every run
keeps.
-/

namespace Bounded

/-- `Runs step allowed s ops t` when the operations `ops`, each allowed where it is taken, lead from
`s` to `t`. -/
inductive Runs {σ ω : Type} (step : σ → ω → σ) (allowed : σ → ω → Prop) : σ → List ω → σ → Prop
  | nil (s : σ) : Runs step allowed s [] s
  | cons {s t : σ} {op : ω} {ops : List ω} :
      allowed s op → Runs step allowed (step s op) ops t → Runs step allowed s (op :: ops) t

namespace Runs

variable {σ ω : Type} {step : σ → ω → σ} {allowed : σ → ω → Prop} {s t u : σ} {ops ops' : List ω}

theorem invariant {I : σ → Prop} (hstep : ∀ s op, allowed s op → I s → I (step s op))
    (h : Runs step allowed s ops t) (hs : I s) : I t := by
  induction h with
  | nil => exact hs
  | cons hop _ ih => exact ih (hstep _ _ hop hs)

/-- What holds at the end of a run held at its start, or some step of the run brought it about. -/
theorem origin {I P : σ → Prop} {Q : σ → ω → Prop}
    (hkeep : ∀ s op, allowed s op → I s → I (step s op))
    (hstep : ∀ s op, allowed s op → I s → P (step s op) → P s ∨ Q s op)
    (h : Runs step allowed s ops t) (hs : I s) (ht : P t) :
    P s ∨ ∃ before op after s', ops = before ++ op :: after ∧
      Runs step allowed s before s' ∧ Q s' op := by
  induction h with
  | nil => exact .inl ht
  | @cons s _ op ops hop hrun ih =>
      rcases ih (hkeep _ _ hop hs) ht with hP | ⟨before, op', after, s', rfl, hbefore, hQ⟩
      · rcases hstep _ _ hop hs hP with hP | hQ
        · exact .inl hP
        · exact .inr ⟨[], op, ops, s, rfl, .nil _, hQ⟩
      · exact .inr ⟨op :: before, op', after, s', rfl, .cons hop hbefore, hQ⟩

/-- What one operation of a run brings about, and every step keeps, holds at its end. -/
theorem of_mem {I P : σ → Prop} {op : ω} (hkeep : ∀ s op, allowed s op → I s → I (step s op))
    (hstay : ∀ s op, allowed s op → I s → P s → P (step s op)) (hstep : ∀ s, I s → P (step s op))
    (h : Runs step allowed s ops t) (hs : I s) (hmem : op ∈ ops) : P t := by
  induction h with
  | nil => cases hmem
  | @cons s _ op' ops hop hrun ih =>
      rcases List.mem_cons.mp hmem with rfl | hmem
      · have hrest := invariant (I := fun s => I s ∧ P s)
          (fun s op hop hs => ⟨hkeep s op hop hs.1, hstay s op hop hs.1 hs.2⟩) hrun
          ⟨hkeep s op hop hs, hstep s hs⟩
        exact hrest.2
      · exact ih (hkeep s op' hop hs) hmem

theorem append (h : Runs step allowed s ops t) (h' : Runs step allowed t ops' u) :
    Runs step allowed s (ops ++ ops') u := by
  induction h with
  | nil => exact h'
  | cons hop _ ih => exact .cons hop (ih h')

theorem single {op : ω} (h : allowed s op) : Runs step allowed s [op] (step s op) :=
  .cons h (.nil _)

theorem foldl (s : σ) {ops : List ω} (h : ∀ op ∈ ops, ∀ s, allowed s op) :
    Runs step allowed s ops (ops.foldl step s) := by
  induction ops generalizing s with
  | nil => exact .nil s
  | cons op ops ih =>
      exact .cons (h op List.mem_cons_self s) (ih _ fun op' hop' => h op' (List.mem_cons_of_mem op hop'))

theorem mono {allowed' : σ → ω → Prop} (hmono : ∀ s op, allowed s op → allowed' s op)
    (h : Runs step allowed s ops t) : Runs step allowed' s ops t := by
  induction h with
  | nil => exact .nil _
  | cons hop _ ih => exact .cons (hmono _ _ hop) ih

end Runs

end Bounded
