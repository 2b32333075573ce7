import Mathlib.Logic.Basic

/-!
# Results of fallible functions

A fallible function returns `Except`. Its body is a chain of guards and calls, and a proof about a
successful result peels the chain apart with the lemmas below.
-/

namespace Bounded

variable {ε ε' α β : Type}

/-- A guard: fail with `e` when `c` holds. -/
def refuseIf (c : Prop) [Decidable c] (e : ε) : Except ε Unit :=
  if c then .error e else .ok ()

def okOr (x : Option α) (e : ε) : Except ε α :=
  match x with
  | some a => .ok a
  | none => .error e

variable {c : Prop} {e : ε}

@[simp] theorem refuseIf_eq_ok [Decidable c] {u : Unit} : refuseIf c e = .ok u ↔ ¬ c := by
  unfold refuseIf
  split <;> simp [*]

theorem refuseIf_of_not [Decidable c] (h : ¬ c) : refuseIf c e = .ok () :=
  if_neg h

theorem refuseIf_of [Decidable c] (h : c) : refuseIf c e = .error e :=
  if_pos h

variable {a : α}

@[simp] theorem okOr_eq_ok {x : Option α} : okOr x e = .ok a ↔ x = some a := by
  cases x <;> simp [okOr]

@[simp] theorem okOr_some (a : α) (e : ε) : okOr (some a) e = .ok a := rfl

@[simp] theorem okOr_none (e : ε) : okOr (none : Option α) e = .error e := rfl

variable {x : Except ε α}

theorem bind_eq_ok {f : α → Except ε β} {b : β} :
    (x >>= f) = .ok b ↔ ∃ a, x = .ok a ∧ f a = .ok b := by
  cases x <;> simp [bind, Except.bind]

@[simp] theorem ok_bind (a : α) (f : α → Except ε β) : (Except.ok a >>= f) = f a := rfl

@[simp] theorem error_bind (e : ε) (f : α → Except ε β) :
    ((Except.error e : Except ε α) >>= f) = .error e := rfl

@[simp] theorem pure_eq_ok {b : α} : (pure a : Except ε α) = .ok b ↔ a = b := by
  simp [pure, Except.pure]

@[simp] theorem mapError_eq_ok {f : ε → ε'} : x.mapError f = .ok a ↔ x = .ok a := by
  cases x with
  | error e => exact ⟨nofun, nofun⟩
  | ok b =>
      constructor
      · rintro ⟨⟩
        rfl
      · rintro ⟨⟩
        rfl

@[simp] theorem toOption_eq_some : x.toOption = some a ↔ x = .ok a := by
  cases x <;> simp [Except.toOption]

def Errors (P : ε → Prop) (x : Except ε α) : Prop := ∀ e, x = .error e → P e

variable {P : ε → Prop}

theorem errors_ok (a : α) : Errors P (.ok a : Except ε α) := nofun

theorem errors_error (h : P e) : Errors P (.error e : Except ε α) := by
  rintro _ ⟨⟩
  exact h

theorem errors_bind {f : α → Except ε β} (hx : Errors P x) (hf : ∀ a, x = .ok a → Errors P (f a)) :
    Errors P (x >>= f) := by
  cases x with
  | error e => exact errors_error (hx e rfl)
  | ok a => exact hf a rfl

theorem errors_mapError {P : ε' → Prop} {f : ε → ε'} (h : ∀ e, P (f e)) :
    Errors P (x.mapError f) := by
  cases x with
  | error e => exact errors_error (h e)
  | ok a => exact errors_ok a

theorem errors_refuseIf [Decidable c] (h : P e) : Errors P (refuseIf c e) := by
  unfold refuseIf
  split
  · exact errors_error h
  · exact errors_ok ()

theorem forM_eq_ok {xs : List α} {check : α → Except ε Unit} {u : Unit} :
    xs.forM check = .ok u ↔ ∀ x ∈ xs, check x = .ok () := by
  induction xs with
  | nil => simp [List.forM]
  | cons x xs ih =>
      have hunit : (∃ v : Unit, check x = .ok v) ↔ check x = .ok () :=
        ⟨fun ⟨_, hv⟩ => hv, fun hv => ⟨(), hv⟩⟩
      simp only [List.forM_eq_forM, List.forM_cons] at ih ⊢
      simp only [bind_eq_ok, ih, exists_and_right, hunit, List.forall_mem_cons]

end Bounded
