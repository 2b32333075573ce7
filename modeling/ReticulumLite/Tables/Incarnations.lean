import ReticulumLite.Tables.Freshness

/-!
# Numbers of routes, ways back and links

Three tables number their rows, and a queued frame keeps the number of the row it relies on. All
three are worked by operations that renew leases, and that no number is given out twice follows from
that alone. The ways back also have a take that is undone at once, which may put the entry into
another place.
-/

namespace ReticulumLite

open Bounded

/-- What the numbers of a table mean over its whole life, however it is worked. -/
structure Incarnations {α β ω : Type} {n : Nat} (perform : GenTable α n → ω → GenTable α n)
    (time : ω → Option Nat) (core : α → β)
    (getGeneration : GenTable α n → Nat → Nat → Option α) : Prop where
  /-- Occupied places have distinct numbers, which the counter has issued. -/
  distinct : ∀ before t, Runs perform (fun _ _ => True) GenTable.new before t →
    (∀ i e, t.entries.get i = some e →
      t.generations.get i ≠ 0 ∧ t.generations.get i ≤ t.lastGeneration) ∧
    ∀ i j e e', t.entries.get i = some e → t.entries.get j = some e' → i ≠ j →
      t.generations.get i ≠ t.generations.get j
  /-- The counter never goes back. -/
  last_le : ∀ before t after t', Runs perform (fun _ _ => True) GenTable.new before t →
    Runs perform (fun _ _ => True) t after t' → t.lastGeneration ≤ t'.lastGeneration
  /-- Rows that ever carry a number have one fixed part. -/
  same : ∀ before t after t', Runs perform (fun _ _ => True) GenTable.new before t →
    Runs perform (fun _ _ => True) t after t' → ∀ i j e e', t.entries.get i = some e →
    t'.entries.get j = some e' → t.generations.get i = t'.generations.get j → core e' = core e
  /-- An issued number that was once asked for in vain is asked for in vain at all later times. -/
  gone : ∀ before t after t', Runs perform (fun _ _ => True) GenTable.new before t →
    Runs perform (fun _ _ => True) t after t' → ∀ g τ τ', g ≤ t.lastGeneration →
    (∀ op ∈ after, ∀ τ₁ ∈ time op, τ ≤ τ₁) → τ ≤ τ' →
    getGeneration t g τ = none → getGeneration t' g τ' = none

/-- All of it holds for a table whose operations renew leases. -/
theorem incarnations_of_leasing {α β ω : Type} {n : Nat} {deadline : α → Nat} {core : α → β}
    {perform : GenTable α n → ω → GenTable α n} {time : ω → Option Nat}
    (h : GenTable.Leasing deadline core perform time) :
    Incarnations perform time core
      fun t g τ => t.entryOf (fun e => decide (τ < deadline e)) g := by
  have hwf : ∀ before t, Runs perform (fun _ _ => True) GenTable.new before t → t.WF :=
    fun before t hrun =>
      (h.runs hrun fun _ _ τ _ => Nat.zero_le τ).wf GenTable.wf_new
  constructor
  · intro before t hrun
    refine ⟨fun i e hi => ?_, fun i j e e' hi hj hij hg => hij ((hwf before t hrun).inj hi hj hg)⟩
    have hrow : t.Row (t.generations.get i) e := ⟨i, hi, rfl⟩
    exact ⟨((hwf before t hrun).pos hrow).ne', (hwf before t hrun).le_last hrow⟩
  · intro before t after t' hrun hrun'
    exact (h.runs hrun' fun _ _ τ _ => Nat.zero_le τ).last_le
  · intro before t after t' hrun hrun' i j e e' hi hj hg
    exact h.core_eq hrun' (hwf before t hrun) ⟨i, hi, rfl⟩ ⟨j, hj, hg.symm⟩
  · intro before t after t' hrun hrun' g τ τ' hg hnow hτ hnone
    exact h.entryOf_eq_none hrun' (hwf before t hrun) hg hnow hτ hnone

/-! ### Routes -/

namespace PathTable

variable {n : Nat}

theorem leasing_perform : GenTable.Leasing PathEntry.expiresMs core (perform (n := n))
    Operation.time := by
  intro t op now hnow
  cases op with
  | insertOrUpdate entry nowMs =>
      exact (insertOrUpdate_spec t entry nowMs).1.mono (hnow nowMs rfl)
  | touch dest nowMs => exact (touch_renews t dest nowMs).mono (hnow nowMs rfl)
  | dropPath dest => exact dropPath_renews t dest now
  | removeInterface interface => exact .clearWhere _
  | expire nowMs => exact .clearWhere _
  | clear => exact .of_shrinks .clear

variable {t : PathTable n}

theorem replaceEntry_refused {i : Fin n} {entry : PathEntry}
    (h : (replaceEntry t i entry).2 = false) : (replaceEntry t i entry).1 = t := by
  unfold replaceEntry at h ⊢
  split_ifs at h ⊢
  split at h
  · rfl
  · cases h

theorem insertOrUpdate_refused {entry : PathEntry} {nowMs : Nat}
    (h : (insertOrUpdate t entry nowMs).2 = false) :
    (insertOrUpdate t entry nowMs).1 = expire t nowMs := by
  unfold insertOrUpdate at h ⊢
  dsimp only at h ⊢
  split at h
  · split at h
    · rfl
    · split_ifs at h ⊢
      · exact replaceEntry_refused h
      · rfl
  · split at h
    · exact replaceEntry_refused h
    · rfl

end PathTable

/-! ### Ways back -/

namespace ReverseTable

variable {n : Nat}

/-- What may be done to the ways back. A take whose frame could not be queued is undone before
anything else happens, so the two are one operation. -/
inductive Operation
  | insert (entry : ReverseEntry) (nowMs : Nat)
  | take (proofHash : Hash16) (nowMs : Nat)
  | takeRestore (proofHash : Hash16) (nowMs : Nat)
  | removeInterface (interface : InterfaceId)
  | expire (nowMs : Nat)
  | clear

def takeRestore (t : ReverseTable n) (proofHash : Hash16) (nowMs : Nat) : ReverseTable n :=
  match takeWithGeneration t proofHash nowMs with
  | (t', none) => t'
  | (t', some (entry, generation)) => restoreConsumed t' entry generation

def perform (t : ReverseTable n) : Operation → ReverseTable n
  | .insert entry nowMs => insert t entry nowMs
  | .take proofHash nowMs => (takeWithGeneration t proofHash nowMs).1
  | .takeRestore proofHash nowMs => takeRestore t proofHash nowMs
  | .removeInterface interface => removeInterface t interface
  | .expire nowMs => expire t nowMs
  | .clear => t.clear

def Operation.time : Operation → Option Nat
  | .insert _ nowMs | .take _ nowMs | .takeRestore _ nowMs | .expire nowMs => some nowMs
  | .removeInterface _ | .clear => none

variable {t : ReverseTable n}

theorem insert_eq_expire (h : t.nextGeneration = none) (entry : ReverseEntry) (nowMs : Nat) :
    insert t entry nowMs = expire t nowMs :=
  enter_eq_clearWhere ReverseEntry.proofHash ReverseEntry.expiresMs entry nowMs h

theorem takeRestore_shrinks (t : ReverseTable n) (proofHash : Hash16) (nowMs : Nat) :
    t.Shrinks (takeRestore t proofHash nowMs) := by
  unfold takeRestore
  cases htake : takeWithGeneration t proofHash nowMs with
  | mk t' taken =>
      have hshrinks := (takeWithGeneration_spec htake).1
      cases taken with
      | none => exact hshrinks
      | some entry =>
          refine ⟨?_, fun hwf => (restore_take hwf htake).1, fun hwf _ _ hrow => ?_⟩
          · simp only [restoreConsumed]
            split
            · exact hshrinks.last
            · exact hshrinks.last
          · exact (row_expire.mp (((restore_take hwf htake).2.2 _ _).mp hrow)).1

theorem leasing_perform : GenTable.Leasing ReverseEntry.expiresMs id (perform (n := n))
    Operation.time := by
  intro t op now hnow
  cases op with
  | insert entry nowMs => exact enter_renews ReverseEntry.proofHash _ entry nowMs
  | take proofHash nowMs =>
      exact .of_shrinks (takeWithGeneration_spec rfl).1
  | takeRestore proofHash nowMs => exact .of_shrinks (takeRestore_shrinks t proofHash nowMs)
  | removeInterface interface => exact .clearWhere _
  | expire nowMs => exact .clearWhere _
  | clear => exact .of_shrinks .clear

end ReverseTable

/-! ### Links -/

namespace LinkTable

variable {n : Nat}

/-- What may be done to the links. Asking for room is among it, as it expires first. -/
inductive Operation
  | insert (entry : LinkEntry) (nowMs : Nat)
  | hasFreeSlot (nowMs : Nat)
  | markValidated (linkId : Hash16) (expiresMs nowMs : Nat)
  | touch (linkId : Hash16) (expiresMs nowMs : Nat)
  | removeInterface (interface : InterfaceId)
  | expire (nowMs : Nat)
  | clear

def perform (t : LinkTable n) : Operation → LinkTable n
  | .insert entry nowMs => insert t entry nowMs
  | .hasFreeSlot nowMs => (hasFreeSlot t nowMs).1
  | .markValidated linkId expiresMs nowMs => markValidated t linkId expiresMs nowMs
  | .touch linkId expiresMs nowMs => touch t linkId expiresMs nowMs
  | .removeInterface interface => removeInterface t interface
  | .expire nowMs => expire t nowMs
  | .clear => t.clear

def Operation.time : Operation → Option Nat
  | .insert _ nowMs | .hasFreeSlot nowMs | .markValidated _ _ nowMs | .touch _ _ nowMs
  | .expire nowMs => some nowMs
  | .removeInterface _ | .clear => none

variable {t : LinkTable n}

theorem insert_eq_expire (h : t.nextGeneration = none) (entry : LinkEntry) (nowMs : Nat) :
    insert t entry nowMs = expire t nowMs :=
  enter_eq_clearWhere LinkEntry.linkId LinkEntry.expiresMs entry nowMs h

theorem leasing_perform : GenTable.Leasing LinkEntry.expiresMs core (perform (n := n))
    Operation.time := by
  intro t op now hnow
  cases op with
  | insert entry nowMs => exact enter_renews LinkEntry.linkId _ entry nowMs
  | hasFreeSlot nowMs => exact .clearWhere _
  | markValidated linkId expiresMs nowMs =>
      exact (markValidated_spec t linkId expiresMs nowMs).1.mono (hnow nowMs rfl)
  | touch linkId expiresMs nowMs =>
      exact (touch_spec t linkId expiresMs nowMs).1.mono (hnow nowMs rfl)
  | removeInterface interface => exact .clearWhere _
  | expire nowMs => exact .clearWhere _
  | clear => exact .of_shrinks .clear

end LinkTable

/-- Numbers are never given out twice: in each of the three tables, of every size and however it is
worked, a number stands for one incarnation and, once that is gone, for nothing. When the counter
has reached its end it stays there, and a refused insertion is an expiry. -/
theorem incarnations_tables (n : Nat) :
    (Incarnations (PathTable.perform (n := n)) PathTable.Operation.time PathTable.core
        PathTable.getGeneration ∧
      ∀ t : PathTable n, t.lastGeneration = u64Max →
        (∀ op, (t.perform op).lastGeneration = u64Max) ∧
        ∀ entry nowMs, (t.insertOrUpdate entry nowMs).2 = false →
          (t.insertOrUpdate entry nowMs).1 = PathTable.expire t nowMs) ∧
    (Incarnations (ReverseTable.perform (n := n)) ReverseTable.Operation.time id
        ReverseTable.getGeneration ∧
      ∀ t : ReverseTable n, t.lastGeneration = u64Max →
        (∀ op, (t.perform op).lastGeneration = u64Max) ∧
        ∀ entry nowMs, t.insert entry nowMs = ReverseTable.expire t nowMs) ∧
    (Incarnations (LinkTable.perform (n := n)) LinkTable.Operation.time LinkTable.core
        LinkTable.getGeneration ∧
      ∀ t : LinkTable n, t.lastGeneration = u64Max →
        (∀ op, (t.perform op).lastGeneration = u64Max) ∧
        ∀ entry nowMs, t.insert entry nowMs = LinkTable.expire t nowMs) := by
  refine ⟨⟨incarnations_of_leasing PathTable.leasing_perform, fun t hlast => ?_⟩,
    ⟨incarnations_of_leasing ReverseTable.leasing_perform, fun t hlast => ?_⟩,
    ⟨incarnations_of_leasing LinkTable.leasing_perform, fun t hlast => ?_⟩⟩
  · exact ⟨PathTable.leasing_perform.last_end hlast, fun _ _ => PathTable.insertOrUpdate_refused⟩
  · exact ⟨ReverseTable.leasing_perform.last_end hlast,
      ReverseTable.insert_eq_expire (GenTable.nextGeneration_eq_none hlast)⟩
  · exact ⟨LinkTable.leasing_perform.last_end hlast,
      LinkTable.insert_eq_expire (GenTable.nextGeneration_eq_none hlast)⟩

end ReticulumLite
