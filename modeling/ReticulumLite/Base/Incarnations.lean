import ReticulumLite.Base.Runs
import ReticulumLite.Base.Slots
import ReticulumLite.Base.Words

/-!
# Tables that number their incarnations

Next to each place such a table keeps the number under which its entry was admitted. Numbers come
from a counter that only grows, and a freed place keeps its number until the next admission. So a
holder of a number can ask whether the very entry it was issued for is still there. `Row`, a number
with the entry admitted under it, is the only view of a table the rest of the development needs.
-/

namespace Bounded

/-- A slot array whose entries carry the number they were admitted under. -/
structure GenTable (α : Type) (n : Nat) where
  entries : Slots α n
  generations : List.Vector Nat n
  lastGeneration : Nat

namespace GenTable

variable {α : Type} {n : Nat}

def new : GenTable α n := ⟨Slots.empty, List.Vector.replicate n 0, 0⟩

/-- Free every place; the numbers and the counter stay. -/
def clear (t : GenTable α n) : GenTable α n := { t with entries := Slots.empty }

def clearWhere (p : α → Bool) (t : GenTable α n) : GenTable α n :=
  { t with entries := t.entries.clearWhere p }

def nextGeneration (t : GenTable α n) : Option Nat :=
  if n = 0 then none else checkedSucc t.lastGeneration

def admitAt (t : GenTable α n) (i : Fin n) (e : α) (g : Nat) : GenTable α n :=
  { entries := t.entries.put i (some e), generations := t.generations.set i g, lastGeneration := g }

/-- Overwrite an entry without a new incarnation. -/
def updateAt (t : GenTable α n) (i : Fin n) (e : α) : GenTable α n :=
  { t with entries := t.entries.put i (some e) }

def restoreAt (t : GenTable α n) (i : Fin n) (e : α) (g : Nat) : GenTable α n :=
  { t with entries := t.entries.put i (some e), generations := t.generations.set i g }

def freeAt (t : GenTable α n) (i : Fin n) : GenTable α n :=
  { t with entries := t.entries.put i none }

def generationOf (p : α → Bool) (t : GenTable α n) : Option Nat :=
  (List.finRange n).findSome? fun i =>
    ((t.entries.get i).filter p).bind fun _ =>
      if t.generations.get i ≠ 0 then some (t.generations.get i) else none

/-- The entry admitted under a number, if it is still there and has a property. -/
def entryOf (p : α → Bool) (g : Nat) (t : GenTable α n) : Option α :=
  if g = 0 then none
  else (List.finRange n).findSome? fun i =>
    (t.entries.get i).filter fun e => decide (t.generations.get i = g) && p e

/-- An entry present in the table under a number. -/
def Row (t : GenTable α n) (g : Nat) (e : α) : Prop :=
  ∃ i, t.entries.get i = some e ∧ t.generations.get i = g

/-- Present entries have distinct numbers that the counter has issued. -/
structure WF (t : GenTable α n) : Prop where
  pos : ∀ {g e}, t.Row g e → 0 < g
  le_last : ∀ {g e}, t.Row g e → g ≤ t.lastGeneration
  inj : ∀ {i j e e'}, t.entries.get i = some e → t.entries.get j = some e' →
    t.generations.get i = t.generations.get j → i = j

/-! ### What each operation leaves -/

theorem not_row_new (g : Nat) (e : α) : ¬ (new : GenTable α n).Row g e := by
  rintro ⟨i, hi, _⟩
  simp [new] at hi

theorem not_row_clear (t : GenTable α n) (g : Nat) (e : α) : ¬ t.clear.Row g e := by
  rintro ⟨i, hi, _⟩
  simp [clear] at hi

variable {p : α → Bool} {t : GenTable α n} {g : Nat} {e : α}

theorem row_clearWhere : (t.clearWhere p).Row g e ↔ t.Row g e ∧ p e = false := by
  simp only [Row, clearWhere, Slots.get_clearWhere_eq_some]
  constructor
  · rintro ⟨i, ⟨hi, hp⟩, hg⟩
    exact ⟨⟨i, hi, hg⟩, hp⟩
  · rintro ⟨⟨i, hi, hg⟩, hp⟩
    exact ⟨i, ⟨hi, hp⟩, hg⟩

variable {i : Fin n} {g' : Nat} {e' : α}

theorem row_put {l : Nat} :
    (⟨t.entries.put i (some e), t.generations.set i g, l⟩ : GenTable α n).Row g' e' ↔
      (g' = g ∧ e' = e) ∨
        ∃ j, j ≠ i ∧ t.entries.get j = some e' ∧ t.generations.get j = g' := by
  constructor
  · rintro ⟨j, hj, hg⟩
    by_cases h : j = i
    · subst h
      simp only [Slots.get_put_self, Option.some.injEq, List.Vector.get_set_same] at hj hg
      exact .inl ⟨hg.symm, hj.symm⟩
    · simp only [Slots.get_put_of_ne (Ne.symm h)] at hj
      simp only [List.Vector.get_set_eq_if, Ne.symm h, if_false] at hg
      exact .inr ⟨j, h, hj, hg⟩
  · rintro (⟨rfl, rfl⟩ | ⟨j, h, hj, hg⟩)
    · exact ⟨i, by simp, by simp⟩
    · refine ⟨j, ?_, ?_⟩
      · simpa [Slots.get_put_of_ne (Ne.symm h)] using hj
      · simpa [List.Vector.get_set_eq_if, Ne.symm h] using hg

theorem row_admitAt (h : (t.admitAt i e g).Row g' e') : (g' = g ∧ e' = e) ∨ t.Row g' e' := by
  rcases row_put.mp h with h | ⟨j, _, hj, hg⟩
  · exact .inl h
  · exact .inr ⟨j, hj, hg⟩

theorem row_admitAt_self (t : GenTable α n) (i : Fin n) (e : α) (g : Nat) :
    (t.admitAt i e g).Row g e :=
  row_put.mpr (.inl ⟨rfl, rfl⟩)

theorem row_admitAt_of_free (hfree : t.entries.get i = none) (h : t.Row g' e') :
    (t.admitAt i e g).Row g' e' := by
  obtain ⟨j, hj, hg⟩ := h
  refine row_put.mpr (.inr ⟨j, ?_, hj, hg⟩)
  rintro rfl
  simp [hfree] at hj

theorem row_updateAt :
    (t.updateAt i e).Row g' e' ↔ (g' = t.generations.get i ∧ e' = e) ∨
      ∃ j, j ≠ i ∧ t.entries.get j = some e' ∧ t.generations.get j = g' := by
  have hset : t.generations.set i (t.generations.get i) = t.generations := by
    apply List.Vector.ext
    intro j
    rw [List.Vector.get_set_eq_if]
    split
    · rename_i h
      rw [h]
    · rfl
  have := @row_put α n t (t.generations.get i) e i g' e' t.lastGeneration
  rw [hset] at this
  exact this

theorem row_restoreAt (hfree : t.entries.get i = none) :
    (t.restoreAt i e g).Row g' e' ↔ (g' = g ∧ e' = e) ∨ t.Row g' e' := by
  refine row_put.trans (or_congr_right ?_)
  constructor
  · rintro ⟨j, _, hj, hg⟩
    exact ⟨j, hj, hg⟩
  · rintro ⟨j, hj, hg⟩
    refine ⟨j, ?_, hj, hg⟩
    rintro rfl
    simp [hfree] at hj

theorem row_freeAt :
    (t.freeAt i).Row g e ↔ ∃ j, j ≠ i ∧ t.entries.get j = some e ∧ t.generations.get j = g := by
  constructor
  · rintro ⟨j, hj, hg⟩
    refine ⟨j, ?_, ?_, hg⟩
    · rintro rfl
      simp [freeAt] at hj
    · by_cases h : i = j
      · simp [freeAt, h] at hj
      · simpa [freeAt, Slots.get_put, h] using hj
  · rintro ⟨j, h, hj, hg⟩
    exact ⟨j, by simpa [freeAt, Slots.get_put_of_ne (Ne.symm h)] using hj, hg⟩

theorem row_of_freeAt (h : (t.freeAt i).Row g e) : t.Row g e := by
  obtain ⟨j, _, hj, hg⟩ := row_freeAt.mp h
  exact ⟨j, hj, hg⟩

/-! ### Well-formedness -/

theorem nextGeneration_eq_some (h : t.nextGeneration = some g) : g = t.lastGeneration + 1 := by
  unfold nextGeneration at h
  split at h
  · simp at h
  · exact (checkedSucc_eq_some.mp h).2

theorem nextGeneration_eq_none (h : t.lastGeneration = u64Max) : t.nextGeneration = none := by
  unfold nextGeneration
  split
  · rfl
  · simp [h, checkedSucc]

theorem pos_of_nextGeneration (h : t.nextGeneration = some g) : 0 < n := by
  unfold nextGeneration at h
  split at h
  · simp at h
  · omega

theorem wf_new : (new : GenTable α n).WF where
  pos h := absurd h (not_row_new _ _)
  le_last h := absurd h (not_row_new _ _)
  inj h := by simp [new] at h

theorem WF.clear : t.clear.WF where
  pos h := absurd h (not_row_clear _ _ _)
  le_last h := absurd h (not_row_clear _ _ _)
  inj h := by simp [GenTable.clear] at h

theorem WF.clearWhere (h : t.WF) (p : α → Bool) : (t.clearWhere p).WF where
  pos hr := h.pos (row_clearWhere.mp hr).1
  le_last hr := h.le_last (row_clearWhere.mp hr).1
  inj hi hj hg :=
    h.inj (Slots.get_clearWhere_eq_some.mp hi).1 (Slots.get_clearWhere_eq_some.mp hj).1 hg

theorem WF.freeAt (h : t.WF) (i : Fin n) : (t.freeAt i).WF where
  pos hr := h.pos (row_of_freeAt hr)
  le_last hr := h.le_last (row_of_freeAt hr)
  inj := by
    intro a b e e' ha hb hg
    have ha' : t.entries.get a = some e := by
      simp only [GenTable.freeAt, Slots.get_put] at ha
      split at ha
      · simp at ha
      · exact ha
    have hb' : t.entries.get b = some e' := by
      simp only [GenTable.freeAt, Slots.get_put] at hb
      split at hb
      · simp at hb
      · exact hb
    exact h.inj ha' hb' hg

theorem inj_put (h : t.WF)
    (hfresh : ∀ j, j ≠ i → ∀ e', t.entries.get j = some e' → t.generations.get j ≠ g) {a b : Fin n}
    {x y : α} (ha : (t.entries.put i (some e)).get a = some x)
    (hb : (t.entries.put i (some e)).get b = some y)
    (hg : (t.generations.set i g).get a = (t.generations.set i g).get b) : a = b := by
  simp only [Slots.get_put] at ha hb
  simp only [List.Vector.get_set_eq_if] at hg
  by_cases hia : i = a
  · by_cases hib : i = b
    · exact hia.symm.trans hib
    · simp only [hia, if_true] at hg
      simp only [hib, if_false] at hb
      rw [← hia, if_neg hib] at hg
      exact absurd hg.symm (hfresh b (Ne.symm hib) y hb)
  · by_cases hib : i = b
    · simp only [hia, if_false] at ha
      rw [if_neg hia, if_pos hib] at hg
      exact absurd hg (hfresh a (Ne.symm hia) x ha)
    · rw [if_neg hia] at ha hg
      rw [if_neg hib] at hb hg
      exact h.inj ha hb hg

theorem WF.admitAt (h : t.WF) (hg : t.lastGeneration < g) (i : Fin n) (e : α) :
    (t.admitAt i e g).WF where
  pos hr := by
    rcases row_admitAt hr with ⟨rfl, _⟩ | hr
    · omega
    · exact h.pos hr
  le_last hr := by
    rcases row_admitAt hr with ⟨rfl, _⟩ | hr
    · exact le_rfl
    · exact (h.le_last hr).trans hg.le
  inj ha hb hab := by
    refine inj_put h (fun j _ e' he' heq => ?_) ha hb hab
    have := h.le_last ⟨j, he', heq⟩
    omega

theorem WF.updateAt (h : t.WF) {old : α} (hold : t.entries.get i = some old) (e : α) :
    (t.updateAt i e).WF where
  pos hr := by
    rcases row_updateAt.mp hr with ⟨rfl, _⟩ | ⟨j, _, hj, rfl⟩
    · exact h.pos ⟨i, hold, rfl⟩
    · exact h.pos ⟨j, hj, rfl⟩
  le_last hr := by
    rcases row_updateAt.mp hr with ⟨rfl, _⟩ | ⟨j, _, hj, rfl⟩
    · exact h.le_last ⟨i, hold, rfl⟩
    · exact h.le_last ⟨j, hj, rfl⟩
  inj := by
    intro a b x y ha hb hab
    have hocc : ∀ k z, (t.updateAt i e).entries.get k = some z → ∃ z', t.entries.get k = some z' := by
      intro k z hk
      simp only [GenTable.updateAt, Slots.get_put] at hk
      split at hk
      · rename_i hik
        exact ⟨old, hik ▸ hold⟩
      · exact ⟨z, hk⟩
    obtain ⟨x', hx'⟩ := hocc a x ha
    obtain ⟨y', hy'⟩ := hocc b y hb
    exact h.inj hx' hy' hab

theorem WF.restoreAt (h : t.WF) (hfree : t.entries.get i = none) (hpos : 0 < g)
    (hle : g ≤ t.lastGeneration) (hunused : ∀ e', ¬ t.Row g e') : (t.restoreAt i e g).WF where
  pos hr := by
    rcases (row_restoreAt hfree).mp hr with ⟨rfl, _⟩ | hr
    · exact hpos
    · exact h.pos hr
  le_last hr := by
    rcases (row_restoreAt hfree).mp hr with ⟨rfl, _⟩ | hr
    · exact hle
    · exact h.le_last hr
  inj ha hb hab :=
    inj_put h (fun j _ e' he' heq => hunused e' ⟨j, he', heq⟩) ha hb hab

theorem WF.row_unique (h : t.WF) (he : t.Row g e) (he' : t.Row g e') : e = e' := by
  obtain ⟨i, hi, hgi⟩ := he
  obtain ⟨j, hj, hgj⟩ := he'
  obtain rfl := h.inj hi hj (hgi.trans hgj.symm)
  rw [hi] at hj
  exact Option.some.inj hj

theorem WF.row_freeAt_iff (h : t.WF) {old : α} (hold : t.entries.get i = some old) :
    (t.freeAt i).Row g e ↔ t.Row g e ∧ g ≠ t.generations.get i := by
  rw [row_freeAt]
  constructor
  · rintro ⟨j, hne, hj, rfl⟩
    exact ⟨⟨j, hj, rfl⟩, fun hg => hne (h.inj hj hold hg)⟩
  · rintro ⟨⟨j, hj, rfl⟩, hne⟩
    exact ⟨j, fun hji => hne (by rw [hji]), hj, rfl⟩

/-! ### Lookups -/

theorem entryOf_eq_some (h : t.entryOf p g = some e) : t.Row g e ∧ p e = true := by
  unfold entryOf at h
  split at h
  · simp at h
  · obtain ⟨i, _, hi⟩ := List.exists_of_findSome?_eq_some h
    simp only [Option.filter_eq_some_iff, Bool.and_eq_true, decide_eq_true_eq] at hi
    exact ⟨⟨i, hi.1, hi.2.1⟩, hi.2.2⟩

theorem WF.entryOf_of_row (h : t.WF) (hrow : t.Row g e) (hp : p e = true) :
    t.entryOf p g = some e := by
  have hne : g ≠ 0 := (h.pos hrow).ne'
  obtain ⟨i, hi, hg⟩ := hrow
  cases hfind : t.entryOf p g with
  | some e' =>
      have := (entryOf_eq_some hfind).1
      rw [h.row_unique this ⟨i, hi, hg⟩]
  | none =>
      unfold entryOf at hfind
      rw [if_neg hne, List.findSome?_eq_none_iff] at hfind
      have := hfind i (List.mem_finRange i)
      simp [hi, hg, hp] at this

theorem WF.entryOf_congr {t' : GenTable α n} (h : t.WF) (h' : t'.WF)
    (hrows : ∀ e, p e = true → (t'.Row g e ↔ t.Row g e)) : t'.entryOf p g = t.entryOf p g := by
  apply Option.ext
  intro e
  constructor
  · intro he
    obtain ⟨hrow, hp⟩ := entryOf_eq_some he
    exact h.entryOf_of_row ((hrows e hp).mp hrow) hp
  · intro he
    obtain ⟨hrow, hp⟩ := entryOf_eq_some he
    exact h'.entryOf_of_row ((hrows e hp).mpr hrow) hp

theorem generationOf_eq_some (h : t.generationOf p = some g) :
    g ≠ 0 ∧ ∃ e, t.Row g e ∧ p e = true := by
  unfold generationOf at h
  obtain ⟨i, _, hi⟩ := List.exists_of_findSome?_eq_some h
  obtain ⟨e, he, hg⟩ := Option.bind_eq_some_iff.mp hi
  obtain ⟨hget, hp⟩ := Option.filter_eq_some_iff.mp he
  split at hg
  · rename_i hne
    obtain rfl := Option.some.inj hg
    exact ⟨hne, e, ⟨i, hget, rfl⟩, hp⟩
  · simp at hg

/-! ### Shrinking -/

structure Later (t t' : GenTable α n) : Prop where
  wf : t.WF → t'.WF
  last_le : t.lastGeneration ≤ t'.lastGeneration

theorem Later.refl (t : GenTable α n) : Later t t := ⟨id, le_rfl⟩

theorem Later.trans {t t' t'' : GenTable α n} (h : Later t t') (h' : Later t' t'') : Later t t'' :=
  ⟨fun hwf => h'.wf (h.wf hwf), h.last_le.trans h'.last_le⟩

structure Shrinks (t t' : GenTable α n) : Prop where
  last : t'.lastGeneration = t.lastGeneration
  wf : t.WF → t'.WF
  row : t.WF → ∀ {g e}, t'.Row g e → t.Row g e

namespace Shrinks

variable {t t' t'' : GenTable α n}

theorem refl : Shrinks t t := ⟨rfl, id, fun _ _ _ h => h⟩

theorem trans (h : Shrinks t t') (h' : Shrinks t' t'') : Shrinks t t'' where
  last := h'.last.trans h.last
  wf hwf := h'.wf (h.wf hwf)
  row hwf _ _ hrow := h.row hwf (h'.row (h.wf hwf) hrow)

theorem later (h : Shrinks t t') : Later t t' := ⟨h.wf, h.last.ge⟩

theorem clearWhere (p : α → Bool) : Shrinks t (t.clearWhere p) :=
  ⟨rfl, fun h => h.clearWhere p, fun _ _ _ h => (row_clearWhere.mp h).1⟩

theorem clear : Shrinks t t.clear :=
  ⟨rfl, fun _ => WF.clear, fun _ _ _ h => absurd h (not_row_clear _ _ _)⟩

theorem freeAt (i : Fin n) : Shrinks t (t.freeAt i) :=
  ⟨rfl, fun h => h.freeAt i, fun _ _ _ h => row_of_freeAt h⟩

theorem keyed {κ : Type} {key : α → κ} (h : Shrinks t t') (hwf : t.WF)
    (hkeyed : t.entries.Keyed key) : t'.entries.Keyed key := by
  intro i j a b ha hb hkey
  obtain ⟨i', ha', hi'⟩ := h.row hwf ⟨i, ha, rfl⟩
  obtain ⟨j', hb', hj'⟩ := h.row hwf ⟨j, hb, rfl⟩
  obtain rfl := hkeyed ha' hb' hkey
  exact (h.wf hwf).inj ha hb (hi'.symm.trans hj')

end Shrinks

/-! ### Leases

Entries of such a table are leases: each has a deadline, and a part that stays what it was at
admission. `Renews` says what a table may do to a lease at a given time: drop it, keep it, or renew
it while it runs. So a lease that has run out is never seen again. -/

section Leases

variable {β : Type} {deadline : α → Nat} {core : α → β} {now : Nat} {t t' t'' : GenTable α n}

/-- Every row of `t'` is newly admitted, or is a row of `t` with its fixed part unchanged, renewed
only if it was running at `now`. A counter at its end stays there. -/
structure Renews (deadline : α → Nat) (core : α → β) (now : Nat) (t t' : GenTable α n) : Prop
    extends Later t t' where
  last_end : t.lastGeneration = u64Max → t'.lastGeneration = u64Max
  row : t.WF → ∀ {g e'}, t'.Row g e' → t.lastGeneration < g ∨
    ∃ e, t.Row g e ∧ core e' = core e ∧ (deadline e' = deadline e ∨ now < deadline e)

namespace Renews

theorem refl : Renews deadline core now t t :=
  ⟨.refl t, id, fun _ _ _ h => .inr ⟨_, h, rfl, .inl rfl⟩⟩

theorem trans (h : Renews deadline core now t t') (h' : Renews deadline core now t' t'') :
    Renews deadline core now t t'' where
  toLater := h.toLater.trans h'.toLater
  last_end hend := h'.last_end (h.last_end hend)
  row hwf _ _ hrow := by
    rcases h'.row (h.wf hwf) hrow with hnew | ⟨e', he', hcore', hdead'⟩
    · exact .inl (h.last_le.trans_lt hnew)
    · rcases h.row hwf he' with hnew | ⟨e, he, hcore, hdead⟩
      · exact .inl hnew
      · refine .inr ⟨e, he, hcore'.trans hcore, ?_⟩
        rcases hdead' with hdead' | hdead'
        · exact hdead.imp hdead'.trans id
        · rcases hdead with hdead | hdead
          · exact .inr (hdead ▸ hdead')
          · exact .inr hdead

theorem of_shrinks (h : Shrinks t t') : Renews deadline core now t t' :=
  ⟨h.later, h.last.trans, fun hwf _ _ hrow => .inr ⟨_, h.row hwf hrow, rfl, .inl rfl⟩⟩

theorem clearWhere (p : α → Bool) : Renews deadline core now t (t.clearWhere p) :=
  of_shrinks (.clearWhere p)

theorem admitAt {i : Fin n} {e : α} {g : Nat} (hg : t.nextGeneration = some g) :
    Renews deadline core now t (t.admitAt i e g) := by
  have hlt : t.lastGeneration < g := by
    rw [nextGeneration_eq_some hg]
    exact Nat.lt_succ_self _
  refine ⟨⟨fun h => h.admitAt hlt i e, hlt.le⟩, fun hend => ?_, fun _ _ _ hrow => ?_⟩
  · rw [nextGeneration_eq_none hend] at hg
    cases hg
  · rcases row_admitAt hrow with ⟨rfl, _⟩ | hrow
    · exact .inl hlt
    · exact .inr ⟨_, hrow, rfl, .inl rfl⟩

theorem updateAt {i : Fin n} {old e : α} (hold : t.entries.get i = some old)
    (hcore : core e = core old) (hdead : deadline e = deadline old ∨ now < deadline old) :
    Renews deadline core now t (t.updateAt i e) where
  wf h := h.updateAt hold e
  last_le := le_rfl
  last_end := id
  row _ _ _ hrow := by
    rcases row_updateAt.mp hrow with ⟨rfl, rfl⟩ | ⟨j, _, hj, rfl⟩
    · exact .inr ⟨old, ⟨i, hold, rfl⟩, hcore, hdead⟩
    · exact .inr ⟨_, ⟨j, hj, rfl⟩, rfl, .inl rfl⟩

theorem mono {τ : Nat} (h : Renews deadline core now t t') (hτ : τ ≤ now) :
    Renews deadline core τ t t' where
  toLater := h.toLater
  last_end := h.last_end
  row hwf _ _ hrow := by
    rcases h.row hwf hrow with hnew | ⟨e, he, hcore, hdead⟩
    · exact .inl hnew
    · exact .inr ⟨e, he, hcore, hdead.imp_right hτ.trans_lt⟩

theorem deadline_le (h : Renews deadline core now t t') (hwf : t.WF) {g τ : Nat}
    (hg : g ≤ t.lastGeneration) (hτ : τ ≤ now) (hout : ∀ e, t.Row g e → deadline e ≤ τ) (e' : α)
    (hrow : t'.Row g e') :
    deadline e' ≤ τ := by
  rcases h.row hwf hrow with hnew | ⟨e, he, _, hdead⟩
  · omega
  · have := hout e he
    omega

end Renews

end Leases

/-! ### Histories

A table is worked by operations, some of them done at a time. If each renews leases at every time up
to its own, so does a sequence of them: a number stands for one entry, and then never for anything
again. -/

section Histories

variable {β ω : Type} {deadline : α → Nat} {core : α → β}
  {perform : GenTable α n → ω → GenTable α n} {time : ω → Option Nat}
  {allowed : GenTable α n → ω → Prop} {t t' : GenTable α n} {ops : List ω} {g : Nat}

/-- Every operation renews leases, at all times not after its own. -/
def Leasing (deadline : α → Nat) (core : α → β) (perform : GenTable α n → ω → GenTable α n)
    (time : ω → Option Nat) : Prop :=
  ∀ t op now, (∀ τ ∈ time op, now ≤ τ) → Renews deadline core now t (perform t op)

namespace Leasing

section

variable (h : Leasing deadline core perform time)

include h

theorem last_end (hend : t.lastGeneration = u64Max) (op : ω) :
    (perform t op).lastGeneration = u64Max :=
  (h t op 0 fun τ _ => Nat.zero_le τ).last_end hend

variable (hrun : Runs perform allowed t ops t')

include hrun

theorem runs {now : Nat} (hnow : ∀ op ∈ ops, ∀ τ ∈ time op, now ≤ τ) :
    Renews deadline core now t t' := by
  induction hrun with
  | nil => exact .refl
  | @cons t _ op ops _ _ ih =>
      have hstep := h t op now (hnow op List.mem_cons_self)
      exact hstep.trans (ih fun op' hop' => hnow op' (List.mem_cons_of_mem op hop'))

variable (hwf : t.WF)

include hwf

/-- From the first operation on a number stands for one entry. -/
theorem core_eq {e e' : α} (he : t.Row g e) (he' : t'.Row g e') : core e' = core e := by
  have hrenews := h.runs hrun fun _ _ τ _ => Nat.zero_le τ
  rcases hrenews.row hwf he' with hnew | ⟨e₀, he₀, hcore, _⟩
  · have := hwf.le_last he
    omega
  · rw [hcore, hwf.row_unique he₀ he]

/-- A number that stands for nothing that runs stands for nothing later. -/
theorem entryOf_eq_none (hg : g ≤ t.lastGeneration) {τ τ' : Nat}
    (hnow : ∀ op ∈ ops, ∀ τ₁ ∈ time op, τ ≤ τ₁) (hτ : τ ≤ τ')
    (hnone : t.entryOf (fun e => decide (τ < deadline e)) g = none) :
    t'.entryOf (fun e => decide (τ' < deadline e)) g = none := by
  have hrenews := h.runs hrun hnow
  have hout : ∀ e, t.Row g e → deadline e ≤ τ := by
    intro e he
    by_contra hrunning
    have hsome := hwf.entryOf_of_row he (p := fun e => decide (τ < deadline e)) (by simpa using hrunning)
    rw [hnone] at hsome
    cases hsome
  cases hfound : t'.entryOf (fun e => decide (τ' < deadline e)) g with
  | none => rfl
  | some e' =>
      obtain ⟨hrow, hrunning⟩ := entryOf_eq_some hfound
      have hle := hrenews.deadline_le hwf hg le_rfl hout e' hrow
      have := of_decide_eq_true hrunning
      omega

end

end Leasing

end Histories

end GenTable

end Bounded
