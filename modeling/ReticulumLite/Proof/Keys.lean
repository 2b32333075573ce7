import ReticulumLite.Proof.Reachable

/-!
# One row for each key

No table of a reachable node holds two rows for one destination, one proof or one link. What a
lookup by key finds is therefore the row itself, wherever the table keeps it.
-/

namespace ReticulumLite

open Bounded

namespace Operation

open LiteNode

variable [Crypto] {K : Capacities} {m : Model} {s : LiteNode K m}

/-- What survives the setting of the clock, every change and every removal survives an operation. -/
theorem perform_keeps {I : LiteNode K m → Prop} (hs : s.Consistent) (hI : I s) {op : Operation m}
    (hclock : ∀ t, op.time = some t → I { s with clockMs := t })
    (hchange : ∀ {c s₁ s₂}, (∀ h, c.heard = some h → op.Hears s h) → s₁.clockMs = c.nowMs →
      s₁.Sound → I s₁ → Change c s₁ s₂ → I s₂)
    (hsheds : ∀ {s'}, Sheds s s' → I s') : I (op.perform s) := by
  have hchanges : ∀ {c s₁ s₂}, (∀ h, c.heard = some h → op.Hears s h) → s₁.clockMs = c.nowMs →
      s₁.Sound → I s₁ → Changes c s₁ s₂ → I s₂ := by
    intro c s₁ s₂ hc hnow hs₁ hI₁ h
    have hall : s₂.clockMs = c.nowMs ∧ s₂.Sound ∧ I s₂ := by
      induction h with
      | refl => exact ⟨hnow, hs₁, hI₁⟩
      | tail _ hstep ih =>
          obtain ⟨hnow, hs, hI⟩ := ih
          exact ⟨hstep.grows.clockMs.trans hnow, hstep.sound hs, hchange hc hnow hs hI hstep⟩
    exact hall.2.2
  cases ht : op.time with
  | some t =>
      obtain ⟨heard, hrun, hhears⟩ := perform_timed hs.sound hs.placed ht
      exact hchanges hhears rfl (hs.sound.setClock t) (hclock t ht) hrun
  | none =>
      rcases perform_untimed (s := s) ht with ⟨_, hrun⟩ | ⟨_, hsheds'⟩
      · exact hchanges (fun h hh => by cases hh) rfl hs.sound hI (hrun s.clockMs)
      · exact hsheds hsheds'

end Operation

namespace LiteNode

variable {K : Capacities} {m : Model} {s s' : LiteNode K m} {c : Cause}

structure Keyed (s : LiteNode K m) : Prop where
  paths : s.paths.entries.Keyed PathEntry.destinationHash
  announceCache : s.announceCache.Keyed CachedAnnounce.destinationHash
  announceSchedule : s.announceSchedule.Keyed ScheduledAnnounce.destinationHash
  reverse : s.reverse.entries.Keyed ReverseEntry.proofHash
  links : s.links.entries.Keyed LinkEntry.linkId

theorem Sheds.keyed (h : Sheds s s') (hs : s.Sound) (hk : s.Keyed) : s'.Keyed where
  paths := h.paths.keyed hs.paths hk.paths
  announceCache := hk.announceCache.within h.announceCache
  announceSchedule := h.schedule.keyed hk.announceSchedule
  reverse := h.reverse.keyed hs.reverse hk.reverse
  links := h.links.keyed hs.links hk.links

theorem Sends.keyed {frame : OutboundFrame} (h : s.Sends frame s') (hk : s.Keyed) : s'.Keyed := by
  obtain ⟨_, _, rfl⟩ := h.rest
  exact { hk with }

theorem keyed_learned (hk : s.Keyed) (entry : PathEntry) (buffer : PacketBuffer mtu)
    (nowMs : Nat) : (s.learned entry buffer nowMs).Keyed := by
  have hpaths := PathTable.keyed_insertOrUpdate hk.paths entry nowMs
  unfold learned
  simp only
  split
  · exact { hk with
      paths := hpaths
      announceCache := AnnounceCache.keyed_insert (hk.announceCache.clearWhere _) _ _ }
  · exact { hk with paths := hpaths }

theorem Change.keyed [Crypto] (h : Change c s s') (hs : s.Sound) (hk : s.Keyed) : s'.Keyed := by
  cases h with
  | quiet h => exact h.toSheds.keyed hs hk
  | learn => exact keyed_learned hk _ _ _
  | touchPath => exact { hk with paths := PathTable.keyed_touch hk.paths _ _ }
  | lessen _ hless => exact { hk with announceSchedule := hless.keyed hk.announceSchedule }
  | schedule =>
      exact { hk with announceSchedule := AnnounceSchedule.keyed_insert hk.announceSchedule _ _ }
  | own => exact { hk with }
  | record => exact { hk with }
  | discover => exact { hk with }
  | send hsend => exact hsend.keyed hk
  | rebroadcast _ _ hsend => exact hsend.keyed hk
  | release _ _ _ _ _ _ hsend => exact { hsend.keyed hk with }
  | forwardData _ hsend =>
      have hk' := hsend.keyed hk
      exact { hk' with reverse := ReverseTable.keyed_insert hk'.reverse _ _ }
  | forwardLink _ hsend =>
      have hk' := hsend.keyed hk
      exact { hk' with links := LinkTable.keyed_insert hk'.links _ _ }
  | validateLink _ _ _ _ _ _ _ hsend =>
      have hk' := hsend.keyed hk
      exact { hk' with links := LinkTable.keyed_modify (hk'.links.clearWhere _) _ fun _ => rfl }
  | touchLink => exact { hk with links := LinkTable.keyed_modify (hk.links.clearWhere _) _ fun _ => rfl }

theorem Fresh.keyed (h : s.Fresh) : s.Keyed := by
  cases h <;> exact ⟨Slots.keyed_empty, Slots.keyed_empty, Slots.keyed_empty, Slots.keyed_empty,
    Slots.keyed_empty⟩

theorem perform_keyed [Crypto] (hs : s.Consistent) (hk : s.Keyed) (op : Operation m) :
    (op.perform s).Keyed :=
  Operation.perform_keeps hs hk (fun _ _ => { hk with }) (fun _ _ hs hk h => h.keyed hs hk)
    fun h => h.keyed hs.sound hk

theorem keyed_of_runs [Crypto] {s₀ : LiteNode K m} {ops : List (Operation m)}
    {allowed : LiteNode K m → Operation m → Prop} (hfresh : s₀.Fresh)
    (hrun : Runs Operation.perform allowed s₀ ops s) : s.Consistent ∧ s.Keyed :=
  hrun.invariant (I := fun s => s.Consistent ∧ s.Keyed)
    (fun _ op _ h => ⟨Operation.perform_consistent h.1 op, perform_keyed h.1 h.2 op⟩)
    ⟨hfresh.consistent, hfresh.keyed⟩

end LiteNode

end ReticulumLite
