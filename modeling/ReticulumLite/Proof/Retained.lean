import ReticulumLite.Proof.Conservation

/-!
# Retained delivery

The owner of an endpoint's interfaces looks at queued frames, sends them and acknowledges target by
target. A row is known by its delivery identity, and over any run only loses permissions: that is
`Ledger.Descends`. The contracts of looking, acknowledging, taking and retiring are `Selects`,
`Acknowledges`, `Takes` and `Retires`.
-/

namespace ReticulumLite

open Bounded LiteNode

namespace QueuedOutbound

def identity (q : QueuedOutbound .endpoint) : Nat := q.delivery.outbound.identity

def owes (q : QueuedOutbound .endpoint) (target : Nat) : Bool :=
  q.delivery.outbound.pendingTargets.getLsbD target

variable {q q' : QueuedOutbound .endpoint}

theorem Lessens.refl {m : Model} (q : QueuedOutbound m) : q.Lessens q := ⟨rfl, .refl _⟩

theorem Lessens.trans {m : Model} {q q' q'' : QueuedOutbound m} (h : q.Lessens q')
    (h' : q'.Lessens q'') : q.Lessens q'' :=
  ⟨h'.frame.trans h.frame, h.delivery.trans h'.delivery⟩

theorem lessens_iff : q.Lessens q' ↔ q'.frame = q.frame ∧ q'.identity = q.identity ∧
    (∀ target, q'.owes target = true → q.owes target = true) ∧
    (q.delivery.outbound.initialized = true → q'.delivery.outbound.initialized = true ∧
      q'.delivery.outbound.interfaceGenerations = q.delivery.outbound.interfaceGenerations) := by
  obtain ⟨frame, ⟨d⟩⟩ := q
  obtain ⟨frame', ⟨d'⟩⟩ := q'
  exact ⟨fun h => ⟨h.frame, h.delivery⟩, fun h => ⟨h.1, h.2⟩⟩

theorem Lessens.identity (h : q.Lessens q') : q'.identity = q.identity := (lessens_iff.mp h).2.1

def acked (q : QueuedOutbound .endpoint) (completed : BitVec 8) : QueuedOutbound .endpoint :=
  mapDelivery (fun d => { d with pendingTargets := d.pendingTargets &&& ~~~ completed }) q

end QueuedOutbound

/-! ### Rows over steps -/

namespace Ledger

variable {n : Nat} {a b c : Ledger .endpoint} {new : List (QueuedOutbound .endpoint)}

/-- The rows stand in the order of their identities, all of which were issued. -/
structure Ordered (a : Ledger .endpoint) : Prop where
  rows : a.rows.Pairwise fun q q' => q.identity < q'.identity
  issued : ∀ q ∈ a.rows, q.identity ≤ a.identity

theorem Ordered.of_identities (ha : a.Ordered) {rows : List (QueuedOutbound .endpoint)}
    (hsub : (rows.map QueuedOutbound.identity).Sublist (a.rows.map QueuedOutbound.identity)) :
    Ordered { a with rows } := by
  refine ⟨List.pairwise_map.mp ((List.pairwise_map.mpr ha.rows).sublist hsub), fun q hq => ?_⟩
  obtain ⟨q', hq', heq⟩ := List.mem_map.mp (hsub.subset (List.mem_map_of_mem hq))
  rw [← heq]
  exact ha.issued q' hq'

theorem Ordered.of_map (ha : a.Ordered) {f : QueuedOutbound .endpoint → QueuedOutbound .endpoint}
    (hf : ∀ q : QueuedOutbound .endpoint, q.Lessens (f q)) :
    Ordered { a with rows := a.rows.map f } := by
  have hidentities : (a.rows.map f).map QueuedOutbound.identity =
      a.rows.map QueuedOutbound.identity := by
    rw [List.map_map]
    exact List.map_congr_left fun q _ => (hf q).identity
  exact ha.of_identities (hidentities ▸ List.Sublist.refl _)

theorem identity_of_fresh {q : QueuedOutbound .endpoint} {identity : Nat}
    (h : q.delivery.Fresh identity) : q.identity = identity := by
  obtain ⟨frame, ⟨d⟩⟩ := q
  have hd : d = _ := h
  rw [hd]
  rfl

/-- What is queued under an identity that had been issued is the row that was queued under it. -/
structure Descends (a b : Ledger .endpoint) : Prop where
  identity : a.identity ≤ b.identity
  rows : ∀ q' ∈ b.rows, q'.identity ≤ a.identity → ∃ q ∈ a.rows, q.Lessens q'

theorem Descends.trans (h : a.Descends b) (h' : b.Descends c) : a.Descends c := by
  refine ⟨h.identity.trans h'.identity, fun q'' hq'' hle => ?_⟩
  obtain ⟨q', hq', hless'⟩ := h'.rows q'' hq'' (hle.trans h.identity)
  obtain ⟨q, hq, hless⟩ := h.rows q' hq' (hless'.identity ▸ hle)
  exact ⟨q, hq, hless.trans hless'⟩

structure Keeps (a b : Ledger .endpoint) : Prop where
  ordered : a.Ordered → b.Ordered
  descends : a.Descends b

namespace Keeps

theorem trans (h : a.Keeps b) (h' : b.Keeps c) : a.Keeps c :=
  ⟨fun ha => h'.ordered (h.ordered ha), h.descends.trans h'.descends⟩

theorem of_sublist (hidentity : b.identity = a.identity) (hsub : b.rows.Sublist a.rows) :
    a.Keeps b := by
  refine ⟨fun ha => ?_, hidentity.ge, fun q' hq' _ => ⟨q', hsub.subset hq', .refl q'⟩⟩
  obtain ⟨hrows, hissued⟩ := ha.of_identities (hsub.map _)
  exact ⟨hrows, fun q hq => (hissued q hq).trans hidentity.ge⟩

theorem refl (a : Ledger .endpoint) : a.Keeps a := .of_sublist rfl (.refl _)

end Keeps

theorem Keeps.of_fresh {rows : List (QueuedOutbound .endpoint)} {q : QueuedOutbound .endpoint}
    (hsub : rows.Sublist a.rows) (hfresh : q.delivery.Fresh (a.identity + 1))
    (hidentity : b.identity = a.identity + 1) (hb : b.rows = rows ++ [q]) : a.Keeps b := by
  have hq := identity_of_fresh hfresh
  refine ⟨fun ha => ?_, hidentity ▸ Nat.le_succ _, fun q' hq' hle => ?_⟩
  · have hlast : ∀ q₁ ∈ rows, q₁.identity < q.identity := fun q₁ hq₁ =>
      hq ▸ Nat.lt_succ_of_le (ha.issued q₁ (hsub.subset hq₁))
    constructor
    · rw [hb]
      refine List.pairwise_append.mpr ⟨ha.rows.sublist hsub, List.pairwise_singleton _ _, ?_⟩
      intro q₁ hq₁ q₂ hq₂
      rw [List.mem_singleton.mp hq₂]
      exact hlast q₁ hq₁
    · intro q₁ hq₁
      rw [hb, List.mem_append, List.mem_singleton] at hq₁
      rw [hidentity, ← hq]
      rcases hq₁ with hq₁ | rfl
      · exact (hlast q₁ hq₁).le
      · exact le_rfl
  · rw [hb, List.mem_append, List.mem_singleton] at hq'
    rcases hq' with hq' | rfl
    · exact ⟨q', hsub.subset hq', .refl q'⟩
    · rw [hq] at hle
      exact absurd hle (Nat.not_succ_le_self _)

theorem Step.keeps (h : Step n a new b) : a.Keeps b := by
  cases h with
  | refuse => exact .of_sublist rfl (.refl _)
  | unanswered => exact .of_sublist rfl (.refl _)
  | push hfresh => exact .of_fresh (.refl _) hfresh rfl rfl
  | overflow hfresh => exact .of_fresh (List.tail_sublist _) hfresh rfl rfl
  | evict hm => cases hm
  | lose =>
      exact ⟨fun ha => ⟨ha.rows, fun q hq => Nat.le_succ_of_le (ha.issued q hq)⟩,
        Nat.le_succ _, fun q' hq' _ => ⟨q', hq', .refl q'⟩⟩

theorem Steps.keeps (h : Steps n a new b) : a.Keeps b := by
  induction h with
  | refl => exact .refl a
  | tail _ hstep ih => exact ih.trans hstep.keeps

theorem Trims.keeps (h : Trims a b) : a.Keeps b := by
  induction h with
  | refl => exact .refl a
  | tail _ htrim ih =>
      refine ih.trans ?_
      cases htrim with
      | expire => exact .of_sublist rfl List.filter_sublist
      | discard => exact .of_sublist rfl List.filter_sublist
      | record => exact .of_sublist rfl (.refl _)
      | amend hf =>
          refine ⟨fun ha => ha.of_map hf, le_rfl, fun q' hq' _ => ?_⟩
          obtain ⟨q, hq, rfl⟩ := List.mem_map.mp hq'
          exact ⟨q, hq, hf q⟩

end Ledger

/-! ### Looking at the queue -/

namespace LiteNode

variable {K : Capacities} (s : LiteNode K .endpoint)

def rows : List (QueuedOutbound .endpoint) := s.outbound.toList

end LiteNode

/-- The ledger from which an operation sends, if it sends at all. Rows run out by the operation's own
node and at its own time, and nothing but `expire` and `discard` takes one away. -/
def Operation.settled {K : Capacities} (s : LiteNode K .endpoint) :
    Operation .endpoint → Ledger .endpoint
  | .ingest _ rx nowMs _ _ => s.ledger.expire
      ((({ s with clockMs := nowMs }.observeInterface rx).refreshDiscoveries nowMs).staleFrame nowMs)
  | .tick nowMs =>
      s.ledger.expire (({ s with clockMs := nowMs }.expireTables nowMs).staleFrame nowMs)
  | .requestPath _ _ _ nowMs => s.ledger.expire (s.staleFrame nowMs)
  | .recordExpiredOutbound => s.ledger.record
  | .retainedOutboundRetireInterface interface => s.ledger.retire interface
  | .retireReplacedInterface interface => s.replacedLedger interface
  | .updateInterface id generation mode _ outbound _ => s.updatedLedger id generation mode outbound
  | .updateInterfacePacketCapacity id generation clearMtu =>
      s.resizedLedger id generation clearMtu
  | .retainedOutboundSelect _ _ generations =>
      ((s.ledger.expire (s.staleFrame s.clockMs)).amend (bindDelivery generations)).discard exhausted
  | _ => s.ledger

end ReticulumLite
