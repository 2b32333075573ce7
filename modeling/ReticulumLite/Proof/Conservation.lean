import ReticulumLite.Proof.Bookkeeping
import ReticulumLite.Proof.Reachable

/-!
# No frame is lost without a count

A frame that was queued is still in the queue, was handed to the host, or was counted as dropped, as
an expired frame is too. The host's share is counted beside the node, operation by operation.
-/

namespace ReticulumLite

open Bounded LiteNode

theorem bump_le (a : Nat) : bump a ≤ a + 1 := satAdd_le a 1

theorem iterate_bump {a : Nat} (h : a ≤ u64Max) (k : Nat) : bump^[k] a = satAdd a k := by
  induction k with
  | zero =>
      simp only [Function.iterate_zero_apply, satAdd]
      omega
  | succ k ih =>
      rw [Function.iterate_succ_apply', ih]
      simp only [bump, satAdd]
      omega

namespace Ledger

variable {m : Model} {n handed : Nat} {a b : Ledger m} {new : List (QueuedOutbound m)}

/-- The counters are words, and what expired was dropped. -/
structure Sane (a : Ledger m) : Prop where
  queued : a.queued ≤ u64Max
  dropped : a.dropped ≤ u64Max
  expired : a.expired ≤ a.dropped

theorem Sane.counts (ha : a.Sane) (k : Nat) :
    bump^[k] a.dropped ≤ u64Max ∧ bump^[k] a.expired ≤ bump^[k] a.dropped ∧
      a.dropped ≤ bump^[k] a.dropped := by
  have hdropped := ha.dropped
  have hexpired := ha.expired
  rw [iterate_bump hdropped, iterate_bump (hexpired.trans hdropped)]
  simp only [satAdd]
  omega

theorem Step.sane (h : Step n a new b) (ha : a.Sane) : b.Sane := by
  obtain ⟨hle, _, hge⟩ := ha.counts 1
  have hexpired := ha.expired
  cases h with
  | refuse => exact ⟨ha.queued, hle, hexpired.trans hge⟩
  | unanswered => exact ⟨ha.queued, satAdd_le_u64Max _ _, hexpired.trans (le_satAdd ha.dropped)⟩
  | push => exact ⟨satAdd_le_u64Max _ _, ha.dropped, hexpired⟩
  | overflow => exact ⟨satAdd_le_u64Max _ _, hle, hexpired.trans hge⟩
  | evict => exact ⟨ha.queued, hle, hexpired.trans hge⟩
  | lose => exact ⟨satAdd_le_u64Max _ _, ha.dropped, hexpired⟩

theorem Steps.sane (h : Steps n a new b) (ha : a.Sane) : b.Sane := by
  induction h with
  | refl => exact ha
  | tail _ hstep ih => exact hstep.sane ih

theorem Trims.sane (h : Trims a b) (ha : a.Sane) : b.Sane := by
  induction h with
  | refl => exact ha
  | tail _ htrim ih =>
      cases htrim with
      | expire => exact ⟨ih.queued, (ih.counts _).1, (ih.counts _).2.1⟩
      | discard => exact ⟨ih.queued, (ih.counts _).1, ih.expired.trans (ih.counts _).2.2⟩
      | amend => exact ⟨ih.queued, ih.dropped, ih.expired⟩
      | record => exact ⟨ih.queued, (ih.counts 1).1, (ih.counts 1).2.1⟩

/-- Every row that was queued is there, was handed over, or was counted as dropped. A counter that has
reached its end covers everything, because the rows are counted in a word as well. -/
def Covered (handed : Nat) (a : Ledger m) : Prop := a.queued ≤ a.rows.length + handed + a.dropped

theorem length_filter_add_countP {α : Type} (p : α → Bool) (l : List α) :
    (l.filter fun x => !p x).length + l.countP p = l.length := by
  rw [← List.countP_eq_length_filter, Nat.add_comm, List.length_eq_countP_add_countP p]
  simp only [Bool.not_eq_true, Bool.decide_eq_false]

private theorem covered_of_counted {queued rows left dropped : Nat} (hqueued : queued ≤ u64Max)
    (h : queued ≤ rows + left + handed + dropped) : queued ≤ rows + handed + satAdd dropped left := by
  have hsum : queued ≤ rows + handed + (dropped + left) := by omega
  unfold satAdd
  rcases le_total (dropped + left) u64Max with hle | hle
  · rwa [min_eq_left hle]
  · rw [min_eq_right hle]
    exact hqueued.trans (Nat.le_add_left _ _)

theorem Step.covered (h : Step n a new b) (hn : 0 < n) (ha : a.Sane) (hcovered : a.Covered handed) :
    b.Covered handed := by
  have hqueued := ha.queued
  have hbump := bump_le a.queued
  have hrefused (lost : Nat) : a.queued ≤ a.rows.length + handed + satAdd a.dropped lost :=
    hcovered.trans (Nat.add_le_add_left (le_satAdd ha.dropped) _)
  unfold Covered at hcovered ⊢
  cases h with
  | refuse => exact hrefused 1
  | unanswered => exact hrefused _
  | push =>
      simp only [issue, List.length_append, List.length_singleton]
      omega
  | overflow _ hfull _ =>
      have hleft : a.queued ≤ a.rows.tail.length + handed + bump a.dropped := by
        refine covered_of_counted hqueued (hcovered.trans (le_of_eq ?_))
        rw [List.length_tail, Nat.sub_add_cancel (hfull ▸ hn)]
      simp only [issue, List.length_append, List.length_singleton]
      omega
  | evict _ hk =>
      refine covered_of_counted hqueued (hcovered.trans (le_of_eq ?_))
      rw [List.length_eraseIdx_of_lt hk, Nat.sub_add_cancel (Nat.zero_lt_of_lt hk)]
  | lose _ hzero => exact absurd hzero (Nat.pos_iff_ne_zero.mp hn)

theorem Steps.covered (h : Steps n a new b) (hn : 0 < n) (ha : a.Sane)
    (hcovered : a.Covered handed) : b.Covered handed := by
  induction h with
  | refl => exact hcovered
  | tail hsteps hstep ih => exact hstep.covered hn (hsteps.sane ha) ih

/-- Each row that is taken away is counted. -/
theorem covered_of_removed (ha : a.Sane) (gone : QueuedOutbound m → Bool)
    (hcovered : a.Covered handed) :
    a.queued ≤ (a.rows.filter fun q => !gone q).length + handed +
      bump^[a.rows.countP gone] a.dropped := by
  unfold Covered at hcovered
  rw [← length_filter_add_countP gone a.rows] at hcovered
  rw [iterate_bump ha.dropped]
  exact covered_of_counted ha.queued hcovered

theorem Trims.covered (h : Trims a b) (ha : a.Sane) (hcovered : a.Covered handed) :
    b.Covered handed := by
  induction h with
  | refl => exact hcovered
  | tail htrims htrim ih =>
      have hsane := Trims.sane htrims ha
      cases htrim with
      | expire gone => exact covered_of_removed hsane gone ih
      | discard gone => exact covered_of_removed hsane gone ih
      | amend =>
          unfold Covered amend at *
          rwa [List.length_map]
      | record => exact ih.trans (Nat.add_le_add_left (le_satAdd hsane.dropped) _)

end Ledger

theorem length_le_eraseIdx {α : Type} (l : List α) (k : Nat) :
    l.length ≤ (l.eraseIdx k).length + l[k]?.isSome.toNat := by
  rw [List.length_eraseIdx]
  split
  case isTrue hk =>
    rw [List.getElem?_eq_getElem hk]
    exact Nat.le_of_pred_lt (Nat.lt_succ_self _)
  case isFalse hk => exact Nat.le_add_right _ _

namespace LiteNode

variable {K : Capacities} {m : Model} {s s' : LiteNode K m} {handed k : Nat}

/-- Rows were taken away and others queued, or else at most `k` rows handed over in the end. -/
def Handed (k : Nat) (s s' : LiteNode K m) : Prop :=
  ∃ a new b rows, Ledger.Trims s.ledger a ∧ Ledger.Steps K.outbound a new b ∧
    s'.ledger = { b with rows } ∧ b.rows.length ≤ rows.length + k

namespace Handed

theorem of_trims (h : Ledger.Trims s.ledger s'.ledger) : Handed 0 s s' :=
  ⟨_, [], _, s'.ledger.rows, h, .refl _, rfl, le_rfl⟩

theorem of_rows {a : Ledger m} {rows : List (QueuedOutbound m)} (h : Ledger.Trims s.ledger a)
    (heq : s'.ledger = { a with rows }) (hlen : a.rows.length ≤ rows.length + k) : Handed k s s' :=
  ⟨a, [], a, rows, h, .refl _, heq, hlen⟩

theorem sane (h : Handed k s s') (hs : s.ledger.Sane) : s'.ledger.Sane := by
  obtain ⟨a, new, b, rows, htrims, hsteps, heq, _⟩ := h
  have hb := hsteps.sane (htrims.sane hs)
  rw [heq]
  exact ⟨hb.queued, hb.dropped, hb.expired⟩

theorem covered (h : Handed k s s') (hn : 0 < K.outbound) (hs : s.ledger.Sane)
    (hcovered : s.ledger.Covered handed) : s'.ledger.Covered (handed + k) := by
  obtain ⟨a, new, b, rows, htrims, hsteps, heq, hlen⟩ := h
  have hb : b.queued ≤ b.rows.length + handed + b.dropped :=
    hsteps.covered hn (htrims.sane hs) (htrims.covered hs hcovered)
  rw [heq]
  unfold Ledger.Covered
  simp only
  omega

theorem pollTx (s : LiteNode K .endpoint) : Handed s.pollTx.2.isSome.toNat s s.pollTx.1 := by
  unfold LiteNode.pollTx
  split
  · exact of_trims .refl
  refine of_rows (trims_of_expired rfl rfl) rfl ?_
  simp only [Option.isSome_map, Ring.pop_fst, Ring.toList_pop, List.length_tail]
  show (s.expireOutbound s.clockMs).outbound.toList.length ≤ _
  cases (s.expireOutbound s.clockMs).outbound.toList with
  | nil => simp
  | cons => simp

theorem pollTxForInterface (s : LiteNode K .router) (id : InterfaceId) :
    Handed (s.pollTxForInterface id).2.isSome.toNat s (s.pollTxForInterface id).1 := by
  unfold LiteNode.pollTxForInterface
  simp only
  split
  · exact of_trims (trims_of_expired rfl rfl)
  refine of_rows (trims_of_expired rfl rfl) rfl ?_
  simp only [Option.isSome_map, Ring.remove_fst, Ring.toList_remove]
  exact length_le_eraseIdx _ _

theorem retainedOutboundAck (s : LiteNode K .endpoint) (identity : Nat) (completed : BitVec 8) :
    Handed (s.outbound.len - (s.retainedOutboundAck identity completed).1.outbound.len) s
      (s.retainedOutboundAck identity completed).1 := by
  have hledger : ∃ outbound, (s.retainedOutboundAck identity completed).1 = { s with outbound } := by
    unfold LiteNode.retainedOutboundAck
    split
    · exact ⟨_, rfl⟩
    split
    · exact ⟨_, rfl⟩
    split
    · exact ⟨_, rfl⟩
    · exact ⟨_, rfl⟩
  obtain ⟨outbound, heq⟩ := hledger
  rw [heq]
  refine of_rows (a := s.ledger) .refl rfl ?_
  show s.outbound.toList.length ≤ outbound.toList.length + (s.outbound.len - outbound.len)
  rw [Ring.length_toList, Ring.length_toList]
  omega

theorem retainedOutboundTake (s : LiteNode K .endpoint) (identity : Nat) :
    Handed (s.retainedOutboundTake identity).2.toNat s (s.retainedOutboundTake identity).1 := by
  unfold LiteNode.retainedOutboundTake
  split
  · exact of_trims .refl
  refine of_rows (a := s.ledger) .refl rfl ?_
  simp only [Ring.remove_fst, Ring.toList_remove]
  exact length_le_eraseIdx _ _

end Handed

end LiteNode

namespace Operation

variable {K : Capacities} {m : Model}

/-- The frames an operation hands to the host: those it returns, and the rows an acknowledgement
removes. -/
def delivered (s : LiteNode K m) : Operation m → Nat
  | .pollTx => s.pollTx.2.isSome.toNat
  | .pollTxForInterface id => (s.pollTxForInterface id).2.isSome.toNat
  | .retainedOutboundAck identity completed =>
      s.outbound.len - (s.retainedOutboundAck identity completed).1.outbound.len
  | .retainedOutboundTake identity => (s.retainedOutboundTake identity).2.toNat
  | _ => 0

section

variable (s : LiteNode K m) (op : Operation m)

theorem delivered_of_not_hands (h : op.hands = false) : op.delivered s = 0 := by
  cases op <;> first | rfl | cases h

theorem handed_perform [Crypto] (hresets : op.resets = false) :
    Handed (op.delivered s) s (op.perform s) := by
  cases hhands : op.hands with
  | false =>
      rw [delivered_of_not_hands s op hhands]
      obtain ⟨new, hnew⟩ := books_perform s op
      exact ⟨_, new, _, _, trims_start s hresets hhands, hnew, rfl, le_rfl⟩
  | true =>
      cases op with
      | pollTx => exact Handed.pollTx s
      | pollTxForInterface => exact Handed.pollTxForInterface s _
      | retainedOutboundAck => exact Handed.retainedOutboundAck s _ _
      | retainedOutboundTake => exact Handed.retainedOutboundTake s _
      | _ => cases hhands

theorem ledger_resetInPlace (config : LiteConfig) (transportId : Hash16) :
    (s.resetInPlace config transportId).1.ledger = s.ledger ∨
      (s.resetInPlace config transportId).1.ledger = ⟨[], s.lastDeliveryIdentity, 0, 0, 0⟩ := by
  unfold LiteNode.resetInPlace
  split
  · exact .inl rfl
  split
  · exact .inl rfl
  · exact .inr rfl

theorem ledger_reset [Crypto] (hresets : op.resets = true) :
    (op.perform s).ledger = s.ledger ∨
      (op.perform s).ledger = ⟨[], s.lastDeliveryIdentity, 0, 0, 0⟩ := by
  cases op with
  | resetInPlace config transportId => exact ledger_resetInPlace s config transportId
  | resetRouterInPlace config id registry modem =>
      have hreset := ledger_resetInPlace s config id
      show (s.resetRouterInPlace config id registry modem).1.ledger = _ ∨
        (s.resetRouterInPlace config id registry modem).1.ledger = _
      unfold LiteNode.resetRouterInPlace
      split
      · exact .inl rfl
      split
      all_goals
        rename_i heq
        rw [heq] at hreset
        exact hreset
  | _ => cases hresets

theorem sane_perform [Crypto] (hs : s.ledger.Sane) : (op.perform s).ledger.Sane := by
  cases hresets : op.resets with
  | false => exact (handed_perform s op hresets).sane hs
  | true =>
      rcases ledger_reset s op hresets with heq | heq
      · rwa [heq]
      · rw [heq]
        exact ⟨Nat.zero_le _, Nat.zero_le _, le_rfl⟩

end

end Operation

/-- A node, and the frames its host was handed so far. -/
structure Counted (K : Capacities) (m : Model) where
  node : LiteNode K m
  delivered : Nat

def Counted.perform [Crypto] {K : Capacities} {m : Model} (c : Counted K m) (op : Operation m) :
    Counted K m :=
  ⟨op.perform c.node, c.delivered + op.delivered c.node⟩

theorem LiteNode.Fresh.ledger_eq {K : Capacities} {m : Model} {s : LiteNode K m} (h : s.Fresh) :
    s.ledger = ⟨[], 0, 0, 0, 0⟩ := by
  cases h with
  | newConst => rfl
  | newRouterConst => rfl

/-- No frame disappears uncounted: what was queued since the node was made, and no reset since, is
queued still, was handed over or was counted as dropped. Resets or not, what expired was counted as
dropped. -/
theorem outbound_conserved [Crypto] {K : Capacities} {m : Model} (hcapacity : 1 ≤ K.outbound)
    {s₀ : LiteNode K m} (hfresh : s₀.Fresh) :
    (∀ ops c, Runs Counted.perform (fun _ op => op.resets = false) ⟨s₀, 0⟩ ops c →
      c.node.stats.queuedOutbound ≤
        c.node.outbound.len + c.delivered + c.node.stats.outboundDropped) ∧
    ∀ ops s, s₀.Reaches ops s → s.stats.outboundExpired ≤ s.stats.outboundDropped := by
  have hsane : s₀.ledger.Sane := by
    rw [hfresh.ledger_eq]
    exact ⟨Nat.zero_le _, Nat.zero_le _, le_rfl⟩
  constructor
  · intro ops c hrun
    have hcovered : s₀.ledger.Covered 0 := by
      rw [hfresh.ledger_eq]
      exact Nat.zero_le _
    have hend := hrun.invariant (I := fun c => c.node.ledger.Sane ∧ c.node.ledger.Covered c.delivered)
      (fun c op hresets hc =>
        ⟨Operation.sane_perform c.node op hc.1,
          (Operation.handed_perform c.node op hresets).covered hcapacity hc.1 hc.2⟩)
      ⟨hsane, hcovered⟩
    have hle : c.node.stats.queuedOutbound ≤
        c.node.outbound.toList.length + c.delivered + c.node.stats.outboundDropped := hend.2
    rwa [Ring.length_toList] at hle
  · intro ops s hrun
    have hend := hrun.invariant (I := fun s => s.ledger.Sane)
      (fun s op _ hs => Operation.sane_perform s op hs) hsane
    exact hend.expired

/-- A router that queued one frame and handed it over. -/
theorem outbound_conserved_smallRouter :
    letI := Crypto.constant
    let c : Counted smallCapacities .router :=
      Counted.perform (Counted.perform ⟨smallRouter, 0⟩
        (.sendLocal 1 ⟨[], Nat.zero_le _⟩)) (.pollTxForInterface 1)
    c.node.stats.queuedOutbound = 1 ∧ c.delivered = 1 ∧
      c.node.stats.queuedOutbound ≤
        c.node.outbound.len + c.delivered + c.node.stats.outboundDropped := by
  let _ := Crypto.constant
  refine ⟨by decide +kernel, by decide +kernel, ?_⟩
  exact (outbound_conserved (K := smallCapacities) (by decide)
    (fresh_of_newRouter newRouter_smallRouter)).1 _ _ (.cons rfl (.cons rfl (.nil _)))

end ReticulumLite
