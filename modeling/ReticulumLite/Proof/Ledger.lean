import ReticulumLite.Proof.Queue
import Mathlib.Logic.Relation
import Mathlib.Logic.Function.Iterate

/-!
# The ledger of the outbound queue

What a node keeps of its frames is a ledger: the rows in order, the last delivery identity issued,
and the counters of frames queued, dropped and expired. `Ledger.Step` lists what sending does to it,
with the rows that are queued, and a handler is a sequence of such steps. Rows are also taken away
without anything being sent: each such change is a function of the ledger, and a `Trim`.
-/

namespace ReticulumLite

open Bounded LiteNode

/-- The delivery of a frame that was queued under an identity: nobody has looked at it. -/
def Delivery.Fresh (identity : Nat) : {m : Model} → Delivery m → Prop
  | _, .retained d => d = ⟨identity, List.Vector.replicate 7 0, 0x7f, false⟩
  | _, .target _ => True

theorem Interfaces.fresh_delivery {m : Model} (i : Interfaces m) (identity : Nat)
    (id : InterfaceId) : (i.delivery identity id).Fresh identity := by
  cases i with
  | endpoint => exact rfl
  | router => trivial

@[simp] theorem Delivery.outbound_retained (d : OutboundDelivery) :
    (Delivery.retained d).outbound = d := rfl

/-- A delivery that lost permissions, or was bound to the generations of its targets. -/
def Delivery.Lessens : {m : Model} → Delivery m → Delivery m → Prop
  | _, .retained d, .retained d' => d'.identity = d.identity ∧
      (∀ i, d'.pendingTargets.getLsbD i = true → d.pendingTargets.getLsbD i = true) ∧
      (d.initialized = true →
        d'.initialized = true ∧ d'.interfaceGenerations = d.interfaceGenerations)
  | _, .target generation, .target generation' => generation' = generation

theorem Delivery.Lessens.refl {m : Model} (d : Delivery m) : d.Lessens d := by
  cases d with
  | retained d => exact ⟨rfl, fun _ h => h, fun h => ⟨h, rfl⟩⟩
  | target => exact rfl

theorem Delivery.Lessens.trans {m : Model} {d d' d'' : Delivery m} (h : d.Lessens d')
    (h' : d'.Lessens d'') : d.Lessens d'' := by
  cases d <;> cases d' <;> cases d''
  · refine ⟨h'.1.trans h.1, fun i hi => h.2.1 i (h'.2.1 i hi), fun hinit => ?_⟩
    obtain ⟨hinit', hsame⟩ := h.2.2 hinit
    exact ⟨(h'.2.2 hinit').1, (h'.2.2 hinit').2.trans hsame⟩
  · exact Eq.trans h' h

structure QueuedOutbound.Lessens {m : Model} (q q' : QueuedOutbound m) : Prop where
  frame : q'.frame = q.frame
  delivery : q.delivery.Lessens q'.delivery

@[ext] structure Ledger (m : Model) where
  rows : List (QueuedOutbound m)
  identity : Nat
  queued : Nat
  dropped : Nat
  expired : Nat

def LiteNode.ledger {K : Capacities} {m : Model} (s : LiteNode K m) : Ledger m where
  rows := s.outbound.toList
  identity := s.lastDeliveryIdentity
  queued := s.stats.queuedOutbound
  dropped := s.stats.outboundDropped
  expired := s.stats.outboundExpired

namespace Ledger

variable {m : Model} {n : Nat} {a b c : Ledger m}

/-- A row was queued under the next identity, and these are the rows now. -/
def issue (a : Ledger m) (rows : List (QueuedOutbound m)) : Ledger m :=
  { a with rows, identity := a.identity + 1, queued := bump a.queued }

/-- What sending does to the ledger of a queue with room for `n` rows, and the rows it queues. -/
inductive Step (n : Nat) : Ledger m → List (QueuedOutbound m) → Ledger m → Prop
  /-- A frame is refused before it is queued. -/
  | refuse (a : Ledger m) : Step n a [] { a with dropped := bump a.dropped }
  /-- The answer to a search cannot be made, for any of those who asked. -/
  | unanswered (a : Ledger m) (requesters : BitVec 8) :
      Step n a [] { a with dropped := satAdd a.dropped (popcount requesters) }
  | push {a : Ledger m} {q : QueuedOutbound m} (hfresh : q.delivery.Fresh (a.identity + 1))
      (hroom : a.rows.length < n) : Step n a [q] (a.issue (a.rows ++ [q]))
  /-- The oldest row makes room for the new one. -/
  | overflow {a : Ledger m} {q : QueuedOutbound m} (hfresh : q.delivery.Fresh (a.identity + 1))
      (hfull : a.rows.length = n) (hn : n ≠ 0) :
      Step n a [q] { a.issue (a.rows.tail ++ [q]) with dropped := bump a.dropped }
  | evict {a : Ledger m} {k : Nat} (hm : m = .router) (hk : k < a.rows.length) :
      Step n a [] { a with rows := a.rows.eraseIdx k, dropped := bump a.dropped }
  | lose (a : Ledger m) (q : QueuedOutbound m) (hn : n = 0) : Step n a [q] (a.issue a.rows)

inductive Steps (n : Nat) : Ledger m → List (QueuedOutbound m) → Ledger m → Prop
  | refl (a : Ledger m) : Steps n a [] a
  | tail {a b c : Ledger m} {new new' : List (QueuedOutbound m)} (h : Steps n a new b)
      (h' : Step n b new' c) : Steps n a (new ++ new') c

namespace Steps

variable {new new' : List (QueuedOutbound m)}

theorem trans (h : Steps n a new b) (h' : Steps n b new' c) : Steps n a (new ++ new') c := by
  induction h' with
  | refl => rwa [List.append_nil]
  | tail _ hstep ih =>
      rw [← List.append_assoc]
      exact ih.tail hstep

/-- One identity is issued for each row that is queued. -/
theorem identity (h : Steps n a new b) : b.identity = a.identity + new.length := by
  induction h with
  | refl => rfl
  | tail _ hstep ih =>
      rw [List.length_append, ← Nat.add_assoc, ← ih]
      cases hstep <;> rfl

/-- What stays of the old rows stands in front of what stays of the new ones. -/
theorem rows (h : Steps n a new b) : ∃ kept stayed : List (QueuedOutbound m),
    kept.Sublist a.rows ∧ stayed.Sublist new ∧ b.rows = kept ++ stayed := by
  induction h with
  | refl => exact ⟨_, [], .refl _, .refl _, (List.append_nil _).symm⟩
  | @tail b c new new' _ hstep ih =>
      obtain ⟨kept, stayed, hkept, hstayed, heq⟩ := ih
      have hrows : ∃ left last, left.Sublist b.rows ∧ last.Sublist new' ∧ c.rows = left ++ last := by
        cases hstep with
        | push => exact ⟨_, _, .refl _, .refl _, rfl⟩
        | overflow => exact ⟨_, _, List.tail_sublist _, .refl _, rfl⟩
        | evict => exact ⟨_, [], List.eraseIdx_sublist _ _, .refl _, (List.append_nil _).symm⟩
        | _ => exact ⟨_, [], .refl _, List.nil_sublist _, (List.append_nil _).symm⟩
      obtain ⟨left, last, hleft, hlast, hc⟩ := hrows
      rw [heq] at hleft
      obtain ⟨old, recent, rfl, hold, hrecent⟩ := List.sublist_append_iff.mp hleft
      refine ⟨old, recent ++ last, hold.trans hkept, (hrecent.trans hstayed).append hlast, ?_⟩
      rw [hc, List.append_assoc]

end Steps

/-! ### Taking rows away -/

/-- Rows that have run out are taken away, and each is counted twice. -/
def expire (a : Ledger m) (gone : QueuedOutbound m → Bool) : Ledger m where
  rows := a.rows.filter fun q => !gone q
  identity := a.identity
  queued := a.queued
  dropped := bump^[a.rows.countP gone] a.dropped
  expired := bump^[a.rows.countP gone] a.expired

def discard (a : Ledger m) (gone : QueuedOutbound m → Bool) : Ledger m :=
  { a with
    rows := a.rows.filter fun q => !gone q
    dropped := bump^[a.rows.countP gone] a.dropped }

def amend (a : Ledger m) (f : QueuedOutbound m → QueuedOutbound m) : Ledger m :=
  { a with rows := a.rows.map f }

/-- An expiry that the host reports of a frame it holds. -/
def record (a : Ledger m) : Ledger m :=
  { a with dropped := bump a.dropped, expired := bump a.expired }

inductive Trim : Ledger m → Ledger m → Prop
  | expire (a : Ledger m) (gone : QueuedOutbound m → Bool) : Trim a (a.expire gone)
  | discard (a : Ledger m) (gone : QueuedOutbound m → Bool) : Trim a (a.discard gone)
  | amend (a : Ledger m) {f : QueuedOutbound m → QueuedOutbound m}
      (hf : ∀ q : QueuedOutbound m, q.Lessens (f q)) : Trim a (a.amend f)
  | record (a : Ledger m) : Trim a a.record

abbrev Trims (a b : Ledger m) : Prop := Relation.ReflTransGen Trim a b

end Ledger

namespace LiteNode

variable {K : Capacities} {m : Model} {s s' : LiteNode K m}

/-- What happened to the queue between two states is what sending does. -/
def Books (s s' : LiteNode K m) : Prop := ∃ new, Ledger.Steps K.outbound s.ledger new s'.ledger

namespace Books

theorem of_eq (h : s'.ledger = s.ledger) : Books s s' := ⟨[], h ▸ .refl _⟩

theorem refl (s : LiteNode K m) : Books s s := of_eq rfl

theorem trans {s s' s'' : LiteNode K m} (h : Books s s') (h' : Books s' s'') : Books s s'' := by
  obtain ⟨new, hnew⟩ := h
  obtain ⟨new', hnew'⟩ := h'
  exact ⟨new ++ new', hnew.trans hnew'⟩

theorem after {s s' s'' : LiteNode K m} (h : Books s' s'') (heq : s'.ledger = s.ledger) : Books s s'' :=
  (of_eq heq).trans h

theorem single {new : List (QueuedOutbound m)}
    (h : Ledger.Step K.outbound s.ledger new s'.ledger) : Books s s' :=
  ⟨_, .tail (.refl _) h⟩

end Books

/-! ### Removing frames -/

theorem iterate_expired (k : Nat) (t : TransportStats) :
    (fun t : TransportStats => { t with
      outboundExpired := bump t.outboundExpired
      outboundDropped := bump t.outboundDropped })^[k] t =
        { t with
          outboundExpired := bump^[k] t.outboundExpired
          outboundDropped := bump^[k] t.outboundDropped } := by
  induction k generalizing t with
  | zero => rfl
  | succ k ih => rw [Function.iterate_succ_apply, ih, Function.iterate_succ_apply,
      Function.iterate_succ_apply]

theorem iterate_dropped (k : Nat) (t : TransportStats) :
    (fun t : TransportStats => { t with outboundDropped := bump t.outboundDropped })^[k] t =
      { t with outboundDropped := bump^[k] t.outboundDropped } := by
  induction k generalizing t with
  | zero => rfl
  | succ k ih => rw [Function.iterate_succ_apply, ih, Function.iterate_succ_apply]

theorem expireOutbound_ledger (s : LiteNode K m) (nowMs : Nat) :
    (s.expireOutbound nowMs).ledger = s.ledger.expire (s.staleFrame nowMs) := by
  obtain ⟨outbound, heq, hlist⟩ :=
    @removeFrames_spec K m (fun s => s.staleFrame nowMs) (fun _ _ _ => rfl) _ s
  unfold expireOutbound
  show (s.removeFrames _ fun s => s.count _).ledger = _
  rw [heq, iterate_expired]
  simp only [ledger, hlist]
  rfl

/-! ### Sending -/

namespace Books

theorem countOutboundDropped (s : LiteNode K m) : Books s s.countOutboundDropped :=
  single (.refuse s.ledger)

theorem pushFrame (s : LiteNode K m) (frame : OutboundFrame) :
    Books s (s.pushFrame frame (s.lastDeliveryIdentity + 1)) := by
  have hfresh := s.interfaces.fresh_delivery (s.lastDeliveryIdentity + 1) frame.interfaceId
  have hrows : s.ledger.rows.length = s.outbound.len := s.outbound.length_toList
  unfold LiteNode.pushFrame
  generalize hq : (⟨frame, s.interfaces.delivery (s.lastDeliveryIdentity + 1) frame.interfaceId⟩ :
    QueuedOutbound m) = q
  have hfresh : q.delivery.Fresh (s.lastDeliveryIdentity + 1) := hq ▸ hfresh
  by_cases hn : K.outbound = 0
  · have hpush : s.outbound.pushDropOldest q = (false, s.outbound) := by
      unfold Ring.pushDropOldest
      rw [dif_pos hn]
    simp only [hpush]
    exact single (.lose s.ledger q hn)
  by_cases hfull : s.outbound.len = K.outbound
  · obtain ⟨hdropped, hlist⟩ := s.outbound.pushDropOldest_full q hfull hn
    simp only [hdropped, if_true]
    have hstep := Ledger.Step.overflow (n := K.outbound) (q := q) (a := s.ledger) hfresh
      (hrows.trans hfull) hn
    rw [show s.ledger.rows.tail ++ [q] = (s.outbound.pushDropOldest q).2.toList from hlist.symm]
      at hstep
    exact single hstep
  · have hroom : s.outbound.len < K.outbound := lt_of_le_of_ne s.outbound.len_le hfull
    obtain ⟨hdropped, hlist⟩ := s.outbound.pushDropOldest_of_lt q hroom
    simp only [hdropped]
    have hstep := Ledger.Step.push (n := K.outbound) (q := q) (a := s.ledger) hfresh
      (lt_of_eq_of_lt hrows hroom)
    rw [show s.ledger.rows ++ [q] = (s.outbound.pushDropOldest q).2.toList from hlist.symm] at hstep
    exact single hstep

theorem reserveRouterQueue {id : InterfaceId} {reason : OutboundReason} {granted : Bool}
    (h : s.reserveRouterQueue id reason = (s', granted)) :
    Books s s' ∧ s'.lastDeliveryIdentity = s.lastDeliveryIdentity := by
  have hsame : Books s s ∧ s.lastDeliveryIdentity = s.lastDeliveryIdentity := ⟨refl s, rfl⟩
  unfold LiteNode.reserveRouterQueue at h
  cases hr : s.router? with
  | none =>
      simp only [hr] at h
      cases h
      exact hsame
  | some r =>
      obtain ⟨hm, _⟩ := Interfaces.eq_router hr
      simp only [hr] at h
      split at h
      · cases h
        exact hsame
      split at h
      · cases h
        exact hsame
      split at h
      · split at h
        · cases h
          exact hsame
        · rename_i offset hoffset
          cases h
          have hlt : offset < s.ledger.rows.length := by
            rcases Option.or_eq_some_iff.mp hoffset with hk | ⟨_, hk⟩
            · exact (List.findIdx?_eq_some_iff_getElem.mp hk).1
            · split at hk
              · cases hk
              · exact (List.findIdx?_eq_some_iff_getElem.mp hk).1
          have hstep := Ledger.Step.evict (n := K.outbound) hm.symm hlt
          rw [show s.ledger.rows.eraseIdx offset = (s.outbound.remove offset).2.toList from
            (s.outbound.toList_remove offset).symm] at hstep
          exact ⟨single hstep, rfl⟩
      · split at h
        · cases h
          exact hsame
        · cases h
          exact hsame

section

variable [Crypto]

theorem enqueueWithLifetime (s : LiteNode K m) (id : InterfaceId) (packet : PacketBuffer mtu)
    (reason : OutboundReason) (lifetime : OutboundLifetime) :
    Books s (s.enqueueWithLifetime id packet reason lifetime).1 := by
  have hdropped := countOutboundDropped s
  unfold LiteNode.enqueueWithLifetime
  simp only
  split
  · exact of_eq rfl
  split
  · split
    · exact hdropped.trans (of_eq rfl)
    · exact hdropped
  cases s.wireFrame id packet with
  | none => exact hdropped.trans (of_eq rfl)
  | some wire =>
      cases hidentity : checkedSucc s.lastDeliveryIdentity with
      | none => exact hdropped
      | some identity =>
          obtain rfl := (checkedSucc_eq_some.mp hidentity).2
          cases hreserve : s.reserveRouterQueue id reason with
          | mk s₁ granted =>
              obtain ⟨hbooks, hlast⟩ := reserveRouterQueue hreserve
              cases granted with
              | false =>
                  simp only
                  split
                  · exact hbooks.trans ((countOutboundDropped s₁).trans (of_eq rfl))
                  · exact hbooks.trans (countOutboundDropped s₁)
              | true =>
                  simp only
                  rw [← hlast]
                  exact hbooks.trans (pushFrame s₁ _)

end

end Books

end LiteNode

end ReticulumLite
