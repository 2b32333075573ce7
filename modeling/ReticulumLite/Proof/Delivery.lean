import ReticulumLite.Proof.Ticking
import ReticulumLite.Proof.Conservation

/-!
# The order in which frames are handed out

All interfaces share one queue. A poll takes a frame from the middle, expiry and the quotas take
others, new ones go to the end, and none is moved past another. So what an interface is handed,
followed by what still waits for it, is a subsequence of what was queued for it. Rebroadcasts are
the exception: they wait until nothing else does.
-/

namespace ReticulumLite

open Bounded

theorem exists_split_of_findIdx {α : Type} {p : α → Bool} {l : List α} {k : Nat}
    (h : l.findIdx? p = some k) :
    ∃ before x after, l = before ++ x :: after ∧ k = before.length ∧ p x = true ∧
      ∀ a ∈ before, p a = false := by
  obtain ⟨hk, hp, hbefore⟩ := List.findIdx?_eq_some_iff_getElem.mp h
  refine ⟨l.take k, l[k], l.drop (k + 1), ?_, ?_, hp, fun a ha => ?_⟩
  · rw [← List.drop_eq_getElem_cons hk, List.take_append_drop]
  · rw [List.length_take_of_le hk.le]
  · obtain ⟨j, hj, rfl⟩ := List.mem_take_iff_getElem.mp ha
    exact Bool.eq_false_iff.mpr (hbefore j (lt_of_lt_of_le hj (min_le_left _ _)))

namespace LiteNode

variable {K : Capacities} {s s' : LiteNode K .router} {id id' : InterfaceId}

/-! ### One poll -/

def urgentFor (id : InterfaceId) (q : QueuedOutbound .router) : Bool :=
  frameFor id q && !q.frame.reason.gated

def handOut (q : QueuedOutbound .router) : RouterOutboundFrame := ⟨q.frame, q.delivery.generation⟩

def liveFrames (s : LiteNode K .router) : List (QueuedOutbound .router) :=
  s.outbound.toList.filter fun q => !s.staleFrame s.clockMs q

/-- The next frame of an interface: the first that is no rebroadcast or, if all are, the first. -/
inductive NextFrame (id : InterfaceId) (queue : List (QueuedOutbound .router)) :
    List (QueuedOutbound .router) → QueuedOutbound .router → List (QueuedOutbound .router) → Prop
  | urgent {before q after} (hqueue : queue = before ++ q :: after) (hid : q.frame.interfaceId = id)
      (hreason : q.frame.reason.gated = false) (hbefore : ∀ a ∈ before, urgentFor id a = false) :
      NextFrame id queue before q after
  | rebroadcast {before q after} (hqueue : queue = before ++ q :: after)
      (hid : q.frame.interfaceId = id) (hreason : q.frame.reason.gated = true)
      (hnone : ∀ a ∈ queue, urgentFor id a = false) : NextFrame id queue before q after

theorem NextFrame.split {queue before after : List (QueuedOutbound .router)}
    {q : QueuedOutbound .router} (h : NextFrame id queue before q after) :
    queue = before ++ q :: after ∧ q.frame.interfaceId = id := by
  cases h with
  | urgent hqueue hid => exact ⟨hqueue, hid⟩
  | rebroadcast hqueue hid => exact ⟨hqueue, hid⟩

theorem interfaceFrameOffset_cases (s : LiteNode K .router) (id : InterfaceId) :
    (s.interfaceFrameOffset id = none ∧ ∀ q ∈ s.outbound.toList, q.frame.interfaceId ≠ id) ∨
      ∃ before q after, NextFrame id s.outbound.toList before q after ∧
        s.interfaceFrameOffset id = some before.length := by
  have hurgent : (s.outbound.toList.findIdx? fun q =>
      decide (q.frame.interfaceId = id) && !q.frame.reason.gated) =
      s.outbound.toList.findIdx? (urgentFor id) := rfl
  unfold interfaceFrameOffset
  rw [hurgent]
  cases hfirst : s.outbound.toList.findIdx? (urgentFor id) with
  | some k =>
      obtain ⟨before, q, after, hqueue, rfl, hq, hbefore⟩ := exists_split_of_findIdx hfirst
      simp only [urgentFor, frameFor, Bool.and_eq_true, decide_eq_true_eq, Bool.not_eq_true'] at hq
      exact .inr ⟨before, q, after, .urgent hqueue hq.1 hq.2 hbefore, rfl⟩
  | none =>
      have hnone := List.findIdx?_eq_none_iff.mp hfirst
      cases hany : s.outbound.toList.findIdx? fun q => decide (q.frame.interfaceId = id) with
      | some k =>
          obtain ⟨before, q, after, hqueue, rfl, hq, _⟩ := exists_split_of_findIdx hany
          have hid : q.frame.interfaceId = id := of_decide_eq_true hq
          have hgated := hnone q (hqueue ▸ List.mem_append_right _ List.mem_cons_self)
          simp only [urgentFor, frameFor, hid, decide_true, Bool.true_and,
            Bool.not_eq_false'] at hgated
          exact .inr ⟨before, q, after, .rebroadcast hqueue hid hgated hnone, rfl⟩
      | none =>
          refine .inl ⟨rfl, fun q hq => ?_⟩
          exact of_decide_eq_false (List.findIdx?_eq_none_iff.mp hany q hq)

theorem pollTxForInterface_cases (s : LiteNode K .router) (id : InterfaceId) :
    ∃ outbound stats, (s.pollTxForInterface id).1 = { s with outbound, stats } ∧
      ((s.pollTxForInterface id).2 = none ∧ outbound.toList = s.liveFrames ∧
          (∀ q ∈ s.liveFrames, q.frame.interfaceId ≠ id) ∨
        ∃ before q after, NextFrame id s.liveFrames before q after ∧
          outbound.toList = before ++ after ∧ (s.pollTxForInterface id).2 = some (handOut q)) := by
  obtain ⟨outbound, stats, heq, hqueue⟩ := s.expireOutbound_spec s.clockMs
  have hlive : (s.expireOutbound s.clockMs).outbound.toList = s.liveFrames := by
    rw [heq]
    exact hqueue
  unfold pollTxForInterface
  dsimp only
  rcases interfaceFrameOffset_cases (s.expireOutbound s.clockMs) id with
    ⟨hoffset, hnone⟩ | ⟨before, q, after, hnext, hoffset⟩
  · rw [hoffset]
    rw [hlive] at hnone
    exact ⟨outbound, stats, heq, .inl ⟨rfl, hqueue, hnone⟩⟩
  · rw [hoffset]
    dsimp only
    have hsplit := hnext.split.1
    rw [hlive] at hnext
    refine ⟨((s.expireOutbound s.clockMs).outbound.remove before.length).2, stats, ?_,
      .inr ⟨before, q, after, hnext, ?_, ?_⟩⟩
    · generalize ((s.expireOutbound s.clockMs).outbound.remove before.length).2 = rest
      rw [heq]
    · rw [Ring.toList_remove, hsplit, List.eraseIdx_append_of_length_le le_rfl, Nat.sub_self,
        List.eraseIdx_cons_zero]
    · rw [Ring.remove_fst, hsplit, List.getElem?_append_right le_rfl, Nat.sub_self]
      rfl

/-- What a host can rely on when it polls an interface. -/
structure PollsFairly (s : LiteNode K .router) (id : InterfaceId) : Prop where
  /-- A rebroadcast is handed out only if nothing else of the interface can be sent. -/
  last : ∀ f, (s.pollTxForInterface id).2 = some f → f.frame.reason = .announceRebroadcast →
    ∀ q ∈ s.outbound.toList, q.frame.interfaceId = id → q.frame.reason ≠ .announceRebroadcast →
      s.staleFrame s.clockMs q = true
  live : ∀ f, (s.pollTxForInterface id).2 = some f → f.frame.interfaceId = id ∧
    s.routerOutboundIsLive id f.frame.lifetime f.targetGeneration s.clockMs = true ∧
    f.targetGeneration = s.router.generation id
  /-- What can be sent on other interfaces stays as it was. -/
  others : ∀ id', id' ≠ id → (s.pollTxForInterface id).1.liveFrames.filter (frameFor id') =
    s.liveFrames.filter (frameFor id')
  peek : (∀ q ∈ s.outbound.toList, s.staleFrame s.clockMs q = false) →
    s.outboundPeekForInterface id =
      (s.pollTxForInterface id).2.map fun f => (f.frame.packet.len, f.frame.reason)

theorem mem_liveFrames {q : QueuedOutbound .router} :
    q ∈ s.liveFrames ↔ q ∈ s.outbound.toList ∧ s.staleFrame s.clockMs q = false := by
  rw [liveFrames, List.mem_filter, Bool.not_eq_true']

theorem live_handOut {q : QueuedOutbound .router} (hlive : s.staleFrame s.clockMs q = false) :
    s.routerOutboundIsLive q.frame.interfaceId q.frame.lifetime q.delivery.generation
        s.clockMs = true ∧
      q.delivery.generation = s.router.generation q.frame.interfaceId := by
  simp only [staleFrame, Bool.or_eq_false_iff, Bool.not_eq_false'] at hlive
  obtain ⟨hlife, hcurrent⟩ := hlive
  obtain ⟨frame, ⟨generation⟩⟩ := q
  refine ⟨?_, ?_⟩
  · rw [routerOutboundIsLive, Bool.and_eq_true]
    exact ⟨hcurrent, hlife⟩
  · cases hinterfaces : s.interfaces with
    | router r =>
        rw [hinterfaces] at hcurrent
        simp only [Interfaces.deliveryIsCurrent, Bool.and_eq_true, decide_eq_true_eq] at hcurrent
        rw [router, hinterfaces]
        exact hcurrent.2.symm

section

variable (s id)

theorem sublist_liveFrames_poll :
    (s.pollTxForInterface id).1.outbound.toList.Sublist s.liveFrames := by
  obtain ⟨outbound, stats, heq, hcases⟩ := s.pollTxForInterface_cases id
  rw [heq]
  rcases hcases with ⟨_, hqueue, _⟩ | ⟨before, q, after, hnext, hqueue, _⟩
  · rw [hqueue]
  · rw [hqueue, hnext.split.1]
    exact (List.sublist_cons_self q after).append_left before

theorem sublist_poll : (s.pollTxForInterface id).1.outbound.toList.Sublist s.outbound.toList :=
  (sublist_liveFrames_poll s id).trans List.filter_sublist

theorem liveFrames_poll :
    (s.pollTxForInterface id).1.liveFrames = (s.pollTxForInterface id).1.outbound.toList := by
  refine List.filter_eq_self.mpr fun q hq => ?_
  have hlive := (mem_liveFrames.mp ((sublist_liveFrames_poll s id).subset hq)).2
  obtain ⟨outbound, stats, heq, _⟩ := s.pollTxForInterface_cases id
  rw [heq, Bool.not_eq_true']
  exact hlive

theorem pollTxForInterface_snd :
    (s.pollTxForInterface id).2 =
      ((s.expireOutbound s.clockMs).interfaceFrameOffset id).bind fun offset =>
        (s.expireOutbound s.clockMs).outbound.toList[offset]?.map handOut := by
  unfold pollTxForInterface
  dsimp only
  cases (s.expireOutbound s.clockMs).interfaceFrameOffset id with
  | none => rfl
  | some offset =>
      dsimp only
      rw [Ring.remove_fst]
      rfl

end

theorem peek_eq (hlive : ∀ q ∈ s.outbound.toList, s.staleFrame s.clockMs q = false) :
    s.outboundPeekForInterface id =
      (s.pollTxForInterface id).2.map fun f => (f.frame.packet.len, f.frame.reason) := by
  obtain ⟨outbound, stats, heq, hqueue⟩ := s.expireOutbound_spec s.clockMs
  have hsame : (s.expireOutbound s.clockMs).outbound.toList = s.outbound.toList := by
    rw [heq, hqueue]
    exact List.filter_eq_self.mpr fun q hq => by rw [hlive q hq, Bool.not_false]
  have hoffset : (s.expireOutbound s.clockMs).interfaceFrameOffset id = s.interfaceFrameOffset id := by
    unfold interfaceFrameOffset
    rw [hsame]
  rw [pollTxForInterface_snd, hoffset, hsame, outboundPeekForInterface, Option.map_bind]
  simp only [Function.comp_def, Option.map_map, handOut]

theorem pollsFairly (s : LiteNode K .router) (id : InterfaceId) : s.PollsFairly id := by
  obtain ⟨outbound, stats, heq, hcases⟩ := s.pollTxForInterface_cases id
  have hqueue' : (s.pollTxForInterface id).1.outbound = outbound := by rw [heq]
  constructor
  case last =>
    intro f hf hreason q hq hid hother
    rcases hcases with ⟨hnone, _⟩ | ⟨before, q₀, after, hnext, _, hsome⟩
    · rw [hnone] at hf
      cases hf
    obtain rfl := Option.some.inj (hsome.symm.trans hf)
    rw [← Bool.not_eq_false]
    intro hlive
    have hurgent : urgentFor id q = true := by
      simp [urgentFor, frameFor, hid, OutboundReason.gated, hother]
    cases hnext with
    | urgent _ _ hgated =>
        have hgated : q₀.frame.reason.gated = false := hgated
        rw [OutboundReason.gated, decide_eq_false_iff_not] at hgated
        exact hgated hreason
    | rebroadcast _ _ _ hnone =>
        rw [hnone q (mem_liveFrames.mpr ⟨hq, hlive⟩)] at hurgent
        cases hurgent
  case live =>
    intro f hf
    rcases hcases with ⟨hnone, _⟩ | ⟨before, q, after, hnext, _, hsome⟩
    · rw [hnone] at hf
      cases hf
    obtain rfl := Option.some.inj (hsome.symm.trans hf)
    obtain ⟨hsplit, rfl⟩ := hnext.split
    have hmem : q ∈ s.liveFrames := hsplit ▸ List.mem_append_right _ List.mem_cons_self
    exact ⟨rfl, live_handOut (mem_liveFrames.mp hmem).2⟩
  case others =>
    intro id' hne
    rw [liveFrames_poll, hqueue']
    rcases hcases with ⟨_, hqueue, _⟩ | ⟨before, q, after, hnext, hqueue, _⟩
    · rw [hqueue]
    · obtain ⟨hsplit, rfl⟩ := hnext.split
      have hother : frameFor id' q = false := decide_eq_false hne.symm
      rw [hqueue, hsplit, List.filter_append, List.filter_append,
        List.filter_cons_of_neg (Bool.eq_false_iff.mp hother)]
  case peek => exact peek_eq

end LiteNode

namespace Operation

open LiteNode

variable {K : Capacities} [Crypto]

def polled (id : InterfaceId) (s : LiteNode K .router) : Operation .router → List RouterOutboundFrame
  | .pollTxForInterface id' => if id' = id then (s.pollTxForInterface id).2.toList else []
  | _ => []

/-- The frames that an operation queues, one after the other. First rows are taken out of the queue, and
none is moved; then it sends, and every frame it queues has an identity of its own. -/
def Queues (s : LiteNode K .router) (op : Operation .router) (new : List (QueuedOutbound .router)) :
    Prop :=
  ∃ left : Ledger .router, left.rows.Sublist s.outbound.toList ∧
    left.identity = s.lastDeliveryIdentity ∧ Ledger.Steps K.outbound left new (op.perform s).ledger

omit [Crypto] in
theorem sublist_of_trims {a b : Ledger .router} (h : Ledger.Trims a b) :
    b.rows.Sublist a.rows ∧ b.identity = a.identity := by
  induction h with
  | refl => exact ⟨.refl _, rfl⟩
  | @tail b c _ htrim ih =>
      cases htrim with
      | expire => exact ⟨List.filter_sublist.trans ih.1, ih.2⟩
      | discard => exact ⟨List.filter_sublist.trans ih.1, ih.2⟩
      | record => exact ih
      | @amend f hf =>
          -- a delivery of a router has nothing to lose
          have hsame : ∀ q : QueuedOutbound .router, f q = q := by
            intro q
            obtain ⟨hframe, hdelivery⟩ := hf q
            generalize f q = q' at hframe hdelivery
            obtain ⟨frame, ⟨generation⟩⟩ := q
            obtain ⟨frame', ⟨generation'⟩⟩ := q'
            cases hframe
            cases hdelivery
            rfl
          refine ⟨?_, ih.2⟩
          show (b.rows.map f).Sublist a.rows
          rw [List.map_congr_left fun q _ => hsame q, List.map_id']
          exact ih.1

theorem exists_queues (s : LiteNode K .router) (op : Operation .router) : ∃ new, Queues s op new := by
  cases hresets : op.resets with
  | true =>
      rcases ledger_reset s op hresets with h | h
      · exact ⟨[], s.ledger, .refl _, rfl, h ▸ .refl _⟩
      · exact ⟨[], ⟨[], s.lastDeliveryIdentity, 0, 0, 0⟩, List.nil_sublist _, rfl, h ▸ .refl _⟩
  | false =>
      cases hhands : op.hands with
      | true =>
          cases op with
          | pollTxForInterface id =>
              obtain ⟨_, _, heq, _⟩ := s.pollTxForInterface_cases id
              exact ⟨[], _, sublist_poll s id, congrArg lastDeliveryIdentity heq, .refl _⟩
          | _ => cases hhands
      | false =>
          obtain ⟨new, hnew⟩ := books_perform s op
          obtain ⟨hsub, hidentity⟩ := sublist_of_trims (trims_start s hresets hhands)
          exact ⟨new, _, hsub, hidentity, hnew⟩

/-- What the polls of an interface hand out in a run. -/
def handed (id : InterfaceId) : LiteNode K .router → List (Operation .router) →
    List RouterOutboundFrame
  | _, [] => []
  | s, op :: ops => op.polled id s ++ handed id (op.perform s) ops

/-- The frames that are queued in a run, in the order in which they are. -/
inductive Queued : LiteNode K .router → List (Operation .router) → List (QueuedOutbound .router) → Prop
  | nil (s : LiteNode K .router) : Queued s [] []
  | cons {s : LiteNode K .router} {op ops new queued} (h : Queues s op new)
      (hrest : Queued (op.perform s) ops queued) : Queued s (op :: ops) (new ++ queued)

theorem exists_queued (s : LiteNode K .router) (ops : List (Operation .router)) :
    ∃ queued, Queued s ops queued := by
  induction ops generalizing s with
  | nil => exact ⟨[], .nil s⟩
  | cons op ops ih =>
      obtain ⟨new, hnew⟩ := exists_queues s op
      obtain ⟨queued, hqueued⟩ := ih (op.perform s)
      exact ⟨new ++ queued, .cons hnew hqueued⟩

/-- The frames of an interface that are no rebroadcasts, as they would be handed out. -/
def urgentFrames (id : InterfaceId) (queue : List (QueuedOutbound .router)) :
    List RouterOutboundFrame :=
  (queue.filter (urgentFor id)).map handOut

omit [Crypto] in
theorem urgentFrames_append (id : InterfaceId) (queue queue' : List (QueuedOutbound .router)) :
    urgentFrames id (queue ++ queue') = urgentFrames id queue ++ urgentFrames id queue' := by
  rw [urgentFrames, List.filter_append, List.map_append]
  rfl

omit [Crypto] in
theorem urgentFrames_sublist (id : InterfaceId) {queue queue' : List (QueuedOutbound .router)}
    (h : queue.Sublist queue') : (urgentFrames id queue).Sublist (urgentFrames id queue') :=
  (h.filter _).map _

omit [Crypto] in
theorem poll_sublist (s : LiteNode K .router) (id : InterfaceId) :
    ((s.pollTxForInterface id).2.toList.filter (fun f => !f.frame.reason.gated) ++
      urgentFrames id (s.pollTxForInterface id).1.outbound.toList).Sublist
        (urgentFrames id s.outbound.toList) := by
  have hlive : (urgentFrames id s.liveFrames).Sublist (urgentFrames id s.outbound.toList) :=
    urgentFrames_sublist id List.filter_sublist
  obtain ⟨outbound, stats, heq, hcases⟩ := s.pollTxForInterface_cases id
  have hrest := urgentFrames_sublist id (sublist_poll s id)
  rcases hcases with ⟨hnone, _⟩ | ⟨before, q, after, hnext, hqueue, hsome⟩
  · rwa [hnone]
  have hqueue : (s.pollTxForInterface id).1.outbound.toList = before ++ after := by rw [heq, hqueue]
  cases hnext with
  | rebroadcast _ _ hgated _ =>
      have hgated : (handOut q).frame.reason.gated = true := hgated
      rw [hsome, Option.toList_some, List.filter_cons_of_neg (by simp [hgated]), List.filter_nil]
      exact hrest
  | urgent hsplit hid hgated hbefore =>
      have hgated' : (handOut q).frame.reason.gated = false := hgated
      have hurgent : urgentFor id q = true := by
        simp [urgentFor, frameFor, hid, hgated]
      have hnone : urgentFrames id before = [] := by
        rw [urgentFrames, List.filter_eq_nil_iff.mpr fun a ha => Bool.eq_false_iff.mp (hbefore a ha),
          List.map_nil]
      have htaken : urgentFrames id (q :: after) = handOut q :: urgentFrames id after := by
        rw [urgentFrames, List.filter_cons_of_pos hurgent, List.map_cons]
        rfl
      rw [hsplit, urgentFrames_append, hnone, htaken, List.nil_append] at hlive
      rw [hsome, Option.toList_some, List.filter_cons_of_pos (by simp [hgated']), List.filter_nil,
        hqueue, urgentFrames_append, hnone]
      exact hlive

theorem polled_sublist {s : LiteNode K .router} {op : Operation .router}
    {new : List (QueuedOutbound .router)} (h : Queues s op new) (id : InterfaceId) :
    ((op.polled id s).filter (fun f => !f.frame.reason.gated) ++
      urgentFrames id (op.perform s).outbound.toList).Sublist
        (urgentFrames id s.outbound.toList ++ urgentFrames id new) := by
  obtain ⟨left, hleft, _, hsteps⟩ := h
  have hother : (urgentFrames id (op.perform s).outbound.toList).Sublist
      (urgentFrames id s.outbound.toList ++ urgentFrames id new) := by
    obtain ⟨kept, stayed, hkept, hstayed, heq⟩ := hsteps.rows
    have hrows : (op.perform s).outbound.toList = kept ++ stayed := heq
    rw [hrows, urgentFrames_append]
    exact (urgentFrames_sublist id (hkept.trans hleft)).append (urgentFrames_sublist id hstayed)
  cases op with
  | pollTxForInterface id' =>
      by_cases hid : id' = id
      · subst hid
        rw [polled, if_pos rfl]
        exact (poll_sublist s id').trans (List.sublist_append_left _ _)
      · rw [polled, if_neg hid]
        exact hother
  | _ => exact hother

/-- The run lemma: what was handed out comes before what still waits, as it was queued. -/
theorem handed_sublist {s : LiteNode K .router} {ops : List (Operation .router)}
    {queued : List (QueuedOutbound .router)} (h : Queued s ops queued) (id : InterfaceId) :
    ((handed id s ops).filter (fun f => !f.frame.reason.gated) ++
      urgentFrames id (ops.foldl perform s).outbound.toList).Sublist
        (urgentFrames id (s.outbound.toList ++ queued)) := by
  induction h with
  | nil s =>
      rw [List.append_nil]
      exact .refl _
  | @cons s op ops new queued hnew _ ih =>
      have hstep := polled_sublist hnew id
      rw [urgentFrames_append] at ih
      rw [handed, List.filter_append, List.append_assoc, urgentFrames_append, urgentFrames_append,
        ← List.append_assoc (urgentFrames id s.outbound.toList)]
      refine (ih.append_left _).trans ?_
      rw [← List.append_assoc]
      exact hstep.append_right _

/-- One identity is issued for each frame that is queued. -/
theorem identities_queued {s : LiteNode K .router} {ops : List (Operation .router)}
    {queued : List (QueuedOutbound .router)} (h : Queued s ops queued) :
    (ops.foldl perform s).lastDeliveryIdentity = s.lastDeliveryIdentity + queued.length := by
  induction h with
  | nil s => rfl
  | @cons s op ops new queued hnew _ ih =>
      obtain ⟨left, _, hleft, hsteps⟩ := hnew
      have hop : (op.perform s).lastDeliveryIdentity = s.lastDeliveryIdentity + new.length :=
        hsteps.identity.trans (by rw [hleft])
      rw [List.foldl_cons, ih, hop, List.length_append, Nat.add_assoc]

/-- In any run of a router, an interface is handed its frames in the order in which they were queued,
its rebroadcasts only when it has nothing else, and every poll is fair to it and to the others. -/
theorem delivery_in_order (s : LiteNode K .router) (ops : List (Operation .router))
    (id : InterfaceId) :
    (∃ queued, Queued s ops queued) ∧
      (∀ queued, Queued s ops queued →
        (ops.foldl perform s).lastDeliveryIdentity = s.lastDeliveryIdentity + queued.length ∧
        ((handed id s ops).filter (fun f => !f.frame.reason.gated) ++
          urgentFrames id (ops.foldl perform s).outbound.toList).Sublist
            (urgentFrames id (s.outbound.toList ++ queued))) ∧
      (ops.foldl perform s).PollsFairly id :=
  ⟨exists_queued s ops, fun _ h => ⟨identities_queued h, handed_sublist h id⟩, pollsFairly _ id⟩

end Operation

open LiteNode Operation

def sendsTo (id : InterfaceId) (byte : UInt8) : Operation .router :=
  .sendLocal id ⟨[byte], by simp [mtu]⟩

/-- An interface with room for two frames is sent two: a poll hands over the first, and the second
still waits. -/
theorem delivery_in_order_smallRouter :
    letI := Crypto.constant
    let ops := [.registerInterface { smallInterface 3 with txQueueDepth := 2 }, sendsTo 3 7,
      sendsTo 3 9, .pollTxForInterface 3]
    (handed 3 smallRouter ops).map (fun f => f.frame.packet.bytes) = [[7]] ∧
      (urgentFrames 3 (ops.foldl perform smallRouter).outbound.toList).map
        (fun f => f.frame.packet.bytes) = [[9]] ∧
      ∃ queued, Queued smallRouter ops queued ∧ queued.length = 2 ∧
        ((handed 3 smallRouter ops).filter (fun f => !f.frame.reason.gated) ++
          urgentFrames 3 (ops.foldl perform smallRouter).outbound.toList).Sublist
            (urgentFrames 3 queued) := by
  let _ := Crypto.constant
  have hempty : (smallRouter : LiteNode smallCapacities .router).outbound.toList = [] := rfl
  obtain ⟨⟨queued, hqueued⟩, horder, _⟩ := delivery_in_order smallRouter
    [.registerInterface { smallInterface 3 with txQueueDepth := 2 }, sendsTo 3 7, sendsTo 3 9,
      .pollTxForInterface 3] 3
  obtain ⟨hissued, hsub⟩ := horder queued hqueued
  rw [hempty, List.nil_append] at hsub
  refine ⟨by decide +kernel, by decide +kernel, queued, hqueued, ?_, hsub⟩
  exact (Nat.zero_add _).symm.trans (hissued.symm.trans (by decide +kernel))

end ReticulumLite
