import ReticulumLite.Proof.Walk

/-!
# Every function keeps the books

An operation first does its work on the rows that are there: it takes out what has expired at its
own time, or what the host of an endpoint tells it to. `Operation.start` is the node as it then is.
All that follows is sending, as the walk over the functions shows.
-/

namespace ReticulumLite

open Bounded LiteNode

namespace Ledger

/-- The rows no longer owe their frames to an interface, if it is one of those with a bit. -/
def retire (a : Ledger .endpoint) (interface : InterfaceId) : Ledger .endpoint :=
  if interface.toNat ≥ 7 then a
  else a.amend (mapDelivery fun d =>
    { d with pendingTargets := d.pendingTargets &&& ~~~ targetBit interface.toNat })

theorem lessens_retired (interface : InterfaceId) (q : QueuedOutbound .endpoint) :
    q.Lessens (mapDelivery (fun d =>
      { d with pendingTargets := d.pendingTargets &&& ~~~ targetBit interface.toNat }) q) := by
  obtain ⟨frame, ⟨d⟩⟩ := q
  refine ⟨rfl, rfl, fun i hi => ?_, fun hinit => ⟨hinit, rfl⟩⟩
  rw [BitVec.getLsbD_and, Bool.and_eq_true] at hi
  exact hi.1

theorem trims_retire (a : Ledger .endpoint) (interface : InterfaceId) :
    Trims a (a.retire interface) := by
  unfold retire
  split
  · exact .refl
  · exact .single (.amend a (lessens_retired interface))

end Ledger

namespace LiteNode

variable {K : Capacities} {m : Model} {s s' : LiteNode K m}

theorem follows_books [Crypto] : Follows (Books (K := K) (m := m)) where
  agree h := .of_eq (congrArg Prod.fst h)
  trans := Books.trans
  unanswered s requesters := .single (.unanswered s.ledger requesters)
  enqueueWithLifetime := Books.enqueueWithLifetime

theorem Books.of_tagging {nowMs : Nat} (h : Tagging Books nowMs s s') : Books s s' := by
  rcases h with h | ⟨s₁, key, h, h'⟩
  · exact h
  · exact h.trans (h'.after rfl)

theorem trims_of_eq (h : s'.ledger = s.ledger) : Ledger.Trims s.ledger s'.ledger := h ▸ .refl

theorem trims_of_expired {s₁ : LiteNode K m} {nowMs : Nat}
    (h : s'.ledger = (s₁.expireOutbound nowMs).ledger) (hsame : s₁.ledger = s.ledger) :
    Ledger.Trims s.ledger s'.ledger := by
  rw [h, expireOutbound_ledger, hsame]
  exact .single (.expire _ _)

section Endpoint

variable (s : LiteNode K .endpoint)

/-! ### Interfaces that retire -/

theorem ledger_mapEntries (f : QueuedOutbound .endpoint → QueuedOutbound .endpoint) :
    ({ s with outbound := s.outbound.mapEntries f } : LiteNode K .endpoint).ledger =
      s.ledger.amend f := by
  simp only [ledger, Ledger.amend, Ring.toList_mapEntries]

theorem retainedOutboundRetireInterface_ledger (interface : InterfaceId) :
    (s.retainedOutboundRetireInterface interface).ledger = s.ledger.retire interface := by
  have hcleared : (s.clearOutbound interface).ledger = s.ledger := by
    unfold clearOutbound
    split
    · rfl
    · rfl
  unfold retainedOutboundRetireInterface Ledger.retire
  dsimp only
  split
  · exact hcleared
  · rw [ledger_mapEntries, hcleared]

theorem detached_ledger (interface : InterfaceId) :
    (s.detached interface).ledger = s.ledger.retire interface := by
  rw [← retainedOutboundRetireInterface_ledger]
  show ((s.retainedOutboundRetireInterface interface).clearInterface interface).ledger = _
  unfold clearInterface
  split
  · rfl
  · rfl

/-- The ledger once an interface was replaced: frames that have lost their route are gone. -/
def replacedLedger (interface : InterfaceId) : Ledger .endpoint :=
  (s.ledger.retire interface).expire ((s.detached interface).staleFrame s.clockMs)

theorem retireReplacedInterface_ledger (interface : InterfaceId) :
    (s.retireReplacedInterface interface).ledger = s.replacedLedger interface := by
  have hclock : (s.detached interface).clockMs = s.clockMs := by
    show ((s.retainedOutboundRetireInterface interface).clearInterface interface).clockMs = _
    unfold clearInterface retainedOutboundRetireInterface clearOutbound
    dsimp only
    repeat' split
    all_goals rfl
  show ((s.detached interface).expireOutbound (s.detached interface).clockMs).ledger = _
  rw [expireOutbound_ledger, detached_ledger, hclock, replacedLedger]

def updatedLedger (id : InterfaceId) (generation : Nat) (mode : InterfaceMode) (outbound : Bool) :
    Ledger .endpoint :=
  match s.interfaceSlot id with
  | none => s.ledger
  | some slot =>
      if (s.facts.get slot).mode ≠ mode then s.replacedLedger id
      else if (s.facts.get slot).generation ≠ generation ∨ outbound = false then s.ledger.retire id
      else s.ledger

theorem updateInterface_ledger (id : InterfaceId) (generation : Nat) (mode : InterfaceMode)
    (bitrateBps : Nat) (outbound localClient : Bool) :
    (s.updateInterface id generation mode bitrateBps outbound localClient).1.ledger =
      s.updatedLedger id generation mode outbound := by
  unfold updateInterface updatedLedger
  cases hslot : s.interfaceSlot id with
  | none =>
      rw [Option.none_or]
      split
      · rfl
      · rename_i slot hfree
        have hvacant := (firstIndex_eq_some.mp hfree).1
        rw [Bool.not_eq_true'] at hvacant
        dsimp only
        rw [if_pos hvacant]
        rfl
  | some slot =>
      have hoccupied : (s.facts.get slot).occupied = true := by
        have hfirst := (firstIndex_eq_some.mp hslot).1
        rw [Bool.and_eq_true] at hfirst
        unfold facts
        cases hinterfaces : s.interfaces with
        | endpoint facts =>
            rw [hinterfaces] at hfirst
            exact hfirst.1
      rw [Option.some_or]
      dsimp only
      rw [if_neg (by simp [hoccupied])]
      split
      · exact s.retireReplacedInterface_ledger id
      split
      · exact s.retainedOutboundRetireInterface_ledger id
      · rfl

def resizedLedger (id : InterfaceId) (generation clearMtu : Nat) : Ledger .endpoint :=
  match s.interfaceSlot id with
  | none => s.ledger
  | some slot =>
      if generation = 0 ∨ (s.facts.get slot).generation ≠ generation then s.ledger
      else if (s.facts.get slot).clearMtu = min clearMtu mtu % 2 ^ 16 then s.ledger
      else s.ledger.expire (({ s with links := s.links.removeInterface id }.withFacts (s.facts.set slot
        { s.facts.get slot with clearMtu := min clearMtu mtu % 2 ^ 16 })).staleFrame s.clockMs)

theorem trims_replacedLedger (interface : InterfaceId) :
    Ledger.Trims s.ledger (s.replacedLedger interface) :=
  .tail (s.ledger.trims_retire interface) (.expire _ _)

/-! ### Looking at the queue -/

theorem getLsbD_targetBit (id i : Nat) :
    (targetBit id).getLsbD i = (decide (i < 8) && decide (id = i)) := by
  unfold targetBit
  rw [BitVec.natCast_eq_ofNat, BitVec.getLsbD_ofNat, Nat.one_shiftLeft, Nat.testBit_two_pow]

theorem getLsbD_withdraw (ids : List (Fin 7)) (mask : BitVec 8) (i : Nat) :
    (ids.foldl (fun mask id => mask &&& ~~~ targetBit id.val) mask).getLsbD i = true ↔
      mask.getLsbD i = true ∧ ∀ id ∈ ids, id.val ≠ i := by
  induction ids generalizing mask with
  | nil => simp
  | cons id ids ih =>
      rw [List.foldl_cons, ih, BitVec.getLsbD_and, BitVec.getLsbD_not, getLsbD_targetBit]
      by_cases hi : i < 8
      · simp [hi, and_assoc]
      · simp [hi, BitVec.getLsbD_of_ge mask i (not_lt.mp hi)]

/-- A row that is looked at is bound to the generations of its targets once, and loses the targets
whose generation is gone or has changed. -/
theorem bindDelivery_spec (generations : List.Vector Nat 7) (frame : OutboundFrame)
    (d : OutboundDelivery) :
    ∃ d', bindDelivery generations ⟨frame, .retained d⟩ = ⟨frame, .retained d'⟩ ∧
      d'.identity = d.identity ∧ d'.initialized = true ∧
      d'.interfaceGenerations = (if d.initialized then d.interfaceGenerations else generations) ∧
      ∀ i, d'.pendingTargets.getLsbD i = true ↔ d.pendingTargets.getLsbD i = true ∧
        (d.initialized = true ∨ (selectedTargets frame).getLsbD i = true) ∧
        ∀ id : Fin 7, id.val = i →
          generations.get id ≠ 0 ∧ generations.get id = d'.interfaceGenerations.get id := by
  have hwithdrawn : ∀ (bound : List.Vector Nat 7) (i : Nat),
      (∀ id ∈ (List.finRange 7).filter fun id => decide (generations.get id = 0) ||
        decide (generations.get id ≠ bound.get id), id.val ≠ i) ↔
      ∀ id : Fin 7, id.val = i → generations.get id ≠ 0 ∧ generations.get id = bound.get id := by
    intro bound i
    refine forall_congr' fun id => ?_
    simp only [List.mem_filter, List.mem_finRange, true_and, Bool.or_eq_true, decide_eq_true_eq]
    tauto
  cases hinit : d.initialized with
  | true =>
      refine ⟨_, rfl, ?_⟩
      simp only [Delivery.outbound_retained, hinit, if_true]
      refine ⟨trivial, trivial, trivial, fun i => ?_⟩
      rw [getLsbD_withdraw, hwithdrawn]
      simp
  | false =>
      refine ⟨_, rfl, ?_⟩
      simp only [Delivery.outbound_retained, hinit, Bool.false_eq_true, if_false, false_or]
      refine ⟨trivial, trivial, trivial, fun i => ?_⟩
      rw [getLsbD_withdraw, hwithdrawn, BitVec.getLsbD_and, Bool.and_eq_true, and_assoc]
      simp

theorem lessens_bindDelivery (generations : List.Vector Nat 7) (q : QueuedOutbound .endpoint) :
    q.Lessens (bindDelivery generations q) := by
  obtain ⟨frame, ⟨d⟩⟩ := q
  obtain ⟨d', heq, hidentity, hinit, hbound, hpending⟩ := bindDelivery_spec generations frame d
  rw [heq]
  refine ⟨rfl, hidentity, fun i hi => ((hpending i).mp hi).1, fun hwas => ⟨hinit, ?_⟩⟩
  rw [hbound, if_pos hwas]

def exhausted (q : QueuedOutbound .endpoint) : Bool :=
  decide (q.delivery.outbound.pendingTargets = 0)

theorem retainedOutboundSelect_ledger (after : Nat) (blocked : BitVec 8)
    (generations : List.Vector Nat 7) :
    (s.retainedOutboundSelect after blocked generations).1.ledger =
      ((s.ledger.expire (s.staleFrame s.clockMs)).amend (bindDelivery generations)).discard
        exhausted := by
  have hdiscarded (s : LiteNode K .endpoint) :
      (s.removeFrames (fun _ q => exhausted q) countOutboundDropped).ledger =
        s.ledger.discard exhausted := by
    obtain ⟨outbound, heq, hlist⟩ :=
      @removeFrames_spec K .endpoint (fun _ q => exhausted q) (fun _ _ _ => rfl)
        (fun t => { t with outboundDropped := bump t.outboundDropped }) s
    show (s.removeFrames _ fun s => s.count _).ledger = _
    rw [heq, iterate_dropped]
    simp only [ledger, hlist]
    rfl
  have hexpired := expireOutbound_ledger { s with retainedOwnerMode := true } s.clockMs
  calc
    _ = _ := hdiscarded _
    _ = _ := by rw [ledger_mapEntries, hexpired]; rfl

theorem trims_select (after : Nat) (blocked : BitVec 8) (generations : List.Vector Nat 7) :
    Ledger.Trims s.ledger (s.retainedOutboundSelect after blocked generations).1.ledger := by
  rw [retainedOutboundSelect_ledger]
  exact ((Relation.ReflTransGen.single (.expire _ _)).tail
    (.amend _ (lessens_bindDelivery generations))).tail (.discard _ _)

end Endpoint

end LiteNode

namespace Operation

variable {K : Capacities} {m : Model} [Crypto] (s : LiteNode K m)

/-- The node from which an operation sends: an ingest, a tick and a request for a path first take out
what has expired; what else sends begins at once, and the others do not send. -/
def start : Operation m → LiteNode K m
  | .ingest _ rx nowMs _ _ => s.prepareIngest rx nowMs
  | .tick nowMs => s.readied nowMs
  | .requestPath _ _ _ nowMs => { s with clockMs := nowMs }.expireOutbound nowMs
  | .sendLocal _ _ => s
  | op => op.perform s

theorem books_perform (op : Operation m) : (op.start s).Books (op.perform s) := by
  cases op with
  | ingest => exact .of_tagging (follows_books.ingestInner s _ _ _ _ _)
  | tick => exact follows_books.tick s _
  | requestPath => exact .of_tagging (follows_books.requestPath s _ _ _ _)
  | sendLocal => exact .enqueueWithLifetime s _ _ _ _
  | _ => exact .refl _

theorem trims_start {op : Operation m} (hresets : op.resets = false) (hhands : op.hands = false) :
    Ledger.Trims s.ledger (op.start s).ledger := by
  cases op with
  | ingest => exact trims_of_expired rfl rfl
  | tick => exact trims_of_expired rfl rfl
  | requestPath => exact trims_of_expired rfl rfl
  | sendLocal => exact .refl
  | recordExpiredOutbound => exact .single (.record _)
  | retainedOutboundRetireInterface interface =>
      show Ledger.Trims _ (s.retainedOutboundRetireInterface interface).ledger
      rw [retainedOutboundRetireInterface_ledger]
      exact s.ledger.trims_retire interface
  | retireReplacedInterface interface =>
      show Ledger.Trims _ (s.retireReplacedInterface interface).ledger
      rw [retireReplacedInterface_ledger]
      exact s.trims_replacedLedger interface
  | updateInterface id generation mode bitrateBps outbound localClient =>
      show Ledger.Trims _ (s.updateInterface id generation mode bitrateBps outbound localClient).1.ledger
      rw [updateInterface_ledger, updatedLedger]
      repeat' split
      · exact .refl
      · exact s.trims_replacedLedger id
      · exact s.ledger.trims_retire id
      · exact .refl
  | retainedOutboundSelect => exact s.trims_select _ _ _
  | _ =>
      rcases kept_perform s rfl hresets hhands rfl with h | ⟨_, s₁, h, hsame⟩
      · exact trims_of_eq (congrArg Prod.fst h)
      · exact trims_of_expired (congrArg Prod.fst h) (congrArg Prod.fst hsame)

end Operation

end ReticulumLite
