import ReticulumLite.Proof.Steps

/-!
# What each operation does

An operation with a time sets the clock and is then a sequence of changes. Of the others, most are
changes too; those that reset the node or take an interface away only ever remove.
-/

namespace ReticulumLite

open Bounded

namespace LiteNode

variable {K : Capacities} {m : Model} {s s' : LiteNode K m} {c : Cause}

theorem Sheds.sound (h : Sheds s s') (hs : s.Sound) : s'.Sound :=
  ⟨h.paths.wf hs.paths, h.reverse.wf hs.reverse, h.links.wf hs.links⟩

/-! ### Both models -/

theorem requestPath_changes [Crypto] (hs : s.Sound) (destinationHash : Hash16) (tag : Bytes 16)
    (interfaceId : InterfaceId) (nowMs : Nat) :
    Changes ⟨nowMs, none, false⟩ { s with clockMs := nowMs }
      (s.requestPath destinationHash tag interfaceId nowMs).1 := by
  have hexpired : Quiet nowMs { s with clockMs := nowMs }
      ({ s with clockMs := nowMs }.expireOutbound nowMs) := .expireOutbound _ _
  have hs' := hexpired.sound (hs.setClock nowMs)
  have hchanges : Changes ⟨nowMs, none, false⟩ { s with clockMs := nowMs }
      ({ s with clockMs := nowMs }.expireOutbound nowMs) := hexpired.changes
  unfold requestPath
  simp only
  refine hchanges.trans ?_
  split
  · exact .refl
  rename_i request _
  have hsent : Changes ⟨nowMs, none, false⟩ _
      (({ s with clockMs := nowMs }.expireOutbound nowMs).enqueue interfaceId request
        .pathRequest).1 := enqueue_changes hs' nofun
  split
  · rename_i heq
    rw [heq] at hsent
    exact hsent
  · rename_i heq
    rw [heq] at hsent
    exact hsent.tail (.quiet .inert)

variable {nowMs : Nat}

section

variable (s) (destinationHash : Hash16)

theorem quiet_dropPath : Quiet nowMs s (s.dropPath destinationHash).1 := by
  have hshrinks : s.paths.Shrinks (s.paths.dropPath destinationHash).1 := by
    unfold PathTable.dropPath
    split
    · exact .freeAt _
    · exact .refl
  exact { Quiet.refl s with paths := hshrinks, covered := fun _ _ _ _ _ _ h => h }

theorem registerLocalSlot_eq (value : LocalSlot) :
    ∃ localSlots, (s.registerLocalSlot value).1 = { s with localSlots } := by
  unfold registerLocalSlot
  split
  · exact ⟨_, rfl⟩
  split
  · exact ⟨_, rfl⟩
  · exact ⟨_, rfl⟩

theorem registerLocalLink_eq (linkId : Hash16) :
    ∃ localSlots, (s.registerLocalLink linkId).1 = { s with localSlots } := by
  unfold registerLocalLink
  split
  · exact ⟨_, rfl⟩
  · exact registerLocalSlot_eq s _

theorem setOwnDestination_eq (s : LiteNode K .router) (destination : Option Hash16) :
    ∃ localSlots, s.setOwnDestination destination = { s with localSlots } := by
  unfold setOwnDestination
  simp only
  split
  · exact registerLocalSlot_eq s.clearOwnDestinations _
  · exact ⟨_, rfl⟩

theorem quiet_setAnnounceBudget (steadyPerSec gracePerSec : Nat) :
    Quiet nowMs s (s.setAnnounceBudget steadyPerSec gracePerSec) := by
  unfold setAnnounceBudget
  split
  · exact .refl s
  · exact { Quiet.refl s with }

theorem quiet_knownDestinationLearn [Crypto] (publicKey : Bytes 64) (now : Nat) :
    Quiet nowMs s (s.knownDestinationLearn destinationHash publicKey now).1 := by
  unfold knownDestinationLearn
  split
  · exact .refl s
  · exact .inert

theorem quiet_knownDestinationsImport [Crypto] (blob : List UInt8) (now : Nat) :
    Quiet nowMs s (s.knownDestinationsImport blob now).1 := by
  unfold knownDestinationsImport
  split
  · exact .refl s
  · exact .inert

end

theorem sheds_clearTraffic (s : LiteNode K m) (config : LiteConfig) (transportId : Hash16)
    (interfaces : Interfaces m) : Sheds s (s.clearTraffic config transportId interfaces) where
  clockMs := rfl
  paths := .clear
  announceCache := Slots.within_empty _
  covered := fun _ _ _ _ hrow => absurd hrow (GenTable.not_row_clear _ _ _)
  schedule := fun i e he => by simp [clearTraffic] at he
  reverse := .clear
  links := .clear
  discoveries := Discoveries.renews_clear _
  outbound := by simp [clearTraffic]
  lastDeliveryIdentity := rfl

theorem sheds_resetInPlace (s : LiteNode K m) (config : LiteConfig) (transportId : Hash16) :
    Sheds s (s.resetInPlace config transportId).1 := by
  unfold resetInPlace
  split
  · exact .refl s
  split
  · exact .refl s
  · exact sheds_clearTraffic _ _ _ _

/-! ### Routers -/

section Router

variable {s s' : LiteNode K .router}

theorem sheds_withRouter (s : LiteNode K .router) (r : Router) : Sheds s (s.withRouter r) :=
  { Sheds.refl s with }

theorem sheds_resetRouterInPlace (s : LiteNode K .router) (config : LiteConfig) (id : Hash16)
    (registry : InterfaceRegistry) (modem : Option LoraModemConfig) :
    Sheds s (s.resetRouterInPlace config id registry modem).1 := by
  have hreset := sheds_resetInPlace s config id
  unfold resetRouterInPlace
  split
  · exact .refl s
  split
  · rename_i heq
    rw [heq] at hreset
    exact hreset
  · rename_i heq
    rw [heq] at hreset
    exact hreset.trans (sheds_withRouter _ _)

variable {nowMs : Nat}

section

variable (s) (id : InterfaceId)

theorem quiet_withRouter (plainSink : Option Hash16) (watched : List Hash16) :
    Quiet nowMs s (s.withRouter { s.router with plainSink, watched }) := by
  have hlike : s.interfaces.Like (.router { s.router with plainSink, watched }) := by
    unfold router
    cases s.interfaces with
    | router r => exact ⟨rfl, rfl, rfl, rfl, rfl⟩
  exact { Quiet.refl s with interfaces := hlike }

theorem quiet_setWatchedDestinations (destinations : List Hash16) :
    Quiet nowMs s (s.setWatchedDestinations destinations).1 := by
  unfold setWatchedDestinations
  split
  · exact .refl s
  · exact quiet_withRouter s s.router.plainSink destinations

theorem sheds_registerInterface (interface : InterfaceConfig) :
    Sheds s (s.registerInterface interface).1 := by
  unfold registerInterface
  split
  · exact .refl s
  split
  · exact .refl s
  split
  · exact .refl s
  split
  · exact sheds_withRouter _ _
  · exact { Sheds.refl s with
      schedule := AnnounceSchedule.lessens_clearTarget _ _
      discoveries := Discoveries.renews_retireRequester _ _ }

theorem sheds_retireRouterInterface (slot : Fin requesters) :
    Sheds s (s.retireRouterInterface id slot) := by
  unfold retireRouterInterface
  refine Sheds.trans ?_ (Sheds.expireOutbound _ _)
  exact { Sheds.refl s with
    paths := .clearWhere _
    announceCache := Slots.within_clearWhere _ _
    covered := fun _ hkeyed _ _ hrow hlive hcovers =>
      AnnounceCache.covers_retainPaths hcovers (hkeyed.clearWhere _) hrow hlive
    schedule := (AnnounceSchedule.lessens_clearTarget _ _).trans
      (AnnounceSchedule.lessens_clearWhere _ _)
    reverse := .clearWhere _
    links := .clearWhere _
    discoveries := Discoveries.renews_retireRequester _ _ }

theorem sheds_unregisterInterface : Sheds s (s.unregisterInterface id).1 := by
  unfold unregisterInterface
  split
  · exact .refl s
  split
  · exact .refl s
  split
  · exact .refl s
  · exact (sheds_withRouter _ _).trans (sheds_retireRouterInterface _ _ _)

theorem sheds_setInterfaceOnline (online : Bool) : Sheds s (s.setInterfaceOnline id online).1 := by
  unfold setInterfaceOnline
  split
  · exact .refl s
  simp only
  split
  · exact .refl s
  split
  · exact sheds_withRouter _ _
  split
  · exact sheds_withRouter _ _
  · exact (sheds_withRouter _ _).trans (sheds_retireRouterInterface _ _ _)

theorem quiet_pollTxForInterface : Quiet nowMs s (s.pollTxForInterface id).1 := by
  obtain ⟨outbound, stats, heq, hlist⟩ := s.expireOutbound_spec s.clockMs
  have hkept : outbound.toList.Sublist s.outbound.toList := hlist ▸ List.filter_sublist
  unfold pollTxForInterface
  simp only [heq]
  split
  · exact .of_outbound hkept
  · refine .of_outbound (List.Sublist.trans ?_ hkept)
    rw [Ring.toList_remove]
    exact List.eraseIdx_sublist _ _

end

end Router

/-! ### Endpoints -/

section Endpoint

theorem key_mapDelivery (f : OutboundDelivery → OutboundDelivery) (q : QueuedOutbound .endpoint) :
    (mapDelivery f q).key = q.key := by
  obtain ⟨frame, ⟨d⟩⟩ := q
  rfl

theorem map_key_mapDelivery (f : QueuedOutbound .endpoint → OutboundDelivery → OutboundDelivery)
    (l : List (QueuedOutbound .endpoint)) :
    (l.map fun q => mapDelivery (f q) q).map QueuedOutbound.key = l.map QueuedOutbound.key := by
  rw [List.map_map]
  exact List.map_congr_left fun q _ => key_mapDelivery _ q

variable {nowMs : Nat}

theorem quiet_withFacts (s : LiteNode K .endpoint) (facts : List.Vector InterfaceFacts requesters) :
    Quiet nowMs s (s.withFacts facts) := by
  have hlike : s.interfaces.Like (.endpoint facts) := by
    cases s.interfaces
    trivial
  exact { Quiet.refl s with interfaces := hlike }

theorem quiet_mapEntries (s : LiteNode K .endpoint)
    (f : QueuedOutbound .endpoint → OutboundDelivery → OutboundDelivery) :
    Quiet nowMs s { s with outbound := s.outbound.mapEntries fun q => mapDelivery (f q) q } := by
  refine { Quiet.refl s with outbound := ?_ }
  rw [Ring.toList_mapEntries, map_key_mapDelivery]

theorem quiet_retainedOutboundRetireInterface (nowMs : Nat) (s : LiteNode K .endpoint)
    (interface : InterfaceId) : Quiet nowMs s (s.retainedOutboundRetireInterface interface) := by
  have hcleared : Quiet nowMs s (s.clearOutbound interface) := by
    unfold clearOutbound
    split
    · exact quiet_withFacts s _
    · exact .refl s
  unfold retainedOutboundRetireInterface
  simp only
  split
  · exact hcleared
  · exact hcleared.trans (quiet_mapEntries _ _)

section

variable (s : LiteNode K .endpoint)

theorem sheds_retireReplacedInterface (interface : InterfaceId) :
    Sheds s (s.retireReplacedInterface interface) := by
  have hretired : Quiet s.clockMs s (s.retainedOutboundRetireInterface interface) :=
    quiet_retainedOutboundRetireInterface s.clockMs s interface
  have hcleared (s : LiteNode K .endpoint) : Sheds s (s.clearInterface interface) := by
    unfold clearInterface
    split
    · exact { Sheds.refl s with discoveries := Discoveries.renews_retireRequester _ _ }
    · exact .refl s
  unfold retireReplacedInterface detached
  refine Sheds.trans ?_ (Sheds.expireOutbound _ _)
  refine (hretired.toSheds.trans (hcleared _)).trans ?_
  exact { Sheds.refl ((s.retainedOutboundRetireInterface interface).clearInterface interface) with
    paths := .clearWhere _
    announceCache := Slots.within_clearWhere _ _
    covered := fun _ hkeyed _ _ hrow hlive hcovers =>
      AnnounceCache.covers_retainPaths hcovers (hkeyed.clearWhere _) hrow hlive
    schedule := AnnounceSchedule.lessens_clearWhere _ _
    reverse := .clearWhere _
    links := .clearWhere _ }

theorem sheds_updateInterface (id : InterfaceId) (generation : Nat) (mode : InterfaceMode)
    (bitrateBps : Nat) (outbound localClient : Bool) :
    Sheds s (s.updateInterface id generation mode bitrateBps outbound localClient).1 := by
  have hfacts (s : LiteNode K .endpoint) facts : Sheds s (s.withFacts facts) :=
    { Sheds.refl s with }
  unfold updateInterface
  split
  · exact .refl s
  simp only
  split
  · exact hfacts s _
  split
  · exact (sheds_retireReplacedInterface s id).trans (hfacts _ _)
  split
  · exact (quiet_retainedOutboundRetireInterface 0 s id).toSheds.trans (hfacts _ _)
  · exact hfacts s _

theorem sheds_updateInterfacePacketCapacity (id : InterfaceId) (generation clearMtu : Nat) :
    Sheds s (s.updateInterfacePacketCapacity id generation clearMtu).1 := by
  unfold updateInterfacePacketCapacity
  split
  · exact .refl s
  split
  · exact .refl s
  simp only
  split
  · exact .refl s
  · refine Sheds.trans ?_ (Sheds.expireOutbound _ _)
    exact { Sheds.refl s with links := .clearWhere _ }

theorem quiet_pollTx : Quiet nowMs s s.pollTx.1 := by
  unfold pollTx
  split
  · exact .refl s
  simp only
  refine Quiet.trans (.expireOutbound _ s.clockMs) (.of_outbound ?_)
  rw [Ring.toList_pop]
  exact List.tail_sublist _

theorem quiet_retainedOutboundSelect (after : Nat) (blocked : BitVec 8)
    (generations : List.Vector Nat 7) :
    Quiet nowMs s (s.retainedOutboundSelect after blocked generations).1 := by
  have howned : Quiet nowMs s { s with retainedOwnerMode := true } := .inert
  have hremoved (s : LiteNode K .endpoint) : Quiet nowMs s (s.removeFrames
      (fun _ q => decide (q.delivery.outbound.pendingTargets = 0)) countOutboundDropped) := by
    obtain ⟨outbound, stats, heq, hsub⟩ := dropServed_spec s
    rw [heq]
    exact .of_outbound hsub
  unfold retainedOutboundSelect
  simp only
  exact ((howned.trans (.expireOutbound _ _)).trans (quiet_mapEntries _ _)).trans (hremoved _)

theorem quiet_retainedOutboundAck (identity : Nat) (completed : BitVec 8) :
    Quiet nowMs s (s.retainedOutboundAck identity completed).1 := by
  have hkeys (offset : Nat) (f : OutboundDelivery → OutboundDelivery) :
      (s.outbound.modifyAt offset (mapDelivery f)).toList.map QueuedOutbound.key =
        s.outbound.toList.map QueuedOutbound.key := by
    rw [Ring.toList_modifyAt]
    refine List.ext_getElem? fun i => ?_
    rw [List.getElem?_map, List.getElem?_map, List.getElem?_modify,
      Option.map_eq_map, Option.map_map]
    refine congrArg (Option.map · _) (funext fun q => ?_)
    simp only [Function.comp]
    split
    · exact key_mapDelivery f q
    · rfl
  unfold retainedOutboundAck
  split
  · exact .refl s
  split
  · exact .refl s
  split
  · exact .refl s
  refine { Quiet.refl s with outbound := ?_ }
  simp only
  split
  · rw [Ring.toList_remove, ← hkeys]
    exact (List.eraseIdx_sublist _ _).map _
  · rw [hkeys]

theorem quiet_retainedOutboundTake (identity : Nat) :
    Quiet nowMs s (s.retainedOutboundTake identity).1 := by
  unfold retainedOutboundTake
  split
  · exact .refl s
  · refine .of_outbound ?_
    rw [Ring.toList_remove]
    exact List.eraseIdx_sublist _ _

end

end Endpoint

end LiteNode

/-! ### All operations -/

namespace Operation

open LiteNode

/-- The operations that may reset the node, or take an interface away or bring one in. -/
def retires {m : Model} : Operation m → Bool
  | .resetInPlace .. | .resetRouterInPlace .. | .registerInterface _ | .unregisterInterface _
  | .setInterfaceOnline .. | .updateInterface .. | .updateInterfacePacketCapacity ..
  | .retireReplacedInterface _ => true
  | _ => false

def ticks {m : Model} : Operation m → Bool
  | .tick _ => true
  | _ => false

def sends {m : Model} : Operation m → Bool
  | .sendLocal _ _ => true
  | _ => false

def Hears [Crypto] {K : Capacities} {m : Model} (s : LiteNode K m) (h : Heard) :
    Operation m → Prop
  | .ingest raw rx _ _ _ => s.Hears raw rx h
  | _ => False

variable [Crypto] {K : Capacities} {m : Model} {s : LiteNode K m}

variable {op : Operation m}

theorem perform_timed (hs : s.Sound) (hp : s.Placed) {t : Nat} (ht : op.time = some t) : ∃ heard,
      Changes ⟨t, heard, op.ticks⟩ { s with clockMs := t } (op.perform s) ∧
        ∀ h, heard = some h → op.Hears s h := by
  have hnone {P : Heard → Prop} (h : Heard) (hh : none = some h) : P h := by cases hh
  cases op with
  | ingest raw rx nowMs localLink endpoint =>
      obtain rfl := Option.some.inj ht
      exact ingestInner_changes hs raw rx nowMs localLink endpoint
  | tick nowMs =>
      obtain rfl := Option.some.inj ht
      exact ⟨none, tick_changes hs hp nowMs, hnone⟩
  | requestPath destinationHash tag interfaceId nowMs =>
      obtain rfl := Option.some.inj ht
      exact ⟨none, requestPath_changes hs destinationHash tag interfaceId nowMs, hnone⟩
  | _ => cases ht

/-- What an operation without a time does. It keeps the node as it is but for rows that go, or writes
the host's own destinations; or it sends; or it may take an interface away. -/
theorem untimed_cases (ht : op.time = none) :
    (op.retires = false ∧ op.sends = false ∧ ((∀ t, Quiet t s (op.perform s)) ∨
        ∃ localSlots, op.perform s = { s with localSlots })) ∨
      (op.retires = false ∧ op.sends = true) ∨ (op.retires = true ∧ Sheds s (op.perform s)) := by
  cases op with
  | ingest | tick | requestPath => cases ht
  | dropPath => exact .inl ⟨rfl, rfl, .inl fun t => quiet_dropPath s _⟩
  | registerLocalDestination => exact .inl ⟨rfl, rfl, .inr (registerLocalSlot_eq s _)⟩
  | registerLocalLink => exact .inl ⟨rfl, rfl, .inr (registerLocalLink_eq s _)⟩
  | unregisterLocalDestination | unregisterLocalLink | clearLocal | clearOwnDestinations =>
      exact .inl ⟨rfl, rfl, .inr ⟨_, rfl⟩⟩
  | knownDestinationRecall | recordExpiredOutbound => exact .inl ⟨rfl, rfl, .inl fun t => .inert⟩
  | setAnnounceBudget => exact .inl ⟨rfl, rfl, .inl fun t => quiet_setAnnounceBudget s _ _⟩
  | knownDestinationLearn =>
      exact .inl ⟨rfl, rfl, .inl fun t => quiet_knownDestinationLearn s _ _ _⟩
  | knownDestinationsImport =>
      exact .inl ⟨rfl, rfl, .inl fun t => quiet_knownDestinationsImport s _ _⟩
  | resetInPlace => exact .inr (.inr ⟨rfl, sheds_resetInPlace s _ _⟩)
  | resetRouterInPlace => exact .inr (.inr ⟨rfl, sheds_resetRouterInPlace s _ _ _ _⟩)
  | setOwnDestination => exact .inl ⟨rfl, rfl, .inr (setOwnDestination_eq s _)⟩
  | setWatchedDestinations =>
      exact .inl ⟨rfl, rfl, .inl fun t => quiet_setWatchedDestinations s _⟩
  | setLocalPlainSink destination =>
      exact .inl ⟨rfl, rfl, .inl fun t => quiet_withRouter s destination s.router.watched⟩
  | registerInterface => exact .inr (.inr ⟨rfl, sheds_registerInterface s _⟩)
  | unregisterInterface => exact .inr (.inr ⟨rfl, sheds_unregisterInterface s _⟩)
  | setInterfaceOnline => exact .inr (.inr ⟨rfl, sheds_setInterfaceOnline s _ _⟩)
  | sendLocal => exact .inr (.inl ⟨rfl, rfl⟩)
  | pollTxForInterface => exact .inl ⟨rfl, rfl, .inl fun t => quiet_pollTxForInterface s _⟩
  | updateInterface => exact .inr (.inr ⟨rfl, sheds_updateInterface s _ _ _ _ _ _⟩)
  | updateInterfacePacketCapacity =>
      exact .inr (.inr ⟨rfl, sheds_updateInterfacePacketCapacity s _ _ _⟩)
  | pollTx => exact .inl ⟨rfl, rfl, .inl fun t => quiet_pollTx s⟩
  | retainedOutboundSelect =>
      exact .inl ⟨rfl, rfl, .inl fun t => quiet_retainedOutboundSelect s _ _ _⟩
  | retainedOutboundAck => exact .inl ⟨rfl, rfl, .inl fun t => quiet_retainedOutboundAck s _ _⟩
  | retainedOutboundTake => exact .inl ⟨rfl, rfl, .inl fun t => quiet_retainedOutboundTake s _⟩
  | retainedOutboundRetireInterface =>
      exact .inl ⟨rfl, rfl, .inl fun t => quiet_retainedOutboundRetireInterface t s _⟩
  | retireReplacedInterface => exact .inr (.inr ⟨rfl, sheds_retireReplacedInterface s _⟩)

theorem perform_untimed (ht : op.time = none) :
    (op.retires = false ∧ ∀ t, Changes ⟨t, none, false⟩ s (op.perform s)) ∨
      (op.retires = true ∧ Sheds s (op.perform s)) := by
  rcases untimed_cases (s := s) ht with ⟨hkeeps, _, hquiet | ⟨localSlots, heq⟩⟩ |
    ⟨hkeeps, hsends⟩ | hretires
  · exact .inl ⟨hkeeps, fun t => Quiet.changes (hquiet t)⟩
  · rw [heq]
    exact .inl ⟨hkeeps, fun t => .single (.own localSlots rfl)⟩
  · cases op with
    | sendLocal =>
        exact .inl ⟨rfl, fun t => enqueueWithLifetime_changes (issued_independent s _) nofun⟩
    | _ => cases hsends
  · exact .inr hretires

/-- Unless it sends, an operation without a time brings nothing into a table or the queue. -/
theorem perform_sheds (ht : op.time = none) (hsends : op.sends = false) :
    Sheds s (op.perform s) := by
  rcases untimed_cases (s := s) ht with ⟨_, _, hquiet | ⟨localSlots, heq⟩⟩ | ⟨_, htrue⟩ | ⟨_, hsheds⟩
  · exact (hquiet 0).toSheds
  · rw [heq]
    exact { Sheds.refl s with }
  · rw [hsends] at htrue
    cases htrue
  · exact hsheds

end Operation

end ReticulumLite
