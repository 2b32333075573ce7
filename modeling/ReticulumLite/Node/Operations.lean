import ReticulumLite.Node.Tick

/-!
# Operations

Everything a host may do to a node, beside handing it frames and ticks: the parts common to both
models, the router's registry and queue, the endpoint's interfaces and retained deliveries. At the
end the operations are collected in one type, over which runs are defined.
-/

namespace ReticulumLite

open Bounded

namespace Router

/-- The router's part of a reset: every registration gets a new number and every gate opens. -/
def reset (r : Router) (generation : Nat) : Router :=
  { r with
    generations := List.Vector.replicate requesters generation
    lastGeneration := generation
    announceGates := List.Vector.replicate requesters .opened
    plainSink := none
    watched := []
    stats := .zero }

/-- Withdraw the number of a place and open its gate. -/
def retire (r : Router) (slot : Fin requesters) : Router :=
  { r with
    generations := r.generations.set slot 0
    announceGates := r.announceGates.set slot .opened }

end Router

namespace LiteNode

variable {K : Capacities} {m : Model}

/-! ### Both models -/

/-- Forget all traffic. Every counter that numbers something goes on from where it is. -/
def clearTraffic (s : LiteNode K m) (config : LiteConfig) (transportId : Hash16)
    (interfaces : Interfaces m) : LiteNode K m :=
  { s with
    config
    transportId
    localSlots := List.Vector.replicate _ .empty
    announceAdmission := .new
    packetHashes := Slots.empty
    paths := s.paths.clear
    announceCache := Slots.empty
    announceSchedule := Slots.empty
    reverse := s.reverse.clear
    links := s.links.clear
    requestTags := Slots.empty
    outbound := .empty
    discoveries := s.discoveries.clear
    interfaces
    stats := .zero }

/-- A router reserves a new number before anything is changed. -/
def resetInterfaces (i : Interfaces m) : Option (Interfaces m) :=
  match i with
  | .endpoint facts => some (.endpoint facts)
  | .router r => (checkedSucc r.lastGeneration).map fun generation =>
      .router (r.reset generation)

def resetInPlace (s : LiteNode K m) (config : LiteConfig) (transportId : Hash16) :
    LiteNode K m × Except TransportError Unit :=
  match validateConfig K config with
  | .error e => (s, .error e)
  | .ok () =>
      match resetInterfaces s.interfaces with
      | none => (s, .error .invalidConfig)
      | some interfaces => (s.clearTraffic config transportId interfaces, .ok ())

def setAnnounceBudget (s : LiteNode K m) (steadyPerSec gracePerSec : Nat) : LiteNode K m :=
  if s.config.announceAdmission.steadyPerSec = steadyPerSec ∧
      s.config.announceAdmission.gracePerSec = gracePerSec then s
  else { s with
    config := { s.config with
      announceAdmission := { s.config.announceAdmission with steadyPerSec, gracePerSec } }
    announceAdmission := .new }

def knownDestinationRecall (s : LiteNode K m) (destinationHash : Hash16) :
    LiteNode K m × Option (Bytes 64) :=
  let recalled := s.knownDestinations.recallDestination destinationHash
  ({ s with knownDestinations := recalled.1 }, recalled.2)

def dropPath (s : LiteNode K m) (destinationHash : Hash16) : LiteNode K m × Bool :=
  let dropped := s.paths.dropPath destinationHash
  ({ s with paths := dropped.1 }, dropped.2)

section

variable [Crypto]

def knownDestinationLearn (s : LiteNode K m) (destinationHash : Hash16) (publicKey : Bytes 64)
    (now : Nat) : LiteNode K m × Except KnownDestinationError Bool :=
  match s.knownDestinations.learn destinationHash publicKey now with
  | .error e => (s, .error e)
  | .ok (known, changed) => ({ s with knownDestinations := known }, .ok changed)

def knownDestinationsImport (s : LiteNode K m) (blob : List UInt8) (now : Nat) :
    LiteNode K m × Except KnownDestinationError Unit :=
  match KnownDestinations.import blob now with
  | .error e => (s, .error e)
  | .ok known => ({ s with knownDestinations := known }, .ok ())

/-- Ask for a route. The tag is recorded only once the request is queued. -/
def requestPath (s : LiteNode K m) (destinationHash : Hash16) (tag : Bytes 16)
    (interfaceId : InterfaceId) (nowMs : Nat) : LiteNode K m × Except TransportError Unit :=
  let s := { s with clockMs := nowMs }.expireOutbound nowMs
  match s.buildPathRequest destinationHash tag.toList with
  | .error e => (s, .error e)
  | .ok request =>
      match s.enqueue interfaceId request .pathRequest with
      | (s, false) => (s, .error (s.egressError interfaceId request.len))
      | (s, true) =>
          let tagKey : Hash32 := Bytes.slice 32 (destinationHash.toList ++ tag.toList) 0
          let tags := s.requestTags.insertIfNew tagKey (satAdd nowMs pathRequestDuplicateGateMs) nowMs
          ({ s with requestTags := tags.1 }, .ok ())

end

/-! ### Routers -/

section Router

def router (s : LiteNode K .router) : Router := s.interfaces.asRouter

def withRouter (s : LiteNode K .router) (r : Router) : LiteNode K .router :=
  { s with interfaces := .router r }

def newRouterConst (config : LiteConfig) (id : Hash16) (registry : InterfaceRegistry)
    (modem : Option LoraModemConfig) : LiteNode K .router :=
  (newConst config id).withRouter (.new registry modem)

def newRouter (config : LiteConfig) (id : Hash16) (registry : InterfaceRegistry)
    (modem : Option LoraModemConfig) : Except TransportError (LiteNode K .router) := do
  validateConfig K config
  (registry.validate config.tableCaps.txQueueDepth).mapError fun _ => TransportError.invalidConfig
  return newRouterConst config id registry modem

def resetRouterInPlace (s : LiteNode K .router) (config : LiteConfig) (id : Hash16)
    (registry : InterfaceRegistry) (modem : Option LoraModemConfig) :
    LiteNode K .router × Except TransportError Unit :=
  match registry.validate config.tableCaps.txQueueDepth with
  | .error _ => (s, .error .invalidConfig)
  | .ok () =>
      match s.resetInPlace config id with
      | (s, .error e) => (s, .error e)
      | (s, .ok ()) => (s.withRouter { s.router with registry, loraModem := modem }, .ok ())

def setOwnDestination (s : LiteNode K .router) (destination : Option Hash16) : LiteNode K .router :=
  let s := s.clearOwnDestinations
  match destination with
  | some destination => (s.registerLocalDestination destination).1
  | none => s

def setWatchedDestinations (s : LiteNode K .router) (destinations : List Hash16) :
    LiteNode K .router × Bool :=
  if destinations.length > watchedDestinationsMax then (s, false)
  else (s.withRouter { s.router with watched := destinations }, true)

def setLocalPlainSink (s : LiteNode K .router) (destination : Option Hash16) : LiteNode K .router :=
  s.withRouter { s.router with plainSink := destination }

def registerInterface (s : LiteNode K .router) (interface : InterfaceConfig) :
    LiteNode K .router × Except ConfigError Unit :=
  match interface.validate s.config.tableCaps.txQueueDepth with
  | .error e => (s, .error e)
  | .ok () =>
      match checkedSucc s.router.lastGeneration with
      | none => (s, .error .interfaceGenerationExhausted)
      | some generation =>
          match s.router.registry.register interface with
          | .error e => (s, .error e)
          | .ok registry =>
              match registry.slotOf interface.id with
              | none => (s.withRouter { s.router with registry }, .error .unknownInterface)
              | some slot =>
                  ({ s.withRouter { s.router with
                        registry
                        lastGeneration := generation
                        generations := s.router.generations.set slot generation
                        announceGates := s.router.announceGates.set slot .opened } with
                      announceSchedule := s.announceSchedule.clearTarget slot
                      discoveries := s.discoveries.retireRequester slot }, .ok ())

/-- Withdraw an interface: its number, its gate, everything that waits for it, and every entry that
goes through it. -/
def forgetInterface (s : LiteNode K .router) (id : InterfaceId) (slot : Fin requesters) :
    LiteNode K .router :=
  let paths := s.paths.removeInterface id
  { s.withRouter (s.router.retire slot) with
    discoveries := s.discoveries.retireRequester slot
    announceSchedule := AnnounceSchedule.removeInterface (s.announceSchedule.clearTarget slot) id
    paths
    reverse := s.reverse.removeInterface id
    links := s.links.removeInterface id
    announceCache := s.announceCache.retainPaths paths s.clockMs }

def retireRouterInterface (s : LiteNode K .router) (id : InterfaceId) (slot : Fin requesters) :
    LiteNode K .router :=
  (s.forgetInterface id slot).expireOutbound s.clockMs

def unregisterInterface (s : LiteNode K .router) (id : InterfaceId) :
    LiteNode K .router × Except ConfigError InterfaceConfig :=
  match s.router.registry.slotOf id with
  | none => (s, .error .unknownInterface)
  | some slot =>
      if s.router.registry.interfaces.length = 1 then (s, .error .cannotRemoveLastInterface)
      else
        match s.router.registry.unregister id with
        | .error e => (s, .error e)
        | .ok (registry, removed) =>
            ((s.withRouter { s.router with registry }).retireRouterInterface id slot, .ok removed)

/-- An interface that comes online gets a new number; one that goes offline is retired. -/
def setInterfaceOnline (s : LiteNode K .router) (id : InterfaceId) (online : Bool) :
    LiteNode K .router × Except ConfigError Unit :=
  match s.router.registry.slotOf id with
  | none => (s, .error .unknownInterface)
  | some slot =>
      let wasOnline := (s.router.registry.lookup id).any (·.online)
      let renumbered : Option Router :=
        if online && !wasOnline then
          (checkedSucc s.router.lastGeneration).map fun generation =>
            { s.router with
              lastGeneration := generation
              generations := s.router.generations.set slot generation }
        else some s.router
      match renumbered with
      | none => (s, .error .interfaceGenerationExhausted)
      | some r =>
          match r.registry.setOnline id online with
          | .error e => (s.withRouter r, .error e)
          | .ok registry =>
              let s := s.withRouter { r with registry }
              if online then (s, .ok ()) else (s.retireRouterInterface id slot, .ok ())

def sendLocal [Crypto] (s : LiteNode K .router) (interface : InterfaceId)
    (packet : PacketBuffer mtu) : LiteNode K .router × Bool :=
  s.enqueueWithLifetime interface packet .local (independentLifetime s.clockMs)

structure RouterOutboundFrame where
  frame : OutboundFrame
  targetGeneration : Nat
  deriving DecidableEq

def routerOutboundIsLive (s : LiteNode K .router) (interface : InterfaceId)
    (lifetime : OutboundLifetime) (targetGeneration nowMs : Nat) : Bool :=
  s.interfaces.deliveryIsCurrent interface (.target targetGeneration) &&
    s.outboundLifetimeIsLive interface lifetime nowMs

/-- Rebroadcasts go last. -/
def interfaceFrameOffset (s : LiteNode K .router) (id : InterfaceId) : Option Nat :=
  (s.outbound.toList.findIdx? fun q =>
    decide (q.frame.interfaceId = id) && !q.frame.reason.gated).or
  (s.outbound.toList.findIdx? fun q => decide (q.frame.interfaceId = id))

def pollTxForInterface (s : LiteNode K .router) (id : InterfaceId) :
    LiteNode K .router × Option RouterOutboundFrame :=
  let s := s.expireOutbound s.clockMs
  match s.interfaceFrameOffset id with
  | none => (s, none)
  | some offset =>
      let removed := s.outbound.remove offset
      ({ s with outbound := removed.2 },
        removed.1.map fun queued => ⟨queued.frame, queued.delivery.generation⟩)

/-- The length and the reason of the frame that is next, of those that are queued. -/
def outboundPeekForInterface (s : LiteNode K .router) (id : InterfaceId) :
    Option (Nat × OutboundReason) :=
  (s.interfaceFrameOffset id).bind fun offset =>
    s.outbound.toList[offset]?.map fun q => (q.frame.packet.len, q.frame.reason)

end Router

/-! ### Endpoints -/

section Endpoint

def facts (s : LiteNode K .endpoint) : List.Vector InterfaceFacts requesters := s.interfaces.asFacts

def withFacts (s : LiteNode K .endpoint) (facts : List.Vector InterfaceFacts requesters) :
    LiteNode K .endpoint :=
  { s with interfaces := .endpoint facts }

def targetBit (id : Nat) : BitVec 8 := 1 <<< id

def mapDelivery (f : OutboundDelivery → OutboundDelivery) (q : QueuedOutbound .endpoint) :
    QueuedOutbound .endpoint :=
  { q with delivery := .retained (f q.delivery.outbound) }

def clearOutbound (s : LiteNode K .endpoint) (interface : InterfaceId) : LiteNode K .endpoint :=
  match s.interfaceSlot interface with
  | some slot =>
      let f := s.facts.get slot
      s.withFacts (s.facts.set slot { f with flags := f.flags &&& ~~~ (2 : BitVec 8) })
  | none => s

/-- Withdraw the permission to send on an interface, also from frames nobody has looked at yet. Seven
interfaces have a bit of their own. -/
def retainedOutboundRetireInterface (s : LiteNode K .endpoint) (interface : InterfaceId) :
    LiteNode K .endpoint :=
  let s := s.clearOutbound interface
  if interface.toNat ≥ 7 then s
  else { s with outbound := s.outbound.mapEntries (mapDelivery fun d =>
    { d with pendingTargets := d.pendingTargets &&& ~~~ targetBit interface.toNat }) }

/-- Empty the place of an interface; nobody waits there any more. -/
def clearInterface (s : LiteNode K .endpoint) (interface : InterfaceId) : LiteNode K .endpoint :=
  match s.interfaceSlot interface with
  | some slot => { s.withFacts (s.facts.set slot .empty) with
      discoveries := s.discoveries.retireRequester slot }
  | none => s

/-- The interface was replaced or removed: forget every route through it. -/
def detached (s : LiteNode K .endpoint) (interface : InterfaceId) : LiteNode K .endpoint :=
  let s := (s.retainedOutboundRetireInterface interface).clearInterface interface
  let paths := s.paths.removeInterface interface
  { s with
    paths
    announceSchedule := s.announceSchedule.removeInterface interface
    reverse := s.reverse.removeInterface interface
    links := s.links.removeInterface interface
    announceCache := s.announceCache.retainPaths paths s.clockMs }

def retireReplacedInterface (s : LiteNode K .endpoint) (interface : InterfaceId) :
    LiteNode K .endpoint :=
  let s := s.detached interface
  s.expireOutbound s.clockMs

/-- A change of mode is a replacement; a change of generation, or the loss of outbound, only
withdraws what is queued. -/
def updateInterface (s : LiteNode K .endpoint) (id : InterfaceId) (generation : Nat)
    (mode : InterfaceMode) (bitrateBps : Nat) (outbound localClient : Bool) :
    LiteNode K .endpoint × Bool :=
  match (s.interfaceSlot id).or (firstIndex fun slot => !(s.facts.get slot).occupied) with
  | none => (s, false)
  | some slot =>
      let previous := s.facts.get slot
      let s :=
        if previous.occupied = false then s
        else if previous.mode ≠ mode then s.retireReplacedInterface id
        else if previous.generation ≠ generation ∨ outbound = false then
          s.retainedOutboundRetireInterface id
        else s
      let previous := s.facts.get slot
      let clearMtu := if previous.occupied then previous.clearMtu
        else s.defaultClearMtu % 2 ^ 16
      let flags := 1 ||| 4 ||| (if outbound = true ∧ generation ≠ 0 then 2 else 0) |||
        (if localClient then 8 else 0)
      (s.withFacts (s.facts.set slot { generation, bitrateBps, clearMtu, id, mode, flags }), true)

/-- A change of an interface's packet size ends the transit links on it. -/
def updateInterfacePacketCapacity (s : LiteNode K .endpoint) (id : InterfaceId) (generation : Nat)
    (clearMtu : Nat) : LiteNode K .endpoint × Bool :=
  match s.interfaceSlot id with
  | none => (s, false)
  | some slot =>
      if generation = 0 ∨ (s.facts.get slot).generation ≠ generation then (s, false)
      else
        let clearMtu := min clearMtu mtu % 2 ^ 16
        if (s.facts.get slot).clearMtu = clearMtu then (s, true)
        else
          let facts := s.facts.set slot { s.facts.get slot with clearMtu }
          (({ s with links := s.links.removeInterface id }.withFacts facts).expireOutbound s.clockMs,
            true)

def pollTx (s : LiteNode K .endpoint) : LiteNode K .endpoint × Option OutboundFrame :=
  if s.retainedOwnerMode then (s, none)
  else
    let s := s.expireOutbound s.clockMs
    let popped := s.outbound.pop
    ({ s with outbound := popped.2 }, popped.1.map (·.frame))

def selectedTargets (frame : OutboundFrame) : BitVec 8 :=
  let bit := targetBit frame.interfaceId.toNat
  match frame.reason with
  | .local | .pathResponse | .transportForward | .proofReturn =>
      if frame.interfaceId < 7 then bit else 0
  | .announceRebroadcast | .pathRequestForward =>
      if frame.interfaceId < 7 then 0x7f &&& ~~~ bit else 0x7f
  | .pathRequest => 0x7f

/-- Bind a frame to the generations of its targets when it is first looked at, and withdraw the
targets whose generation has changed since. -/
def bindDelivery (generations : List.Vector Nat 7) (q : QueuedOutbound .endpoint) :
    QueuedOutbound .endpoint :=
  mapDelivery (fun d =>
    let bound := if d.initialized then d
      else { d with
        pendingTargets := d.pendingTargets &&& selectedTargets q.frame
        interfaceGenerations := generations
        initialized := true }
    let withdrawn := (List.finRange 7).filter fun id =>
      decide (generations.get id = 0) ||
        decide (generations.get id ≠ bound.interfaceGenerations.get id)
    let pendingTargets := withdrawn.foldl (fun mask id => mask &&& ~~~ targetBit id.val)
      bound.pendingTargets
    { bound with pendingTargets }) q

def retainedOutboundSelect (s : LiteNode K .endpoint) (after : Nat) (blocked : BitVec 8)
    (generations : List.Vector Nat 7) : LiteNode K .endpoint × Option (QueuedOutbound .endpoint) :=
  let s := { s with retainedOwnerMode := true }.expireOutbound s.clockMs
  let s := { s with outbound := s.outbound.mapEntries (bindDelivery generations) }
  let s := s.removeFrames (fun _ q => decide (q.delivery.outbound.pendingTargets = 0))
    countOutboundDropped
  (s, s.outbound.toList.find? fun q => decide (q.delivery.outbound.identity > after) &&
    decide (q.delivery.outbound.pendingTargets &&& ~~~ blocked ≠ 0))

def deliveryOffset (s : LiteNode K .endpoint) (identity : Nat) : Option Nat :=
  if s.retainedOwnerMode = false ∨ identity = 0 then none
  else s.outbound.toList.findIdx? fun q => decide (q.delivery.outbound.identity = identity)

def retainedOutboundAck (s : LiteNode K .endpoint) (identity : Nat) (completed : BitVec 8) :
    LiteNode K .endpoint × Bool :=
  match s.deliveryOffset identity with
  | none => (s, false)
  | some offset =>
      match s.outbound.toList[offset]? with
      | none => (s, false)
      | some queued =>
          if queued.delivery.outbound.initialized = false then (s, false)
          else
            let pendingTargets := queued.delivery.outbound.pendingTargets &&& ~~~ completed
            let acked := s.outbound.modifyAt offset (mapDelivery fun d => { d with pendingTargets })
            ({ s with outbound := if pendingTargets = 0 then (acked.remove offset).2 else acked },
              true)

def retainedOutboundTake (s : LiteNode K .endpoint) (identity : Nat) :
    LiteNode K .endpoint × Bool :=
  match s.deliveryOffset identity with
  | none => (s, false)
  | some offset =>
      let removed := s.outbound.remove offset
      ({ s with outbound := removed.2 }, removed.1.isSome)

end Endpoint

end LiteNode

/-! ### Runs -/

inductive Operation : Model → Type
  | ingest {m : Model} (raw : List UInt8) (rx : RxMeta) (nowMs : Nat) (localLink : Option Hash16)
      (endpoint : Option (PacketBuffer mtu)) : Operation m
  | tick {m : Model} (nowMs : Nat) : Operation m
  | requestPath {m : Model} (destinationHash : Hash16) (tag : Bytes 16) (interfaceId : InterfaceId)
      (nowMs : Nat) : Operation m
  | dropPath {m : Model} (destinationHash : Hash16) : Operation m
  | registerLocalDestination {m : Model} (destinationHash : Hash16) : Operation m
  | registerLocalLink {m : Model} (linkId : Hash16) : Operation m
  | unregisterLocalDestination {m : Model} (destinationHash : Hash16) : Operation m
  | unregisterLocalLink {m : Model} (linkId : Hash16) : Operation m
  | clearLocal {m : Model} : Operation m
  | clearOwnDestinations {m : Model} : Operation m
  | setAnnounceBudget {m : Model} (steadyPerSec gracePerSec : Nat) : Operation m
  | knownDestinationRecall {m : Model} (destinationHash : Hash16) : Operation m
  | knownDestinationLearn {m : Model} (destinationHash : Hash16) (publicKey : Bytes 64)
      (now : Nat) : Operation m
  | knownDestinationsImport {m : Model} (blob : List UInt8) (now : Nat) : Operation m
  | recordExpiredOutbound {m : Model} : Operation m
  | resetInPlace {m : Model} (config : LiteConfig) (transportId : Hash16) : Operation m
  | resetRouterInPlace (config : LiteConfig) (id : Hash16) (registry : InterfaceRegistry)
      (modem : Option LoraModemConfig) : Operation .router
  | setOwnDestination (destination : Option Hash16) : Operation .router
  | setWatchedDestinations (destinations : List Hash16) : Operation .router
  | setLocalPlainSink (destination : Option Hash16) : Operation .router
  | registerInterface (interface : InterfaceConfig) : Operation .router
  | unregisterInterface (id : InterfaceId) : Operation .router
  | setInterfaceOnline (id : InterfaceId) (online : Bool) : Operation .router
  | sendLocal (interface : InterfaceId) (packet : PacketBuffer mtu) : Operation .router
  | pollTxForInterface (id : InterfaceId) : Operation .router
  | updateInterface (id : InterfaceId) (generation : Nat) (mode : InterfaceMode) (bitrateBps : Nat)
      (outbound localClient : Bool) : Operation .endpoint
  | updateInterfacePacketCapacity (id : InterfaceId) (generation clearMtu : Nat) :
      Operation .endpoint
  | pollTx : Operation .endpoint
  | retainedOutboundSelect (after : Nat) (blocked : BitVec 8) (generations : List.Vector Nat 7) :
      Operation .endpoint
  | retainedOutboundAck (identity : Nat) (completed : BitVec 8) : Operation .endpoint
  | retainedOutboundTake (identity : Nat) : Operation .endpoint
  | retainedOutboundRetireInterface (interface : InterfaceId) : Operation .endpoint
  | retireReplacedInterface (interface : InterfaceId) : Operation .endpoint

namespace Operation

variable {K : Capacities} {m : Model}

/-- The time an operation is made at, for those that set the clock. -/
def time : Operation m → Option Nat
  | .ingest _ _ nowMs _ _ => some nowMs
  | .tick nowMs => some nowMs
  | .requestPath _ _ _ nowMs => some nowMs
  | _ => none

def perform [Crypto] (s : LiteNode K m) : Operation m → LiteNode K m
  | .ingest raw rx nowMs localLink endpoint => (s.ingestInner raw rx nowMs localLink endpoint).node
  | .tick nowMs => s.tick nowMs
  | .requestPath destinationHash tag interfaceId nowMs =>
      (s.requestPath destinationHash tag interfaceId nowMs).1
  | .dropPath destinationHash => (s.dropPath destinationHash).1
  | .registerLocalDestination destinationHash => (s.registerLocalDestination destinationHash).1
  | .registerLocalLink linkId => (s.registerLocalLink linkId).1
  | .unregisterLocalDestination destinationHash => s.unregisterLocalDestination destinationHash
  | .unregisterLocalLink linkId => s.unregisterLocalLink linkId
  | .clearLocal => s.clearLocal
  | .clearOwnDestinations => s.clearOwnDestinations
  | .setAnnounceBudget steadyPerSec gracePerSec => s.setAnnounceBudget steadyPerSec gracePerSec
  | .knownDestinationRecall destinationHash => (s.knownDestinationRecall destinationHash).1
  | .knownDestinationLearn destinationHash publicKey now =>
      (s.knownDestinationLearn destinationHash publicKey now).1
  | .knownDestinationsImport blob now => (s.knownDestinationsImport blob now).1
  | .recordExpiredOutbound => s.recordExpiredOutbound
  | .resetInPlace config transportId => (s.resetInPlace config transportId).1
  | .resetRouterInPlace config id registry modem => (s.resetRouterInPlace config id registry modem).1
  | .setOwnDestination destination => s.setOwnDestination destination
  | .setWatchedDestinations destinations => (s.setWatchedDestinations destinations).1
  | .setLocalPlainSink destination => s.setLocalPlainSink destination
  | .registerInterface interface => (s.registerInterface interface).1
  | .unregisterInterface id => (s.unregisterInterface id).1
  | .setInterfaceOnline id online => (s.setInterfaceOnline id online).1
  | .sendLocal interface packet => (s.sendLocal interface packet).1
  | .pollTxForInterface id => (s.pollTxForInterface id).1
  | .updateInterface id generation mode bitrateBps outbound localClient =>
      (s.updateInterface id generation mode bitrateBps outbound localClient).1
  | .updateInterfacePacketCapacity id generation clearMtu =>
      (s.updateInterfacePacketCapacity id generation clearMtu).1
  | .pollTx => s.pollTx.1
  | .retainedOutboundSelect after blocked generations =>
      (s.retainedOutboundSelect after blocked generations).1
  | .retainedOutboundAck identity completed => (s.retainedOutboundAck identity completed).1
  | .retainedOutboundTake identity => (s.retainedOutboundTake identity).1
  | .retainedOutboundRetireInterface interface => s.retainedOutboundRetireInterface interface
  | .retireReplacedInterface interface => s.retireReplacedInterface interface

def InOrder (s : LiteNode K m) (op : Operation m) : Prop := ∀ t ∈ op.time, s.clockMs ≤ t

end Operation

end ReticulumLite
