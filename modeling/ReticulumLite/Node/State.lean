import ReticulumLite.Base.Ring
import ReticulumLite.Identity.KnownDestinations
import ReticulumLite.Link.Handshake
import ReticulumLite.Radio
import ReticulumLite.Tables.Discovery

/-!
# The state of a node

A node is built for one of two models: an endpoint, whose interfaces the host owns, or a router,
which owns a registry of interfaces. The model decides what is known of an interface and what a
queued frame must name to be delivered; everything else is common.
-/

namespace ReticulumLite

open Bounded

/-! ### Frames -/

inductive OutboundState
  | independent
  | reverse (generation : Nat)
  | link (generation : Nat)
  | discovery (identity : Nat)
  deriving DecidableEq

/-- Until when a frame may be sent, and what must still be there: a path, and a reverse entry, a
link or a discovery. Path zero is none. -/
structure OutboundLifetime where
  enqueuedMs : Nat
  expiresMs : Nat
  path : Nat
  state : OutboundState
  deriving DecidableEq

abbrev outboundMaxAgeMs : Nat := 120000

inductive OutboundReason
  | announceRebroadcast
  | pathResponse
  | pathRequestForward
  | pathRequest
  | transportForward
  | proofReturn
  | local
  deriving DecidableEq

/-- Only rebroadcasts wait for an announce gate. -/
def OutboundReason.gated (r : OutboundReason) : Bool := decide (r = .announceRebroadcast)

structure OutboundFrame where
  interfaceId : InterfaceId
  packet : PacketBuffer wireMtuMax
  reason : OutboundReason
  lifetime : OutboundLifetime
  deriving DecidableEq

/-- Delivery of one frame to several targets of an endpoint's host. -/
structure OutboundDelivery where
  identity : Nat
  interfaceGenerations : List.Vector Nat 7
  pendingTargets : BitVec 8
  initialized : Bool
  deriving DecidableEq

/-! ### The two models -/

inductive Model
  | endpoint
  | router
  deriving DecidableEq

/-- What a queued frame names: on an endpoint its own delivery, on a router the registration of its
target. -/
inductive Delivery : Model → Type
  | retained (d : OutboundDelivery) : Delivery .endpoint
  | target (generation : Nat) : Delivery .router
  deriving DecidableEq

def Delivery.outbound : Delivery .endpoint → OutboundDelivery
  | .retained d => d

def Delivery.generation : Delivery .router → Nat
  | .target generation => generation

structure QueuedOutbound (m : Model) where
  frame : OutboundFrame
  delivery : Delivery m

structure RxMeta where
  interfaceId : InterfaceId
  interfaceMode : Option InterfaceMode
  deriving DecidableEq

/-- What is known of an interface. The flags say, from the lowest bit: occupied, outbound,
registered by the host, local client. -/
structure InterfaceFacts where
  generation : Nat
  bitrateBps : Nat
  clearMtu : Nat
  id : InterfaceId
  mode : InterfaceMode
  flags : BitVec 8
  deriving DecidableEq

namespace InterfaceFacts

def empty : InterfaceFacts := ⟨0, 0, 500, 0, .full, 0⟩

def occupied (f : InterfaceFacts) : Bool := f.flags.getLsbD 0
def outbound (f : InterfaceFacts) : Bool := f.flags.getLsbD 1 && decide (f.generation ≠ 0)
def registered (f : InterfaceFacts) : Bool := f.flags.getLsbD 2
def localClient (f : InterfaceFacts) : Bool := f.flags.getLsbD 3

end InterfaceFacts

structure RouterStats where
  interfaceDropped : Nat
  mtuDropped : Nat
  reflectionDropped : Nat
  announcesReleased : Nat
  bulkPathsLearned : Nat
  bulkPathsRefused : Nat
  deriving DecidableEq

def RouterStats.zero : RouterStats := ⟨0, 0, 0, 0, 0, 0⟩

abbrev requesters : Nat := 8
abbrev watchedDestinationsMax : Nat := 4

structure Router where
  registry : InterfaceRegistry
  generations : List.Vector Nat requesters
  lastGeneration : Nat
  announceGates : List.Vector AnnounceGate requesters
  loraModem : Option LoraModemConfig
  plainSink : Option Hash16
  watched : List Hash16
  stats : RouterStats

namespace Router

def new (registry : InterfaceRegistry) (loraModem : Option LoraModemConfig) : Router where
  registry := registry
  generations := List.Vector.replicate requesters 1
  lastGeneration := 1
  announceGates := List.Vector.replicate requesters .opened
  loraModem := loraModem
  plainSink := none
  watched := []
  stats := .zero

def interface (r : Router) (id : InterfaceId) : Option InterfaceConfig := r.registry.lookup id

def generation (r : Router) (id : InterfaceId) : Nat :=
  match r.registry.slotOf id with
  | some slot => r.generations.get slot
  | none => 0

def facts (r : Router) (slot : Fin requesters) : InterfaceFacts :=
  match r.registry.get slot with
  | none => .empty
  | some interface =>
      { generation := 1
        bitrateBps := min interface.bitrateBps (2 ^ 32 - 1)
        clearMtu := interface.clearMtu % 2 ^ 16
        id := interface.id
        mode := interface.mode
        flags := 1 ||| 4 |||
          (if interface.online && interface.direction.outbound then 2 else 0) |||
          (if interface.role = .localClient then 8 else 0) }

def online (r : Router) (id : InterfaceId) : Bool :=
  (r.interface id).any fun interface => interface.online && interface.direction.outbound

end Router

inductive Interfaces : Model → Type
  | endpoint (facts : List.Vector InterfaceFacts requesters) : Interfaces .endpoint
  | router (r : Router) : Interfaces .router

namespace Interfaces

variable {m : Model}

def empty : (m : Model) → Interfaces m
  | .endpoint => .endpoint (List.Vector.replicate requesters .empty)
  | .router => .router (.new .new none)

def delivery (i : Interfaces m) (identity : Nat) (interface : InterfaceId) : Delivery m :=
  match i with
  | .endpoint _ => .retained ⟨identity, List.Vector.replicate 7 0, 0x7f, false⟩
  | .router r => .target (r.generation interface)

def deliveryIsCurrent (i : Interfaces m) (interface : InterfaceId) (delivery : Delivery m) : Bool :=
  match i, delivery with
  | .endpoint _, .retained _ => true
  | .router r, .target generation =>
      decide (generation ≠ 0) && decide (r.generation interface = generation)

def facts (i : Interfaces m) (slot : Fin requesters) : InterfaceFacts :=
  match i with
  | .endpoint facts => facts.get slot
  | .router r => r.facts slot

def slot (i : Interfaces m) (id : InterfaceId) : Option (Fin requesters) :=
  firstIndex fun slot => (i.facts slot).occupied && decide ((i.facts slot).id = id)

/-- An endpoint takes note of an interface it hears from; a router knows its own. -/
def observe (i : Interfaces m) (rx : RxMeta) (config : LiteConfig) (clearMtu : Nat) :
    Interfaces m :=
  let mode := rx.interfaceMode.getD config.mode
  match i with
  | .router r => .router r
  | .endpoint facts =>
      match slot (.endpoint facts) rx.interfaceId with
      | some slot =>
          if (facts.get slot).registered then .endpoint facts
          else .endpoint (facts.set slot { facts.get slot with mode })
      | none =>
          match firstIndex fun slot => !(facts.get slot).occupied with
          | none => .endpoint facts
          | some slot =>
              .endpoint (facts.set slot
                { id := rx.interfaceId, generation := 1, mode, bitrateBps := 0,
                  clearMtu := clearMtu % 2 ^ 16, flags := 1 ||| 2 })

def ifac (i : Interfaces m) (id : InterfaceId) (config : LiteConfig) : Option IfacConfig :=
  match i with
  | .endpoint _ => config.ifac
  | .router r => (r.interface id).bind (·.ifac)

def online (i : Interfaces m) (id : InterfaceId) : Bool :=
  match i with
  | .endpoint _ => true
  | .router r => r.online id

def router? (i : Interfaces m) : Option Router :=
  match i with
  | .endpoint _ => none
  | .router r => some r

def asRouter : Interfaces .router → Router
  | .router r => r

def asFacts : Interfaces .endpoint → List.Vector InterfaceFacts requesters
  | .endpoint facts => facts

def mapRouter (i : Interfaces m) (f : Router → Router) : Interfaces m :=
  match i with
  | .endpoint facts => .endpoint facts
  | .router r => .router (f r)

end Interfaces

/-! ### Nodes -/

inductive LocalSlot
  | empty
  | destination (hash : Hash16)
  | link (id : Hash16)
  deriving DecidableEq

namespace Model

/-- How many own destinations and local links a node has room for. -/
def localSlots : Model → Nat
  | .endpoint => 4
  | .router => 8

def localLinksMax : Model → Nat
  | .endpoint => 4
  | .router => 6

end Model

structure TransportStats where
  accepted : Nat
  duplicates : Nat
  learnedAnnounces : Nat
  queuedOutbound : Nat
  dropped : Nat
  validationFailures : Nat
  outboundDropped : Nat
  outboundExpired : Nat
  announcesRateDropped : Nat
  deriving DecidableEq

def TransportStats.zero : TransportStats := ⟨0, 0, 0, 0, 0, 0, 0, 0, 0⟩

inductive TransportError
  | invalidConfig
  | unknownInterface
  | interfaceOffline
  | interfaceNotOutbound
  | interfaceNotInbound
  | mtuExceeded
  | backpressure
  | linkCapacityUnavailable (interfaceId : InterfaceId) (clearMtu required : Nat)
  | invalidLinkSignalling
  | unsupportedTransitModeTransform
  | capacityTooSmall
  | wire (e : WireError)
  | buffer (e : BufferError)
  | announce (e : AnnounceError)
  | ifac (e : IfacError)
  | knownDestination (e : KnownDestinationError)
  deriving DecidableEq

inductive IngestAction
  | accepted
  | duplicate
  | learnedAnnounce
  | announceIgnored
  | scheduledAnnounce
  | answeredPathRequest
  | forwardedPathRequest
  | forwardedTransport
  | forwardedProof
  | localEndpoint
  | localPlain
  | watchedAnnounce (scheduled : Bool)
  | dropped
  deriving DecidableEq

structure Capacities where
  paths : Nat
  hashes : Nat
  announces : Nat
  reverse : Nat
  links : Nat
  tags : Nat
  outbound : Nat
  knownDestinations : Nat
  scheduled : Nat

structure LiteNode (K : Capacities) (m : Model) where
  config : LiteConfig
  clockMs : Nat
  transportId : Hash16
  localSlots : List.Vector LocalSlot m.localSlots
  announceAdmission : AnnounceAdmission
  knownDestinations : KnownDestinations K.knownDestinations
  packetHashes : PacketHashTable K.hashes
  paths : PathTable K.paths
  announceCache : AnnounceCache K.announces
  announceSchedule : AnnounceSchedule K.scheduled
  reverse : ReverseTable K.reverse
  links : LinkTable K.links
  requestTags : RequestTagTable K.tags
  outbound : Ring (QueuedOutbound m) K.outbound
  lastDeliveryIdentity : Nat
  retainedOwnerMode : Bool
  discoveries : Discoveries K.links
  interfaces : Interfaces m
  stats : TransportStats

namespace LiteNode

variable {K : Capacities} {m : Model}

def newConst (config : LiteConfig) (transportId : Hash16) : LiteNode K m where
  config := config
  clockMs := 0
  transportId := transportId
  localSlots := List.Vector.replicate _ .empty
  announceAdmission := .new
  knownDestinations := .new
  packetHashes := Slots.empty
  paths := .new
  announceCache := Slots.empty
  announceSchedule := Slots.empty
  reverse := .new
  links := .new
  requestTags := Slots.empty
  outbound := .empty
  lastDeliveryIdentity := 0
  retainedOwnerMode := false
  discoveries := .new
  interfaces := .empty m
  stats := .zero

/-- A configuration must be valid and ask for no more than the tables hold. -/
def validateConfig (K : Capacities) (config : LiteConfig) : Except TransportError Unit := do
  let _ ← config.validate.mapError fun _ => TransportError.invalidConfig
  refuseIf (config.tableCaps.pathEntries > K.paths ∨ config.tableCaps.packetHashes > K.hashes ∨
    config.tableCaps.announceEntries > K.announces ∨
    config.tableCaps.reverseEntries > K.reverse ∨ config.tableCaps.linkEntries > K.links ∨
    config.tableCaps.pathRequestTags > K.tags ∨
    config.tableCaps.queuedAnnouncesPerInterface > K.outbound ∨
    config.tableCaps.txQueueDepth > K.outbound) .capacityTooSmall

def new (config : LiteConfig) (transportId : Hash16) : Except TransportError (LiteNode K m) := do
  validateConfig K config
  return newConst config transportId

def bump (counter : Nat) : Nat := satAdd counter 1

def count (s : LiteNode K m) (f : TransportStats → TransportStats) : LiteNode K m :=
  { s with stats := f s.stats }

def countRouter (s : LiteNode K m) (f : RouterStats → RouterStats) : LiteNode K m :=
  { s with interfaces := s.interfaces.mapRouter fun r => { r with stats := f r.stats } }

def countDropped (s : LiteNode K m) : LiteNode K m :=
  s.count fun t => { t with dropped := bump t.dropped }

def countDuplicate (s : LiteNode K m) : LiteNode K m :=
  s.count fun t => { t with duplicates := bump t.duplicates }

def countOutboundDropped (s : LiteNode K m) : LiteNode K m :=
  s.count fun t => { t with outboundDropped := bump t.outboundDropped }

/-! ### Own destinations and local links -/

def registerLocalSlot (s : LiteNode K m) (value : LocalSlot) : LiteNode K m × Bool :=
  if value ∈ s.localSlots.toList then (s, true)
  else match firstIndex fun i => decide (s.localSlots.get i = .empty) with
  | some i => ({ s with localSlots := s.localSlots.set i value }, true)
  | none => (s, false)

def registerLocalDestination (s : LiteNode K m) (destinationHash : Hash16) : LiteNode K m × Bool :=
  s.registerLocalSlot (.destination destinationHash)

def localLinkCount (s : LiteNode K m) : Nat :=
  (s.localSlots.toList.filter fun slot =>
    match slot with
    | .link _ => true
    | _ => false).length

def registerLocalLink (s : LiteNode K m) (linkId : Hash16) : LiteNode K m × Bool :=
  if .link linkId ∉ s.localSlots.toList ∧ s.localLinkCount ≥ m.localLinksMax then (s, false)
  else s.registerLocalSlot (.link linkId)

def clearLocalWhere (s : LiteNode K m) (p : LocalSlot → Bool) : LiteNode K m :=
  { s with localSlots := s.localSlots.map fun slot => if p slot then .empty else slot }

def unregisterLocalDestination (s : LiteNode K m) (destination : Hash16) : LiteNode K m :=
  s.clearLocalWhere fun slot => decide (slot = .destination destination)

def unregisterLocalLink (s : LiteNode K m) (link : Hash16) : LiteNode K m :=
  s.clearLocalWhere fun slot => decide (slot = .link link)

def clearLocal (s : LiteNode K m) : LiteNode K m := s.clearLocalWhere fun _ => true

def clearOwnDestinations (s : LiteNode K m) : LiteNode K m :=
  s.clearLocalWhere fun slot =>
    match slot with
    | .destination _ => true
    | _ => false

def isOwnDestination (s : LiteNode K m) (destination : Hash16) : Bool :=
  decide (.destination destination ∈ s.localSlots.toList)

def isLocalLink (s : LiteNode K m) (link : Hash16) : Bool :=
  decide (.link link ∈ s.localSlots.toList)

/-- Whether a packet is for this node to handle: an announce always is, another packet only if it
names no next hop or this one. -/
def acceptsTransportAddress (s : LiteNode K m) (header : PacketHeader) : Bool :=
  decide (header.flags.packetType = .announce) || header.transportId.isNone ||
    decide (header.transportId = some s.transportId)

/-! ### Interfaces -/

def interfaceSlot (s : LiteNode K m) (id : InterfaceId) : Option (Fin requesters) :=
  s.interfaces.slot id

def router? (s : LiteNode K m) : Option Router := s.interfaces.router?

def defaultClearMtu (s : LiteNode K m) : Nat :=
  min mtu (loraSplitFramePayloadMax - ifacSize s.config.ifac)

def observeInterface (s : LiteNode K m) (rx : RxMeta) : LiteNode K m :=
  { s with interfaces := s.interfaces.observe rx s.config s.defaultClearMtu }

def interfaceClearMtu (s : LiteNode K m) (id : InterfaceId) : Nat :=
  match s.interfaceSlot id with
  | some slot => (s.interfaces.facts slot).clearMtu
  | none => s.defaultClearMtu

def requireLinkCapacity (s : LiteNode K m) (interfaceId : InterfaceId) :
    Except TransportError Unit := do
  refuseIf (m = .router ∧ s.interfaceSlot interfaceId = none) .unknownInterface
  let clearMtu := s.interfaceClearMtu interfaceId
  refuseIf (clearMtu < 500) (.linkCapacityUnavailable interfaceId clearMtu 500)

def interfaceBitrate (s : LiteNode K m) (id : InterfaceId) : Nat :=
  match ((s.interfaceSlot id).map s.interfaces.facts).filter (·.outbound) with
  | some facts => facts.bitrateBps
  | none => 0

/-- The slowest outbound interface other than the requester's own. -/
def slowestOutboundBitrate (s : LiteNode K m) (requester : InterfaceId) : Nat :=
  let rates := ((List.finRange requesters).map s.interfaces.facts).filter fun f =>
    (decide (f.id ≠ requester) ||
      ((s.router?.bind (·.interface f.id)).any fun i => i.direction.repeating)) &&
    f.outbound && decide (f.bitrateBps > 0)
  ((rates.map (·.bitrateBps)).min?).getD 0

def outboundInterfaceOnline (s : LiteNode K m) (id : InterfaceId) : Bool := s.interfaces.online id

def isLocalClientInterface (s : LiteNode K m) (interface : InterfaceId) : Bool :=
  (s.interfaceSlot interface).any fun slot => (s.interfaces.facts slot).localClient

end LiteNode

end ReticulumLite
