import ReticulumLite.Node.Forwarding

/-!
# Ingest

What happens to a received frame: admission by the interface, the access code, the size, the
general packet rules and the hash list, and then the handler for its type. A caller may hand in a
buffer for traffic that is meant for the node itself.
-/

namespace ReticulumLite

open Bounded

/-- What an ingest leaves: the node, the answer, and the caller's endpoint buffer if one was given. -/
structure Ingested (K : Capacities) (m : Model) where
  node : LiteNode K m
  answer : Except TransportError IngestAction
  endpoint : Option (PacketBuffer mtu)

/-- Copy a packet to the caller's buffer, which is emptied first. -/
def captureEndpoint (raw : List UInt8) (hops : UInt8) (endpoint : Option (PacketBuffer mtu)) :
    Option (PacketBuffer mtu) × Except TransportError IngestAction :=
  match endpoint with
  | none => (none, .ok .dropped)
  | some _ =>
      match PacketBuffer.fromSlice raw with
      | .error e => (some .new, .error (.buffer e))
      | .ok captured => (some (captured.copyWithHops hops), .ok .localEndpoint)

namespace LiteNode

variable {K : Capacities} {m : Model}

/-! ### Admission -/

/-- A router takes frames only from registered, online, inbound interfaces, and only up to their wire
size. -/
def routerIngress (s : LiteNode K m) (interface : InterfaceId) (wireLen : Nat) :
    LiteNode K m × Except TransportError Bool :=
  match s.router? with
  | none => (s, .ok true)
  | some router =>
      let refused := (s.countRouter fun t =>
        { t with interfaceDropped := bump t.interfaceDropped }).countDropped
      match router.interface interface with
      | none => (refused, .error .unknownInterface)
      | some i =>
          if i.online = false then (refused, .error .interfaceOffline)
          else if i.direction.inbound = false then (refused, .error .interfaceNotInbound)
          else if wireLen > i.wireMtu then
            ((s.countRouter fun t => { t with mtuDropped := bump t.mtuDropped }).countDropped,
              .ok false)
          else (s, .ok true)

/-- A router knows the mode of its interfaces better than the caller does. -/
def knownMeta (s : LiteNode K m) (rx : RxMeta) : RxMeta :=
  match s.router?.bind (·.interface rx.interfaceId) with
  | some interface => { rx with interfaceMode := some interface.mode }
  | none => rx

/-- The packet in a frame. Where there is an access code the frame must carry it; where there is none
a flagged frame is another network's. -/
def unwrapFrame [Crypto] (s : LiteNode K m) (interfaceId : InterfaceId) (raw : List UInt8) :
    Option (List UInt8) :=
  match s.interfaces.ifac interfaceId s.config with
  | some ifac => (ifacVerifyInto raw ifac.key ifac.size).toOption.map (·.bytes)
  | none => if hasIfacFlag raw then none else some raw

def countAccepted (s : LiteNode K m) : LiteNode K m :=
  s.count fun t => { t with accepted := bump t.accepted }

def countValidationFailure (s : LiteNode K m) : LiteNode K m :=
  s.count fun t => { t with validationFailures := bump t.validationFailures }

/-- A discovery is only kept while the node is a transport node. -/
def refreshDiscoveries (s : LiteNode K m) (nowMs : Nat) : LiteNode K m :=
  let kept := if s.config.transportEnabled then s.discoveries else s.discoveries.clear
  { s with discoveries := kept.expire nowMs }

/-- A direct plain packet for the configured sink goes to the caller; a relayed one goes nowhere. -/
def plainSinkMatches (s : LiteNode K m) (header : PacketHeader) : Bool :=
  decide (s.router?.bind (·.plainSink) = some header.destinationHash) &&
    decide (header.flags.packetType = .data) && decide (header.flags.destinationType = .plain) &&
    decide (header.flags.transportType = .broadcast)

def capturePlain (s : LiteNode K m) (view : PacketView) (endpoint : Option (PacketBuffer mtu)) :
    Ingested K m :=
  if view.header.hops ≠ 0 then ⟨s, .ok .dropped, endpoint⟩
  else
    match endpoint with
    | none => ⟨s, .ok .dropped, none⟩
    | some _ =>
        match PacketBuffer.fromSlice view.payload with
        | .error e => ⟨s, .error (.buffer e), some .new⟩
        | .ok captured => ⟨s, .ok .localPlain, some captured⟩

/-- Plain and group packets are never announced and travel one hop at most. -/
def oneHopViolated (header : PacketHeader) : Bool :=
  !header.context.skipHashlist &&
    (decide (header.flags.destinationType = .plain) ||
      decide (header.flags.destinationType = .group)) &&
    (decide (header.flags.packetType = .announce) || decide (header.hops > 1))

/-- Packets whose handler records the hash itself, once they are sent. -/
def deferHashlist (s : LiteNode K m) (header : PacketHeader) (localLink : Option Hash16)
    (nowMs : Nat) : Bool :=
  s.links.containsLive header.destinationHash nowMs ||
    decide (header.flags.packetType = .linkRequest) || decide (header.context = .lrproof) ||
    (decide (header.flags.destinationType = .link) &&
      (decide (localLink = some header.destinationHash) || s.isLocalLink header.destinationHash))

def isForEndpoint (s : LiteNode K m) (header : PacketHeader) : Bool :=
  (decide (header.flags.packetType = .linkRequest) &&
    decide (header.flags.destinationType = .single) && s.isOwnDestination header.destinationHash) ||
  (decide (header.flags.packetType = .data) &&
    ((decide (header.flags.destinationType = .link) && s.isLocalLink header.destinationHash) ||
      (decide (header.flags.destinationType = .single) &&
        s.isOwnDestination header.destinationHash)))

/-- A packet gains a hop on the way in, except from a local client, which shares this node's place. -/
def countHop (s : LiteNode K m) (header : PacketHeader) (interfaceId : InterfaceId) : PacketHeader :=
  let hops := satSucc8 header.hops
  { header with hops := if s.isLocalClientInterface interfaceId then satPred8 hops else hops }

/-! ### Handling -/

section

variable [Crypto]

def handleData (s : LiteNode K m) (raw : List UInt8) (view : PacketView) (header : PacketHeader)
    (rx : RxMeta) (nowMs : Nat) : Handled K m :=
  match s.routeLinkPacket raw header rx nowMs .transportForward with
  | (s, .error e) => (s, .error e)
  | (s, .ok true) => (s, .ok .forwardedTransport)
  | (s, .ok false) =>
      if header.destinationHash = pathRequestDestination then
        s.handlePathRequest view.payload rx nowMs
      else if header.flags.destinationType = .plain ∧ header.flags.transportType = .broadcast then
        s.bridgePlainBroadcast raw header rx.interfaceId
      else s.handleTransportForward raw view.header header rx nowMs

def handlePacket (s : LiteNode K m) (raw : List UInt8) (view : PacketView) (header : PacketHeader)
    (rx : RxMeta) (nowMs : Nat) : Handled K m :=
  match header.flags.packetType with
  | .announce => s.handleAnnounce raw view header rx nowMs
  | .data => s.handleData raw view header rx nowMs
  | .linkRequest => s.handleLinkRequest raw view.header header rx nowMs
  | .proof => s.handleProof raw header rx nowMs

/-- What the caller is told of a handled packet. Announces that updated a watched route are copied
to the caller. -/
def reportHandled (handled : Handled K m) (raw : List UInt8) (header : PacketHeader)
    (endpoint : Option (PacketBuffer mtu)) : Ingested K m :=
  let (s, result) := handled
  let watched := (s.router?.any fun r => decide (header.destinationHash ∈ r.watched)) &&
    endpoint.isSome
  let surfaced (scheduled : Bool) : Ingested K m :=
    if watched then
      match captureEndpoint raw header.hops endpoint with
      | (buffer, .ok _) => ⟨s, .ok (.watchedAnnounce scheduled), buffer⟩
      | (buffer, .error _) => ⟨s, result, buffer⟩
    else ⟨s, result, endpoint⟩
  match result with
  | .ok .localEndpoint =>
      let captured := captureEndpoint raw header.hops endpoint
      ⟨s, captured.2, captured.1⟩
  | .ok .learnedAnnounce => surfaced false
  | .ok .scheduledAnnounce => surfaced true
  | .error (.announce e) => ⟨s.countValidationFailure, .error (.announce e), endpoint⟩
  | result => ⟨s, result, endpoint⟩

def ingestFresh (s : LiteNode K m) (raw : List UInt8) (view : PacketView) (rx : RxMeta)
    (nowMs : Nat) (endpoint : Option (PacketBuffer mtu)) : Ingested K m :=
  let header := s.countHop view.header rx.interfaceId
  if s.isForEndpoint header then
    let captured := captureEndpoint raw header.hops endpoint
    ⟨s, captured.2, captured.1⟩
  else reportHandled (s.handlePacket raw view header rx nowMs) raw header endpoint

/-- The hash list. A repeated announce of a single destination goes on: its own freshness rule
decides. -/
def ingestUnlessSeen (s : LiteNode K m) (raw : List UInt8) (view : PacketView) (rx : RxMeta)
    (nowMs : Nat) (localLink : Option Hash16) (endpoint : Option (PacketBuffer mtu)) :
    Ingested K m :=
  if view.header.context.skipHashlist || s.deferHashlist view.header localLink nowMs then
    s.ingestFresh raw view rx nowMs endpoint
  else
    let recorded := s.recordHash (packetHash raw view.header.flags.headerType) nowMs
    let singleAnnounce := decide (view.header.flags.packetType = .announce) &&
      decide (view.header.flags.destinationType = .single)
    if recorded.2 || singleAnnounce then recorded.1.ingestFresh raw view rx nowMs endpoint
    else ⟨recorded.1.countDuplicate, .ok .duplicate, endpoint⟩

def ingestPacket (s : LiteNode K m) (raw : List UInt8) (rx : RxMeta) (nowMs : Nat)
    (localLink : Option Hash16) (endpoint : Option (PacketBuffer mtu)) : Ingested K m :=
  if raw.length > s.interfaceClearMtu rx.interfaceId then ⟨s, .ok .dropped, endpoint⟩
  else
    match PacketView.parse raw with
    | .error e => ⟨s, .error (.wire e), endpoint⟩
    | .ok view =>
        let linkRequestChecked : Except TransportError Unit :=
          if view.header.flags.packetType = .linkRequest then do
            let _ ← (LinkRequestView.parse view.payload).mapError
              fun _ => TransportError.invalidLinkSignalling
            s.requireLinkCapacity rx.interfaceId
          else .ok ()
        match linkRequestChecked with
        | .error e => ⟨s, .error e, endpoint⟩
        | .ok () =>
            if s.plainSinkMatches view.header then s.capturePlain view endpoint
            else
              let s := s.countAccepted
              if view.header.hops ≥ pathfinderM ∨
                  s.acceptsTransportAddress view.header = false ∨
                  oneHopViolated view.header = true then
                ⟨s.countDropped, .ok .dropped, endpoint⟩
              else s.ingestUnlessSeen raw view rx nowMs localLink endpoint

def prepareIngest (s : LiteNode K m) (rx : RxMeta) (nowMs : Nat) : LiteNode K m :=
  (({ s with clockMs := nowMs }.observeInterface rx).refreshDiscoveries nowMs).expireOutbound nowMs

def ingestPrepared (s : LiteNode K m) (raw : List UInt8) (rx : RxMeta) (nowMs : Nat)
    (localLink : Option Hash16) (endpoint : Option (PacketBuffer mtu)) : Ingested K m :=
  match s.routerIngress rx.interfaceId raw.length with
  | (s, .error e) => ⟨s, .error e, endpoint⟩
  | (s, .ok false) => ⟨s, .ok .dropped, endpoint⟩
  | (s, .ok true) =>
      let rx := s.knownMeta rx
      match s.unwrapFrame rx.interfaceId raw with
      | none => ⟨s.countValidationFailure.countDropped, .ok .dropped, endpoint⟩
      | some raw => s.ingestPacket raw rx nowMs localLink endpoint

def ingestInner (s : LiteNode K m) (raw : List UInt8) (rx : RxMeta) (nowMs : Nat)
    (localLink : Option Hash16) (endpoint : Option (PacketBuffer mtu)) : Ingested K m :=
  (s.prepareIngest rx nowMs).ingestPrepared raw rx nowMs localLink endpoint

def ingestWithLocalLink (s : LiteNode K m) (raw : List UInt8) (rx : RxMeta) (nowMs : Nat)
    (localLink : Option Hash16) : Ingested K m :=
  s.ingestInner raw rx nowMs localLink none

def ingest (s : LiteNode K m) (raw : List UInt8) (rx : RxMeta) (nowMs : Nat) : Ingested K m :=
  s.ingestWithLocalLink raw rx nowMs none

def ingestEndpoint (s : LiteNode K m) (raw : List UInt8) (rx : RxMeta) (nowMs : Nat)
    (endpoint : PacketBuffer mtu) : Ingested K m :=
  s.ingestInner raw rx nowMs none (some endpoint)

end

end LiteNode

end ReticulumLite
