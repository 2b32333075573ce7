import ReticulumLite.Node.Announces

/-!
# Packets in transit

Data and link requests go along the route to their destination; proofs and link packets go along
what those left behind. A packet is queued before anything is recorded for it, so that a packet that
never queued leaves no trace.
-/

namespace ReticulumLite

open Bounded

abbrev hashlistLifetimeMs : Nat := 120000

namespace LiteNode

variable {K : Capacities} {m : Model} [Crypto]

/-! ### Along a route -/

/-- The header for the next hop of a route: the address of the next relay, or none on the last hop.
No header is a route that names no next hop. -/
def forwardedHeader (header : PacketHeader) (path : PathEntry) : Option PacketHeader :=
  if path.hops > 1 then
    path.nextHop.map fun nextHop =>
      { header with
        flags := { header.flags with headerType := .header2, transportType := .transport }
        transportId := some nextHop }
  else some
    { header with
      flags := { header.flags with headerType := .header1, transportType := .broadcast }
      transportId := none }

/-- A packet rewritten for the next hop, and the interface it leaves by. A route of no hops gets the
packet as it is. -/
def rewriteForwardedTransportPacket (s : LiteNode K m) (raw : List UInt8)
    (originalHeader header : PacketHeader) (nowMs : Nat) :
    Except TransportError (Option (InterfaceId × PacketBuffer mtu)) :=
  match s.paths.getLive header.destinationHash nowMs with
  | none => .ok none
  | some path =>
      if path.hops < 1 then do
        let packet ← (PacketBuffer.fromSlice raw).mapError .buffer
        return some (path.interfaceId, packet.copyWithHops header.hops)
      else
        match forwardedHeader header path with
        | none => .ok none
        | some newHeader => do
            let packet ← (rewriteWithHeader raw originalHeader newHeader).mapError .wire
            return some (path.interfaceId, packet)

def handleTransportForward (s : LiteNode K m) (raw : List UInt8)
    (originalHeader header : PacketHeader) (rx : RxMeta) (nowMs : Nat) : Handled K m :=
  if s.config.transportEnabled = false then (s, .ok .dropped)
  else if originalHeader.transportId ≠ some s.transportId then (s, .ok .dropped)
  else
    match s.rewriteForwardedTransportPacket raw originalHeader header nowMs with
    | .error e => (s, .error e)
    | .ok none => (s, .ok .dropped)
    | .ok (some (targetInterface, forwarded)) =>
        let proofHash := truncatedPacketHash raw originalHeader.flags.headerType
        match s.reverse.nextGeneration with
        | none => (s, .ok .dropped)
        | some generation =>
            let lifetime := { s.packetLifetime forwarded .transportForward with
              state := .reverse generation }
            match s.enqueueForwardedWithLifetime rx.interfaceId targetInterface forwarded
                .transportForward lifetime with
            | (s, false) => (s, .ok .dropped)
            | (s, true) =>
                let entry : ReverseEntry :=
                  { proofHash
                    receivingInterface := rx.interfaceId
                    outboundInterface := targetInterface
                    expiresMs := satAdd nowMs reverseTimeoutMs }
                ({ s with
                    paths := s.paths.touch header.destinationHash nowMs
                    reverse := s.reverse.insert entry nowMs },
                  .ok .forwardedTransport)

/-! ### Link requests -/

/-- The request as it goes on: a trailer of the default mode is dropped, since the link id does not
cover it and its absence means the same; a trailer of another mode must name the fixed MTU. -/
def forwardedLinkRequest (raw : List UInt8) (originalHeader : PacketHeader)
    (forwarded : PacketBuffer mtu) :
    Except TransportError (LinkRequestView × PacketBuffer mtu) := do
  let request ← (LinkRequestView.parse (raw.drop originalHeader.size)).mapError
    fun _ => TransportError.invalidLinkSignalling
  let _ ← request.signalling.effectiveMtu.mapError fun _ => TransportError.invalidLinkSignalling
  if request.signalling.mode = modeAes256Cbc then
    if raw.length - originalHeader.size = linkRequestLen then
      return (request, forwarded.setLen (forwarded.len - linkMtuSize))
    else return (request, forwarded)
  else
    refuseIf (request.signalling.mtu ≠ 500) .unsupportedTransitModeTransform
    return (request, forwarded)

def linkEntry (s : LiteNode K m) (linkId : Hash16) (path : PathEntry) (header : PacketHeader)
    (rx : RxMeta) (targetInterface : InterfaceId) (request : LinkRequestView) (nowMs : Nat) :
    LinkEntry where
  linkId := linkId
  destinationEd25519 := some (Bytes.slice 32 path.publicKey.toList 32)
  receivingInterface := rx.interfaceId
  outboundInterface := targetInterface
  remainingHops := path.hops
  takenHops := header.hops
  requestedMode := request.signalling.mode
  acceptedMtuCeiling := 500
  validated := false
  expiresMs := linkDeadline nowMs path.hops (s.interfaceBitrate targetInterface)

def openLink (s : LiteNode K m) (header : PacketHeader) (rx : RxMeta)
    (targetInterface : InterfaceId) (forwarded : PacketBuffer mtu) (entry : LinkEntry)
    (nowMs : Nat) : Handled K m :=
  match s.links.nextGeneration with
  | none => (s, .ok .dropped)
  | some generation =>
      let lifetime := { s.packetLifetime forwarded .transportForward with
        state := .link generation }
      match s.enqueueForwardedWithLifetime rx.interfaceId targetInterface forwarded
          .transportForward lifetime with
      | (s, false) => (s, .ok .dropped)
      | (s, true) =>
          ({ s with
              paths := s.paths.touch header.destinationHash nowMs
              links := s.links.insert entry nowMs },
            .ok .forwardedTransport)

def admitLinkRequest (s : LiteNode K m) (raw : List UInt8) (originalHeader : PacketHeader)
    (rx : RxMeta) (targetInterface : InterfaceId) (forwarded : PacketBuffer mtu) :
    Except TransportError (LinkRequestView × PacketBuffer mtu) := do
  s.requireLinkCapacity rx.interfaceId
  s.requireLinkCapacity targetInterface
  forwardedLinkRequest raw originalHeader forwarded

/-- What follows once there is room for the link. -/
def relayLinkRequest (s : LiteNode K m) (raw : List UInt8) (originalHeader header : PacketHeader)
    (rx : RxMeta) (nowMs : Nat) : Handled K m :=
  match s.rewriteForwardedTransportPacket raw originalHeader header nowMs with
  | .error e => (s, .error e)
  | .ok none => (s, .ok .dropped)
  | .ok (some (targetInterface, forwarded)) =>
      match s.admitLinkRequest raw originalHeader rx targetInterface forwarded with
      | .error e => (s, .error e)
      | .ok (request, forwarded) =>
          match s.paths.getLive header.destinationHash nowMs with
          | none => (s, .ok .dropped)
          | some path =>
              let entry := s.linkEntry (linkIdFromRaw raw originalHeader.flags.headerType) path
                header rx targetInterface request nowMs
              s.openLink header rx targetInterface forwarded entry nowMs

def handleLinkRequest (s : LiteNode K m) (raw : List UInt8) (originalHeader header : PacketHeader)
    (rx : RxMeta) (nowMs : Nat) : Handled K m :=
  if s.config.transportEnabled = false then (s, .ok .dropped)
  else if originalHeader.transportId ≠ some s.transportId then (s, .ok .dropped)
  else
    let linkId := linkIdFromRaw raw originalHeader.flags.headerType
    if s.links.containsLive linkId nowMs then (s, .ok .dropped)
    else
      let room := s.links.hasFreeSlot nowMs
      let s := { s with links := room.1 }
      if room.2 = false then (s, .ok .dropped)
      else s.relayLinkRequest raw originalHeader header rx nowMs

/-! ### Link packets -/

/-- Where a packet of a link goes on to. The hops must be those the link was opened with. -/
inductive LinkRoute
  | notOnLink
  | refused
  | target (interface : InterfaceId)

def linkRoute (link : LinkEntry) (hops : UInt8) (interfaceId : InterfaceId) : LinkRoute :=
  if link.outboundInterface = link.receivingInterface then
    if hops = link.remainingHops ∨ hops = link.takenHops then .target link.outboundInterface
    else .refused
  else if interfaceId = link.receivingInterface then
    if hops = link.takenHops then .target link.outboundInterface else .refused
  else if interfaceId = link.outboundInterface then
    if hops = link.remainingHops then .target link.receivingInterface else .refused
  else .notOnLink

def linkCapable (s : LiteNode K m) (interfaceId : InterfaceId) : Bool :=
  (s.requireLinkCapacity interfaceId).isOk

def recordHash (s : LiteNode K m) (hash : Hash32) (nowMs : Nat) : LiteNode K m × Bool :=
  let inserted := s.packetHashes.insert hash (satAdd nowMs hashlistLifetimeMs) nowMs
  ({ s with packetHashes := inserted.1 }, inserted.2)

/-- Send a packet of a link on, then record its hash and keep a validated link alive. -/
def sendLinkPacket (s : LiteNode K m) (raw : List UInt8) (header : PacketHeader) (rx : RxMeta)
    (link : LinkEntry) (targetInterface : InterfaceId) (trackedHash : Option Hash32)
    (reason : OutboundReason) (nowMs : Nat) : LiteNode K m × Except TransportError Bool :=
  match PacketBuffer.fromSlice raw with
  | .error e => (s, .error (.buffer e))
  | .ok buffer =>
      match s.enqueueForwarded rx.interfaceId targetInterface (buffer.copyWithHops header.hops)
          reason with
      | (s, false) => (s, .ok true)
      | (s, true) =>
          let s := match trackedHash with
            | some hash => (s.recordHash hash nowMs).1
            | none => s
          let s := if link.validated then
            { s with links := s.links.touch link.linkId (satAdd nowMs linkTimeoutMs) nowMs }
            else s
          (s, .ok true)

/-- Route a packet of a transit link. The answer is whether the packet was one; it may have been
consumed without being sent. -/
def routeLinkPacket (s : LiteNode K m) (raw : List UInt8) (header : PacketHeader) (rx : RxMeta)
    (nowMs : Nat) (reason : OutboundReason) : LiteNode K m × Except TransportError Bool :=
  if s.config.transportEnabled = false ∨ header.flags.destinationType ≠ .link ∨
      header.flags.packetType = .linkRequest ∨ header.context = .lrproof then (s, .ok false)
  else
    match s.links.get header.destinationHash nowMs with
    | none => (s, .ok false)
    | some link =>
        if raw.length > link.acceptedMtuCeiling ∨ s.linkCapable link.receivingInterface = false ∨
            s.linkCapable link.outboundInterface = false then (s, .ok true)
        else
          match linkRoute link header.hops rx.interfaceId with
          | .notOnLink => (s, .ok false)
          | .refused => (s, .ok true)
          | .target targetInterface =>
              if header.context.skipHashlist then
                s.sendLinkPacket raw header rx link targetInterface none reason nowMs
              else
                let hash := packetHash raw header.flags.headerType
                let held := s.packetHashes.contains hash nowMs
                let s := { s with packetHashes := held.1 }
                if held.2 then (s.countDuplicate, .ok true)
                else s.sendLinkPacket raw header rx link targetInterface (some hash) reason nowMs

/-! ### Proofs -/

def exceedsCeiling (signalling : SignallingData) (ceiling : Nat) : Bool :=
  match signalling.effectiveMtu with
  | .error _ => true
  | .ok mtu => decide (mtu > ceiling)

/-- Check the proof of a link in transit against what its request recorded. -/
def validateTransitLrproof (s : LiteNode K m) (raw : List UInt8) (header : PacketHeader)
    (link : LinkEntry) : Bool :=
  let payloadOffset := header.size
  if raw.length < payloadOffset then false
  else
    let proof := raw.drop payloadOffset
    if proof.length ≠ 96 ∧ proof.length ≠ 99 then false
    else
      match LinkProofView.parse proof with
      | .error _ => false
      | .ok parsed =>
          if parsed.signalling.mode ≠ link.requestedMode ∨
              exceedsCeiling parsed.signalling link.acceptedMtuCeiling = true ∨
              s.linkCapable link.receivingInterface = false ∨
              s.linkCapable link.outboundInterface = false then false
          else
            match link.destinationEd25519 with
            | none => false
            | some destinationEd25519 =>
                let trailer := if proof.length = 99 then (proof.drop 96).take 3 else []
                let signed := header.destinationHash.toList ++ (proof.drop 64).take 32 ++
                  destinationEd25519.toList ++ trailer
                verifySignature destinationEd25519 signed (Bytes.slice 64 proof 0)

/-- What follows once the link proof is known to be valid and new. -/
def returnLrproof (s : LiteNode K m) (raw : List UInt8) (header : PacketHeader) (rx : RxMeta)
    (link : LinkEntry) (nowMs : Nat) : Handled K m :=
  match PacketBuffer.fromSlice raw with
  | .error e => (s, .error (.buffer e))
  | .ok buffer =>
      match s.enqueueForwarded rx.interfaceId link.receivingInterface
          (buffer.copyWithHops header.hops) .proofReturn with
      | (s, false) => (s, .ok .dropped)
      | (s, true) =>
          let s := (s.recordHash (packetHash raw header.flags.headerType) nowMs).1
          let expiresMs := satAdd nowMs linkTimeoutMs
          ({ s with links := s.links.markValidated header.destinationHash expiresMs nowMs },
            .ok .forwardedProof)

def handleLrproof (s : LiteNode K m) (raw : List UInt8) (header : PacketHeader) (rx : RxMeta)
    (link : LinkEntry) (nowMs : Nat) : Handled K m :=
  if s.validateTransitLrproof raw header link = false then (s, .ok .dropped)
  else
    let held := s.packetHashes.contains (packetHash raw header.flags.headerType) nowMs
    let s := { s with packetHashes := held.1 }
    if held.2 then (s.countDuplicate, .ok .duplicate)
    else s.returnLrproof raw header rx link nowMs

/-- Return a proof the way its packet came. The way back is used up, unless the proof could not be
queued. -/
def returnProof (s : LiteNode K m) (raw : List UInt8) (header : PacketHeader) (rx : RxMeta)
    (nowMs : Nat) : Handled K m :=
  match s.reverse.takeWithGeneration header.destinationHash nowMs with
  | (table, none) => ({ s with reverse := table }, .ok .dropped)
  | (table, some (reverse, generation)) =>
      let s := { s with reverse := table }
      match PacketBuffer.fromSlice raw with
      | .error e => (s, .error (.buffer e))
      | .ok buffer =>
          let packet := buffer.copyWithHops header.hops
          let lifetime := { s.packetLifetime packet .proofReturn with
            expiresMs := min reverse.expiresMs (satAdd nowMs outboundMaxAgeMs) }
          match s.enqueueForwardedWithLifetime rx.interfaceId reverse.receivingInterface packet
              .proofReturn lifetime with
          | (s, false) =>
              ({ s with reverse := s.reverse.restoreConsumed reverse generation }, .ok .dropped)
          | (s, true) => (s, .ok .forwardedProof)

def handleProof (s : LiteNode K m) (raw : List UInt8) (header : PacketHeader) (rx : RxMeta)
    (nowMs : Nat) : Handled K m :=
  if header.context = .lrproof then
    match (s.links.get header.destinationHash nowMs).filter fun link =>
        decide (link.outboundInterface = rx.interfaceId) &&
          decide (link.remainingHops = header.hops) with
    | some link => s.handleLrproof raw header rx link nowMs
    | none => (s.countDropped, .ok .dropped)
  else
    match s.routeLinkPacket raw header rx nowMs .proofReturn with
    | (s, .error e) => (s, .error e)
    | (s, .ok true) => (s, .ok .forwardedProof)
    | (s, .ok false) =>
        if (s.reverse.get header.destinationHash nowMs).any fun reverse =>
            reverse.outboundInterface = rx.interfaceId then
          s.returnProof raw header rx nowMs
        else (s, .ok .dropped)

/-! ### Plain broadcasts -/

/-- Broadcasts cross between local clients and the network: from a client to every interface, from
elsewhere to clients alone. -/
def bridgePlainBroadcast (s : LiteNode K m) (raw : List UInt8) (header : PacketHeader)
    (source : InterfaceId) : Handled K m :=
  if m = .endpoint then (s, .ok .dropped)
  else
    match PacketBuffer.fromSlice raw with
    | .error e => (s, .error (.buffer e))
    | .ok buffer =>
        let localOnly := !s.isLocalClientInterface source
        let sent := s.enqueuePacketBroadcast source (buffer.copyWithHops header.hops)
          .transportForward localOnly
        (sent.1, .ok (if sent.2 > 0 then .forwardedTransport else .dropped))

end LiteNode

end ReticulumLite
