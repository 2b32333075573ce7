import ReticulumLite.Node.Queue

/-!
# Announces and path requests

The handlers through which a node learns routes, passes announces on and answers or forwards path
requests. A handler returns the state it leaves together with its answer, since an error does not
undo what was done before it.
-/

namespace ReticulumLite

open Bounded

abbrev pathfinderM : UInt8 := 128
abbrev pathfinderR : UInt8 := 1
abbrev pathfinderGMs : Nat := 5000
abbrev localRebroadcastsMax : UInt8 := 2
abbrev queuedAnnounceLifeMs : Nat := 86400000
abbrev defaultAnnounceJitterMs : Nat := 500

/-- The text `rnstransport.path.request`. -/
def pathRequestName : List UInt8 :=
  [0x72, 0x6e, 0x73, 0x74, 0x72, 0x61, 0x6e, 0x73, 0x70, 0x6f, 0x72, 0x74, 0x2e, 0x70, 0x61, 0x74,
   0x68, 0x2e, 0x72, 0x65, 0x71, 0x75, 0x65, 0x73, 0x74]

def pathRequestDestination [Crypto] : Hash16 := destinationHashFromName pathRequestName none

/-- Distinct per node and per retry, so that neighbouring relays do not collide again and again. -/
def announceJitterMs (packetHash : Hash32) (transportId : Hash16) (round : UInt8) : Nat :=
  let i := (min round pathfinderR).toNat * 2
  beNat [byteAt packetHash.toList i ^^^ byteAt transportId.toList i,
    byteAt packetHash.toList (i + 1) ^^^ byteAt transportId.toList (i + 1)] %
    defaultAnnounceJitterMs

def modeDiscoversUnknownPaths : InterfaceMode → Bool
  | .accessPoint | .gateway | .roaming | .internal => true
  | _ => false

def announcePathExpirySecs : InterfaceMode → Nat
  | .accessPoint => 86400
  | .roaming => 21600
  | .full | .pointToPoint | .internal | .gateway | .boundary => 604800

abbrev Handled (K : Capacities) (m : Model) := LiteNode K m × Except TransportError IngestAction

namespace LiteNode

variable {K : Capacities} {m : Model}

/-! ### Packets this node composes -/

def transportAnnounceFromRaw (s : LiteNode K m) (cachedRaw : List UInt8) (destinationHash : Hash16)
    (hops : UInt8) (context : PacketContext) : Except TransportError (PacketBuffer mtu) := do
  let cached ← (PacketView.parse cachedRaw).mapError .wire
  let header : PacketHeader :=
    { flags := { headerType := .header2, contextFlag := cached.header.flags.contextFlag,
                 transportType := .transport, destinationType := .single, packetType := .announce }
      hops
      transportId := some s.transportId
      destinationHash
      context }
  (buildPacket header cached.payload).mapError .wire

def pathResponseFromCachedAnnounce (s : LiteNode K m) (cachedRaw : List UInt8)
    (destinationHash : Hash16) (hops : UInt8) : Except TransportError (PacketBuffer mtu) :=
  s.transportAnnounceFromRaw cachedRaw destinationHash hops .pathResponse

section

variable [Crypto]

/-- At most 48 bytes of payload, which every buffer has room for. -/
def buildPathRequest (s : LiteNode K m) (destinationHash : Hash16) (tag : List UInt8) :
    Except TransportError (PacketBuffer mtu) :=
  let payload := destinationHash.toList ++
    (if s.config.transportEnabled then s.transportId.toList else []) ++
    (Bytes.slice 16 tag 0).toList
  let header : PacketHeader :=
    { flags := { headerType := .header1, contextFlag := false, transportType := .broadcast,
                 destinationType := .plain, packetType := .data }
      hops := 0
      transportId := none
      destinationHash := pathRequestDestination
      context := .none }
  (buildPacket header payload).mapError .wire

/-! ### Finishing a discovery -/

/-- Answer the requester in one slot, unless the announce came from there. -/
def answerRequester (response : PacketBuffer mtu) (requestersMask : BitVec 8) (rx : RxMeta)
    (s : LiteNode K m) (slot : Fin requesters) : LiteNode K m :=
  let target := s.interfaces.facts slot
  if requestersMask.getLsbD slot.val = true ∧ target.outbound = true ∧
      (target.id ≠ rx.interfaceId ∨ (target.localClient = false ∧ target.mode ≠ .roaming)) then
    (s.enqueue target.id response .pathResponse).1
  else s

def finishDiscovery (s : LiteNode K m) (raw : List UInt8) (header : PacketHeader) (rx : RxMeta)
    (nowMs : Nat) : LiteNode K m :=
  if s.config.transportEnabled = false then s
  else
    let taken := s.discoveries.take header.destinationHash nowMs
    let s := { s with discoveries := taken.1 }
    match taken.2 with
    | none => s
    | some owner =>
        match s.pathResponseFromCachedAnnounce raw header.destinationHash header.hops with
        | .error _ => s.count fun t =>
            { t with outboundDropped := satAdd t.outboundDropped (popcount owner.requesters) }
        | .ok response => requesterSlots.foldl (answerRequester response owner.requesters rx) s

/-! ### Announces -/

/-- The announce in a packet, once it is known to speak for its destination. -/
def validateAnnounce (s : LiteNode K m) (view : PacketView) (destinationHash : Hash16) :
    Except TransportError AnnounceView := do
  let announce ← (AnnounceView.parse view.payload view.header.flags.contextFlag
    s.config.maxAnnounceAppData).mapError .announce
  let knownPublicKey :=
    (s.knownDestinations.peek destinationHash).or (s.paths.knownPublicKey destinationHash)
  let _ ← (announce.validate destinationHash knownPublicKey signedDataMax).mapError .announce
  return announce

/-- Every validated delivery announce is remembered, also one that does not change the route. -/
def rememberDelivery (s : LiteNode K m) (destinationHash : Hash16) (announce : AnnounceView)
    (nowMs : Nat) : Except TransportError (LiteNode K m) :=
  if K.knownDestinations ≠ 0 ∧ announce.nameHash = nameHash lxmfDeliveryName then
    match s.knownDestinations.learn destinationHash announce.publicKey nowMs with
    | .error e => .error (.knownDestination e)
    | .ok learned => .ok { s with knownDestinations := learned.1 }
  else .ok s

/-- A neighbour that carries our rebroadcast makes our retry needless: a copy at the same hops is
counted, a copy one hop further settles it while the retry is not yet due. -/
def cancelRebroadcast (s : LiteNode K m) (destinationHash : Hash16) (wireHops : UInt8)
    (nowMs : Nat) : LiteNode K m :=
  match s.announceSchedule.find fun e => decide (e.destinationHash = destinationHash) with
  | none => s
  | some entry =>
      if entry.retries > 0 then
        if wireHops = entry.hops then
          let counted := s.announceSchedule.modify destinationHash fun e =>
            { e with localRebroadcasts := satSucc8 e.localRebroadcasts }
          if satSucc8 entry.localRebroadcasts ≥ localRebroadcastsMax then
            { s with announceSchedule := AnnounceSchedule.remove counted destinationHash }
          else { s with announceSchedule := counted }
        else if wireHops = satSucc8 entry.hops ∧ nowMs < entry.dueMs then
          { s with announceSchedule := s.announceSchedule.remove destinationHash }
        else s
      else s

/-- A route that is merely overheard in bulk: its interface says so and nobody here asked for it. -/
def bulkAnnounce (s : LiteNode K m) (destinationHash : Hash16) (interfaceId : InterfaceId)
    (nowMs : Nat) : Bool :=
  ((s.router?.bind (·.interface interfaceId)).any (·.bulkPaths)) &&
    !s.discoveries.entries.toList.any fun entry =>
      decide (entry.identity ≠ 0) && decide (entry.requesters ≠ 0) &&
        decide (entry.destination = destinationHash) && decide (nowMs < entry.expiresMs)

def announcedPath (s : LiteNode K m) (raw : List UInt8) (view : PacketView) (header : PacketHeader)
    (rx : RxMeta) (announce : AnnounceView) (nowMs : Nat) : PathEntry where
  destinationHash := header.destinationHash
  nextHop := view.header.transportId
  hops := header.hops
  interfaceId := rx.interfaceId
  expiresMs := satAdd nowMs (announcePathExpirySecs (rx.interfaceMode.getD s.config.mode) * 1000)
  lastSeenMs := nowMs
  packetHash := packetHash raw view.header.flags.headerType
  randomHash := announce.randomHash
  publicKey := announce.publicKey
  bulk := s.bulkAnnounce header.destinationHash rx.interfaceId nowMs

/-- Schedule the rebroadcast of an announce that changed the route. One that no longer fits a packet
with its second header is not passed on. -/
def scheduleRebroadcast (s : LiteNode K m) (raw : List UInt8) (header : PacketHeader) (rx : RxMeta)
    (packetHash : Hash32) (nowMs : Nat) : Handled K m :=
  if s.config.transportEnabled = true ∧ header.context ≠ .pathResponse then
    match s.transportAnnounceFromRaw raw header.destinationHash header.hops .none with
    | .error _ => (s, .ok .learnedAnnounce)
    | .ok packet =>
        let entry : ScheduledAnnounce :=
          { destinationHash := header.destinationHash
            packet
            interfaceId := rx.interfaceId
            dueMs := satAdd nowMs (announceJitterMs packetHash s.transportId 0)
            expiresMs := satAdd nowMs queuedAnnounceLifeMs
            blockRebroadcast := false
            hops := header.hops
            retries := 0
            localRebroadcasts := 0
            pendingTargets := 0 }
        ({ s with announceSchedule := s.announceSchedule.insert entry nowMs },
          .ok .scheduledAnnounce)
  else (s, .ok .learnedAnnounce)

def cacheAnnounce (s : LiteNode K m) (raw : PacketBuffer mtu) (path : PathEntry) (nowMs : Nat) :
    LiteNode K m :=
  let cached : CachedAnnounce :=
    { destinationHash := path.destinationHash, raw, hops := path.hops,
      expiresMs := path.expiresMs, bulk := path.bulk }
  let retained := s.announceCache.retainPaths s.paths nowMs
  { s with announceCache := AnnounceCache.insert retained cached nowMs }

def countBulk (s : LiteNode K m) (learned : Bool) : LiteNode K m :=
  s.countRouter fun t =>
    if learned then { t with bulkPathsLearned := bump t.bulkPathsLearned }
    else { t with bulkPathsRefused := bump t.bulkPathsRefused }

/-- Enter a route; the answer says whether it was taken. -/
def learnPath (s : LiteNode K m) (path : PathEntry) (nowMs : Nat) : LiteNode K m × Bool :=
  let newDestination := (s.paths.getLive path.destinationHash nowMs).isNone
  let updated := s.paths.insertOrUpdate path nowMs
  let s := { s with paths := updated.1 }
  (if path.bulk && newDestination then s.countBulk updated.2 else s, updated.2)

/-- What follows from a route that was taken: its announce is cached, whoever searched for it is
answered, and the announce is passed on. -/
def followPath (s : LiteNode K m) (raw : List UInt8) (header : PacketHeader) (rx : RxMeta)
    (path : PathEntry) (nowMs : Nat) : Handled K m :=
  let s := s.count fun t => { t with learnedAnnounces := bump t.learnedAnnounces }
  match PacketBuffer.fromSlice raw with
  | .error e =>
      ({ s with announceCache := s.announceCache.retainPaths s.paths nowMs }, .error (.buffer e))
  | .ok buffer =>
      let s := s.cacheAnnounce buffer path nowMs
      let s := s.finishDiscovery raw header rx nowMs
      s.scheduleRebroadcast raw header rx path.packetHash nowMs

def learnAnnounce (s : LiteNode K m) (raw : List UInt8) (view : PacketView) (header : PacketHeader)
    (rx : RxMeta) (announce : AnnounceView) (nowMs : Nat) : Handled K m :=
  let path := s.announcedPath raw view header rx announce nowMs
  let learned := s.learnPath path nowMs
  if learned.2 then learned.1.followPath raw header rx path nowMs
  else (learned.1, .ok .announceIgnored)

/-- An announce that the limiter let through: it must be valid and not too far away. -/
def acceptAnnounce (s : LiteNode K m) (raw : List UInt8) (view : PacketView) (header : PacketHeader)
    (rx : RxMeta) (nowMs : Nat) : Handled K m :=
  match s.validateAnnounce view header.destinationHash with
  | .error e => (s, .error e)
  | .ok announce =>
      match s.rememberDelivery header.destinationHash announce nowMs with
      | .error e => (s, .error e)
      | .ok s =>
          if header.hops ≥ pathfinderM then (s.countDropped, .ok .dropped)
          else
            let s := if s.config.transportEnabled then
              s.cancelRebroadcast header.destinationHash view.header.hops nowMs else s
            s.learnAnnounce raw view header rx announce nowMs

def handleAnnounce (s : LiteNode K m) (raw : List UInt8) (view : PacketView) (header : PacketHeader)
    (rx : RxMeta) (nowMs : Nat) : Handled K m :=
  if s.isOwnDestination header.destinationHash then (s.countDropped, .ok .dropped)
  else
    let admission := s.announceAdmission.admitAnnounce s.config.announceAdmission
      (decide (header.context = .pathResponse)) nowMs
    let s := { s with announceAdmission := admission.1 }
    if admission.2 then s.acceptAnnounce raw view header rx nowMs
    else
      ((s.count fun t => { t with announcesRateDropped := bump t.announcesRateDropped }).countDropped,
        .ok .dropped)

/-! ### Path requests -/

structure PathRequest where
  requested : Hash16
  requestorTransportId : Option Hash16
  tag : List UInt8

/-- A request names a destination, then perhaps the asking transport node, then a tag. -/
def PathRequest.parse (payload : List UInt8) : Option PathRequest :=
  if payload.length ≤ 16 then none
  else
    let tag := if payload.length > 32 then (payload.drop 32).take 16 else (payload.drop 16).take 16
    if tag.isEmpty then none
    else some {
      requested := Bytes.slice 16 payload 0
      requestorTransportId := if payload.length > 32 then some (Bytes.slice 16 payload 16) else none
      tag }

def PathRequest.tagKey (r : PathRequest) : Hash32 := Bytes.slice 32 (r.requested.toList ++ r.tag) 0

/-- Answer a request from what is known, where the route does not lead back to who asked. No answer
leaves the request to the ordinary discovery rules. -/
def answerFromPath (s : LiteNode K m) (request : PathRequest) (mode : InterfaceMode)
    (interfaceId : InterfaceId) (nowMs : Nat) : Option (Handled K m) :=
  match s.paths.getLive request.requested nowMs with
  | none => none
  | some path =>
      if request.requestorTransportId.any fun requestor => path.nextHop = some requestor then
        some (s, .ok .dropped)
      else if mode = .roaming ∧ path.interfaceId = interfaceId then some (s, .ok .dropped)
      else if s.config.transportEnabled = false then none
      else
        match s.announceCache.get request.requested nowMs with
        | none => none
        | some cached =>
            match s.pathResponseFromCachedAnnounce cached.raw.bytes request.requested cached.hops with
            | .error e => some (s, .error e)
            | .ok response =>
                let sent := s.enqueue interfaceId response .pathResponse
                some (sent.1, .ok (if sent.2 then .answeredPathRequest else .dropped))

/-- Pass a request on to the other interfaces, or to local clients alone. -/
def forwardPathRequest (s : LiteNode K m) (request : PathRequest) (interfaceId : InterfaceId)
    (localOnly : Bool) : Handled K m :=
  match s.buildPathRequest request.requested request.tag with
  | .error e => (s, .error e)
  | .ok packet =>
      let sent := s.enqueuePacketBroadcast interfaceId packet .pathRequestForward localOnly
      (sent.1, .ok (if sent.2 > 0 then .forwardedPathRequest else .dropped))

def discoveryLifetime (s : LiteNode K m) (identity nowMs : Nat) : OutboundLifetime where
  enqueuedMs := nowMs
  expiresMs := min (satAdd nowMs requestGateMs) ((s.discoveries.deadline identity).getD nowMs)
  path := 0
  state := .discovery identity

/-- Search for an unknown destination on behalf of the interface in a slot. -/
def discoverPath (s : LiteNode K m) (request : PathRequest) (interfaceId : InterfaceId)
    (slot : Fin requesters) (nowMs : Nat) : Handled K m :=
  let timeout := discoveryTimeout (s.slowestOutboundBitrate interfaceId)
  let begun := s.discoveries.begin request.requested slot nowMs timeout
  let s := { s with discoveries := begun.1 }
  match begun.2 with
  | .joined => (s, .ok .accepted)
  | .refused => (s.countDropped, .ok .dropped)
  | .new identity =>
      match s.buildPathRequest request.requested request.tag with
      | .error e => (s, .error e)
      | .ok packet =>
          let sent := s.enqueuePacketBroadcastWithLifetime interfaceId packet .pathRequestForward
            false (s.discoveryLifetime identity nowMs)
          (sent.1, .ok (if sent.2 = 0 then .dropped else .forwardedPathRequest))

/-- A request that this node cannot answer itself. -/
def relayPathRequest (s : LiteNode K m) (request : PathRequest) (mode : InterfaceMode)
    (interfaceId : InterfaceId) (nowMs : Nat) : Handled K m :=
  if m = .router ∧ s.isLocalClientInterface interfaceId = true then
    s.forwardPathRequest request interfaceId false
  else if s.config.transportEnabled = true ∧ modeDiscoversUnknownPaths mode = true then
    match (s.interfaceSlot interfaceId).filter fun slot => (s.interfaces.facts slot).outbound with
    | none => (s, .ok .dropped)
    | some slot => s.discoverPath request interfaceId slot nowMs
  else if m = .router then s.forwardPathRequest request interfaceId true
  else (s, .ok .dropped)

def handlePathRequest (s : LiteNode K m) (payload : List UInt8) (rx : RxMeta) (nowMs : Nat) :
    Handled K m :=
  let mode := rx.interfaceMode.getD s.config.mode
  match PathRequest.parse payload with
  | none => (s.countDropped, .ok .dropped)
  | some request =>
      let tags := s.requestTags.insertIfNew request.tagKey
        (satAdd nowMs pathRequestDuplicateGateMs) nowMs
      let s := { s with requestTags := tags.1 }
      if tags.2 = false then (s.countDuplicate, .ok .duplicate)
      else if s.isOwnDestination request.requested then (s, .ok .localEndpoint)
      else (s.answerFromPath request mode rx.interfaceId nowMs).getD
        (s.relayPathRequest request mode rx.interfaceId nowMs)

end

end LiteNode

end ReticulumLite
