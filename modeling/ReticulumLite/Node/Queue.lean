import ReticulumLite.Node.State

/-!
# Lifetimes and the outbound queue

Every frame a node sends passes through `enqueueWithLifetime`. On a router it is refused unless its
target is registered, online and outbound; it then takes a place in the target's quota, giving up a
frame of that target if the quota is full.
-/

namespace ReticulumLite

open Bounded

abbrev linkTimeoutMs : Nat := 900000
abbrev reverseTimeoutMs : Nat := 480000
abbrev pathRequestDuplicateGateMs : Nat := 120000

def requesterSlots : List (Fin requesters) := List.finRange requesters

namespace LiteNode

variable {K : Capacities} {m : Model}

/-! ### Lifetimes -/

def stateIsLive (s : LiteNode K m) (interfaceId : InterfaceId) (state : OutboundState)
    (nowMs : Nat) : Bool :=
  match state with
  | .independent => true
  | .discovery identity => s.config.transportEnabled && s.discoveries.live identity nowMs
  | .reverse generation => (s.reverse.getGeneration generation nowMs).any fun entry =>
      decide (entry.outboundInterface = interfaceId) &&
        s.outboundInterfaceOnline entry.receivingInterface
  | .link generation => (s.links.getGeneration generation nowMs).any fun entry =>
      (decide (entry.outboundInterface = interfaceId) ||
        decide (entry.receivingInterface = interfaceId)) &&
        s.outboundInterfaceOnline entry.outboundInterface &&
        s.outboundInterfaceOnline entry.receivingInterface

def outboundLifetimeIsLive (s : LiteNode K m) (interfaceId : InterfaceId)
    (lifetime : OutboundLifetime) (nowMs : Nat) : Bool :=
  if nowMs < lifetime.enqueuedMs ∨ nowMs ≥ lifetime.expiresMs ∨
      s.outboundInterfaceOnline interfaceId = false then false
  else if lifetime.path ≠ 0 ∧ ((s.paths.getGeneration lifetime.path nowMs).any fun path =>
      s.outboundInterfaceOnline path.interfaceId) = false then false
  else s.stateIsLive interfaceId lifetime.state nowMs

/-- The ordinary residence limit, depending on nothing. -/
def independentLifetime (nowMs : Nat) : OutboundLifetime where
  enqueuedMs := nowMs
  expiresMs := satAdd nowMs outboundMaxAgeMs
  path := 0
  state := .independent

def localOutboundLifetime (s : LiteNode K m) (packet : List UInt8) (nowMs : Nat) :
    Except TransportError OutboundLifetime := do
  let view ← (PacketView.parse packet).mapError .wire
  let lifetime := independentLifetime nowMs
  if view.header.flags.destinationType = .single then
    match s.paths.getLive view.header.destinationHash nowMs with
    | some path => return { lifetime with
        path := (s.paths.generation path.destinationHash nowMs).getD 0
        expiresMs := min lifetime.expiresMs path.expiresMs }
    | none => return lifetime
  else return lifetime

/-- A frame that goes along a route waits no longer than the route, and no longer than what the
frame will establish: a link, or a way back for its proof. -/
def routeLifetime (s : LiteNode K m) (lifetime : OutboundLifetime) (header : PacketHeader)
    (path : PathEntry) : OutboundLifetime :=
  let nowMs := s.clockMs
  let lifetime := { lifetime with
    path := (s.paths.generation path.destinationHash nowMs).getD 0
    expiresMs := min lifetime.expiresMs path.expiresMs }
  match header.flags.packetType with
  | .linkRequest => { lifetime with
      state := .link 0
      expiresMs := min lifetime.expiresMs
        (linkDeadline nowMs path.hops (s.interfaceBitrate path.interfaceId)) }
  | .data => { lifetime with
      state := .reverse 0
      expiresMs := min lifetime.expiresMs (satAdd nowMs reverseTimeoutMs) }
  | _ => lifetime

/-- A frame of a link waits no longer than the link, read as this frame will have renewed it. -/
def linkLifetime (s : LiteNode K m) (lifetime : OutboundLifetime) (header : PacketHeader) :
    OutboundLifetime :=
  let nowMs := s.clockMs
  let lifetime := { lifetime with
    state := .link ((s.links.generation header.destinationHash nowMs).getD 0) }
  match s.links.get header.destinationHash nowMs with
  | none => lifetime
  | some link =>
      let deadline := if link.validated || decide (header.context = .lrproof) then
        satAdd nowMs linkTimeoutMs else link.expiresMs
      { lifetime with expiresMs := min lifetime.expiresMs deadline }

def packetLifetime (s : LiteNode K m) (packet : PacketBuffer mtu) (reason : OutboundReason) :
    OutboundLifetime :=
  let nowMs := s.clockMs
  let lifetime := independentLifetime nowMs
  match PacketView.parse packet.bytes with
  | .error _ => lifetime
  | .ok view =>
      let header := view.header
      let pathDependent := decide (header.flags.packetType = .announce) ||
        (decide (header.flags.destinationType = .single) && decide (reason = .transportForward))
      let lifetime :=
        match (s.paths.getLive header.destinationHash nowMs).filter fun _ => pathDependent with
        | some path => s.routeLifetime lifetime header path
        | none => lifetime
      if header.flags.destinationType = .link ∨ header.context = .lrproof then
        s.linkLifetime lifetime header
      else lifetime

/-! ### Expiry -/

def recordExpiredOutbound (s : LiteNode K m) : LiteNode K m :=
  s.count fun t =>
    { t with outboundExpired := bump t.outboundExpired, outboundDropped := bump t.outboundDropped }

def staleFrame (s : LiteNode K m) (nowMs : Nat) (queued : QueuedOutbound m) : Bool :=
  !s.outboundLifetimeIsLive queued.frame.interfaceId queued.frame.lifetime nowMs ||
    !s.interfaces.deliveryIsCurrent queued.frame.interfaceId queued.delivery

/-- Remove frames one at a time, counting each. A round removes a frame, so the queue length bounds
the rounds. -/
def removeFramesLoop (removed : LiteNode K m → QueuedOutbound m → Bool)
    (record : LiteNode K m → LiteNode K m) : Nat → LiteNode K m → LiteNode K m
  | 0, s => s
  | rounds + 1, s =>
      match s.outbound.toList.findIdx? (removed s) with
      | none => s
      | some offset =>
          removeFramesLoop removed record rounds
            (record { s with outbound := (s.outbound.remove offset).2 })

def removeFrames (s : LiteNode K m) (removed : LiteNode K m → QueuedOutbound m → Bool)
    (record : LiteNode K m → LiteNode K m) : LiteNode K m :=
  removeFramesLoop removed record s.outbound.len s

def expireOutbound (s : LiteNode K m) (nowMs : Nat) : LiteNode K m :=
  s.removeFrames (fun s => s.staleFrame nowMs) recordExpiredOutbound

/-! ### Places in the queue -/

/-- A router keeps each interface to its own quota. An interface at its quota gives up its oldest
rebroadcast or, for a frame that is no rebroadcast itself, its oldest frame. -/
def reserveRouterQueue (s : LiteNode K m) (id : InterfaceId) (reason : OutboundReason) :
    LiteNode K m × Bool :=
  match s.router? with
  | none => (s, true)
  | some router =>
      match router.interface id with
      | none => (s, false)
      | some interface =>
          if !interface.online || !interface.direction.outbound then (s, false)
          else
            let queued := s.outbound.toList
            if queued.countP (fun q => q.frame.interfaceId = id) ≥ interface.txQueueDepth then
              let offset :=
                (queued.findIdx? fun q =>
                  decide (q.frame.interfaceId = id) && q.frame.reason.gated).or
                (if reason.gated then none
                 else queued.findIdx? fun q => decide (q.frame.interfaceId = id))
              match offset with
              | none => (s, false)
              | some offset =>
                  ({ s with outbound := (s.outbound.remove offset).2 }.countOutboundDropped, true)
            else if s.outbound.len ≥ min s.config.tableCaps.txQueueDepth K.outbound then (s, false)
            else (s, true)

/-- The bytes that go on the wire, tagged where the interface has an access code. -/
def wireFrame [Crypto] (s : LiteNode K m) (interfaceId : InterfaceId) (packet : PacketBuffer mtu) :
    Option (PacketBuffer wireMtuMax) :=
  match s.interfaces.ifac interfaceId s.config with
  | some ifac => (ifacSignInto packet.bytes ifac.key ifac.size).toOption
  | none => (PacketBuffer.fromSlice packet.bytes).toOption

/-- Put a frame at the end of the queue under the next delivery identity. -/
def pushFrame (s : LiteNode K m) (frame : OutboundFrame) (identity : Nat) : LiteNode K m :=
  let pushed := s.outbound.pushDropOldest
    { frame, delivery := s.interfaces.delivery identity frame.interfaceId }
  let s := { s with lastDeliveryIdentity := identity, outbound := pushed.2 }
  let s := if pushed.1 then s.countOutboundDropped else s
  s.count fun t => { t with queuedOutbound := bump t.queuedOutbound }

section

variable [Crypto]

def enqueueWithLifetime (s : LiteNode K m) (interfaceId : InterfaceId) (packet : PacketBuffer mtu)
    (reason : OutboundReason) (lifetime : OutboundLifetime) : LiteNode K m × Bool :=
  if s.router?.isSome ∧ s.outboundInterfaceOnline interfaceId = false then
    ((s.countRouter fun t => { t with interfaceDropped := bump t.interfaceDropped }).countDropped,
      false)
  else if packet.len > s.interfaceClearMtu interfaceId then
    let s := s.countOutboundDropped
    if s.router?.isSome then
      ((s.countRouter fun t => { t with mtuDropped := bump t.mtuDropped }).countDropped, false)
    else (s, false)
  else
    match s.wireFrame interfaceId packet with
    | none => (s.countOutboundDropped.countDropped, false)
    | some wire =>
        match checkedSucc s.lastDeliveryIdentity with
        | none => (s.countOutboundDropped, false)
        | some identity =>
            match s.reserveRouterQueue interfaceId reason with
            | (s, false) =>
                let s := s.countOutboundDropped
                if m = .router then (s.countDropped, false) else (s, false)
            | (s, true) =>
                (s.pushFrame { interfaceId, packet := wire, reason, lifetime } identity, true)

def enqueue (s : LiteNode K m) (interfaceId : InterfaceId) (packet : PacketBuffer mtu)
    (reason : OutboundReason) : LiteNode K m × Bool :=
  s.enqueueWithLifetime interfaceId packet reason (s.packetLifetime packet reason)

/-- Forwarding obeys the target's direction: back where it came from only if it repeats, elsewhere
only if it forwards. -/
def enqueueForwardedWithLifetime (s : LiteNode K m) (source target : InterfaceId)
    (packet : PacketBuffer mtu) (reason : OutboundReason) (lifetime : OutboundLifetime) :
    LiteNode K m × Bool :=
  match s.router? with
  | none => s.enqueueWithLifetime target packet reason lifetime
  | some router =>
      match router.interface target with
      | none =>
          (s.countRouter fun t => { t with interfaceDropped := bump t.interfaceDropped }, false)
      | some interface =>
          if source = target ∧ interface.direction.repeating = false then
            (s.countRouter fun t => { t with reflectionDropped := bump t.reflectionDropped }, false)
          else if source ≠ target ∧ interface.direction.forward = false then
            (s.countRouter fun t => { t with interfaceDropped := bump t.interfaceDropped }, false)
          else s.enqueueWithLifetime target packet reason lifetime

def enqueueForwarded (s : LiteNode K m) (source target : InterfaceId) (packet : PacketBuffer mtu)
    (reason : OutboundReason) : LiteNode K m × Bool :=
  s.enqueueForwardedWithLifetime source target packet reason (s.packetLifetime packet reason)

def broadcastToSlot (source : InterfaceId) (packet : PacketBuffer mtu) (reason : OutboundReason)
    (localOnly : Bool) (lifetime : OutboundLifetime) (s : LiteNode K m × Nat)
    (slot : Fin requesters) : LiteNode K m × Nat :=
  match s.1.router?.bind fun r => r.registry.get slot with
  | none => s
  | some target =>
      if localOnly = false ∨ target.role = .localClient then
        let sent := s.1.enqueueForwardedWithLifetime source target.id packet reason lifetime
        (sent.1, s.2 + sent.2.toNat)
      else s

/-- Send to every registered interface, or to local clients alone; an endpoint leaves the fan-out to
its host. The answer is how many frames were queued. -/
def enqueuePacketBroadcastWithLifetime (s : LiteNode K m) (source : InterfaceId)
    (packet : PacketBuffer mtu) (reason : OutboundReason) (localOnly : Bool)
    (lifetime : OutboundLifetime) : LiteNode K m × Nat :=
  if m = .endpoint then
    let sent := s.enqueueWithLifetime source packet reason lifetime
    (sent.1, sent.2.toNat)
  else requesterSlots.foldl (broadcastToSlot source packet reason localOnly lifetime) (s, 0)

def enqueuePacketBroadcast (s : LiteNode K m) (source : InterfaceId) (packet : PacketBuffer mtu)
    (reason : OutboundReason) (localOnly : Bool) : LiteNode K m × Nat :=
  let lifetime := s.packetLifetime packet reason
  let lifetime := if reason = .pathRequestForward then
    { lifetime with expiresMs := min lifetime.expiresMs (satAdd s.clockMs requestGateMs) }
    else lifetime
  s.enqueuePacketBroadcastWithLifetime source packet reason localOnly lifetime

end

def egressError (s : LiteNode K m) (id : InterfaceId) (packetLen : Nat) : TransportError :=
  let refusal := if packetLen > s.interfaceClearMtu id then .mtuExceeded else .backpressure
  match s.router? with
  | none => refusal
  | some router =>
      match router.interface id with
      | none => .unknownInterface
      | some interface =>
          if interface.online = false then .interfaceOffline
          else if interface.direction.outbound = false then .interfaceNotOutbound
          else refusal

end LiteNode

end ReticulumLite
