import ReticulumLite.Node.Ingest

/-!
# Tick

A tick advances the clock, expires every table, and sends what is due. On an endpoint a due announce
is queued at once. On a router it becomes owed to every interface that may carry it, and each is
released at most one announce a tick, when its gate is open and it has none queued.
-/

namespace ReticulumLite

open Bounded

/-- Whether an announce heard on one interface may leave by another. -/
def announceEgressAllowed (source target : InterfaceConfig) : Bool :=
  if target.online = false ∨ target.direction.outbound = false then false
  else if source.id = target.id ∧ target.direction.repeating = false then false
  else if source.id ≠ target.id ∧ target.direction.forward = false then false
  else if target.role = .localClient then true
  else
    match target.mode with
    | .accessPoint => false
    | .internal => decide (source.mode ≠ .boundary)
    | .roaming => decide (source.mode ≠ .roaming) && decide (source.mode ≠ .boundary)
    | .boundary => decide (source.mode ≠ .roaming)
    | .full | .pointToPoint | .gateway => true

/-- The time an announce of a given length must leave free on an interface. -/
def announceSpacing (target : InterfaceConfig) (modem : Option LoraModemConfig) (wireLen : Nat) :
    Nat :=
  match target.role, modem with
  | .loRa, some modem => loraSpacingMs wireLen modem target.announceCapPermille
  | _, _ => (bitrateSpacingMs wireLen target.bitrateBps target.announceCapPermille).getD 0

namespace Router

def announceTargets (r : Router) (source : InterfaceId) : BitVec 8 :=
  match r.interface source with
  | none => 0
  | some source => maskOf fun slot =>
      (r.registry.get slot).any fun target => announceEgressAllowed source target

def chargeGate (r : Router) (slot : Fin requesters) (target : InterfaceConfig)
    (wireLen nowMs : Nat) : Router :=
  { r with
    stats := { r.stats with announcesReleased := satAdd r.stats.announcesReleased 1 }
    announceGates := r.announceGates.set slot
      (.charge nowMs (announceSpacing target r.loraModem wireLen)) }

end Router

namespace LiteNode

variable {K : Capacities} {m : Model}

def announceTargets (s : LiteNode K m) (source : InterfaceId) : BitVec 8 :=
  match s.router? with
  | none => 0
  | some router => router.announceTargets source

def chargeGate (s : LiteNode K m) (slot : Fin requesters) (target : InterfaceConfig)
    (wireLen nowMs : Nat) : LiteNode K m :=
  { s with interfaces := s.interfaces.mapRouter fun r => r.chargeGate slot target wireLen nowMs }

section

variable [Crypto]

/-- Whether the scheduled packet is still the announce behind the route. -/
def announceCurrent (s : LiteNode K m) (announce : ScheduledAnnounce) (nowMs : Nat) : Bool :=
  (s.paths.getLive announce.destinationHash nowMs).any fun path =>
    match PacketView.parse announce.packet.bytes with
    | .error _ => false
    | .ok view =>
        decide (packetHash announce.packet.bytes view.header.flags.headerType = path.packetHash)

/-! ### Due announces -/

/-- Send a due announce: on a router it becomes owed, elsewhere it is queued. -/
def sendDue (s : LiteNode K m) (announce : ScheduledAnnounce) (nowMs : Nat) :
    LiteNode K m × ScheduledAnnounce :=
  if announce.blockRebroadcast = false ∧ m = .router then
    let targets := s.announceTargets announce.interfaceId
    let expiresMs := if announce.pendingTargets &&& targets = 0 then
      satAdd nowMs queuedAnnounceLifeMs else announce.expiresMs
    (s, { announce with expiresMs, pendingTargets := announce.pendingTargets ||| targets })
  else
    let reason := if announce.blockRebroadcast then .pathResponse else .announceRebroadcast
    ((s.enqueue announce.interfaceId announce.packet reason).1, announce)

/-- Keep an announce for its retry, or for the interfaces it is still owed to. -/
def rescheduleDue (s : LiteNode K m) (announce : ScheduledAnnounce) (pathHash : Hash32)
    (nowMs : Nat) : LiteNode K m :=
  let announce := { announce with retries := satSucc8 announce.retries }
  if announce.blockRebroadcast = false ∧ announce.retries ≤ pathfinderR then
    let dueMs := satAdd (satAdd nowMs pathfinderGMs)
      (announceJitterMs pathHash s.transportId announce.retries)
    { s with announceSchedule := s.announceSchedule.insert { announce with dueMs } nowMs }
  else if announce.pendingTargets ≠ 0 then
    let dueMs := ScheduledAnnounce.pendingOnlyDue
    { s with announceSchedule := s.announceSchedule.insert { announce with dueMs } nowMs }
  else s

/-- One due announce. It is dropped if its route is gone or has moved on to another announce. -/
def processDue (s : LiteNode K m) (announce : ScheduledAnnounce) (nowMs : Nat) : LiteNode K m :=
  match s.paths.getLive announce.destinationHash nowMs with
  | none => s
  | some path =>
      if announce.blockRebroadcast = false ∧ s.announceCurrent announce nowMs = false then s
      else
        let sent := s.sendDue announce nowMs
        sent.1.rescheduleDue sent.2 path.packetHash nowMs

/-- Take due announces until there are none. No announce is put back due, so the size of the
schedule bounds the rounds. -/
def dueLoop (nowMs : Nat) : Nat → LiteNode K m → LiteNode K m
  | 0, s => s
  | rounds + 1, s =>
      match s.announceSchedule.popDue nowMs with
      | (schedule, none) => { s with announceSchedule := schedule }
      | (schedule, some announce) =>
          dueLoop nowMs rounds ({ s with announceSchedule := schedule }.processDue announce nowMs)

/-! ### Releases -/

/-- Release one owed announce on a slot; announces that are out of date are passed over, each at
most once. -/
def releaseLoop (slot : Fin requesters) (target : InterfaceConfig) (nowMs : Nat) :
    Nat → LiteNode K m → LiteNode K m
  | 0, s => s
  | rounds + 1, s =>
      match s.announceSchedule.releasePending slot nowMs with
      | (schedule, none) => { s with announceSchedule := schedule }
      | (schedule, some announce) =>
          let s := { s with announceSchedule := schedule }
          if s.announceCurrent announce nowMs = false then
            releaseLoop slot target nowMs rounds
              { s with announceSchedule := s.announceSchedule.remove announce.destinationHash }
          else
            let wireLen := announce.packet.len + ifacSize target.ifac
            match s.enqueueForwarded announce.interfaceId target.id announce.packet
                .announceRebroadcast with
            | (s, false) => s
            | (s, true) => s.chargeGate slot target wireLen nowMs

def rebroadcastQueued (s : LiteNode K m) (id : InterfaceId) : Bool :=
  s.outbound.toList.any fun q => decide (q.frame.interfaceId = id) && q.frame.reason.gated

def releaseSlot (nowMs : Nat) (s : LiteNode K m) (slot : Fin requesters) : LiteNode K m :=
  match s.router? with
  | none => s
  | some router =>
      match router.registry.get slot with
      | none => s
      | some target =>
          if (router.announceGates.get slot).isOpen nowMs = false ∨
              s.rebroadcastQueued target.id = true then s
          else releaseLoop slot target nowMs (K.scheduled + 1) s

def releaseGatedAnnounces (s : LiteNode K m) (nowMs : Nat) : LiteNode K m :=
  requesterSlots.foldl (releaseSlot nowMs) s

/-! ### The tick -/

def expireTables (s : LiteNode K m) (nowMs : Nat) : LiteNode K m :=
  let paths := s.paths.expire nowMs
  { s.refreshDiscoveries nowMs with
    packetHashes := s.packetHashes.expire nowMs
    paths
    announceCache := (s.announceCache.expire nowMs).retainPaths paths nowMs
    announceSchedule := s.announceSchedule.expire nowMs
    reverse := s.reverse.expire nowMs
    links := s.links.expire nowMs
    requestTags := s.requestTags.expire nowMs }

/-- A tick up to the release of announces. -/
def tickTables (s : LiteNode K m) (nowMs : Nat) : LiteNode K m :=
  dueLoop nowMs (K.scheduled + 1)
    (({ s with clockMs := nowMs }.expireTables nowMs).expireOutbound nowMs)

def tick (s : LiteNode K m) (nowMs : Nat) : LiteNode K m :=
  (s.tickTables nowMs).releaseGatedAnnounces nowMs

end

end LiteNode

end ReticulumLite
