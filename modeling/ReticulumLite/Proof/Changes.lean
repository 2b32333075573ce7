import ReticulumLite.Proof.LinkProofs
import ReticulumLite.Proof.Queue
import Mathlib.Logic.Relation

/-!
# What a node can do to itself

Every handler and every tick is a sequence of a few kinds of change, each under the conditions of
the code. `Change` lists them; the handlers are shown to be such sequences once, and each invariant
is a case analysis over the list. Most of what happens, expiry, counters and caches, is `Quiet`:
nothing comes into any table that was not there.
-/

namespace ReticulumLite

open Bounded

/-- A queued frame as an invariant sees it: on an endpoint, without what its host has still to do
for it. -/
def QueuedOutbound.key {m : Model} (q : QueuedOutbound m) : OutboundFrame × Option Nat :=
  (q.frame, match q.delivery with
    | .retained _ => none
    | .target generation => some generation)

def Router.Serves (r : Router) (id : InterfaceId) : Prop :=
  ∃ i, r.interface id = some i ∧ i.online = true

def Router.CanSend (r : Router) (slot : Fin requesters) : Prop :=
  ∃ i, r.registry.get slot = some i ∧ i.online = true ∧ i.direction.outbound = true

namespace LiteNode

variable {K : Capacities} {m : Model} {s s' s'' : LiteNode K m} {nowMs : Nat}

/-! ### Interfaces and lifetimes -/

/-- On a router, the interface is there to be used. -/
def Present (s : LiteNode K m) (id : InterfaceId) : Prop := ∀ r, s.router? = some r → r.Serves id

/-- On a router, something can be sent by way of the slot. -/
def Outgoing (s : LiteNode K m) (slot : Fin requesters) : Prop :=
  ∀ r, s.router? = some r → r.CanSend slot

/-- A lifetime names only numbers that have been issued. -/
structure Issued (s : LiteNode K m) (lifetime : OutboundLifetime) : Prop where
  path : lifetime.path ≤ s.paths.lastGeneration
  state : match lifetime.state with
    | .independent => True
    | .reverse generation => generation ≤ s.reverse.lastGeneration
    | .link generation => generation ≤ s.links.lastGeneration
    | .discovery identity => identity ≤ s.discoveries.lastIdentity

theorem Issued.mono {lifetime : OutboundLifetime} (h : s.Issued lifetime)
    (hpaths : s.paths.lastGeneration ≤ s'.paths.lastGeneration)
    (hreverse : s.reverse.lastGeneration ≤ s'.reverse.lastGeneration)
    (hlinks : s.links.lastGeneration ≤ s'.links.lastGeneration)
    (hdiscoveries : s.discoveries.lastIdentity ≤ s'.discoveries.lastIdentity) :
    s'.Issued lifetime where
  path := h.path.trans hpaths
  state := by
    have := h.state
    revert this
    cases lifetime.state with
    | independent => exact id
    | reverse g => exact fun h => h.trans hreverse
    | link g => exact fun h => h.trans hlinks
    | discovery i => exact fun h => h.trans hdiscoveries

/-! ### Quiet changes -/

/-- Nothing comes into a table or into the queue that was not there. No route that still runs loses
its announce. -/
structure Sheds (s s' : LiteNode K m) : Prop where
  clockMs : s'.clockMs = s.clockMs
  paths : s.paths.Shrinks s'.paths
  announceCache : s'.announceCache.Within s.announceCache
  covered : s.paths.WF → s.paths.entries.Keyed PathEntry.destinationHash → ∀ g e,
    s'.paths.Row g e → s.clockMs < e.expiresMs → s.announceCache.Covers e →
      s'.announceCache.Covers e
  schedule : s.announceSchedule.Lessens s'.announceSchedule
  reverse : s.reverse.Shrinks s'.reverse
  links : s.links.Shrinks s'.links
  discoveries : s.discoveries.Renews s'.discoveries
  outbound : (s'.outbound.toList.map QueuedOutbound.key).Sublist (s.outbound.toList.map QueuedOutbound.key)
  lastDeliveryIdentity : s'.lastDeliveryIdentity = s.lastDeliveryIdentity

/-- The interfaces, the configuration and the scheduled announces are as they were too, nobody waits
who did not, and no link that still runs is lost. -/
structure Quiet (nowMs : Nat) (s s' : LiteNode K m) : Prop extends Sheds s s' where
  transportId : s'.transportId = s.transportId
  transportEnabled : s'.config.transportEnabled = s.config.transportEnabled
  tableCaps : s'.config.tableCaps = s.config.tableCaps
  interfaces : s.interfaces.Like s'.interfaces
  localSlots : s'.localSlots = s.localSlots
  packetHashes : s'.packetHashes = s.packetHashes ∨ s'.packetHashes = s.packetHashes.expire nowMs
  announceSchedule : s'.announceSchedule = s.announceSchedule
  links_live : ∀ g e, s.links.Row g e → nowMs < e.expiresMs → s'.links.Row g e
  waiting : ∀ P, s.discoveries.Waiting P → s'.discoveries.Waiting P

namespace Sheds

theorem refl (s : LiteNode K m) : Sheds s s where
  clockMs := rfl
  paths := .refl
  announceCache := .refl _
  covered := fun _ _ _ _ _ _ h => h
  schedule := .refl _
  reverse := .refl
  links := .refl
  discoveries := .refl
  outbound := .refl _
  lastDeliveryIdentity := rfl

theorem trans (h : Sheds s s') (h' : Sheds s' s'') : Sheds s s'' where
  clockMs := h'.clockMs.trans h.clockMs
  paths := h.paths.trans h'.paths
  announceCache := h'.announceCache.trans h.announceCache
  covered hwf hkeyed g e hrow hlive hcovers := by
    have hwf' := h.paths.wf hwf
    have hcovers' := h.covered hwf hkeyed g e (h'.paths.row hwf' hrow) hlive hcovers
    exact h'.covered hwf' (h.paths.keyed hwf hkeyed) g e hrow (h.clockMs ▸ hlive) hcovers'
  schedule := h.schedule.trans h'.schedule
  reverse := h.reverse.trans h'.reverse
  links := h.links.trans h'.links
  discoveries := h.discoveries.trans h'.discoveries
  outbound := h'.outbound.trans h.outbound
  lastDeliveryIdentity := h'.lastDeliveryIdentity.trans h.lastDeliveryIdentity

theorem of_outbound {outbound stats} (h : outbound.toList.Sublist s.outbound.toList) :
    Sheds s { s with outbound, stats } :=
  { refl s with outbound := h.map QueuedOutbound.key }

theorem expireOutbound (s : LiteNode K m) (nowMs : Nat) : Sheds s (s.expireOutbound nowMs) := by
  obtain ⟨outbound, stats, heq, hlist⟩ := s.expireOutbound_spec nowMs
  rw [heq]
  exact of_outbound (hlist ▸ List.filter_sublist)

end Sheds

namespace Quiet

theorem refl (s : LiteNode K m) : Quiet nowMs s s :=
  { Sheds.refl s with
    transportId := rfl
    transportEnabled := rfl
    tableCaps := rfl
    interfaces := .refl _
    localSlots := rfl
    packetHashes := .inl rfl
    announceSchedule := rfl
    links_live := fun _ _ h _ => h
    waiting := fun _ h => h }

theorem trans (h : Quiet nowMs s s') (h' : Quiet nowMs s' s'') : Quiet nowMs s s'' :=
  { h.toSheds.trans h'.toSheds with
    transportId := h'.transportId.trans h.transportId
    transportEnabled := h'.transportEnabled.trans h.transportEnabled
    tableCaps := h'.tableCaps.trans h.tableCaps
    interfaces := h.interfaces.trans h'.interfaces
    localSlots := h'.localSlots.trans h.localSlots
    packetHashes := by
      rcases h.packetHashes with h1 | h1 <;> rcases h'.packetHashes with h2 | h2 <;> rw [h2, h1]
      · exact .inl rfl
      · exact .inr rfl
      · exact .inr rfl
      · exact .inr (Slots.clearWhere_clearWhere _ _)
    announceSchedule := h'.announceSchedule.trans h.announceSchedule
    links_live := fun g e hrow hlive => h'.links_live g e (h.links_live g e hrow hlive) hlive
    waiting := fun P hP => h'.waiting P (h.waiting P hP) }

theorem inert {announceAdmission knownDestinations requestTags retainedOwnerMode stats} :
    Quiet nowMs s { s with
      announceAdmission, knownDestinations, requestTags, retainedOwnerMode, stats } :=
  { refl s with }

theorem of_onlyCounts (h : OnlyCounts s s') : Quiet nowMs s s' := by
  obtain ⟨stats, f, rfl⟩ := h
  exact { refl s with interfaces := Interfaces.like_counted _ f }

theorem count (s : LiteNode K m) (f : TransportStats → TransportStats) :
    Quiet nowMs s (s.count f) :=
  inert

theorem of_outbound {outbound stats} (h : outbound.toList.Sublist s.outbound.toList) :
    Quiet nowMs s { s with outbound, stats } :=
  { refl s with outbound := h.map QueuedOutbound.key }

theorem of_discoveries {discoveries} (h : s.discoveries.Renews discoveries)
    (hwaiting : ∀ P, s.discoveries.Waiting P → discoveries.Waiting P) :
    Quiet nowMs s { s with discoveries } :=
  { refl s with discoveries := h, waiting := hwaiting }

theorem of_reverse {reverse} (h : s.reverse.Shrinks reverse) :
    Quiet nowMs s { s with reverse } :=
  { refl s with reverse := h }

theorem expireHashes : Quiet nowMs s { s with packetHashes := s.packetHashes.expire nowMs } :=
  { refl s with packetHashes := .inr rfl }

theorem expireLinks : Quiet nowMs s { s with links := s.links.expire nowMs } :=
  { refl s with
    links := .clearWhere _
    links_live := fun _ _ hrow hlive => LinkTable.row_expire.mpr ⟨hrow, hlive⟩ }

theorem expireOutbound (s : LiteNode K m) (now : Nat) : Quiet nowMs s (s.expireOutbound now) := by
  obtain ⟨outbound, stats, heq, hlist⟩ := s.expireOutbound_spec now
  rw [heq]
  exact of_outbound (hlist ▸ List.filter_sublist)

end Quiet

end LiteNode

/-! ### Changes -/

/-- A packet out of its frame, as an ingest handles it: the header has its hop counted. -/
structure Heard where
  raw : List UInt8
  view : PacketView
  header : PacketHeader
  interfaceId : InterfaceId

structure Heard.Parsed (h : Heard) : Prop where
  view : PacketView.parse h.raw = .ok h.view
  header : h.header = { h.view.header with hops := h.header.hops }

/-- What makes a node change: a time and, for an ingest, the packet; or a tick. -/
structure Cause where
  nowMs : Nat
  heard : Option Heard
  ticking : Bool

/-- The packet, if there is one, is of a given type. -/
def Cause.Concerns (c : Cause) (packetType : PacketType) : Prop :=
  ∀ h, c.heard = some h → h.header.flags.packetType = packetType

/-- A tick hears nothing. -/
structure Cause.IsTick (c : Cause) : Prop where
  heard : c.heard = none
  ticking : c.ticking = true

theorem Cause.concerns_of_none {c : Cause} (h : c.heard = none) (packetType : PacketType) :
    c.Concerns packetType := by
  intro heard hheard
  rw [h] at hheard
  cases hheard

/-- A path entry is what a signed announce in a packet says. -/
structure Announced [Crypto] (h : Heard) (entry : PathEntry) : Prop where
  announce : ∃ maxAppData a,
    AnnounceView.parse h.view.payload h.view.header.flags.contextFlag maxAppData = .ok a ∧
      a.Authentic entry.destinationHash ∧ a.publicKey = entry.publicKey ∧
      a.randomHash = entry.randomHash
  parsed : h.Parsed
  isAnnounce : h.header.flags.packetType = .announce
  destination : entry.destinationHash = h.header.destinationHash
  packetHash : entry.packetHash = packetHash h.raw h.view.header.flags.headerType
  hops : entry.hops = h.header.hops
  hops_lt : entry.hops < pathfinderM

namespace LiteNode

variable {K : Capacities} {m : Model}

theorem onlyCounts_learnPath (s : LiteNode K m) (path : PathEntry) (nowMs : Nat) :
    OnlyCounts { s with paths := (s.paths.insertOrUpdate path nowMs).1 }
      (s.learnPath path nowMs).1 := by
  unfold learnPath
  dsimp only
  split
  · exact (OnlyCounts.refl _).countRouter _
  · exact .refl _

variable [Crypto]

/-- A route is entered and, if it was taken, its announce is cached. -/
def learned (s : LiteNode K m) (entry : PathEntry) (buffer : PacketBuffer mtu) (nowMs : Nat) :
    LiteNode K m :=
  let updated := s.paths.insertOrUpdate entry nowMs
  if updated.2 then { s with paths := updated.1 }.cacheAnnounce buffer entry nowMs
  else { s with paths := updated.1 }

/-- The changes a node makes for a cause. -/
inductive Change (c : Cause) : LiteNode K m → LiteNode K m → Prop
  | quiet {s s'} (h : Quiet c.nowMs s s') : Change c s s'
  | learn {s h entry buffer} (hheard : c.heard = some h) (hannounced : Announced h entry)
      (hbuffer : buffer.bytes = h.raw) (hown : s.isOwnDestination entry.destinationHash = false)
      (hpresent : s.Present entry.interfaceId) : Change c s (s.learned entry buffer c.nowMs)
  | touchPath {s h} (hheard : c.heard = some h)
      (htype : h.header.flags.packetType = .data ∨ h.header.flags.packetType = .linkRequest)
      (haddressed : h.view.header.transportId = some s.transportId)
      (hroute : (s.paths.getLive h.header.destinationHash c.nowMs).isSome = true) :
      Change c s { s with paths := s.paths.touch h.header.destinationHash c.nowMs }
  | lessen {s announceSchedule} (hcause : c.Concerns .announce)
      (hless : s.announceSchedule.Lessens announceSchedule) :
      Change c s { s with announceSchedule }
  | schedule {s entry} (hcause : c.Concerns .announce) (hsource : s.Present entry.interfaceId)
      (hpending : ∀ b : Fin requesters, entry.pendingTargets.getLsbD b.val = true → s.Outgoing b) :
      Change c s { s with announceSchedule := s.announceSchedule.insert entry c.nowMs }
  | own {s} (localSlots : List.Vector LocalSlot m.localSlots) (hheard : c.heard = none) :
      Change c s { s with localSlots }
  | record {s} (hash : Hash32) : Change c s (s.recordHash hash c.nowMs).1
  | discover {s slot} (destination : Hash16) (timeout : Nat) (hslot : s.Outgoing slot) :
      Change c s
        { s with discoveries := (s.discoveries.begin destination slot c.nowMs timeout).1 }
  | send {s s' frame} (hsend : s.Sends frame s') (hissued : s.Issued frame.lifetime)
      (hreason : frame.reason ≠ .announceRebroadcast) : Change c s s'
  | rebroadcast {s s' frame} (hticking : c.ticking = true) (hmodel : m = .endpoint)
      (hsend : s.Sends frame s') (hissued : s.Issued frame.lifetime)
      (hreason : frame.reason = .announceRebroadcast) : Change c s s'
  | release {s s' frame r slot target} (hticking : c.ticking = true) (hrouter : s.router? = some r)
      (htarget : r.registry.get slot = some target)
      (hopen : (r.announceGates.get slot).isOpen c.nowMs = true)
      (hnone : s.rebroadcastQueued target.id = false) (hid : frame.interfaceId = target.id)
      (hsend : s.Sends frame s') (hissued : s.Issued frame.lifetime)
      (hreason : frame.reason = .announceRebroadcast) :
      Change c s (s'.chargeGate slot target frame.packet.len c.nowMs)
  | forwardData {s s' frame entry generation}
      (hgeneration : s.reverse.nextGeneration = some generation) (hsend : s.Sends frame s')
      (hstate : frame.lifetime.state = .reverse generation)
      (hpath : frame.lifetime.path ≤ s.paths.lastGeneration)
      (hreason : frame.reason ≠ .announceRebroadcast) (hreceiving : s.Present entry.receivingInterface)
      (houtbound : s.Present entry.outboundInterface) :
      Change c s { s' with reverse := s'.reverse.insert entry c.nowMs }
  | forwardLink {s s' frame entry generation}
      (hgeneration : s.links.nextGeneration = some generation) (hsend : s.Sends frame s')
      (hstate : frame.lifetime.state = .link generation)
      (hpath : frame.lifetime.path ≤ s.paths.lastGeneration)
      (hreason : frame.reason ≠ .announceRebroadcast) (hreceiving : s.Present entry.receivingInterface)
      (houtbound : s.Present entry.outboundInterface) (hnew : entry.validated = false)
      (habsent : s.links.containsLive entry.linkId c.nowMs = false)
      (hfree : (s.links.hasFreeSlot c.nowMs).2 = true) (hexpires : entry.expiresMs ≤ u64Max)
      (hcause : c.Concerns .linkRequest) :
      Change c s { s' with links := s'.links.insert entry c.nowMs }
  | validateLink {s s' frame link h} (hheard : c.heard = some h)
      (hproof : h.header.flags.packetType = .proof) (hcontext : h.header.context = .lrproof)
      (hlink : s.links.get h.header.destinationHash c.nowMs = some link)
      (hinterface : link.outboundInterface = h.interfaceId)
      (hhops : link.remainingHops = h.header.hops)
      (hvalid : s.validateTransitLrproof h.raw h.header link = true) (hsend : s.Sends frame s')
      (hissued : s.Issued frame.lifetime) (hreason : frame.reason ≠ .announceRebroadcast) :
      Change c s { s' with
        links := s'.links.markValidated h.header.destinationHash
          (satAdd c.nowMs linkTimeoutMs) c.nowMs }
  | touchLink {s link linkId} (hlink : s.links.get linkId c.nowMs = some link)
      (hvalidated : link.validated = true) :
      Change c s { s with links := s.links.touch linkId (satAdd c.nowMs linkTimeoutMs) c.nowMs }

/-- The same changes, as the routes and the cached announces see them. -/
inductive RouteChange (c : Cause) : LiteNode K m → LiteNode K m → Prop
  | quiet {s s'} (h : Quiet c.nowMs s s') : RouteChange c s s'
  | learn {s h entry buffer} (hheard : c.heard = some h) (hannounced : Announced h entry)
      (hbuffer : buffer.bytes = h.raw) (hown : s.isOwnDestination entry.destinationHash = false) :
      RouteChange c s (s.learned entry buffer c.nowMs)
  | touchPath {s h} (hheard : c.heard = some h)
      (htype : h.header.flags.packetType = .data ∨ h.header.flags.packetType = .linkRequest)
      (haddressed : h.view.header.transportId = some s.transportId)
      (hroute : (s.paths.getLive h.header.destinationHash c.nowMs).isSome = true) :
      RouteChange c s { s with paths := s.paths.touch h.header.destinationHash c.nowMs }
  | other {s s' : LiteNode K m} (hclock : s'.clockMs = s.clockMs) (hpaths : s'.paths = s.paths)
      (hcache : s'.announceCache = s.announceCache) : RouteChange c s s'

theorem Change.routing {c : Cause} {s s' : LiteNode K m} (h : Change c s s') :
    RouteChange c s s' := by
  cases h with
  | quiet h => exact .quiet h
  | learn hheard hannounced hbuffer hown => exact .learn hheard hannounced hbuffer hown
  | touchPath hheard htype haddressed hroute => exact .touchPath hheard htype haddressed hroute
  | send hsend | rebroadcast _ _ hsend | release _ _ _ _ _ _ hsend | forwardData _ hsend
  | forwardLink _ hsend | validateLink _ _ _ _ _ _ _ hsend =>
      obtain ⟨_, _, rfl⟩ := hsend.rest
      exact .other rfl rfl rfl
  | _ => exact .other rfl rfl rfl

/-- Any number of changes for one cause. -/
abbrev Changes (c : Cause) : LiteNode K m → LiteNode K m → Prop := Relation.ReflTransGen (Change c)

theorem Quiet.changes {c : Cause} {s s' : LiteNode K m} (h : Quiet c.nowMs s s') :
    Changes c s s' :=
  .single (.quiet h)

/-! ### What every change keeps -/

structure Sound (s : LiteNode K m) : Prop where
  paths : s.paths.WF
  reverse : s.reverse.WF
  links : s.links.WF

/-- The registry is the same, the counters have only grown, and the clock and the mode of operation
have not changed. -/
structure Grows (s s' : LiteNode K m) : Prop where
  clockMs : s'.clockMs = s.clockMs
  transportId : s'.transportId = s.transportId
  transportEnabled : s'.config.transportEnabled = s.config.transportEnabled
  registry : ∀ r', s'.router? = some r' → ∃ r, s.router? = some r ∧ r'.registry = r.registry ∧
    r'.generations = r.generations ∧ r'.lastGeneration = r.lastGeneration
  paths : s.paths.Later s'.paths
  reverse : s.reverse.Later s'.reverse
  links : s.links.Later s'.links
  discoveries : s.discoveries.lastIdentity ≤ s'.discoveries.lastIdentity

namespace Grows

variable {s s' s'' : LiteNode K m}

omit [Crypto]

theorem refl (s : LiteNode K m) : Grows s s :=
  ⟨rfl, rfl, rfl, fun r h => ⟨r, h, rfl, rfl, rfl⟩, .refl _, .refl _, .refl _, le_rfl⟩

theorem trans (h : Grows s s') (h' : Grows s' s'') : Grows s s'' where
  clockMs := h'.clockMs.trans h.clockMs
  transportId := h'.transportId.trans h.transportId
  transportEnabled := h'.transportEnabled.trans h.transportEnabled
  registry r'' hr'' := by
    obtain ⟨r', hr', h1', h2', h3'⟩ := h'.registry r'' hr''
    obtain ⟨r, hr, h1, h2, h3⟩ := h.registry r' hr'
    exact ⟨r, hr, h1'.trans h1, h2'.trans h2, h3'.trans h3⟩
  paths := h.paths.trans h'.paths
  reverse := h.reverse.trans h'.reverse
  links := h.links.trans h'.links
  discoveries := h.discoveries.trans h'.discoveries

theorem of_quiet {nowMs : Nat} (h : Quiet nowMs s s') : Grows s s' where
  clockMs := h.clockMs
  transportId := h.transportId
  transportEnabled := h.transportEnabled
  registry r' hr' := by
    obtain ⟨r, hr, hlike⟩ := h.interfaces.router hr'
    exact ⟨r, hr, hlike.1, hlike.2.1, hlike.2.2.1⟩
  paths := h.paths.later
  reverse := h.reverse.later
  links := h.links.later
  discoveries := h.discoveries.last_le

theorem of_sends {frame : OutboundFrame} (h : s.Sends frame s') : Grows s s' := by
  obtain ⟨outbound, stats, rfl⟩ := h.rest
  exact { refl s with }

theorem present (h : Grows s s') {id : InterfaceId} (hid : s.Present id) : s'.Present id := by
  intro r' hr'
  obtain ⟨r, hr, hregistry, _⟩ := h.registry r' hr'
  obtain ⟨i, hi, honline⟩ := hid r hr
  exact ⟨i, by rw [Router.interface, hregistry]; exact hi, honline⟩

theorem outgoing (h : Grows s s') {slot : Fin requesters} (hslot : s.Outgoing slot) :
    s'.Outgoing slot := by
  intro r' hr'
  obtain ⟨r, hr, hregistry, _⟩ := h.registry r' hr'
  obtain ⟨i, hi, hdirection⟩ := hslot r hr
  exact ⟨i, by rw [hregistry]; exact hi, hdirection⟩

theorem issued (h : Grows s s') {lifetime : OutboundLifetime} (hl : s.Issued lifetime) :
    s'.Issued lifetime :=
  hl.mono h.paths.last_le h.reverse.last_le h.links.last_le h.discoveries

theorem sound (h : Grows s s') (hs : s.Sound) : s'.Sound :=
  ⟨h.paths.wf hs.paths, h.reverse.wf hs.reverse, h.links.wf hs.links⟩

end Grows

omit [Crypto] in
theorem grows_chargeGate (s : LiteNode K m) (slot : Fin requesters) (target : InterfaceConfig)
    (wireLen nowMs : Nat) : Grows s (s.chargeGate slot target wireLen nowMs) := by
  refine { Grows.refl s with registry := fun r' hr' => ?_ }
  unfold chargeGate router? at hr'
  unfold router?
  cases hi : s.interfaces with
  | endpoint facts => simp [hi, Interfaces.mapRouter, Interfaces.router?] at hr'
  | router r =>
      simp only [hi, Interfaces.mapRouter, Interfaces.router?, Option.some.injEq] at hr'
      subst hr'
      exact ⟨r, rfl, rfl, rfl, rfl⟩

omit [Crypto] in
theorem learned_eq (s : LiteNode K m) (entry : PathEntry) (buffer : PacketBuffer mtu)
    (nowMs : Nat) : ∃ announceCache, s.learned entry buffer nowMs =
      { s with paths := (s.paths.insertOrUpdate entry nowMs).1, announceCache } := by
  unfold learned
  simp only
  split
  · exact ⟨_, rfl⟩
  · exact ⟨_, rfl⟩

theorem Change.grows {c : Cause} {s s' : LiteNode K m} (h : Change c s s') : Grows s s' := by
  cases h with
  | quiet h => exact .of_quiet h
  | learn =>
      obtain ⟨announceCache, heq⟩ := learned_eq s _ _ _
      rw [heq]
      exact { Grows.refl s with paths := (PathTable.insertOrUpdate_spec _ _ _).1.toLater }
  | touchPath => exact { Grows.refl s with paths := (PathTable.touch_renews _ _ _).toLater }
  | lessen => exact { Grows.refl s with }
  | schedule => exact { Grows.refl s with }
  | own => exact { Grows.refl s with }
  | record => exact { Grows.refl s with }
  | discover => exact { Grows.refl s with discoveries := (Discoveries.renews_begin _ _ _ _ _).last_le }
  | send hsend => exact .of_sends hsend
  | rebroadcast _ _ hsend => exact .of_sends hsend
  | release _ _ _ _ _ _ hsend => exact (Grows.of_sends hsend).trans (grows_chargeGate _ _ _ _ _)
  | forwardData hgeneration hsend =>
      refine (Grows.of_sends hsend).trans ?_
      obtain ⟨outbound, stats, rfl⟩ := hsend.rest
      exact { Grows.refl _ with
        reverse := (ReverseTable.insert_renews hgeneration _ c.nowMs).1.toLater }
  | forwardLink hgeneration hsend _ _ _ _ _ _ habsent hfree =>
      refine (Grows.of_sends hsend).trans ?_
      obtain ⟨outbound, stats, rfl⟩ := hsend.rest
      exact { Grows.refl _ with
        links := (LinkTable.insert_renews hgeneration habsent hfree).1.toLater }
  | validateLink _ _ _ _ _ _ _ hsend =>
      refine (Grows.of_sends hsend).trans ?_
      exact { Grows.refl _ with links := (LinkTable.markValidated_spec _ _ _ _).1.toLater }
  | touchLink => exact { Grows.refl s with links := (LinkTable.touch_spec _ _ _ _).1.toLater }

theorem Changes.grows {c : Cause} {s s' : LiteNode K m} (h : Changes c s s') : Grows s s' := by
  induction h with
  | refl => exact .refl s
  | tail _ hstep ih => exact ih.trans hstep.grows

end LiteNode

end ReticulumLite
