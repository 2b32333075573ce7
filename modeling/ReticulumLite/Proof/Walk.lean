import ReticulumLite.Proof.Ledger

/-!
# One walk over the functions of a node

A handler leaves most of the node alone, and does to the queue what sending does. A relation between
states that survives this and does not look at the tables a handler writes therefore holds across
any function. `Follows` lists what it has to survive; the lemma for each function, from the handlers
up to the operations of a host, cites those for what the function calls. An operation that sends
expires frames first, at its own time: the walk starts from the state in which it has. Where a
function writes a tag, which is looked at, it goes on from the state with that already written.

`Handles` is for relations that also look at what is sent and at how frames are wrapped: each lemma
says what its function sends.
-/

namespace ReticulumLite

open Bounded

namespace LiteNode

variable {K : Capacities} {m : Model} {s s' s'' : LiteNode K m}

def kept (s : LiteNode K m) : Ledger m × RequestTagTable K.tags × Nat :=
  (s.ledger, s.requestTags, s.clockMs)

/-- The node in which a tick begins to take due announces. -/
def readied (s : LiteNode K m) (nowMs : Nat) : LiteNode K m :=
  ({ s with clockMs := nowMs }.expireTables nowMs).expireOutbound nowMs

/-- What a relation may look at that need not hold across the operations of a host. -/
def shown (s : LiteNode K m) :
    (Ledger m × RequestTagTable K.tags × Nat) × (InterfaceId → Option IfacConfig) :=
  (s.kept, fun id => s.interfaces.ifac id s.config)

/-- A relation between states that holds across what handlers do, where all that is sent is what `may`
permits. -/
structure Handles [Crypto] (may : OutboundReason → PacketBuffer mtu → Prop)
    (R : LiteNode K m → LiteNode K m → Prop) : Prop where
  agree : ∀ {s s'}, s'.shown = s.shown → R s s'
  trans : ∀ {s s' s''}, R s s' → R s' s'' → R s s''
  unanswered : ∀ s (requesters : BitVec 8), R s (s.count fun t =>
    { t with outboundDropped := satAdd t.outboundDropped (popcount requesters) })
  enqueueWithLifetime : ∀ s id packet reason lifetime, may reason packet →
    R s (s.enqueueWithLifetime id packet reason lifetime).1

/-- A relation between states that holds across whatever handlers do, and does not look at how frames
are wrapped. -/
structure Follows [Crypto] (R : LiteNode K m → LiteNode K m → Prop) : Prop where
  agree : ∀ {s s'}, s'.kept = s.kept → R s s'
  trans : ∀ {s s' s''}, R s s' → R s' s'' → R s s''
  unanswered : ∀ s (requesters : BitVec 8), R s (s.count fun t =>
    { t with outboundDropped := satAdd t.outboundDropped (popcount requesters) })
  enqueueWithLifetime : ∀ s id packet reason lifetime,
    R s (s.enqueueWithLifetime id packet reason lifetime).1

/-! ### What handlers send -/

section Sent

variable [Crypto] (K m) (may : OutboundReason → PacketBuffer mtu → Prop) (raw : List UInt8)

def MayAnswer (destinationHash : Hash16) (hops : UInt8) : Prop :=
  ∀ (s : LiteNode K m) response,
    s.pathResponseFromCachedAnnounce raw destinationHash hops = .ok response →
    may .pathResponse response

def MayForward (originalHeader header : PacketHeader) (nowMs : Nat) : Prop :=
  ∀ (s : LiteNode K m) target packet,
    s.rewriteForwardedTransportPacket raw originalHeader header nowMs = .ok (some (target, packet)) →
    may .transportForward packet

def MayRequest (originalHeader header : PacketHeader) (nowMs : Nat) : Prop :=
  ∀ (s : LiteNode K m) rx target packet request trimmed,
    s.rewriteForwardedTransportPacket raw originalHeader header nowMs = .ok (some (target, packet)) →
    s.admitLinkRequest raw originalHeader rx target packet = .ok (request, trimmed) →
    may .transportForward trimmed

def MayPass (hops : UInt8) (reason : OutboundReason) : Prop :=
  ∀ buffer, PacketBuffer.fromSlice raw = .ok buffer → may reason (buffer.copyWithHops hops)

def MayRepeat (announce : ScheduledAnnounce) : Prop :=
  may .announceRebroadcast announce.packet ∧ may .pathResponse announce.packet

variable {K m}

/-- The answer to a search that is made of an announce just accepted. -/
def MayFinish (s : LiteNode K m) (view : PacketView) (header : PacketHeader) : Prop :=
  ∀ announce, s.validateAnnounce view header.destinationHash = .ok announce →
    header.hops < pathfinderM → MayAnswer K m may raw header.destinationHash header.hops

structure Permits (s : LiteNode K m) (view : PacketView) (header : PacketHeader) (nowMs : Nat) :
    Prop where
  finish : header.flags.packetType = .announce →
    s.isOwnDestination header.destinationHash = false → s.MayFinish may raw view header
  answer : ∀ requested cached, s.announceCache.get requested nowMs = some cached →
    MayAnswer K m may cached.raw.bytes requested cached.hops
  search : ∀ packet, may .pathRequestForward packet
  forward : MayForward K m may raw view.header header nowMs
  request : MayRequest K m may raw view.header header nowMs
  pass : MayPass may raw header.hops .transportForward
  proof : MayPass may raw header.hops .proofReturn

end Sent

/-- The tag of a path request is written, unless it is there. -/
def tagged (s : LiteNode K m) (key : Hash32) (nowMs : Nat) : LiteNode K m :=
  { s with requestTags :=
      (s.requestTags.insertIfNew key (satAdd nowMs pathRequestDuplicateGateMs) nowMs).1 }

/-- A relation holds but for the tag of one path request. -/
def Tagging (R : LiteNode K m → LiteNode K m → Prop) (nowMs : Nat) (s s' : LiteNode K m) : Prop :=
  R s s' ∨ ∃ s₁ key, R s s₁ ∧ R (s₁.tagged key nowMs) s'

/-! ### What is not looked at -/

theorem ifac_mapRouter (i : Interfaces m) {f : Router → Router} (hf : ∀ r, (f r).registry = r.registry)
    (id : InterfaceId) (config : LiteConfig) : (i.mapRouter f).ifac id config = i.ifac id config := by
  cases i with
  | endpoint facts => rfl
  | router r =>
      show ((f r).interface id).bind _ = (r.interface id).bind _
      unfold Router.interface
      rw [hf r]

theorem shown_mapRouter (s : LiteNode K m) {f : Router → Router}
    (hf : ∀ r, (f r).registry = r.registry) :
    ({ s with interfaces := s.interfaces.mapRouter f } : LiteNode K m).shown = s.shown :=
  Prod.ext rfl (funext fun id => ifac_mapRouter s.interfaces hf id s.config)

theorem shown_countRouter (s : LiteNode K m) (f : RouterStats → RouterStats) :
    (s.countRouter f).shown = s.shown :=
  s.shown_mapRouter fun _ => rfl

theorem shown_chargeGate (s : LiteNode K m) (slot : Fin requesters) (target : InterfaceConfig)
    (wireLen nowMs : Nat) : (s.chargeGate slot target wireLen nowMs).shown = s.shown :=
  s.shown_mapRouter fun _ => rfl

namespace Handles

variable [Crypto] {may : OutboundReason → PacketBuffer mtu → Prop}
  {R : LiteNode K m → LiteNode K m → Prop} (hR : Handles may R)

include hR

theorem refl (s : LiteNode K m) : R s s := hR.agree rfl

theorem after (h : R s' s'') (heq : s'.shown = s.shown) : R s s'' := hR.trans (hR.agree heq) h

variable {nowMs : Nat}

theorem tagging_after (h : Tagging R nowMs s' s'') (hfirst : R s s') : Tagging R nowMs s s'' := by
  rcases h with h | ⟨s₁, key, h, h'⟩
  · exact .inl (hR.trans hfirst h)
  · exact .inr ⟨s₁, key, hR.trans hfirst h, h'⟩

theorem tagging_trans (h : Tagging R nowMs s s') (hlast : R s' s'') : Tagging R nowMs s s'' := by
  rcases h with h | ⟨s₁, key, h, h'⟩
  · exact .inl (hR.trans h hlast)
  · exact .inr ⟨s₁, key, h, hR.trans h' hlast⟩

theorem foldl {α β : Type} (state : β → LiteNode K m) (step : β → α → β)
    (hstep : ∀ b x, R (state b) (state (step b x))) (xs : List α) (b : β) :
    R (state b) (state (xs.foldl step b)) := by
  induction xs generalizing b with
  | nil => exact hR.refl _
  | cons x xs ih => exact hR.trans (hstep b x) (ih _)

/-! ### Sending -/

section Sending

variable {packet : PacketBuffer mtu} {reason : OutboundReason} (hmay : may reason packet)

include hmay

theorem enqueue (s : LiteNode K m) (id : InterfaceId) : R s (s.enqueue id packet reason).1 :=
  hR.enqueueWithLifetime s id packet reason _ hmay

theorem enqueueForwardedWithLifetime (s : LiteNode K m) (source target : InterfaceId)
    (lifetime : OutboundLifetime) :
    R s (s.enqueueForwardedWithLifetime source target packet reason lifetime).1 := by
  unfold LiteNode.enqueueForwardedWithLifetime
  split
  · exact hR.enqueueWithLifetime s target packet reason lifetime hmay
  split
  · exact hR.agree (shown_countRouter s _)
  split
  · exact hR.agree (shown_countRouter s _)
  split
  · exact hR.agree (shown_countRouter s _)
  · exact hR.enqueueWithLifetime s target packet reason lifetime hmay

theorem enqueueForwarded (s : LiteNode K m) (source target : InterfaceId) :
    R s (s.enqueueForwarded source target packet reason).1 :=
  hR.enqueueForwardedWithLifetime hmay s source target _

theorem enqueuePacketBroadcastWithLifetime (s : LiteNode K m) (source : InterfaceId)
    (localOnly : Bool) (lifetime : OutboundLifetime) :
    R s (s.enqueuePacketBroadcastWithLifetime source packet reason localOnly lifetime).1 := by
  unfold LiteNode.enqueuePacketBroadcastWithLifetime
  split
  · exact hR.enqueueWithLifetime s source packet reason lifetime hmay
  · refine hR.foldl Prod.fst _ (fun b slot => ?_) requesterSlots (s, 0)
    unfold broadcastToSlot
    split
    · exact hR.refl _
    split
    · exact hR.enqueueForwardedWithLifetime hmay _ _ _ _
    · exact hR.refl _

theorem enqueuePacketBroadcast (s : LiteNode K m) (source : InterfaceId) (localOnly : Bool) :
    R s (s.enqueuePacketBroadcast source packet reason localOnly).1 :=
  hR.enqueuePacketBroadcastWithLifetime hmay s source localOnly _

end Sending

/-! ### Announces and path requests -/

theorem answerRequester {response : PacketBuffer mtu} (hmay : may .pathResponse response)
    (s : LiteNode K m) (mask : BitVec 8) (rx : RxMeta) (slot : Fin requesters) :
    R s (answerRequester response mask rx s slot) := by
  unfold LiteNode.answerRequester
  dsimp only
  split
  · exact hR.enqueue hmay s _
  · exact hR.refl s

section Announces

variable {raw : List UInt8} {header : PacketHeader}

theorem finishDiscovery (hmay : MayAnswer K m may raw header.destinationHash header.hops)
    (s : LiteNode K m) (rx : RxMeta) (nowMs : Nat) : R s (s.finishDiscovery raw header rx nowMs) := by
  have htaken : R s { s with discoveries := (s.discoveries.take header.destinationHash nowMs).1 } :=
    hR.agree rfl
  unfold LiteNode.finishDiscovery
  split
  · exact hR.refl s
  dsimp only
  cases (s.discoveries.take header.destinationHash nowMs).2 with
  | none => exact htaken
  | some owner =>
      simp only
      split
      · exact hR.trans htaken (hR.unanswered _ owner.requesters)
      · rename_i response hresponse
        exact hR.trans htaken (hR.foldl id _
          (fun s slot => hR.answerRequester (hmay _ response hresponse) s _ rx slot) requesterSlots _)

theorem cancelRebroadcast (s : LiteNode K m) (destinationHash : Hash16) (wireHops : UInt8)
    (nowMs : Nat) : R s (s.cancelRebroadcast destinationHash wireHops nowMs) := by
  unfold LiteNode.cancelRebroadcast
  repeat' split
  all_goals exact hR.agree rfl

theorem scheduleRebroadcast (s : LiteNode K m) (rx : RxMeta) (packetHash : Hash32) (nowMs : Nat) :
    R s (s.scheduleRebroadcast raw header rx packetHash nowMs).1 := by
  unfold LiteNode.scheduleRebroadcast
  repeat' split
  all_goals exact hR.agree rfl

theorem followPath (hmay : MayAnswer K m may raw header.destinationHash header.hops)
    (s : LiteNode K m) (rx : RxMeta) (path : PathEntry) (nowMs : Nat) :
    R s (s.followPath raw header rx path nowMs).1 := by
  unfold LiteNode.followPath
  cases PacketBuffer.fromSlice raw with
  | error e => exact hR.agree rfl
  | ok buffer =>
      have hcached : R s (LiteNode.cacheAnnounce
          (s.count fun t => { t with learnedAnnounces := bump t.learnedAnnounces }) buffer path nowMs) :=
        hR.agree rfl
      exact hR.trans hcached (hR.trans (hR.finishDiscovery hmay _ rx nowMs)
        (hR.scheduleRebroadcast _ rx path.packetHash nowMs))

theorem learnPath (s : LiteNode K m) (path : PathEntry) (nowMs : Nat) :
    R s (s.learnPath path nowMs).1 := by
  unfold LiteNode.learnPath
  dsimp only
  split
  · exact hR.agree (shown_countRouter { s with paths := _ } _)
  · exact hR.agree rfl

theorem learnAnnounce (hmay : MayAnswer K m may raw header.destinationHash header.hops)
    (s : LiteNode K m) (view : PacketView) (rx : RxMeta) (announce : AnnounceView) (nowMs : Nat) :
    R s (s.learnAnnounce raw view header rx announce nowMs).1 := by
  have hlearn := hR.learnPath s (s.announcedPath raw view header rx announce nowMs) nowMs
  unfold LiteNode.learnAnnounce
  dsimp only
  split
  · exact hR.trans hlearn (hR.followPath hmay _ rx _ nowMs)
  · exact hlearn

theorem rememberDelivery {destinationHash : Hash16} {announce : AnnounceView} {nowMs : Nat}
    (h : s.rememberDelivery destinationHash announce nowMs = .ok s') : R s s' := by
  unfold LiteNode.rememberDelivery at h
  split at h
  · split at h
    · cases h
    · cases h
      exact hR.agree rfl
  · cases h
    exact hR.refl s

theorem acceptAnnounce (s : LiteNode K m) {view : PacketView}
    (hmay : s.MayFinish may raw view header) (rx : RxMeta) (nowMs : Nat) :
    R s (s.acceptAnnounce raw view header rx nowMs).1 := by
  unfold LiteNode.acceptAnnounce
  cases hvalid : s.validateAnnounce view header.destinationHash with
  | error e => exact hR.refl s
  | ok announce =>
      simp only
      cases hremember : s.rememberDelivery header.destinationHash announce nowMs with
      | error e => exact hR.refl s
      | ok s₁ =>
          have hremembered := hR.rememberDelivery hremember
          simp only
          split
          · exact hR.trans hremembered (hR.agree rfl)
          rename_i hnear
          have hanswer := hmay announce hvalid (UInt8.not_le.mp hnear)
          split
          · exact hR.trans hremembered
              (hR.trans (hR.cancelRebroadcast s₁ _ _ _) (hR.learnAnnounce hanswer _ _ _ _ _))
          · exact hR.trans hremembered (hR.learnAnnounce hanswer _ _ _ _ _)

theorem handleAnnounce (s : LiteNode K m) {view : PacketView}
    (hmay : s.isOwnDestination header.destinationHash = false → s.MayFinish may raw view header)
    (rx : RxMeta) (nowMs : Nat) : R s (s.handleAnnounce raw view header rx nowMs).1 := by
  unfold LiteNode.handleAnnounce
  split
  · exact hR.agree rfl
  rename_i hown
  dsimp only
  split
  · refine hR.after (hR.acceptAnnounce _ ?_ rx nowMs) rfl
    exact hmay (Bool.eq_false_iff.mpr hown)
  · exact hR.agree rfl

end Announces

theorem answerFromPath {request : PathRequest} {mode : InterfaceMode} {id : InterfaceId}
    (hmay : ∀ cached, s.announceCache.get request.requested nowMs = some cached →
      MayAnswer K m may cached.raw.bytes request.requested cached.hops) {handled : Handled K m}
    (h : s.answerFromPath request mode id nowMs = some handled) :
    R s handled.1 := by
  unfold LiteNode.answerFromPath at h
  split at h
  · cases h
  split at h
  · cases h
    exact hR.refl s
  split at h
  · cases h
    exact hR.refl s
  split at h
  · cases h
  split at h
  · cases h
  rename_i cached hcached
  split at h
  · cases h
    exact hR.refl s
  · rename_i response hresponse
    cases h
    exact hR.enqueue (hmay cached hcached s response hresponse) s _

section Searches

variable (hmay : ∀ packet, may .pathRequestForward packet)

include hmay

theorem forwardPathRequest (s : LiteNode K m) (request : PathRequest) (id : InterfaceId)
    (localOnly : Bool) : R s (s.forwardPathRequest request id localOnly).1 := by
  unfold LiteNode.forwardPathRequest
  cases s.buildPathRequest request.requested request.tag with
  | error e => exact hR.refl s
  | ok packet => exact hR.enqueuePacketBroadcast (hmay packet) s _ _

theorem discoverPath (s : LiteNode K m) (request : PathRequest) (id : InterfaceId)
    (slot : Fin requesters) (nowMs : Nat) : R s (s.discoverPath request id slot nowMs).1 := by
  unfold LiteNode.discoverPath
  dsimp only
  split
  · exact hR.agree rfl
  · exact hR.agree rfl
  split
  · exact hR.agree rfl
  · exact hR.after (hR.enqueuePacketBroadcastWithLifetime (hmay _) _ _ _ _) rfl

theorem relayPathRequest (s : LiteNode K m) (request : PathRequest) (mode : InterfaceMode)
    (id : InterfaceId) (nowMs : Nat) : R s (s.relayPathRequest request mode id nowMs).1 := by
  unfold LiteNode.relayPathRequest
  split
  · exact hR.forwardPathRequest hmay s _ _ _
  split
  · split
    · exact hR.refl s
    · exact hR.discoverPath hmay s _ _ _ _
  split
  · exact hR.forwardPathRequest hmay s _ _ _
  · exact hR.refl s

variable (s : LiteNode K m) {nowMs : Nat}
  (hanswer : ∀ requested cached, s.announceCache.get requested nowMs = some cached →
    MayAnswer K m may cached.raw.bytes requested cached.hops)

include hanswer

theorem handlePathRequest_of_parse {payload : List UInt8} {request : PathRequest}
    (hparse : PathRequest.parse payload = some request) (rx : RxMeta) :
    R (s.tagged request.tagKey nowMs) (s.handlePathRequest payload rx nowMs).1 := by
  simp only [LiteNode.handlePathRequest, hparse]
  rw [← tagged]
  have hcached := hanswer request.requested
  rw [show s.announceCache = (s.tagged request.tagKey nowMs).announceCache from rfl] at hcached
  generalize hs₁ : s.tagged request.tagKey nowMs = s₁ at hcached
  split
  · exact hR.agree rfl
  split
  · exact hR.refl s₁
  cases hanswered : s₁.answerFromPath request (rx.interfaceMode.getD s.config.mode) rx.interfaceId
      nowMs with
  | none => exact hR.relayPathRequest hmay s₁ _ _ _ _
  | some handled => exact hR.answerFromPath hcached hanswered

theorem handlePathRequest (payload : List UInt8) (rx : RxMeta) :
    Tagging R nowMs s (s.handlePathRequest payload rx nowMs).1 := by
  cases hparse : PathRequest.parse payload with
  | none =>
      simp only [LiteNode.handlePathRequest, hparse]
      exact .inl (hR.agree rfl)
  | some request =>
      exact .inr ⟨s, request.tagKey, hR.refl s,
        hR.handlePathRequest_of_parse hmay s hanswer hparse rx⟩

end Searches

/-! ### Packets in transit -/

section Transit

variable {raw : List UInt8} {originalHeader header : PacketHeader} {nowMs : Nat}

theorem handleTransportForward (hmay : MayForward K m may raw originalHeader header nowMs)
    (s : LiteNode K m) (rx : RxMeta) :
    R s (s.handleTransportForward raw originalHeader header rx nowMs).1 := by
  unfold LiteNode.handleTransportForward
  split
  · exact hR.refl s
  split
  · exact hR.refl s
  split
  · exact hR.refl s
  · exact hR.refl s
  dsimp only
  split
  · exact hR.refl s
  rename_i target forwarded hrewrite _ generation _
  have hsent := hR.enqueueForwardedWithLifetime (hmay s target forwarded hrewrite) s rx.interfaceId
    target { s.packetLifetime forwarded .transportForward with state := .reverse generation }
  split
  · rename_i hrefused
    rwa [hrefused] at hsent
  · rename_i hqueued
    rw [hqueued] at hsent
    exact hR.trans hsent (hR.agree rfl)

theorem openLink {forwarded : PacketBuffer mtu} (hmay : may .transportForward forwarded)
    (s : LiteNode K m) (header : PacketHeader) (rx : RxMeta) (target : InterfaceId)
    (entry : LinkEntry) (nowMs : Nat) :
    R s (s.openLink header rx target forwarded entry nowMs).1 := by
  unfold LiteNode.openLink
  split
  · exact hR.refl s
  rename_i generation _
  have hsent := hR.enqueueForwardedWithLifetime hmay s rx.interfaceId target
    { s.packetLifetime forwarded .transportForward with state := .link generation }
  dsimp only
  split
  · rename_i hrefused
    rwa [hrefused] at hsent
  · rename_i hqueued
    rw [hqueued] at hsent
    exact hR.trans hsent (hR.agree rfl)

theorem handleLinkRequest (hmay : MayRequest K m may raw originalHeader header nowMs)
    (s : LiteNode K m) (rx : RxMeta) :
    R s (s.handleLinkRequest raw originalHeader header rx nowMs).1 := by
  unfold LiteNode.handleLinkRequest LiteNode.relayLinkRequest
  split
  · exact hR.refl s
  split
  · exact hR.refl s
  dsimp only
  split
  · exact hR.refl s
  split
  · exact hR.agree rfl
  split
  · exact hR.agree rfl
  · exact hR.agree rfl
  rename_i hrewrite
  split
  · exact hR.agree rfl
  rename_i hadmit
  split
  · exact hR.agree rfl
  · exact hR.after (hR.openLink (hmay _ _ _ _ _ _ hrewrite hadmit) _ _ _ _ _ _) rfl

variable {reason : OutboundReason} (hmay : MayPass may raw header.hops reason)

include hmay

theorem sendLinkPacket (s : LiteNode K m) (rx : RxMeta) (link : LinkEntry) (target : InterfaceId)
    (trackedHash : Option Hash32) (nowMs : Nat) :
    R s (s.sendLinkPacket raw header rx link target trackedHash reason nowMs).1 := by
  unfold LiteNode.sendLinkPacket
  cases hbuffer : PacketBuffer.fromSlice raw with
  | error e => exact hR.refl s
  | ok buffer =>
      have hsent := hR.enqueueForwarded (hmay buffer hbuffer) s rx.interfaceId target
      dsimp only
      split
      · rename_i hrefused
        rwa [hrefused] at hsent
      · rename_i hqueued
        rw [hqueued] at hsent
        refine hR.trans hsent (hR.agree ?_)
        cases trackedHash <;> cases link.validated <;> rfl

theorem routeLinkPacket (s : LiteNode K m) (rx : RxMeta) (nowMs : Nat) :
    R s (s.routeLinkPacket raw header rx nowMs reason).1 := by
  unfold LiteNode.routeLinkPacket
  split
  · exact hR.refl s
  split
  · exact hR.refl s
  split
  · exact hR.refl s
  split
  · exact hR.refl s
  · exact hR.refl s
  split
  · exact hR.sendLinkPacket hmay s _ _ _ _ _
  dsimp only
  split
  · exact hR.agree rfl
  · exact hR.after (hR.sendLinkPacket hmay _ _ _ _ _ _) rfl

end Transit

section Proofs

variable {raw : List UInt8} {header : PacketHeader} (hmay : MayPass may raw header.hops .proofReturn)

include hmay

theorem handleLrproof (s : LiteNode K m) (rx : RxMeta) (link : LinkEntry) (nowMs : Nat) :
    R s (s.handleLrproof raw header rx link nowMs).1 := by
  unfold LiteNode.handleLrproof LiteNode.returnLrproof
  split
  · exact hR.refl s
  dsimp only
  generalize hs₁ : ({ s with packetHashes := _ } : LiteNode K m) = s₁
  have hstart : s₁.shown = s.shown := hs₁ ▸ rfl
  split
  · exact hR.agree hstart
  cases hbuffer : PacketBuffer.fromSlice raw with
  | error e => exact hR.agree hstart
  | ok buffer =>
      have hsent := hR.after (hR.enqueueForwarded (hmay buffer hbuffer) s₁ rx.interfaceId
        link.receivingInterface) hstart
      dsimp only
      split
      · rename_i hrefused
        rwa [hrefused] at hsent
      · rename_i hqueued
        rw [hqueued] at hsent
        exact hR.trans hsent (hR.agree rfl)

theorem returnProof (s : LiteNode K m) (rx : RxMeta) (nowMs : Nat) :
    R s (s.returnProof raw header rx nowMs).1 := by
  unfold LiteNode.returnProof
  split
  · exact hR.agree rfl
  rename_i table reverse generation _
  dsimp only
  generalize hs₁ : ({ s with reverse := table } : LiteNode K m) = s₁
  have hstart : s₁.shown = s.shown := hs₁ ▸ rfl
  cases hbuffer : PacketBuffer.fromSlice raw with
  | error e => exact hR.agree hstart
  | ok buffer =>
      dsimp only
      generalize s₁.packetLifetime _ _ = lifetime
      have hsent := hR.after (hR.enqueueForwardedWithLifetime (hmay buffer hbuffer) s₁ rx.interfaceId
        reverse.receivingInterface { lifetime with
          expiresMs := min reverse.expiresMs (satAdd nowMs outboundMaxAgeMs) }) hstart
      split
      · rename_i hrefused
        rw [hrefused] at hsent
        exact hR.trans hsent (hR.agree rfl)
      · rename_i hqueued
        rwa [hqueued] at hsent

theorem handleProof (s : LiteNode K m) (rx : RxMeta) (nowMs : Nat) :
    R s (s.handleProof raw header rx nowMs).1 := by
  unfold LiteNode.handleProof
  split
  · split
    · exact hR.handleLrproof hmay s _ _ _
    · exact hR.agree rfl
  have hroute := hR.routeLinkPacket hmay s rx nowMs
  split
  · rename_i heq
    rwa [heq] at hroute
  · rename_i heq
    rwa [heq] at hroute
  · rename_i heq
    rw [heq] at hroute
    split
    · exact hR.trans hroute (hR.returnProof hmay _ _ _)
    · exact hroute

end Proofs

theorem bridgePlainBroadcast {raw : List UInt8} {header : PacketHeader}
    (hmay : MayPass may raw header.hops .transportForward) (s : LiteNode K m)
    (source : InterfaceId) : R s (s.bridgePlainBroadcast raw header source).1 := by
  unfold LiteNode.bridgePlainBroadcast
  split
  · exact hR.refl s
  split
  · exact hR.refl s
  · rename_i buffer hbuffer
    exact hR.enqueuePacketBroadcast (hmay buffer hbuffer) s _ _

/-! ### Every packet -/

/-- A handler leaves a relation, or one with a tag written. -/
theorem handlePacket (s : LiteNode K m) {raw : List UInt8} {view : PacketView}
    {header : PacketHeader} (hmay : s.Permits may raw view header nowMs) (rx : RxMeta) :
    Tagging R nowMs s (s.handlePacket raw view header rx nowMs).1 := by
  unfold LiteNode.handlePacket
  split
  · rename_i htype
    exact .inl (hR.handleAnnounce s (hmay.finish htype) rx nowMs)
  · unfold handleData
    have hroute := hR.routeLinkPacket hmay.pass s rx nowMs
    split
    · rename_i heq
      rw [heq] at hroute
      exact .inl hroute
    · rename_i heq
      rw [heq] at hroute
      exact .inl hroute
    · rename_i heq
      obtain rfl : _ = s :=
        congrArg Prod.fst (heq.symm.trans (routeLinkPacket_of_not (congrArg Prod.snd heq)))
      split
      · exact hR.handlePathRequest hmay.search _ hmay.answer _ _
      split
      · exact .inl (hR.bridgePlainBroadcast hmay.pass _ _)
      · exact .inl (hR.handleTransportForward hmay.forward _ _)
  · exact .inl (hR.handleLinkRequest hmay.request s _)
  · exact .inl (hR.handleProof hmay.proof s _ _)

theorem reportHandled {handled : Handled K m} (h : Tagging R nowMs s handled.1) (raw : List UInt8)
    (header : PacketHeader) (endpoint : Option (PacketBuffer mtu)) :
    Tagging R nowMs s (reportHandled handled raw header endpoint).node := by
  unfold LiteNode.reportHandled
  obtain ⟨s₁, result⟩ := handled
  dsimp only
  repeat' split
  all_goals exact hR.tagging_trans h (hR.agree rfl)

theorem routerIngress (s : LiteNode K m) (id : InterfaceId) (wireLen : Nat) :
    R s (s.routerIngress id wireLen).1 := by
  unfold LiteNode.routerIngress
  dsimp only
  repeat' split
  all_goals first
    | exact hR.refl s
    | exact hR.agree (shown_countRouter s _)

/-! ### Ticks -/

/-- The relation holds and the schedule holds what may be sent, if it did before. -/
def Repeating (may : OutboundReason → PacketBuffer mtu → Prop)
    (R : LiteNode K m → LiteNode K m → Prop) (s s' : LiteNode K m) : Prop :=
  s.announceSchedule.All (MayRepeat may) → R s s' ∧ s'.announceSchedule.All (MayRepeat may)

theorem repeating_trans (h : Repeating may R s s') (h' : Repeating may R s' s'') :
    Repeating may R s s'' := by
  intro hall
  obtain ⟨hrel, hall'⟩ := h hall
  obtain ⟨hrel', hall''⟩ := h' hall'
  exact ⟨hR.trans hrel hrel', hall''⟩

omit [Crypto] hR in
theorem repeating_of_eq (h : R s s') (heq : s'.announceSchedule = s.announceSchedule) :
    Repeating may R s s' := by
  intro hall
  rw [heq]
  exact ⟨h, hall⟩

variable {announce : ScheduledAnnounce}

section

variable (s) (hmay : MayRepeat may announce)

include hmay

theorem sendDue (nowMs : Nat) :
    Repeating may R s (s.sendDue announce nowMs).1 ∧
      MayRepeat may (s.sendDue announce nowMs).2 := by
  have hreason : may (if announce.blockRebroadcast then .pathResponse else .announceRebroadcast)
      announce.packet := by
    split
    · exact hmay.2
    · exact hmay.1
  unfold LiteNode.sendDue
  split
  · exact ⟨repeating_of_eq (hR.refl s) rfl, hmay⟩
  · refine ⟨repeating_of_eq (hR.enqueue hreason s _) ?_, hmay⟩
    obtain ⟨_, _, _, _, heq⟩ := enqueue_eq s announce.interfaceId announce.packet
      (if announce.blockRebroadcast then .pathResponse else .announceRebroadcast)
    rw [heq]

theorem rescheduleDue (pathHash : Hash32) (nowMs : Nat) :
    Repeating may R s (s.rescheduleDue announce pathHash nowMs) := by
  intro hall
  unfold LiteNode.rescheduleDue
  dsimp only
  repeat' split
  · refine ⟨hR.agree rfl, AnnounceSchedule.all_insert hall ?_ nowMs⟩
    exact hmay
  · refine ⟨hR.agree rfl, AnnounceSchedule.all_insert hall ?_ nowMs⟩
    exact hmay
  · exact ⟨hR.refl s, hall⟩

theorem processDue (nowMs : Nat) : Repeating may R s (s.processDue announce nowMs) := by
  unfold LiteNode.processDue
  split
  · exact repeating_of_eq (hR.refl s) rfl
  split
  · exact repeating_of_eq (hR.refl s) rfl
  · obtain ⟨hsent, hmay'⟩ := hR.sendDue s hmay nowMs
    exact hR.repeating_trans hsent (hR.rescheduleDue _ hmay' _ _)

end

theorem dueLoop (nowMs rounds : Nat) (s : LiteNode K m) :
    Repeating may R s (dueLoop nowMs rounds s) := by
  induction rounds generalizing s with
  | zero => exact repeating_of_eq (hR.refl s) rfl
  | succ rounds ih =>
      intro hall
      obtain ⟨hrest, hpopped⟩ := AnnounceSchedule.all_popDue hall nowMs
      unfold LiteNode.dueLoop
      split
      · rename_i schedule heq
        rw [heq] at hrest
        exact ⟨hR.agree rfl, hrest⟩
      · rename_i schedule announce heq
        rw [heq] at hrest hpopped
        have hturn := hR.repeating_trans
          (hR.processDue { s with announceSchedule := schedule } (hpopped announce rfl) nowMs)
          (ih _) hrest
        exact ⟨hR.after hturn.1 rfl, hturn.2⟩

theorem releaseLoop (slot : Fin requesters) (target : InterfaceConfig) (nowMs rounds : Nat)
    (s : LiteNode K m) : Repeating may R s (releaseLoop slot target nowMs rounds s) := by
  induction rounds generalizing s with
  | zero => exact repeating_of_eq (hR.refl s) rfl
  | succ rounds ih =>
      intro hall
      obtain ⟨hrest, hreleased⟩ := AnnounceSchedule.all_releasePending hall slot nowMs fun _ h => h
      unfold LiteNode.releaseLoop
      split
      · rename_i schedule heq
        rw [heq] at hrest
        exact ⟨hR.agree rfl, hrest⟩
      rename_i schedule announce heq
      rw [heq] at hrest hreleased
      dsimp only
      generalize hs₁ : ({ s with announceSchedule := schedule } : LiteNode K m) = s₁
      have hstart : s₁.shown = s.shown := hs₁ ▸ rfl
      have hall₁ : s₁.announceSchedule.All (MayRepeat may) := hs₁ ▸ hrest
      split
      · have hdropped : Repeating may R
            { s with announceSchedule := schedule.remove announce.destinationHash } _ := ih _
        obtain ⟨hrel, hall'⟩ := hdropped (hrest.clearWhere _)
        exact ⟨hR.after hrel rfl, hall'⟩
      have hsent := hR.after (hR.enqueueForwarded (hreleased announce rfl).1 s₁ announce.interfaceId
        target.id) hstart
      split
      · rename_i hrefused
        rw [hrefused] at hsent
        obtain ⟨_, _, rfl⟩ := onlyCounts_of_refused hrefused
        exact ⟨hsent, hall₁⟩
      · rename_i s₂ hqueued
        rw [hqueued] at hsent
        obtain ⟨_, _, hsends⟩ := sends_of_queued hqueued
        obtain ⟨_, _, rfl⟩ := hsends.rest
        exact ⟨hR.trans hsent (hR.agree (shown_chargeGate _ _ _ _ _)), hall₁⟩

theorem releaseSlot (nowMs : Nat) (s : LiteNode K m) (slot : Fin requesters) :
    Repeating may R s (releaseSlot nowMs s slot) := by
  unfold LiteNode.releaseSlot
  split
  · exact repeating_of_eq (hR.refl s) rfl
  split
  · exact repeating_of_eq (hR.refl s) rfl
  split
  · exact repeating_of_eq (hR.refl s) rfl
  · exact hR.releaseLoop _ _ _ _ s

theorem releaseGatedAnnounces (s : LiteNode K m) (nowMs : Nat) :
    Repeating may R s (s.releaseGatedAnnounces nowMs) := by
  unfold LiteNode.releaseGatedAnnounces
  generalize requesterSlots = slots
  induction slots generalizing s with
  | nil => exact repeating_of_eq (hR.refl s) rfl
  | cons slot slots ih => exact hR.repeating_trans (hR.releaseSlot nowMs s slot) (ih _)

theorem tick (s : LiteNode K m) (nowMs : Nat) :
    Repeating may R (s.readied nowMs) (s.tick nowMs) :=
  hR.repeating_trans (hR.dueLoop nowMs _ _) (hR.releaseGatedAnnounces _ nowMs)

end Handles

namespace Follows

variable [Crypto] {R : LiteNode K m → LiteNode K m → Prop} (hR : Follows R)

include hR

theorem refl (s : LiteNode K m) : R s s := hR.agree rfl

theorem handles : Handles (fun _ _ => True) R where
  agree h := hR.agree (Prod.mk.inj h).1
  trans := hR.trans
  unanswered := hR.unanswered
  enqueueWithLifetime s id packet reason lifetime _ :=
    hR.enqueueWithLifetime s id packet reason lifetime

omit hR in
theorem permits_all (s : LiteNode K m) (raw : List UInt8) (view : PacketView)
    (header : PacketHeader) (nowMs : Nat) : s.Permits (fun _ _ => True) raw view header nowMs where
  finish _ _ _ _ _ _ _ _ := trivial
  answer _ _ _ _ _ _ := trivial
  search _ := trivial
  forward _ _ _ _ := trivial
  request _ _ _ _ _ _ _ _ := trivial
  pass _ _ := trivial
  proof _ _ := trivial

theorem enqueue (s : LiteNode K m) (id : InterfaceId) (packet : PacketBuffer mtu)
    (reason : OutboundReason) : R s (s.enqueue id packet reason).1 :=
  hR.enqueueWithLifetime s id packet reason _

theorem handlePathRequest_of_parse (s : LiteNode K m) {payload : List UInt8} {request : PathRequest}
    (hparse : PathRequest.parse payload = some request) (rx : RxMeta) (nowMs : Nat) :
    R (s.tagged request.tagKey nowMs) (s.handlePathRequest payload rx nowMs).1 :=
  hR.handles.handlePathRequest_of_parse (fun _ => trivial) s (fun _ _ _ _ _ _ => trivial) hparse rx

/-! ### Ingest -/

section

variable (s) (raw : List UInt8) (view : PacketView) (rx : RxMeta) (nowMs : Nat)
  (localLink : Option Hash16) (endpoint : Option (PacketBuffer mtu))

theorem ingestFresh : Tagging R nowMs s (s.ingestFresh raw view rx nowMs endpoint).node := by
  unfold LiteNode.ingestFresh
  dsimp only
  split
  · exact .inl (hR.refl s)
  · exact hR.handles.reportHandled (hR.handles.handlePacket s (permits_all s _ _ _ _) _) _ _ _

theorem ingestUnlessSeen :
    Tagging R nowMs s (s.ingestUnlessSeen raw view rx nowMs localLink endpoint).node := by
  unfold LiteNode.ingestUnlessSeen
  split
  · exact hR.ingestFresh s _ _ _ _ _
  dsimp only
  split
  · exact hR.handles.tagging_after (hR.ingestFresh _ _ _ _ _ _) (hR.agree rfl)
  · exact .inl (hR.agree rfl)

theorem ingestPacket : Tagging R nowMs s (s.ingestPacket raw rx nowMs localLink endpoint).node := by
  have hsame : Tagging R nowMs s s := .inl (hR.refl s)
  unfold LiteNode.ingestPacket
  split
  · exact hsame
  split
  · exact hsame
  dsimp only
  split
  · exact hsame
  split
  · unfold capturePlain
    repeat' split
    all_goals exact hsame
  split
  · exact .inl (hR.agree rfl)
  · exact hR.handles.tagging_after (hR.ingestUnlessSeen _ _ _ _ _ _ _) (hR.agree rfl)

end

theorem ingestInner (s : LiteNode K m) (raw : List UInt8) (rx : RxMeta) (nowMs : Nat)
    (localLink : Option Hash16) (endpoint : Option (PacketBuffer mtu)) :
    Tagging R nowMs (s.prepareIngest rx nowMs)
      (s.ingestInner raw rx nowMs localLink endpoint).node := by
  have hingress := hR.handles.routerIngress (s.prepareIngest rx nowMs) rx.interfaceId raw.length
  unfold LiteNode.ingestInner LiteNode.ingestPrepared
  split
  · rename_i heq
    rw [heq] at hingress
    exact .inl hingress
  · rename_i heq
    rw [heq] at hingress
    exact .inl hingress
  · rename_i heq
    rw [heq] at hingress
    dsimp only
    split
    · exact .inl (hR.trans hingress (hR.agree rfl))
    · exact hR.handles.tagging_after (hR.ingestPacket _ _ _ _ _ _) hingress

theorem tick (s : LiteNode K m) (nowMs : Nat) : R (s.readied nowMs) (s.tick nowMs) :=
  (hR.handles.tick s nowMs fun _ _ _ => ⟨trivial, trivial⟩).1

/-! ### Operations of the host -/

theorem requestPath (s : LiteNode K m) (destinationHash : Hash16) (tag : Bytes 16)
    (id : InterfaceId) (nowMs : Nat) :
    Tagging R nowMs ({ s with clockMs := nowMs }.expireOutbound nowMs)
      (s.requestPath destinationHash tag id nowMs).1 := by
  unfold LiteNode.requestPath
  dsimp only
  generalize ({ s with clockMs := nowMs } : LiteNode K m).expireOutbound nowMs = s₁
  split
  · exact .inl (hR.refl s₁)
  rename_i request _
  have hsent := hR.enqueue s₁ id request .pathRequest
  split
  · rename_i hrefused
    rw [hrefused] at hsent
    exact .inl hsent
  · rename_i hqueued
    rw [hqueued] at hsent
    exact .inr ⟨_, _, hsent, hR.refl _⟩

end Follows

theorem kept_registerLocalSlot (s : LiteNode K m) (value : LocalSlot) :
    (s.registerLocalSlot value).1.kept = s.kept := by
  unfold LiteNode.registerLocalSlot
  repeat' split
  all_goals rfl

end LiteNode

namespace Operation

variable {K : Capacities} {m : Model}

def resets : Operation m → Bool
  | .resetInPlace _ _ | .resetRouterInPlace _ _ _ _ => true
  | _ => false

def hands : Operation m → Bool
  | .pollTx | .pollTxForInterface _ | .retainedOutboundAck _ _ | .retainedOutboundTake _ => true
  | _ => false

/-- The operations by which the host itself writes to the queue or the books. -/
def edits : Operation m → Bool
  | .recordExpiredOutbound | .updateInterface _ _ _ _ _ _ | .retainedOutboundSelect _ _ _
  | .retainedOutboundRetireInterface _ | .retireReplacedInterface _ | .sendLocal _ _ => true
  | _ => false

/-- The operations after which frames are looked at again. -/
def expires : Operation m → Bool
  | .unregisterInterface _ | .setInterfaceOnline _ _ | .updateInterfacePacketCapacity _ _ _ => true
  | _ => false

/-- The other operations leave the queue, the tags and the clock, or take out what has expired by the
clock once the tables are changed. -/
theorem kept_perform [Crypto] (s : LiteNode K m) {op : Operation m} (htime : op.time = none)
    (hresets : op.resets = false) (hhands : op.hands = false) (hedits : op.edits = false) :
    (op.perform s).kept = s.kept ∨ op.expires = true ∧ ∃ s₁ : LiteNode K m,
      (op.perform s).kept = (s₁.expireOutbound s.clockMs).kept ∧ s₁.kept = s.kept := by
  cases op with
  | ingest | tick | requestPath => cases htime
  | resetInPlace | resetRouterInPlace => cases hresets
  | pollTx | pollTxForInterface | retainedOutboundAck | retainedOutboundTake => cases hhands
  | recordExpiredOutbound | updateInterface | retainedOutboundSelect
  | retainedOutboundRetireInterface | retireReplacedInterface | sendLocal => cases hedits
  | registerLocalDestination => exact .inl (s.kept_registerLocalSlot _)
  | registerLocalLink =>
      show (s.registerLocalLink _).1.kept = _ ∨ _
      unfold LiteNode.registerLocalLink
      split
      · exact .inl rfl
      · exact .inl (s.kept_registerLocalSlot _)
  | setAnnounceBudget =>
      show (s.setAnnounceBudget _ _).kept = _ ∨ _
      unfold LiteNode.setAnnounceBudget
      split
      · exact .inl rfl
      · exact .inl rfl
  | knownDestinationLearn =>
      show (s.knownDestinationLearn _ _ _).1.kept = _ ∨ _
      unfold LiteNode.knownDestinationLearn
      split
      · exact .inl rfl
      · exact .inl rfl
  | knownDestinationsImport =>
      show (s.knownDestinationsImport _ _).1.kept = _ ∨ _
      unfold LiteNode.knownDestinationsImport
      split
      · exact .inl rfl
      · exact .inl rfl
  | setOwnDestination destination =>
      cases destination with
      | none => exact .inl rfl
      | some destination => exact .inl (LiteNode.kept_registerLocalSlot _ _)
  | setWatchedDestinations =>
      show (s.setWatchedDestinations _).1.kept = _ ∨ _
      unfold LiteNode.setWatchedDestinations
      split
      · exact .inl rfl
      · exact .inl rfl
  | registerInterface =>
      show (s.registerInterface _).1.kept = _ ∨ _
      unfold LiteNode.registerInterface
      repeat' split
      all_goals exact .inl rfl
  | unregisterInterface =>
      show (s.unregisterInterface _).1.kept = _ ∨ _ ∧ ∃ s₁, (s.unregisterInterface _).1.kept = _ ∧ _
      unfold LiteNode.unregisterInterface
      split
      · exact .inl rfl
      split
      · exact .inl rfl
      split
      · exact .inl rfl
      · exact .inr ⟨rfl, _, rfl, rfl⟩
  | setInterfaceOnline =>
      show (s.setInterfaceOnline _ _).1.kept = _ ∨
        _ ∧ ∃ s₁, (s.setInterfaceOnline _ _).1.kept = _ ∧ _
      unfold LiteNode.setInterfaceOnline
      split
      · exact .inl rfl
      dsimp only
      split
      · exact .inl rfl
      split
      · exact .inl rfl
      split
      · exact .inl rfl
      · exact .inr ⟨rfl, _, rfl, rfl⟩
  | updateInterfacePacketCapacity =>
      show (s.updateInterfacePacketCapacity _ _ _).1.kept = _ ∨
        _ ∧ ∃ s₁, (s.updateInterfacePacketCapacity _ _ _).1.kept = _ ∧ _
      unfold LiteNode.updateInterfacePacketCapacity
      split
      · exact .inl rfl
      split
      · exact .inl rfl
      dsimp only
      split
      · exact .inl rfl
      · exact .inr ⟨rfl, _, rfl, rfl⟩
  | _ => exact .inl rfl

end Operation

end ReticulumLite
