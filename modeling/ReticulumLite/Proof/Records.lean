import ReticulumLite.Proof.Authenticity

/-!
# What a packet that is not sent leaves behind

Nothing should be recorded of a packet that never queued. But an ingest enters the hash of a packet
before the handler sees it, and the handler of path requests enters the tag and starts the discovery
before it sends anything. So nothing is recorded only where there is nothing to record.
-/

namespace ReticulumLite

open Bounded

namespace LiteNode

variable {K : Capacities} {m : Model} {s s' t : LiteNode K m}

/-! ### Sending records nothing -/

structure SameRecords (s s' : LiteNode K m) : Prop where
  packetHashes : s'.packetHashes = s.packetHashes
  requestTags : s'.requestTags = s.requestTags
  discoveries : s'.discoveries = s.discoveries

namespace SameRecords

theorem refl (s : LiteNode K m) : SameRecords s s := ⟨rfl, rfl, rfl⟩

theorem trans (h : SameRecords s t) (h' : SameRecords t s') : SameRecords s s' :=
  ⟨h'.packetHashes.trans h.packetHashes, h'.requestTags.trans h.requestTags,
    h'.discoveries.trans h.discoveries⟩

theorem of_onlyCounts (h : OnlyCounts s s') : SameRecords s s' := by
  obtain ⟨_, _, rfl⟩ := h
  exact ⟨rfl, rfl, rfl⟩

theorem of_sends {frame : OutboundFrame} (h : s.Sends frame s') : SameRecords s s' := by
  obtain ⟨_, _, rfl⟩ := h.rest
  exact ⟨rfl, rfl, rfl⟩

variable [Crypto]

section

variable (s) (source target : InterfaceId) (packet : PacketBuffer mtu) (reason : OutboundReason)

theorem enqueueWithLifetime (id : InterfaceId) (packet : PacketBuffer mtu) (reason : OutboundReason)
    (lifetime : OutboundLifetime) :
    SameRecords s (s.enqueueWithLifetime id packet reason lifetime).1 := by
  rcases enqueueWithLifetime_spec s id packet reason lifetime rfl with
    ⟨_, hcounts⟩ | ⟨_, _, _, _, hsend⟩
  · exact of_onlyCounts hcounts
  · exact of_sends hsend

theorem enqueueForwardedWithLifetime (lifetime : OutboundLifetime) :
    SameRecords s (s.enqueueForwardedWithLifetime source target packet reason lifetime).1 := by
  rcases enqueueForwardedWithLifetime_spec s source target packet reason lifetime rfl with
    ⟨_, hcounts⟩ | ⟨_, _, _, _, hsend⟩
  · exact of_onlyCounts hcounts
  · exact of_sends hsend

theorem broadcast (localOnly : Bool) (lifetime : OutboundLifetime) (slots : List (Fin requesters))
    (s : LiteNode K m) (n : Nat) :
    SameRecords s
      (slots.foldl (broadcastToSlot source packet reason localOnly lifetime) (s, n)).1 := by
  induction slots generalizing s n with
  | nil => exact refl s
  | cons slot slots ih =>
      have hslot : SameRecords s
          (broadcastToSlot source packet reason localOnly lifetime (s, n) slot).1 := by
        unfold broadcastToSlot
        repeat' split
        · exact refl s
        · exact enqueueForwardedWithLifetime _ _ _ _ _ _
        · exact refl s
      exact hslot.trans (ih _ _)

theorem enqueuePacketBroadcastWithLifetime (localOnly : Bool) (lifetime : OutboundLifetime) :
    SameRecords s
      (s.enqueuePacketBroadcastWithLifetime source packet reason localOnly lifetime).1 := by
  unfold LiteNode.enqueuePacketBroadcastWithLifetime
  split
  · exact enqueueWithLifetime _ _ _ _ _
  · exact broadcast _ _ _ _ _ _ _ _

end

end SameRecords

variable [Crypto]

section

variable (s raw)

theorem sameRecords_handleTransportForward (originalHeader header : PacketHeader) (rx : RxMeta)
    (nowMs : Nat) :
    SameRecords s (s.handleTransportForward raw originalHeader header rx nowMs).1 := by
  unfold handleTransportForward
  split
  · exact .refl s
  split
  · exact .refl s
  split
  · exact .refl s
  · exact .refl s
  rename_i target forwarded _
  simp only
  split
  · exact .refl s
  rename_i generation _
  have hsent := SameRecords.enqueueForwardedWithLifetime s rx.interfaceId target forwarded
    .transportForward { s.packetLifetime forwarded .transportForward with state := .reverse generation }
  generalize s.enqueueForwardedWithLifetime _ _ _ _ _ = sent at hsent ⊢
  obtain ⟨s₁, queued⟩ := sent
  cases queued with
  | false => exact hsent
  | true => exact hsent.trans ⟨rfl, rfl, rfl⟩

theorem sameRecords_bridgePlainBroadcast (header : PacketHeader) (source : InterfaceId) :
    SameRecords s (s.bridgePlainBroadcast raw header source).1 := by
  unfold bridgePlainBroadcast enqueuePacketBroadcast
  simp only
  repeat' split
  all_goals first
    | exact .refl s
    | exact SameRecords.enqueuePacketBroadcastWithLifetime _ _ _ _ _ _

theorem sameRecords_forwardPathRequest (request : PathRequest) (id : InterfaceId) (localOnly : Bool) :
    SameRecords s (s.forwardPathRequest request id localOnly).1 := by
  unfold forwardPathRequest enqueuePacketBroadcast
  split
  · exact .refl s
  · exact SameRecords.enqueuePacketBroadcastWithLifetime _ _ _ _ _ _

end

/-! ### Path requests -/

/-- No route answers a request: there is none, or it does not lead back and the announce it was
learned from is gone. -/
def Unanswered (s : LiteNode K m) (request : PathRequest) (mode : InterfaceMode)
    (id : InterfaceId) (nowMs : Nat) : Prop :=
  ∀ path, s.paths.getLive request.requested nowMs = some path →
    (request.requestorTransportId.any fun requestor => path.nextHop = some requestor) = false ∧
      ¬ (mode = .roaming ∧ path.interfaceId = id) ∧
      s.announceCache.get request.requested nowMs = none

structure StartsDiscovery (s : LiteNode K m) (request : PathRequest) (mode : InterfaceMode)
    (id : InterfaceId) (nowMs : Nat) : Prop where
  foreign : s.isOwnDestination request.requested = false
  unanswered : s.Unanswered request mode id nowMs
  remote : ¬ (m = .router ∧ s.isLocalClientInterface id = true)
  enabled : s.config.transportEnabled = true
  discovers : modeDiscoversUnknownPaths mode = true
  slot : ∃ slot, s.interfaceSlot id = some slot ∧ (s.interfaces.facts slot).outbound = true
  startable : s.discoveries.Startable request.requested nowMs
  time : nowMs < u64Max

variable {request : PathRequest} {mode : InterfaceMode} {id : InterfaceId} {nowMs : Nat}

theorem answerFromPath_eq_none (henabled : s.config.transportEnabled = true) :
    s.answerFromPath request mode id nowMs = none ↔ s.Unanswered request mode id nowMs := by
  unfold answerFromPath Unanswered
  cases s.paths.getLive request.requested nowMs with
  | none => simp
  | some path =>
      simp only [Option.some.injEq, forall_eq', henabled, Bool.true_eq_false, if_false]
      split
      · rename_i hback
        simp [hback]
      rename_i hback
      split
      · rename_i hroaming
        simp [hroaming]
      rename_i hroaming
      rw [Bool.not_eq_true] at hback
      simp only [hback, hroaming, not_false_eq_true, true_and]
      cases s.announceCache.get request.requested nowMs with
      | none => simp
      | some cached =>
          simp only [reduceCtorEq, iff_false]
          split <;> simp

theorem sameRecords_answerFromPath {handled : Handled K m}
    (h : s.answerFromPath request mode id nowMs = some handled) : SameRecords s handled.1 := by
  unfold answerFromPath enqueue at h
  simp only at h
  repeat' split at h
  all_goals cases h
  · exact .refl s
  · exact .refl s
  · exact .refl s
  all_goals exact SameRecords.enqueueWithLifetime _ _ _ _ _

omit [Crypto] in
theorem lt_satAdd_discoveryTimeout (bitrate : Nat) :
    nowMs < satAdd nowMs (discoveryTimeout bitrate) ↔ nowMs < u64Max := by
  have hpos : 0 < discoveryTimeout bitrate := by
    unfold discoveryTimeout requestGateMs
    simp only
    split <;> omega
  unfold satAdd
  omega

/-- A request that is not passed on leaves a discovery that runs, if it starts one. -/
structure Searches (s : LiteNode K m) (request : PathRequest) (mode : InterfaceMode)
    (id : InterfaceId) (nowMs : Nat) (s' : LiteNode K m) : Prop where
  packetHashes : s'.packetHashes = s.packetHashes
  requestTags : s'.requestTags = s.requestTags
  discoveries :
    (s.StartsDiscovery request mode id nowMs ∧
      ∃ e, s'.discoveries.Has e ∧ e.live nowMs = true ∧ ¬ s.discoveries.Has e) ∨
    (¬ s.StartsDiscovery request mode id nowMs ∧ ∀ e, s'.discoveries.Has e → s.discoveries.Has e)

omit [Crypto] in
theorem SameRecords.searches (h : SameRecords s s')
    (hnot : ¬ s.StartsDiscovery request mode id nowMs) :
    s.Searches request mode id nowMs s' where
  packetHashes := h.packetHashes
  requestTags := h.requestTags
  discoveries := by
    rw [h.discoveries]
    exact .inr ⟨hnot, fun _ he => he⟩

theorem searches_discoverPath {slot : Fin requesters}
    (hslot : s.interfaceSlot id = some slot ∧ (s.interfaces.facts slot).outbound = true)
    (hforeign : s.isOwnDestination request.requested = false)
    (hunanswered : s.Unanswered request mode id nowMs)
    (hremote : ¬ (m = .router ∧ s.isLocalClientInterface id = true))
    (hdiscovers : s.config.transportEnabled = true ∧ modeDiscoversUnknownPaths mode = true)
    (h : (s.discoverPath request id slot nowMs).2 = .ok .dropped) :
    s.Searches request mode id nowMs (s.discoverPath request id slot nowMs).1 := by
  have hbegun := s.discoveries.begin_spec request.requested slot nowMs
    (discoveryTimeout (s.slowestOutboundBitrate id))
  rw [lt_satAdd_discoveryTimeout] at hbegun
  unfold discoverPath at h ⊢
  simp only at h ⊢
  generalize s.discoveries.begin request.requested slot nowMs
    (discoveryTimeout (s.slowestOutboundBitrate id)) = begun at h hbegun ⊢
  obtain ⟨discoveries, outcome⟩ := begun
  rcases hbegun with hjoined | ⟨hrefused, hexpired, hnot⟩ | ⟨⟨identity, hnew⟩, hstarts, hadded⟩
  · simp only at hjoined
    rw [hjoined] at h
    cases h
  · simp only at hrefused hexpired
    rw [hrefused, hexpired]
    refine ⟨rfl, rfl, .inr ⟨fun hstart => hnot ⟨hstart.startable, hstart.time⟩, fun e he => ?_⟩⟩
    exact (Discoveries.has_expire.mp he).1
  · simp only at hnew hadded
    rw [hnew] at h ⊢
    simp only at h ⊢
    cases hbuilt : buildPathRequest { s with discoveries } request.requested request.tag with
    | error e =>
        rw [hbuilt] at h
        cases h
    | ok packet =>
        have hsent := SameRecords.enqueuePacketBroadcastWithLifetime { s with discoveries } id packet
          .pathRequestForward false (discoveryLifetime { s with discoveries } identity nowMs)
        refine ⟨hsent.packetHashes, hsent.requestTags, ?_⟩
        simp only [hsent.discoveries]
        exact .inl ⟨⟨hforeign, hunanswered, hremote, hdiscovers.1, hdiscovers.2, ⟨slot, hslot⟩,
          hstarts.1, hstarts.2⟩, hadded⟩

theorem relayPathRequest_ne_localEndpoint (s : LiteNode K m) (request : PathRequest)
    (mode : InterfaceMode) (id : InterfaceId) (nowMs : Nat) :
    (s.relayPathRequest request mode id nowMs).2 ≠ .ok .localEndpoint := by
  intro h
  unfold relayPathRequest forwardPathRequest discoverPath at h
  simp only at h
  repeat' split at h
  all_goals cases h

theorem searches_relayPathRequest (hforeign : s.isOwnDestination request.requested = false)
    (hunanswered : s.config.transportEnabled = true → s.Unanswered request mode id nowMs)
    (h : (s.relayPathRequest request mode id nowMs).2 = .ok .dropped) :
    s.Searches request mode id nowMs (s.relayPathRequest request mode id nowMs).1 := by
  unfold relayPathRequest at h ⊢
  split at h
  · rename_i hlocal
    rw [if_pos hlocal]
    exact (sameRecords_forwardPathRequest s request id false).searches fun hstart =>
      hstart.remote hlocal
  rename_i hremote
  rw [if_neg hremote]
  split at h
  · rename_i hdiscovers
    rw [if_pos hdiscovers]
    cases hslot : (s.interfaceSlot id).filter fun slot => (s.interfaces.facts slot).outbound with
    | none =>
        refine (SameRecords.refl s).searches fun hstart => ?_
        obtain ⟨slot, hget, hout⟩ := hstart.slot
        rw [hget, Option.filter_some, if_pos hout] at hslot
        cases hslot
    | some slot =>
        rw [hslot] at h
        exact searches_discoverPath (Option.filter_eq_some_iff.mp hslot) hforeign
          (hunanswered hdiscovers.1) hremote hdiscovers h
  rename_i hdiscovers
  rw [if_neg hdiscovers]
  have hnot : ¬ s.StartsDiscovery request mode id nowMs := fun hstart =>
    hdiscovers ⟨hstart.enabled, hstart.discovers⟩
  split
  · exact (sameRecords_forwardPathRequest s request id true).searches hnot
  · exact (SameRecords.refl s).searches hnot

omit [Crypto] in
theorem StartsDiscovery.congr (h : s.StartsDiscovery request mode id nowMs)
    (hlocal : t.localSlots = s.localSlots) (hconfig : t.config = s.config)
    (hpaths : t.paths = s.paths) (hcache : t.announceCache = s.announceCache)
    (hinterfaces : t.interfaces = s.interfaces)
    (hstartable : s.discoveries.Startable request.requested nowMs →
      t.discoveries.Startable request.requested nowMs) :
    t.StartsDiscovery request mode id nowMs where
  foreign := by
    rw [isOwnDestination, hlocal]
    exact h.foreign
  unanswered := by
    intro path hpath
    rw [hcache]
    exact h.unanswered path (hpaths ▸ hpath)
  remote := by
    unfold isLocalClientInterface interfaceSlot
    rw [hinterfaces]
    exact h.remote
  enabled := hconfig ▸ h.enabled
  discovers := h.discovers
  slot := by
    unfold interfaceSlot
    rw [hinterfaces]
    exact h.slot
  startable := hstartable h.startable
  time := h.time

/-- A request that can be read, and is no duplicate, leaves its tag; it leaves a discovery if it
starts one. -/
theorem records_handlePathRequest {payload : List UInt8} {rx : RxMeta}
    (h : (s.handlePathRequest payload rx nowMs).2 = .ok .dropped ∨
      (s.handlePathRequest payload rx nowMs).2 = .ok .localEndpoint) :
    PathRequest.parse payload = none ∧ SameRecords s (s.handlePathRequest payload rx nowMs).1 ∨
      ∃ request requestTags, PathRequest.parse payload = some request ∧
        s.requestTags.insertIfNew request.tagKey (satAdd nowMs pathRequestDuplicateGateMs) nowMs =
          (requestTags, true) ∧
        Searches { s with requestTags } request (rx.interfaceMode.getD s.config.mode) rx.interfaceId
          nowMs (s.handlePathRequest payload rx nowMs).1 := by
  unfold handlePathRequest at h ⊢
  cases hparse : PathRequest.parse payload with
  | none =>
      have hcounts : OnlyCounts s s.countDropped := (OnlyCounts.refl s).count _
      exact .inl ⟨rfl, .of_onlyCounts hcounts⟩
  | some request =>
  simp only [hparse] at h ⊢
  cases htags : s.requestTags.insertIfNew request.tagKey (satAdd nowMs pathRequestDuplicateGateMs)
    nowMs with
  | mk requestTags new =>
  simp only [htags] at h ⊢
  cases new with
  | false => rcases h with h | h <;> cases h
  | true =>
  refine .inr ⟨request, requestTags, rfl, htags, ?_⟩
  simp only [Bool.true_eq_false, if_false] at h ⊢
  split at h
  · rename_i hown
    rw [if_pos hown]
    refine (SameRecords.refl _).searches fun hstart => ?_
    rw [hstart.foreign] at hown
    cases hown
  rename_i hforeign
  rw [if_neg hforeign]
  rw [Bool.not_eq_true] at hforeign
  cases hanswer : answerFromPath { s with requestTags } request (rx.interfaceMode.getD s.config.mode)
    rx.interfaceId nowMs with
  | some handled =>
      refine (sameRecords_answerFromPath hanswer).searches fun hstart => ?_
      have hnone := (answerFromPath_eq_none (s := { s with requestTags }) hstart.enabled).mpr
        hstart.unanswered
      rw [hnone] at hanswer
      cases hanswer
  | none =>
      rw [hanswer] at h
      simp only [Option.getD_none] at h ⊢
      refine searches_relayPathRequest hforeign (fun henabled =>
        (answerFromPath_eq_none henabled).mp hanswer) ?_
      rcases h with h | h
      · exact h
      · exact absurd h (relayPathRequest_ne_localEndpoint _ _ _ _ _)

/-! ### Ingests -/

variable {raw frame : List UInt8} {view : PacketView} {header : PacketHeader} {rx : RxMeta}
  {localLink : Option Hash16} {endpoint : Option (PacketBuffer mtu)}

omit [Crypto] in
/-- A caller who is told that a packet was dropped was told so by the handler, or did not give the
room to take what was meant for the host. -/
theorem of_reportHandled_dropped {handled : Handled K m}
    (h : (reportHandled handled raw header endpoint).answer = .ok .dropped) :
    (handled.2 = .ok .dropped ∨ handled.2 = .ok .localEndpoint) ∧
      (reportHandled handled raw header endpoint).node = handled.1 := by
  obtain ⟨s, result⟩ := handled
  unfold reportHandled at h ⊢
  simp only at h ⊢
  split at h
  · exact ⟨.inr rfl, rfl⟩
  · repeat' split at h
    all_goals cases h
  · repeat' split at h
    all_goals cases h
  · cases h
  · rw [show result = .ok .dropped from h]
    exact ⟨.inl rfl, rfl⟩

/-- Data that is dropped is a path request, or leaves the records as they are. -/
theorem handleData_of_dropped (h : (s.handleData raw view header rx nowMs).2 = .ok .dropped ∨
      (s.handleData raw view header rx nowMs).2 = .ok .localEndpoint) :
    header.destinationHash ≠ pathRequestDestination ∧
        SameRecords s (s.handleData raw view header rx nowMs).1 ∨
      header.destinationHash = pathRequestDestination ∧
        s.handleData raw view header rx nowMs = s.handlePathRequest view.payload rx nowMs := by
  unfold handleData at h ⊢
  cases hrouted : s.routeLinkPacket raw header rx nowMs .transportForward with
  | mk s₁ routed =>
  simp only [hrouted] at h ⊢
  match routed with
  | .error e => rcases h with h | h <;> cases h
  | .ok true => rcases h with h | h <;> cases h
  | .ok false =>
      have hsame := routeLinkPacket_of_not (congrArg Prod.snd hrouted)
      obtain rfl : s = s₁ := congrArg Prod.fst (hsame.symm.trans hrouted)
      simp only at h ⊢
      split
      · rename_i hrequest
        exact .inr ⟨hrequest, rfl⟩
      · rename_i hother
        refine .inl ⟨hother, ?_⟩
        split
        · exact sameRecords_bridgePlainBroadcast _ _ _ _
        · exact sameRecords_handleTransportForward _ _ _ _ _ _

/-- Nothing is known of what was not known before. -/
structure RecordsNothing (s s' : LiteNode K m) : Prop where
  packetHashes : ∀ e, s'.packetHashes.Holds e → s.packetHashes.Holds e
  requestTags : ∀ e, s'.requestTags.Holds e → s.requestTags.Holds e
  discoveries : ∀ e, s'.discoveries.Has e → s.discoveries.Has e

/-- There is nothing to record of a packet. Its hash is left to its handler or to nobody, or has no
place to go, or is there with the same deadline; and a path request has no place for its tag, or its
tag is there, and starts no discovery. -/
structure NothingToRecord (s : LiteNode K m) (rx : RxMeta) (nowMs : Nat) (localLink : Option Hash16)
    (h : Heard) : Prop where
  hash : s.unrecorded h.view.header localLink nowMs = true ∨ K.hashes = 0 ∨
    s.packetHashes.Holds
      ⟨packetHash h.raw h.view.header.flags.headerType, satAdd nowMs hashlistLifetimeMs⟩
  request : h.header.destinationHash = pathRequestDestination →
    ∀ request, PathRequest.parse h.view.payload = some request →
      (K.tags = 0 ∨
        s.requestTags.Holds ⟨request.tagKey, satAdd nowMs pathRequestDuplicateGateMs⟩) ∧
      ¬ (s.observeInterface rx).StartsDiscovery request
        ((s.knownMeta rx).interfaceMode.getD s.config.mode) rx.interfaceId nowMs

omit [Crypto] in
theorem has_of_letIn {e : DiscoveryEntry} (h : (s.letIn rx nowMs).discoveries.Has e) :
    s.discoveries.Has e := by
  obtain ⟨_, _, heq, _⟩ := letIn_eq s rx nowMs
  rw [heq] at h
  have hkept := (Discoveries.has_expire.mp h).1
  cases henabled : s.config.transportEnabled with
  | true => simpa only [observeInterface, henabled, if_true] using hkept
  | false =>
      simp only [observeInterface, henabled, Bool.false_eq_true, if_false] at hkept
      exact Discoveries.has_of_clear hkept

omit [Crypto] in
theorem has_letIn_of_live {e : DiscoveryEntry} (henabled : s.config.transportEnabled = true)
    (h : s.discoveries.Has e) (hlive : e.live nowMs = true) :
    (s.letIn rx nowMs).discoveries.Has e := by
  obtain ⟨_, _, heq, _⟩ := letIn_eq s rx nowMs
  rw [heq]
  refine Discoveries.has_expire.mpr ⟨?_, hlive⟩
  simpa only [observeInterface, henabled, if_true] using h

omit [Crypto] in
theorem startsDiscovery_letIn {packetHashes : PacketHashTable K.hashes}
    {requestTags : RequestTagTable K.tags} :
    StartsDiscovery { s.letIn rx nowMs with packetHashes, requestTags } request mode id nowMs ↔
      (s.observeInterface rx).StartsDiscovery request mode id nowMs := by
  obtain ⟨_, _, heq, _⟩ := letIn_eq s rx nowMs
  rw [heq]
  have hkept (henabled : s.config.transportEnabled = true) :
      (({ s with clockMs := nowMs }.observeInterface rx).refreshDiscoveries nowMs).discoveries =
        s.discoveries.expire nowMs := by
    simp only [refreshDiscoveries, observeInterface, henabled, if_true]
  constructor
  · intro h
    refine h.congr rfl rfl rfl rfl rfl fun hstartable => ?_
    simp only [hkept h.enabled] at hstartable
    exact Discoveries.startable_expire.mp hstartable
  · intro h
    refine h.congr rfl rfl rfl rfl rfl fun hstartable => ?_
    simp only [hkept h.enabled]
    exact Discoveries.startable_expire.mpr hstartable

theorem Arrives.holds_iff {s₀ : LiteNode K m} {h : Heard}
    (ha : s.Arrives frame rx nowMs localLink h s₀) (hdata : h.header.flags.packetType = .data) :
    (∀ e, s₀.packetHashes.Holds e → s.packetHashes.Holds e) ↔
      s.unrecorded h.view.header localLink nowMs = true ∨ K.hashes = 0 ∨
        s.packetHashes.Holds
          ⟨packetHash h.raw h.view.header.flags.headerType, satAdd nowMs hashlistLifetimeMs⟩ := by
  obtain ⟨_, _, heq, _⟩ := letIn_eq s rx nowMs
  have hhashes : (s.letIn rx nowMs).packetHashes = s.packetHashes := by
    rw [heq]
    rfl
  have hunrecorded : (s.letIn rx nowMs).unrecorded h.view.header localLink nowMs =
      s.unrecorded h.view.header localLink nowMs := by
    rw [heq]
    rfl
  rcases ha.unseen with ⟨hskip, rfl⟩ | ⟨hkeep, rfl, hnew⟩
  · rw [hhashes]
    exact iff_of_true (fun _ he => he) (.inl (hunrecorded ▸ hskip))
  · have hflags : h.header.flags = h.view.header.flags := by
      rw [ha.header]
      rfl
    have hentered := hnew.resolve_right fun hannounce => by
      rw [hflags, hannounce.1] at hdata
      cases hdata
    rw [← hunrecorded, hkeep]
    simp only [Bool.false_eq_true, false_or, recordHash, hhashes] at hentered ⊢
    exact holds_remember_iff hentered

section Arrived

variable {s₀ : LiteNode K m} {h : Heard} (ha : s.Arrives frame rx nowMs localLink h s₀)
include ha

theorem Arrives.requestTags_eq : s₀.requestTags = s.requestTags := by
  obtain ⟨packetHashes, hs₀⟩ := ha.eq_letIn
  obtain ⟨_, _, hletIn, _⟩ := letIn_eq s rx nowMs
  rw [hs₀, hletIn]
  rfl

theorem Arrives.config_eq : s₀.config = s.config := by
  obtain ⟨packetHashes, hs₀⟩ := ha.eq_letIn
  obtain ⟨_, _, hletIn, _⟩ := letIn_eq s rx nowMs
  rw [hs₀, hletIn]
  rfl

theorem Arrives.has {e : DiscoveryEntry} (he : s₀.discoveries.Has e) : s.discoveries.Has e := by
  obtain ⟨packetHashes, hs₀⟩ := ha.eq_letIn
  rw [hs₀] at he
  exact has_of_letIn he

/-- Where the handler records nothing, all depends on the hash. -/
theorem recordsNothing_iff_of_sameRecords (hdata : h.header.flags.packetType = .data)
    (hsame : SameRecords s₀ s')
    (hno : h.header.destinationHash = pathRequestDestination →
      PathRequest.parse h.view.payload = none) :
    s.RecordsNothing s' ↔ s.NothingToRecord rx nowMs localLink h := by
  have hhash := ha.holds_iff hdata
  constructor
  · intro hnothing
    refine ⟨hhash.mp (hsame.packetHashes ▸ hnothing.packetHashes), fun hdest request hsome => ?_⟩
    rw [hno hdest] at hsome
    cases hsome
  · intro hnothing
    refine ⟨?_, ?_, ?_⟩
    · rw [hsame.packetHashes]
      exact hhash.mpr hnothing.hash
    · rw [hsame.requestTags, ha.requestTags_eq]
      exact fun _ he => he
    · rw [hsame.discoveries]
      exact fun _ he => ha.has he

/-- The handler of a path request records its tag and its search too. -/
theorem recordsNothing_iff_of_searches {requestTags : RequestTagTable K.tags}
    (hdata : h.header.flags.packetType = .data)
    (hdest : h.header.destinationHash = pathRequestDestination)
    (hparse : PathRequest.parse h.view.payload = some request)
    (hinsert : s₀.requestTags.insertIfNew request.tagKey (satAdd nowMs pathRequestDuplicateGateMs)
      nowMs = (requestTags, true))
    (hsearch : Searches { s₀ with requestTags } request
      ((s.knownMeta rx).interfaceMode.getD s.config.mode) rx.interfaceId nowMs s') :
    s.RecordsNothing s' ↔ s.NothingToRecord rx nowMs localLink h := by
  have hhash := ha.holds_iff hdata
  obtain ⟨packetHashes, hs₀⟩ := ha.eq_letIn
  have hkept : s'.requestTags = requestTags := hsearch.requestTags
  have htag : (∀ e, requestTags.Holds e → s.requestTags.Holds e) ↔ K.tags = 0 ∨
      s.requestTags.Holds ⟨request.tagKey, satAdd nowMs pathRequestDuplicateGateMs⟩ := by
    rw [ha.requestTags_eq, RequestTagTable.insertIfNew] at hinsert
    have hiff := holds_remember_iff (congrArg Prod.snd hinsert)
    rw [hinsert] at hiff
    exact hiff
  have hstarts : StartsDiscovery { s₀ with requestTags } request
      ((s.knownMeta rx).interfaceMode.getD s.config.mode) rx.interfaceId nowMs ↔
      (s.observeInterface rx).StartsDiscovery request
        ((s.knownMeta rx).interfaceMode.getD s.config.mode) rx.interfaceId nowMs := by
    rw [hs₀]
    exact startsDiscovery_letIn
  constructor
  · intro hnothing
    refine ⟨hhash.mp (hsearch.packetHashes ▸ hnothing.packetHashes), fun _ request' hparse' => ?_⟩
    obtain rfl : request = request' := Option.some.inj (hparse.symm.trans hparse')
    refine ⟨htag.mp (hkept ▸ hnothing.requestTags), fun hstart => ?_⟩
    rcases hsearch.discoveries with ⟨_, e, he, hlive, hold⟩ | ⟨hnot, _⟩
    · -- the search that was started runs, and was not there before
      refine hold ?_
      rw [hs₀]
      exact has_letIn_of_live hstart.enabled (hnothing.discoveries e he) hlive
    · exact hnot (hstarts.mpr hstart)
  · intro hnothing
    obtain ⟨hroom, hnot⟩ := hnothing.request hdest request hparse
    refine ⟨?_, ?_, ?_⟩
    · rw [hsearch.packetHashes]
      exact hhash.mpr hnothing.hash
    · rw [hkept]
      exact htag.mpr hroom
    · rcases hsearch.discoveries with ⟨hstart, _⟩ | ⟨_, hfound⟩
      · exact absurd (hstarts.mp hstart) hnot
      · exact fun e he => ha.has (hfound e he)

/-- Nothing is recorded of data that is dropped, as every packet is that could not be queued, only if
there is nothing to record. -/
theorem dropped_unrecorded_iff (hdata : h.header.flags.packetType = .data)
    (hdropped : (s.ingestInner frame rx nowMs localLink endpoint).answer = .ok .dropped) :
    s.RecordsNothing (s.ingestInner frame rx nowMs localLink endpoint).node ↔
      s.NothingToRecord rx nowMs localLink h := by
  rw [ingestInner_of_arrives ha] at hdropped ⊢
  obtain ⟨hresult, hnode⟩ := of_reportHandled_dropped hdropped
  rw [hnode]
  have hhandle : s₀.handlePacket h.raw h.view h.header ((s.letIn rx nowMs).knownMeta rx) nowMs =
      s₀.handleData h.raw h.view h.header (s.knownMeta rx) nowMs := by
    rw [knownMeta_letIn]
    simp only [handlePacket, hdata]
  rw [hhandle] at hresult ⊢
  rcases handleData_of_dropped hresult with ⟨hother, hsame⟩ | ⟨hdest, heq⟩
  · exact recordsNothing_iff_of_sameRecords ha hdata hsame fun hdest => absurd hdest hother
  rw [heq] at hresult ⊢
  rcases records_handlePathRequest hresult with
    ⟨hparse, hsame⟩ | ⟨request, requestTags, hparse, hinsert, hsearch⟩
  · exact recordsNothing_iff_of_sameRecords ha hdata hsame fun _ => hparse
  · have hmode : (s.knownMeta rx).interfaceMode.getD s₀.config.mode =
        (s.knownMeta rx).interfaceMode.getD s.config.mode := by rw [ha.config_eq]
    rw [interfaceId_knownMeta, hmode] at hsearch
    exact recordsNothing_iff_of_searches ha hdata hdest hparse hinsert hsearch

end Arrived

end LiteNode

/-! ### One request -/

namespace LiteNode

def partedRouter : LiteNode smallCapacities .router := (gatewayRouter.setInterfaceOnline 2 false).1

private def heardRequest : Heard :=
  ⟨KnownRequest.packet 1, ⟨KnownIdentity.requestHeader, KnownRequest.payload 1, KnownRequest.packet 1, 19⟩,
    { KnownIdentity.requestHeader with hops := 1 }, 1⟩

theorem dropped_unrecorded_iff_partedRouter :
    letI := KnownRequest.crypto
    partedRouter.RecordsNothing
        (partedRouter.ingestInner (KnownRequest.packet 1) ⟨1, none⟩ 1000 none none).node ↔
      partedRouter.NothingToRecord ⟨1, none⟩ 1000 none heardRequest := by
  let _ := KnownRequest.crypto
  have hdigest : packetHash (KnownRequest.packet 1) .header1 = KnownRequest.firstDigest := by
    decide +kernel
  have harrives : partedRouter.Arrives (KnownRequest.packet 1) ⟨1, none⟩ 1000 none heardRequest
      ((partedRouter.letIn ⟨1, none⟩ 1000).recordHash KnownRequest.firstDigest 1000).1 := by
    refine ⟨⟨?_, ?_, ?_, rfl⟩, ?_, ?_, ?_, ?_, ?_, ?_, ?_, ?_, .inr ⟨?_, hdigest ▸ rfl, .inl ?_⟩⟩
    all_goals decide +kernel
  have hdropped : (partedRouter.ingestInner (KnownRequest.packet 1) ⟨1, none⟩ 1000 none none).answer =
      .ok .dropped := by decide +kernel
  exact dropped_unrecorded_iff harrives rfl hdropped

/-- A request that the router cannot pass on is recorded in all three places. When the interface is
back, the request is a duplicate, and another for the same destination waits for a search that
nobody was asked to make. -/
theorem refused_request_is_recorded :
    letI := KnownRequest.crypto
    newRouter smallConfig Bytes.zero gateways none = .ok gatewayRouter ∧
      (let first := partedRouter.ingest (KnownRequest.packet 1) ⟨1, none⟩ 1000
       let back := (first.node.setInterfaceOnline 2 true).1
       first.answer = .ok .dropped ∧
        first.node.lastDeliveryIdentity = partedRouter.lastDeliveryIdentity ∧
        partedRouter.packetHashes.toList.all Option.isNone = true ∧
        partedRouter.requestTags.toList.all Option.isNone = true ∧
        (partedRouter.discoveries.entries.toList.all fun e => !e.live 1000) = true ∧
        first.node.packetHashes.Holds ⟨KnownRequest.firstDigest, 121000⟩ ∧
        first.node.requestTags.Holds ⟨Bytes.slice 32 (KnownRequest.payload 1) 0, 121000⟩ ∧
        (first.node.discoveries.entries.toList.any fun e => e.live 1000) = true ∧
        (back.ingest (KnownRequest.packet 1) ⟨1, none⟩ 2000).answer = .ok .duplicate ∧
        (back.ingest (KnownRequest.packet 2) ⟨1, none⟩ 2000).answer = .ok .accepted ∧
        (back.ingest (KnownRequest.packet 2) ⟨1, none⟩ 2000).node.lastDeliveryIdentity =
          partedRouter.lastDeliveryIdentity) := by
  refine ⟨rfl, ?_⟩
  decide +kernel

end LiteNode

end ReticulumLite
