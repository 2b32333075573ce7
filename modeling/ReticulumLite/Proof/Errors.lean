import ReticulumLite.Proof.Arrival

/-!
# What an ingest complains of

What a node builds out of a packet that parses fits a buffer: what is forwarded is no longer than
what came in, and a path request is short. Only the answer to a path request is built of older
bytes, and is longer than the cached announce by a transport id where that had none. So a complaint
about a packet that could not be built is about the received bytes, or about such an announce. No
ingest complains of the known destinations.
-/

namespace ReticulumLite

open Bounded

/-- A packet whose payload still fits behind a header with a transport id. -/
def Roomy (raw : List UInt8) : Prop :=
  ∃ view, PacketView.parse raw = .ok view ∧ headerMaxsize + view.payload.length ≤ mtu

/-- What an ingest may complain of: never of the known destinations, and never of a packet that could
not be built where everything fits. -/
structure Excused (fits : Prop) (e : TransportError) : Prop where
  known : ∀ k, e ≠ .knownDestination k
  built : fits → (∀ w, e ≠ .wire w) ∧ ∀ b, e ≠ .buffer b

theorem Excused.of_unfit {fits : Prop} {e : TransportError} (hknown : ∀ k, e ≠ .knownDestination k)
    (h : ¬ fits) : Excused fits e :=
  ⟨hknown, fun hfits => absurd hfits h⟩

theorem Excused.other {fits : Prop} {e : TransportError} (hknown : ∀ k, e ≠ .knownDestination k)
    (hwire : ∀ w, e ≠ .wire w) (hbuffer : ∀ b, e ≠ .buffer b) : Excused fits e :=
  ⟨hknown, fun _ => ⟨hwire, hbuffer⟩⟩

/-! ### Building packets -/

theorem buildPacket_ok {header : PacketHeader} {payload : List UInt8}
    (h : header.bytes.length + payload.length ≤ mtu) :
    ∃ packet, (buildPacket header payload).mapError TransportError.wire = .ok packet := by
  have hpacket : buildPacket header payload =
      .ok ⟨header.bytes ++ payload, by rw [List.length_append]; exact h⟩ := buildPacket_eq_ok.mpr rfl
  rw [hpacket]
  exact ⟨_, rfl⟩

theorem PacketHeader.length_bytes_le (h : PacketHeader) : h.bytes.length ≤ headerMaxsize := by
  rw [PacketHeader.length_bytes]
  split
  · exact le_rfl
  · decide

namespace LiteNode

variable {K : Capacities} {m : Model} {s : LiteNode K m} {fits : Prop}

variable {raw : List UInt8}

/-- An announce in the cache may be put behind this node's transport id. -/
theorem transportAnnounceFromRaw_ok (h : Roomy raw) (destinationHash : Hash16) (hops : UInt8)
    (context : PacketContext) :
    ∃ packet, s.transportAnnounceFromRaw raw destinationHash hops context = .ok packet := by
  obtain ⟨view, hview, hroom⟩ := h
  unfold transportAnnounceFromRaw
  rw [hview]
  exact buildPacket_ok ((Nat.add_le_add_right (PacketHeader.length_bytes_le _) _).trans hroom)

theorem buildPathRequest_ok [Crypto] (destinationHash : Hash16) (tag : List UInt8) :
    ∃ packet, s.buildPathRequest destinationHash tag = .ok packet := by
  unfold buildPathRequest
  simp only
  have hpayload : (destinationHash.toList ++
      (if s.config.transportEnabled then s.transportId.toList else []) ++
      (Bytes.slice 16 tag 0).toList).length ≤ 48 := by
    split <;> simp
  exact buildPacket_ok ((Nat.add_le_add (PacketHeader.length_bytes_le _) hpayload).trans (by decide))

theorem buildPathRequest_ne_error [Crypto] (destinationHash : Hash16) (tag : List UInt8)
    (e : TransportError) : s.buildPathRequest destinationHash tag ≠ .error e := by
  obtain ⟨packet, hpacket⟩ := s.buildPathRequest_ok destinationHash tag
  rw [hpacket]
  nofun

variable {view : PacketView}

/-- What is forwarded came with a transport id, so its next header is not longer. -/
theorem rewriteForwarded_ok {header : PacketHeader} (hview : PacketView.parse raw = .ok view)
    (hid : view.header.transportId.isSome = true) (nowMs : Nat) :
    ∃ forwarded, s.rewriteForwardedTransportPacket raw view.header header nowMs = .ok forwarded := by
  obtain ⟨_, _, hparses⟩ := PacketView.parse_eq_ok hview
  have hsize : view.header.size = headerMaxsize := by
    rw [PacketHeader.size, hparses.coherent.form, if_pos hid]
    rfl
  unfold rewriteForwardedTransportPacket
  split
  · exact ⟨none, rfl⟩
  split
  · obtain ⟨buffer, hbuffer, _⟩ := fromSlice_of_parse hview
    rw [hbuffer]
    exact ⟨_, rfl⟩
  split
  · exact ⟨none, rfl⟩
  · rename_i newHeader _
    have hlen : newHeader.bytes.length + (raw.drop view.header.size).length ≤ mtu := by
      have hle := newHeader.length_bytes_le
      have hmax := hparses.length_le
      have hmin := hparses.size_le
      rw [List.length_drop, hsize]
      omega
    obtain ⟨packet, hpacket⟩ := buildPacket_ok hlen
    rw [rewriteWithHeader, if_neg (Nat.not_lt.mpr hparses.size_le), hpacket]
    exact ⟨_, rfl⟩

/-! ### Announces -/

section Announces

variable [Crypto] {raw : List UInt8} {view : PacketView}

/-- A validated announce agrees with every key that is known, and a delivery announce derives the
very hash it is remembered under. -/
theorem rememberDelivery_ok {dest : Hash16} {announce : AnnounceView}
    (hvalid : s.validateAnnounce view dest = .ok announce) (nowMs : Nat) :
    ∃ s', s.rememberDelivery dest announce nowMs = .ok s' := by
  obtain ⟨_, hauthentic, hknown⟩ := validateAnnounce_eq_ok hvalid
  unfold rememberDelivery
  split
  · rename_i hdelivery
    have hbound : KnownDestinations.deliveryDestinationHash announce.publicKey = dest := by
      rw [← hauthentic.bound, hdelivery.2]
      rfl
    obtain ⟨learned, hlearn⟩ := KnownDestinations.learn_ok nowMs hdelivery.1
      (fun known hpeek => hknown known (by rw [hpeek]; rfl)) hbound
    rw [hlearn]
    exact ⟨_, rfl⟩
  · exact ⟨s, rfl⟩

theorem errors_validateAnnounce (dest : Hash16) :
    Errors (Excused fits) (s.validateAnnounce view dest) :=
  errors_bind (errors_mapError fun _ => .other nofun nofun nofun) fun _ _ =>
    errors_bind (errors_mapError fun _ => .other nofun nofun nofun) fun _ _ => errors_ok _

theorem errors_learnAnnounce (hview : PacketView.parse raw = .ok view) (header : PacketHeader)
    (rx : RxMeta) (announce : AnnounceView) (nowMs : Nat) :
    Errors (Excused fits) (s.learnAnnounce raw view header rx announce nowMs).2 := by
  obtain ⟨buffer, hbuffer, _⟩ := fromSlice_of_parse hview
  unfold learnAnnounce followPath scheduleRebroadcast
  simp only [hbuffer]
  split
  · split
    · split <;> exact errors_ok _
    · exact errors_ok _
  · exact errors_ok _

theorem errors_handleAnnounce (hview : PacketView.parse raw = .ok view) (header : PacketHeader)
    (rx : RxMeta) (nowMs : Nat) :
    Errors (Excused fits) (s.handleAnnounce raw view header rx nowMs).2 := by
  unfold handleAnnounce
  split
  · exact errors_ok _
  simp only
  split
  · unfold acceptAnnounce
    split
    · rename_i e he
      exact errors_error (errors_validateAnnounce _ e he)
    · rename_i announce hvalid
      obtain ⟨s', hs'⟩ := rememberDelivery_ok hvalid nowMs
      simp only [hs']
      split
      · exact errors_ok _
      · exact errors_learnAnnounce hview _ _ _ _
  · exact errors_ok _

end Announces

/-! ### Path requests -/

section PathRequests

variable [Crypto]

/-- Every cached announce leaves room for a transport id. -/
def CacheRoomy (s : LiteNode K m) : Prop := Slots.All (fun a => Roomy a.raw.bytes) s.announceCache

theorem errors_relayPathRequest (request : PathRequest) (mode : InterfaceMode) (id : InterfaceId)
    (nowMs : Nat) : Errors (Excused fits) (s.relayPathRequest request mode id nowMs).2 := by
  have hforward (localOnly : Bool) :
      Errors (Excused fits) (s.forwardPathRequest request id localOnly).2 := by
    unfold forwardPathRequest
    split
    · rename_i e he
      exact absurd he (buildPathRequest_ne_error _ _ e)
    · exact errors_ok _
  have hdiscover (slot : Fin requesters) :
      Errors (Excused fits) (s.discoverPath request id slot nowMs).2 := by
    unfold discoverPath
    simp only
    split
    · exact errors_ok _
    · exact errors_ok _
    split
    · rename_i e he
      exact absurd he (buildPathRequest_ne_error _ _ e)
    · exact errors_ok _
  unfold relayPathRequest
  split
  · exact hforward _
  split
  · split
    · exact errors_ok _
    · exact hdiscover _
  split
  · exact hforward _
  · exact errors_ok _

theorem errors_answerFromPath {request : PathRequest} {mode : InterfaceMode} {id : InterfaceId}
    {nowMs : Nat} {handled : Handled K m}
    (h : s.answerFromPath request mode id nowMs = some handled) (hroomy : fits → s.CacheRoomy) :
    Errors (Excused fits) handled.2 := by
  unfold answerFromPath at h
  split at h
  · cases h
  split at h
  · cases h
    exact errors_ok _
  split at h
  · cases h
    exact errors_ok _
  split at h
  · cases h
  split at h
  · cases h
  rename_i cached hcached
  split at h
  · rename_i e he
    cases h
    have hknown : Errors (fun e => ∀ k, e ≠ TransportError.knownDestination k)
        (s.pathResponseFromCachedAnnounce cached.raw.bytes request.requested cached.hops) :=
      errors_bind (errors_mapError fun _ => nofun) fun _ _ => errors_mapError fun _ => nofun
    refine errors_error (.of_unfit (hknown e he) fun hfits => ?_)
    obtain ⟨⟨i, hi⟩, _⟩ := Slots.find_mem hcached
    obtain ⟨packet, hpacket⟩ := s.transportAnnounceFromRaw_ok (hroomy hfits i cached hi)
      request.requested cached.hops .pathResponse
    cases he.symm.trans hpacket
  · cases h
    exact errors_ok _

theorem errors_handlePathRequest (hroomy : fits → s.CacheRoomy) (payload : List UInt8) (rx : RxMeta)
    (nowMs : Nat) : Errors (Excused fits) (s.handlePathRequest payload rx nowMs).2 := by
  unfold handlePathRequest
  simp only
  split
  · exact errors_ok _
  split
  · exact errors_ok _
  split
  · exact errors_ok _
  · cases hcase : LiteNode.answerFromPath _ _ _ rx.interfaceId nowMs with
    | none => exact errors_relayPathRequest _ _ _ _
    | some handled => exact errors_answerFromPath hcase hroomy

end PathRequests

/-! ### Forwarding -/

theorem errors_requireLinkCapacity (id : InterfaceId) :
    Errors (Excused fits) (s.requireLinkCapacity id) :=
  errors_bind (errors_refuseIf (.other nofun nofun nofun)) fun _ _ =>
    errors_refuseIf (.other nofun nofun nofun)

theorem rewriteForwarded_ne_error (hview : PacketView.parse raw = .ok view)
    (hid : view.header.transportId = some s.transportId) (header : PacketHeader) (nowMs : Nat)
    (e : TransportError) :
    s.rewriteForwardedTransportPacket raw view.header header nowMs ≠ .error e := by
  obtain ⟨forwarded, hforwarded⟩ := @rewriteForwarded_ok K m s raw view header hview
    (by rw [hid]; rfl) nowMs
  rw [hforwarded]
  nofun

theorem errors_admitLinkRequest (originalHeader : PacketHeader) (rx : RxMeta)
    (targetInterface : InterfaceId) (forwarded : PacketBuffer mtu) :
    Errors (Excused fits) (s.admitLinkRequest raw originalHeader rx targetInterface forwarded) := by
  have hsignalling : Excused fits .invalidLinkSignalling := .other nofun nofun nofun
  have hmode : Excused fits .unsupportedTransitModeTransform := .other nofun nofun nofun
  refine errors_bind (errors_requireLinkCapacity _) fun _ _ =>
    errors_bind (errors_requireLinkCapacity _) fun _ _ => ?_
  refine errors_bind (errors_mapError fun _ => hsignalling) fun _ _ =>
    errors_bind (errors_mapError fun _ => hsignalling) fun _ _ => ?_
  split
  · split <;> exact errors_ok _
  · exact errors_bind (errors_refuseIf hmode) fun _ _ => errors_ok _

section Forwarding

variable [Crypto] {raw : List UInt8} {view : PacketView} (hview : PacketView.parse raw = .ok view)

include hview

section

variable (header : PacketHeader) (rx : RxMeta) (link : LinkEntry) (targetInterface : InterfaceId)
  (trackedHash : Option Hash32) (reason : OutboundReason) (nowMs : Nat)

theorem errors_handleTransportForward :
    Errors (Excused fits) (s.handleTransportForward raw view.header header rx nowMs).2 := by
  unfold handleTransportForward
  split
  · exact errors_ok _
  split
  · exact errors_ok _
  rename_i hid
  split
  · rename_i e he
    exact absurd he (rewriteForwarded_ne_error hview (not_not.mp hid) _ _ e)
  · exact errors_ok _
  simp only
  split
  · exact errors_ok _
  · split <;> exact errors_ok _

theorem errors_handleLinkRequest :
    Errors (Excused fits) (s.handleLinkRequest raw view.header header rx nowMs).2 := by
  have hopen (s : LiteNode K m) (target forwarded entry) :
      Errors (Excused fits) (s.openLink header rx target forwarded entry nowMs).2 := by
    unfold openLink
    split
    · exact errors_ok _
    · simp only
      split <;> exact errors_ok _
  unfold handleLinkRequest relayLinkRequest
  split
  · exact errors_ok _
  split
  · exact errors_ok _
  rename_i hid
  simp only
  split
  · exact errors_ok _
  split
  · exact errors_ok _
  split
  · rename_i e he
    exact absurd he (rewriteForwarded_ne_error hview (not_not.mp hid) _ _ e)
  · exact errors_ok _
  split
  · rename_i e he
    exact errors_error (errors_admitLinkRequest _ _ _ _ e he)
  split
  · exact errors_ok _
  · exact hopen _ _ _ _

theorem errors_sendLinkPacket : Errors (Excused fits)
      (s.sendLinkPacket raw header rx link targetInterface trackedHash reason nowMs).2 := by
  obtain ⟨buffer, hbuffer, _⟩ := fromSlice_of_parse hview
  unfold sendLinkPacket
  rw [hbuffer]
  simp only
  split <;> exact errors_ok _

end

theorem errors_routeLinkPacket (header : PacketHeader) (rx : RxMeta) (nowMs : Nat)
    (reason : OutboundReason) :
    Errors (Excused fits) (s.routeLinkPacket raw header rx nowMs reason).2 := by
  unfold routeLinkPacket
  split
  · exact errors_ok _
  split
  · exact errors_ok _
  split
  · exact errors_ok _
  split
  · exact errors_ok _
  · exact errors_ok _
  split
  · exact errors_sendLinkPacket hview _ _ _ _ _ _ _
  simp only
  split
  · exact errors_ok _
  · exact errors_sendLinkPacket hview _ _ _ _ _ _ _

theorem errors_handleProof (header : PacketHeader) (rx : RxMeta) (nowMs : Nat) :
    Errors (Excused fits) (s.handleProof raw header rx nowMs).2 := by
  obtain ⟨buffer, hbuffer, _⟩ := fromSlice_of_parse hview
  have hroute := @errors_routeLinkPacket K m s fits _ raw view hview header rx nowMs .proofReturn
  unfold handleProof
  split
  · split
    · unfold handleLrproof returnLrproof
      split
      · exact errors_ok _
      simp only [hbuffer]
      split
      · exact errors_ok _
      · split <;> exact errors_ok _
    · exact errors_ok _
  split
  · rename_i e heq
    exact errors_error (hroute e (congrArg Prod.snd heq))
  · exact errors_ok _
  split
  · unfold returnProof
    split
    · exact errors_ok _
    simp only [hbuffer]
    split <;> exact errors_ok _
  · exact errors_ok _

theorem errors_bridgePlainBroadcast (header : PacketHeader) (id : InterfaceId) :
    Errors (Excused fits) (s.bridgePlainBroadcast raw header id).2 := by
  obtain ⟨buffer, hbuffer, _⟩ := fromSlice_of_parse hview
  unfold bridgePlainBroadcast
  split
  · exact errors_ok _
  · rw [hbuffer]
    exact errors_ok _

end Forwarding

/-! ### The answer of an ingest -/

section

variable (hview : PacketView.parse raw = .ok view) (hops : UInt8)
  (endpoint : Option (PacketBuffer mtu))

include hview

theorem errors_captureEndpoint : Errors (Excused fits) (captureEndpoint raw hops endpoint).2 := by
  obtain ⟨buffer, hbuffer, _⟩ := fromSlice_of_parse hview
  unfold captureEndpoint
  split
  · exact errors_ok _
  · rw [hbuffer]
    exact errors_ok _

theorem errors_reportHandled {handled : Handled K m} (h : Errors (Excused fits) handled.2)
    (header : PacketHeader) (endpoint : Option (PacketBuffer mtu)) :
    Errors (Excused fits) (reportHandled handled raw header endpoint).answer := by
  obtain ⟨s, result⟩ := handled
  unfold reportHandled
  simp only
  split
  · exact errors_captureEndpoint hview _ _
  · repeat' split
    all_goals exact errors_ok _
  · repeat' split
    all_goals exact errors_ok _
  · exact errors_error (.other nofun nofun nofun)
  · exact h

theorem errors_capturePlain : Errors (Excused fits) (s.capturePlain view endpoint).answer := by
  obtain ⟨_, hpayload, hparses⟩ := PacketView.parse_eq_ok hview
  have hle : view.payload.length ≤ mtu := by
    rw [hpayload, List.length_drop]
    exact (Nat.sub_le _ _).trans hparses.length_le
  unfold capturePlain
  split
  · exact errors_ok _
  split
  · exact errors_ok _
  · rw [PacketBuffer.fromSlice_of_le hle]
    exact errors_ok _

end

section Ingest

variable [Crypto] {raw : List UInt8} {view : PacketView}

section

variable (hview : PacketView.parse raw = .ok view) (hroomy : fits → s.CacheRoomy) (rx : RxMeta)
  (nowMs : Nat) (localLink : Option Hash16) (endpoint : Option (PacketBuffer mtu))

include hview hroomy

theorem errors_handlePacket (header : PacketHeader) (rx : RxMeta) (nowMs : Nat) :
    Errors (Excused fits) (s.handlePacket raw view header rx nowMs).2 := by
  unfold handlePacket
  split
  · exact errors_handleAnnounce hview _ _ _
  · have hroute := @errors_routeLinkPacket K m s fits _ raw view hview header rx nowMs
      .transportForward
    unfold handleData
    split
    · rename_i e heq
      exact errors_error (hroute e (congrArg Prod.snd heq))
    · exact errors_ok _
    rename_i s' heq
    obtain rfl : s = s' :=
      congrArg Prod.fst ((routeLinkPacket_of_not (congrArg Prod.snd heq)).symm.trans heq)
    split
    · exact errors_handlePathRequest hroomy _ _ _
    split
    · exact errors_bridgePlainBroadcast hview _ _
    · exact errors_handleTransportForward hview _ _ _
  · exact errors_handleLinkRequest hview _ _ _
  · exact errors_handleProof hview _ _ _

theorem errors_ingestFresh :
    Errors (Excused fits) (s.ingestFresh raw view rx nowMs endpoint).answer := by
  unfold ingestFresh
  simp only
  split
  · exact errors_captureEndpoint hview _ _
  · exact errors_reportHandled hview (errors_handlePacket hview hroomy _ _ _) _ _

theorem errors_ingestUnlessSeen :
    Errors (Excused fits) (s.ingestUnlessSeen raw view rx nowMs localLink endpoint).answer := by
  unfold ingestUnlessSeen
  split
  · exact errors_ingestFresh hview hroomy _ _ _
  simp only
  split
  · refine errors_ingestFresh hview ?_ _ _ _
    exact hroomy
  · exact errors_ok _

end

theorem errors_ingestPacket (hfits : fits → ∃ view, PacketView.parse raw = .ok view)
    (hroomy : fits → s.CacheRoomy) (rx : RxMeta) (nowMs : Nat) (localLink : Option Hash16)
    (endpoint : Option (PacketBuffer mtu)) :
    Errors (Excused fits) (s.ingestPacket raw rx nowMs localLink endpoint).answer := by
  have hchecked (view : PacketView) : Errors (Excused fits)
      (if view.header.flags.packetType = .linkRequest then do
        let _ ← (LinkRequestView.parse view.payload).mapError
          fun _ => TransportError.invalidLinkSignalling
        s.requireLinkCapacity rx.interfaceId
      else .ok ()) := by
    split
    · exact errors_bind (errors_mapError fun _ => .other nofun nofun nofun) fun _ _ =>
        errors_requireLinkCapacity _
    · exact errors_ok _
  unfold ingestPacket
  split
  · exact errors_ok _
  split
  · rename_i e he
    refine errors_error (.of_unfit nofun fun h => ?_)
    obtain ⟨view, hview⟩ := hfits h
    cases hview.symm.trans he
  rename_i view hview
  simp only
  split
  · rename_i e he
    exact errors_error (hchecked view e he)
  split
  · exact errors_capturePlain hview endpoint
  split
  · exact errors_ok _
  · refine errors_ingestUnlessSeen hview ?_ _ _ _ _
    exact hroomy

omit [Crypto] in
theorem errors_routerIngress (id : InterfaceId) (wireLen : Nat) :
    Errors (Excused fits) (s.routerIngress id wireLen).2 := by
  unfold routerIngress
  split
  · exact errors_ok _
  simp only
  split
  · exact errors_error (.other nofun nofun nofun)
  split
  · exact errors_error (.other nofun nofun nofun)
  split
  · exact errors_error (.other nofun nofun nofun)
  split <;> exact errors_ok _

/-- An ingest complains of a packet that could not be built only if the packet in the frame does not
parse, or an announce in the cache has no room for a transport id. -/
theorem errors_ingestInner {frame : List UInt8} {rx : RxMeta}
    (hfits : fits → ∀ packet, s.unwrapFrame rx.interfaceId frame = some packet →
      ∃ view, PacketView.parse packet = .ok view) (hroomy : fits → s.CacheRoomy) (nowMs : Nat)
    (localLink : Option Hash16) (endpoint : Option (PacketBuffer mtu)) :
    Errors (Excused fits) (s.ingestInner frame rx nowMs localLink endpoint).answer := by
  have hcache : (s.prepareIngest rx nowMs).announceCache = s.announceCache := by
    obtain ⟨_, _, heq, _⟩ := prepareIngest_eq s rx nowMs
    rw [heq]
    rfl
  unfold ingestInner ingestPrepared
  split
  · rename_i e heq
    exact errors_error (errors_routerIngress _ _ e (congrArg Prod.snd heq))
  · exact errors_ok _
  · rename_i s' heq
    obtain ⟨rfl, _⟩ := (routerIngress_spec heq).2 rfl
    simp only [interfaceId_knownMeta, unwrapFrame_prepareIngest]
    split
    · exact errors_ok _
    · rename_i packet hpacket
      refine errors_ingestPacket (fun h => hfits h packet hpacket) (fun h i a ha => ?_) _ _ _ _
      rw [hcache] at ha
      exact hroomy h i a ha

end Ingest

end LiteNode

end ReticulumLite
