import ReticulumLite.Proof.Changes

/-!
# Every handler is a sequence of changes

One lemma for each function of the node, from the queue up to an ingest and a tick. A lemma about a
caller cites the lemmas about what it calls.
-/

namespace ReticulumLite

open Bounded

namespace LiteNode

variable {K : Capacities} {m : Model} {s s' : LiteNode K m} {c : Cause}

/-! ### Sound tables -/

theorem Quiet.sound {nowMs : Nat} (h : Quiet nowMs s s') (hs : s.Sound) : s'.Sound :=
  (Grows.of_quiet h).sound hs

theorem Change.sound [Crypto] (h : Change c s s') (hs : s.Sound) : s'.Sound := h.grows.sound hs

theorem Changes.sound [Crypto] (h : Changes c s s') (hs : s.Sound) : s'.Sound :=
  (Changes.grows h).sound hs

/-! ### Lifetimes -/

theorem pathGeneration_le (hs : s.Sound) (dest : Hash16) (nowMs : Nat) :
    (s.paths.generation dest nowMs).getD 0 ≤ s.paths.lastGeneration := by
  cases hg : s.paths.generation dest nowMs with
  | none => exact Nat.zero_le _
  | some g =>
      obtain ⟨_, e, hrow, _⟩ := GenTable.generationOf_eq_some hg
      exact hs.paths.le_last hrow

theorem linkGeneration_le (hs : s.Sound) (linkId : Hash16) (nowMs : Nat) :
    (s.links.generation linkId nowMs).getD 0 ≤ s.links.lastGeneration := by
  cases hg : s.links.generation linkId nowMs with
  | none => exact Nat.zero_le _
  | some g =>
      obtain ⟨_, e, hrow, _⟩ := GenTable.generationOf_eq_some hg
      exact hs.links.le_last hrow

theorem issued_independent (s : LiteNode K m) (nowMs : Nat) :
    s.Issued (independentLifetime nowMs) := ⟨Nat.zero_le _, trivial⟩

theorem issued_routeLifetime (hs : s.Sound) (nowMs : Nat) (header : PacketHeader)
    (path : PathEntry) : s.Issued (s.routeLifetime (independentLifetime nowMs) header path) := by
  have hpath := pathGeneration_le hs path.destinationHash s.clockMs
  unfold routeLifetime
  simp only
  split
  · exact ⟨hpath, Nat.zero_le _⟩
  · exact ⟨hpath, Nat.zero_le _⟩
  · exact ⟨hpath, trivial⟩

theorem issued_linkLifetime (hs : s.Sound) {lifetime : OutboundLifetime} (h : s.Issued lifetime)
    (header : PacketHeader) : s.Issued (s.linkLifetime lifetime header) := by
  have hlink := linkGeneration_le hs header.destinationHash s.clockMs
  unfold linkLifetime
  simp only
  split
  · exact ⟨h.path, hlink⟩
  · exact ⟨h.path, hlink⟩

theorem issued_packetLifetime (hs : s.Sound) (packet : PacketBuffer mtu)
    (reason : OutboundReason) : s.Issued (s.packetLifetime packet reason) := by
  unfold packetLifetime
  simp only
  split
  · exact issued_independent s _
  · split
    · split
      · exact issued_linkLifetime hs (issued_routeLifetime hs _ _ _) _
      · exact issued_linkLifetime hs (issued_independent s _) _
    · split
      · exact issued_routeLifetime hs _ _ _
      · exact issued_independent s _

/-! ### Queueing -/

section

variable [Crypto]

variable {packet : PacketBuffer mtu} {reason : OutboundReason} {lifetime : OutboundLifetime}

theorem enqueueWithLifetime_changes {id : InterfaceId} (hissued : s.Issued lifetime)
    (hreason : reason ≠ .announceRebroadcast) :
    Changes c s (s.enqueueWithLifetime id packet reason lifetime).1 := by
  rcases enqueueWithLifetime_spec s id packet reason lifetime rfl with
    ⟨_, hcounts⟩ | ⟨_, wire, _, _, hsend⟩
  · exact (Quiet.of_onlyCounts hcounts).changes
  · exact .single (.send hsend hissued hreason)

theorem enqueue_changes (hs : s.Sound) {id : InterfaceId} (hreason : reason ≠ .announceRebroadcast) :
    Changes c s (s.enqueue id packet reason).1 :=
  enqueueWithLifetime_changes (issued_packetLifetime hs packet reason) hreason

variable {source : InterfaceId}

theorem enqueueForwardedWithLifetime_changes {target : InterfaceId} (hissued : s.Issued lifetime)
    (hreason : reason ≠ .announceRebroadcast) :
    Changes c s (s.enqueueForwardedWithLifetime source target packet reason lifetime).1 := by
  rcases enqueueForwardedWithLifetime_spec s source target packet reason lifetime rfl with
    ⟨_, hcounts⟩ | ⟨_, wire, _, _, hsend⟩
  · exact (Quiet.of_onlyCounts hcounts).changes
  · exact .single (.send hsend hissued hreason)

variable {localOnly : Bool}

theorem broadcastToSlot_changes (hreason : reason ≠ .announceRebroadcast) (p : LiteNode K m × Nat)
    (hissued : p.1.Issued lifetime) (slot : Fin requesters) :
    Changes c p.1 (broadcastToSlot source packet reason localOnly lifetime p slot).1 := by
  unfold broadcastToSlot
  split
  · exact .refl
  · split
    · exact enqueueForwardedWithLifetime_changes hissued hreason
    · exact .refl

theorem foldl_changes {σ : Type} {f : σ → LiteNode K m} {step : σ → Fin requesters → σ}
    {P : LiteNode K m → Prop} (hgrows : ∀ s s', Changes c s s' → P s → P s')
    (hstep : ∀ p, P (f p) → ∀ slot, Changes c (f p) (f (step p slot)))
    (slots : List (Fin requesters)) (p : σ) (hp : P (f p)) :
    Changes c (f p) (f (slots.foldl step p)) := by
  induction slots generalizing p with
  | nil => exact .refl
  | cons slot slots ih =>
      have h := hstep p hp slot
      exact h.trans (ih _ (hgrows _ _ h hp))

theorem enqueuePacketBroadcastWithLifetime_changes (hissued : s.Issued lifetime)
    (hreason : reason ≠ .announceRebroadcast) :
    Changes c s
      (s.enqueuePacketBroadcastWithLifetime source packet reason localOnly lifetime).1 := by
  unfold enqueuePacketBroadcastWithLifetime
  split
  · exact enqueueWithLifetime_changes hissued hreason
  · exact foldl_changes (fun _ _ h hi => h.grows.issued hi)
      (fun p hp slot => broadcastToSlot_changes hreason p hp slot) _ (s, 0) hissued

theorem enqueuePacketBroadcast_changes (hs : s.Sound) (hreason : reason ≠ .announceRebroadcast) :
    Changes c s (s.enqueuePacketBroadcast source packet reason localOnly).1 := by
  have hissued := issued_packetLifetime hs packet reason
  unfold enqueuePacketBroadcast
  refine enqueuePacketBroadcastWithLifetime_changes ?_ hreason
  split
  · exact ⟨hissued.path, hissued.state⟩
  · exact hissued

/-! ### Announces -/

theorem finishDiscovery_changes (hs : s.Sound) (raw : List UInt8) (header : PacketHeader)
    (rx : RxMeta) (nowMs : Nat) : Changes c s (s.finishDiscovery raw header rx nowMs) := by
  unfold finishDiscovery
  split
  · exact .refl
  · have htaken : Quiet c.nowMs s
        { s with discoveries := (s.discoveries.take header.destinationHash nowMs).1 } :=
      .of_discoveries (Discoveries.renews_take _ _ _) fun P hP => hP.take _ _
    refine htaken.changes.trans ?_
    have hs' := htaken.sound hs
    simp only
    split
    · exact .refl
    · split
      · exact Quiet.changes (.count _ _)
      · rename_i response _
        refine foldl_changes (f := id) (P := Sound) (fun _ _ h => h.sound) ?_ _ _ hs'
        intro p hp slot
        simp only [id, answerRequester]
        split
        · exact enqueue_changes hp (by decide)
        · exact .refl

variable {rx : RxMeta}

theorem scheduleRebroadcast_changes (hcause : c.Concerns .announce)
    (hpresent : s.Present rx.interfaceId) (raw : List UInt8) (header : PacketHeader)
    (packetHash : Hash32) :
    Changes c s (s.scheduleRebroadcast raw header rx packetHash c.nowMs).1 := by
  unfold scheduleRebroadcast
  split
  · split
    · exact .refl
    · exact .single (.schedule hcause hpresent (by simp))
  · exact .refl

variable {announce : AnnounceView}

theorem validateAnnounce_eq_ok {view : PacketView} {dest : Hash16}
    (h : s.validateAnnounce view dest = .ok announce) :
    AnnounceView.parse view.payload view.header.flags.contextFlag s.config.maxAnnounceAppData =
        .ok announce ∧ announce.Authentic dest ∧
      ∀ k, (s.knownDestinations.peek dest).or (s.paths.knownPublicKey dest) = some k →
        k = announce.publicKey := by
  simp only [validateAnnounce, bind_eq_ok, mapError_eq_ok, AnnounceView.validate_eq_ok,
    pure_eq_ok] at h
  obtain ⟨a, hparse, _, ⟨hauthentic, hknown, _, _⟩, rfl⟩ := h
  exact ⟨hparse, hauthentic, hknown⟩

omit [Crypto] in
/-- A neighbour's copy can only make a scheduled announce owe less. -/
theorem cancelRebroadcast_eq (s : LiteNode K m) (dest : Hash16) (hops : UInt8) (now : Nat) :
    ∃ announceSchedule, s.cancelRebroadcast dest hops now = { s with announceSchedule } ∧
      s.announceSchedule.Lessens announceSchedule := by
  have hcounted : s.announceSchedule.Lessens (s.announceSchedule.modify dest fun e =>
      { e with localRebroadcasts := satSucc8 e.localRebroadcasts }) :=
    AnnounceSchedule.lessens_modify _ _ fun _ => ⟨rfl, fun _ h => h⟩
  unfold cancelRebroadcast
  split
  · exact ⟨_, rfl, .refl _⟩
  split
  · split
    · simp only
      split
      · exact ⟨_, rfl, hcounted.trans (AnnounceSchedule.lessens_clearWhere _ _)⟩
      · exact ⟨_, rfl, hcounted⟩
    · split
      · exact ⟨_, rfl, AnnounceSchedule.lessens_clearWhere _ _⟩
      · exact ⟨_, rfl, .refl _⟩
  · exact ⟨_, rfl, .refl _⟩

variable {raw : List UInt8}

omit [Crypto] in
theorem fromSlice_of_parse {view : PacketView} (h : PacketView.parse raw = .ok view) :
    ∃ buffer : PacketBuffer mtu, PacketBuffer.fromSlice raw = .ok buffer ∧ buffer.bytes = raw :=
  have hle : raw.length ≤ mtu := (PacketView.parse_eq_ok h).2.2.length_le
  ⟨⟨raw, hle⟩, PacketBuffer.fromSlice_of_le hle, rfl⟩

variable {now : Nat}

omit [Crypto] in
theorem learnPath_of_refused {path : PathEntry} (buffer : PacketBuffer mtu)
    (h : (s.learnPath path now).2 = false) (nowMs : Nat) :
    Quiet nowMs (s.learned path buffer now) (s.learnPath path now).1 := by
  have hrefused : (s.paths.insertOrUpdate path now).2 = false := h
  simp only [learned, hrefused, Bool.false_eq_true, if_false]
  exact .of_onlyCounts (onlyCounts_learnPath s path now)

omit [Crypto] in
theorem OnlyCounts.cacheAnnounce (h : OnlyCounts s s') (buffer : PacketBuffer mtu)
    (path : PathEntry) (now : Nat) :
    OnlyCounts (s.cacheAnnounce buffer path now) (s'.cacheAnnounce buffer path now) := by
  obtain ⟨stats, f, rfl⟩ := h
  exact ⟨stats, f, rfl⟩

omit [Crypto] in
theorem learnPath_of_taken {path : PathEntry} (buffer : PacketBuffer mtu)
    (f : TransportStats → TransportStats) (h : (s.learnPath path now).2 = true) (nowMs : Nat) :
    Quiet nowMs (s.learned path buffer now)
      (((s.learnPath path now).1.count f).cacheAnnounce buffer path now) := by
  have htaken : (s.paths.insertOrUpdate path now).2 = true := h
  simp only [learned, htaken, if_true]
  exact .of_onlyCounts (((onlyCounts_learnPath s path now).count f).cacheAnnounce _ _ _)

variable {h : Heard}

theorem learnAnnounce_changes (hs : s.Sound) (hheard : c.heard = some h)
    (hpresent : s.Present rx.interfaceId)
    (hown : s.isOwnDestination h.header.destinationHash = false)
    (hannounced : Announced h (s.announcedPath h.raw h.view h.header rx announce c.nowMs)) :
    Changes c s (s.learnAnnounce h.raw h.view h.header rx announce c.nowMs).1 := by
  have hcause : c.Concerns .announce := fun h' hh' =>
    Option.some.inj (hheard.symm.trans hh') ▸ hannounced.isAnnounce
  obtain ⟨buffer, hslice, hbytes⟩ := fromSlice_of_parse hannounced.parsed.view
  have hlearn : Changes c s (s.learned _ buffer c.nowMs) :=
    .single (.learn hheard hannounced hbytes hown hpresent)
  unfold learnAnnounce
  simp only
  split
  · rename_i htaken
    have hcached : Changes c s _ := hlearn.trans
      (Quiet.changes (learnPath_of_taken buffer
        (fun t => { t with learnedAnnounces := bump t.learnedAnnounces }) htaken c.nowMs))
    unfold followPath
    simp only [hslice]
    have hfinish := finishDiscovery_changes (c := c) (Changes.sound hcached hs) h.raw h.header rx c.nowMs
    refine hcached.trans (hfinish.trans (scheduleRebroadcast_changes hcause ?_ _ _ _))
    exact hfinish.grows.present (Changes.grows hcached |>.present hpresent)
  · rename_i hrefused
    exact hlearn.trans
      (Quiet.changes (learnPath_of_refused buffer ((Bool.not_eq_true _).mp hrefused) c.nowMs))

theorem rememberDelivery_eq {dest : Hash16} (h : s.rememberDelivery dest announce now = .ok s') :
    ∃ knownDestinations, s' = { s with knownDestinations } := by
  unfold rememberDelivery at h
  split at h
  · split at h
    · cases h
    · cases h
      exact ⟨_, rfl⟩
  · cases h
    exact ⟨_, rfl⟩

section

variable (hs : s.Sound) (hheard : c.heard = some h) (hparsed : h.Parsed)
  (hpresent : s.Present rx.interfaceId)

include hs hheard hparsed hpresent

theorem acceptAnnounce_changes (hown : s.isOwnDestination h.header.destinationHash = false)
    (htype : h.header.flags.packetType = .announce) :
    Changes c s (s.acceptAnnounce h.raw h.view h.header rx c.nowMs).1 := by
  unfold acceptAnnounce
  split
  · exact .refl
  rename_i announce hvalid
  obtain ⟨hparse, hauthentic, _⟩ := validateAnnounce_eq_ok hvalid
  split
  · exact .refl
  rename_i s₁ hremember
  obtain ⟨knownDestinations, rfl⟩ := rememberDelivery_eq hremember
  have hremembered : Quiet c.nowMs s { s with knownDestinations } := .inert
  split
  · exact Quiet.changes .inert
  rename_i hhops
  simp only
  obtain ⟨announceSchedule, heq, hless⟩ : ∃ announceSchedule,
      (if s.config.transportEnabled then { s with knownDestinations }.cancelRebroadcast
        h.header.destinationHash h.view.header.hops c.nowMs else { s with knownDestinations }) =
      { s with knownDestinations, announceSchedule } ∧
        s.announceSchedule.Lessens announceSchedule := by
    split
    · exact cancelRebroadcast_eq { s with knownDestinations } _ _ _
    · exact ⟨_, rfl, .refl _⟩
  rw [heq]
  have hcause : c.Concerns .announce := fun h' hh' =>
    Option.some.inj (hheard.symm.trans hh') ▸ htype
  have hcancel : Changes c s { s with knownDestinations, announceSchedule } :=
    hremembered.changes.tail (.lessen hcause hless)
  exact hcancel.trans (learnAnnounce_changes (hcancel.sound hs) hheard
    (hcancel.grows.present hpresent) hown
    { announce := ⟨_, announce, hparse, hauthentic, rfl, rfl⟩
      parsed := hparsed
      isAnnounce := htype
      destination := rfl
      packetHash := rfl
      hops := rfl
      hops_lt := UInt8.not_le.mp hhops })

theorem handleAnnounce_changes (htype : h.header.flags.packetType = .announce) :
    Changes c s (s.handleAnnounce h.raw h.view h.header rx c.nowMs).1 := by
  unfold handleAnnounce
  split
  · exact Quiet.changes .inert
  rename_i hown
  have hcounted : ∀ announceAdmission, Quiet c.nowMs s { s with announceAdmission } := fun _ => .inert
  simp only
  split
  · exact (hcounted _).changes.trans (acceptAnnounce_changes ((hcounted _).sound hs) hheard hparsed
      hpresent
      ((Bool.not_eq_true _).mp hown) htype)
  · exact Quiet.changes .inert

end

/-! ### Path requests -/

omit [Crypto] in
theorem outgoing_of_facts {slot : Fin requesters}
    (h : (s.interfaces.facts slot).outbound = true) : s.Outgoing slot := by
  intro r hr
  rw [facts_of_router hr] at h
  cases hget : r.registry.get slot with
  | none =>
      have hempty : r.facts slot = .empty := by
        unfold Router.facts
        simp only [hget]
      rw [hempty] at h
      exact absurd h (by decide)
  | some i =>
      rw [(Router.facts_of_get hget).2.2.2.2.1, Bool.and_eq_true] at h
      exact ⟨i, hget, h⟩

theorem answerFromPath_changes (hs : s.Sound) {request : PathRequest} {mode : InterfaceMode}
    {interfaceId : InterfaceId} {nowMs : Nat} {handled : Handled K m}
    (h : s.answerFromPath request mode interfaceId nowMs = some handled) :
    Changes c s handled.1 := by
  unfold answerFromPath at h
  simp only at h
  repeat' split at h
  all_goals cases h
  · exact .refl
  · exact .refl
  · exact .refl
  all_goals exact enqueue_changes hs nofun

theorem forwardPathRequest_changes (hs : s.Sound) (request : PathRequest)
    (interfaceId : InterfaceId) (localOnly : Bool) :
    Changes c s (s.forwardPathRequest request interfaceId localOnly).1 := by
  unfold forwardPathRequest
  split
  · exact .refl
  · exact enqueuePacketBroadcast_changes hs (by decide)

theorem discoverPath_changes (request : PathRequest) (interfaceId : InterfaceId)
    {slot : Fin requesters} (hslot : s.Outgoing slot) :
    Changes c s (s.discoverPath request interfaceId slot c.nowMs).1 := by
  unfold discoverPath
  simp only
  refine .head (.discover request.requested
    (discoveryTimeout (s.slowestOutboundBitrate interfaceId)) hslot) ?_
  split
  · exact .refl
  · exact Quiet.changes .inert
  · rename_i identity hnew
    split
    · exact .refl
    · refine enqueuePacketBroadcastWithLifetime_changes ⟨Nat.zero_le _, ?_⟩
        (by decide)
      exact (Discoveries.lastIdentity_of_begin hnew).ge

theorem relayPathRequest_changes (hs : s.Sound) (request : PathRequest) (mode : InterfaceMode)
    (interfaceId : InterfaceId) :
    Changes c s (s.relayPathRequest request mode interfaceId c.nowMs).1 := by
  unfold relayPathRequest
  split
  · exact forwardPathRequest_changes hs _ _ _
  split
  · split
    · exact .refl
    · rename_i slot hslot
      exact discoverPath_changes _ _ (outgoing_of_facts (Option.filter_eq_some_iff.mp hslot).2)
  split
  · exact forwardPathRequest_changes hs _ _ _
  · exact .refl

theorem handlePathRequest_changes (hs : s.Sound) (payload : List UInt8) (rx : RxMeta) :
    Changes c s (s.handlePathRequest payload rx c.nowMs).1 := by
  unfold handlePathRequest
  simp only
  split
  · exact Quiet.changes .inert
  rename_i request _
  have htags : ∀ requestTags, Quiet c.nowMs s { s with requestTags } := fun _ => .inert
  split
  · exact Quiet.changes .inert
  split
  · exact (htags _).changes
  set tagged : LiteNode K m := { s with requestTags := _ } with htagged
  refine Relation.ReflTransGen.trans (b := tagged) (htags _).changes ?_
  have hs' : tagged.Sound := (htags _).sound hs
  cases hanswer : tagged.answerFromPath request (rx.interfaceMode.getD s.config.mode)
      rx.interfaceId c.nowMs with
  | none => exact relayPathRequest_changes hs' _ _ _
  | some handled => exact answerFromPath_changes hs' hanswer

/-! ### Packets in transit -/

omit [Crypto] in
theorem Sends.present {frame : OutboundFrame} (h : s.Sends frame s') :
    s.Present frame.interfaceId := by
  intro r hr
  obtain ⟨i, hi, honline, _⟩ := h.router r hr
  exact ⟨i, hi, honline⟩

omit [Crypto] in
theorem getLive_of_rewrite {originalHeader header : PacketHeader}
    {target : InterfaceId × PacketBuffer mtu}
    (h : s.rewriteForwardedTransportPacket raw originalHeader header now = .ok (some target)) :
    (s.paths.getLive header.destinationHash now).isSome = true := by
  unfold rewriteForwardedTransportPacket at h
  split at h
  · cases h
  · rename_i path hpath
    rw [hpath]
    rfl

theorem handleTransportForward_changes (hs : s.Sound) (hheard : c.heard = some h)
    (htype : h.header.flags.packetType = .data) (hpresent : s.Present rx.interfaceId) :
    Changes c s (s.handleTransportForward h.raw h.view.header h.header rx c.nowMs).1 := by
  unfold handleTransportForward
  split
  · exact .refl
  split
  · exact .refl
  rename_i haddressed
  split
  · exact .refl
  · exact .refl
  simp only
  split
  · exact .refl
  rename_i targetInterface forwarded hrewrite _ generation hgeneration
  split
  · rename_i s' hsent
    exact (Quiet.of_onlyCounts (onlyCounts_of_refused hsent)).changes
  · rename_i s' hsent
    obtain ⟨_, _, hsend⟩ := sends_of_queued hsent
    let entry : ReverseEntry := {
      proofHash := truncatedPacketHash h.raw h.view.header.flags.headerType
      receivingInterface := rx.interfaceId
      outboundInterface := targetInterface
      expiresMs := satAdd c.nowMs reverseTimeoutMs }
    have hforward : Change c s { s' with reverse := s'.reverse.insert entry c.nowMs } :=
      .forwardData hgeneration hsend rfl
        (issued_packetLifetime hs forwarded .transportForward).path nofun hpresent
        hsend.present
    obtain ⟨outbound, stats, rfl⟩ := hsend.rest
    exact .tail (.single hforward) (.touchPath hheard (.inl htype) (not_not.mp haddressed)
      (getLive_of_rewrite hrewrite))

theorem openLink_changes (hs : s.Sound) (hheard : c.heard = some h)
    (htype : h.header.flags.packetType = .linkRequest)
    (haddressed : h.view.header.transportId = some s.transportId)
    (hroute : (s.paths.getLive h.header.destinationHash c.nowMs).isSome = true)
    {targetInterface : InterfaceId} (forwarded : PacketBuffer mtu) {entry : LinkEntry}
    (hreceiving : entry.receivingInterface = rx.interfaceId)
    (houtbound : entry.outboundInterface = targetInterface) (hnew : entry.validated = false)
    (hpresent : s.Present rx.interfaceId)
    (habsent : s.links.containsLive entry.linkId c.nowMs = false)
    (hfree : (s.links.hasFreeSlot c.nowMs).2 = true) (hexpires : entry.expiresMs ≤ u64Max) :
    Changes c s (s.openLink h.header rx targetInterface forwarded entry c.nowMs).1 := by
  unfold openLink
  split
  · exact .refl
  rename_i generation hgeneration
  simp only
  split
  · rename_i s' hsent
    exact (Quiet.of_onlyCounts (onlyCounts_of_refused hsent)).changes
  · rename_i s' hsent
    obtain ⟨_, _, hsend⟩ := sends_of_queued hsent
    have hcause : c.Concerns .linkRequest := fun h' hh' =>
      Option.some.inj (hheard.symm.trans hh') ▸ htype
    have hforward := Change.forwardLink (c := c) hgeneration hsend rfl
      (issued_packetLifetime hs forwarded .transportForward).path nofun
      (hreceiving ▸ hpresent) (houtbound ▸ hsend.present) hnew habsent hfree hexpires hcause
    obtain ⟨outbound, stats, rfl⟩ := hsend.rest
    exact .tail (.single hforward) (.touchPath hheard (.inr htype) haddressed hroute)

theorem handleLinkRequest_changes (hs : s.Sound) (hheard : c.heard = some h)
    (htype : h.header.flags.packetType = .linkRequest) (hpresent : s.Present rx.interfaceId) :
    Changes c s (s.handleLinkRequest h.raw h.view.header h.header rx c.nowMs).1 := by
  unfold handleLinkRequest relayLinkRequest
  split
  · exact .refl
  split
  · exact .refl
  rename_i haddressed
  simp only
  split
  · exact .refl
  rename_i habsent
  have hexpired : Quiet c.nowMs s { s with links := (s.links.hasFreeSlot c.nowMs).1 } :=
    .expireLinks
  refine hexpired.changes.trans ?_
  split
  · exact .refl
  rename_i hfree
  split
  · exact .refl
  · exact .refl
  rename_i hrewrite
  split
  · exact .refl
  split
  · exact .refl
  · refine openLink_changes (hexpired.sound hs) hheard htype (not_not.mp haddressed)
      (getLive_of_rewrite hrewrite) _ rfl rfl rfl ((Grows.of_quiet hexpired).present hpresent) ?_ ?_
      (satAdd_le_u64Max _ _)
    · change LinkTable.containsLive (LinkTable.expire s.links c.nowMs) _ _ = false
      rw [LinkTable.containsLive, LinkTable.get_expire]
      exact (Bool.not_eq_true _).mp habsent
    · change (LinkTable.hasFreeSlot (LinkTable.expire s.links c.nowMs) _).2 = true
      rw [LinkTable.hasFreeSlot_expire]
      exact (Bool.not_eq_false _).mp hfree

/-! ### Link packets and proofs -/

theorem sendLinkPacket_changes (hs : s.Sound) (raw : List UInt8) (header : PacketHeader)
    (rx : RxMeta) {link : LinkEntry}
    (hlink : s.links.get header.destinationHash c.nowMs = some link) (targetInterface : InterfaceId)
    (trackedHash : Option Hash32) (hreason : reason ≠ .announceRebroadcast) :
    Changes c s
      (s.sendLinkPacket raw header rx link targetInterface trackedHash reason c.nowMs).1 := by
  unfold sendLinkPacket
  split
  · exact .refl
  split
  · rename_i s' hsent
    exact (Quiet.of_onlyCounts (onlyCounts_of_refused hsent)).changes
  rename_i s' hsent
  obtain ⟨_, _, hsend⟩ := sends_of_queued hsent
  have hsent : Changes c s s' :=
    .single (.send hsend (issued_packetLifetime hs _ _) hreason)
  have hid : link.linkId = header.destinationHash := (LinkTable.get_eq_some hlink).2.1
  obtain ⟨outbound, stats, rfl⟩ := hsend.rest
  refine hsent.trans ?_
  simp only
  cases trackedHash with
  | none =>
      split
      · rename_i hvalidated
        exact .single (.touchLink (hid ▸ hlink) hvalidated)
      · exact .refl
  | some hash =>
      refine .head (.record hash) ?_
      simp only
      split
      · rename_i hvalidated
        exact .single (.touchLink (hid ▸ hlink) hvalidated)
      · exact .refl

theorem routeLinkPacket_changes (hs : s.Sound) (raw : List UInt8) (header : PacketHeader)
    (rx : RxMeta) (reason : OutboundReason) (hreason : reason ≠ .announceRebroadcast) :
    Changes c s (s.routeLinkPacket raw header rx c.nowMs reason).1 := by
  unfold routeLinkPacket
  split
  · exact .refl
  split
  · exact .refl
  rename_i link hlink
  split
  · exact .refl
  split
  · exact .refl
  · exact .refl
  split
  · exact sendLinkPacket_changes hs _ _ _ hlink _ _ hreason
  simp only
  have hexpired : Quiet c.nowMs s
      { s with packetHashes := (s.packetHashes.contains (packetHash raw header.flags.headerType)
        c.nowMs).1 } := .expireHashes
  split
  · exact (hexpired.trans .inert).changes
  · exact hexpired.changes.trans
      (sendLinkPacket_changes (hexpired.sound hs) _ _ _ hlink _ _ hreason)

theorem handleLrproof_changes (hs : s.Sound) {link : LinkEntry} (hheard : c.heard = some h)
    (hproof : h.header.flags.packetType = .proof) (hcontext : h.header.context = .lrproof)
    (hlink : s.links.get h.header.destinationHash c.nowMs = some link)
    (hinterface : link.outboundInterface = h.interfaceId)
    (hhops : link.remainingHops = h.header.hops) :
    Changes c s (s.handleLrproof h.raw h.header rx link c.nowMs).1 := by
  unfold handleLrproof returnLrproof
  split
  · exact .refl
  rename_i hvalid
  simp only
  have hexpired : Quiet c.nowMs s
      { s with packetHashes := (s.packetHashes.contains (packetHash h.raw
        h.header.flags.headerType) c.nowMs).1 } := .expireHashes
  split
  · exact (hexpired.trans .inert).changes
  refine hexpired.changes.trans ?_
  split
  · exact .refl
  split
  · rename_i s' hsent
    exact (Quiet.of_onlyCounts (onlyCounts_of_refused hsent)).changes
  · rename_i s' hsent
    obtain ⟨_, _, hsend⟩ := sends_of_queued hsent
    exact .tail (.single (.validateLink hheard hproof hcontext hlink hinterface hhops
      ((Bool.not_eq_false _).mp hvalid) hsend (issued_packetLifetime (hexpired.sound hs) _ _)
      nofun)) (.record _)

theorem returnProof_changes (hs : s.Sound) (raw : List UInt8) (header : PacketHeader)
    (rx : RxMeta) (nowMs : Nat) : Changes c s (s.returnProof raw header rx nowMs).1 := by
  unfold returnProof
  split
  · rename_i table htake
    exact Quiet.changes (.of_reverse (ReverseTable.takeWithGeneration_spec htake).1)
  rename_i table reverse generation htake
  have htaken : Quiet c.nowMs s { s with reverse := table } :=
    .of_reverse (ReverseTable.takeWithGeneration_spec htake).1
  simp only
  split
  · exact htaken.changes
  split
  · -- the way back is restored, so the table has only expired
    rename_i s' hsent
    obtain ⟨hwf, hlast, hrow⟩ := ReverseTable.restore_take hs.reverse htake
    have hshrinks : s.reverse.Shrinks (ReverseTable.restoreConsumed table reverse generation) :=
      ⟨hlast, fun _ => hwf, fun _ {_ _} h => (ReverseTable.row_expire.mp ((hrow _ _).mp h)).1⟩
    obtain ⟨stats, f, rfl⟩ := onlyCounts_of_refused hsent
    exact Quiet.changes { Quiet.refl s with
      reverse := hshrinks, interfaces := Interfaces.like_counted _ f }
  · rename_i s' hsent
    obtain ⟨_, _, hsend⟩ := sends_of_queued hsent
    have hissued := issued_packetLifetime (htaken.sound hs)
    exact htaken.changes.tail
      (.send hsend ⟨(hissued _ _).path, (hissued _ _).state⟩ nofun)

theorem handleProof_changes (hs : s.Sound) (hheard : c.heard = some h)
    (hproof : h.header.flags.packetType = .proof) (hrx : rx.interfaceId = h.interfaceId) :
    Changes c s (s.handleProof h.raw h.header rx c.nowMs).1 := by
  unfold handleProof
  split
  · rename_i hcontext
    split
    · rename_i link hlink
      obtain ⟨hlink, hmatch⟩ := Option.filter_eq_some_iff.mp hlink
      simp only [Bool.and_eq_true, decide_eq_true_eq] at hmatch
      exact handleLrproof_changes hs hheard hproof hcontext hlink (hmatch.1.trans hrx) hmatch.2
    · exact Quiet.changes .inert
  · have hroute := routeLinkPacket_changes (c := c) hs h.raw h.header rx .proofReturn
      nofun
    split
    · rename_i heq
      rwa [heq] at hroute
    · rename_i heq
      rwa [heq] at hroute
    · rename_i heq
      rw [heq] at hroute
      split
      · exact hroute.trans (returnProof_changes (hroute.sound hs) _ _ _ _)
      · exact hroute

/-! ### Plain broadcasts and data -/

theorem bridgePlainBroadcast_changes (hs : s.Sound) (raw : List UInt8) (header : PacketHeader)
    (source : InterfaceId) : Changes c s (s.bridgePlainBroadcast raw header source).1 := by
  unfold bridgePlainBroadcast
  split
  · exact .refl
  split
  · exact .refl
  · exact enqueuePacketBroadcast_changes hs nofun

theorem handleData_changes (hs : s.Sound) (hheard : c.heard = some h)
    (htype : h.header.flags.packetType = .data) (hpresent : s.Present rx.interfaceId) :
    Changes c s (s.handleData h.raw h.view h.header rx c.nowMs).1 := by
  have hroute := routeLinkPacket_changes (c := c) hs h.raw h.header rx .transportForward
    nofun
  unfold handleData
  split
  · rename_i heq
    rwa [heq] at hroute
  · rename_i heq
    rwa [heq] at hroute
  · rename_i s' heq
    rw [heq] at hroute
    have hs' : s'.Sound := hroute.sound hs
    refine hroute.trans ?_
    split
    · exact handlePathRequest_changes hs' _ _
    split
    · exact bridgePlainBroadcast_changes hs' _ _ _
    · exact handleTransportForward_changes hs' hheard htype (hroute.grows.present hpresent)

theorem handlePacket_changes (hs : s.Sound) (hheard : c.heard = some h) (hparsed : h.Parsed)
    (hpresent : s.Present rx.interfaceId) (hrx : rx.interfaceId = h.interfaceId) :
    Changes c s (s.handlePacket h.raw h.view h.header rx c.nowMs).1 := by
  unfold handlePacket
  split
  · rename_i htype
    exact handleAnnounce_changes hs hheard hparsed hpresent htype
  · rename_i htype
    exact handleData_changes hs hheard htype hpresent
  · rename_i htype
    exact handleLinkRequest_changes hs hheard htype hpresent
  · rename_i htype
    exact handleProof_changes hs hheard htype hrx

end

end LiteNode

end ReticulumLite
