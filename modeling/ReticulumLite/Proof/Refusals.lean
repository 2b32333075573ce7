import ReticulumLite.Proof.Cache
import ReticulumLite.Proof.Repeats

/-!
# A packet that is not sent leaves no trace

A node that turned away a packet in transit keeps its routes, its ways back and its links. If the
hash of the packet was left to the handler too, the packet may be tried again, and the node does
what it did the first time.
-/

namespace ReticulumLite

open Bounded

/-- The packet is of a kind that is only ever passed on: no announce and no path request. -/
structure PacketHeader.InTransit [Crypto] (header : PacketHeader) : Prop where
  announce : header.flags.packetType ≠ .announce
  request : header.flags.packetType = .data → header.destinationHash ≠ pathRequestDestination

namespace LiteNode

variable {K : Capacities} {m : Model} {nowMs : Nat} {s t u : LiteNode K m} [Crypto]

theorem repeats_handlePacket {raw : List UInt8} {view : PacketView} {header : PacketHeader}
    {rx : RxMeta} (hview : PacketView.parse raw = .ok view) (htransit : header.InTransit) :
    Repeats nowMs s fun s => s.handlePacket raw view header rx nowMs := by
  unfold handlePacket
  cases htype : header.flags.packetType with
  | announce => exact absurd htype htransit.announce
  | data => exact repeats_handleData (htransit.request htype)
  | linkRequest => exact repeats_handleLinkRequest
  | proof => exact repeats_handleProof hview

/-! ### Ingests -/

variable {frame : List UInt8} {rx : RxMeta} {localLink : Option Hash16}
  {endpoint : Option (PacketBuffer mtu)}

omit [Crypto] in
theorem lastDeliveryIdentity_letIn (s : LiteNode K m) (rx : RxMeta) (nowMs : Nat) :
    (s.letIn rx nowMs).lastDeliveryIdentity = s.lastDeliveryIdentity := by
  obtain ⟨_, _, heq, _⟩ := letIn_eq s rx nowMs
  rw [heq]
  rfl

/-- A frame that is not passed on ages the node; the hash of its packet may have been recorded,
where it is not left to the handler. -/
theorem aged_of_unsent
    (htransit : ∀ raw view, s.unwrapFrame rx.interfaceId frame = some raw →
      PacketView.parse raw = .ok view → view.header.InTransit)
    (hunsent : (s.ingestInner frame rx nowMs localLink endpoint).node.lastDeliveryIdentity =
      s.lastDeliveryIdentity) :
    ∃ packetHashes,
      Aged nowMs { s.letIn rx nowMs with packetHashes }
        (s.ingestInner frame rx nowMs localLink endpoint).node ∧
      (packetHashes = s.packetHashes ∨ ∃ raw view, s.unwrapFrame rx.interfaceId frame = some raw ∧
        PacketView.parse raw = .ok view ∧
        (s.letIn rx nowMs).unrecorded view.header localLink nowMs = false) := by
  have hletIn : (s.letIn rx nowMs).packetHashes = s.packetHashes := by
    obtain ⟨_, _, heq, _⟩ := letIn_eq s rx nowMs
    rw [heq]
    rfl
  rcases ingestInner_cases s frame rx nowMs localLink endpoint with
    ⟨h, s₀, harrives⟩ | ⟨_, hcounts | ⟨raw, view, hraw, hview, hrecorded, _, hcounts⟩⟩
  · obtain ⟨packetHashes, hs₀⟩ := harrives.eq_letIn
    have hheader : h.header.InTransit := by
      obtain ⟨hannounce, hrequest⟩ := htransit h.raw h.view harrives.packet harrives.view
      rw [harrives.header]
      exact ⟨hannounce, hrequest⟩
    have hlast : s₀.lastDeliveryIdentity = s.lastDeliveryIdentity := by
      rw [hs₀]
      exact lastDeliveryIdentity_letIn s rx nowMs
    rw [ingestInner_of_arrives harrives] at hunsent ⊢
    have hreport := reportHandled_node (s₀.handlePacket h.raw h.view h.header
      ((s.letIn rx nowMs).knownMeta rx) nowMs) h.raw h.header endpoint
    have hhandled : Aged nowMs s₀ (s₀.handlePacket h.raw h.view h.header
        ((s.letIn rx nowMs).knownMeta rx) nowMs).1 := by
      refine (repeats_handlePacket harrives.view hheader ?_ s₀ (.refl s₀) (.inl rfl)).2
      rw [hlast, ← hunsent]
      rcases hreport with hnode | hnode <;> rw [hnode]
      rfl
    refine ⟨packetHashes, ?_, ?_⟩
    · rw [← hs₀]
      rcases hreport with hnode | hnode <;> rw [hnode]
      · exact hhandled
      · exact hhandled.trans (.count _ _)
    · rcases harrives.unseen with ⟨_, heq⟩ | ⟨hrecorded, _⟩
      · refine .inl ?_
        rw [← hletIn, ← heq, hs₀]
      · exact .inr ⟨h.raw, h.view, harrives.packet, harrives.view, hrecorded⟩
  · exact ⟨(s.letIn rx nowMs).packetHashes, .of_onlyCounts hcounts, .inl hletIn⟩
  · exact ⟨_, .of_onlyCounts hcounts, .inr ⟨raw, view, hraw, hview, hrecorded⟩⟩

/-! ### Trying again -/

omit [Crypto] in
theorem expireOutbound_of_current (h : ∀ q ∈ s.outbound.toList, s.staleFrame nowMs q = false) :
    s.expireOutbound nowMs = s := by
  have hnone : s.outbound.toList.findIdx? (s.staleFrame nowMs) = none :=
    List.findIdx?_eq_none_iff.mpr h
  unfold expireOutbound removeFrames
  cases s.outbound.len with
  | zero => rfl
  | succ rounds => simp only [removeFramesLoop, hnone]

omit [Crypto] in
theorem Aged.staleFrame (h : Aged nowMs s t) (hs : s.Sound) (q : QueuedOutbound m) :
    t.staleFrame nowMs q = s.staleFrame nowMs q := by
  have hreverse (g : Nat) : t.reverse.getGeneration g nowMs = s.reverse.getGeneration g nowMs :=
    hs.reverse.entryOf_congr (h.reverse.wf hs.reverse) fun e he =>
      ⟨h.reverse.row, fun hrow => h.reverse.live hrow (of_decide_eq_true he)⟩
  have hlinks (g : Nat) : t.links.getGeneration g nowMs = s.links.getGeneration g nowMs := by
    rcases h.links with hlinks | hlinks <;> rw [hlinks]
    refine hs.links.entryOf_congr (hs.links.clearWhere _) fun e he => ?_
    exact LinkTable.row_expire.trans (and_iff_left (of_decide_eq_true he))
  have honline := h.rest.outboundInterfaceOnline
  have hcurrent : t.interfaces.deliveryIsCurrent q.frame.interfaceId q.delivery =
      s.interfaces.deliveryIsCurrent q.frame.interfaceId q.delivery := by
    obtain ⟨_, f, _, _, _, rfl⟩ := h.rest
    exact Interfaces.deliveryIsCurrent_counted _ f _ _
  have hpaths := h.rest.paths
  have hconfig := h.rest.config
  have hdiscoveries := h.rest.discoveries
  have hstate : t.stateIsLive q.frame.interfaceId q.frame.lifetime.state nowMs =
      s.stateIsLive q.frame.interfaceId q.frame.lifetime.state nowMs := by
    cases q.frame.lifetime.state <;>
      simp only [stateIsLive, hconfig, hdiscoveries, hreverse, hlinks, honline]
  simp only [LiteNode.staleFrame, outboundLifetimeIsLive, honline, hpaths, hstate, hcurrent]

omit [Crypto] in
/-- A node that has just been prepared for a frame, and has only aged since, needs no preparing. -/
theorem prepareIngest_of_aged (h : Aged nowMs (s.prepareIngest rx nowMs) u)
    (hs : (s.prepareIngest rx nowMs).Sound) : u.prepareIngest rx nowMs = u := by
  obtain ⟨outbound, stats, heq, hlist⟩ := prepareIngest_eq s rx nowMs
  have hcurrent : ∀ q ∈ u.outbound.toList, u.staleFrame nowMs q = false := by
    intro q hq
    rw [h.staleFrame hs]
    obtain ⟨_, _, _, _, _, rfl⟩ := h.rest
    simp only [heq, hlist, List.mem_filter, Bool.not_eq_true'] at hq ⊢
    exact hq.2
  have hself : ({ u with clockMs := nowMs }.observeInterface rx).refreshDiscoveries nowMs = u := by
    obtain ⟨_, f, _, _, _, rfl⟩ := h.rest
    rw [heq]
    have hinterfaces := Interfaces.observe_counted
      (s.interfaces.observe rx s.config s.defaultClearMtu) f rx s.config s.defaultClearMtu
    rw [Interfaces.observe_observe] at hinterfaces
    have hdiscoveries : ∀ d : Discoveries K.links,
        Discoveries.expire (if s.config.transportEnabled then
          (if s.config.transportEnabled then d else d.clear).expire nowMs
          else ((if s.config.transportEnabled then d else d.clear).expire nowMs).clear) nowMs =
        (if s.config.transportEnabled then d else d.clear).expire nowMs := by
      intro d
      cases s.config.transportEnabled with
      | true => exact Discoveries.expire_expire d nowMs
      | false => rfl
    have hmtu : LiteNode.defaultClearMtu { s with clockMs := nowMs } = s.defaultClearMtu := rfl
    simp only [refreshDiscoveries, observeInterface, hmtu]
    congr 1
    exact hdiscoveries _
  rw [prepareIngest, hself]
  exact expireOutbound_of_current hcurrent

namespace Alike

variable (h : s.Alike t)
include h

theorem unwrapFrame (id : InterfaceId) (frame : List UInt8) :
    t.unwrapFrame id frame = s.unwrapFrame id frame := by
  obtain ⟨_, _, _, _, _, rfl⟩ := h
  simp only [LiteNode.unwrapFrame, Interfaces.ifac_counted]

omit [Crypto]

theorem knownMeta (rx : RxMeta) : t.knownMeta rx = s.knownMeta rx := by
  obtain ⟨f, hrouter⟩ := h.router
  unfold LiteNode.knownMeta
  rw [hrouter]
  cases s.router? <;> rfl

theorem plainSinkMatches (header : PacketHeader) :
    t.plainSinkMatches header = s.plainSinkMatches header := by
  obtain ⟨f, hrouter⟩ := h.router
  unfold LiteNode.plainSinkMatches
  rw [hrouter]
  cases s.router? <;> rfl

theorem countHop (header : PacketHeader) (id : InterfaceId) :
    t.countHop header id = s.countHop header id := by
  rw [LiteNode.countHop, LiteNode.countHop, h.isLocalClientInterface]

theorem watched (destination : Hash16) :
    (t.router?.any fun r => decide (destination ∈ r.watched)) =
      s.router?.any fun r => decide (destination ∈ r.watched) := by
  obtain ⟨f, hrouter⟩ := h.router
  rw [hrouter]
  cases s.router? <;> rfl

theorem routerIngress (id : InterfaceId) (wireLen : Nat) :
    (t.routerIngress id wireLen).2 = (s.routerIngress id wireLen).2 := by
  obtain ⟨f, hrouter⟩ := h.router
  unfold LiteNode.routerIngress
  rw [hrouter]
  cases s.router? with
  | none => rfl
  | some r =>
      have hi : Router.interface { r with stats := f r.stats } id = r.interface id := rfl
      simp only [Option.map_some, hi]
      cases r.interface id with
      | none => rfl
      | some i =>
          simp only
          repeat' split
          all_goals rfl

end Alike

omit [Crypto] in
theorem reportHandled_congr {result : Except TransportError IngestAction} {raw : List UInt8}
    {header : PacketHeader}
    (hwatched : (t.router?.any fun r => decide (header.destinationHash ∈ r.watched)) =
      s.router?.any fun r => decide (header.destinationHash ∈ r.watched)) :
    (reportHandled (t, result) raw header endpoint).answer =
        (reportHandled (s, result) raw header endpoint).answer ∧
      (reportHandled (t, result) raw header endpoint).endpoint =
        (reportHandled (s, result) raw header endpoint).endpoint := by
  unfold reportHandled
  simp only [hwatched]
  repeat' split
  all_goals exact ⟨rfl, rfl⟩

/-- An ingest by `t` queues nothing and tells the caller what an earlier one did. -/
structure Retries (t : LiteNode K m) (retry first : Ingested K m) : Prop where
  answer : retry.answer = first.answer
  endpoint : retry.endpoint = first.endpoint
  unsent : retry.node.lastDeliveryIdentity = t.lastDeliveryIdentity

theorem ingestFresh_repeats {raw : List UInt8} {view : PacketView}
    (hview : PacketView.parse raw = .ok view) (htransit : view.header.InTransit)
    (hunsent : (s.ingestFresh raw view rx nowMs endpoint).node.lastDeliveryIdentity =
      s.lastDeliveryIdentity) (h : Aged nowMs s t) (htidy : s.Tidy) :
    t.Retries (t.ingestFresh raw view rx nowMs endpoint)
      (s.ingestFresh raw view rx nowMs endpoint) := by
  have hslots := h.rest.localSlots
  have hown (header : PacketHeader) : t.isForEndpoint header = s.isForEndpoint header := by
    simp only [isForEndpoint, isOwnDestination, isLocalLink, hslots]
  simp only [ingestFresh, h.rest.countHop, hown] at hunsent ⊢
  split at hunsent
  · rename_i hmine
    rw [if_pos hmine, if_pos hmine]
    exact ⟨rfl, rfl, rfl⟩
  rename_i hmine
  rw [if_neg hmine, if_neg hmine]
  have htransit' : (s.countHop view.header rx.interfaceId).InTransit :=
    ⟨htransit.announce, htransit.request⟩
  generalize hheader : s.countHop view.header rx.interfaceId = header at hunsent htransit' ⊢
  have hrepeat := @repeats_handlePacket K m nowMs s _ raw view header rx hview htransit'
  have hreport := reportHandled_node (s.handlePacket raw view header rx nowMs) raw header endpoint
  have hunsent' : (s.handlePacket raw view header rx nowMs).1.lastDeliveryIdentity =
      s.lastDeliveryIdentity := by
    rw [← hunsent]
    rcases hreport with hnode | hnode <;> rw [hnode]
    rfl
  obtain ⟨_, haged⟩ := hrepeat hunsent' s (.refl s) (.inl rfl)
  obtain ⟨hanswer, haged'⟩ := hrepeat hunsent' t h (.inr htidy)
  have hwatched := (h.trans haged').rest.watched header.destinationHash
  rw [← haged.rest.watched header.destinationHash] at hwatched
  simp only at hanswer hwatched haged'
  generalize s.handlePacket raw view header rx nowMs = handled at hanswer hwatched ⊢
  generalize t.handlePacket raw view header rx nowMs = handled' at hanswer hwatched haged' ⊢
  obtain ⟨s', result⟩ := handled
  obtain ⟨t', result'⟩ := handled'
  obtain rfl : result' = result := hanswer
  have hlast : t'.lastDeliveryIdentity = t.lastDeliveryIdentity := haged'.rest.lastDeliveryIdentity
  obtain ⟨hsame, hcaptured⟩ := reportHandled_congr hwatched
  refine ⟨hsame, hcaptured, ?_⟩
  rcases reportHandled_node (t', result') raw header endpoint with hnode | hnode <;> rw [hnode]
  · exact hlast
  · exact hlast

theorem ingestPacket_repeats {raw : List UInt8}
    (htransit : ∀ view, PacketView.parse raw = .ok view → view.header.InTransit)
    (hdeferred : ∀ view, PacketView.parse raw = .ok view →
      s.unrecorded view.header localLink nowMs = true)
    (hunsent : (s.ingestPacket raw rx nowMs localLink endpoint).node.lastDeliveryIdentity =
      s.lastDeliveryIdentity) (h : Aged nowMs s t) (htidy : s.Tidy) :
    t.Retries (t.ingestPacket raw rx nowMs localLink endpoint)
      (s.ingestPacket raw rx nowMs localLink endpoint) := by
  have htransport := h.rest.transportId
  have hslots := h.rest.localSlots
  have hrecorded (header : PacketHeader) : t.unrecorded header localLink nowMs =
      s.unrecorded header localLink nowMs := by
    simp only [unrecorded, deferHashlist, isLocalLink, h.links_containsLive, hslots]
  simp only [ingestPacket, h.rest.interfaceClearMtu, h.rest.requireLinkCapacity,
    h.rest.plainSinkMatches] at hunsent ⊢
  split at hunsent
  · rename_i hlarge
    rw [if_pos hlarge, if_pos hlarge]
    exact ⟨rfl, rfl, rfl⟩
  rename_i hlarge
  rw [if_neg hlarge, if_neg hlarge]
  cases hview : PacketView.parse raw with
  | error e => exact ⟨rfl, rfl, rfl⟩
  | ok view =>
  simp only [hview] at hunsent ⊢
  rw [← requestAllowed] at hunsent ⊢
  cases hrequest : s.requestAllowed view rx.interfaceId with
  | error e => exact ⟨rfl, rfl, rfl⟩
  | ok allowed =>
  simp only [hrequest] at hunsent ⊢
  split at hunsent
  · rename_i hsink
    rw [if_pos hsink, if_pos hsink]
    unfold capturePlain
    repeat' split
    all_goals exact ⟨rfl, rfl, rfl⟩
  rename_i hsink
  rw [if_neg hsink, if_neg hsink]
  have haddress : t.countAccepted.acceptsTransportAddress view.header =
      s.countAccepted.acceptsTransportAddress view.header := by
    change t.acceptsTransportAddress view.header = s.acceptsTransportAddress view.header
    rw [acceptsTransportAddress, acceptsTransportAddress, htransport]
  rw [haddress]
  split at hunsent
  · rename_i hrefused
    rw [if_pos hrefused, if_pos hrefused]
    exact ⟨rfl, rfl, rfl⟩
  rename_i hrefused
  rw [if_neg hrefused, if_neg hrefused]
  have hskip : s.countAccepted.unrecorded view.header localLink nowMs = true := hdeferred view hview
  have hskip' : t.countAccepted.unrecorded view.header localLink nowMs = true :=
    (hrecorded view.header).trans hskip
  simp only [ingestUnlessSeen] at hunsent ⊢
  rw [← unrecorded, if_pos hskip] at hunsent
  rw [← unrecorded, if_pos hskip']
  rw [← unrecorded, if_pos hskip]
  have haged : Aged nowMs s.countAccepted t.countAccepted :=
    h.congr_counts ((OnlyCounts.refl s).count _) ((OnlyCounts.refl t).count _)
  have hretry := ingestFresh_repeats hview (htransit view hview) hunsent haged htidy
  exact ⟨hretry.answer, hretry.endpoint, hretry.unsent⟩

omit [Crypto] in
theorem staleFrame_refresh (s : LiteNode K m) (rx : RxMeta) (nowMs : Nat) (q : QueuedOutbound m) :
    (({ s with clockMs := nowMs }.observeInterface rx).refreshDiscoveries nowMs).staleFrame nowMs q =
      s.staleFrame nowMs q := by
  have hlike : s.interfaces.Like (s.interfaces.observe rx s.config s.defaultClearMtu) :=
    like_observe _ _ _ _
  have honline (id : InterfaceId) : LiteNode.outboundInterfaceOnline
      (({ s with clockMs := nowMs }.observeInterface rx).refreshDiscoveries nowMs) id =
      s.outboundInterfaceOnline id := hlike.online id
  have hstate : LiteNode.stateIsLive
      (({ s with clockMs := nowMs }.observeInterface rx).refreshDiscoveries nowMs)
      q.frame.interfaceId q.frame.lifetime.state nowMs =
      s.stateIsLive q.frame.interfaceId q.frame.lifetime.state nowMs := by
    cases q.frame.lifetime.state with
    | independent => rfl
    | reverse generation => simp only [stateIsLive, honline]; rfl
    | link generation => simp only [stateIsLive, honline]; rfl
    | discovery identity =>
        cases henabled : s.config.transportEnabled with
        | false => simp [stateIsLive, refreshDiscoveries, observeInterface, henabled]
        | true =>
            simp [stateIsLive, refreshDiscoveries, observeInterface, henabled,
              Discoveries.live_expire]
  unfold staleFrame outboundLifetimeIsLive
  simp only [honline, hstate]
  rw [show LiteNode.interfaces (refreshDiscoveries _ _) = s.interfaces.observe rx s.config
    s.defaultClearMtu from rfl, hlike.deliveryIsCurrent]
  rfl

omit [Crypto] in
theorem unrecorded_letIn (s : LiteNode K m) (rx : RxMeta) (nowMs : Nat) (header : PacketHeader)
    (localLink : Option Hash16) :
    (s.letIn rx nowMs).unrecorded header localLink nowMs =
      s.unrecorded header localLink nowMs := by
  obtain ⟨_, _, heq, _⟩ := letIn_eq s rx nowMs
  rw [heq]
  rfl

section

variable (htransit : ∀ raw view, s.unwrapFrame rx.interfaceId frame = some raw →
    PacketView.parse raw = .ok view → view.header.InTransit)
  (hdeferred : ∀ raw view, s.unwrapFrame rx.interfaceId frame = some raw →
    PacketView.parse raw = .ok view → s.unrecorded view.header localLink nowMs = true)

include htransit hdeferred

theorem ingestPrepared_repeats
    (hunsent : (s.ingestPrepared frame rx nowMs localLink endpoint).node.lastDeliveryIdentity =
      s.lastDeliveryIdentity) (h : Aged nowMs s t) (htidy : s.Tidy) :
    t.Retries (t.ingestPrepared frame rx nowMs localLink endpoint)
      (s.ingestPrepared frame rx nowMs localLink endpoint) := by
  have hadmitted := h.rest.routerIngress rx.interfaceId frame.length
  unfold ingestPrepared at hunsent ⊢
  cases hs : s.routerIngress rx.interfaceId frame.length with
  | mk s₁ admitted =>
  cases ht : t.routerIngress rx.interfaceId frame.length with
  | mk t₁ admitted' =>
  rw [hs, ht] at hadmitted
  obtain rfl : admitted' = admitted := hadmitted
  have hlast : t₁.lastDeliveryIdentity = t.lastDeliveryIdentity := by
    obtain ⟨_, _, heq⟩ := (routerIngress_spec ht).1
    rw [heq]
  simp only [hs] at hunsent
  match admitted' with
  | .error e => exact ⟨rfl, rfl, hlast⟩
  | .ok false => exact ⟨rfl, rfl, hlast⟩
  | .ok true =>
      obtain ⟨rfl, _⟩ := (routerIngress_spec hs).2 rfl
      obtain ⟨rfl, _⟩ := (routerIngress_spec ht).2 rfl
      simp only [interfaceId_knownMeta, h.rest.unwrapFrame, h.rest.knownMeta] at hunsent ⊢
      cases hraw : s₁.unwrapFrame rx.interfaceId frame with
      | none => exact ⟨rfl, rfl, rfl⟩
      | some raw =>
          simp only [hraw] at hunsent ⊢
          exact ingestPacket_repeats (fun view => htransit raw view hraw)
            (fun view => hdeferred raw view hraw) hunsent h htidy

theorem aged_of_deferred
    (hunsent : (s.ingestInner frame rx nowMs localLink endpoint).node.lastDeliveryIdentity =
      s.lastDeliveryIdentity) :
    Aged nowMs (s.letIn rx nowMs) (s.ingestInner frame rx nowMs localLink endpoint).node := by
  obtain ⟨packetHashes, haged, hhashes⟩ := aged_of_unsent htransit hunsent
  have hsame : packetHashes = (s.letIn rx nowMs).packetHashes := by
    rcases hhashes with heq | ⟨raw, view, hraw, hview, hrecorded⟩
    · obtain ⟨_, _, hletIn, _⟩ := letIn_eq s rx nowMs
      rw [heq, hletIn]
      rfl
    · rw [unrecorded_letIn, hdeferred raw view hraw hview] at hrecorded
      exact absurd hrecorded (by decide)
  rw [hsame] at haged
  exact haged

/-- Such a packet is handled again as it was before. -/
theorem ingestInner_retries (hs : s.Sound) (hk : s.reverse.entries.Keyed ReverseEntry.proofHash)
    (hunsent : (s.ingestInner frame rx nowMs localLink endpoint).node.lastDeliveryIdentity =
      s.lastDeliveryIdentity) :
    (s.ingestInner frame rx nowMs localLink endpoint).node.Retries
      ((s.ingestInner frame rx nowMs localLink endpoint).node.ingestInner frame rx nowMs localLink
        endpoint)
      (s.ingestInner frame rx nowMs localLink endpoint) := by
  have hsound : (s.prepareIngest rx nowMs).Sound :=
    (quiet_prepareIngest s rx nowMs).sound (hs.setClock nowMs)
  obtain ⟨outbound, stats, hprepare, _⟩ := prepareIngest_eq s rx nowMs
  have htidy : (s.prepareIngest rx nowMs).Tidy := by
    refine ⟨hsound.reverse, ?_⟩
    rw [hprepare]
    exact hk
  have hlast : (s.prepareIngest rx nowMs).lastDeliveryIdentity = s.lastDeliveryIdentity := by
    rw [hprepare]
    rfl
  have hcounted : Aged nowMs (s.prepareIngest rx nowMs) (s.letIn rx nowMs) :=
    Aged.count _ fun t => { t with accepted := bump t.accepted }
  have haged := hcounted.trans (aged_of_deferred htransit hdeferred hunsent)
  show Retries _ (((s.ingestInner frame rx nowMs localLink endpoint).node.prepareIngest rx
    nowMs).ingestPrepared frame rx nowMs localLink endpoint) _
  rw [prepareIngest_of_aged haged hsound]
  refine ingestPrepared_repeats (s := s.prepareIngest rx nowMs) ?_ ?_ (hunsent.trans hlast.symm)
    haged htidy
  · intro raw view hraw hview
    exact htransit raw view (unwrapFrame_prepareIngest s rx nowMs ▸ hraw) hview
  · intro raw view hraw hview
    have hunrecorded := unrecorded_letIn s rx nowMs view.header localLink
    rw [hdeferred raw view (unwrapFrame_prepareIngest s rx nowMs ▸ hraw) hview] at hunrecorded
    exact hunrecorded

end

/-- An ingest that passes on no frame leaves the routes, the ways back and the links as they are,
but for what had expired, and takes from the queue stale frames only. No hash is recorded of a link
proof, nor of a packet for a link that passes through, and such a packet may be tried again. -/
theorem refused_forward_leaves_no_trace (s : LiteNode K m) (frame : List UInt8) (rx : RxMeta)
    (nowMs : Nat) (localLink : Option Hash16) (endpoint : Option (PacketBuffer mtu))
    (htransit : ∀ raw view, s.unwrapFrame rx.interfaceId frame = some raw →
      PacketView.parse raw = .ok view → view.header.InTransit)
    (hunsent : (s.ingestInner frame rx nowMs localLink endpoint).node.lastDeliveryIdentity =
      s.lastDeliveryIdentity) :
    let s' := (s.ingestInner frame rx nowMs localLink endpoint).node
    s'.paths = s.paths ∧
      (s'.reverse.lastGeneration = s.reverse.lastGeneration ∧
        (∀ g e, s'.reverse.Row g e → s.reverse.Row g e) ∧
        ∀ g e, s.reverse.Row g e → nowMs < e.expiresMs → s'.reverse.Row g e) ∧
      (s'.links.lastGeneration = s.links.lastGeneration ∧
        (∀ g e, s'.links.Row g e → s.links.Row g e) ∧
        ∀ g e, s.links.Row g e → nowMs < e.expiresMs → s'.links.Row g e) ∧
      s'.outbound.toList = s.outbound.toList.filter (fun q => !s.staleFrame nowMs q) ∧
      ((∀ raw view, s.unwrapFrame rx.interfaceId frame = some raw →
        PacketView.parse raw = .ok view →
          s.links.containsLive view.header.destinationHash nowMs = true ∨
            view.header.flags.packetType = .proof ∧ view.header.context = .lrproof) →
        s'.packetHashes.Within s.packetHashes ∧
          ∀ (s₀ : LiteNode K m) ops, s₀.Fresh → s₀.Reaches ops s →
            s'.Retries (s'.ingestInner frame rx nowMs localLink endpoint)
              (s.ingestInner frame rx nowMs localLink endpoint)) := by
  obtain ⟨outbound, stats, hletIn, hqueue⟩ := letIn_eq s rx nowMs
  obtain ⟨packetHashes, haged, _⟩ := aged_of_unsent htransit hunsent
  have hpaths : (s.ingestInner frame rx nowMs localLink endpoint).node.paths = s.paths := by
    rw [haged.rest.paths, hletIn]
    rfl
  have houtbound : (s.ingestInner frame rx nowMs localLink endpoint).node.outbound.toList =
      s.outbound.toList.filter fun q => !s.staleFrame nowMs q := by
    obtain ⟨_, _, _, _, _, heq⟩ := haged.rest
    rw [heq, hletIn]
    exact hqueue.trans (congrArg (s.outbound.toList.filter ·)
      (funext fun q => by rw [staleFrame_refresh]))
  have hreverse := haged.reverse
  have hlinks := haged.links
  rw [hletIn] at hreverse hlinks
  refine ⟨hpaths, ⟨hreverse.last, fun g e => hreverse.row, fun g e => hreverse.live⟩, ?_, houtbound,
    fun hlink => ?_⟩
  · rcases hlinks with heq | heq <;> rw [heq]
    · exact ⟨rfl, fun _ _ h => h, fun _ _ h _ => h⟩
    · exact ⟨rfl, fun _ _ h => (LinkTable.row_expire.mp h).1,
        fun _ _ h hlive => LinkTable.row_expire.mpr ⟨h, hlive⟩⟩
  have hdeferred : ∀ raw view, s.unwrapFrame rx.interfaceId frame = some raw →
      PacketView.parse raw = .ok view → s.unrecorded view.header localLink nowMs = true := by
    intro raw view hraw hview
    simp only [unrecorded, deferHashlist, Bool.or_eq_true, Bool.and_eq_true, decide_eq_true_eq]
    rcases hlink raw view hraw hview with hlive | hproof
    · exact .inr (.inl (.inl (.inl hlive)))
    · exact .inr (.inl (.inr hproof.2))
  refine ⟨?_, fun s₀ ops hfresh hrun => ?_⟩
  · have hhashes := (aged_of_deferred htransit hdeferred hunsent).packetHashes
    rw [hletIn] at hhashes
    rcases hhashes with heq | heq <;> rw [heq]
    · exact Slots.Within.refl _
    · exact Slots.within_clearWhere _ _
  · obtain ⟨hconsistent, hkeyed⟩ := keyed_of_runs hfresh hrun
    exact ingestInner_retries htransit hdeferred hconsistent.sound hkeyed.reverse hunsent

end LiteNode

/-! ### One packet -/

namespace LiteNode

/-- The relay that has passed on a data packet turns away a link proof it knows nothing of, and would
do so again. -/
theorem refused_forward_leaves_no_trace_lrproof :
    letI := KnownIdentity.crypto
    let packet := KnownIdentity.proofPacket .lrproof
    let first := forwardedEndpoint.ingestInner packet ⟨1, none⟩ 3000 none none
    first.node.lastDeliveryIdentity = forwardedEndpoint.lastDeliveryIdentity ∧
      first.node.paths = forwardedEndpoint.paths ∧
      first.node.packetHashes.Within forwardedEndpoint.packetHashes ∧
      first.node.Retries (first.node.ingestInner packet ⟨1, none⟩ 3000 none none) first := by
  let _ := KnownIdentity.crypto
  obtain ⟨_, hrun⟩ := reaches_forwardedEndpoint
  have hunsent : (forwardedEndpoint.ingestInner (KnownIdentity.proofPacket .lrproof) ⟨1, none⟩ 3000
      none none).node.lastDeliveryIdentity = forwardedEndpoint.lastDeliveryIdentity := by
    decide +kernel
  have hheader : ∀ raw view, forwardedEndpoint.unwrapFrame 1 (KnownIdentity.proofPacket .lrproof) =
      some raw → PacketView.parse raw = .ok view →
        view.header = KnownIdentity.proofHeader .lrproof := by
    intro raw view hraw hview
    obtain rfl : KnownIdentity.proofPacket .lrproof = raw := by
      have hwhole : forwardedEndpoint.unwrapFrame 1 (KnownIdentity.proofPacket .lrproof) =
        some (KnownIdentity.proofPacket .lrproof) := by decide +kernel
      exact Option.some.inj (hwhole.symm.trans hraw)
    have hparse : PacketView.parse (KnownIdentity.proofPacket .lrproof) =
        .ok ⟨KnownIdentity.proofHeader .lrproof, [7], KnownIdentity.proofPacket .lrproof, 19⟩ := by
      decide +kernel
    rw [← Except.ok.inj (hparse.symm.trans hview)]
  obtain ⟨hpaths, _, _, _, hretry⟩ := refused_forward_leaves_no_trace forwardedEndpoint
    (KnownIdentity.proofPacket .lrproof) ⟨1, none⟩ 3000 none none
    (fun raw view hraw hview => by
      rw [hheader raw view hraw hview]
      exact ⟨by decide, by decide⟩) hunsent
  obtain ⟨hhashes, hagain⟩ := hretry fun raw view hraw hview => by
    rw [hheader raw view hraw hview]
    exact .inr ⟨rfl, rfl⟩
  have hsame := hagain smallEndpoint _ fresh_smallEndpoint hrun
  with_reducible exact ⟨hunsent, hpaths, hhashes, hsame⟩

end LiteNode

end ReticulumLite
