import ReticulumLite.Proof.Receipts
import ReticulumLite.Proof.Walk

/-!
# What goes into the queue

Between two states of a node frames leave the queue and frames are added. `Emits` says of every
added frame which packet it wraps, and that the packet may be sent for the frame's reason. It holds
across all handlers, so each operation only has to say what its handlers may send. A packet passed
on carries the hops counted when it came in.
-/

namespace ReticulumLite

open Bounded LiteNode

/-! ### The hops of a packet -/

def hopsOf (raw : List UInt8) : UInt8 := byteAt raw 1

theorem hops_of_parse {raw : List UInt8} {view : PacketView} (h : PacketView.parse raw = .ok view) :
    view.header.hops = hopsOf raw :=
  (PacketView.parse_eq_ok h).2.2.hops_eq

theorem headerMinsize_le_of_parse {raw : List UInt8} {view : PacketView}
    (h : PacketView.parse raw = .ok view) : headerMinsize ≤ raw.length := by
  have hsize := (PacketView.parse_eq_ok h).2.2.size_le
  rcases view.header.size_eq with hs | hs <;> simp only [headerMinsize] <;> omega

theorem hopsOf_copyWithHops {raw : List UInt8} {view : PacketView}
    (hview : PacketView.parse raw = .ok view) {buffer : PacketBuffer mtu}
    (h : PacketBuffer.fromSlice raw = .ok buffer) (hops : UInt8) :
    hopsOf (buffer.copyWithHops hops).bytes = hops := by
  obtain rfl := PacketBuffer.fromSlice_eq_ok.mp h
  exact (hops_of_parse (PacketView.parse_set_hops hview hops)).symm

theorem hopsOf_take (raw : List UInt8) {len : Nat} (h : 2 ≤ len) :
    hopsOf (raw.take len) = hopsOf raw := by
  unfold hopsOf byteAt
  rw [List.getD_eq_getElem?_getD, List.getElem?_take_of_lt (by omega), List.getD_eq_getElem?_getD]

theorem hopsOf_transportAnnounceFromRaw {K : Capacities} {m : Model} {s : LiteNode K m}
    {raw : List UInt8} {dest : Hash16} {hops : UInt8} {context : PacketContext}
    {packet : PacketBuffer mtu} (h : s.transportAnnounceFromRaw raw dest hops context = .ok packet) :
    hopsOf packet.bytes = hops := by
  simp only [transportAnnounceFromRaw, bind_eq_ok, mapError_eq_ok, buildPacket_eq_ok] at h
  obtain ⟨view, _, hbytes⟩ := h
  rw [hbytes]
  rfl

namespace LiteNode

variable {K : Capacities} {m : Model} [Crypto] {s s' s'' : LiteNode K m}

omit [Crypto] in
theorem hopsOf_rewriteForwarded {h : Heard} (hparsed : h.Parsed) {nowMs : Nat} {target : InterfaceId}
    {packet : PacketBuffer mtu}
    (hrewrite : s.rewriteForwardedTransportPacket h.raw h.view.header h.header nowMs =
      .ok (some (target, packet))) :
    hopsOf packet.bytes = h.header.hops ∧ headerMinsize ≤ packet.bytes.length := by
  rw [hparsed.header] at hrewrite
  obtain ⟨path, view, _, _, hview, hheader, _⟩ := parse_rewriteForwarded hparsed.view hrewrite
  refine ⟨?_, headerMinsize_le_of_parse hview⟩
  rw [← hops_of_parse hview]
  rcases hheader with ⟨_, heq⟩ | ⟨_, hnew⟩
  · rw [heq]
  · unfold forwardedHeader at hnew
    split at hnew
    · obtain ⟨nextHop, _, heq⟩ := Option.map_eq_some_iff.mp hnew
      rw [← heq]
    · rw [← Option.some.inj hnew]

omit [Crypto] in
/-- The trailer that a link request may lose is far behind its hops. -/
theorem hopsOf_admitLinkRequest {raw : List UInt8} {header : PacketHeader} {rx : RxMeta}
    {target : InterfaceId} {packet trimmed : PacketBuffer mtu} {request : LinkRequestView}
    (hlen : headerMinsize ≤ packet.bytes.length)
    (h : s.admitLinkRequest raw header rx target packet = .ok (request, trimmed)) :
    hopsOf trimmed.bytes = hopsOf packet.bytes := by
  have hkept : 2 ≤ packet.len - linkMtuSize := by
    have : packet.len = packet.bytes.length := rfl
    simp only [headerMinsize, linkMtuSize] at *
    omega
  simp only [admitLinkRequest, forwardedLinkRequest, bind_eq_ok] at h
  obtain ⟨_, _, _, _, request', _, _, _, hchosen⟩ := h
  split at hchosen
  · split at hchosen
    · obtain ⟨_, rfl⟩ := Prod.mk.inj (Except.ok.inj hchosen)
      exact hopsOf_take packet.bytes hkept
    · obtain ⟨_, rfl⟩ := Prod.mk.inj (Except.ok.inj hchosen)
      rfl
  · obtain ⟨_, _, hsame⟩ := bind_eq_ok.mp hchosen
    obtain ⟨_, rfl⟩ := Prod.mk.inj (Except.ok.inj hsame)
    rfl

/-! ### Frames that are added -/

def frames (s : LiteNode K m) : List OutboundFrame := s.outbound.toList.map QueuedOutbound.frame

/-- Frames have left the queue and others were added, each of them for a packet that may be sent. -/
structure Emits (may : OutboundReason → PacketBuffer mtu → Prop) (s s' : LiteNode K m) : Prop where
  ifac : ∀ id, s'.interfaces.ifac id s'.config = s.interfaces.ifac id s.config
  queue : ∃ kept new, kept.Sublist s.frames ∧ s'.frames = kept ++ new ∧ ∀ frame ∈ new,
    ∃ packet, s.wireFrame frame.interfaceId packet = some frame.packet ∧ may frame.reason packet

theorem wireFrame_of_ifac
    (h : ∀ id, s'.interfaces.ifac id s'.config = s.interfaces.ifac id s.config) (id : InterfaceId)
    (packet : PacketBuffer mtu) : s'.wireFrame id packet = s.wireFrame id packet := by
  unfold wireFrame
  rw [h id]

namespace Emits

variable {may : OutboundReason → PacketBuffer mtu → Prop}

theorem of_sublist (hifac : ∀ id, s'.interfaces.ifac id s'.config = s.interfaces.ifac id s.config)
    (hframes : s'.frames.Sublist s.frames) : Emits may s s' :=
  ⟨hifac, s'.frames, [], hframes, (List.append_nil _).symm, by simp⟩

theorem trans (h : Emits may s s') (h' : Emits may s' s'') : Emits may s s'' := by
  obtain ⟨kept, new, hkept, hframes, hnew⟩ := h.queue
  obtain ⟨kept', new', hkept', hframes', hnew'⟩ := h'.queue
  refine ⟨fun id => (h'.ifac id).trans (h.ifac id), ?_⟩
  -- what was kept last is what was kept first, and some of what was new then
  rw [hframes] at hkept'
  obtain ⟨old, recent, rfl, hold, hrecent⟩ := List.sublist_append_iff.mp hkept'
  refine ⟨old, recent ++ new', hold.trans hkept, by rw [hframes', List.append_assoc], ?_⟩
  intro frame hframe
  rcases List.mem_append.mp hframe with hframe | hframe
  · exact hnew frame (hrecent.subset hframe)
  · obtain ⟨packet, hwire, hmay⟩ := hnew' frame hframe
    rw [wireFrame_of_ifac h.ifac] at hwire
    exact ⟨packet, hwire, hmay⟩

theorem expireOutbound (s : LiteNode K m) (nowMs : Nat) : Emits may s (s.expireOutbound nowMs) := by
  obtain ⟨outbound, stats, heq, hlist⟩ := expireOutbound_spec s nowMs
  rw [heq]
  refine of_sublist (fun _ => rfl) ?_
  show (outbound.toList.map QueuedOutbound.frame).Sublist _
  rw [hlist]
  exact List.filter_sublist.map _

theorem of_onlyCounts (h : OnlyCounts s s') : Emits may s s' := by
  obtain ⟨stats, f, rfl⟩ := h
  exact of_sublist (congrFun (Prod.mk.inj (shown_countRouter s f)).2) (.refl _)

theorem enqueueWithLifetime (s : LiteNode K m) (id : InterfaceId) (packet : PacketBuffer mtu)
    (reason : OutboundReason) (lifetime : OutboundLifetime) (hmay : may reason packet) :
    Emits may s (s.enqueueWithLifetime id packet reason lifetime).1 := by
  cases hsent : s.enqueueWithLifetime id packet reason lifetime with
  | mk s' queued =>
  rcases enqueueWithLifetime_spec s id packet reason lifetime hsent with
    ⟨_, hcounts⟩ | ⟨_, wire, hwire, _, hsends⟩
  · exact of_onlyCounts hcounts
  · obtain ⟨kept, hkept, hqueue⟩ := hsends.queue
    obtain ⟨outbound, stats, hrest⟩ := hsends.rest
    have hifac : ∀ id', _ := fun id' => congrArg
      (fun t : LiteNode K m => t.interfaces.ifac id' t.config) hrest
    refine ⟨hifac, kept.map QueuedOutbound.frame, ?_⟩
    unfold frames
    rcases hqueue with hqueue | hqueue
    · exact ⟨[], hkept.map _, by rw [hqueue, List.append_nil], by simp⟩
    · refine ⟨[⟨id, wire, reason, lifetime⟩], hkept.map _, by rw [hqueue, List.map_append]; rfl, ?_⟩
      intro frame hframe
      obtain rfl := List.mem_singleton.mp hframe
      exact ⟨packet, hwire, hmay⟩

end Emits

theorem handles_emits {may : OutboundReason → PacketBuffer mtu → Prop} :
    Handles may (Emits (K := K) (m := m) may) where
  agree {s s'} h := by
    obtain ⟨hkept, hifac⟩ := Prod.mk.inj h
    have hrows : s'.outbound.toList = s.outbound.toList :=
      congrArg Ledger.rows (Prod.mk.inj hkept).1
    refine .of_sublist (congrFun hifac) ?_
    unfold frames
    rw [hrows]
  trans := Emits.trans
  unanswered s _ := .of_sublist (fun _ => rfl) (.refl _)
  enqueueWithLifetime := Emits.enqueueWithLifetime

/-! ### Operations -/

section Operations

variable {may : OutboundReason → PacketBuffer mtu → Prop} {nowMs : Nat}

theorem Emits.of_tagging (h : Tagging (Emits may) nowMs s s') : Emits may s s' := by
  rcases h with h | ⟨s₁, key, h, h'⟩
  · exact h
  · have htagged : Emits may s₁ (s₁.tagged key nowMs) := .of_sublist (fun _ => rfl) (.refl _)
    exact (h.trans htagged).trans h'

omit [Crypto] in
theorem ifac_observeInterface (s : LiteNode K m) (rx : RxMeta) (id : InterfaceId) :
    (s.observeInterface rx).interfaces.ifac id s.config = s.interfaces.ifac id s.config :=
  ifac_observe _ _ _ _ _

theorem emits_letIn (s : LiteNode K m) (rx : RxMeta) (nowMs : Nat) :
    Emits may s (s.letIn rx nowMs) := by
  obtain ⟨outbound, stats, heq, hlist⟩ := letIn_eq s rx nowMs
  rw [heq]
  refine .of_sublist (s.ifac_observeInterface rx) ?_
  show (outbound.toList.map QueuedOutbound.frame).Sublist _
  rw [hlist]
  exact List.filter_sublist.map _

theorem emits_ingestInner {frame : List UInt8} {rx : RxMeta} {localLink : Option Hash16}
    (hmay : ∀ h s₀, s.Arrives frame rx nowMs localLink h s₀ →
      s₀.Permits may h.raw h.view h.header nowMs) (endpoint : Option (PacketBuffer mtu)) :
    Emits may s (s.ingestInner frame rx nowMs localLink endpoint).node := by
  have hstart : Emits may s (s.letIn rx nowMs) := emits_letIn s rx nowMs
  rcases ingestInner_cases s frame rx nowMs localLink endpoint with
    ⟨h, s₀, ha⟩ | ⟨_, hcounts | ⟨raw, view, _, _, _, _, hcounts⟩⟩
  · rw [ingestInner_of_arrives ha endpoint]
    have hhandled := handles_emits.handlePacket s₀ (hmay h s₀ ha) ((s.letIn rx nowMs).knownMeta rx)
    have hreported := Emits.of_tagging (handles_emits.reportHandled hhandled h.raw h.header endpoint)
    have hunseen : Emits may (s.letIn rx nowMs) s₀ := by
      obtain ⟨packetHashes, rfl⟩ := ha.eq_letIn
      exact .of_sublist (fun _ => rfl) (.refl _)
    exact (hstart.trans hunseen).trans hreported
  · exact hstart.trans (.of_onlyCounts hcounts)
  · have hrecorded : Emits may (s.letIn rx nowMs) ((s.letIn rx nowMs).recordHash
        (packetHash raw view.header.flags.headerType) nowMs).1 :=
      .of_sublist (fun _ => rfl) (.refl _)
    exact (hstart.trans hrecorded).trans (.of_onlyCounts hcounts)

theorem emits_tick (hmay : s.announceSchedule.All (MayRepeat may)) (nowMs : Nat) :
    Emits may s (s.tick nowMs) ∧ (s.tick nowMs).announceSchedule.All (MayRepeat may) := by
  have hready : (s.readied nowMs).announceSchedule.All (MayRepeat may) := by
    obtain ⟨_, _, heq, _⟩ := expireOutbound_spec ({ s with clockMs := nowMs }.expireTables nowMs) nowMs
    rw [readied, heq]
    exact hmay.clearWhere _
  obtain ⟨hsent, hall⟩ := handles_emits.tick s nowMs hready
  have htables : Emits may s ({ s with clockMs := nowMs }.expireTables nowMs) :=
    .of_sublist (fun _ => rfl) (.refl _)
  exact ⟨(htables.trans (.expireOutbound _ nowMs)).trans hsent, hall⟩

theorem emits_requestPath (hmay : ∀ packet, may .pathRequest packet) (s : LiteNode K m)
    (destinationHash : Hash16) (tag : Bytes 16) (id : InterfaceId) (nowMs : Nat) :
    Emits may s (s.requestPath destinationHash tag id nowMs).1 := by
  have hclock : Emits may s { s with clockMs := nowMs } := .of_sublist (fun _ => rfl) (.refl _)
  have hexpired := hclock.trans (.expireOutbound _ nowMs)
  unfold requestPath
  dsimp only
  generalize ({ s with clockMs := nowMs } : LiteNode K m).expireOutbound nowMs = s₁ at hexpired
  split
  · exact hexpired
  rename_i request _
  have hsent := hexpired.trans (handles_emits.enqueue (hmay request) s₁ id)
  split
  · rename_i hrefused
    rw [hrefused] at hsent
    exact hsent
  · rename_i hqueued
    rw [hqueued] at hsent
    exact hsent.trans (.of_sublist (fun _ => rfl) (.refl _))

end Operations

end LiteNode

end ReticulumLite
