import ReticulumLite.Proof.Cache

/-!
# Proofs come back

A relay gives the packets it forwards another header, and remembers each under a digest that does
not see the header. The receiver at the far end computes the same digest from what it got, so a
proof addressed to it is known to every relay on the way back.
-/

namespace ReticulumLite

open Bounded

/-! ### Rewritten packets -/

namespace LiteNode

variable {K : Capacities} {m : Model} [Crypto] {s : LiteNode K m}

section

variable {raw : List UInt8} {view : PacketView} {hops : UInt8} {nowMs : Nat} {target : InterfaceId}
  {forwarded : PacketBuffer mtu} (hview : PacketView.parse raw = .ok view)
  (h : s.rewriteForwardedTransportPacket raw view.header { view.header with hops } nowMs =
    .ok (some (target, forwarded)))

include hview h

omit [Crypto] in
/-- What a packet for the next hop looks like: the header is the one its route asks for, the payload
is the one that came. -/
theorem parse_rewriteForwarded :
    ∃ path view', s.paths.getLive view.header.destinationHash nowMs = some path ∧
      target = path.interfaceId ∧ PacketView.parse forwarded.bytes = .ok view' ∧
      (path.hops < 1 ∧ view'.header = { view.header with hops } ∨
        ¬ path.hops < 1 ∧ forwardedHeader { view.header with hops } path = some view'.header) ∧
      view'.header.hashed = view.header.hashed ∧ view'.payload = view.payload := by
  obtain ⟨_, hpayload, hparses⟩ := PacketView.parse_eq_ok hview
  unfold rewriteForwardedTransportPacket at h
  cases hpath : s.paths.getLive view.header.destinationHash nowMs with
  | none => simp [hpath] at h
  | some path =>
      simp only [hpath] at h
      split at h
      · rename_i hdirect
        obtain ⟨buffer, hbuffer, hres⟩ := bind_eq_ok.mp h
        cases hres
        have hbytes := PacketBuffer.fromSlice_eq_ok.mp (mapError_eq_ok.mp hbuffer)
        refine ⟨path, { view with header := { view.header with hops }, raw := raw.set 1 hops }, rfl,
          rfl, ?_, .inl ⟨hdirect, rfl⟩, rfl, rfl⟩
        subst hbytes
        exact PacketView.parse_set_hops hview hops
      · rename_i hfar
        split at h
        · cases h
        rename_i new hnew
        obtain ⟨buffer, hbuffer, hres⟩ := bind_eq_ok.mp h
        cases hres
        obtain ⟨_, hbytes⟩ := rewriteWithHeader_eq_ok.mp (mapError_eq_ok.mp hbuffer)
        have hshape : new.Coherent ∧ new.hashed = view.header.hashed := by
          unfold forwardedHeader at hnew
          split at hnew
          · obtain ⟨nextHop, _, rfl⟩ := Option.map_eq_some_iff.mp hnew
            exact ⟨⟨rfl, hparses.coherent.context⟩, rfl⟩
          · cases hnew
            exact ⟨⟨rfl, hparses.coherent.context⟩, rfl⟩
        have hlen := forwarded.length_le
        rw [hbytes] at hlen
        refine ⟨path, ⟨new, raw.drop view.header.size, new.bytes ++ raw.drop view.header.size,
          new.size⟩, rfl, rfl, ?_, .inr ⟨hfar, hnew⟩, hshape.2, ?_⟩
        · rw [hbytes]
          exact PacketView.parse_of_header hshape.1 hlen
        · rw [hpayload, hparses.offset_eq]

theorem hash_rewriteForwarded :
    ∃ view', PacketView.parse forwarded.bytes = .ok view' ∧
      packetHash forwarded.bytes view'.header.flags.headerType =
        packetHash raw view.header.flags.headerType := by
  obtain ⟨_, view', _, _, hview', _, hhashed, hpayload⟩ := parse_rewriteForwarded hview h
  exact ⟨view', hview', packetHash_congr hview hview' hhashed hpayload⟩

end

theorem handleTransportForward_reverse {raw : List UInt8} {originalHeader header : PacketHeader}
    {rx : RxMeta} {nowMs : Nat}
    (h : (s.handleTransportForward raw originalHeader header rx nowMs).2 =
      .ok .forwardedTransport) :
    ∃ target forwarded generation wire lifetime s₁,
      s.rewriteForwardedTransportPacket raw originalHeader header nowMs =
        .ok (some (target, forwarded)) ∧
      s.wireFrame target forwarded = some wire ∧
      s.Sends ⟨target, wire, .transportForward, lifetime⟩ s₁ ∧
      (s.handleTransportForward raw originalHeader header rx nowMs).1.outbound = s₁.outbound ∧
      (s.handleTransportForward raw originalHeader header rx nowMs).1.reverse.Row generation
        ⟨truncatedPacketHash raw originalHeader.flags.headerType, rx.interfaceId, target,
          satAdd nowMs reverseTimeoutMs⟩ := by
  unfold handleTransportForward at h ⊢
  simp only at h ⊢
  split at h
  · cases h
  rename_i htransport
  rw [if_neg htransport]
  split at h
  · cases h
  rename_i haddress
  rw [if_neg haddress]
  split at h
  · cases h
  · cases h
  rename_i target forwarded hforwarded
  cases hgeneration : s.reverse.nextGeneration with
  | none => simp [hgeneration] at h
  | some generation =>
      simp only [hforwarded, hgeneration] at h ⊢
      split at h
      · cases h
      rename_i s₁ hqueued
      obtain ⟨wire, hwire, hsend⟩ := sends_of_queued hqueued
      refine ⟨target, forwarded, generation, wire, _, s₁, rfl, hwire, hsend, rfl, ?_⟩
      obtain ⟨_, _, rfl⟩ := hsend.rest
      obtain ⟨i, hi⟩ := ReverseTable.insert_spec hgeneration
        ⟨truncatedPacketHash raw originalHeader.flags.headerType, rx.interfaceId, target,
          satAdd nowMs reverseTimeoutMs⟩ nowMs
      simp only [hi]
      exact GenTable.row_admitAt_self _ _ _ _

omit [Crypto] in
theorem handled_of_reportHandled {handled : Handled K m} {raw : List UInt8}
    {header : PacketHeader} {endpoint : Option (PacketBuffer mtu)}
    (h : (reportHandled handled raw header endpoint).answer = .ok .forwardedTransport) :
    handled.2 = .ok .forwardedTransport ∧
      (reportHandled handled raw header endpoint).node = handled.1 := by
  obtain ⟨s', result⟩ := handled
  unfold reportHandled captureEndpoint at h ⊢
  simp only at h ⊢
  repeat' split at h
  all_goals cases h
  exact ⟨rfl, rfl⟩

end LiteNode

/-! ### Chains of relays -/

structure Relay where
  K : Capacities
  m : Model
  node : LiteNode K m
  frame : List UInt8
  rx : RxMeta
  nowMs : Nat
  localLink : Option Hash16
  endpoint : Option (PacketBuffer mtu)

namespace Relay

open LiteNode

variable [Crypto]

def ingested (r : Relay) : Ingested r.K r.m :=
  r.node.ingestInner r.frame r.rx r.nowMs r.localLink r.endpoint

/-- The frame holds a data packet that is neither a link's, nor a path request, nor a plain
broadcast; the relay forwards it along a route, as the packet `forwarded` by way of `target`. -/
structure Forwards (r : Relay) (h : Heard) (s₀ : LiteNode r.K r.m) (target : InterfaceId)
    (forwarded : PacketBuffer mtu) : Prop where
  arrives : r.node.Arrives r.frame r.rx r.nowMs r.localLink h s₀
  data : h.header.flags.packetType = .data
  offLink : (s₀.routeLinkPacket h.raw h.header ((r.node.letIn r.rx r.nowMs).knownMeta r.rx) r.nowMs
    .transportForward).2 = .ok false
  notRequest : h.header.destinationHash ≠ pathRequestDestination
  notBroadcast : ¬ (h.header.flags.destinationType = .plain ∧
    h.header.flags.transportType = .broadcast)
  answer : r.ingested.answer = .ok .forwardedTransport
  rewritten : s₀.rewriteForwardedTransportPacket h.raw h.view.header h.header r.nowMs =
    .ok (some (target, forwarded))

def Remembers (r : Relay) (proofHash : Hash16) (target : InterfaceId) : Prop :=
  ∃ generation, r.ingested.node.reverse.Row generation
    ⟨proofHash, r.rx.interfaceId, target, satAdd r.nowMs reverseTimeoutMs⟩

/-- The relay put `forwarded`, wrapped for the interface `target`, at the end of its queue. -/
def Queued (r : Relay) (target : InterfaceId) (forwarded : PacketBuffer mtu) : Prop :=
  ∃ h s₀ wire lifetime s₁, r.node.Arrives r.frame r.rx r.nowMs r.localLink h s₀ ∧
    s₀.wireFrame target forwarded = some wire ∧
    s₀.Sends ⟨target, wire, .transportForward, lifetime⟩ s₁ ∧
    r.ingested.node.outbound = s₁.outbound

section

variable {r : Relay} {h : Heard} {s₀ : LiteNode r.K r.m} {target : InterfaceId}
  {forwarded : PacketBuffer mtu} (hf : r.Forwards h s₀ target forwarded)

include hf

theorem Forwards.handled :
    ∃ rx : RxMeta, rx.interfaceId = r.rx.interfaceId ∧
      (s₀.handleTransportForward h.raw h.view.header h.header rx r.nowMs).2 =
        .ok .forwardedTransport ∧
      r.ingested.node = (s₀.handleTransportForward h.raw h.view.header h.header rx r.nowMs).1 := by
  have hanswer := hf.answer
  rw [ingested, ingestInner_of_arrives hf.arrives] at hanswer
  obtain ⟨hhandled, hnode⟩ := handled_of_reportHandled hanswer
  rw [← ingestInner_of_arrives hf.arrives] at hnode
  simp only [handlePacket, hf.data, handleData, routeLinkPacket_of_not hf.offLink,
    if_neg hf.notRequest, if_neg hf.notBroadcast] at hhandled hnode
  exact ⟨_, interfaceId_knownMeta _ _, hhandled, hnode⟩

theorem Forwards.remembers :
    r.Remembers (truncatedPacketHash h.raw h.view.header.flags.headerType) target ∧
      r.Queued target forwarded := by
  obtain ⟨rx, hrx, hhandled, hnode⟩ := hf.handled
  obtain ⟨target', forwarded', generation, wire, lifetime, s₁, hrewritten, hwire, hsend, houtbound,
    hrow⟩ := handleTransportForward_reverse hhandled
  have hsame := hrewritten.symm.trans hf.rewritten
  simp only [Except.ok.injEq, Option.some.injEq, Prod.mk.injEq] at hsame
  obtain ⟨rfl, rfl⟩ := hsame
  rw [hrx] at hrow
  refine ⟨⟨generation, ?_⟩, h, s₀, wire, lifetime, s₁, hf.arrives, hwire, hsend, ?_⟩
  · rw [hnode]
    exact hrow
  · rw [hnode]
    exact houtbound

end

/-- A packet that leaves one relay comes to the next. The relays are listed with the interface each
forwarded the packet to and with the packet it sent on. -/
inductive Carried : List UInt8 → List (Relay × InterfaceId × PacketBuffer mtu) → List UInt8 → Prop
  | arrived (raw : List UInt8) : Carried raw [] raw
  | relayed {r : Relay} {h : Heard} {s₀ : LiteNode r.K r.m} {target : InterfaceId}
      {forwarded : PacketBuffer mtu} {relays : List (Relay × InterfaceId × PacketBuffer mtu)}
      {last : List UInt8}
      (hforwards : r.Forwards h s₀ target forwarded) (hrest : Carried forwarded.bytes relays last) :
      Carried h.raw ((r, target, forwarded) :: relays) last

theorem Carried.remembers {raw last : List UInt8}
    {relays : List (Relay × InterfaceId × PacketBuffer mtu)} (hc : Carried raw relays last)
    {view : PacketView} (hview : PacketView.parse raw = .ok view) :
    ∃ view', PacketView.parse last = .ok view' ∧
      packetHash last view'.header.flags.headerType =
        packetHash raw view.header.flags.headerType ∧
      ∀ r target forwarded, (r, target, forwarded) ∈ relays →
        r.Remembers (truncatedPacketHash last view'.header.flags.headerType) target ∧
          r.Queued target forwarded := by
  induction hc generalizing view with
  | arrived raw => exact ⟨view, hview, rfl, by simp⟩
  | @relayed r h s₀ target forwarded relays last hforwards hrest ih =>
      obtain rfl : view = h.view := Except.ok.inj (hview.symm.trans hforwards.arrives.view)
      have hheader : h.header = { h.view.header with hops := h.header.hops } := by
        rw [hforwards.arrives.header]
        rfl
      have hrewritten := hforwards.rewritten
      rw [hheader] at hrewritten
      obtain ⟨view₁, hview₁, hhash₁⟩ := hash_rewriteForwarded hview hrewritten
      obtain ⟨view', hview', hhash, hall⟩ := ih hview₁
      refine ⟨view', hview', hhash.trans hhash₁, fun r' target' forwarded' hmem => ?_⟩
      rcases List.mem_cons.mp hmem with heq | hmem
      · cases heq
        have hself := hforwards.remembers
        rw [truncatedPacketHash, hhash, hhash₁]
        exact hself
      · exact hall r' target' forwarded' hmem

end Relay

/-! ### The way back -/

namespace LiteNode

variable {K : Capacities} {m : Model} [Crypto] {s s₀ : LiteNode K m}

theorem returnProof_spec (hwf : s.reverse.WF) (hk : s.reverse.entries.Keyed ReverseEntry.proofHash)
    (rx : RxMeta) {raw : List UInt8} {header : PacketHeader} {nowMs : Nat} {g : Nat}
    {e : ReverseEntry} (hrow : s.reverse.Row g e) (hlive : nowMs < e.expiresMs)
    (hdest : header.destinationHash = e.proofHash) {packet : PacketBuffer mtu}
    (hpacket : PacketBuffer.fromSlice raw = .ok packet) :
    ∃ reverse lifetime sent queued,
      { s with reverse }.enqueueForwardedWithLifetime rx.interfaceId e.receivingInterface
        (packet.copyWithHops header.hops) .proofReturn lifetime = (sent, queued) ∧
      s.returnProof raw header rx nowMs =
        ({ sent with reverse := (s.returnProof raw header rx nowMs).1.reverse },
          .ok (if queued then .forwardedProof else .dropped)) ∧
      ∀ g' e', (s.returnProof raw header rx nowMs).1.reverse.Row g' e' ↔
        s.reverse.Row g' e' ∧ nowMs < e'.expiresMs ∧ (queued = true → g' ≠ g) := by
  obtain ⟨reverse, htake, hrows⟩ := ReverseTable.take_of_row hwf hk hrow hlive
  unfold returnProof
  simp only [hdest, htake, hpacket]
  generalize hsent : LiteNode.enqueueForwardedWithLifetime _ _ _ _ _ _ = sent
  obtain ⟨sent, queued⟩ := sent
  refine ⟨reverse, _, sent, queued, hsent, ?_⟩
  cases queued with
  | false =>
      obtain ⟨_, _, rfl⟩ := onlyCounts_of_refused hsent
      refine ⟨rfl, fun g' e' => ?_⟩
      simp [(ReverseTable.restore_take hwf htake).2.2, ReverseTable.row_expire]
  | true =>
      obtain ⟨_, _, hsend⟩ := sends_of_queued hsent
      obtain ⟨_, _, rfl⟩ := hsend.rest
      refine ⟨rfl, fun g' e' => ?_⟩
      simp [hrows]

/-- What becomes of a proof for which there is a way back: it is offered to the queue, for the
interface its packet came from. The way back goes exactly if the queue takes the proof; the others
stay until they expire. -/
def ReturnsProof (s₀ : LiteNode K m) (h : Heard) (nowMs g : Nat) (e : ReverseEntry)
    (ingested : Ingested K m) : Prop :=
  ∃ packet reverse lifetime sent queued, packet.bytes = h.raw.set 1 h.header.hops ∧
    { s₀ with reverse }.enqueueForwardedWithLifetime e.outboundInterface e.receivingInterface packet
      .proofReturn lifetime = (sent, queued) ∧
    ingested.answer = .ok (if queued then .forwardedProof else .dropped) ∧
    ingested.node = { sent with reverse := ingested.node.reverse } ∧
    ∀ g' e', ingested.node.reverse.Row g' e' ↔
      s₀.reverse.Row g' e' ∧ nowMs < e'.expiresMs ∧ (queued = true → g' ≠ g)

theorem returnsProof_of_arrives (hwf : s.reverse.WF)
    (hk : s.reverse.entries.Keyed ReverseEntry.proofHash) {frame : List UInt8} {rx : RxMeta}
    {nowMs : Nat} {localLink : Option Hash16} {h : Heard}
    (ha : s.Arrives frame rx nowMs localLink h s₀) {g : Nat} {e : ReverseEntry}
    (hrow : s.reverse.Row g e) (hlive : nowMs < e.expiresMs)
    (hproof : h.header.flags.packetType = .proof)
    (hsingle : h.header.flags.destinationType = .single) (hcontext : h.header.context ≠ .lrproof)
    (hdest : h.header.destinationHash = e.proofHash) (hrx : rx.interfaceId = e.outboundInterface)
    (endpoint : Option (PacketBuffer mtu)) :
    s₀.ReturnsProof h nowMs g e (s.ingestInner frame rx nowMs localLink endpoint) := by
  have hreverse : s₀.reverse = s.reverse := by
    obtain ⟨_, rfl⟩ := ha.eq_letIn
    obtain ⟨_, _, heq, _⟩ := letIn_eq s rx nowMs
    rw [heq]
    rfl
  rw [← hreverse] at hwf hk hrow
  rw [ingestInner_of_arrives ha]
  -- a proof for a single destination is no link's
  have hlink : s₀.routeLinkPacket h.raw h.header ((s.letIn rx nowMs).knownMeta rx) nowMs
      .proofReturn = (s₀, .ok false) := by
    rw [routeLinkPacket, if_pos (.inr (.inl (by simp [hsingle])))]
  have hget := ReverseTable.get_of_row hk hrow hlive
  have hhandled : s₀.handlePacket h.raw h.view h.header ((s.letIn rx nowMs).knownMeta rx) nowMs =
      s₀.returnProof h.raw h.header ((s.letIn rx nowMs).knownMeta rx) nowMs := by
    simp [handlePacket, hproof, handleProof, if_neg hcontext, hlink, hdest, hget, hrx]
  obtain ⟨packet, hpacket, hbytes⟩ := fromSlice_of_parse ha.view
  obtain ⟨reverse, lifetime, sent, queued, hsent, hreturn, hrows⟩ :=
    returnProof_spec hwf hk ((s.letIn rx nowMs).knownMeta rx) hrow hlive hdest hpacket
  rw [interfaceId_knownMeta, hrx] at hsent
  refine ⟨packet.copyWithHops h.header.hops, reverse, lifetime, sent, queued, ?_, hsent, ?_⟩
  · exact congrArg (List.set · 1 h.header.hops) hbytes
  rw [hhandled, hreturn]
  cases queued with
  | false => exact ⟨rfl, rfl, hrows⟩
  | true => exact ⟨rfl, rfl, hrows⟩

end LiteNode

/-- A packet keeps its digests through every rewriting, so that every relay that queued it for the
next one knows a proof addressed to what the receiver computed; and a relay returns such a proof the
way its packet came. -/
theorem receipts_return [Crypto] :
    (∀ {K : Capacities} {m : Model} (s : LiteNode K m) raw view hops nowMs target forwarded,
      PacketView.parse raw = .ok view →
      s.rewriteForwardedTransportPacket raw view.header { view.header with hops } nowMs =
        .ok (some (target, forwarded)) →
      ∃ view', PacketView.parse forwarded.bytes = .ok view' ∧
        packetHash forwarded.bytes view'.header.flags.headerType =
          packetHash raw view.header.flags.headerType ∧
        truncatedPacketHash forwarded.bytes view'.header.flags.headerType =
          truncatedPacketHash raw view.header.flags.headerType) ∧
    (∀ (packet : PacketBuffer mtu) view hops, PacketView.parse packet.bytes = .ok view →
      packetHash (packet.copyWithHops hops).bytes view.header.flags.headerType =
        packetHash packet.bytes view.header.flags.headerType ∧
      truncatedPacketHash (packet.copyWithHops hops).bytes view.header.flags.headerType =
        truncatedPacketHash packet.bytes view.header.flags.headerType) ∧
    (∀ raw relays last view, Relay.Carried raw relays last → PacketView.parse raw = .ok view →
      ∃ view', PacketView.parse last = .ok view' ∧
        ∀ r target forwarded, (r, target, forwarded) ∈ relays →
          r.Remembers (truncatedPacketHash last view'.header.flags.headerType) target ∧
            r.Queued target forwarded) ∧
    ∀ {K : Capacities} {m : Model} (s₀ s s₁ : LiteNode K m) ops frame rx nowMs localLink endpoint h
      g e, s₀.Fresh → s₀.Reaches ops s → s.Arrives frame rx nowMs localLink h s₁ →
      s.reverse.Row g e → nowMs < e.expiresMs → h.header.flags.packetType = .proof →
      h.header.flags.destinationType = .single → h.header.context ≠ .lrproof →
      h.header.destinationHash = e.proofHash → rx.interfaceId = e.outboundInterface →
      s₁.ReturnsProof h nowMs g e (s.ingestInner frame rx nowMs localLink endpoint) := by
  refine ⟨?_, ?_, ?_, ?_⟩
  · intro K m s raw view hops nowMs target forwarded hview hrewritten
    obtain ⟨view', hview', hhash⟩ := LiteNode.hash_rewriteForwarded hview hrewritten
    exact ⟨view', hview', hhash, by rw [truncatedPacketHash, hhash, truncatedPacketHash]⟩
  · intro packet view hops hview
    have hhash := packetHash_congr hview (PacketView.parse_set_hops hview hops) rfl rfl
    exact ⟨hhash, congrArg (fun hash : Bytes 32 => Bytes.slice 16 hash.toList 0) hhash⟩
  · intro raw relays last view hcarried hview
    obtain ⟨view', hview', _, hall⟩ := hcarried.remembers hview
    exact ⟨view', hview', hall⟩
  · intro K m s₀ s s₁ ops frame rx nowMs localLink endpoint h g e hfresh hrun harrives hrow hlive
      hproof hsingle hcontext hdest hrx
    obtain ⟨hs, hk⟩ := LiteNode.keyed_of_runs hfresh hrun
    exact LiteNode.returnsProof_of_arrives hs.sound.reverse hk.reverse harrives hrow hlive hproof
      hsingle hcontext hdest hrx endpoint

/-! ### One relay -/

section Witness

open LiteNode

private abbrev dataRelay : Relay :=
  ⟨smallCapacities, .endpoint, learnedEndpoint, KnownIdentity.dataPacket, ⟨1, none⟩, 2000, none, none⟩

private def dataReverse : ReverseEntry :=
  ⟨(KnownIdentity.proofHeader .none).destinationHash, 1, 1, 482000⟩

private def heardPacket (header : PacketHeader) : Heard :=
  ⟨header.bytes ++ [7], ⟨header, [7], header.bytes ++ [7], header.size⟩, { header with hops := 1 }, 1⟩

private def recorded (s : LiteNode smallCapacities .endpoint) (hash : Hash32) (nowMs : Nat) :
    LiteNode smallCapacities .endpoint :=
  ((s.letIn ⟨1, none⟩ nowMs).recordHash hash nowMs).1

private theorem arrives_data :
    letI := KnownIdentity.crypto
    learnedEndpoint.Arrives KnownIdentity.dataPacket ⟨1, none⟩ 2000 none
      (heardPacket KnownIdentity.dataHeader)
      (recorded learnedEndpoint KnownIdentity.dataDigest 2000) := by
  let _ := KnownIdentity.crypto
  have hdigest : packetHash (heardPacket KnownIdentity.dataHeader).raw .header2 =
      KnownIdentity.dataDigest := by decide +kernel
  refine ⟨⟨?_, ?_, ?_, rfl⟩, ?_, ?_, ?_, ?_, ?_, ?_, ?_, ?_, .inr ⟨?_, hdigest ▸ rfl, .inl ?_⟩⟩
  all_goals decide +kernel

private theorem arrives_proof :
    letI := KnownIdentity.crypto
    forwardedEndpoint.Arrives (KnownIdentity.proofPacket .none) ⟨1, none⟩ 3000 none
      (heardPacket (KnownIdentity.proofHeader .none))
      (recorded forwardedEndpoint KnownIdentity.proofDigest 3000) := by
  let _ := KnownIdentity.crypto
  have hdigest : packetHash (heardPacket (KnownIdentity.proofHeader .none)).raw .header1 =
      KnownIdentity.proofDigest := by decide +kernel
  refine ⟨⟨?_, ?_, ?_, rfl⟩, ?_, ?_, ?_, ?_, ?_, ?_, ?_, ?_, .inr ⟨?_, hdigest ▸ rfl, .inl ?_⟩⟩
  all_goals decide +kernel

private theorem reverse_forwardedEndpoint : forwardedEndpoint.reverse.Row 1 dataReverse :=
  ⟨⟨0, by decide⟩, by decide +kernel, by decide +kernel⟩

private def lastHeader : PacketHeader :=
  { KnownIdentity.dataHeader with
    flags := ⟨.header1, false, .broadcast, .single, .data⟩, hops := 1, transportId := none }

private def lastPacket : PacketBuffer mtu := ⟨lastHeader.bytes ++ [7], by decide⟩

private theorem forwards_data :
    letI := KnownIdentity.crypto
    dataRelay.Forwards (heardPacket KnownIdentity.dataHeader)
      (recorded learnedEndpoint KnownIdentity.dataDigest 2000) 1 lastPacket := by
  let _ := KnownIdentity.crypto
  refine ⟨?_, ?_, ?_, ?_, ?_, ?_, ?_⟩
  · dsimp only [dataRelay]
    exact arrives_data
  all_goals decide +kernel

/-- A proof of the packet comes back where the packet came from. -/
theorem receipts_return_dataPacket :
    letI := KnownIdentity.crypto
    dataRelay.Remembers (KnownIdentity.proofHeader .none).destinationHash 1 ∧
      dataRelay.Queued 1 lastPacket ∧
      (recorded forwardedEndpoint KnownIdentity.proofDigest 3000).ReturnsProof
        (heardPacket (KnownIdentity.proofHeader .none)) 3000 1 dataReverse
        (forwardedEndpoint.ingestInner (KnownIdentity.proofPacket .none) ⟨1, none⟩ 3000 none none) := by
  let _ := KnownIdentity.crypto
  obtain ⟨_, _, hchain, hreturn⟩ := receipts_return
  obtain ⟨_, hrun⟩ := reaches_forwardedEndpoint
  have hback := hreturn smallEndpoint forwardedEndpoint _ _ _ _ _ _ none _ 1 dataReverse
    fresh_smallEndpoint hrun arrives_proof reverse_forwardedEndpoint (by decide) rfl rfl (by decide)
    rfl rfl
  obtain ⟨view', hview', hall⟩ := hchain _ [(dataRelay, 1, lastPacket)] _ _
    (.relayed forwards_data (.arrived _)) arrives_data.view
  have hlast : PacketView.parse lastPacket.bytes =
      .ok ⟨lastHeader, [7], lastHeader.bytes ++ [7], 19⟩ := by decide +kernel
  obtain rfl := Except.ok.inj (hview'.symm.trans hlast)
  obtain ⟨hremembers, hqueued⟩ := hall dataRelay 1 lastPacket (by simp)
  exact ⟨hremembers, hqueued, hback⟩

/-- A proof in the context of link proofs is not returned, although there is a way back for it: that
context belongs to links. -/
theorem link_context_not_returned :
    letI := KnownIdentity.crypto
    forwardedEndpoint.reverse.Row 1 dataReverse ∧ 3000 < dataReverse.expiresMs ∧
      dataReverse.outboundInterface = 1 ∧
      (KnownIdentity.proofHeader .lrproof).flags.packetType = .proof ∧
      (KnownIdentity.proofHeader .lrproof).flags.destinationType = .single ∧
      (KnownIdentity.proofHeader .lrproof).destinationHash = dataReverse.proofHash ∧
      (forwardedEndpoint.ingest (KnownIdentity.proofPacket .lrproof) ⟨1, none⟩ 3000).answer =
        .ok .dropped ∧
      (forwardedEndpoint.ingest (KnownIdentity.proofPacket .lrproof) ⟨1, none⟩
        3000).node.lastDeliveryIdentity = forwardedEndpoint.lastDeliveryIdentity := by
  let _ := KnownIdentity.crypto
  refine ⟨reverse_forwardedEndpoint, by decide, rfl, rfl, rfl, rfl, ?_, ?_⟩
  all_goals decide +kernel

namespace Receipt

/-- However many relays have queued a packet for the next one, the receipt its receiver builds from
what arrived is valid for the packet that was sent; in the explicit form it is valid for no other
hash under any key. -/
theorem receipt_validates [Crypto] (hsigns : Ed25519Signs) {raw last : List UInt8}
    {relays : List (Relay × InterfaceId × PacketBuffer mtu)}
    (hcarried : Relay.Carried raw relays last) {view : PacketView}
    (hview : PacketView.parse raw = .ok view) (identity : LocalIdentity) (implicit : Bool)
    {outLen : Nat} (hroom : proofExplicitLen ≤ outLen) :
    ∃ view' receipt, PacketView.parse last = .ok view' ∧
      (∀ r target forwarded, (r, target, forwarded) ∈ relays → r.Queued target forwarded) ∧
      buildProof identity (packetHash last view'.header.flags.headerType) implicit outLen =
        .ok receipt ∧
      validateProof identity.publicKey (packetHash raw view.header.flags.headerType) receipt =
        true ∧
      (implicit = false → ∀ key hash, validateProof key hash receipt = true →
        hash = packetHash raw view.header.flags.headerType) := by
  obtain ⟨view', hview', hhash, hall⟩ := hcarried.remembers hview
  have hqueued r target forwarded (hmem : (r, target, forwarded) ∈ relays) :=
    (hall r target forwarded hmem).2
  rw [← hhash]
  have hverified := hsigns (Bytes.slice 32 identity.privateKey.toList 32)
    (packetHash last view'.header.flags.headerType).toList
  rw [← identity.ed25519_publicKey] at hverified
  unfold buildProof
  cases implicit with
  | true =>
      refine ⟨view', _, hview', hqueued, ?_, validateProof_iff.mpr ⟨_, .inl rfl, hverified⟩, by simp⟩
      rw [if_pos rfl, refuseIf_of_not (not_lt.mpr ((Nat.le_add_left _ _).trans hroom))]
      rfl
  | false =>
      refine ⟨view', _, hview', hqueued, ?_, validateProof_iff.mpr ⟨_, .inr rfl, hverified⟩,
        fun _ key other hother => ?_⟩
      · rw [if_neg Bool.false_ne_true, refuseIf_of_not (not_lt.mpr hroom)]
        rfl
      · obtain ⟨signature, hform | hform, _⟩ := validateProof_iff.mp hother
        · exact absurd (congrArg List.length hform) (by simp)
        · exact Bytes.ext_toList (List.append_inj_left hform.symm (by simp))

end Receipt

/-- The Ed25519 signature of the packet's digest, under the seed of bytes 0x11. -/
private def receiptSignature : Bytes 64 :=
  ⟨(Bytes.ofNat 32 0xec816874b748a1dc5448f188954f40c39166e5e68c745284da9df2853f6872d4).toList ++
    (Bytes.ofNat 32 0xebb46d0474e882d836bdbdb9eb881827ba11165abb7c09be4c66740e767ba100).toList, by simp⟩

@[reducible] private def receiptCrypto : Crypto :=
  { KnownIdentity.crypto with
    x25519Public := fun _ => OwnIdentity.x25519Key
    ed25519Public := fun _ => OwnIdentity.ed25519Key }
  |>.signing fun key message =>
    if key = OwnIdentity.ed25519Key ∧ message = KnownIdentity.dataDigest.toList then receiptSignature
    else Bytes.zero

theorem receipt_validates_relayed :
    letI := receiptCrypto
    let receipt := KnownIdentity.dataDigest.toList ++ receiptSignature.toList
    dataRelay.Queued 1 lastPacket ∧
      Receipt.buildProof OwnIdentity.identity (packetHash lastPacket.bytes .header1) false 96 =
        .ok receipt ∧
      Receipt.validateProof OwnIdentity.identity.publicKey KnownIdentity.dataDigest receipt = true ∧
      ∀ key hash, Receipt.validateProof key hash receipt = true →
        hash = KnownIdentity.dataDigest := by
  let _ := receiptCrypto
  have hdigest : packetHash (heardPacket KnownIdentity.dataHeader).raw .header2 =
      KnownIdentity.dataDigest := by decide +kernel
  have hforwards : dataRelay.Forwards (heardPacket KnownIdentity.dataHeader)
      (recorded learnedEndpoint KnownIdentity.dataDigest 2000) 1 lastPacket := by
    refine ⟨?_, ?_, ?_, ?_, ?_, ?_, ?_⟩
    · dsimp only [dataRelay]
      refine ⟨⟨?_, ?_, ?_, rfl⟩, ?_, ?_, ?_, ?_, ?_, ?_, ?_, ?_, .inr ⟨?_, hdigest ▸ rfl, .inl ?_⟩⟩
      all_goals decide +kernel
    all_goals decide +kernel
  obtain ⟨view', receipt, hview', hqueued, hbuilt, hvalid, honly⟩ := Receipt.receipt_validates
    (Crypto.signs_signing _ _) (.relayed hforwards (.arrived _)) hforwards.arrives.view
    OwnIdentity.identity false (show Receipt.proofExplicitLen ≤ 96 from le_rfl)
  have hlast : PacketView.parse lastPacket.bytes =
      .ok ⟨lastHeader, [7], lastHeader.bytes ++ [7], 19⟩ := by decide +kernel
  obtain rfl := Except.ok.inj (hview'.symm.trans hlast)
  have hreceipt : Receipt.buildProof OwnIdentity.identity (packetHash lastPacket.bytes .header1)
      false 96 = .ok (KnownIdentity.dataDigest.toList ++ receiptSignature.toList) := by
    decide +kernel
  obtain rfl := Except.ok.inj (hbuilt.symm.trans hreceipt)
  exact ⟨hqueued dataRelay 1 lastPacket (by simp), hreceipt, hdigest ▸ hvalid, hdigest ▸ honly rfl⟩

end Witness

end ReticulumLite
