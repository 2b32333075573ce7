import ReticulumLite.Proof.Ageing
import ReticulumLite.Proof.Announcing
import ReticulumLite.Proof.Cache
import ReticulumLite.Proof.Records

/-!
# How a discovery is completed

A discovery ends with an announce of its destination, and every interface that asked is sent a path
response. An announce whose route is not taken, because the route that is there was announced no
earlier, leaves the discovery as it is.
-/

namespace ReticulumLite

open Bounded

namespace Discoveries

variable {n : Nat} {d : Discoveries n} {owner : DiscoveryEntry} {now : Nat}

def Sole (d : Discoveries n) (owner : DiscoveryEntry) (now : Nat) : Prop :=
  ∃ i, d.entries.get i = owner ∧ owner.live now = true ∧
    ∀ j, (d.entries.get j).live now = true →
      (d.entries.get j).destination = owner.destination → j = i

theorem Sole.has (h : d.Sole owner now) : d.Has owner ∧ owner.live now = true := by
  obtain ⟨i, hi, hlive, _⟩ := h
  refine ⟨⟨i, hi, ?_⟩, hlive⟩
  simp only [DiscoveryEntry.live, Bool.and_eq_true, decide_eq_true_eq] at hlive
  exact hlive.1.1

theorem Sole.take_expire (h : d.Sole owner now) :
    ((d.expire now).take owner.destination now).2 = some owner ∧
      ∀ e, ((d.expire now).take owner.destination now).1.Has e →
        e.destination ≠ owner.destination := by
  obtain ⟨⟨_, _, hid⟩, _⟩ := h.has
  obtain ⟨i, hi, hlive, hsole⟩ := h
  have hget : (d.expire now).entries.get i = owner := by
    simp only [expire, List.Vector.get_map, hi, hlive, if_true]
  have hother (j : Fin n) (hj : ((d.expire now).entries.get j).identity ≠ 0)
      (hdest : ((d.expire now).entries.get j).destination = owner.destination) : j = i := by
    simp only [expire, List.Vector.get_map] at hj hdest
    split at hj
    · rename_i hjlive
      rw [if_pos hjlive] at hdest
      exact hsole j hjlive hdest
    · exact absurd rfl hj
  have hfound : (firstIndex fun j => decide (((d.expire now).entries.get j).identity ≠ 0) &&
      decide (((d.expire now).entries.get j).destination = owner.destination)) = some i := by
    refine firstIndex_eq_some.mpr ⟨by simp [hget, hid], fun j hj => ?_⟩
    rw [Bool.and_eq_false_iff]
    by_contra hboth
    simp only [not_or, Bool.not_eq_false, decide_eq_true_eq] at hboth
    exact hj.ne (hother j hboth.1 hboth.2)
  unfold take
  rw [hfound]
  simp only [hget, hlive, if_true, true_and]
  intro e he hdest
  obtain ⟨j, hj, hjid⟩ := id he
  simp only [List.Vector.get_set_eq_if] at hj
  split at hj
  · exact not_has_empty he hj.symm
  · rename_i hne
    exact hne (hother j (hj ▸ hjid) (hj ▸ hdest)).symm

end Discoveries

namespace LiteNode

variable {K : Capacities} {m : Model} [Crypto] {s s₀ : LiteNode K m} {frame : List UInt8}
  {rx : RxMeta} {nowMs : Nat} {localLink : Option Hash16} {h : Heard} {announce : AnnounceView}
  {owner : DiscoveryEntry}

/-! ### Who is told -/

/-- The interfaces that asked and are told, which the one the announce came from is not if it belongs
to a local client or roams. -/
def owed (i : Interfaces m) (requestersMask : BitVec 8) (ingress : InterfaceId) :
    List InterfaceId :=
  (requesterSlots.filter fun slot =>
    requestersMask.getLsbD slot.val && (i.facts slot).outbound &&
      (decide ((i.facts slot).id ≠ ingress) ||
        (!(i.facts slot).localClient && decide ((i.facts slot).mode ≠ .roaming)))).map
    fun slot => (i.facts slot).id

def tellEach (response : PacketBuffer mtu) (s : LiteNode K m) (ids : List InterfaceId) :
    LiteNode K m :=
  ids.foldl (fun s id => (s.enqueue id response .pathResponse).1) s

theorem facts_enqueue (s : LiteNode K m) (id : InterfaceId) (packet : PacketBuffer mtu)
    (reason : OutboundReason) (slot : Fin requesters) :
    (s.enqueue id packet reason).1.interfaces.facts slot = s.interfaces.facts slot := by
  obtain ⟨_, _, _, f, heq⟩ := enqueue_eq s id packet reason
  rw [heq]
  exact Interfaces.facts_counted _ f slot

theorem foldl_answerRequester (response : PacketBuffer mtu) (mask : BitVec 8) (rx : RxMeta)
    (s : LiteNode K m) (facts : Fin requesters → InterfaceFacts)
    (hfacts : ∀ slot, s.interfaces.facts slot = facts slot) (slots : List (Fin requesters)) :
    slots.foldl (answerRequester response mask rx) s =
      s.tellEach response ((slots.filter fun slot =>
        mask.getLsbD slot.val && (facts slot).outbound &&
          (decide ((facts slot).id ≠ rx.interfaceId) ||
            (!(facts slot).localClient && decide ((facts slot).mode ≠ .roaming)))).map
        fun slot => (facts slot).id) := by
  induction slots generalizing s with
  | nil => rfl
  | cons slot slots ih =>
      rw [List.foldl_cons, List.filter_cons]
      unfold answerRequester
      simp only [hfacts]
      split
      · rename_i hasked
        rw [if_pos (by simpa [and_assoc] using hasked), List.map_cons]
        exact ih _ fun slot => (facts_enqueue _ _ _ _ _).trans (hfacts slot)
      · rename_i hasked
        rw [if_neg (by simpa [and_assoc] using hasked)]
        exact ih s hfacts

/-- The discovery is over, and one path response made of the announce was tried for each interface
that asked. -/
structure Completes (s : LiteNode K m) (owner : DiscoveryEntry) (rx : RxMeta) (nowMs : Nat)
    (h : Heard) (s' : LiteNode K m) : Prop where
  finished : ∀ e, s'.discoveries.Has e → e.destination ≠ owner.destination
  told : ∃ (response : PacketBuffer mtu) (mid : LiteNode K m)
      (announceSchedule : AnnounceSchedule K.scheduled),
    s.pathResponseFromCachedAnnounce h.raw h.header.destinationHash h.header.hops = .ok response ∧
      mid.outbound = (s.letIn rx nowMs).outbound ∧
      mid.lastDeliveryIdentity = s.lastDeliveryIdentity ∧
      s' = { mid.tellEach response
          (owed (s.observeInterface rx).interfaces owner.requesters rx.interfaceId) with
        announceSchedule }

/-- The path table takes the route of an announce: it was emitted later than the one behind the route
that is there, and there is a place and a number for it, or it is the same route. -/
structure RouteWelcome (s : LiteNode K m) (rx : RxMeta) (nowMs : Nat) (h : Heard)
    (announce : AnnounceView) : Prop where
  newer : ∀ old, s.paths.liveRow h.header.destinationHash nowMs = some old →
    announceEmitted old.randomHash < announceEmitted announce.randomHash
  room : K.paths ≠ 0
  number : s.paths.lastGeneration < u64Max ∨
    ∃ old, s.paths.liveRow h.header.destinationHash nowMs = some old ∧
      old.interfaceId = rx.interfaceId ∧ old.nextHop = h.view.header.transportId ∧
      old.hops = h.header.hops

theorem welcomes_announcedPath {s₁ : LiteNode K m} (hpaths : s₁.paths = s.paths) {rx₁ : RxMeta}
    (hrx : rx₁.interfaceId = rx.interfaceId) :
    s₁.paths.Welcomes (s₁.announcedPath h.raw h.view h.header rx₁ announce nowMs) nowMs ↔
      s.RouteWelcome rx nowMs h announce := by
  have hroute (old : PathEntry)
      (hold : s.paths.liveRow h.header.destinationHash nowMs = some old) :
      PathTable.sameRoute old (s₁.announcedPath h.raw h.view h.header rx₁ announce nowMs) = true ↔
        old.interfaceId = rx.interfaceId ∧ old.nextHop = h.view.header.transportId ∧
          old.hops = h.header.hops := by
    have hdest := (Slots.find_mem hold).2
    simp only [Bool.and_eq_true, decide_eq_true_eq] at hdest
    simp only [PathTable.sameRoute, announcedPath, hrx, Bool.and_eq_true, decide_eq_true_eq]
    constructor
    · intro hsame
      exact ⟨hsame.1.1.2, hsame.1.2, hsame.2⟩
    · intro hsame
      exact ⟨⟨⟨hdest.1, hsame.1⟩, hsame.2.1⟩, hsame.2.2⟩
  rw [hpaths]
  constructor
  · intro hw
    refine ⟨hw.newer, hw.room, hw.number.imp_right ?_⟩
    rintro ⟨old, hold, hsame⟩
    exact ⟨old, hold, (hroute old hold).mp hsame⟩
  · intro hw
    refine ⟨hw.newer, hw.room, hw.number.imp_right ?_⟩
    rintro ⟨old, hold, hsame⟩
    exact ⟨old, hold, (hroute old hold).mpr hsame⟩

omit [Crypto] in
/-- Nothing is overheard in bulk that somebody asked for. -/
theorem bulkAnnounce_of_sought {e : DiscoveryEntry} (he : s.discoveries.Has e)
    (hlive : e.live nowMs = true) (id : InterfaceId) :
    s.bulkAnnounce e.destination id nowMs = false := by
  obtain ⟨i, hi, hid⟩ := he
  have hmem := (List.Vector.mem_iff_get e s.discoveries.entries).mpr ⟨i, hi⟩
  simp only [DiscoveryEntry.live, Bool.and_eq_true, decide_eq_true_eq] at hlive
  have hsought : (s.discoveries.entries.toList.any fun entry =>
      decide (entry.identity ≠ 0) && decide (entry.requesters ≠ 0) &&
        decide (entry.destination = e.destination) && decide (nowMs < entry.expiresMs)) = true := by
    rw [List.any_eq_true]
    refine ⟨e, hmem, ?_⟩
    simp only [Bool.and_eq_true, decide_eq_true_eq]
    exact ⟨⟨⟨hlive.1.1, hlive.1.2⟩, trivial⟩, hlive.2⟩
  unfold bulkAnnounce
  rw [hsought]
  exact Bool.and_false _

omit [Crypto] in
theorem pathResponse_of_small (s : LiteNode K m) {raw : List UInt8} {view : PacketView}
    (hview : PacketView.parse raw = .ok view) (hsmall : 35 + view.payload.length ≤ mtu)
    (dest : Hash16) (hops : UInt8) :
    ∃ response, s.pathResponseFromCachedAnnounce raw dest hops = .ok response := by
  let header : PacketHeader :=
    ⟨⟨.header2, view.header.flags.contextFlag, .transport, .single, .announce⟩, hops,
      some s.transportId, dest, .pathResponse⟩
  have hlen : (header.bytes ++ view.payload).length ≤ mtu := by
    have hheader : header.bytes.length = 35 := by
      simp [header, PacketHeader.bytes, PacketHeader.transportBytes]
    rw [List.length_append, hheader]
    exact hsmall
  refine ⟨⟨header.bytes ++ view.payload, hlen⟩, ?_⟩
  simp only [pathResponseFromCachedAnnounce, transportAnnounceFromRaw, bind_eq_ok, mapError_eq_ok,
    buildPacket_eq_ok]
  exact ⟨view, hview, rfl⟩

/-! ### The announce that is waited for -/

theorem sameRecords_tellEach (response : PacketBuffer mtu) (s : LiteNode K m)
    (ids : List InterfaceId) : SameRecords s (s.tellEach response ids) := by
  induction ids generalizing s with
  | nil => exact .refl s
  | cons id ids ih => exact (SameRecords.enqueueWithLifetime _ _ _ _ _).trans (ih _)

omit [Crypto] in
theorem scheduleRebroadcast_eq (s : LiteNode K m) (raw : List UInt8) (header : PacketHeader)
    (rx : RxMeta) (packetHash : Hash32) (nowMs : Nat) :
    ∃ announceSchedule,
      (s.scheduleRebroadcast raw header rx packetHash nowMs).1 = { s with announceSchedule } := by
  unfold scheduleRebroadcast
  repeat' split
  all_goals exact ⟨_, rfl⟩

theorem finishDiscovery_of_sole {d : Discoveries K.links} {raw : List UInt8} {header : PacketHeader}
    {response : PacketBuffer mtu} (henabled : s.config.transportEnabled = true)
    (hdiscoveries : s.discoveries = d.expire nowMs) (hsole : d.Sole owner nowMs)
    (hdest : owner.destination = header.destinationHash)
    (hresponse : s.pathResponseFromCachedAnnounce raw header.destinationHash header.hops =
      .ok response) :
    s.finishDiscovery raw header rx nowMs =
      tellEach response
        { s with discoveries := (s.discoveries.take header.destinationHash nowMs).1 }
        (owed s.interfaces owner.requesters rx.interfaceId) := by
  have htaken : (s.discoveries.take header.destinationHash nowMs).2 = some owner := by
    rw [hdiscoveries, ← hdest]
    exact hsole.take_expire.1
  unfold finishDiscovery
  rw [if_neg (by rw [henabled]; decide)]
  simp only [htaken]
  have hsame : pathResponseFromCachedAnnounce
      { s with discoveries := (s.discoveries.take header.destinationHash nowMs).1 } raw
        header.destinationHash header.hops = .ok response := hresponse
  simp only [hsame]
  exact foldl_answerRequester response owner.requesters rx
    { s with discoveries := (s.discoveries.take header.destinationHash nowMs).1 }
    s.interfaces.facts (fun _ => rfl) requesterSlots

omit [Crypto] in
theorem owed_congr {i j : Interfaces m} (h : ∀ slot, j.facts slot = i.facts slot) (mask : BitVec 8)
    (ingress : InterfaceId) : owed j mask ingress = owed i mask ingress := by
  unfold owed
  simp only [h]

theorem learnAnnounce_of_refused
    (hrefused : (s.paths.insertOrUpdate (s.announcedPath h.raw h.view h.header rx announce nowMs)
      nowMs).2 = false) :
    (s.learnAnnounce h.raw h.view h.header rx announce nowMs).1.discoveries = s.discoveries := by
  unfold learnAnnounce learnPath
  simp only [hrefused, Bool.false_eq_true, if_false]
  split <;> rfl

theorem learnAnnounce_of_taken {d : Discoveries K.links} {response : PacketBuffer mtu}
    (hview : PacketView.parse h.raw = .ok h.view)
    (henabled : s.config.transportEnabled = true) (hdiscoveries : s.discoveries = d.expire nowMs)
    (hsole : d.Sole owner nowMs) (hdest : owner.destination = h.header.destinationHash)
    (hresponse : s.pathResponseFromCachedAnnounce h.raw h.header.destinationHash h.header.hops =
      .ok response)
    (htaken : (s.paths.insertOrUpdate (s.announcedPath h.raw h.view h.header rx announce nowMs)
      nowMs).2 = true) :
    ∃ (mid : LiteNode K m) (announceSchedule : AnnounceSchedule K.scheduled),
      mid.outbound = s.outbound ∧
      mid.lastDeliveryIdentity = s.lastDeliveryIdentity ∧
      mid.discoveries = ((d.expire nowMs).take owner.destination nowMs).1 ∧
      (s.learnAnnounce h.raw h.view h.header rx announce nowMs).1 =
        { mid.tellEach response (owed s.interfaces owner.requesters rx.interfaceId) with
          announceSchedule } := by
  obtain ⟨buffer, hslice, _⟩ := fromSlice_of_parse hview
  let path := s.announcedPath h.raw h.view h.header rx announce nowMs
  let counted : LiteNode K m := ((s.learnPath path nowMs).1.count fun t =>
    { t with learnedAnnounces := bump t.learnedAnnounces }).cacheAnnounce buffer path nowMs
  have hlearned : (s.learnPath path nowMs).2 = true := htaken
  obtain ⟨paths, announceCache, stats, f, hcounted⟩ : ∃ paths announceCache stats f, counted =
      { s with paths, announceCache, stats, interfaces := s.interfaces.counted f } := by
    obtain ⟨_, f, heq⟩ := onlyCounts_learnPath s path nowMs
    simp only [counted, heq]
    exact ⟨_, _, _, f, rfl⟩
  have hlearn : (s.learnAnnounce h.raw h.view h.header rx announce nowMs).1 =
      ((counted.finishDiscovery h.raw h.header rx nowMs).scheduleRebroadcast h.raw h.header rx
        path.packetHash nowMs).1 := by
    unfold learnAnnounce
    rw [if_pos hlearned]
    unfold followPath
    simp only [hslice]
    rfl
  obtain ⟨announceSchedule, hschedule⟩ := scheduleRebroadcast_eq
    (counted.finishDiscovery h.raw h.header rx nowMs) h.raw h.header rx path.packetHash nowMs
  have hfinish : counted.finishDiscovery h.raw h.header rx nowMs = _ :=
    finishDiscovery_of_sole (s := counted) (by rw [hcounted]; exact henabled)
      (by rw [hcounted]; exact hdiscoveries) hsole hdest (by rw [hcounted]; exact hresponse)
  have howed : owed counted.interfaces owner.requesters rx.interfaceId =
      owed s.interfaces owner.requesters rx.interfaceId := by
    rw [hcounted]
    exact owed_congr (fun slot => Interfaces.facts_counted _ _ slot) _ _
  refine ⟨{ counted with
    discoveries := (counted.discoveries.take h.header.destinationHash nowMs).1 }, announceSchedule,
    ?_, ?_, ?_, ?_⟩
  · rw [hcounted]
  · rw [hcounted]
  · rw [hcounted, hdest, ← hdiscoveries]
  · rw [hlearn, hschedule, hfinish, howed]

/-- A discovery is completed by a credible announce only if the path table takes the route. -/
theorem discovery_completed_iff (ha : s.Arrives frame rx nowMs localLink h s₀)
    (hc : s.Credible nowMs h announce) (henabled : s.config.transportEnabled = true)
    (hsole : s.discoveries.Sole owner nowMs) (hdest : owner.destination = h.header.destinationHash)
    (hsmall : 35 + h.view.payload.length ≤ mtu) (endpoint : Option (PacketBuffer mtu)) :
    s.Completes owner rx nowMs h (s.ingestInner frame rx nowMs localLink endpoint).node ↔
      s.RouteWelcome rx nowMs h announce := by
  obtain ⟨announceAdmission, knownDestinations, handled, hlearn, _, hnode⟩ :=
    ha.ingest_credible hc endpoint
  rw [hnode, ← hlearn]
  obtain ⟨packetHashes, hs₀⟩ := ha.eq_letIn
  obtain ⟨outbound, stats, hletIn, _⟩ := letIn_eq s rx nowMs
  obtain ⟨response, hresponse⟩ := pathResponse_of_small s ha.view hsmall h.header.destinationHash
    h.header.hops
  generalize hs₁ : ({ s₀ with
    announceAdmission, knownDestinations
    announceSchedule := s.heeded h nowMs } : LiteNode K m) = s₁
  have hconfig : s₁.config = s.config := by
    rw [← hs₁, hs₀, hletIn]
    rfl
  have hpaths : s₁.paths = s.paths := by
    rw [← hs₁, hs₀, hletIn]
    rfl
  have houtbound : s₁.outbound = (s.letIn rx nowMs).outbound := by
    rw [← hs₁, hs₀]
  have hlast : s₁.lastDeliveryIdentity = s.lastDeliveryIdentity := by
    rw [← hs₁, hs₀, hletIn]
    rfl
  have hinterfaces : s₁.interfaces = (s.observeInterface rx).interfaces := by
    rw [← hs₁, hs₀, hletIn]
    rfl
  have hdiscoveries : s₁.discoveries = s.discoveries.expire nowMs := by
    rw [← hs₁, hs₀, hletIn]
    simp only [refreshDiscoveries, observeInterface, henabled, if_true]
  have hresponse₁ : s₁.pathResponseFromCachedAnnounce h.raw h.header.destinationHash h.header.hops =
      .ok response := by
    rw [← hs₁, hs₀, hletIn]
    exact hresponse
  obtain ⟨hhas, hlive⟩ := hsole.has
  have hbulk : (s₁.announcedPath h.raw h.view h.header (s.knownMeta rx) announce nowMs).bulk =
      false := by
    have hsought : s₁.discoveries.Has owner := by
      rw [hdiscoveries]
      exact Discoveries.has_expire.mpr ⟨hhas, hlive⟩
    simp only [announcedPath, ← hdest]
    exact bulkAnnounce_of_sought hsought hlive _
  rw [← welcomes_announcedPath hpaths (interfaceId_knownMeta s rx),
    ← PathTable.insertOrUpdate_taken_iff hbulk]
  cases htaken : (s₁.paths.insertOrUpdate
      (s₁.announcedPath h.raw h.view h.header (s.knownMeta rx) announce nowMs) nowMs).2 with
  | false =>
      refine iff_of_false (fun hcompletes => ?_) Bool.false_ne_true
      refine hcompletes.finished owner ?_ rfl
      rw [learnAnnounce_of_refused htaken, hdiscoveries]
      exact Discoveries.has_expire.mpr ⟨hhas, hlive⟩
  | true =>
      obtain ⟨mid, announceSchedule, hmidOutbound, hmidLast, hmidDiscoveries, heq⟩ :=
        learnAnnounce_of_taken ha.view (by rw [hconfig]; exact henabled) hdiscoveries hsole hdest
          hresponse₁ htaken
      rw [interfaceId_knownMeta, hinterfaces] at heq
      refine iff_of_true ⟨?_, response, mid, announceSchedule, hresponse,
        hmidOutbound.trans houtbound, hmidLast.trans hlast, heq⟩ rfl
      rw [heq]
      intro e he
      refine hsole.take_expire.2 e ?_
      rw [← hmidDiscoveries, ← (sameRecords_tellEach response mid _).discoveries]
      exact he

end LiteNode

/-! ### One discovery -/

namespace LiteNode

/-- A node that was asked for the way to the destination by its second interface. -/
def askedEndpoint : LiteNode smallCapacities .endpoint :=
  letI := KnownIdentity.crypto
  (smallEndpoint.ingest KnownIdentity.requestPacket ⟨2, some .gateway⟩ 500).node

private def askedOwner : DiscoveryEntry := ⟨KnownIdentity.destination, 15500, 1, 1⟩

theorem discovery_completed_askedEndpoint :
    letI := KnownIdentity.crypto
    askedEndpoint.Completes askedOwner ⟨1, none⟩ 1000 (KnownIdentity.heard KnownIdentity.first)
      (askedEndpoint.ingestInner (KnownIdentity.packet 0x01 0x00 0x00 KnownIdentity.first) ⟨1, none⟩
        1000 none none).node := by
  let _ := KnownIdentity.crypto
  have hhash : packetHash (KnownIdentity.packet 0x01 0x00 0x00 KnownIdentity.first) .header1 =
      Bytes.ofNat 32 0xc4ade8cc029deeb3ae7b814c2f1192cc9d18990d5035713fa316cf9376fd2d14 := by
    decide +kernel
  have harrives : askedEndpoint.Arrives (KnownIdentity.packet 0x01 0x00 0x00 KnownIdentity.first)
      ⟨1, none⟩ 1000 none (KnownIdentity.heard KnownIdentity.first)
      ((askedEndpoint.letIn ⟨1, none⟩ 1000).recordHash (Bytes.ofNat 32
        0xc4ade8cc029deeb3ae7b814c2f1192cc9d18990d5035713fa316cf9376fd2d14) 1000).1 := by
    refine ⟨⟨?_, ?_, ?_, rfl⟩, ?_, ?_, ?_, ?_, ?_, ?_, ?_, ?_, .inr ⟨?_, hhash ▸ rfl, .inl ?_⟩⟩
    all_goals decide +kernel
  have hcredible : askedEndpoint.Credible 1000 (KnownIdentity.heard KnownIdentity.first)
      KnownIdentity.first := by
    refine ⟨?_, ?_, ?_, ?_, ?_⟩
    all_goals decide +kernel
  have hsole : askedEndpoint.discoveries.Sole askedOwner 1000 :=
    ⟨⟨0, by decide⟩, by decide +kernel⟩
  have hnone : askedEndpoint.paths.liveRow KnownIdentity.destination 1000 = none := by
    decide +kernel
  refine (discovery_completed_iff harrives hcredible rfl hsole rfl (by decide +kernel) none).mpr ?_
  refine ⟨fun old hold => ?_, by decide, .inl (by decide +kernel)⟩
  exact absurd (hold.symm.trans hnone) (Option.some_ne_none old)

/-- A week on, the route is in use and its announce is gone, so a request for it starts a discovery.
The announce that the route was learned from does not complete it. -/
theorem same_announce_completes_nothing :
    letI := KnownIdentity.crypto
    let asked := forwardedEndpoint.ingest KnownIdentity.requestPacket ⟨2, some .gateway⟩ 604801500
    let answered := asked.node.ingest (KnownIdentity.packet 0x01 0x00 0x00 KnownIdentity.first)
      ⟨1, none⟩ 604801600
    asked.answer = .ok .forwardedPathRequest ∧
      asked.node.config.transportEnabled = true ∧
      (asked.node.discoveries.entries.toList.any fun e =>
        e.live 604801600 && decide (e.destination = KnownIdentity.destination)) = true ∧
      answered.answer = .ok .announceIgnored ∧
      (answered.node.discoveries.entries.toList.any fun e =>
        e.live 604801600 && decide (e.destination = KnownIdentity.destination)) = true ∧
      answered.node.lastDeliveryIdentity = asked.node.lastDeliveryIdentity := by
  decide +kernel

end LiteNode

end ReticulumLite
