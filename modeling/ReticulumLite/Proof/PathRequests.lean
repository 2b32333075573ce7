import ReticulumLite.Proof.Tags
import ReticulumLite.Proof.Records

/-!
# Path requests do not go round

A request is known by its destination and its tag, and every node that passes it on builds it anew:
with or without a transport id, and with the tag filled up to sixteen bytes. Its key stays the same,
so a copy that comes back, by whatever way, finds it among the tags and goes no further.
-/

namespace ReticulumLite

open Bounded LiteNode

section

variable [Crypto]

/-- A packet that a node handles as the given path request, if it handles it. -/
def Carries (raw : List UInt8) (request : PathRequest) : Prop :=
  ∃ view, PacketView.parse raw = .ok view ∧ view.header.destinationHash = pathRequestDestination ∧
    view.header.flags.packetType = .data ∧ view.header.flags.destinationType ≠ .link ∧
    PathRequest.parse view.payload = some request

/-- The packets in which a request comes back: as it was, or built anew by any number of nodes. -/
inductive Copies : PathRequest → List UInt8 → Prop
  | heard {request : PathRequest} {raw : List UInt8} (h : Carries raw request) : Copies request raw
  | rebuilt {K : Capacities} {m : Model} (s : LiteNode K m) {request request' : PathRequest}
      {packet : PacketBuffer mtu} {raw : List UInt8}
      (hbuilt : s.buildPathRequest request.requested request.tag = .ok packet)
      (hcarries : Carries packet.bytes request') (h : Copies request' raw) : Copies request raw

variable {request : PathRequest}

theorem Carries.unique {raw : List UInt8} {request' : PathRequest} (h : Carries raw request)
    (h' : Carries raw request') : request' = request := by
  obtain ⟨view, hview, _, _, _, hparse⟩ := h
  obtain ⟨view', hview', _, _, _, hparse'⟩ := h'
  rw [hview] at hview'
  cases hview'
  exact Option.some.inj (hparse'.symm.trans hparse)

/-! ### Keys -/

omit [Crypto] in
theorem isEmpty_tag (tag : Bytes 16) : tag.toList.isEmpty = false := by
  rw [List.isEmpty_eq_false_iff, ← List.length_pos_iff, Bytes.length_toList]
  decide

omit [Crypto] in
theorem parse_direct (requested : Hash16) (tag : Bytes 16) :
    PathRequest.parse (requested.toList ++ tag.toList) = some ⟨requested, none, tag.toList⟩ := by
  have hlen : (requested.toList ++ tag.toList).length = 32 := by simp
  have htag : ((requested.toList ++ tag.toList).drop 16).take 16 = tag.toList := by
    rw [List.drop_left' (by simp), List.take_of_length_le (by simp)]
  have hrequested : Bytes.slice 16 (requested.toList ++ tag.toList) 0 = requested :=
    Bytes.slice_toList_append _ _
  unfold PathRequest.parse
  rw [hlen, if_neg (by decide)]
  simp only [gt_iff_lt, lt_self_iff_false, if_false, htag, isEmpty_tag, hrequested, Bool.false_eq_true]

omit [Crypto] in
theorem parse_relayed (requested transport : Hash16) (tag : Bytes 16) :
    PathRequest.parse (requested.toList ++ transport.toList ++ tag.toList) =
      some ⟨requested, some transport, tag.toList⟩ := by
  have hlen : (requested.toList ++ transport.toList ++ tag.toList).length = 48 := by simp
  have htag : ((requested.toList ++ transport.toList ++ tag.toList).drop 32).take 16 = tag.toList := by
    rw [List.drop_left' (by simp), List.take_of_length_le (by simp)]
  have hrequested : Bytes.slice 16 (requested.toList ++ transport.toList ++ tag.toList) 0 =
      requested := by
    rw [List.append_assoc]
    exact Bytes.slice_toList_append _ _
  have htransport : Bytes.slice 16 (requested.toList ++ transport.toList ++ tag.toList) 16 =
      transport := by
    rw [List.append_assoc]
    exact Bytes.slice_between requested.length_toList _ _
  have hlong : 48 > 32 := by decide
  unfold PathRequest.parse
  rw [hlen, if_neg (by decide)]
  simp only [if_pos hlong, htag, isEmpty_tag, hrequested, htransport, Bool.false_eq_true, if_false]

omit [Crypto] in
theorem tagKey_padded (requested : Hash16) (transport transport' : Option Hash16) {tag : List UInt8}
    (h : tag.length ≤ 16) :
    PathRequest.tagKey ⟨requested, transport, (Bytes.slice 16 tag 0).toList⟩ =
      PathRequest.tagKey ⟨requested, transport', tag⟩ := by
  apply Bytes.ext_toList
  have hpadded : (requested.toList ++ (Bytes.slice 16 tag 0).toList).length ≤ 32 := by simp
  have hplain : (requested.toList ++ tag).length ≤ 32 := by
    rw [List.length_append, Bytes.length_toList]
    omega
  simp only [PathRequest.tagKey]
  rw [Bytes.toList_slice_zero hpadded, Bytes.toList_slice_zero hplain, Bytes.toList_slice_zero h]
  simp only [List.append_assoc, List.length_append, Bytes.length_toList, List.length_replicate]
  congr 2
  rw [List.replicate_append_replicate]
  congr 1
  omega

/-- A request that is built anew is there for the next node to read, with the same destination and
the same key. -/
theorem carries_buildPathRequest {K : Capacities} {m : Model} (s : LiteNode K m)
    (htag : request.tag.length ≤ 16) :
    ∃ packet request', s.buildPathRequest request.requested request.tag = .ok packet ∧
      Carries packet.bytes request' ∧ request'.tag.length = 16 ∧
      request'.requested = request.requested ∧ request'.tagKey = request.tagKey := by
  let header : PacketHeader :=
    { flags := { headerType := .header1, contextFlag := false, transportType := .broadcast,
                 destinationType := .plain, packetType := .data }
      hops := 0
      transportId := none
      destinationHash := pathRequestDestination
      context := .none }
  have hcoherent : header.Coherent := ⟨rfl, rfl⟩
  have hbuilt : ∀ payload request', payload.length ≤ 48 →
      s.buildPathRequest request.requested request.tag = (buildPacket header payload).mapError .wire →
      PathRequest.parse payload = some request' →
      ∃ packet, s.buildPathRequest request.requested request.tag = .ok packet ∧
        Carries packet.bytes request' := by
    intro payload request' hlen hbuild hparse
    have hbytes : (header.bytes ++ payload).length ≤ mtu := by
      rw [List.length_append, hcoherent.length_bytes]
      change 19 + payload.length ≤ 500
      omega
    have hpacket : buildPacket header payload = .ok ⟨header.bytes ++ payload, hbytes⟩ :=
      buildPacket_eq_ok.mpr rfl
    refine ⟨⟨header.bytes ++ payload, hbytes⟩, ?_, _, PacketView.parse_of_header hcoherent hbytes, rfl,
      rfl, ?_, hparse⟩
    · rw [hbuild, hpacket]
      rfl
    · intro hlink
      cases hlink
  let tag : Bytes 16 := Bytes.slice 16 request.tag 0
  cases htransport : s.config.transportEnabled with
  | false =>
      obtain ⟨packet, hpacket, hcarries⟩ := hbuilt (request.requested.toList ++ tag.toList)
        ⟨request.requested, none, tag.toList⟩ (by simp)
        (by simp only [buildPathRequest, htransport, Bool.false_eq_true, if_false, List.append_nil]; rfl)
        (parse_direct _ _)
      exact ⟨packet, _, hpacket, hcarries, by simp, rfl, tagKey_padded _ _ _ htag⟩
  | true =>
      obtain ⟨packet, hpacket, hcarries⟩ := hbuilt
        (request.requested.toList ++ s.transportId.toList ++ tag.toList)
        ⟨request.requested, some s.transportId, tag.toList⟩ (by simp)
        (by simp only [buildPathRequest, htransport, if_true]; rfl) (parse_relayed _ _ _)
      exact ⟨packet, _, hpacket, hcarries, by simp, rfl, tagKey_padded _ _ _ htag⟩

theorem Copies.carries {raw : List UInt8} (h : Copies request raw) (htag : request.tag.length ≤ 16) :
    ∃ request', Carries raw request' ∧ request'.requested = request.requested ∧
      request'.tagKey = request.tagKey := by
  induction h with
  | heard h => exact ⟨_, h, rfl, rfl⟩
  | rebuilt s hbuilt hcarries _ ih =>
      obtain ⟨packet, request₁, hbuilt₁, hcarries₁, hlen, hrequested, hkey⟩ :=
        carries_buildPathRequest s htag
      rw [hbuilt] at hbuilt₁
      cases hbuilt₁
      obtain rfl := hcarries₁.unique hcarries
      obtain ⟨request₂, hcarries₂, hrequested₂, hkey₂⟩ := ih hlen.le
      exact ⟨request₂, hcarries₂, hrequested₂.trans hrequested, hkey₂.trans hkey⟩

end

/-! ### Copies that come back -/

namespace LiteNode

variable {K : Capacities} {m : Model} {s s' : LiteNode K m}

/-- No frame has been queued, and no discovery joined or started. -/
structure Unmoved (s s' : LiteNode K m) : Prop where
  outbound : s'.outbound.toList.Sublist s.outbound.toList
  lastDeliveryIdentity : s'.lastDeliveryIdentity = s.lastDeliveryIdentity
  discoveries : ∀ e, s'.discoveries.Has e → s.discoveries.Has e
  lastIdentity : s'.discoveries.lastIdentity = s.discoveries.lastIdentity

theorem unmoved_letIn (s : LiteNode K m) (rx : RxMeta) (nowMs : Nat) :
    Unmoved s (s.letIn rx nowMs) := by
  obtain ⟨outbound, stats, heq, hlist⟩ := letIn_eq s rx nowMs
  rw [heq]
  refine ⟨hlist ▸ List.filter_sublist, rfl, fun e he => ?_, ?_⟩
  · have hkept := (Discoveries.has_expire.mp he).1
    split at hkept
    · exact hkept
    · exact Discoveries.has_of_clear hkept
  · simp only [refreshDiscoveries]
    split
    · rfl
    · rfl

theorem Unmoved.of_onlyCounts {s'' : LiteNode K m} (h : Unmoved s s') (hcounts : OnlyCounts s' s'') :
    Unmoved s s'' := by
  obtain ⟨_, _, rfl⟩ := hcounts
  exact ⟨h.outbound, h.lastDeliveryIdentity, h.discoveries, h.lastIdentity⟩

variable [Crypto]

variable {request : PathRequest} {rx : RxMeta} {nowMs : Nat}

theorem handlePathRequest_of_holds {payload : List UInt8} {e : RequestTagEntry}
    (hparse : PathRequest.parse payload = some request) (hheld : s.requestTags.Holds e)
    (hlive : nowMs < e.expiresMs) (hkey : e.key = request.tagKey) :
    s.handlePathRequest payload rx nowMs =
      ({ s with requestTags := s.requestTags.expire nowMs }.countDuplicate, .ok .duplicate) := by
  simp only [handlePathRequest, hparse, RequestTagTable.insertIfNew_of_holds hheld hlive hkey, if_true]

theorem handlePacket_of_request {raw : List UInt8} {view : PacketView} {header : PacketHeader}
    (hdest : header.destinationHash = pathRequestDestination)
    (htype : header.flags.packetType = .data) (hlink : header.flags.destinationType ≠ .link) :
    s.handlePacket raw view header rx nowMs = s.handlePathRequest view.payload rx nowMs := by
  simp only [handlePacket, htype, handleData, routeLinkPacket]
  rw [if_pos (.inr (.inl hlink))]
  simp only [hdest, if_true]

theorem unmoved_of_carries {frame raw : List UInt8} {localLink : Option Hash16}
    {endpoint : Option (PacketBuffer mtu)} {e : RequestTagEntry}
    (hraw : s.unwrapFrame rx.interfaceId frame = some raw) (hcarries : Carries raw request)
    (hheld : s.requestTags.Holds e) (hlive : nowMs < e.expiresMs) (hkey : e.key = request.tagKey) :
    Unmoved s (s.ingestInner frame rx nowMs localLink endpoint).node := by
  have hletIn := unmoved_letIn s rx nowMs
  rcases ingestInner_cases s frame rx nowMs localLink endpoint with
    ⟨h, s₀, ha⟩ | ⟨_, hcounts | ⟨_, _, _, _, _, _, hcounts⟩⟩
  · obtain ⟨view, hview, hdest, htype, hlink, hparse⟩ := hcarries
    obtain rfl : h.raw = raw := Option.some.inj (ha.packet.symm.trans hraw)
    obtain rfl : h.view = view := Except.ok.inj (ha.view.symm.trans hview)
    have hheader := ha.header
    rw [ingestInner_of_arrives ha, handlePacket_of_request (by rw [hheader]; exact hdest)
      (by rw [hheader]; exact htype) (by rw [hheader]; exact hlink)]
    have hstart : Unmoved s s₀ := by
      obtain ⟨_, heq⟩ := ha.eq_letIn
      rw [heq]
      exact ⟨hletIn.outbound, hletIn.lastDeliveryIdentity, hletIn.discoveries, hletIn.lastIdentity⟩
    have hheld' : s₀.requestTags.Holds e := by
      rw [ha.requestTags_eq]
      exact hheld
    rw [handlePathRequest_of_holds hparse hheld' hlive hkey]
    exact ⟨hstart.outbound, hstart.lastDeliveryIdentity, hstart.discoveries, hstart.lastIdentity⟩
  · exact hletIn.of_onlyCounts hcounts
  · refine Unmoved.of_onlyCounts ?_ hcounts
    exact ⟨hletIn.outbound, hletIn.lastDeliveryIdentity, hletIn.discoveries, hletIn.lastIdentity⟩

/-! ### What is recorded of a request -/

omit [Crypto] in
theorem mem_newKeys_insertIfNew {n : Nat} {t : RequestTagTable n} {key : Hash32} (hn : 0 < n)
    (hfits : nowMs + pathRequestDuplicateGateMs ≤ u64Max)
    (habsent : ∀ e, t.Holds e → nowMs < e.expiresMs → e.key ≠ key) :
    key ∈ t.newKeys (t.insertIfNew key (satAdd nowMs pathRequestDuplicateGateMs) nowMs).1 := by
  have hlater : nowMs < satAdd nowMs pathRequestDuplicateGateMs := by
    rw [satAdd_eq hfits]
    exact Nat.lt_add_of_pos_right (by decide)
  exact RequestTagTable.mem_newKeys.mpr ⟨⟨key, _⟩, RequestTagTable.holds_insertIfNew_self hn habsent,
    fun hheld => habsent _ hheld hlater rfl, rfl⟩

omit [Crypto] in
theorem requestTags_reportHandled (handled : Handled K m) (raw : List UInt8) (header : PacketHeader)
    (endpoint : Option (PacketBuffer mtu)) :
    (reportHandled handled raw header endpoint).node.requestTags = handled.1.requestTags := by
  unfold reportHandled
  dsimp only
  repeat' split
  all_goals rfl

theorem records_ingest {frame : List UInt8} {localLink : Option Hash16} {h : Heard}
    {s₀ : LiteNode K m} (ha : s.Arrives frame rx nowMs localLink h s₀)
    (hcarries : Carries h.raw request) (hn : 0 < K.tags)
    (hfits : nowMs + pathRequestDuplicateGateMs ≤ u64Max)
    (habsent : ∀ e, s.requestTags.Holds e → nowMs < e.expiresMs → e.key ≠ request.tagKey)
    (endpoint : Option (PacketBuffer mtu)) :
    request.tagKey ∈ s.requestTags.newKeys
      (s.ingestInner frame rx nowMs localLink endpoint).node.requestTags := by
  obtain ⟨view, hview, hdest, htype, hlink, hparse⟩ := hcarries
  obtain rfl : h.view = view := Except.ok.inj (ha.view.symm.trans hview)
  have hheader := ha.header
  rw [ingestInner_of_arrives ha, handlePacket_of_request (by rw [hheader]; exact hdest)
    (by rw [hheader]; exact htype) (by rw [hheader]; exact hlink), requestTags_reportHandled,
    (follows_sameTags.handlePathRequest_of_parse s₀ hparse _ nowMs).requestTags]
  simp only [tagged, ha.requestTags_eq]
  exact mem_newKeys_insertIfNew hn hfits habsent

theorem records_requestPath {destinationHash : Hash16} {tag : Bytes 16} {id : InterfaceId}
    (hsent : (s.requestPath destinationHash tag id nowMs).2 = .ok ()) (hn : 0 < K.tags)
    (hfits : nowMs + pathRequestDuplicateGateMs ≤ u64Max)
    (habsent : ∀ e, s.requestTags.Holds e → nowMs < e.expiresMs →
      e.key ≠ PathRequest.tagKey ⟨destinationHash, none, tag.toList⟩) :
    PathRequest.tagKey ⟨destinationHash, none, tag.toList⟩ ∈ s.requestTags.newKeys
      (s.requestPath destinationHash tag id nowMs).1.requestTags := by
  have hexpired := SameTags.expireOutbound { s with clockMs := nowMs } nowMs
  unfold requestPath at hsent ⊢
  dsimp only at hsent ⊢
  generalize ({ s with clockMs := nowMs } : LiteNode K m).expireOutbound nowMs = s₁ at *
  split at hsent
  · cases hsent
  rename_i packet _
  have hqueue := (follows_sameTags.enqueue s₁ id packet .pathRequest).requestTags
  split at hsent
  · cases hsent
  · rename_i hqueued
    rw [hqueued, hexpired.requestTags] at hqueue
    dsimp only
    rw [show _ = s.requestTags from hqueue]
    exact mem_newKeys_insertIfNew hn hfits habsent

/-! ### Loops -/

omit [Crypto] in
theorem accounted_of_fresh (h : s.Fresh) (since : Nat) : s.requestTags.Accounted since [] := by
  cases h with
  | newConst => exact RequestTagTable.accounted_empty since []
  | newRouterConst => exact RequestTagTable.accounted_empty since []

/-- Once a key has been recorded it runs to its deadline, while fewer other keys are recorded from
then on than there are places. -/
theorem holds_of_recorded {s₀ t : LiteNode K m} {before after : List (Operation m)}
    {op : Operation m} {since : Nat} {key : Hash32} (hfresh : s₀.Fresh) (hbefore : s₀.Reaches before s)
    (htime : op.time = some since) (hfits : since + pathRequestDuplicateGateMs ≤ u64Max)
    (hnew : key ∈ s.requestTags.newKeys (op.perform s).requestTags)
    (hafter : (op.perform s).Proceeds after t)
    (hfew : ((recordedSince since s₀ (before ++ op :: after)).filter (· ≠ key)).dedup.length < K.tags)
    (hgate : t.clockMs < since + pathRequestDuplicateGateMs) :
    t.requestTags.Holds ⟨key, since + pathRequestDuplicateGateMs⟩ := by
  have hresets : op.resets = false := by
    cases op with
    | resetInPlace | resetRouterInPlace => cases htime
    | _ => rfl
  obtain ⟨hstep, hclock⟩ := op.requestTags_perform s hresets
  rw [htime] at hstep hclock
  have haccounted := accounted_perform
    (accounted_runs hbefore (accounted_of_fresh hfresh since)) op
  rw [List.nil_append] at haccounted
  rw [recordedSince_append hbefore, recordedSince, ← List.append_assoc] at hfew
  exact hafter.holds haccounted (hstep.holds_of_newKeys hnew hfits) hclock.ge hgate hfits hfew

end LiteNode

/-- Path requests do not go round. A request built anew keeps its destination and its key, at every
node; one that arrives or is sent is recorded unless its key is retained; and a node that has
recorded a request neither queues a frame nor joins or starts a discovery for any copy that comes
back in time, if it has not been reset and has not recorded too many other keys. -/
theorem path_requests_cut [Crypto] :
    (∀ request : PathRequest, 1 ≤ request.tag.length → request.tag.length ≤ 16 →
      (∀ (K : Capacities) (m : Model) (s : LiteNode K m), ∃ packet request',
        s.buildPathRequest request.requested request.tag = .ok packet ∧
        Carries packet.bytes request' ∧ 1 ≤ request'.tag.length ∧ request'.tag.length ≤ 16 ∧
        request'.requested = request.requested ∧ request'.tagKey = request.tagKey) ∧
      ∀ raw, Copies request raw → ∃ request', Carries raw request' ∧
        request'.requested = request.requested ∧ request'.tagKey = request.tagKey) ∧
    (∀ (K : Capacities) (m : Model) (s : LiteNode K m) (nowMs : Nat), 0 < K.tags →
      nowMs + 120000 ≤ u64Max →
      (∀ frame rx localLink endpoint h s₀ request, s.Arrives frame rx nowMs localLink h s₀ →
        Carries h.raw request →
        (∀ e, s.requestTags.Holds e → nowMs < e.expiresMs → e.key ≠ request.tagKey) →
        request.tagKey ∈ s.requestTags.newKeys
          (s.ingestInner frame rx nowMs localLink endpoint).node.requestTags) ∧
      ∀ destinationHash (tag : Bytes 16) id,
        (s.requestPath destinationHash tag id nowMs).2 = .ok () →
        (∀ e, s.requestTags.Holds e → nowMs < e.expiresMs →
          e.key ≠ PathRequest.tagKey ⟨destinationHash, none, tag.toList⟩) →
        PathRequest.tagKey ⟨destinationHash, none, tag.toList⟩ ∈ s.requestTags.newKeys
          (s.requestPath destinationHash tag id nowMs).1.requestTags) ∧
    ∀ (K : Capacities) (m : Model) (s₀ s t : LiteNode K m) before op after since
      (request : PathRequest), request.tag.length ≤ 16 → s₀.Fresh → s₀.Reaches before s →
      op.time = some since → since + 120000 ≤ u64Max →
      request.tagKey ∈ s.requestTags.newKeys (op.perform s).requestTags →
      (op.perform s).Proceeds after t →
      ((recordedSince since s₀ (before ++ op :: after)).filter (· ≠ request.tagKey)).dedup.length <
        K.tags →
      ∀ frame raw rx nowMs localLink endpoint, t.unwrapFrame rx.interfaceId frame = some raw →
        Copies request raw → t.clockMs ≤ nowMs → nowMs < since + 120000 →
        t.Unmoved (t.ingestInner frame rx nowMs localLink endpoint).node := by
  refine ⟨fun request hsome htag => ⟨fun K m s => ?_, fun raw h => h.carries htag⟩,
    fun K m s nowMs hn hfits => ⟨?_, ?_⟩, ?_⟩
  · obtain ⟨packet, request', hbuilt, hcarries, hlen, hsame⟩ := carries_buildPathRequest s htag
    exact ⟨packet, request', hbuilt, hcarries, by omega, by omega, hsame⟩
  · intro frame rx localLink endpoint h s₀ request ha hcarries habsent
    exact records_ingest ha hcarries hn hfits habsent endpoint
  · intro destinationHash tag id hsent habsent
    exact records_requestPath hsent hn hfits habsent
  · intro K m s₀ s t before op after since request htag hfresh hbefore htime hfits hnew hafter hfew
      frame raw rx nowMs localLink endpoint hraw hcopies hclock hgate
    obtain ⟨request', hcarries, _, hkey⟩ := hcopies.carries htag
    have hheld := holds_of_recorded hfresh hbefore htime hfits hnew hafter hfew (hclock.trans_lt hgate)
    exact unmoved_of_carries hraw hcarries hheld hgate hkey.symm

/-! ### A request that comes back -/

namespace ReturningRequest

def requested : Hash16 := Bytes.slice 16 (List.replicate 16 0x5a) 0

def tag : Bytes 16 := Bytes.slice 16 (List.replicate 16 1) 0

def request : PathRequest := ⟨requested, none, tag.toList⟩

/-- A node with transport enabled, by which the request is built anew. -/
def relay : LiteNode smallCapacities .endpoint :=
  newConst smallConfig (Bytes.slice 16 (List.replicate 16 7) 0)

def payload : List UInt8 := requested.toList ++ relay.transportId.toList ++ tag.toList

def packet : List UInt8 := KnownIdentity.requestHeader.bytes ++ payload

def digest : Bytes 32 :=
  Bytes.ofNat 32 0x9b11f53df2c751f4e107461fdc0d3ed82cb9d5faa397282dfeb8b02099015382

/-- The digests that the request needs on its way out and back. -/
@[reducible] def crypto : Crypto :=
  .known ((KnownIdentity.requestHeader.hashed ++ payload, digest) :: KnownRequest.digests) []

theorem copies_packet :
    letI := crypto
    Copies request packet := by
  let _ := crypto
  have hcarries : Carries packet ⟨requested, some relay.transportId, tag.toList⟩ :=
    ⟨⟨KnownIdentity.requestHeader, payload, packet, 19⟩, by decide +kernel, by decide +kernel, rfl,
      by decide, parse_relayed _ _ _⟩
  have hbuilt : relay.buildPathRequest request.requested request.tag =
      .ok ⟨packet, by decide +kernel⟩ := by decide +kernel
  exact .rebuilt relay hbuilt hcarries (.heard hcarries)

/-- A router whose first interface has been given to a local client. -/
def clientRouter : LiteNode smallCapacities .router :=
  ((smallRouter.unregisterInterface 1).1.registerInterface
    { smallInterface 1 with role := .localClient }).1

end ReturningRequest

open ReturningRequest

/-- A router that has heard the request on one interface does nothing for the copy that it hears on
the other. -/
theorem path_requests_cut_gatewayRouter :
    letI := ReturningRequest.crypto
    let heard := (Operation.ingest (KnownRequest.packet 1) ⟨1, none⟩ 1000 none none).perform
      gatewayRouter
    heard.Unmoved (heard.ingestInner packet ⟨2, none⟩ 2000 none none).node := by
  let _ := ReturningRequest.crypto
  have hnew : newRouter smallConfig Bytes.zero gatewayRouter.router.registry none =
      .ok gatewayRouter := rfl
  exact path_requests_cut.2.2 _ _ gatewayRouter gatewayRouter _ []
    (.ingest (KnownRequest.packet 1) ⟨1, none⟩ 1000 none none) [] 1000 request (by decide)
    (fresh_of_newRouter hnew) (.nil _) rfl (by decide) (by decide +kernel) (.nil _) (by decide +kernel)
    packet packet ⟨2, none⟩ 2000 none none (by decide +kernel) copies_packet (by decide +kernel)
    (by decide)

/-- A copy does go on, within the two minutes, where the request was sent a second time under a tag
still retained from the first, where the node was reset after it had heard the request, and where
the clock is so near its end that the deadline cannot be reached. No other key is recorded in the
three runs. -/
theorem path_requests_not_cut :
    letI := ReturningRequest.crypto
    Copies request packet ∧
    (let sent := gatewayRouter.requestPath requested tag 1 0
     let again := sent.1.requestPath requested tag 2 100000
     sent.2 = .ok () ∧ again.2 = .ok () ∧
      recordedSince 0 gatewayRouter
        [.requestPath requested tag 1 0, .requestPath requested tag 2 100000] = [request.tagKey] ∧
      ¬ again.1.Unmoved (again.1.ingestInner packet ⟨1, none⟩ 150000 none none).node) ∧
    (let heard := (gatewayRouter.ingestInner (KnownRequest.packet 1) ⟨1, none⟩ 1000 none none).node
     let reset := heard.resetInPlace smallConfig Bytes.zero
     reset.2 = .ok () ∧
      recordedSince 0 gatewayRouter
        [.ingest (KnownRequest.packet 1) ⟨1, none⟩ 1000 none none,
          .resetInPlace smallConfig Bytes.zero] = [request.tagKey] ∧
      ¬ reset.1.Unmoved (reset.1.ingestInner packet ⟨1, none⟩ 2000 none none).node) ∧
    (let heard :=
       (clientRouter.ingestInner (KnownRequest.packet 1) ⟨1, none⟩ (u64Max - 1) none none).node
     recordedSince 0 clientRouter
        [.ingest (KnownRequest.packet 1) ⟨1, none⟩ (u64Max - 1) none none] = [request.tagKey] ∧
      ¬ heard.Unmoved (heard.ingestInner packet ⟨1, none⟩ u64Max none none).node) := by
  let _ := ReturningRequest.crypto
  refine ⟨copies_packet, ⟨?_, ?_, ?_, fun h => absurd h.lastDeliveryIdentity ?_⟩,
    ⟨?_, ?_, fun h => absurd h.lastDeliveryIdentity ?_⟩,
    ?_, fun h => absurd h.lastDeliveryIdentity ?_⟩
  all_goals decide +kernel

end ReticulumLite
