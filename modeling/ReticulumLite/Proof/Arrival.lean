import ReticulumLite.Proof.Steps

/-!
# How a packet comes to its handler

An ingest turns the frame away, which changes counters and, for a packet already seen or meant for
the host, the hash list; or the packet in it passes every check and comes to the handler for its
type. `Arrives` collects the checks, so that a result about a handler becomes one about ingests.
-/

namespace ReticulumLite

open Bounded

/-- The answers that say an announce has been scheduled for its rebroadcast. -/
def IngestAction.schedules : IngestAction → Bool
  | .scheduledAnnounce | .watchedAnnounce true => true
  | _ => false

def Ingested.Schedules {K : Capacities} {m : Model} (i : Ingested K m) : Prop :=
  ∃ action, i.answer = .ok action ∧ action.schedules = true

namespace LiteNode

variable {K : Capacities} {m : Model} [Crypto]

/-- Whether the hash of a packet is left for its handler to record, or not recorded at all. -/
def unrecorded (s : LiteNode K m) (header : PacketHeader) (localLink : Option Hash16)
    (nowMs : Nat) : Bool :=
  header.context.skipHashlist || s.deferHashlist header localLink nowMs

def requestAllowed (s : LiteNode K m) (view : PacketView) (id : InterfaceId) :
    Except TransportError Unit :=
  if view.header.flags.packetType = .linkRequest then do
    let _ ← (LinkRequestView.parse view.payload).mapError
      fun _ => TransportError.invalidLinkSignalling
    s.requireLinkCapacity id
  else .ok ()

/-- The node as it is once a packet has been let in. -/
def letIn (s : LiteNode K m) (rx : RxMeta) (nowMs : Nat) : LiteNode K m :=
  (s.prepareIngest rx nowMs).countAccepted

/-- The hash list lets a packet pass, which leaves the state `s₀`. A repeated announce of a single
destination passes too. -/
def Unseen (s : LiteNode K m) (raw : List UInt8) (view : PacketView) (localLink : Option Hash16)
    (nowMs : Nat) (s₀ : LiteNode K m) : Prop :=
  s.unrecorded view.header localLink nowMs = true ∧ s₀ = s ∨
    s.unrecorded view.header localLink nowMs = false ∧
      s₀ = (s.recordHash (packetHash raw view.header.flags.headerType) nowMs).1 ∧
      ((s.recordHash (packetHash raw view.header.flags.headerType) nowMs).2 = true ∨
        view.header.flags.packetType = .announce ∧ view.header.flags.destinationType = .single)

/-- The packet in a frame passes every check on its way to a handler, which finds the node in the
state `s₀`. -/
structure Arrives (s : LiteNode K m) (frame : List UInt8) (rx : RxMeta) (nowMs : Nat)
    (localLink : Option Hash16) (h : Heard) (s₀ : LiteNode K m) : Prop extends Hears s frame rx h where
  ingress : ((s.prepareIngest rx nowMs).routerIngress rx.interfaceId frame.length).2 = .ok true
  fits : h.raw.length ≤ (s.letIn rx nowMs).interfaceClearMtu rx.interfaceId
  request : (s.letIn rx nowMs).requestAllowed h.view rx.interfaceId = .ok ()
  sink : (s.letIn rx nowMs).plainSinkMatches h.view.header = false
  hops : h.view.header.hops < pathfinderM
  address : (s.letIn rx nowMs).acceptsTransportAddress h.view.header = true
  oneHop : oneHopViolated h.view.header = false
  transit : (s.letIn rx nowMs).isForEndpoint h.header = false
  unseen : (s.letIn rx nowMs).Unseen h.raw h.view localLink nowMs s₀

variable {s s₀ : LiteNode K m} {frame : List UInt8} {rx : RxMeta} {nowMs : Nat}
  {localLink : Option Hash16} {h : Heard}

section

variable (s rx nowMs)

omit [Crypto] in
theorem letIn_eq :
    ∃ outbound stats, s.letIn rx nowMs =
        { ({ s with clockMs := nowMs }.observeInterface rx).refreshDiscoveries nowMs with
          outbound, stats } ∧
      outbound.toList = s.outbound.toList.filter fun q =>
        !(({ s with clockMs := nowMs }.observeInterface rx).refreshDiscoveries nowMs).staleFrame
          nowMs q := by
  obtain ⟨outbound, stats, heq, hlist⟩ := prepareIngest_eq s rx nowMs
  rw [letIn, heq]
  exact ⟨outbound, _, rfl, hlist⟩

omit [Crypto] in
theorem knownMeta_letIn : (s.letIn rx nowMs).knownMeta rx = s.knownMeta rx := by
  obtain ⟨_, _, heq, _⟩ := letIn_eq s rx nowMs
  rw [heq]
  have hrouter : (s.observeInterface rx).router? = s.router? := by
    unfold router? observeInterface Interfaces.observe
    cases s.interfaces with
    | router r => rfl
    | endpoint facts =>
        simp only
        repeat' split
        all_goals rfl
  unfold knownMeta
  rw [← hrouter]
  rfl

end

theorem Arrives.eq_letIn (ha : s.Arrives frame rx nowMs localLink h s₀) :
    ∃ packetHashes, s₀ = { s.letIn rx nowMs with packetHashes } := by
  rcases ha.unseen with ⟨_, rfl⟩ | ⟨_, rfl, _⟩
  · exact ⟨_, rfl⟩
  · exact ⟨_, rfl⟩

theorem ingestInner_of_arrives (ha : s.Arrives frame rx nowMs localLink h s₀)
    (endpoint : Option (PacketBuffer mtu)) :
    s.ingestInner frame rx nowMs localLink endpoint =
      reportHandled (s₀.handlePacket h.raw h.view h.header ((s.letIn rx nowMs).knownMeta rx) nowMs)
        h.raw h.header endpoint := by
  have hadmitted : (s.prepareIngest rx nowMs).routerIngress rx.interfaceId frame.length =
      (s.prepareIngest rx nowMs, .ok true) := by
    have hspec := routerIngress_spec (show (s.prepareIngest rx nowMs).routerIngress
      rx.interfaceId frame.length = (_, _) from rfl)
    exact Prod.ext (hspec.2 ha.ingress).1 ha.ingress
  have hpass : ¬ (h.view.header.hops ≥ pathfinderM ∨
      (s.letIn rx nowMs).acceptsTransportAddress h.view.header = false ∨
      oneHopViolated h.view.header = true) := by
    rw [ha.address, ha.oneHop]
    simpa using ha.hops
  have hcount : (s.letIn rx nowMs).countHop h.view.header rx.interfaceId = h.header := by
    rw [ha.header, ← countHop_prepareIngest s rx nowMs]
    rfl
  -- every check in turn; the hash list comes last
  have hpacket : s.ingestInner frame rx nowMs localLink endpoint =
      (s.letIn rx nowMs).ingestUnlessSeen h.raw h.view ((s.letIn rx nowMs).knownMeta rx) nowMs
        localLink endpoint := by
    have hunwrap : (s.prepareIngest rx nowMs).unwrapFrame
        ((s.prepareIngest rx nowMs).knownMeta rx).interfaceId frame = some h.raw := by
      rw [interfaceId_knownMeta, unwrapFrame_prepareIngest, ha.packet]
    have hfits : ¬ h.raw.length > (s.prepareIngest rx nowMs).interfaceClearMtu
        ((s.prepareIngest rx nowMs).knownMeta rx).interfaceId := by
      rw [interfaceId_knownMeta]
      exact not_lt.mpr ha.fits
    have hrequest := ha.request
    rw [← interfaceId_knownMeta (s.prepareIngest rx nowMs) rx] at hrequest
    change (s.prepareIngest rx nowMs).requestAllowed h.view _ = .ok () at hrequest
    have hsink : (s.prepareIngest rx nowMs).plainSinkMatches h.view.header = false := ha.sink
    simp only [ingestInner, ingestPrepared, hadmitted, hunwrap, ingestPacket, if_neg hfits, ha.view]
    rw [← requestAllowed]
    simp only [hrequest, hsink, Bool.false_eq_true, if_false]
    exact if_neg hpass
  have hfresh (s' : LiteNode K m) (hcount' : s'.countHop h.view.header rx.interfaceId = h.header)
      (htransit : s'.isForEndpoint h.header = false) :
      s'.ingestFresh h.raw h.view ((s.letIn rx nowMs).knownMeta rx) nowMs endpoint =
        reportHandled (s'.handlePacket h.raw h.view h.header ((s.letIn rx nowMs).knownMeta rx)
          nowMs) h.raw h.header endpoint := by
    simp only [ingestFresh, interfaceId_knownMeta, hcount', htransit, Bool.false_eq_true, if_false]
  rw [hpacket, ingestUnlessSeen, ← unrecorded]
  rcases ha.unseen with ⟨hunrecorded, rfl⟩ | ⟨hrecorded, rfl, hnew⟩
  · rw [if_pos hunrecorded]
    exact hfresh _ hcount ha.transit
  · have hpassed : (((s.letIn rx nowMs).recordHash
        (packetHash h.raw h.view.header.flags.headerType) nowMs).2 ||
        decide (h.view.header.flags.packetType = .announce) &&
          decide (h.view.header.flags.destinationType = .single)) = true := by
      simpa using hnew
    rw [hrecorded, if_neg Bool.false_ne_true]
    simp only [hpassed, if_true]
    exact hfresh _ hcount ha.transit

omit [Crypto] in
theorem not_schedules_of_error {i : Ingested K m} {e : TransportError} (h : i.answer = .error e) :
    ¬ i.Schedules := by
  rintro ⟨action, hanswer, _⟩
  rw [h] at hanswer
  cases hanswer

omit [Crypto] in
theorem not_schedules_of_ok {i : Ingested K m} {action : IngestAction} (h : i.answer = .ok action)
    (hother : action.schedules = false) : ¬ i.Schedules := by
  rintro ⟨action', hanswer, hschedules⟩
  rw [h] at hanswer
  cases hanswer
  rw [hother] at hschedules
  cases hschedules

omit [Crypto] in
theorem not_schedules_of_captured {i : Ingested K m} {raw : List UInt8} {hops : UInt8}
    {endpoint : Option (PacketBuffer mtu)} (h : i.answer = (captureEndpoint raw hops endpoint).2) :
    ¬ i.Schedules := by
  unfold captureEndpoint at h
  repeat' split at h
  all_goals first
    | exact not_schedules_of_ok h rfl
    | exact not_schedules_of_error h

/-- An ingest either brings a packet to its handler, or changes counters only, or records the hash
of a packet that goes no further. Only a handler has an announce scheduled. -/
theorem ingestInner_cases (s : LiteNode K m) (frame : List UInt8) (rx : RxMeta) (nowMs : Nat)
    (localLink : Option Hash16) (endpoint : Option (PacketBuffer mtu)) :
    (∃ h s₀, s.Arrives frame rx nowMs localLink h s₀) ∨
      ¬ (s.ingestInner frame rx nowMs localLink endpoint).Schedules ∧
        (OnlyCounts (s.letIn rx nowMs) (s.ingestInner frame rx nowMs localLink endpoint).node ∨
          ∃ raw view, s.unwrapFrame rx.interfaceId frame = some raw ∧
            PacketView.parse raw = .ok view ∧
            (s.letIn rx nowMs).unrecorded view.header localLink nowMs = false ∧
            view.header.hops < pathfinderM ∧
            OnlyCounts
              ((s.letIn rx nowMs).recordHash (packetHash raw view.header.flags.headerType) nowMs).1
              (s.ingestInner frame rx nowMs localLink endpoint).node) := by
  have hcounts : OnlyCounts (s.letIn rx nowMs) (s.prepareIngest rx nowMs) := by
    refine ⟨(s.prepareIngest rx nowMs).stats, id, ?_⟩
    rw [Interfaces.counted_id]
    rfl
  cases hingress : (s.prepareIngest rx nowMs).routerIngress rx.interfaceId frame.length with
  | mk s₁ admitted =>
  obtain ⟨hcounted, hsame⟩ := routerIngress_spec hingress
  have hturned : OnlyCounts (s.letIn rx nowMs) s₁ := by
    obtain ⟨stats, f, rfl⟩ := hcounted
    exact ⟨stats, f, rfl⟩
  match admitted with
  | .error e =>
      simp only [ingestInner, ingestPrepared, hingress]
      exact .inr ⟨not_schedules_of_error rfl, .inl hturned⟩
  | .ok false =>
      simp only [ingestInner, ingestPrepared, hingress]
      exact .inr ⟨not_schedules_of_ok rfl rfl, .inl hturned⟩
  | .ok true =>
      obtain ⟨rfl, _⟩ := hsame rfl
      simp only [ingestInner, ingestPrepared, hingress, interfaceId_knownMeta, unwrapFrame_prepareIngest]
      split
      · have hdropped : OnlyCounts (s.letIn rx nowMs)
            (s.prepareIngest rx nowMs).countValidationFailure.countDropped :=
          (hcounts.count _).count _
        exact .inr ⟨not_schedules_of_ok rfl rfl, .inl hdropped⟩
      rename_i raw hraw
      unfold ingestPacket
      split
      · exact .inr ⟨not_schedules_of_ok rfl rfl, .inl hcounts⟩
      rename_i hfits
      rw [interfaceId_knownMeta] at hfits
      split
      · exact .inr ⟨not_schedules_of_error rfl, .inl hcounts⟩
      rename_i view hview
      simp only
      split
      · exact .inr ⟨not_schedules_of_error rfl, .inl hcounts⟩
      rename_i hrequest
      rw [interfaceId_knownMeta] at hrequest
      split
      · refine .inr ?_
        unfold capturePlain
        repeat' split
        all_goals first
          | exact ⟨not_schedules_of_ok rfl rfl, .inl hcounts⟩
          | exact ⟨not_schedules_of_error rfl, .inl hcounts⟩
      rename_i hsink
      split
      · have hdropped : OnlyCounts (s.letIn rx nowMs) (s.letIn rx nowMs).countDropped :=
          (OnlyCounts.refl _).count _
        exact .inr ⟨not_schedules_of_ok rfl rfl, .inl hdropped⟩
      rename_i hpass
      let h : Heard :=
        ⟨raw, view, (s.observeInterface rx).countHop view.header rx.interfaceId, rx.interfaceId⟩
      have hhears : s.Hears frame rx h := ⟨hraw, hview, rfl, rfl⟩
      have hcount : (s.letIn rx nowMs).countHop view.header rx.interfaceId = h.header :=
        countHop_prepareIngest s rx nowMs view.header rx.interfaceId
      have hpassed : view.header.hops < pathfinderM ∧
          (s.letIn rx nowMs).acceptsTransportAddress view.header = true ∧
          oneHopViolated view.header = false := by
        simp only [not_or, ge_iff_le, UInt8.not_le, Bool.not_eq_false, Bool.not_eq_true] at hpass
        exact hpass
      -- all that is left are the hash list and the host's own traffic
      have harrives (s₀ : LiteNode K m)
          (htransit : (s.letIn rx nowMs).isForEndpoint h.header = false)
          (hunseen : (s.letIn rx nowMs).Unseen raw view localLink nowMs s₀) :
          s.Arrives frame rx nowMs localLink h s₀ :=
        ⟨hhears, by rw [hingress], not_lt.mp hfits, hrequest, Bool.eq_false_iff.mpr hsink,
          hpassed.1, hpassed.2.1, hpassed.2.2, htransit, hunseen⟩
      have hfresh (s' : LiteNode K m)
          (hcount' : s'.countHop view.header rx.interfaceId = h.header)
          (htransit : s'.isForEndpoint h.header = (s.letIn rx nowMs).isForEndpoint h.header)
          (hunseen : (s.letIn rx nowMs).Unseen raw view localLink nowMs s') :
          s.Arrives frame rx nowMs localLink h s' ∨
            ¬ (s'.ingestFresh raw view ((s.prepareIngest rx nowMs).knownMeta rx) nowMs
              endpoint).Schedules ∧
            (s'.ingestFresh raw view ((s.prepareIngest rx nowMs).knownMeta rx) nowMs
              endpoint).node = s' := by
        cases hown : (s.letIn rx nowMs).isForEndpoint h.header with
        | false => exact .inl (harrives s' hown hunseen)
        | true =>
            simp only [ingestFresh, interfaceId_knownMeta, hcount', htransit, hown, if_true]
            exact .inr ⟨not_schedules_of_captured rfl, trivial⟩
      rw [← letIn, ingestUnlessSeen, ← unrecorded]
      let recorded := (s.letIn rx nowMs).recordHash (packetHash raw view.header.flags.headerType) nowMs
      cases hrecorded : (s.letIn rx nowMs).unrecorded view.header localLink nowMs with
      | true =>
          rw [if_pos rfl]
          rcases hfresh (s.letIn rx nowMs) hcount rfl (.inl ⟨hrecorded, rfl⟩) with
            harr | ⟨hquiet, hnode⟩
          · exact .inl ⟨h, _, harr⟩
          · rw [hnode]
            exact .inr ⟨hquiet, .inl (.refl _)⟩
      | false =>
          simp only [Bool.false_eq_true, if_false]
          split
          · rename_i hnew
            rcases hfresh recorded.1 hcount rfl (.inr ⟨hrecorded, rfl, by simpa using hnew⟩) with
              harr | ⟨hquiet, hnode⟩
            · exact .inl ⟨h, _, harr⟩
            · rw [hnode]
              exact .inr ⟨hquiet, .inr ⟨raw, view, hraw, hview, hrecorded, hpassed.1, .refl _⟩⟩
          · have hduplicate : OnlyCounts recorded.1 recorded.1.countDuplicate :=
              (OnlyCounts.refl _).count _
            exact .inr ⟨not_schedules_of_ok rfl rfl,
              .inr ⟨raw, view, hraw, hview, hrecorded, hpassed.1, hduplicate⟩⟩

end LiteNode

end ReticulumLite
