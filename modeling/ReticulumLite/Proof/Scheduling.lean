import ReticulumLite.Proof.Announcing

/-!
# What an ingest does to the schedule

The schedule changes in an ingest only when a credible announce comes in. The entry of its
destination is counted or dropped, if a neighbour seems to carry it already. Then, if the route is
taken and the announce may be passed on, its own entry goes in, and the caller is told so.
-/

namespace ReticulumLite

open Bounded

namespace LiteNode

variable {K : Capacities} {m : Model} [Crypto] {s s₀ : LiteNode K m} {frame : List UInt8}
  {rx : RxMeta} {nowMs : Nat} {localLink : Option Hash16} {endpoint : Option (PacketBuffer mtu)}
  {h : Heard} {announce : AnnounceView}

/-! ### Answers -/

omit [Crypto] in
def Unscheduled (handled : Handled K m) : Prop :=
  ∀ action, handled.2 = .ok action → action.schedules = false

omit [Crypto] in
theorem unscheduled_ok {action : IngestAction} (h : action.schedules = false) :
    Unscheduled (s, .ok action) := fun _ haction => Except.ok.inj haction ▸ h

section

variable (s) (request : PathRequest) (mode : InterfaceMode) (interfaceId : InterfaceId)

end

section

variable (s) (raw : List UInt8) (view : PacketView) (header : PacketHeader)

end

omit [Crypto] in
theorem not_schedules_reportHandled {handled : Handled K m} (hun : Unscheduled handled)
    (raw : List UInt8) (header : PacketHeader) (endpoint : Option (PacketBuffer mtu)) :
    ¬ (reportHandled handled raw header endpoint).Schedules := by
  obtain ⟨s, result⟩ := handled
  unfold reportHandled
  simp only
  split
  · exact not_schedules_of_captured rfl
  · repeat' split
    all_goals exact not_schedules_of_ok rfl rfl
  · exact absurd (hun _ rfl) (by decide)
  · exact not_schedules_of_error rfl
  · rintro ⟨action, hanswer, hschedules⟩
    rw [hun action hanswer] at hschedules
    cases hschedules

omit [Crypto] in
theorem schedules_reportHandled {handled : Handled K m} (h : handled.2 = .ok .scheduledAnnounce)
    (raw : List UInt8) (header : PacketHeader) (endpoint : Option (PacketBuffer mtu)) :
    (reportHandled handled raw header endpoint).Schedules := by
  obtain ⟨s, result⟩ := handled
  obtain rfl : result = .ok .scheduledAnnounce := h
  unfold reportHandled
  simp only
  repeat' split
  all_goals exact ⟨_, rfl, rfl⟩

/-! ### Learning a route -/

structure SamePlans (s s' : LiteNode K m) : Prop where
  config : s'.config = s.config
  transportId : s'.transportId = s.transportId
  paths : s'.paths = s.paths
  announceSchedule : s'.announceSchedule = s.announceSchedule

namespace SamePlans

variable {s' s'' : LiteNode K m}

omit [Crypto] in
theorem refl (s : LiteNode K m) : SamePlans s s := ⟨rfl, rfl, rfl, rfl⟩

omit [Crypto] in
theorem trans (h : SamePlans s s') (h' : SamePlans s' s'') : SamePlans s s'' :=
  ⟨h'.config.trans h.config, h'.transportId.trans h.transportId, h'.paths.trans h.paths,
    h'.announceSchedule.trans h.announceSchedule⟩

theorem enqueue (s : LiteNode K m) (id : InterfaceId) (packet : PacketBuffer mtu)
    (reason : OutboundReason) : SamePlans s (s.enqueue id packet reason).1 := by
  obtain ⟨_, _, _, _, heq⟩ := enqueue_eq s id packet reason
  rw [heq]
  exact ⟨rfl, rfl, rfl, rfl⟩

theorem foldl_answerRequester (response : PacketBuffer mtu) (mask : BitVec 8) (rx : RxMeta)
    (slots : List (Fin requesters)) (s : LiteNode K m) :
    SamePlans s (slots.foldl (answerRequester response mask rx) s) := by
  induction slots generalizing s with
  | nil => exact refl s
  | cons slot slots ih =>
      refine trans ?_ (ih _)
      unfold answerRequester
      simp only
      split
      · exact enqueue s _ _ _
      · exact refl s

theorem finishDiscovery (s : LiteNode K m) (raw : List UInt8) (header : PacketHeader) (rx : RxMeta)
    (nowMs : Nat) : SamePlans s (s.finishDiscovery raw header rx nowMs) := by
  unfold LiteNode.finishDiscovery
  simp only
  split
  · exact refl s
  have htaken (discoveries) : SamePlans s { s with discoveries } := ⟨rfl, rfl, rfl, rfl⟩
  split
  · exact htaken _
  split
  · exact ⟨rfl, rfl, rfl, rfl⟩
  · exact (htaken _).trans (foldl_answerRequester _ _ _ _ _)

end SamePlans

def scheduledEntry (s : LiteNode K m) (h : Heard) (interfaceId : InterfaceId)
    (packet : PacketBuffer mtu) (nowMs : Nat) : ScheduledAnnounce where
  destinationHash := h.header.destinationHash
  packet
  interfaceId
  dueMs := satAdd nowMs
    (announceJitterMs (packetHash h.raw h.view.header.flags.headerType) s.transportId 0)
  expiresMs := satAdd nowMs queuedAnnounceLifeMs
  blockRebroadcast := false
  hops := h.header.hops
  retries := 0
  localRebroadcasts := 0
  pendingTargets := 0

/-- Weighing the route of an announce ends in one of two ways: nothing is scheduled, or the route was
taken and the announce, framed anew, is. -/
theorem learnAnnounce_cases (hview : PacketView.parse h.raw = .ok h.view) (s : LiteNode K m)
    (rx : RxMeta) (announce : AnnounceView) (nowMs : Nat) :
    (s.learnAnnounce h.raw h.view h.header rx announce nowMs).1.paths =
        (s.paths.insertOrUpdate (s.announcedPath h.raw h.view h.header rx announce nowMs) nowMs).1 ∧
      (Unscheduled (s.learnAnnounce h.raw h.view h.header rx announce nowMs) ∧
          (s.learnAnnounce h.raw h.view h.header rx announce nowMs).1.announceSchedule =
            s.announceSchedule ∨
        (s.learnAnnounce h.raw h.view h.header rx announce nowMs).2 = .ok .scheduledAnnounce ∧
          (s.paths.insertOrUpdate (s.announcedPath h.raw h.view h.header rx announce nowMs)
            nowMs).2 = true ∧
          s.config.transportEnabled = true ∧ h.header.context ≠ .pathResponse ∧
          ∃ packet, s.transportAnnounceFromRaw h.raw h.header.destinationHash h.header.hops .none =
              .ok packet ∧
            (s.learnAnnounce h.raw h.view h.header rx announce nowMs).1.announceSchedule =
              s.announceSchedule.insert (s.scheduledEntry h rx.interfaceId packet nowMs) nowMs) := by
  obtain ⟨buffer, hslice, _⟩ := fromSlice_of_parse hview
  generalize hpath : s.announcedPath h.raw h.view h.header rx announce nowMs = path
  have hlearned : SamePlans { s with paths := (s.paths.insertOrUpdate path nowMs).1 }
      (s.learnPath path nowMs).1 := by
    obtain ⟨_, _, heq⟩ := onlyCounts_learnPath s path nowMs
    rw [heq]
    exact ⟨rfl, rfl, rfl, rfl⟩
  unfold learnAnnounce
  simp only [hpath]
  split
  · rename_i htaken
    unfold followPath
    simp only [hslice]
    generalize hmid : LiteNode.finishDiscovery _ h.raw h.header rx nowMs = mid
    have hsame : SamePlans { s with paths := (s.paths.insertOrUpdate path nowMs).1 } mid := by
      rw [← hmid]
      refine hlearned.trans (.trans ?_ (.finishDiscovery _ _ _ _ _))
      exact ⟨rfl, rfl, rfl, rfl⟩
    have hbuilt (packet : Except TransportError (PacketBuffer mtu)) :
        mid.transportAnnounceFromRaw h.raw h.header.destinationHash h.header.hops .none = packet →
        s.transportAnnounceFromRaw h.raw h.header.destinationHash h.header.hops .none = packet := by
      intro hpacket
      rw [← hpacket]
      unfold transportAnnounceFromRaw
      rw [hsame.transportId]
    unfold scheduleRebroadcast
    split
    · rename_i hforward
      rw [hsame.config] at hforward
      split
      · exact ⟨hsame.paths, .inl ⟨unscheduled_ok rfl, hsame.announceSchedule⟩⟩
      · rename_i packet hpacket
        refine ⟨hsame.paths, .inr ⟨rfl, htaken, hforward.1, hforward.2, packet, hbuilt _ hpacket, ?_⟩⟩
        simp only [hsame.announceSchedule, hsame.transportId]
        rw [← hpath]
        rfl
    · exact ⟨hsame.paths, .inl ⟨unscheduled_ok rfl, hsame.announceSchedule⟩⟩
  · exact ⟨hlearned.paths, .inl ⟨unscheduled_ok rfl, hlearned.announceSchedule⟩⟩

/-! ### Ingests -/

theorem handleAnnounce_of_not_credible (htype : h.header.flags.packetType = .announce)
    (hnot : ∀ announce, ¬ s.Credible nowMs h announce) (rx : RxMeta) :
    SamePlans s (s.handleAnnounce h.raw h.view h.header rx nowMs).1 ∧
      Unscheduled (s.handleAnnounce h.raw h.view h.header rx nowMs) := by
  unfold handleAnnounce
  split
  · exact ⟨⟨rfl, rfl, rfl, rfl⟩, unscheduled_ok rfl⟩
  rename_i hforeign
  simp only
  split
  · rename_i hadmitted
    unfold acceptAnnounce
    split
    · exact ⟨⟨rfl, rfl, rfl, rfl⟩, nofun⟩
    rename_i announce hvalid
    split
    · exact ⟨⟨rfl, rfl, rfl, rfl⟩, nofun⟩
    rename_i s₁ hremember
    obtain ⟨knownDestinations, rfl⟩ := rememberDelivery_eq hremember
    split
    · exact ⟨⟨rfl, rfl, rfl, rfl⟩, unscheduled_ok rfl⟩
    rename_i hhops
    exact absurd ⟨htype, Bool.eq_false_iff.mpr hforeign, hadmitted, hvalid, UInt8.not_le.mp hhops⟩
      (hnot announce)
  · exact ⟨⟨rfl, rfl, rfl, rfl⟩, unscheduled_ok rfl⟩

omit [Crypto] in
theorem SamePlans.reportHandled {handled : Handled K m} (hsame : SamePlans s handled.1)
    (raw : List UInt8) (header : PacketHeader) (endpoint : Option (PacketBuffer mtu)) :
    SamePlans s (reportHandled handled raw header endpoint).node := by
  rcases reportHandled_node handled raw header endpoint with hnode | hnode
  · rw [hnode]
    exact hsame
  · rw [hnode]
    exact hsame.trans ⟨rfl, rfl, rfl, rfl⟩

omit [Crypto] in
theorem samePlans_letIn (s : LiteNode K m) (rx : RxMeta) (nowMs : Nat) :
    SamePlans s (s.letIn rx nowMs) := by
  obtain ⟨_, _, heq, _⟩ := letIn_eq s rx nowMs
  rw [heq]
  exact ⟨rfl, rfl, rfl, rfl⟩

section

variable (ha : s.Arrives frame rx nowMs localLink h s₀)

include ha

theorem Arrives.samePlans : SamePlans s s₀ := by
  obtain ⟨packetHashes, rfl⟩ := ha.eq_letIn
  exact (samePlans_letIn s rx nowMs).trans ⟨rfl, rfl, rfl, rfl⟩

theorem Arrives.credible_of (hc : s₀.Credible nowMs h announce) : s.Credible nowMs h announce := by
  obtain ⟨packetHashes, rfl⟩ := ha.eq_letIn
  obtain ⟨_, _, hletIn, _⟩ := letIn_eq s rx nowMs
  rw [hletIn] at hc
  exact ⟨hc.isAnnounce, hc.foreign, hc.admitted, hc.valid, hc.hops⟩

/-- An announce that is not credible leaves routes and schedule alone, and is not said to have been
scheduled. -/
theorem Arrives.samePlans_of_not_credible (htype : h.header.flags.packetType = .announce)
    (hnot : ∀ announce, ¬ s.Credible nowMs h announce) (endpoint : Option (PacketBuffer mtu)) :
    SamePlans s (s.ingestInner frame rx nowMs localLink endpoint).node ∧
      ¬ (s.ingestInner frame rx nowMs localLink endpoint).Schedules := by
  obtain ⟨hsame, hun⟩ := handleAnnounce_of_not_credible (s := s₀) htype
    (fun announce hc => hnot announce (ha.credible_of hc)) ((s.letIn rx nowMs).knownMeta rx)
  rw [ingestInner_of_arrives ha endpoint]
  simp only [handlePacket, htype]
  exact ⟨(ha.samePlans.trans hsame).reportHandled _ _ _, not_schedules_reportHandled hun _ _ _⟩

/-- An ingest has scheduled an announce: its route was taken, and what goes on is the announce framed
anew. -/
structure Scheduled (s s₀ : LiteNode K m) (rx : RxMeta) (nowMs : Nat) (h : Heard)
    (announce : AnnounceView) (packet : PacketBuffer mtu) (s' : LiteNode K m) : Prop where
  enabled : s.config.transportEnabled = true
  context : h.header.context ≠ .pathResponse
  taken : (s.paths.insertOrUpdate
    (s₀.announcedPath h.raw h.view h.header (s.knownMeta rx) announce nowMs) nowMs).2 = true
  framed : s.transportAnnounceFromRaw h.raw h.header.destinationHash h.header.hops .none = .ok packet
  schedule : s'.announceSchedule =
    (s.heeded h nowMs).insert (s.scheduledEntry h h.interfaceId packet nowMs) nowMs

/-- A credible announce has its route weighed; it is scheduled exactly when the caller is told so. -/
theorem Arrives.schedule_of_credible (hc : s.Credible nowMs h announce)
    (endpoint : Option (PacketBuffer mtu)) :
    (s.ingestInner frame rx nowMs localLink endpoint).node.paths = (s.paths.insertOrUpdate
        (s₀.announcedPath h.raw h.view h.header (s.knownMeta rx) announce nowMs) nowMs).1 ∧
      (¬ (s.ingestInner frame rx nowMs localLink endpoint).Schedules ∧
          (s.ingestInner frame rx nowMs localLink endpoint).node.announceSchedule =
            s.heeded h nowMs ∨
        (s.ingestInner frame rx nowMs localLink endpoint).Schedules ∧
          ∃ packet, s.Scheduled s₀ rx nowMs h announce packet
            (s.ingestInner frame rx nowMs localLink endpoint).node) := by
  obtain ⟨announceAdmission, knownDestinations, handled, hlearn, hingest, hnode⟩ :=
    ha.ingest_credible hc endpoint
  have hsame := ha.samePlans
  obtain ⟨hpaths, hcases⟩ := learnAnnounce_cases ha.view { s₀ with
    announceAdmission, knownDestinations
    announceSchedule := s.heeded h nowMs } (s.knownMeta rx) announce nowMs
  have hpath : ({ s₀ with
      announceAdmission, knownDestinations
      announceSchedule := s.heeded h nowMs } : LiteNode K m).announcedPath h.raw h.view h.header
        (s.knownMeta rx) announce nowMs =
      s₀.announcedPath h.raw h.view h.header (s.knownMeta rx) announce nowMs := rfl
  rw [hlearn, hpath] at hpaths hcases
  simp only [hsame.paths] at hpaths hcases
  rw [hnode]
  refine ⟨hpaths, ?_⟩
  rw [hingest]
  rcases hcases with ⟨hun, hschedule⟩ | ⟨hscheduled, htaken, henabled, hcontext, packet, hframed,
    hschedule⟩
  · exact .inl ⟨not_schedules_reportHandled hun _ _ _, hschedule⟩
  · refine .inr ⟨schedules_reportHandled hscheduled _ _ _, packet, ?_, hcontext, htaken, ?_, ?_⟩
    · rw [← hsame.config]
      exact henabled
    · rw [← hframed]
      unfold transportAnnounceFromRaw
      rw [hsame.transportId]
    · rw [hschedule, interfaceId_knownMeta, ← ha.interfaceId]
      unfold scheduledEntry
      rw [hsame.transportId]

end

end LiteNode

end ReticulumLite
