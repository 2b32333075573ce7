import ReticulumLite.Proof.Authenticity
import ReticulumLite.Tables.Freshness

/-!
# What an announce comes to

An announce that is admitted, valid and not too far away is credible. Its route is then taken if it
was emitted later than the announce behind the present route and there is a number for it.
Everything else an announce does, it does once its route is taken.
-/

namespace ReticulumLite

open Bounded

/-! ### Credible announces -/

namespace LiteNode

variable {K : Capacities} {m : Model} [Crypto] {s s₀ : LiteNode K m} {frame : List UInt8}
  {rx : RxMeta} {nowMs : Nat} {localLink : Option Hash16} {h : Heard} {announce : AnnounceView}

/-- An announce of another's destination that the limiter lets through, that is valid, and that has
not come too far. -/
structure Credible (s : LiteNode K m) (nowMs : Nat) (h : Heard) (announce : AnnounceView) :
    Prop where
  isAnnounce : h.header.flags.packetType = .announce
  foreign : s.isOwnDestination h.header.destinationHash = false
  admitted : (s.announceAdmission.admitAnnounce s.config.announceAdmission
    (decide (h.header.context = .pathResponse)) nowMs).2 = true
  valid : s.validateAnnounce h.view h.header.destinationHash = .ok announce
  hops : h.header.hops < pathfinderM

/-- The schedule once it is known that a neighbour carries an announce. -/
def heeded (s : LiteNode K m) (h : Heard) (nowMs : Nat) : AnnounceSchedule K.scheduled :=
  if s.config.transportEnabled then
    (s.cancelRebroadcast h.header.destinationHash h.view.header.hops nowMs).announceSchedule
  else s.announceSchedule

omit [Crypto] in
theorem cancelRebroadcast_inert {announceAdmission knownDestinations} (dest : Hash16)
    (hops : UInt8) (nowMs : Nat) :
    cancelRebroadcast { s with announceAdmission, knownDestinations } dest hops nowMs =
      { s with
        announceAdmission, knownDestinations
        announceSchedule := (s.cancelRebroadcast dest hops nowMs).announceSchedule } := by
  unfold cancelRebroadcast
  simp only
  repeat' split
  all_goals rfl

omit [Crypto] in
theorem heeded_congr {t : LiteNode K m} (hconfig : t.config = s.config)
    (hschedule : t.announceSchedule = s.announceSchedule) (h : Heard) (nowMs : Nat) :
    t.heeded h nowMs = s.heeded h nowMs := by
  unfold heeded cancelRebroadcast
  rw [hconfig, hschedule]
  repeat' split
  all_goals first
    | rfl
    | exact hschedule

theorem handleAnnounce_of_credible (hc : s.Credible nowMs h announce) (rx : RxMeta) :
    ∃ announceAdmission knownDestinations,
      s.handleAnnounce h.raw h.view h.header rx nowMs =
        learnAnnounce { s with
          announceAdmission, knownDestinations
          announceSchedule := s.heeded h nowMs } h.raw h.view h.header rx announce nowMs := by
  have hhops : ¬ h.header.hops ≥ pathfinderM := UInt8.not_le.mpr hc.hops
  have hvalid (announceAdmission) :
      validateAnnounce { s with announceAdmission } h.view h.header.destinationHash =
        .ok announce := hc.valid
  let admission := s.announceAdmission.admitAnnounce s.config.announceAdmission
    (decide (h.header.context = .pathResponse)) nowMs
  obtain ⟨s', hremember⟩ := rememberDelivery_ok (hvalid admission.1) nowMs
  obtain ⟨knownDestinations, rfl⟩ := rememberDelivery_eq hremember
  refine ⟨admission.1, knownDestinations, ?_⟩
  unfold handleAnnounce
  rw [if_neg (by rw [hc.foreign]; exact Bool.false_ne_true)]
  simp only [hc.admitted, if_true]
  unfold acceptAnnounce
  simp only [hvalid, hremember, if_neg hhops, heeded, admission]
  cases s.config.transportEnabled with
  | false => rfl
  | true =>
      simp only [if_true]
      rw [cancelRebroadcast_inert]

theorem Arrives.credible (ha : s.Arrives frame rx nowMs localLink h s₀)
    (hc : s.Credible nowMs h announce) :
    s₀.Credible nowMs h announce ∧ s₀.heeded h nowMs = s.heeded h nowMs := by
  obtain ⟨packetHashes, rfl⟩ := ha.eq_letIn
  obtain ⟨_, _, hletIn, _⟩ := letIn_eq s rx nowMs
  rw [hletIn]
  refine ⟨⟨hc.isAnnounce, hc.foreign, hc.admitted, hc.valid, hc.hops⟩, ?_⟩
  apply heeded_congr
  · rfl
  · rfl

/-- No announce fails for what it says once its route is weighed. -/
theorem learnAnnounce_ne_announce (s : LiteNode K m) (raw : List UInt8) (view : PacketView)
    (header : PacketHeader) (rx : RxMeta) (announce : AnnounceView) (nowMs : Nat)
    (e : AnnounceError) :
    (s.learnAnnounce raw view header rx announce nowMs).2 ≠ .error (.announce e) := by
  intro herror
  unfold learnAnnounce followPath scheduleRebroadcast at herror
  simp only at herror
  repeat' split at herror
  all_goals cases herror

theorem Arrives.ingest_credible (ha : s.Arrives frame rx nowMs localLink h s₀)
    (hc : s.Credible nowMs h announce) (endpoint : Option (PacketBuffer mtu)) :
    ∃ announceAdmission knownDestinations handled,
      learnAnnounce { s₀ with
        announceAdmission, knownDestinations
        announceSchedule := s.heeded h nowMs } h.raw h.view h.header (s.knownMeta rx) announce nowMs =
          handled ∧
      s.ingestInner frame rx nowMs localLink endpoint =
        reportHandled handled h.raw h.header endpoint ∧
      (s.ingestInner frame rx nowMs localLink endpoint).node = handled.1 := by
  obtain ⟨hc₀, hheeded⟩ := ha.credible hc
  obtain ⟨announceAdmission, knownDestinations, hhandle⟩ :=
    handleAnnounce_of_credible hc₀ (s.knownMeta rx)
  rw [hheeded] at hhandle
  refine ⟨announceAdmission, knownDestinations, _, rfl, ?_⟩
  have hingest := ingestInner_of_arrives ha endpoint
  simp only [handlePacket, hc.isAnnounce, knownMeta_letIn, hhandle] at hingest
  refine ⟨hingest, ?_⟩
  rw [hingest]
  have hfine := learnAnnounce_ne_announce { s₀ with
    announceAdmission, knownDestinations
    announceSchedule := s.heeded h nowMs } h.raw h.view h.header (s.knownMeta rx) announce nowMs
  generalize learnAnnounce _ h.raw h.view h.header (s.knownMeta rx) announce nowMs = handled
    at hfine ⊢
  obtain ⟨s', result⟩ := handled
  unfold reportHandled
  simp only
  repeat' split
  all_goals first
    | rfl
    | exact absurd rfl (hfine _)

end LiteNode

namespace KnownIdentity

def announceHeader : PacketHeader where
  flags := ⟨.header1, false, .broadcast, .single, .announce⟩
  hops := 0
  transportId := none
  destinationHash := destination
  context := .none

/-- An announce of the destination as it is heard by the first interface. -/
def heard (a : AnnounceView) : Heard :=
  ⟨packet 0x01 0x00 0x00 a, ⟨announceHeader, a.bytes, packet 0x01 0x00 0x00 a, 19⟩,
    { announceHeader with hops := 1 }, 1⟩

end KnownIdentity

end ReticulumLite
