import ReticulumLite.Proof.Emission
import ReticulumLite.Proof.Scheduling

/-!
# Hop counts bound circulation

A node counts a hop for every packet it hears, unless a local client sent it, turns away what has
come too far, and passes on the hops so counted. What waits in the schedule or in the cache was made
of an announce that some ingest of the run accepted, and carries the hops counted then. So a packet
carries at least as many hops as it has been passed on.
-/

namespace ReticulumLite

open Bounded LiteNode

def AnnounceSchedule.Plans {n : Nat} (t : AnnounceSchedule n) (packet : PacketBuffer mtu) : Prop :=
  ∃ e, t.Holds e ∧ e.packet = packet

theorem AnnounceSchedule.Lessens.plans {n : Nat} {t t' : AnnounceSchedule n} (h : t.Lessens t')
    {packet : PacketBuffer mtu} (hp : t'.Plans packet) : t.Plans packet := by
  obtain ⟨e', ⟨i, hi⟩, rfl⟩ := hp
  obtain ⟨e, he, hsame⟩ := h i e' hi
  exact ⟨e, ⟨i, he⟩, by rw [hsame.same]⟩

/-! ### Counting -/

namespace LiteNode

variable {K : Capacities} {m : Model}

def hopsGained (s : LiteNode K m) (id : InterfaceId) : Nat :=
  if s.isLocalClientInterface id then 0 else 1

theorem localClient_observe (i : Interfaces m) (rx : RxMeta) (config : LiteConfig) (clearMtu : Nat) :
    (((i.observe rx config clearMtu).slot rx.interfaceId).any fun slot =>
        ((i.observe rx config clearMtu).facts slot).localClient) =
      (i.slot rx.interfaceId).any fun slot => (i.facts slot).localClient := by
  cases i with
  | router r => rfl
  | endpoint facts =>
      rcases Interfaces.observe_endpoint facts rx config clearMtu with
        hself | ⟨i, new, hset, hslot, _, hclient⟩
      · rw [hself]
      · rw [hset, hslot, Option.any_some, Interfaces.facts, List.Vector.get_set_same, hclient]
        rfl

theorem hops_countHop (s : LiteNode K m) {header : PacketHeader} (rx : RxMeta)
    (h : header.hops ≠ 255) : ((s.observeInterface rx).countHop header rx.interfaceId).hops.toNat =
      header.hops.toNat + s.hopsGained rx.interfaceId := by
  have hlocal : (s.observeInterface rx).isLocalClientInterface rx.interfaceId =
      s.isLocalClientInterface rx.interfaceId :=
    localClient_observe s.interfaces rx s.config s.defaultClearMtu
  have hlt : header.hops.toNat < 255 := by
    have hle := header.hops.toNat_lt
    have hne : header.hops.toNat ≠ 255 := fun heq => h (UInt8.toNat_inj.mp heq)
    omega
  have hsucc : (header.hops + 1).toNat = header.hops.toNat + 1 := by
    rw [UInt8.toNat_add]
    exact Nat.mod_eq_of_lt (by simp only [UInt8.toNat_one]; omega)
  unfold hopsGained countHop satSucc8 satPred8
  rw [if_neg h, hlocal]
  cases s.isLocalClientInterface rx.interfaceId with
  | false => exact hsucc
  | true =>
      have hpos : header.hops + 1 ≠ 0 := by
        intro hzero
        rw [hzero] at hsucc
        cases hsucc
      simp [hpos]

section

variable [Crypto] {s s' : LiteNode K m} {c : Cause} {frame : List UInt8} {rx : RxMeta} {h : Heard}

theorem Hears.parsed (hh : s.Hears frame rx h) : h.Parsed :=
  ⟨hh.view, by rw [hh.header]; rfl⟩

theorem Hears.hops_eq (hh : s.Hears frame rx h) (hfull : hopsOf h.raw ≠ 255) :
    h.header.hops.toNat = (hopsOf h.raw).toNat + s.hopsGained h.interfaceId := by
  have hwire := hops_of_parse hh.view
  rw [hh.header, hh.interfaceId, ← hwire]
  exact hops_countHop s rx (hwire ▸ hfull)

theorem Hears.hops_eq_of_near (hh : s.Hears frame rx h) (hnear : h.header.hops < pathfinderM) :
    h.header.hops.toNat = (hopsOf h.raw).toNat + s.hopsGained h.interfaceId := by
  have hfar : ∀ isLocal : Bool,
      ¬ (if isLocal then satPred8 (satSucc8 255) else satSucc8 255) < pathfinderM := by decide
  refine hh.hops_eq fun hfull => ?_
  rw [hh.header, countHop, hops_of_parse hh.view, hfull] at hnear
  exact hfar _ hnear

/-! ### Announces that were accepted -/

/-- An announce that a node accepts: it speaks for a destination of another node, and has not come
too far. -/
structure Accepts (s : LiteNode K m) (h : Heard) : Prop where
  isAnnounce : h.header.flags.packetType = .announce
  foreign : s.isOwnDestination h.header.destinationHash = false
  authentic : ∃ maxAppData a,
    AnnounceView.parse h.view.payload h.view.header.flags.contextFlag maxAppData = .ok a ∧
      a.Authentic h.header.destinationHash
  near : h.header.hops < pathfinderM

theorem Accepts.of_announced {entry : PathEntry} (ha : Announced h entry)
    (hown : s.isOwnDestination entry.destinationHash = false) : s.Accepts h where
  isAnnounce := ha.isAnnounce
  foreign := ha.destination ▸ hown
  authentic := by
    obtain ⟨maxAppData, a, hparse, hauthentic, _⟩ := ha.announce
    exact ⟨maxAppData, a, hparse, ha.destination ▸ hauthentic⟩
  near := ha.hops ▸ ha.hops_lt

theorem Accepts.of_valid {announce : AnnounceView}
    (htype : h.header.flags.packetType = .announce)
    (hown : s.isOwnDestination h.header.destinationHash = false)
    (hvalid : s.validateAnnounce h.view h.header.destinationHash = .ok announce)
    (hnear : h.header.hops < pathfinderM) : s.Accepts h where
  isAnnounce := htype
  foreign := hown
  authentic := by
    obtain ⟨hparse, hauthentic, _⟩ := validateAnnounce_eq_ok hvalid
    exact ⟨_, announce, hparse, hauthentic⟩
  near := hnear

/-! ### The cache -/

def CachedFrom (h : Heard) (a : CachedAnnounce) : Prop :=
  a.raw.bytes = h.raw ∧ a.hops = h.header.hops ∧ a.destinationHash = h.header.destinationHash

theorem Change.caches (hc : Change c s s') {a : CachedAnnounce} (ha : s'.announceCache.Holds a) :
    s.announceCache.Holds a ∨ ∃ h, c.heard = some h ∧ s.Accepts h ∧ CachedFrom h a := by
  cases hc.routing with
  | quiet hq =>
      obtain ⟨i, hi⟩ := ha
      exact .inl ⟨i, hq.announceCache i a hi⟩
  | @learn hd entry buffer hheard hannounced hbuffer hown =>
      let fresh : CachedAnnounce := ⟨entry.destinationHash, buffer, entry.hops, entry.expiresMs, entry.bulk⟩
      have hrows : (s.learned entry buffer c.nowMs).announceCache.All fun a =>
          s.announceCache.Holds a ∨ a = fresh := by
        have hold : s.announceCache.All fun a => s.announceCache.Holds a ∨ a = fresh :=
          fun i a hi => .inl ⟨i, hi⟩
        unfold learned
        simp only
        split
        · exact AnnounceCache.all_insert (hold.clearWhere _) (.inr rfl) _
        · exact hold
      obtain ⟨i, hi⟩ := ha
      rcases hrows i a hi with hold | rfl
      · exact .inl hold
      · exact .inr ⟨hd, hheard, .of_announced hannounced hown, hbuffer, hannounced.hops,
          hannounced.destination⟩
  | touchPath => exact .inl ha
  | other _ _ hcache => exact .inl (hcache ▸ ha)

theorem Changes.caches (hc : Changes c s s') {a : CachedAnnounce} (ha : s'.announceCache.Holds a) :
    s.announceCache.Holds a ∨ ∃ h, c.heard = some h ∧ s.Accepts h ∧ CachedFrom h a := by
  induction hc using Relation.ReflTransGen.head_induction_on with
  | refl => exact .inl ha
  | head hstep _ ih =>
      rcases ih with hold | ⟨h, hheard, haccepts, hfrom⟩
      · exact hstep.caches hold
      · have hforeign := haccepts.foreign
        rw [isOwnDestination, hstep.localSlots hheard] at hforeign
        exact .inr ⟨h, hheard, { haccepts with foreign := hforeign }, hfrom⟩

/-! ### The schedule -/

/-- A packet that a node has made of an announce, with the hops that it counted for it. -/
def Reframes (s : LiteNode K m) (h : Heard) (packet : PacketBuffer mtu) : Prop :=
  ∃ context, s.transportAnnounceFromRaw h.raw h.header.destinationHash h.header.hops context =
    .ok packet

theorem Change.announceSchedule (hc : Change c s s') (hother : ¬ c.Concerns .announce) :
    s'.announceSchedule = s.announceSchedule := by
  cases hc with
  | quiet hq => exact hq.announceSchedule
  | lessen hcause | schedule hcause => exact absurd hcause hother
  | learn =>
      obtain ⟨announceCache, heq⟩ := learned_eq s _ _ _
      rw [heq]
  | send hsend | rebroadcast _ _ hsend | release _ _ _ _ _ _ hsend | forwardData _ hsend
  | forwardLink _ hsend | validateLink _ _ _ _ _ _ _ hsend =>
      obtain ⟨_, _, rfl⟩ := hsend.rest
      rfl
  | _ => rfl

theorem Changes.announceSchedule (hc : Changes c s s') (hother : ¬ c.Concerns .announce) :
    s'.announceSchedule = s.announceSchedule := by
  induction hc with
  | refl => rfl
  | tail _ hstep ih => exact (hstep.announceSchedule hother).trans ih

theorem announceSchedule_requestPath (s : LiteNode K m) (destinationHash : Hash16) (tag : Bytes 16)
    (id : InterfaceId) (nowMs : Nat) :
    (s.requestPath destinationHash tag id nowMs).1.announceSchedule = s.announceSchedule := by
  obtain ⟨outbound, stats, hexpired, _⟩ := expireOutbound_spec { s with clockMs := nowMs } nowMs
  unfold requestPath
  simp only [hexpired]
  split
  · rfl
  rename_i request _
  have hsent : (LiteNode.enqueue { s with clockMs := nowMs, outbound, stats } id request
      .pathRequest).1.announceSchedule = s.announceSchedule := by
    obtain ⟨_, _, _, _, heq⟩ := enqueue_eq { s with clockMs := nowMs, outbound, stats } id request
      .pathRequest
    rw [heq]
  split
  · rename_i hrefused
    rw [hrefused] at hsent
    exact hsent
  · rename_i hqueued
    rw [hqueued] at hsent
    exact hsent

theorem plans_ingest (hs : s.Sound) {nowMs : Nat} {localLink : Option Hash16}
    {endpoint : Option (PacketBuffer mtu)} {packet : PacketBuffer mtu}
    (hp : (s.ingestInner frame rx nowMs localLink endpoint).node.announceSchedule.Plans packet) :
    s.announceSchedule.Plans packet ∨
      ∃ h, s.Hears frame rx h ∧ s.Accepts h ∧ s.Reframes h packet := by
  have hletIn : (s.letIn rx nowMs).announceSchedule = s.announceSchedule :=
    (samePlans_letIn s rx nowMs).announceSchedule
  have hold (heq : (s.ingestInner frame rx nowMs localLink endpoint).node.announceSchedule =
      s.announceSchedule) : s.announceSchedule.Plans packet := heq ▸ hp
  rcases ingestInner_cases s frame rx nowMs localLink endpoint with
    ⟨h, s₀, ha⟩ | ⟨_, hcounts | ⟨raw, view, _, _, _, _, hcounts⟩⟩
  · by_cases htype : h.header.flags.packetType = .announce
    · by_cases hcredible : ∃ announce, s.Credible nowMs h announce
      · obtain ⟨announce, hc⟩ := hcredible
        have hheeded : s.announceSchedule.Lessens (s.heeded h nowMs) := by
          unfold heeded
          split
          · obtain ⟨_, heq, hless⟩ := cancelRebroadcast_eq s h.header.destinationHash
              h.view.header.hops nowMs
            rw [heq]
            exact hless
          · exact .refl _
        rcases (ha.schedule_of_credible hc endpoint).2 with ⟨_, heq⟩ | ⟨_, framed, hscheduled⟩
        · rw [heq] at hp
          exact .inl (hheeded.plans hp)
        · obtain ⟨e, ⟨i, hi⟩, rfl⟩ := hp
          rw [hscheduled.schedule] at hi
          have hrows : (s.heeded h nowMs).All fun e =>
              s.announceSchedule.Plans e.packet ∨ e.packet = framed :=
            fun j e' hj => .inl (hheeded.plans ⟨e', ⟨j, hj⟩, rfl⟩)
          rcases AnnounceSchedule.all_insert hrows (.inr rfl) nowMs i e hi with hplanned | hframed
          · exact .inl hplanned
          · rw [hframed]
            exact .inr ⟨h, ha.toHears, .of_valid hc.isAnnounce hc.foreign hc.valid hc.hops, .none,
              hscheduled.framed⟩
      · exact .inl (hold (ha.samePlans_of_not_credible htype (not_exists.mp hcredible)
          endpoint).1.announceSchedule)
    · have hchanges := ingestInner_changes_of_hears hs
        (fun h' hh' => congrArg some (ha.toHears.unique hh')) nowMs localLink endpoint
      exact .inl (hold (hchanges.announceSchedule fun hconcerns => htype (hconcerns h rfl)))
  · obtain ⟨_, _, heq⟩ := hcounts
    exact .inl (hold (by rw [heq]; exact hletIn))
  · obtain ⟨_, _, heq⟩ := hcounts
    exact .inl (hold (by rw [heq]; exact hletIn))

end

end LiteNode

/-! ### Every run -/

namespace Operation

variable [Crypto] {K : Capacities} {m : Model} {s : LiteNode K m} {op : Operation m}

theorem perform_caches (hs : s.Consistent) {a : CachedAnnounce}
    (ha : (op.perform s).announceCache.Holds a) :
    s.announceCache.Holds a ∨ ∃ h, op.Hears s h ∧ s.Accepts h ∧ CachedFrom h a := by
  cases ht : op.time with
  | some t =>
      obtain ⟨heard, hchanges, hhears⟩ := perform_timed hs.sound hs.placed ht
      rcases Changes.caches hchanges ha with hold | ⟨h, hheard, haccepts, hfrom⟩
      · exact .inl hold
      · exact .inr ⟨h, hhears h hheard, { haccepts with }, hfrom⟩
  | none =>
      rcases perform_untimed (s := s) ht with ⟨_, hchanges⟩ | ⟨_, hsheds⟩
      · rcases Changes.caches (hchanges 0) ha with hold | ⟨h, hheard, _⟩
        · exact .inl hold
        · cases hheard
      · obtain ⟨i, hi⟩ := ha
        exact .inl ⟨i, hsheds.announceCache i a hi⟩

theorem perform_plans (hs : s.Consistent) {packet : PacketBuffer mtu}
    (hp : (op.perform s).announceSchedule.Plans packet) : s.announceSchedule.Plans packet ∨
      ∃ h, op.Hears s h ∧ s.Accepts h ∧ s.Reframes h packet := by
  cases ht : op.time with
  | some t =>
      cases op with
      | ingest => exact plans_ingest hs.sound hp
      | tick nowMs =>
          have hall : s.announceSchedule.All
              (MayRepeat fun _ packet => s.announceSchedule.Plans packet) :=
            fun i e he => ⟨⟨e, ⟨i, he⟩, rfl⟩, ⟨e, ⟨i, he⟩, rfl⟩⟩
          obtain ⟨e, ⟨i, he⟩, rfl⟩ := hp
          exact .inl ((emits_tick hall nowMs).2 i e he).1
      | requestPath destinationHash tag id nowMs =>
          have heq := announceSchedule_requestPath s destinationHash tag id nowMs
          exact .inl (heq ▸ hp)
      | _ => cases ht
  | none =>
      cases hsends : op.sends with
      | false => exact .inl ((perform_sheds ht hsends).schedule.plans hp)
      | true =>
          cases op with
          | sendLocal id packet' =>
              obtain ⟨_, _, _, _, hsent⟩ := enqueueWithLifetime_eq s id packet' .local
                (independentLifetime s.clockMs)
              change (s.enqueueWithLifetime id packet' .local _).1.announceSchedule.Plans packet at hp
              rw [hsent] at hp
              exact .inl hp
          | _ => cases hsends

end Operation

namespace LiteNode

variable [Crypto] {K : Capacities} {m : Model} {s₀ s₁ s : LiteNode K m} {ops : List (Operation m)}
  {op : Operation m} {h : Heard} {packet : PacketBuffer mtu}

/-- An operation of a run hears a packet, and finds the node in the state `s₁`. -/
def HeardIn (s₀ : LiteNode K m) (ops : List (Operation m)) (s₁ : LiteNode K m) (h : Heard) : Prop :=
  ∃ before op after, ops = before ++ op :: after ∧ s₀.Reaches before s₁ ∧ op.Hears s₁ h

theorem HeardIn.append (hh : HeardIn s₀ ops s₁ h) (more : List (Operation m)) :
    HeardIn s₀ (ops ++ more) s₁ h := by
  obtain ⟨before, op, after, rfl, hrun, hears⟩ := hh
  exact ⟨before, op, after ++ more, by simp, hrun, hears⟩

/-- A packet was made of an announce that an operation of the run accepted. -/
structure Restates (s₀ : LiteNode K m) (ops : List (Operation m)) (packet : PacketBuffer mtu)
    (s₁ : LiteNode K m) (h : Heard) : Prop where
  heard : HeardIn s₀ ops s₁ h
  accepted : s₁.Accepts h
  framed : ∃ s : LiteNode K m, s.Reframes h packet

theorem Restates.append (hr : Restates s₀ ops packet s₁ h) (more : List (Operation m)) :
    Restates s₀ (ops ++ more) packet s₁ h :=
  { hr with heard := hr.heard.append more }

omit [Crypto] in
theorem Fresh.unannounced (hfresh : s₀.Fresh) :
    s₀.announceCache = Slots.empty ∧ s₀.announceSchedule = Slots.empty := by
  cases hfresh <;> exact ⟨rfl, rfl⟩

theorem cached_heard (hfresh : s₀.Fresh) (hrun : s₀.Reaches ops s) {a : CachedAnnounce}
    (ha : s.announceCache.Holds a) :
    ∃ s₁ h, HeardIn s₀ ops s₁ h ∧ s₁.Accepts h ∧ CachedFrom h a := by
  have horigin := hrun.origin (I := Consistent) (P := fun s => s.announceCache.Holds a)
    (fun _ op _ hs => Operation.perform_consistent hs op)
    (fun _ _ _ hs ha => Operation.perform_caches hs ha) hfresh.consistent ha
  rcases horigin with ⟨i, hi⟩ | ⟨before, op, after, s₁, hops, hbefore, h, hh, haccepts, hfrom⟩
  · rw [hfresh.unannounced.1, Slots.get_empty] at hi
    cases hi
  · exact ⟨s₁, h, ⟨before, op, after, hops, hbefore, hh⟩, haccepts, hfrom⟩

theorem planned_restates (hfresh : s₀.Fresh) (hrun : s₀.Reaches ops s)
    (hp : s.announceSchedule.Plans packet) : ∃ s₁ h, Restates s₀ ops packet s₁ h := by
  have horigin := hrun.origin (I := Consistent) (P := fun s => s.announceSchedule.Plans packet)
    (fun _ op _ hs => Operation.perform_consistent hs op)
    (fun _ _ _ hs hp => Operation.perform_plans hs hp) hfresh.consistent hp
  rcases horigin with ⟨e, ⟨i, hi⟩, _⟩ | ⟨before, op, after, s₁, hops, hbefore, h, hh, haccepts, hframed⟩
  · rw [hfresh.unannounced.2, Slots.get_empty] at hi
    cases hi
  · exact ⟨s₁, h, ⟨before, op, after, hops, hbefore, hh⟩, haccepts, s₁, hframed⟩

/-! ### What is queued -/

/-- A packet goes on with the hops that were counted for it when the operation heard it. -/
def Relays (s : LiteNode K m) (op : Operation m) (packet : PacketBuffer mtu) : Prop :=
  ∃ h, op.Hears s h ∧
    (hopsOf packet.bytes).toNat = (hopsOf h.raw).toNat + s.hopsGained h.interfaceId

/-- What a packet is that an operation after a run sends for a reason. -/
structure Bears (s₀ : LiteNode K m) (ops : List (Operation m)) (s : LiteNode K m) (op : Operation m)
    (reason : OutboundReason) (packet : PacketBuffer mtu) : Prop where
  passed : reason = .transportForward ∨ reason = .proofReturn → s.Relays op packet
  announced : reason = .announceRebroadcast ∨ reason = .pathResponse →
    ∃ s₁ h, Restates s₀ (ops ++ [op]) packet s₁ h

theorem Bears.of_restates (hr : Restates s₀ (ops ++ [op]) packet s₁ h) :
    Bears s₀ ops s op .announceRebroadcast packet ∧ Bears s₀ ops s op .pathResponse packet :=
  ⟨⟨by simp, fun _ => ⟨s₁, h, hr⟩⟩, ⟨by simp, fun _ => ⟨s₁, h, hr⟩⟩⟩

theorem Bears.of_relays (hp : s.Relays op packet) :
    Bears s₀ ops s op .transportForward packet ∧ Bears s₀ ops s op .proofReturn packet :=
  ⟨⟨fun _ => hp, by simp⟩, ⟨fun _ => hp, by simp⟩⟩

section Ingests

variable {frame : List UInt8} {rx : RxMeta} {nowMs : Nat} {localLink : Option Hash16}
  {endpoint : Option (PacketBuffer mtu)} {t : LiteNode K m}

theorem Arrives.accepts_of (ha : s.Arrives frame rx nowMs localLink h t) (hacc : t.Accepts h) :
    s.Accepts h := by
  obtain ⟨packetHashes, rfl⟩ := ha.eq_letIn
  obtain ⟨_, _, hletIn, _⟩ := letIn_eq s rx nowMs
  rw [hletIn] at hacc
  exact { hacc with }

theorem Arrives.relays (ha : s.Arrives frame rx nowMs localLink h t)
    (hhops : hopsOf packet.bytes = h.header.hops) :
    s.Relays (.ingest frame rx nowMs localLink endpoint) packet := by
  refine ⟨h, ha.toHears, ?_⟩
  rw [hhops]
  refine ha.toHears.hops_eq fun hfull => ?_
  have hlimit := ha.hops
  rw [hops_of_parse ha.view, hfull] at hlimit
  revert hlimit
  decide

theorem Arrives.permits_bears (hfresh : s₀.Fresh) (hrun : s₀.Reaches ops s)
    (ha : s.Arrives frame rx nowMs localLink h t) :
    t.Permits (Bears s₀ ops s (.ingest frame rx nowMs localLink endpoint)) h.raw h.view h.header
      nowMs where
  finish htype hown announce hvalid hnear s' response hresponse := by
    have hheard : HeardIn s₀ (ops ++ [.ingest frame rx nowMs localLink endpoint]) s h :=
      ⟨ops, _, [], rfl, hrun, ha.toHears⟩
    have haccepts := ha.accepts_of (.of_valid htype hown hvalid hnear)
    exact (Bears.of_restates ⟨hheard, haccepts, s', .pathResponse, hresponse⟩).2
  answer requested cached hget s' response hresponse := by
    have hcache : t.announceCache = s.announceCache := by
      obtain ⟨packetHashes, rfl⟩ := ha.eq_letIn
      exact announceCache_letIn s rx nowMs
    obtain ⟨⟨i, hi⟩, hfound⟩ := Slots.find_mem (hcache ▸ hget)
    obtain ⟨s₁, h', hheard, haccepts, hraw, hhops, hdest⟩ := cached_heard hfresh hrun ⟨i, hi⟩
    have hrequested : cached.destinationHash = requested := by
      rw [Bool.and_eq_true] at hfound
      exact of_decide_eq_true hfound.1
    rw [hraw, hhops, ← hrequested, hdest] at hresponse
    exact (Bears.of_restates ⟨hheard.append _, haccepts, s', .pathResponse, hresponse⟩).2
  search packet := ⟨by simp, by simp⟩
  forward s' target packet hrewrite :=
    (Bears.of_relays (ha.relays (hopsOf_rewriteForwarded ha.toHears.parsed hrewrite).1)).1
  request s' rx' target packet request trimmed hrewrite hadmit := by
    obtain ⟨hhops, hlen⟩ := hopsOf_rewriteForwarded ha.toHears.parsed hrewrite
    exact (Bears.of_relays (ha.relays ((hopsOf_admitLinkRequest hlen hadmit).trans hhops))).1
  pass buffer hbuffer :=
    (Bears.of_relays (ha.relays (hopsOf_copyWithHops ha.view hbuffer _))).1
  proof buffer hbuffer :=
    (Bears.of_relays (ha.relays (hopsOf_copyWithHops ha.view hbuffer _))).2

end Ingests

/-- Whatever the operation, each frame it adds to the queue is for a packet that bears its hops. -/
theorem queue_bears (hfresh : s₀.Fresh) (hrun : s₀.Reaches ops s) (op : Operation m) :
    ∃ kept new, kept.Sublist s.frames ∧ (op.perform s).frames = kept ++ new ∧ ∀ frame ∈ new,
      ∃ packet, s.wireFrame frame.interfaceId packet = some frame.packet ∧
        Bears s₀ ops s op frame.reason packet := by
  cases ht : op.time with
  | some time =>
      cases op with
      | ingest => exact (emits_ingestInner (fun _ _ ha => ha.permits_bears hfresh hrun) _).queue
      | tick nowMs =>
          have hall : s.announceSchedule.All (MayRepeat (Bears s₀ ops s (.tick nowMs))) := by
            intro i e he
            obtain ⟨s₁, h, hr⟩ := planned_restates hfresh hrun ⟨e, ⟨i, he⟩, rfl⟩
            exact Bears.of_restates (hr.append _)
          exact (emits_tick hall nowMs).1.queue
      | requestPath =>
          exact (emits_requestPath (fun packet => ⟨by simp, by simp⟩) s _ _ _ _).queue
      | _ => cases ht
  | none =>
      cases hsends : op.sends with
      | false =>
          have hkeys := (Operation.perform_sheds (s := s) ht hsends).outbound.map Prod.fst
          rw [List.map_map, List.map_map] at hkeys
          exact ⟨(op.perform s).frames, [], hkeys, (List.append_nil _).symm, by simp⟩
      | true =>
          cases op with
          | sendLocal =>
              exact (Emits.enqueueWithLifetime s _ _ .local _ ⟨by simp, by simp⟩).queue
          | _ => cases hsends

/-! ### Packets that have come too far -/

/-- Nothing was queued, and no table has changed but for the discoveries, which may have ended. -/
structure Undisturbed (s s' : LiteNode K m) : Prop where
  queue : s'.outbound.toList.Sublist s.outbound.toList
  lastDeliveryIdentity : s'.lastDeliveryIdentity = s.lastDeliveryIdentity
  paths : s'.paths = s.paths
  reverse : s'.reverse = s.reverse
  links : s'.links = s.links
  announceCache : s'.announceCache = s.announceCache
  announceSchedule : s'.announceSchedule = s.announceSchedule
  requestTags : s'.requestTags = s.requestTags
  packetHashes : s'.packetHashes = s.packetHashes

theorem undisturbed_of_far {frame raw : List UInt8} {rx : RxMeta}
    (hraw : s.unwrapFrame rx.interfaceId frame = some raw) (hfar : pathfinderM ≤ hopsOf raw)
    (nowMs : Nat) (localLink : Option Hash16) (endpoint : Option (PacketBuffer mtu)) :
    Undisturbed s (s.ingestInner frame rx nowMs localLink endpoint).node := by
  rcases ingestInner_cases s frame rx nowMs localLink endpoint with
    ⟨h, s₀, ha⟩ | ⟨_, hcounts | ⟨raw', view, hraw', hview, _, hnear, _⟩⟩
  · obtain rfl := Option.some.inj (ha.packet.symm.trans hraw)
    have hnear := ha.hops
    rw [hops_of_parse ha.view] at hnear
    exact absurd hfar (UInt8.not_le.mpr hnear)
  · obtain ⟨outbound, stats, hletIn, hlist⟩ := letIn_eq s rx nowMs
    obtain ⟨stats', f, heq⟩ := hcounts
    rw [heq, hletIn]
    refine ⟨?_, rfl, rfl, rfl, rfl, rfl, rfl, rfl, rfl⟩
    show outbound.toList.Sublist _
    rw [hlist]
    exact List.filter_sublist
  · obtain rfl := Option.some.inj (hraw'.symm.trans hraw)
    rw [hops_of_parse hview] at hnear
    exact absurd hfar (UInt8.not_le.mpr hnear)

/-! ### From node to node -/

theorem hopsOf_eq_of_wireFrame {id : InterfaceId} {packet' : PacketBuffer mtu}
    {wire : PacketBuffer wireMtuMax} (hw : s.wireFrame id packet = some wire)
    (hw' : s.wireFrame id packet' = some wire) : hopsOf packet.bytes = hopsOf packet'.bytes := by
  unfold wireFrame at hw hw'
  cases hifac : s.interfaces.ifac id s.config with
  | none =>
      simp only [hifac, toOption_eq_some, PacketBuffer.fromSlice_eq_ok] at hw hw'
      rw [← hw, ← hw']
  | some ifac =>
      simp only [hifac, toOption_eq_some] at hw hw'
      obtain ⟨hsize, first, second, rest, hpacket, hframe⟩ := eq_ifacFrame_of_ifacSignInto hw
      obtain ⟨_, first', second', rest', hpacket', hframe'⟩ := eq_ifacFrame_of_ifacSignInto hw'
      rw [hpacket, hpacket']
      exact second_of_ifacFrame hsize (hframe.symm.trans hframe')

/-- A frame is new in the queue, however the queue is taken apart into what was there before and what
was added. -/
def Queued (s s' : LiteNode K m) (frame : OutboundFrame) : Prop :=
  ∀ kept new, kept.Sublist s.frames → s'.frames = kept ++ new → frame ∈ new

end LiteNode

/-- A packet has been passed on from node to node a number of times. Each time a node heard it on an
interface that is no local client's, and queued a frame for it: at once, or, for an announce that it
accepted, at some later time too. -/
inductive PassedOn [Crypto] : Nat → List UInt8 → Prop
  | sent (raw : List UInt8) : PassedOn 0 raw
  | forwarded {K : Capacities} {m : Model} {s₀ s : LiteNode K m} {ops : List (Operation m)}
      {op : Operation m} {h : Heard} {frame : OutboundFrame} {packet : PacketBuffer mtu} {n : Nat}
      (hpassed : PassedOn n h.raw) (hfresh : s₀.Fresh) (hrun : s₀.Reaches ops s)
      (hheard : op.Hears s h) (hremote : s.isLocalClientInterface h.interfaceId = false)
      (hqueued : s.Queued (op.perform s) frame)
      (hreason : frame.reason = .transportForward ∨ frame.reason = .proofReturn)
      (hwire : s.wireFrame frame.interfaceId packet = some frame.packet) :
      PassedOn (n + 1) packet.bytes
  | announced {K : Capacities} {m : Model} {s₀ s₁ s : LiteNode K m} {ops : List (Operation m)}
      {op : Operation m} {h : Heard} {frame : OutboundFrame} {packet : PacketBuffer mtu} {n : Nat}
      (hpassed : PassedOn n h.raw) (hfresh : s₀.Fresh) (hrun : s₀.Reaches ops s)
      (hrestates : Restates s₀ (ops ++ [op]) packet s₁ h)
      (hremote : s₁.isLocalClientInterface h.interfaceId = false)
      (hqueued : s.Queued (op.perform s) frame)
      (hreason : frame.reason = .announceRebroadcast ∨ frame.reason = .pathResponse)
      (hwire : s.wireFrame frame.interfaceId packet = some frame.packet) :
      PassedOn (n + 1) packet.bytes

namespace LiteNode

variable [Crypto] {K : Capacities} {m : Model} {s₀ s₁ s : LiteNode K m} {ops : List (Operation m)}
  {op : Operation m} {h : Heard} {packet : PacketBuffer mtu}

theorem hears_unique {h' : Heard} (hh : op.Hears s h) (hh' : op.Hears s h') : h = h' := by
  cases op with
  | ingest => exact LiteNode.Hears.unique hh hh'
  | _ => exact hh.elim

theorem Restates.hops_eq (hr : Restates s₀ ops packet s₁ h) :
    (hopsOf packet.bytes).toNat = (hopsOf h.raw).toNat + s₁.hopsGained h.interfaceId ∧
      (hopsOf packet.bytes).toNat ≤ 127 := by
  obtain ⟨_, op, _, _, _, hh⟩ := hr.heard
  obtain ⟨_, _, hframed⟩ := hr.framed
  have hnear := hr.accepted.near
  rw [hopsOf_transportAnnounceFromRaw hframed]
  refine ⟨?_, Nat.le_of_lt_succ (UInt8.lt_iff_toNat_lt.mp hnear)⟩
  cases op with
  | ingest => exact Hears.hops_eq_of_near hh hnear
  | _ => exact hh.elim

/-- An operation that passes a packet on has counted a hop that was not the last. -/
theorem Queued.hops_eq {frame : OutboundFrame} (hfresh : s₀.Fresh) (hrun : s₀.Reaches ops s)
    (hqueued : s.Queued (op.perform s) frame) (hheard : op.Hears s h)
    (hreason : frame.reason = .transportForward ∨ frame.reason = .proofReturn)
    (hwire : s.wireFrame frame.interfaceId packet = some frame.packet) :
    (hopsOf packet.bytes).toNat = (hopsOf h.raw).toNat + s.hopsGained h.interfaceId ∧
      (hopsOf h.raw).toNat < 128 := by
  obtain ⟨kept, new, hkept, hframes, hnew⟩ := queue_bears hfresh hrun op
  obtain ⟨packet', hwire', hbears⟩ := hnew frame (hqueued kept new hkept hframes)
  obtain ⟨h', hheard', hhops⟩ := hbears.passed hreason
  obtain rfl := hears_unique hheard hheard'
  refine ⟨hopsOf_eq_of_wireFrame hwire hwire' ▸ hhops, ?_⟩
  by_contra hfar
  have hle : pathfinderM ≤ hopsOf h.raw := UInt8.le_iff_toNat_le.mpr (not_lt.mp hfar)
  cases op with
  | ingest bytes rx nowMs localLink endpoint =>
      -- what has come too far is not queued
      have hunmoved := undisturbed_of_far (LiteNode.Hears.packet hheard) hle nowMs localLink endpoint
      have hnone := hqueued _ [] (hunmoved.queue.map QueuedOutbound.frame) (List.append_nil _).symm
      exact List.not_mem_nil hnone
  | _ => exact hheard.elim

/-- Only authentic announces are passed on. What an operation queues after any run to repeat an
announce, or to answer a path request with one, has the payload of an announce that the run heard and
accepted, and is signed for the destination it names. -/
theorem announces_pass_authentic (hfresh : s₀.Fresh) (hrun : s₀.Reaches ops s) (op : Operation m) :
    ∃ kept new, kept.Sublist s.frames ∧ (op.perform s).frames = kept ++ new ∧ ∀ frame ∈ new,
      frame.reason = .announceRebroadcast ∨ frame.reason = .pathResponse →
      ∃ packet view s₁ h maxAppData a, s.wireFrame frame.interfaceId packet = some frame.packet ∧
        PacketView.parse packet.bytes = .ok view ∧ view.header.flags.packetType = .announce ∧
        Restates s₀ (ops ++ [op]) packet s₁ h ∧ view.payload = h.view.payload ∧
        AnnounceView.parse view.payload view.header.flags.contextFlag maxAppData = .ok a ∧
        a.Authentic view.header.destinationHash := by
  obtain ⟨kept, new, hkept, hframes, hnew⟩ := queue_bears hfresh hrun op
  refine ⟨kept, new, hkept, hframes, fun frame hframe hreason => ?_⟩
  obtain ⟨packet, hwire, hbears⟩ := hnew frame hframe
  obtain ⟨s₁, h, hr⟩ := hbears.announced hreason
  obtain ⟨_, op', _, _, _, hheard⟩ := hr.heard
  obtain ⟨s₂, context, hframed⟩ := hr.framed
  obtain ⟨maxAppData, a, hparse, hauthentic⟩ := hr.accepted.authentic
  have hview : PacketView.parse h.raw = .ok h.view := by
    cases op' with
    | ingest => exact LiteNode.Hears.view hheard
    | _ => exact hheard.elim
  simp only [transportAnnounceFromRaw, hview, bind_eq_ok, mapError_eq_ok, buildPacket_eq_ok] at hframed
  obtain ⟨_, hsame, hbytes⟩ := hframed
  obtain rfl := Except.ok.inj hsame
  -- a context without a name is written as the byte that it is read from
  let header : PacketHeader := ⟨⟨.header2, h.view.header.flags.contextFlag, .transport, .single,
    .announce⟩, h.header.hops, some s₂.transportId, h.header.destinationHash,
    .fromByte context.toByte⟩
  have hheader : packet.bytes = header.bytes ++ h.view.payload := by
    rw [hbytes, PacketHeader.bytes, PacketHeader.bytes, PacketContext.toByte_fromByte]
    rfl
  have hlen := packet.length_le
  rw [hheader] at hlen
  have hpacket := PacketView.parse_of_header (h := header) ⟨rfl, by simp [header]⟩ hlen
  rw [← hheader] at hpacket
  exact ⟨packet, _, s₁, h, maxAppData, a, hwire, hpacket, rfl, hr, rfl, hparse, hauthentic⟩

end LiteNode

theorem announces_pass_authentic_learnedEndpoint :
    letI := KnownIdentity.crypto
    ∃ frame, (learnedEndpoint.tick 2000).frames = [frame] ∧ frame.reason = .announceRebroadcast ∧
      ∃ packet view maxAppData a, PacketView.parse packet.bytes = .ok view ∧
        learnedEndpoint.wireFrame frame.interfaceId packet = some frame.packet ∧
        AnnounceView.parse view.payload view.header.flags.contextFlag maxAppData = .ok a ∧
        a.Authentic view.header.destinationHash := by
  let _ := KnownIdentity.crypto
  have hreasons : (learnedEndpoint.tick 2000).frames.map OutboundFrame.reason =
      [.announceRebroadcast] := by decide +kernel
  have hempty : learnedEndpoint.frames = [] := by decide +kernel
  obtain ⟨kept, new, hkept, hframes, hnew⟩ := announces_pass_authentic fresh_smallEndpoint
    reaches_learnedEndpoint (.tick 2000)
  obtain ⟨frame, hone, hreason⟩ := List.map_eq_singleton_iff.mp hreasons
  rw [hempty, List.sublist_nil] at hkept
  rw [hkept, List.nil_append] at hframes
  obtain ⟨packet, view, _, _, maxAppData, a, hwire, hview, _, _, _, hparse, hauthentic⟩ :=
    hnew frame (by rw [← hframes]; exact hone ▸ List.mem_singleton_self frame) (.inl hreason)
  exact ⟨frame, hone, hreason, packet, view, maxAppData, a, hview, hwire, hparse, hauthentic⟩

theorem PassedOn.bounded [Crypto] {n : Nat} {raw : List UInt8} (h : PassedOn n raw) :
    n ≤ (hopsOf raw).toNat ∧ n ≤ 128 := by
  induction h with
  | sent raw => exact ⟨Nat.zero_le _, Nat.zero_le _⟩
  | forwarded _ hfresh hrun hheard hremote hqueued hreason hwire ih =>
      obtain ⟨hhops, hnear⟩ := hqueued.hops_eq hfresh hrun hheard hreason hwire
      rw [hopsGained, hremote] at hhops
      simp only [Bool.false_eq_true, if_false] at hhops
      omega
  | announced _ _ _ hrestates hremote _ _ _ ih =>
      obtain ⟨hhops, hnear⟩ := hrestates.hops_eq
      rw [hopsGained, hremote] at hhops
      simp only [Bool.false_eq_true, if_false] at hhops
      omega

namespace LiteNode

variable [Crypto] {K : Capacities} {m : Model} {s₀ s : LiteNode K m} {ops : List (Operation m)}

/-- Hop counts bound circulation. After any run, what an operation queues carries the hops of what
was received, counted once unless a local client sent it: a packet passed on is the one the
operation hears, an announce one that some operation of the run accepted. What has come 128 hops
moves nothing. So no packet is passed on more than 128 times. -/
theorem hops_bound_circulation (hfresh : s₀.Fresh) (hrun : s₀.Reaches ops s) (op : Operation m) :
    (∃ kept new, kept.Sublist s.frames ∧ (op.perform s).frames = kept ++ new ∧ ∀ frame ∈ new,
      ∃ packet, s.wireFrame frame.interfaceId packet = some frame.packet ∧
        (frame.reason = .transportForward ∨ frame.reason = .proofReturn → ∃ h, op.Hears s h ∧
          (hopsOf packet.bytes).toNat = (hopsOf h.raw).toNat +
            if s.isLocalClientInterface h.interfaceId then 0 else 1) ∧
        (frame.reason = .announceRebroadcast ∨ frame.reason = .pathResponse →
          ∃ s₁ h, Restates s₀ (ops ++ [op]) packet s₁ h ∧
            (hopsOf packet.bytes).toNat = (hopsOf h.raw).toNat +
              (if s₁.isLocalClientInterface h.interfaceId then 0 else 1) ∧
            (hopsOf packet.bytes).toNat ≤ 127)) ∧
    (∀ frame rx nowMs localLink endpoint raw, op = .ingest frame rx nowMs localLink endpoint →
      s.unwrapFrame rx.interfaceId frame = some raw → 128 ≤ (hopsOf raw).toNat →
      Undisturbed s (op.perform s)) ∧
    ∀ n raw, PassedOn n raw → n ≤ 128 := by
  refine ⟨?_, ?_, fun n raw hpassed => hpassed.bounded.2⟩
  · obtain ⟨kept, new, hkept, hframes, hnew⟩ := queue_bears hfresh hrun op
    refine ⟨kept, new, hkept, hframes, fun frame hframe => ?_⟩
    obtain ⟨packet, hwire, hbears⟩ := hnew frame hframe
    refine ⟨packet, hwire, hbears.passed, fun hreason => ?_⟩
    obtain ⟨s₁, h, hrestates⟩ := hbears.announced hreason
    exact ⟨s₁, h, hrestates, hrestates.hops_eq⟩
  · rintro frame rx nowMs localLink endpoint raw rfl hraw hfar
    exact undisturbed_of_far hraw (UInt8.le_iff_toNat_le.mpr hfar) nowMs localLink endpoint

end LiteNode

theorem hops_bound_circulation_forwardedEndpoint :
    letI := KnownIdentity.crypto
    forwardedEndpoint.frames.map OutboundFrame.reason = [.transportForward] ∧
      ∃ frame ∈ forwardedEndpoint.frames, ∃ packet,
        learnedEndpoint.wireFrame frame.interfaceId packet = some frame.packet ∧
          (hopsOf packet.bytes).toNat = (hopsOf KnownIdentity.dataPacket).toNat + 1 := by
  let _ := KnownIdentity.crypto
  have hreasons : forwardedEndpoint.frames.map OutboundFrame.reason = [.transportForward] := by
    decide +kernel
  have hempty : learnedEndpoint.frames = [] := by decide +kernel
  obtain ⟨⟨kept, new, hkept, hframes, hnew⟩, _⟩ := hops_bound_circulation fresh_smallEndpoint
    reaches_learnedEndpoint (.ingest KnownIdentity.dataPacket ⟨1, none⟩ 2000 none none)
  change forwardedEndpoint.frames = _ at hframes
  rw [hempty, List.sublist_nil] at hkept
  rw [hkept, List.nil_append] at hframes
  obtain ⟨frame, hone, hreason⟩ := List.map_eq_singleton_iff.mp hreasons
  have hmem : frame ∈ forwardedEndpoint.frames := by rw [hone]; exact List.mem_singleton_self frame
  obtain ⟨packet, hwire, hpassed, _⟩ := hnew frame (hframes ▸ hmem)
  obtain ⟨h, hheard, hhops⟩ := hpassed (.inl hreason)
  have hhears : learnedEndpoint.Hears KnownIdentity.dataPacket ⟨1, none⟩ h := hheard
  have hunwrap : learnedEndpoint.unwrapFrame 1 KnownIdentity.dataPacket =
      some KnownIdentity.dataPacket := by decide +kernel
  have hraw : KnownIdentity.dataPacket = h.raw := Option.some.inj (hunwrap.symm.trans hhears.packet)
  have hremote : learnedEndpoint.isLocalClientInterface h.interfaceId = false := by
    rw [hhears.interfaceId]
    decide +kernel
  rw [hremote, ← hraw] at hhops
  exact ⟨hreasons, frame, hmem, packet, hwire, hhops⟩

end ReticulumLite
