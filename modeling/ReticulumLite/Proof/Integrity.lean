import ReticulumLite.Proof.Handlers

/-!
# Everything in a router's tables goes through its registry

Whatever a router holds names an interface that is registered and online, and whatever waits for an
interface waits at the place of one that can send. Of an endpoint, whose host owns the interfaces,
nothing is said.
-/

namespace ReticulumLite

open Bounded

/-- No id is registered twice, and every interface that is online has a number. -/
structure Router.Ordered (r : Router) : Prop where
  distinct : r.registry.Distinct
  numbered : ∀ slot i, r.registry.get slot = some i → i.online = true →
    r.generations.get slot ≠ 0

section

variable {r : Router} (h : r.Ordered) {slot : Fin requesters} {i : InterfaceConfig}
  (hget : r.registry.get slot = some i)

include h hget

theorem Router.Ordered.slotOf :
    r.registry.slotOf i.id = some slot := by
  refine Slots.indexOf_eq_some.mpr ⟨⟨i, hget, by simp⟩, fun j hj c hc => ?_⟩
  rw [decide_eq_false_iff_not]
  intro hid
  exact absurd (h.distinct j slot c i hc hget hid) (ne_of_lt hj)

theorem Router.Ordered.interface : r.interface i.id = some i :=
  Slots.find_eq_some.mpr ⟨slot, h.slotOf hget, hget⟩

end

namespace LiteNode

variable {K : Capacities} {m : Model} {s s' : LiteNode K m} {c : Cause}

/-- On a router, a queued frame names the present number of its interface, which is not zero. -/
def Current (s : LiteNode K m) (key : OutboundFrame × Option Nat) : Prop :=
  ∀ r, s.router? = some r → r.generation key.1.interfaceId ≠ 0 ∧
    key.2 = some (r.generation key.1.interfaceId)

/-- Everything in the tables of one node is in order with the interfaces of another. -/
structure PlacedBy (n s : LiteNode K m) : Prop where
  paths : ∀ g e, s.paths.Row g e → n.Present e.interfaceId
  schedule : s.announceSchedule.All fun e => n.Present e.interfaceId ∧
    ∀ b : Fin requesters, e.pendingTargets.getLsbD b.val = true → n.Outgoing b
  reverse : ∀ g e, s.reverse.Row g e →
    n.Present e.receivingInterface ∧ n.Present e.outboundInterface
  links : ∀ g e, s.links.Row g e → n.Present e.receivingInterface ∧ n.Present e.outboundInterface
  discoveries : s.discoveries.Waiting n.Outgoing
  queue : ∀ key ∈ s.outbound.toList.map QueuedOutbound.key,
    n.Present key.1.interfaceId ∧ n.Current key

structure Placed (s : LiteNode K m) : Prop extends PlacedBy s s where
  ordered : ∀ r, s.router? = some r → r.Ordered

namespace PlacedBy

variable {n n' : LiteNode K m}

theorem mono (h : PlacedBy n s) (hpresent : ∀ id, n.Present id → n'.Present id)
    (houtgoing : ∀ slot, n.Outgoing slot → n'.Outgoing slot)
    (hcurrent : ∀ key, n.Present key.1.interfaceId → n.Current key → n'.Current key) :
    PlacedBy n' s where
  paths g e he := hpresent _ (h.paths g e he)
  schedule i e he :=
    ⟨hpresent _ (h.schedule i e he).1, fun b hb => houtgoing b ((h.schedule i e he).2 b hb)⟩
  reverse g e he := (h.reverse g e he).imp (hpresent _) (hpresent _)
  links g e he := (h.links g e he).imp (hpresent _) (hpresent _)
  discoveries i b hb := houtgoing b (h.discoveries i b hb)
  queue key hkey := ⟨hpresent _ (h.queue key hkey).1,
    hcurrent key (h.queue key hkey).1 (h.queue key hkey).2⟩

theorem quiet {nowMs : Nat} (h : PlacedBy n s) (hs : s.Sound) (hq : Quiet nowMs s s') :
    PlacedBy n s' where
  paths g e he := h.paths g e (hq.paths.row hs.paths he)
  schedule := hq.announceSchedule ▸ h.schedule
  reverse g e he := h.reverse g e (hq.reverse.row hs.reverse he)
  links g e he := h.links g e (hq.links.row hs.links he)
  discoveries := hq.waiting _ h.discoveries
  queue key hkey := h.queue key (hq.outbound.subset hkey)

theorem lessen (h : PlacedBy n s) {announceSchedule : AnnounceSchedule K.scheduled}
    (hless : s.announceSchedule.Lessens announceSchedule) :
    PlacedBy n { s with announceSchedule } := by
  refine { h with schedule := fun i e' he' => ?_ }
  obtain ⟨e, he, hlessened⟩ := hless i e' he'
  obtain ⟨hpresent, houtgoing⟩ := h.schedule i e he
  exact ⟨by rw [hlessened.same]; exact hpresent, fun b hb => houtgoing b (hlessened.pending b hb)⟩

theorem sends {frame : OutboundFrame} (h : PlacedBy n s) (hsend : s.Sends frame s')
    (hpresent : n.Present frame.interfaceId)
    (hcurrent : n.Current (QueuedOutbound.key
      ⟨frame, s.interfaces.delivery (s.lastDeliveryIdentity + 1) frame.interfaceId⟩)) :
    PlacedBy n s' := by
  obtain ⟨kept, hkept, hqueue⟩ := hsend.queue
  have hold : ∀ key ∈ kept.map QueuedOutbound.key,
      n.Present key.1.interfaceId ∧ n.Current key := fun key hkey =>
    h.queue key ((hkept.map _).subset hkey)
  have hnew : ∀ key ∈ s'.outbound.toList.map QueuedOutbound.key,
      n.Present key.1.interfaceId ∧ n.Current key := by
    intro key hkey
    rcases hqueue with hqueue | hqueue
    · exact hold key (hqueue ▸ hkey)
    · rw [hqueue, List.map_append, List.mem_append] at hkey
      rcases hkey with hkey | hkey
      · exact hold key hkey
      · obtain rfl := List.mem_singleton.mp hkey
        exact ⟨hpresent, hcurrent⟩
  obtain ⟨outbound, stats, rfl⟩ := hsend.rest
  exact { h with queue := hnew }

end PlacedBy

theorem Placed.current_of_sends {frame : OutboundFrame} (h : s.Placed) (hsend : s.Sends frame s') :
    s.Current (QueuedOutbound.key
      ⟨frame, s.interfaces.delivery (s.lastDeliveryIdentity + 1) frame.interfaceId⟩) := by
  intro r hr
  obtain ⟨i, hi, honline, _⟩ := hsend.router r hr
  obtain ⟨slot, hslot, hget⟩ := Slots.find_eq_some.mp hi
  have hslot' : r.registry.slotOf frame.interfaceId = some slot := hslot
  have hgen : r.generation frame.interfaceId = r.generations.get slot := by
    simp only [Router.generation, hslot']
  obtain ⟨rfl, hi⟩ := Interfaces.eq_router hr
  refine ⟨?_, ?_⟩
  · change r.generation frame.interfaceId ≠ 0
    rw [hgen]
    exact (h.ordered r hr).numbered slot i hget honline
  · rw [hi]
    rfl

theorem Grows.current (h : Grows s s') {key : OutboundFrame × Option Nat} (hkey : s.Current key) :
    s'.Current key := by
  intro r' hr'
  obtain ⟨r, hr, hregistry, hgenerations, _⟩ := h.registry r' hr'
  rw [Router.generation_congr hregistry hgenerations]
  exact hkey r hr

theorem Grows.ordered (h : Grows s s') (hs : ∀ r, s.router? = some r → r.Ordered) :
    ∀ r, s'.router? = some r → r.Ordered := by
  intro r' hr'
  obtain ⟨r, hr, hregistry, hgenerations, _⟩ := h.registry r' hr'
  have hordered := hs r hr
  exact ⟨by rw [hregistry]; exact hordered.distinct,
    by rw [hregistry, hgenerations]; exact hordered.numbered⟩

/-- It is enough that what the tables hold afterwards was in order before. -/
theorem Placed.of_placedBy (h : s.Placed) (hgrows : Grows s s') (hby : PlacedBy s s') : s'.Placed where
  toPlacedBy := hby.mono (fun _ => hgrows.present) (fun _ => hgrows.outgoing)
    fun _ _ => hgrows.current
  ordered := hgrows.ordered h.ordered

theorem Change.placedBy [Crypto] (h : Change c s s') (hs : s.Sound) (hp : s.Placed) :
    PlacedBy s s' := by
  have hby := hp.toPlacedBy
  have hsends : ∀ {frame s₁}, s.Sends frame s₁ → PlacedBy s s₁ := fun hsend =>
    hby.sends hsend hsend.present (hp.current_of_sends hsend)
  cases h with
  | quiet h => exact hby.quiet hs h
  | learn _ _ _ _ hpresent =>
      obtain ⟨announceCache, heq⟩ := learned_eq s _ _ _
      rw [heq]
      refine { hby with paths := fun g e he => ?_ }
      rcases (PathTable.insertOrUpdate_spec _ _ _).2 g e he with hold | ⟨rfl, _⟩
      · exact hby.paths g e hold
      · exact hpresent
  | touchPath =>
      refine { hby with paths := fun g e' he' => ?_ }
      obtain ⟨e, he, heq⟩ := PathTable.row_touch he'
      rw [heq]
      exact hby.paths g e he
  | lessen _ hless => exact hby.lessen hless
  | schedule _ hsource hpending =>
      exact { hby with
        schedule := AnnounceSchedule.all_insert hby.schedule ⟨hsource, hpending⟩ c.nowMs }
  | record => exact { hby with }
  | own => exact { hby with }
  | discover destination timeout hslot =>
      exact { hby with discoveries := hby.discoveries.begin destination hslot c.nowMs timeout }
  | send hsend => exact hsends hsend
  | rebroadcast _ _ hsend => exact hsends hsend
  | release _ _ _ _ _ _ hsend => exact { hsends hsend with }
  | forwardData hgeneration hsend _ _ _ hreceiving houtbound =>
      refine { hsends hsend with reverse := fun g e he => ?_ }
      obtain ⟨outbound, stats, rfl⟩ := hsend.rest
      rcases (ReverseTable.insert_renews hgeneration _ _).2.2 g e he with hold | rfl
      · exact hby.reverse g e hold
      · exact ⟨hreceiving, houtbound⟩
  | forwardLink hgeneration hsend _ _ _ hreceiving houtbound _ habsent hfree =>
      refine { hsends hsend with links := fun g e he => ?_ }
      obtain ⟨outbound, stats, rfl⟩ := hsend.rest
      rcases (LinkTable.insert_renews hgeneration habsent hfree).2.2.1 g e he with hold | ⟨_, rfl⟩
      · exact hby.links g e hold
      · exact ⟨hreceiving, houtbound⟩
  | validateLink _ _ _ _ _ _ _ hsend =>
      refine { hsends hsend with links := fun g e' he' => ?_ }
      obtain ⟨outbound, stats, rfl⟩ := hsend.rest
      rcases (LinkTable.markValidated_spec _ _ _ _).2 g e' he' with hold | ⟨e, he, rfl⟩
      · exact hby.links g e' hold
      · exact hby.links g e he
  | touchLink =>
      refine { hby with links := fun g e' he' => ?_ }
      rcases (LinkTable.touch_spec _ _ _ _).2 g e' he' with hold | ⟨e, he, rfl⟩
      · exact hby.links g e' hold
      · exact hby.links g e he

theorem Changes.placed [Crypto] (h : Changes c s s') (hs : s.Sound) (hp : s.Placed) :
    s'.Placed := by
  induction h with
  | refl => exact hp
  | tail hrun hstep ih =>
      exact ih.of_placedBy hstep.grows (hstep.placedBy (Changes.sound hrun hs) ih)

end LiteNode

end ReticulumLite
