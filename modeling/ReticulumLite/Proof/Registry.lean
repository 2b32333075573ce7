import ReticulumLite.Proof.Operations

/-!
# The registry of a router

An operation on an interface writes one place of the registry and of the numbers beside it. What it
does to the rest of the node follows from that: other interfaces are found where they were, under
the number they had.
-/

namespace ReticulumLite

open Bounded

namespace Router

variable {r r' : Router} {slot : Fin requesters} {id id' : InterfaceId}

/-- One place of the registry was written, for one id. -/
structure Rewrites (r r' : Router) (slot : Fin requesters) (id : InterfaceId) : Prop where
  registry : ∀ j, j ≠ slot → r'.registry.get j = r.registry.get j
  generations : ∀ j, j ≠ slot → r'.generations.get j = r.generations.get j
  old : ∀ c, r.registry.get slot = some c → c.id = id
  new : ∀ c, r'.registry.get slot = some c → c.id = id

namespace Rewrites

variable (h : Rewrites r r' slot id)

include h

theorem registry_eq :
    r'.registry = r.registry.put slot (r'.registry.get slot) := by
  refine List.Vector.ext fun j => ?_
  rw [Slots.get_put]
  split
  · rename_i hj
    rw [hj]
  · rename_i hj
    exact h.registry j (Ne.symm hj)

theorem decide_of_ne (hid : id' ≠ id) :
    (∀ c, r.registry.get slot = some c → decide (c.id = id') = false) ∧
      ∀ c, r'.registry.get slot = some c → decide (c.id = id') = false :=
  ⟨fun c hc => decide_eq_false fun he => hid (he.symm.trans (h.old c hc)),
    fun c hc => decide_eq_false fun he => hid (he.symm.trans (h.new c hc))⟩

theorem slotOf_of_ne (hid : id' ≠ id) : r'.registry.slotOf id' = r.registry.slotOf id' := by
  rw [h.registry_eq]
  exact Slots.indexOf_put_of_not (h.decide_of_ne hid).1 (h.decide_of_ne hid).2

theorem interface_of_ne (hid : id' ≠ id) : r'.interface id' = r.interface id' := by
  change Slots.find _ r'.registry = _
  rw [h.registry_eq]
  exact Slots.find_put_of_not (h.decide_of_ne hid).1 (h.decide_of_ne hid).2

theorem generation_of_ne (hid : id' ≠ id) : r'.generation id' = r.generation id' := by
  unfold generation
  rw [h.slotOf_of_ne hid]
  cases hslot : r.registry.slotOf id' with
  | none => rfl
  | some j =>
      obtain ⟨⟨c, hc, hcid⟩, _⟩ := Slots.indexOf_eq_some.mp hslot
      refine h.generations j ?_
      rintro rfl
      exact hid ((of_decide_eq_true hcid).symm.trans (h.old c hc))

theorem ordered (hr : r.Ordered)
    (hfree : ∀ j c, j ≠ slot → r.registry.get j = some c → c.id ≠ id)
    (hnumbered : ∀ c, r'.registry.get slot = some c → c.online = true →
      r'.generations.get slot ≠ 0) : r'.Ordered where
  distinct i j c c' hi hj hid := by
    by_cases his : i = slot
    · subst his
      by_cases hjs : j = i
      · exact hjs.symm
      · rw [h.registry j hjs] at hj
        exact absurd (hid.symm.trans (h.new c hi)) (hfree j c' hjs hj)
    · by_cases hjs : j = slot
      · subst hjs
        rw [h.registry i his] at hi
        exact absurd (hid.trans (h.new c' hj)) (hfree i c his hi)
      · rw [h.registry i his] at hi
        rw [h.registry j hjs] at hj
        exact hr.distinct i j c c' hi hj hid
  numbered j c hj honline := by
    by_cases hjs : j = slot
    · subst hjs
      exact hnumbered c hj honline
    · rw [h.registry j hjs] at hj
      rw [h.generations j hjs]
      exact hr.numbered j c hj honline

end Rewrites

theorem Ordered.ne_of_slotOf (h : r.Ordered) (hslot : r.registry.slotOf id = some slot)
    {j : Fin requesters} {c : InterfaceConfig} (hj : j ≠ slot) (hc : r.registry.get j = some c) :
    c.id ≠ id := by
  rintro rfl
  exact hj (Option.some.inj ((h.slotOf hc).symm.trans hslot))

/-- A place that was free, or held the interface while it was offline, holds it under the next
number. -/
structure Connects (r r' : Router) (slot : Fin requesters) (interface : InterfaceConfig) : Prop where
  registry : r'.registry = r.registry.put slot (some interface)
  generations : r'.generations = r.generations.set slot (r.lastGeneration + 1)
  last : r'.lastGeneration = r.lastGeneration + 1
  old : ∀ c, r.registry.get slot = some c → c.id = interface.id ∧ c.online = false
  other : r.Ordered → ∀ j c, j ≠ slot → r.registry.get j = some c → c.id ≠ interface.id

namespace Connects

variable {interface : InterfaceConfig} (h : r.Connects r' slot interface)

include h

theorem get : r'.registry.get slot = some interface := by
  rw [h.registry, Slots.get_put_self]

theorem number : r'.generations.get slot = r.lastGeneration + 1 := by
  rw [h.generations, List.Vector.get_set_same]

theorem rewrites : r.Rewrites r' slot interface.id where
  registry j hj := by
    rw [h.registry]
    exact Slots.get_put_of_ne (Ne.symm hj) _
  generations j hj := by
    rw [h.generations]
    exact List.Vector.get_set_of_ne (Ne.symm hj) _
  old c hc := (h.old c hc).1
  new c hc := Option.some.inj (h.get.symm.trans hc) ▸ rfl

theorem ordered (hr : r.Ordered) : r'.Ordered := by
  refine h.rewrites.ordered hr (h.other hr) fun _ _ _ => ?_
  rw [h.number]
  exact Nat.succ_ne_zero _

end Connects

end Router

theorem InterfaceRegistry.get_of_slotOf {registry : InterfaceRegistry} {id : InterfaceId}
    {slot : Fin requesters} (h : registry.slotOf id = some slot) :
    ∃ c, registry.get slot = some c ∧ c.id = id := by
  obtain ⟨⟨c, hc, hid⟩, _⟩ := Slots.indexOf_eq_some.mp h
  exact ⟨c, hc, of_decide_eq_true hid⟩

namespace LiteNode

variable {K : Capacities} {s : LiteNode K .router}

section

variable (s) (config : LiteConfig)

theorem router?_eq : s.router? = some s.router := by
  unfold router? router
  cases s.interfaces
  rfl

/-! ### What the operations write -/

theorem registerInterface_cases (interface : InterfaceConfig) :
    (∃ e, s.registerInterface interface = (s, .error e)) ∨
      ∃ slot r', s.router.Connects r' slot interface ∧ s.registerInterface interface =
        ({ s.withRouter r' with
            announceSchedule := s.announceSchedule.clearTarget slot
            discoveries := s.discoveries.retireRequester slot }, .ok ()) := by
  unfold registerInterface
  split
  · exact .inl ⟨_, rfl⟩
  split
  · exact .inl ⟨_, rfl⟩
  rename_i generation hgeneration
  obtain rfl := (checkedSucc_eq_some.mp hgeneration).2
  split
  · exact .inl ⟨_, rfl⟩
  rename_i registry hregister
  unfold InterfaceRegistry.register at hregister
  split at hregister
  · cases hregister
  rename_i habsent
  split at hregister
  · cases hregister
  rename_i slot hfree
  cases hregister
  have hnone := Slots.get_of_free hfree
  have hother : ∀ j c, s.router.registry.get j = some c → c.id ≠ interface.id := by
    rw [Bool.not_eq_true, Option.isSome_eq_false_iff, Option.isNone_iff_eq_none] at habsent
    exact fun j c hc => of_decide_eq_false (Slots.find_eq_none.mp habsent j c hc)
  have hslot : InterfaceRegistry.slotOf (s.router.registry.put slot (some interface)) interface.id =
      some slot := by
    refine Slots.indexOf_eq_some.mpr ⟨⟨interface, by simp, by simp⟩, fun j hj c hc => ?_⟩
    rw [Slots.get_put_of_ne (ne_of_gt hj)] at hc
    exact decide_eq_false (hother j c hc)
  simp only [hslot]
  refine .inr ⟨slot, _, ⟨rfl, rfl, rfl, fun c hc => ?_, fun _ j c _ => hother j c⟩, rfl⟩
  rw [hnone] at hc
  cases hc

theorem unregisterInterface_cases (id : InterfaceId) :
    (∃ e, s.unregisterInterface id = (s, .error e)) ∨
      ∃ slot c, s.router.registry.slotOf id = some slot ∧
        s.unregisterInterface id = ((s.withRouter { s.router with
          registry := s.router.registry.put slot none }).retireRouterInterface id slot, .ok c) := by
  unfold unregisterInterface
  split
  · exact .inl ⟨_, rfl⟩
  rename_i slot hslot
  obtain ⟨c, hc, _⟩ := InterfaceRegistry.get_of_slotOf hslot
  split
  · exact .inl ⟨_, rfl⟩
  · simp only [InterfaceRegistry.unregister, hslot, hc]
    exact .inr ⟨slot, c, rfl, rfl⟩

theorem withRouter_self : s.withRouter s.router = s := by
  have hi : Interfaces.router s.router = s.interfaces := by
    unfold router
    cases s.interfaces
    rfl
  rw [withRouter, hi]

/-- Coming online gives a new number unless the interface was online; going offline retires. -/
theorem setInterfaceOnline_cases (id : InterfaceId) (online : Bool) :
    (∃ e, s.setInterfaceOnline id online = (s, .error e)) ∨
      ∃ slot c, s.router.registry.slotOf id = some slot ∧ s.router.registry.get slot = some c ∧
        c.id = id ∧
        ((online = true ∧ c.online = true ∧ s.setInterfaceOnline id online = (s, .ok ())) ∨
        (∃ r', online = true ∧ s.router.Connects r' slot { c with online := true } ∧
          s.setInterfaceOnline id online = (s.withRouter r', .ok ())) ∨
        (online = false ∧
          s.setInterfaceOnline id online = ((s.withRouter { s.router with
            registry := s.router.registry.put slot (some { c with online := false })
            }).retireRouterInterface id slot, .ok ()))) := by
  cases hslot : s.router.registry.slotOf id with
  | none =>
      left
      simp only [setInterfaceOnline, hslot]
      exact ⟨_, rfl⟩
  | some slot =>
  obtain ⟨c, hc, rfl⟩ := InterfaceRegistry.get_of_slotOf hslot
  have hlookup : s.router.registry.lookup c.id = some c := Slots.find_eq_some.mpr ⟨slot, hslot, hc⟩
  have hset (online : Bool) : s.router.registry.setOnline c.id online =
      .ok (s.router.registry.put slot (some { c with online })) := by
    simp only [InterfaceRegistry.setOnline, hslot, hc, Option.map_some]
  cases online with
  | false =>
      refine .inr ⟨slot, c, rfl, hc, rfl, .inr (.inr ⟨rfl, ?_⟩)⟩
      simp [setInterfaceOnline, hslot, hset]
  | true =>
      cases honline : c.online with
      | true =>
          -- nothing is written but what was there
          have hsame : s.router.registry.put slot (some { c with online := true }) =
              s.router.registry := by
            rw [← honline]
            exact Slots.put_of_get hc
          refine .inr ⟨slot, c, rfl, hc, rfl, .inl ⟨rfl, honline, ?_⟩⟩
          simp [setInterfaceOnline, hslot, hset, hlookup, honline, hsame]
          exact withRouter_self s
      | false =>
          cases hgeneration : checkedSucc s.router.lastGeneration with
          | none =>
              left
              exact ⟨.interfaceGenerationExhausted, by
                simp [setInterfaceOnline, hslot, hlookup, honline, hgeneration]⟩
          | some generation =>
              obtain rfl := (checkedSucc_eq_some.mp hgeneration).2
              refine .inr ⟨slot, c, rfl, hc, rfl, .inr (.inl ⟨_, rfl, ⟨rfl, rfl, rfl, ?_, ?_⟩, by
                simp [setInterfaceOnline, hslot, hset, hlookup, honline, hgeneration]; rfl⟩)⟩
              · exact fun c' hc' => Option.some.inj (hc.symm.trans hc') ▸ ⟨rfl, honline⟩
              · exact fun hordered j c' hj hc' => hordered.ne_of_slotOf hslot hj hc'

theorem resetInPlace_cases (transportId : Hash16) :
    (∃ e, s.resetInPlace config transportId = (s, .error e)) ∨
      s.resetInPlace config transportId = (s.clearTraffic config transportId
        (.router (s.router.reset (s.router.lastGeneration + 1))), .ok ()) := by
  unfold resetInPlace router
  split
  · exact .inl ⟨_, rfl⟩
  cases s.interfaces with
  | router r =>
      cases hgeneration : checkedSucc r.lastGeneration with
      | none =>
          left
          simp only [resetInterfaces, hgeneration, Option.map_none]
          exact ⟨_, rfl⟩
      | some generation =>
          obtain rfl := (checkedSucc_eq_some.mp hgeneration).2
          right
          simp only [resetInterfaces, hgeneration, Option.map_some, Interfaces.asRouter]

theorem resetRouterInPlace_cases (id : Hash16) (registry : InterfaceRegistry)
    (modem : Option LoraModemConfig) :
    (∃ e, s.resetRouterInPlace config id registry modem = (s, .error e)) ∨
      registry.Valid config.tableCaps.txQueueDepth ∧
        s.resetRouterInPlace config id registry modem = (s.clearTraffic config id
          (.router { s.router.reset (s.router.lastGeneration + 1) with
            registry, loraModem := modem }), .ok ()) := by
  unfold resetRouterInPlace
  split
  · exact .inl ⟨_, rfl⟩
  rename_i hvalid
  rcases resetInPlace_cases s config id with ⟨e, hreset⟩ | hreset
  · left
    simp only [hreset]
    exact ⟨_, rfl⟩
  · simp only [hreset]
    exact .inr ⟨InterfaceRegistry.valid_of_validate hvalid, rfl⟩

end

/-! ### Integrity -/

variable {n : LiteNode K .router} {slot : Fin requesters} {id : InterfaceId}

theorem present_of_rewrites (n' : LiteNode K .router) {id' : InterfaceId}
    (h : n.router.Rewrites n'.router slot id) (hid : id' ≠ id) (hpresent : n.Present id') :
    n'.Present id' := by
  intro r' hr'
  obtain rfl := Option.some.inj ((router?_eq n').symm.trans hr')
  rw [Router.Serves, h.interface_of_ne hid]
  exact hpresent _ (router?_eq n)

theorem outgoing_of_rewrites (n' : LiteNode K .router) {b : Fin requesters}
    (h : n.router.Rewrites n'.router slot id) (hb : b ≠ slot) (houtgoing : n.Outgoing b) :
    n'.Outgoing b := by
  intro r' hr'
  obtain rfl := Option.some.inj ((router?_eq n').symm.trans hr')
  rw [Router.CanSend, h.registry b hb]
  exact houtgoing _ (router?_eq n)

variable {key : OutboundFrame × Option Nat}

theorem current_of_rewrites (n' : LiteNode K .router) (h : n.router.Rewrites n'.router slot id)
    (hid : key.1.interfaceId ≠ id) (hcurrent : n.Current key) : n'.Current key := by
  intro r' hr'
  obtain rfl := Option.some.inj ((router?_eq n').symm.trans hr')
  rw [h.generation_of_ne hid]
  exact hcurrent _ (router?_eq n)

theorem queue_expireOutbound {m : Model} (s : LiteNode K m) (now : Nat)
    (hkey : key ∈ (s.expireOutbound now).outbound.toList.map QueuedOutbound.key) :
    s.Present key.1.interfaceId ∧ s.Current key := by
  obtain ⟨outbound, stats, heq, hlist⟩ := s.expireOutbound_spec now
  rw [heq] at hkey
  obtain ⟨q, hq, rfl⟩ := List.mem_map.mp hkey
  rw [hlist, List.mem_filter, Bool.not_eq_true', staleFrame, Bool.or_eq_false_iff,
    Bool.not_eq_false', Bool.not_eq_false'] at hq
  obtain ⟨_, hlive, hcurrent⟩ := hq
  have honline : s.outboundInterfaceOnline q.frame.interfaceId = true := by
    by_contra hoffline
    rw [Bool.not_eq_true] at hoffline
    simp [outboundLifetimeIsLive, hoffline] at hlive
  refine ⟨fun r hr => ?_, fun r hr => ?_⟩
  · rw [outboundInterfaceOnline_of_router hr, Router.online, Option.any_eq_true] at honline
    obtain ⟨i, hi, hdirection⟩ := honline
    exact ⟨i, hi, (Bool.and_eq_true_iff.mp hdirection).1⟩
  · obtain ⟨rfl, hi⟩ := Interfaces.eq_router hr
    obtain ⟨frame, ⟨generation⟩⟩ := q
    rw [hi] at hcurrent
    simp only [Interfaces.deliveryIsCurrent, Bool.and_eq_true, decide_eq_true_eq] at hcurrent
    exact ⟨hcurrent.2 ▸ hcurrent.1, congrArg some hcurrent.2.symm⟩

theorem router_retireRouterInterface (s : LiteNode K .router) (id : InterfaceId)
    (slot : Fin requesters) :
    (s.retireRouterInterface id slot).router = s.router.retire slot := by
  unfold router retireRouterInterface
  rw [interfaces_expireOutbound]
  rfl

theorem placed_retireRouterInterface {s : LiteNode K .router} (h : PlacedBy n s)
    (hwrites : n.router.Rewrites (s.router.retire slot) slot id)
    (hordered : (s.router.retire slot).Ordered) : (s.retireRouterInterface id slot).Placed := by
  set n' := s.retireRouterInterface id slot with hn'
  have hrouter : n'.router = s.router.retire slot := router_retireRouterInterface s id slot
  rw [← hrouter] at hwrites hordered
  have hpresent : ∀ {id'}, id' ≠ id → n.Present id' → n'.Present id' := present_of_rewrites n' hwrites
  have houtgoing : ∀ {b}, b ≠ slot → n.Outgoing b → n'.Outgoing b := outgoing_of_rewrites n' hwrites
  have hinterfaces : n'.interfaces = (s.forgetInterface id slot).interfaces :=
    interfaces_expireOutbound _ _
  have htables : PlacedBy n' { s.forgetInterface id slot with outbound := n'.outbound } := by
    refine ⟨fun g e he => ?_, fun i e he => ?_, fun g e he => ?_, fun g e he => ?_, ?_,
      fun key hkey => ?_⟩
    · obtain ⟨hrow, hid⟩ := GenTable.row_clearWhere.mp he
      exact hpresent (of_decide_eq_false hid) (h.paths g e hrow)
    · obtain ⟨he, hid⟩ := Slots.get_clearWhere_eq_some.mp he
      have hold := (h.lessen (AnnounceSchedule.lessens_clearTarget _ slot)).schedule i e he
      have hslot := AnnounceSchedule.not_pending_clearTarget slot i e he
      refine ⟨hpresent (of_decide_eq_false hid) hold.1, fun b hb => houtgoing ?_ (hold.2 b hb)⟩
      rintro rfl
      rw [hslot] at hb
      cases hb
    · obtain ⟨hrow, hid⟩ := GenTable.row_clearWhere.mp he
      simp only [Bool.or_eq_false_iff, decide_eq_false_iff_not] at hid
      exact (h.reverse g e hrow).imp (hpresent hid.1) (hpresent hid.2)
    · obtain ⟨hrow, hid⟩ := GenTable.row_clearWhere.mp he
      simp only [Bool.or_eq_false_iff, decide_eq_false_iff_not] at hid
      exact (h.links g e hrow).imp (hpresent hid.1) (hpresent hid.2)
    · intro i b hb
      obtain ⟨hold, hslot⟩ := h.discoveries.retireRequester slot i b hb
      exact houtgoing hslot hold
    · obtain ⟨hpresent', hcurrent'⟩ := queue_expireOutbound _ _ hkey
      exact ⟨fun r hr => hpresent' r ((congrArg Interfaces.router? hinterfaces).symm.trans hr),
        fun r hr => hcurrent' r ((congrArg Interfaces.router? hinterfaces).symm.trans hr)⟩
  obtain ⟨outbound, stats, heq, _⟩ := (s.forgetInterface id slot).expireOutbound_spec s.clockMs
  have hn'' : n' = { s.forgetInterface id slot with outbound := n'.outbound, stats } := by
    rw [hn', retireRouterInterface, heq]
  refine ⟨?_, fun r hr => ?_⟩
  · rw [hn''] at htables ⊢
    exact { htables with }
  · rw [router?_eq] at hr
    exact Option.some.inj hr ▸ hordered

theorem placedBy_clearTraffic {m : Model} (n s : LiteNode K m) (config : LiteConfig)
    (transportId : Hash16) (interfaces : Interfaces m) :
    PlacedBy n (s.clearTraffic config transportId interfaces) where
  paths g e he := absurd he (GenTable.not_row_clear _ _ _)
  schedule := Slots.all_empty
  reverse g e he := absurd he (GenTable.not_row_clear _ _ _)
  links g e he := absurd he (GenTable.not_row_clear _ _ _)
  discoveries := Discoveries.waiting_replicate _
  queue key hkey := by simp [clearTraffic] at hkey

theorem ordered_of_generations {r : Router} (hdistinct : r.registry.Distinct)
    (hgenerations : ∀ slot, r.generations.get slot ≠ 0) : r.Ordered :=
  ⟨hdistinct, fun slot _ _ _ => hgenerations slot⟩

theorem generations_reset (r : Router) (generation : Nat) (slot : Fin requesters) :
    (r.reset (generation + 1)).generations.get slot ≠ 0 := by
  change (List.Vector.replicate requesters (generation + 1)).get slot ≠ 0
  rw [List.Vector.get_replicate]
  exact Nat.succ_ne_zero _

theorem rewrites_retire {c : Option InterfaceConfig}
    (hslot : s.router.registry.slotOf id = some slot) (hc : ∀ c', c = some c' → c'.id = id) :
    s.router.Rewrites (Router.retire { s.router with
      registry := s.router.registry.put slot c } slot) slot id where
  registry j hj := Slots.get_put_of_ne (Ne.symm hj) _
  generations j hj := List.Vector.get_set_of_ne (Ne.symm hj) _
  old c' hc' := by
    obtain ⟨c₀, hc₀, hid⟩ := InterfaceRegistry.get_of_slotOf hslot
    exact Option.some.inj (hc₀.symm.trans hc') ▸ hid
  new c' hc' := hc c' ((Slots.get_put_self _ _ _).symm.trans hc')

theorem Present.exists_get (h : s.Present id) :
    ∃ slot i, s.router.registry.get slot = some i ∧ i.id = id ∧ i.online = true := by
  obtain ⟨i, hi, honline⟩ := h _ (router?_eq s)
  obtain ⟨⟨slot, hget⟩, hid⟩ := Slots.find_mem hi
  exact ⟨slot, i, hget, of_decide_eq_true hid, honline⟩

variable {r' : Router} {interface : InterfaceConfig}

/-- An interface that is being connected was not there to be used. -/
theorem Present.ne_of_connects (hp : s.Placed) (h : s.router.Connects r' slot interface)
    (hpresent : s.Present id) : id ≠ interface.id := by
  obtain ⟨j, i, hget, rfl, honline⟩ := hpresent.exists_get
  by_cases hj : j = slot
  · subst hj
    exact absurd (honline.symm.trans (h.old i hget).2) (by decide)
  · exact h.other (hp.ordered _ (router?_eq s)) j i hj hget

theorem placedBy_connects (hp : s.Placed) (h : s.router.Connects r' slot interface) :
    PlacedBy (s.withRouter r') s := by
  have hwrites : s.router.Rewrites (s.withRouter r').router slot interface.id := h.rewrites
  refine hp.mono (fun id hpresent => ?_) (fun b houtgoing => ?_) fun key hpresent => ?_
  · exact present_of_rewrites _ hwrites (hpresent.ne_of_connects hp h) hpresent
  · refine outgoing_of_rewrites _ hwrites ?_ houtgoing
    rintro rfl
    obtain ⟨i, hi, honline, _⟩ := houtgoing _ (router?_eq s)
    exact absurd (honline.symm.trans (h.old i hi).2) (by decide)
  · exact current_of_rewrites _ hwrites (hpresent.ne_of_connects hp h)

/-! ### What an operation on the interfaces can do -/

/-- Nothing; or a reset that numbers every place anew; or an interface is connected; or it is retired,
and withdrawn or left offline. -/
inductive Rewires (s : LiteNode K .router) : LiteNode K .router → Prop
  | same : Rewires s s
  | reset (config : LiteConfig) (transportId : Hash16) {registry : InterfaceRegistry}
      (loraModem : Option LoraModemConfig)
      (hdistinct : s.router.registry.Distinct → registry.Distinct) :
      Rewires s (s.clearTraffic config transportId
        (.router { s.router.reset (s.router.lastGeneration + 1) with registry, loraModem }))
  | connect {r' slot interface announceSchedule discoveries}
      (h : s.router.Connects r' slot interface)
      (hless : s.announceSchedule.Lessens announceSchedule)
      (hwaiting : ∀ P, s.discoveries.Waiting P → discoveries.Waiting P) :
      Rewires s { s.withRouter r' with announceSchedule, discoveries }
  | retire {id slot c₀ c} (hslot : s.router.registry.slotOf id = some slot)
      (hc₀ : s.router.registry.get slot = some c₀) (hid : c₀.id = id)
      (hc : ∀ c', c = some c' → c' = { c₀ with online := false }) :
      Rewires s ((s.withRouter { s.router with
        registry := s.router.registry.put slot c }).retireRouterInterface id slot)

theorem Rewires.placed {s' : LiteNode K .router} (h : Rewires s s') (hp : s.Placed) :
    s'.Placed := by
  have hordered := hp.ordered _ (router?_eq s)
  cases h with
  | same => exact hp
  | reset config transportId loraModem hdistinct =>
      refine ⟨placedBy_clearTraffic _ _ _ _ _, fun r hr => ?_⟩
      obtain rfl := Option.some.inj hr
      exact ordered_of_generations (hdistinct hordered.distinct) (generations_reset s.router _)
  | connect h hless hwaiting =>
      have hby := placedBy_connects hp h
      refine ⟨{ hby with
        schedule := (hby.lessen hless).schedule
        discoveries := hwaiting _ hby.discoveries }, fun r hr => ?_⟩
      obtain rfl := Option.some.inj hr
      exact h.ordered hordered
  | retire hslot hc₀ hid hc =>
      have hwrites := rewrites_retire hslot fun c' hc' => by rw [hc c' hc']; exact hid
      refine placed_retireRouterInterface (s := s.withRouter _) { hp.toPlacedBy with } hwrites ?_
      refine hwrites.ordered hordered (fun j c' hj hc' => hordered.ne_of_slotOf hslot hj hc')
        fun c' hc' honline => ?_
      rw [hc c' ((Slots.get_put_self _ _ _).symm.trans hc')] at honline
      cases honline

end LiteNode

theorem Operation.rewires [Crypto] {K : Capacities} (s : LiteNode K .router)
    {op : Operation .router} (hop : op.retires = true) : s.Rewires (op.perform s) := by
  cases op with
  | resetInPlace config transportId =>
      simp only [Operation.perform]
      rcases LiteNode.resetInPlace_cases s config transportId with ⟨_, heq⟩ | heq
      · rw [heq]
        exact .same
      · rw [heq]
        exact .reset config transportId s.router.loraModem id
  | resetRouterInPlace config id registry modem =>
      simp only [Operation.perform]
      rcases LiteNode.resetRouterInPlace_cases s config id registry modem with
        ⟨_, heq⟩ | ⟨hvalid, heq⟩
      · rw [heq]
        exact .same
      · rw [heq]
        exact .reset config id modem fun _ => hvalid.distinct
  | registerInterface interface =>
      simp only [Operation.perform]
      rcases LiteNode.registerInterface_cases s interface with ⟨_, heq⟩ | ⟨slot, r', h, heq⟩
      · rw [heq]
        exact .same
      · rw [heq]
        exact .connect h (AnnounceSchedule.lessens_clearTarget _ slot) fun P hP i b hb =>
          (hP.retireRequester slot i b hb).1
  | unregisterInterface id =>
      simp only [Operation.perform]
      rcases LiteNode.unregisterInterface_cases s id with ⟨_, heq⟩ | ⟨slot, _, hslot, heq⟩
      · rw [heq]
        exact .same
      · rw [heq]
        obtain ⟨c₀, hc₀, hid⟩ := InterfaceRegistry.get_of_slotOf hslot
        exact .retire hslot hc₀ hid fun c' hc' => by cases hc'
  | setInterfaceOnline id online =>
      simp only [Operation.perform]
      rcases LiteNode.setInterfaceOnline_cases s id online with
        ⟨_, heq⟩ | ⟨slot, c, hslot, hc, hid, ⟨_, _, heq⟩ | ⟨r', _, h, heq⟩ | ⟨_, heq⟩⟩
      · rw [heq]
        exact .same
      · rw [heq]
        exact .same
      · rw [heq]
        exact .connect h (.refl _) fun _ hP => hP
      · rw [heq]
        exact .retire hslot hc hid fun c' hc' => (Option.some.inj hc').symm
  | _ => cases hop

end ReticulumLite
