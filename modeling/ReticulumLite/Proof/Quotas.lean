import ReticulumLite.Proof.Keys
import ReticulumLite.Proof.Ledger

/-!
# The quotas of a router's queue

Each interface has a quota in the shared queue of a router. A reservation counts the frames of its
interface before it looks at the whole queue, and what it gives up at the quota makes room for the
frame pushed, so neither bound is passed and the push itself never costs a frame.
-/

namespace ReticulumLite

open Bounded

namespace LiteNode

variable {K : Capacities} {s s' : LiteNode K .router} {c : Cause}

/-- What bounds the queue of a router: the whole of it, the frames of each interface, and each
frame. -/
structure WithinQuotas (s : LiteNode K .router) : Prop where
  total : s.outbound.toList.length ≤ min s.config.tableCaps.txQueueDepth K.outbound
  interface : ∀ id i, s.router.interface id = some i →
    s.outbound.toList.countP (frameFor id) ≤ i.txQueueDepth
  fits : ∀ q ∈ s.outbound.toList, ∀ i, s.router.interface q.frame.interfaceId = some i →
    q.frame.packet.len ≤ i.wireMtu

theorem countP_frameFor (id : InterfaceId) (rows : List (QueuedOutbound .router)) :
    rows.countP (frameFor id) = (rows.map QueuedOutbound.key).countP
      fun key => decide (key.1.interfaceId = id) := by
  rw [List.countP_map]
  rfl

namespace WithinQuotas

theorem of_empty (h : s.outbound.toList = []) : s.WithinQuotas := by
  refine ⟨?_, fun id i _ => ?_, fun q hq => ?_⟩
  · rw [h]
    exact Nat.zero_le _
  · rw [h]
    exact Nat.zero_le _
  · rw [h] at hq
    cases hq

theorem mono (h : s.WithinQuotas) (htableCaps : s'.config.tableCaps = s.config.tableCaps)
    (hrows : (s'.outbound.toList.map QueuedOutbound.key).Sublist
      (s.outbound.toList.map QueuedOutbound.key))
    (hinterface : ∀ id i', s'.router.interface id = some i' → ∃ i, s.router.interface id = some i ∧
      i'.txQueueDepth = i.txQueueDepth ∧ i'.wireMtu = i.wireMtu) : s'.WithinQuotas where
  total := by
    have hle := hrows.length_le
    rw [List.length_map, List.length_map] at hle
    rw [htableCaps]
    exact hle.trans h.total
  interface id i' hi' := by
    obtain ⟨i, hi, hdepth, _⟩ := hinterface id i' hi'
    rw [hdepth, countP_frameFor]
    refine (hrows.countP_le).trans ?_
    rw [← countP_frameFor]
    exact h.interface id i hi
  fits q hq i' hi' := by
    obtain ⟨i, hi, _, hmtu⟩ := hinterface _ i' hi'
    obtain ⟨q₀, hq₀, hkey⟩ := List.mem_map.mp (hrows.subset (List.mem_map_of_mem hq))
    have hframe : q₀.frame = q.frame := congrArg Prod.fst hkey
    rw [hmtu, ← hframe]
    rw [← hframe] at hi
    exact h.fits q₀ hq₀ i hi

theorem congr (h : s.WithinQuotas) (hconfig : s'.config = s.config)
    (houtbound : s'.outbound = s.outbound) (hrouter : s'.router.registry = s.router.registry) :
    s'.WithinQuotas := by
  refine h.mono (by rw [hconfig]) (by rw [houtbound]) fun id i hi => ⟨i, ?_, rfl, rfl⟩
  rw [← hi, Router.interface, Router.interface, hrouter]

end WithinQuotas

/-! ### Reservations -/

theorem countP_eraseIdx_findIdx? {α : Type} {p q : α → Bool} {rows : List α} {k : Nat}
    (hk : rows.findIdx? p = some k) (hpq : ∀ a, p a = true → q a = true) :
    (rows.eraseIdx k).countP q + 1 = rows.countP q := by
  obtain ⟨hlt, hp, _⟩ := List.findIdx?_eq_some_iff_getElem.mp hk
  exact (countP_eraseIdx hlt (hpq _ hp)).symm

variable {id : InterfaceId}

theorem frameFor_of_rebroadcastFor {q : QueuedOutbound .router} (h : rebroadcastFor id q = true) :
    frameFor id q = true :=
  (Bool.and_eq_true_iff.mp h).1

namespace Reserves

variable {id : InterfaceId} {depth limit : Nat} {gated : Bool}
  {rows kept : List (QueuedOutbound .router)}

theorem countP_lt (h : Reserves id depth limit gated rows kept)
    (hrows : rows.countP (frameFor id) ≤ depth) : kept.countP (frameFor id) < depth := by
  cases h with
  | room hquota => exact hquota
  | rebroadcast _ hk =>
      have := countP_eraseIdx_findIdx? hk fun _ => frameFor_of_rebroadcastFor
      omega
  | oldest _ _ _ hk =>
      have := countP_eraseIdx_findIdx? hk fun _ hp => hp
      omega

/-- What is given up is a frame of the interface, and a rebroadcast if one asks. -/
theorem filter_eq (h : Reserves id depth limit gated rows kept) {p : QueuedOutbound .router → Bool}
    (hp : ∀ q, rebroadcastFor id q = true → p q = false)
    (hp' : gated = false → ∀ q, frameFor id q = true → p q = false) :
    kept.filter p = rows.filter p := by
  have herase {f : QueuedOutbound .router → Bool} {k : Nat} (hk : rows.findIdx? f = some k)
      (hf : ∀ q, f q = true → p q = false) : (rows.eraseIdx k).filter p = rows.filter p := by
    obtain ⟨hlt, hfound, _⟩ := List.findIdx?_eq_some_iff_getElem.mp hk
    apply filter_eraseIdx
    intro q hq
    rw [List.getElem?_eq_getElem hlt, Option.mem_some] at hq
    exact hf q (hq ▸ hfound)
  cases h with
  | room => rfl
  | rebroadcast _ hk => exact herase hk hp
  | oldest _ hgated _ hk => exact herase hk (hp' hgated)

end Reserves

/-! ### Changes -/

theorem WithinQuotas.sent (h : s.WithinQuotas) {frame : OutboundFrame} (hsend : s.Sends frame s') :
    s'.WithinQuotas := by
  obtain ⟨i, hi, _, _, hlen, kept, hreserves, hrows⟩ := hsend.router _ (router?_eq s)
  have hconfig : s'.config = s.config ∧ s'.router = s.router := by
    obtain ⟨outbound, stats, rfl⟩ := hsend.rest
    exact ⟨rfl, rfl⟩
  refine ⟨?_, fun id j hj => ?_, fun q hq j hj => ?_⟩
  · rw [hrows, List.length_append, List.length_singleton, hconfig.1]
    exact Nat.succ_le_of_lt (hreserves.length_lt le_rfl h.total)
  · rw [hconfig.2] at hj
    rw [hrows, List.countP_append, List.countP_singleton]
    by_cases hid : id = frame.interfaceId
    · subst hid
      obtain rfl := Option.some.inj (hi.symm.trans hj)
      have hlt := hreserves.countP_lt (h.interface _ i hi)
      split <;> omega
    · rw [if_neg (by simpa [frameFor] using Ne.symm hid)]
      exact (hreserves.sublist.countP_le).trans (h.interface id j hj)
  · rw [hconfig.2] at hj
    rw [hrows, List.mem_append, List.mem_singleton] at hq
    rcases hq with hq | rfl
    · exact h.fits q (hreserves.sublist.subset hq) j hj
    · obtain rfl := Option.some.inj (hi.symm.trans hj)
      exact hlen

theorem registry_of_grows (h : Grows s s') : s'.router.registry = s.router.registry := by
  obtain ⟨r, hr, hregistry, _⟩ := h.registry _ (router?_eq s')
  rw [hregistry, Option.some.inj ((router?_eq s).symm.trans hr)]

theorem Change.withinQuotas [Crypto] (h : Change c s s') (hq : s.WithinQuotas) :
    s'.WithinQuotas := by
  have hregistry := registry_of_grows h.grows
  cases h with
  | quiet h =>
      refine hq.mono h.tableCaps h.outbound fun id i hi => ⟨i, ?_, rfl, rfl⟩
      rw [← hi, Router.interface, Router.interface, hregistry]
  | learn =>
      obtain ⟨announceCache, heq⟩ := learned_eq s _ _ _
      rw [heq] at hregistry ⊢
      exact hq.congr rfl rfl hregistry
  | send hsend => exact hq.sent hsend
  | rebroadcast _ hmodel => cases hmodel
  | release _ _ _ _ _ _ hsend =>
      exact (hq.sent hsend).congr rfl rfl (registry_of_grows (grows_chargeGate _ _ _ _ _))
  | forwardData _ hsend => exact (hq.sent hsend).congr rfl rfl rfl
  | forwardLink _ hsend => exact (hq.sent hsend).congr rfl rfl rfl
  | validateLink _ _ _ _ _ _ _ hsend => exact (hq.sent hsend).congr rfl rfl rfl
  | _ => exact hq.congr rfl rfl rfl

/-! ### Operations on interfaces -/

variable {slot : Fin requesters}

/-- Where one place of the registry was written, every interface is there as it was if the one in that
place is. -/
theorem interface_of_rewrites {r r' : Router} (h : r.Rewrites r' slot id) (hordered : r.Ordered)
    (hslot : r.registry.slotOf id = some slot) {Q : InterfaceConfig → InterfaceConfig → Prop}
    (hrefl : ∀ i, Q i i)
    (hnew : ∀ i i', r.registry.get slot = some i → r'.registry.get slot = some i' → Q i i')
    {id' : InterfaceId} {i' : InterfaceConfig} (hi' : r'.interface id' = some i') :
    ∃ i, r.interface id' = some i ∧ Q i i' := by
  by_cases hid : id' = id
  · obtain ⟨⟨j, hj⟩, hj'⟩ := Slots.find_mem hi'
    have hj' : i'.id = id' := of_decide_eq_true hj'
    by_cases hjs : j = slot
    · subst hjs
      obtain ⟨i, hi, hiid⟩ := InterfaceRegistry.get_of_slotOf hslot
      refine ⟨i, ?_, hnew i i' hi hj⟩
      rw [hid, ← hiid]
      exact hordered.interface hi
    · rw [h.registry j hjs] at hj
      exact absurd (hj'.trans hid) (hordered.ne_of_slotOf hslot hjs hj)
  · exact ⟨i', (h.interface_of_ne hid).symm.trans hi', hrefl i'⟩

theorem withinQuotas_retireRouterInterface (hs : s.Placed) (hq : s.WithinQuotas)
    {place : Option InterfaceConfig} (hslot : s.router.registry.slotOf id = some slot)
    (hplace : ∀ i i', s.router.registry.get slot = some i → place = some i' →
      i'.id = i.id ∧ i'.txQueueDepth = i.txQueueDepth ∧ i'.wireMtu = i.wireMtu) :
    ((s.withRouter { s.router with
      registry := s.router.registry.put slot place }).retireRouterInterface id slot).WithinQuotas := by
  obtain ⟨c, hc, hcid⟩ := InterfaceRegistry.get_of_slotOf hslot
  set n := s.withRouter { s.router with registry := s.router.registry.put slot place }
  obtain ⟨outbound, stats, heq, hlist⟩ := (n.forgetInterface id slot).expireOutbound_spec n.clockMs
  have hwrites : s.router.Rewrites (n.router.retire slot) slot id :=
    rewrites_retire hslot fun c' hc' => (hplace c c' hc hc').1.trans hcid
  have hrouter : (n.retireRouterInterface id slot).router = n.router.retire slot :=
    router_retireRouterInterface n id slot
  refine hq.mono ?_ ?_ fun id' i' hi' => ?_
  · rw [retireRouterInterface, heq]
    rfl
  · rw [retireRouterInterface, heq, hlist]
    exact List.filter_sublist.map _
  · rw [hrouter] at hi'
    refine interface_of_rewrites hwrites (hs.ordered _ (router?_eq s)) hslot
      (Q := fun i i' => i'.txQueueDepth = i.txQueueDepth ∧ i'.wireMtu = i.wireMtu)
      (fun _ => ⟨rfl, rfl⟩) (fun i i' hi hi' => ?_) hi'
    have hget : (n.router.retire slot).registry.get slot = place := Slots.get_put_self _ _ _
    exact (hplace i i' hi (hget.symm.trans hi')).2

theorem withinQuotas_connects (hs : s.Placed) (hq : s.WithinQuotas) {r' : Router}
    {interface : InterfaceConfig} (h : s.router.Connects r' slot interface) :
    (s.withRouter r').WithinQuotas := by
  have hnone (q : QueuedOutbound .router) (hq : q ∈ s.outbound.toList) :
      q.frame.interfaceId ≠ interface.id :=
    (hs.queue q.key (List.mem_map_of_mem hq)).1.ne_of_connects hs h
  refine ⟨hq.total, fun id i hi => ?_, fun q hqueued i hi => ?_⟩
  · by_cases hid : id = interface.id
    · have hzero : s.outbound.toList.countP (frameFor id) = 0 :=
        List.countP_eq_zero.mpr fun q hq => by simpa [frameFor, hid] using hnone q hq
      show s.outbound.toList.countP (frameFor id) ≤ _
      rw [hzero]
      exact Nat.zero_le _
    · exact hq.interface id i ((h.rewrites.interface_of_ne hid).symm.trans hi)
  · exact hq.fits q hqueued i ((h.rewrites.interface_of_ne (hnone q hqueued)).symm.trans hi)

theorem Rewires.withinQuotas (h : Rewires s s') (hs : s.Placed) (hq : s.WithinQuotas) :
    s'.WithinQuotas := by
  cases h with
  | same => exact hq
  | reset => exact .of_empty rfl
  | connect h => exact (withinQuotas_connects hs hq h).congr rfl rfl rfl
  | retire hslot hc₀ _ hc =>
      refine withinQuotas_retireRouterInterface hs hq hslot fun i i' hi hi' => ?_
      rw [hc i' hi', Option.some.inj (hi.symm.trans hc₀)]
      exact ⟨rfl, rfl, rfl⟩

theorem perform_withinQuotas [Crypto] (hs : s.Consistent) (hq : s.WithinQuotas)
    (op : Operation .router) : (op.perform s).WithinQuotas := by
  have hchanges {c : Cause} {s₁ s₂ : LiteNode K .router} (h : Changes c s₁ s₂)
      (h₁ : s₁.WithinQuotas) : s₂.WithinQuotas := by
    induction h with
    | refl => exact h₁
    | tail _ hstep ih => exact hstep.withinQuotas ih
  cases ht : op.time with
  | some t =>
      obtain ⟨_, hrun, _⟩ := Operation.perform_timed hs.sound hs.placed ht
      exact hchanges hrun (hq.congr rfl rfl rfl)
  | none =>
      rcases Operation.perform_untimed (s := s) ht with ⟨_, hrun⟩ | ⟨hop, _⟩
      · exact hchanges (hrun 0) hq
      · exact (Operation.rewires s hop).withinQuotas hs.placed hq

/-! ### What one frame may cost -/

/-- What an attempt to queue a frame for an interface does to the queue. -/
structure Isolates (s : LiteNode K .router) (id : InterfaceId) (reason : OutboundReason)
    (sent : LiteNode K .router × Bool) : Prop where
  others : sent.1.outbound.toList.filter (fun q => !frameFor id q) =
    s.outbound.toList.filter fun q => !frameFor id q
  rebroadcast : reason = .announceRebroadcast →
    sent.1.outbound.toList.filter (fun q => !q.frame.reason.gated) =
      s.outbound.toList.filter fun q => !q.frame.reason.gated
  refused : sent.2 = false → sent.1.outbound = s.outbound
  queued : sent.2 = true → ∃ i q kept, s.router.interface id = some i ∧ q.frame.interfaceId = id ∧
    q.frame.reason = reason ∧
    Reserves id i.txQueueDepth (min s.config.tableCaps.txQueueDepth K.outbound) reason.gated
      s.outbound.toList kept ∧
    sent.1.outbound.toList = kept ++ [q]
  push : ∀ s₁ q, s.reserveRouterQueue id reason = (s₁, true) →
    (s₁.outbound.pushDropOldest q).1 = false

theorem pushDropOldest_of_reserved {reason : OutboundReason}
    (h : s.reserveRouterQueue id reason = (s', true)) (q : QueuedOutbound .router) :
    (s'.outbound.pushDropOldest q).1 = false := by
  obtain ⟨i, _, _, _, outbound, stats, rfl, hreserves⟩ := reserveRouterQueue_true (router?_eq s) h
  refine (outbound.pushDropOldest_of_lt q ?_).1
  rw [← Ring.length_toList]
  exact hreserves.length_lt (min_le_right _ _) s.outbound.length_toList_le

theorem isolates_enqueueWithLifetime [Crypto] (s : LiteNode K .router) (id : InterfaceId)
    (packet : PacketBuffer mtu) (reason : OutboundReason) (lifetime : OutboundLifetime) :
    s.Isolates id reason (s.enqueueWithLifetime id packet reason lifetime) := by
  have hpush : ∀ s₁ q, s.reserveRouterQueue id reason = (s₁, true) →
      (s₁.outbound.pushDropOldest q).1 = false := fun _ q h => pushDropOldest_of_reserved h q
  cases hsent : s.enqueueWithLifetime id packet reason lifetime with
  | mk s' queued =>
  rcases enqueueWithLifetime_spec s id packet reason lifetime hsent with
    ⟨rfl, stats, f, rfl⟩ | ⟨rfl, wire, _, _, hsend⟩
  · exact ⟨rfl, fun _ => rfl, fun _ => rfl, nofun, hpush⟩
  · obtain ⟨i, hi, _, _, _, kept, hreserves, hrows⟩ := hsend.router _ (router?_eq s)
    refine ⟨?_, fun hreason => ?_, nofun, fun _ => ⟨i, _, kept, hi, rfl, rfl, hreserves, hrows⟩, hpush⟩
    · have hown : frameFor id (⟨⟨id, wire, reason, lifetime⟩, s.interfaces.delivery
          (s.lastDeliveryIdentity + 1) id⟩ : QueuedOutbound .router) = true := decide_eq_true rfl
      rw [hrows, List.filter_append, List.filter_cons_of_neg (by simp [hown]), List.filter_nil,
        List.append_nil]
      exact hreserves.filter_eq (fun q hq => by simp [frameFor_of_rebroadcastFor hq])
        fun _ q hq => by simp [hq]
    · have hgated : reason.gated = true := decide_eq_true hreason
      rw [hrows, List.filter_append, List.filter_cons_of_neg (by simp [hgated]), List.filter_nil,
        List.append_nil]
      refine hreserves.filter_eq (fun q hq => ?_) fun hnot => absurd (hgated.symm.trans hnot) nofun
      rw [(Bool.and_eq_true_iff.mp hq).2, Bool.not_true]

/-- A router's queue keeps to its quotas, every frame in it fits its target, and a frame for one
interface is paid for by that interface alone. -/
theorem router_queue_quotas [Crypto] {config : LiteConfig} {id : Hash16}
    {registry : InterfaceRegistry} {modem : Option LoraModemConfig} {s₀ : LiteNode K .router}
    {ops : List (Operation .router)} (hnew : newRouter config id registry modem = .ok s₀)
    (hrun : s₀.Reaches ops s) :
    s.outbound.len ≤ min s.config.tableCaps.txQueueDepth K.outbound ∧
    (∀ id i, s.router.interface id = some i →
      s.outbound.toList.countP (frameFor id) ≤ i.txQueueDepth) ∧
    (∀ q ∈ s.outbound.toList, ∃ i, s.router.interface q.frame.interfaceId = some i ∧
      q.frame.packet.len ≤ i.wireMtu) ∧
    ∀ target packet reason lifetime, s.Isolates target reason
      (s.enqueueWithLifetime target packet reason lifetime) := by
  have hfresh := fresh_of_newRouter hnew
  have hempty : s₀.outbound.toList = [] := by
    obtain ⟨_, _, rfl⟩ := newRouter_eq_ok hnew
    rfl
  obtain ⟨hs, hq⟩ := hrun.invariant (I := fun s => s.Consistent ∧ s.WithinQuotas)
    (fun _ op _ h => ⟨Operation.perform_consistent h.1 op, perform_withinQuotas h.1 h.2 op⟩)
    ⟨hfresh.consistent, .of_empty hempty⟩
  refine ⟨?_, hq.interface, fun q hqueued => ?_, fun target packet reason lifetime =>
    isolates_enqueueWithLifetime s target packet reason lifetime⟩
  · rw [← Ring.length_toList]
    exact hq.total
  · obtain ⟨i, hi, _⟩ := (hs.placed.referentialIntegrity.queue q hqueued).1
    exact ⟨i, hi, hq.fits q hqueued i hi⟩

/-- A router whose host sent two frames by one interface, whose quota is one. -/
def fullRouter : LiteNode smallCapacities .router :=
  letI := Crypto.constant
  (Operation.sendLocal 1 ⟨[1], by decide⟩).perform
    ((Operation.sendLocal 1 ⟨[2], by decide⟩).perform smallRouter)

theorem router_queue_quotas_fullRouter :
    fullRouter.outbound.toList.map (·.frame.packet.bytes) = [[1]] ∧
      fullRouter.outbound.len ≤
        min fullRouter.config.tableCaps.txQueueDepth smallCapacities.outbound := by
  let _ := Crypto.constant
  have hrun : smallRouter.Reaches [.sendLocal 1 ⟨[2], by decide⟩, .sendLocal 1 ⟨[1], by decide⟩]
      fullRouter := .cons trivial (.cons trivial (.nil _))
  exact ⟨by decide +kernel, (router_queue_quotas newRouter_smallRouter hrun).1⟩

end LiteNode

end ReticulumLite
