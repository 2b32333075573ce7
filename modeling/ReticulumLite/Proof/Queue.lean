import ReticulumLite.Node.Operations

/-!
# What the queue functions do

One statement for each: expiry keeps exactly the frames that may still be sent, a refusal changes
counters only, and an accepted frame goes to the end of what the reservation left.
-/

namespace ReticulumLite

open Bounded

/-! ### Interfaces -/

namespace Router

theorem generation_congr {r r' : Router} (hregistry : r'.registry = r.registry)
    (hgenerations : r'.generations = r.generations) (id : InterfaceId) :
    r'.generation id = r.generation id := by
  simp only [generation, hregistry, hgenerations]

theorem facts_of_get {r : Router} {slot : Fin requesters} {i : InterfaceConfig}
    (h : r.registry.get slot = some i) :
    (r.facts slot).occupied = true ∧ (r.facts slot).id = i.id ∧
      (r.facts slot).clearMtu = i.clearMtu % 2 ^ 16 ∧ (r.facts slot).mode = i.mode ∧
      (r.facts slot).outbound = (i.online && i.direction.outbound) ∧
      (r.facts slot).localClient = decide (i.role = .localClient) := by
  unfold facts
  simp only [h]
  refine ⟨?_, trivial, trivial, trivial, ?_, ?_⟩
  all_goals
    simp only [InterfaceFacts.occupied, InterfaceFacts.outbound, InterfaceFacts.localClient]
    cases i.online <;> cases i.direction.outbound <;> cases i.role <;> rfl

theorem not_occupied_of_get {r : Router} {slot : Fin requesters}
    (h : r.registry.get slot = none) : (r.facts slot).occupied = false := by
  unfold facts
  simp only [h]
  decide

end Router

namespace Interfaces

variable {m : Model}

theorem slot_router (r : Router) (id : InterfaceId) :
    (Interfaces.router r).slot id = r.registry.slotOf id := by
  unfold slot InterfaceRegistry.slotOf Slots.indexOf Slots.position
  congr 1
  funext slot
  change ((r.facts slot).occupied && decide ((r.facts slot).id = id)) = _
  cases hget : r.registry.get slot with
  | none => simp [Router.not_occupied_of_get hget]
  | some i =>
      obtain ⟨hocc, hid, _⟩ := Router.facts_of_get hget
      simp [hocc, hid]

/-- An endpoint that hears an interface writes at most one place, which is from then on where that
interface is found. -/
theorem observe_endpoint (facts : List.Vector InterfaceFacts requesters) (rx : RxMeta)
    (config : LiteConfig) (clearMtu : Nat) :
    (Interfaces.endpoint facts).observe rx config clearMtu = .endpoint facts ∨
      ∃ i new, (Interfaces.endpoint facts).observe rx config clearMtu =
          .endpoint (facts.set i new) ∧
        (Interfaces.endpoint (facts.set i new)).slot rx.interfaceId = some i ∧
        new.mode = rx.interfaceMode.getD config.mode ∧
        new.localClient = ((Interfaces.endpoint facts).slot rx.interfaceId).any fun i =>
          (facts.get i).localClient := by
  cases hslot : (Interfaces.endpoint facts).slot rx.interfaceId with
  | some i =>
      cases hregistered : (facts.get i).registered with
      | true => exact .inl (by simp [observe, hslot, hregistered])
      | false =>
          refine .inr ⟨i, { facts.get i with mode := rx.interfaceMode.getD config.mode },
            by simp [observe, hslot, hregistered], ?_, rfl, rfl⟩
          rw [← hslot]
          unfold slot
          congr 1
          funext j
          simp only [Interfaces.facts, List.Vector.get_set_eq_if]
          split
          · rename_i hij
            rw [hij]
            rfl
          · rfl
  | none =>
      cases hfree : firstIndex fun slot => !(facts.get slot).occupied with
      | none => exact .inl (by simp [observe, hslot, hfree])
      | some i =>
          refine .inr ⟨i, _, by simp only [observe, hslot, hfree]; rfl, ?_, by rfl,
            by simp [InterfaceFacts.localClient]⟩
          refine firstIndex_eq_some.mpr ⟨?_, fun j hj => ?_⟩
          · simp only [Interfaces.facts, List.Vector.get_set_same]
            simp [InterfaceFacts.occupied]
          · simp only [Interfaces.facts, List.Vector.get_set_of_ne (ne_of_gt hj)]
            exact firstIndex_eq_none.mp hslot j

theorem eq_router {i : Interfaces m} {r : Router} (h : i.router? = some r) :
    ∃ hm : .router = m, i = hm ▸ .router r := by
  cases i with
  | endpoint => simp [router?] at h
  | router r' =>
      obtain rfl := Option.some.inj h
      exact ⟨rfl, rfl⟩

/-- Two interface states that differ in counters and host settings only; what an endpoint knows of
its interfaces is left open. -/
def Like : Interfaces m → Interfaces m → Prop
  | .endpoint _, .endpoint _ => True
  | .router r, .router r' => r'.registry = r.registry ∧ r'.generations = r.generations ∧
      r'.lastGeneration = r.lastGeneration ∧ r'.announceGates = r.announceGates ∧
      r'.loraModem = r.loraModem

@[simp] theorem Like.refl (i : Interfaces m) : i.Like i := by
  cases i <;> simp [Like]

theorem Like.trans {i j k : Interfaces m} (h : i.Like j) (h' : j.Like k) : i.Like k := by
  cases i <;> cases j <;> cases k
  · trivial
  · obtain ⟨h1, h2, h3, h4, h5⟩ := h
    obtain ⟨h1', h2', h3', h4', h5'⟩ := h'
    exact ⟨h1'.trans h1, h2'.trans h2, h3'.trans h3, h4'.trans h4, h5'.trans h5⟩

def counted (i : Interfaces m) (f : RouterStats → RouterStats) : Interfaces m :=
  i.mapRouter fun r => { r with stats := f r.stats }

theorem like_counted (i : Interfaces m) (f : RouterStats → RouterStats) : i.Like (i.counted f) := by
  cases i <;> simp [Like, counted, mapRouter]

theorem counted_id (i : Interfaces m) : i.counted id = i := by
  cases i <;> rfl

theorem counted_counted (i : Interfaces m) (f g : RouterStats → RouterStats) :
    (i.counted f).counted g = i.counted (g ∘ f) := by
  cases i <;> rfl

theorem Like.router {i j : Interfaces m} (h : i.Like j) {r' : Router} (hr' : j.router? = some r') :
    ∃ r, i.router? = some r ∧ r'.registry = r.registry ∧ r'.generations = r.generations ∧
      r'.lastGeneration = r.lastGeneration ∧ r'.announceGates = r.announceGates ∧
      r'.loraModem = r.loraModem := by
  cases j with
  | endpoint => simp [router?] at hr'
  | router r0 =>
      cases i with
      | router r =>
          obtain rfl := Option.some.inj hr'
          exact ⟨r, rfl, h⟩

theorem Like.online {i j : Interfaces m} (h : i.Like j) (id : InterfaceId) :
    j.online id = i.online id := by
  cases i <;> cases j
  · rfl
  · simp only [Interfaces.online, Router.online, Router.interface, h.1]

theorem Like.deliveryIsCurrent {i j : Interfaces m} (h : i.Like j) (id : InterfaceId)
    (d : Delivery m) : j.deliveryIsCurrent id d = i.deliveryIsCurrent id d := by
  cases i <;> cases j <;> cases d
  · rfl
  · simp only [Interfaces.deliveryIsCurrent, Router.generation_congr h.1 h.2.1]

end Interfaces

namespace LiteNode

variable {K : Capacities} {m : Model} {s s' : LiteNode K m}

/-! ### Counting -/

def OnlyCounts (s s' : LiteNode K m) : Prop :=
  ∃ stats f, s' = { s with stats, interfaces := s.interfaces.counted f }

theorem OnlyCounts.refl (s : LiteNode K m) : OnlyCounts s s :=
  ⟨s.stats, id, by rw [Interfaces.counted_id]⟩

theorem OnlyCounts.count (h : OnlyCounts s s') (f : TransportStats → TransportStats) :
    OnlyCounts s (s'.count f) := by
  obtain ⟨stats, g, rfl⟩ := h
  exact ⟨f stats, g, rfl⟩

theorem OnlyCounts.countRouter (h : OnlyCounts s s') (f : RouterStats → RouterStats) :
    OnlyCounts s (s'.countRouter f) := by
  obtain ⟨stats, g, rfl⟩ := h
  refine ⟨stats, f ∘ g, ?_⟩
  rw [← Interfaces.counted_counted]
  rfl

/-! ### Packets of no link -/

theorem routeLinkPacket_of_not [Crypto] {raw : List UInt8} {header : PacketHeader} {rx : RxMeta}
    {nowMs : Nat} {reason : OutboundReason}
    (h : (s.routeLinkPacket raw header rx nowMs reason).2 = .ok false) :
    s.routeLinkPacket raw header rx nowMs reason = (s, .ok false) := by
  generalize hrouted : s.routeLinkPacket raw header rx nowMs reason = routed at h ⊢
  unfold routeLinkPacket sendLinkPacket at hrouted
  simp only at hrouted
  repeat' split at hrouted
  all_goals subst hrouted
  all_goals first
    | rfl
    | cases h

/-! ### Removing frames -/

theorem filter_eraseIdx {α : Type} {p : α → Bool} {l : List α} {k : Nat}
    (h : ∀ a ∈ l[k]?, p a = false) : (l.eraseIdx k).filter p = l.filter p := by
  by_cases hk : k < l.length
  · have hp : p l[k] = false := h l[k] (by simp [hk])
    conv_rhs => rw [← List.take_append_drop k l, List.drop_eq_getElem_cons hk]
    rw [List.eraseIdx_eq_take_drop_succ, List.filter_append, List.filter_append,
      List.filter_cons_of_neg (by simp [hp])]
  · rw [List.eraseIdx_of_length_le (by omega)]

theorem countP_eraseIdx {α : Type} {p : α → Bool} {l : List α} {k : Nat} (hk : k < l.length)
    (hp : p l[k] = true) : l.countP p = (l.eraseIdx k).countP p + 1 := by
  conv_lhs => rw [← List.take_append_drop k l, List.drop_eq_getElem_cons hk]
  rw [List.eraseIdx_eq_take_drop_succ, List.countP_append, List.countP_append,
    List.countP_cons_of_pos hp]
  omega

section RemoveFrames

variable {removed : LiteNode K m → QueuedOutbound m → Bool}
  (hremoved : ∀ (s : LiteNode K m) outbound stats, removed { s with outbound, stats } = removed s)
  (f : TransportStats → TransportStats)

include hremoved

theorem removeFramesLoop_spec (rounds : Nat) (s : LiteNode K m)
    (hrounds : s.outbound.len ≤ rounds) :
    ∃ outbound, removeFramesLoop removed (fun s => s.count f) rounds s = { s with
        outbound
        stats := f^[s.outbound.toList.countP (removed s)] s.stats } ∧
      outbound.toList = s.outbound.toList.filter fun q => !removed s q := by
  induction rounds generalizing s with
  | zero =>
      have hnil : s.outbound.toList = [] := List.length_eq_zero_iff.mp (by simpa using hrounds)
      exact ⟨s.outbound, by rw [hnil]; rfl, by rw [hnil, List.filter_nil]⟩
  | succ rounds ih =>
      unfold removeFramesLoop
      cases hfind : s.outbound.toList.findIdx? (removed s) with
      | none =>
          have hall := List.findIdx?_eq_none_iff.mp hfind
          have hcount : s.outbound.toList.countP (removed s) = 0 :=
            List.countP_eq_zero.mpr fun q hq => by simp [hall q hq]
          refine ⟨s.outbound, by rw [hcount]; rfl, (List.filter_eq_self.mpr fun q hq => ?_).symm⟩
          simpa using hall q hq
      | some offset =>
          obtain ⟨hlt, hstale, _⟩ := List.findIdx?_eq_some_iff_getElem.mp hfind
          have hlen : (s.outbound.remove offset).2.len ≤ rounds := by
            rw [← Ring.length_toList, Ring.toList_remove, List.length_eraseIdx_of_lt hlt,
              Ring.length_toList]
            omega
          obtain ⟨outbound, hloop, hlist⟩ :=
            ih { s with outbound := (s.outbound.remove offset).2, stats := f s.stats } hlen
          refine ⟨outbound, ?_, ?_⟩
          · show removeFramesLoop removed _ rounds
              { s with outbound := (s.outbound.remove offset).2, stats := f s.stats } = _
            rw [hloop, hremoved, Ring.toList_remove, countP_eraseIdx hlt hstale,
              Function.iterate_succ_apply]
          · rw [hlist, hremoved, Ring.toList_remove]
            exact filter_eraseIdx (by simp [List.getElem?_eq_getElem hlt, hstale])

theorem removeFrames_spec (s : LiteNode K m) :
    ∃ outbound, s.removeFrames removed (fun s => s.count f) = { s with
        outbound
        stats := f^[s.outbound.toList.countP (removed s)] s.stats } ∧
      outbound.toList = s.outbound.toList.filter fun q => !removed s q :=
  removeFramesLoop_spec hremoved f _ s le_rfl

end RemoveFrames

theorem expireOutbound_spec (s : LiteNode K m) (nowMs : Nat) :
    ∃ outbound stats, s.expireOutbound nowMs = { s with outbound, stats } ∧
      outbound.toList = s.outbound.toList.filter fun q => !s.staleFrame nowMs q := by
  obtain ⟨outbound, heq, hlist⟩ :=
    @removeFrames_spec K m (fun s => s.staleFrame nowMs) (fun _ _ _ => rfl) _ s
  exact ⟨outbound, _, heq, hlist⟩

theorem dropServed_spec (s : LiteNode K .endpoint) :
    ∃ outbound stats, s.removeFrames (fun _ q => decide (q.delivery.outbound.pendingTargets = 0))
        countOutboundDropped = { s with outbound, stats } ∧
      outbound.toList.Sublist s.outbound.toList := by
  obtain ⟨outbound, heq, hlist⟩ := @removeFrames_spec K .endpoint
    (fun _ q => decide (q.delivery.outbound.pendingTargets = 0)) (fun _ _ _ => rfl) _ s
  exact ⟨outbound, _, heq, hlist ▸ List.filter_sublist⟩

@[simp] theorem interfaces_expireOutbound (s : LiteNode K m) (nowMs : Nat) :
    (s.expireOutbound nowMs).interfaces = s.interfaces := by
  obtain ⟨outbound, stats, heq, _⟩ := s.expireOutbound_spec nowMs
  rw [heq]

/-! ### Reserving a place -/

def frameFor (id : InterfaceId) (q : QueuedOutbound m) : Bool := decide (q.frame.interfaceId = id)

def rebroadcastFor (id : InterfaceId) (q : QueuedOutbound m) : Bool :=
  frameFor id q && q.frame.reason.gated

/-- What a reservation leaves of the queue: everything while there is room; at the quota all but the
interface's oldest rebroadcast or, failing that and unless a rebroadcast asks, its oldest frame. -/
inductive Reserves (id : InterfaceId) (depth limit : Nat) (gated : Bool)
    (queue : List (QueuedOutbound m)) : List (QueuedOutbound m) → Prop
  | room (hquota : queue.countP (frameFor id) < depth) (hlimit : queue.length < limit) :
      Reserves id depth limit gated queue queue
  | rebroadcast {k : Nat} (hquota : depth ≤ queue.countP (frameFor id))
      (hk : queue.findIdx? (rebroadcastFor id) = some k) :
      Reserves id depth limit gated queue (queue.eraseIdx k)
  | oldest {k : Nat} (hquota : depth ≤ queue.countP (frameFor id)) (hgated : gated = false)
      (hnone : queue.findIdx? (rebroadcastFor id) = none)
      (hk : queue.findIdx? (frameFor id) = some k) :
      Reserves id depth limit gated queue (queue.eraseIdx k)

theorem Reserves.sublist {id : InterfaceId} {depth limit : Nat} {gated : Bool}
    {queue kept : List (QueuedOutbound m)} (h : Reserves id depth limit gated queue kept) :
    kept.Sublist queue := by
  cases h with
  | room => exact List.Sublist.refl _
  | rebroadcast => exact List.eraseIdx_sublist _ _
  | oldest => exact List.eraseIdx_sublist _ _

theorem Reserves.length_lt {id : InterfaceId} {depth limit n : Nat} {gated : Bool}
    {queue kept : List (QueuedOutbound m)} (h : Reserves id depth limit gated queue kept)
    (hlimit : limit ≤ n) (hlen : queue.length ≤ n) : kept.length < n := by
  have herase : ∀ {p : QueuedOutbound m → Bool} {k : Nat}, queue.findIdx? p = some k →
      (queue.eraseIdx k).length < n := by
    intro p k hk
    obtain ⟨hlt, _⟩ := List.findIdx?_eq_some_iff_getElem.mp hk
    rw [List.length_eraseIdx_of_lt hlt]
    omega
  cases h with
  | room _ hroom => omega
  | rebroadcast _ hk => exact herase hk
  | oldest _ _ _ hk => exact herase hk

theorem reserveRouterQueue_endpoint (hr : s.router? = none) (id : InterfaceId)
    (reason : OutboundReason) : s.reserveRouterQueue id reason = (s, true) := by
  simp [reserveRouterQueue, hr]

theorem reserveRouterQueue_false {id : InterfaceId} {reason : OutboundReason}
    (h : s.reserveRouterQueue id reason = (s', false)) : s' = s := by
  unfold reserveRouterQueue at h
  simp only at h
  repeat' split at h
  all_goals cases h <;> rfl

theorem reserveRouterQueue_true {id : InterfaceId} {reason : OutboundReason} {r : Router}
    (hr : s.router? = some r) (h : s.reserveRouterQueue id reason = (s', true)) :
    ∃ i, r.interface id = some i ∧ i.online = true ∧ i.direction.outbound = true ∧
      ∃ outbound stats, s' = { s with outbound, stats } ∧
        Reserves id i.txQueueDepth (min s.config.tableCaps.txQueueDepth K.outbound) reason.gated
          s.outbound.toList outbound.toList := by
  unfold reserveRouterQueue at h
  simp only [hr] at h
  cases hi : r.interface id with
  | none => simp [hi] at h
  | some i =>
      simp only [hi] at h
      split at h
      · cases h
      rename_i hdirection
      simp only [Bool.or_eq_true, Bool.not_eq_true', not_or, Bool.not_eq_false] at hdirection
      refine ⟨i, rfl, hdirection.1, hdirection.2, ?_⟩
      split at h
      · rename_i hquota
        split at h
        · cases h
        rename_i k hk
        cases h
        refine ⟨(s.outbound.remove k).2, _, rfl, ?_⟩
        rw [Ring.toList_remove]
        rcases Option.or_eq_some_iff.mp hk with hk | ⟨hnone, hk⟩
        · exact .rebroadcast hquota hk
        · split at hk
          · cases hk
          · rename_i hgated
            exact .oldest hquota (by simpa using hgated) hnone hk
      · rename_i hquota
        split at h
        · cases h
        rename_i hlimit
        cases h
        refine ⟨s.outbound, s.stats, rfl, .room (not_le.mp hquota) ?_⟩
        rw [Ring.length_toList]
        exact not_le.mp hlimit

/-! ### Sending -/

section

variable {r : Router} (h : s.router? = some r)

include h

theorem outboundInterfaceOnline_of_router (id : InterfaceId) :
    s.outboundInterfaceOnline id = r.online id := by
  obtain ⟨rfl, hi⟩ := Interfaces.eq_router h
  rw [outboundInterfaceOnline, hi]
  rfl

theorem interfaceSlot_of_router (id : InterfaceId) :
    s.interfaceSlot id = r.registry.slotOf id := by
  obtain ⟨rfl, hi⟩ := Interfaces.eq_router h
  rw [interfaceSlot, hi]
  exact Interfaces.slot_router r id

theorem facts_of_router (slot : Fin requesters) :
    s.interfaces.facts slot = r.facts slot := by
  obtain ⟨rfl, hi⟩ := Interfaces.eq_router h
  rw [hi]
  rfl

theorem interfaceClearMtu_of_router {id : InterfaceId} {i : InterfaceConfig}
    (hi : r.interface id = some i) :
    s.interfaceClearMtu id = i.clearMtu % 2 ^ 16 := by
  obtain ⟨slot, hslot, hget⟩ := Slots.find_eq_some.mp hi
  have hslot' : r.registry.slotOf id = some slot := hslot
  unfold interfaceClearMtu
  simp only [interfaceSlot_of_router h, hslot', facts_of_router h]
  exact (Router.facts_of_get hget).2.2.1

theorem ifac_of_router {id : InterfaceId} {i : InterfaceConfig} (hi : r.interface id = some i)
    (config : LiteConfig) :
    s.interfaces.ifac id config = i.ifac := by
  obtain ⟨rfl, hrouter⟩ := Interfaces.eq_router h
  rw [hrouter]
  change (r.interface id).bind (·.ifac) = i.ifac
  rw [hi]
  rfl

end

/-- A frame was queued: it stands at the end of what its reservation left. -/
structure Sends (s : LiteNode K m) (frame : OutboundFrame) (s' : LiteNode K m) : Prop where
  rest : ∃ outbound stats, s' = { s with
    outbound, stats, lastDeliveryIdentity := s.lastDeliveryIdentity + 1 }
  queue : ∃ kept : List (QueuedOutbound m), kept.Sublist s.outbound.toList ∧
    (s'.outbound.toList = kept ∨ s'.outbound.toList = kept ++
      [⟨frame, s.interfaces.delivery (s.lastDeliveryIdentity + 1) frame.interfaceId⟩])
  last : 0 < K.outbound → s'.outbound.toList.getLast? =
    some ⟨frame, s.interfaces.delivery (s.lastDeliveryIdentity + 1) frame.interfaceId⟩
  router : ∀ r, s.router? = some r → ∃ i, r.interface frame.interfaceId = some i ∧
    i.online = true ∧ i.direction.outbound = true ∧ frame.packet.len ≤ i.wireMtu ∧
    ∃ kept, Reserves frame.interfaceId i.txQueueDepth
        (min s.config.tableCaps.txQueueDepth K.outbound) frame.reason.gated
        s.outbound.toList kept ∧
      s'.outbound.toList = kept ++
        [⟨frame, s.interfaces.delivery (s.lastDeliveryIdentity + 1) frame.interfaceId⟩]

theorem toList_pushDropOldest {α : Type} {n : Nat} (r : Ring α n) (value : α) :
    ∃ kept : List α, kept.Sublist r.toList ∧ ((r.pushDropOldest value).2.toList = kept ∨
      (r.pushDropOldest value).2.toList = kept ++ [value]) := by
  by_cases hlt : r.len < n
  · exact ⟨r.toList, .refl _, .inr (r.pushDropOldest_of_lt value hlt).2⟩
  · by_cases hn : n = 0
    · refine ⟨r.toList, .refl _, .inl ?_⟩
      unfold Ring.pushDropOldest
      rw [dif_pos hn]
    · have hfull : r.len = n := le_antisymm r.len_le (not_lt.mp hlt)
      exact ⟨r.toList.tail, List.tail_sublist _, .inr (r.pushDropOldest_full value hfull hn).2⟩

theorem getLast_pushDropOldest {α : Type} {n : Nat} (r : Ring α n) (value : α) (hn : 0 < n) :
    (r.pushDropOldest value).2.toList.getLast? = some value := by
  by_cases hlt : r.len < n
  · rw [(r.pushDropOldest_of_lt value hlt).2, List.getLast?_concat]
  · have hfull : r.len = n := le_antisymm r.len_le (not_lt.mp hlt)
    rw [(r.pushDropOldest_full value hfull hn.ne').2, List.getLast?_concat]

theorem pushFrame_rest (s : LiteNode K m) (frame : OutboundFrame) (identity : Nat) :
    ∃ stats, s.pushFrame frame identity = { s with
      outbound := (s.outbound.pushDropOldest
        ⟨frame, s.interfaces.delivery identity frame.interfaceId⟩).2
      lastDeliveryIdentity := identity, stats } := by
  unfold pushFrame
  simp only
  split <;> exact ⟨_, rfl⟩

section

variable [Crypto]

theorem wireFrame_len {r : Router} (hr : s.router? = some r) {id : InterfaceId}
    {i : InterfaceConfig} (hi : r.interface id = some i) {packet : PacketBuffer mtu}
    {wire : PacketBuffer wireMtuMax} (h : s.wireFrame id packet = some wire) :
    wire.len = packet.len + ifacSize i.ifac := by
  unfold wireFrame at h
  rw [ifac_of_router hr hi] at h
  cases hifac : i.ifac with
  | none =>
      simp only [hifac, toOption_eq_some] at h
      rw [PacketBuffer.len, PacketBuffer.fromSlice_eq_ok.mp h]
      rfl
  | some ifac =>
      simp only [hifac, toOption_eq_some] at h
      exact length_of_ifacSignInto h

omit [Crypto] in
/-- A frame whose reservation was granted goes to the end of the queue. On a router that never costs
another frame. -/
theorem sends_pushFrame {frame : OutboundFrame} {identity : Nat} {s₁ : LiteNode K m}
    (hidentity : checkedSucc s.lastDeliveryIdentity = some identity)
    (hreserve : s.reserveRouterQueue frame.interfaceId frame.reason = (s₁, true))
    (hlen : ∀ r i, s.router? = some r → r.interface frame.interfaceId = some i →
      frame.packet.len ≤ i.wireMtu) :
    s.Sends frame (s₁.pushFrame frame identity) := by
  obtain rfl := (checkedSucc_eq_some.mp hidentity).2
  cases hr : s.router? with
  | none =>
      rw [reserveRouterQueue_endpoint hr] at hreserve
      cases hreserve
      obtain ⟨stats, hpush⟩ := s.pushFrame_rest frame (s.lastDeliveryIdentity + 1)
      rw [hpush]
      exact ⟨⟨_, stats, rfl⟩, toList_pushDropOldest _ _, getLast_pushDropOldest _ _, by simp [hr]⟩
  | some r =>
      obtain ⟨i, hi, honline, hout, outbound, stats₁, rfl, hres⟩ :=
        reserveRouterQueue_true hr hreserve
      obtain ⟨stats, hpush⟩ := pushFrame_rest { s with outbound, stats := stats₁ } frame
        (s.lastDeliveryIdentity + 1)
      rw [hpush]
      have hroom : outbound.len < K.outbound := by
        rw [← Ring.length_toList]
        exact hres.length_lt (min_le_right _ _) s.outbound.length_toList_le
      have hlist := (outbound.pushDropOldest_of_lt
        ⟨frame, s.interfaces.delivery (s.lastDeliveryIdentity + 1) frame.interfaceId⟩ hroom).2
      refine ⟨⟨_, stats, rfl⟩, ⟨outbound.toList, hres.sublist, .inr hlist⟩,
        fun hpos => getLast_pushDropOldest _ _ hpos, fun r' hr' => ?_⟩
      obtain rfl := Option.some.inj (hr.symm.trans hr')
      exact ⟨i, hi, honline, hout, hlen r i hr hi, outbound.toList, hres, hlist⟩

section

variable (s) (source target : InterfaceId) (packet : PacketBuffer mtu) (reason : OutboundReason)
  (lifetime : OutboundLifetime)

theorem enqueueWithLifetime_spec (id : InterfaceId) (packet : PacketBuffer mtu)
    (reason : OutboundReason) (lifetime : OutboundLifetime) {s' : LiteNode K m} {queued : Bool}
    (h : s.enqueueWithLifetime id packet reason lifetime = (s', queued)) :
    (queued = false ∧ OnlyCounts s s') ∨
      (queued = true ∧ ∃ wire, s.wireFrame id packet = some wire ∧
        packet.len ≤ s.interfaceClearMtu id ∧ s.Sends ⟨id, wire, reason, lifetime⟩ s') := by
  have hself := OnlyCounts.refl s
  unfold enqueueWithLifetime at h
  simp only at h
  split at h
  · cases h
    exact .inl ⟨rfl, (hself.countRouter _).count _⟩
  split at h
  · split at h
    · cases h
      exact .inl ⟨rfl, ((hself.count _).countRouter _).count _⟩
    · cases h
      exact .inl ⟨rfl, hself.count _⟩
  rename_i hmtu
  cases hwire : s.wireFrame id packet with
  | none =>
      simp only [hwire] at h
      cases h
      exact .inl ⟨rfl, (hself.count _).count _⟩
  | some wire =>
      simp only [hwire] at h
      cases hidentity : checkedSucc s.lastDeliveryIdentity with
      | none =>
          simp only [hidentity] at h
          cases h
          exact .inl ⟨rfl, hself.count _⟩
      | some identity =>
          simp only [hidentity] at h
          split at h
          · rename_i s₁ hreserve
            obtain rfl := reserveRouterQueue_false hreserve
            split at h
            · cases h
              exact .inl ⟨rfl, (hself.count _).count _⟩
            · cases h
              exact .inl ⟨rfl, hself.count _⟩
          · rename_i s₁ hreserve
            cases h
            have hle : packet.len ≤ s.interfaceClearMtu id := not_lt.mp hmtu
            refine .inr ⟨rfl, wire, rfl, hle, sends_pushFrame hidentity hreserve ?_⟩
            intro r i hr hi
            rw [wireFrame_len hr hi hwire]
            rw [interfaceClearMtu_of_router hr hi] at hle
            exact Nat.add_le_add_right (hle.trans (Nat.mod_le _ _)) _

theorem enqueueForwardedWithLifetime_spec {s' : LiteNode K m} {queued : Bool}
    (h : s.enqueueForwardedWithLifetime source target packet reason lifetime = (s', queued)) :
    (queued = false ∧ OnlyCounts s s') ∨
      (queued = true ∧ ∃ wire, s.wireFrame target packet = some wire ∧
        packet.len ≤ s.interfaceClearMtu target ∧
        s.Sends ⟨target, wire, reason, lifetime⟩ s') := by
  have hself := OnlyCounts.refl s
  unfold enqueueForwardedWithLifetime at h
  split at h
  · exact enqueueWithLifetime_spec s target packet reason lifetime h
  split at h
  · cases h
    exact .inl ⟨rfl, hself.countRouter _⟩
  split at h
  · cases h
    exact .inl ⟨rfl, hself.countRouter _⟩
  split at h
  · cases h
    exact .inl ⟨rfl, hself.countRouter _⟩
  · exact enqueueWithLifetime_spec s target packet reason lifetime h

theorem enqueueWithLifetime_eq :
    ∃ outbound stats lastDeliveryIdentity f,
      (s.enqueueWithLifetime target packet reason lifetime).1 =
        { s with
          outbound, stats, lastDeliveryIdentity
          interfaces := s.interfaces.counted f } := by
  cases hsent : s.enqueueWithLifetime target packet reason lifetime with
  | mk s' queued =>
      rcases enqueueWithLifetime_spec s target packet reason _ hsent with
        ⟨_, stats, f, rfl⟩ | ⟨_, _, _, _, hsend⟩
      · exact ⟨_, stats, _, f, rfl⟩
      · obtain ⟨outbound, stats, rfl⟩ := hsend.rest
        exact ⟨outbound, stats, _, id, by rw [Interfaces.counted_id]⟩

theorem enqueue_eq : ∃ outbound stats lastDeliveryIdentity f,
      (s.enqueue target packet reason).1 =
        { s with
          outbound, stats, lastDeliveryIdentity
          interfaces := s.interfaces.counted f } :=
  enqueueWithLifetime_eq s target packet reason _

end

section

variable {source target : InterfaceId} {packet : PacketBuffer mtu} {reason : OutboundReason}
  {lifetime : OutboundLifetime}

theorem onlyCounts_of_refused
    (h : s.enqueueForwardedWithLifetime source target packet reason lifetime = (s', false)) :
    OnlyCounts s s' := by
  rcases enqueueForwardedWithLifetime_spec _ _ _ _ _ _ h with ⟨_, hcounts⟩ | ⟨hfalse, _⟩
  · exact hcounts
  · cases hfalse

theorem sends_of_queued
    (h : s.enqueueForwardedWithLifetime source target packet reason lifetime = (s', true)) :
    ∃ wire, s.wireFrame target packet = some wire ∧
      s.Sends ⟨target, wire, reason, lifetime⟩ s' := by
  rcases enqueueForwardedWithLifetime_spec _ _ _ _ _ _ h with
    ⟨hfalse, _⟩ | ⟨_, wire, hwire, _, hsend⟩
  · cases hfalse
  · exact ⟨wire, hwire, hsend⟩

end

end

end LiteNode

end ReticulumLite
