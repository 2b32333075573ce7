import ReticulumLite.Proof.Arrival
import ReticulumLite.Proof.Keys

/-!
# Ageing

A node ages when it counts, and when it lets go of packet hashes, links and ways back that had
expired. It then answers every question about its routes, its interfaces and its queue as before,
and a node that sends nothing on behalf of a packet in transit has only aged.
-/

namespace ReticulumLite

open Bounded

/-! ### Ageing -/

namespace ReverseTable

variable {n : Nat}

/-- Nothing was lost but what has expired, and nothing has come. The places may be others. -/
structure Ages (nowMs : Nat) (t t' : ReverseTable n) : Prop where
  last : t'.lastGeneration = t.lastGeneration
  wf : t.WF → t'.WF
  row : ∀ {g e}, t'.Row g e → t.Row g e
  live : ∀ {g e}, t.Row g e → nowMs < e.expiresMs → t'.Row g e

namespace Ages

variable {nowMs : Nat} {t t' t'' : ReverseTable n}

theorem refl (t : ReverseTable n) : Ages nowMs t t := ⟨rfl, id, id, fun h _ => h⟩

theorem trans (h : Ages nowMs t t') (h' : Ages nowMs t' t'') : Ages nowMs t t'' where
  last := h'.last.trans h.last
  wf hwf := h'.wf (h.wf hwf)
  row hrow := h.row (h'.row hrow)
  live hrow hlive := h'.live (h.live hrow hlive) hlive

theorem expire (t : ReverseTable n) (nowMs : Nat) : Ages nowMs t (ReverseTable.expire t nowMs) where
  last := rfl
  wf hwf := hwf.clearWhere _
  row hrow := (row_expire.mp hrow).1
  live hrow hlive := row_expire.mpr ⟨hrow, hlive⟩

theorem keyed (h : Ages nowMs t t') (hwf : t.WF) (hk : t.entries.Keyed ReverseEntry.proofHash) :
    t'.entries.Keyed ReverseEntry.proofHash :=
  GenTable.Shrinks.keyed ⟨h.last, h.wf, fun _ _ _ hrow => h.row hrow⟩ hwf hk

end Ages

theorem get_eq_take (t : ReverseTable n) (proofHash : Hash16) (nowMs : Nat) :
    get t proofHash nowMs = (takeWithGeneration t proofHash nowMs).2.map Prod.fst := by
  have hfind : get t proofHash nowMs =
      (ReverseTable.expire t nowMs).entries.find fun e => decide (e.proofHash = proofHash) := by
    change _ = (Slots.clearWhere _ t.entries).find _
    rw [Slots.find_clearWhere]
    unfold get
    congr 1
    funext e
    simp only [ge_iff_le, ← decide_not, not_le]
  rw [hfind]
  unfold takeWithGeneration
  cases hidx : (ReverseTable.expire t nowMs).entries.indexOf
      fun e => decide (e.proofHash = proofHash) with
  | none => simp [Slots.find, hidx]
  | some i =>
      cases hget : List.Vector.get (ReverseTable.expire t nowMs).entries i <;>
        simp [Slots.find, hidx, hget]

theorem Ages.take {nowMs : Nat} {t t' : ReverseTable n} (h : Ages nowMs t t') (hwf : t.WF)
    (hk : t.entries.Keyed ReverseEntry.proofHash) (proofHash : Hash16) :
    (takeWithGeneration t' proofHash nowMs).2 = (takeWithGeneration t proofHash nowMs).2 := by
  have hfound {t : ReverseTable n} {e : ReverseEntry} {g : Nat}
      (h : (takeWithGeneration t proofHash nowMs).2 = some (e, g)) :
      t.Row g e ∧ e.proofHash = proofHash ∧ nowMs < e.expiresMs := by
    obtain ⟨hrow, hhash, hlive, _⟩ := (takeWithGeneration_spec rfl).2 e g h
    exact ⟨hrow, hhash, hlive⟩
  cases hold : (takeWithGeneration t proofHash nowMs).2 with
  | some r =>
      obtain ⟨e, g⟩ := r
      obtain ⟨hrow, rfl, hlive⟩ := hfound hold
      obtain ⟨_, htake, _⟩ := take_of_row (h.wf hwf) (h.keyed hwf hk) (h.live hrow hlive) hlive
      rw [htake]
  | none =>
      cases hnew : (takeWithGeneration t' proofHash nowMs).2 with
      | none => rfl
      | some r =>
          obtain ⟨e, g⟩ := r
          obtain ⟨hrow, rfl, hlive⟩ := hfound hnew
          obtain ⟨_, htake, _⟩ := take_of_row hwf hk (h.row hrow) hlive
          rw [htake] at hold
          cases hold

theorem ages_restore {t t' : ReverseTable n} {proofHash : Hash16} {nowMs : Nat}
    {entry : ReverseEntry} {generation : Nat}
    (h : takeWithGeneration t proofHash nowMs = (t', some (entry, generation))) :
    Ages nowMs t (restoreConsumed t' entry generation) := by
  obtain ⟨_, hsome⟩ := takeWithGeneration_spec h
  obtain ⟨_, _, _, i, rfl, hget, hgen⟩ := hsome entry generation rfl
  cases hfree : ((ReverseTable.expire t nowMs).freeAt i).entries.free with
  | none =>
      obtain ⟨e, he⟩ := Slots.free_eq_none.mp hfree i
      simp [GenTable.freeAt] at he
  | some j =>
      have hj := Slots.get_of_free hfree
      have hrows : ∀ g e, (restoreConsumed ((ReverseTable.expire t nowMs).freeAt i) entry
          generation).Row g e ↔ (ReverseTable.expire t nowMs).Row g e := by
        intro g e
        simp only [restoreConsumed, hfree, GenTable.row_restoreAt hj, GenTable.row_freeAt]
        constructor
        · rintro (⟨rfl, rfl⟩ | ⟨k, _, hk, hgk⟩)
          · exact ⟨i, hget, hgen⟩
          · exact ⟨k, hk, hgk⟩
        · rintro ⟨k, hk, hgk⟩
          by_cases hki : k = i
          · subst hki
            rw [hget] at hk
            exact .inl ⟨hgk.symm.trans hgen, (Option.some.inj hk).symm⟩
          · exact .inr ⟨k, hki, hk, hgk⟩
      exact {
        last := by simp only [restoreConsumed, hfree]; rfl
        wf := fun hwf => (restore_take hwf h).1
        row := fun hrow => (row_expire.mp ((hrows _ _).mp hrow)).1
        live := fun hrow hlive => (hrows _ _).mpr (row_expire.mpr ⟨hrow, hlive⟩) }

end ReverseTable

namespace Interfaces

variable {m : Model} (i : Interfaces m) (f : RouterStats → RouterStats)

@[simp] theorem facts_counted (slot : Fin requesters) :
    (i.counted f).facts slot = i.facts slot := by
  cases i <;> rfl

@[simp] theorem slot_counted (id : InterfaceId) : (i.counted f).slot id = i.slot id := by
  cases i <;> rfl

@[simp] theorem ifac_counted (id : InterfaceId) (config : LiteConfig) :
    (i.counted f).ifac id config = i.ifac id config := by
  cases i <;> rfl

@[simp] theorem online_counted (id : InterfaceId) : (i.counted f).online id = i.online id := by
  cases i <;> rfl

@[simp] theorem deliveryIsCurrent_counted (id : InterfaceId) (d : Delivery m) :
    (i.counted f).deliveryIsCurrent id d = i.deliveryIsCurrent id d := by
  cases i <;> cases d <;> rfl

@[simp] theorem router?_counted :
    (i.counted f).router? = i.router?.map fun r => { r with stats := f r.stats } := by
  cases i <;> rfl

/-- An endpoint that knows an interface and its mode learns nothing from hearing it. -/
theorem observe_of_known {facts : List.Vector InterfaceFacts requesters} {rx : RxMeta}
    {config : LiteConfig} {i : Fin requesters}
    (h : (Interfaces.endpoint facts).slot rx.interfaceId = some i)
    (hmode : (facts.get i).registered = true ∨
      (facts.get i).mode = rx.interfaceMode.getD config.mode) (clearMtu : Nat) :
    (Interfaces.endpoint facts).observe rx config clearMtu = .endpoint facts := by
  simp only [observe, h]
  split
  · rfl
  · rename_i hregistered
    rw [← hmode.resolve_left hregistered]
    congr 1
    apply List.Vector.ext
    intro j
    rw [List.Vector.get_set_eq_if]
    split
    · rename_i hij
      rw [hij]
    · rfl

theorem observe_observe (rx : RxMeta) (config : LiteConfig) (clearMtu : Nat) :
    (i.observe rx config clearMtu).observe rx config clearMtu = i.observe rx config clearMtu := by
  cases i with
  | router r => rfl
  | endpoint facts =>
      rcases observe_endpoint facts rx config clearMtu with hself | ⟨i, new, hset, hslot, hmode, _⟩
      · rw [hself, hself]
      · rw [hset]
        exact observe_of_known hslot (.inr (by rw [List.Vector.get_set_same, hmode])) clearMtu

theorem observe_counted (rx : RxMeta) (config : LiteConfig) (clearMtu : Nat) :
    (i.counted f).observe rx config clearMtu = (i.observe rx config clearMtu).counted f := by
  cases i with
  | router r => rfl
  | endpoint facts =>
      simp only [counted, mapRouter, observe]
      repeat' split
      all_goals simp_all

theorem exists_counted (g : RouterStats → RouterStats) :
    ∃ f', (i.counted f).counted f' = i.counted g := by
  cases i with
  | endpoint facts => exact ⟨id, rfl⟩
  | router r => exact ⟨fun _ => g r.stats, rfl⟩

end Interfaces

namespace LiteNode

variable {K : Capacities} {m : Model} {nowMs : Nat} {s t u : LiteNode K m}

/-- The nodes differ in counters, packet hashes, links and ways back only. -/
def Alike (s t : LiteNode K m) : Prop :=
  ∃ stats f packetHashes links reverse, t = { s with
    stats, interfaces := s.interfaces.counted f, packetHashes, links, reverse }

/-- The node has counted, and has let go of packet hashes, links and ways back that had expired. -/
structure Aged (nowMs : Nat) (s t : LiteNode K m) : Prop where
  rest : s.Alike t
  packetHashes : t.packetHashes = s.packetHashes ∨ t.packetHashes = s.packetHashes.expire nowMs
  links : t.links = s.links ∨ t.links = s.links.expire nowMs
  reverse : ReverseTable.Ages nowMs s.reverse t.reverse

namespace Aged

theorem of_onlyCounts (h : OnlyCounts s t) : Aged nowMs s t := by
  obtain ⟨stats, f, rfl⟩ := h
  exact ⟨⟨stats, f, _, _, _, rfl⟩, .inl rfl, .inl rfl, .refl _⟩

theorem refl (s : LiteNode K m) : Aged nowMs s s := of_onlyCounts (.refl s)

theorem trans (h : Aged nowMs s t) (h' : Aged nowMs t u) : Aged nowMs s u where
  rest := by
    obtain ⟨_, f, _, _, _, rfl⟩ := h.rest
    obtain ⟨stats, g, packetHashes, links, reverse, rfl⟩ := h'.rest
    exact ⟨stats, g ∘ f, packetHashes, links, reverse, by rw [← Interfaces.counted_counted]⟩
  packetHashes := by
    rcases h.packetHashes with h1 | h1 <;> rcases h'.packetHashes with h2 | h2 <;> rw [h2, h1]
    · exact .inl rfl
    · exact .inr rfl
    · exact .inr rfl
    · exact .inr (Slots.clearWhere_clearWhere _ _)
  links := by
    rcases h.links with h1 | h1 <;> rcases h'.links with h2 | h2 <;> rw [h2, h1]
    · exact .inl rfl
    · exact .inr rfl
    · exact .inr rfl
    · exact .inr (by
        simp only [LinkTable.expire, GenTable.clearWhere, Slots.clearWhere_clearWhere])
  reverse := h.reverse.trans h'.reverse

section

variable (s)

theorem count (f : TransportStats → TransportStats) : Aged nowMs s (s.count f) :=
  of_onlyCounts ((OnlyCounts.refl s).count f)

theorem countDuplicate : Aged nowMs s s.countDuplicate := count s _

theorem countDropped : Aged nowMs s s.countDropped := count s _

theorem expireHashes (nowMs : Nat) :
    Aged nowMs s { s with packetHashes := s.packetHashes.expire nowMs } :=
  { refl s with
    rest := ⟨s.stats, id, _, _, _, by rw [Interfaces.counted_id]⟩
    packetHashes := .inr rfl }

theorem expireLinks (nowMs : Nat) : Aged nowMs s { s with links := s.links.expire nowMs } :=
  { refl s with
    rest := ⟨s.stats, id, _, _, _, by rw [Interfaces.counted_id]⟩
    links := .inr rfl }

end

theorem of_reverse {reverse : ReverseTable K.reverse}
    (h : ReverseTable.Ages nowMs s.reverse reverse) : Aged nowMs s { s with reverse } :=
  { refl s with
    rest := ⟨s.stats, id, _, _, _, by rw [Interfaces.counted_id]⟩
    reverse := h }

end Aged

/-! ### What does not depend on them -/

namespace Alike

variable (h : s.Alike t)
include h

theorem config : t.config = s.config := by
  obtain ⟨_, _, _, _, _, rfl⟩ := h
  rfl

theorem transportId : t.transportId = s.transportId := by
  obtain ⟨_, _, _, _, _, rfl⟩ := h
  rfl

theorem localSlots : t.localSlots = s.localSlots := by
  obtain ⟨_, _, _, _, _, rfl⟩ := h
  rfl

theorem paths : t.paths = s.paths := by
  obtain ⟨_, _, _, _, _, rfl⟩ := h
  rfl

theorem discoveries : t.discoveries = s.discoveries := by
  obtain ⟨_, _, _, _, _, rfl⟩ := h
  rfl

theorem lastDeliveryIdentity : t.lastDeliveryIdentity = s.lastDeliveryIdentity := by
  obtain ⟨_, _, _, _, _, rfl⟩ := h
  rfl

section

variable (id : InterfaceId)

theorem interfaceSlot : t.interfaceSlot id = s.interfaceSlot id := by
  obtain ⟨_, _, _, _, _, rfl⟩ := h
  simp [LiteNode.interfaceSlot]

theorem interfaceClearMtu : t.interfaceClearMtu id = s.interfaceClearMtu id := by
  obtain ⟨_, _, _, _, _, rfl⟩ := h
  simp [LiteNode.interfaceClearMtu, LiteNode.interfaceSlot, defaultClearMtu]

theorem requireLinkCapacity : t.requireLinkCapacity id = s.requireLinkCapacity id := by
  rw [LiteNode.requireLinkCapacity, LiteNode.requireLinkCapacity, h.interfaceSlot,
    h.interfaceClearMtu]

theorem linkCapable : t.linkCapable id = s.linkCapable id := by
  rw [LiteNode.linkCapable, LiteNode.linkCapable, h.requireLinkCapacity]

theorem isLocalClientInterface : t.isLocalClientInterface id = s.isLocalClientInterface id := by
  obtain ⟨_, _, _, _, _, rfl⟩ := h
  simp [LiteNode.isLocalClientInterface, LiteNode.interfaceSlot]

theorem outboundInterfaceOnline : t.outboundInterfaceOnline id = s.outboundInterfaceOnline id := by
  obtain ⟨_, _, _, _, _, rfl⟩ := h
  simp [LiteNode.outboundInterfaceOnline]

theorem router : ∃ f : RouterStats → RouterStats,
    t.router? = s.router?.map fun r => { r with stats := f r.stats } := by
  obtain ⟨_, f, _, _, _, rfl⟩ := h
  exact ⟨f, Interfaces.router?_counted _ f⟩

theorem reserveRouterQueue (reason : OutboundReason) :
    (t.reserveRouterQueue id reason).2 = (s.reserveRouterQueue id reason).2 := by
  obtain ⟨f, hrouter⟩ := h.router
  obtain ⟨_, _, _, _, _, rfl⟩ := h
  cases hr : s.router? with
  | none =>
      rw [hr, Option.map_none] at hrouter
      rw [reserveRouterQueue_endpoint hrouter, reserveRouterQueue_endpoint hr]
  | some r =>
      rw [hr, Option.map_some] at hrouter
      have hi : Router.interface { r with stats := f r.stats } id = r.interface id := rfl
      simp only [LiteNode.reserveRouterQueue, hrouter, hr, hi]
      cases r.interface id with
      | none => rfl
      | some i =>
          simp only
          repeat' split
          all_goals rfl

end

variable [Crypto]

theorem wireFrame (id : InterfaceId) (packet : PacketBuffer mtu) :
    t.wireFrame id packet = s.wireFrame id packet := by
  obtain ⟨_, _, _, _, _, rfl⟩ := h
  simp only [LiteNode.wireFrame, Interfaces.ifac_counted]

/-- Whether a frame is queued depends neither on counters nor on the lifetime it would get. -/
theorem enqueueWithLifetime (id : InterfaceId) (packet : PacketBuffer mtu)
    (reason : OutboundReason) (lifetime lifetime' : OutboundLifetime) :
    (t.enqueueWithLifetime id packet reason lifetime').2 =
      (s.enqueueWithLifetime id packet reason lifetime).2 := by
  have hrouter : t.router?.isSome = s.router?.isSome := by
    obtain ⟨f, hrouter⟩ := h.router
    rw [hrouter, Option.isSome_map]
  have hidentity : t.lastDeliveryIdentity = s.lastDeliveryIdentity := by
    obtain ⟨_, _, _, _, _, rfl⟩ := h
    rfl
  have hreserve := h.reserveRouterQueue id reason
  unfold LiteNode.enqueueWithLifetime
  simp only [hrouter, h.outboundInterfaceOnline, h.interfaceClearMtu, h.wireFrame, hidentity]
  by_cases honline : s.router?.isSome = true ∧ s.outboundInterfaceOnline id = false
  · simp only [if_pos honline]
  simp only [if_neg honline]
  by_cases hmtu : packet.len > s.interfaceClearMtu id
  · simp only [if_pos hmtu]
    repeat' split
    all_goals rfl
  simp only [if_neg hmtu]
  cases s.wireFrame id packet with
  | none => rfl
  | some wire =>
      cases checkedSucc s.lastDeliveryIdentity with
      | none => rfl
      | some identity =>
          generalize t.reserveRouterQueue id reason = reserved at hreserve ⊢
          generalize s.reserveRouterQueue id reason = reserved' at hreserve ⊢
          obtain ⟨t₁, queued⟩ := reserved
          obtain ⟨s₁, queued'⟩ := reserved'
          obtain rfl : queued = queued' := hreserve
          cases queued with
          | false =>
              simp only
              split <;> rfl
          | true => rfl

theorem enqueueForwardedWithLifetime (source target : InterfaceId) (packet : PacketBuffer mtu)
    (reason : OutboundReason) (lifetime lifetime' : OutboundLifetime) :
    (t.enqueueForwardedWithLifetime source target packet reason lifetime').2 =
      (s.enqueueForwardedWithLifetime source target packet reason lifetime).2 := by
  obtain ⟨f, hrouter⟩ := h.router
  have hqueue := h.enqueueWithLifetime target packet reason lifetime lifetime'
  unfold LiteNode.enqueueForwardedWithLifetime
  cases hr : s.router? with
  | none =>
      rw [hr, Option.map_none] at hrouter
      simpa only [hrouter] using hqueue
  | some r =>
      rw [hr, Option.map_some] at hrouter
      have hi : Router.interface { r with stats := f r.stats } target = r.interface target := rfl
      simp only [hrouter, hi]
      cases r.interface target with
      | none => rfl
      | some i =>
          simp only
          by_cases hreflect : source = target ∧ i.direction.repeating = false
          · simp only [if_pos hreflect]
          simp only [if_neg hreflect]
          by_cases hforward : source ≠ target ∧ i.direction.forward = false
          · simp only [if_pos hforward]
          simpa only [if_neg hforward] using hqueue

theorem refused {source target : InterfaceId} {packet : PacketBuffer mtu} {reason : OutboundReason}
    {lifetime lifetime' : OutboundLifetime} {s₁ t₁ : LiteNode K m} {queued : Bool}
    (hsent : s.enqueueForwardedWithLifetime source target packet reason lifetime = (s₁, false))
    (hsent' : t.enqueueForwardedWithLifetime source target packet reason lifetime' = (t₁, queued)) :
    queued = false ∧ OnlyCounts t t₁ := by
  have hqueued := h.enqueueForwardedWithLifetime source target packet reason lifetime lifetime'
  rw [hsent, hsent'] at hqueued
  obtain rfl : queued = false := hqueued
  exact ⟨rfl, onlyCounts_of_refused hsent'⟩

end Alike

/-! ### An aged node answers as before -/

namespace Aged

variable (h : Aged nowMs s t)
include h

theorem links_get (linkId : Hash16) : t.links.get linkId nowMs = s.links.get linkId nowMs := by
  rcases h.links with hlinks | hlinks <;> rw [hlinks]
  exact LinkTable.get_expire _ _ _

theorem links_containsLive (linkId : Hash16) :
    t.links.containsLive linkId nowMs = s.links.containsLive linkId nowMs := by
  rw [LinkTable.containsLive, LinkTable.containsLive, h.links_get]

theorem links_hasFreeSlot : (t.links.hasFreeSlot nowMs).2 = (s.links.hasFreeSlot nowMs).2 := by
  rcases h.links with hlinks | hlinks <;> rw [hlinks]
  rw [LinkTable.hasFreeSlot_expire]

theorem links_nextGeneration : t.links.nextGeneration = s.links.nextGeneration := by
  rcases h.links with hlinks | hlinks <;> rw [hlinks]
  rfl

theorem packetHashes_contains (hash : Hash32) :
    (t.packetHashes.contains hash nowMs).2 = (s.packetHashes.contains hash nowMs).2 := by
  rcases h.packetHashes with hhashes | hhashes <;> rw [hhashes]
  simp only [PacketHashTable.contains, PacketHashTable.expire, Slots.clearWhere_clearWhere]

theorem rewriteForwarded (raw : List UInt8) (originalHeader header : PacketHeader) (now : Nat) :
    t.rewriteForwardedTransportPacket raw originalHeader header now =
      s.rewriteForwardedTransportPacket raw originalHeader header now := by
  obtain ⟨_, _, _, _, _, rfl⟩ := h.rest
  rfl

theorem expireLinks_congr : Aged nowMs { s with links := s.links.expire nowMs }
    { t with links := t.links.expire nowMs } := by
  have hlinks : t.links.expire nowMs = s.links.expire nowMs := by
    rcases h.links with hlinks | hlinks <;> rw [hlinks]
    simp only [LinkTable.expire, GenTable.clearWhere, Slots.clearWhere_clearWhere]
  obtain ⟨stats, f, packetHashes, _, reverse, rfl⟩ := h.rest
  exact ⟨⟨stats, f, packetHashes, _, reverse, rfl⟩, h.packetHashes, .inl hlinks, h.reverse⟩

theorem expireHashes_congr : Aged nowMs { s with packetHashes := s.packetHashes.expire nowMs }
    { t with packetHashes := t.packetHashes.expire nowMs } := by
  have hhashes : t.packetHashes.expire nowMs = s.packetHashes.expire nowMs := by
    rcases h.packetHashes with hhashes | hhashes <;> rw [hhashes]
    exact Slots.clearWhere_clearWhere _ _
  obtain ⟨stats, f, _, links, reverse, rfl⟩ := h.rest
  exact ⟨⟨stats, f, _, links, reverse, rfl⟩, .inl hhashes, h.links, h.reverse⟩

end Aged

end LiteNode

end ReticulumLite
