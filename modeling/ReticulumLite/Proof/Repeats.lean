import ReticulumLite.Proof.Ageing

/-!
# A packet that is not sent ages the node

Every handler of packets in transit queues first and records afterwards. If it queues nothing, the
node has only aged; and a node that had aged before is told the same by it.
-/

namespace ReticulumLite

open Bounded

namespace LiteNode

variable {K : Capacities} {m : Model} {nowMs : Nat} {s t u : LiteNode K m}

/-! ### Handlers -/

/-- One way back for each packet, and each under a number of its own. -/
def Tidy (s : LiteNode K m) : Prop :=
  s.reverse.WF ∧ s.reverse.entries.Keyed ReverseEntry.proofHash

section Rules

variable {α : Type} {s' : LiteNode K m} {x x' y y' : LiteNode K m × α} {r : α}

/-- If nothing is queued, the node has only aged, and the same happens to a node that has aged
before. -/
def Repeats (nowMs : Nat) (s : LiteNode K m) (f : LiteNode K m → LiteNode K m × α) : Prop :=
  (f s).1.lastDeliveryIdentity = s.lastDeliveryIdentity → ∀ t, Aged nowMs s t → t = s ∨ s.Tidy →
    (f t).2 = (f s).2 ∧ Aged nowMs t (f t).1

/-- If the first run queued nothing, the second one is told the same and has only aged. -/
def Repeated (nowMs : Nat) (s t : LiteNode K m) (x y : LiteNode K m × α) : Prop :=
  x.1.lastDeliveryIdentity = s.lastDeliveryIdentity → y.2 = x.2 ∧ Aged nowMs t y.1

variable {f : LiteNode K m → LiteNode K m × α}

theorem Repeats.intro (h : ∀ t, Aged nowMs s t → t = s ∨ s.Tidy → Repeated nowMs s t (f s) (f t)) :
    Repeats nowMs s f := fun hunsent t haged htidy => h t haged htidy hunsent

theorem Repeats.to (h : Repeats nowMs s f) (haged : Aged nowMs s t) (htidy : t = s ∨ s.Tidy) :
    Repeated nowMs s t (f s) (f t) :=
  fun hunsent => h hunsent t haged htidy

namespace Repeated

theorem of_aged (h : Aged nowMs t u) : Repeated nowMs s t (s', r) (u, r) := fun _ => ⟨rfl, h⟩

theorem stay : Repeated nowMs s t (s', r) (t, r) := of_aged (.refl t)

theorem ite_of {p q : Prop} [Decidable p] [Decidable q] (hq : q ↔ p)
    (hpos : Repeated nowMs s t x y) (hneg : Repeated nowMs s t x' y') :
    Repeated nowMs s t (if p then x else x') (if q then y else y') := by
  by_cases hp : p
  · rwa [if_pos hp, if_pos (hq.mpr hp)]
  · rwa [if_neg hp, if_neg fun h => hp (hq.mp h)]

theorem ite {p : Prop} [Decidable p] (hpos : Repeated nowMs s t x y)
    (hneg : Repeated nowMs s t x' y') :
    Repeated nowMs s t (if p then x else x') (if p then y else y') := ite_of .rfl hpos hneg

theorem after (haged : Aged nowMs t u) (hlast : s'.lastDeliveryIdentity = s.lastDeliveryIdentity)
    (h : Repeated nowMs s' u x y) : Repeated nowMs s t x y := by
  intro hunsent
  obtain ⟨htold, htail⟩ := h (hunsent.trans hlast.symm)
  exact ⟨htold, haged.trans htail⟩

end Repeated

end Rules

section Handlers

variable [Crypto]

variable {target : InterfaceId} {reason : OutboundReason}

theorem lastDeliveryIdentity_of_queued {source : InterfaceId} {packet : PacketBuffer mtu}
    {lifetime : OutboundLifetime}
    (hsent : s.enqueueForwardedWithLifetime source target packet reason lifetime = (t, true)) :
    t.lastDeliveryIdentity = s.lastDeliveryIdentity + 1 := by
  obtain ⟨_, _, hsend⟩ := sends_of_queued hsent
  obtain ⟨_, _, rfl⟩ := hsend.rest
  rfl

/-- Had the first run been able to queue the packet, its node would have moved on. -/
theorem Repeated.send {α : Type} {r : α} {source : InterfaceId} {packet : PacketBuffer mtu}
    {lifetime lifetime' : OutboundLifetime} {f g : LiteNode K m → LiteNode K m × α}
    (h : Aged nowMs s t) (hf : ∀ u, (f u).1.lastDeliveryIdentity = u.lastDeliveryIdentity) :
    Repeated nowMs s t
      (match s.enqueueForwardedWithLifetime source target packet reason lifetime with
        | (s, false) => (s, r)
        | (s, true) => f s)
      (match t.enqueueForwardedWithLifetime source target packet reason lifetime' with
        | (t, false) => (t, r)
        | (t, true) => g t) := by
  intro hunsent
  generalize hsent : s.enqueueForwardedWithLifetime _ _ _ _ _ = sent at hunsent ⊢
  generalize hsent' : t.enqueueForwardedWithLifetime _ _ _ _ _ = sent'
  obtain ⟨s₁, queued⟩ := sent
  obtain ⟨t₁, queued'⟩ := sent'
  cases queued with
  | true =>
      have hlast := lastDeliveryIdentity_of_queued hsent
      exact absurd (hlast.symm.trans ((hf s₁).symm.trans hunsent)) (Nat.succ_ne_self _)
  | false =>
      obtain ⟨rfl, hcounts⟩ := h.rest.refused hsent hsent'
      exact ⟨rfl, .of_onlyCounts hcounts⟩

variable {raw : List UInt8} {originalHeader header : PacketHeader} {rx : RxMeta}

theorem repeats_handleTransportForward :
    Repeats nowMs s fun s => s.handleTransportForward raw originalHeader header rx nowMs := by
  refine .intro fun t h _ => ?_
  have hgeneration : t.reverse.nextGeneration = s.reverse.nextGeneration := by
    rw [GenTable.nextGeneration, GenTable.nextGeneration, h.reverse.last]
  simp only [handleTransportForward, h.rest.config, h.rest.transportId, h.rewriteForwarded,
    hgeneration]
  refine .ite .stay (.ite .stay ?_)
  cases s.rewriteForwardedTransportPacket raw originalHeader header nowMs with
  | error e => exact .stay
  | ok rewritten =>
  cases rewritten with
  | none => exact .stay
  | some forwarded =>
  cases s.reverse.nextGeneration with
  | none => exact .stay
  | some generation => exact .send h fun _ => rfl

theorem repeated_openLink {forwarded : PacketBuffer mtu} {entry entry' : LinkEntry}
    (h : Aged nowMs s t) :
    Repeated nowMs s t (s.openLink header rx target forwarded entry nowMs)
      (t.openLink header rx target forwarded entry' nowMs) := by
  simp only [openLink, h.links_nextGeneration]
  cases s.links.nextGeneration with
  | none => exact .stay
  | some generation => exact .send h fun _ => rfl

theorem repeated_relayLinkRequest (h : Aged nowMs s t) :
    Repeated nowMs s t (s.relayLinkRequest raw originalHeader header rx nowMs)
      (t.relayLinkRequest raw originalHeader header rx nowMs) := by
  have hadmit (target : InterfaceId) (forwarded : PacketBuffer mtu) :
      t.admitLinkRequest raw originalHeader rx target forwarded =
        s.admitLinkRequest raw originalHeader rx target forwarded := by
    simp only [admitLinkRequest, h.rest.requireLinkCapacity]
  simp only [relayLinkRequest, h.rewriteForwarded, hadmit, h.rest.paths]
  cases s.rewriteForwardedTransportPacket raw originalHeader header nowMs with
  | error e => exact .stay
  | ok rewritten =>
  cases rewritten with
  | none => exact .stay
  | some forwarded =>
  cases hrequest : s.admitLinkRequest raw originalHeader rx forwarded.1 forwarded.2 with
  | error e => simpa only [hrequest] using .stay
  | ok request =>
  simp only [hrequest]
  cases s.paths.getLive header.destinationHash nowMs with
  | none => exact .stay
  | some path => exact repeated_openLink h

theorem repeats_handleLinkRequest :
    Repeats nowMs s fun s => s.handleLinkRequest raw originalHeader header rx nowMs := by
  refine .intro fun t h _ => ?_
  have haged : Aged nowMs t { t with links := t.links.expire nowMs } := .expireLinks t nowMs
  simp only [handleLinkRequest, h.links_containsLive, h.links_hasFreeSlot]
  refine .ite_of (by rw [h.rest.config]) .stay (.ite_of (by rw [h.rest.transportId]) .stay ?_)
  refine .ite .stay (.ite (.of_aged haged) ?_)
  -- both nodes have let their expired links go
  exact .after haged rfl (repeated_relayLinkRequest h.expireLinks_congr)

variable {link : LinkEntry}

theorem repeated_sendLinkPacket {trackedHash : Option Hash32} (h : Aged nowMs s t) :
    Repeated nowMs s t (s.sendLinkPacket raw header rx link target trackedHash reason nowMs)
      (t.sendLinkPacket raw header rx link target trackedHash reason nowMs) := by
  simp only [sendLinkPacket, enqueueForwarded]
  cases (PacketBuffer.fromSlice raw : Except BufferError (PacketBuffer mtu)) with
  | error e => exact .stay
  | ok buffer =>
      refine .send h fun u => ?_
      cases trackedHash <;> cases hvalidated : link.validated <;> rfl

theorem repeats_routeLinkPacket :
    Repeats nowMs s fun s => s.routeLinkPacket raw header rx nowMs reason := by
  refine .intro fun t h _ => ?_
  have haged : Aged nowMs t { t with packetHashes := t.packetHashes.expire nowMs } :=
    .expireHashes t nowMs
  have hcontains := h.packetHashes_contains (packetHash raw header.flags.headerType)
  simp only [routeLinkPacket, h.links_get, h.rest.linkCapable, hcontains]
  refine .ite_of (by rw [h.rest.config]) .stay ?_
  cases s.links.get header.destinationHash nowMs with
  | none => exact .stay
  | some link =>
  refine .ite .stay ?_
  cases linkRoute link header.hops rx.interfaceId with
  | notOnLink => exact .stay
  | refused => exact .stay
  | target target =>
      refine .ite (repeated_sendLinkPacket h) ?_
      refine .ite (.of_aged (haged.trans (.countDuplicate _))) ?_
      exact .after haged rfl (repeated_sendLinkPacket h.expireHashes_congr)

theorem repeated_returnLrproof (h : Aged nowMs s t) :
    Repeated nowMs s t (s.returnLrproof raw header rx link nowMs)
      (t.returnLrproof raw header rx link nowMs) := by
  simp only [returnLrproof, enqueueForwarded]
  cases (PacketBuffer.fromSlice raw : Except BufferError (PacketBuffer mtu)) with
  | error e => exact .stay
  | ok buffer => exact .send h fun _ => rfl

theorem repeated_handleLrproof (h : Aged nowMs s t) :
    Repeated nowMs s t (s.handleLrproof raw header rx link nowMs)
      (t.handleLrproof raw header rx link nowMs) := by
  have hvalid : t.validateTransitLrproof raw header link =
      s.validateTransitLrproof raw header link := by
    simp only [validateTransitLrproof, h.rest.linkCapable]
  have haged : Aged nowMs t { t with packetHashes := t.packetHashes.expire nowMs } :=
    .expireHashes t nowMs
  simp only [handleLrproof, hvalid, h.packetHashes_contains]
  refine .ite .stay (.ite (.of_aged (haged.trans (.countDuplicate _))) ?_)
  exact .after haged rfl (repeated_returnLrproof h.expireHashes_congr)

variable {view : PacketView}

/-- Returning a proof takes its way back first, and puts it back if the proof is refused. -/
theorem repeats_returnProof (hview : PacketView.parse raw = .ok view) :
    Repeats nowMs s fun s => s.returnProof raw header rx nowMs := by
  intro hunsent t h htidy
  obtain ⟨buffer, hbuffer, _⟩ := fromSlice_of_parse hview
  have htake : (t.reverse.takeWithGeneration header.destinationHash nowMs).2 =
      (s.reverse.takeWithGeneration header.destinationHash nowMs).2 := by
    rcases htidy with rfl | ⟨hwf, hk⟩
    · rfl
    · exact h.reverse.take hwf hk _
  simp only [returnProof, hbuffer] at hunsent ⊢
  generalize hs : s.reverse.takeWithGeneration header.destinationHash nowMs = taken at htake hunsent ⊢
  generalize ht : t.reverse.takeWithGeneration header.destinationHash nowMs = taken' at htake ⊢
  obtain ⟨table, found⟩ := taken
  obtain ⟨table', found'⟩ := taken'
  obtain rfl : found' = found := htake
  cases found' with
  | none =>
      have hreverse : table' = t.reverse.expire nowMs := by
        unfold ReverseTable.takeWithGeneration at ht
        simp only at ht
        split at ht
        · cases ht
          rfl
        · rename_i i hi
          obtain ⟨⟨e, he, _⟩, _⟩ := Slots.indexOf_eq_some.mp hi
          simp [he] at ht
      refine ⟨rfl, ?_⟩
      rw [hreverse]
      exact .of_reverse (.expire _ _)
  | some found =>
      obtain ⟨entry, generation⟩ := found
      have halike : Alike { s with reverse := table } { t with reverse := table' } := by
        obtain ⟨stats, f, packetHashes, links, _, rfl⟩ := h.rest
        exact ⟨stats, f, packetHashes, links, table', rfl⟩
      simp only at hunsent ⊢
      generalize hsent : LiteNode.enqueueForwardedWithLifetime { s with reverse := table } _ _ _ _ _ =
        sent at hunsent ⊢
      generalize hsent' : LiteNode.enqueueForwardedWithLifetime { t with reverse := table' } _ _ _ _ _ =
        sent'
      obtain ⟨s₁, queued⟩ := sent
      obtain ⟨t₁, queued'⟩ := sent'
      cases queued with
      | true =>
          have hlast := lastDeliveryIdentity_of_queued hsent
          exact absurd (hlast.symm.trans hunsent) (Nat.succ_ne_self _)
      | false =>
          obtain ⟨rfl, hcounts⟩ := halike.refused hsent hsent'
          obtain ⟨stats, f, rfl⟩ := hcounts
          exact ⟨rfl, ⟨stats, f, _, _, _, rfl⟩, .inl rfl, .inl rfl, ReverseTable.ages_restore ht⟩

def unlessOnLink (s : LiteNode K m) (raw : List UInt8) (header : PacketHeader) (rx : RxMeta)
    (nowMs : Nat) (reason : OutboundReason) (sent : IngestAction)
    (otherwise : LiteNode K m → Handled K m) : Handled K m :=
  match s.routeLinkPacket raw header rx nowMs reason with
  | (s, .error e) => (s, .error e)
  | (s, .ok true) => (s, .ok sent)
  | (s, .ok false) => otherwise s

theorem repeats_unlessOnLink {sent : IngestAction} (otherwise : LiteNode K m → Handled K m)
    (hother : Repeats nowMs s otherwise) :
    Repeats nowMs s fun s => s.unlessOnLink raw header rx nowMs reason sent otherwise := by
  intro hunsent t h htidy
  simp only [unlessOnLink] at hunsent ⊢
  -- a link leaves a packet that is not its own, and the node, as they are
  have hself {u u₁ : LiteNode K m}
      (hrouted : u.routeLinkPacket raw header rx nowMs reason = (u₁, .ok false)) : u₁ = u :=
    congrArg Prod.fst (hrouted.symm.trans (routeLinkPacket_of_not (congrArg Prod.snd hrouted)))
  have hrepeat := @repeats_routeLinkPacket K m nowMs s _ reason raw header rx
  cases hrouted : s.routeLinkPacket raw header rx nowMs reason with
  | mk s₁ routed =>
  cases hrouted' : t.routeLinkPacket raw header rx nowMs reason with
  | mk t₁ routed' =>
  have hunrouted : s₁.lastDeliveryIdentity = s.lastDeliveryIdentity := by
    match routed with
    | .error e => simpa only [hrouted] using hunsent
    | .ok true => simpa only [hrouted] using hunsent
    | .ok false => rw [hself hrouted]
  have hrepeated := hrepeat (by simpa only [hrouted] using hunrouted) t h htidy
  simp only [hrouted, hrouted'] at hrepeated hunsent
  obtain ⟨rfl, haged⟩ := hrepeated
  match routed' with
  | .error e => exact ⟨rfl, haged⟩
  | .ok true => exact ⟨rfl, haged⟩
  | .ok false =>
      obtain rfl := hself hrouted
      obtain rfl := hself hrouted'
      exact hother hunsent _ h htidy

theorem repeats_handleProof (hview : PacketView.parse raw = .ok view) :
    Repeats nowMs s fun s => s.handleProof raw header rx nowMs := by
  -- a proof of no link goes back if there is a way
  have hother : Repeats nowMs s fun s =>
      if (s.reverse.get header.destinationHash nowMs).any fun reverse =>
          reverse.outboundInterface = rx.interfaceId then s.returnProof raw header rx nowMs
      else (s, .ok .dropped) := by
    refine .intro fun t h htidy => ?_
    have hget : t.reverse.get header.destinationHash nowMs =
        s.reverse.get header.destinationHash nowMs := by
      rcases htidy with rfl | ⟨hwf, hk⟩
      · rfl
      · rw [ReverseTable.get_eq_take, ReverseTable.get_eq_take, h.reverse.take hwf hk]
    simp only [hget]
    exact .ite ((repeats_returnProof hview).to h htidy) .stay
  refine .intro fun t h htidy => ?_
  simp only [handleProof, h.links_get]
  refine .ite ?_ ((repeats_unlessOnLink _ hother).to h htidy)
  cases (s.links.get header.destinationHash nowMs).filter fun link =>
      decide (link.outboundInterface = rx.interfaceId) &&
        decide (link.remainingHops = header.hops) with
  | none => exact .of_aged (.countDropped t)
  | some link => exact repeated_handleLrproof h

omit [Crypto] in
theorem Aged.congr_counts {s₁ t₁ : LiteNode K m} (h : Aged nowMs s t) (hs : OnlyCounts s s₁)
    (ht : OnlyCounts t t₁) : Aged nowMs s₁ t₁ := by
  obtain ⟨stats, f, packetHashes, links, reverse, rfl⟩ := h.rest
  obtain ⟨_, fs, rfl⟩ := hs
  obtain ⟨stats', ft, rfl⟩ := ht
  obtain ⟨g, hg⟩ := s.interfaces.exists_counted fs (ft ∘ f)
  refine ⟨⟨stats', g, packetHashes, links, reverse, ?_⟩, h.packetHashes, h.links, h.reverse⟩
  simp only [hg, Interfaces.counted_counted]

section Broadcast

variable {source : InterfaceId} {packet : PacketBuffer mtu} {reason : OutboundReason}
  {localOnly : Bool} {lifetime lifetime' : OutboundLifetime}

theorem broadcastToSlot_spec (s : LiteNode K m) (n : Nat) (slot : Fin requesters) :
    (broadcastToSlot source packet reason localOnly lifetime (s, n) slot).1.lastDeliveryIdentity =
        s.lastDeliveryIdentity + 1 ∨
      OnlyCounts s (broadcastToSlot source packet reason localOnly lifetime (s, n) slot).1 := by
  unfold broadcastToSlot
  split
  · exact .inr (.refl s)
  rename_i target _
  split
  · cases hsent : s.enqueueForwardedWithLifetime source target.id packet reason lifetime with
    | mk s₁ queued =>
        cases queued with
        | true => exact .inl (lastDeliveryIdentity_of_queued hsent)
        | false => exact .inr (onlyCounts_of_refused hsent)
  · exact .inr (.refl s)

theorem lastDeliveryIdentity_le_broadcast (slots : List (Fin requesters)) (s : LiteNode K m)
    (n : Nat) : s.lastDeliveryIdentity ≤
      (slots.foldl (broadcastToSlot source packet reason localOnly lifetime)
        (s, n)).1.lastDeliveryIdentity := by
  induction slots generalizing s n with
  | nil => exact le_rfl
  | cons slot slots ih =>
      have hstep : s.lastDeliveryIdentity ≤ (broadcastToSlot source packet reason localOnly lifetime
          (s, n) slot).1.lastDeliveryIdentity := by
        rcases (broadcastToSlot_spec s n slot : _ ∨ OnlyCounts s (broadcastToSlot source packet reason
          localOnly lifetime (s, n) slot).1) with hlast | ⟨_, _, heq⟩
        · rw [hlast]
          exact Nat.le_succ _
        · rw [heq]
      exact hstep.trans (ih _ _)

theorem broadcastToSlot_repeats (n : Nat) (slot : Fin requesters)
    (hcounts : OnlyCounts s (broadcastToSlot source packet reason localOnly lifetime (s, n) slot).1)
    (h : s.Alike t) :
    (broadcastToSlot source packet reason localOnly lifetime' (t, n) slot).2 =
        (broadcastToSlot source packet reason localOnly lifetime (s, n) slot).2 ∧
      OnlyCounts t (broadcastToSlot source packet reason localOnly lifetime' (t, n) slot).1 := by
  have htarget : (t.router?.bind fun r => r.registry.get slot) =
      s.router?.bind fun r => r.registry.get slot := by
    obtain ⟨f, hrouter⟩ := h.router
    rw [hrouter]
    cases s.router? <;> rfl
  simp only [broadcastToSlot, htarget] at hcounts ⊢
  cases hget : (s.router?.bind fun r => r.registry.get slot) with
  | none => exact ⟨rfl, .refl t⟩
  | some target =>
  simp only [hget] at hcounts ⊢
  split at hcounts
  · rename_i hmeant
    rw [if_pos hmeant, if_pos hmeant]
    cases hsent : s.enqueueForwardedWithLifetime source target.id packet reason lifetime with
    | mk s₁ queued =>
    cases hsent' : t.enqueueForwardedWithLifetime source target.id packet reason lifetime' with
    | mk t₁ queued' =>
    cases queued with
    | true =>
        have hlast := lastDeliveryIdentity_of_queued hsent
        rw [hsent] at hcounts
        obtain ⟨_, _, rfl⟩ := hcounts
        exact absurd hlast (Nat.succ_ne_self _).symm
    | false =>
        obtain ⟨rfl, hcounts'⟩ := h.refused hsent hsent'
        exact ⟨rfl, hcounts'⟩
  · rename_i hmeant
    rw [if_neg hmeant, if_neg hmeant]
    exact ⟨rfl, .refl t⟩

theorem broadcast_repeats (slots : List (Fin requesters)) (n : Nat)
    (hunsent : (slots.foldl (broadcastToSlot source packet reason localOnly lifetime)
      (s, n)).1.lastDeliveryIdentity = s.lastDeliveryIdentity) (h : Aged nowMs s t) :
    (slots.foldl (broadcastToSlot source packet reason localOnly lifetime') (t, n)).2 =
        (slots.foldl (broadcastToSlot source packet reason localOnly lifetime) (s, n)).2 ∧
      Aged nowMs t (slots.foldl (broadcastToSlot source packet reason localOnly lifetime') (t, n)).1
      := by
  induction slots generalizing s t n with
  | nil => exact ⟨rfl, .refl t⟩
  | cons slot slots ih =>
      rw [List.foldl_cons] at hunsent ⊢
      rw [List.foldl_cons]
      generalize hs₁ : broadcastToSlot source packet reason localOnly lifetime (s, n) slot = s₁
        at hunsent ⊢
      generalize ht₁ : broadcastToSlot source packet reason localOnly lifetime' (t, n) slot = t₁
      have hle := hunsent ▸ lastDeliveryIdentity_le_broadcast slots s₁.1 s₁.2
      -- the slot queued nothing, or the identity would have moved on for good
      have hcounts : OnlyCounts s (broadcastToSlot source packet reason localOnly lifetime (s, n)
          slot).1 := by
        refine (broadcastToSlot_spec s n slot).resolve_left fun hlast => ?_
        rw [hs₁] at hlast
        omega
      obtain ⟨hcount, hcounts'⟩ := broadcastToSlot_repeats n slot hcounts h.rest
      rw [hs₁] at hcounts hcount
      rw [ht₁] at hcounts' hcount
      have hlast : s₁.1.lastDeliveryIdentity = s.lastDeliveryIdentity := by
        obtain ⟨_, _, heq⟩ := hcounts
        rw [heq]
      obtain ⟨hcount', haged⟩ := ih s₁.2 (hunsent.trans hlast.symm) (h.congr_counts hcounts hcounts')
      rw [← hcount] at haged
      refine ⟨?_, (Aged.of_onlyCounts hcounts').trans haged⟩
      rw [← hcount', ← hcount]

theorem repeats_bridgePlainBroadcast :
    Repeats nowMs s fun s => s.bridgePlainBroadcast raw header source := by
  refine .intro fun t h _ => ?_
  simp only [bridgePlainBroadcast, enqueuePacketBroadcast, enqueuePacketBroadcastWithLifetime,
    h.rest.isLocalClientInterface]
  by_cases hmodel : m = .endpoint
  · simp only [if_pos hmodel]
    exact .stay
  simp only [if_neg hmodel]
  cases (PacketBuffer.fromSlice raw : Except BufferError (PacketBuffer mtu)) with
  | error e => exact .stay
  | ok buffer =>
      intro hunsent
      obtain ⟨hcount, haged⟩ := broadcast_repeats _ _ hunsent h
      refine ⟨?_, haged⟩
      simp only [hcount]

end Broadcast

theorem repeats_handleData (hrequest : header.destinationHash ≠ pathRequestDestination) :
    Repeats nowMs s fun s => s.handleData raw view header rx nowMs := by
  refine repeats_unlessOnLink (fun s =>
    if header.destinationHash = pathRequestDestination then
      s.handlePathRequest view.payload rx nowMs
    else if header.flags.destinationType = .plain ∧ header.flags.transportType = .broadcast then
      s.bridgePlainBroadcast raw header rx.interfaceId
    else s.handleTransportForward raw view.header header rx nowMs) ?_
  simp only [if_neg hrequest]
  split
  · exact repeats_bridgePlainBroadcast
  · exact repeats_handleTransportForward

end Handlers

end LiteNode

end ReticulumLite
