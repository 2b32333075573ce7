import ReticulumLite.Proof.Registry

/-!
# What holds in every reachable state

The invariant of all later results: the tables are well formed, everything in them goes through the
interfaces, and no number is in use that was not issued. Every operation keeps it, whatever the
clock does.
-/

namespace ReticulumLite

open Bounded

namespace LiteNode

variable {K : Capacities} {m : Model} {s s' : LiteNode K m} {c : Cause}

def QueueIssued (s : LiteNode K m) : Prop :=
  ∀ key ∈ s.outbound.toList.map QueuedOutbound.key, s.Issued key.1.lifetime

def NumbersIssued (s : LiteNode K m) : Prop :=
  ∀ r, s.router? = some r → ∀ slot, r.generations.get slot ≤ r.lastGeneration

structure Consistent (s : LiteNode K m) : Prop where
  sound : s.Sound
  placed : s.Placed
  queue : s.QueueIssued
  numbers : s.NumbersIssued

/-! ### Changes keep it -/

theorem Sheds.issued (h : Sheds s s') {lifetime : OutboundLifetime} (hl : s.Issued lifetime) :
    s'.Issued lifetime :=
  hl.mono h.paths.last.ge h.reverse.last.ge h.links.last.ge h.discoveries.last_le

theorem Sheds.queueIssued (h : Sheds s s') (hq : s.QueueIssued) : s'.QueueIssued :=
  fun key hkey => h.issued (hq key (h.outbound.subset hkey))

theorem Grows.numbersIssued (h : Grows s s') (hn : s.NumbersIssued) : s'.NumbersIssued := by
  intro r' hr' slot
  obtain ⟨r, hr, _, hgenerations, hlast⟩ := h.registry r' hr'
  rw [hgenerations, hlast]
  exact hn r hr slot

theorem QueueIssued.sent {frame : OutboundFrame} {s₁ : LiteNode K m} (hq : s.QueueIssued)
    (hsend : s.Sends frame s₁) (hgrows : Grows s s') (houtbound : s'.outbound = s₁.outbound)
    (hframe : s'.Issued frame.lifetime) : s'.QueueIssued := by
  intro key hkey
  rw [houtbound] at hkey
  obtain ⟨kept, hkept, hqueue⟩ := hsend.queue
  have hold : ∀ key ∈ kept.map QueuedOutbound.key, s'.Issued key.1.lifetime := fun key hkey =>
    hgrows.issued (hq key ((hkept.map _).subset hkey))
  rcases hqueue with hqueue | hqueue
  · exact hold key (hqueue ▸ hkey)
  · rw [hqueue, List.map_append, List.mem_append] at hkey
    rcases hkey with hkey | hkey
    · exact hold key hkey
    · obtain rfl := List.mem_singleton.mp hkey
      exact hframe

theorem Change.queueIssued [Crypto] (h : Change c s s') (hq : s.QueueIssued) : s'.QueueIssued := by
  have hgrows := h.grows
  have hold : s'.outbound = s.outbound → s'.QueueIssued := by
    intro heq key hkey
    rw [heq] at hkey
    exact hgrows.issued (hq key hkey)
  cases h with
  | quiet h => exact h.toSheds.queueIssued hq
  | learn =>
      obtain ⟨announceCache, heq⟩ := learned_eq s _ _ _
      exact hold (by rw [heq])
  | touchPath | lessen | schedule | own | record | discover | touchLink => exact hold rfl
  | send hsend hissued => exact hq.sent hsend hgrows rfl (hgrows.issued hissued)
  | rebroadcast _ _ hsend hissued => exact hq.sent hsend hgrows rfl (hgrows.issued hissued)
  | release _ _ _ _ _ _ hsend hissued => exact hq.sent hsend hgrows rfl (hgrows.issued hissued)
  | validateLink _ _ _ _ _ _ _ hsend hissued =>
      exact hq.sent hsend hgrows rfl (hgrows.issued hissued)
  | forwardData hgeneration hsend hstate hpath =>
      -- the frame names the entry that is recorded for it
      refine hq.sent hsend hgrows rfl ⟨hpath.trans hgrows.paths.last_le, ?_⟩
      obtain ⟨outbound, stats, rfl⟩ := hsend.rest
      rw [hstate]
      exact (ReverseTable.insert_renews hgeneration _ c.nowMs).2.1.ge
  | forwardLink hgeneration hsend hstate hpath _ _ _ _ habsent hfree =>
      refine hq.sent hsend hgrows rfl ⟨hpath.trans hgrows.paths.last_le, ?_⟩
      obtain ⟨outbound, stats, rfl⟩ := hsend.rest
      rw [hstate]
      exact (LinkTable.insert_renews hgeneration habsent hfree).2.1.ge

theorem Changes.consistent [Crypto] (h : Changes c s s') (hs : s.Consistent) : s'.Consistent where
  sound := h.sound hs.sound
  placed := h.placed hs.sound hs.placed
  queue := by
    induction h with
    | refl => exact hs.queue
    | tail _ hstep ih => exact hstep.queueIssued ih
  numbers := h.grows.numbersIssued hs.numbers

theorem Consistent.setClock (hs : s.Consistent) (nowMs : Nat) :
    { s with clockMs := nowMs }.Consistent where
  sound := hs.sound.setClock nowMs
  placed := hs.placed.setClock nowMs
  queue key hkey := ⟨(hs.queue key hkey).path, (hs.queue key hkey).state⟩
  numbers := hs.numbers

/-! ### Numbers of interfaces -/

section Numbers

variable {s : LiteNode K .router}

theorem numbersIssued_iff : s.NumbersIssued ↔
    ∀ slot, s.router.generations.get slot ≤ s.router.lastGeneration := by
  constructor
  · exact fun h => h _ (router?_eq s)
  · intro h r hr
    rw [router?_eq] at hr
    exact Option.some.inj hr ▸ h

theorem get_set_le {generations : List.Vector Nat requesters} {last last' generation : Nat}
    (h : ∀ slot, generations.get slot ≤ last) (hlast : last ≤ last') (hnew : generation ≤ last')
    (slot j : Fin requesters) : (generations.set slot generation).get j ≤ last' := by
  rw [List.Vector.get_set_eq_if]
  split
  · exact hnew
  · exact (h j).trans hlast

theorem Rewires.numbersIssued {s' : LiteNode K .router} (h : Rewires s s')
    (hn : s.NumbersIssued) : s'.NumbersIssued := by
  have hlast := numbersIssued_iff.mp hn
  rw [numbersIssued_iff]
  cases h with
  | same => exact hlast
  | reset =>
      intro slot
      change (List.Vector.replicate requesters (s.router.lastGeneration + 1)).get slot ≤ _
      rw [List.Vector.get_replicate]
      exact le_rfl
  | @connect r' slot _ _ _ h =>
      intro j
      change r'.generations.get j ≤ r'.lastGeneration
      rw [h.generations, h.last]
      exact get_set_le hlast (Nat.le_succ _) le_rfl slot j
  | @retire _ slot =>
      rw [router_retireRouterInterface]
      exact fun j => get_set_le hlast le_rfl (Nat.zero_le _) slot j

end Numbers

theorem placed_endpoint (s : LiteNode K .endpoint) : s.Placed := by
  have hnone (r : Router) : s.router? ≠ some r := by
    unfold router?
    cases s.interfaces
    exact nofun
  have hpresent (id : InterfaceId) : s.Present id := fun r hr => absurd hr (hnone r)
  have houtgoing (b : Fin requesters) : s.Outgoing b := fun r hr => absurd hr (hnone r)
  refine ⟨⟨fun _ e _ => hpresent _, fun _ e _ => ⟨hpresent _, fun b _ => houtgoing b⟩,
    fun _ e _ => ⟨hpresent _, hpresent _⟩, fun _ e _ => ⟨hpresent _, hpresent _⟩,
    fun _ b _ => houtgoing b, fun key _ => ⟨hpresent _, fun r hr => absurd hr (hnone r)⟩⟩,
    fun r hr => absurd hr (hnone r)⟩

theorem numbersIssued_endpoint (s : LiteNode K .endpoint) : s.NumbersIssued := by
  intro r hr
  unfold router? at hr
  cases hi : s.interfaces
  rw [hi] at hr
  cases hr

end LiteNode

/-! ### Operations keep it -/

namespace Operation

open LiteNode

variable [Crypto] {K : Capacities}

theorem perform_consistent {m : Model} {s : LiteNode K m} (hs : s.Consistent) (op : Operation m) :
    (op.perform s).Consistent := by
  cases ht : op.time with
  | some t =>
      obtain ⟨_, hchanges, _⟩ := perform_timed hs.sound hs.placed ht
      exact hchanges.consistent (hs.setClock t)
  | none =>
      rcases perform_untimed (s := s) ht with ⟨_, hchanges⟩ | ⟨hop, hsheds⟩
      · exact (hchanges 0).consistent hs
      · refine ⟨hsheds.sound hs.sound, ?_, hsheds.queueIssued hs.queue, ?_⟩
        · cases m with
          | endpoint => exact placed_endpoint _
          | router => exact (rewires _ hop).placed hs.placed
        · cases m with
          | endpoint => exact numbersIssued_endpoint _
          | router => exact (rewires _ hop).numbersIssued hs.numbers

end Operation

namespace LiteNode

variable {K : Capacities}

/-! ### Where runs start -/

theorem consistent_newConst (config : LiteConfig) (transportId : Hash16) :
    (newConst config transportId : LiteNode K .endpoint).Consistent where
  sound := ⟨GenTable.wf_new, GenTable.wf_new, GenTable.wf_new⟩
  placed := placed_endpoint _
  queue key hkey := by simp [newConst] at hkey
  numbers := numbersIssued_endpoint _

variable {m : Model} {config : LiteConfig} {s : LiteNode K m}

theorem new_eq_ok {transportId : Hash16} (h : new config transportId = .ok s) :
    validateConfig K config = .ok () ∧ s = newConst config transportId := by
  simp only [new, bind_eq_ok, pure_eq_ok] at h
  obtain ⟨_, hvalid, rfl⟩ := h
  exact ⟨hvalid, rfl⟩

variable {id : Hash16} {registry : InterfaceRegistry}

theorem newRouter_eq_ok {modem : Option LoraModemConfig} {s : LiteNode K .router}
    (h : newRouter config id registry modem = .ok s) :
    validateConfig K config = .ok () ∧ registry.Valid config.tableCaps.txQueueDepth ∧
      s = newRouterConst config id registry modem := by
  simp only [newRouter, bind_eq_ok, mapError_eq_ok, pure_eq_ok] at h
  obtain ⟨_, hvalid, _, hregistry, rfl⟩ := h
  exact ⟨hvalid, InterfaceRegistry.valid_of_validate hregistry, rfl⟩

theorem consistent_newRouterConst (hdistinct : registry.Distinct) (modem : Option LoraModemConfig) :
    (newRouterConst config id registry modem : LiteNode K .router).Consistent where
  sound := ⟨GenTable.wf_new, GenTable.wf_new, GenTable.wf_new⟩
  placed := by
    refine ⟨⟨fun g e he => absurd he (GenTable.not_row_new _ _), Slots.all_empty,
      fun g e he => absurd he (GenTable.not_row_new _ _),
      fun g e he => absurd he (GenTable.not_row_new _ _), Discoveries.waiting_replicate _,
      fun key hkey => ?_⟩, fun r hr => ?_⟩
    · simp [newRouterConst, withRouter, newConst] at hkey
    · obtain rfl := Option.some.inj hr
      refine ordered_of_generations hdistinct fun slot => ?_
      change (List.Vector.replicate requesters 1).get slot ≠ 0
      rw [List.Vector.get_replicate]
      decide
  queue key hkey := by simp [newRouterConst, withRouter, newConst] at hkey
  numbers := by
    rw [numbersIssued_iff]
    intro slot
    change (List.Vector.replicate requesters 1).get slot ≤ 1
    rw [List.Vector.get_replicate]

theorem consistent_newConst_router (config : LiteConfig) (transportId : Hash16) :
    (newConst config transportId : LiteNode K .router).Consistent := by
  have hdistinct : InterfaceRegistry.new.Distinct := fun i j c c' hi => by
    rw [InterfaceRegistry.new, Slots.get_empty] at hi
    cases hi
  exact consistent_newRouterConst hdistinct none

/-- A node as its constructors make it. A registry never holds an id twice. -/
inductive Fresh : {m : Model} → LiteNode K m → Prop
  | newConst {m : Model} (config : LiteConfig) (transportId : Hash16) :
      Fresh (LiteNode.newConst config transportId : LiteNode K m)
  | newRouterConst (config : LiteConfig) (id : Hash16) {registry : InterfaceRegistry}
      (hdistinct : registry.Distinct) (modem : Option LoraModemConfig) :
      Fresh (LiteNode.newRouterConst config id registry modem)

theorem Fresh.consistent (h : s.Fresh) : s.Consistent := by
  cases h with
  | newConst config transportId =>
      cases m with
      | endpoint => exact consistent_newConst config transportId
      | router => exact consistent_newConst_router config transportId
  | newRouterConst config id hdistinct modem => exact consistent_newRouterConst hdistinct modem

theorem fresh_of_new {transportId : Hash16} (h : new config transportId = .ok s) : s.Fresh := by
  obtain ⟨_, rfl⟩ := new_eq_ok h
  exact .newConst config transportId

theorem fresh_of_newRouter {modem : Option LoraModemConfig} {s : LiteNode K .router}
    (h : newRouter config id registry modem = .ok s) : s.Fresh := by
  obtain ⟨_, hregistry, rfl⟩ := newRouter_eq_ok h
  exact .newRouterConst config id hregistry.distinct modem

section

variable [Crypto]

/-- Any sequence of operations, in any order and at any times. -/
abbrev Reaches {m : Model} (s : LiteNode K m) (ops : List (Operation m)) (t : LiteNode K m) : Prop :=
  Runs Operation.perform (fun _ _ => True) s ops t

theorem Consistent.runs {m : Model} {s t : LiteNode K m} {ops : List (Operation m)}
    {allowed : LiteNode K m → Operation m → Prop}
    (h : Runs Operation.perform allowed s ops t) (hs : s.Consistent) : t.Consistent :=
  h.invariant (fun _ op _ hs => Operation.perform_consistent hs op) hs

/-! ### Referential integrity -/

/-- What every id and every bit a router holds stands for. -/
structure ReferentialIntegrity (s : LiteNode K .router) : Prop where
  paths : ∀ i e, s.paths.entries.get i = some e → s.router.Serves e.interfaceId
  reverse : ∀ i e, s.reverse.entries.get i = some e →
    s.router.Serves e.receivingInterface ∧ s.router.Serves e.outboundInterface
  links : ∀ i e, s.links.entries.get i = some e →
    s.router.Serves e.receivingInterface ∧ s.router.Serves e.outboundInterface
  sources : ∀ i e, s.announceSchedule.get i = some e → s.router.Serves e.interfaceId
  pending : ∀ i e, s.announceSchedule.get i = some e → ∀ b : Fin requesters,
    e.pendingTargets.getLsbD b.val = true → s.router.CanSend b
  requesters : ∀ i, ∀ b : Fin requesters,
    (s.discoveries.entries.get i).requesters.getLsbD b.val = true → s.router.CanSend b
  queue : ∀ q ∈ s.outbound.toList, s.router.Serves q.frame.interfaceId ∧
    q.delivery.generation ≠ 0 ∧ q.delivery.generation = s.router.generation q.frame.interfaceId
  distinct : s.router.registry.Distinct

omit [Crypto] in
theorem Placed.referentialIntegrity {s : LiteNode K .router} (h : s.Placed) :
    s.ReferentialIntegrity where
  paths i e he := h.paths _ e ⟨i, he, rfl⟩ _ (router?_eq s)
  reverse i e he :=
    (h.reverse _ e ⟨i, he, rfl⟩).imp (· _ (router?_eq s)) (· _ (router?_eq s))
  links i e he := (h.links _ e ⟨i, he, rfl⟩).imp (· _ (router?_eq s)) (· _ (router?_eq s))
  sources i e he := (h.schedule i e he).1 _ (router?_eq s)
  pending i e he b hb := (h.schedule i e he).2 b hb _ (router?_eq s)
  requesters i b hb := h.discoveries i b hb _ (router?_eq s)
  queue q hq := by
    obtain ⟨hpresent, hcurrent⟩ := h.queue q.key (List.mem_map_of_mem hq)
    obtain ⟨hne, hkey⟩ := hcurrent _ (router?_eq s)
    have hgeneration : q.delivery.generation = s.router.generation q.frame.interfaceId := by
      obtain ⟨frame, ⟨generation⟩⟩ := q
      exact Option.some.inj hkey
    exact ⟨hpresent _ (router?_eq s), hgeneration ▸ hne, hgeneration⟩
  distinct := (h.ordered _ (router?_eq s)).distinct

/-- Whatever a host does to a router, everything in its tables goes through its registry. -/
theorem referentialIntegrity_of_reaches {config : LiteConfig} {id : Hash16}
    {registry : InterfaceRegistry} {modem : Option LoraModemConfig} {s₀ s : LiteNode K .router}
    {ops : List (Operation .router)} (hnew : newRouter config id registry modem = .ok s₀)
    (hrun : s₀.Reaches ops s) : s.ReferentialIntegrity := by
  exact (Consistent.runs hrun (fresh_of_newRouter hnew).consistent).placed.referentialIntegrity

end

def smallInterface (id : InterfaceId) : InterfaceConfig :=
  { id, role := .loRa, mode := .full, direction := ⟨true, true, true, false⟩, mtu := 500,
    bitrateBps := 1000, ifac := none, online := true, txQueueDepth := 1, announceCapPermille := 20,
    bulkPaths := false }

def smallRouter : LiteNode smallCapacities .router :=
  newRouterConst smallConfig Bytes.zero
    ((Slots.empty.put 0 (some (smallInterface 1))).put 1 (some (smallInterface 2))) none

theorem newRouter_smallRouter : newRouter smallConfig Bytes.zero
    ((Slots.empty.put 0 (some (smallInterface 1))).put 1 (some (smallInterface 2))) none =
      .ok smallRouter := rfl

end LiteNode

namespace KnownIdentity

/-- The name that path requests are addressed to, and its destination. -/
def requestNameDigest : Bytes 32 :=
  Bytes.ofNat 32 0x7926bbe7dd7f9aba88b061551600a25d06ef0f7578202730bd2f224200715efe

def requestDigest : Bytes 32 :=
  Bytes.ofNat 32 0x6b9f66014d9853faab220fba47d027615ec53a8b35c2d620d1f4e0da65de3008

/-- A data packet of one byte for the destination, in the hands of the relay of the zero id. -/
def dataHeader : PacketHeader where
  flags := ⟨.header2, false, .transport, .single, .data⟩
  hops := 0
  transportId := some Bytes.zero
  destinationHash := destination
  context := .none

def dataPacket : List UInt8 := dataHeader.bytes ++ [7]

def dataDigest : Bytes 32 :=
  Bytes.ofNat 32 0x99433328a5d6d556ebafd7708d5b92afae8e5d975161c71eaf76da1044695010

def proofHeader (context : PacketContext) : PacketHeader where
  flags := ⟨.header1, false, .broadcast, .single, .proof⟩
  hops := 0
  transportId := none
  destinationHash := Bytes.slice 16 dataDigest.toList 0
  context := context

def proofPacket (context : PacketContext) : List UInt8 := (proofHeader context).bytes ++ [7]

def proofDigest : Bytes 32 :=
  Bytes.ofNat 32 0x83c695daba911adcddadb19c9b844e34a771fa5d02b104776410d57f3079284b

def requestHeader : PacketHeader where
  flags := ⟨.header1, false, .broadcast, .plain, .data⟩
  hops := 0
  transportId := none
  destinationHash := Bytes.slice 16 requestDigest.toList 0
  context := .none

def requestPayload : List UInt8 := destination.toList ++ List.replicate 16 1

def requestPacket : List UInt8 := requestHeader.bytes ++ requestPayload

def requestPacketDigest : Bytes 32 :=
  Bytes.ofNat 32 0xf7c6f3bd56539b50f3a34e10ace7078f20d369f01577234c54833febed50d35a

/-- The hash of the earlier announce in a packet for a link destination. -/
def linkFramedDigest : Bytes 32 :=
  Bytes.ofNat 32 0x32a07fc2365aceab076d2368d1631cc760e391624e167fd121d9e695eaa3dfda

/-- The primitives as far as this identity needs them. -/
@[reducible] def crypto : Crypto :=
  .known (digests ++
    [(pathRequestName, requestNameDigest),
     ((Bytes.slice 10 requestNameDigest.toList 0).toList, requestDigest),
     (dataHeader.hashed ++ [7], dataDigest),
     ((proofHeader .none).hashed ++ [7], proofDigest),
     (requestHeader.hashed ++ requestPayload, requestPacketDigest),
     (hashed 0x0d 0x00 first, linkFramedDigest)]) signatures

end KnownIdentity

/-! Requests for a destination that no announce is known of. -/

namespace KnownRequest

def payload (tag : UInt8) : List UInt8 := List.replicate 16 0x5a ++ List.replicate 16 tag

def packet (tag : UInt8) : List UInt8 := KnownIdentity.requestHeader.bytes ++ payload tag

def firstDigest : Bytes 32 :=
  Bytes.ofNat 32 0xa1e8ebb6bba6dbdf55afe2be0c9cf31f6814cea4980349933de32879decb08f5

def secondDigest : Bytes 32 :=
  Bytes.ofNat 32 0x1346a201c60675e2b360c736db7f5b25201cdaca804b5564d854612032732d38

/-- The digests that these requests need. -/
def digests : List (List UInt8 × Bytes 32) :=
  [(pathRequestName, KnownIdentity.requestNameDigest),
   ((Bytes.slice 10 KnownIdentity.requestNameDigest.toList 0).toList, KnownIdentity.requestDigest),
   (KnownIdentity.requestHeader.hashed ++ payload 1, firstDigest),
   (KnownIdentity.requestHeader.hashed ++ payload 2, secondDigest)]

@[reducible] def crypto : Crypto := .known digests []

end KnownRequest

namespace LiteNode

def gateways : InterfaceRegistry :=
  (Slots.empty.put ⟨0, by decide⟩ (some { smallInterface 1 with mode := .gateway })).put
    ⟨1, by decide⟩ (some { smallInterface 2 with mode := .gateway })

def gatewayRouter : LiteNode smallCapacities .router :=
  newRouterConst smallConfig Bytes.zero gateways none

/-- The router has heard an announce, and searches for a destination that it does not know. -/
theorem referentialIntegrity_of_reaches_gatewayRouter :
    letI := Crypto.known (KnownIdentity.digests ++ KnownRequest.digests) KnownIdentity.signatures
    let s := (Operation.ingest (KnownRequest.packet 1) ⟨1, none⟩ 1000 none none).perform
      ((Operation.ingest (KnownIdentity.packet 0x01 0x00 0x00 KnownIdentity.first) ⟨2, none⟩ 1000
        none none).perform gatewayRouter)
    s.outbound.toList.map (·.frame.interfaceId) = [2] ∧
      s.paths.entries.toList.map Option.isSome = [true, false] ∧
      s.announceSchedule.toList.map Option.isSome = [true, false] ∧
      s.discoveries.entries.toList.map DiscoveryEntry.requesters = [1#8, 0#8] ∧
      s.ReferentialIntegrity := by
  let _ := Crypto.known (KnownIdentity.digests ++ KnownRequest.digests) KnownIdentity.signatures
  have hnew : newRouter smallConfig Bytes.zero gateways none = .ok gatewayRouter := rfl
  refine ⟨by decide +kernel, by decide +kernel, by decide +kernel, by decide +kernel, ?_⟩
  exact referentialIntegrity_of_reaches hnew (.cons trivial (.cons trivial (.nil _)))

end LiteNode

end ReticulumLite
