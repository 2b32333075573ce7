import ReticulumLite.Proof.Reachable
import ReticulumLite.Proof.Errors

/-!
# Only authenticated routes

A route enters the table in one place, when an announce has been validated. Nothing else changes
what a row says of its announce, so behind every row of every reachable state stands a packet that
was ingested.
-/

namespace ReticulumLite

open Bounded

/-- What a row says of the announce it was learned from. -/
def PathEntry.announced (e : PathEntry) : Hash16 × Hash32 × Bytes 10 × Bytes 64 × UInt8 :=
  (e.destinationHash, e.packetHash, e.randomHash, e.publicKey, e.hops)

theorem Announced.congr [Crypto] {h : Heard} {e e' : PathEntry} (ha : Announced h e)
    (heq : e.announced = e'.announced) : Announced h e' := by
  simp only [PathEntry.announced, Prod.mk.injEq] at heq
  obtain ⟨hdest, hpacket, hrandom, hkey, hhops⟩ := heq
  obtain ⟨maxAppData, a, hparse, hauthentic, hak, har⟩ := ha.announce
  exact {
    announce := ⟨maxAppData, a, hparse, hdest ▸ hauthentic, hak.trans hkey, har.trans hrandom⟩
    parsed := ha.parsed
    isAnnounce := ha.isAnnounce
    destination := hdest ▸ ha.destination
    packetHash := hpacket ▸ ha.packetHash
    hops := hhops ▸ ha.hops
    hops_lt := hhops ▸ ha.hops_lt }

namespace LiteNode

variable {K : Capacities} {m : Model} {s s' : LiteNode K m} {c : Cause}

/-! ### Where rows come from -/

/-- Some row says of its announce what an entry says. -/
def Routes (s : LiteNode K m) (e : PathEntry) : Prop :=
  ∃ g e', s.paths.Row g e' ∧ e'.announced = e.announced

theorem Sheds.routes (h : Sheds s s') (hs : s.Sound) {e : PathEntry} (hr : s'.Routes e) :
    s.Routes e := by
  obtain ⟨g, e', hrow, heq⟩ := hr
  exact ⟨g, e', h.paths.row hs.paths hrow, heq⟩

section

variable [Crypto]

theorem Change.localSlots (h : Change c s s') {hd : Heard} (hc : c.heard = some hd) :
    s'.localSlots = s.localSlots := by
  cases h with
  | quiet h => exact h.localSlots
  | own _ hnone => cases hnone.symm.trans hc
  | learn =>
      obtain ⟨announceCache, heq⟩ := learned_eq s _ _ _
      rw [heq]
  | send hsend | rebroadcast _ _ hsend | release _ _ _ _ _ _ hsend | forwardData _ hsend
  | forwardLink _ hsend | validateLink _ _ _ _ _ _ _ hsend =>
      obtain ⟨_, _, rfl⟩ := hsend.rest
      rfl
  | _ => rfl

theorem Change.routes (h : Change c s s') (hs : s.Sound) {e : PathEntry} (hr : s'.Routes e) :
    s.Routes e ∨ ∃ hd, c.heard = some hd ∧ Announced hd e ∧
      s.isOwnDestination e.destinationHash = false := by
  obtain ⟨g, e', hrow, heq⟩ := hr
  cases h.routing with
  | quiet h => exact .inl (h.toSheds.routes hs ⟨g, e', hrow, heq⟩)
  | @learn hd entry buffer hheard hannounced _ hown =>
      obtain ⟨announceCache, hlearned⟩ := learned_eq s entry buffer c.nowMs
      rw [hlearned] at hrow
      rcases (PathTable.insertOrUpdate_spec _ _ _).2 g e' hrow with hold | ⟨rfl, _⟩
      · exact .inl ⟨g, e', hold, heq⟩
      · have hdest : e'.destinationHash = e.destinationHash := congrArg Prod.fst heq
        exact .inr ⟨hd, hheard, hannounced.congr heq, hdest ▸ hown⟩
  | touchPath =>
      obtain ⟨e₀, hrow₀, he'⟩ := PathTable.row_touch hrow
      refine .inl ⟨g, e₀, hrow₀, ?_⟩
      rw [he'] at heq
      exact heq
  | other _ hpaths => exact .inl ⟨g, e', hpaths ▸ hrow, heq⟩

theorem Changes.routes (h : Changes c s s') (hs : s.Sound) {e : PathEntry} (hr : s'.Routes e) :
    s.Routes e ∨ ∃ hd, c.heard = some hd ∧ Announced hd e ∧
      s.isOwnDestination e.destinationHash = false := by
  induction h using Relation.ReflTransGen.head_induction_on with
  | refl => exact .inl hr
  | head hstep hrest ih =>
      rcases ih (hstep.sound hs) with hroutes | ⟨hd, hheard, hannounced, hown⟩
      · exact hstep.routes hs hroutes
      · refine .inr ⟨hd, hheard, hannounced, ?_⟩
        rw [isOwnDestination, hstep.localSlots hheard] at hown
        exact hown

end

end LiteNode

namespace Operation

open LiteNode

variable [Crypto] {K : Capacities} {m : Model} {s : LiteNode K m}

theorem perform_routes (hs : s.Consistent) {op : Operation m} {e : PathEntry}
    (hr : (op.perform s).Routes e) : s.Routes e ∨ ∃ raw rx nowMs localLink endpoint hd,
      op = .ingest raw rx nowMs localLink endpoint ∧ s.Hears raw rx hd ∧ Announced hd e ∧
      s.isOwnDestination e.destinationHash = false := by
  cases ht : op.time with
  | some t =>
      obtain ⟨heard, hchanges, hhears⟩ := perform_timed hs.sound hs.placed ht
      rcases hchanges.routes (hs.sound.setClock t) hr with hold | ⟨hd, hheard, hannounced, hown⟩
      · exact .inl hold
      · have hop := hhears hd hheard
        cases op with
        | ingest raw rx nowMs localLink endpoint =>
            exact .inr ⟨raw, rx, nowMs, localLink, endpoint, hd, rfl, hop, hannounced, hown⟩
        | _ => exact hop.elim
  | none =>
      rcases perform_untimed (s := s) ht with ⟨_, hchanges⟩ | ⟨_, hsheds⟩
      · rcases (hchanges 0).routes hs.sound hr with hold | ⟨hd, hheard, _⟩
        · exact .inl hold
        · cases hheard
      · exact .inl (hsheds.routes hs.sound hr)

end Operation

namespace LiteNode

variable [Crypto] {K : Capacities} {m : Model} {s : LiteNode K m}

/-! ### Every route -/

/-- A frame carries the announce that an entry was learned from: a packet with the entry's hash,
which parses as an announce of the entry's key and random hash, whose destination is derived from
that key and whose signature verifies under it. -/
def Vouches (s : LiteNode K m) (raw : List UInt8) (rx : RxMeta) (e : PathEntry) : Prop :=
  ∃ packet view maxAppData announce,
    s.unwrapFrame rx.interfaceId raw = some packet ∧ PacketView.parse packet = .ok view ∧
    packetHash packet view.header.flags.headerType = e.packetHash ∧
    view.header.flags.packetType = .announce ∧ view.header.destinationHash = e.destinationHash ∧
    AnnounceView.parse view.payload view.header.flags.contextFlag maxAppData = .ok announce ∧
    announce.publicKey = e.publicKey ∧ announce.randomHash = e.randomHash ∧
    e.destinationHash = truncatedHash
      (announce.nameHash.toList ++ (truncatedHash announce.publicKey.toList).toList) ∧
    verifySignature (Bytes.slice 32 announce.publicKey.toList 32)
      (announce.signedData e.destinationHash) announce.signature = true

theorem vouches_of_announced {raw : List UInt8} {rx : RxMeta} {h : Heard} {e : PathEntry}
    (ha : Announced h e) (hhears : s.Hears raw rx h) : s.Vouches raw rx e := by
  obtain ⟨maxAppData, a, hparse, hauthentic, hkey, hrandom⟩ := ha.announce
  have hflags : h.header.flags = h.view.header.flags := by
    rw [hhears.header]
    rfl
  have hdestination : h.header.destinationHash = h.view.header.destinationHash := by
    rw [hhears.header]
    rfl
  exact ⟨h.raw, h.view, maxAppData, a, hhears.packet, hhears.view, ha.packetHash.symm,
    hflags ▸ ha.isAnnounce, (ha.destination.trans hdestination).symm, hparse, hkey, hrandom,
    hauthentic.bound.symm, hauthentic.signed⟩

/-- Behind every route of a reachable node stands an ingested announce, and no ingest fails over the
known destinations. -/
theorem routes_authenticated {s₀ : LiteNode K m} {ops : List (Operation m)} (hfresh : s₀.Fresh)
    (hrun : s₀.Reaches ops s) :
    (∀ i e, s.paths.entries.get i = some e → e.hops ≤ 127 ∧
      ∃ before raw rx nowMs localLink endpoint after s₁,
        ops = before ++ .ingest raw rx nowMs localLink endpoint :: after ∧
        s₀.Reaches before s₁ ∧ s₁.isOwnDestination e.destinationHash = false ∧
        s₁.Vouches raw rx e) ∧
    ∀ raw rx nowMs localLink endpoint error,
      (s.ingestInner raw rx nowMs localLink endpoint).answer ≠ .error (.knownDestination error) := by
  have hexcused (raw rx nowMs localLink endpoint) :
      Errors (Excused False) (s.ingestInner raw rx nowMs localLink endpoint).answer :=
    errors_ingestInner nofun nofun nowMs localLink endpoint
  refine ⟨fun i e he => ?_, fun raw rx nowMs localLink endpoint error herror =>
    (hexcused raw rx nowMs localLink endpoint _ herror).known error rfl⟩
  have horigin := hrun.origin (I := Consistent) (P := fun s => s.Routes e)
    (fun _ op _ hs => Operation.perform_consistent hs op)
    (fun _ _ _ hs hr => Operation.perform_routes hs hr) hfresh.consistent ⟨_, e, ⟨i, he, rfl⟩, rfl⟩
  rcases horigin with ⟨g, e', hrow, _⟩ | ⟨before, op, after, s₁, hops, hbefore, hlearned⟩
  · -- a fresh node has no routes
    cases hfresh <;> exact absurd hrow (GenTable.not_row_new _ _)
  · obtain ⟨raw, rx, nowMs, localLink, endpoint, h, rfl, hhears, hannounced, hown⟩ := hlearned
    have hle : e.hops ≤ 127 := UInt8.le_iff_toNat_le.mpr
      (Nat.le_of_lt_succ (UInt8.lt_iff_toNat_lt.mp hannounced.hops_lt))
    exact ⟨hle, before, raw, rx, nowMs, localLink, endpoint, after, s₁, hops, hbefore, hown,
      vouches_of_announced hannounced hhears⟩

end LiteNode

section Witness

open LiteNode

private def zeroAnnounce : List UInt8 := [1, 0] ++ List.replicate 16 0 ++ [0] ++ List.replicate 148 0

def smallEndpoint : LiteNode smallCapacities .endpoint := newConst smallConfig Bytes.zero

theorem fresh_smallEndpoint : smallEndpoint.Fresh :=
  .newConst smallConfig Bytes.zero

private def announcedEndpoint : LiteNode smallCapacities .endpoint :=
  letI := Crypto.constant
  (Operation.ingest zeroAnnounce ⟨1, none⟩ 0 none none).perform smallEndpoint

theorem routes_authenticated_zeroAnnounce :
    announcedEndpoint.paths.entries.toList.any Option.isSome = true ∧
      ∀ i e, announcedEndpoint.paths.entries.get i = some e → e.hops ≤ 127 := by
  let _ := Crypto.constant
  have hrun : smallEndpoint.Reaches [.ingest zeroAnnounce ⟨1, none⟩ 0 none none]
      announcedEndpoint := .cons trivial (.nil _)
  have hall := (routes_authenticated fresh_smallEndpoint hrun).1
  exact ⟨by decide +kernel, fun i e he => (hall i e he).1⟩

end Witness

end ReticulumLite
