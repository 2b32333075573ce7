import ReticulumLite.Proof.Authenticity
import ReticulumLite.Proof.Keys

/-!
# The announces behind the routes

A route and its announce are kept in two tables, with their own capacities and rules of expiry. They
meet in one place: a route that is taken brings its announce into the cache, over whatever was
there. So the two never disagree, and as long as no traffic prolongs a route, none outlives its
announce.
-/

namespace ReticulumLite

open Bounded

section

variable [Crypto]

def IngestAction.updatesRoute : IngestAction → Bool
  | .learnedAnnounce | .scheduledAnnounce | .watchedAnnounce _ => true
  | _ => false

/-! ### A route and its announce -/

structure CachedAnnounce.Backs (a : CachedAnnounce) (e : PathEntry) : Prop where
  hops : a.hops = e.hops
  packet : ∃ view, PacketView.parse a.raw.bytes = .ok view ∧
    view.header.destinationHash = e.destinationHash ∧
    packetHash a.raw.bytes view.header.flags.headerType = e.packetHash ∧
    ∃ maxAppData announce,
      AnnounceView.parse view.payload view.header.flags.contextFlag maxAppData = .ok announce ∧
      announce.Authentic e.destinationHash ∧ announce.publicKey = e.publicKey ∧
      announce.randomHash = e.randomHash

theorem CachedAnnounce.Backs.congr {a : CachedAnnounce} {e e' : PathEntry} (h : a.Backs e)
    (heq : e.announced = e'.announced) : a.Backs e' := by
  simp only [PathEntry.announced, Prod.mk.injEq] at heq
  obtain ⟨hdest, hpacket, hrandom, hkey, hhops⟩ := heq
  obtain ⟨hops, packet⟩ := h
  rw [hdest, hpacket, hrandom, hkey] at packet
  exact ⟨hops.trans hhops, packet⟩

theorem Announced.backs {h : Heard} {entry : PathEntry} {buffer : PacketBuffer mtu}
    (ha : Announced h entry) (hbuffer : buffer.bytes = h.raw) (expiresMs : Nat) (bulk : Bool) :
    CachedAnnounce.Backs ⟨entry.destinationHash, buffer, entry.hops, expiresMs, bulk⟩ entry where
  hops := rfl
  packet := by
    refine ⟨h.view, ?_, ?_, ?_, ha.announce⟩
    · rw [hbuffer]
      exact ha.parsed.view
    · rw [ha.destination, ha.parsed.header]
    · rw [hbuffer, ha.packetHash]

namespace LiteNode

variable {K : Capacities} {m : Model} {s s' : LiteNode K m} {c : Cause}

omit [Crypto] in
theorem transportAnnounceFromRaw_eq_ok {raw : List UInt8} {dest : Hash16} {hops : UInt8}
    {context : PacketContext} {packet : PacketBuffer mtu}
    (hcontext : PacketContext.fromByte context.toByte = context)
    (h : s.transportAnnounceFromRaw raw dest hops context = .ok packet) :
    ∃ view header, PacketView.parse raw = .ok view ∧
      header.flags = ⟨.header2, view.header.flags.contextFlag, .transport, .single, .announce⟩ ∧
      header.hops = hops ∧ header.destinationHash = dest ∧ header.context = context ∧
      PacketView.parse packet.bytes = .ok ⟨header, view.payload, packet.bytes, header.size⟩ := by
  simp only [transportAnnounceFromRaw, bind_eq_ok, mapError_eq_ok, buildPacket_eq_ok] at h
  obtain ⟨view, hview, hbytes⟩ := h
  refine ⟨view, ⟨⟨.header2, view.header.flags.contextFlag, .transport, .single, .announce⟩, hops,
    some s.transportId, dest, context⟩, hview, rfl, rfl, rfl, rfl, ?_⟩
  have hlen := packet.length_le
  rw [hbytes] at hlen ⊢
  exact PacketView.parse_of_header ⟨rfl, hcontext⟩ hlen

/-- A path response made from the announce behind a route is valid, under the key of the route. -/
theorem pathResponse_validates {a : CachedAnnounce} {e : PathEntry} (h : a.Backs e)
    {response : PacketBuffer mtu}
    (hresponse : s.pathResponseFromCachedAnnounce a.raw.bytes e.destinationHash a.hops =
      .ok response) :
    ∃ view announce, PacketView.parse response.bytes = .ok view ∧
      view.header.flags.packetType = .announce ∧ view.header.context = .pathResponse ∧
      view.header.destinationHash = e.destinationHash ∧
      AnnounceView.parse view.payload view.header.flags.contextFlag maxAnnounceAppData =
        .ok announce ∧
      announce.validate e.destinationHash (some e.publicKey) signedDataMax =
        .ok announce.identityHash ∧
      announce.randomHash = e.randomHash := by
  obtain ⟨view, hview, _, _, maxAppData, announce, hparse, hauthentic, hkey, hrandom⟩ := h.packet
  obtain ⟨view', header, hview', hflags, _, hdest, hcontext, hpacket⟩ :=
    transportAnnounceFromRaw_eq_ok rfl hresponse
  obtain rfl := Except.ok.inj (hview.symm.trans hview')
  -- the payload was cut from a packet of at least 19 bytes of header
  obtain ⟨_, hpayload, hparses⟩ := PacketView.parse_eq_ok hview
  have hlength : view.payload.length ≤ 481 := by
    have hle := hparses.length_le
    have hoffset := hparses.offset_eq
    rw [hpayload, List.length_drop]
    simp only [mtu] at hle
    rcases view.header.size_eq with hsize | hsize <;> omega
  obtain ⟨hparts, hlimit⟩ := AnnounceView.parse_eq_ok hparse
  have hratchet := announce.length_ratchetBytes
  simp only [announceBaseSize, publicKeyLength, nameHashLength, randomHashLength,
    signatureLength] at hparts
  refine ⟨_, announce, hpacket, by rw [hflags], hcontext, hdest, ?_, ?_, hrandom⟩
  · rw [hflags]
    refine hlimit _ ?_
    simp only [maxAnnounceAppData, mtu, headerMinsize, announceBaseSize, publicKeyLength,
      nameHashLength, randomHashLength, signatureLength]
    omega
  · refine AnnounceView.validate_eq_ok.mpr ⟨hauthentic, ?_, ?_, rfl⟩
    · intro k hk
      exact (Option.some.inj hk).symm.trans hkey.symm
    · rw [announce.length_signedData]
      simp only [signedDataMax, maxAnnounceAppData, mtu, headerMinsize, announceBaseSize,
        publicKeyLength, nameHashLength, randomHashLength, signatureLength, ratchetSize]
      omega

/-! ### The two tables agree -/

/-- Where a route has a cached announce, it is the one the route was learned from. -/
def Coherent (s : LiteNode K m) : Prop :=
  ∀ i a g e, List.Vector.get s.announceCache i = some a → s.paths.Row g e →
    a.destinationHash = e.destinationHash → a.Backs e

theorem Sheds.coherent (h : Sheds s s') (hs : s.Sound) (hc : s.Coherent) : s'.Coherent :=
  fun i a g e ha hrow => hc i a g e (h.announceCache i a ha) (h.paths.row hs.paths hrow)

theorem coherent_learned (hk : s.Keyed) (hc : s.Coherent) {h : Heard} {entry : PathEntry}
    {buffer : PacketBuffer mtu} (ha : Announced h entry) (hbuffer : buffer.bytes = h.raw)
    (nowMs : Nat) : (s.learned entry buffer nowMs).Coherent := by
  obtain ⟨_, hrows⟩ := PathTable.insertOrUpdate_spec s.paths entry nowMs
  have hkeyed := PathTable.keyed_insertOrUpdate hk.paths entry nowMs
  unfold learned
  simp only
  split
  · rename_i htaken
    obtain ⟨g₀, hentry⟩ := PathTable.row_insertOrUpdate htaken
    intro i a g e hget hrow hdest
    rcases AnnounceCache.get_insert (hk.announceCache.clearWhere _) hget with rfl | ⟨hold, hne⟩
    · obtain rfl := PathTable.row_unique hkeyed hentry hrow hdest
      exact ha.backs hbuffer _ _
    · rcases hrows g e hrow with hrow | ⟨rfl, _⟩
      · exact hc i a g e (Slots.get_clearWhere_eq_some.mp hold).1 hrow hdest
      · exact absurd hdest hne
  · rename_i hrefused
    intro i a g e hget hrow hdest
    rcases hrows g e hrow with hrow | ⟨_, htaken⟩
    · exact hc i a g e hget hrow hdest
    · exact absurd htaken hrefused

theorem Change.coherent (h : Change c s s') (hs : s.Sound) (hk : s.Keyed) (hc : s.Coherent) :
    s'.Coherent := by
  cases h.routing with
  | quiet h => exact h.toSheds.coherent hs hc
  | learn _ ha hbuffer => exact coherent_learned hk hc ha hbuffer _
  | touchPath =>
      intro i a g e' hget hrow hdest
      obtain ⟨e, hrow', heq⟩ := PathTable.row_touch hrow
      have hannounced : e.announced = e'.announced := by rw [heq]; rfl
      exact (hc i a g e hget hrow' (by rw [hdest, heq])).congr hannounced
  | other _ hpaths hcache =>
      rw [Coherent, hpaths, hcache]
      exact hc

theorem coherent_of_runs {s₀ : LiteNode K m} {ops : List (Operation m)}
    {allowed : LiteNode K m → Operation m → Prop} (hfresh : s₀.Fresh)
    (hrun : Runs Operation.perform allowed s₀ ops s) : s.Coherent := by
  have hall := hrun.invariant (I := fun s => (s.Consistent ∧ s.Keyed) ∧ s.Coherent) ?_
    ⟨⟨hfresh.consistent, hfresh.keyed⟩, ?_⟩
  · exact hall.2
  · intro s op _ h
    obtain ⟨⟨hs, hk⟩, hc⟩ := h
    refine ⟨⟨Operation.perform_consistent hs op, perform_keyed hs hk op⟩, ?_⟩
    have hboth : (op.perform s).Keyed ∧ (op.perform s).Coherent :=
      Operation.perform_keeps (I := fun s => s.Keyed ∧ s.Coherent) hs ⟨hk, hc⟩
        (fun _ _ => ⟨{ hk with }, hc⟩)
        (fun _ _ hs h hstep => ⟨hstep.keyed hs h.1, hstep.coherent hs h.1 h.2⟩)
        fun h => ⟨h.keyed hs.sound hk, h.coherent hs.sound hc⟩
    exact hboth.2
  · intro i a g e _ hrow
    cases hfresh <;> exact absurd hrow (GenTable.not_row_new _ _)

/-! ### Announces that change no route -/

omit [Crypto] in
theorem announceCache_cancelRebroadcast (s : LiteNode K m) (dest : Hash16) (hops : UInt8)
    (nowMs : Nat) : (s.cancelRebroadcast dest hops nowMs).announceCache = s.announceCache := by
  obtain ⟨announceSchedule, heq, _⟩ := cancelRebroadcast_eq s dest hops nowMs
  rw [heq]

section

variable {raw : List UInt8} {view : PacketView} (hview : PacketView.parse raw = .ok view)
  (header : PacketHeader) (rx : RxMeta)

include hview

theorem learnAnnounce_cache (announce : AnnounceView) (nowMs : Nat) :
    (s.learnAnnounce raw view header rx announce nowMs).1.announceCache = s.announceCache ∨
      (s.learnAnnounce raw view header rx announce nowMs).2 = .ok .learnedAnnounce ∨
      (s.learnAnnounce raw view header rx announce nowMs).2 = .ok .scheduledAnnounce := by
  obtain ⟨buffer, hslice, _⟩ := fromSlice_of_parse hview
  unfold learnAnnounce
  simp only
  split
  · refine .inr ?_
    unfold followPath scheduleRebroadcast
    simp only [hslice]
    repeat' split
    · exact .inl rfl
    · exact .inr rfl
    · exact .inl rfl
  · obtain ⟨_, _, heq⟩ := onlyCounts_learnPath s
      (s.announcedPath raw view header rx announce nowMs) nowMs
    rw [heq]
    exact .inl rfl

theorem handleAnnounce_cache (nowMs : Nat) :
    (s.handleAnnounce raw view header rx nowMs).1.announceCache = s.announceCache ∨
      (s.handleAnnounce raw view header rx nowMs).2 = .ok .learnedAnnounce ∨
      (s.handleAnnounce raw view header rx nowMs).2 = .ok .scheduledAnnounce := by
  unfold handleAnnounce
  split
  · exact .inl rfl
  simp only
  split
  · unfold acceptAnnounce
    split
    · exact .inl rfl
    split
    · exact .inl rfl
    rename_i s₁ hremember
    obtain ⟨knownDestinations, rfl⟩ := rememberDelivery_eq hremember
    split
    · exact .inl rfl
    simp only
    rcases learnAnnounce_cache hview header rx _ nowMs with hcache | hupdates
    · refine .inl (hcache.trans ?_)
      split
      · exact announceCache_cancelRebroadcast _ _ _ _
      · rfl
    · exact .inr hupdates
  · exact .inl rfl

end

omit [Crypto] in
theorem announceCache_letIn (s : LiteNode K m) (rx : RxMeta) (nowMs : Nat) :
    (s.letIn rx nowMs).announceCache = s.announceCache := by
  obtain ⟨_, _, heq, _⟩ := letIn_eq s rx nowMs
  rw [heq]
  rfl

omit [Crypto] in
theorem updatesRoute_reportHandled {handled : Handled K m}
    (h : handled.2 = .ok .learnedAnnounce ∨ handled.2 = .ok .scheduledAnnounce) (raw : List UInt8)
    (header : PacketHeader) (endpoint : Option (PacketBuffer mtu)) :
    ∃ action, (reportHandled handled raw header endpoint).answer = .ok action ∧
      action.updatesRoute = true := by
  obtain ⟨s, result⟩ := handled
  unfold reportHandled
  rcases h with rfl | rfl
  all_goals
    simp only
    repeat' split
    all_goals exact ⟨_, rfl, rfl⟩

theorem announceCache_of_unchanged {frame : List UInt8} {rx : RxMeta} {nowMs : Nat}
    {localLink : Option Hash16} {endpoint : Option (PacketBuffer mtu)}
    (hannounce : ∀ h, s.Hears frame rx h → h.header.flags.packetType = .announce)
    (hunchanged : ∀ action, (s.ingestInner frame rx nowMs localLink endpoint).answer = .ok action →
      action.updatesRoute = false) :
    (s.ingestInner frame rx nowMs localLink endpoint).node.announceCache = s.announceCache := by
  have hletIn := announceCache_letIn s rx nowMs
  rcases ingestInner_cases s frame rx nowMs localLink endpoint with
    ⟨h, s₀, harrives⟩ | ⟨_, hcounts | ⟨_, _, _, _, _, _, hcounts⟩⟩
  · have hs₀ : s₀.announceCache = s.announceCache := by
      rcases harrives.unseen with ⟨_, rfl⟩ | ⟨_, rfl, _⟩
      · exact hletIn
      · exact hletIn
    have htype := hannounce h harrives.toHears
    rw [ingestInner_of_arrives harrives endpoint] at hunchanged ⊢
    simp only [handlePacket, htype] at hunchanged ⊢
    rcases handleAnnounce_cache harrives.view h.header ((s.letIn rx nowMs).knownMeta rx) nowMs
      with hcache | hupdates
    · rcases reportHandled_node (s₀.handleAnnounce h.raw h.view h.header
        ((s.letIn rx nowMs).knownMeta rx) nowMs) h.raw h.header endpoint with hnode | hnode
      · rw [hnode]
        exact hcache.trans hs₀
      · rw [hnode]
        exact hcache.trans hs₀
    · obtain ⟨action, hanswer, htrue⟩ := updatesRoute_reportHandled hupdates h.raw h.header endpoint
      exact absurd htrue (by rw [hunchanged action hanswer]; exact Bool.false_ne_true)
  · obtain ⟨_, _, heq⟩ := hcounts
    rw [heq]
    exact hletIn
  · obtain ⟨_, _, heq⟩ := hcounts
    rw [heq]
    exact hletIn

/-- In every reachable node, a live route and a live cached announce for one destination belong
together, and a path response made of the announce is valid under the key of the route. An announce
that does not change its route does not change the cache. -/
theorem routes_agree_with_cache {s₀ : LiteNode K m} {ops : List (Operation m)}
    (hfresh : s₀.Fresh) (hrun : s₀.Reaches ops s) :
    (∀ t dest path cached, s.paths.getLive dest t = some path →
      s.announceCache.get dest t = some cached →
      cached.hops = path.hops ∧
      (∃ view, PacketView.parse cached.raw.bytes = .ok view ∧ view.header.destinationHash = dest ∧
        packetHash cached.raw.bytes view.header.flags.headerType = path.packetHash) ∧
      ∀ response,
        s.pathResponseFromCachedAnnounce cached.raw.bytes dest cached.hops = .ok response →
        ∃ view announce, PacketView.parse response.bytes = .ok view ∧
          view.header.flags.packetType = .announce ∧ view.header.context = .pathResponse ∧
          view.header.destinationHash = dest ∧
          AnnounceView.parse view.payload view.header.flags.contextFlag maxAnnounceAppData =
            .ok announce ∧
          announce.validate dest (some path.publicKey) signedDataMax = .ok announce.identityHash ∧
          announce.randomHash = path.randomHash) ∧
    ∀ frame rx nowMs localLink endpoint,
      (∀ h, s.Hears frame rx h → h.header.flags.packetType = .announce) →
      (∀ action, (s.ingestInner frame rx nowMs localLink endpoint).answer = .ok action →
        action.updatesRoute = false) →
      (s.ingestInner frame rx nowMs localLink endpoint).node.announceCache = s.announceCache := by
  refine ⟨fun t dest path cached hpath hcached => ?_,
    fun frame rx nowMs localLink endpoint hannounce hunchanged =>
      announceCache_of_unchanged hannounce hunchanged⟩
  obtain ⟨⟨g, hrow⟩, hdest, _⟩ := PathTable.getLive_eq_some hpath
  obtain ⟨⟨i, hi⟩, hmatch⟩ := Slots.find_mem hcached
  simp only [Bool.and_eq_true, decide_eq_true_eq] at hmatch
  have hbacks := coherent_of_runs hfresh hrun i cached g path hi hrow (hmatch.1.trans hdest.symm)
  obtain ⟨view, hview, hto, hhash, _⟩ := hbacks.packet
  refine ⟨hbacks.hops, ⟨view, hview, hto.trans hdest, hhash⟩, fun response hresponse => ?_⟩
  rw [← hdest] at hresponse ⊢
  exact pathResponse_validates hbacks hresponse

/-! ### Routes that keep their announce -/

/-- Every route that still runs has an announce that lasts as long. -/
def Answerable (s : LiteNode K m) : Prop :=
  ∀ g e, s.paths.Row g e → s.clockMs < e.expiresMs → s.announceCache.Covers e

omit [Crypto] in
theorem Sheds.answerable (h : Sheds s s') (hs : s.Sound) (hk : s.Keyed) (ha : s.Answerable) :
    s'.Answerable := by
  intro g e hrow hlive
  rw [h.clockMs] at hlive
  exact h.covered hs.paths hk.paths g e hrow hlive (ha g e (h.paths.row hs.paths hrow) hlive)

omit [Crypto] in
/-- Where the cache is no smaller than the path table, a route that is taken finds room for its
announce, and no other route loses its own. -/
theorem answerable_learned (hcap : K.paths ≤ K.announces) (hk : s.Keyed) (ha : s.Answerable)
    (entry : PathEntry) (buffer : PacketBuffer mtu) :
    (s.learned entry buffer s.clockMs).Answerable := by
  obtain ⟨_, hrows⟩ := PathTable.insertOrUpdate_spec s.paths entry s.clockMs
  have hkeyed := PathTable.keyed_insertOrUpdate hk.paths entry s.clockMs
  unfold learned
  simp only
  split
  · rename_i htaken
    obtain ⟨g₀, j, hentry, _⟩ := PathTable.row_insertOrUpdate htaken
    set paths := (s.paths.insertOrUpdate entry s.clockMs).1 with hpaths
    set retained := s.announceCache.retainPaths paths s.clockMs with hretained
    -- the announces that are left all belong to routes, and there is a route for each place
    have hroom : (∀ i a, List.Vector.get (AnnounceCache.expire retained s.clockMs) i = some a →
        a.destinationHash ≠ entry.destinationHash) →
        ∃ i, Slots.free (AnnounceCache.expire retained s.clockMs) = some i := by
      intro hlacks
      refine Slots.Keyed.exists_free (t := paths.entries) (f := PathEntry.destinationHash)
        ((hk.announceCache.clearWhere _).clearWhere _) hcap (fun i a hget => ?_) hentry hlacks
      have hlive := (Slots.get_clearWhere_eq_some.mp (Slots.get_clearWhere_eq_some.mp hget).1).2
      obtain ⟨e, he⟩ := Option.isSome_iff_exists.mp (Option.isNone_eq_false_iff.mp hlive)
      obtain ⟨⟨_, j', hj', _⟩, hdest, _⟩ := PathTable.getLive_eq_some he
      exact ⟨j', e, hj', hdest⟩
    intro g e hrow hlive
    by_cases hdest : e.destinationHash = entry.destinationHash
    · obtain rfl := PathTable.row_unique hkeyed ⟨j, hentry, rfl⟩ hrow hdest.symm
      exact AnnounceCache.covers_insert_self hroom rfl le_rfl
    · rcases hrows g e hrow with hold | ⟨rfl, _⟩
      · exact AnnounceCache.covers_insert_of_ne hroom
          (AnnounceCache.covers_retainPaths (ha g e hold hlive) hkeyed hrow hlive) hlive hdest
      · exact absurd rfl hdest
  · rename_i hrefused
    intro g e hrow hlive
    rcases hrows g e hrow with hold | ⟨_, htaken⟩
    · exact ha g e hold hlive
    · exact absurd htaken hrefused

structure UsesRoute (s : LiteNode K m) (h : Heard) (nowMs : Nat) : Prop where
  forwarded : h.header.flags.packetType = .data ∨ h.header.flags.packetType = .linkRequest
  addressed : h.view.header.transportId = some s.transportId
  route : (s.paths.getLive h.header.destinationHash nowMs).isSome = true

omit [Crypto] in
theorem UsesRoute.of_rows {h : Heard} {nowMs : Nat} (hu : s'.UsesRoute h nowMs)
    (hid : s'.transportId = s.transportId) (hk : s.Keyed)
    (hrows : ∀ g e, s'.paths.Row g e → s.paths.Row g e) : s.UsesRoute h nowMs where
  forwarded := hu.forwarded
  addressed := hid ▸ hu.addressed
  route := by
    obtain ⟨e, he⟩ := Option.isSome_iff_exists.mp hu.route
    obtain ⟨⟨g, hrow⟩, hdest, hlive⟩ := PathTable.getLive_eq_some he
    rw [← hdest, PathTable.getLive_of_row hk.paths (hrows g e hrow) hlive]
    rfl

theorem UsesRoute.of_change {h : Heard} (hstep : Change c s s') (hs : s.Sound) (hk : s.Keyed)
    (hheard : c.heard = some h) (hu : s'.UsesRoute h c.nowMs) : s.UsesRoute h c.nowMs := by
  have hid := hstep.grows.transportId
  cases hstep.routing with
  | quiet hq => exact hu.of_rows hid hk fun g e hrow => hq.paths.row hs.paths hrow
  | learn hheard' ha =>
      obtain rfl := Option.some.inj (hheard.symm.trans hheard')
      have htype := hu.forwarded
      rw [ha.isAnnounce] at htype
      rcases htype with htype | htype <;> cases htype
  | touchPath hheard' htype haddressed hroute =>
      obtain rfl := Option.some.inj (hheard.symm.trans hheard')
      exact ⟨htype, haddressed, hroute⟩
  | other _ hpaths => exact hu.of_rows hid hk fun g e hrow => hpaths ▸ hrow

theorem Change.answerable (hcap : K.paths ≤ K.announces) (hstep : Change c s s')
    (hclock : s.clockMs = c.nowMs) (hs : s.Sound) (hk : s.Keyed)
    (hunused : ∀ h, c.heard = some h → ¬ s.UsesRoute h c.nowMs) (ha : s.Answerable) :
    s'.Answerable := by
  cases hstep.routing with
  | quiet hq => exact hq.toSheds.answerable hs hk ha
  | learn =>
      rw [← hclock]
      exact answerable_learned hcap hk ha _ _
  | touchPath hheard htype haddressed hroute =>
      exact absurd ⟨htype, haddressed, hroute⟩ (hunused _ hheard)
  | other hnow hpaths hcache =>
      rw [Answerable, hnow, hpaths, hcache]
      exact ha

theorem Changes.answerable (hcap : K.paths ≤ K.announces) (h : Changes c s s')
    (hclock : s.clockMs = c.nowMs) (hs : s.Sound) (hk : s.Keyed)
    (hunused : ∀ h, c.heard = some h → ¬ s.UsesRoute h c.nowMs) (ha : s.Answerable) :
    s'.Answerable := by
  induction h using Relation.ReflTransGen.head_induction_on with
  | refl => exact ha
  | head hstep _ ih =>
      exact ih (hstep.grows.clockMs.trans hclock) (hstep.sound hs) (hstep.keyed hs hk)
        (fun h hheard hu => hunused h hheard (hu.of_change hstep hs hk hheard))
        (hstep.answerable hcap hclock hs hk hunused ha)

end LiteNode

def Operation.UsesRoute {K : Capacities} {m : Model} (s : LiteNode K m) (op : Operation m) : Prop :=
  ∃ h t, op.Hears s h ∧ op.time = some t ∧ s.UsesRoute h t

/-- Every announce that an operation takes in leaves room for a transport id. -/
def Operation.LeavesRoom {K : Capacities} {m : Model} (s : LiteNode K m)
    (op : Operation m) : Prop :=
  ∀ h, op.Hears s h → h.header.flags.packetType = .announce →
    headerMaxsize + h.view.payload.length ≤ mtu

namespace LiteNode

variable {K : Capacities} {m : Model} {s s' : LiteNode K m} {c : Cause}

theorem cacheRoomy_learned (hs : s.CacheRoomy) {h : Heard} {entry : PathEntry}
    {buffer : PacketBuffer mtu} (hannounced : Announced h entry) (hbuffer : buffer.bytes = h.raw)
    (hroom : headerMaxsize + h.view.payload.length ≤ mtu) (nowMs : Nat) :
    (s.learned entry buffer nowMs).CacheRoomy := by
  have hraw : Roomy buffer.bytes := ⟨h.view, hbuffer ▸ hannounced.parsed.view, hroom⟩
  unfold learned
  simp only
  split
  · exact AnnounceCache.all_insert (Slots.All.clearWhere hs _) hraw nowMs
  · exact hs

theorem Change.cacheRoomy (h : Change c s s')
    (hroom : ∀ hd, c.heard = some hd → hd.header.flags.packetType = .announce →
      headerMaxsize + hd.view.payload.length ≤ mtu) (hs : s.CacheRoomy) : s'.CacheRoomy := by
  cases h.routing with
  | quiet h => exact fun i a ha => hs i a (h.announceCache i a ha)
  | @learn hd _ _ hheard hannounced hbuffer =>
      exact cacheRoomy_learned hs hannounced hbuffer (hroom hd hheard hannounced.isAnnounce) _
  | touchPath => exact hs
  | other _ _ hcache =>
      rw [CacheRoomy, hcache]
      exact hs

theorem cacheRoomy_of_runs {s₀ : LiteNode K m} {ops : List (Operation m)} (hfresh : s₀.Fresh)
    (hrun : Runs Operation.perform Operation.LeavesRoom s₀ ops s) : s.CacheRoomy := by
  have hall := hrun.invariant (I := fun s => s.Consistent ∧ s.CacheRoomy) ?_
    ⟨hfresh.consistent, ?_⟩
  · exact hall.2
  · intro s op hroom h
    obtain ⟨hs, hroomy⟩ := h
    refine ⟨Operation.perform_consistent hs op, ?_⟩
    exact Operation.perform_keeps hs hroomy (fun _ _ => hroomy)
      (fun hheard _ _ hroomy hstep => hstep.cacheRoomy (fun hd hc => hroom hd (hheard hd hc)) hroomy)
      fun h i a ha => hroomy i a (h.announceCache i a ha)
  · cases hfresh <;> exact Slots.all_empty

end LiteNode

end

/-! ### A route that was learned, and one that was used -/

section Witness

open LiteNode

/-- The node once it has heard the known identity's first announce. -/
def learnedEndpoint : LiteNode smallCapacities .endpoint :=
  letI := KnownIdentity.crypto
  (Operation.ingest (KnownIdentity.packet 0x01 0x00 0x00 KnownIdentity.first) ⟨1, none⟩ 1000 none
    none).perform smallEndpoint

/-- The same node once it has forwarded a data packet along the route. -/
def forwardedEndpoint : LiteNode smallCapacities .endpoint :=
  letI := KnownIdentity.crypto
  (Operation.ingest KnownIdentity.dataPacket ⟨1, none⟩ 2000 none none).perform learnedEndpoint

theorem reaches_learnedEndpoint :
    letI := KnownIdentity.crypto
    smallEndpoint.Reaches [.ingest (KnownIdentity.packet 0x01 0x00 0x00 KnownIdentity.first) ⟨1, none⟩
      1000 none none] learnedEndpoint :=
  letI := KnownIdentity.crypto
  .cons trivial (.nil _)

theorem reaches_forwardedEndpoint :
    letI := KnownIdentity.crypto
    ∃ ops, smallEndpoint.Reaches ops forwardedEndpoint := by
  let _ := KnownIdentity.crypto
  have hrun : learnedEndpoint.Reaches [.ingest KnownIdentity.dataPacket ⟨1, none⟩ 2000 none none]
      forwardedEndpoint := .cons trivial (.nil _)
  exact ⟨_, reaches_learnedEndpoint.append hrun⟩

theorem routes_agree_with_cache_learnedEndpoint :
    ∃ path cached, learnedEndpoint.paths.getLive KnownIdentity.destination 2000 = some path ∧
      learnedEndpoint.announceCache.get KnownIdentity.destination 2000 = some cached ∧
      cached.hops = path.hops := by
  let _ := KnownIdentity.crypto
  obtain ⟨path, hpath⟩ := Option.isSome_iff_exists.mp (show
    (learnedEndpoint.paths.getLive KnownIdentity.destination 2000).isSome = true by decide +kernel)
  obtain ⟨cached, hcached⟩ := Option.isSome_iff_exists.mp (show
    (learnedEndpoint.announceCache.get KnownIdentity.destination 2000).isSome = true by
      decide +kernel)
  exact ⟨path, cached, hpath, hcached,
    ((routes_agree_with_cache fresh_smallEndpoint reaches_learnedEndpoint).1 2000 _ path cached hpath
      hcached).1⟩

def hearsFirst : Operation .endpoint :=
  .ingest (KnownIdentity.packet 0x01 0x00 0x00 KnownIdentity.first) ⟨1, none⟩ 1000 none none

theorem view_of_hearsFirst :
    letI := KnownIdentity.crypto
    ∀ h, hearsFirst.Hears smallEndpoint h →
      h.header.flags.packetType = .announce ∧ h.view.payload.length = 148 := by
  let _ := KnownIdentity.crypto
  intro h hhears
  have hraw : h.raw = KnownIdentity.packet 0x01 0x00 0x00 KnownIdentity.first :=
    Option.some.inj (hhears.packet.symm.trans (by decide +kernel))
  have hview := hhears.view
  rw [hraw] at hview
  have hparsed : (PacketView.parse (KnownIdentity.packet 0x01 0x00 0x00 KnownIdentity.first)).map
      (fun v => (v.header.flags.packetType, v.payload.length)) = .ok (.announce, 148) := by
    decide +kernel
  rw [hview] at hparsed
  obtain ⟨htype, hlength⟩ := Prod.mk.inj (Except.ok.inj hparsed)
  rw [hhears.header]
  exact ⟨htype, hlength⟩

theorem leavesRoom_hearsFirst :
    letI := KnownIdentity.crypto
    Runs Operation.perform Operation.LeavesRoom smallEndpoint [hearsFirst] learnedEndpoint := by
  let _ := KnownIdentity.crypto
  have hroom : hearsFirst.LeavesRoom smallEndpoint := by
    intro h hhears _
    rw [(view_of_hearsFirst h hhears).2]
    decide
  exact .cons hroom (.nil _)

end Witness

end ReticulumLite
