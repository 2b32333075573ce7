import ReticulumLite.Proof.Integrity

/-!
# Ingests and ticks are sequences of changes

The clock is set first; everything after it is a sequence of changes at that time.
-/

namespace ReticulumLite

open Bounded

namespace LiteNode

variable {K : Capacities} {m : Model} {s s' : LiteNode K m} {c : Cause}

/-! ### Expiry -/

theorem quiet_refreshDiscoveries (s : LiteNode K m) (nowMs : Nat) :
    Quiet nowMs s (s.refreshDiscoveries nowMs) := by
  unfold refreshDiscoveries
  simp only
  split
  · exact .of_discoveries (Discoveries.renews_expire _ _) fun _ h => h.expire _
  · exact .of_discoveries ((Discoveries.renews_clear _).trans (Discoveries.renews_expire _ _))
      fun _ _ => (Discoveries.waiting_replicate _).expire _

theorem quiet_expireTables (s : LiteNode K m) :
    Quiet s.clockMs s
      { s.expireTables s.clockMs with announceSchedule := s.announceSchedule } :=
  { quiet_refreshDiscoveries s s.clockMs with
    packetHashes := .inr rfl
    paths := .clearWhere _
    announceCache := (Slots.within_clearWhere _ _).trans (Slots.within_clearWhere _ _)
    covered := fun _ hkeyed _ _ hrow hlive hcovers =>
      AnnounceCache.covers_retainPaths (AnnounceCache.covers_expire hcovers hlive)
        (hkeyed.clearWhere _) hrow hlive
    reverse := .clearWhere _
    links := .clearWhere _
    links_live := fun _ _ hrow hlive => LinkTable.row_expire.mpr ⟨hrow, hlive⟩ }

theorem expireTables_changes [Crypto] (hcause : c.Concerns .announce) (hclock : s.clockMs = c.nowMs) :
    Changes c s (s.expireTables c.nowMs) := by
  have hquiet : Changes c s
      { s.expireTables c.nowMs with announceSchedule := s.announceSchedule } :=
    Quiet.changes (hclock ▸ quiet_expireTables s)
  exact hquiet.tail (.lessen hcause (AnnounceSchedule.lessens_clearWhere _ _))

/-! ### Due announces -/

/-- What an announce may name when it is put back into the schedule. -/
def Owed (s : LiteNode K m) (announce : ScheduledAnnounce) : Prop :=
  s.Present announce.interfaceId ∧
    ∀ b : Fin requesters, announce.pendingTargets.getLsbD b.val = true → s.Outgoing b

theorem Owed.grows {announce : ScheduledAnnounce} (h : s.Owed announce) (hgrows : Grows s s') :
    s'.Owed announce :=
  ⟨hgrows.present h.1, fun b hb => hgrows.outgoing (h.2 b hb)⟩

theorem outgoing_of_announceTargets {source : InterfaceId} {b : Fin requesters}
    (h : (s.announceTargets source).getLsbD b.val = true) : s.Outgoing b := by
  intro r hr
  unfold announceTargets at h
  simp only [hr, Router.announceTargets] at h
  split at h
  · simp at h
  rw [getLsbD_maskOf, Option.any_eq_true] at h
  obtain ⟨target, hget, hallowed⟩ := h
  refine ⟨target, hget, ?_⟩
  by_contra hdirection
  unfold announceEgressAllowed at hallowed
  rw [not_and_or, Bool.not_eq_true, Bool.not_eq_true] at hdirection
  rw [if_pos hdirection] at hallowed
  cases hallowed

section

variable [Crypto]

theorem enqueueRebroadcast_changes (htick : c.IsTick) (hm : m = .endpoint) (hs : s.Sound)
    (id : InterfaceId) (packet : PacketBuffer mtu) :
    Changes c s (s.enqueue id packet .announceRebroadcast).1 := by
  rcases enqueueWithLifetime_spec s id packet .announceRebroadcast _ rfl with
    ⟨_, hcounts⟩ | ⟨_, wire, _, _, hsend⟩
  · exact (Quiet.of_onlyCounts hcounts).changes
  · exact .single (.rebroadcast htick.ticking hm hsend (issued_packetLifetime hs packet _) rfl)

variable {announce : ScheduledAnnounce}

section

variable (htick : c.IsTick)

include htick

theorem sendDue_changes (hs : s.Sound) (howed : s.Owed announce) (nowMs : Nat) :
    Changes c s (s.sendDue announce nowMs).1 ∧
      (s.sendDue announce nowMs).1.Owed (s.sendDue announce nowMs).2 := by
  unfold sendDue
  split
  · refine ⟨.refl, howed.1, fun b hb => ?_⟩
    rw [BitVec.getLsbD_or, Bool.or_eq_true] at hb
    exact hb.elim (howed.2 b) outgoing_of_announceTargets
  · rename_i hrouter
    simp only
    have hsent : Changes c s (s.enqueue announce.interfaceId announce.packet
        (if announce.blockRebroadcast then .pathResponse else .announceRebroadcast)).1 := by
      split
      · exact enqueue_changes hs nofun
      · rename_i hblock
        have hm : m = .endpoint := by
          cases m with
          | endpoint => rfl
          | router => exact absurd ⟨(Bool.not_eq_true _).mp hblock, rfl⟩ hrouter
        exact enqueueRebroadcast_changes htick hm hs _ _
    exact ⟨hsent, howed.grows hsent.grows⟩

theorem rescheduleDue_changes (howed : s.Owed announce) (pathHash : Hash32) :
    Changes c s (s.rescheduleDue announce pathHash c.nowMs) := by
  unfold rescheduleDue
  simp only
  split
  · exact .single (.schedule (Cause.concerns_of_none htick.heard _) howed.1 howed.2)
  split
  · exact .single (.schedule (Cause.concerns_of_none htick.heard _) howed.1 howed.2)
  · exact .refl

theorem processDue_changes (hs : s.Sound) (howed : s.Owed announce) :
    Changes c s (s.processDue announce c.nowMs) := by
  unfold processDue
  split
  · exact .refl
  split
  · exact .refl
  · obtain ⟨hsent, howed'⟩ := sendDue_changes htick hs howed c.nowMs
    exact hsent.trans (rescheduleDue_changes htick howed' _)

theorem dueLoop_changes (rounds : Nat) (hs : s.Sound) (hp : s.Placed) :
    Changes c s (dueLoop c.nowMs rounds s) := by
  induction rounds generalizing s with
  | zero => exact .refl
  | succ rounds ih =>
      have hpop : Change c s
          { s with announceSchedule := (s.announceSchedule.popDue c.nowMs).1 } :=
        .lessen (Cause.concerns_of_none htick.heard _) (AnnounceSchedule.lessens_popDue _ _)
      have howed : ∀ e, (s.announceSchedule.popDue c.nowMs).2 = some e → s.Owed e :=
        (AnnounceSchedule.all_popDue hp.schedule c.nowMs).2
      unfold dueLoop
      split
      · rename_i schedule heq
        rw [heq] at hpop
        exact .single hpop
      · rename_i schedule announce heq
        rw [heq] at hpop howed
        have hprocess : Changes c s _ := .head hpop
          (processDue_changes htick (hpop.sound hs) ((howed announce rfl).grows hpop.grows))
        exact hprocess.trans (ih (Changes.sound hprocess hs) (Changes.placed hprocess hs hp))

/-! ### Releases -/

theorem releaseLoop_changes {r : Router} {slot : Fin requesters} {target : InterfaceConfig}
    (hordered : r.Ordered) (htarget : r.registry.get slot = some target)
    (hopen : (r.announceGates.get slot).isOpen c.nowMs = true) (rounds : Nat) (hs : s.Sound)
    (hrouter : s.router? = some r) (hnone : s.rebroadcastQueued target.id = false) :
    Changes c s (releaseLoop slot target c.nowMs rounds s) := by
  induction rounds generalizing s with
  | zero => exact .refl
  | succ rounds ih =>
      have hcause : c.Concerns .announce := Cause.concerns_of_none htick.heard _
      have hrelease : Change c s
          { s with announceSchedule := (s.announceSchedule.releasePending slot c.nowMs).1 } :=
        .lessen hcause (AnnounceSchedule.lessens_releasePending _ _ _)
      unfold releaseLoop
      split
      · rename_i schedule heq
        rw [heq] at hrelease
        exact .single hrelease
      rename_i schedule announce heq
      rw [heq] at hrelease
      refine .head hrelease ?_
      have hs' := hrelease.sound hs
      simp only
      split
      · -- the announce is out of date: it is dropped and the next one is tried
        have hdropped : Change c { s with announceSchedule := schedule }
            { s with announceSchedule := schedule.remove announce.destinationHash } :=
          .lessen hcause (AnnounceSchedule.lessens_clearWhere _ _)
        exact .head hdropped (ih (hdropped.sound hs') hrouter hnone)
      split
      · rename_i s' hsent
        exact (Quiet.of_onlyCounts (onlyCounts_of_refused hsent)).changes
      · rename_i s' hsent
        obtain ⟨wire, hwire, hsend⟩ := sends_of_queued hsent
        rw [← wireFrame_len hrouter (hordered.interface htarget) hwire]
        have hrelease := fun hid => Change.release (s := { s with announceSchedule := schedule })
          (c := c) htick.ticking hrouter htarget hopen hnone hid hsend
          (issued_packetLifetime hs' announce.packet .announceRebroadcast)
        exact .single (hrelease rfl rfl)

theorem releaseSlot_changes (hs : s.Sound) (hp : s.Placed) (slot : Fin requesters) :
    Changes c s (releaseSlot c.nowMs s slot) := by
  unfold releaseSlot
  split
  · exact .refl
  rename_i r hr
  split
  · exact .refl
  rename_i target htarget
  split
  · exact .refl
  rename_i hgate
  rw [not_or, Bool.not_eq_false, Bool.not_eq_true] at hgate
  exact releaseLoop_changes htick (hp.ordered r hr) htarget hgate.1 _ hs hr hgate.2

theorem releaseGatedAnnounces_changes (hs : s.Sound) (hp : s.Placed) :
    Changes c s (s.releaseGatedAnnounces c.nowMs) :=
  foldl_changes (f := id) (P := fun s => s.Sound ∧ s.Placed)
    (fun _ _ h hsp => ⟨h.sound hsp.1, h.placed hsp.1 hsp.2⟩)
    (fun _ hsp slot => releaseSlot_changes htick hsp.1 hsp.2 slot) _ s ⟨hs, hp⟩

end

/-! ### Ticks -/

omit [Crypto] in
theorem Placed.setClock (hp : s.Placed) (nowMs : Nat) : { s with clockMs := nowMs }.Placed :=
  { hp with }

omit [Crypto] in
theorem Sound.setClock (hs : s.Sound) (nowMs : Nat) : { s with clockMs := nowMs }.Sound :=
  { hs with }

theorem tickTables_changes (htick : c.IsTick) (hs : s.Sound) (hp : s.Placed) :
    Changes c { s with clockMs := c.nowMs } (s.tickTables c.nowMs) := by
  have hexpired : Changes c { s with clockMs := c.nowMs }
      (({ s with clockMs := c.nowMs }.expireTables c.nowMs).expireOutbound c.nowMs) :=
    (expireTables_changes (s := { s with clockMs := c.nowMs })
      (Cause.concerns_of_none htick.heard _) rfl).tail (.quiet (.expireOutbound _ _))
  have hs' := hs.setClock c.nowMs
  exact hexpired.trans (dueLoop_changes htick _ (Changes.sound hexpired hs')
    (Changes.placed hexpired hs' (hp.setClock _)))

theorem tick_changes (hs : s.Sound) (hp : s.Placed) (nowMs : Nat) :
    Changes ⟨nowMs, none, true⟩ { s with clockMs := nowMs } (s.tick nowMs) := by
  have htick : Cause.IsTick ⟨nowMs, none, true⟩ := ⟨rfl, rfl⟩
  have htables := tickTables_changes htick hs hp
  have hs' := hs.setClock nowMs
  exact htables.trans (releaseGatedAnnounces_changes htick (htables.sound hs')
    (htables.placed hs' (hp.setClock nowMs)))

/-! ### Ingests -/

/-- The packet an ingest finds in a frame. -/
structure Hears (s : LiteNode K m) (raw : List UInt8) (rx : RxMeta) (h : Heard) : Prop where
  packet : s.unwrapFrame rx.interfaceId raw = some h.raw
  view : PacketView.parse h.raw = .ok h.view
  header : h.header = (s.observeInterface rx).countHop h.view.header rx.interfaceId
  interfaceId : h.interfaceId = rx.interfaceId

variable {rx : RxMeta} {h : Heard}

theorem Hears.unique {frame : List UInt8} {h' : Heard} (hh : s.Hears frame rx h)
    (hh' : s.Hears frame rx h') : h = h' := by
  obtain ⟨raw, view, header, id⟩ := h
  obtain ⟨raw', view', header', id'⟩ := h'
  obtain rfl : raw = raw' := Option.some.inj (hh.packet.symm.trans hh'.packet)
  obtain rfl : view = view' := Except.ok.inj (hh.view.symm.trans hh'.view)
  obtain rfl : header = header' := hh.header.trans hh'.header.symm
  obtain rfl : id = id' := hh.interfaceId.trans hh'.interfaceId.symm
  rfl

omit [Crypto] in
theorem like_observe (i : Interfaces m) (rx : RxMeta) (config : LiteConfig) (clearMtu : Nat) :
    i.Like (i.observe rx config clearMtu) := by
  cases i with
  | router r => exact .refl _
  | endpoint facts =>
      simp only [Interfaces.observe]
      repeat' split
      all_goals trivial

omit [Crypto] in
theorem ifac_observe (i : Interfaces m) (rx : RxMeta) (config : LiteConfig) (clearMtu : Nat)
    (id : InterfaceId) : (i.observe rx config clearMtu).ifac id config = i.ifac id config := by
  cases i with
  | router r => rfl
  | endpoint facts =>
      simp only [Interfaces.observe]
      repeat' split
      all_goals rfl

section

variable (s : LiteNode K m) (rx : RxMeta)

omit [Crypto] in
theorem quiet_prepareIngest (nowMs : Nat) :
    Quiet nowMs { s with clockMs := nowMs } (s.prepareIngest rx nowMs) := by
  have hobserve : Quiet nowMs { s with clockMs := nowMs }
      ({ s with clockMs := nowMs }.observeInterface rx) :=
    { Quiet.refl _ with interfaces := like_observe _ _ _ _ }
  exact (hobserve.trans (quiet_refreshDiscoveries _ _)).trans (.expireOutbound _ _)

omit [Crypto] in
theorem prepareIngest_eq (nowMs : Nat) :
    ∃ outbound stats, s.prepareIngest rx nowMs =
        { ({ s with clockMs := nowMs }.observeInterface rx).refreshDiscoveries nowMs with
          outbound, stats } ∧
      outbound.toList = s.outbound.toList.filter fun q =>
        !(({ s with clockMs := nowMs }.observeInterface rx).refreshDiscoveries nowMs).staleFrame
          nowMs q :=
  expireOutbound_spec _ nowMs

omit [Crypto] in
@[simp] theorem interfaceId_knownMeta :
    (s.knownMeta rx).interfaceId = rx.interfaceId := by
  unfold knownMeta
  split <;> rfl

theorem unwrapFrame_prepareIngest (nowMs : Nat) {frame : List UInt8} :
    (s.prepareIngest rx nowMs).unwrapFrame rx.interfaceId frame =
      s.unwrapFrame rx.interfaceId frame := by
  obtain ⟨_, _, heq, _⟩ := prepareIngest_eq s rx nowMs
  rw [heq]
  unfold unwrapFrame refreshDiscoveries observeInterface
  rw [ifac_observe]

omit [Crypto] in
theorem countHop_prepareIngest (nowMs : Nat) (header : PacketHeader) (id : InterfaceId) :
    (s.prepareIngest rx nowMs).countHop header id = (s.observeInterface rx).countHop header id := by
  obtain ⟨_, _, heq, _⟩ := prepareIngest_eq s rx nowMs
  rw [heq]
  rfl

end

omit [Crypto] in
theorem routerIngress_spec {id : InterfaceId} {wireLen : Nat} {s' : LiteNode K m}
    {admitted : Except TransportError Bool} (h : s.routerIngress id wireLen = (s', admitted)) :
    OnlyCounts s s' ∧ (admitted = .ok true → s' = s ∧ s.Present id) := by
  have hself := OnlyCounts.refl s
  unfold routerIngress at h
  split at h
  · rename_i hr
    cases h
    exact ⟨hself, fun _ => ⟨rfl, by simp [Present, hr]⟩⟩
  rename_i r hr
  simp only at h
  split at h
  · cases h
    exact ⟨(hself.countRouter _).count _, nofun⟩
  rename_i i hi
  split at h
  · cases h
    exact ⟨(hself.countRouter _).count _, nofun⟩
  rename_i honline
  split at h
  · cases h
    exact ⟨(hself.countRouter _).count _, nofun⟩
  split at h
  · cases h
    exact ⟨(hself.countRouter _).count _, nofun⟩
  · cases h
    refine ⟨hself, fun _ => ⟨rfl, fun r' hr' => ?_⟩⟩
    obtain rfl := Option.some.inj (hr.symm.trans hr')
    exact ⟨i, hi, (Bool.not_eq_false _).mp honline⟩

omit [Crypto] in
theorem reportHandled_node (handled : Handled K m) (raw : List UInt8) (header : PacketHeader)
    (endpoint : Option (PacketBuffer mtu)) :
    (reportHandled handled raw header endpoint).node = handled.1 ∨
      (reportHandled handled raw header endpoint).node = handled.1.countValidationFailure := by
  obtain ⟨s, result⟩ := handled
  unfold reportHandled
  simp only
  repeat' split
  all_goals first | exact .inl rfl | exact .inr rfl

section

variable (hs : s.Sound) (hheard : c.heard = some h) (hview : PacketView.parse h.raw = .ok h.view)
  (hheader : h.header = s.countHop h.view.header rx.interfaceId)
  (hpresent : s.Present rx.interfaceId) (hrx : h.interfaceId = rx.interfaceId)

include hs hheard hview hheader hpresent hrx

theorem ingestFresh_changes (endpoint : Option (PacketBuffer mtu)) :
    Changes c s (s.ingestFresh h.raw h.view rx c.nowMs endpoint).node := by
  have hparsed : h.Parsed := ⟨hview, by rw [hheader]; rfl⟩
  unfold ingestFresh
  simp only [← hheader]
  split
  · exact .refl
  · have hhandled := handlePacket_changes (c := c) hs hheard hparsed hpresent hrx.symm
    rcases reportHandled_node (s.handlePacket h.raw h.view h.header rx c.nowMs) h.raw h.header
      endpoint with hnode | hnode
    · rw [hnode]
      exact hhandled
    · rw [hnode]
      exact hhandled.tail (.quiet (.count _ _))

theorem ingestUnlessSeen_changes (localLink : Option Hash16)
    (endpoint : Option (PacketBuffer mtu)) :
    Changes c s (s.ingestUnlessSeen h.raw h.view rx c.nowMs localLink endpoint).node := by
  unfold ingestUnlessSeen
  split
  · exact ingestFresh_changes hs hheard hview hheader hpresent hrx endpoint
  simp only
  have hrecord : Changes c s
      (s.recordHash (packetHash h.raw h.view.header.flags.headerType) c.nowMs).1 :=
    .single (.record _)
  split
  · exact hrecord.trans (ingestFresh_changes (s := (s.recordHash _ c.nowMs).1) { hs with } hheard hview
      hheader hpresent hrx endpoint)
  · exact hrecord.tail (.quiet .inert)

end

theorem ingestPacket_changes (hs : s.Sound) {raw : List UInt8} (hpresent : s.Present rx.interfaceId)
    {heard : Option Heard}
    (hheard : ∀ view, PacketView.parse raw = .ok view →
      heard = some ⟨raw, view, s.countHop view.header rx.interfaceId, rx.interfaceId⟩) (nowMs : Nat)
    (localLink : Option Hash16) (endpoint : Option (PacketBuffer mtu)) :
    Changes ⟨nowMs, heard, false⟩ s (s.ingestPacket raw rx nowMs localLink endpoint).node := by
  unfold ingestPacket
  split
  · exact .refl
  split
  · exact .refl
  rename_i view hview
  obtain rfl := hheard view hview
  simp only
  split
  · exact .refl
  split
  · unfold capturePlain
    repeat' split
    all_goals exact .refl
  refine Relation.ReflTransGen.head (b := s.countAccepted) (.quiet .inert) ?_
  split
  · exact Quiet.changes .inert
  · exact ingestUnlessSeen_changes (c := ⟨nowMs, some ⟨raw, view, _, _⟩, false⟩)
      (s := s.countAccepted) { hs with } rfl hview rfl hpresent rfl localLink endpoint

theorem ingestInner_changes_of_hears (hs : s.Sound) {raw : List UInt8} {heard : Option Heard}
    (hheard : ∀ h, s.Hears raw rx h → heard = some h) (nowMs : Nat) (localLink : Option Hash16)
    (endpoint : Option (PacketBuffer mtu)) :
    Changes ⟨nowMs, heard, false⟩ { s with clockMs := nowMs }
      (s.ingestInner raw rx nowMs localLink endpoint).node := by
  have hprepare := quiet_prepareIngest s rx nowMs
  have hs' := hprepare.sound (hs.setClock nowMs)
  have hchanges : Changes ⟨nowMs, heard, false⟩ { s with clockMs := nowMs }
      (s.prepareIngest rx nowMs) := hprepare.changes
  unfold ingestInner ingestPrepared
  cases hingress : (s.prepareIngest rx nowMs).routerIngress rx.interfaceId raw.length with
  | mk s₁ admitted =>
  obtain ⟨hcounts, hadmitted⟩ := routerIngress_spec hingress
  have hcounted : Changes ⟨nowMs, heard, false⟩ { s with clockMs := nowMs } s₁ :=
    hchanges.tail (.quiet (.of_onlyCounts hcounts))
  cases admitted with
  | error e => exact hcounted
  | ok admitted =>
  cases admitted with
  | false => exact hcounted
  | true =>
      obtain ⟨rfl, hpresent⟩ := hadmitted rfl
      have hmeta := interfaceId_knownMeta (s.prepareIngest rx nowMs) rx
      simp only [hmeta, unwrapFrame_prepareIngest]
      split
      · exact hchanges.tail (.quiet .inert)
      rename_i packet hpacket
      refine hchanges.trans (ingestPacket_changes hs' (hmeta ▸ hpresent) (fun view hview => ?_) nowMs
        localLink endpoint)
      rw [hmeta]
      exact hheard _ ⟨hpacket, hview, countHop_prepareIngest _ _ _ _ _, rfl⟩

theorem ingestInner_changes (hs : s.Sound) (raw : List UInt8) (rx : RxMeta) (nowMs : Nat)
    (localLink : Option Hash16) (endpoint : Option (PacketBuffer mtu)) :
    ∃ heard, Changes ⟨nowMs, heard, false⟩ { s with clockMs := nowMs }
        (s.ingestInner raw rx nowMs localLink endpoint).node ∧
      ∀ h, heard = some h → s.Hears raw rx h := by
  by_cases hex : ∃ h, s.Hears raw rx h
  · obtain ⟨h, hh⟩ := hex
    refine ⟨some h, ingestInner_changes_of_hears hs (fun h' hh' => ?_) nowMs localLink endpoint, ?_⟩
    · rw [hh.unique hh']
    · rintro h' ⟨⟩
      exact hh
  · refine ⟨none, ingestInner_changes_of_hears hs (fun h' hh' => absurd ⟨h', hh'⟩ hex) nowMs localLink
      endpoint, ?_⟩
    rintro h' ⟨⟩

end

end LiteNode

end ReticulumLite
