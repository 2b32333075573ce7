import ReticulumLite.Proof.Due

/-!
# The work of a tick

A tick has three loops: over the frames that have run out, over the announces that are due, and for
each interface over the announces owed to it. A relation lists the rounds of each loop without a
bound; the fixed number of rounds the model gives it is enough, so every loop ends. At the last time
there is, an announce put back would be due again at once, but everything has run out by then and is
dropped first.
-/

namespace ReticulumLite

open Bounded

/-! ### What sending changes -/

def Interfaces.Carries {m : Model} (i j : Interfaces m) : Prop :=
  ∀ id, j.online id = i.online id ∧ ∀ d, j.deliveryIsCurrent id d = i.deliveryIsCurrent id d

theorem Interfaces.Like.carries {m : Model} {i j : Interfaces m} (h : i.Like j) : i.Carries j :=
  fun id => ⟨h.online id, h.deliveryIsCurrent id⟩

namespace LiteNode

variable {K : Capacities} {m : Model} {s s' s'' : LiteNode K m} {nowMs : Nat}

/-- Sending: the schedule and the queue change, with their numbers and counters, and nothing else
does. -/
structure Posts (s s' : LiteNode K m) : Prop where
  rest : ∃ announceSchedule outbound stats lastDeliveryIdentity interfaces, s' = { s with
    announceSchedule, outbound, stats, lastDeliveryIdentity, interfaces }
  carries : s.interfaces.Carries s'.interfaces

namespace Posts

theorem refl (s : LiteNode K m) : Posts s s :=
  ⟨⟨_, _, _, _, _, rfl⟩, fun _ => ⟨rfl, fun _ => rfl⟩⟩

theorem trans (h : Posts s s') (h' : Posts s' s'') : Posts s s'' := by
  obtain ⟨sch, out, stats, last, ifs, rfl⟩ := h.rest
  obtain ⟨sch', out', stats', last', ifs', rfl⟩ := h'.rest
  refine ⟨⟨_, _, _, _, _, rfl⟩, fun id => ?_⟩
  exact ⟨(h'.carries id).1.trans (h.carries id).1,
    fun d => ((h'.carries id).2 d).trans ((h.carries id).2 d)⟩

theorem schedule (s : LiteNode K m) (announceSchedule : AnnounceSchedule K.scheduled) :
    Posts s { s with announceSchedule } :=
  ⟨⟨_, _, _, _, _, rfl⟩, (refl s).carries⟩

theorem onlyCounts (h : OnlyCounts s s') : Posts s s' := by
  obtain ⟨stats, f, rfl⟩ := h
  exact ⟨⟨_, _, _, _, _, rfl⟩, (Interfaces.like_counted _ f).carries⟩

theorem sends {frame : OutboundFrame} (h : s.Sends frame s') : Posts s s' := by
  obtain ⟨outbound, stats, rfl⟩ := h.rest
  exact ⟨⟨_, _, _, _, _, rfl⟩, (refl s).carries⟩

theorem chargeGate (s : LiteNode K m) (slot : Fin requesters) (target : InterfaceConfig)
    (wireLen now : Nat) : Posts s (s.chargeGate slot target wireLen now) := by
  refine ⟨⟨_, _, _, _, _, rfl⟩, ?_⟩
  unfold LiteNode.chargeGate
  cases s.interfaces with
  | endpoint => exact fun _ => ⟨rfl, fun _ => rfl⟩
  | router r => exact fun _ => ⟨rfl, fun d => by cases d; rfl⟩

theorem staleFrame (h : Posts s s') (q : QueuedOutbound m) :
    s'.staleFrame nowMs q = s.staleFrame nowMs q := by
  have honline : s'.outboundInterfaceOnline = s.outboundInterfaceOnline :=
    funext fun id => (h.carries id).1
  have hlive : s'.outboundLifetimeIsLive = s.outboundLifetimeIsLive := by
    obtain ⟨sch, out, stats, last, ifs, rfl⟩ := h.rest
    unfold outboundLifetimeIsLive stateIsLive
    rw [honline]
  unfold LiteNode.staleFrame
  rw [hlive, (h.carries _).2]

section

variable [Crypto]

theorem enqueue (s : LiteNode K m) (target : InterfaceId) (packet : PacketBuffer mtu)
    (reason : OutboundReason) : Posts s (s.enqueue target packet reason).1 := by
  unfold LiteNode.enqueue
  cases hsent : s.enqueueWithLifetime target packet reason (s.packetLifetime packet reason) with
  | mk s' queued =>
      rcases enqueueWithLifetime_spec s target packet reason _ hsent with
        ⟨_, hcounts⟩ | ⟨_, _, _, _, hsend⟩
      · exact onlyCounts hcounts
      · exact sends hsend

theorem processDue (s : LiteNode K m) (announce : ScheduledAnnounce) (nowMs : Nat) :
    Posts s (s.processDue announce nowMs) := by
  have hsend : Posts s (s.sendDue announce nowMs).1 := by
    unfold sendDue
    split
    · exact refl s
    · exact enqueue s _ _ _
  unfold LiteNode.processDue
  split
  · exact refl s
  split
  · exact refl s
  rename_i path _ _
  rcases rescheduleDue_cases (s.sendDue announce nowMs).1 (s.sendDue announce nowMs).2
    path.packetHash nowMs with ⟨dueMs, heq, _⟩ | ⟨heq, _⟩
  · dsimp only
    rw [heq]
    exact hsend.trans (schedule _ _)
  · dsimp only
    rw [heq]
    exact hsend

end

end Posts

/-! ### Frames that have run out -/

/-- The rounds of the loop over the queue: each finds a frame that has run out, the last finds
none. -/
inductive StaleRun (nowMs : Nat) : LiteNode K m → Nat → LiteNode K m → Prop
  | done {s : LiteNode K m} (h : s.outbound.toList.findIdx? (s.staleFrame nowMs) = none) :
      StaleRun nowMs s 1 s
  | round {s s' : LiteNode K m} {offset n : Nat}
      (h : s.outbound.toList.findIdx? (s.staleFrame nowMs) = some offset)
      (hrest : StaleRun nowMs
        ({ s with outbound := (s.outbound.remove offset).2 }.recordExpiredOutbound) n s') :
      StaleRun nowMs s (n + 1) s'

theorem staleRun_removeFramesLoop {rounds : Nat} (hrounds : s.outbound.len ≤ rounds) :
    ∃ n, n ≤ s.outbound.len + 1 ∧ StaleRun nowMs s n
      (removeFramesLoop (fun s => s.staleFrame nowMs) recordExpiredOutbound rounds s) := by
  induction rounds generalizing s with
  | zero =>
      have hnil : s.outbound.toList = [] := List.length_eq_zero_iff.mp (by simpa using hrounds)
      exact ⟨1, Nat.le_add_left 1 _, .done (by rw [hnil, List.findIdx?_nil])⟩
  | succ rounds ih =>
      unfold removeFramesLoop
      cases hfind : s.outbound.toList.findIdx? (s.staleFrame nowMs) with
      | none => exact ⟨1, Nat.le_add_left 1 _, .done hfind⟩
      | some offset =>
          obtain ⟨hlt, _⟩ := List.findIdx?_eq_some_iff_getElem.mp hfind
          rw [Ring.length_toList] at hlt
          have hlen : (s.outbound.remove offset).2.len = s.outbound.len - 1 := by
            rw [← Ring.length_toList, Ring.toList_remove, List.length_eraseIdx_of_lt
              (by rw [Ring.length_toList]; exact hlt), Ring.length_toList]
          obtain ⟨n, hn, hrun⟩ := ih
            (s := { s with outbound := (s.outbound.remove offset).2 }.recordExpiredOutbound)
            (show (s.outbound.remove offset).2.len ≤ rounds by omega)
          have hn : n ≤ (s.outbound.remove offset).2.len + 1 := hn
          exact ⟨n + 1, by omega, .round hfind hrun⟩

theorem staleRun_expireOutbound (s : LiteNode K m) (nowMs : Nat) :
    ∃ n, n ≤ K.outbound + 1 ∧ StaleRun nowMs s n (s.expireOutbound nowMs) := by
  obtain ⟨n, hn, hrun⟩ : ∃ n, n ≤ s.outbound.len + 1 ∧ StaleRun nowMs s n (s.expireOutbound nowMs) :=
    staleRun_removeFramesLoop le_rfl
  exact ⟨n, hn.trans (Nat.add_le_add_right s.outbound.len_le 1), hrun⟩

section

variable [Crypto]

/-! ### Announces that are due -/

variable {turns : List (LiteNode K m × ScheduledAnnounce)}

theorem DueRun.posts (hrun : DueRun nowMs s turns s') : Posts s s' := by
  induction hrun with
  | done => exact .schedule _ _
  | turn _ _ ih => exact (Posts.schedule _ _).trans ((Posts.processDue _ _ _).trans ih)

theorem DueRun.settled (hrun : DueRun nowMs s turns s') :
    s'.announceSchedule.All fun e => nowMs < e.dueMs ∧ nowMs < e.expiresMs := by
  induction hrun with
  | turn _ _ ih => exact ih
  | @done s schedule h =>
      intro i e he
      have hnone := AnnounceSchedule.popDue_eq_none h
      have hexpired : schedule = s.announceSchedule.expire nowMs := by
        unfold AnnounceSchedule.popDue at h
        dsimp only at h
        split at h
        · exact (Prod.mk.inj h).1.symm
        · rename_i i hi
          obtain ⟨⟨e, he, _⟩, _⟩ := Slots.indexOf_eq_some.mp hi
          rw [he] at h
          cases h
      have he : schedule.get i = some e := he
      rw [hexpired] at he
      obtain ⟨hget, hlive⟩ := AnnounceSchedule.get_expire.mp he
      refine ⟨not_le.mp fun hdue => ?_, hlive⟩
      have hmem := AnnounceSchedule.mem_due.mpr ⟨e, hget, hdue, hlive⟩
      rw [hnone] at hmem
      exact absurd hmem (Finset.notMem_empty i)

theorem DueRun.keeps (hrun : DueRun nowMs s turns s')
    (hkeyed : s.announceSchedule.Keyed ScheduledAnnounce.destinationHash) :
    ∀ turn ∈ turns, ∀ i e, turn.1.announceSchedule.get i = some e →
      (turn.1.processDue turn.2 nowMs).announceSchedule.get i = some e := by
  induction hrun with
  | done => exact fun turn hturn => absurd hturn List.not_mem_nil
  | @turn s schedule announce turns s' h hrest ih =>
      refine List.forall_mem_cons.mpr ⟨fun i e he => ?_, ih (keyed_of_turn hkeyed h)⟩
      obtain ⟨k, _, _, hpopped, hfree, hother⟩ := popped_of_turn hkeyed h
      have hlive : nowMs < e.expiresMs := by
        have he : schedule.get i = some e := he
        rw [hpopped, Slots.get_put] at he
        split at he
        · cases he
        · exact (AnnounceSchedule.get_expire.mp he).2
      rcases schedule_of_process (s := { s with announceSchedule := schedule }) hfree hother with
        heq | ⟨j, entry, hj, _, heq⟩
      · rw [heq]
        exact he
      · have hkept := AnnounceSchedule.get_expire.mpr ⟨he, hlive⟩
        rw [heq, Slots.get_put_of_ne, hkept]
        rintro rfl
        rw [hj] at hkept
        cases hkept

/-! ### Announces that are owed -/

/-- The rounds of the loop over what is owed to an interface: announces that are out of date are
passed over, and the first other one is the last round, whether it can be queued or not. -/
inductive ReleaseRun (slot : Fin requesters) (target : InterfaceConfig) (nowMs : Nat) :
    LiteNode K m → Nat → LiteNode K m → Prop
  | done {s : LiteNode K m} {schedule}
      (h : s.announceSchedule.releasePending slot nowMs = (schedule, none)) :
      ReleaseRun slot target nowMs s 0 { s with announceSchedule := schedule }
  | skip {s s' : LiteNode K m} {schedule announce n}
      (h : s.announceSchedule.releasePending slot nowMs = (schedule, some announce))
      (hold : { s with announceSchedule := schedule }.announceCurrent announce nowMs = false)
      (hrest : ReleaseRun slot target nowMs
        { s with announceSchedule := schedule.remove announce.destinationHash } n s') :
      ReleaseRun slot target nowMs s (n + 1) s'
  | refused {s s' : LiteNode K m} {schedule announce}
      (h : s.announceSchedule.releasePending slot nowMs = (schedule, some announce))
      (hcurrent : { s with announceSchedule := schedule }.announceCurrent announce nowMs = true)
      (hsent : { s with announceSchedule := schedule }.enqueueForwarded announce.interfaceId
        target.id announce.packet .announceRebroadcast = (s', false)) :
      ReleaseRun slot target nowMs s 1 s'
  | sent {s s' : LiteNode K m} {schedule announce}
      (h : s.announceSchedule.releasePending slot nowMs = (schedule, some announce))
      (hcurrent : { s with announceSchedule := schedule }.announceCurrent announce nowMs = true)
      (hsent : { s with announceSchedule := schedule }.enqueueForwarded announce.interfaceId
        target.id announce.packet .announceRebroadcast = (s', true)) :
      ReleaseRun slot target nowMs s 1
        (s'.chargeGate slot target (announce.packet.len + ifacSize target.ifac) nowMs)

theorem releaseRun_releaseLoop (slot : Fin requesters) (target : InterfaceConfig) {rounds : Nat}
    (hrounds : (s.announceSchedule.owing slot nowMs).card < rounds) :
    ∃ n, n ≤ (s.announceSchedule.owing slot nowMs).card ∧
      ReleaseRun slot target nowMs s n (releaseLoop slot target nowMs rounds s) := by
  induction rounds generalizing s with
  | zero => exact absurd hrounds (Nat.not_lt_zero _)
  | succ rounds ih =>
      unfold releaseLoop
      split
      · rename_i schedule h
        exact ⟨0, Nat.zero_le _, .done h⟩
      rename_i schedule announce h
      have hless := AnnounceSchedule.card_owing_lt h
      dsimp only
      split
      · rename_i hold
        have hremoved := AnnounceSchedule.card_owing_clearWhere schedule slot nowMs
          fun e => decide (e.destinationHash = announce.destinationHash)
        obtain ⟨n, hn, hrun⟩ := ih
          (s := { s with announceSchedule := schedule.remove announce.destinationHash })
          (lt_of_le_of_lt hremoved (by omega))
        exact ⟨n + 1, (Nat.succ_le_succ (hn.trans hremoved)).trans hless, .skip h hold hrun⟩
      rename_i hcurrent
      rw [Bool.not_eq_false] at hcurrent
      split
      · rename_i s' hsent
        exact ⟨1, Nat.one_le_of_lt hless, .refused h hcurrent hsent⟩
      · rename_i s' hsent
        exact ⟨1, Nat.one_le_of_lt hless, .sent h hcurrent hsent⟩

theorem Posts.of_enqueueForwarded {source target : InterfaceId} {packet : PacketBuffer mtu}
    {reason : OutboundReason} {queued : Bool}
    (h : s.enqueueForwarded source target packet reason = (s', queued)) :
    Posts s s' ∧ s'.announceSchedule = s.announceSchedule := by
  rcases enqueueForwardedWithLifetime_spec s source target packet reason _ h with
    ⟨_, hcounts⟩ | ⟨_, _, _, _, hsend⟩
  · refine ⟨.onlyCounts hcounts, ?_⟩
    obtain ⟨_, _, rfl⟩ := hcounts
    rfl
  · refine ⟨.sends hsend, ?_⟩
    obtain ⟨_, _, rfl⟩ := hsend.rest
    rfl

/-- Releasing sends, and leaves no more in the schedule than there was. -/
theorem ReleaseRun.posts {slot : Fin requesters} {target : InterfaceConfig} {n : Nat}
    (hrun : ReleaseRun slot target nowMs s n s') :
    Posts s s' ∧ s.announceSchedule.Lessens s'.announceSchedule := by
  induction hrun with
  | done h => exact ⟨.schedule _ _, AnnounceSchedule.lessens_of_release h⟩
  | @skip s s' schedule announce n h _ _ ih =>
      have hremoved := AnnounceSchedule.lessens_clearWhere schedule fun e =>
        decide (e.destinationHash = announce.destinationHash)
      exact ⟨(Posts.schedule _ _).trans ih.1,
        ((AnnounceSchedule.lessens_of_release h).trans hremoved).trans ih.2⟩
  | refused h _ hsent =>
      obtain ⟨hposts, hsame⟩ := Posts.of_enqueueForwarded hsent
      rw [hsame]
      exact ⟨(Posts.schedule _ _).trans hposts, AnnounceSchedule.lessens_of_release h⟩
  | @sent s s' schedule announce h _ hsent =>
      obtain ⟨hposts, hsame⟩ := Posts.of_enqueueForwarded hsent
      refine ⟨((Posts.schedule _ _).trans hposts).trans (.chargeGate _ _ _ _ _), ?_⟩
      have hless : s.announceSchedule.Lessens s'.announceSchedule :=
        hsame ▸ AnnounceSchedule.lessens_of_release h
      exact hless

theorem posts_releaseGatedAnnounces (s : LiteNode K m) (nowMs : Nat) :
    Posts s (s.releaseGatedAnnounces nowMs) ∧
      s.announceSchedule.Lessens (s.releaseGatedAnnounces nowMs).announceSchedule := by
  have hslot : ∀ (s : LiteNode K m) slot, Posts s (releaseSlot nowMs s slot) ∧
      s.announceSchedule.Lessens (releaseSlot nowMs s slot).announceSchedule := by
    intro s slot
    unfold releaseSlot
    split
    · exact ⟨.refl s, .refl _⟩
    split
    · exact ⟨.refl s, .refl _⟩
    rename_i target _
    split
    · exact ⟨.refl s, .refl _⟩
    · obtain ⟨_, _, hrun⟩ := releaseRun_releaseLoop (s := s) slot target
        (Nat.lt_succ_of_le (AnnounceSchedule.card_owing_le _ slot nowMs))
      exact hrun.posts
  unfold releaseGatedAnnounces
  induction requesterSlots generalizing s with
  | nil => exact ⟨.refl s, .refl _⟩
  | cons slot slots ih =>
      obtain ⟨hposts, hless⟩ := hslot s slot
      obtain ⟨hposts', hless'⟩ := ih (releaseSlot nowMs s slot)
      exact ⟨hposts.trans hposts', hless.trans hless'⟩

/-! ### The tick -/

/-- No row has run out, in any table whose rows do. -/
structure Unexpired (s : LiteNode K m) (nowMs : Nat) : Prop where
  discoveries : ∀ e, s.discoveries.Has e → nowMs < e.expiresMs
  packetHashes : s.packetHashes.All fun e => nowMs < e.expiresMs
  paths : s.paths.entries.All fun e => nowMs < e.expiresMs
  announceCache : s.announceCache.All fun e => nowMs < e.expiresMs
  announceSchedule : s.announceSchedule.All fun e => nowMs < e.expiresMs
  reverse : s.reverse.entries.All fun e => nowMs < e.expiresMs
  links : s.links.entries.All fun e => nowMs < e.expiresMs
  requestTags : s.requestTags.All fun e => nowMs < e.expiresMs

/-- A tick is bounded in its work and leaves nothing undone. -/
structure TicksWithin (s : LiteNode K m) (nowMs : Nat) : Prop where
  /-- The loop over due announces, from the tables as they were expired. -/
  due : ∃ turns, DueRun nowMs (s.readied nowMs) turns (s.tickTables nowMs) ∧
    turns.length ≤ K.scheduled ∧
    ∀ turn ∈ turns, ∀ i e, turn.1.announceSchedule.get i = some e →
      (turn.1.processDue turn.2 nowMs).announceSchedule.get i = some e
  /-- The loop over what is owed to an interface, from any state. -/
  release : ∀ (s : LiteNode K m) slot target, ∃ n, n ≤ K.scheduled ∧
    ReleaseRun slot target nowMs s n (releaseLoop slot target nowMs (K.scheduled + 1) s)
  /-- The loop over the queue, from any state. -/
  stale : ∀ s : LiteNode K m, ∃ n, n ≤ K.outbound + 1 ∧ StaleRun nowMs s n (s.expireOutbound nowMs)
  undue : (s.tick nowMs).announceSchedule.All fun e => nowMs < e.dueMs
  unexpired : (s.tick nowMs).Unexpired nowMs
  /-- The tick sends when nothing but the live frames are left of the queue: what is queued then is
  made of these, in front, and of frames it has sent itself, each under an identity of its own. -/
  live : ∃ new kept stayed : List (QueuedOutbound m),
    Ledger.Steps K.outbound (s.ledger.expire ((s.tick nowMs).staleFrame nowMs)) new
      (s.tick nowMs).ledger ∧
    kept.Sublist (s.outbound.toList.filter fun q => !(s.tick nowMs).staleFrame nowMs q) ∧
    stayed.Sublist new ∧ (s.tick nowMs).outbound.toList = kept ++ stayed

omit [Crypto] in
theorem all_clearWhere_expired {α : Type} {n : Nat} (deadline : α → Nat) (t : Slots α n) :
    (t.clearWhere fun e => decide (nowMs ≥ deadline e)).All fun e => nowMs < deadline e :=
  fun _ _ he => not_le.mp (of_decide_eq_false (Slots.get_clearWhere_eq_some.mp he).2)

omit [Crypto] in
theorem unexpired_readied (s : LiteNode K m) (nowMs : Nat) : (s.readied nowMs).Unexpired nowMs := by
  obtain ⟨outbound, stats, heq, _⟩ :=
    expireOutbound_spec ({ s with clockMs := nowMs }.expireTables nowMs) nowMs
  rw [readied, heq]
  constructor
  case discoveries =>
    intro e he
    have hlive := (Discoveries.has_expire.mp he).2
    simp only [DiscoveryEntry.live, Bool.and_eq_true, decide_eq_true_eq] at hlive
    exact hlive.2
  case paths =>
    intro i e he
    have hlive := (Slots.get_clearWhere_eq_some.mp he).2
    simpa [PathEntry.isLive] using hlive
  case announceCache => exact (all_clearWhere_expired _ _).clearWhere _
  all_goals exact all_clearWhere_expired _ _

omit [Crypto] in
theorem Unexpired.posts (h : s.Unexpired nowMs) (hposts : Posts s s')
    (hschedule : s'.announceSchedule.All fun e => nowMs < e.expiresMs) : s'.Unexpired nowMs := by
  obtain ⟨_, _, _, _, _, rfl⟩ := hposts.rest
  exact { h with announceSchedule := hschedule }

omit [Crypto] in
theorem staleFrame_readied (s : LiteNode K m) (nowMs : Nat) (q : QueuedOutbound m) :
    (s.readied nowMs).staleFrame nowMs q =
      ({ s with clockMs := nowMs }.expireTables nowMs).staleFrame nowMs q := by
  obtain ⟨outbound, stats, heq, _⟩ :=
    expireOutbound_spec ({ s with clockMs := nowMs }.expireTables nowMs) nowMs
  rw [readied, heq]
  rfl

/-- Whatever the state and the time, a tick ends within its bounds. The deadlines of scheduled
announces are words, like the time. -/
theorem ticks_within (hkeyed : s.announceSchedule.Keyed ScheduledAnnounce.destinationHash)
    (hwords : s.announceSchedule.All fun e => e.expiresMs ≤ u64Max) (nowMs : Nat) :
    s.TicksWithin nowMs := by
  obtain ⟨hschedule, _⟩ := readied_tables s nowMs
  have hkeyed' : (s.readied nowMs).announceSchedule.Keyed ScheduledAnnounce.destinationHash := by
    rw [hschedule]
    exact hkeyed.clearWhere _
  have hcard : ((s.readied nowMs).announceSchedule.due nowMs).card ≤ K.scheduled :=
    (Finset.card_le_univ _).trans (Fintype.card_fin _).le
  -- at the last time there is, no deadline lies ahead
  have hlast : ((s.readied nowMs).announceSchedule.due nowMs).Nonempty → nowMs < u64Max := by
    rintro ⟨i, hi⟩
    obtain ⟨e, he, _, hlive⟩ := AnnounceSchedule.mem_due.mp hi
    rw [hschedule] at he
    exact lt_of_lt_of_le hlive (hwords i e (AnnounceSchedule.get_expire.mp he).1)
  obtain ⟨turns, hrun, hlen⟩ := dueRun_dueLoop hkeyed' hlast (Nat.lt_succ_of_le hcard)
  obtain ⟨hreleases, hless⟩ := posts_releaseGatedAnnounces (s.tickTables nowMs) nowMs
  have hposts : Posts (s.readied nowMs) (s.tick nowMs) := hrun.posts.trans hreleases
  have hsettled : (s.tick nowMs).announceSchedule.All fun e =>
      nowMs < e.dueMs ∧ nowMs < e.expiresMs := by
    intro i e' he'
    obtain ⟨e, he, hle⟩ := hless i e' he'
    rw [hle.same]
    exact hrun.settled i e he
  refine ⟨⟨turns, hrun, hlen.trans hcard, hrun.keeps hkeyed'⟩, fun u slot target => ?_,
    fun u => staleRun_expireOutbound u nowMs, hsettled.mono fun e he => he.1,
    (unexpired_readied s nowMs).posts hposts (hsettled.mono fun e he => he.2), ?_⟩
  · have howing := AnnounceSchedule.card_owing_le u.announceSchedule slot nowMs
    obtain ⟨n, hn, hrun⟩ := releaseRun_releaseLoop (s := u) slot target (Nat.lt_succ_of_le howing)
    exact ⟨n, hn.trans howing, hrun⟩
  · have hstale : (s.tick nowMs).staleFrame nowMs =
        ({ s with clockMs := nowMs }.expireTables nowMs).staleFrame nowMs :=
      funext fun q => (hposts.staleFrame q).trans (staleFrame_readied s nowMs q)
    obtain ⟨new, hnew⟩ := follows_books.tick s nowMs
    rw [readied, expireOutbound_ledger, ← hstale] at hnew
    obtain ⟨kept, stayed, hkept, hstayed, hrows⟩ := hnew.rows
    exact ⟨new, kept, stayed, hnew, hkept, hstayed, hrows⟩

end

end LiteNode

open LiteNode

private def lastingAnnounce : ScheduledAnnounce where
  destinationHash := Bytes.zero
  packet := PacketBuffer.new
  interfaceId := 1
  dueMs := 5
  expiresMs := u64Max
  blockRebroadcast := false
  hops := 1
  retries := 0
  localRebroadcasts := 0
  pendingTargets := 0

theorem ticks_within_last :
    letI := Crypto.constant
    TicksWithin { smallRouter with
      announceSchedule := AnnounceSchedule.insert Slots.empty lastingAnnounce 0 } u64Max := by
  let _ := Crypto.constant
  have hword : lastingAnnounce.expiresMs ≤ u64Max := le_rfl
  exact ticks_within (AnnounceSchedule.keyed_insert Slots.keyed_empty lastingAnnounce 0)
    (AnnounceSchedule.all_insert Slots.all_empty hword 0) u64Max

end ReticulumLite
