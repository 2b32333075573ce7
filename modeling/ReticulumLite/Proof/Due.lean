import ReticulumLite.Tables.Schedule
import ReticulumLite.Proof.Keys
import ReticulumLite.Proof.Bookkeeping
import Mathlib.Data.Finset.Card

/-!
# Announces that fall due

A tick takes the due announces out of the schedule one by one. What is put back is not due and goes
to a free place, so every due announce has its turn and the rounds suffice. `dueTrace` is the list
of turns: each announce with the node as it finds it.
-/

namespace ReticulumLite

open Bounded

namespace AnnounceSchedule

variable {n : Nat} {t t' : AnnounceSchedule n} {nowMs : Nat} {i j : Fin n}
  {e entry announce : ScheduledAnnounce}

/-! ### Taking and putting back -/

def due (t : AnnounceSchedule n) (nowMs : Nat) : Finset (Fin n) :=
  Finset.univ.filter fun i =>
    (t.get i).any (fun e => decide (e.dueMs ≤ nowMs) && decide (nowMs < e.expiresMs)) = true

theorem mem_due : i ∈ t.due nowMs ↔
    ∃ e, t.get i = some e ∧ e.dueMs ≤ nowMs ∧ nowMs < e.expiresMs := by
  simp only [due, Finset.mem_filter, Finset.mem_univ, true_and, Option.any_eq_true,
    Bool.and_eq_true, decide_eq_true_eq]

theorem popDue_eq_some (h : t.popDue nowMs = (t', some announce)) :
    ∃ i, t.get i = some announce ∧ i ∈ t.due nowMs ∧ t' = (expire t nowMs).put i none := by
  unfold popDue at h
  simp only at h
  split at h
  · cases h
  · rename_i i hi
    obtain ⟨⟨e, he, hdue⟩, _⟩ := Slots.indexOf_eq_some.mp hi
    obtain ⟨rfl, hannounce⟩ := Prod.mk.inj h
    obtain rfl := Option.some.inj (he.symm.trans hannounce)
    obtain ⟨hget, hlive⟩ := get_expire.mp he
    exact ⟨i, hget, mem_due.mpr ⟨e, hget, of_decide_eq_true hdue, hlive⟩, rfl⟩

theorem popDue_eq_none (h : t.popDue nowMs = (t', none)) : t.due nowMs = ∅ := by
  unfold popDue at h
  simp only at h
  split at h
  · rename_i hnone
    rw [Finset.eq_empty_iff_forall_notMem]
    intro i hi
    obtain ⟨e, he, hdue, hlive⟩ := mem_due.mp hi
    have hfalse := Slots.indexOf_eq_none.mp hnone i e (get_expire.mpr ⟨he, hlive⟩)
    simp only [ge_iff_le, decide_eq_false_iff_not] at hfalse
    exact hfalse hdue
  · rename_i i hi
    obtain ⟨⟨e, he, _⟩, _⟩ := Slots.indexOf_eq_some.mp hi
    rw [he] at h
    cases h

theorem insert_of_free (nowMs : Nat)
    (hother : ∀ j e, t.get j = some e → e.destinationHash ≠ entry.destinationHash)
    (hfree : t.get i = none) :
    ∃ k, (expire t nowMs).get k = none ∧
      t.insert entry nowMs = (expire t nowMs).put k (some entry) := by
  rcases insert_cases t entry nowMs with
    rfl | ⟨k, heq, ⟨old, hold, hsame⟩ | ⟨_, hnone | ⟨e, hyields⟩⟩⟩
  · exact i.elim0
  · exact absurd hsame (hother k old (get_expire.mp hold).1)
  · exact ⟨k, hnone, heq⟩
  · obtain ⟨a, ha⟩ := hyields.full i
    rw [(get_expire.mp ha).1] at hfree
    cases hfree

theorem due_expire : (expire t nowMs).due nowMs = t.due nowMs := by
  ext i
  rw [mem_due, mem_due]
  constructor
  · rintro ⟨e, he, hdue⟩
    exact ⟨e, (get_expire.mp he).1, hdue⟩
  · rintro ⟨e, he, hdue, hlive⟩
    exact ⟨e, get_expire.mpr ⟨he, hlive⟩, hdue, hlive⟩

theorem due_put_none : due (t.put i none) nowMs = (t.due nowMs).erase i := by
  ext j
  rw [Finset.mem_erase, mem_due, mem_due, Slots.get_put]
  split
  · rename_i hij
    simp [hij]
  · rename_i hij
    simp [Ne.symm hij]

theorem due_put_of_free (hfree : t.get i = none) (hlater : nowMs < entry.dueMs) :
    due (t.put i (some entry)) nowMs = t.due nowMs := by
  ext j
  rw [mem_due, mem_due, Slots.get_put]
  split
  · rename_i hij
    subst hij
    rw [hfree]
    simp only [Option.some.injEq, exists_eq_left', reduceCtorEq, false_and, exists_false, iff_false,
      not_and]
    intro hdue
    omega
  · rfl

end AnnounceSchedule

/-! ### One turn -/

namespace LiteNode

variable {K : Capacities} {m : Model} [Crypto] {s s' : LiteNode K m} {nowMs : Nat}
  {announce : ScheduledAnnounce}

section

variable (s announce)

theorem sendDue_frame (nowMs : Nat) :
    (s.sendDue announce nowMs).1.paths = s.paths ∧
      (s.sendDue announce nowMs).1.announceSchedule = s.announceSchedule ∧
      ∃ expiresMs pendingTargets,
        (s.sendDue announce nowMs).2 = { announce with expiresMs, pendingTargets } := by
  unfold sendDue
  split
  · exact ⟨rfl, rfl, _, _, rfl⟩
  · simp only
    obtain ⟨_, _, _, _, heq⟩ := enqueue_eq s announce.interfaceId announce.packet
      (if announce.blockRebroadcast then .pathResponse else .announceRebroadcast)
    rw [heq]
    exact ⟨rfl, rfl, announce.expiresMs, announce.pendingTargets, rfl⟩

omit [Crypto] in
/-- An announce goes back with its retries counted, to be due later, for its retry or for what it is
owed to. -/
theorem rescheduleDue_cases (pathHash : Hash32) (nowMs : Nat) :
    (∃ dueMs, s.rescheduleDue announce pathHash nowMs =
        { s with
          announceSchedule := s.announceSchedule.insert
            { announce with retries := satSucc8 announce.retries, dueMs } nowMs } ∧
        (nowMs < u64Max → nowMs < dueMs) ∧
        (announce.blockRebroadcast = false ∧ satSucc8 announce.retries ≤ pathfinderR ∨
          dueMs = ScheduledAnnounce.pendingOnlyDue)) ∨
      s.rescheduleDue announce pathHash nowMs = s ∧ announce.pendingTargets = 0 ∧
        (announce.blockRebroadcast = false → pathfinderR < satSucc8 announce.retries) := by
  unfold rescheduleDue
  simp only
  split
  · rename_i hretry
    refine .inl ⟨_, rfl, fun hnow => ?_, .inl hretry⟩
    refine lt_of_lt_of_le (lt_satAdd hnow (by decide)) (le_satAdd ?_)
    unfold satAdd
    omega
  rename_i hlast
  split
  · exact .inl ⟨_, rfl, id, .inr rfl⟩
  · rename_i hpending
    refine .inr ⟨rfl, not_not.mp hpending, fun hblock => ?_⟩
    exact UInt8.not_le.mp fun hle => hlast ⟨hblock, hle⟩

theorem processDue_cases (nowMs : Nat) :
    (s.processDue announce nowMs).paths = s.paths ∧
      ((s.processDue announce nowMs).announceSchedule = s.announceSchedule ∨
        ∃ entry : ScheduledAnnounce, entry.destinationHash = announce.destinationHash ∧
          (nowMs < u64Max → nowMs < entry.dueMs) ∧
          (s.processDue announce nowMs).announceSchedule = s.announceSchedule.insert entry nowMs) := by
  unfold processDue
  split
  · exact ⟨rfl, .inl rfl⟩
  rename_i path _
  split
  · exact ⟨rfl, .inl rfl⟩
  simp only
  obtain ⟨hpaths, hschedule, expiresMs, pendingTargets, hsent⟩ := sendDue_frame s announce nowMs
  rcases rescheduleDue_cases (s.sendDue announce nowMs).1 (s.sendDue announce nowMs).2
    path.packetHash nowMs with ⟨dueMs, heq, hlater, _⟩ | ⟨heq, _⟩
  · rw [heq]
    refine ⟨hpaths, .inr ⟨{ (s.sendDue announce nowMs).2 with
      retries := satSucc8 (s.sendDue announce nowMs).2.retries, dueMs }, ?_, hlater, ?_⟩⟩
    · rw [hsent]
    · exact congrArg (fun t => AnnounceSchedule.insert t _ nowMs) hschedule
  · rw [heq]
    exact ⟨hpaths, .inl hschedule⟩

end

/-! ### All turns -/

/-- The turns of a tick, from one node to another: each announce that was due, with the node that
had just taken it from its schedule. -/
inductive DueRun (nowMs : Nat) : LiteNode K m → List (LiteNode K m × ScheduledAnnounce) →
    LiteNode K m → Prop
  | done {s schedule} (h : s.announceSchedule.popDue nowMs = (schedule, none)) :
      DueRun nowMs s [] { s with announceSchedule := schedule }
  | turn {s schedule announce turns s'}
      (h : s.announceSchedule.popDue nowMs = (schedule, some announce))
      (hrest : DueRun nowMs ({ s with announceSchedule := schedule }.processDue announce nowMs)
        turns s') :
      DueRun nowMs s (({ s with announceSchedule := schedule }, announce) :: turns) s'

variable {i : Fin K.scheduled}

theorem schedule_of_process (hfree : s.announceSchedule.get i = none)
    (hother : ∀ j e, s.announceSchedule.get j = some e →
      e.destinationHash ≠ announce.destinationHash) :
    (s.processDue announce nowMs).announceSchedule = s.announceSchedule ∨
      ∃ k entry, (s.announceSchedule.expire nowMs).get k = none ∧
        (nowMs < u64Max → nowMs < entry.dueMs) ∧
        (s.processDue announce nowMs).announceSchedule =
          (s.announceSchedule.expire nowMs).put k (some entry) := by
  obtain ⟨_, hschedule | ⟨entry, hdest, hlater, hschedule⟩⟩ := processDue_cases s announce nowMs
  · exact .inl hschedule
  · obtain ⟨k, hk, hinsert⟩ := AnnounceSchedule.insert_of_free nowMs
      (fun j e he => hdest ▸ hother j e he) hfree
    exact .inr ⟨k, entry, hk, hlater, hschedule.trans hinsert⟩

variable {schedule : AnnounceSchedule K.scheduled}

section

variable (hkeyed : s.announceSchedule.Keyed ScheduledAnnounce.destinationHash)

include hkeyed

omit [Crypto] in
theorem popped_of_turn (h : s.announceSchedule.popDue nowMs = (schedule, some announce)) :
    ∃ i, s.announceSchedule.get i = some announce ∧ i ∈ s.announceSchedule.due nowMs ∧
      schedule = (s.announceSchedule.expire nowMs).put i none ∧ schedule.get i = none ∧
      ∀ j e, schedule.get j = some e → e.destinationHash ≠ announce.destinationHash := by
  obtain ⟨i, hget, hdue, rfl⟩ := AnnounceSchedule.popDue_eq_some h
  refine ⟨i, hget, hdue, rfl, Slots.get_put_self _ i _, fun j e he heq => ?_⟩
  rw [Slots.get_put] at he
  split at he
  · cases he
  · rename_i hij
    exact hij (hkeyed hget (AnnounceSchedule.get_expire.mp he).1 heq.symm)

theorem schedule_of_turn (hnow : nowMs < u64Max)
    (h : s.announceSchedule.popDue nowMs = (schedule, some announce)) :
    ∃ i, s.announceSchedule.get i = some announce ∧ i ∈ s.announceSchedule.due nowMs ∧
      (({ s with announceSchedule := schedule }.processDue announce nowMs).announceSchedule.due
        nowMs) = (s.announceSchedule.due nowMs).erase i ∧
      ∀ j e, j ≠ i → s.announceSchedule.get j = some e → nowMs < e.expiresMs →
        ({ s with announceSchedule := schedule }.processDue announce nowMs).announceSchedule.get j =
          some e := by
  obtain ⟨i, hget, hdue, hpopped, hfree, hother⟩ := popped_of_turn hkeyed h
  refine ⟨i, hget, hdue, ?_⟩
  have hpoppedDue : AnnounceSchedule.due schedule nowMs = (s.announceSchedule.due nowMs).erase i := by
    rw [hpopped, AnnounceSchedule.due_put_none, AnnounceSchedule.due_expire]
  have hpoppedGet : ∀ j e, j ≠ i → s.announceSchedule.get j = some e → nowMs < e.expiresMs →
      schedule.get j = some e := by
    intro j e hj he hlive
    rw [hpopped, Slots.get_put_of_ne hj.symm]
    exact AnnounceSchedule.get_expire.mpr ⟨he, hlive⟩
  rcases schedule_of_process (s := { s with announceSchedule := schedule }) hfree hother with
    heq | ⟨k, entry, hk, hlater, heq⟩
  · rw [heq]
    exact ⟨hpoppedDue, hpoppedGet⟩
  rw [heq]
  constructor
  · rw [AnnounceSchedule.due_put_of_free hk (hlater hnow), AnnounceSchedule.due_expire, hpoppedDue]
  · intro j e hj he hlive
    have hkept : (AnnounceSchedule.expire schedule nowMs).get j = some e :=
      AnnounceSchedule.get_expire.mpr ⟨hpoppedGet j e hj he hlive, hlive⟩
    rw [Slots.get_put_of_ne, hkept]
    rintro rfl
    rw [hk] at hkept
    cases hkept

theorem keyed_of_turn (h : s.announceSchedule.popDue nowMs = (schedule, some announce)) :
    ({ s with announceSchedule := schedule }.processDue announce
      nowMs).announceSchedule.Keyed ScheduledAnnounce.destinationHash := by
  have hpopped : schedule.Keyed ScheduledAnnounce.destinationHash := by
    have hless := AnnounceSchedule.lessens_popDue s.announceSchedule nowMs
    rw [h] at hless
    exact hless.keyed hkeyed
  obtain ⟨_, hschedule | ⟨entry, _, _, hschedule⟩⟩ :=
    processDue_cases { s with announceSchedule := schedule } announce nowMs
  · rw [hschedule]
    exact hpopped
  · rw [hschedule]
    exact AnnounceSchedule.keyed_insert hpopped entry nowMs

/-- The loop ends because nothing is due any more, given a round more than there are due announces;
each turn is one of them. At the last time there is, nothing may be due. -/
theorem dueRun_dueLoop (hnow : (s.announceSchedule.due nowMs).Nonempty → nowMs < u64Max)
    {rounds : Nat} (hrounds : (s.announceSchedule.due nowMs).card < rounds) :
    ∃ turns, DueRun nowMs s turns (dueLoop nowMs rounds s) ∧
      turns.length ≤ (s.announceSchedule.due nowMs).card := by
  induction rounds generalizing s with
  | zero => exact absurd hrounds (Nat.not_lt_zero _)
  | succ rounds ih =>
      unfold dueLoop
      split
      · rename_i schedule h
        exact ⟨[], .done h, Nat.zero_le _⟩
      · rename_i schedule announce h
        obtain ⟨j, _, hj, _⟩ := popped_of_turn hkeyed h
        have hlt := hnow ⟨j, hj⟩
        obtain ⟨i, _, hi, hdue, _⟩ := schedule_of_turn hkeyed hlt h
        have hcard := Finset.card_erase_lt_of_mem hi
        obtain ⟨turns, hrun, hlen⟩ := ih (keyed_of_turn hkeyed h) (fun _ => hlt) (by rw [hdue]; omega)
        refine ⟨_, .turn h hrun, ?_⟩
        rw [hdue] at hlen
        rw [List.length_cons]
        omega

end

omit [Crypto] in
theorem readied_tables (s : LiteNode K m) (nowMs : Nat) :
    (s.readied nowMs).announceSchedule = s.announceSchedule.expire nowMs ∧
      (s.readied nowMs).paths = s.paths.expire nowMs := by
  obtain ⟨_, _, heq, _⟩ := expireOutbound_spec ({ s with clockMs := nowMs }.expireTables nowMs) nowMs
  rw [readied, heq]
  exact ⟨rfl, rfl⟩

/-- An endpoint can queue a packet: it fits the interface and there is a number for it. -/
structure Sendable (s : LiteNode K m) (id : InterfaceId) (packet : PacketBuffer mtu) : Prop where
  fits : packet.len ≤ s.interfaceClearMtu id
  framed : (s.wireFrame id packet).isSome = true
  number : s.lastDeliveryIdentity < u64Max

theorem Sendable.queued {id : InterfaceId} {packet : PacketBuffer mtu} (hm : m = .endpoint)
    (h : s.Sendable id packet) (reason : OutboundReason) :
    (s.enqueue id packet reason).2 = true := by
  have hrouter : s.router? = none := by
    subst hm
    cases hinterfaces : s.interfaces with
    | endpoint facts =>
        unfold router?
        rw [hinterfaces]
        rfl
  obtain ⟨wire, hwire⟩ := Option.isSome_iff_exists.mp h.framed
  have hnumber : checkedSucc s.lastDeliveryIdentity = some (s.lastDeliveryIdentity + 1) :=
    checkedSucc_eq_some.mpr ⟨h.number, rfl⟩
  unfold enqueue enqueueWithLifetime
  rw [if_neg (by simp [hrouter]), if_neg (not_lt.mpr h.fits)]
  simp only [hwire, hnumber, reserveRouterQueue, hrouter]

end LiteNode

end ReticulumLite
