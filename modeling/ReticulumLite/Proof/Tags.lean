import ReticulumLite.Proof.Walk
import ReticulumLite.Tables.Retention

/-!
# The tags of path requests

A node enters the key of a path request when it first handles it, and when it sends one of its own.
Nothing else writes to the tags; a tick forgets what has expired, and a reset everything.
-/

namespace ReticulumLite

open Bounded

namespace LiteNode

variable {K : Capacities} {m : Model} {s s' : LiteNode K m}

structure SameTags (s s' : LiteNode K m) : Prop where
  requestTags : s'.requestTags = s.requestTags
  clockMs : s'.clockMs = s.clockMs

namespace SameTags

theorem trans {s'' : LiteNode K m} (h : SameTags s s') (h' : SameTags s' s'') : SameTags s s'' :=
  ⟨h'.requestTags.trans h.requestTags, h'.clockMs.trans h.clockMs⟩

theorem of_kept (h : s'.kept = s.kept) : SameTags s s' :=
  ⟨congrArg (·.2.1) h, congrArg (·.2.2) h⟩

theorem of_onlyCounts (h : OnlyCounts s s') : SameTags s s' := by
  obtain ⟨_, _, rfl⟩ := h
  exact ⟨rfl, rfl⟩

theorem of_sends {frame : OutboundFrame} (h : s.Sends frame s') : SameTags s s' := by
  obtain ⟨_, _, rfl⟩ := h.rest
  exact ⟨rfl, rfl⟩

theorem expireOutbound (s : LiteNode K m) (nowMs : Nat) : SameTags s (s.expireOutbound nowMs) := by
  obtain ⟨_, _, heq, _⟩ := s.expireOutbound_spec nowMs
  rw [heq]
  exact ⟨rfl, rfl⟩

end SameTags

theorem follows_sameTags [Crypto] : Follows (SameTags (K := K) (m := m)) where
  agree := SameTags.of_kept
  trans := SameTags.trans
  unanswered _ _ := ⟨rfl, rfl⟩
  enqueueWithLifetime s id packet reason lifetime := by
    rcases enqueueWithLifetime_spec s id packet reason lifetime rfl with
      ⟨_, hcounts⟩ | ⟨_, _, _, _, hsend⟩
    · exact .of_onlyCounts hcounts
    · exact .of_sends hsend

theorem sameTags_of_expired {s₁ : LiteNode K m} {nowMs : Nat}
    (h : s'.kept = (s₁.expireOutbound nowMs).kept) (hsame : s₁.kept = s.kept) : SameTags s s' :=
  ((SameTags.of_kept hsame).trans (.expireOutbound s₁ nowMs)).trans (.of_kept h)

section Endpoint

variable (s : LiteNode K .endpoint)

theorem sameTags_retainedOutboundRetireInterface (interface : InterfaceId) :
    SameTags s (s.retainedOutboundRetireInterface interface) := by
  unfold retainedOutboundRetireInterface clearOutbound
  dsimp only
  repeat' split
  all_goals exact ⟨rfl, rfl⟩

theorem sameTags_retireReplacedInterface (interface : InterfaceId) :
    SameTags s (s.retireReplacedInterface interface) := by
  have hcleared : SameTags s ((s.retainedOutboundRetireInterface interface).clearInterface interface) := by
    refine (sameTags_retainedOutboundRetireInterface s interface).trans ?_
    unfold clearInterface
    split
    · exact ⟨rfl, rfl⟩
    · exact ⟨rfl, rfl⟩
  unfold retireReplacedInterface detached
  dsimp only
  generalize (s.retainedOutboundRetireInterface interface).clearInterface interface = s₁ at hcleared ⊢
  exact hcleared.trans ⟨(SameTags.expireOutbound _ _).requestTags, (SameTags.expireOutbound _ _).clockMs⟩

theorem sameTags_updateInterface (id : InterfaceId) (generation : Nat) (mode : InterfaceMode)
    (bitrateBps : Nat) (outbound localClient : Bool) :
    SameTags s (s.updateInterface id generation mode bitrateBps outbound localClient).1 := by
  unfold updateInterface
  split
  · exact ⟨rfl, rfl⟩
  dsimp only
  split
  · exact ⟨rfl, rfl⟩
  split
  · exact (sameTags_retireReplacedInterface s id).trans ⟨rfl, rfl⟩
  split
  · exact (sameTags_retainedOutboundRetireInterface s id).trans ⟨rfl, rfl⟩
  · exact ⟨rfl, rfl⟩

theorem sameTags_retainedOutboundSelect (after : Nat) (blocked : BitVec 8)
    (generations : List.Vector Nat 7) :
    SameTags s (s.retainedOutboundSelect after blocked generations).1 := by
  unfold retainedOutboundSelect
  dsimp only
  generalize hs₁ : ({ s with retainedOwnerMode := true } : LiteNode K .endpoint).expireOutbound
    s.clockMs = s₁
  have hexpired : SameTags s s₁ :=
    hs₁ ▸ ⟨(SameTags.expireOutbound _ _).requestTags, (SameTags.expireOutbound _ _).clockMs⟩
  obtain ⟨_, _, heq, _⟩ := dropServed_spec
    { s₁ with outbound := s₁.outbound.mapEntries (bindDelivery generations) }
  rw [heq]
  exact hexpired.trans ⟨rfl, rfl⟩

theorem sameTags_pollTx : SameTags s s.pollTx.1 := by
  unfold pollTx
  split
  · exact ⟨rfl, rfl⟩
  · exact ⟨(SameTags.expireOutbound s s.clockMs).requestTags,
      (SameTags.expireOutbound s s.clockMs).clockMs⟩

theorem sameTags_retainedOutboundAck (identity : Nat) (completed : BitVec 8) :
    SameTags s (s.retainedOutboundAck identity completed).1 := by
  unfold retainedOutboundAck
  repeat' split
  all_goals exact ⟨rfl, rfl⟩

theorem sameTags_retainedOutboundTake (identity : Nat) :
    SameTags s (s.retainedOutboundTake identity).1 := by
  unfold retainedOutboundTake
  split
  · exact ⟨rfl, rfl⟩
  · exact ⟨rfl, rfl⟩

end Endpoint

theorem sameTags_pollTxForInterface (s : LiteNode K .router) (id : InterfaceId) :
    SameTags s (s.pollTxForInterface id).1 := by
  have hexpired := SameTags.expireOutbound s s.clockMs
  unfold pollTxForInterface
  dsimp only
  split
  · exact hexpired
  · exact ⟨hexpired.requestTags, hexpired.clockMs⟩

end LiteNode

/-- What may happen to the tags at a time, or at none. -/
inductive RequestTagTable.Step {n : Nat} (t : RequestTagTable n) : Option Nat → RequestTagTable n → Prop
  | keep (time : Option Nat) : Step t time t
  | expire (nowMs : Nat) : Step t (some nowMs) (t.expire nowMs)
  | enter (key : Hash32) (nowMs : Nat) : Step t (some nowMs)
      (t.insertIfNew key (satAdd nowMs pathRequestDuplicateGateMs) nowMs).1

namespace Operation

variable {K : Capacities} {m : Model}

open LiteNode

theorem step_of_tagging {s s' : LiteNode K m} {nowMs : Nat}
    (h : Tagging SameTags nowMs { s with clockMs := nowMs } s') :
    s.requestTags.Step (some nowMs) s'.requestTags ∧ s'.clockMs = nowMs := by
  rcases h with h | ⟨s₁, key, h, h'⟩
  · rw [h.requestTags, h.clockMs]
    exact ⟨.keep _, rfl⟩
  · rw [h'.requestTags, h'.clockMs]
    simp only [tagged, h.requestTags, h.clockMs]
    exact ⟨.enter key nowMs, trivial⟩

theorem step_of_sameTags {s s' : LiteNode K m} (h : SameTags s s') :
    s.requestTags.Step none s'.requestTags ∧ s'.clockMs = s.clockMs := by
  rw [h.requestTags]
  exact ⟨.keep _, h.clockMs⟩

theorem requestTags_perform [Crypto] (s : LiteNode K m) (op : Operation m)
    (hresets : op.resets = false) :
    s.requestTags.Step op.time (op.perform s).requestTags ∧
      (op.perform s).clockMs = op.time.getD s.clockMs := by
  cases op with
  | ingest frame rx nowMs localLink endpoint =>
      have h := follows_sameTags.ingestInner s frame rx nowMs localLink endpoint
      exact step_of_tagging (follows_sameTags.handles.tagging_after h (sameTags_of_expired rfl rfl))
  | tick nowMs =>
      have hexpired : SameTags ({ s with clockMs := nowMs }.expireTables nowMs) (s.readied nowMs) :=
        .expireOutbound _ nowMs
      have h := hexpired.trans (follows_sameTags.tick s nowMs)
      simp only [perform, h.requestTags, h.clockMs]
      exact ⟨.expire nowMs, rfl⟩
  | requestPath destinationHash tag id nowMs =>
      have h := follows_sameTags.requestPath s destinationHash tag id nowMs
      exact step_of_tagging (follows_sameTags.handles.tagging_after h (.expireOutbound _ nowMs))
  | sendLocal => exact step_of_sameTags (follows_sameTags.enqueueWithLifetime s _ _ _ _)
  | recordExpiredOutbound => exact step_of_sameTags ⟨rfl, rfl⟩
  | updateInterface => exact step_of_sameTags (sameTags_updateInterface s _ _ _ _ _ _)
  | retainedOutboundSelect => exact step_of_sameTags (sameTags_retainedOutboundSelect s _ _ _)
  | retainedOutboundRetireInterface =>
      exact step_of_sameTags (sameTags_retainedOutboundRetireInterface s _)
  | retireReplacedInterface => exact step_of_sameTags (sameTags_retireReplacedInterface s _)
  | pollTx => exact step_of_sameTags (sameTags_pollTx s)
  | pollTxForInterface => exact step_of_sameTags (sameTags_pollTxForInterface s _)
  | retainedOutboundAck => exact step_of_sameTags (sameTags_retainedOutboundAck s _ _)
  | retainedOutboundTake => exact step_of_sameTags (sameTags_retainedOutboundTake s _)
  | _ =>
      rcases kept_perform s rfl hresets rfl rfl with h | ⟨_, s₁, h, hsame⟩
      · exact step_of_sameTags (.of_kept h)
      · exact step_of_sameTags (sameTags_of_expired h hsame)

end Operation

/-! ### What has been recorded -/

namespace RequestTagTable

variable {n : Nat} {t t' : RequestTagTable n}

/-- The keys of the entries that have come in between two tables. -/
def newKeys (t t' : RequestTagTable n) : List Hash32 :=
  ((t'.toList.filterMap id).filter fun e => !decide (t.Holds e)).map RequestTagEntry.key

variable {key : Hash32}

theorem mem_newKeys : key ∈ newKeys t t' ↔ ∃ e, t'.Holds e ∧ ¬ t.Holds e ∧ e.key = key := by
  have hmem : ∀ e, e ∈ t'.toList.filterMap id ↔ t'.Holds e := by
    intro e
    simp only [List.mem_filterMap, id_eq, exists_eq_right]
    exact List.Vector.mem_iff_get _ _
  simp only [newKeys, List.mem_map, List.mem_filter, hmem, Bool.not_eq_true',
    decide_eq_false_iff_not, and_assoc]

/-- Each entry that lasts to a time and beyond the gate is among the recorded keys. -/
structure Accounted (since : Nat) (recorded : List Hash32) (t : RequestTagTable n) : Prop where
  keyed : t.Keyed RequestTagEntry.key
  mem : ∀ e, t.Holds e → since + pathRequestDuplicateGateMs ≤ e.expiresMs → e.key ∈ recorded

theorem accounted_empty (since : Nat) (recorded : List Hash32) :
    Accounted since recorded (Slots.empty : RequestTagTable n) where
  keyed := Slots.keyed_empty
  mem e he := by
    obtain ⟨i, hi⟩ := he
    simp at hi

variable {since : Nat} {recorded : List Hash32}

theorem Step.accounted {time : Option Nat} (hstep : t.Step time t') (h : Accounted since recorded t) :
    Accounted since (recorded ++ if time.any (since ≤ ·) then newKeys t t' else []) t' := by
  have hold : ∀ e, t.Holds e → since + pathRequestDuplicateGateMs ≤ e.expiresMs →
      e.key ∈ recorded ++ if time.any (since ≤ ·) then newKeys t t' else [] :=
    fun e he hlate => List.mem_append_left _ (h.mem e he hlate)
  cases hstep with
  | keep => exact ⟨h.keyed, hold⟩
  | expire nowMs =>
      exact ⟨h.keyed.clearWhere _, fun e he hlate => hold e (holds_live.mp he).1 hlate⟩
  | enter key nowMs =>
      unfold RequestTagTable.insertIfNew at hold ⊢
      refine ⟨keyed_remember h.keyed, fun e he hlate => ?_⟩
      by_cases hthere : t.Holds e
      · exact hold e hthere hlate
      · obtain ⟨rfl, _⟩ := (holds_of_remember he).resolve_left hthere
        have htime : since ≤ nowMs := by
          have hle : satAdd nowMs pathRequestDuplicateGateMs ≤ nowMs + pathRequestDuplicateGateMs :=
            satAdd_le _ _
          have hlate : since + pathRequestDuplicateGateMs ≤
            satAdd nowMs pathRequestDuplicateGateMs := hlate
          omega
        rw [if_pos (by simpa using htime)]
        exact List.mem_append_right _ (mem_newKeys.mpr ⟨_, he, hthere, rfl⟩)

/-- An entry survives a step at a time before its deadline, unless too many keys have come. -/
theorem Step.holds {nowMs : Nat} (hstep : t.Step (some nowMs) t')
    (hafter : Accounted since recorded t') (hkeyed : t.Keyed RequestTagEntry.key)
    (hheld : t.Holds ⟨key, since + pathRequestDuplicateGateMs⟩) (hsince : since ≤ nowMs)
    (hgate : nowMs < since + pathRequestDuplicateGateMs)
    (hfits : since + pathRequestDuplicateGateMs ≤ u64Max)
    (hfew : (recorded.filter (· ≠ key)).dedup.length < n) :
    t'.Holds ⟨key, since + pathRequestDuplicateGateMs⟩ := by
  cases hstep with
  | keep => exact hheld
  | expire => exact holds_live.mpr ⟨hheld, hgate⟩
  | enter other =>
      have hlate : since + pathRequestDuplicateGateMs ≤ satAdd nowMs pathRequestDuplicateGateMs := by
        unfold satAdd
        omega
      have hmem := hafter.mem
      unfold RequestTagTable.insertIfNew at hmem ⊢
      exact holds_remember_of_few hkeyed hheld hgate hlate hmem hfew

theorem Step.eq_of_none (hstep : t.Step none t') : t' = t := by
  cases hstep
  rfl

theorem Step.holds_of_newKeys (hstep : t.Step (some since) t') (hnew : key ∈ newKeys t t')
    (hfits : since + pathRequestDuplicateGateMs ≤ u64Max) :
    t'.Holds ⟨key, since + pathRequestDuplicateGateMs⟩ := by
  obtain ⟨e, he, hnot, rfl⟩ := mem_newKeys.mp hnew
  cases hstep with
  | keep => exact absurd he hnot
  | expire => exact absurd (holds_live.mp he).1 hnot
  | enter key =>
      unfold RequestTagTable.insertIfNew at he ⊢
      have heq := ((holds_of_remember he).resolve_left hnot).1
      rw [satAdd_eq hfits] at heq
      rwa [heq] at he ⊢

theorem Accounted.mono {recorded' : List Hash32} (h : Accounted since recorded t)
    (hsub : recorded ⊆ recorded') : Accounted since recorded' t :=
  ⟨h.keyed, fun e he hlate => hsub (h.mem e he hlate)⟩

end RequestTagTable

namespace LiteNode

open RequestTagTable

variable {K : Capacities} {m : Model} [Crypto] {s t : LiteNode K m} {ops : List (Operation m)}
  {since : Nat} {recorded : List Hash32}

/-- The keys that the operations of a run record, from a time on. -/
def recordedSince (since : Nat) : LiteNode K m → List (Operation m) → List Hash32
  | _, [] => []
  | s, op :: ops =>
      (if op.time.any (since ≤ ·) then s.requestTags.newKeys (op.perform s).requestTags else []) ++
        recordedSince since (op.perform s) ops

variable {allowed : LiteNode K m → Operation m → Prop}

theorem recordedSince_append (hrun : Runs Operation.perform allowed s ops t) (since : Nat)
    (ops' : List (Operation m)) :
    recordedSince since s (ops ++ ops') = recordedSince since s ops ++ recordedSince since t ops' := by
  induction hrun with
  | nil => rfl
  | cons _ _ ih => rw [List.cons_append, recordedSince, recordedSince, ih, List.append_assoc]

theorem requestTags_of_resets (s : LiteNode K m) {op : Operation m} (hop : op.resets = true) :
    (op.perform s).requestTags = s.requestTags ∨ (op.perform s).requestTags = Slots.empty := by
  have hplain : ∀ config transportId, (s.resetInPlace config transportId).1.requestTags = s.requestTags ∨
      (s.resetInPlace config transportId).1.requestTags = Slots.empty := by
    intro config transportId
    unfold resetInPlace
    split
    · exact .inl rfl
    split
    · exact .inl rfl
    · exact .inr rfl
  cases op with
  | resetInPlace config transportId => exact hplain config transportId
  | resetRouterInPlace config id registry modem =>
      have hreset := hplain config id
      simp only [Operation.perform, resetRouterInPlace]
      split
      · exact .inl rfl
      split
      · rename_i heq
        rwa [heq] at hreset
      · rename_i heq
        rwa [heq] at hreset
  | _ => cases hop

theorem accounted_perform (h : Accounted since recorded s.requestTags) (op : Operation m) :
    Accounted since (recorded ++
        if op.time.any (since ≤ ·) then s.requestTags.newKeys (op.perform s).requestTags else [])
      (op.perform s).requestTags := by
  cases hresets : op.resets with
  | false => exact (op.requestTags_perform s hresets).1.accounted h
  | true =>
      rcases requestTags_of_resets s hresets with hleft | hleft
      · rw [hleft]
        exact h.mono (List.subset_append_left _ _)
      · rw [hleft]
        exact accounted_empty since _

theorem accounted_runs (hrun : Runs Operation.perform allowed s ops t)
    (h : Accounted since recorded s.requestTags) :
    Accounted since (recorded ++ recordedSince since s ops) t.requestTags := by
  induction hrun generalizing recorded with
  | nil => exact h.mono (List.subset_append_left _ _)
  | @cons s _ op ops _ _ ih =>
      have hrest := ih (accounted_perform h op)
      rwa [List.append_assoc] at hrest

abbrev Proceeds (s : LiteNode K m) (ops : List (Operation m)) (t : LiteNode K m) : Prop :=
  Runs Operation.perform (fun s op => op.InOrder s ∧ op.resets = false) s ops t

theorem clockMs_le_perform {op : Operation m} (horder : op.InOrder s) (hresets : op.resets = false) :
    s.clockMs ≤ (op.perform s).clockMs := by
  rw [(op.requestTags_perform s hresets).2]
  cases htime : op.time with
  | none => exact le_rfl
  | some nowMs => exact horder nowMs htime

theorem Proceeds.clockMs_le (hrun : s.Proceeds ops t) : s.clockMs ≤ t.clockMs := by
  induction hrun with
  | nil => exact le_rfl
  | cons hop _ ih => exact (clockMs_le_perform hop.1 hop.2).trans ih

/-- A recorded key is remembered until its deadline, while fewer other keys are recorded than there
are places. -/
theorem Proceeds.holds (hrun : s.Proceeds ops t) {key : Hash32}
    (h : Accounted since recorded s.requestTags)
    (hheld : s.requestTags.Holds ⟨key, since + pathRequestDuplicateGateMs⟩)
    (hsince : since ≤ s.clockMs) (hgate : t.clockMs < since + pathRequestDuplicateGateMs)
    (hfits : since + pathRequestDuplicateGateMs ≤ u64Max)
    (hfew : ((recorded ++ recordedSince since s ops).filter (· ≠ key)).dedup.length < K.tags) :
    t.requestTags.Holds ⟨key, since + pathRequestDuplicateGateMs⟩ := by
  induction hrun generalizing recorded with
  | nil => exact hheld
  | @cons s _ op ops hop hrest ih =>
      have hafter := accounted_perform h op
      rw [recordedSince, ← List.append_assoc] at hfew
      have hlater := clockMs_le_perform hop.1 hop.2
      refine ih hafter ?_ (hsince.trans hlater) hgate hfew
      obtain ⟨hstep, hclock⟩ := op.requestTags_perform s hop.2
      cases htime : op.time with
      | none =>
          rw [htime] at hstep
          rw [hstep.eq_of_none]
          exact hheld
      | some nowMs =>
          rw [htime] at hstep hclock
          have hnow : (op.perform s).clockMs = nowMs := hclock
          have hend := Proceeds.clockMs_le hrest
          exact hstep.holds (hafter.mono (List.subset_append_left _ _)) h.keyed hheld (by omega)
            (by omega) hfits hfew

end LiteNode

end ReticulumLite
