import ReticulumLite.Tables.Transit

/-!
# How long a key is remembered

The hash list and the tags of path requests are kept alike: a key is entered with a deadline unless
it is there, what has expired goes first, and a full table gives up the earliest deadline. So an
entry is safe until its deadline, unless as many other keys come in with deadlines no earlier.
-/

namespace ReticulumLite

open Bounded

section Remember

variable {α κ : Type} [DecidableEq κ] {n : Nat} {key : α → κ} {deadline : α → Nat}
  {t : Slots α n} {e new : α} {nowMs : Nat}

omit [DecidableEq κ] in
theorem holds_live : (running deadline nowMs t).Holds e ↔
    t.Holds e ∧ nowMs < deadline e := by
  simp only [Slots.Holds, Slots.get_clearWhere_eq_some, ge_iff_le, decide_eq_false_iff_not, not_le]
  constructor
  · rintro ⟨i, hi, hlive⟩
    exact ⟨⟨i, hi⟩, hlive⟩
  · rintro ⟨⟨i, hi⟩, hlive⟩
    exact ⟨i, hi, hlive⟩

theorem isSome_find_running {k : κ} :
    ((running deadline nowMs t).find fun e => decide (key e = k)).isSome = true ↔
      ∃ e, t.Holds e ∧ nowMs < deadline e ∧ key e = k := by
  rw [Option.isSome_iff_exists]
  constructor
  · rintro ⟨e, he⟩
    obtain ⟨hholds, hkey⟩ := Slots.find_mem he
    obtain ⟨hheld, hlive⟩ := holds_live.mp hholds
    exact ⟨e, hheld, hlive, of_decide_eq_true hkey⟩
  · rintro ⟨e, hheld, hlive, hkey⟩
    obtain ⟨i, hi⟩ := holds_live.mpr ⟨hheld, hlive⟩
    cases hfound : (running deadline nowMs t).find fun e => decide (key e = k) with
    | some a => exact ⟨a, rfl⟩
    | none =>
        have := Slots.find_eq_none.mp hfound i e hi
        simp [hkey] at this

theorem remember_eq_false : (remember key deadline t new nowMs).2 = false ↔
    ∃ e, t.Holds e ∧ nowMs < deadline e ∧ key e = key new := by
  rw [← isSome_find_running]
  unfold remember
  dsimp only
  split
  · rename_i hfound
    simp only [hfound]
  · rename_i hnone
    refine iff_of_false ?_ hnone
    split
    · exact Bool.false_ne_true.symm
    · exact Bool.false_ne_true.symm

/-- What remembering does: the key runs already, or the entry takes a free place or the oldest. -/
theorem remember_cases (key : α → κ) (deadline : α → Nat) (t : Slots α n) (new : α) (nowMs : Nat) :
    (∃ e, t.Holds e ∧ nowMs < deadline e ∧ key e = key new) ∧
        remember key deadline t new nowMs = (running deadline nowMs t, false) ∨
      (∀ e, t.Holds e → nowMs < deadline e → key e ≠ key new) ∧
        (∃ i, (running deadline nowMs t).free.or (oldestIndex (running deadline nowMs t) deadline) =
            some i ∧
          remember key deadline t new nowMs = ((running deadline nowMs t).put i (some new), true)) ∨
      n = 0 := by
  unfold remember
  dsimp only
  split
  · rename_i hfound
    exact .inl ⟨isSome_find_running.mp hfound, rfl⟩
  · rename_i habsent
    rcases Nat.eq_zero_or_pos n with hn | hn
    · exact .inr (.inr hn)
    obtain ⟨i, hi⟩ := exists_free_or_oldest (running deadline nowMs t) deadline hn
    refine .inr (.inl ⟨fun e hheld hlive hkey => ?_, i, hi, by rw [hi]⟩)
    exact habsent (isSome_find_running.mpr ⟨e, hheld, hlive, hkey⟩)

theorem remember_of_holds (hheld : t.Holds e) (hlive : nowMs < deadline e) (hkey : key e = key new) :
    remember key deadline t new nowMs = (running deadline nowMs t, false) := by
  rcases remember_cases key deadline t new nowMs with ⟨_, heq⟩ | ⟨habsent, _⟩ | rfl
  · exact heq
  · exact absurd hkey (habsent e hheld hlive)
  · obtain ⟨i, _⟩ := hheld
    exact i.elim0

theorem holds_remember_self (hn : 0 < n)
    (habsent : ∀ e, t.Holds e → nowMs < deadline e → key e ≠ key new) :
    (remember key deadline t new nowMs).1.Holds new := by
  rcases remember_cases key deadline t new nowMs with ⟨⟨e, he, hlive, hkey⟩, _⟩ | ⟨_, i, _, heq⟩ | rfl
  · exact absurd hkey (habsent e he hlive)
  · rw [heq]
    exact ⟨i, Slots.get_put_self _ _ _⟩
  · exact absurd hn (lt_irrefl 0)

theorem holds_of_remember (h : (remember key deadline t new nowMs).1.Holds e) :
    t.Holds e ∨ e = new ∧ (remember key deadline t new nowMs).2 = true := by
  rcases remember_cases key deadline t new nowMs with ⟨_, heq⟩ | ⟨_, i, _, heq⟩ | rfl
  · rw [heq] at h
    exact .inl (holds_live.mp h).1
  · rw [heq] at h ⊢
    obtain ⟨j, hj⟩ := h
    rw [Slots.get_put] at hj
    split at hj
    · exact .inr ⟨(Option.some.inj hj).symm, rfl⟩
    · exact .inl (holds_live.mp ⟨j, hj⟩).1
  · obtain ⟨i, _⟩ := h
    exact i.elim0

theorem keyed_remember (h : t.Keyed key) : (remember key deadline t new nowMs).1.Keyed key := by
  have hlive : (running deadline nowMs t).Keyed key := h.clearWhere _
  rcases remember_cases key deadline t new nowMs with ⟨_, heq⟩ | ⟨habsent, i, _, heq⟩ | rfl
  · rw [heq]
    exact hlive
  · rw [heq]
    refine hlive.put fun e he j a _ ha => ?_
    obtain ⟨hheld, hrunning⟩ := holds_live.mp ⟨j, ha⟩
    exact Option.some.inj he ▸ habsent a hheld hrunning
  · intro i
    exact i.elim0

/-- An entry that runs is kept, unless the table is full of other keys with deadlines no earlier. -/
theorem holds_remember (hkeyed : t.Keyed key) (hheld : t.Holds e) (hlive : nowMs < deadline e)
    (hlate : deadline e ≤ deadline new) :
    (remember key deadline t new nowMs).1.Holds e ∨
      ∃ keys : Finset κ, keys.card = n ∧ key e ∉ keys ∧ ∀ k ∈ keys,
        ∃ a, (remember key deadline t new nowMs).1.Holds a ∧ key a = k ∧ deadline e ≤ deadline a := by
  have hafter : (remember key deadline t new nowMs).1.Keyed key := keyed_remember hkeyed
  rcases remember_cases key deadline t new nowMs with ⟨_, heq⟩ | ⟨habsent, i, hi, heq⟩ | rfl
  · rw [heq]
    exact .inl (holds_live.mpr ⟨hheld, hlive⟩)
  · rw [heq] at hafter ⊢
    obtain ⟨j, hj⟩ := holds_live.mpr ⟨hheld, hlive⟩
    by_cases hij : i = j
    · subst hij
      -- the entry itself makes room: the table is full, and nothing in it is older
      right
      have hold : (running deadline nowMs t).free = none := by
        cases hfree : (running deadline nowMs t).free with
        | none => rfl
        | some k =>
            rw [hfree, Option.some_or] at hi
            obtain rfl := Option.some.inj hi
            rw [Slots.get_of_free hfree] at hj
            cases hj
      rw [hold, Option.none_or] at hi
      obtain ⟨e', he', holdest⟩ := oldestIndex_eq_some hi
      obtain rfl := Option.some.inj (hj.symm.trans he')
      have hfull : ∀ k, ∃ a, ((running deadline nowMs t).put i (some new)).get k = some a := by
        intro k
        rw [Slots.get_put]
        split
        · exact ⟨new, rfl⟩
        · exact Slots.free_eq_none.mp hold k
      have hothers : ∀ a, ((running deadline nowMs t).put i (some new)).Holds a →
          key a ≠ key e ∧ deadline e ≤ deadline a := by
        rintro a ⟨k, hk⟩
        rw [Slots.get_put] at hk
        split at hk
        · obtain rfl := Option.some.inj hk
          exact ⟨fun hkey => habsent e hheld hlive hkey.symm, hlate⟩
        · rename_i hik
          exact ⟨fun hkey => hik (hkeyed.clearWhere _ hj hk hkey.symm), holdest k a hk⟩
      obtain ⟨keys, hcard, hkeys⟩ := hafter.exists_keys hfull
      refine ⟨keys, hcard, fun hmem => ?_, fun k hk => ?_⟩
      · obtain ⟨a, ha, hkey⟩ := hkeys _ hmem
        exact (hothers a ha).1 hkey
      · obtain ⟨a, ha, hkey⟩ := hkeys k hk
        exact ⟨a, ha, hkey, (hothers a ha).2⟩
    · exact .inl ⟨j, (Slots.get_put_of_ne hij _).trans hj⟩
  · obtain ⟨i, _⟩ := hheld
    exact i.elim0

theorem holds_remember_of_few {recorded : List κ} (hkeyed : t.Keyed key) (hheld : t.Holds e)
    (hlive : nowMs < deadline e) (hlate : deadline e ≤ deadline new)
    (hmem : ∀ a, (remember key deadline t new nowMs).1.Holds a → deadline e ≤ deadline a →
      key a ∈ recorded)
    (hfew : (recorded.filter (· ≠ key e)).dedup.length < n) :
    (remember key deadline t new nowMs).1.Holds e := by
  rcases holds_remember hkeyed hheld hlive hlate with hkept | ⟨keys, hcard, hnot, hkeys⟩
  · exact hkept
  · -- the table would hold as many other keys as it has places
    have hsub : keys ⊆ (recorded.filter (· ≠ key e)).toFinset := by
      intro k hk
      obtain ⟨a, ha, rfl, hlast⟩ := hkeys k hk
      rw [List.mem_toFinset, List.mem_filter]
      refine ⟨hmem a ha hlast, ?_⟩
      simpa using fun heq : key a = key e => hnot (heq ▸ hk)
    have hle := Finset.card_le_card hsub
    rw [hcard, List.card_toFinset] at hle
    omega

end Remember

/-! ### Histories -/

/-- What is asked of a table of remembered keys: to enter a key, whether one is held, or nothing. -/
inductive DedupRequest (κ : Type)
  | enter (key : κ)
  | ask (key : κ)
  | prune

/-- A table of remembered keys as its callers see it. The answer says that a key was new, or that it
is held. -/
structure Dedup (α κ ω : Type) (n : Nat) where
  perform : Slots α n → ω → Slots α n × Bool
  request : ω → DedupRequest κ
  time : ω → Nat

namespace Dedup

variable {α κ ω : Type} {n : Nat} (D : Dedup α κ ω n)

def after (t : Slots α n) (ops : List ω) : Slots α n := ops.foldl (fun t op => (D.perform t op).1) t

/-- The key that an operation enters as new, and when. -/
def accepts (t : Slots α n) (op : ω) : Option (κ × Nat) :=
  match D.request op with
  | .enter key => if (D.perform t op).2 then some (key, D.time op) else none
  | .ask _ | .prune => none

/-- All keys that a sequence of operations enters, each with its time. -/
def accepted : Slots α n → List ω → List (κ × Nat)
  | _, [] => []
  | t, op :: ops => (D.accepts t op).toList ++ accepted (D.perform t op).1 ops

/-- The key that an operation reports as a duplicate. -/
def duplicate (t : Slots α n) (op : ω) : Option κ :=
  match D.request op with
  | .enter key => if (D.perform t op).2 then none else some key
  | .ask key => if (D.perform t op).2 then some key else none
  | .prune => none

def tests (op : ω) : Option κ :=
  match D.request op with
  | .enter key | .ask key => some key
  | .prune => none

def InOrder (ops : List ω) : Prop := ops.Pairwise fun op op' => D.time op ≤ D.time op'

def keysSince (since : Nat) (entered : List (κ × Nat)) : List κ :=
  (entered.filter fun entry => decide (since ≤ entry.2)).map Prod.fst

/-- What a table that keeps keys for a fixed time promises over any history. -/
structure Retains [DecidableEq κ] (D : Dedup α κ ω n) (key : α → κ) (lifetime : Nat) : Prop where
  /-- No key is stored twice. -/
  distinct : ∀ ops, D.InOrder ops → (D.after Slots.empty ops).Keyed key
  /-- A key that was entered is reported until its time is over, while fewer other keys come in than
  there are places. -/
  remembered : ∀ before op between test k, D.InOrder (before ++ op :: between ++ [test]) →
    D.accepts (D.after Slots.empty before) op = some (k, D.time op) → D.tests test = some k →
    D.time test < D.time op + lifetime →
    ((keysSince (D.time op) (D.accepted Slots.empty (before ++ op :: between))).filter
      (· ≠ k)).dedup.length < n →
    D.duplicate (D.after Slots.empty (before ++ op :: between)) test = some k
  /-- A report leaves every entry as it was, or without a place. -/
  unextended : ∀ ops op k, D.InOrder (ops ++ [op]) →
    D.duplicate (D.after Slots.empty ops) op = some k →
    (D.perform (D.after Slots.empty ops) op).1.Within (D.after Slots.empty ops)
  /-- What is reported was entered, and not too long ago. -/
  recent : ∀ ops op k, D.InOrder (ops ++ [op]) →
    D.duplicate (D.after Slots.empty ops) op = some k →
    ∃ entered, (k, entered) ∈ D.accepted Slots.empty ops ∧ entered ≤ D.time op ∧
      D.time op < entered + lifetime

section Serves

variable {key : α → κ} {deadline : α → Nat} {make : κ → Nat → α} {lifetime : Nat}
  {t : Slots α n} {past : List (κ × Nat)} {op : ω} {ops : List ω}

/-- Every entry was entered, a lifetime before its deadline. -/
structure Backed (key : α → κ) (deadline : α → Nat) (lifetime : Nat) (past : List (κ × Nat))
    (t : Slots α n) : Prop where
  keyed : t.Keyed key
  mem : ∀ e, t.Holds e → ∃ entered, (key e, entered) ∈ past ∧ deadline e = entered + lifetime

theorem backed_empty : Backed key deadline lifetime [] (Slots.empty : Slots α n) where
  keyed := Slots.keyed_empty
  mem e he := by
    obtain ⟨i, hi⟩ := he
    simp at hi

theorem Backed.mem_keysSince (h : Backed key deadline lifetime past t) {e : α} (he : t.Holds e)
    {since : Nat} (hlate : since + lifetime ≤ deadline e) : key e ∈ keysSince since past := by
  obtain ⟨entered, hmem, hdeadline⟩ := h.mem e he
  rw [keysSince, List.mem_map]
  refine ⟨(key e, entered), List.mem_filter.mpr ⟨hmem, ?_⟩, rfl⟩
  rw [decide_eq_true_eq]
  omega

theorem Backed.running (h : Backed key deadline lifetime past t) (nowMs : Nat) :
    Backed key deadline lifetime past (running deadline nowMs t) :=
  ⟨h.keyed.clearWhere _, fun e he => h.mem e (holds_live.mp he).1⟩

theorem Backed.mono {past' : List (κ × Nat)} (h : Backed key deadline lifetime past t)
    (hsub : past ⊆ past') : Backed key deadline lifetime past' t := by
  refine ⟨h.keyed, fun e he => ?_⟩
  obtain ⟨entered, hmem, hdeadline⟩ := h.mem e he
  exact ⟨entered, hsub hmem, hdeadline⟩

variable [DecidableEq κ]

def serve (key : α → κ) (deadline : α → Nat) (make : κ → Nat → α) (lifetime : Nat)
    (t : Slots α n) (nowMs : Nat) : DedupRequest κ → Slots α n × Bool
  | .enter k => remember key deadline t (make k (nowMs + lifetime)) nowMs
  | .ask k => (running deadline nowMs t,
      ((running deadline nowMs t).find fun e => decide (key e = k)).isSome)
  | .prune => (running deadline nowMs t, true)

/-- The table is one of entries with a key and a deadline, and does what is asked of it. -/
structure Serves (D : Dedup α κ ω n) (key : α → κ) (deadline : α → Nat) (make : κ → Nat → α)
    (lifetime : Nat) : Prop where
  key_make : ∀ k d, key (make k d) = k
  deadline_make : ∀ k d, deadline (make k d) = d
  perform : ∀ t op, D.perform t op = serve key deadline make lifetime t (D.time op) (D.request op)

variable {D}

section

variable (h : D.Serves key deadline make lifetime)

include h

theorem Serves.backed (hbacked : Backed key deadline lifetime past t) (op : ω) :
    Backed key deadline lifetime (past ++ (D.accepts t op).toList) (D.perform t op).1 := by
  unfold accepts
  rw [h.perform]
  cases D.request op with
  | enter k =>
      refine ⟨keyed_remember hbacked.keyed, fun e he => ?_⟩
      rcases holds_of_remember he with hold | ⟨rfl, hnew⟩
      · obtain ⟨entered, hmem, hdeadline⟩ := hbacked.mem e hold
        exact ⟨entered, List.mem_append_left _ hmem, hdeadline⟩
      · refine ⟨D.time op, List.mem_append_right _ ?_, h.deadline_make _ _⟩
        simp only [serve, hnew, if_true, h.key_make, Option.toList_some, List.mem_singleton]
  | ask k => exact (hbacked.running _).mono (List.subset_append_left _ _)
  | prune => exact (hbacked.running _).mono (List.subset_append_left _ _)

theorem Serves.backed_after (hbacked : Backed key deadline lifetime past t) (ops : List ω) :
    Backed key deadline lifetime (past ++ D.accepted t ops) (D.after t ops) := by
  induction ops generalizing t past with
  | nil => exact hbacked.mono (List.subset_append_left _ _)
  | cons op ops ih =>
      have hrest := ih (h.backed hbacked op)
      rwa [List.append_assoc] at hrest

theorem Serves.duplicate_iff {k : κ} :
    D.duplicate t op = some k ↔
      D.tests op = some k ∧ ∃ e, t.Holds e ∧ D.time op < deadline e ∧ key e = k := by
  unfold duplicate tests
  rw [h.perform]
  cases D.request op with
  | enter k' =>
      have hheld : (remember key deadline t (make k' (D.time op + lifetime)) (D.time op)).2 = false ↔
          ∃ e, t.Holds e ∧ D.time op < deadline e ∧ key e = k' := by
        rw [remember_eq_false, h.key_make]
      cases hnew : (remember key deadline t (make k' (D.time op + lifetime)) (D.time op)).2 with
      | false =>
          simp only [serve, hnew, Bool.false_eq_true, if_false, Option.some.injEq]
          exact ⟨fun hk => ⟨hk, hk ▸ hheld.mp hnew⟩, fun hk => hk.1⟩
      | true =>
          simp only [serve, hnew, if_true, Option.some.injEq, reduceCtorEq, false_iff]
          rintro ⟨rfl, hfound⟩
          rw [hheld.mpr hfound] at hnew
          cases hnew
  | ask k' =>
      have hheld : ((running deadline (D.time op) t).find fun e => decide (key e = k')).isSome = true ↔
          ∃ e, t.Holds e ∧ D.time op < deadline e ∧ key e = k' := isSome_find_running
      cases hfound : ((running deadline (D.time op) t).find fun e => decide (key e = k')).isSome with
      | true =>
          simp only [serve, hfound, if_true, Option.some.injEq]
          exact ⟨fun hk => ⟨hk, hk ▸ hheld.mp hfound⟩, fun hk => hk.1⟩
      | false =>
          simp only [serve, hfound, Bool.false_eq_true, if_false, Option.some.injEq, reduceCtorEq,
            false_iff]
          rintro ⟨rfl, hthere⟩
          rw [hheld.mpr hthere] at hfound
          cases hfound
  | prune => simp

/-- An entry stays, while fewer other keys have come since it did than there are places. -/
theorem Serves.holds_after {e : α} {since : Nat} (hbacked : Backed key deadline lifetime past t)
    (hheld : t.Holds e) (hdeadline : deadline e = since + lifetime)
    (htimes : ∀ op ∈ ops, since ≤ D.time op ∧ D.time op < since + lifetime)
    (hfew : ((keysSince since (past ++ D.accepted t ops)).filter (· ≠ key e)).dedup.length < n) :
    (D.after t ops).Holds e := by
  induction ops generalizing t past with
  | nil => exact hheld
  | cons op ops ih =>
      have hstep := h.backed hbacked op
      have hop := htimes op List.mem_cons_self
      rw [accepted, ← List.append_assoc] at hfew
      refine ih hstep ?_ (fun op' hop' => htimes op' (List.mem_cons_of_mem op hop')) hfew
      have hlive : D.time op < deadline e := hdeadline ▸ hop.2
      have hmem : ∀ a, (D.perform t op).1.Holds a → deadline e ≤ deadline a → key a ∈
          keysSince since (past ++ (D.accepts t op).toList ++ D.accepted (D.perform t op).1 ops) :=
        fun a ha hlate => (hstep.mono (List.subset_append_left _ _)).mem_keysSince ha (hdeadline ▸ hlate)
      generalize keysSince since (past ++ _ ++ _) = recorded at hfew hmem
      change (D.perform t op).1.Holds e
      rw [h.perform] at hmem ⊢
      cases hrequest : D.request op with
      | enter k =>
          rw [hrequest] at hmem
          refine holds_remember_of_few hbacked.keyed hheld hlive ?_ hmem hfew
          rw [hdeadline, h.deadline_make]
          omega
      | ask k => exact holds_live.mpr ⟨hheld, hlive⟩
      | prune => exact holds_live.mpr ⟨hheld, hlive⟩

end

omit [DecidableEq κ] in
theorem time_of_accepted {k : κ} {entered : Nat} (hmem : (k, entered) ∈ D.accepted t ops) :
    ∃ op ∈ ops, D.time op = entered := by
  induction ops generalizing t with
  | nil => cases hmem
  | cons op ops ih =>
      rw [accepted, List.mem_append, Option.mem_toList] at hmem
      rcases hmem with hmem | hmem
      · refine ⟨op, List.mem_cons_self, ?_⟩
        unfold accepts at hmem
        cases hrequest : D.request op with
        | enter k' =>
            simp only [hrequest, Option.ite_none_right_eq_some, Option.some.injEq, Prod.mk.injEq] at hmem
            exact hmem.2.2
        | ask k' => simp [hrequest] at hmem
        | prune => simp [hrequest] at hmem
      · obtain ⟨op', hop', htime⟩ := ih hmem
        exact ⟨op', List.mem_cons_of_mem op hop', htime⟩

omit [DecidableEq κ] in
theorem accepted_append (t : Slots α n) (ops ops' : List ω) :
    D.accepted t (ops ++ ops') = D.accepted t ops ++ D.accepted (D.after t ops) ops' := by
  induction ops generalizing t with
  | nil => rfl
  | cons op ops ih =>
      rw [List.cons_append, accepted, accepted, ih, List.append_assoc]
      rfl

omit [DecidableEq κ] in
theorem after_append (t : Slots α n) (ops ops' : List ω) :
    D.after t (ops ++ ops') = D.after (D.after t ops) ops' := List.foldl_append

theorem Serves.holds_of_accepts (h : D.Serves key deadline make lifetime) (hn : 0 < n) {k : κ}
    {entered : Nat} (haccepts : D.accepts t op = some (k, entered)) :
    (D.perform t op).1.Holds (make k (D.time op + lifetime)) := by
  unfold accepts at haccepts
  rw [h.perform] at haccepts ⊢
  cases hrequest : D.request op with
  | enter k' =>
      simp only [hrequest, serve, Option.ite_none_right_eq_some, Option.some.injEq,
        Prod.mk.injEq] at haccepts
      obtain ⟨hnew, rfl, _⟩ := haccepts
      refine holds_remember_self hn fun e he hlive hkey => ?_
      rw [remember_eq_false.mpr ⟨e, he, hlive, hkey⟩] at hnew
      cases hnew
  | ask k' => simp [hrequest] at haccepts
  | prune => simp [hrequest] at haccepts

theorem Serves.within_of_duplicate (h : D.Serves key deadline make lifetime) {k : κ}
    (hduplicate : D.duplicate t op = some k) : (D.perform t op).1.Within t := by
  obtain ⟨htests, e, he, hlive, hkey⟩ := h.duplicate_iff.mp hduplicate
  rw [h.perform]
  unfold tests at htests
  cases hrequest : D.request op with
  | enter k' =>
      rw [hrequest] at htests
      obtain rfl := Option.some.inj htests
      simp only [serve]
      rw [remember_of_holds he hlive (hkey.trans (h.key_make _ _).symm)]
      exact Slots.within_clearWhere _ t
  | ask k' => exact Slots.within_clearWhere _ t
  | prune => exact Slots.within_clearWhere _ t

theorem Serves.retains (h : D.Serves key deadline make lifetime) : D.Retains key lifetime := by
  have hbacked (ops : List ω) : Backed key deadline lifetime (D.accepted Slots.empty ops)
      (D.after Slots.empty ops) := h.backed_after backed_empty ops
  refine ⟨fun ops _ => (hbacked ops).keyed, ?_, ?_, ?_⟩
  · intro before op between test k horder haccepts htests htime hfew
    have hn : 0 < n := lt_of_le_of_lt (Nat.zero_le _) hfew
    have htimes : ∀ op' ∈ between, D.time op ≤ D.time op' ∧ D.time op' < D.time op + lifetime := by
      intro op' hop'
      obtain ⟨hfirst, _, hlast⟩ := List.pairwise_append.mp horder
      have hfrom := List.rel_of_pairwise_cons (List.pairwise_append.mp hfirst).2.1 hop'
      have hto := hlast op' (by simp [hop']) test (List.mem_singleton_self test)
      exact ⟨hfrom, lt_of_le_of_lt hto htime⟩
    have hentered := h.holds_of_accepts hn haccepts
    rw [accepted_append, accepted, ← List.append_assoc] at hfew
    rw [h.duplicate_iff]
    refine ⟨htests, make k (D.time op + lifetime), ?_, ?_, h.key_make _ _⟩
    · rw [after_append]
      refine h.holds_after (t := (D.perform (D.after Slots.empty before) op).1)
        (h.backed (hbacked before) op) hentered (h.deadline_make _ _) htimes ?_
      rwa [h.key_make]
    · rwa [h.deadline_make]
  · intro ops op k _ hduplicate
    exact h.within_of_duplicate hduplicate
  · intro ops op k horder hduplicate
    obtain ⟨_, e, he, hlive, rfl⟩ := h.duplicate_iff.mp hduplicate
    obtain ⟨entered, hmem, hdeadline⟩ := (hbacked ops).mem e he
    obtain ⟨op', hop', htime⟩ := time_of_accepted hmem
    have hle := (List.pairwise_append.mp horder).2.2 op' hop' op (List.mem_singleton_self op)
    exact ⟨entered, hmem, htime ▸ hle, hdeadline ▸ hlive⟩

end Serves
end Dedup

namespace RequestTagTable

variable {n : Nat} {t : RequestTagTable n} {e : RequestTagEntry} {key : Hash32}
  {expiresMs nowMs : Nat}

theorem insertIfNew_of_holds (hheld : t.Holds e) (hlive : nowMs < e.expiresMs) (hkey : e.key = key) :
    t.insertIfNew key expiresMs nowMs = (t.expire nowMs, false) :=
  remember_of_holds hheld hlive hkey

theorem holds_insertIfNew_self (hn : 0 < n)
    (habsent : ∀ e, t.Holds e → nowMs < e.expiresMs → e.key ≠ key) :
    (t.insertIfNew key expiresMs nowMs).1.Holds ⟨key, expiresMs⟩ :=
  holds_remember_self hn habsent

/-- What may be done to the tags; a tag is kept for a fixed time. -/
inductive Operation
  | insertIfNew (key : Hash32) (nowMs : Nat)
  | expire (nowMs : Nat)

def perform (lifetime : Nat) (t : RequestTagTable n) : Operation → RequestTagTable n × Bool
  | .insertIfNew key nowMs => t.insertIfNew key (nowMs + lifetime) nowMs
  | .expire nowMs => (t.expire nowMs, true)

def dedup (n lifetime : Nat) : Dedup RequestTagEntry Hash32 Operation n where
  perform := perform lifetime
  request
    | .insertIfNew key _ => .enter key
    | .expire _ => .prune
  time
    | .insertIfNew _ nowMs | .expire nowMs => nowMs

theorem serves_dedup (n lifetime : Nat) : (dedup n lifetime).Serves RequestTagEntry.key
    RequestTagEntry.expiresMs RequestTagEntry.mk lifetime where
  key_make _ _ := rfl
  deadline_make _ _ := rfl
  perform _ op := by cases op <;> rfl

end RequestTagTable

namespace PacketHashTable

/-- What may be done to the hash list; a hash is kept for a fixed time. -/
inductive Operation
  | insert (hash : Hash32) (nowMs : Nat)
  | contains (hash : Hash32) (nowMs : Nat)
  | expire (nowMs : Nat)

def perform {n : Nat} (lifetime : Nat) (t : PacketHashTable n) : Operation → PacketHashTable n × Bool
  | .insert hash nowMs => t.insert hash (nowMs + lifetime) nowMs
  | .contains hash nowMs => t.contains hash nowMs
  | .expire nowMs => (t.expire nowMs, true)

def dedup (n lifetime : Nat) : Dedup PacketHashEntry Hash32 Operation n where
  perform := perform lifetime
  request
    | .insert hash _ => .enter hash
    | .contains hash _ => .ask hash
    | .expire _ => .prune
  time
    | .insert _ nowMs | .contains _ nowMs | .expire nowMs => nowMs

theorem serves_dedup (n lifetime : Nat) : (dedup n lifetime).Serves PacketHashEntry.hash
    PacketHashEntry.expiresMs PacketHashEntry.mk lifetime where
  key_make _ _ := rfl
  deadline_make _ _ := rfl
  perform _ op := by cases op <;> rfl

end PacketHashTable

/-- Both lists, of any size and for any lifetime, remember what they have accepted. -/
theorem dedup_tables_retain (n lifetime : Nat) :
    (PacketHashTable.dedup n lifetime).Retains PacketHashEntry.hash lifetime ∧
      (RequestTagTable.dedup n lifetime).Retains RequestTagEntry.key lifetime :=
  ⟨(PacketHashTable.serves_dedup n lifetime).retains,
    (RequestTagTable.serves_dedup n lifetime).retains⟩

end ReticulumLite
