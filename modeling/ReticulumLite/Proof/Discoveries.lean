import ReticulumLite.Tables.Discovery

/-!
# The ledger of discoveries

Calls on the table of discoveries, from the empty table on, in any order and at any times. A call
makes at most one entry, under the next identity; every other entry is one from before with the same
identity, destination and deadline, and the same requesters but for the one the call is about. All
else follows from that.
-/

namespace ReticulumLite

open Bounded

namespace Discoveries

variable {n : Nat}

/-! ### Calls -/

inductive Call
  | begin (destination : Hash16) (slot now timeout : Nat)
  | take (destination : Hash16) (now : Nat)
  | expire (now : Nat)
  | retireRequester (slot : Nat)
  | clear
  deriving DecidableEq

inductive Answer
  | began (answer : BeginDiscovery)
  | took (entry : Option DiscoveryEntry)
  | done
  deriving DecidableEq

/-- A call and what it returns; a slot beyond the mask is refused or ignored. -/
def call (d : Discoveries n) : Call → Discoveries n × Answer
  | .begin destination slot now timeout =>
      if h : slot < 8 then
        let result := d.begin destination ⟨slot, h⟩ now timeout
        (result.1, .began result.2)
      else (d, .began .refused)
  | .take destination now =>
      let result := d.take destination now
      (result.1, .took result.2)
  | .expire now => (d.expire now, .done)
  | .retireRequester slot =>
      if h : slot < 8 then (d.retireRequester ⟨slot, h⟩, .done) else (d, .done)
  | .clear => (d.clear, .done)

theorem call_begin (d : Discoveries n) (destination : Hash16) (slot : Fin 8) (now timeout : Nat) :
    d.call (.begin destination slot.val now timeout) =
      ((d.begin destination slot now timeout).1, .began (d.begin destination slot now timeout).2) :=
  dif_pos slot.isLt

variable {slot : Nat}

theorem call_begin_of_le (d : Discoveries n) (destination : Hash16) (h : 8 ≤ slot)
    (now timeout : Nat) :
    d.call (.begin destination slot now timeout) = (d, .began .refused) :=
  dif_neg (not_lt.mpr h)

theorem call_retireRequester (d : Discoveries n) (slot : Fin 8) :
    d.call (.retireRequester slot.val) = (d.retireRequester slot, .done) :=
  dif_pos slot.isLt

theorem call_retireRequester_of_le (d : Discoveries n) (h : 8 ≤ slot) :
    d.call (.retireRequester slot) = (d, .done) :=
  dif_neg (not_lt.mpr h)

theorem slot_cases (slot : Nat) : (∃ b : Fin 8, slot = b.val) ∨ 8 ≤ slot := by
  rcases Nat.lt_or_ge slot 8 with h | h
  · exact .inl ⟨⟨slot, h⟩, rfl⟩
  · exact .inr h

def play (d : Discoveries n) (calls : List Call) : Discoveries n :=
  calls.foldl (fun d c => (d.call c).1) d

theorem play_cons (d : Discoveries n) (c : Call) (calls : List Call) :
    d.play (c :: calls) = (d.call c).1.play calls := rfl

theorem play_append (d : Discoveries n) (calls later : List Call) :
    d.play (calls ++ later) = (d.play calls).play later :=
  List.foldl_append

/-! ### Starting and joining -/

def joined (e : DiscoveryEntry) (slot : Fin 8) : DiscoveryEntry :=
  { e with requesters := e.requesters ||| slotBit slot }

theorem begin_cases (d : Discoveries n) (destination : Hash16) (slot : Fin 8) (now timeout : Nat) :
    (∃ i, ((d.expire now).entries.get i).identity ≠ 0 ∧
      ((d.expire now).entries.get i).destination = destination ∧
      d.begin destination slot now timeout =
        (⟨(d.expire now).entries.set i (joined ((d.expire now).entries.get i) slot),
          d.lastIdentity⟩, .joined)) ∨
    (∀ e, (d.expire now).Has e → e.destination ≠ destination) ∧
      (d.begin destination slot now timeout = (d.expire now, .refused) ∨
        ∃ i, ((d.expire now).entries.get i).identity = 0 ∧ now < satAdd now timeout ∧
          d.begin destination slot now timeout =
            (⟨(d.expire now).entries.set i
              ⟨destination, satAdd now timeout, d.lastIdentity + 1, slotBit slot⟩,
              d.lastIdentity + 1⟩, .new (d.lastIdentity + 1))) := by
  unfold begin
  dsimp only
  cases hfound : firstIndex fun i => decide (((d.expire now).entries.get i).identity ≠ 0) &&
      decide (((d.expire now).entries.get i).destination = destination) with
  | some i =>
      have hi := (firstIndex_eq_some.mp hfound).1
      simp only [Bool.and_eq_true, decide_eq_true_eq] at hi
      exact .inl ⟨i, hi.1, hi.2, rfl⟩
  | none =>
      refine .inr ⟨?_, ?_⟩
      · rintro e ⟨i, hi, hid⟩ hdest
        have hnone := firstIndex_eq_none.mp hfound i
        rw [hi, decide_eq_true hid, decide_eq_true hdest] at hnone
        cases hnone
      · cases hfree : firstIndex fun i => decide (((d.expire now).entries.get i).identity = 0) with
        | none => exact .inl rfl
        | some i =>
            have hi := of_decide_eq_true (firstIndex_eq_some.mp hfree).1
            cases hnext : checkedSucc (d.expire now).lastIdentity with
            | none => exact .inl rfl
            | some identity =>
                obtain ⟨_, rfl⟩ := checkedSucc_eq_some.mp hnext
                dsimp only
                by_cases hlate : satAdd now timeout ≤ now
                · rw [if_pos hlate]
                  exact .inl rfl
                · rw [if_neg hlate]
                  exact .inr ⟨i, hi, not_le.mp hlate, rfl⟩

/-! ### The invariant -/

/-- Entries differ in their identities and in their destinations, and someone waits for each. -/
structure Sound (d : Discoveries n) : Prop where
  issued : ∀ i, (d.entries.get i).identity ≤ d.lastIdentity
  identities : ∀ i j, (d.entries.get i).identity ≠ 0 →
    (d.entries.get i).identity = (d.entries.get j).identity → i = j
  destinations : ∀ i j, (d.entries.get i).identity ≠ 0 → (d.entries.get j).identity ≠ 0 →
    (d.entries.get i).destination = (d.entries.get j).destination → i = j
  requested : ∀ i, (d.entries.get i).identity ≠ 0 → (d.entries.get i).requesters ≠ 0

theorem sound_new : (new : Discoveries n).Sound where
  issued i := by simp [new, DiscoveryEntry.empty]
  identities i j hi := by simp [new, DiscoveryEntry.empty] at hi
  destinations i j hi := by simp [new, DiscoveryEntry.empty] at hi
  requested i hi := by simp [new, DiscoveryEntry.empty] at hi

variable {d : Discoveries n}

theorem Sound.of_remain {d' : Discoveries n} (h : d.Sound)
    (hlast : d'.lastIdentity = d.lastIdentity)
    (hremain : ∀ i, (d'.entries.get i).identity ≠ 0 →
      (d'.entries.get i).identity = (d.entries.get i).identity ∧
      (d'.entries.get i).destination = (d.entries.get i).destination ∧
      (d'.entries.get i).requesters ≠ 0) : d'.Sound where
  issued i := by
    by_cases hi : (d'.entries.get i).identity = 0
    · rw [hi]
      exact Nat.zero_le _
    · rw [(hremain i hi).1, hlast]
      exact h.issued i
  identities i j hi heq := by
    have hj : (d'.entries.get j).identity ≠ 0 := heq ▸ hi
    have hsame := (hremain i hi).1
    rw [hsame] at hi heq
    rw [(hremain j hj).1] at heq
    exact h.identities i j hi heq
  destinations i j hi hj heq := by
    rw [(hremain i hi).2.1, (hremain j hj).2.1] at heq
    rw [(hremain i hi).1] at hi
    rw [(hremain j hj).1] at hj
    exact h.destinations i j hi hj heq
  requested i hi := (hremain i hi).2.2

theorem get_expire (d : Discoveries n) (now : Nat) (i : Fin n) :
    (d.expire now).entries.get i =
      if (d.entries.get i).live now then d.entries.get i else .empty := by
  simp only [expire, List.Vector.get_map]

variable {now : Nat} {i : Fin n}

theorem get_expire_of_ne (h : ((d.expire now).entries.get i).identity ≠ 0) :
    (d.expire now).entries.get i = d.entries.get i := by
  rw [get_expire] at h ⊢
  by_cases hlive : (d.entries.get i).live now = true
  · rw [if_pos hlive]
  · rw [if_neg hlive] at h
    exact absurd rfl h

theorem Sound.expire (h : d.Sound) (now : Nat) : (d.expire now).Sound := by
  refine h.of_remain rfl fun i hi => ?_
  have heq := get_expire_of_ne hi
  rw [heq] at hi ⊢
  exact ⟨rfl, rfl, h.requested i hi⟩

theorem get_retireRequester_of_ne {slot : Fin 8}
    (h : ((d.retireRequester slot).entries.get i).identity ≠ 0) :
    (d.entries.get i).requesters &&& ~~~ slotBit slot ≠ 0 ∧
      (d.retireRequester slot).entries.get i =
        { d.entries.get i with
          requesters := (d.entries.get i).requesters &&& ~~~ slotBit slot } := by
  simp only [retireRequester, List.Vector.get_map] at h ⊢
  by_cases hzero : (d.entries.get i).requesters &&& ~~~ slotBit slot = 0
  · rw [if_pos hzero] at h
    exact absurd rfl h
  · rw [if_neg hzero]
    exact ⟨hzero, rfl⟩

theorem Sound.retireRequester (h : d.Sound) (slot : Fin 8) : (d.retireRequester slot).Sound := by
  refine h.of_remain rfl fun i hi => ?_
  obtain ⟨hzero, heq⟩ := get_retireRequester_of_ne hi
  rw [heq]
  exact ⟨rfl, rfl, hzero⟩

variable {destination : Hash16}

theorem get_take_of_ne (h : ((d.take destination now).1.entries.get i).identity ≠ 0) :
    (d.take destination now).1.entries.get i = d.entries.get i := by
  unfold take at h ⊢
  split
  · rfl
  · rename_i j hj
    rw [hj] at h
    simp only [List.Vector.get_set_eq_if] at h ⊢
    by_cases hij : j = i
    · rw [if_pos hij] at h
      exact absurd rfl h
    · rw [if_neg hij]

theorem lastIdentity_take (d : Discoveries n) (destination : Hash16) (now : Nat) :
    (d.take destination now).1.lastIdentity = d.lastIdentity := by
  unfold take
  split <;> rfl

theorem Sound.take (h : d.Sound) (destination : Hash16) (now : Nat) :
    (d.take destination now).1.Sound := by
  refine h.of_remain (lastIdentity_take d destination now) fun i hi => ?_
  have heq := get_take_of_ne hi
  rw [heq] at hi ⊢
  exact ⟨rfl, rfl, h.requested i hi⟩

theorem Sound.clear (h : d.Sound) : d.clear.Sound := by
  refine h.of_remain rfl fun i hi => ?_
  simp [Discoveries.clear, DiscoveryEntry.empty] at hi

theorem Sound.set_next (h : d.Sound) (hnone : ∀ e, d.Has e → e.destination ≠ destination)
    (i : Fin n) (expiresMs : Nat) (slot : Fin 8) :
    Sound (⟨d.entries.set i ⟨destination, expiresMs, d.lastIdentity + 1, slotBit slot⟩,
      d.lastIdentity + 1⟩ : Discoveries n) where
  issued j := by
    rw [List.Vector.get_set_eq_if]
    split
    · exact le_rfl
    · exact Nat.le_succ_of_le (h.issued j)
  identities j k hj heq := by
    have hlast := h.issued
    rw [List.Vector.get_set_eq_if] at hj heq
    rw [List.Vector.get_set_eq_if] at heq
    split_ifs at hj heq with hij hik hik
    · exact hij.symm.trans hik
    · exact absurd (hlast k) (by rw [← heq]; exact not_le.mpr (Nat.lt_succ_self _))
    · exact absurd (hlast j) (by rw [heq]; exact not_le.mpr (Nat.lt_succ_self _))
    · exact h.identities j k hj heq
  destinations j k hj hk heq := by
    rw [List.Vector.get_set_eq_if] at hj heq
    rw [List.Vector.get_set_eq_if] at hk heq
    split_ifs at hj hk heq with hij hik hik
    · exact hij.symm.trans hik
    · exact absurd heq.symm (hnone _ ⟨k, rfl, hk⟩)
    · exact absurd heq (hnone _ ⟨j, rfl, hj⟩)
    · exact h.destinations j k hj hk heq
  requested j hj := by
    have hslot : ∀ slot : Fin 8, slotBit slot ≠ 0 := by decide
    rw [List.Vector.get_set_eq_if] at hj ⊢
    split_ifs at hj ⊢ with hij
    · exact hslot slot
    · exact h.requested j hj

theorem joined_requesters_ne (e : DiscoveryEntry) (slot : Fin 8) :
    (joined e slot).requesters ≠ 0 := by
  intro hzero
  have hbit : (joined e slot).requesters.getLsbD slot.val = true := by
    rw [joined, getLsbD_or_slotBit, decide_eq_true rfl, Bool.or_true]
  rw [hzero] at hbit
  simp at hbit

theorem Sound.begin (h : d.Sound) (destination : Hash16) (slot : Fin 8) (now timeout : Nat) :
    (d.begin destination slot now timeout).1.Sound := by
  have hexpire := h.expire now
  rcases begin_cases d destination slot now timeout with
    ⟨i, hid, _, heq⟩ | ⟨hnone, heq | ⟨i, _, _, heq⟩⟩
  · rw [heq]
    refine hexpire.of_remain rfl fun j hj => ?_
    rw [List.Vector.get_set_eq_if] at hj ⊢
    split_ifs at hj ⊢ with hij
    · subst hij
      exact ⟨rfl, rfl, joined_requesters_ne _ _⟩
    · exact ⟨rfl, rfl, hexpire.requested j hj⟩
  · rw [heq]
    exact hexpire
  · rw [heq]
    exact hexpire.set_next hnone i _ slot

theorem Sound.call (h : d.Sound) (c : Call) : (d.call c).1.Sound := by
  cases c with
  | begin destination slot now timeout =>
      rcases slot_cases slot with ⟨b, rfl⟩ | hslot
      · rw [call_begin]
        exact h.begin destination b now timeout
      · rw [call_begin_of_le d destination hslot]
        exact h
  | take destination now => exact h.take destination now
  | expire now => exact h.expire now
  | retireRequester slot =>
      rcases slot_cases slot with ⟨b, rfl⟩ | hslot
      · rw [call_retireRequester]
        exact h.retireRequester b
      · rw [call_retireRequester_of_le d hslot]
        exact h
  | clear => exact h.clear

theorem Sound.play (h : d.Sound) (calls : List Call) : (d.play calls).Sound := by
  induction calls generalizing d with
  | nil => exact h
  | cons c calls ih => exact ih (h.call c)

/-! ### What one call does to one entry -/

/-- An entry that a call leaves: it is the same but for the requester that the call is about. -/
structure Keeps (c : Call) (e e' : DiscoveryEntry) : Prop where
  identity : e'.identity = e.identity
  destination : e'.destination = e.destination
  expiresMs : e'.expiresMs = e.expiresMs
  requesters : ∀ b : Fin 8, e'.requesters.getLsbD b.val = true ↔
    (∃ now timeout, c = .begin e.destination b.val now timeout) ∨
      e.requesters.getLsbD b.val = true ∧ c ≠ .retireRequester b.val

structure Makes (d : Discoveries n) (c : Call) (slot : Fin 8) (e : DiscoveryEntry) : Prop where
  call : ∃ now timeout, c = .begin e.destination slot.val now timeout ∧
    e.expiresMs = satAdd now timeout ∧ now < e.expiresMs
  answer : (d.call c).2 = .began (.new e.identity)
  identity : e.identity = d.lastIdentity + 1
  requesters : e.requesters = slotBit slot

variable {c : Call} {e : DiscoveryEntry}

theorem Keeps.same (hbegin : ∀ (b : Fin 8) now timeout, c ≠ .begin e.destination b.val now timeout)
    (hretire : ∀ b : Fin 8, c ≠ .retireRequester b.val) : Keeps c e e := by
  refine ⟨rfl, rfl, rfl, fun b => ?_⟩
  constructor
  · intro hb
    exact .inr ⟨hb, hretire b⟩
  · rintro (⟨now, timeout, heq⟩ | ⟨hb, _⟩)
    · exact absurd heq (hbegin b now timeout)
    · exact hb

theorem keeps_of_other (h : e.destination ≠ destination) (slot now timeout : Nat) :
    Keeps (.begin destination slot now timeout) e e := by
  refine Keeps.same (fun _ _ _ heq => h ?_) nofun
  injection heq with heq
  exact heq.symm

theorem keeps_joined (e : DiscoveryEntry) (slot : Fin 8) (now timeout : Nat) :
    Keeps (.begin e.destination slot.val now timeout) e (joined e slot) := by
  refine ⟨rfl, rfl, rfl, fun b => ?_⟩
  rw [joined, getLsbD_or_slotBit, Bool.or_eq_true, decide_eq_true_eq]
  constructor
  · rintro (hb | rfl)
    · exact .inr ⟨hb, nofun⟩
    · exact .inl ⟨now, timeout, rfl⟩
  · rintro (⟨now', timeout', heq⟩ | ⟨hb, _⟩)
    · injection heq with _ hslot
      exact .inr (Fin.ext hslot)
    · exact .inl hb

theorem keeps_retire (e : DiscoveryEntry) (slot : Fin 8) :
    Keeps (.retireRequester slot.val) e
      { e with requesters := e.requesters &&& ~~~ slotBit slot } := by
  refine ⟨rfl, rfl, rfl, fun b => ?_⟩
  rw [getLsbD_clear_slotBit, Bool.and_eq_true, Bool.not_eq_true', decide_eq_false_iff_not]
  constructor
  · rintro ⟨hb, hne⟩
    refine .inr ⟨hb, fun heq => hne ?_⟩
    injection heq with heq
    exact Fin.ext heq
  · rintro (⟨_, _, heq⟩ | ⟨hb, hne⟩)
    · cases heq
    · exact ⟨hb, fun heq => hne (by rw [heq])⟩

theorem Sound.get_call (h : d.Sound) (c : Call) (i : Fin n)
    (hi : ((d.call c).1.entries.get i).identity ≠ 0) :
    (d.entries.get i).identity ≠ 0 ∧ Keeps c (d.entries.get i) ((d.call c).1.entries.get i) ∨
      ∃ slot, Makes d c slot ((d.call c).1.entries.get i) := by
  cases c with
  | begin destination slot now timeout =>
      rcases slot_cases slot with ⟨b, rfl⟩ | hslot
      · have hanswer := congrArg Prod.snd (call_begin d destination b now timeout)
        rw [call_begin] at hi ⊢
        dsimp only at hi ⊢
        rcases begin_cases d destination b now timeout with
          ⟨j, hid, hdest, heq⟩ | ⟨hnone, heq | ⟨j, hfree, hlate, heq⟩⟩
        · rw [heq] at hi ⊢
          dsimp only at hi ⊢
          rw [List.Vector.get_set_eq_if] at hi ⊢
          by_cases hji : j = i
          · subst hji
            have hsame := get_expire_of_ne hid
            rw [if_pos rfl, hsame]
            rw [hsame] at hid hdest
            subst hdest
            exact .inl ⟨hid, keeps_joined _ b now timeout⟩
          · rw [if_neg hji] at hi ⊢
            have hsame := get_expire_of_ne hi
            have hother : (d.entries.get i).destination ≠ destination := by
              intro hi'
              refine hji ((h.expire now).destinations j i hid hi ?_)
              rw [hdest, hsame, hi']
            rw [hsame] at hi ⊢
            exact .inl ⟨hi, keeps_of_other hother _ _ _⟩
        · rw [heq] at hi ⊢
          dsimp only at hi ⊢
          have hsame := get_expire_of_ne hi
          have hother := hnone _ ⟨i, rfl, hi⟩
          rw [hsame] at hi hother ⊢
          exact .inl ⟨hi, keeps_of_other hother _ _ _⟩
        · rw [heq] at hi hanswer ⊢
          dsimp only at hi hanswer ⊢
          rw [List.Vector.get_set_eq_if] at hi ⊢
          by_cases hji : j = i
          · rw [if_pos hji]
            exact .inr ⟨b, ⟨now, timeout, rfl, rfl, hlate⟩, hanswer, rfl, rfl⟩
          · rw [if_neg hji] at hi ⊢
            have hsame := get_expire_of_ne hi
            have hother := hnone _ ⟨i, rfl, hi⟩
            rw [hsame] at hi hother ⊢
            exact .inl ⟨hi, keeps_of_other hother _ _ _⟩
      · rw [call_begin_of_le d destination hslot] at hi ⊢
        refine .inl ⟨hi, Keeps.same (fun b _ _ heq => ?_) nofun⟩
        injection heq with _ heq
        exact absurd b.isLt (not_lt.mpr (heq ▸ hslot))
  | take destination now =>
      have hsame := get_take_of_ne hi
      change (d.entries.get i).identity ≠ 0 ∧
        Keeps _ (d.entries.get i) ((d.take destination now).1.entries.get i) ∨ _
      rw [hsame]
      exact .inl ⟨hsame ▸ hi, Keeps.same nofun nofun⟩
  | expire now =>
      have hsame := get_expire_of_ne hi
      change (d.entries.get i).identity ≠ 0 ∧
        Keeps _ (d.entries.get i) ((d.expire now).entries.get i) ∨ _
      rw [hsame]
      exact .inl ⟨hsame ▸ hi, Keeps.same nofun nofun⟩
  | retireRequester slot =>
      rcases slot_cases slot with ⟨b, rfl⟩ | hslot
      · rw [call_retireRequester] at hi ⊢
        obtain ⟨_, heq⟩ := get_retireRequester_of_ne hi
        dsimp only at hi ⊢
        rw [heq] at hi ⊢
        exact .inl ⟨hi, keeps_retire _ b⟩
      · rw [call_retireRequester_of_le d hslot] at hi ⊢
        refine .inl ⟨hi, Keeps.same nofun fun b heq => ?_⟩
        injection heq with heq
        exact absurd b.isLt (not_lt.mpr (heq ▸ hslot))
  | clear =>
      change (d.clear.entries.get i).identity ≠ 0 at hi
      simp [Discoveries.clear, DiscoveryEntry.empty] at hi

theorem lastIdentity_call (d : Discoveries n) (c : Call) :
    (∃ identity, (d.call c).2 = .began (.new identity) ∧ identity = d.lastIdentity + 1 ∧
      (d.call c).1.lastIdentity = identity) ∨
    (∀ identity, (d.call c).2 ≠ .began (.new identity)) ∧
      (d.call c).1.lastIdentity = d.lastIdentity := by
  cases c with
  | begin destination slot now timeout =>
      rcases slot_cases slot with ⟨b, rfl⟩ | hslot
      · rw [call_begin]
        rcases begin_cases d destination b now timeout with
          ⟨j, _, _, heq⟩ | ⟨_, heq | ⟨j, _, _, heq⟩⟩
        · rw [heq]
          exact .inr ⟨nofun, rfl⟩
        · rw [heq]
          exact .inr ⟨nofun, rfl⟩
        · rw [heq]
          exact .inl ⟨_, rfl, rfl, rfl⟩
      · rw [call_begin_of_le d destination hslot]
        exact .inr ⟨nofun, rfl⟩
  | take destination now => exact .inr ⟨nofun, lastIdentity_take d destination now⟩
  | expire now => exact .inr ⟨nofun, rfl⟩
  | retireRequester slot =>
      unfold call
      dsimp only
      split <;> exact .inr ⟨nofun, rfl⟩
  | clear => exact .inr ⟨nofun, rfl⟩

/-! ### What many calls do to one entry -/

/-- A slot asked for a destination, and was not retired after it last did. -/
def Asked (destination : Hash16) (b : Fin 8) (calls : List Call) : Prop :=
  ∃ earlier now timeout later, calls = earlier ++ .begin destination b.val now timeout :: later ∧
    .retireRequester b.val ∉ later

variable {calls : List Call}

theorem asked_cons {b : Fin 8} :
    Asked destination b (c :: calls) ↔
      (∃ now timeout, c = .begin destination b.val now timeout) ∧ .retireRequester b.val ∉ calls ∨
        Asked destination b calls := by
  constructor
  · rintro ⟨earlier, now, timeout, later, heq, hlater⟩
    rcases List.cons_eq_append_iff.mp heq with ⟨_, hcons⟩ | ⟨earlier', _, rfl⟩
    · injection hcons with hc hcalls
      exact .inl ⟨⟨now, timeout, hc.symm⟩, hcalls ▸ hlater⟩
    · exact .inr ⟨earlier', now, timeout, later, rfl, hlater⟩
  · rintro (⟨⟨now, timeout, rfl⟩, hcalls⟩ | ⟨earlier, now, timeout, later, rfl, hlater⟩)
    · exact ⟨[], now, timeout, calls, rfl, hcalls⟩
    · exact ⟨c :: earlier, now, timeout, later, rfl, hlater⟩

structure Persists (calls : List Call) (e e' : DiscoveryEntry) : Prop where
  identity : e'.identity = e.identity
  destination : e'.destination = e.destination
  expiresMs : e'.expiresMs = e.expiresMs
  requesters : ∀ b : Fin 8, e'.requesters.getLsbD b.val = true ↔
    Asked e.destination b calls ∨
      e.requesters.getLsbD b.val = true ∧ .retireRequester b.val ∉ calls

theorem Persists.refl (e : DiscoveryEntry) : Persists [] e e where
  identity := rfl
  destination := rfl
  expiresMs := rfl
  requesters b := by
    constructor
    · intro hb
      exact .inr ⟨hb, List.not_mem_nil⟩
    · rintro (⟨earlier, _, _, later, heq, _⟩ | ⟨hb, _⟩)
      · simp at heq
      · exact hb

theorem Keeps.persists {e' e'' : DiscoveryEntry} (h : Keeps c e e') (h' : Persists calls e' e'') :
    Persists (c :: calls) e e'' where
  identity := h'.identity.trans h.identity
  destination := h'.destination.trans h.destination
  expiresMs := h'.expiresMs.trans h.expiresMs
  requesters b := by
    rw [h'.requesters b, h.requesters b, h.destination, asked_cons, List.mem_cons, not_or]
    constructor
    · rintro (hasked | ⟨hbegin | ⟨hb, hne⟩, hcalls⟩)
      · exact .inl (.inr hasked)
      · exact .inl (.inl ⟨hbegin, hcalls⟩)
      · exact .inr ⟨hb, Ne.symm hne, hcalls⟩
    · rintro ((⟨hbegin, hcalls⟩ | hasked) | ⟨hb, hne, hcalls⟩)
      · exact .inr ⟨.inl hbegin, hcalls⟩
      · exact .inl hasked
      · exact .inr ⟨.inr ⟨hb, Ne.symm hne⟩, hcalls⟩

theorem Sound.get_play (h : d.Sound) (calls : List Call) (i : Fin n)
    (hi : ((d.play calls).entries.get i).identity ≠ 0) :
    (d.entries.get i).identity ≠ 0 ∧
        Persists calls (d.entries.get i) ((d.play calls).entries.get i) ∨
      ∃ before c later slot, calls = before ++ c :: later ∧
        Makes (d.play before) c slot (((d.play before).call c).1.entries.get i) ∧
        Persists later (((d.play before).call c).1.entries.get i)
          ((d.play calls).entries.get i) := by
  induction calls generalizing d with
  | nil => exact .inl ⟨hi, Persists.refl _⟩
  | cons c calls ih =>
      rw [play_cons] at hi ⊢
      rcases ih (h.call c) hi with ⟨hid, hpersists⟩ | ⟨before, c', later, slot, rfl, hmakes, hlater⟩
      · rcases h.get_call c i hid with ⟨hid', hkeeps⟩ | ⟨slot, hmakes⟩
        · exact .inl ⟨hid', hkeeps.persists hpersists⟩
        · exact .inr ⟨[], c, calls, slot, rfl, hmakes, hpersists⟩
      · exact .inr ⟨c :: before, c', later, slot, rfl, hmakes, hlater⟩

theorem lastIdentity_le_play (d : Discoveries n) (calls : List Call) :
    d.lastIdentity ≤ (d.play calls).lastIdentity := by
  induction calls generalizing d with
  | nil => exact le_rfl
  | cons c calls ih =>
      refine le_trans ?_ (ih (d.call c).1)
      rcases lastIdentity_call d c with ⟨identity, _, hid, hlast⟩ | ⟨_, hlast⟩
      · omega
      · exact hlast.ge

theorem Sound.get_of_issued (h : d.Sound) (calls : List Call) (i : Fin n)
    (hi : ((d.play calls).entries.get i).identity ≠ 0)
    (hissued : ((d.play calls).entries.get i).identity ≤ d.lastIdentity) :
    (d.entries.get i).identity ≠ 0 ∧
      Persists calls (d.entries.get i) ((d.play calls).entries.get i) := by
  rcases h.get_play calls i hi with hthere | ⟨before, c, later, slot, rfl, hmakes, hlater⟩
  · exact hthere
  · have hnext := hmakes.identity
    rw [← hlater.identity] at hnext
    have hle := lastIdentity_le_play d before
    omega

/-! ### The ledger -/

variable {timeout : Nat}

theorem answer_joined (hslot : slot < 8)
    (hi : ((d.call (.begin destination slot now timeout)).1.entries.get i).identity ≠ 0)
    (hold : ((d.call (.begin destination slot now timeout)).1.entries.get i).identity ≤
      d.lastIdentity)
    (hdest : ((d.call (.begin destination slot now timeout)).1.entries.get i).destination =
      destination) :
    (d.call (.begin destination slot now timeout)).2 = .began .joined := by
  obtain ⟨b, rfl⟩ : ∃ b : Fin 8, slot = b.val := ⟨⟨slot, hslot⟩, rfl⟩
  rw [call_begin] at hi hold hdest ⊢
  rcases begin_cases d destination b now timeout with
    ⟨j, _, _, heq⟩ | ⟨hnone, heq | ⟨j, _, _, heq⟩⟩
  · rw [heq]
  · rw [heq] at hi hdest
    exact absurd hdest (hnone _ ⟨i, rfl, hi⟩)
  · rw [heq] at hi hold hdest
    dsimp only at hi hold hdest
    rw [List.Vector.get_set_eq_if] at hi hold hdest
    split_ifs at hi hold hdest with hji
    · exact absurd hold (not_le.mpr (Nat.lt_succ_self _))
    · exact absurd hdest (hnone _ ⟨i, rfl, hi⟩)

theorem Sound.answer_joined_of_stays (h : d.Sound) (hslot : slot < 8) (rest : List Call) (i : Fin n)
    (hi : (((d.call (.begin destination slot now timeout)).1.play rest).entries.get i).identity ≠ 0)
    (hold : (((d.call (.begin destination slot now timeout)).1.play rest).entries.get i).identity ≤
      d.lastIdentity)
    (hdest : (((d.call (.begin destination slot now timeout)).1.play rest).entries.get
      i).destination = destination) :
    (d.call (.begin destination slot now timeout)).2 = .began .joined := by
  have hle := lastIdentity_le_play d [.begin destination slot now timeout]
  obtain ⟨hid, hpersists⟩ := (h.call _).get_of_issued rest i hi (hold.trans hle)
  rw [hpersists.identity] at hold
  rw [hpersists.destination] at hdest
  exact answer_joined hslot hid hold hdest

theorem take_eq_some (h : (d.take destination now).2 = some e) :
    ∃ i, d.entries.get i = e ∧ e.identity ≠ 0 ∧ e.destination = destination ∧ e.live now = true ∧
      (d.take destination now).1 = ⟨d.entries.set i .empty, d.lastIdentity⟩ := by
  unfold take at h ⊢
  cases hfound : firstIndex fun i => decide ((d.entries.get i).identity ≠ 0) &&
      decide ((d.entries.get i).destination = destination) with
  | none =>
      rw [hfound] at h
      cases h
  | some i =>
      have hi := (firstIndex_eq_some.mp hfound).1
      simp only [Bool.and_eq_true, decide_eq_true_eq] at hi
      rw [hfound] at h
      dsimp only at h ⊢
      split_ifs at h with hlive
      cases h
      exact ⟨i, rfl, hi.1, hi.2, hlive, rfl⟩

theorem Sound.take_once (h : d.Sound) {destination' : Hash16} {now' : Nat} {e' : DiscoveryEntry}
    {later : List Call} (htake : (d.take destination now).2 = some e)
    (htake' : (((d.take destination now).1.play later).take destination' now').2 = some e') :
    e'.identity ≠ e.identity := by
  obtain ⟨i, hi, hid, _, _, heq⟩ := take_eq_some htake
  obtain ⟨j, hj, hid', _⟩ := take_eq_some htake'
  intro hsame
  have hafter := h.take destination now
  rw [heq] at hafter hj
  have hthere := hafter.get_of_issued later j (by rw [hj]; exact hid')
    (by rw [hj, hsame, ← hi]; exact h.issued i)
  have hidentity := hthere.2.identity
  rw [hj, hsame, List.Vector.get_set_eq_if] at hidentity
  split_ifs at hidentity with hij
  · exact hid hidentity
  · rw [← hi] at hidentity
    exact hij (h.identities i j (hi ▸ hid) hidentity)

theorem Sound.not_live (h : d.Sound) {identity t t' : Nat} (hissued : identity ≤ d.lastIdentity)
    (hover : d.live identity t = false) (ht : t ≤ t') (later : List Call) :
    (d.play later).live identity t' = false := by
  rw [Bool.eq_false_iff, Ne, live_eq_true] at hover ⊢
  rintro ⟨e, ⟨i, hi, hid⟩, heq, hlive⟩
  have hthere := h.get_of_issued later i (by rw [hi]; exact hid)
    (by rw [hi, heq]; exact hissued)
  have hidentity := hthere.2.identity
  have hexpires := hthere.2.expiresMs
  rw [hi] at hidentity hexpires
  refine hover ⟨_, ⟨i, rfl, hthere.1⟩, hidentity.symm.trans heq, ?_⟩
  simp only [DiscoveryEntry.live, Bool.and_eq_true, decide_eq_true_eq] at hlive ⊢
  exact ⟨⟨hthere.1, h.requested i hthere.1⟩, by omega⟩

theorem call_refused (h : (d.call (.begin destination slot now timeout)).2 = .began .refused) :
    (d.call (.begin destination slot now timeout)).1.lastIdentity = d.lastIdentity ∧
      ∀ i, (d.entries.get i).live now = true →
        (d.call (.begin destination slot now timeout)).1.entries.get i = d.entries.get i := by
  rcases slot_cases slot with ⟨b, rfl⟩ | hslot
  · rw [call_begin] at h ⊢
    rcases begin_cases d destination b now timeout with
      ⟨j, _, _, heq⟩ | ⟨_, heq | ⟨j, _, _, heq⟩⟩
    · rw [heq] at h
      cases h
    · rw [heq]
      refine ⟨rfl, fun i hlive => ?_⟩
      rw [get_expire, if_pos hlive]
    · rw [heq] at h
      cases h
  · rw [call_begin_of_le d destination hslot]
    exact ⟨rfl, fun _ _ => rfl⟩

/-- The identity `g` was given out by one of the calls on the empty table. -/
def Issued (n : Nat) (calls : List Call) (g : Nat) : Prop :=
  ∃ before c later, calls = before ++ c :: later ∧
    (((new : Discoveries n).play before).call c).2 = .began (.new g)

variable {g : Nat}

theorem lastIdentity_of_answer (h : (d.call c).2 = .began (.new g)) :
    g = d.lastIdentity + 1 ∧ (d.call c).1.lastIdentity = g := by
  rcases lastIdentity_call d c with ⟨identity, hanswer, hid, hlast⟩ | ⟨hnone, _⟩
  · rw [hanswer] at h
    cases h
    exact ⟨hid, hlast⟩
  · exact absurd h (hnone g)

theorem Sound.deadline_fixed (h : d.Sound) {later : List Call}
    (hanswer : (d.call (.begin destination slot now timeout)).2 = .began (.new g)) (i : Fin n)
    (hi : ((d.call (.begin destination slot now timeout)).1.play later).entries.get i = e)
    (hid : e.identity ≠ 0) (hidentity : e.identity = g) :
    e.destination = destination ∧ e.expiresMs = satAdd now timeout := by
  obtain ⟨hnext, hlast⟩ := lastIdentity_of_answer hanswer
  obtain ⟨hthere, hpersists⟩ := (h.call _).get_of_issued later i (by rw [hi]; exact hid)
    (by rw [hi, hidentity, hlast])
  rw [hi] at hpersists
  rcases h.get_call _ i hthere with ⟨_, hkeeps⟩ | ⟨b, hmakes⟩
  · -- an entry from before has an older identity
    have hold := h.issued i
    rw [← hkeeps.identity, ← hpersists.identity] at hold
    omega
  · obtain ⟨now', timeout', hcall, hexpires, _⟩ := hmakes.call
    rw [← hpersists.destination] at hcall
    rw [← hpersists.expiresMs] at hexpires
    injection hcall with hdest _ hnow htimeout
    exact ⟨hdest.symm, by rw [hexpires, hnow, htimeout]⟩

theorem Issued.le_lastIdentity (h : Issued n calls g) :
    g ≤ ((new : Discoveries n).play calls).lastIdentity := by
  obtain ⟨before, c, later, rfl, hanswer⟩ := h
  rw [play_append, play_cons, ← (lastIdentity_of_answer hanswer).2]
  exact lastIdentity_le_play _ _

/-- The requesters of an entry: those who asked since the call that made it and were not retired
since. Everyone who asked meanwhile was told that they joined. -/
theorem requesters_eq (h : ((new : Discoveries n).play calls).Has e) :
    ∃ before slot now timeout later,
      calls = before ++ .begin e.destination slot now timeout :: later ∧
      (((new : Discoveries n).play before).call (.begin e.destination slot now timeout)).2 =
        .began (.new e.identity) ∧
      (∀ earlier slot' now' timeout' rest,
        later = earlier ++ .begin e.destination slot' now' timeout' :: rest → slot' < 8 →
        (((new : Discoveries n).play
          (before ++ .begin e.destination slot now timeout :: earlier)).call
            (.begin e.destination slot' now' timeout')).2 = .began .joined) ∧
      ∀ b : Fin 8, e.requesters.getLsbD b.val = true ↔
        Asked e.destination b (.begin e.destination slot now timeout :: later) := by
  obtain ⟨i, hi, hid⟩ := h
  rcases sound_new.get_play calls i (by rw [hi]; exact hid) with
    ⟨hthere, _⟩ | ⟨before, c, later, slot, rfl, hmakes, hpersists⟩
  · simp [new, DiscoveryEntry.empty] at hthere
  rw [hi] at hpersists
  obtain ⟨now, timeout, rfl, _, _⟩ := id (hpersists.destination ▸ hmakes.call)
  have hanswer := hpersists.identity ▸ hmakes.answer
  refine ⟨before, slot, now, timeout, later, rfl, hanswer, ?_, ?_⟩
  · rintro earlier slot' now' timeout' rest rfl hslot
    have hlast := Issued.le_lastIdentity ⟨before, _, earlier, rfl, hanswer⟩
    rw [← List.cons_append, ← List.append_assoc, play_append, play_cons] at hi
    refine (sound_new.play _).answer_joined_of_stays hslot rest i ?_ ?_ (by rw [hi])
    · rw [hi]
      exact hid
    · rw [hi]
      exact hlast
  · intro b
    rw [hpersists.requesters b, hmakes.requesters, getLsbD_slotBit, decide_eq_true_eq, asked_cons,
      ← hpersists.destination, or_comm]
    constructor
    · rintro (⟨rfl, hretire⟩ | hasked)
      · exact .inl ⟨⟨now, timeout, rfl⟩, hretire⟩
      · exact .inr hasked
    · rintro (⟨⟨_, _, heq⟩, hretire⟩ | hasked)
      · injection heq with _ hslot
        exact .inl ⟨Fin.ext hslot, hretire⟩
      · exact .inr hasked

/-- After any calls on the empty table, in any order and at any times: one entry for a destination;
identities increase; an entry keeps its deadline; its requesters are those who asked since it was
made and were not retired since; what is over stays over; an entry is handed over once and only
while it runs; a refusal changes nothing that runs. -/
theorem discoveries_ledger (calls : List Call) :
    let d : Discoveries n := new.play calls
    (∀ i j, (d.entries.get i).identity ≠ 0 → (d.entries.get j).identity ≠ 0 →
      (d.entries.get i).destination = (d.entries.get j).destination → i = j) ∧
    (∀ c g later c' g', (d.call c).2 = .began (.new g) →
      (((new : Discoveries n).play (calls ++ c :: later)).call c').2 = .began (.new g') → g < g') ∧
    (∀ destination slot now timeout g later e,
      (d.call (.begin destination slot now timeout)).2 = .began (.new g) →
      ((new : Discoveries n).play
        (calls ++ .begin destination slot now timeout :: later)).Has e → e.identity = g →
      e.destination = destination ∧ e.expiresMs = satAdd now timeout) ∧
    (∀ e, d.Has e → ∃ before slot now timeout later,
      calls = before ++ .begin e.destination slot now timeout :: later ∧
      (((new : Discoveries n).play before).call (.begin e.destination slot now timeout)).2 =
        .began (.new e.identity) ∧
      (∀ earlier slot' now' timeout' rest,
        later = earlier ++ .begin e.destination slot' now' timeout' :: rest → slot' < 8 →
        (((new : Discoveries n).play
          (before ++ .begin e.destination slot now timeout :: earlier)).call
            (.begin e.destination slot' now' timeout')).2 = .began .joined) ∧
      ∀ b : Fin 8, e.requesters.getLsbD b.val = true ↔
        Asked e.destination b (.begin e.destination slot now timeout :: later)) ∧
    (∀ g t t' later, Issued n calls g → d.live g t = false → t ≤ t' →
      ((new : Discoveries n).play (calls ++ later)).live g t' = false) ∧
    (∀ destination now e, (d.call (.take destination now)).2 = .took (some e) →
      e.destination = destination ∧ d.live e.identity now = true ∧
      ∀ later destination' now' e',
        (((new : Discoveries n).play (calls ++ .take destination now :: later)).call
          (.take destination' now')).2 = .took (some e') → e'.identity ≠ e.identity) ∧
    (∀ destination slot now timeout,
      (d.call (.begin destination slot now timeout)).2 = .began .refused →
      (d.call (.begin destination slot now timeout)).1.lastIdentity = d.lastIdentity ∧
        ∀ i, (d.entries.get i).live now = true →
          (d.call (.begin destination slot now timeout)).1.entries.get i = d.entries.get i) := by
  intro d
  have hsound : d.Sound := sound_new.play calls
  refine ⟨hsound.destinations, ?_, ?_, fun e => requesters_eq, ?_, ?_, fun _ _ _ _ => call_refused⟩
  · intro c g later c' g' hanswer hanswer'
    have hle := Issued.le_lastIdentity ⟨calls, c, later, rfl, hanswer⟩
    have hnext := (lastIdentity_of_answer hanswer').1
    omega
  · rintro destination slot now timeout g later e hanswer ⟨i, hi, hid⟩ hidentity
    rw [play_append, play_cons] at hi
    exact hsound.deadline_fixed hanswer i hi hid hidentity
  · intro g t t' later hissued hover ht
    rw [play_append]
    exact hsound.not_live hissued.le_lastIdentity hover ht later
  · intro destination now e htake
    injection htake with htake
    obtain ⟨i, hi, hid, hdest, hlive, _⟩ := take_eq_some htake
    refine ⟨hdest, live_eq_true.mpr ⟨e, ⟨i, hi, hid⟩, rfl, hlive⟩, ?_⟩
    intro later destination' now' e' htake'
    injection htake' with htake'
    rw [play_append, play_cons] at htake'
    exact hsound.take_once htake htake'

/-- Joining with a longer timeout does not move the deadline. -/
example :
    let d : Discoveries 1 := new.play
      [.begin (List.Vector.replicate 16 1) 0 0 15000,
        .begin (List.Vector.replicate 16 1) 1 14999 900000]
    d.deadline 1 = some 15000 ∧ d.live 1 14999 = true ∧ d.live 1 15000 = false := by
  decide +kernel

end Discoveries

end ReticulumLite
