import ReticulumLite.Tables.Transit
import Mathlib.Data.Vector.Mem
import Mathlib.Algebra.Order.Floor.Div

/-!
# Discoveries in progress

A path request for an unknown destination is passed on once, and the interfaces that asked are kept
in a mask until the answer comes or the time is up. An entry with identity zero is an empty place.
-/

namespace ReticulumLite

open Bounded

abbrev requestGateMs : Nat := 15000

/-- The round trip of a full packet, rounded up to milliseconds. -/
def roundTripMs (bitrateBps : Nat) : Nat :=
  if bitrateBps = 0 then 0
  else
    let rate := if bitrateBps < 5 then 5 else bitrateBps
    (2 * mtu * 8 * 1000) ⌈/⌉ rate

def linkDeadline (now : Nat) (hops : UInt8) (bitrateBps : Nat) : Nat :=
  let hops := if hops = 0 then 1 else hops.toNat
  satAdd (satAdd now (6000 * hops)) (roundTripMs bitrateBps)

def discoveryTimeout (bitrateBps : Nat) : Nat :=
  let sampled := satAdd 6000 (roundTripMs bitrateBps)
  if sampled > requestGateMs then sampled else requestGateMs

structure DiscoveryEntry where
  destination : Hash16
  expiresMs : Nat
  identity : Nat
  requesters : BitVec 8
  deriving DecidableEq

namespace DiscoveryEntry

def empty : DiscoveryEntry := ⟨Bytes.zero, 0, 0, 0⟩

def live (e : DiscoveryEntry) (now : Nat) : Bool :=
  decide (e.identity ≠ 0) && decide (e.requesters ≠ 0) && decide (now < e.expiresMs)

end DiscoveryEntry

inductive BeginDiscovery
  | new (identity : Nat)
  | joined
  | refused
  deriving DecidableEq

structure Discoveries (n : Nat) where
  entries : List.Vector DiscoveryEntry n
  lastIdentity : Nat

namespace Discoveries

variable {n : Nat}

def new : Discoveries n := ⟨List.Vector.replicate n .empty, 0⟩

def clear (d : Discoveries n) : Discoveries n :=
  { d with entries := List.Vector.replicate n .empty }

def expire (d : Discoveries n) (now : Nat) : Discoveries n :=
  { d with entries := d.entries.map fun e => if e.live now then e else .empty }

def retireRequester (d : Discoveries n) (slot : Fin 8) : Discoveries n :=
  { d with entries := d.entries.map fun e =>
      let requesters := e.requesters &&& ~~~ slotBit slot
      if requesters = 0 then .empty else { e with requesters } }

/-- Join the discovery of a destination, or start one. -/
def begin (d : Discoveries n) (destination : Hash16) (slot : Fin 8) (now timeout : Nat) :
    Discoveries n × BeginDiscovery :=
  let d := expire d now
  match firstIndex fun i => decide ((d.entries.get i).identity ≠ 0) &&
      decide ((d.entries.get i).destination = destination) with
  | some i =>
      let e := d.entries.get i
      ({ d with entries := d.entries.set i { e with requesters := e.requesters ||| slotBit slot } },
        .joined)
  | none =>
      match firstIndex fun i => decide ((d.entries.get i).identity = 0) with
      | none => (d, .refused)
      | some i =>
          match checkedSucc d.lastIdentity with
          | none => (d, .refused)
          | some identity =>
              let expiresMs := satAdd now timeout
              if expiresMs ≤ now then (d, .refused)
              else
                ({ entries := d.entries.set i
                    { destination, expiresMs, identity, requesters := slotBit slot }
                   lastIdentity := identity }, .new identity)

def live (d : Discoveries n) (identity now : Nat) : Bool :=
  d.entries.toList.any fun e => decide (e.identity = identity) && e.live now

def deadline (d : Discoveries n) (identity : Nat) : Option Nat :=
  (d.entries.toList.find? fun e =>
    decide (e.identity ≠ 0) && decide (e.identity = identity)).map (·.expiresMs)

/-- Remove the discovery of a destination; it is handed over only if it still runs. -/
def take (d : Discoveries n) (destination : Hash16) (now : Nat) :
    Discoveries n × Option DiscoveryEntry :=
  match firstIndex fun i => decide ((d.entries.get i).identity ≠ 0) &&
      decide ((d.entries.get i).destination = destination) with
  | none => (d, none)
  | some i =>
      ({ d with entries := d.entries.set i .empty },
        if (d.entries.get i).live now then some (d.entries.get i) else none)

/-! ### What the operations do to the entries -/

def Has (d : Discoveries n) (e : DiscoveryEntry) : Prop :=
  ∃ i, d.entries.get i = e ∧ e.identity ≠ 0

/-- Every entry afterwards is newly numbered, or is an old one with the same deadline that had
someone waiting if it has someone waiting now. -/
structure Renews (d d' : Discoveries n) : Prop where
  last_le : d.lastIdentity ≤ d'.lastIdentity
  has : ∀ {e'}, d'.Has e' → d.lastIdentity < e'.identity ∨
    ∃ e, d.Has e ∧ e.identity = e'.identity ∧ e.expiresMs = e'.expiresMs ∧
      (e'.requesters ≠ 0 → e.requesters ≠ 0)

variable {d : Discoveries n} {e : DiscoveryEntry}

theorem not_has_empty (h : d.Has e) : e ≠ .empty := by
  obtain ⟨_, _, hid⟩ := h
  rintro rfl
  simp [DiscoveryEntry.empty] at hid

theorem Renews.refl : Renews d d :=
  ⟨le_rfl, fun h => .inr ⟨_, h, rfl, rfl, id⟩⟩

theorem Renews.trans {d' d'' : Discoveries n} (h : Renews d d') (h' : Renews d' d'') :
    Renews d d'' where
  last_le := h.last_le.trans h'.last_le
  has he := by
    rcases h'.has he with hnew | ⟨e', he', hid', hexp', hreq'⟩
    · exact .inl (h.last_le.trans_lt hnew)
    · rcases h.has he' with hnew | ⟨e, he, hid, hexp, hreq⟩
      · exact .inl (hid' ▸ hnew)
      · exact .inr ⟨e, he, hid.trans hid', hexp.trans hexp', fun h => hreq (hreq' h)⟩

theorem renews_clear (d : Discoveries n) : Renews d d.clear := by
  refine ⟨le_rfl, fun h => ?_⟩
  obtain ⟨i, hi, _⟩ := id h
  exact absurd (by simpa [clear] using hi.symm) (not_has_empty h)

theorem expire_expire (d : Discoveries n) (now : Nat) : (d.expire now).expire now = d.expire now := by
  unfold expire
  congr 1
  apply List.Vector.ext
  intro i
  simp only [List.Vector.get_map]
  cases hlive : (d.entries.get i).live now with
  | true => simp only [if_true, hlive]
  | false => exact ite_self _

variable {now : Nat}

theorem has_expire : (d.expire now).Has e ↔ d.Has e ∧ e.live now = true := by
  constructor
  · intro h
    obtain ⟨i, hi, hid⟩ := id h
    simp only [expire, List.Vector.get_map] at hi
    split at hi
    · rename_i hlive
      exact ⟨⟨i, hi, hid⟩, hi ▸ hlive⟩
    · exact absurd hi.symm (not_has_empty h)
  · rintro ⟨⟨i, hi, hid⟩, hlive⟩
    refine ⟨i, ?_, hid⟩
    simp only [expire, List.Vector.get_map]
    rw [hi, if_pos hlive]

theorem has_of_clear (h : d.clear.Has e) : d.Has e := by
  obtain ⟨i, hi, _⟩ := id h
  exact absurd (by simpa [clear] using hi.symm) (not_has_empty h)

theorem renews_expire (d : Discoveries n) (now : Nat) : Renews d (d.expire now) :=
  ⟨le_rfl, fun h => .inr ⟨_, (has_expire.mp h).1, rfl, rfl, id⟩⟩

theorem renews_retireRequester (d : Discoveries n) (slot : Fin 8) :
    Renews d (d.retireRequester slot) := by
  refine ⟨le_rfl, fun h => ?_⟩
  obtain ⟨i, hi, hid⟩ := id h
  simp only [retireRequester, List.Vector.get_map] at hi
  split at hi
  · exact absurd hi.symm (not_has_empty h)
  · rename_i hne
    subst hi
    refine .inr ⟨_, ⟨i, rfl, hid⟩, rfl, rfl, fun _ h0 => hne ?_⟩
    rw [h0]
    simp

theorem renews_begin (d : Discoveries n) (destination : Hash16) (slot : Fin 8) (now timeout : Nat) :
    Renews d (d.begin destination slot now timeout).1 := by
  refine (renews_expire d now).trans ?_
  unfold begin
  simp only
  split
  · -- joined: the entry was running, so someone was waiting
    rename_i i hi
    obtain ⟨hfound, _⟩ := firstIndex_eq_some.mp hi
    simp only [Bool.and_eq_true, decide_eq_true_eq] at hfound
    have hlive := (has_expire.mp ⟨i, rfl, hfound.1⟩).2
    refine ⟨le_rfl, ?_⟩
    rintro e' ⟨j, hj, hid⟩
    simp only [List.Vector.get_set_eq_if] at hj
    split at hj
    · subst hj
      refine .inr ⟨_, ⟨i, rfl, hfound.1⟩, rfl, rfl, fun _ => ?_⟩
      simp only [DiscoveryEntry.live, Bool.and_eq_true, decide_eq_true_eq] at hlive
      exact hlive.1.2
    · exact .inr ⟨e', ⟨j, hj, hid⟩, rfl, rfl, id⟩
  · split
    · exact .refl
    · split
      · exact .refl
      · rename_i identity hidentity
        have hlt := lt_of_checkedSucc hidentity
        split
        · exact .refl
        · refine ⟨hlt.le, ?_⟩
          rintro e' ⟨j, hj, hid⟩
          simp only [List.Vector.get_set_eq_if] at hj
          split at hj
          · subst hj
            exact .inl hlt
          · exact .inr ⟨e', ⟨j, hj, hid⟩, rfl, rfl, id⟩

variable {destination : Hash16}

theorem lastIdentity_of_begin {slot : Fin 8} {timeout identity : Nat}
    (h : (d.begin destination slot now timeout).2 = .new identity) :
    (d.begin destination slot now timeout).1.lastIdentity = identity := by
  revert h
  unfold begin
  simp only
  split
  · exact nofun
  split
  · exact nofun
  split
  · exact nofun
  split
  · exact nofun
  · intro h
    cases h
    rfl

/-- Nobody is looking for a destination, and there is a place and a number for it. -/
structure Startable (d : Discoveries n) (destination : Hash16) (now : Nat) : Prop where
  unsought : ∀ e, d.Has e → e.live now = true → e.destination ≠ destination
  room : ∃ i, (d.entries.get i).live now = false
  number : d.lastIdentity < u64Max

theorem startable_expire :
    (d.expire now).Startable destination now ↔ d.Startable destination now := by
  have hlive (i : Fin n) : ((d.expire now).entries.get i).live now = (d.entries.get i).live now := by
    simp only [expire, List.Vector.get_map]
    split
    · rfl
    · rename_i hdead
      rw [Bool.not_eq_true] at hdead
      rw [hdead]
      rfl
  constructor
  · intro h
    refine ⟨fun e he helive => h.unsought e (has_expire.mpr ⟨he, helive⟩) helive, ?_, h.number⟩
    obtain ⟨i, hi⟩ := h.room
    exact ⟨i, (hlive i).symm.trans hi⟩
  · intro h
    refine ⟨fun e he => h.unsought e (has_expire.mp he).1, ?_, h.number⟩
    obtain ⟨i, hi⟩ := h.room
    exact ⟨i, (hlive i).trans hi⟩

/-- A discovery that can be started is, and is new; else nothing comes but someone to wait. -/
theorem begin_spec (d : Discoveries n) (destination : Hash16) (slot : Fin 8) (now timeout : Nat) :
    (d.begin destination slot now timeout).2 = .joined ∨
    ((d.begin destination slot now timeout).2 = .refused ∧
      (d.begin destination slot now timeout).1 = d.expire now ∧
      ¬ (d.Startable destination now ∧ now < satAdd now timeout)) ∨
    ((∃ identity, (d.begin destination slot now timeout).2 = .new identity) ∧
      (d.Startable destination now ∧ now < satAdd now timeout) ∧
      ∃ e, (d.begin destination slot now timeout).1.Has e ∧ e.live now = true ∧ ¬ d.Has e) := by
  rw [← startable_expire]
  unfold begin
  simp only
  split
  · exact .inl rfl
  rename_i hunsought
  have hunsought := firstIndex_eq_none.mp hunsought
  split
  · -- every place is taken by a discovery that runs
    rename_i hfull
    have hfull := firstIndex_eq_none.mp hfull
    refine .inr (.inl ⟨rfl, rfl, fun h => ?_⟩)
    obtain ⟨i, hi⟩ := h.1.room
    have htaken : ((d.expire now).entries.get i).identity ≠ 0 := of_decide_eq_false (hfull i)
    rw [(has_expire.mp ⟨i, rfl, htaken⟩).2] at hi
    cases hi
  rename_i i hi
  obtain ⟨hfree, _⟩ := firstIndex_eq_some.mp hi
  split
  · rename_i hlast
    refine .inr (.inl ⟨rfl, rfl, fun h => ?_⟩)
    unfold checkedSucc at hlast
    rw [if_pos h.1.number] at hlast
    cases hlast
  rename_i identity hidentity
  obtain ⟨hnumber, rfl⟩ := checkedSucc_eq_some.mp hidentity
  split
  · rename_i hlate
    exact .inr (.inl ⟨rfl, rfl, fun h => absurd h.2 (not_lt.mpr hlate)⟩)
  rename_i hlate
  have hroom : ((d.expire now).entries.get i).live now = false := by
    simp only [DiscoveryEntry.live, of_decide_eq_true hfree]
    rfl
  have hfresh : ∀ e, (d.expire now).Has e → e.live now = true → e.destination ≠ destination := by
    intro e he _ hsame
    obtain ⟨j, hj, hid⟩ := he
    have hnone := hunsought j
    rw [hj, decide_eq_true hid, decide_eq_true hsame] at hnone
    cases hnone
  refine .inr (.inr ⟨⟨_, rfl⟩, ⟨⟨hfresh, ⟨i, hroom⟩, hnumber⟩, not_le.mp hlate⟩, ?_⟩)
  have hlive : DiscoveryEntry.live
      ⟨destination, satAdd now timeout, d.lastIdentity + 1, slotBit slot⟩ now = true := by
    simp only [DiscoveryEntry.live, Bool.and_eq_true, decide_eq_true_eq]
    have hslot : ∀ slot : Fin 8, slotBit slot ≠ 0 := by decide
    exact ⟨⟨Nat.succ_ne_zero _, hslot slot⟩, not_le.mp hlate⟩
  -- the new entry runs, so if it were an old one the search would have been joined
  exact ⟨_, ⟨i, List.Vector.get_set_same _ _ _, Nat.succ_ne_zero _⟩, hlive,
    fun hold => hfresh _ (has_expire.mpr ⟨hold, hlive⟩) hlive rfl⟩

theorem has_of_take {d' : Discoveries n} {taken : Option DiscoveryEntry}
    (h : d.take destination now = (d', taken)) (he : d'.Has e) : d.Has e := by
  unfold take at h
  split at h
  · cases h
    exact he
  · cases h
    obtain ⟨j, hj, hid⟩ := id he
    simp only [List.Vector.get_set_eq_if] at hj
    split at hj
    · exact absurd hj.symm (not_has_empty he)
    · exact ⟨j, hj, hid⟩

theorem renews_take (d : Discoveries n) (destination : Hash16) (now : Nat) :
    Renews d (d.take destination now).1 := by
  refine ⟨?_, fun h => .inr ⟨_, has_of_take rfl h, rfl, rfl, id⟩⟩
  unfold take
  split <;> exact le_rfl

theorem live_eq_true {identity : Nat} :
    d.live identity now = true ↔ ∃ e, d.Has e ∧ e.identity = identity ∧ e.live now = true := by
  simp only [live, List.any_eq_true, Bool.and_eq_true, decide_eq_true_eq]
  constructor
  · rintro ⟨e, hmem, hid, hlive⟩
    obtain ⟨i, hi⟩ := (List.Vector.mem_iff_get e d.entries).mp hmem
    refine ⟨e, ⟨i, hi, ?_⟩, hid, hlive⟩
    simp only [DiscoveryEntry.live, Bool.and_eq_true, decide_eq_true_eq] at hlive
    exact hlive.1.1
  · rintro ⟨e, ⟨i, hi, _⟩, hid, hlive⟩
    exact ⟨e, (List.Vector.mem_iff_get e d.entries).mpr ⟨i, hi⟩, hid, hlive⟩

theorem live_expire (d : Discoveries n) (identity now : Nat) :
    (d.expire now).live identity now = d.live identity now := by
  rw [Bool.eq_iff_iff, live_eq_true, live_eq_true]
  constructor
  · rintro ⟨e, he, hid, hlive⟩
    exact ⟨e, (has_expire.mp he).1, hid, hlive⟩
  · rintro ⟨e, he, hid, hlive⟩
    exact ⟨e, has_expire.mpr ⟨he, hlive⟩, hid, hlive⟩

/-! ### Who is waiting -/

def Waiting (P : Fin 8 → Prop) (d : Discoveries n) : Prop :=
  ∀ i (b : Fin 8), (d.entries.get i).requesters.getLsbD b.val = true → P b

variable {P : Fin 8 → Prop}

theorem waiting_replicate (last : Nat) :
    Waiting P (⟨List.Vector.replicate n .empty, last⟩ : Discoveries n) := by
  intro i b hb
  simp [DiscoveryEntry.empty] at hb

theorem Waiting.map (h : d.Waiting P) {f : DiscoveryEntry → DiscoveryEntry}
    (hf : ∀ e (b : Fin 8), (f e).requesters.getLsbD b.val = true →
      e.requesters.getLsbD b.val = true) :
    Waiting P (⟨d.entries.map f, d.lastIdentity⟩ : Discoveries n) := by
  intro i b hb
  rw [List.Vector.get_map] at hb
  exact h i b (hf _ b hb)

theorem Waiting.set (h : d.Waiting P) {i : Fin n}
    (he : ∀ b : Fin 8, e.requesters.getLsbD b.val = true → P b) (last : Nat) :
    Waiting P (⟨d.entries.set i e, last⟩ : Discoveries n) := by
  intro j b hb
  simp only [List.Vector.get_set_eq_if] at hb
  split at hb
  · exact he b hb
  · exact h j b hb

theorem Waiting.expire (h : d.Waiting P) (now : Nat) : (d.expire now).Waiting P :=
  h.map fun e b hb => by
    split at hb
    · exact hb
    · simp [DiscoveryEntry.empty] at hb

theorem Waiting.retireRequester (h : d.Waiting P) (slot : Fin 8) :
    (d.retireRequester slot).Waiting fun b => P b ∧ b ≠ slot := by
  intro i b hb
  simp only [Discoveries.retireRequester, List.Vector.get_map] at hb
  split at hb
  · simp [DiscoveryEntry.empty] at hb
  · simp only [getLsbD_clear_slotBit, Bool.and_eq_true, Bool.not_eq_true',
      decide_eq_false_iff_not] at hb
    exact ⟨h i b hb.1, Ne.symm hb.2⟩

theorem Waiting.begin (h : d.Waiting P) (destination : Hash16) {slot : Fin 8} (hslot : P slot)
    (now timeout : Nat) :
    (d.begin destination slot now timeout).1.Waiting P := by
  have hexpire := h.expire now
  unfold Discoveries.begin
  simp only
  split
  · refine hexpire.set (fun b hb => ?_) _
    rw [getLsbD_or_slotBit, Bool.or_eq_true, decide_eq_true_eq] at hb
    exact hb.elim (hexpire _ b) fun hb => hb ▸ hslot
  · split
    · exact hexpire
    · split
      · exact hexpire
      · split
        · exact hexpire
        · refine hexpire.set (fun b hb => ?_) _
          rw [getLsbD_slotBit, decide_eq_true_eq] at hb
          exact hb ▸ hslot

theorem Waiting.take (h : d.Waiting P) (destination : Hash16) (now : Nat) :
    (d.take destination now).1.Waiting P := by
  unfold Discoveries.take
  split
  · exact h
  · exact h.set (by simp [DiscoveryEntry.empty]) _

end Discoveries

end ReticulumLite
