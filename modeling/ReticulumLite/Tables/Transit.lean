import ReticulumLite.Tables.Routes

/-!
# What a relay remembers of packets in transit

The list of packet hashes seen, the reverse table that brings proofs back, the table of links that
pass through, and the tags of path requests.
-/

namespace ReticulumLite

open Bounded

section Victims

variable {α : Type} {n : Nat} {s : Slots α n} {age : α → Nat}

theorem oldestIndex_eq_some {i : Fin n} (h : oldestIndex s age = some i) :
    ∃ e, s.get i = some e ∧ ∀ j e', s.get j = some e' → age e ≤ age e' := by
  obtain ⟨⟨i', e⟩, hsel, rfl⟩ := Option.map_eq_some_iff.mp h
  obtain ⟨hget, _, hleast⟩ := Slots.selectBy_eq_some (fun a b => rfl) hsel
  exact ⟨e, hget, fun j e' he' => hleast j e' he' rfl⟩

theorem oldestIndex_eq_none (h : oldestIndex s age = none) (i : Fin n) : s.get i = none := by
  have hsel := Option.map_eq_none_iff.mp h
  cases hi : s.get i with
  | none => rfl
  | some e =>
      have := Slots.selectBy_eq_none (fun a b => rfl) hsel i e hi
      simp at this

theorem exists_free_or_oldest (s : Slots α n) (age : α → Nat) (hn : 0 < n) :
    ∃ i, s.free.or (oldestIndex s age) = some i := by
  cases hfree : s.free with
  | some i => exact ⟨i, rfl⟩
  | none =>
      cases hold : oldestIndex s age with
      | some i => exact ⟨i, rfl⟩
      | none =>
          obtain ⟨e, he⟩ := Slots.free_eq_none.mp hfree ⟨0, hn⟩
          rw [oldestIndex_eq_none hold] at he
          simp at he

/-! The hash list and the tags of path requests are kept alike. -/

abbrev running (deadline : α → Nat) (nowMs : Nat) (t : Slots α n) : Slots α n :=
  t.clearWhere fun e => decide (nowMs ≥ deadline e)

/-- Enter a key unless it is there; the answer says whether it was new. -/
def remember {κ : Type} [DecidableEq κ] (key : α → κ) (deadline : α → Nat) (t : Slots α n) (new : α)
    (nowMs : Nat) : Slots α n × Bool :=
  let t := running deadline nowMs t
  if (t.find fun e => decide (key e = key new)).isSome then (t, false)
  else
    match t.free.or (oldestIndex t deadline) with
    | some i => (t.put i (some new), true)
    | none => (t, true)

/-- Room is made for a new key in any array that has a place, so it brings nothing new only if it was
there or there is no place. -/
theorem holds_remember_iff {κ : Type} [DecidableEq κ] {key : α → κ} {deadline : α → Nat} {new : α}
    {nowMs : Nat} (h : (remember key deadline s new nowMs).2 = true) :
    (∀ e, (remember key deadline s new nowMs).1.Holds e → s.Holds e) ↔ n = 0 ∨ s.Holds new := by
  unfold remember at h ⊢
  simp only at h ⊢
  split at h
  · cases h
  rename_i hnew
  rw [if_neg hnew]
  rcases Nat.eq_zero_or_pos n with rfl | hn
  · refine iff_of_true (fun a ha => ?_) (.inl rfl)
    obtain ⟨i, _⟩ := ha
    exact i.elim0
  · obtain ⟨i, hi⟩ := exists_free_or_oldest (running deadline nowMs s) deadline hn
    rw [hi, or_iff_right hn.ne']
    exact (Slots.within_clearWhere _ s).holds_put_iff i new

/-! Ways back and links are entered alike, and both run out. -/

variable {κ β : Type} [DecidableEq κ] (key : α → κ) (deadline : α → Nat) {core : α → β}
  {t : GenTable α n} {g : Nat} (e : α) (nowMs : Nat)

/-- Enter an entry once those that have run out are gone: in its own place, in a free one, or in
that of the entry that runs out first. -/
def enter (t : GenTable α n) : GenTable α n :=
  let t := t.clearWhere fun e => decide (nowMs ≥ deadline e)
  match t.nextGeneration with
  | none => t
  | some g =>
      match ((t.entries.indexOf fun old => decide (key old = key e)).or t.entries.free).or
          (oldestIndex t.entries deadline) with
      | some i => t.admitAt i e g
      | none => t

theorem enter_eq_clearWhere (h : t.nextGeneration = none) :
    enter key deadline e nowMs t = t.clearWhere fun e => decide (nowMs ≥ deadline e) := by
  have hnone : (t.clearWhere fun e => decide (nowMs ≥ deadline e)).nextGeneration = none := h
  simp only [enter, hnone]

theorem enter_eq_admitAt (h : t.nextGeneration = some g) :
    ∃ i, enter key deadline e nowMs t =
      (t.clearWhere fun e => decide (nowMs ≥ deadline e)).admitAt i e g := by
  have hpos := GenTable.pos_of_nextGeneration h
  change (t.clearWhere fun e => decide (nowMs ≥ deadline e)).nextGeneration = some g at h
  unfold enter
  generalize t.clearWhere _ = t at h ⊢
  obtain ⟨i, hi⟩ := exists_free_or_oldest t.entries deadline hpos
  simp only [h, Option.or_assoc]
  cases t.entries.indexOf fun old => decide (key old = key e) with
  | some j => exact ⟨j, rfl⟩
  | none =>
      rw [Option.none_or, hi]
      exact ⟨i, rfl⟩

theorem enter_renews {now : Nat} : t.Renews deadline core now (enter key deadline e nowMs t) := by
  cases h : t.nextGeneration with
  | none =>
      rw [enter_eq_clearWhere key deadline e nowMs h]
      exact .clearWhere _
  | some g =>
      obtain ⟨i, hi⟩ := enter_eq_admitAt key deadline e nowMs h
      rw [hi]
      exact GenTable.Renews.trans (.clearWhere _) (.admitAt h)

theorem keyed_enter (h : t.entries.Keyed key) : (enter key deadline e nowMs t).entries.Keyed key := by
  unfold enter
  have hkeyed : (t.clearWhere fun e => decide (nowMs ≥ deadline e)).entries.Keyed key :=
    h.clearWhere _
  generalize t.clearWhere _ = t at hkeyed ⊢
  simp only
  split
  · exact hkeyed
  · cases hidx : t.entries.indexOf fun old => decide (key old = key e) with
    | some i =>
        simp only [Option.some_or]
        exact hkeyed.put_indexOf hidx
    | none =>
        split
        · exact hkeyed.put_of_absent hidx _
        · exact hkeyed

end Victims

/-! ### Packet hashes -/

structure PacketHashEntry where
  hash : Hash32
  expiresMs : Nat
  deriving DecidableEq

abbrev PacketHashTable (n : Nat) := Slots PacketHashEntry n

namespace PacketHashTable

variable {n : Nat}

def expire (t : PacketHashTable n) (nowMs : Nat) : PacketHashTable n :=
  t.clearWhere fun e => decide (nowMs ≥ e.expiresMs)

def contains (t : PacketHashTable n) (hash : Hash32) (nowMs : Nat) : PacketHashTable n × Bool :=
  let t := expire t nowMs
  (t, (t.find fun e => decide (e.hash = hash)).isSome)

def insert (t : PacketHashTable n) (hash : Hash32) (expiresMs nowMs : Nat) :
    PacketHashTable n × Bool :=
  remember PacketHashEntry.hash PacketHashEntry.expiresMs t { hash, expiresMs } nowMs

end PacketHashTable

/-! ### Request tags -/

structure RequestTagEntry where
  key : Hash32
  expiresMs : Nat
  deriving DecidableEq

abbrev RequestTagTable (n : Nat) := Slots RequestTagEntry n

namespace RequestTagTable

variable {n : Nat}

def expire (t : RequestTagTable n) (nowMs : Nat) : RequestTagTable n :=
  t.clearWhere fun e => decide (nowMs ≥ e.expiresMs)

def insertIfNew (t : RequestTagTable n) (key : Hash32) (expiresMs nowMs : Nat) :
    RequestTagTable n × Bool :=
  remember RequestTagEntry.key RequestTagEntry.expiresMs t { key, expiresMs } nowMs

end RequestTagTable

/-! ### Reverse entries -/

structure ReverseEntry where
  proofHash : Hash16
  receivingInterface : InterfaceId
  outboundInterface : InterfaceId
  expiresMs : Nat
  deriving DecidableEq

abbrev ReverseTable (n : Nat) := GenTable ReverseEntry n

namespace ReverseTable

variable {n : Nat}

def getGeneration (t : ReverseTable n) (generation nowMs : Nat) : Option ReverseEntry :=
  t.entryOf (fun e => decide (nowMs < e.expiresMs)) generation

def expire (t : ReverseTable n) (nowMs : Nat) : ReverseTable n :=
  t.clearWhere fun e => decide (nowMs ≥ e.expiresMs)

def insert (t : ReverseTable n) (entry : ReverseEntry) (nowMs : Nat) : ReverseTable n :=
  let t := expire t nowMs
  match t.nextGeneration with
  | none => t
  | some generation =>
      match ((t.entries.indexOf fun old => decide (old.proofHash = entry.proofHash)).or
          t.entries.free).or (oldestIndex t.entries (·.expiresMs)) with
      | some i => t.admitAt i entry generation
      | none => t

def get (t : ReverseTable n) (proofHash : Hash16) (nowMs : Nat) : Option ReverseEntry :=
  t.entries.find fun e => decide (e.proofHash = proofHash) && decide (nowMs < e.expiresMs)

def takeWithGeneration (t : ReverseTable n) (proofHash : Hash16) (nowMs : Nat) :
    ReverseTable n × Option (ReverseEntry × Nat) :=
  let t := expire t nowMs
  match t.entries.indexOf fun e => decide (e.proofHash = proofHash) with
  | none => (t, none)
  | some i => (t.freeAt i, (t.entries.get i).map fun e => (e, t.generations.get i))

/-- Undo a take that turned out to be for nothing. -/
def restoreConsumed (t : ReverseTable n) (entry : ReverseEntry) (generation : Nat) :
    ReverseTable n :=
  match t.entries.free with
  | some i => t.restoreAt i entry generation
  | none => t

def removeInterface (t : ReverseTable n) (interface : InterfaceId) : ReverseTable n :=
  t.clearWhere fun e =>
    decide (e.receivingInterface = interface) || decide (e.outboundInterface = interface)

def core (e : ReverseEntry) : InterfaceId × InterfaceId :=
  (e.receivingInterface, e.outboundInterface)

abbrev Renews (nowMs : Nat) (t t' : ReverseTable n) : Prop :=
  GenTable.Renews ReverseEntry.expiresMs core nowMs t t'

variable {t : ReverseTable n} {nowMs g : Nat} {e : ReverseEntry}

theorem row_expire : (expire t nowMs).Row g e ↔ t.Row g e ∧ nowMs < e.expiresMs := by
  simp [expire, GenTable.row_clearWhere]

variable {generation : Nat}

theorem insert_spec (hg : t.nextGeneration = some generation) (entry : ReverseEntry) (nowMs : Nat) :
    ∃ i, insert t entry nowMs = (expire t nowMs).admitAt i entry generation :=
  enter_eq_admitAt ReverseEntry.proofHash ReverseEntry.expiresMs entry nowMs hg

theorem insert_renews (hg : t.nextGeneration = some generation) (entry : ReverseEntry) (nowMs : Nat) :
    Renews nowMs t (insert t entry nowMs) ∧
      (insert t entry nowMs).lastGeneration = generation ∧
      ∀ g e, (insert t entry nowMs).Row g e → t.Row g e ∨ e = entry := by
  obtain ⟨i, hi⟩ := insert_spec hg entry nowMs
  refine ⟨enter_renews ReverseEntry.proofHash _ entry nowMs, by rw [hi]; rfl, fun g e h => ?_⟩
  rw [hi] at h
  rcases GenTable.row_admitAt h with ⟨_, rfl⟩ | h
  · exact .inr rfl
  · exact .inl (row_expire.mp h).1

theorem keyed_insert (h : t.entries.Keyed ReverseEntry.proofHash) (entry : ReverseEntry)
    (nowMs : Nat) : (insert t entry nowMs).entries.Keyed ReverseEntry.proofHash :=
  keyed_enter _ ReverseEntry.expiresMs entry nowMs h

theorem get_of_row (h : t.entries.Keyed ReverseEntry.proofHash) (hrow : t.Row g e)
    (hlive : nowMs < e.expiresMs) :
    get t e.proofHash nowMs = some e := by
  obtain ⟨i, hi, _⟩ := hrow
  exact h.find_eq (q := fun e => decide (nowMs < e.expiresMs)) hi (decide_eq_true hlive)

theorem takeWithGeneration_spec {t' : ReverseTable n} {proofHash : Hash16}
    {r : Option (ReverseEntry × Nat)} (h : takeWithGeneration t proofHash nowMs = (t', r)) :
    t.Shrinks t' ∧ ∀ entry generation, r = some (entry, generation) →
        t.Row generation entry ∧ entry.proofHash = proofHash ∧ nowMs < entry.expiresMs ∧
        ∃ i, t' = (expire t nowMs).freeAt i ∧ (expire t nowMs).entries.get i = some entry ∧
          (expire t nowMs).generations.get i = generation := by
  have hexpire : t.Shrinks (expire t nowMs) := .clearWhere _
  unfold takeWithGeneration at h
  simp only at h
  split at h
  · cases h
    exact ⟨hexpire, by simp⟩
  · rename_i i hi
    cases h
    refine ⟨hexpire.trans (.freeAt i), ?_⟩
    intro entry generation hr
    obtain ⟨⟨e, he, hkey⟩, _⟩ := Slots.indexOf_eq_some.mp hi
    simp only [he, Option.map_some, Option.some.injEq, Prod.mk.injEq] at hr
    obtain ⟨rfl, rfl⟩ := hr
    have hrow := row_expire.mp (⟨i, he, rfl⟩ : (expire t nowMs).Row _ e)
    exact ⟨hrow.1, by simpa using hkey, hrow.2, i, rfl, he, rfl⟩

theorem take_of_row (hwf : t.WF) (hk : t.entries.Keyed ReverseEntry.proofHash) (hrow : t.Row g e)
    (hlive : nowMs < e.expiresMs) :
    ∃ t', takeWithGeneration t e.proofHash nowMs = (t', some (e, g)) ∧
      ∀ g' e', t'.Row g' e' ↔ t.Row g' e' ∧ nowMs < e'.expiresMs ∧ g' ≠ g := by
  obtain ⟨i, hi, hgi⟩ := row_expire.mpr ⟨hrow, hlive⟩
  have hkeyed : (expire t nowMs).entries.Keyed ReverseEntry.proofHash := hk.clearWhere _
  have hidx := hkeyed.indexOf_eq (q := fun _ => true) hi rfl
  simp only [Bool.and_true] at hidx
  refine ⟨(expire t nowMs).freeAt i, ?_, fun g' e' => ?_⟩
  · simp only [takeWithGeneration, hidx, hi, Option.map_some, hgi]
  · have hwf' : (expire t nowMs).WF := hwf.clearWhere _
    rw [hwf'.row_freeAt_iff hi, row_expire, hgi, and_assoc]

theorem restore_take {t' : ReverseTable n} {proofHash : Hash16} {entry : ReverseEntry} (hwf : t.WF)
    (h : takeWithGeneration t proofHash nowMs = (t', some (entry, generation))) :
    (restoreConsumed t' entry generation).WF ∧
      (restoreConsumed t' entry generation).lastGeneration = t.lastGeneration ∧
      ∀ g e, (restoreConsumed t' entry generation).Row g e ↔ (expire t nowMs).Row g e := by
  obtain ⟨_, hsome⟩ := takeWithGeneration_spec h
  obtain ⟨_, _, _, i, rfl, hget, hgen⟩ := hsome entry generation rfl
  have hwf' : (expire t nowMs).WF := hwf.clearWhere _
  have hrow : (expire t nowMs).Row generation entry := ⟨i, hget, hgen⟩
  have hfreed : ∀ g e, ((expire t nowMs).freeAt i).Row g e ↔
      (expire t nowMs).Row g e ∧ g ≠ generation := fun g e => hgen ▸ hwf'.row_freeAt_iff hget
  cases hfree : ((expire t nowMs).freeAt i).entries.free with
  | none =>
      obtain ⟨e, he⟩ := Slots.free_eq_none.mp hfree i
      simp [GenTable.freeAt] at he
  | some j =>
      have hj := Slots.get_of_free hfree
      simp only [restoreConsumed, hfree]
      refine ⟨(hwf'.freeAt i).restoreAt hj (hwf'.pos hrow) (hwf'.le_last hrow)
        fun e' he' => ((hfreed _ _).mp he').2 rfl, rfl, fun g e => ?_⟩
      rw [GenTable.row_restoreAt hj, hfreed]
      constructor
      · rintro (⟨rfl, rfl⟩ | ⟨hge, _⟩)
        · exact hrow
        · exact hge
      · intro hge
        by_cases hg : g = generation
        · subst hg
          exact .inl ⟨rfl, hwf'.row_unique hge hrow⟩
        · exact .inr ⟨hge, hg⟩

end ReverseTable

/-! ### Transit links -/

structure LinkEntry where
  linkId : Hash16
  destinationEd25519 : Option (Bytes 32)
  receivingInterface : InterfaceId
  outboundInterface : InterfaceId
  remainingHops : UInt8
  takenHops : UInt8
  requestedMode : UInt8
  acceptedMtuCeiling : Nat
  validated : Bool
  expiresMs : Nat
  deriving DecidableEq

abbrev LinkTable (n : Nat) := GenTable LinkEntry n

namespace LinkTable

variable {n : Nat}

def generation (t : LinkTable n) (key : Hash16) (nowMs : Nat) : Option Nat :=
  t.generationOf fun e => decide (e.linkId = key) && decide (nowMs < e.expiresMs)

def getGeneration (t : LinkTable n) (generation nowMs : Nat) : Option LinkEntry :=
  t.entryOf (fun e => decide (nowMs < e.expiresMs)) generation

def expire (t : LinkTable n) (nowMs : Nat) : LinkTable n :=
  t.clearWhere fun e => decide (nowMs ≥ e.expiresMs)

def insert (t : LinkTable n) (entry : LinkEntry) (nowMs : Nat) : LinkTable n :=
  let t := expire t nowMs
  match t.nextGeneration with
  | none => t
  | some generation =>
      match ((t.entries.indexOf fun old => decide (old.linkId = entry.linkId)).or
          t.entries.free).or (oldestIndex t.entries (·.expiresMs)) with
      | some i => t.admitAt i entry generation
      | none => t

/-- Whether there is room for a link without giving up another, after expiry. -/
def hasFreeSlot (t : LinkTable n) (nowMs : Nat) : LinkTable n × Bool :=
  let t := expire t nowMs
  (t, t.entries.free.isSome)

def get (t : LinkTable n) (linkId : Hash16) (nowMs : Nat) : Option LinkEntry :=
  t.entries.find fun e => decide (e.linkId = linkId) && decide (nowMs < e.expiresMs)

def removeInterface (t : LinkTable n) (interface : InterfaceId) : LinkTable n :=
  t.clearWhere fun e =>
    decide (e.receivingInterface = interface) || decide (e.outboundInterface = interface)

def containsLive (t : LinkTable n) (linkId : Hash16) (nowMs : Nat) : Bool := (get t linkId nowMs).isSome

def modify (t : LinkTable n) (linkId : Hash16) (f : LinkEntry → LinkEntry) : LinkTable n :=
  match t.entries.indexOf fun e => decide (e.linkId = linkId) with
  | none => t
  | some i =>
      match t.entries.get i with
      | none => t
      | some e => t.updateAt i (f e)

def markValidated (t : LinkTable n) (linkId : Hash16) (expiresMs nowMs : Nat) : LinkTable n :=
  modify (expire t nowMs) linkId fun e => { e with validated := true, expiresMs }

def touch (t : LinkTable n) (linkId : Hash16) (expiresMs nowMs : Nat) : LinkTable n :=
  modify (expire t nowMs) linkId fun e => { e with expiresMs }

/-- The part of an entry that stays what admission made it. -/
def core (e : LinkEntry) : LinkEntry := { e with validated := false, expiresMs := 0 }

abbrev Renews (nowMs : Nat) (t t' : LinkTable n) : Prop :=
  GenTable.Renews LinkEntry.expiresMs core nowMs t t'

variable {t : LinkTable n} {nowMs : Nat} {e : LinkEntry}

theorem row_expire {g : Nat} : (expire t nowMs).Row g e ↔ t.Row g e ∧ nowMs < e.expiresMs := by
  simp [expire, GenTable.row_clearWhere]

variable {linkId : Hash16}

theorem get_eq_some (h : get t linkId nowMs = some e) :
    (∃ g, t.Row g e) ∧ e.linkId = linkId ∧ nowMs < e.expiresMs := by
  obtain ⟨⟨i, hi⟩, hp⟩ := Slots.find_mem h
  simp only [Bool.and_eq_true, decide_eq_true_eq] at hp
  exact ⟨⟨_, i, hi, rfl⟩, hp⟩

theorem not_row_of_containsLive (h : containsLive t linkId nowMs = false) {g : Nat}
    (hrow : t.Row g e) (hlive : nowMs < e.expiresMs) : e.linkId ≠ linkId := by
  rw [containsLive, Option.isSome_eq_false_iff, Option.isNone_iff_eq_none] at h
  obtain ⟨i, hi, _⟩ := hrow
  have := Slots.find_eq_none.mp h i e hi
  intro hid
  simp [hid, hlive] at this

section

variable {entry : LinkEntry} {generation : Nat} (hg : t.nextGeneration = some generation)
  (habsent : containsLive t entry.linkId nowMs = false) (hfree : (hasFreeSlot t nowMs).2 = true)

include hg habsent hfree

theorem insert_spec :
    ∃ i, (expire t nowMs).entries.get i = none ∧
      insert t entry nowMs = (expire t nowMs).admitAt i entry generation := by
  have hg' : (expire t nowMs).nextGeneration = some generation := hg
  obtain ⟨i, hi⟩ := Option.isSome_iff_exists.mp hfree
  have hidx : (expire t nowMs).entries.indexOf
      (fun old => decide (old.linkId = entry.linkId)) = none := by
    rw [Slots.indexOf_eq_none]
    intro j e he
    have hrow := row_expire.mp (⟨j, he, rfl⟩ : (expire t nowMs).Row _ e)
    simpa using not_row_of_containsLive habsent hrow.1 hrow.2
  refine ⟨i, Slots.get_of_free hi, ?_⟩
  unfold insert
  simp only [hg', hidx, Option.none_or, hi, Option.some_or]

/-- What such an insertion does: nothing that runs is lost, and the entry is all that comes. -/
theorem insert_renews :
    Renews nowMs t (insert t entry nowMs) ∧
      (insert t entry nowMs).lastGeneration = generation ∧
      (∀ g e, (insert t entry nowMs).Row g e → t.Row g e ∨ (g = generation ∧ e = entry)) ∧
      ∀ g e, t.Row g e → nowMs < e.expiresMs → (insert t entry nowMs).Row g e := by
  obtain ⟨i, hempty, hi⟩ := insert_spec hg habsent hfree
  refine ⟨enter_renews LinkEntry.linkId _ entry nowMs, ?_⟩
  rw [hi]
  refine ⟨rfl, fun g e h => ?_, fun g e h hlive => ?_⟩
  · exact (GenTable.row_admitAt h).symm.imp_left fun h => (row_expire.mp h).1
  · exact GenTable.row_admitAt_of_free hempty (row_expire.mpr ⟨h, hlive⟩)

end

theorem keyed_insert (h : t.entries.Keyed LinkEntry.linkId) (entry : LinkEntry) (nowMs : Nat) :
    (insert t entry nowMs).entries.Keyed LinkEntry.linkId :=
  keyed_enter _ LinkEntry.expiresMs entry nowMs h

theorem keyed_modify (h : t.entries.Keyed LinkEntry.linkId) (linkId : Hash16)
    {f : LinkEntry → LinkEntry} (hf : ∀ e, (f e).linkId = e.linkId) :
    (modify t linkId f).entries.Keyed LinkEntry.linkId := by
  unfold modify
  split
  · exact h
  · rename_i i hi
    obtain ⟨⟨e, he, _⟩, _⟩ := Slots.indexOf_eq_some.mp hi
    simp only [he]
    exact h.put_same he fun e' he' => Option.some.inj he' ▸ hf e

theorem get_expire (t : LinkTable n) (linkId : Hash16) (nowMs : Nat) :
    get (expire t nowMs) linkId nowMs = get t linkId nowMs := by
  change (Slots.clearWhere _ t.entries).find _ = _
  rw [Slots.find_clearWhere]
  unfold get
  congr 1
  funext e
  simp only [ge_iff_le, ← decide_not, not_le, Bool.and_assoc, Bool.and_self]

theorem hasFreeSlot_expire (t : LinkTable n) (nowMs : Nat) :
    hasFreeSlot (expire t nowMs) nowMs = hasFreeSlot t nowMs := by
  simp only [hasFreeSlot, expire, GenTable.clearWhere, Slots.clearWhere_clearWhere]

/-- Changing the live entry of a link in place keeps the part that admission made. -/
theorem modify_expire_spec {f : LinkEntry → LinkEntry} (hcore : ∀ e, core (f e) = core e)
    (nowMs : Nat) :
    Renews nowMs t (modify (expire t nowMs) linkId f) ∧
      ∀ g e', (modify (expire t nowMs) linkId f).Row g e' → t.Row g e' ∨
        ∃ e, t.Row g e ∧ e' = f e := by
  have hexpire : Renews nowMs t (expire t nowMs) := .clearWhere _
  unfold modify
  split
  · exact ⟨hexpire, fun g e h => .inl (row_expire.mp h).1⟩
  · rename_i i hi
    obtain ⟨⟨old, hold, _⟩, _⟩ := Slots.indexOf_eq_some.mp hi
    obtain ⟨hrow, hlive⟩ := row_expire.mp (⟨i, hold, rfl⟩ : (expire t nowMs).Row _ old)
    simp only [hold]
    refine ⟨hexpire.trans (.updateAt hold (hcore old) (.inr hlive)), fun g e' he' => ?_⟩
    rcases GenTable.row_updateAt.mp he' with ⟨rfl, rfl⟩ | ⟨j, _, hj, rfl⟩
    · exact .inr ⟨old, hrow, rfl⟩
    · exact .inl (row_expire.mp ⟨j, hj, rfl⟩).1

theorem markValidated_spec (t : LinkTable n) (linkId : Hash16) (expiresMs nowMs : Nat) :
    Renews nowMs t (markValidated t linkId expiresMs nowMs) ∧
      ∀ g e', (markValidated t linkId expiresMs nowMs).Row g e' → t.Row g e' ∨
        ∃ e, t.Row g e ∧ e' = { e with validated := true, expiresMs } :=
  modify_expire_spec (f := fun e => { e with validated := true, expiresMs }) (fun _ => rfl) nowMs

theorem touch_spec (t : LinkTable n) (linkId : Hash16) (expiresMs nowMs : Nat) :
    Renews nowMs t (touch t linkId expiresMs nowMs) ∧
      ∀ g e', (touch t linkId expiresMs nowMs).Row g e' → t.Row g e' ∨
        ∃ e, t.Row g e ∧ e' = { e with expiresMs } :=
  modify_expire_spec (f := fun e => { e with expiresMs }) (fun _ => rfl) nowMs

end LinkTable

end ReticulumLite
