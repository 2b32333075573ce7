import ReticulumLite.Base.Incarnations
import ReticulumLite.Base.Masks
import ReticulumLite.Config

/-!
# Routes and their announces

The path table, the cache of signed announces behind its rows, and the schedule of announces that
are still to be passed on. All are slot arrays of fixed capacity that give up an old entry for a new
one by a rule of their own.
-/

namespace ReticulumLite

open Bounded

abbrev Hash16 := Bytes 16
abbrev Hash32 := Bytes 32

/-! ### Which entry is given up -/

section Victims

variable {α : Type} {n : Nat}

/-- The first entry of the least age value. -/
def oldestIndex (s : Slots α n) (age : α → Nat) : Option (Fin n) :=
  (s.selectBy (fun _ => true) fun a b => decide (age a < age b)).map (·.1)

/-- The oldest bulk entry; failing that, for a newcomer that is not itself bulk, the oldest. -/
def classVictim (s : Slots α n) (newcomerBulk : Bool) (bulk : α → Bool) (age : α → Nat) :
    Option (Fin n) :=
  ((s.selectBy bulk fun a b => decide (age a < age b)).map (·.1)).or
    (if newcomerBulk then none else oldestIndex s age)

end Victims

/-! ### Paths -/

structure PathEntry where
  destinationHash : Hash16
  nextHop : Option Hash16
  hops : UInt8
  interfaceId : InterfaceId
  expiresMs : Nat
  lastSeenMs : Nat
  packetHash : Hash32
  randomHash : Bytes 10
  publicKey : Bytes 64
  bulk : Bool
  deriving DecidableEq

def PathEntry.isLive (e : PathEntry) (nowMs : Nat) : Bool := decide (nowMs < e.expiresMs)

/-- The emission time an announce carries: the last five bytes of its random hash. -/
def announceEmitted (randomHash : Bytes 10) : Nat := beNat (Bytes.slice 5 randomHash.toList 5).toList

abbrev PathTable (n : Nat) := GenTable PathEntry n

namespace PathTable

variable {n : Nat}

def generation (t : PathTable n) (key : Hash16) (nowMs : Nat) : Option Nat :=
  t.generationOf fun e => decide (e.destinationHash = key) && decide (nowMs < e.expiresMs)

def getGeneration (t : PathTable n) (generation nowMs : Nat) : Option PathEntry :=
  t.entryOf (fun e => decide (nowMs < e.expiresMs)) generation

def get (t : PathTable n) (destinationHash : Hash16) : Option PathEntry :=
  t.entries.find fun e => decide (e.destinationHash = destinationHash)

def getLive (t : PathTable n) (destinationHash : Hash16) (nowMs : Nat) : Option PathEntry :=
  (get t destinationHash).filter (·.isLive nowMs)

/-- Renew a route that was used, for as long again as it was learned for. -/
def touch (t : PathTable n) (destinationHash : Hash16) (nowMs : Nat) : PathTable n :=
  match t.entries.indexOf fun e => decide (e.destinationHash = destinationHash) && e.isLive nowMs with
  | none => t
  | some i =>
      match t.entries.get i with
      | none => t
      | some e =>
          t.updateAt i { e with
            lastSeenMs := nowMs
            expiresMs := satAdd nowMs (e.expiresMs - e.lastSeenMs) }

def knownPublicKey (t : PathTable n) (destinationHash : Hash16) : Option (Bytes 64) :=
  (get t destinationHash).map (·.publicKey)

def dropPath (t : PathTable n) (destinationHash : Hash16) : PathTable n × Bool :=
  match t.entries.indexOf fun e => decide (e.destinationHash = destinationHash) with
  | some i => (t.freeAt i, true)
  | none => (t, false)

def removeInterface (t : PathTable n) (interface : InterfaceId) : PathTable n :=
  t.clearWhere fun e => decide (e.interfaceId = interface)

def expire (t : PathTable n) (nowMs : Nat) : PathTable n := t.clearWhere fun e => !e.isLive nowMs

/-- Two entries for one route: a fresh announce over it does not invalidate what is queued. -/
def sameRoute (old entry : PathEntry) : Bool :=
  decide (old.destinationHash = entry.destinationHash) &&
    decide (old.interfaceId = entry.interfaceId) && decide (old.nextHop = entry.nextHop) &&
    decide (old.hops = entry.hops)

def replaceEntry (t : PathTable n) (i : Fin n) (entry : PathEntry) : PathTable n × Bool :=
  if (t.entries.get i).any fun old => sameRoute old entry then (t.updateAt i entry, true)
  else match t.nextGeneration with
  | none => (t, false)
  | some generation => (t.admitAt i entry generation, true)

/-- Whether a valid announce may replace the row of its destination: never one already seen, and
only one emitted later, unless the row has expired and the newcomer is farther away. -/
def shouldReplace (old entry : PathEntry) (nowMs : Nat) : Bool :=
  let newEmitted := announceEmitted entry.randomHash
  let oldEmitted := announceEmitted old.randomHash
  let randomSeen := decide (entry.randomHash = old.randomHash)
  if entry.hops ≤ old.hops then !randomSeen && decide (newEmitted > oldEmitted)
  else if !old.isLive nowMs || decide (newEmitted > oldEmitted) then !randomSeen
  else false

def insertOrUpdate (t : PathTable n) (entry : PathEntry) (nowMs : Nat) : PathTable n × Bool :=
  let t := expire t nowMs
  match t.entries.indexOf fun old => decide (old.destinationHash = entry.destinationHash) with
  | some i =>
      match t.entries.get i with
      | none => (t, false)
      | some old => if shouldReplace old entry nowMs then replaceEntry t i entry else (t, false)
  | none =>
      match t.entries.free.or (classVictim t.entries entry.bulk (·.bulk) (·.expiresMs)) with
      | some i => replaceEntry t i entry
      | none => (t, false)

/-! #### What the operations do to the rows -/

def core (e : PathEntry) : Hash16 × InterfaceId × Option Hash16 × UInt8 :=
  (e.destinationHash, e.interfaceId, e.nextHop, e.hops)

/-- How the path table changes at a given time. -/
abbrev Renews (nowMs : Nat) (t t' : PathTable n) : Prop :=
  GenTable.Renews PathEntry.expiresMs core nowMs t t'

variable {entry : PathEntry}

theorem core_of_sameRoute {old : PathEntry} (h : sameRoute old entry = true) :
    core entry = core old := by
  simp only [sameRoute, Bool.and_eq_true, decide_eq_true_eq] at h
  simp [core, h]

variable {t : PathTable n} {nowMs g : Nat} {e : PathEntry}

theorem row_expire : (expire t nowMs).Row g e ↔ t.Row g e ∧ nowMs < e.expiresMs := by
  simp [expire, GenTable.row_clearWhere, PathEntry.isLive]

theorem touch_renews (t : PathTable n) (dest : Hash16) (nowMs : Nat) :
    Renews nowMs t (touch t dest nowMs) := by
  unfold touch
  split
  · exact .refl
  · rename_i i hi
    obtain ⟨⟨e, he, hlive⟩, _⟩ := Slots.indexOf_eq_some.mp hi
    simp only [he]
    refine .updateAt he rfl (.inr ?_)
    simp only [PathEntry.isLive, Bool.and_eq_true, decide_eq_true_eq] at hlive
    exact hlive.2

variable {dest : Hash16}

theorem row_touch {e' : PathEntry} (h : (touch t dest nowMs).Row g e') :
    ∃ e, t.Row g e ∧ e' = { e with lastSeenMs := e'.lastSeenMs, expiresMs := e'.expiresMs } := by
  unfold touch at h
  split at h
  · exact ⟨e', h, rfl⟩
  · rename_i i hi
    obtain ⟨⟨e, he, _⟩, _⟩ := Slots.indexOf_eq_some.mp hi
    simp only [he] at h
    rcases GenTable.row_updateAt.mp h with ⟨rfl, rfl⟩ | ⟨j, _, hj, rfl⟩
    · exact ⟨e, ⟨i, he, rfl⟩, rfl⟩
    · exact ⟨e', ⟨j, hj, rfl⟩, rfl⟩

/-- What replacing one place of an expired table does: the newcomer is a row, under a new number or
under the number of the same route. -/
theorem replaceEntry_renews (hlive : ∀ g e, t.Row g e → nowMs < e.expiresMs) (i : Fin n)
    (entry : PathEntry) :
    Renews nowMs t (replaceEntry t i entry).1 ∧
      ∀ g e, (replaceEntry t i entry).1.Row g e →
        t.Row g e ∨ (e = entry ∧ (replaceEntry t i entry).2 = true) := by
  unfold replaceEntry
  cases hi : t.entries.get i with
  | none =>
      simp only [Option.any_none, Bool.false_eq_true, if_false]
      split
      · exact ⟨.refl, fun g e h => .inl h⟩
      · rename_i g hg
        refine ⟨.admitAt hg, fun g' e h => ?_⟩
        exact (GenTable.row_admitAt h).symm.imp id fun h => ⟨h.2, rfl⟩
  | some old =>
      simp only [Option.any_some]
      split
      · rename_i hroute
        refine ⟨.updateAt hi (core_of_sameRoute hroute) (.inr (hlive _ _ ⟨i, hi, rfl⟩)), ?_⟩
        intro g e h
        rcases GenTable.row_updateAt.mp h with ⟨_, rfl⟩ | ⟨j, _, hj, rfl⟩
        · exact .inr ⟨rfl, rfl⟩
        · exact .inl ⟨j, hj, rfl⟩
      · split
        · exact ⟨.refl, fun g e h => .inl h⟩
        · rename_i g hg
          refine ⟨.admitAt hg, fun g' e h => ?_⟩
          exact (GenTable.row_admitAt h).symm.imp id fun h => ⟨h.2, rfl⟩

theorem insertOrUpdate_spec (t : PathTable n) (entry : PathEntry) (nowMs : Nat) :
    Renews nowMs t (insertOrUpdate t entry nowMs).1 ∧
      ∀ g e, (insertOrUpdate t entry nowMs).1.Row g e →
        t.Row g e ∨ (e = entry ∧ (insertOrUpdate t entry nowMs).2 = true) := by
  have hexpire : Renews nowMs t (expire t nowMs) := .clearWhere _
  have hlive : ∀ g e, (expire t nowMs).Row g e → nowMs < e.expiresMs :=
    fun g e h => (row_expire.mp h).2
  have hreplace : ∀ i, Renews nowMs t (replaceEntry (expire t nowMs) i entry).1 ∧
      ∀ g e, (replaceEntry (expire t nowMs) i entry).1.Row g e →
        t.Row g e ∨ (e = entry ∧ (replaceEntry (expire t nowMs) i entry).2 = true) := by
    intro i
    obtain ⟨hr, hrow⟩ := replaceEntry_renews hlive i entry
    exact ⟨hexpire.trans hr, fun g e h => (hrow g e h).imp_left fun h => (row_expire.mp h).1⟩
  have hkeep : Renews nowMs t (expire t nowMs) ∧ ∀ g e, (expire t nowMs).Row g e →
      t.Row g e ∨ (e = entry ∧ false = true) :=
    ⟨hexpire, fun g e h => .inl (row_expire.mp h).1⟩
  unfold insertOrUpdate
  simp only
  split
  · rename_i i hi
    split
    · exact hkeep
    · split
      · exact hreplace i
      · exact hkeep
  · split
    · exact hreplace _
    · exact hkeep

theorem row_replaceEntry {i : Fin n} (h : (replaceEntry t i entry).2 = true) :
    ∃ g, (replaceEntry t i entry).1.Row g entry := by
  unfold replaceEntry at h ⊢
  split at h
  · rename_i hroute
    rw [if_pos hroute]
    exact ⟨_, i, Slots.get_put_self _ _ _, rfl⟩
  · rename_i hroute
    rw [if_neg hroute]
    split at h
    · cases h
    · exact ⟨_, GenTable.row_admitAt_self _ _ _ _⟩

theorem row_insertOrUpdate (h : (insertOrUpdate t entry nowMs).2 = true) :
    ∃ g, (insertOrUpdate t entry nowMs).1.Row g entry := by
  unfold insertOrUpdate at h ⊢
  simp only at h ⊢
  split at h
  · split at h
    · cases h
    · split at h
      · rename_i hreplace
        rw [if_pos hreplace]
        exact row_replaceEntry h
      · cases h
  · split at h
    · exact row_replaceEntry h
    · cases h

section

variable (h : t.entries.Keyed PathEntry.destinationHash)

include h

theorem keyed_replaceEntry {i : Fin n}
    (hi : ∀ j a, j ≠ i → t.entries.get j = some a → a.destinationHash ≠ entry.destinationHash) :
    (replaceEntry t i entry).1.entries.Keyed PathEntry.destinationHash := by
  have hput : (t.entries.put i (some entry)).Keyed PathEntry.destinationHash :=
    h.put fun e he => Option.some.inj he ▸ hi
  unfold replaceEntry
  split
  · exact hput
  · split
    · exact h
    · exact hput

theorem keyed_insertOrUpdate (entry : PathEntry) (nowMs : Nat) :
    (insertOrUpdate t entry nowMs).1.entries.Keyed PathEntry.destinationHash := by
  have hexpire : (expire t nowMs).entries.Keyed PathEntry.destinationHash := h.clearWhere _
  unfold insertOrUpdate
  simp only
  split
  · rename_i i hi
    obtain ⟨⟨old, hold, hkey⟩, _⟩ := Slots.indexOf_eq_some.mp hi
    have hkey : old.destinationHash = entry.destinationHash := of_decide_eq_true hkey
    split
    · exact hexpire
    · split
      · exact keyed_replaceEntry hexpire fun j a hj ha heq => hj (hexpire ha hold (heq.trans hkey.symm))
      · exact hexpire
  · rename_i habsent
    split
    · refine keyed_replaceEntry hexpire fun j a _ ha => ?_
      simpa using Slots.indexOf_eq_none.mp habsent j a ha
    · exact hexpire

theorem keyed_touch (dest : Hash16) (nowMs : Nat) :
    (touch t dest nowMs).entries.Keyed PathEntry.destinationHash := by
  unfold touch
  split
  · exact h
  · rename_i i hi
    obtain ⟨⟨e, he, _⟩, _⟩ := Slots.indexOf_eq_some.mp hi
    simp only [he]
    exact h.put_same he fun e' he' => Option.some.inj he' ▸ rfl

theorem row_unique {g' : Nat} {e' : PathEntry} (he : t.Row g e) (he' : t.Row g' e')
    (hdest : e.destinationHash = e'.destinationHash) :
    e = e' := by
  obtain ⟨i, hi, _⟩ := he
  obtain ⟨j, hj, _⟩ := he'
  obtain rfl := h hi hj hdest
  exact Option.some.inj (hi.symm.trans hj)

theorem getLive_of_row (hrow : t.Row g e) (hlive : nowMs < e.expiresMs) :
    getLive t e.destinationHash nowMs = some e := by
  obtain ⟨i, hi, _⟩ := hrow
  have hfind : get t e.destinationHash = some e := by
    have := h.find_eq (q := fun _ => true) hi rfl
    simpa [get] using this
  rw [getLive, hfind]
  simp [PathEntry.isLive, hlive]

end

theorem dropPath_renews (t : PathTable n) (dest : Hash16) (nowMs : Nat) :
    Renews nowMs t (dropPath t dest).1 := by
  unfold dropPath
  split
  · exact .of_shrinks (.freeAt _)
  · exact .refl

theorem row_of_dropPath (h : (dropPath t dest).1.Row g e) : t.Row g e := by
  unfold dropPath at h
  split at h
  · exact GenTable.row_of_freeAt h
  · exact h

theorem getLive_eq_some (h : getLive t dest nowMs = some e) :
    (∃ g, t.Row g e) ∧ e.destinationHash = dest ∧ nowMs < e.expiresMs := by
  obtain ⟨hget, hlive⟩ := Option.filter_eq_some_iff.mp h
  obtain ⟨⟨i, hi⟩, hdest⟩ := Slots.find_mem hget
  exact ⟨⟨_, i, hi, rfl⟩, by simpa using hdest, by simpa [PathEntry.isLive] using hlive⟩

end PathTable

/-! ### Cached announces -/

structure CachedAnnounce where
  destinationHash : Hash16
  raw : PacketBuffer mtu
  hops : UInt8
  expiresMs : Nat
  bulk : Bool
  deriving DecidableEq

abbrev AnnounceCache (n : Nat) := Slots CachedAnnounce n

namespace AnnounceCache

variable {n : Nat}

def get (c : AnnounceCache n) (destinationHash : Hash16) (nowMs : Nat) : Option CachedAnnounce :=
  c.find fun e => decide (e.destinationHash = destinationHash) && decide (nowMs < e.expiresMs)

def expire (c : AnnounceCache n) (nowMs : Nat) : AnnounceCache n :=
  c.clearWhere fun e => decide (nowMs ≥ e.expiresMs)

def insert (c : AnnounceCache n) (entry : CachedAnnounce) (nowMs : Nat) : AnnounceCache n :=
  let c := expire c nowMs
  match c.indexOf fun old => decide (old.destinationHash = entry.destinationHash) with
  | some i => c.put i (some entry)
  | none =>
      match c.free.or (classVictim c entry.bulk (·.bulk) (·.expiresMs)) with
      | some i => c.put i (some entry)
      | none => c

/-- Forget the announces of destinations without a live route. -/
def retainPaths {p : Nat} (c : AnnounceCache n) (paths : PathTable p) (nowMs : Nat) :
    AnnounceCache n :=
  c.clearWhere fun e => (paths.getLive e.destinationHash nowMs).isNone

/-! #### What the cache keeps for a route -/

/-- There is an announce for the route that lasts as long as the route does. -/
def Covers (c : AnnounceCache n) (e : PathEntry) : Prop :=
  ∃ i a, List.Vector.get c i = some a ∧ a.destinationHash = e.destinationHash ∧
    e.expiresMs ≤ a.expiresMs

variable {c : AnnounceCache n} {e : PathEntry} {nowMs : Nat}

theorem covers_expire (h : c.Covers e) (hlive : nowMs < e.expiresMs) :
    (expire c nowMs).Covers e := by
  obtain ⟨i, a, ha, hdest, hlasts⟩ := h
  refine ⟨i, a, Slots.get_clearWhere_eq_some.mpr ⟨ha, ?_⟩, hdest, hlasts⟩
  simpa using lt_of_lt_of_le hlive hlasts

theorem covers_retainPaths {p : Nat} {paths : PathTable p} {g : Nat} (h : c.Covers e)
    (hkeyed : paths.entries.Keyed PathEntry.destinationHash) (hrow : paths.Row g e)
    (hlive : nowMs < e.expiresMs) :
    (retainPaths c paths nowMs).Covers e := by
  obtain ⟨i, a, ha, hdest, hlasts⟩ := h
  refine ⟨i, a, Slots.get_clearWhere_eq_some.mpr ⟨ha, ?_⟩, hdest, hlasts⟩
  rw [hdest, PathTable.getLive_of_row hkeyed hrow hlive]
  rfl

variable {entry : CachedAnnounce}

theorem all_insert {P : CachedAnnounce → Prop} (h : c.All P) (hentry : P entry) (nowMs : Nat) :
    (c.insert entry nowMs).All P := by
  have hexpire : (expire c nowMs).All P := h.clearWhere _
  have hput : ∀ i, ((expire c nowMs).put i (some entry)).All P := fun i =>
    hexpire.put fun e he => Option.some.inj he ▸ hentry
  unfold insert
  simp only
  split
  · exact hput _
  split
  · exact hput _
  · exact hexpire

theorem keyed_insert (h : c.Keyed CachedAnnounce.destinationHash) (entry : CachedAnnounce)
    (nowMs : Nat) :
    (insert c entry nowMs).Keyed CachedAnnounce.destinationHash := by
  have hexpire : (expire c nowMs).Keyed CachedAnnounce.destinationHash := h.clearWhere _
  unfold insert
  simp only
  split
  · rename_i i hi
    exact hexpire.put_indexOf hi
  · rename_i habsent
    split
    · exact hexpire.put_of_absent habsent _
    · exact hexpire

theorem get_insert (h : c.Keyed CachedAnnounce.destinationHash) {a : CachedAnnounce} {i : Fin n}
    (ha : List.Vector.get (insert c entry nowMs) i = some a) :
    a = entry ∨ (List.Vector.get c i = some a ∧ a.destinationHash ≠ entry.destinationHash) := by
  have hold : ∀ {j b}, List.Vector.get (expire c nowMs) j = some b → List.Vector.get c j = some b :=
    fun hb => (Slots.get_clearWhere_eq_some.mp hb).1
  unfold insert at ha
  simp only at ha
  split at ha
  · rename_i j hj
    obtain ⟨⟨old, hget, hkey⟩, _⟩ := Slots.indexOf_eq_some.mp hj
    rw [Slots.get_put] at ha
    split at ha
    · exact .inl (Option.some.inj ha).symm
    · rename_i hne
      refine .inr ⟨hold ha, fun hdest => hne ?_⟩
      exact (h (hold ha) (hold hget) (hdest.trans (of_decide_eq_true hkey).symm)).symm
  · rename_i habsent
    have hother : ∀ {b}, List.Vector.get (expire c nowMs) i = some b →
        b.destinationHash ≠ entry.destinationHash := fun hb => by
      simpa using Slots.indexOf_eq_none.mp habsent i _ hb
    split at ha
    · rw [Slots.get_put] at ha
      split at ha
      · exact .inl (Option.some.inj ha).symm
      · exact .inr ⟨hold ha, hother ha⟩
    · exact .inr ⟨hold ha, hother ha⟩

section

variable (hroom : (∀ i a, List.Vector.get (expire c nowMs) i = some a →
  a.destinationHash ≠ entry.destinationHash) → ∃ i, Slots.free (expire c nowMs) = some i)

include hroom

theorem insert_eq_put :
    ∃ i, insert c entry nowMs = (expire c nowMs).put i (some entry) ∧
      ∀ a, List.Vector.get (expire c nowMs) i = some a →
        a.destinationHash = entry.destinationHash := by
  unfold insert
  simp only
  split
  · rename_i i hi
    obtain ⟨⟨old, hget, hold⟩, _⟩ := Slots.indexOf_eq_some.mp hi
    refine ⟨i, rfl, fun a ha => ?_⟩
    rw [← Option.some.inj (hget.symm.trans ha)]
    exact of_decide_eq_true hold
  · rename_i habsent
    obtain ⟨i, hi⟩ := hroom fun i a ha => by simpa using Slots.indexOf_eq_none.mp habsent i a ha
    rw [hi]
    refine ⟨i, rfl, fun a ha => ?_⟩
    cases (Slots.get_of_free hi).symm.trans ha

theorem covers_insert_self (hdest : entry.destinationHash = e.destinationHash)
    (hlasts : e.expiresMs ≤ entry.expiresMs) :
    (insert c entry nowMs).Covers e := by
  obtain ⟨i, heq, _⟩ := insert_eq_put hroom
  rw [heq]
  exact ⟨i, entry, Slots.get_put_self _ _ _, hdest, hlasts⟩

/-- Where there is room, an announce that comes in displaces none of another destination. -/
theorem covers_insert_of_ne (h : c.Covers e) (hlive : nowMs < e.expiresMs)
    (hdest : e.destinationHash ≠ entry.destinationHash) :
    (insert c entry nowMs).Covers e := by
  obtain ⟨i, a, ha, hkey, hlasts⟩ := covers_expire h hlive
  obtain ⟨j, heq, hold⟩ := insert_eq_put hroom
  have hj : j ≠ i := by
    rintro rfl
    exact hdest (hkey.symm.trans (hold a ha))
  rw [heq]
  exact ⟨i, a, (Slots.get_put_of_ne hj _).trans ha, hkey, hlasts⟩

end

end AnnounceCache

/-! ### Scheduled announces -/

structure ScheduledAnnounce where
  destinationHash : Hash16
  packet : PacketBuffer mtu
  interfaceId : InterfaceId
  dueMs : Nat
  expiresMs : Nat
  blockRebroadcast : Bool
  hops : UInt8
  retries : UInt8
  localRebroadcasts : UInt8
  /-- The registry slots still owed this announce. -/
  pendingTargets : BitVec 8
  deriving DecidableEq

/-- The due time of an entry that is kept only for its pending targets. -/
def ScheduledAnnounce.pendingOnlyDue : Nat := u64Max

def ScheduledAnnounce.pendingOnly (e : ScheduledAnnounce) : Bool :=
  decide (e.dueMs = ScheduledAnnounce.pendingOnlyDue)

/-- The same announce, counted more often or owed to fewer places. -/
structure ScheduledAnnounce.Lessened (e e' : ScheduledAnnounce) : Prop where
  same : e' = { e with
    pendingTargets := e'.pendingTargets, localRebroadcasts := e'.localRebroadcasts }
  pending : ∀ b, e'.pendingTargets.getLsbD b = true → e.pendingTargets.getLsbD b = true

theorem ScheduledAnnounce.Lessened.refl (e : ScheduledAnnounce) : e.Lessened e :=
  ⟨rfl, fun _ h => h⟩

theorem ScheduledAnnounce.Lessened.trans {e e' e'' : ScheduledAnnounce} (h : e.Lessened e')
    (h' : e'.Lessened e'') : e.Lessened e'' where
  same := by rw [h'.same, h.same]
  pending b hb := h.pending b (h'.pending b hb)

/-- Fewest hops first, then the earliest. -/
def releasePrecedes (hops : UInt8) (queuedMs : Nat) (otherHops : UInt8) (otherQueuedMs : Nat) :
    Bool :=
  decide (hops < otherHops) || (decide (hops = otherHops) && decide (queuedMs < otherQueuedMs))

abbrev AnnounceSchedule (n : Nat) := Slots ScheduledAnnounce n

namespace AnnounceSchedule

variable {n : Nat}

def expire (t : AnnounceSchedule n) (nowMs : Nat) : AnnounceSchedule n :=
  t.clearWhere fun e => decide (nowMs ≥ e.expiresMs)

def lastReleasedPending (t : AnnounceSchedule n) : Option (Fin n) :=
  (t.selectBy (·.pendingOnly) fun entry worst =>
    releasePrecedes worst.hops worst.expiresMs entry.hops entry.expiresMs).map (·.1)

def insert (t : AnnounceSchedule n) (entry : ScheduledAnnounce) (nowMs : Nat) :
    AnnounceSchedule n :=
  let t := expire t nowMs
  match t.indexOf fun old => decide (old.destinationHash = entry.destinationHash) with
  | some i => t.put i (some entry)
  | none =>
      match (t.free.or (lastReleasedPending t)).or (oldestIndex t (·.expiresMs)) with
      | some i => t.put i (some entry)
      | none => t

/-- An entry with one place no longer owed; it goes when nothing is left to do for it. -/
def settle (entry : ScheduledAnnounce) (slot : Fin 8) : Option ScheduledAnnounce :=
  let settled := { entry with pendingTargets := entry.pendingTargets &&& ~~~ slotBit slot }
  if settled.pendingTargets ≠ 0 ∨ settled.pendingOnly = false then some settled else none

def releasePending (t : AnnounceSchedule n) (slot : Fin 8) (nowMs : Nat) :
    AnnounceSchedule n × Option ScheduledAnnounce :=
  let t := expire t nowMs
  match t.selectBy (fun e => e.pendingTargets.getLsbD slot.val) fun entry best =>
      releasePrecedes entry.hops entry.expiresMs best.hops best.expiresMs with
  | none => (t, none)
  | some (i, first) =>
      (t.put i (settle first slot),
        some { first with pendingTargets := first.pendingTargets &&& ~~~ slotBit slot })

def clearTarget (t : AnnounceSchedule n) (slot : Fin 8) : AnnounceSchedule n :=
  t.map fun entry => entry.bind fun e => settle e slot

def popDue (t : AnnounceSchedule n) (nowMs : Nat) : AnnounceSchedule n × Option ScheduledAnnounce :=
  let t := expire t nowMs
  match t.indexOf fun e => decide (nowMs ≥ e.dueMs) with
  | none => (t, none)
  | some i => (t.put i none, t.get i)

def modify (t : AnnounceSchedule n) (destinationHash : Hash16)
    (f : ScheduledAnnounce → ScheduledAnnounce) : AnnounceSchedule n :=
  match t.indexOf fun e => decide (e.destinationHash = destinationHash) with
  | none => t
  | some i => t.put i ((t.get i).map f)

def remove (t : AnnounceSchedule n) (destinationHash : Hash16) : AnnounceSchedule n :=
  t.clearWhere fun e => decide (e.destinationHash = destinationHash)

def removeInterface (t : AnnounceSchedule n) (interface : InterfaceId) : AnnounceSchedule n :=
  t.clearWhere fun e => decide (e.interfaceId = interface)

/-! #### Owing less -/

/-- Every entry was there, in its place, and owed at least as much. -/
def Lessens (t t' : AnnounceSchedule n) : Prop :=
  ∀ i e', t'.get i = some e' → ∃ e : ScheduledAnnounce, t.get i = some e ∧ e.Lessened e'

section Lessens

variable {t t' t'' : AnnounceSchedule n}

theorem Lessens.refl (t : AnnounceSchedule n) : t.Lessens t := fun _ e he => ⟨e, he, .refl e⟩

theorem Lessens.trans (h : t.Lessens t') (h' : t'.Lessens t'') : t.Lessens t'' := by
  intro i e'' he''
  obtain ⟨e', he', hless'⟩ := h' i e'' he''
  obtain ⟨e, he, hless⟩ := h i e' he'
  exact ⟨e, he, hless.trans hless'⟩

theorem lessens_clearWhere (t : AnnounceSchedule n) (p : ScheduledAnnounce → Bool) :
    t.Lessens (t.clearWhere p) :=
  fun _ e he => ⟨e, (Slots.get_clearWhere_eq_some.mp he).1, .refl e⟩

theorem Lessens.put (h : t.Lessens t') {i : Fin n} {slot : Option ScheduledAnnounce}
    (hslot : ∀ e', slot = some e' → ∃ e : ScheduledAnnounce, t.get i = some e ∧ e.Lessened e') :
    t.Lessens (t'.put i slot) := by
  intro j e' he'
  rw [Slots.get_put] at he'
  split at he'
  · rename_i hij
    exact hij ▸ hslot e' he'
  · exact h j e' he'

theorem settle_eq_some {entry e : ScheduledAnnounce} {slot : Fin 8} (h : settle entry slot = some e) :
    e = { entry with pendingTargets := entry.pendingTargets &&& ~~~ slotBit slot } := by
  unfold settle at h
  simp only at h
  split at h
  · exact (Option.some.inj h).symm
  · simp at h

theorem lessened_settle {entry e : ScheduledAnnounce} {slot : Fin 8}
    (h : settle entry slot = some e) : entry.Lessened e := by
  rw [settle_eq_some h]
  refine ⟨rfl, fun b hb => ?_⟩
  rw [BitVec.getLsbD_and, Bool.and_eq_true] at hb
  exact hb.1

section

variable (t) (slot : Fin 8) (nowMs : Nat)

theorem lessens_releasePending : t.Lessens (releasePending t slot nowMs).1 := by
  have hexpire : t.Lessens (expire t nowMs) := lessens_clearWhere t _
  unfold releasePending
  simp only
  split
  · exact hexpire
  · rename_i i first hsel
    obtain ⟨e, he, hless⟩ := hexpire i first (Slots.selectBy_mem hsel).1
    exact hexpire.put fun e' he' => ⟨e, he, hless.trans (lessened_settle he')⟩

theorem lessens_clearTarget : t.Lessens (clearTarget t slot) := by
  intro i e' he'
  rw [clearTarget, List.Vector.get_map] at he'
  obtain ⟨e, he, hsettle⟩ := Option.bind_eq_some_iff.mp he'
  exact ⟨e, he, lessened_settle hsettle⟩

theorem lessens_popDue : t.Lessens (popDue t nowMs).1 := by
  have hexpire : t.Lessens (expire t nowMs) := lessens_clearWhere t _
  unfold popDue
  simp only
  split
  · exact hexpire
  · exact hexpire.put (by simp)

theorem lessens_modify (dest : Hash16) {f : ScheduledAnnounce → ScheduledAnnounce}
    (hf : ∀ e : ScheduledAnnounce, e.Lessened (f e)) :
    t.Lessens (modify t dest f) := by
  unfold modify
  split
  · exact .refl t
  · refine (Lessens.refl t).put fun e' he' => ?_
    obtain ⟨e, he, rfl⟩ := Option.map_eq_some_iff.mp he'
    exact ⟨e, he, hf e⟩

end

theorem Lessens.keyed (h : t.Lessens t') (hkeyed : t.Keyed ScheduledAnnounce.destinationHash) :
    t'.Keyed ScheduledAnnounce.destinationHash := by
  intro i j a' b' ha' hb' hdest
  obtain ⟨a, ha, hless⟩ := h i a' ha'
  obtain ⟨b, hb, hless'⟩ := h j b' hb'
  rw [hless.same, hless'.same] at hdest
  exact hkeyed ha hb hdest

end Lessens

theorem keyed_insert {t : AnnounceSchedule n} (h : t.Keyed ScheduledAnnounce.destinationHash)
    (entry : ScheduledAnnounce) (nowMs : Nat) :
    (insert t entry nowMs).Keyed ScheduledAnnounce.destinationHash := by
  have hexpire : (expire t nowMs).Keyed ScheduledAnnounce.destinationHash := h.clearWhere _
  unfold insert
  simp only
  split
  · rename_i i hi
    exact hexpire.put_indexOf hi
  · rename_i habsent
    split
    · exact hexpire.put_of_absent habsent _
    · exact hexpire

/-! #### A property of every entry -/

section All

variable {P : ScheduledAnnounce → Prop} {t : AnnounceSchedule n}

theorem all_insert {entry : ScheduledAnnounce} (h : t.All P) (hentry : P entry) (nowMs : Nat) :
    (insert t entry nowMs).All P := by
  have hexpire : (expire t nowMs).All P := h.clearWhere _
  have hput : ∀ i, ((expire t nowMs).put i (some entry)).All P := fun i =>
    hexpire.put fun e he => Option.some.inj he ▸ hentry
  unfold insert
  simp only
  split
  · exact hput _
  · split
    · exact hput _
    · exact hexpire

theorem not_pending_clearTarget (slot : Fin 8) :
    (clearTarget t slot).All fun e => e.pendingTargets.getLsbD slot.val = false := by
  intro i e he
  rw [clearTarget, List.Vector.get_map] at he
  obtain ⟨old, _, hsettle⟩ := Option.bind_eq_some_iff.mp he
  rw [settle_eq_some hsettle, getLsbD_clear_slotBit]
  simp

theorem all_popDue (h : t.All P) (nowMs : Nat) :
    (popDue t nowMs).1.All P ∧ ∀ e, (popDue t nowMs).2 = some e → P e := by
  have hexpire : (expire t nowMs).All P := h.clearWhere _
  unfold popDue
  simp only
  split
  · exact ⟨hexpire, by simp⟩
  · exact ⟨hexpire.put (by simp), fun e he => hexpire _ e he⟩

theorem all_releasePending (h : t.All P) (slot : Fin 8) (nowMs : Nat)
    (hclear : ∀ e, P e → P { e with pendingTargets := e.pendingTargets &&& ~~~ slotBit slot }) :
    (releasePending t slot nowMs).1.All P ∧ ∀ e, (releasePending t slot nowMs).2 = some e → P e := by
  have hexpire : (expire t nowMs).All P := h.clearWhere _
  unfold releasePending
  simp only
  split
  · exact ⟨hexpire, by simp⟩
  · rename_i i first hsel
    have hfirst := hclear first (hexpire i first (Slots.selectBy_mem hsel).1)
    refine ⟨hexpire.put fun e he => ?_, fun e he => ?_⟩
    · rw [settle_eq_some he]
      exact hfirst
    · obtain rfl := Option.some.inj he
      exact hfirst

end All

end AnnounceSchedule

end ReticulumLite
