import ReticulumLite.Base.Ring

/-!
# The queue as it is stored

An array of places that may be empty, the place of the oldest entry and the number of entries;
nothing in the type keeps the three in agreement. A queue that starts empty and is used by its
operations is the storage of a `Ring`, the queue a node is modelled with, and each operation is the
ring's.
-/

namespace ReticulumLite

open Bounded

structure Queue (α : Type) (n : Nat) where
  entries : Slots α n
  head : Nat
  len : Nat

namespace Queue

variable {α : Type} {n : Nat}

def new : Queue α n := ⟨Slots.empty, 0, 0⟩

def clear (_ : Queue α n) : Queue α n := ⟨Slots.empty, 0, 0⟩

/-- The answer is whether an entry was given up for the new one. Without capacity the value is
discarded. -/
def pushDropOldest (q : Queue α n) (value : α) : Bool × Queue α n :=
  if n = 0 then (false, q)
  else if q.len = n then
    (true, { q with
      entries := q.entries.putAt q.head (some value)
      head := (q.head + 1) % n })
  else
    (false, { q with
      entries := q.entries.putAt ((q.head + q.len) % n) (some value)
      len := q.len + 1 })

def peek (q : Queue α n) : Option α :=
  if q.len = 0 ∨ n = 0 then none else q.entries.at? q.head

def iter (q : Queue α n) : List α :=
  (List.range q.len).filterMap fun offset => q.entries.at? ((q.head + offset) % max n 1)

/-- The places that are not empty, from the first place of the array on: what `iter_mut` meets. -/
def places (q : Queue α n) : List α := q.entries.toList.reduceOption

/-- Go through an array and rewrite what is there. What is written may depend on the entries met
before. -/
def visitPlaces (visit : List α → α → α) : List α → List (Option α) → List (Option α)
  | _, [] => []
  | seen, none :: places => none :: visitPlaces visit seen places
  | seen, some e :: places => some (visit seen e) :: visitPlaces visit (seen ++ [e]) places

theorem map_isSome_visitPlaces (visit : List α → α → α) (seen : List α)
    (places : List (Option α)) :
    (visitPlaces visit seen places).map Option.isSome = places.map Option.isSome := by
  induction places generalizing seen with
  | nil => rfl
  | cons place places ih =>
      cases place with
      | none => exact congrArg (false :: ·) (ih seen)
      | some e => exact congrArg (true :: ·) (ih (seen ++ [e]))

/-- Rewrite every entry by way of `iter_mut`. -/
def iterMut (q : Queue α n) (visit : List α → α → α) : Queue α n :=
  { q with
    entries := ⟨visitPlaces visit [] q.entries.toList, by
      have hlength := congrArg List.length (map_isSome_visitPlaces visit [] q.entries.toList)
      simpa using hlength⟩ }

/-- The entry at an offset, and the queue once the caller has written through the reference. -/
def getMut (q : Queue α n) (offset : Nat) (write : α → α) : Option α × Queue α n :=
  if offset ≥ q.len ∨ n = 0 then (none, q)
  else
    let idx := (q.head + offset) % n
    (q.entries.at? idx, { q with entries := q.entries.putAt idx ((q.entries.at? idx).map write) })

/-- Take an entry out, and move each later one a place down. -/
def remove (q : Queue α n) (offset : Nat) : Option α × Queue α n :=
  if offset ≥ q.len ∨ n = 0 then (none, q)
  else
    let idx := (q.head + offset) % n
    (q.entries.at? idx, { q with
      entries := Ring.closeGap q.head offset q.len (q.entries.putAt idx none)
      len := q.len - 1 })

def pop (q : Queue α n) : Option α × Queue α n :=
  if q.len = 0 ∨ n = 0 then (none, q)
  else (q.entries.at? q.head, { q with
    entries := q.entries.putAt q.head none
    head := (q.head + 1) % n
    len := q.len - 1 })

/-! ### Runs -/

inductive Operation (α : Type)
  | push (value : α)
  | pop
  | remove (offset : Nat)
  | write (offset : Nat) (write : α → α)
  | visit (visit : List α → α → α)
  | clear

def perform (q : Queue α n) : Operation α → Queue α n
  | .push value => (q.pushDropOldest value).2
  | .pop => q.pop.2
  | .remove offset => (q.remove offset).2
  | .write offset write => (q.getMut offset write).2
  | .visit visit => q.iterMut visit
  | .clear => q.clear

/-! ### The ring -/

def ofRing (r : Ring α n) : Queue α n := ⟨r.entries, r.head, r.len⟩

/-- The head is a place of the array, if there is any. -/
def Placed (r : Ring α n) : Prop := 0 < n → r.head < n

variable {r : Ring α n}

theorem iter_ofRing (r : Ring α n) : (ofRing r).iter = r.toList := by
  unfold iter Ring.toList
  apply List.filterMap_congr
  intro offset hoffset
  have hlt : offset < r.len := List.mem_range.mp hoffset
  have hle := r.len_le
  change r.entries.at? ((r.head + offset) % max n 1) = r.read offset
  rw [max_eq_left (by omega), Ring.read]

theorem pushDropOldest_ofRing (h : Placed r) (value : α) :
    (ofRing r).pushDropOldest value =
      ((r.pushDropOldest value).1, ofRing (r.pushDropOldest value).2) ∧
    Placed (r.pushDropOldest value).2 := by
  unfold pushDropOldest Ring.pushDropOldest
  by_cases hn : n = 0
  · rw [if_pos hn, dif_pos hn]
    exact ⟨rfl, h⟩
  rw [if_neg hn, dif_neg hn]
  have hpos : 0 < n := Nat.pos_of_ne_zero hn
  by_cases hfull : r.len = n
  · rw [if_pos (show (ofRing r).len = n from hfull), dif_pos hfull]
    refine ⟨?_, fun _ => Nat.mod_lt _ hpos⟩
    simp only [ofRing, Nat.mod_eq_of_lt (h hpos)]
  · rw [if_neg (show ¬ (ofRing r).len = n from hfull), dif_neg hfull]
    exact ⟨rfl, h⟩

theorem pop_ofRing (h : Placed r) :
    (ofRing r).pop = (r.pop.1, ofRing r.pop.2) ∧ Placed r.pop.2 := by
  have hle := r.len_le
  unfold pop Ring.pop
  by_cases hempty : r.len = 0
  · rw [if_pos (show (ofRing r).len = 0 ∨ n = 0 from .inl hempty), dif_neg (by omega)]
    exact ⟨rfl, h⟩
  · have hpos : 0 < n := by omega
    have hhead := Nat.mod_eq_of_lt (h hpos)
    have hstored : ¬ ((ofRing r).len = 0 ∨ n = 0) := by
      change ¬ (r.len = 0 ∨ n = 0)
      omega
    rw [if_neg hstored, dif_pos (by omega)]
    refine ⟨?_, fun _ => Nat.mod_lt _ hpos⟩
    simp only [ofRing, hhead, Ring.read, Nat.add_zero]

theorem peek_ofRing (h : Placed r) : (ofRing r).peek = r.toList.head? := by
  rw [← Ring.pop_fst, ← congrArg Prod.fst (pop_ofRing h).1]
  unfold peek pop
  split <;> rfl

theorem outside_iff {offset : Nat} :
    offset ≥ (ofRing r).len ∨ n = 0 ↔ ¬ offset < r.len := by
  have hle := r.len_le
  change offset ≥ r.len ∨ n = 0 ↔ _
  omega

theorem remove_ofRing (h : Placed r) (offset : Nat) :
    (ofRing r).remove offset = ((r.remove offset).1, ofRing (r.remove offset).2) ∧
    Placed (r.remove offset).2 := by
  unfold remove Ring.remove
  by_cases hlt : offset < r.len
  · rw [if_neg fun hout => outside_iff.mp hout hlt, dif_pos hlt]
    exact ⟨rfl, h⟩
  · rw [if_pos (outside_iff.mpr hlt), dif_neg hlt]
    exact ⟨rfl, h⟩

theorem getMut_ofRing (h : Placed r) (offset : Nat) (write : α → α) :
    (ofRing r).getMut offset write = (r.toList[offset]?, ofRing (r.modifyAt offset write)) ∧
    Placed (r.modifyAt offset write) := by
  unfold getMut Ring.modifyAt
  by_cases hlt : offset < r.len
  · rw [if_neg fun hout => outside_iff.mp hout hlt, dif_pos hlt, Ring.getElem?_toList r hlt]
    exact ⟨rfl, h⟩
  · rw [if_pos (outside_iff.mpr hlt), dif_neg hlt, List.getElem?_eq_none (by simpa using hlt)]
    exact ⟨rfl, h⟩

/-- Rewriting a list from its front on, as `visitPlaces` does. -/
def visitEntries (visit : List α → α → α) : List α → List α → List α
  | _, [] => []
  | seen, e :: entries => visit seen e :: visitEntries visit (seen ++ [e]) entries

theorem reduceOption_visitPlaces (visit : List α → α → α) (seen : List α)
    (places : List (Option α)) :
    (visitPlaces visit seen places).reduceOption = visitEntries visit seen places.reduceOption := by
  induction places generalizing seen with
  | nil => rfl
  | cons place places ih =>
      cases place with
      | none => simpa [visitPlaces] using ih seen
      | some e => simpa [visitPlaces, visitEntries] using ih (seen ++ [e])

theorem iterMut_ofRing (r : Ring α n) (visit : List α → α → α) :
    ∃ r' : Ring α n, (ofRing r).iterMut visit = ofRing r' ∧ r'.head = r.head ∧
      r'.toList.rotate r.turn = visitEntries visit [] (r.toList.rotate r.turn) := by
  let stored := (ofRing r).iterMut visit
  have hsome : stored.entries.toList.map Option.isSome = r.entries.toList.map Option.isSome :=
    map_isSome_visitPlaces visit [] r.entries.toList
  refine ⟨r.withEntries stored.entries hsome, rfl, rfl, ?_⟩
  rw [← Ring.reduceOption_entries, ← r.turn_withEntries hsome, ← Ring.reduceOption_entries]
  exact reduceOption_visitPlaces visit [] r.entries.toList

def Stored (q : Queue α n) : Prop := ∃ r : Ring α n, q = ofRing r ∧ Placed r

theorem stored_empty : (⟨Slots.empty, 0, 0⟩ : Queue α n).Stored := ⟨.empty, rfl, id⟩

theorem Stored.perform {q : Queue α n} (h : q.Stored) (op : Operation α) :
    (q.perform op).Stored := by
  obtain ⟨r, rfl, hplaced⟩ := h
  cases op with
  | push value =>
      obtain ⟨heq, hplaced'⟩ := pushDropOldest_ofRing hplaced value
      exact ⟨_, congrArg Prod.snd heq, hplaced'⟩
  | pop =>
      obtain ⟨heq, hplaced'⟩ := pop_ofRing hplaced
      exact ⟨_, congrArg Prod.snd heq, hplaced'⟩
  | remove offset =>
      obtain ⟨heq, hplaced'⟩ := remove_ofRing hplaced offset
      exact ⟨_, congrArg Prod.snd heq, hplaced'⟩
  | write offset write =>
      obtain ⟨heq, hplaced'⟩ := getMut_ofRing hplaced offset write
      exact ⟨_, congrArg Prod.snd heq, hplaced'⟩
  | visit visit =>
      obtain ⟨r', heq, hhead, _⟩ := iterMut_ofRing r visit
      exact ⟨r', heq, fun hpos => hhead ▸ hplaced hpos⟩
  | clear => exact stored_empty

theorem stored_of_run (ops : List (Operation α)) :
    (ops.foldl perform (new : Queue α n)).Stored := by
  induction ops using List.reverseRecOn with
  | nil => exact stored_empty
  | append_singleton ops op ih =>
      rw [List.foldl_append]
      exact ih.perform op

/-! ### The list -/

/-- The entries sit in the places from the head on, all the way round, and nowhere else. -/
structure Layout (q : Queue α n) : Prop where
  occupied : ∀ place : Fin n,
    (q.entries.get place).isSome = true ↔ ∃ i < q.len, place.val = (q.head + i) % n
  listed : ∀ i < q.len, q.iter[i]? = q.entries.at? ((q.head + i) % n)
  length : q.iter.length = q.len
  len_le : q.len ≤ n

/-- What each operation does to the list of entries. Rewriting all of them meets each once, in the
order of the places. -/
structure ActsOnList (q : Queue α n) : Prop where
  push : ∀ value, (q.pushDropOldest value).2.iter =
    if n = 0 then [] else if q.iter.length = n then q.iter.tail ++ [value] else q.iter ++ [value]
  evicts : ∀ value, (q.pushDropOldest value).1 = true ↔ q.iter.length = n ∧ 0 < n
  pop : q.pop.1 = q.iter.head? ∧ q.pop.2.iter = q.iter.tail
  peek : q.peek = q.iter.head?
  remove : ∀ k, (q.remove k).1 = q.iter[k]? ∧ (q.remove k).2.iter = q.iter.eraseIdx k
  write : ∀ k write, (q.getMut k write).1 = q.iter[k]? ∧
    (q.getMut k write).2.iter = q.iter.modify k write
  visit : ∃ turn, q.places = q.iter.rotate turn ∧
    ∀ visit, (q.iterMut visit).iter.rotate turn = visitEntries visit [] q.places
  clear : q.clear.iter = []

theorem Stored.layout {q : Queue α n} (h : q.Stored) : q.Layout := by
  obtain ⟨r, rfl, _⟩ := h
  have hle := r.len_le
  have hat (place : Fin n) : r.entries.at? place.val = r.entries.get place := dif_pos place.isLt
  constructor
  · intro place
    change (r.entries.get place).isSome = true ↔ ∃ i < r.len, place.val = (r.head + i) % n
    rw [← hat]
    constructor
    · intro hsome
      obtain ⟨p, hp, hplace⟩ := @ring_index_surj n r.head place.val place.isLt
      rw [← hplace, r.occupied p hp, decide_eq_true_eq] at hsome
      exact ⟨p, hsome, hplace.symm⟩
    · rintro ⟨i, hi, hplace⟩
      rw [hplace, r.occupied i (by omega), decide_eq_true_eq]
      exact hi
  · intro i hi
    rw [iter_ofRing]
    exact r.getElem?_toList hi
  · rw [iter_ofRing]
    exact r.length_toList
  · exact hle

theorem Stored.actsOnList {q : Queue α n} (h : q.Stored) : q.ActsOnList := by
  obtain ⟨r, rfl, hplaced⟩ := h
  have hlen := r.length_toList
  have hle := r.len_le
  have hpush (value : α) : ((r.pushDropOldest value).1 = true ↔ r.len = n ∧ 0 < n) ∧
      (r.pushDropOldest value).2.toList = if n = 0 then [] else
        if r.len = n then r.toList.tail ++ [value] else r.toList ++ [value] := by
    by_cases hn : n = 0
    · have hnil : r.toList = [] := List.length_eq_zero_iff.mp (by omega)
      rw [Ring.pushDropOldest, dif_pos hn, if_pos hn, hnil]
      simp [hn]
    by_cases hfull : r.len = n
    · obtain ⟨hlost, hlist⟩ := r.pushDropOldest_full value hfull hn
      rw [hlost, hlist, if_neg hn, if_pos hfull]
      simp [hfull, Nat.pos_of_ne_zero hn]
    · obtain ⟨hkept, hlist⟩ := r.pushDropOldest_of_lt value (by omega)
      rw [hkept, hlist, if_neg hn, if_neg hfull]
      simp [hfull]
  constructor
  · intro value
    rw [(pushDropOldest_ofRing hplaced value).1, iter_ofRing, iter_ofRing, hlen]
    exact (hpush value).2
  · intro value
    rw [(pushDropOldest_ofRing hplaced value).1, iter_ofRing, hlen]
    exact (hpush value).1
  · rw [(pop_ofRing hplaced).1, iter_ofRing, iter_ofRing]
    exact ⟨r.pop_fst, r.toList_pop⟩
  · rw [iter_ofRing]
    exact peek_ofRing hplaced
  · intro k
    rw [(remove_ofRing hplaced k).1, iter_ofRing, iter_ofRing]
    exact ⟨r.remove_fst k, r.toList_remove k⟩
  · intro k write
    rw [(getMut_ofRing hplaced k write).1, iter_ofRing, iter_ofRing]
    exact ⟨rfl, r.toList_modifyAt k write⟩
  · have hplaces : (ofRing r).places = r.toList.rotate r.turn := r.reduceOption_entries
    refine ⟨r.turn, by rw [hplaces, iter_ofRing], fun visit => ?_⟩
    obtain ⟨r', heq, _, hvisited⟩ := iterMut_ofRing r visit
    rw [heq, iter_ofRing, hplaces, hvisited]
  · rfl

/-- From an empty queue on, and whatever is done to it, the storage is a list of at most as many
entries as there are places, and every operation does to the list what it says. Without places the
list stays empty. -/
theorem refines_list (ops : List (Operation α)) :
    let q : Queue α n := ops.foldl perform new
    q.Layout ∧ q.ActsOnList ∧
      (n = 0 → q.iter = [] ∧ ∀ op, (q.perform op).len = 0 ∧ (q.perform op).iter = []) := by
  have hstored := stored_of_run (n := n) ops
  refine ⟨hstored.layout, hstored.actsOnList, fun hn => ?_⟩
  have hempty {q : Queue α n} (h : q.Stored) : q.len = 0 ∧ q.iter = [] := by
    have hlayout := h.layout
    have hzero : q.len = 0 := by
      have := hlayout.len_le
      omega
    exact ⟨hzero, List.length_eq_zero_iff.mp (hlayout.length.trans hzero)⟩
  exact ⟨(hempty hstored).2, fun op => hempty (hstored.perform op)⟩

/-- A queue that has gone round the end of its array. -/
example : let q : Queue Nat 3 := [.push 1, .push 2, .push 3, .push 4].foldl perform new
    q.iter = [2, 3, 4] ∧ q.places = [4, 2, 3] ∧ (q.remove 1).2.iter = [2, 4] := by decide

end Queue

end ReticulumLite
