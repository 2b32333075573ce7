import ReticulumLite.Base.Bytes
import ReticulumLite.Base.Ring

/-!
# Messages already seen

A ring of the ids of messages, each once, in the order in which they were new. A new id takes the
place of the oldest when the ring is full; one that is not new changes nothing. What is retained is
the last of the ids accepted, as many as fit.
-/

namespace ReticulumLite

open Bounded

structure SeenMessages (n : Nat) where
  ids : List.Vector (Bytes 32) n
  head : Nat
  len : Nat

namespace SeenMessages

variable {n : Nat}

def new : SeenMessages n := ⟨List.Vector.replicate n Bytes.zero, 0, 0⟩

/-- The id as many places after the head. Nothing is read where there are no places. -/
def idAt (s : SeenMessages n) (i : Nat) : Bytes 32 :=
  s.ids.toList.getD ((s.head + i) % n) Bytes.zero

def contains (s : SeenMessages n) (id : Bytes 32) : Bool :=
  (List.range s.len).any fun i => decide (s.idAt i = id)

def setId (s : SeenMessages n) (place : Nat) (id : Bytes 32) : List.Vector (Bytes 32) n :=
  ⟨s.ids.toList.set place id, by simp⟩

/-- The answer is whether the id was new. Without places every id is. -/
def insertIfNew (s : SeenMessages n) (id : Bytes 32) : SeenMessages n × Bool :=
  if s.contains id then (s, false)
  else if n = 0 then (s, true)
  else if s.len = n then
    ({ s with ids := s.setId s.head id, head := (s.head + 1) % n }, true)
  else
    ({ s with ids := s.setId ((s.head + s.len) % n) id, len := s.len + 1 }, true)

def retained (s : SeenMessages n) : List (Bytes 32) := (List.range s.len).map s.idAt

/-- The length fits, and the head is a place if there is any. -/
structure Placed (s : SeenMessages n) : Prop where
  len_le : s.len ≤ n
  head_lt : 0 < n → s.head < n

variable {s : SeenMessages n} {id : Bytes 32}

theorem contains_iff : s.contains id = true ↔ id ∈ s.retained := by
  simp [contains, retained]

theorem insertIfNew_snd : (s.insertIfNew id).2 = false ↔ id ∈ s.retained := by
  rw [← contains_iff]
  unfold insertIfNew
  split_ifs with hseen <;> simp [hseen]

theorem insertIfNew_of_mem (h : id ∈ s.retained) : s.insertIfNew id = (s, false) :=
  if_pos (contains_iff.mpr h)

/-! ### One call -/

theorem getD_setId (s : SeenMessages n) {place : Nat} (hplace : place < n) (id : Bytes 32)
    (k : Nat) : (s.setId place id).toList.getD k Bytes.zero =
      if k = place then id else s.ids.toList.getD k Bytes.zero := by
  change (s.ids.toList.set place id).getD k Bytes.zero = _
  rw [List.getD_eq_getElem?_getD, List.getElem?_set, List.Vector.toList_length]
  by_cases h : place = k
  · rw [if_pos h, if_pos (h ▸ hplace), if_pos h.symm]
    rfl
  · rw [if_neg h, if_neg (Ne.symm h), List.getD_eq_getElem?_getD]

theorem retained_append (s : SeenMessages n) (id : Bytes 32) :
    s.retained ++ [id] =
      (List.range (s.len + 1)).map fun i => if i < s.len then s.idAt i else id := by
  rw [List.range_succ, List.map_append, List.map_singleton, if_neg (lt_irrefl _)]
  congr 1
  apply List.map_congr_left
  intro i hi
  rw [if_pos (List.mem_range.mp hi)]

theorem retained_insertIfNew (h : s.Placed) (hnew : id ∉ s.retained) :
    (s.insertIfNew id).1.retained = (s.retained ++ [id]).drop (s.len + 1 - n) ∧
      (s.insertIfNew id).1.Placed := by
  have hle := h.len_le
  unfold insertIfNew
  rw [if_neg (fun hseen => hnew (contains_iff.mp hseen))]
  by_cases hn : n = 0
  · have hzero : s.len = 0 := by omega
    rw [if_pos hn]
    exact ⟨by simp [retained, hzero, hn], h⟩
  have hpos : 0 < n := Nat.pos_of_ne_zero hn
  have hhead := h.head_lt hpos
  rw [if_neg hn, retained_append]
  by_cases hfull : s.len = n
  · rw [if_pos hfull]
    refine ⟨?_, hle, fun _ => Nat.mod_lt _ hpos⟩
    rw [hfull, Nat.add_sub_cancel_left, List.range_succ_eq_map, List.map_cons, List.drop_one,
      List.tail_cons, List.map_map]
    change (List.range n).map _ = _
    apply List.map_congr_left
    intro i hi
    have hi : i < n := List.mem_range.mp hi
    change (s.setId s.head id).toList.getD (((s.head + 1) % n + i) % n) Bytes.zero =
      if i + 1 < n then s.idAt (i + 1) else id
    rw [getD_setId s hhead, ring_index_next]
    -- going once round leads back to the head
    by_cases hlast : i + 1 < n
    · have hne := @ring_index_ne n s.head i hlast
      rw [Nat.mod_eq_of_lt hhead] at hne
      rw [if_neg hne, if_pos hlast]
      rfl
    · rw [if_neg hlast, show i + 1 = n by omega, Nat.add_mod_right, Nat.mod_eq_of_lt hhead,
        if_pos rfl]
  · have hlt : s.len < n := Nat.lt_of_le_of_ne hle hfull
    rw [if_neg hfull, show s.len + 1 - n = 0 by omega, List.drop_zero]
    refine ⟨?_, hlt, h.head_lt⟩
    apply List.map_congr_left
    intro i hi
    have hi : i < s.len + 1 := List.mem_range.mp hi
    change (s.setId ((s.head + s.len) % n) id).toList.getD ((s.head + i) % n) Bytes.zero = _
    rw [getD_setId s (Nat.mod_lt _ hpos)]
    by_cases hi' : i < s.len
    · have hne : (s.head + i) % n ≠ (s.head + s.len) % n :=
        fun heq => hi'.ne (ring_index_inj (by omega) hlt heq)
      rw [if_neg hne, if_pos hi']
      rfl
    · rw [if_neg hi', show i = s.len by omega, if_pos rfl]

/-! ### Any number of calls -/

def insertAll (s : SeenMessages n) (calls : List (Bytes 32)) : SeenMessages n :=
  calls.foldl (fun s id => (s.insertIfNew id).1) s

/-- The ids that were new, in the order of the calls. -/
def accepted (s : SeenMessages n) : List (Bytes 32) → List (Bytes 32)
  | [] => []
  | id :: calls =>
      if (s.insertIfNew id).2 then id :: (s.insertIfNew id).1.accepted calls
      else (s.insertIfNew id).1.accepted calls

/-- The ids retained are the last of those accepted, and no two of them are the same. -/
structure Holds (s : SeenMessages n) (ids : List (Bytes 32)) : Prop extends s.Placed where
  retained : s.retained = ids.drop (ids.length - n)
  nodup : s.retained.Nodup

variable {ids : List (Bytes 32)}

theorem Holds.len_eq (h : s.Holds ids) : s.len = min n ids.length := by
  have hlen := congrArg List.length h.retained
  simp only [SeenMessages.retained, List.length_map, List.length_range, List.length_drop] at hlen
  omega

theorem holds_new : (new : SeenMessages n).Holds [] :=
  ⟨⟨Nat.zero_le _, id⟩, List.drop_nil.symm, List.nodup_nil⟩

theorem Holds.insertIfNew (h : s.Holds ids) (id : Bytes 32) :
    (s.insertIfNew id).1.Holds (if (s.insertIfNew id).2 then ids ++ [id] else ids) := by
  by_cases hmem : id ∈ s.retained
  · rw [insertIfNew_of_mem hmem]
    exact h
  · obtain ⟨hretained, hplaced⟩ := retained_insertIfNew h.toPlaced hmem
    have hnew : (s.insertIfNew id).2 = true := by
      rw [← Bool.not_eq_false]
      exact fun hfalse => hmem (insertIfNew_snd.mp hfalse)
    have hnodup : (s.retained ++ [id]).Nodup := by
      rw [List.nodup_append]
      refine ⟨h.nodup, List.nodup_singleton id, fun a ha b hb heq => hmem ?_⟩
      rwa [← List.mem_singleton.mp hb, ← heq]
    have hlen := h.len_eq
    rw [if_pos hnew]
    refine ⟨hplaced, ?_, hretained ▸ hnodup.sublist (List.drop_sublist _ _)⟩
    rw [hretained, h.retained, List.length_append, List.length_singleton,
      ← List.drop_append_of_le_length (Nat.sub_le _ _), List.drop_drop]
    congr 1
    omega

theorem Holds.insertAll (h : s.Holds ids) (calls : List (Bytes 32)) :
    (s.insertAll calls).Holds (ids ++ s.accepted calls) := by
  induction calls generalizing s ids with
  | nil =>
      rw [accepted, List.append_nil]
      exact h
  | cons id calls ih =>
      have hrest := ih (h.insertIfNew id)
      rw [accepted]
      split at hrest
      · rename_i hnew
        rwa [if_pos hnew, List.append_cons]
      · rename_i hold
        rwa [if_neg hold]

/-- What is retained is the last of the ids accepted, as many as fit, each once and in the order of
their acceptance. An id is refused exactly while it is retained, which changes nothing. One that was
accepted is retained until as many others have been accepted as there are places, and then only if
it is accepted again. -/
theorem refines_fifo (calls : List (Bytes 32)) :
    let s : SeenMessages n := new.insertAll calls
    let ids := (new : SeenMessages n).accepted calls
    s.retained = ids.drop (ids.length - n) ∧ s.retained.length = min n ids.length ∧
      s.retained.Nodup ∧
      (∀ id, s.contains id = true ↔ id ∈ s.retained) ∧
      (∀ id, (s.insertIfNew id).2 = false ↔ id ∈ s.retained) ∧
      (∀ id ∈ s.retained, (s.insertIfNew id).1 = s) ∧
      ∀ id, (s.insertIfNew id).2 = true → ∀ later,
        let t := (s.insertIfNew id).1
        let others := t.accepted later
        ((t.insertAll later).contains id = true ↔
          others.length < n ∨ id ∈ others.drop (others.length - n)) ∧
        (others.length < n → id ∉ others) := by
  have hholds : ((new : SeenMessages n).insertAll calls).Holds (new.accepted calls) :=
    holds_new.insertAll calls
  generalize (new : SeenMessages n).insertAll calls = s at hholds
  generalize (new : SeenMessages n).accepted calls = ids at hholds
  have hlength : s.retained.length = s.len := by simp [retained]
  refine ⟨hholds.retained, hlength.trans hholds.len_eq, hholds.nodup, fun id => contains_iff,
    fun id => insertIfNew_snd, fun id hmem => by rw [insertIfNew_of_mem hmem], ?_⟩
  intro id hnew later
  have hnext := hholds.insertIfNew id
  rw [if_pos hnew] at hnext
  have hlater := hnext.insertAll later
  dsimp only
  generalize (s.insertIfNew id).1.accepted later = others at hlater
  have hretained := hlater.retained
  have hnodup := hlater.nodup
  rw [List.append_assoc, List.singleton_append] at hretained
  rw [hretained] at hnodup
  rw [contains_iff, hretained]
  have hlen : (ids ++ id :: others).length = ids.length + 1 + others.length := by
    rw [List.length_append, List.length_cons]
    omega
  by_cases hfew : others.length < n
  · have hdrop : (ids ++ id :: others).drop ((ids ++ id :: others).length - n) =
        ids.drop ((ids ++ id :: others).length - n) ++ id :: others :=
      List.drop_append_of_le_length (by omega)
    rw [hdrop] at hnodup ⊢
    refine ⟨⟨fun _ => .inl hfew, fun _ => ?_⟩, fun _ => ?_⟩
    · exact List.mem_append_right _ List.mem_cons_self
    · exact (List.nodup_cons.mp (List.nodup_append.mp hnodup).2.1).1
  · have hdrop : (ids ++ id :: others).drop ((ids ++ id :: others).length - n) =
        others.drop (others.length - n) := by
      have hsplit : (ids ++ id :: others).length - n =
          (ids ++ [id]).length + (others.length - n) := by
        rw [hlen, List.length_append, List.length_singleton]
        omega
      rw [hsplit, List.append_cons ids id others, List.drop_length_add_append]
    rw [hdrop]
    exact ⟨⟨.inr, fun h => h.resolve_left hfew⟩, fun h => absurd h hfew⟩

/-- With two places, the first of three ids is forgotten and may then be new again. -/
example : let id (b : UInt8) : Bytes 32 := List.Vector.replicate 32 b
    let s : SeenMessages 2 := new.insertAll [id 1, id 2, id 1, id 3]
    s.retained = [id 2, id 3] ∧ (s.insertIfNew (id 1)).2 = true := by decide

end SeenMessages

end ReticulumLite
