import Mathlib.Data.List.Perm.Subperm
import ReticulumLite.Resource.Advertisement

/-!
# What an advertisement may look like

The map of an advertisement: a number has one of five widths, a string has a length of one or two
bytes, and the eleven entries stand in any order. The reader accepts exactly these maps, and what it
makes of one depends on the values alone.
-/

namespace ReticulumLite

open Bounded

inductive AdvValue
  | uint (v : UInt32)
  | bin (data : List UInt8)
  | nil

inductive UintForm : List UInt8 → UInt32 → Prop
  | fix {b : UInt8} (h : b ≤ 0x7F) : UintForm [b] b.toUInt32
  | uint8 (b : UInt8) : UintForm [0xCC, b] b.toUInt32
  | uint16 {s : List UInt8} (hlen : s.length = 2) : UintForm (0xCD :: s) (UInt32.ofNat (beNat s))
  | uint32 {s : List UInt8} (hlen : s.length = 4) : UintForm (0xCE :: s) (UInt32.ofNat (beNat s))
  | uint64 {s : List UInt8} (hlen : s.length = 8) (h : beNat s < 2 ^ 32) :
      UintForm (0xCF :: s) (UInt32.ofNat (beNat s))

inductive BinForm : List UInt8 → List UInt8 → Prop
  | bin8 {n : UInt8} {data : List UInt8} (hlen : data.length = n.toNat) :
      BinForm (0xC4 :: n :: data) data
  | bin16 {s data : List UInt8} (hs : s.length = 2) (hlen : data.length = beNat s) :
      BinForm (0xC5 :: (s ++ data)) data

namespace AdvValue

inductive Form : AdvValue → List UInt8 → Prop
  | uint {v : UInt32} {bytes : List UInt8} (h : UintForm bytes v) : Form (.uint v) bytes
  | bin {data bytes : List UInt8} (h : BinForm bytes data) : Form (.bin data) bytes
  | nil : Form .nil [0xC0]

def number : AdvValue → UInt32
  | .uint v => v
  | _ => 0

def bytes : AdvValue → List UInt8
  | .bin data => data
  | _ => []

end AdvValue

/-- The values that a key may have. A long hashmap is among them. -/
def AdvKey.Admits (key : AdvKey) (value : AdvValue) : Prop :=
  match key with
  | .t | .d | .n | .i | .l => ∃ v, value = .uint v
  | .h | .o => ∃ data, value = .bin data ∧ data.length = 32
  | .r => ∃ data, value = .bin data ∧ data.length = randomHashSize
  | .q => value = .nil ∨ ∃ data, value = .bin data ∧ data.length ≤ requestIdMax
  | .f => ∃ v, value = .uint v ∧ v ≤ 0xFF
  | .m => ∃ data, value = .bin data ∧ data.length % maphashLen = 0

namespace ResourceAdv

def keyOrder : List AdvKey := [.t, .d, .n, .h, .r, .o, .i, .l, .q, .f, .m]

def entryForm (entry : AdvKey × List UInt8) : List UInt8 := 0xA1 :: entry.1.toByte :: entry.2

/-- Entries of a map with the given values, each a key with a form of its value. -/
def Entries (values : AdvKey → AdvValue) (entries : List (AdvKey × List UInt8)) : Prop :=
  ∀ e ∈ entries, e.1.Admits (values e.1) ∧ (values e.1).Form e.2

/-- A string that begins with a map of the given values. -/
def Advertises (values : AdvKey → AdvValue) (data : List UInt8) : Prop :=
  ∃ entries rest, (entries.map Prod.fst).Perm keyOrder ∧ Entries values entries ∧
    data = 0x8B :: (entries.flatMap entryForm ++ rest)

def ofValues (values : AdvKey → AdvValue) : ResourceAdv where
  transferSize := (values .t).number
  dataSize := (values .d).number
  numParts := (values .n).number
  resourceHash := Bytes.slice 32 (values .h).bytes 0
  randomHash := Bytes.slice 4 (values .r).bytes 0
  originalHash := Bytes.slice 32 (values .o).bytes 0
  segmentIndex := (values .i).number
  totalSegments := (values .l).number
  requestIdLen := (values .q).bytes.length
  requestId := Bytes.slice 32 (values .q).bytes 0
  flags := .fromByte (values .f).number.toUInt8
  hashmapLen := (values .m).bytes.length
  hashmap := if (values .m).bytes.length ≤ maxParts * maphashLen then
    Bytes.slice 32 (values .m).bytes 0 else Bytes.zero

end ResourceAdv

/-! ### Numbers and strings -/

namespace MpReader

variable {data rest s : List UInt8}

theorem byte_eq_ok {b : UInt8} : byte data = .ok (b, rest) ↔ data = b :: rest := by
  cases data with
  | nil => simp [byte]
  | cons b' data => simp [byte]

theorem take_append {n : Nat} (h : s.length = n) (rest : List UInt8) :
    take n (s ++ rest) = .ok (s, rest) := by
  unfold take
  rw [if_neg (by rw [List.length_append]; omega), List.take_left' h, List.drop_left' h]

theorem take_eq_ok {n : Nat} : take n data = .ok (s, rest) ↔ s.length = n ∧ data = s ++ rest := by
  constructor
  · intro h
    unfold take at h
    split_ifs at h with hlen
    cases h
    exact ⟨List.length_take_of_le (not_lt.mp hlen), (List.take_append_drop n data).symm⟩
  · rintro ⟨hlen, rfl⟩
    exact take_append hlen rest

theorem uint_of_form {form : List UInt8} {v : UInt32} (h : UintForm form v) (rest : List UInt8) :
    uint (form ++ rest) = .ok (v, rest) := by
  cases h with
  | fix h =>
      simp only [uint, List.cons_append, List.nil_append, byte, ok_bind, h, if_true]
      rfl
  | uint8 b => rfl
  | uint16 hlen | uint32 hlen =>
      simp only [uint, List.cons_append, byte, ok_bind, take_append hlen]
      rfl
  | uint64 hlen h =>
      simp only [uint, List.cons_append, byte, ok_bind, take_append hlen, h, if_true]
      rfl

theorem uint_eq_ok {v : UInt32} :
    uint data = .ok (v, rest) ↔ ∃ form, UintForm form v ∧ data = form ++ rest := by
  constructor
  · intro h
    simp only [uint, bind_eq_ok, Prod.exists, byte_eq_ok] at h
    obtain ⟨b, rest₁, rfl, h⟩ := h
    split_ifs at h with hfix h8 h16 h32 h64
    · cases h
      exact ⟨[b], .fix hfix, rfl⟩
    · simp only [bind_eq_ok, Prod.exists, byte_eq_ok] at h
      obtain ⟨b', rest₂, rfl, h⟩ := h
      cases h
      exact ⟨[0xCC, b'], .uint8 b', by rw [h8]; rfl⟩
    · simp only [bind_eq_ok, Prod.exists, take_eq_ok] at h
      obtain ⟨s, rest₂, ⟨hlen, rfl⟩, h⟩ := h
      cases h
      exact ⟨0xCD :: s, .uint16 hlen, by rw [h16]; rfl⟩
    · simp only [bind_eq_ok, Prod.exists, take_eq_ok] at h
      obtain ⟨s, rest₂, ⟨hlen, rfl⟩, h⟩ := h
      cases h
      exact ⟨0xCE :: s, .uint32 hlen, by rw [h32]; rfl⟩
    · simp only [bind_eq_ok, Prod.exists, take_eq_ok] at h
      obtain ⟨s, rest₂, ⟨hlen, rfl⟩, h⟩ := h
      split_ifs at h with hfits
      cases h
      exact ⟨0xCF :: s, .uint64 hlen hfits, by rw [h64]; rfl⟩
  · rintro ⟨form, hform, rfl⟩
    exact uint_of_form hform rest

theorem bin_of_form {form : List UInt8} (h : BinForm form s) (rest : List UInt8) :
    bin (form ++ rest) = .ok (s, rest) := by
  cases h with
  | bin8 hlen =>
      simp only [bin, List.cons_append, byte, ok_bind, if_true]
      exact take_append hlen rest
  | bin16 hs hlen =>
      simp only [bin, List.cons_append, List.append_assoc, byte, ok_bind, take_append hs]
      exact take_append hlen rest

theorem bin_eq_ok : bin data = .ok (s, rest) ↔ ∃ form, BinForm form s ∧ data = form ++ rest := by
  constructor
  · intro h
    simp only [bin, bind_eq_ok, Prod.exists, byte_eq_ok] at h
    obtain ⟨b, rest₁, rfl, h⟩ := h
    split_ifs at h with h8 h16
    · simp only [bind_eq_ok, Prod.exists, byte_eq_ok, take_eq_ok] at h
      obtain ⟨n, _, rfl, hlen, rfl⟩ := h
      exact ⟨0xC4 :: n :: s, .bin8 hlen, by rw [h8]; rfl⟩
    · simp only [bind_eq_ok, Prod.exists, take_eq_ok] at h
      obtain ⟨len, _, ⟨hs, rfl⟩, hlen, rfl⟩ := h
      exact ⟨0xC5 :: (len ++ s), .bin16 hs hlen, by rw [h16, List.cons_append, List.append_assoc]⟩
  · rintro ⟨form, hform, rfl⟩
    exact bin_of_form hform rest

end MpReader

/-! ### Entries -/

namespace ResourceAdv

variable {acc acc' adv : ResourceAdv} {data rest : List UInt8} {key : AdvKey} {seen : List AdvKey}
  {values : AdvKey → AdvValue}

def take (acc adv : ResourceAdv) : AdvKey → ResourceAdv
  | .t => { acc with transferSize := adv.transferSize }
  | .d => { acc with dataSize := adv.dataSize }
  | .n => { acc with numParts := adv.numParts }
  | .h => { acc with resourceHash := adv.resourceHash }
  | .r => { acc with randomHash := adv.randomHash }
  | .o => { acc with originalHash := adv.originalHash }
  | .i => { acc with segmentIndex := adv.segmentIndex }
  | .l => { acc with totalSegments := adv.totalSegments }
  | .q => { acc with requestIdLen := adv.requestIdLen, requestId := adv.requestId }
  | .f => { acc with flags := adv.flags }
  | .m => { acc with hashmapLen := adv.hashmapLen, hashmap := adv.hashmap }

/-- The arrays of keys that were not read yet are empty. -/
def Blank (acc : ResourceAdv) (seen : List AdvKey) : Prop :=
  (.q ∉ seen → acc.requestIdLen = 0 ∧ acc.requestId = Bytes.zero) ∧
    (.m ∉ seen → acc.hashmap = Bytes.zero)

theorem blank_zero : Blank zero [] := ⟨fun _ => ⟨rfl, rfl⟩, fun _ => rfl⟩

theorem blank_take (h : acc.Blank seen) (adv : ResourceAdv) (key : AdvKey) :
    (acc.take adv key).Blank (key :: seen) := by
  constructor
  · intro hq
    obtain ⟨hne, hseen⟩ := not_or.mp (List.mem_cons.not.mp hq)
    have hacc := h.1 hseen
    cases key <;> first | exact absurd rfl hne | exact hacc
  · intro hm
    obtain ⟨hne, hseen⟩ := not_or.mp (List.mem_cons.not.mp hm)
    have hacc := h.2 hseen
    cases key <;> first | exact absurd rfl hne | exact hacc

theorem take_ofValues (acc : ResourceAdv) (values : AdvKey → AdvValue) (key : AdvKey) :
    acc.take (ofValues values) key = acc.take (ofValues fun _ => values key) key := by
  cases key <;> rfl

private theorem readNumber (g : UInt32 → ResourceAdv) :
    (∃ v rest', MpReader.uint data = .ok (v, rest') ∧ (g v, rest') = (acc', rest)) ↔
      ∃ value form, (∃ v, value = AdvValue.uint v) ∧ value.Form form ∧ data = form ++ rest ∧
        acc' = g value.number := by
  simp only [MpReader.uint_eq_ok, Prod.mk.injEq]
  constructor
  · rintro ⟨v, _, ⟨form, hform, rfl⟩, rfl, rfl⟩
    exact ⟨.uint v, form, ⟨v, rfl⟩, .uint hform, rfl, rfl⟩
  · rintro ⟨_, form, ⟨v, rfl⟩, hform, rfl, rfl⟩
    cases hform with
    | uint hform => exact ⟨v, rest, ⟨form, hform, rfl⟩, rfl, rfl⟩

private theorem readString (P : List UInt8 → Prop) (g : List UInt8 → ResourceAdv) :
    (∃ s rest', MpReader.bin data = .ok (s, rest') ∧ ∃ _ : Unit, P s ∧
        (g s, rest') = (acc', rest)) ↔
      ∃ value form, (∃ s, value = AdvValue.bin s ∧ P s) ∧ value.Form form ∧ data = form ++ rest ∧
        acc' = g value.bytes := by
  simp only [MpReader.bin_eq_ok, Prod.mk.injEq]
  constructor
  · rintro ⟨s, _, ⟨form, hform, rfl⟩, _, hs, rfl, rfl⟩
    exact ⟨.bin s, form, ⟨s, rfl, hs⟩, .bin hform, rfl, rfl⟩
  · rintro ⟨_, form, ⟨s, rfl, hs⟩, hform, rfl, rfl⟩
    cases hform with
    | bin hform => exact ⟨s, rest, ⟨form, hform, rfl⟩, (), hs, rfl, rfl⟩

private theorem slice_fill {s : List UInt8} (hlen : s.length ≤ 32) :
    Bytes.slice 32 (s ++ (Bytes.zero : Bytes 32).toList.drop s.length) 0 = Bytes.slice 32 s 0 := by
  apply Bytes.ext_toList
  have hrest : (Bytes.zero : Bytes 32).toList.drop s.length = List.replicate (32 - s.length) 0 :=
    List.drop_replicate
  rw [hrest, Bytes.toList_slice_zero (by simp; omega), Bytes.toList_slice_zero hlen]
  simp [hlen]

theorem readValue_eq_ok (hblank : acc.Blank seen) (hkey : key ∉ seen) :
    acc.readValue key data = .ok (acc', rest) ↔
      ∃ value form, key.Admits value ∧ value.Form form ∧ data = form ++ rest ∧
        acc' = acc.take (ofValues fun _ => value) key := by
  cases key with
  | t | d | n | i | l =>
      simp only [readValue, bind_eq_ok, Prod.exists, pure_eq_ok]
      exact readNumber _
  | h | r | o =>
      simp only [readValue, bind_eq_ok, Prod.exists, pure_eq_ok, refuseIf_eq_ok, ne_eq, not_not]
      exact readString _ _
  | q =>
      obtain ⟨hlen, hid⟩ := hblank.1 hkey
      have hnil : acc.take (ofValues fun _ => .nil) .q = acc := by
        unfold ResourceAdv.take
        rw [show (ofValues fun _ => .nil).requestIdLen = acc.requestIdLen from hlen.symm,
          show (ofValues fun _ => .nil).requestId = acc.requestId from hid.symm]
      unfold readValue
      split_ifs with hhead
      · obtain ⟨tail, rfl⟩ := List.head?_eq_some_iff.mp hhead
        constructor
        · intro h
          cases h
          exact ⟨.nil, [0xC0], .inl rfl, .nil, rfl, hnil.symm⟩
        · rintro ⟨_, form, rfl | ⟨s, rfl, _⟩, hform, heq, rfl⟩
          · cases hform
            cases heq
            rw [hnil]
            rfl
          · cases hform with
            | bin hform => cases hform <;> cases heq
      · simp only [bind_eq_ok, Prod.exists, MpReader.bin_eq_ok, pure_eq_ok, Prod.mk.injEq,
          refuseIf_eq_ok, not_lt]
        constructor
        · rintro ⟨s, _, ⟨form, hform, rfl⟩, _, hs, rfl, rfl⟩
          refine ⟨.bin s, form, .inr ⟨s, rfl, hs⟩, .bin hform, rfl, ?_⟩
          rw [hid, slice_fill hs]
          rfl
        · rintro ⟨_, form, rfl | ⟨s, rfl, hs⟩, hform, rfl, rfl⟩
          · cases hform
            exact absurd rfl hhead
          · cases hform with
            | bin hform =>
                refine ⟨s, rest, ⟨form, hform, rfl⟩, (), hs, ?_, rfl⟩
                rw [hid, slice_fill hs]
                rfl
  | f =>
      simp only [readValue, bind_eq_ok, Prod.exists, MpReader.uint_eq_ok, pure_eq_ok, Prod.mk.injEq,
        refuseIf_eq_ok, gt_iff_lt, UInt32.not_lt]
      constructor
      · rintro ⟨v, _, ⟨form, hform, rfl⟩, _, hv, rfl, rfl⟩
        exact ⟨.uint v, form, ⟨v, rfl, hv⟩, .uint hform, rfl, rfl⟩
      · rintro ⟨_, form, ⟨v, rfl, hv⟩, hform, rfl, rfl⟩
        cases hform with
        | uint hform => exact ⟨v, rest, ⟨form, hform, rfl⟩, (), hv, rfl, rfl⟩
  | m =>
      have hfill : ∀ s : List UInt8, (if s.length ≤ maxParts * maphashLen then
          Bytes.slice 32 (s ++ acc.hashmap.toList.drop s.length) 0 else acc.hashmap) =
          (if s.length ≤ maxParts * maphashLen then Bytes.slice 32 s 0 else Bytes.zero) := by
        intro s
        rw [hblank.2 hkey]
        split_ifs with hs
        · exact slice_fill hs
        · rfl
      simp only [readValue, hfill, bind_eq_ok, Prod.exists, pure_eq_ok, refuseIf_eq_ok, ne_eq, not_not]
      exact readString (·.length % maphashLen = 0) fun s => { acc with
        hashmap := if s.length ≤ maxParts * maphashLen then Bytes.slice 32 s 0 else Bytes.zero
        hashmapLen := s.length }

theorem rest_unique {value value' : AdvValue} {form form' rest' : List UInt8}
    (hvalue : key.Admits value) (hform : value.Form form) (hvalue' : key.Admits value')
    (hform' : value'.Form form') (heq : form ++ rest = form' ++ rest') : rest = rest' := by
  have hread := (readValue_eq_ok blank_zero List.not_mem_nil).mpr
    ⟨value, form, hvalue, hform, (rfl : form ++ rest = _), rfl⟩
  have hread' := (readValue_eq_ok blank_zero List.not_mem_nil).mpr
    ⟨value', form', hvalue', hform', (rfl : form' ++ rest' = _), rfl⟩
  rw [heq, hread'] at hread
  exact (Prod.mk.inj (Except.ok.inj hread)).2.symm

variable {entries : List (AdvKey × List UInt8)}

theorem entries_cons {e : AdvKey × List UInt8} :
    Entries values (e :: entries) ↔
      (e.1.Admits (values e.1) ∧ (values e.1).Form e.2) ∧ Entries values entries :=
  List.forall_mem_cons

variable {values' : AdvKey → AdvValue}

theorem Entries.congr (h : Entries values entries) (heq : ∀ e ∈ entries, values' e.1 = values e.1) :
    Entries values' entries := by
  intro e he
  rw [heq e he]
  exact h e he

variable {keys : List AdvKey}

theorem foldl_take_congr (heq : ∀ key ∈ keys, values' key = values key) (acc : ResourceAdv) :
    keys.foldl (fun acc key => acc.take (ofValues values') key) acc =
      keys.foldl (fun acc key => acc.take (ofValues values) key) acc := by
  apply List.foldl_ext
  intro acc key hkey
  rw [take_ofValues, heq key hkey, ← take_ofValues]

theorem Entries.rest_unique (h : Entries values entries) :
    ∀ {entries' : List (AdvKey × List UInt8)} {rest' : List UInt8}, Entries values' entries' →
      entries.length = entries'.length →
      entries.flatMap entryForm ++ rest = entries'.flatMap entryForm ++ rest' → rest = rest' := by
  induction entries with
  | nil =>
      intro entries' rest' _ hlen heq
      obtain rfl := List.length_eq_zero_iff.mp hlen.symm
      exact heq
  | cons e entries ih =>
      intro entries' rest' h' hlen heq
      obtain ⟨e', entries', rfl⟩ := List.exists_cons_of_length_eq_add_one hlen.symm
      obtain ⟨⟨hadmits, hform⟩, h⟩ := entries_cons.mp h
      obtain ⟨⟨hadmits', hform'⟩, h'⟩ := entries_cons.mp h'
      simp only [List.flatMap_cons, entryForm, List.cons_append, List.append_assoc, List.cons.injEq,
        true_and] at heq
      obtain ⟨hkey, heq⟩ := heq
      have hkey : e.1 = e'.1 := by
        have hof := AdvKey.ofByte_toByte e.1
        rw [hkey, AdvKey.ofByte_toByte] at hof
        exact (Option.some.inj hof).symm
      rw [hkey] at hadmits hform
      exact ih h h' (Nat.succ.inj hlen)
        (ResourceAdv.rest_unique hadmits hform hadmits' hform' heq)

theorem readEntries_eq_ok {n : Nat} : ∀ {seen : List AdvKey} {acc : ResourceAdv} {data : List UInt8},
    acc.Blank seen → seen.Nodup → (readEntries n seen acc data = .ok adv ↔
      ∃ values entries rest, entries.length = n ∧ (entries.map Prod.fst ++ seen).Nodup ∧
        Entries values entries ∧ data = entries.flatMap entryForm ++ rest ∧
        adv = (entries.map Prod.fst).foldl (fun acc key => acc.take (ofValues values) key) acc) := by
  induction n with
  | zero =>
      intro seen acc data _ hseen
      constructor
      · intro h
        cases h
        exact ⟨fun _ => .nil, [], data, rfl, hseen, fun _ he => absurd he List.not_mem_nil, rfl, rfl⟩
      · rintro ⟨values, entries, rest, hlen, _, _, _, rfl⟩
        obtain rfl := List.length_eq_zero_iff.mp hlen
        rfl
  | succ n ih =>
      intro seen acc data hblank hseen
      simp only [readEntries, bind_eq_ok, Prod.exists, MpReader.byte_eq_ok, okOr_eq_ok, refuseIf_eq_ok,
        not_not, ne_eq]
      constructor
      · rintro ⟨_, _, rfl, _, rfl, k, _, rfl, key, hkey, _, hfresh, acc₁, rest₁, hvalue, hrest⟩
        obtain ⟨value, form, hadmits, hform, rfl, rfl⟩ :=
          (readValue_eq_ok hblank hfresh).mp hvalue
        obtain ⟨values, entries, rest, rfl, hnodup, hentries, rfl, rfl⟩ :=
          (ih (blank_take hblank _ key) (hseen.cons hfresh)).mp hrest
        obtain rfl := AdvKey.ofByte_eq_some.mp hkey
        have hnodup' : (key :: (entries.map Prod.fst ++ seen)).Nodup :=
          List.perm_middle.nodup_iff.mp hnodup
        have hnew : ∀ k ∈ entries.map Prod.fst, Function.update values key value k = values k := by
          intro k hk
          refine Function.update_of_ne ?_ _ _
          rintro rfl
          exact (List.nodup_cons.mp hnodup').1 (List.mem_append_left _ hk)
        have hself : Function.update values key value key = value := Function.update_self ..
        have htake : acc.take (ofValues (Function.update values key value)) key =
            acc.take (ofValues fun _ => value) key := by rw [take_ofValues, hself]
        refine ⟨Function.update values key value, (key, form) :: entries, rest, rfl, hnodup',
          entries_cons.mpr ⟨?_, hentries.congr fun e he => hnew e.1 (List.mem_map_of_mem he)⟩, ?_, ?_⟩
        · rw [hself]
          exact ⟨hadmits, hform⟩
        · simp [entryForm]
        · rw [List.map_cons, List.foldl_cons, foldl_take_congr hnew, htake]
      · rintro ⟨values, entries, rest, hlen, hnodup, hentries, rfl, rfl⟩
        obtain ⟨⟨key, form⟩, entries, rfl⟩ := List.exists_cons_of_length_eq_add_one hlen
        obtain ⟨⟨hadmits, hform⟩, hentries⟩ := entries_cons.mp hentries
        have hfresh : key ∉ seen := fun hmem =>
          (List.nodup_cons.mp hnodup).1 (List.mem_append_right _ hmem)
        refine ⟨0xA1, _, rfl, (), rfl, key.toByte, _, rfl, key, AdvKey.ofByte_toByte key, (), hfresh,
          _, _, (readValue_eq_ok hblank hfresh).mpr ⟨_, form, hadmits, hform, List.append_assoc .., rfl⟩,
          ?_⟩
        refine (ih (blank_take hblank _ key) (hseen.cons hfresh)).mpr
          ⟨values, entries, rest, Nat.succ.inj hlen, List.perm_middle.nodup_iff.mpr hnodup, hentries, rfl,
            ?_⟩
        rw [List.map_cons, List.foldl_cons, take_ofValues]

/-! ### Maps -/

instance : RightCommutative fun acc key => ResourceAdv.take acc adv key where
  right_comm acc key key' := by cases key <;> cases key' <;> rfl

theorem foldl_take_of_perm (h : keys.Perm keyOrder) (acc : ResourceAdv) :
    keys.foldl (fun acc key => acc.take adv key) acc = adv := by
  rw [h.foldl_eq]
  simp only [keyOrder, List.foldl_cons, List.foldl_nil, ResourceAdv.take]

theorem perm_keyOrder_iff : keys.Perm keyOrder ↔ keys.length = 11 ∧ keys.Nodup := by
  constructor
  · intro h
    exact ⟨h.length_eq, h.nodup_iff.mpr (by decide)⟩
  · rintro ⟨hlen, hnodup⟩
    have hall : ∀ key, key ∈ keyOrder := by
      intro key
      cases key <;> decide
    exact (hnodup.subperm fun key _ => hall key).perm_of_length_le (hlen ▸ le_refl 11)

theorem parseBounded_eq_ok :
    parseBounded data = .ok adv ↔ ∃ values, Advertises values data ∧ adv = ofValues values := by
  have hhead : ∀ b : UInt8, ¬ (¬ (0x80 ≤ b ∧ b ≤ 0x8F) ∨ b &&& 0x0F ≠ 11) ↔ b = 0x8B :=
    forall_byte (by decide +kernel)
  simp only [parseBounded, bind_eq_ok, Prod.exists, MpReader.byte_eq_ok, refuseIf_eq_ok, hhead,
    readEntries_eq_ok blank_zero List.nodup_nil, List.append_nil]
  constructor
  · rintro ⟨_, _, rfl, _, rfl, values, entries, rest, hlen, hnodup, hentries, rfl, rfl⟩
    have hperm := perm_keyOrder_iff.mpr ⟨(List.length_map ..).trans hlen, hnodup⟩
    exact ⟨values, ⟨entries, rest, hperm, hentries, rfl⟩, foldl_take_of_perm hperm zero⟩
  · rintro ⟨values, ⟨entries, rest, hperm, hentries, rfl⟩, rfl⟩
    obtain ⟨hlen, hnodup⟩ := perm_keyOrder_iff.mp hperm
    exact ⟨_, _, rfl, (), rfl, values, entries, rest, (List.length_map ..).symm.trans hlen, hnodup,
      hentries, rfl, (foldl_take_of_perm hperm zero).symm⟩

theorem parse_eq_ok :
    parse data = .ok adv ↔ ∃ values, Advertises values data ∧
      (values .m).bytes.length ≤ maxParts * maphashLen ∧ adv = ofValues values := by
  simp only [parse, bind_eq_ok, refuseIf_eq_ok, pure_eq_ok, parseBounded_eq_ok]
  constructor
  · rintro ⟨_, ⟨values, hmap, rfl⟩, _, hlen, rfl⟩
    exact ⟨values, hmap, not_lt.mp hlen, rfl⟩
  · rintro ⟨values, hmap, hlen, rfl⟩
    exact ⟨_, ⟨values, hmap, rfl⟩, (), not_lt.mpr hlen, rfl⟩

theorem rejectionHash_eq_ok {hash : Bytes 32} :
    rejectionHash data = .ok hash ↔ ∃ values, Advertises values data ∧
      hash = (ofValues values).resourceHash := by
  simp only [rejectionHash, bind_eq_ok, pure_eq_ok, parseBounded_eq_ok]
  constructor
  · rintro ⟨_, ⟨values, hmap, rfl⟩, rfl⟩
    exact ⟨values, hmap, rfl⟩
  · rintro ⟨values, hmap, rfl⟩
    exact ⟨_, ⟨values, hmap, rfl⟩, rfl⟩

theorem Advertises.not_extended {more : List UInt8} (hperm : (entries.map Prod.fst).Perm keyOrder)
    (hentries : Entries values entries) (h : Advertises values' data)
    (heq : 0x8B :: entries.flatMap entryForm = data ++ more) : more = [] := by
  obtain ⟨entries', rest, hperm', hentries', rfl⟩ := h
  have hlen : entries.length = entries'.length := by
    rw [← List.length_map Prod.fst, hperm.length_eq, ← hperm'.length_eq, List.length_map]
  have hrest : [] = rest ++ more := hentries.rest_unique hentries' hlen (by simpa using heq)
  exact (List.append_eq_nil_iff.mp hrest.symm).2

end ResourceAdv

end ReticulumLite
