import Mathlib.Algebra.Order.BigOperators.Group.List
import ReticulumLite.Proof.Grammar

/-!
# Advertisements read back

Whatever is written is one string of bytes, and what is written for an advertisement is a map of its
values. So an advertisement whose arrays are empty beyond their lengths is read back as it was, and
nothing is read from a part of it.
-/

namespace ReticulumLite

open Bounded

/-! ### What is written -/

namespace MpWriter

variable {w : MpWriter}

theorem put_put (w : MpWriter) (a b : List UInt8) :
    (w.put a >>= fun w => w.put b) = w.put (a ++ b) := by
  unfold put
  by_cases ha : w.written.length + a.length > w.outLen
  · rw [if_pos ha, if_pos (by rw [List.length_append]; omega)]
    rfl
  · rw [if_neg ha, ok_bind]
    simp only [List.length_append, List.append_assoc, Nat.add_assoc]

end MpWriter

def uintBytes (v : UInt32) : List UInt8 :=
  if v < 0x80 then [v.toUInt8]
  else if v ≤ 0xFF then [0xCC, v.toUInt8]
  else if v ≤ 0xFFFF then 0xCD :: (Bytes.ofNat 2 v.toNat).toList
  else 0xCE :: (Bytes.ofNat 4 v.toNat).toList

/-- The shortest form of a string of at most 255 bytes. -/
def binBytes (data : List UInt8) : List UInt8 := 0xC4 :: UInt8.ofNat data.length :: data

namespace MpWriter

theorem uint_eq (w : MpWriter) (v : UInt32) : w.uint v = w.put (uintBytes v) := by
  unfold uint uintBytes
  split_ifs <;> rfl

theorem bin_eq (w : MpWriter) {data : List UInt8} (h : data.length ≤ 0xFF) :
    w.bin data = w.put (binBytes data) := by
  unfold bin binBytes
  rw [if_pos h, put_put]
  rfl

theorem put_written (outLen : Nat) (bytes : List UInt8) :
    ((⟨outLen, []⟩ : MpWriter).put bytes >>= fun w => pure w.written) =
      if bytes.length > outLen then .error .outputTooSmall else .ok bytes := by
  unfold put
  simp only [List.length_nil, Nat.zero_add, List.nil_append]
  split_ifs <;> rfl

end MpWriter

private theorem toUInt32_toUInt8 {v : UInt32} (h : v.toNat ≤ 0xFF) : v.toUInt8.toUInt32 = v := by
  apply UInt32.toNat_inj.mp
  rw [UInt8.toNat_toUInt32, UInt32.toNat_toUInt8]
  exact Nat.mod_eq_of_lt (by omega)

private theorem ofNat_beNat_ofNat {n : Nat} {v : UInt32} (h : v.toNat < 256 ^ n) :
    UInt32.ofNat (beNat (Bytes.ofNat n v.toNat).toList) = v := by
  rw [Bytes.beNat_ofNat, Nat.mod_eq_of_lt h, UInt32.ofNat_toNat]

theorem uintForm_uintBytes (v : UInt32) : UintForm (uintBytes v) v := by
  unfold uintBytes
  split_ifs with hsmall hbyte hshort
  · have hnat : v.toNat < 128 := hsmall
    have hle : v.toUInt8 ≤ 0x7F := by
      rw [UInt8.le_iff_toNat_le, UInt32.toNat_toUInt8]
      show v.toNat % 256 ≤ 127
      omega
    have hform := UintForm.fix hle
    rwa [toUInt32_toUInt8 (by omega)] at hform
  · have hnat : v.toNat ≤ 255 := hbyte
    have hform := UintForm.uint8 v.toUInt8
    rwa [toUInt32_toUInt8 hnat] at hform
  · have hnat : v.toNat ≤ 65535 := hshort
    have hform := UintForm.uint16 (Bytes.length_toList (Bytes.ofNat 2 v.toNat))
    rwa [ofNat_beNat_ofNat (by omega)] at hform
  · have hnat := v.toNat_lt
    have hform := UintForm.uint32 (Bytes.length_toList (Bytes.ofNat 4 v.toNat))
    rwa [ofNat_beNat_ofNat (by omega)] at hform

theorem binForm_binBytes {data : List UInt8} (h : data.length ≤ 0xFF) :
    BinForm (binBytes data) data := by
  apply BinForm.bin8
  rw [UInt8.toNat_ofNat']
  omega

/-! ### Advertisements -/

namespace ResourceAdv

/-- The arrays hold whole entries and nothing beyond their lengths. -/
structure WellFormed (adv : ResourceAdv) : Prop where
  requestIdLen : adv.requestIdLen ≤ requestIdMax
  requestId : adv.requestId.toList.drop adv.requestIdLen =
    List.replicate (requestIdMax - adv.requestIdLen) 0
  hashmapLen : adv.hashmapLen ≤ maxParts * maphashLen
  entries : adv.hashmapLen % maphashLen = 0
  hashmap : adv.hashmap.toList.drop adv.hashmapLen =
    List.replicate (maxParts * maphashLen - adv.hashmapLen) 0

def valueBytes (adv : ResourceAdv) : AdvKey → List UInt8
  | .t => uintBytes adv.transferSize
  | .d => uintBytes adv.dataSize
  | .n => uintBytes adv.numParts
  | .h => binBytes adv.resourceHash.toList
  | .r => binBytes adv.randomHash.toList
  | .o => binBytes adv.originalHash.toList
  | .i => uintBytes adv.segmentIndex
  | .l => uintBytes adv.totalSegments
  | .q => if adv.requestIdLen = 0 then [0xC0] else binBytes (adv.requestId.toList.take adv.requestIdLen)
  | .f => uintBytes adv.flags.toByte.toUInt32
  | .m => binBytes (adv.hashmap.toList.take adv.hashmapLen)

def entryBytes (adv : ResourceAdv) (key : AdvKey) : List UInt8 :=
  0xA1 :: key.toByte :: adv.valueBytes key

def packed (adv : ResourceAdv) : List UInt8 := 0x8B :: keyOrder.flatMap adv.entryBytes

private theorem bytes_le {n : Nat} (b : Bytes n) (h : n ≤ 0xFF) : b.toList.length ≤ 0xFF := by
  rwa [Bytes.length_toList]

variable {adv : ResourceAdv}

theorem pack_eq (h : adv.WellFormed) (outLen : Nat) :
    adv.pack outLen = if adv.packed.length > outLen then .error .outputTooSmall else .ok adv.packed := by
  have hrequest : (adv.requestId.toList.take adv.requestIdLen).length ≤ 0xFF := by
    simp only [List.length_take, Bytes.length_toList]
    omega
  have hmap : (adv.hashmap.toList.take adv.hashmapLen).length ≤ 0xFF := by
    simp only [List.length_take, Bytes.length_toList]
    omega
  unfold pack
  rw [refuseIf_of_not (by have := h.hashmapLen; have := h.requestIdLen; omega), ok_bind]
  by_cases hzero : adv.requestIdLen = 0
  · simp only [hzero, if_true, MpWriter.key, MpWriter.uint_eq, MpWriter.nil, MpWriter.bin_eq _ hmap,
      MpWriter.bin_eq _ (bytes_le adv.resourceHash (by decide)),
      MpWriter.bin_eq _ (bytes_le adv.randomHash (by decide)),
      MpWriter.bin_eq _ (bytes_le adv.originalHash (by decide)), ← bind_assoc, MpWriter.put_put,
      MpWriter.put_written]
    simp [packed, keyOrder, entryBytes, valueBytes, hzero]
  · simp only [hzero, if_false, MpWriter.key, MpWriter.uint_eq, MpWriter.bin_eq _ hrequest,
      MpWriter.bin_eq _ hmap, MpWriter.bin_eq _ (bytes_le adv.resourceHash (by decide)),
      MpWriter.bin_eq _ (bytes_le adv.randomHash (by decide)),
      MpWriter.bin_eq _ (bytes_le adv.originalHash (by decide)), ← bind_assoc, MpWriter.put_put,
      MpWriter.put_written]
    simp [packed, keyOrder, entryBytes, valueBytes, hzero]

def values (adv : ResourceAdv) : AdvKey → AdvValue
  | .t => .uint adv.transferSize
  | .d => .uint adv.dataSize
  | .n => .uint adv.numParts
  | .h => .bin adv.resourceHash.toList
  | .r => .bin adv.randomHash.toList
  | .o => .bin adv.originalHash.toList
  | .i => .uint adv.segmentIndex
  | .l => .uint adv.totalSegments
  | .q => if adv.requestIdLen = 0 then .nil else .bin (adv.requestId.toList.take adv.requestIdLen)
  | .f => .uint adv.flags.toByte.toUInt32
  | .m => .bin (adv.hashmap.toList.take adv.hashmapLen)

private theorem length_take_of_le (array : Bytes 32) {len : Nat} (hlen : len ≤ 32) :
    (array.toList.take len).length = len := by
  rw [List.length_take, Bytes.length_toList, Nat.min_eq_left hlen]

private theorem slice_take {array : Bytes 32} {len : Nat} (hlen : len ≤ 32)
    (hrest : array.toList.drop len = List.replicate (32 - len) 0) :
    Bytes.slice 32 (array.toList.take len) 0 = array := by
  apply Bytes.ext_toList
  have hshort := length_take_of_le array hlen
  rw [Bytes.toList_slice_zero (by omega), hshort, ← hrest, List.take_append_drop]

theorem admits_values (h : adv.WellFormed) (key : AdvKey) :
    key.Admits (adv.values key) ∧ (adv.values key).Form (adv.valueBytes key) := by
  have hrequest := length_take_of_le adv.requestId h.requestIdLen
  have hmap := length_take_of_le adv.hashmap h.hashmapLen
  have hrequestLen : adv.requestIdLen ≤ 32 := h.requestIdLen
  have hmapLen : adv.hashmapLen ≤ 32 := h.hashmapLen
  cases key with
  | t | d | n | i | l => exact ⟨⟨_, rfl⟩, .uint (uintForm_uintBytes _)⟩
  | h | r | o =>
      exact ⟨⟨_, rfl, Bytes.length_toList _⟩, .bin (binForm_binBytes (bytes_le _ (by decide)))⟩
  | q =>
      simp only [values, valueBytes]
      split_ifs
      · exact ⟨.inl rfl, .nil⟩
      · exact ⟨.inr ⟨_, rfl, hrequest.trans_le hrequestLen⟩, .bin (binForm_binBytes (by omega))⟩
  | f =>
      refine ⟨⟨_, rfl, ?_⟩, .uint (uintForm_uintBytes _)⟩
      rw [UInt32.le_iff_toNat_le, UInt8.toNat_toUInt32]
      exact Nat.le_of_lt_succ (UInt8.toNat_lt _)
  | m =>
      refine ⟨⟨_, rfl, ?_⟩, .bin (binForm_binBytes (by omega))⟩
      rw [hmap]
      exact h.entries

theorem ofValues_values (h : adv.WellFormed) : ofValues adv.values = adv := by
  have hrequestLen : adv.requestIdLen ≤ 32 := h.requestIdLen
  have hmapLen : adv.hashmapLen ≤ 32 := h.hashmapLen
  have hrequest : (adv.values .q).bytes = adv.requestId.toList.take adv.requestIdLen := by
    simp only [values]
    split_ifs with hzero
    · rw [hzero]
      rfl
    · rfl
  have hmap : (adv.values .m).bytes = adv.hashmap.toList.take adv.hashmapLen := rfl
  have hflags : ResourceFlags.fromByte adv.flags.toByte.toUInt32.toUInt8 = adv.flags := by
    rw [UInt8.toUInt8_toUInt32, ResourceFlags.fromByte_toByte]
  simp only [ofValues, hrequest, hmap, length_take_of_le _ hrequestLen, length_take_of_le _ hmapLen,
    slice_take hrequestLen h.requestId, slice_take hmapLen h.hashmap, if_pos h.hashmapLen]
  simp only [values, AdvValue.number, AdvValue.bytes, Bytes.slice_toList, hflags]

private def written (adv : ResourceAdv) : List (AdvKey × List UInt8) :=
  keyOrder.map fun key => (key, adv.valueBytes key)

private theorem keys_written (adv : ResourceAdv) : adv.written.map Prod.fst = keyOrder := rfl

private theorem packed_eq (adv : ResourceAdv) :
    adv.packed = 0x8B :: adv.written.flatMap entryForm := rfl

private theorem entries_written (h : adv.WellFormed) : Entries adv.values adv.written := by
  intro e he
  obtain ⟨key, _, rfl⟩ := List.mem_map.mp he
  exact admits_values h key

theorem parse_packed (h : adv.WellFormed) (rest : List UInt8) :
    parse (adv.packed ++ rest) = .ok adv := by
  have hlen : (adv.values .m).bytes.length ≤ maxParts * maphashLen :=
    (length_take_of_le _ h.hashmapLen).trans_le h.hashmapLen
  refine parse_eq_ok.mpr ⟨adv.values, ⟨adv.written, rest, ?_, entries_written h, rfl⟩, hlen,
    (ofValues_values h).symm⟩
  rw [keys_written]

theorem parse_of_isPrefix (h : adv.WellFormed) {data : List UInt8} (hpart : data <+: adv.packed)
    (hne : data ≠ adv.packed) (adv' : ResourceAdv) :
    parse data ≠ .ok adv' := by
  intro hparse
  obtain ⟨values', hmap, _, _⟩ := parse_eq_ok.mp hparse
  obtain ⟨more, heq⟩ := hpart
  rw [packed_eq] at heq
  obtain rfl := hmap.not_extended (keys_written adv ▸ .refl _) (entries_written h) heq.symm
  rw [List.append_nil, ← packed_eq] at heq
  exact hne heq

theorem length_uintBytes (v : UInt32) : (uintBytes v).length ≤ 5 := by
  unfold uintBytes
  split_ifs <;> simp

def valueMax : AdvKey → Nat
  | .h | .o | .q | .m => 34
  | .r => 6
  | .f => 1
  | .t | .d | .n | .i | .l => 5

theorem length_valueBytes (h : adv.WellFormed) (key : AdvKey) :
    (adv.valueBytes key).length ≤ valueMax key := by
  cases key with
  | t | d | n | i | l => exact length_uintBytes _
  | h | r | o => simp [valueBytes, valueMax, binBytes]
  | q =>
      have hlen : adv.requestIdLen ≤ 32 := h.requestIdLen
      simp only [valueBytes, valueMax]
      split_ifs
      · simp
      · simp only [binBytes, List.length_cons, List.length_take]
        omega
  | f =>
      have hsmall : adv.flags.toByte.toUInt32 < 0x80 := by
        obtain ⟨a, b, c, d, e, g⟩ := adv.flags
        revert a b c d e g
        decide
      simp [valueBytes, valueMax, uintBytes, hsmall]
  | m =>
      have hlen : adv.hashmapLen ≤ 32 := h.hashmapLen
      simp only [valueBytes, valueMax, binBytes, List.length_cons, List.length_take]
      omega

theorem length_packed (h : adv.WellFormed) : adv.packed.length ≤ advPackedMax := by
  have hentries : (keyOrder.map fun key => (adv.entryBytes key).length).sum ≤
      (keyOrder.map fun key => valueMax key + 2).sum :=
    List.sum_le_sum fun key _ => Nat.add_le_add_right (length_valueBytes h key) 2
  rw [packed, List.length_cons, List.length_flatMap]
  exact Nat.succ_le_succ (hentries.trans (by decide))

/-- The codec of advertisements. What is packed fits its buffer and is read back, and nothing is
read from a part of it. A string is read exactly if it begins with a map of the grammar, as the
advertisement with the values of the map. The hash for a refusal is read from these and from strings
whose hashmap is too long. -/
theorem advertisement_codec :
    (∀ adv : ResourceAdv, adv.WellFormed → ∃ out, adv.pack advPackedMax = .ok out ∧
      out.length ≤ 192 ∧ (∀ rest, parse (out ++ rest) = .ok adv) ∧
      ∀ data, data <+: out → data ≠ out → ∃ e, parse data = .error e) ∧
    (∀ data adv, parse data = .ok adv ↔ ∃ values, Advertises values data ∧
      (values .m).bytes.length ≤ 32 ∧ adv = ofValues values) ∧
    (∀ values data data', Advertises values data → Advertises values data' →
      parse data = parse data') ∧
    (∀ data adv, parse data = .ok adv → rejectionHash data = .ok adv.resourceHash) ∧
    ∀ data, (∃ hash, rejectionHash data = .ok hash) ↔ (∃ adv, parse data = .ok adv) ∨
      ∃ values, Advertises values data ∧ 32 < (values .m).bytes.length := by
  refine ⟨fun adv h => ?_, fun data adv => parse_eq_ok, fun values data data' h h' => ?_,
    fun data adv h => ?_, fun data => ⟨?_, ?_⟩⟩
  · have hroom : ¬ adv.packed.length > advPackedMax := not_lt.mpr (length_packed h)
    refine ⟨adv.packed, by rw [pack_eq h, if_neg hroom], length_packed h, parse_packed h, ?_⟩
    intro data hpart hne
    cases hparse : parse data with
    | error e => exact ⟨e, rfl⟩
    | ok adv' => exact absurd hparse (parse_of_isPrefix h hpart hne adv')
  · unfold parse
    rw [parseBounded_eq_ok.mpr ⟨values, h, rfl⟩, parseBounded_eq_ok.mpr ⟨values, h', rfl⟩]
  · obtain ⟨values, hmap, _, rfl⟩ := parse_eq_ok.mp h
    exact rejectionHash_eq_ok.mpr ⟨values, hmap, rfl⟩
  · rintro ⟨hash, h⟩
    obtain ⟨values, hmap, _⟩ := rejectionHash_eq_ok.mp h
    rcases Nat.lt_or_ge 32 (values .m).bytes.length with hlong | hshort
    · exact .inr ⟨values, hmap, hlong⟩
    · exact .inl ⟨_, parse_eq_ok.mpr ⟨values, hmap, hshort, rfl⟩⟩
  · rintro (⟨adv, h⟩ | ⟨values, hmap, _⟩)
    · obtain ⟨values, hmap, _⟩ := parse_eq_ok.mp h
      exact ⟨_, rejectionHash_eq_ok.mpr ⟨values, hmap, rfl⟩⟩
    · exact ⟨_, rejectionHash_eq_ok.mpr ⟨values, hmap, rfl⟩⟩

/-- Two parts, in answer to a request, with integers of every width. -/
private def sampleAdv : ResourceAdv where
  transferSize := 70000
  dataSize := 65536
  numParts := 2
  resourceHash := Bytes.ofNat 32 0x0102
  randomHash := Bytes.ofNat 4 0xa1b2c3d4
  originalHash := Bytes.ofNat 32 0x0304
  segmentIndex := 200
  totalSegments := 300
  requestIdLen := 16
  requestId := Bytes.ofNat 32 (0x101112131415161718191a1b1c1d1e1f <<< 128)
  flags := ResourceFlags.fromByte 0x11
  hashmapLen := 8
  hashmap := Bytes.ofNat 32 (0x2021222324252627 <<< 192)

theorem advertisement_codec_sampleAdv : sampleAdv.WellFormed ∧
    ∃ out, sampleAdv.pack advPackedMax = .ok out ∧ parse (out ++ [0xFF]) = .ok sampleAdv ∧
      ∃ e, parse (out.take 20) = .error e := by
  have hwf : sampleAdv.WellFormed :=
    ⟨by decide, by decide +kernel, by decide, rfl, by decide +kernel⟩
  obtain ⟨out, hpack, _, hread, hcut⟩ := advertisement_codec.1 sampleAdv hwf
  have hlong : 20 < out.length := by
    have hout : sampleAdv.pack advPackedMax = .ok sampleAdv.packed := by decide +kernel
    rw [hout] at hpack
    cases hpack
    decide +kernel
  refine ⟨hwf, out, hpack, hread [0xFF], hcut (out.take 20) (List.take_prefix ..) fun heq => ?_⟩
  have hlen := congrArg List.length heq
  rw [List.length_take] at hlen
  omega

end ResourceAdv

end ReticulumLite
