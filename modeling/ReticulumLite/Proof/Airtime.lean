import ReticulumLite.Radio
import ReticulumLite.Proof.Framing
import Mathlib.Algebra.Order.BigOperators.Group.List
import Mathlib.Data.Rat.Floor
import Mathlib.Tactic.GCongr
import Mathlib.Tactic.Linarith
import Mathlib.GroupTheory.GroupAction.Ring

/-!
# Airtime is never under-reported

The code counts symbols in hundredths, rounds the length of a symbol up to a microsecond and the
result up to a millisecond. Over the settings of a modem and the frames it can send, every value on
the way fits its word, so each rounding is the exact one and goes up.
-/

namespace ReticulumLite

open Bounded

namespace LoraModemConfig

structure Valid (m : LoraModemConfig) : Prop where
  five_le_spreading : 5 ≤ m.spreadingFactor
  spreading_le : m.spreadingFactor ≤ 12
  le_bandwidth : 7800 ≤ m.bandwidthHz
  bandwidth_lt : m.bandwidthHz < 2 ^ 32
  preamble_lt : m.preambleSymbols < 2 ^ 16

/-! ### The exact values -/

def lowDataRate (m : LoraModemConfig) : Int := if m.lowDataRateOptimize then 1 else 0

def crcBits (m : LoraModemConfig) : Int := if m.crc then 16 else 0

def implicitHeaderBits (m : LoraModemConfig) : Int := if m.explicitHeader then 0 else 20

def blockBits (m : LoraModemConfig) : Int := 4 * ((m.spreadingFactor : Int) - 2 * m.lowDataRate)

/-- The bits to be coded, which the first eight symbols may already hold. -/
def codedBits (m : LoraModemConfig) (frameLen : Nat) : Int :=
  8 * (frameLen : Int) - 4 * (m.spreadingFactor : Int) + 28 + m.crcBits - m.implicitHeaderBits

def codingRate (m : LoraModemConfig) : Nat := max 5 (min m.codingRateDenominator 8)

def codedSymbols (m : LoraModemConfig) (frameLen : Nat) : Nat :=
  (m.codedBits frameLen).toNat ⌈/⌉ m.blockBits.toNat * m.codingRate

def symbolUs (m : LoraModemConfig) : Nat := 2 ^ m.spreadingFactor * 1000000 ⌈/⌉ m.bandwidthHz

def totalSymbolsX100 (m : LoraModemConfig) (frameLen : Nat) : Nat :=
  m.preambleSymbols * 100 + 425 + (8 + m.codedSymbols frameLen) * 100

/-- The airtime by the symbol formula, in milliseconds: the preamble and its four and a quarter
symbols, eight symbols, and the coded ones. -/
def exactAirtimeMs (m : LoraModemConfig) (frameLen : Nat) : ℚ :=
  (m.preambleSymbols + 17 / 4 + 8 +
      max (⌈(m.codedBits frameLen : ℚ) / m.blockBits⌉ * m.codingRate) 0) *
    (2 ^ m.spreadingFactor / m.bandwidthHz) * 1000

/-- The values the code computes in signed words of 32 bits, in its order. -/
def signedValues (m : LoraModemConfig) (frameLen : Nat) : List Int :=
  let sf : Int := m.spreadingFactor
  [sf, 2 * m.lowDataRate, sf - 2 * m.lowDataRate, m.blockBits, frameLen, 8 * frameLen, 4 * sf,
    8 * frameLen - 4 * sf, 8 * frameLen - 4 * sf + 28, 8 * frameLen - 4 * sf + 28 + m.crcBits,
    m.codedBits frameLen]

/-- The values the code computes in words of 64 bits, in its order, the sums under the three ceilings
among them. -/
def unsignedValues (m : LoraModemConfig) (frameLen : Nat) : List Nat :=
  [2 ^ m.spreadingFactor, 2 ^ m.spreadingFactor * 1000000,
    2 ^ m.spreadingFactor * 1000000 + (m.bandwidthHz - 1), m.symbolUs,
    (m.codedBits frameLen).toNat + (m.blockBits.toNat - 1),
    (m.codedBits frameLen).toNat ⌈/⌉ m.blockBits.toNat, m.codedSymbols frameLen,
    8 + m.codedSymbols frameLen, m.preambleSymbols * 100, m.preambleSymbols * 100 + 425,
    (8 + m.codedSymbols frameLen) * 100, m.totalSymbolsX100 frameLen,
    m.totalSymbolsX100 frameLen * m.symbolUs, m.totalSymbolsX100 frameLen * m.symbolUs + 99999]

variable {m : LoraModemConfig} {frameLen : Nat}

theorem ceilDivU64_eq {n d : Nat} (hpos : 0 < d) (hword : n + (d - 1) ≤ u64Max) :
    ceilDivU64 n d = n ⌈/⌉ d := by
  unfold ceilDivU64
  rw [if_neg hpos.ne', satAdd_eq hword, Nat.ceilDiv_eq_add_pred_div, Nat.add_sub_assoc hpos]

section

variable (m)

theorem lowDataRate_cases : m.lowDataRate = 0 ∨ m.lowDataRate = 1 := by
  unfold lowDataRate
  split
  · exact Or.inr rfl
  · exact Or.inl rfl

theorem crcBits_cases : m.crcBits = 0 ∨ m.crcBits = 16 := by
  unfold crcBits
  split
  · exact Or.inr rfl
  · exact Or.inl rfl

theorem implicitHeaderBits_cases : m.implicitHeaderBits = 0 ∨ m.implicitHeaderBits = 20 := by
  unfold implicitHeaderBits
  split
  · exact Or.inl rfl
  · exact Or.inr rfl

theorem codingRate_le : m.codingRate ≤ 8 := by
  unfold codingRate
  omega

end

namespace Valid

section

variable (hvalid : m.Valid)

include hvalid

theorem blockBits_bounds : 12 ≤ m.blockBits ∧ m.blockBits ≤ 48 := by
  have hlow := hvalid.five_le_spreading
  have hhigh := hvalid.spreading_le
  have hrate := m.lowDataRate_cases
  unfold blockBits
  omega

theorem codedBits_le (hlen : frameLen ≤ 255) : m.codedBits frameLen ≤ 2064 := by
  have hlow := hvalid.five_le_spreading
  have hcrc := m.crcBits_cases
  have hheader := m.implicitHeaderBits_cases
  unfold codedBits
  omega

theorem codedBits_ge (frameLen : Nat) : -40 ≤ m.codedBits frameLen := by
  have hhigh := hvalid.spreading_le
  have hcrc := m.crcBits_cases
  have hheader := m.implicitHeaderBits_cases
  unfold codedBits
  omega

theorem blocks_le (hlen : frameLen ≤ 255) :
    (m.codedBits frameLen).toNat ⌈/⌉ m.blockBits.toNat ≤ 172 := by
  have hblock := hvalid.blockBits_bounds
  have hbits := hvalid.codedBits_le hlen
  rw [ceilDiv_le_iff_le_smul (by omega), smul_eq_mul]
  omega

theorem codedSymbols_le (hlen : frameLen ≤ 255) : m.codedSymbols frameLen ≤ 1376 :=
  Nat.mul_le_mul (hvalid.blocks_le hlen) m.codingRate_le

theorem pow_le : 2 ^ m.spreadingFactor ≤ 4096 :=
  Nat.pow_le_pow_right (n := 2) (by decide) hvalid.spreading_le

theorem symbolUs_le : m.symbolUs ≤ 525129 := by
  have hbandwidth := hvalid.le_bandwidth
  have hpow := hvalid.pow_le
  unfold symbolUs
  rw [ceilDiv_le_iff_le_smul (by omega), smul_eq_mul]
  omega

end

section

variable (hvalid : m.Valid) (hlen : frameLen ≤ 255)

include hvalid hlen

theorem totalSymbolsX100_le : m.totalSymbolsX100 frameLen ≤ 6692325 := by
  have hcoded := hvalid.codedSymbols_le hlen
  have hpreamble := hvalid.preamble_lt
  unfold totalSymbolsX100
  omega

theorem product_le : m.totalSymbolsX100 frameLen * m.symbolUs ≤ 6692325 * 525129 :=
  Nat.mul_le_mul (hvalid.totalSymbolsX100_le hlen) hvalid.symbolUs_le

theorem result_le : m.totalSymbolsX100 frameLen * m.symbolUs ⌈/⌉ 100000 ≤ 35143341 := by
  have hproduct := hvalid.product_le hlen
  rw [ceilDiv_le_iff_le_smul (by decide), smul_eq_mul]
  omega

theorem signedValues_fit : ∀ v ∈ m.signedValues frameLen, -2 ^ 31 ≤ v ∧ v < 2 ^ 31 := by
  have hlow := hvalid.five_le_spreading
  have hhigh := hvalid.spreading_le
  have hrate := m.lowDataRate_cases
  have hcrc := m.crcBits_cases
  have hblock := hvalid.blockBits_bounds
  have hge := hvalid.codedBits_ge frameLen
  have hle := hvalid.codedBits_le hlen
  unfold signedValues
  simp only [List.forall_mem_cons]
  refine ⟨?_, ?_, ?_, ?_, ?_, ?_, ?_, ?_, ?_, ?_, ?_, fun v hv => (List.not_mem_nil hv).elim⟩ <;> omega

theorem unsignedValues_fit : ∀ v ∈ m.unsignedValues frameLen, v < 2 ^ 64 := by
  have hpow := hvalid.pow_le
  have hbandwidth := hvalid.bandwidth_lt
  have hpreamble := hvalid.preamble_lt
  have hblock := hvalid.blockBits_bounds
  have hbits := hvalid.codedBits_le hlen
  have hblocks := hvalid.blocks_le hlen
  have hcoded := hvalid.codedSymbols_le hlen
  have hsymbol := hvalid.symbolUs_le
  have htotal := hvalid.totalSymbolsX100_le hlen
  have hproduct := hvalid.product_le hlen
  unfold unsignedValues
  simp only [List.forall_mem_cons]
  refine ⟨?_, ?_, ?_, ?_, ?_, ?_, ?_, ?_, ?_, ?_, ?_, ?_, ?_, ?_,
    fun v hv => (List.not_mem_nil hv).elim⟩ <;> omega

theorem frameAirtimeMs_eq :
    m.frameAirtimeMs frameLen = m.totalSymbolsX100 frameLen * m.symbolUs ⌈/⌉ 100000 := by
  have hspreading := hvalid.five_le_spreading
  have hspreading' := hvalid.spreading_le
  have hbandwidth := hvalid.le_bandwidth
  have hbandwidth' := hvalid.bandwidth_lt
  have hpow := hvalid.pow_le
  have hblock := hvalid.blockBits_bounds
  have hbits := hvalid.codedBits_le hlen
  have hproduct := hvalid.product_le hlen
  have hresult := hvalid.result_le hlen
  have hsymbol : ceilDivU64 (2 ^ min m.spreadingFactor 31 * 1000000) m.bandwidthHz = m.symbolUs := by
    rw [min_eq_left (by omega)]
    exact ceilDivU64_eq (by omega) (by unfold u64Max; omega)
  have hcoded : (if m.codedBits frameLen ≤ 0 then 0
      else ceilDivU64 (m.codedBits frameLen).toNat m.blockBits.toNat * m.codingRate) =
        m.codedSymbols frameLen := by
    unfold codedSymbols
    split
    · next hnone => rw [Int.toNat_of_nonpos hnone, zero_ceilDiv, Nat.zero_mul]
    · rw [ceilDivU64_eq (by omega) (by unfold u64Max; omega)]
  have hlast : ceilDivU64 (m.totalSymbolsX100 frameLen * m.symbolUs % 2 ^ 64) 100000 % 2 ^ 32 =
      m.totalSymbolsX100 frameLen * m.symbolUs ⌈/⌉ 100000 := by
    have hword : m.totalSymbolsX100 frameLen * m.symbolUs < 2 ^ 64 := by omega
    rw [Nat.mod_eq_of_lt hword, ceilDivU64_eq (by decide) (by unfold u64Max; omega)]
    exact Nat.mod_eq_of_lt (by omega)
  rw [← hlast]
  unfold frameAirtimeMs totalSymbolsX100
  rw [if_neg (by omega), ← hcoded, ← hsymbol]
  exact if_neg (not_le.mpr (by unfold blockBits lowDataRate at hblock; omega))

end

end Valid

/-! ### Rounding up -/

theorem codedSymbols_mono (hvalid : m.Valid) {longer : Nat} (hle : frameLen ≤ longer) :
    m.codedSymbols frameLen ≤ m.codedSymbols longer := by
  have hblock := hvalid.blockBits_bounds
  have hbits : (m.codedBits frameLen).toNat ≤ (m.codedBits longer).toNat := by
    unfold codedBits
    omega
  exact Nat.mul_le_mul_right _ ((gc_mul_ceilDiv (by omega)).monotone_l hbits)

theorem max_ceil_le (hvalid : m.Valid) (frameLen : Nat) :
    max ((⌈(m.codedBits frameLen : ℚ) / m.blockBits⌉ : ℚ) * m.codingRate) 0 ≤
      m.codedSymbols frameLen := by
  have hblock := hvalid.blockBits_bounds
  have hpos : (0 : ℚ) < m.blockBits := by exact_mod_cast (by omega : 0 < m.blockBits)
  have hcover : (m.codedBits frameLen).toNat ≤
      m.blockBits.toNat * ((m.codedBits frameLen).toNat ⌈/⌉ m.blockBits.toNat) :=
    (ceilDiv_le_iff_le_mul (by omega)).mp le_rfl
  have hcoverInt : m.codedBits frameLen ≤
      m.blockBits * ((m.codedBits frameLen).toNat ⌈/⌉ m.blockBits.toNat : Nat) := by
    calc m.codedBits frameLen ≤ (m.codedBits frameLen).toNat := Int.self_le_toNat _
      _ ≤ (m.blockBits.toNat * ((m.codedBits frameLen).toNat ⌈/⌉ m.blockBits.toNat) : Nat) := by
        exact_mod_cast hcover
      _ = m.blockBits * ((m.codedBits frameLen).toNat ⌈/⌉ m.blockBits.toNat : Nat) := by
        rw [Nat.cast_mul, Int.toNat_of_nonneg (by omega)]
  have hblocks : ⌈(m.codedBits frameLen : ℚ) / m.blockBits⌉ ≤
      ((m.codedBits frameLen).toNat ⌈/⌉ m.blockBits.toNat : Nat) := by
    rw [Int.ceil_le, div_le_iff₀ hpos, mul_comm]
    exact_mod_cast hcoverInt
  refine max_le ?_ (Nat.cast_nonneg _)
  unfold codedSymbols
  rw [Nat.cast_mul]
  exact mul_le_mul_of_nonneg_right (by exact_mod_cast hblocks) (Nat.cast_nonneg _)

theorem exactAirtimeMs_le (hvalid : m.Valid) (frameLen : Nat) :
    m.exactAirtimeMs frameLen ≤ (m.totalSymbolsX100 frameLen * m.symbolUs ⌈/⌉ 100000 : Nat) := by
  have hbandwidth : (0 : ℚ) < m.bandwidthHz := by
    have := hvalid.le_bandwidth
    exact_mod_cast (by omega : 0 < m.bandwidthHz)
  have hsymbols : (m.preambleSymbols : ℚ) + 17 / 4 + 8 +
      max (⌈(m.codedBits frameLen : ℚ) / m.blockBits⌉ * m.codingRate) 0 ≤
        m.totalSymbolsX100 frameLen / 100 := by
    have hcoded := max_ceil_le hvalid frameLen
    unfold totalSymbolsX100
    push_cast
    linarith
  have hsymbol : (2 : ℚ) ^ m.spreadingFactor / m.bandwidthHz ≤ m.symbolUs / 1000000 := by
    have hcover : 2 ^ m.spreadingFactor * 1000000 ≤ m.bandwidthHz * m.symbolUs :=
      (ceilDiv_le_iff_le_mul (by exact_mod_cast hbandwidth)).mp le_rfl
    rw [div_le_div_iff₀ hbandwidth (by norm_num), mul_comm (m.symbolUs : ℚ)]
    exact_mod_cast hcover
  have hresult : m.totalSymbolsX100 frameLen * m.symbolUs ≤
      m.totalSymbolsX100 frameLen * m.symbolUs ⌈/⌉ 100000 * 100000 := by
    rw [Nat.mul_comm _ 100000]
    exact (ceilDiv_le_iff_le_mul (by decide)).mp le_rfl
  calc m.exactAirtimeMs frameLen
      ≤ m.totalSymbolsX100 frameLen / 100 * (m.symbolUs / 1000000) * 1000 := by
        unfold exactAirtimeMs
        gcongr
    _ = (m.totalSymbolsX100 frameLen * m.symbolUs : Nat) / 100000 := by
        push_cast
        ring
    _ ≤ (m.totalSymbolsX100 frameLen * m.symbolUs ⌈/⌉ 100000 : Nat) := by
        rw [div_le_iff₀ (by norm_num)]
        exact_mod_cast hresult

theorem frameAirtimeMs_mono (hvalid : m.Valid) {longer : Nat} (hle : frameLen ≤ longer)
    (hlen : longer ≤ 255) : m.frameAirtimeMs frameLen ≤ m.frameAirtimeMs longer := by
  rw [hvalid.frameAirtimeMs_eq (hle.trans hlen), hvalid.frameAirtimeMs_eq hlen]
  refine (gc_mul_ceilDiv (by decide)).monotone_l (Nat.mul_le_mul_right _ ?_)
  have hcoded := codedSymbols_mono hvalid hle
  unfold totalSymbolsX100
  omega

theorem frameAirtimeMs_mono_preamble (hvalid : m.Valid) {longer : Nat}
    (hle : m.preambleSymbols ≤ longer) (hlonger : longer < 2 ^ 16) (hlen : frameLen ≤ 255) :
    m.frameAirtimeMs frameLen ≤
      { m with preambleSymbols := longer }.frameAirtimeMs frameLen := by
  have hvalid' : Valid { m with preambleSymbols := longer } :=
    ⟨hvalid.five_le_spreading, hvalid.spreading_le, hvalid.le_bandwidth, hvalid.bandwidth_lt, hlonger⟩
  rw [hvalid.frameAirtimeMs_eq hlen, hvalid'.frameAirtimeMs_eq hlen]
  refine (gc_mul_ceilDiv (by decide)).monotone_l (Nat.mul_le_mul_right _ ?_)
  have hcoded : { m with preambleSymbols := longer }.codedSymbols frameLen =
    m.codedSymbols frameLen := rfl
  unfold totalSymbolsX100
  rw [hcoded]
  dsimp only
  omega

/-! ### Packets -/

def framesAirtimeMs (m : LoraModemConfig) (n : Nat) (frames : LoraFrame × LoraFrame) : Nat :=
  (([frames.1, frames.2].take n).map fun frame => m.frameAirtimeMs frame.bytes.length).sum

theorem frameAirtimeMs_lt (m : LoraModemConfig) (frameLen : Nat) :
    m.frameAirtimeMs frameLen < 2 ^ 32 := by
  have hword : 0 < 2 ^ 32 := by decide
  unfold frameAirtimeMs
  by_cases hnone : m.bandwidthHz = 0 ∨ m.spreadingFactor = 0
  · rw [if_pos hnone]
    exact hword
  · rw [if_neg hnone]
    by_cases hblock : m.blockBits ≤ 0
    · exact (if_pos hblock).trans_lt hword
    · exact (if_neg hblock).trans_lt (Nat.mod_lt _ hword)

/-- Whatever the settings, a packet's airtime is that of its frames, as far as 32 bits go. -/
theorem loraTxMs_eq_min (m : LoraModemConfig) {packet : List UInt8}
    (hpacket : packet.length ≤ loraSplitFramePayloadMax) (nibble : UInt8)
    (out : LoraFrame × LoraFrame) :
    ∃ n frames, LoraFramer.encode packet nibble out = .ok (n, frames) ∧
      (∀ frame ∈ [frames.1, frames.2].take n, frame.bytes.length ≤ 255) ∧
      loraTxMs packet.length m = min (m.framesAirtimeMs n frames) (2 ^ 32 - 1) := by
  unfold loraTxMs framesAirtimeMs
  rcases Nat.lt_or_ge loraFramePayloadMax packet.length with hlong | hshort
  · obtain ⟨first, second, hfirst, hsecond, hencode⟩ :=
      LoraFramer.encode_long hlong hpacket nibble out
    refine ⟨2, (first, second), hencode, fun frame _ => frame.length_le, ?_⟩
    have hfirstLen : first.bytes.length = loraFramePayloadMax + 1 := by
      rw [hfirst, List.length_cons, List.length_take, min_eq_left hlong.le]
    have hsecondLen : second.bytes.length = packet.length - loraFramePayloadMax + 1 := by
      rw [hsecond, List.length_cons, List.length_drop]
    rw [if_neg (not_le.mpr hlong), ← hfirstLen, ← hsecondLen]
    rfl
  · obtain ⟨frame, hframe, hencode⟩ := LoraFramer.encode_short hshort nibble out
    refine ⟨1, (frame, out.2), hencode, fun frame _ => frame.length_le, ?_⟩
    have hlen : frame.bytes.length = packet.length + 1 := by rw [hframe, List.length_cons]
    have hlt := m.frameAirtimeMs_lt (packet.length + 1)
    rw [if_pos hshort, ← hlen]
    rw [← hlen] at hlt
    exact (min_eq_left (Nat.le_sub_one_of_lt hlt)).symm

theorem framesAirtimeMs_le (hvalid : m.Valid) {n : Nat} {frames : LoraFrame × LoraFrame}
    (hframes : ∀ frame ∈ [frames.1, frames.2].take n, frame.bytes.length ≤ 255) :
    m.framesAirtimeMs n frames ≤ 2 ^ 32 - 1 := by
  have hbound : ∀ airtime ∈ ([frames.1, frames.2].take n).map fun frame =>
      m.frameAirtimeMs frame.bytes.length, airtime ≤ 35143341 := by
    intro airtime hmem
    obtain ⟨frame, hframe, rfl⟩ := List.mem_map.mp hmem
    rw [hvalid.frameAirtimeMs_eq (hframes frame hframe)]
    exact hvalid.result_le (hframes frame hframe)
  have hsum := List.sum_le_card_nsmul _ _ hbound
  have hcount : ([frames.1, frames.2].take n).length ≤ 2 := List.length_take_le' ..
  rw [List.length_map, smul_eq_mul] at hsum
  unfold framesAirtimeMs
  omega

/-! ### The airtime reported -/

/-- For every setting a modem can have: no value on the way leaves its word, what is reported is at
least the exact airtime, longer frames and preambles are never reported shorter, and a packet takes
what its frames take. -/
theorem airtime_reported (hvalid : m.Valid) :
    (∀ frameLen, 1 ≤ frameLen → frameLen ≤ 255 →
      (∀ v ∈ m.signedValues frameLen, -2 ^ 31 ≤ v ∧ v < 2 ^ 31) ∧
      (∀ v ∈ m.unsignedValues frameLen, v < 2 ^ 64) ∧
      m.totalSymbolsX100 frameLen * m.symbolUs ⌈/⌉ 100000 < 2 ^ 32 ∧
      m.frameAirtimeMs frameLen = m.totalSymbolsX100 frameLen * m.symbolUs ⌈/⌉ 100000 ∧
      m.exactAirtimeMs frameLen ≤ m.frameAirtimeMs frameLen) ∧
    (∀ frameLen longer, 1 ≤ frameLen → frameLen ≤ longer → longer ≤ 255 →
      m.frameAirtimeMs frameLen ≤ m.frameAirtimeMs longer) ∧
    (∀ frameLen longer, 1 ≤ frameLen → frameLen ≤ 255 → m.preambleSymbols ≤ longer →
      longer < 2 ^ 16 →
      m.frameAirtimeMs frameLen ≤ { m with preambleSymbols := longer }.frameAirtimeMs frameLen) ∧
    (∀ packet nibble out, packet.length ≤ 508 →
      ∃ n frames, LoraFramer.encode packet nibble out = .ok (n, frames) ∧
        loraTxMs packet.length m = m.framesAirtimeMs n frames) := by
  refine ⟨fun frameLen _ hlen => ?_, fun frameLen longer _ hle hlen =>
    frameAirtimeMs_mono hvalid hle hlen, fun frameLen longer _ hlen hle hlonger =>
    frameAirtimeMs_mono_preamble hvalid hle hlonger hlen, fun packet nibble out hpacket => ?_⟩
  · refine ⟨hvalid.signedValues_fit hlen, hvalid.unsignedValues_fit hlen,
      (hvalid.result_le hlen).trans_lt (by decide), hvalid.frameAirtimeMs_eq hlen, ?_⟩
    rw [hvalid.frameAirtimeMs_eq hlen]
    exact exactAirtimeMs_le hvalid frameLen
  · obtain ⟨n, frames, hencode, hframes, htx⟩ := loraTxMs_eq_min m hpacket nibble out
    exact ⟨n, frames, hencode, htx.trans (min_eq_left (framesAirtimeMs_le hvalid hframes))⟩

/-- A modem of spreading factor 11 over 250 kHz, at the longest frame. -/
theorem airtime_reported_longFast :
    LoraModemConfig.exactAirtimeMs ⟨250000, 11, 5, 18, true, true, false⟩ 255 ≤ 2173 ∧
      LoraModemConfig.frameAirtimeMs ⟨250000, 11, 5, 18, true, true, false⟩ 255 = 2173 := by
  have hvalid : Valid ⟨250000, 11, 5, 18, true, true, false⟩ :=
    ⟨by decide, by decide, by decide, by decide, by decide⟩
  have hframe : frameAirtimeMs ⟨250000, 11, 5, 18, true, true, false⟩ 255 = 2173 := by decide
  have hexact := ((airtime_reported hvalid).1 255 (by decide) (by decide)).2.2.2.2
  rw [hframe] at hexact
  exact ⟨hexact, hframe⟩

end LoraModemConfig

end ReticulumLite
