import ReticulumLite.Config
import Mathlib.Algebra.Order.Floor.Div

/-!
# Airtime and the announce cap

How long a frame occupies a LoRa radio, a limiter on the airtime used, how far apart announces must
be released to take at most a configured share of an interface, and the limiter on announces
received. Machine words are 64 bits except where a width is named.
-/

namespace ReticulumLite

open Bounded

/-! ### LoRa airtime -/

structure LoraModemConfig where
  bandwidthHz : Nat
  spreadingFactor : Nat
  codingRateDenominator : Nat
  preambleSymbols : Nat
  explicitHeader : Bool
  crc : Bool
  lowDataRateOptimize : Bool
  deriving DecidableEq

def ceilDivU64 (numerator denominator : Nat) : Nat :=
  if denominator = 0 then 0 else satAdd numerator (denominator - 1) / denominator

/-- The airtime of one physical frame in milliseconds, truncated to 32 bits. -/
def LoraModemConfig.frameAirtimeMs (m : LoraModemConfig) (frameLen : Nat) : Nat :=
  if m.bandwidthHz = 0 ∨ m.spreadingFactor = 0 then 0
  else
    let sf : Int := m.spreadingFactor
    let ldro : Int := if m.lowDataRateOptimize then 1 else 0
    let denominator := 4 * (sf - 2 * ldro)
    if denominator ≤ 0 then 0
    else
      let symbolUs := ceilDivU64 (2 ^ min m.spreadingFactor 31 * 1000000) m.bandwidthHz
      let crcBits : Int := if m.crc then 16 else 0
      let implicitHeaderBits : Int := if m.explicitHeader then 0 else 20
      let numerator := 8 * (frameLen : Int) - 4 * sf + 28 + crcBits - implicitHeaderBits
      let codedPayloadSymbols :=
        if numerator ≤ 0 then 0
        else
          let codingRate := max 5 (min m.codingRateDenominator 8)
          ceilDivU64 numerator.toNat denominator.toNat * codingRate
      let payloadSymbols := 8 + codedPayloadSymbols
      let preambleSymbolsX100 := m.preambleSymbols * 100 + 425
      let totalSymbolsX100 := preambleSymbolsX100 + payloadSymbols * 100
      -- the product is the one step that can leave 64 bits
      ceilDivU64 (totalSymbolsX100 * symbolUs % 2 ^ 64) 100000 % 2 ^ 32

/-- A packet that does not fit one frame is sent in two. -/
def loraTxMs (wireLen : Nat) (modem : LoraModemConfig) : Nat :=
  if wireLen ≤ loraFramePayloadMax then modem.frameAirtimeMs (wireLen + 1)
  else
    min (modem.frameAirtimeMs (loraFramePayloadMax + 1) +
      modem.frameAirtimeMs (wireLen - loraFramePayloadMax + 1)) (2 ^ 32 - 1)

/-! ### The airtime limiter -/

/-- A counter of airtime over a window that restarts at the first call past its end. -/
structure AirtimeLimiter where
  windowMs : Nat
  maxUtilizationBps : Nat
  windowStartMs : Nat
  usedAirtimeMs : Nat
  deriving DecidableEq

namespace AirtimeLimiter

def basisPointsDenominator : Nat := 10000

def new (windowMs maxUtilizationBps : Nat) : AirtimeLimiter := ⟨windowMs, maxUtilizationBps, 0, 0⟩

def refresh (l : AirtimeLimiter) (nowMs : Nat) : AirtimeLimiter :=
  if l.windowMs = 0 ∨ nowMs < l.windowStartMs then
    { l with windowStartMs := nowMs, usedAirtimeMs := 0 }
  else if nowMs - l.windowStartMs ≥ l.windowMs then
    { l with windowStartMs := nowMs, usedAirtimeMs := 0 }
  else l

def budgetMs (l : AirtimeLimiter) : Nat :=
  satMul l.windowMs l.maxUtilizationBps / basisPointsDenominator

/-- An empty window admits one frame of any length. -/
def canReserve (l : AirtimeLimiter) (airtimeMs nowMs : Nat) : AirtimeLimiter × Bool :=
  let l := l.refresh nowMs
  if airtimeMs = 0 then (l, true)
  else
    let budget := max l.budgetMs 1
    (l, decide (satAdd l.usedAirtimeMs airtimeMs ≤ budget) ||
      (l.usedAirtimeMs == 0 && decide (airtimeMs > budget)))

def reserve (l : AirtimeLimiter) (airtimeMs nowMs : Nat) : AirtimeLimiter × Bool :=
  let (l, admitted) := l.canReserve airtimeMs nowMs
  if !admitted then (l, false)
  else ({ l with usedAirtimeMs := satAdd l.usedAirtimeMs airtimeMs }, true)

def waitMs (l : AirtimeLimiter) (airtimeMs nowMs : Nat) : AirtimeLimiter × Nat :=
  let (l, admitted) := l.canReserve airtimeMs nowMs
  if admitted then (l, 0) else (l, satAdd l.windowStartMs l.windowMs - nowMs)

end AirtimeLimiter

/-! ### Announce spacing -/

def capFloor (capPermille : Nat) : Nat := if capPermille = 0 then 1 else capPermille

def spacingMs (txMs capPermille : Nat) : Nat := (txMs * 1000) ⌈/⌉ capFloor capPermille

def bitrateSpacingMs (wireLen bitrateBps capPermille : Nat) : Option Nat :=
  if bitrateBps = 0 then none
  else
    let scaledBits := min (wireLen * 8000000) u64Max
    some (scaledBits ⌈/⌉ min (bitrateBps * capFloor capPermille) u64Max)

def loraSpacingMs (wireLen : Nat) (modem : LoraModemConfig) (capPermille : Nat) : Nat :=
  spacingMs (loraTxMs wireLen modem) capPermille

/-- One interface's announce gate, closed until a time. -/
structure AnnounceGate where
  allowedAtMs : Nat
  deriving DecidableEq

namespace AnnounceGate

def opened : AnnounceGate := ⟨0⟩

def isOpen (g : AnnounceGate) (nowMs : Nat) : Bool := decide (nowMs ≥ g.allowedAtMs)

def charge (nowMs spacingMs : Nat) : AnnounceGate := ⟨satAdd nowMs spacingMs⟩

end AnnounceGate

/-! ### Admission of announces -/

structure AnnounceAdmission where
  lastRefillMs : Nat
  creditMilli : Nat
  initialized : Bool
  deriving DecidableEq

namespace AnnounceAdmission

def new : AnnounceAdmission := ⟨0, 0, false⟩

/-- A bounded token bucket. Answers to path requests are exempt, and a zero rate is no limit. -/
def admitAnnounce (a : AnnounceAdmission) (config : AnnounceAdmissionConfig) (pathResponse : Bool)
    (nowMs : Nat) : AnnounceAdmission × Bool :=
  if pathResponse then (a, true)
  else
    let first := !a.initialized
    let lastRefillMs := if first then nowMs else a.lastRefillMs
    let inGrace := decide (nowMs < min (config.graceSecs * 1000) u64Max)
    let rate := if inGrace then config.gracePerSec else config.steadyPerSec
    if rate = 0 then (⟨nowMs, 0, true⟩, true)
    else
      let capacity := min (rate * 1000) u64Max
      let creditMilli :=
        if first then capacity
        else
          let elapsed := nowMs - lastRefillMs
          min (satAdd a.creditMilli (min (elapsed * rate) u64Max)) capacity
      if creditMilli < 1000 then (⟨nowMs, creditMilli, true⟩, false)
      else (⟨nowMs, creditMilli - 1000, true⟩, true)

end AnnounceAdmission

end ReticulumLite
