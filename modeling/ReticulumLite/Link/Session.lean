import ReticulumLite.Link.Handshake
import ReticulumLite.Base.Words

/-!
# Responder sessions

The state a destination keeps for a link it accepted.
-/

namespace ReticulumLite

open Bounded

inductive SessionState
  | handshake | active | stale | closed
  deriving DecidableEq

inductive SessionError
  | link (e : LinkError)
  | crypto (e : CryptoError)
  | state
  deriving DecidableEq

structure ResponderSession where
  linkId : Bytes 16
  keys : LinkKeys
  state : SessionState
  requestMs : Nat
  establishmentTimeoutMs : Nat
  rttMs : Option Nat
  keepaliveMs : Nat
  staleMs : Nat
  lastInboundMs : Nat
  lastOutboundMs : Option Nat
  activatedMs : Option Nat
  staleSinceMs : Option Nat
  remoteIdentityHash : Option (Bytes 16)

abbrev establishmentPerHopMs : Nat := 6000
abbrev keepaliveDefaultMs : Nat := 360000
abbrev staleTimeDefaultMs : Nat := 720000

def linkHeader (linkId : Bytes 16) (packetType : PacketType) (context : PacketContext) :
    PacketHeader where
  flags := { headerType := .header1, contextFlag := false, transportType := .broadcast,
             destinationType := .link, packetType }
  hops := 0
  transportId := none
  destinationHash := linkId
  context := context

variable [Crypto]

/-- Accept a link request: the session in its first state, and the proof that answers it. -/
def ResponderSession.accept (identity : LocalIdentity) (destinationHash : Bytes 16)
    (request : List UInt8) (hops : UInt8) (ephemeralX25519 : Bytes 32) (nowMs : Nat)
    (proofLen : Nat) : Except SessionError (ResponderSession × List UInt8) := do
  let view ← (LinkRequestView.parse request).mapError .link
  refuseIf (view.signalling.mode ≠ modeAes256Cbc) (.link .unsupportedMode)
  let signalling ← (SignallingData.tryNew modeAes256Cbc mtu).mapError .link
  let linkId := computeLinkId destinationHash request
  let proof ← (buildLinkProof identity ephemeralX25519 linkId signalling proofLen).mapError .link
  let keys := LinkKeys.derive ephemeralX25519 view.peerX25519Pub linkId
  return ({
    linkId
    keys
    state := .handshake
    requestMs := nowMs
    establishmentTimeoutMs :=
      satAdd (min (establishmentPerHopMs * max hops.toNat 1) u64Max) keepaliveDefaultMs
    rttMs := none
    keepaliveMs := keepaliveDefaultMs
    staleMs := staleTimeDefaultMs
    lastInboundMs := nowMs
    lastOutboundMs := none
    activatedMs := none
    staleSinceMs := none
    remoteIdentityHash := none }, proof)

/-! ### Identification -/

/-- The text that identifies an initiator: its key, and a signature over the link and the key. -/
def buildIdentification (identity : LocalIdentity) (linkId : Bytes 16) (outLen : Nat) :
    Except LinkError (List UInt8) := do
  refuseIf (outLen < 128) .outputTooSmall
  return identity.publicKey.toList ++
    (identity.sign (linkId.toList ++ identity.publicKey.toList)).toList

def verifyIdentification (linkId : Bytes 16) (plaintext : List UInt8) : Option (Bytes 64) :=
  if plaintext.length ≠ publicKeyLength + signatureLength then none
  else
    let publicKey := Bytes.slice 64 plaintext 0
    let edPublic := Bytes.slice 32 publicKey.toList keysize
    if verifySignature edPublic (linkId.toList ++ publicKey.toList) (Bytes.slice 64 plaintext publicKeyLength)
    then some publicKey
    else none

/-! ### Packets and timers -/

/-- The round trip the initiator measured, in milliseconds: a float of either width. -/
def peerRttMs (plaintext : List UInt8) : Option Nat :=
  let seconds : Option Float :=
    if byteAt plaintext 0 = 0xcb ∧ plaintext.length = 9 then
      some (Float.ofBits (UInt64.ofNat (beNat plaintext.tail)))
    else if byteAt plaintext 0 = 0xca ∧ plaintext.length = 5 then
      some (Float32.ofBits (UInt32.ofNat (beNat plaintext.tail))).toFloat
    else none
  match seconds with
  | none => none
  | some seconds =>
      if seconds.isNaN || decide (seconds < 0) then none
      else
        let millis := seconds * 1000
        some (if millis ≥ 720000 then staleTimeDefaultMs else millis.toUInt64.toNat)

/-- What an inbound packet meant. The data is what stands in the caller's buffer. -/
inductive Received
  | activated
  | identified (publicKey : Bytes 64)
  | data (plaintext : List UInt8)
  | keepalive (respond : Bool)
  | closed
  | ignored
  deriving DecidableEq

inductive TickAction
  | none
  | expired
  | stale
  | teardown
  deriving DecidableEq

abbrev keepaliveMinMs : Nat := 5000
abbrev staleFactor : Nat := 2
abbrev staleGraceMs : Nat := 5000
abbrev keepaliveTimeoutFactor : Nat := 4
abbrev keepaliveRequest : UInt8 := 0xFF
abbrev keepaliveResponseByte : UInt8 := 0xFE

namespace ResponderSession

def recordInbound (s : ResponderSession) (nowMs : Nat) : ResponderSession :=
  if s.state = .stale then { s with lastInboundMs := nowMs, state := .active, staleSinceMs := none }
  else { s with lastInboundMs := nowMs }

/-- The keepalive interval of a round trip: 360 s for 1.75 s, within bounds. -/
def keepaliveFor (rttMs : Nat) : Nat :=
  min (max (satMul rttMs 1440 / 7) keepaliveMinMs) keepaliveDefaultMs

/-- The first packet on the link measures the round trip and activates the session. -/
def activate (s : ResponderSession) (plaintext : List UInt8) (nowMs : Nat) : ResponderSession :=
  let localRtt := nowMs - s.requestMs
  let rtt := (peerRttMs plaintext).elim localRtt fun peer => max peer localRtt
  { s with
    rttMs := some rtt
    keepaliveMs := keepaliveFor rtt
    staleMs := satMul (keepaliveFor rtt) staleFactor
    state := .active
    activatedMs := some nowMs
    lastInboundMs := nowMs }

def receive (s : ResponderSession) (context : PacketContext) (payload : List UInt8) (nowMs : Nat)
    (plaintextLen : Nat) : ResponderSession × Except SessionError Received :=
  if s.state = .closed then (s, .error .state)
  else
    match context with
    | .keepalive =>
        if s.state = .handshake ∨ payload ≠ [keepaliveRequest] then (s, .ok .ignored)
        else
          (s.recordInbound nowMs,
            .ok (.keepalive (s.lastOutboundMs.all fun sent => decide (s.keepaliveMs ≤ nowMs - sent))))
    | .lrrtt =>
        if s.state ≠ .handshake then (s, .error .state)
        else
          match linkDecrypt s.keys payload plaintextLen with
          | .error e => (s, .error (.crypto e))
          | .ok plaintext => (s.activate plaintext nowMs, .ok .activated)
    | .linkIdentify =>
        match linkDecrypt s.keys payload plaintextLen with
        | .error e => (s, .error (.crypto e))
        | .ok plaintext =>
            match verifyIdentification s.linkId plaintext with
            | none => (s, .error (.crypto .authenticationFailed))
            | some publicKey =>
                if s.remoteIdentityHash.isSome then (s.recordInbound nowMs, .ok .ignored)
                else
                  ({ s.recordInbound nowMs with remoteIdentityHash := some (identityHash publicKey) },
                    .ok (.identified publicKey))
    | .linkClose =>
        match linkDecrypt s.keys payload plaintextLen with
        | .error e => (s, .error (.crypto e))
        | .ok plaintext =>
            if plaintext.length < 16 ∨ plaintext.take 16 ≠ s.linkId.toList then (s, .ok .ignored)
            else ({ s with state := .closed }, .ok .closed)
    | .none =>
        if s.state = .handshake then (s, .error .state)
        else
          match linkDecrypt s.keys payload plaintextLen with
          | .error e => (s, .error (.crypto e))
          | .ok plaintext => (s.recordInbound nowMs, .ok (.data plaintext))
    | _ => (s, .ok .ignored)

def sealData (s : ResponderSession) (plaintext : List UInt8) (iv : Bytes 16) (outLen : Nat) (nowMs : Nat) :
    ResponderSession × Except SessionError (List UInt8) :=
  if s.state ≠ .active ∧ s.state ≠ .stale then (s, .error .state)
  else
    match linkEncrypt s.keys plaintext iv outLen with
    | .error e => (s, .error (.crypto e))
    | .ok token => ({ s with lastOutboundMs := some nowMs }, .ok token)

def keepaliveResponse (s : ResponderSession) (nowMs : Nat) : ResponderSession × UInt8 :=
  ({ s with lastOutboundMs := some nowMs }, keepaliveResponseByte)

def teardown (s : ResponderSession) (iv : Bytes 16) (outLen : Nat) :
    ResponderSession × Option (List UInt8) :=
  if s.state = .closed then (s, none)
  else ({ s with state := .closed }, (linkEncrypt s.keys s.linkId.toList iv outLen).toOption)

/-- How long a stale session is kept. -/
def grace (s : ResponderSession) : Nat :=
  satAdd (satMul (s.rttMs.getD 1000) keepaliveTimeoutFactor) staleGraceMs

def tick (s : ResponderSession) (nowMs : Nat) : ResponderSession × TickAction :=
  match s.state with
  | .handshake =>
      if nowMs - s.requestMs > s.establishmentTimeoutMs then ({ s with state := .closed }, .expired)
      else (s, .none)
  | .active =>
      let latest := s.activatedMs.elim s.lastInboundMs fun activated => max activated s.lastInboundMs
      if s.staleMs ≤ nowMs - latest then ({ s with state := .stale, staleSinceMs := some nowMs }, .stale)
      else (s, .none)
  | .stale =>
      if s.staleSinceMs.any fun since => decide (s.grace ≤ nowMs - since) then (s, .teardown)
      else (s, .none)
  | .closed => (s, .none)

end ResponderSession

end ReticulumLite
