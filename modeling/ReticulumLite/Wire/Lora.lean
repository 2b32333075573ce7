import ReticulumLite.Config

/-!
# LoRa frames

A radio frame has one byte of framing and carries at most 254 bytes, so a longer packet goes out as two
halves under one four-bit sequence number. The receiver keeps one half at a time, and for a limited
time only.
-/

namespace ReticulumLite

open Bounded

abbrev loraFrameMax : Nat := loraFramePayloadMax + 1
def splitFlag : UInt8 := 0x01

inductive LoraError
  | packetTooLarge
  | frameTooLarge
  | frameTooShort
  | buffer (e : BufferError)
  deriving DecidableEq

abbrev LoraFrame := PacketBuffer loraFrameMax

def LoraFrame.set (header : UInt8) (payload : List UInt8) : Except LoraError LoraFrame :=
  if h : payload.length > loraFramePayloadMax then .error .frameTooLarge
  else .ok ⟨header :: payload, Nat.succ_le_succ (not_lt.mp h)⟩

abbrev LoraPacketBuffer := PacketBuffer loraSplitFramePayloadMax

structure PendingSplit where
  sequence : UInt8
  first : LoraPacketBuffer
  expiresMs : Nat
  deriving DecidableEq

structure LoraFramer where
  pending : Option PendingSplit
  splitTimeoutMs : Nat
  deriving DecidableEq

namespace LoraFramer

def new (splitTimeoutMs : Nat) : LoraFramer := ⟨none, splitTimeoutMs⟩

/-- The number of frames, and the two output places; a place that is not needed stays as it was. -/
def encode (packet : List UInt8) (sequenceNibble : UInt8) (out : LoraFrame × LoraFrame) :
    Except LoraError (Nat × LoraFrame × LoraFrame) := do
  refuseIf (packet.length > loraSplitFramePayloadMax) .packetTooLarge
  let sequence := (sequenceNibble &&& 0x0F) <<< 4
  if packet.length ≤ loraFramePayloadMax then
    let first ← LoraFrame.set sequence packet
    return (1, first, out.2)
  else
    let first ← LoraFrame.set (sequence ||| splitFlag) (packet.take loraFramePayloadMax)
    let second ← LoraFrame.set (sequence ||| splitFlag) (packet.drop loraFramePayloadMax)
    return (2, first, second)

def expire (f : LoraFramer) (nowMs : Nat) : LoraFramer :=
  if f.pending.any fun pending => decide (nowMs ≥ pending.expiresMs) then { f with pending := none }
  else f

def hold (f : LoraFramer) (sequence : UInt8) (payload : List UInt8) (nowMs : Nat) :
    LoraFramer × Except LoraError (Option LoraPacketBuffer) :=
  match PacketBuffer.fromSlice payload with
  | .error e => ({ f with pending := none }, .error (.buffer e))
  | .ok first =>
      let pending : PendingSplit := { sequence, first, expiresMs := satAdd nowMs f.splitTimeoutMs }
      ({ f with pending := some pending }, .ok none)

/-- A frame completes the half that is pending under its sequence number, or else takes its place. -/
def ingestFrame (f : LoraFramer) (frame : List UInt8) (nowMs : Nat) :
    LoraFramer × Except LoraError (Option LoraPacketBuffer) :=
  let f := f.expire nowMs
  match frame with
  | [] => (f, .error .frameTooShort)
  | header :: payload =>
      let sequence := header >>> 4
      if header &&& splitFlag = 0 then
        ({ f with pending := none }, ((PacketBuffer.fromSlice payload).mapError .buffer).map some)
      else
        match f.pending with
        | none => f.hold sequence payload nowMs
        | some pending =>
            if pending.sequence = sequence then
              ({ f with pending := none },
                ((pending.first.extendFromSlice payload).mapError .buffer).map some)
            else f.hold sequence payload nowMs

end LoraFramer

end ReticulumLite
