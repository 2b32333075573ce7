import ReticulumLite.Wire.Packet
import ReticulumLite.Base.Results

/-!
# Interface access codes

An interface with an access key carries its packets with a truncated signature after the first two
bytes and a mask over everything but that tag. Peers share the key, so the tag says that the sender
is a member of the interface, not who it is.
-/

namespace ReticulumLite

open Bounded

def ifacFlag : UInt8 := 0x80
abbrev ifacKeyLength : Nat := 64

inductive IfacError
  | invalidSize
  | tooShort
  | missingFlag
  | exceedsMtu
  | authenticationFailed
  | hkdf
  | buffer (e : BufferError)
  deriving DecidableEq

def ifacSalt : List UInt8 :=
  [0xad, 0xf5, 0x4d, 0x88, 0x2c, 0x9a, 0x9b, 0x80, 0x77, 0x1e, 0xb4, 0x99, 0x5d, 0x70, 0x2d, 0x4a,
   0x3e, 0x73, 0x33, 0x91, 0xb2, 0xa0, 0xf5, 0x3f, 0x41, 0x6d, 0x9f, 0x90, 0x7e, 0x55, 0xcf, 0xf8]

def hasIfacFlag (raw : List UInt8) : Bool :=
  !raw.isEmpty && decide (byteAt raw 0 &&& ifacFlag ≠ 0)

def validateSize (ifacSize : UInt8) : Except IfacError Nat :=
  if ifacSize = 0 ∨ ifacSize.toNat > signatureLength then .error .invalidSize
  else .ok ifacSize.toNat

theorem validateSize_eq_ok {size : UInt8} {n : Nat} :
    validateSize size = .ok n ↔ (size.toNat ≠ 0 ∧ size.toNat ≤ signatureLength) ∧ size.toNat = n := by
  have hzero : size = 0 ↔ size.toNat = 0 := by
    rw [← UInt8.toNat_inj]
    rfl
  unfold validateSize
  split
  · rename_i hbad
    rw [hzero] at hbad
    simp only [reduceCtorEq, false_iff]
    omega
  · rename_i hok
    rw [hzero, not_or] at hok
    simp only [Except.ok.injEq]
    omega

section

variable [Crypto]

/-- HKDF refuses to expand beyond 255 digests. -/
def hkdfExpand (salt ikm : List UInt8) (len : Nat) : Option (Bytes len) :=
  if len ≤ 255 * 32 then some (Crypto.hkdf salt ikm len) else none

def deriveIfacKey (networkName passphrase : Option (List UInt8)) :
    Except IfacError (Bytes ifacKeyLength) :=
  let hashOf (input : Option (List UInt8)) : List UInt8 :=
    match input with
    | some text => (sha256 text).toList
    | none => []
  let origin := hashOf networkName ++ hashOf passphrase
  okOr (hkdfExpand ifacSalt (sha256 origin).toList ifacKeyLength) .hkdf

def signPacket (packet : List UInt8) (ifacKey : Bytes ifacKeyLength) : Bytes 64 :=
  Crypto.ed25519Sign (Bytes.slice 32 ifacKey.toList 32) packet

def deriveMask (tag : List UInt8) (ifacKey : Bytes ifacKeyLength) (len : Nat) :
    Except IfacError (Bytes len) :=
  okOr (hkdfExpand ifacKey.toList tag len) .hkdf

/-- The mask over an outgoing frame: it spares the flag bit and the tag. -/
def maskByte (mask : List UInt8) (ifacSize i : Nat) (byte : UInt8) : UInt8 :=
  if i = 0 then (byte ^^^ byteAt mask i) ||| ifacFlag
  else if i = 1 ∨ i > ifacSize + 1 then byte ^^^ byteAt mask i
  else byte

def ifacSignInto (packet : List UInt8) (ifacKey : Bytes ifacKeyLength) (ifacSize : UInt8) :
    Except IfacError (PacketBuffer wireMtuMax) := do
  let size ← validateSize ifacSize
  refuseIf (packet.length < 2) .tooShort
  refuseIf (packet.length > mtu) .exceedsMtu
  let wrappedLen := packet.length + size
  let tag := (signPacket packet ifacKey).toList.drop (signatureLength - size)
  let mask ← deriveMask tag ifacKey wrappedLen
  let clear := [byteAt packet 0 ||| ifacFlag, byteAt packet 1] ++ tag ++ packet.drop 2
  (PacketBuffer.fromSlice (clear.mapIdx (maskByte mask.toList size))).mapError .buffer

def ifacVerifyInto (raw : List UInt8) (ifacKey : Bytes ifacKeyLength) (ifacSize : UInt8) :
    Except IfacError (PacketBuffer mtu) := do
  let size ← validateSize ifacSize
  refuseIf (raw.length > mtu + size) .exceedsMtu
  refuseIf (raw.length ≤ 2 + size) .tooShort
  refuseIf (byteAt raw 0 &&& ifacFlag = 0) .missingFlag
  let tag := (raw.drop 2).take size
  let mask ← deriveMask tag ifacKey raw.length
  let plain :=
    [(byteAt raw 0 ^^^ byteAt mask.toList 0) &&& ~~~ifacFlag,
      byteAt raw 1 ^^^ byteAt mask.toList 1] ++
    List.zipWith (· ^^^ ·) (raw.drop (2 + size)) (mask.toList.drop (2 + size))
  let out ← (PacketBuffer.fromSlice plain).mapError .buffer
  refuseIf (tag ≠ (signPacket out.bytes ifacKey).toList.drop (signatureLength - size))
    .authenticationFailed
  return out

theorem length_of_ifacSignInto {packet : List UInt8} {key : Bytes ifacKeyLength} {size : UInt8}
    {out : PacketBuffer wireMtuMax} (h : ifacSignInto packet key size = .ok out) :
    out.bytes.length = packet.length + size.toNat := by
  simp only [ifacSignInto, bind_eq_ok, refuseIf_eq_ok, mapError_eq_ok,
    PacketBuffer.fromSlice_eq_ok] at h
  obtain ⟨n, hn, _, hshort, _, _, mask, _, hout⟩ := h
  obtain ⟨⟨_, hle⟩, rfl⟩ := validateSize_eq_ok.mp hn
  rw [hout, List.length_mapIdx]
  simp only [signatureLength, List.length_append, List.length_cons, List.length_nil,
    List.length_drop, Bytes.length_toList] at hle ⊢
  omega

end

end ReticulumLite
