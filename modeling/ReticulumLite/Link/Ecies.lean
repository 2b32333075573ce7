import ReticulumLite.Link.Token
import ReticulumLite.Wire.Packet

/-!
# Encryption to an identity

The sender derives a token key from the secret that an ephemeral key shares with the recipient, and
sends the ephemeral public key before the token. The in-place functions keep the text at position 48
of the caller's buffer, after that key and the initialization vector.
-/

namespace ReticulumLite

open Bounded

abbrev eciesFixedOverhead : Nat := 32 + tokenOverhead
abbrev eciesPlaintextOffset : Nat := 32 + 16
abbrev maxEciesPlaintext : Nat := (mdu - eciesFixedOverhead) / 16 * 16 - 1
abbrev paddedMax : Nat := maxEciesPlaintext + 1

section

variable [Crypto]

def deriveTokenKey (shared : Bytes 32) (salt : Bytes 16) : Bytes 64 :=
  Crypto.hkdf salt.toList shared.toList 64

/-- The buffer afterwards and the length of the blob. The ephemeral public key may be written before
the token is refused. -/
def eciesEncrypt (plaintext : List UInt8) (targetX25519Pub : Bytes 32)
    (recipientIdentityHash : Bytes 16) (ephemeralPriv : Bytes 32) (iv : Bytes 16)
    (out : List UInt8) : List UInt8 × Except CryptoError Nat :=
  if plaintext.length > maxEciesPlaintext then (out, .error .plaintextTooLong)
  else
    let ephemeralPub := Crypto.x25519Public ephemeralPriv
    let shared := Crypto.x25519Shared ephemeralPriv targetX25519Pub
    let tokenKey := deriveTokenKey shared recipientIdentityHash
    if out.isEmpty ∨ out.length < 32 then (out, .error .outputTooSmall)
    else
      let out := overwrite out 0 ephemeralPub.toList
      let token := tokenEncryptInto paddedMax plaintext tokenKey iv (out.drop 32)
      (overwrite out 32 token.1, token.2.map (32 + ·))

def eciesCiphertextLen (plaintextLen : Nat) : Nat :=
  plaintextLen + (16 - plaintextLen % 16) + eciesFixedOverhead

def eciesEncryptInPlace (targetX25519Pub : Bytes 32) (recipientIdentityHash : Bytes 16)
    (ephemeralPriv : Bytes 32) (iv : Bytes 16) (buf : List UInt8) (plaintextLen : Nat) :
    List UInt8 × Except CryptoError Nat :=
  let total := eciesCiphertextLen plaintextLen
  if buf.length < total then (buf, .error .outputTooSmall)
  else
    let ephemeralPub := Crypto.x25519Public ephemeralPriv
    let shared := Crypto.x25519Shared ephemeralPriv targetX25519Pub
    let tokenKey := deriveTokenKey shared recipientIdentityHash
    let buf := overwrite buf 0 ephemeralPub.toList
    let token := tokenEncryptInPlace tokenKey iv (between buf 32 total) plaintextLen
    (overwrite buf 32 token.1, token.2.map (32 + ·))

def eciesDecryptInPlace (myX25519Priv : Bytes 32) (myIdentityHash : Bytes 16) (buf : List UInt8) :
    List UInt8 × Except CryptoError Nat :=
  if buf.length < eciesFixedOverhead + 16 ∨ (buf.length - eciesFixedOverhead) % 16 ≠ 0 then
    (buf, .error .authenticationFailed)
  else
    let ephemeralPub := Bytes.slice 32 buf 0
    let shared := Crypto.x25519Shared myX25519Priv ephemeralPub
    let tokenKey := deriveTokenKey shared myIdentityHash
    let token := tokenDecryptInPlace tokenKey (buf.drop 32)
    (overwrite buf 32 token.1, token.2)

def eciesDecrypt (data : List UInt8) (myX25519Priv : Bytes 32) (myIdentityHash : Bytes 16)
    (out : List UInt8) : List UInt8 × Except CryptoError Nat :=
  if data.length < 32 + 16 + 16 + 32 then (out, .error .authenticationFailed)
  else
    let ephemeralPub := Bytes.slice 32 data 0
    let shared := Crypto.x25519Shared myX25519Priv ephemeralPub
    let tokenKey := deriveTokenKey shared myIdentityHash
    tokenDecryptInto paddedMax (data.drop 32) tokenKey out

/-! ### Several keys -/

/-- Try keys in order into one buffer; the length of the text and the index of the key, counted from
`index`. -/
def tryRatchets (data : List UInt8) (myIdentityHash : Bytes 16) :
    Nat → List (Bytes 32) → List UInt8 → List UInt8 × Option (Nat × Nat)
  | _, [], out => (out, none)
  | index, ratchetPriv :: ratchetPrivs, out =>
      match eciesDecrypt data ratchetPriv myIdentityHash out with
      | (out, .ok len) => (out, some (len, index))
      | (out, .error _) => tryRatchets data myIdentityHash (index + 1) ratchetPrivs out

/-- The ratchets are tried before the key of the identity, whose attempt determines the error. -/
def eciesDecryptWithRatchets (data : List UInt8) (ratchetPrivs : List (Bytes 32))
    (myX25519Priv : Bytes 32) (myIdentityHash : Bytes 16) (out : List UInt8) :
    List UInt8 × Except CryptoError (Nat × Option Nat) :=
  match tryRatchets data myIdentityHash 0 ratchetPrivs out with
  | (out, some (len, index)) => (out, .ok (len, some index))
  | (out, none) =>
      let base := eciesDecrypt data myX25519Priv myIdentityHash out
      (base.1, base.2.map fun len => (len, none))

def eciesDecryptWithRatchetHint (data : List UInt8) (ratchetPrivs : List (Bytes 32))
    (myX25519Priv : Bytes 32) (myIdentityHash : Bytes 16) (ratchetIndex : Option Nat)
    (out : List UInt8) : List UInt8 × Except CryptoError Nat :=
  match ratchetIndex with
  | some index =>
      match ratchetPrivs[index]? with
      | some ratchet => eciesDecrypt data ratchet myIdentityHash out
      | none => (out, .error .authenticationFailed)
  | none => eciesDecrypt data myX25519Priv myIdentityHash out

end

end ReticulumLite
