import ReticulumLite.Base.Bytes

/-!
# The cryptographic primitives

The crate takes its primitives from other crates. Here they are functions of the shape the code
calls them with and nothing more: no law is assumed of them unless a theorem names it.
-/

namespace ReticulumLite

open Bounded

/-- The primitives of `sha2`, `hkdf`, `hmac`, `aes`, `ed25519-dalek` and `x25519-dalek`. -/
class Crypto where
  /-- SHA-256. -/
  sha256 : List UInt8 → Bytes 32
  /-- HMAC-SHA256 of a message under a key. -/
  hmacSha256 : List UInt8 → List UInt8 → Bytes 32
  /-- The first bytes of HKDF-SHA256 output for a salt and key material, with an empty info. -/
  hkdf : List UInt8 → List UInt8 → (len : Nat) → Bytes len
  /-- AES-256 in CBC mode over whole blocks: key, initialization vector, text. -/
  aes256CbcEncrypt : Bytes 32 → Bytes 16 → List UInt8 → List UInt8
  aes256CbcDecrypt : Bytes 32 → Bytes 16 → List UInt8 → List UInt8
  /-- Whether 32 bytes decode to an Ed25519 public key. -/
  ed25519KeyValid : Bytes 32 → Bool
  /-- The Ed25519 public key of a seed. -/
  ed25519Public : Bytes 32 → Bytes 32
  /-- Sign a message with a seed. -/
  ed25519Sign : Bytes 32 → List UInt8 → Bytes 64
  /-- Verify a signature under a decoded public key. -/
  ed25519Verify : Bytes 32 → List UInt8 → Bytes 64 → Bool
  /-- The X25519 public key of a private key. -/
  x25519Public : Bytes 32 → Bytes 32
  /-- The X25519 shared secret of a private and a public key. -/
  x25519Shared : Bytes 32 → Bytes 32 → Bytes 32

section

variable [Crypto]

def sha256 (data : List UInt8) : Bytes 32 := Crypto.sha256 data

/-- The first half of a digest names destinations, identities, packets and links. -/
def truncatedHash (data : List UInt8) : Bytes 16 := Bytes.slice 16 (sha256 data).toList 0

/-- A signature check that starts from key bytes, as every caller in the crate does: undecodable
keys verify nothing. -/
def verifySignature (key : Bytes 32) (message : List UInt8) (signature : Bytes 64) : Bool :=
  Crypto.ed25519KeyValid key && Crypto.ed25519Verify key message signature

/-- Ed25519 verifies what it signs. -/
def Ed25519Signs : Prop :=
  ∀ seed message, verifySignature (Crypto.ed25519Public seed) message
    (Crypto.ed25519Sign seed message) = true

/-- Two parties derive the same X25519 secret, each from its own private key and the other's public
key. -/
def X25519Commutes : Prop :=
  ∀ mine yours, Crypto.x25519Shared mine (Crypto.x25519Public yours) =
    Crypto.x25519Shared yours (Crypto.x25519Public mine)

end

/-- Primitives with constant answers that accept every signature, for evaluating the model where
their answers do not matter. -/
@[reducible] def Crypto.constant : Crypto where
  sha256 _ := Bytes.zero
  hmacSha256 _ _ := Bytes.zero
  hkdf _ _ _ := Bytes.zero
  aes256CbcEncrypt _ _ text := text
  aes256CbcDecrypt _ _ text := text
  ed25519KeyValid _ := true
  ed25519Public _ := Bytes.zero
  ed25519Sign _ _ := Bytes.zero
  ed25519Verify _ _ _ := true
  x25519Public _ := Bytes.zero
  x25519Shared _ _ := Bytes.zero

/-- Primitives that know some digests and some signatures, and accept nothing else. -/
@[reducible] def Crypto.known (digests : List (List UInt8 × Bytes 32))
    (signatures : List (Bytes 32 × List UInt8 × Bytes 64)) : Crypto :=
  { Crypto.constant with
    sha256 := fun data => (digests.lookup data).getD Bytes.zero
    ed25519KeyValid := fun key => signatures.any fun known => decide (known.1 = key)
    ed25519Verify := fun key message signature => decide ((key, message, signature) ∈ signatures) }

/-- Primitives with one signature of each message for each public key. -/
@[reducible] def Crypto.signing (crypto : Crypto) (sign : Bytes 32 → List UInt8 → Bytes 64) :
    Crypto :=
  { crypto with
    ed25519KeyValid := fun _ => true
    ed25519Sign := fun seed message => sign (crypto.ed25519Public seed) message
    ed25519Verify := fun key message signature => decide (signature = sign key message) }

theorem Crypto.signs_signing (crypto : Crypto) (sign : Bytes 32 → List UInt8 → Bytes 64) :
    @Ed25519Signs (crypto.signing sign) := fun _ _ => decide_eq_true rfl

/-- Primitives whose secrets are functions of the two public keys. -/
@[reducible] def Crypto.sharing (crypto : Crypto) (share : Bytes 32 → Bytes 32 → Bytes 32) :
    Crypto :=
  { crypto with x25519Shared := fun mine yours => share (crypto.x25519Public mine) yours }

theorem Crypto.commutes_sharing (crypto : Crypto) {share : Bytes 32 → Bytes 32 → Bytes 32}
    (hshare : ∀ p q, share p q = share q p) : @X25519Commutes (crypto.sharing share) :=
  fun _ _ => hshare _ _

theorem Crypto.commutes_signing {crypto : Crypto} (sign : Bytes 32 → List UInt8 → Bytes 64)
    (hcommutes : @X25519Commutes crypto) : @X25519Commutes (crypto.signing sign) :=
  hcommutes

end ReticulumLite
