import ReticulumLite.Wire.Packet
import ReticulumLite.Base.Results

/-!
# Identities and announces

An identity is a pair of public keys; a destination is named by a digest of its name and of the
identity that owns it. An announce carries both keys, a name, an ordering value and a signature over
all of them, so that a receiver can check that the announcer owns the destination it names.
-/

namespace ReticulumLite

open Bounded

abbrev publicKeyLength : Nat := 64
abbrev nameHashLength : Nat := 10
abbrev randomHashLength : Nat := 10
abbrev ratchetSize : Nat := 32
abbrev announceBaseSize : Nat :=
  publicKeyLength + nameHashLength + randomHashLength + signatureLength

/-- The largest application data of an announce that fits a packet. -/
abbrev maxAnnounceAppData : Nat := mtu - headerMinsize - announceBaseSize

/-- Room for everything an announce signs. -/
abbrev signedDataMax : Nat :=
  16 + publicKeyLength + nameHashLength + randomHashLength + ratchetSize + maxAnnounceAppData

inductive AnnounceError
  | tooShort
  | appDataTooLong
  | scratchTooSmall
  | outputTooSmall
  | invalidPublicKey
  | signatureInvalid
  | destinationHashMismatch
  | publicKeyChanged
  deriving DecidableEq

/-- Five bytes of entropy, then the ordering value that relays read; a value above the wire range loses
its high bytes. -/
def composeRandomHash (rng : Bytes 5) (unixSecs : Nat) : Bytes 10 :=
  ⟨rng.toList ++ (Bytes.ofNat 5 unixSecs).toList, by simp⟩

/-! ### Names -/

section Names

variable [Crypto]

def identityHash (publicKey : Bytes 64) : Bytes 16 := truncatedHash publicKey.toList

/-- Names are the bytes of their text. -/
def nameHash (name : List UInt8) : Bytes 10 := Bytes.slice 10 (sha256 name).toList 0

def destinationHashFromParts (nameHash : Bytes 10) (identityHash : Option (Bytes 16)) : Bytes 16 :=
  match identityHash with
  | some identityHash => truncatedHash (nameHash.toList ++ identityHash.toList)
  | none => truncatedHash nameHash.toList

def destinationHashFromName (name : List UInt8) (identityHash : Option (Bytes 16)) : Bytes 16 :=
  destinationHashFromParts (nameHash name) identityHash

/-- The text `lxmf.delivery`. -/
def lxmfDeliveryName : List UInt8 :=
  [0x6c, 0x78, 0x6d, 0x66, 0x2e, 0x64, 0x65, 0x6c, 0x69, 0x76, 0x65, 0x72, 0x79]

end Names

/-! ### Announces -/

structure AnnounceView where
  publicKey : Bytes 64
  nameHash : Bytes 10
  randomHash : Bytes 10
  ratchet : Option (Bytes 32)
  signature : Bytes 64
  appData : List UInt8
  deriving DecidableEq

namespace AnnounceView

def parse (payload : List UInt8) (hasRatchet : Bool) (maxAppData : Nat) :
    Except AnnounceError AnnounceView := do
  let ratchetLen := if hasRatchet then ratchetSize else 0
  let minSize := announceBaseSize + ratchetLen
  refuseIf (payload.length < minSize) .tooShort
  refuseIf (payload.length - minSize > maxAppData) .appDataTooLong
  let pos := publicKeyLength + nameHashLength + randomHashLength
  return {
    publicKey := Bytes.slice 64 payload 0
    nameHash := Bytes.slice 10 payload publicKeyLength
    randomHash := Bytes.slice 10 payload (publicKeyLength + nameHashLength)
    ratchet := if hasRatchet then some (Bytes.slice 32 payload pos) else none
    signature := Bytes.slice 64 payload (pos + ratchetLen)
    appData := payload.drop (pos + ratchetLen + signatureLength) }

def ratchetBytes (a : AnnounceView) : List UInt8 :=
  match a.ratchet with
  | some ratchet => ratchet.toList
  | none => []

def signedData (a : AnnounceView) (destinationHash : Bytes 16) : List UInt8 :=
  destinationHash.toList ++ a.publicKey.toList ++ a.nameHash.toList ++ a.randomHash.toList ++
    a.ratchetBytes ++ a.appData

def bytes (a : AnnounceView) : List UInt8 :=
  a.publicKey.toList ++ a.nameHash.toList ++ a.randomHash.toList ++ a.ratchetBytes ++
    a.signature.toList ++ a.appData

/-- What a payload that parses holds. The limit only bounds the application data. -/
theorem parse_eq_ok {payload : List UInt8} {hasRatchet : Bool} {maxAppData : Nat}
    {a : AnnounceView} (h : parse payload hasRatchet maxAppData = .ok a) :
    payload.length = announceBaseSize + a.ratchetBytes.length + a.appData.length ∧
      ∀ limit, a.appData.length ≤ limit → parse payload hasRatchet limit = .ok a := by
  unfold parse at h ⊢
  simp only [bind_eq_ok, refuseIf_eq_ok, pure_eq_ok, not_lt] at h ⊢
  obtain ⟨_, hmin, _, hmax, rfl⟩ := h
  simp only [announceBaseSize, publicKeyLength, nameHashLength, randomHashLength, signatureLength,
    ratchetSize, List.length_drop, ratchetBytes] at hmin ⊢
  cases hasRatchet with
  | true =>
      simp only [if_true, Bytes.length_toList] at hmin ⊢
      exact ⟨by omega, fun limit hlimit => ⟨(), hmin, (), by omega, trivial⟩⟩
  | false =>
      simp only [Bool.false_eq_true, if_false, List.length_nil] at hmin ⊢
      exact ⟨by omega, fun limit hlimit => ⟨(), hmin, (), by omega, trivial⟩⟩

theorem length_signedData (a : AnnounceView) (dest : Bytes 16) :
    (a.signedData dest).length = 100 + a.ratchetBytes.length + a.appData.length := by
  simp only [signedData, List.length_append, Bytes.length_toList]

theorem length_ratchetBytes (a : AnnounceView) : a.ratchetBytes.length ≤ 32 := by
  unfold ratchetBytes
  cases a.ratchet <;> simp

variable [Crypto]

def identityHash (a : AnnounceView) : Bytes 16 := ReticulumLite.identityHash a.publicKey

def verifySignature (a : AnnounceView) (destinationHash : Bytes 16) (scratch : Nat) :
    Except AnnounceError Unit := do
  let signed := a.signedData destinationHash
  refuseIf (scratch < signed.length) .scratchTooSmall
  let key := Bytes.slice 32 a.publicKey.toList 32
  refuseIf (Crypto.ed25519KeyValid key = false) .invalidPublicKey
  refuseIf (Crypto.ed25519Verify key signed a.signature = false) .signatureInvalid

def validate (a : AnnounceView) (destinationHash : Bytes 16) (knownPublicKey : Option (Bytes 64))
    (scratch : Nat) : Except AnnounceError (Bytes 16) := do
  let identityHash := a.identityHash
  let expectedDest := destinationHashFromParts a.nameHash (some identityHash)
  refuseIf (expectedDest ≠ destinationHash) .destinationHashMismatch
  match knownPublicKey with
  | some known => refuseIf (known ≠ a.publicKey) .publicKeyChanged
  | none => pure ()
  a.verifySignature destinationHash scratch
  return identityHash

/-- An announce speaks for a destination: its key and name derive the destination's hash, and the
signature is that key's. -/
structure Authentic (a : AnnounceView) (destinationHash : Bytes 16) : Prop where
  bound : destinationHashFromParts a.nameHash (some a.identityHash) = destinationHash
  signed : ReticulumLite.verifySignature (Bytes.slice 32 a.publicKey.toList 32)
    (a.signedData destinationHash) a.signature = true

theorem verifySignature_eq_ok {a : AnnounceView} {dest : Bytes 16} {scratch : Nat} {u : Unit} :
    a.verifySignature dest scratch = .ok u ↔ (a.signedData dest).length ≤ scratch ∧
      ReticulumLite.verifySignature (Bytes.slice 32 a.publicKey.toList 32) (a.signedData dest)
        a.signature = true := by
  simp [verifySignature, ReticulumLite.verifySignature, bind_eq_ok]

theorem validate_eq_ok {a : AnnounceView} {dest : Bytes 16} {known : Option (Bytes 64)}
    {scratch : Nat} {h : Bytes 16} : a.validate dest known scratch = .ok h ↔
      a.Authentic dest ∧ (∀ k, known = some k → k = a.publicKey) ∧
        (a.signedData dest).length ≤ scratch ∧ h = a.identityHash := by
  unfold validate
  cases known with
  | none =>
      simp only [bind_eq_ok, refuseIf_eq_ok, verifySignature_eq_ok, pure_eq_ok, not_not]
      constructor
      · rintro ⟨_, hbound, _, ⟨hlen, hsig⟩, rfl⟩
        exact ⟨⟨hbound, hsig⟩, by simp, hlen, rfl⟩
      · rintro ⟨⟨hbound, hsig⟩, _, hlen, rfl⟩
        exact ⟨(), hbound, (), ⟨hlen, hsig⟩, rfl⟩
  | some k =>
      simp only [bind_eq_ok, refuseIf_eq_ok, verifySignature_eq_ok, pure_eq_ok, not_not,
        Option.some.injEq, forall_eq']
      constructor
      · rintro ⟨_, hbound, _, hk, _, ⟨hlen, hsig⟩, rfl⟩
        exact ⟨⟨hbound, hsig⟩, hk, hlen, rfl⟩
      · rintro ⟨⟨hbound, hsig⟩, hk, hlen, rfl⟩
        exact ⟨(), hbound, (), hk, (), ⟨hlen, hsig⟩, rfl⟩

end AnnounceView

/-! ### Local identities -/

/-- An identity that owns its private keys: an X25519 key and an Ed25519 seed. -/
structure LocalIdentity where
  privateKey : Bytes 64

namespace LocalIdentity

variable [Crypto]

def derivePublicKey (privateKey : Bytes 64) : Bytes 64 :=
  ⟨(Crypto.x25519Public (Bytes.slice 32 privateKey.toList 0)).toList ++
      (Crypto.ed25519Public (Bytes.slice 32 privateKey.toList 32)).toList, by simp⟩

def publicKey (i : LocalIdentity) : Bytes 64 := derivePublicKey i.privateKey

def identityHash (i : LocalIdentity) : Bytes 16 := ReticulumLite.identityHash i.publicKey

def destinationHash (i : LocalIdentity) (name : List UInt8) : Bytes 16 :=
  destinationHashFromName name (some i.identityHash)

def sign (i : LocalIdentity) (message : List UInt8) : Bytes 64 :=
  Crypto.ed25519Sign (Bytes.slice 32 i.privateKey.toList 32) message

def announceSigned (i : LocalIdentity) (nameHash : Bytes 10) (randomHash : Bytes 10)
    (ratchet : Option (Bytes 32)) (appData : List UInt8) : List UInt8 :=
  let destHash := destinationHashFromParts nameHash (some i.identityHash)
  destHash.toList ++ i.publicKey.toList ++ nameHash.toList ++ randomHash.toList ++
    (match ratchet with
      | some r => r.toList
      | none => []) ++ appData

/-- Build a signed announce for a name, refusing what does not fit the given output. -/
def createAnnounceWithNameHash (i : LocalIdentity) (nameHash : Bytes 10) (randomHash : Bytes 10)
    (ratchet : Option (Bytes 32)) (appData : List UInt8) (outLen : Nat) :
    Except AnnounceError (List UInt8) := do
  refuseIf (appData.length > maxAnnounceAppData) .appDataTooLong
  let ratchetLen := if ratchet.isSome then ratchetSize else 0
  let announceLen := publicKeyLength + nameHashLength + randomHashLength + ratchetLen +
    signatureLength + appData.length
  refuseIf (outLen < announceLen) .outputTooSmall
  let signature := i.sign (i.announceSigned nameHash randomHash ratchet appData)
  return i.publicKey.toList ++ nameHash.toList ++ randomHash.toList ++
    (match ratchet with
      | some r => r.toList
      | none => []) ++ signature.toList ++ appData

def createAnnounceNamed (i : LocalIdentity) (name : List UInt8) (randomHash : Bytes 10)
    (ratchet : Option (Bytes 32)) (appData : List UInt8) (outLen : Nat) :
    Except AnnounceError (List UInt8) :=
  i.createAnnounceWithNameHash (nameHash name) randomHash ratchet appData outLen

def createLxmfAnnounce (i : LocalIdentity) (randomHash : Bytes 10) (ratchet : Option (Bytes 32))
    (appData : List UInt8) (outLen : Nat) : Except AnnounceError (List UInt8) :=
  i.createAnnounceNamed lxmfDeliveryName randomHash ratchet appData outLen

theorem ed25519_publicKey (i : LocalIdentity) : Bytes.slice 32 i.publicKey.toList 32 =
    Crypto.ed25519Public (Bytes.slice 32 i.privateKey.toList 32) := by
  unfold publicKey derivePublicKey
  rw [Bytes.toList_mk, Bytes.slice_append_right (by simp)]
  simp

end LocalIdentity

/-! ### Receipts of packets -/

namespace Receipt

abbrev proofImplicitLen : Nat := signatureLength

abbrev proofExplicitLen : Nat := 32 + signatureLength

inductive ProofError
  | outputTooSmall
  deriving DecidableEq

variable [Crypto]

def buildProof (identity : LocalIdentity) (packetHash : Bytes 32) (implicit : Bool) (outLen : Nat) :
    Except ProofError (List UInt8) := do
  let signature := identity.sign packetHash.toList
  if implicit then
    refuseIf (outLen < proofImplicitLen) .outputTooSmall
    return signature.toList
  else
    refuseIf (outLen < proofExplicitLen) .outputTooSmall
    return packetHash.toList ++ signature.toList

def validateProof (proverPublicKey : Bytes 64) (packetHash : Bytes 32) (proof : List UInt8) :
    Bool :=
  let verify signature :=
    verifySignature (Bytes.slice 32 proverPublicKey.toList 32) packetHash.toList signature
  if proof.length = proofImplicitLen then verify (Bytes.slice 64 proof 0)
  else if proof.length = proofExplicitLen then
    proof.take 32 = packetHash.toList && verify (Bytes.slice 64 proof 32)
  else false

theorem validateProof_iff {key : Bytes 64} {hash : Bytes 32} {proof : List UInt8} :
    validateProof key hash proof = true ↔ ∃ signature : Bytes 64,
      (proof = signature.toList ∨ proof = hash.toList ++ signature.toList) ∧
      verifySignature (Bytes.slice 32 key.toList 32) hash.toList signature = true := by
  simp only [validateProof, proofImplicitLen, proofExplicitLen, signatureLength]
  constructor
  · intro h
    split_ifs at h with himplicit hexplicit
    · refine ⟨_, .inl ?_, h⟩
      rw [Bytes.toList_slice (by omega), ← himplicit, List.drop_zero, List.take_length]
    · obtain ⟨hfront, hverified⟩ := Bool.and_eq_true_iff.mp h
      refine ⟨_, .inr ?_, hverified⟩
      rw [Bytes.toList_slice (by omega), ← of_decide_eq_true hfront,
        List.take_of_length_le (i := 64) (by simp; omega), List.take_append_drop]
  · rintro ⟨signature, rfl | rfl, hverified⟩
    · rwa [if_pos signature.length_toList, Bytes.slice_toList]
    · rw [if_neg (by simp), if_pos (by simp), List.take_left' hash.length_toList,
        Bytes.slice_append_right (by simp)]
      simpa using hverified

end Receipt

/-! ### A known identity

The identity whose signing seed is the byte 0x11 throughout, under the name `lxmf.delivery`, and two
of its announces. The digests and signatures are those of SHA-256 and Ed25519, so that the model
evaluates on what a node really receives. -/

namespace KnownIdentity

def publicKey : Bytes 64 :=
  ⟨List.replicate 32 0xA7 ++
    (Bytes.ofNat 32 0xd04ab232742bb4ab3a1368bd4615e4e6d0224ab71a016baf8520a332c9778737).toList, by simp⟩

def nameDigest : Bytes 32 :=
  Bytes.ofNat 32 0x6ec60bc318e2c0f0d9086e596e657ef25d25bbe95a1379c3b6eb3ad59af2e7db

def identityDigest : Bytes 32 :=
  Bytes.ofNat 32 0xa64cd3e6e979876ffd1a8954027035bc4ade7248895c2f3c9cd20fb4430e7716

def destinationDigest : Bytes 32 :=
  Bytes.ofNat 32 0xcf6d7fa5f59411fe3eb08f14a3d68fd4cf920ff0ca1996274f165e199838aabc

def destination : Bytes 16 := Bytes.slice 16 destinationDigest.toList 0

def announce (randomHash : Bytes 10) (signature : Bytes 64) : AnnounceView where
  publicKey := publicKey
  nameHash := Bytes.slice 10 nameDigest.toList 0
  randomHash := randomHash
  ratchet := none
  signature := signature
  appData := []

def first : AnnounceView :=
  announce (Bytes.ofNat 10 0xbcbcbcbcbcbcbcbcbcbc)
    ⟨(Bytes.ofNat 32 0x82b6d954b2d69b9e31138816f656e0198251f732c969298f2f5bf06160122feb).toList ++
      (Bytes.ofNat 32 0xd5f432ca3e13ffd48e552d7fe79f931178e595c328678913f1d018ec70975c03).toList, by simp⟩

/-- The later announce: the last five bytes of the random hash tell the time. -/
def second : AnnounceView :=
  announce (Bytes.ofNat 10 0xbcbcbcbcbcbdbdbdbdbd)
    ⟨(Bytes.ofNat 32 0xfa418d76a7646a5d0eee085f5e28b4e0c2b5c4846166b01a75a0e0ca66e5fd8a).toList ++
      (Bytes.ofNat 32 0x9900ee55c93fd8986ccb5e95b0b4e7266dd32af1a1e19275b418979024df220a).toList, by simp⟩

/-- What the packet hash covers: the low flag bits, the destination, the context and the payload. -/
def hashed (low context : UInt8) (a : AnnounceView) : List UInt8 :=
  [low] ++ destination.toList ++ [context] ++ a.bytes

def packet (low hops context : UInt8) (a : AnnounceView) : List UInt8 :=
  [low, hops] ++ destination.toList ++ [context] ++ a.bytes

def digests : List (List UInt8 × Bytes 32) :=
  [(lxmfDeliveryName, nameDigest),
   (publicKey.toList, identityDigest),
   ((Bytes.slice 10 nameDigest.toList 0).toList ++ (Bytes.slice 16 identityDigest.toList 0).toList,
     destinationDigest),
   (hashed 0x01 0x00 first,
     Bytes.ofNat 32 0xc4ade8cc029deeb3ae7b814c2f1192cc9d18990d5035713fa316cf9376fd2d14),
   (hashed 0x01 0x00 second,
     Bytes.ofNat 32 0x314cb77e887748da0f91fee9b08efadb46a02c4db774c374862aed3d6fe10aa3)]

def signatures : List (Bytes 32 × List UInt8 × Bytes 64) :=
  [first, second].map fun a =>
    (Bytes.slice 32 publicKey.toList 32, a.signedData destination, a.signature)

end KnownIdentity

end ReticulumLite
