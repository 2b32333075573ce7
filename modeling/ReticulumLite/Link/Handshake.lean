import ReticulumLite.Identity.Announce
import ReticulumLite.Link.Token

/-!
# The link handshake

A link request carries two ephemeral public keys and an optional three-byte signalling trailer; the
proof that answers it is signed by the destination over the link id, the responder's key and the
trailer. Both ends derive the session key from the secret they share and the link id.
-/

namespace ReticulumLite

open Bounded

abbrev keysize : Nat := 32
abbrev ecpubsize : Nat := 64
abbrev linkMtuSize : Nat := 3
abbrev linkRequestLegacyLen : Nat := ecpubsize
abbrev linkRequestLen : Nat := ecpubsize + linkMtuSize
abbrev linkProofLegacyLen : Nat := signatureLength + keysize
abbrev linkProofLen : Nat := signatureLength + keysize + linkMtuSize

/-- AES-256-CBC, the only mode an endpoint enables. -/
def modeAes256Cbc : UInt8 := 0x01

abbrev mtuBytemask : Nat := 0x001FFFFF
abbrev modeBytemask : Nat := 0x00E0

/-- The padded text a link packet may hold. -/
abbrev linkPaddedMax : Nat := 464

inductive LinkError
  | outputTooSmall
  | invalidLength
  | unsupportedMode
  | invalidMtu
  deriving DecidableEq

/-! ### Signalling -/

/-- The trailer of requests and proofs; the MTU is a 32-bit value of which 21 bits are sent. -/
structure SignallingData where
  mode : UInt8
  mtu : Nat
  deriving DecidableEq

namespace SignallingData

def new (mode : UInt8) (mtu : Nat) : SignallingData := ⟨mode &&& 0x07, mtu &&& mtuBytemask⟩

/-- Zero stands for the default; other values must be in the wire domain. -/
def effectiveMtu (s : SignallingData) : Except LinkError Nat :=
  if s.mtu = 0 then .ok ReticulumLite.mtu
  else if 500 ≤ s.mtu ∧ s.mtu ≤ mtuBytemask then .ok s.mtu
  else .error .invalidMtu

def tryNew (mode : UInt8) (mtu : Nat) : Except LinkError SignallingData := do
  refuseIf (mode > 7) .unsupportedMode
  let mtu ← effectiveMtu ⟨mode, mtu⟩
  return ⟨mode, mtu⟩

/-- What an endpoint of fixed capability accepts. -/
def fixedEndpoint (s : SignallingData) : Except LinkError SignallingData := do
  refuseIf (s.mode ≠ modeAes256Cbc) .unsupportedMode
  let checked ← tryNew s.mode s.mtu
  refuseIf (checked.mtu ≠ ReticulumLite.mtu) .invalidMtu
  return checked

def defaultSignalling : SignallingData := new modeAes256Cbc ReticulumLite.mtu

/-- Three mode bits, then 21 bits of MTU, in three bytes. -/
def pack (s : SignallingData) : Bytes 3 :=
  let value := (s.mtu &&& mtuBytemask) ||| (((s.mode.toNat <<< 5) &&& modeBytemask) <<< 16)
  ⟨[UInt8.ofNat (value >>> 16), UInt8.ofNat (value >>> 8), UInt8.ofNat value], rfl⟩

def unpack (bytes : List UInt8) : Option SignallingData :=
  if bytes.length < 3 then none
  else
    let value := ((byteAt bytes 0).toNat <<< 16) ||| ((byteAt bytes 1).toNat <<< 8) |||
      (byteAt bytes 2).toNat
    some ⟨UInt8.ofNat ((value >>> 21) &&& 0x07), value &&& mtuBytemask⟩

variable {s : SignallingData}

theorem effectiveMtu_eq_ok {m : Nat} : s.effectiveMtu = .ok m ↔
    (s.mtu = 0 ∧ m = 500) ∨ (500 ≤ s.mtu ∧ s.mtu ≤ mtuBytemask ∧ m = s.mtu) := by
  unfold effectiveMtu
  by_cases h0 : s.mtu = 0
  · simp [h0, eq_comm]
  · rw [if_neg h0]
    by_cases hr : 500 ≤ s.mtu ∧ s.mtu ≤ mtuBytemask
    · simp only [hr, and_self, if_true, Except.ok.injEq, h0, false_and, false_or, true_and]
      exact eq_comm
    · simp only [hr, if_false, reduceCtorEq, false_iff]
      omega

theorem tryNew_eq_ok {mode : UInt8} {m : Nat} :
    tryNew mode m = .ok s ↔ mode ≤ 7 ∧ s.mode = mode ∧ effectiveMtu ⟨mode, m⟩ = .ok s.mtu := by
  obtain ⟨smode, smtu⟩ := s
  simp only [tryNew, bind_eq_ok, refuseIf_eq_ok, pure_eq_ok, gt_iff_lt, UInt8.not_lt,
    SignallingData.mk.injEq]
  constructor
  · rintro ⟨_, hle, m', hm, rfl, rfl⟩
    exact ⟨hle, rfl, hm⟩
  · rintro ⟨hle, rfl, hm⟩
    exact ⟨(), hle, smtu, hm, rfl, rfl⟩

theorem fixedEndpoint_eq_ok {s' : SignallingData} : s.fixedEndpoint = .ok s' ↔
    s.mode = modeAes256Cbc ∧ s.effectiveMtu = .ok 500 ∧ s' = ⟨modeAes256Cbc, 500⟩ := by
  obtain ⟨smode, smtu⟩ := s'
  simp only [fixedEndpoint, bind_eq_ok, refuseIf_eq_ok, pure_eq_ok, not_not, tryNew_eq_ok]
  constructor
  · rintro ⟨_, hmode, c, ⟨_, hcmode, hm⟩, _, hc, rfl⟩
    simp only [ReticulumLite.mtu] at hc
    obtain rfl := hcmode.trans hmode
    exact ⟨hmode, hc ▸ hm, by rw [hc]⟩
  · rintro ⟨hmode, hm, heq⟩
    obtain ⟨rfl, rfl⟩ := SignallingData.mk.inj heq
    refine ⟨(), hmode, ⟨modeAes256Cbc, 500⟩, ⟨?_, hmode.symm, hm⟩, (), rfl, rfl⟩
    rw [hmode]
    decide

private theorem value_eq (a b c : UInt8) :
    (a.toNat <<< 16) ||| (b.toNat <<< 8) ||| c.toNat = 65536 * a.toNat + 256 * b.toNat + c.toNat := by
  have hb := b.toNat_lt
  have hc := c.toNat_lt
  have hinner : (256 : Nat) * b.toNat + c.toNat = 256 * b.toNat ||| c.toNat :=
    @Nat.two_pow_add_eq_or_of_lt 8 c.toNat (by omega) b.toNat
  have houter : (65536 : Nat) * a.toNat + (256 * b.toNat + c.toNat) =
      65536 * a.toNat ||| (256 * b.toNat + c.toNat) :=
    @Nat.two_pow_add_eq_or_of_lt 16 (256 * b.toNat + c.toNat) (by omega) a.toNat
  rw [Nat.shiftLeft_eq, Nat.shiftLeft_eq, Nat.mul_comm a.toNat, Nat.mul_comm b.toNat,
    Nat.or_assoc, Nat.add_assoc]
  exact (houter.trans (by rw [hinner])).symm

private theorem packed_eq (mode mtu : Nat) :
    (mtu &&& mtuBytemask) ||| (((mode <<< 5) &&& modeBytemask) <<< 16) =
      2 ^ 21 * (mode % 8) + mtu % 2 ^ 21 := by
  have hmtu : mtu &&& mtuBytemask = mtu % 2 ^ 21 := Nat.and_two_pow_sub_one_eq_mod mtu 21
  have hmode : (mode <<< 5) &&& modeBytemask = 32 * (mode % 8) := by
    have : modeBytemask = 7 <<< 5 := rfl
    rw [this, ← Nat.shiftLeft_and_distrib, Nat.shiftLeft_eq, Nat.mul_comm]
    exact congrArg (32 * ·) (Nat.and_two_pow_sub_one_eq_mod mode 3)
  have hlt : mtu % 2 ^ 21 < 2 ^ 21 := Nat.mod_lt _ (by decide)
  rw [hmtu, hmode, Nat.shiftLeft_eq, Nat.or_comm, Nat.two_pow_add_eq_or_of_lt hlt]
  congr 1
  omega

/-- The trailer is a code: packing what three bytes unpack to gives those bytes. -/
theorem pack_unpack {bytes : List UInt8} (hlen : bytes.length = 3) (h : unpack bytes = some s) :
    s.pack.toList = bytes := by
  obtain ⟨a, b, c, rfl⟩ := List.length_eq_three.mp hlen
  have ha := a.toNat_lt
  have hb := b.toNat_lt
  have hc := c.toNat_lt
  simp only [unpack, hlen, lt_irrefl, if_false, byteAt_cons_zero, byteAt_cons_succ, value_eq,
    Option.some.injEq] at h
  subst h
  have hmtu : (65536 * a.toNat + 256 * b.toNat + c.toNat) &&& mtuBytemask =
      (65536 * a.toNat + 256 * b.toNat + c.toNat) % 2 ^ 21 := Nat.and_two_pow_sub_one_eq_mod _ 21
  have hmode : ((65536 * a.toNat + 256 * b.toNat + c.toNat) >>> 21) &&& 0x07 = a.toNat / 32 := by
    rw [Nat.shiftRight_eq_div_pow]
    refine (Nat.and_two_pow_sub_one_eq_mod _ 3).trans ?_
    omega
  have hbyte : (UInt8.ofNat (a.toNat / 32)).toNat = a.toNat / 32 := by
    rw [UInt8.toNat_ofNat']
    omega
  simp only [pack, hmtu, hmode, hbyte, packed_eq, Bytes.toList_mk]
  simp only [Nat.shiftRight_eq_div_pow, List.cons.injEq, and_true]
  refine ⟨?_, ?_, ?_⟩ <;>
    · rw [← UInt8.toNat_inj, UInt8.toNat_ofNat']
      omega

end SignallingData

/-! ### Requests and proofs -/

section

variable [Crypto]

def computeLinkId (destinationHash : Bytes 16) (requestData : List UInt8) : Bytes 16 :=
  truncatedHash ([0x02] ++ destinationHash.toList ++ [0x00] ++ requestData.take ecpubsize)

def buildLinkRequest (x25519Priv ed25519Seed : Bytes 32) (signalling : SignallingData)
    (outLen : Nat) : Except LinkError (List UInt8) := do
  let signalling ← signalling.fixedEndpoint
  refuseIf (outLen < linkRequestLen) .outputTooSmall
  return (Crypto.x25519Public x25519Priv).toList ++ (Crypto.ed25519Public ed25519Seed).toList ++
    signalling.pack.toList

/-- The signalling of a payload: its trailer, or the default where there is none. -/
def signallingAt (data : List UInt8) (offset : Nat) : SignallingData :=
  if data.length = offset + linkMtuSize then
    ((SignallingData.unpack (data.drop offset)).getD .defaultSignalling)
  else .defaultSignalling

end

structure LinkRequestView where
  peerX25519Pub : Bytes 32
  peerEd25519Pub : Bytes 32
  signalling : SignallingData
  deriving DecidableEq

def LinkRequestView.parse (data : List UInt8) : Except LinkError LinkRequestView := do
  refuseIf (data.length ≠ linkRequestLegacyLen ∧ data.length ≠ linkRequestLen) .invalidLength
  let signalling := signallingAt data ecpubsize
  let _ ← signalling.effectiveMtu
  return { peerX25519Pub := Bytes.slice 32 data 0, peerEd25519Pub := Bytes.slice 32 data keysize,
           signalling }

structure LinkProofView where
  signature : Bytes 64
  responderX25519Pub : Bytes 32
  signalling : SignallingData
  signallingPresent : Bool
  deriving DecidableEq

def LinkProofView.parse (data : List UInt8) : Except LinkError LinkProofView := do
  refuseIf (data.length ≠ linkProofLegacyLen ∧ data.length ≠ linkProofLen) .invalidLength
  let signalling := signallingAt data (signatureLength + keysize)
  let _ ← signalling.effectiveMtu
  return { signature := Bytes.slice 64 data 0
           responderX25519Pub := Bytes.slice 32 data signatureLength
           signalling
           signallingPresent := decide (data.length = linkProofLen) }

section

variable [Crypto]

def buildLinkProof (identity : LocalIdentity) (responderX25519Priv : Bytes 32)
    (linkId : Bytes 16) (signalling : SignallingData) (outLen : Nat) :
    Except LinkError (List UInt8) := do
  let signalling ← signalling.fixedEndpoint
  refuseIf (outLen < linkProofLen) .outputTooSmall
  let responderX25519Pub := Crypto.x25519Public responderX25519Priv
  let identityEd25519Pub := Bytes.slice 32 identity.publicKey.toList keysize
  let signed := linkId.toList ++ responderX25519Pub.toList ++ identityEd25519Pub.toList ++
    signalling.pack.toList
  return (identity.sign signed).toList ++ responderX25519Pub.toList ++ signalling.pack.toList

def LinkProofView.validate (p : LinkProofView) (identityPublicKey : Bytes 64)
    (linkId : Bytes 16) : Bool :=
  match p.signalling.fixedEndpoint with
  | .error _ => false
  | .ok _ =>
      let edPub := Bytes.slice 32 identityPublicKey.toList keysize
      let trailer := if p.signallingPresent then p.signalling.pack.toList else []
      verifySignature edPub
        (linkId.toList ++ p.responderX25519Pub.toList ++ edPub.toList ++ trailer) p.signature

/-! ### Session keys -/

/-- An HMAC key followed by an AES key. -/
structure LinkKeys where
  key : Bytes 64

def LinkKeys.derive (myX25519Priv peerX25519Pub : Bytes 32) (linkId : Bytes 16) : LinkKeys :=
  ⟨Crypto.hkdf linkId.toList (Crypto.x25519Shared myX25519Priv peerX25519Pub).toList 64⟩

def linkEncrypt (keys : LinkKeys) (plaintext : List UInt8) (iv : Bytes 16) (outLen : Nat) :
    Except CryptoError (List UInt8) :=
  textAt 0 (tokenEncryptInto linkPaddedMax plaintext keys.key iv (List.replicate outLen 0))

def linkDecrypt (keys : LinkKeys) (ciphertext : List UInt8) (outLen : Nat) :
    Except CryptoError (List UInt8) :=
  textAt 0 (tokenDecryptInto linkPaddedMax ciphertext keys.key (List.replicate outLen 0))

end

end ReticulumLite
