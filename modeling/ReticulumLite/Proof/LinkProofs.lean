import ReticulumLite.Link.Session
import ReticulumLite.Node.Forwarding
import ReticulumLite.Proof.Codec

/-!
# Proofs of links in transit

What a relay checks of a link proof is what an endpoint checks. The endpoint repacks the signalling
trailer it parsed, the relay takes the bytes as they came; they agree because the trailer is a code
on its three bytes.
-/

namespace ReticulumLite

open Bounded

namespace LinkProofView

def rawTrailer (proof : List UInt8) : List UInt8 :=
  if proof.length = 99 then (proof.drop 96).take 3 else []

theorem parse_eq_ok {proof : List UInt8} {v : LinkProofView} (h : parse proof = .ok v) :
    (proof.length = 96 ∨ proof.length = 99) ∧ v.signature = Bytes.slice 64 proof 0 ∧
      v.responderX25519Pub = Bytes.slice 32 proof 64 ∧ v.signalling = signallingAt proof 96 ∧
      v.signallingPresent = decide (proof.length = 99) := by
  simp only [parse, bind_eq_ok, refuseIf_eq_ok, pure_eq_ok] at h
  obtain ⟨_, hlen, _, _, rfl⟩ := h
  refine ⟨?_, rfl, rfl, rfl, rfl⟩
  simp only [linkProofLegacyLen, linkProofLen, signatureLength, keysize, linkMtuSize] at hlen
  omega

theorem trailer_eq {proof : List UInt8} {v : LinkProofView} (h : parse proof = .ok v) :
    (if v.signallingPresent then v.signalling.pack.toList else []) = rawTrailer proof := by
  obtain ⟨_, _, _, hsig, hpresent⟩ := parse_eq_ok h
  rw [hpresent, rawTrailer]
  by_cases hlen : proof.length = 99
  · have hdrop : (proof.drop 96).length = 3 := by
      rw [List.length_drop]
      omega
    obtain ⟨sig, hunpack⟩ : ∃ sig, SignallingData.unpack (proof.drop 96) = some sig := by
      unfold SignallingData.unpack
      rw [if_neg (by omega)]
      exact ⟨_, rfl⟩
    have hsig' : v.signalling = sig := by
      rw [hsig, signallingAt, if_pos (by simp only [linkMtuSize]; omega), hunpack]
      rfl
    rw [if_pos (by simpa using hlen), if_pos hlen, hsig', SignallingData.pack_unpack hdrop hunpack]
    exact (List.take_of_length_le (by rw [hdrop])).symm
  · rw [if_neg (by simpa using hlen), if_neg hlen]

theorem validate_iff [Crypto] {proof : List UInt8} {v : LinkProofView} (h : parse proof = .ok v)
    (key : Bytes 64) (linkId : Bytes 16) : v.validate key linkId = true ↔
      v.signalling.mode = modeAes256Cbc ∧ v.signalling.effectiveMtu = .ok 500 ∧
        verifySignature (Bytes.slice 32 key.toList 32)
          (linkId.toList ++ (Bytes.slice 32 proof 64).toList ++
            (Bytes.slice 32 key.toList 32).toList ++ rawTrailer proof)
          (Bytes.slice 64 proof 0) = true := by
  obtain ⟨_, hsignature, hresponder, _, _⟩ := parse_eq_ok h
  rw [← trailer_eq h, ← hresponder, ← hsignature]
  unfold validate
  cases hfixed : v.signalling.fixedEndpoint with
  | error e =>
      simp only [Bool.false_eq_true, false_iff]
      rintro ⟨hmode, hmtu, _⟩
      rw [SignallingData.fixedEndpoint_eq_ok.mpr ⟨hmode, hmtu, rfl⟩] at hfixed
      cases hfixed
  | ok sig =>
      obtain ⟨hmode, hmtu, _⟩ := SignallingData.fixedEndpoint_eq_ok.mp hfixed
      simp [hmode, hmtu]

end LinkProofView

namespace LiteNode

variable {K : Capacities} {m : Model} [Crypto]

omit [Crypto] in
theorem exceedsCeiling_eq_false {signalling : SignallingData} {ceiling : Nat} :
    exceedsCeiling signalling ceiling = false ↔
      ∃ mtu, signalling.effectiveMtu = .ok mtu ∧ mtu ≤ ceiling := by
  unfold exceedsCeiling
  cases signalling.effectiveMtu <;> simp

/-- What a relay accepts: a proof of the requested mode, of a size the link can carry, signed by the
key its request recorded. -/
structure AcceptsLrproof (s : LiteNode K m) (proof : List UInt8) (linkId : Hash16)
    (link : LinkEntry) : Prop where
  parsed : ∃ v, LinkProofView.parse proof = .ok v ∧ v.signalling.mode = link.requestedMode ∧
    ∃ mtu, v.signalling.effectiveMtu = .ok mtu ∧ mtu ≤ link.acceptedMtuCeiling
  receiving : s.linkCapable link.receivingInterface = true
  outbound : s.linkCapable link.outboundInterface = true
  signed : ∃ key, link.destinationEd25519 = some key ∧
    verifySignature key (linkId.toList ++ (Bytes.slice 32 proof 64).toList ++ key.toList ++
      LinkProofView.rawTrailer proof) (Bytes.slice 64 proof 0) = true

theorem validateTransitLrproof_iff {s : LiteNode K m} {raw : List UInt8} {header : PacketHeader}
    {link : LinkEntry} : s.validateTransitLrproof raw header link = true ↔
      header.size ≤ raw.length ∧
        s.AcceptsLrproof (raw.drop header.size) header.destinationHash link := by
  unfold validateTransitLrproof
  by_cases hsize : raw.length < header.size
  · simp [hsize, not_le.mpr hsize]
  rw [if_neg hsize]
  generalize raw.drop header.size = proof
  have hle : header.size ≤ raw.length := not_lt.mp hsize
  by_cases hlen : proof.length ≠ 96 ∧ proof.length ≠ 99
  · rw [if_pos hlen]
    simp only [Bool.false_eq_true, false_iff]
    rintro ⟨_, ⟨v, hv, _⟩, _⟩
    have := (LinkProofView.parse_eq_ok hv).1
    omega
  rw [if_neg hlen]
  cases hparse : LinkProofView.parse proof with
  | error e =>
      simp only [Bool.false_eq_true, false_iff]
      rintro ⟨_, ⟨v, hv, _⟩, _⟩
      rw [hparse] at hv
      cases hv
  | ok v =>
      -- the relay cuts the responder key out by position
      have hresponder : (proof.drop 64).take 32 = (Bytes.slice 32 proof 64).toList := by
        rw [Bytes.toList_slice]
        omega
      have htrailer : (if proof.length = 99 then (proof.drop 96).take 3 else []) =
          LinkProofView.rawTrailer proof := rfl
      simp only [hresponder, htrailer]
      by_cases hguard : v.signalling.mode ≠ link.requestedMode ∨
          exceedsCeiling v.signalling link.acceptedMtuCeiling = true ∨
          s.linkCapable link.receivingInterface = false ∨
          s.linkCapable link.outboundInterface = false
      · rw [if_pos hguard]
        simp only [Bool.false_eq_true, false_iff]
        rintro ⟨_, ⟨v', hv', hmode, hmtu⟩, hrecv, hout, _⟩
        cases hparse.symm.trans hv'
        simp [hmode, exceedsCeiling_eq_false.mpr hmtu, hrecv, hout] at hguard
      rw [if_neg hguard]
      simp only [not_or, not_not, Bool.not_eq_true, Bool.not_eq_false] at hguard
      obtain ⟨hmode, hmtu, hrecv, hout⟩ := hguard
      have hparsed : ∃ v, LinkProofView.parse proof = .ok v ∧
          v.signalling.mode = link.requestedMode ∧
          ∃ mtu, v.signalling.effectiveMtu = .ok mtu ∧ mtu ≤ link.acceptedMtuCeiling :=
        ⟨v, hparse, hmode, exceedsCeiling_eq_false.mp hmtu⟩
      cases hkey : link.destinationEd25519 with
      | none =>
          simp only [Bool.false_eq_true, false_iff]
          rintro ⟨_, _, _, _, key, hkey', _⟩
          rw [hkey] at hkey'
          cases hkey'
      | some key =>
          constructor
          · intro h
            exact ⟨hle, hparsed, hrecv, hout, key, hkey, h⟩
          · rintro ⟨_, _, _, _, key', hkey', hsig⟩
            cases hkey.symm.trans hkey'
            exact hsig

/-- A relay accepts exactly the link proofs an endpoint accepts, where the link asked for the mode
and the size an endpoint supports. -/
theorem validateTransitLrproof_iff_validate (s : LiteNode K m) (p raw : List UInt8)
    (header : PacketHeader) (linkId : Hash16) (key : Bytes 64) (link : LinkEntry)
    (hpayload : header.size ≤ raw.length ∧ raw.drop header.size = p)
    (hdestination : header.destinationHash = linkId) (hmode : link.requestedMode = 1)
    (hceiling : link.acceptedMtuCeiling = 500)
    (hkey : link.destinationEd25519 = some (Bytes.slice 32 key.toList 32))
    (hreceiving : s.requireLinkCapacity link.receivingInterface = .ok ())
    (houtbound : s.requireLinkCapacity link.outboundInterface = .ok ()) :
    s.validateTransitLrproof raw header link = true ↔
      ∃ v, LinkProofView.parse p = .ok v ∧ v.validate key linkId = true := by
  obtain ⟨hsize, rfl⟩ := hpayload
  subst hdestination
  rw [validateTransitLrproof_iff]
  constructor
  · rintro ⟨_, ⟨v, hv, hvmode, mtu, hmtu, hle⟩, _, _, key', hkey', hsig⟩
    obtain rfl := Option.some.inj (hkey.symm.trans hkey')
    -- the wire allows no MTU below the ceiling, so a value within it is the ceiling
    have hmtu500 : mtu = 500 := by
      rcases SignallingData.effectiveMtu_eq_ok.mp hmtu with ⟨_, rfl⟩ | ⟨hge, _, rfl⟩ <;> omega
    subst hmtu500
    exact ⟨v, hv, (LinkProofView.validate_iff hv key _).mpr ⟨hvmode.trans hmode, hmtu, hsig⟩⟩
  · rintro ⟨v, hv, hvalid⟩
    obtain ⟨hvmode, hmtu, hsig⟩ := (LinkProofView.validate_iff hv key _).mp hvalid
    refine ⟨hsize, ⟨v, hv, hvmode.trans hmode.symm, 500, hmtu, hceiling.ge⟩, ?_, ?_, _, hkey, hsig⟩
    · rw [linkCapable, hreceiving]
      rfl
    · rw [linkCapable, houtbound]
      rfl

end LiteNode

section Witness

open LiteNode

def smallCapacities : Capacities := ⟨2, 2, 2, 2, 2, 2, 4, 2, 2⟩

def smallConfig : LiteConfig :=
  { mode := .full, tableCaps := ⟨2, 2, 2, 2, 2, 2, 2, 2⟩, mtu := 500, mdu := 464,
    maxAnnounceAppData := 0, transportEnabled := true, probeDestinationEnabled := false,
    ifac := none, announceAdmission := ⟨0, 0, 0⟩ }

/-! ### A link to an identity of one's own

`OwnIdentity` answers a request with the byte 0x11 throughout as its ephemeral key. The key, the
digest the link id is cut from and the signature are those of X25519, SHA-256 and Ed25519. -/

namespace KnownLink

def ephemeralPublic : Bytes 32 :=
  Bytes.ofNat 32 0x7b4e909bbe7ffe44c465a220037d608ee35897d31ef972f07f74892cb0f73f13

def digest : Bytes 32 :=
  Bytes.ofNat 32 0x23f0e19cc3e391bf5e98ddb6e492b1da0d04957aa40826b184c64eaed90bde01

def linkId : Bytes 16 := Bytes.slice 16 digest.toList 0

def signed : List UInt8 :=
  linkId.toList ++ ephemeralPublic.toList ++ OwnIdentity.ed25519Key.toList ++ [0x20, 0x01, 0xf4]

def signature : Bytes 64 :=
  ⟨(Bytes.ofNat 32 0x8d6be210387ca6d4f7ee51bc3d7b1ae8ec0dfd94bff3ed4c47945835fceac0fe).toList ++
    (Bytes.ofNat 32 0x1024b00d4bd34545f204015ec747d09ec469742f0c4fd42f08d6b8ddca8a8302).toList, by simp⟩

def proof : List UInt8 := signature.toList ++ ephemeralPublic.toList ++ [0x20, 0x01, 0xf4]

end KnownLink

private def knownLink : LinkEntry :=
  { linkId := KnownLink.linkId, destinationEd25519 := some OwnIdentity.ed25519Key,
    receivingInterface := 1, outboundInterface := 2, remainingHops := 1, takenHops := 1,
    requestedMode := 1, acceptedMtuCeiling := 500, validated := false, expiresMs := 1 }

theorem validateTransitLrproof_iff_validate_knownLink :
    letI := Crypto.known [] [(OwnIdentity.ed25519Key, KnownLink.signed, KnownLink.signature)]
    let s : LiteNode smallCapacities .endpoint := newConst smallConfig Bytes.zero
    let header := linkHeader KnownLink.linkId .proof .lrproof
    let key : Bytes 64 := ⟨OwnIdentity.x25519Key.toList ++ OwnIdentity.ed25519Key.toList, by simp⟩
    KnownLink.proof.length = linkProofLen ∧
      s.validateTransitLrproof (header.bytes ++ KnownLink.proof) header knownLink = true ∧
      ∃ v, LinkProofView.parse KnownLink.proof = .ok v ∧ v.validate key KnownLink.linkId = true := by
  intro s header key
  let _ := Crypto.known [] [(OwnIdentity.ed25519Key, KnownLink.signed, KnownLink.signature)]
  have hrelay : s.validateTransitLrproof (header.bytes ++ KnownLink.proof) header knownLink = true := by
    decide +kernel
  refine ⟨by decide +kernel, hrelay, (validateTransitLrproof_iff_validate s KnownLink.proof
    (header.bytes ++ KnownLink.proof) header KnownLink.linkId key knownLink ?_ rfl rfl rfl ?_ ?_
    ?_).mp hrelay⟩ <;> decide +kernel

end Witness

end ReticulumLite
