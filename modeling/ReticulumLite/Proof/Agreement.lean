import ReticulumLite.Proof.LinkProofs
import ReticulumLite.Proof.Tokens

/-!
# Both ends of a link agree

The responder reads its peer's key and the link id off what is left of the request, which may have
lost its trailer on the way. The proof it signs holds for the initiator, and both derive one key.
-/

namespace ReticulumLite

open Bounded SignallingData

section

variable {rest : List UInt8} (hrest : rest = defaultSignalling.pack.toList ∨ rest = [])

include hrest

theorem signallingAt_append {front : List UInt8} {offset : Nat} (hfront : front.length = offset) :
    signallingAt (front ++ rest) offset = defaultSignalling := by
  unfold signallingAt
  rw [List.drop_left' hfront, List.length_append, hfront]
  rcases hrest with rfl | rfl
  · exact if_pos rfl
  · exact if_neg (by simp [linkMtuSize])

theorem LinkRequestView.parse_append (x25519 ed25519 : Bytes 32) :
    parse (x25519.toList ++ ed25519.toList ++ rest) = .ok ⟨x25519, ed25519, defaultSignalling⟩ := by
  unfold parse
  rw [signallingAt_append hrest (by simp), refuseIf_of_not]
  · rw [ok_bind, List.append_assoc, Bytes.slice_toList_append,
      Bytes.slice_between x25519.length_toList]
    rfl
  · rcases hrest with rfl | rfl <;> simp [linkRequestLen, linkMtuSize]

end

theorem LinkProofView.parse_append (signature : Bytes 64) (responder : Bytes 32) :
    parse (signature.toList ++ responder.toList ++ defaultSignalling.pack.toList) =
      .ok ⟨signature, responder, defaultSignalling, true⟩ := by
  have hlen : (signature.toList ++ responder.toList ++ defaultSignalling.pack.toList).length =
      linkProofLen := by
    rw [List.length_append, List.length_append, signature.length_toList, responder.length_toList]
    rfl
  unfold parse
  rw [signallingAt_append (.inl rfl) (by simp; rfl), refuseIf_of_not fun h => h.2 hlen, ok_bind,
    decide_eq_true hlen, List.append_assoc, Bytes.slice_toList_append,
    Bytes.slice_between signature.length_toList]
  rfl

section

variable [Crypto]

theorem linkDecrypt_linkEncrypt (hcbc : CbcBijects) (keys : LinkKeys) {text : List UInt8}
    (htext : paddedLength text.length ≤ linkPaddedMax) (iv : Bytes 16) {outLen : Nat}
    (hroom : paddedLength text.length + tokenOverhead ≤ outLen) :
    ∃ token, linkEncrypt keys text iv outLen = .ok token ∧
      ∀ n, text.length ≤ n → linkDecrypt keys token n = .ok text := by
  obtain ⟨token, htoken, hback⟩ := (tokensInvert hcbc).decryptEncrypt linkPaddedMax text keys.key iv
    (List.replicate outLen 0) htext (by rwa [List.length_replicate])
  exact ⟨token, htoken, fun n hn => hback (List.replicate n 0) (by rwa [List.length_replicate])⟩

/-- Whatever the keys, and whether or not a relay dropped the trailer of the request, the responder
accepts it under the initiator's link id. The proof it sends is valid for the initiator, who derives
the same key from it, and what either end encrypts the other decrypts. -/
theorem handshake_agrees (hcommutes : X25519Commutes) (hsigns : Ed25519Signs) (hcbc : CbcBijects)
    {x25519Priv ed25519Seed : Bytes 32} {signalling : SignallingData} {requestLen proofLen : Nat}
    {request payload : List UInt8}
    (hrequest : buildLinkRequest x25519Priv ed25519Seed signalling requestLen = .ok request)
    (hpayload : payload = request ∨ payload = request.take ecpubsize) (hproof : linkProofLen ≤ proofLen)
    (identity : LocalIdentity) (destinationHash : Bytes 16) (ephemeral : Bytes 32) (hops : UInt8)
    (nowMs : Nat) :
    ∃ session proof v,
      ResponderSession.accept identity destinationHash payload hops ephemeral nowMs proofLen =
        .ok (session, proof) ∧
      session.linkId = computeLinkId destinationHash request ∧
      LinkProofView.parse proof = .ok v ∧ v.validate identity.publicKey session.linkId = true ∧
      session.keys = LinkKeys.derive x25519Priv v.responderX25519Pub session.linkId ∧
      ∀ text iv outLen, paddedLength text.length ≤ linkPaddedMax →
        paddedLength text.length + tokenOverhead ≤ outLen →
        ∃ token, linkEncrypt session.keys text iv outLen = .ok token ∧
          ∀ n, text.length ≤ n → linkDecrypt session.keys token n = .ok text := by
  simp only [buildLinkRequest, bind_eq_ok, refuseIf_eq_ok, pure_eq_ok] at hrequest
  obtain ⟨sent, hsent, _, _, rfl⟩ := hrequest
  obtain ⟨_, _, rfl⟩ := fixedEndpoint_eq_ok.mp hsent
  have hfront : ((Crypto.x25519Public x25519Priv).toList ++
      (Crypto.ed25519Public ed25519Seed).toList).length = ecpubsize := by simp
  obtain ⟨rest, hrest, rfl⟩ : ∃ rest, (rest = defaultSignalling.pack.toList ∨ rest = []) ∧
      payload = (Crypto.x25519Public x25519Priv).toList ++
        (Crypto.ed25519Public ed25519Seed).toList ++ rest := by
    rcases hpayload with rfl | rfl
    · exact ⟨_, .inl rfl, rfl⟩
    · exact ⟨[], .inr rfl, by rw [List.take_left' hfront, List.append_nil]⟩
  let linkId := computeLinkId destinationHash ((Crypto.x25519Public x25519Priv).toList ++
    (Crypto.ed25519Public ed25519Seed).toList ++ rest)
  let message := linkId.toList ++ (Crypto.x25519Public ephemeral).toList ++
    (Bytes.slice 32 identity.publicKey.toList keysize).toList ++ defaultSignalling.pack.toList
  have hbuilt : buildLinkProof identity ephemeral linkId defaultSignalling proofLen =
      .ok ((identity.sign message).toList ++ (Crypto.x25519Public ephemeral).toList ++
        defaultSignalling.pack.toList) := by
    show (refuseIf (proofLen < linkProofLen) LinkError.outputTooSmall >>= fun _ => _) = _
    rw [refuseIf_of_not (not_lt.mpr hproof)]
    rfl
  have hverified := hsigns (Bytes.slice 32 identity.privateKey.toList 32) message
  rw [← identity.ed25519_publicKey] at hverified
  unfold ResponderSession.accept
  rw [LinkRequestView.parse_append hrest]
  show ∃ session proof v, ((buildLinkProof identity ephemeral linkId defaultSignalling
    proofLen).mapError SessionError.link >>= _) = _ ∧ _
  rw [hbuilt]
  refine ⟨_, _, _, rfl, ?_, LinkProofView.parse_append _ _, hverified, ?_,
    fun text iv outLen htext hroom => linkDecrypt_linkEncrypt hcbc _ htext iv hroom⟩
  · show linkId = _
    simp only [linkId, computeLinkId, List.take_left' hfront]
  · exact congrArg (fun secret => LinkKeys.mk (Crypto.hkdf linkId.toList secret.toList 64))
      (hcommutes ephemeral x25519Priv)

end

/-! ### A handshake with an identity of one's own

The initiator's X25519 key is the byte 0x33 throughout, its Ed25519 seed the byte 0x44 and the
initialization vector the byte 0x55. The values are those of the real primitives. -/

namespace KnownLink

def initiatorKey : Bytes 32 := List.Vector.replicate 32 0x33

def initiatorSeed : Bytes 32 := List.Vector.replicate 32 0x44

def ephemeralKey : Bytes 32 := List.Vector.replicate 32 0x11

def initiatorX25519 : Bytes 32 :=
  Bytes.ofNat 32 0x7b0d47d93427f8311160781c7c733fd89f88970aef490d8aa0ee19a4cb8a1b14

def initiatorEd25519 : Bytes 32 :=
  Bytes.ofNat 32 0xd759793bbc13a2819a827c76adb6fba8a49aee007f49f2d0992d99b825ad2c48

def request : List UInt8 :=
  initiatorX25519.toList ++ initiatorEd25519.toList ++ [0x20, 0x01, 0xf4]

def secret : Bytes 32 :=
  Bytes.ofNat 32 0x5bf22caf31c0316785b0b9bc60e56d48582ce59435ce5b3c028052be42631e0f

def key : Bytes 64 :=
  ⟨(Bytes.ofNat 32 0x891807d8cd60abf2cee9702f7203496a6ce775be83b83f7a751793326b275bee).toList ++
    (Bytes.ofNat 32 0x656212080ed6594e83b900d1afc676af73a57fe0da34279d9565ba522631c9c2).toList, by simp⟩

def iv : Bytes 16 := List.Vector.replicate 16 0x55

def text : List UInt8 := 7 :: List.replicate 15 15

def cipher : List UInt8 := (Bytes.ofNat 16 0x81be70fc40c7e6c3f878f8c8b16e746a).toList

def tag : Bytes 32 :=
  Bytes.ofNat 32 0x5463c18e585d19ced011a4ec0bafb161f915422e74f2f1bbc28d3e4cb869e364

def token : List UInt8 := iv.toList ++ cipher ++ tag.toList

/-- The primitives as far as this handshake needs them. -/
@[reducible] def crypto : Crypto :=
  { Crypto.constant with
    sha256 := fun data =>
      if data = [0x02] ++ OwnIdentity.destination.toList ++ [0x00] ++ initiatorX25519.toList ++
        initiatorEd25519.toList then digest else Bytes.zero
    x25519Public := fun priv =>
      if priv = initiatorKey then initiatorX25519
      else if priv = ephemeralKey then ephemeralPublic
      else OwnIdentity.x25519Key
    ed25519Public := fun seed =>
      if seed = initiatorSeed then initiatorEd25519 else OwnIdentity.ed25519Key
    hkdf := fun salt shared len =>
      if salt = linkId.toList ∧ shared = secret.toList then Bytes.slice len key.toList 0
      else Bytes.zero
    aes256CbcEncrypt := fun k v data =>
      if k = aesKey key ∧ v = iv then Equiv.swap text cipher data else data
    aes256CbcDecrypt := fun k v data =>
      if k = aesKey key ∧ v = iv then Equiv.swap text cipher data else data
    hmacSha256 := fun k data =>
      if k = (hmacKey key).toList ∧ data = iv.toList ++ cipher then tag else Bytes.zero }
  |>.sharing (fun p q =>
    if (p = initiatorX25519 ∧ q = ephemeralPublic) ∨ (p = ephemeralPublic ∧ q = initiatorX25519) then
      secret
    else Bytes.zero)
  |>.signing fun k message =>
    if k = OwnIdentity.ed25519Key ∧ message = signed then signature else Bytes.zero

theorem commutes : @X25519Commutes crypto :=
  Crypto.commutes_signing _ (Crypto.commutes_sharing _ fun p q => by simp only [or_comm, and_comm])

theorem bijects : @CbcBijects crypto :=
  cbcBijects_of_swap crypto text cipher rfl (fun k v => k = aesKey key ∧ v = iv)
    (fun _ _ _ => rfl) (fun _ _ _ => rfl)

end KnownLink

theorem handshake_agrees_knownLink :
    letI := KnownLink.crypto
    ∃ session v,
      buildLinkRequest KnownLink.initiatorKey KnownLink.initiatorSeed defaultSignalling 67 =
        .ok KnownLink.request ∧
      ResponderSession.accept OwnIdentity.identity OwnIdentity.destination KnownLink.request 1
        KnownLink.ephemeralKey 0 99 = .ok (session, KnownLink.proof) ∧
      session.linkId = KnownLink.linkId ∧ session.keys = ⟨KnownLink.key⟩ ∧
      LinkProofView.parse KnownLink.proof = .ok v ∧
      v.validate OwnIdentity.identity.publicKey KnownLink.linkId = true ∧
      linkEncrypt ⟨KnownLink.key⟩ [7] KnownLink.iv 64 = .ok KnownLink.token ∧
      linkDecrypt ⟨KnownLink.key⟩ KnownLink.token 1 = .ok [7] := by
  let _ := KnownLink.crypto
  have hrequest : buildLinkRequest KnownLink.initiatorKey KnownLink.initiatorSeed
      defaultSignalling 67 = .ok KnownLink.request := by
    decide +kernel
  obtain ⟨session, proof, v, haccept, hid, hparse, hvalid, hkeys, htokens⟩ := handshake_agrees
    KnownLink.commutes (Crypto.signs_signing _ _) KnownLink.bijects hrequest (.inl rfl)
    (show linkProofLen ≤ 99 from le_rfl) OwnIdentity.identity OwnIdentity.destination
    KnownLink.ephemeralKey 1 0
  have hlink : computeLinkId OwnIdentity.destination KnownLink.request = KnownLink.linkId := by
    decide +kernel
  have hproof : proof = KnownLink.proof := by
    have hsent : (ResponderSession.accept OwnIdentity.identity OwnIdentity.destination
        KnownLink.request 1 KnownLink.ephemeralKey 0 99).map Prod.snd = .ok KnownLink.proof := by
      decide +kernel
    rw [haccept] at hsent
    exact Except.ok.inj hsent
  subst hproof
  have hview : LinkProofView.parse KnownLink.proof =
      .ok ⟨KnownLink.signature, KnownLink.ephemeralPublic, defaultSignalling, true⟩ := by
    decide +kernel
  cases hparse.symm.trans hview
  have hderived : session.keys = ⟨KnownLink.key⟩ := by
    rw [hkeys, hid, hlink]
    exact congrArg LinkKeys.mk (by decide +kernel)
  have hencrypted : linkEncrypt ⟨KnownLink.key⟩ [7] KnownLink.iv 64 = .ok KnownLink.token := by
    decide +kernel
  obtain ⟨token, htoken, hopens⟩ := htokens [7] KnownLink.iv 64 (by decide) (by decide)
  rw [hderived] at htoken hopens
  cases htoken.symm.trans hencrypted
  rw [hid, hlink] at hvalid
  exact ⟨session, _, hrequest, haccept, hid.trans hlink, hderived, hview, hvalid, hencrypted,
    hopens 1 le_rfl⟩

end ReticulumLite
