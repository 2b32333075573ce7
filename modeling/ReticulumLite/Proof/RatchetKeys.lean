import ReticulumLite.Proof.Tokens

/-!
# Decryption with several keys

A message is tried with one key after the other into the same buffer. A failed attempt leaves the
buffer as it was, so the first key whose attempt succeeds decides. A key whose tag does not match
fails; the key a message was encrypted to succeeds, because both parties derive the same secret.
-/

namespace ReticulumLite

open Bounded

section

variable [Crypto] {data out : List UInt8} {salt : Bytes 16} {priv : Bytes 32}

/-- The key a recipient derives checks the tag of a blob. -/
def AcceptsTag (priv : Bytes 32) (salt : Bytes 16) (data : List UInt8) : Prop :=
  (Crypto.hmacSha256 (hmacKey (blobKey priv salt data)).toList
    ((data.drop 32).take ((data.drop 32).length - 32))).toList =
      (data.drop 32).drop ((data.drop 32).length - 32)

def Fails (data : List UInt8) (salt : Bytes 16) (out : List UInt8) (priv : Bytes 32) : Prop :=
  ∃ e, eciesDecrypt data priv salt out = (out, .error e)

variable {e : CryptoError}

theorem eciesDecrypt_error (h : (eciesDecrypt data priv salt out).2 = .error e) :
    (eciesDecrypt data priv salt out).1 = out := by
  unfold eciesDecrypt at h ⊢
  dsimp only at h ⊢
  split_ifs at h ⊢
  · rfl
  · exact tokenDecryptInto_error h

variable {out' : List UInt8}

theorem fails_of_error (h : eciesDecrypt data priv salt out = (out', .error e)) :
    Fails data salt out priv := by
  have hout := eciesDecrypt_error (congrArg Prod.snd h)
  rw [h] at hout
  obtain rfl : out' = out := hout
  exact ⟨e, h⟩

variable {len : Nat}

theorem not_fails_of_ok (h : eciesDecrypt data priv salt out = (out', .ok len)) :
    ¬ Fails data salt out priv := by
  rintro ⟨e, hfails⟩
  rw [h] at hfails
  cases hfails

theorem fails_of_tag (h : ¬ AcceptsTag priv salt data) : Fails data salt out priv := by
  cases hkey : eciesDecrypt data priv salt out with
  | mk out' result =>
      cases result with
      | error e => exact fails_of_error hkey
      | ok len =>
          unfold eciesDecrypt tokenDecryptInto at hkey
          dsimp only at hkey
          split_ifs at hkey with hshort hlen htag
          · cases hkey
          · cases hkey
          · cases hkey
          · cases hkey
          · exact absurd (not_not.mp htag) h

/-- What trying the keys in order comes to: none of them decrypts the blob, or one does and none
before it. -/
theorem tryRatchets_spec (data : List UInt8) (salt : Bytes 16) (index : Nat)
    (ratchetPrivs : List (Bytes 32)) (out : List UInt8) :
    (tryRatchets data salt index ratchetPrivs out = (out, none) ∧
        ∀ priv ∈ ratchetPrivs, Fails data salt out priv) ∨
      ∃ i priv out' len, ratchetPrivs[i]? = some priv ∧
        eciesDecrypt data priv salt out = (out', .ok len) ∧
        tryRatchets data salt index ratchetPrivs out = (out', some (len, index + i)) ∧
        ∀ earlier ∈ ratchetPrivs.take i, Fails data salt out earlier := by
  induction ratchetPrivs generalizing index with
  | nil => exact .inl ⟨rfl, fun priv hpriv => absurd hpriv List.not_mem_nil⟩
  | cons first rest ih =>
      rw [tryRatchets]
      cases hfirst : eciesDecrypt data first salt out with
      | mk out' result =>
          cases result with
          | ok len =>
              refine .inr ⟨0, first, out', len, rfl, hfirst, rfl, ?_⟩
              intro earlier hearlier
              exact absurd hearlier List.not_mem_nil
          | error e =>
              have hfails := fails_of_error hfirst
              obtain rfl : out' = out := by
                obtain ⟨e', hsame⟩ := hfails
                exact (Prod.mk.inj (hfirst.symm.trans hsame)).1
              dsimp only
              rcases ih (index + 1) with ⟨hnone, hrest⟩ | ⟨i, priv, out', len, hi, hok, htry, hrest⟩
              · exact .inl ⟨hnone, List.forall_mem_cons.mpr ⟨hfails, hrest⟩⟩
              · refine .inr ⟨i + 1, priv, out', len, hi, hok, ?_, ?_⟩
                · rw [htry, Nat.add_right_comm, Nat.add_assoc]
                · exact List.forall_mem_cons.mpr ⟨hfails, hrest⟩

/-- The key a blob was made for decrypts it, into any buffer with room for the text. -/
theorem eciesDecrypt_blobOf (hcbc : CbcInverts) (hshared : X25519Commutes) {text : List UInt8}
    (target ephemeralPriv : Bytes 32) (salt iv : Bytes 16) (htext : text.length ≤ maxEciesPlaintext)
    (hroom : text.length ≤ out.length) :
    eciesDecrypt (blobOf (Crypto.x25519Public target) salt ephemeralPriv iv text) target salt out =
      (text ++ out.drop text.length, .ok text.length) := by
  have hkey : blobKey target salt (blobOf (Crypto.x25519Public target) salt ephemeralPriv iv text) =
      deriveTokenKey (Crypto.x25519Shared ephemeralPriv (Crypto.x25519Public target)) salt := by
    rw [blobKey, blobOf, Bytes.slice_toList_append, hshared]
  have htoken : (blobOf (Crypto.x25519Public target) salt ephemeralPriv iv text).drop 32 =
      tokenOf (blobKey target salt
        (blobOf (Crypto.x25519Public target) salt ephemeralPriv iv text)) iv text := by
    rw [hkey, blobOf]
    exact List.drop_left' (Bytes.length_toList _)
  rw [eciesDecrypt_eq hcbc htoken,
    tokenDecryptInto_tokenOf hcbc, if_pos (paddedLength_le_paddedMax.mpr htext), written,
    if_neg (not_lt.mpr hroom)]

/-! ### The ring -/

/-- The ring keys tried before the one that is reported, all of them when the key of the identity
decided. -/
def triedBefore (ratchetPrivs : List (Bytes 32)) : Option Nat → List (Bytes 32)
  | some index => ratchetPrivs.take index
  | none => ratchetPrivs

variable {ratchetPrivs : List (Bytes 32)} {base : Bytes 32}

/-- A message that only the target's key accepts is decrypted with the first place of that key. -/
theorem eciesDecryptWithRatchets_of_target {target : Bytes 32}
    (htarget : target ∈ ratchetPrivs ∨ target = base)
    (hok : eciesDecrypt data target salt out = (out', .ok len))
    (hothers : ∀ other ∈ ratchetPrivs, other ≠ target → ¬ AcceptsTag other salt data) :
    eciesDecryptWithRatchets data ratchetPrivs base salt out =
      (out', .ok (len, ratchetPrivs.findIdx? (· = target))) := by
  unfold eciesDecryptWithRatchets
  rcases tryRatchets_spec data salt 0 ratchetPrivs out with
    ⟨hnone, hfails⟩ | ⟨i, priv, out'', len', hi, hpriv, hsome, hfails⟩
  · have habsent : target ∉ ratchetPrivs := fun hmem => not_fails_of_ok hok (hfails target hmem)
    obtain rfl : target = base := htarget.resolve_left habsent
    have hfirst : ratchetPrivs.findIdx? (· = target) = none := by
      rw [List.findIdx?_eq_none_iff]
      intro priv hpriv
      exact decide_eq_false fun heq => habsent (heq ▸ hpriv)
    rw [hnone, hfirst]
    dsimp only
    rw [hok]
    rfl
  · obtain rfl : priv = target := by
      by_contra hother
      exact not_fails_of_ok hpriv (fails_of_tag (hothers priv (List.mem_of_getElem? hi) hother))
    have hfirst : ratchetPrivs.findIdx? (· = priv) = some i := by
      rw [List.findIdx?_eq_some_iff_getElem]
      obtain ⟨hlt, hget⟩ := List.getElem?_eq_some_iff.mp hi
      refine ⟨hlt, decide_eq_true hget, ?_⟩
      intro j hj hsame
      have hearlier : ratchetPrivs[j] ∈ ratchetPrivs.take i :=
        List.mem_take_iff_getElem.mpr ⟨j, by omega, rfl⟩
      rw [of_decide_eq_true hsame] at hearlier
      exact not_fails_of_ok hok (hfails priv hearlier)
    rw [hok] at hpriv
    cases hpriv
    rw [hsome, hfirst, Nat.zero_add]

theorem eciesDecryptWithRatchetHint_of_target {target : Bytes 32}
    (htarget : target ∈ ratchetPrivs ∨ target = base) :
    eciesDecryptWithRatchetHint data ratchetPrivs base salt
      (ratchetPrivs.findIdx? (· = target)) out = eciesDecrypt data target salt out := by
  unfold eciesDecryptWithRatchetHint
  cases hfirst : ratchetPrivs.findIdx? (· = target) with
  | none =>
      rw [List.findIdx?_eq_none_iff] at hfirst
      have habsent : target ∉ ratchetPrivs :=
        fun hmem => of_decide_eq_false (hfirst target hmem) rfl
      rw [htarget.resolve_left habsent]
  | some i =>
      obtain ⟨hlt, hget, _⟩ := List.findIdx?_eq_some_iff_getElem.mp hfirst
      dsimp only
      rw [List.getElem?_eq_getElem hlt, of_decide_eq_true hget]

theorem eciesDecryptWithRatchets_error
    (h : (eciesDecryptWithRatchets data ratchetPrivs base salt out).2 = .error e) :
    (eciesDecryptWithRatchets data ratchetPrivs base salt out).1 = out := by
  unfold eciesDecryptWithRatchets at h ⊢
  rcases tryRatchets_spec data salt 0 ratchetPrivs out with
    ⟨hnone, _⟩ | ⟨i, priv, out', len, _, _, hsome, _⟩
  · rw [hnone] at h ⊢
    dsimp only at h ⊢
    cases hbase : (eciesDecrypt data base salt out).2 with
    | ok len =>
        rw [hbase] at h
        cases h
    | error e => exact eciesDecrypt_error hbase
  · rw [hsome] at h
    cases h

theorem eciesDecryptWithRatchets_ok {index : Option Nat}
    (h : (eciesDecryptWithRatchets data ratchetPrivs base salt out).2 = .ok (len, index)) :
    ∀ earlier ∈ triedBefore ratchetPrivs index, Fails data salt out earlier := by
  unfold eciesDecryptWithRatchets at h
  rcases tryRatchets_spec data salt 0 ratchetPrivs out with
    ⟨hnone, hfails⟩ | ⟨i, priv, out', len', _, _, hsome, hfails⟩
  · rw [hnone] at h
    dsimp only at h
    cases hbase : (eciesDecrypt data base salt out).2 with
    | error e =>
        rw [hbase] at h
        cases h
    | ok len =>
        rw [hbase] at h
        cases h
        exact hfails
  · rw [hsome, Nat.zero_add] at h
    cases h
    exact hfails

/-- Decryption with a ring of keys finds the key a message was encrypted to, in its first place,
unless another key of the ring accepts the tag; it writes the text to the front of the buffer and
nothing after it, and the place it reports decrypts the message again. On any input a refusal leaves
the buffer as it was, and every key tried before the one reported fails alone. -/
theorem ratchets_find_key (hcbc : CbcInverts) (hshared : X25519Commutes)
    (ratchetPrivs : List (Bytes 32)) (base : Bytes 32) (salt : Bytes 16) :
    (∀ (target ephemeralPriv : Bytes 32) (iv : Bytes 16) (text enc : List UInt8),
      target ∈ ratchetPrivs ∨ target = base → text.length ≤ maxEciesPlaintext →
      eciesCiphertextLen text.length ≤ enc.length →
        ∃ data,
          textAt 0 (eciesEncrypt text (Crypto.x25519Public target) salt ephemeralPriv iv enc) =
            .ok data ∧
          ((∀ other ∈ ratchetPrivs, other ≠ target → ¬ AcceptsTag other salt data) →
            ∀ out : List UInt8, text.length ≤ out.length →
              eciesDecryptWithRatchets data ratchetPrivs base salt out =
                  (text ++ out.drop text.length,
                    .ok (text.length, ratchetPrivs.findIdx? (· = target))) ∧
                eciesDecryptWithRatchetHint data ratchetPrivs base salt
                    (ratchetPrivs.findIdx? (· = target)) out =
                  (text ++ out.drop text.length, .ok text.length))) ∧
    (∀ data out e, (eciesDecryptWithRatchets data ratchetPrivs base salt out).2 = .error e →
      (eciesDecryptWithRatchets data ratchetPrivs base salt out).1 = out) ∧
    ∀ data out len index,
      (eciesDecryptWithRatchets data ratchetPrivs base salt out).2 = .ok (len, index) →
        ∀ earlier ∈ triedBefore ratchetPrivs index, Fails data salt out earlier := by
  refine ⟨?_, fun _ _ _ h => eciesDecryptWithRatchets_error h,
    fun _ _ _ _ h => eciesDecryptWithRatchets_ok h⟩
  intro target ephemeralPriv iv text enc htarget htext henc
  refine ⟨blobOf (Crypto.x25519Public target) salt ephemeralPriv iv text, ?_, ?_⟩
  · rw [(eciesEncrypt_eq hcbc.keepsBlocks htext _ salt ephemeralPriv iv enc).2 henc]
    exact textAt_written (by rwa [length_blobOf hcbc.keepsBlocks])
  · intro hothers out hroom
    have hok := eciesDecrypt_blobOf hcbc hshared target ephemeralPriv salt iv htext hroom
    refine ⟨eciesDecryptWithRatchets_of_target htarget hok hothers, ?_⟩
    rw [eciesDecryptWithRatchetHint_of_target htarget, hok]

end

/-! ### A ring of two keys -/

private def oldRatchet : Bytes 32 := List.Vector.replicate 32 0x21

private def newRatchet : Bytes 32 := List.Vector.replicate 32 0x22

private def ephemeralKey : Bytes 32 := List.Vector.replicate 32 0x11

private def ringSalt : Bytes 16 := List.Vector.replicate 16 0x44

private def ringIv : Bytes 16 := List.Vector.replicate 16 0x55

/-- The X25519 public keys of the three private keys. -/
private def ephemeralPublic : Bytes 32 :=
  Bytes.ofNat 32 0x7b4e909bbe7ffe44c465a220037d608ee35897d31ef972f07f74892cb0f73f13

private def oldPublic : Bytes 32 :=
  Bytes.ofNat 32 0x7d34a4815fa6b982535e60af3bd9b49556816080f1641ff81d2b7c8ae8268a44

private def newPublic : Bytes 32 :=
  Bytes.ofNat 32 0x0faa684ed28867b97f4a6a2dee5df8ce974e76b7018e3f22a1c4cf2678570f20

/-- The X25519 secrets the ephemeral key shares with the two ratchets. -/
private def oldSecret : Bytes 32 :=
  Bytes.ofNat 32 0x1a76ab8e3e765cb1e800703bf76838cce95a102532226a7bf512e724a3a85b4a

private def newSecret : Bytes 32 :=
  Bytes.ofNat 32 0x9e004098efc091d4ec2663b4e9f5cfd4d7064571690b4bea97ab146ab9f35056

private def oldTokenKey : Bytes 64 :=
  ⟨(Bytes.ofNat 32 0x2b4369f2c8445cdb6ba89d0332a18518bc262a129e58595a256c56a9f5bed67d).toList ++
    (Bytes.ofNat 32 0x6d6ab4ae3940398a0de6d687997ad3d9da9302f0ec09ae2186567e400fb45f64).toList,
    by simp⟩

private def newTokenKey : Bytes 64 :=
  ⟨(Bytes.ofNat 32 0x3ed8a6e9e9f6093a5bbfde720165787c186c23ad9a2b6366da51a9054544ce48).toList ++
    (Bytes.ofNat 32 0x0019ec0f390e6499d5fc5cefab56cd98c5fe92cfb69b44c0468a777816f8376c).toList,
    by simp⟩

/-- The text `[7]` under its padding. -/
private def ringText : List UInt8 := 7 :: List.replicate 15 15

/-- Its AES-256-CBC ciphertext under the key of the new ratchet. -/
private def ringCipher : List UInt8 :=
  [137, 193, 80, 198, 42, 110, 245, 234, 208, 101, 241, 103, 185, 158, 14, 180]

/-- The HMAC-SHA256 of the vector and the ciphertext under either key. -/
private def oldTag : Bytes 32 :=
  Bytes.ofNat 32 0xe6d2a403db7534246e7e4300cc4e14c5522cb4858de549f137103678fd0c8451

private def newTag : Bytes 32 :=
  Bytes.ofNat 32 0x65ed15b913a292c4a162bcbd11a6e98c8313a903b4d25025087f3795f4ef0b0f

/-- Primitives that know what the encryption of `[7]` to the new ratchet and its decryption with
either ratchet compute. -/
@[reducible] private def twoRatchets : Crypto :=
  { Crypto.constant with
    x25519Public := fun priv =>
      if priv = ephemeralKey then ephemeralPublic
      else if priv = oldRatchet then oldPublic
      else if priv = newRatchet then newPublic
      else Bytes.zero
    hkdf := fun salt secret len =>
      if salt = ringSalt.toList ∧ secret = oldSecret.toList then
        Bytes.slice len oldTokenKey.toList 0
      else if salt = ringSalt.toList ∧ secret = newSecret.toList then
        Bytes.slice len newTokenKey.toList 0
      else Bytes.zero
    aes256CbcEncrypt := fun key iv text =>
      if key = aesKey newTokenKey ∧ iv = ringIv then Equiv.swap ringText ringCipher text else text
    aes256CbcDecrypt := fun key iv text =>
      if key = aesKey newTokenKey ∧ iv = ringIv then Equiv.swap ringText ringCipher text else text
    hmacSha256 := fun key text =>
      if key = (hmacKey oldTokenKey).toList ∧ text = ringIv.toList ++ ringCipher then oldTag
      else if key = (hmacKey newTokenKey).toList ∧ text = ringIv.toList ++ ringCipher then newTag
      else Bytes.zero }
  |>.sharing fun p q =>
    if (p = ephemeralPublic ∧ q = oldPublic) ∨ (p = oldPublic ∧ q = ephemeralPublic) then oldSecret
    else if (p = ephemeralPublic ∧ q = newPublic) ∨ (p = newPublic ∧ q = ephemeralPublic) then
      newSecret
    else Bytes.zero

private theorem twoRatchets_inverts : @CbcInverts twoRatchets :=
  (cbcBijects_of_swap twoRatchets ringText ringCipher rfl
    (fun key iv => key = aesKey newTokenKey ∧ iv = ringIv) (fun _ _ _ => rfl) (fun _ _ _ => rfl)).1

private theorem twoRatchets_commutes : @X25519Commutes twoRatchets :=
  Crypto.commutes_sharing _ fun p q => by simp only [or_comm, and_comm]

private def ringMessage : List UInt8 :=
  ephemeralPublic.toList ++ ringIv.toList ++ ringCipher ++ newTag.toList

theorem ratchets_find_key_twoRatchets :
    letI := twoRatchets
    textAt 0 (eciesEncrypt [7] newPublic ringSalt ephemeralKey ringIv (List.replicate 96 0)) =
        .ok ringMessage ∧
      eciesDecryptWithRatchets ringMessage [oldRatchet, newRatchet, newRatchet] Bytes.zero ringSalt
        [0, 9] = ([7, 9], .ok (1, some 1)) ∧
      eciesDecryptWithRatchetHint ringMessage [oldRatchet, newRatchet, newRatchet] Bytes.zero
        ringSalt (some 1) [0, 9] = ([7, 9], .ok 1) := by
  let _ := twoRatchets
  obtain ⟨hfinds, _, _⟩ := @ratchets_find_key twoRatchets twoRatchets_inverts twoRatchets_commutes
    [oldRatchet, newRatchet, newRatchet] Bytes.zero ringSalt
  obtain ⟨data, hencrypt, hdecrypt⟩ := hfinds newRatchet ephemeralKey ringIv [7]
    (List.replicate 96 0) (by decide) (by decide) (by decide)
  have hmessage : textAt 0 (eciesEncrypt [7] newPublic ringSalt ephemeralKey ringIv
      (List.replicate 96 0)) = .ok ringMessage := by
    decide +kernel
  obtain rfl : data = ringMessage := by
    have hpublic : Crypto.x25519Public newRatchet = newPublic := by decide +kernel
    rw [hpublic, hmessage] at hencrypt
    cases hencrypt
    rfl
  have hkey : blobKey oldRatchet ringSalt ringMessage = oldTokenKey := by decide +kernel
  have hold : ¬ AcceptsTag oldRatchet ringSalt ringMessage := by
    unfold AcceptsTag
    rw [hkey]
    decide +kernel
  have hothers : ∀ other ∈ [oldRatchet, newRatchet, newRatchet], other ≠ newRatchet →
      ¬ AcceptsTag other ringSalt ringMessage := by
    intro other hother hne
    obtain rfl : other = oldRatchet := by simpa [hne] using hother
    exact hold
  exact ⟨hmessage, hdecrypt hothers [0, 9] (by decide)⟩

end ReticulumLite
