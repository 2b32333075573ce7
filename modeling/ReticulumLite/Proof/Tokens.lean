import Mathlib.Logic.Equiv.Basic
import ReticulumLite.Link.Ecies

/-!
# Tokens

A text has one token under a key and an initialization vector. Both encryptions write that token,
and both decryptions accept exactly the strings that are the token of some text: what unpads is the
padding of one text, and AES-CBC is invertible on whole blocks. The two implementations keep the
text at different places, and their results are read off the token.
-/

namespace ReticulumLite

open Bounded

/-! ### Padding -/

def padded (text : List UInt8) : List UInt8 :=
  text ++ List.replicate (16 - text.length % 16) (UInt8.ofNat (16 - text.length % 16))

theorem length_padded (text : List UInt8) : (padded text).length = paddedLength text.length := by
  simp [padded, paddedLength]

theorem paddedLength_blocks (len : Nat) : paddedLength len % 16 = 0 := by
  unfold paddedLength
  omega

theorem le_paddedLength (len : Nat) : 16 ≤ paddedLength len := by
  unfold paddedLength
  omega

theorem between_padded {front : List UInt8} {start : Nat} (h : front.length = start)
    (text rest : List UInt8) :
    between (front ++ padded text ++ rest) start (start + text.length) = text := by
  subst h
  have hread := between_append front text (List.replicate (16 - text.length % 16)
    (UInt8.ofNat (16 - text.length % 16)) ++ rest)
  simpa only [padded, List.append_assoc] using hread

theorem pkcs7Pad_eq (text : List UInt8) (outLen : Nat) :
    pkcs7Pad text outLen =
      if outLen < paddedLength text.length then .error .outputTooSmall else .ok (padded text) :=
  rfl

theorem pkcs7Unpad_padded (text : List UInt8) : pkcs7Unpad (padded text) = .ok text :=
  pkcs7Unpad_pad (pkcs7Pad_eq_ok.mpr ⟨le_rfl, rfl⟩)

theorem pkcs7Unpad_error {data : List UInt8} {e : CryptoError} (h : pkcs7Unpad data = .error e) :
    e = .authenticationFailed := by
  unfold pkcs7Unpad at h
  dsimp only at h
  split_ifs at h <;> exact (Except.error.inj h).symm

/-- Whole blocks that unpad to a text are its padding: the last byte can only be the number of bytes
the text lacks. -/
theorem eq_padded {data text : List UInt8} (hblocks : data.length % 16 = 0)
    (h : pkcs7Unpad data = .ok text) : data = padded text := by
  unfold pkcs7Unpad at h
  dsimp only at h
  generalize (byteAt data (data.length - 1)).toNat = pad at h
  split_ifs at h with hempty hrange hall
  have htext : data.take (data.length - pad) = text := Except.ok.inj h
  have hlen : text.length = data.length - pad := by
    rw [← htext, List.length_take]
    omega
  have hmod : 16 - text.length % 16 = pad := by omega
  have hreplicate : data.drop (data.length - pad) = List.replicate pad (UInt8.ofNat pad) := by
    rw [List.eq_replicate_iff]
    constructor
    · rw [List.length_drop]
      omega
    · intro b hb
      have hbyte : b.toNat = pad := by simpa using List.all_eq_true.mp hall b hb
      rw [← hbyte, UInt8.ofNat_toNat]
  calc data = data.take (data.length - pad) ++ data.drop (data.length - pad) :=
        (List.take_append_drop _ _).symm
    _ = padded text := by rw [htext, hreplicate, padded, hmod]

section

variable [Crypto]

/-! ### The token of a text -/

def signedPart (key : Bytes 64) (iv : Bytes 16) (text : List UInt8) : List UInt8 :=
  iv.toList ++ Crypto.aes256CbcEncrypt (aesKey key) iv (padded text)

def tokenOf (key : Bytes 64) (iv : Bytes 16) (text : List UInt8) : List UInt8 :=
  signedPart key iv text ++ (Crypto.hmacSha256 (hmacKey key).toList (signedPart key iv text)).toList

variable {key : Bytes 64} {iv : Bytes 16} {text data : List UInt8}

theorem length_signedPart (hcbc : CbcKeepsBlocks) (key : Bytes 64) (iv : Bytes 16)
    (text : List UInt8) : (signedPart key iv text).length = 16 + paddedLength text.length := by
  have hblocks : (padded text).length % 16 = 0 := by
    rw [length_padded]
    exact paddedLength_blocks _
  rw [signedPart, List.length_append, Bytes.length_toList, hcbc (aesKey key) iv _ hblocks,
    length_padded]

theorem length_tokenOf (hcbc : CbcKeepsBlocks) (key : Bytes 64) (iv : Bytes 16)
    (text : List UInt8) :
    (tokenOf key iv text).length = paddedLength text.length + tokenOverhead := by
  rw [tokenOf, List.length_append, Bytes.length_toList, length_signedPart hcbc]
  simp only [tokenOverhead]
  omega

section

variable (key iv text)

theorem tokenOf_length_sub :
    (tokenOf key iv text).length - 32 = (signedPart key iv text).length := by
  simp [tokenOf]

theorem take_tokenOf :
    (tokenOf key iv text).take (signedPart key iv text).length = signedPart key iv text :=
  List.take_left

theorem slice_tokenOf : Bytes.slice 16 (tokenOf key iv text) 0 = iv := by
  simp only [tokenOf, signedPart, List.append_assoc]
  exact Bytes.slice_toList_append iv _

theorem slice_signedPart : Bytes.slice 16 (signedPart key iv text) 0 = iv :=
  Bytes.slice_toList_append iv _

theorem drop_signedPart :
    (signedPart key iv text).drop 16 = Crypto.aes256CbcEncrypt (aesKey key) iv (padded text) :=
  List.drop_left' (by simp)

end

/-- What the two decryptions check before they decrypt: the shape of a token, and its tag. -/
def Authentic (key : Bytes 64) (data : List UInt8) : Prop :=
  16 + 16 + 32 ≤ data.length ∧
    (Crypto.hmacSha256 (hmacKey key).toList (data.take (data.length - 32))).toList =
      data.drop (data.length - 32) ∧
    (data.length - 32 - 16) % 16 = 0

theorem Authentic.eq_tokenOf (hcbc : CbcBijects) (h : Authentic key data)
    (hunpad : pkcs7Unpad (Crypto.aes256CbcDecrypt (aesKey key) (Bytes.slice 16 data 0)
      (between data 16 (data.length - 32))) = .ok text) :
    data = tokenOf key (Bytes.slice 16 data 0) text := by
  obtain ⟨hlen, htag, hblocks⟩ := h
  have hcipher : (between data 16 (data.length - 32)).length % 16 = 0 := by
    rw [length_between, min_eq_left (Nat.sub_le _ _)]
    exact hblocks
  obtain ⟨hkeeps, hinv⟩ := hcbc.2 (aesKey key) (Bytes.slice 16 data 0) _ hcipher
  have hpadded := eq_padded (by rw [hkeeps]; exact hcipher) hunpad
  rw [hpadded] at hinv
  have hsigned : signedPart key (Bytes.slice 16 data 0) text = data.take (data.length - 32) := by
    rw [signedPart, hinv, Bytes.toList_slice (by omega), List.drop_zero, between]
    conv_rhs => rw [← List.take_append_drop 16 (data.take (data.length - 32))]
    rw [List.take_take, min_eq_left (by omega)]
  rw [tokenOf, hsigned, htag, List.take_append_drop]

/-! ### Encryption -/

/-- A buffer after a string was written to its front, with the length of the string, where it fits. -/
def written (out token : List UInt8) : List UInt8 × Except CryptoError Nat :=
  if out.length < token.length then (out, .error .outputTooSmall)
  else (token ++ out.drop token.length, .ok token.length)

variable {out token : List UInt8}

omit [Crypto] in
theorem textAt_written (h : token.length ≤ out.length) :
    textAt 0 (written out token) = .ok token := by
  rw [written, if_neg (not_lt.mpr h), textAt]
  have hread := between_append [] token (out.drop token.length)
  exact congrArg Except.ok hread

omit [Crypto] in
theorem textAt_written_eq {out' : List UInt8}
    (h : token.length ≤ out.length ↔ token.length ≤ out'.length) :
    textAt 0 (written out token) = textAt 0 (written out' token) := by
  by_cases hroom : token.length ≤ out.length
  · rw [textAt_written hroom, textAt_written (h.mp hroom)]
  · rw [written, written, if_pos (by omega), if_pos (by omega)]
    rfl

omit [Crypto] in
theorem written_error {e : CryptoError} (h : (written out token).2 = .error e) :
    (written out token).1 = out := by
  unfold written at h ⊢
  split_ifs at h ⊢ with hsmall
  rfl

variable {padMax : Nat}

theorem tokenEncryptInto_of_long (h : padMax < paddedLength text.length) (out : List UInt8) :
    tokenEncryptInto padMax text key iv out = (out, .error .plaintextTooLong) := by
  unfold tokenEncryptInto
  rw [pkcs7Pad_eq, if_pos h]

theorem tokenEncryptInto_eq (hcbc : CbcKeepsBlocks) (h : paddedLength text.length ≤ padMax)
    (out : List UInt8) :
    tokenEncryptInto padMax text key iv out = written out (tokenOf key iv text) := by
  have hpadded := length_padded text
  have hcipher : (Crypto.aes256CbcEncrypt (aesKey key) iv (padded text)).length =
      paddedLength text.length := by
    rw [hcbc _ _ _ (by rw [hpadded]; exact paddedLength_blocks _), hpadded]
  unfold tokenEncryptInto written
  rw [pkcs7Pad_eq, if_neg (not_lt.mpr h), length_tokenOf hcbc]
  dsimp only
  rw [hpadded]
  by_cases hroom : out.length < 16 + paddedLength text.length + 32
  · rw [if_pos hroom, if_pos (by simp only [tokenOverhead]; omega)]
  · rw [if_neg hroom, if_neg (by simp only [tokenOverhead]; omega)]
    -- the vector, the padded text, the cipher over it and the tag are written one after another
    have hiv : overwrite out 0 iv.toList = iv.toList ++ out.drop 16 := by
      rw [overwrite_zero, Bytes.length_toList]
    have htext : overwrite (iv.toList ++ out.drop 16) 16 (padded text) =
        iv.toList ++ padded text ++ out.drop (16 + paddedLength text.length) := by
      rw [overwrite_append (by simp), hpadded, List.drop_drop]
    have hread : between (iv.toList ++ padded text ++ out.drop (16 + paddedLength text.length)) 16
        (16 + paddedLength text.length) = padded text := by
      have h16 := between_append iv.toList (padded text)
        (out.drop (16 + paddedLength text.length))
      rwa [Bytes.length_toList, hpadded] at h16
    have hsigned : overwrite
        (iv.toList ++ padded text ++ out.drop (16 + paddedLength text.length)) 16
        (Crypto.aes256CbcEncrypt (aesKey key) iv (padded text)) =
        signedPart key iv text ++ out.drop (16 + paddedLength text.length) := by
      rw [List.append_assoc, overwrite_append (by simp), hcipher, ← hpadded, List.drop_left,
        signedPart]
    have htotal : paddedLength text.length + tokenOverhead = 16 + paddedLength text.length + 32 := by
      simp only [tokenOverhead]
      omega
    rw [hiv, htext, hread, hsigned, htotal, ← length_signedPart hcbc key iv text, List.take_left,
      overwrite_append rfl, List.drop_drop, Bytes.length_toList, tokenOf]

theorem tokenEncryptInPlace_eq (hcbc : CbcKeepsBlocks) {buf : List UInt8}
    (h : between buf 16 (16 + text.length) = text) :
    tokenEncryptInPlace key iv buf text.length = written buf (tokenOf key iv text) := by
  unfold tokenEncryptInPlace written
  rw [length_tokenOf hcbc]
  dsimp only
  rw [h]
  rfl

/-! ### Decryption -/

theorem authentic_tokenOf (hcbc : CbcKeepsBlocks) (key : Bytes 64) (iv : Bytes 16)
    (text : List UInt8) : Authentic key (tokenOf key iv text) := by
  have hsigned := length_signedPart hcbc key iv text
  have hpos := le_paddedLength text.length
  have hblocks := paddedLength_blocks text.length
  unfold Authentic
  rw [tokenOf_length_sub, take_tokenOf, length_tokenOf hcbc, hsigned]
  refine ⟨by simp only [tokenOverhead]; omega, ?_, by omega⟩
  rw [← hsigned]
  exact List.drop_left.symm

theorem tokenDecryptInPlace_tokenOf (hcbc : CbcInverts) (key : Bytes 64) (iv : Bytes 16)
    (text : List UInt8) :
    tokenDecryptInPlace key (tokenOf key iv text) =
      (iv.toList ++ padded text ++
        (Crypto.hmacSha256 (hmacKey key).toList (signedPart key iv text)).toList,
        .ok text.length) := by
  obtain ⟨hlong, htag, hblocks⟩ := authentic_tokenOf hcbc.keepsBlocks key iv text
  have hinv := (hcbc (aesKey key) iv (padded text)
    (by rw [length_padded]; exact paddedLength_blocks _)).2
  have hcipher : between (tokenOf key iv text) 16 (signedPart key iv text).length =
      Crypto.aes256CbcEncrypt (aesKey key) iv (padded text) := by
    rw [between, take_tokenOf, drop_signedPart]
  have hiv : (tokenOf key iv text).take 16 = iv.toList := by
    rw [tokenOf, signedPart, List.append_assoc, List.take_left' (Bytes.length_toList iv)]
  unfold tokenDecryptInPlace
  dsimp only
  rw [if_neg (not_lt.mpr hlong), if_neg (not_not.mpr htag), if_neg (not_not.mpr hblocks),
    tokenOf_length_sub, hcipher, slice_tokenOf, hinv, pkcs7Unpad_padded, hiv]
  dsimp only
  rw [tokenOf, List.drop_left]

theorem tokenDecryptInto_tokenOf (hcbc : CbcInverts) (key : Bytes 64) (iv : Bytes 16)
    (out : List UInt8) :
    tokenDecryptInto padMax (tokenOf key iv text) key out =
      if paddedLength text.length ≤ padMax then written out text
      else (out, .error .authenticationFailed) := by
  obtain ⟨hlong, htag, _⟩ := authentic_tokenOf hcbc.keepsBlocks key iv text
  obtain ⟨hkeeps, hinv⟩ := hcbc (aesKey key) iv (padded text)
    (by rw [length_padded]; exact paddedLength_blocks _)
  have hpos := le_paddedLength text.length
  have hblocks := paddedLength_blocks text.length
  have hshape : (Crypto.aes256CbcEncrypt (aesKey key) iv (padded text)).isEmpty ∨
      (Crypto.aes256CbcEncrypt (aesKey key) iv (padded text)).length % 16 ≠ 0 ∨
      (Crypto.aes256CbcEncrypt (aesKey key) iv (padded text)).length > padMax ↔
        ¬ paddedLength text.length ≤ padMax := by
    rw [List.isEmpty_iff, ← List.length_eq_zero_iff, hkeeps, length_padded]
    omega
  unfold tokenDecryptInto
  dsimp only
  rw [if_neg (not_lt.mpr hlong), if_neg (not_not.mpr htag), tokenOf_length_sub, take_tokenOf,
    drop_signedPart, slice_signedPart, hinv, pkcs7Unpad_padded]
  simp only [hshape, ite_not, overwrite_zero, written]

theorem tokenDecryptInto_error {e : CryptoError}
    (h : (tokenDecryptInto padMax data key out).2 = .error e) :
    (tokenDecryptInto padMax data key out).1 = out := by
  unfold tokenDecryptInto at h ⊢
  dsimp only at h ⊢
  split_ifs at h ⊢ with hlen htag hshape
  · rfl
  · rfl
  · rfl
  · split at h
    · rfl
    · split_ifs at h ⊢
      rfl

theorem tokenDecryptInPlace_of_not_authentic (h : ¬ Authentic key data) :
    tokenDecryptInPlace key data = (data, .error .authenticationFailed) := by
  unfold tokenDecryptInPlace
  dsimp only
  split_ifs with hlen htag hblocks
  · rfl
  · rfl
  · rfl
  · exact absurd ⟨not_lt.mp hlen, not_not.mp htag, not_not.mp hblocks⟩ h

theorem tokenDecryptInPlace_of_not_token (hcbc : CbcBijects)
    (h : ∀ iv text, data ≠ tokenOf key iv text) :
    (tokenDecryptInPlace key data).2 = .error .authenticationFailed := by
  by_cases hauth : Authentic key data
  · obtain ⟨hlen, htag, hblocks⟩ := hauth
    unfold tokenDecryptInPlace
    dsimp only
    rw [if_neg (not_lt.mpr hlen), if_neg (not_not.mpr htag), if_neg (not_not.mpr hblocks)]
    cases hunpad : pkcs7Unpad (Crypto.aes256CbcDecrypt (aesKey key) (Bytes.slice 16 data 0)
        (between data 16 (data.length - 32))) with
    | ok text => exact absurd (Authentic.eq_tokenOf hcbc ⟨hlen, htag, hblocks⟩ hunpad) (h _ _)
    | error e =>
        rw [pkcs7Unpad_error hunpad]
  · rw [tokenDecryptInPlace_of_not_authentic hauth]

theorem tokenDecryptInto_of_not_token (hcbc : CbcBijects)
    (h : ∀ iv text, data ≠ tokenOf key iv text) (padMax : Nat) (out : List UInt8) :
    tokenDecryptInto padMax data key out = (out, .error .authenticationFailed) := by
  unfold tokenDecryptInto
  dsimp only
  split_ifs with hlen htag hshape
  · rfl
  · rfl
  · rfl
  · have hcipher : ((data.take (data.length - 32)).drop 16).length = data.length - 32 - 16 := by
      rw [List.length_drop, List.length_take, min_eq_left (Nat.sub_le _ _)]
    have hauth : Authentic key data := by
      refine ⟨not_lt.mp hlen, not_not.mp htag, ?_⟩
      rw [← hcipher]
      by_contra hblocks
      exact hshape (.inr (.inl hblocks))
    have hiv : Bytes.slice 16 (data.take (data.length - 32)) 0 = Bytes.slice 16 data 0 := by
      have happend : Bytes.slice 16
          (data.take (data.length - 32) ++ data.drop (data.length - 32)) 0 =
          Bytes.slice 16 (data.take (data.length - 32)) 0 :=
        Bytes.slice_append_left (by rw [List.length_take]; omega)
      rw [List.take_append_drop] at happend
      exact happend.symm
    rw [hiv]
    cases hunpad : pkcs7Unpad (Crypto.aes256CbcDecrypt (aesKey key) (Bytes.slice 16 data 0)
        ((data.take (data.length - 32)).drop 16)) with
    | ok text => exact absurd (hauth.eq_tokenOf hcbc hunpad) (h _ _)
    | error e => rw [pkcs7Unpad_error hunpad]

/-! ### Blobs -/

def blobOf (targetX25519Pub : Bytes 32) (recipientIdentityHash : Bytes 16)
    (ephemeralPriv : Bytes 32) (iv : Bytes 16) (text : List UInt8) : List UInt8 :=
  (Crypto.x25519Public ephemeralPriv).toList ++
    tokenOf (deriveTokenKey (Crypto.x25519Shared ephemeralPriv targetX25519Pub)
      recipientIdentityHash) iv text

theorem length_blobOf (hcbc : CbcKeepsBlocks) (pub : Bytes 32) (salt : Bytes 16) (priv : Bytes 32)
    (iv : Bytes 16) (text : List UInt8) :
    (blobOf pub salt priv iv text).length = eciesCiphertextLen text.length := by
  rw [blobOf, List.length_append, Bytes.length_toList, length_tokenOf hcbc, eciesCiphertextLen,
    paddedLength, eciesFixedOverhead]
  omega

omit [Crypto] in
theorem paddedLength_le_paddedMax {len : Nat} :
    paddedLength len ≤ paddedMax ↔ len ≤ maxEciesPlaintext := by
  simp only [paddedLength, paddedMax, maxEciesPlaintext, mdu, eciesFixedOverhead, tokenOverhead]
  omega

theorem eciesEncrypt_eq (hcbc : CbcKeepsBlocks) (h : text.length ≤ maxEciesPlaintext)
    (pub : Bytes 32) (salt : Bytes 16) (priv : Bytes 32) (iv : Bytes 16) (out : List UInt8) :
    (out.length < eciesCiphertextLen text.length →
      (eciesEncrypt text pub salt priv iv out).2 = .error .outputTooSmall) ∧
    (eciesCiphertextLen text.length ≤ out.length →
      eciesEncrypt text pub salt priv iv out = written out (blobOf pub salt priv iv text)) := by
  have hpad := paddedLength_le_paddedMax.mpr h
  have hblob := length_blobOf hcbc pub salt priv iv text
  have htoken := length_tokenOf hcbc
    (deriveTokenKey (Crypto.x25519Shared priv pub) salt) iv text
  have htotal : eciesCiphertextLen text.length = 32 + (paddedLength text.length + tokenOverhead) := by
    simp only [eciesCiphertextLen, paddedLength, eciesFixedOverhead]
    omega
  unfold eciesEncrypt
  dsimp only
  rw [if_neg (not_lt.mpr h)]
  by_cases hshort : out.isEmpty ∨ out.length < 32
  · have hlen : out.length < 32 := by
      rcases hshort with hempty | hlen
      · rw [List.isEmpty_iff.mp hempty]
        decide
      · exact hlen
    rw [if_pos hshort]
    exact ⟨fun _ => rfl, fun hroom => by omega⟩
  · have hdrop : (overwrite out 0 (Crypto.x25519Public priv).toList).drop 32 = out.drop 32 := by
      rw [overwrite_zero, List.drop_left' (Bytes.length_toList _), Bytes.length_toList]
    rw [if_neg hshort, hdrop, tokenEncryptInto_eq hcbc hpad, written, List.length_drop, htoken]
    constructor
    · intro hsmall
      rw [if_pos (by omega)]
      rfl
    · intro hroom
      have hrest : ((out.drop 32).drop
          (tokenOf (deriveTokenKey (Crypto.x25519Shared priv pub) salt) iv text ++
            (out.drop 32).drop (paddedLength text.length + tokenOverhead)).length) = [] := by
        apply List.drop_of_length_le
        simp only [List.length_append, List.length_drop, htoken]
        omega
      rw [if_neg (by omega), overwrite_zero, Bytes.length_toList, overwrite_append (by simp), hrest,
        List.append_nil, List.drop_drop, ← htotal, written, hblob, if_neg (by omega), blobOf,
        List.append_assoc, htotal]
      rfl

theorem eciesEncryptInPlace_eq (hcbc : CbcKeepsBlocks) (pub : Bytes 32) (salt : Bytes 16)
    (priv : Bytes 32) (iv : Bytes 16) {buf : List UInt8}
    (h : between buf eciesPlaintextOffset (eciesPlaintextOffset + text.length) = text) :
    eciesEncryptInPlace pub salt priv iv buf text.length =
      written buf (blobOf pub salt priv iv text) := by
  have hblob := length_blobOf hcbc pub salt priv iv text
  have htoken := length_tokenOf hcbc
    (deriveTokenKey (Crypto.x25519Shared priv pub) salt) iv text
  have htotal : eciesCiphertextLen text.length = 32 + (paddedLength text.length + tokenOverhead) := by
    simp only [eciesCiphertextLen, paddedLength, eciesFixedOverhead]
    omega
  unfold eciesEncryptInPlace
  dsimp only
  rw [written, hblob]
  by_cases hsmall : buf.length < eciesCiphertextLen text.length
  · rw [if_pos hsmall, if_pos hsmall]
  · have hbuf : overwrite buf 0 (Crypto.x25519Public priv).toList =
        (Crypto.x25519Public priv).toList ++ buf.drop 32 := by
      rw [overwrite_zero, Bytes.length_toList]
    have hregion : between ((Crypto.x25519Public priv).toList ++ buf.drop 32) 32
        (eciesCiphertextLen text.length) =
        (buf.drop 32).take (paddedLength text.length + tokenOverhead) := by
      rw [htotal, between_append_right (Bytes.length_toList _)]
    have htext : between ((buf.drop 32).take (paddedLength text.length + tokenOverhead)) 16
        (16 + text.length) = text := by
      have hfits : 16 + text.length ≤ paddedLength text.length + tokenOverhead := by
        simp only [paddedLength, tokenOverhead]
        omega
      rw [between_take_drop hfits, ← Nat.add_assoc]
      exact h
    rw [if_neg hsmall, if_neg hsmall, hbuf, hregion, tokenEncryptInPlace_eq hcbc htext, written,
      htoken, List.length_take, List.length_drop, if_neg (by omega)]
    have hrest : ((buf.drop 32).take (paddedLength text.length + tokenOverhead)).drop
        (paddedLength text.length + tokenOverhead) = [] :=
      List.drop_of_length_le (List.length_take_le _ _)
    rw [hrest, List.append_nil, overwrite_append (Bytes.length_toList _), htoken, List.drop_drop,
      ← htotal, blobOf]
    dsimp only [Except.map]
    rw [← htotal]

def blobKey (priv : Bytes 32) (salt : Bytes 16) (data : List UInt8) : Bytes 64 :=
  deriveTokenKey (Crypto.x25519Shared priv (Bytes.slice 32 data 0)) salt

variable {priv : Bytes 32} {salt : Bytes 16}

theorem eciesDecryptInPlace_of_token (hcbc : CbcInverts)
    (h : data.drop 32 = tokenOf (blobKey priv salt data) iv text) :
    textAt eciesPlaintextOffset (eciesDecryptInPlace priv salt data) = .ok text ∧
      (eciesDecryptInPlace priv salt data).2 = .ok text.length := by
  have hlen : data.length - 32 = paddedLength text.length + tokenOverhead := by
    rw [← length_tokenOf hcbc.keepsBlocks (blobKey priv salt data) iv, ← h, List.length_drop]
  have hpos := le_paddedLength text.length
  have hblocks := paddedLength_blocks text.length
  have hshape : ¬ (data.length < eciesFixedOverhead + 16 ∨
      (data.length - eciesFixedOverhead) % 16 ≠ 0) := by
    simp only [eciesFixedOverhead, tokenOverhead] at hlen ⊢
    omega
  unfold eciesDecryptInPlace
  dsimp only
  rw [if_neg hshape, ← blobKey, h, tokenDecryptInPlace_tokenOf hcbc]
  refine ⟨?_, rfl⟩
  have hfront : (data.take 32 ++ iv.toList).length = eciesPlaintextOffset := by
    rw [List.length_append, List.length_take, Bytes.length_toList]
    simp only [tokenOverhead, eciesPlaintextOffset] at hlen ⊢
    omega
  refine congrArg Except.ok ?_
  rw [overwrite, ← List.append_assoc, ← List.append_assoc, List.append_assoc _ _ (data.drop _)]
  exact between_padded hfront text _

theorem eciesDecryptInPlace_of_not_token (hcbc : CbcBijects)
    (h : ∀ iv text, data.drop 32 ≠ tokenOf (blobKey priv salt data) iv text) :
    (eciesDecryptInPlace priv salt data).2 = .error .authenticationFailed := by
  unfold eciesDecryptInPlace
  dsimp only
  split_ifs with hshape
  · rfl
  · exact tokenDecryptInPlace_of_not_token hcbc h

theorem eciesDecrypt_eq (hcbc : CbcInverts)
    (h : data.drop 32 = tokenOf (blobKey priv salt data) iv text) (out : List UInt8) :
    eciesDecrypt data priv salt out =
      tokenDecryptInto paddedMax (tokenOf (blobKey priv salt data) iv text)
        (blobKey priv salt data) out := by
  have hlen : data.length - 32 = paddedLength text.length + tokenOverhead := by
    rw [← length_tokenOf hcbc.keepsBlocks (blobKey priv salt data) iv, ← h, List.length_drop]
  have hpos := le_paddedLength text.length
  simp only [tokenOverhead] at hlen
  unfold eciesDecrypt
  dsimp only
  rw [if_neg (by omega), ← blobKey, h]

theorem eciesDecrypt_of_not_token (hcbc : CbcBijects)
    (h : ∀ iv text, data.drop 32 ≠ tokenOf (blobKey priv salt data) iv text) (out : List UInt8) :
    eciesDecrypt data priv salt out = (out, .error .authenticationFailed) := by
  unfold eciesDecrypt
  dsimp only
  split_ifs with hshape
  · rfl
  · exact tokenDecryptInto_of_not_token hcbc h paddedMax out

/-! ### The two implementations -/

/-- Encryption and decryption through separate buffers are inverse to each other. -/
structure TokensInvert : Prop where
  tooLong : ∀ padMax text key iv out,
    (tokenEncryptInto padMax text key iv out).2 = .error .plaintextTooLong ↔
      padMax < paddedLength text.length
  decryptEncrypt : ∀ padMax text key iv out, paddedLength text.length ≤ padMax →
    paddedLength text.length + tokenOverhead ≤ out.length →
    ∃ token, textAt 0 (tokenEncryptInto padMax text key iv out) = .ok token ∧
      ∀ out', text.length ≤ out'.length →
        textAt 0 (tokenDecryptInto padMax token key out') = .ok text
  encryptDecrypt : ∀ padMax data key out text,
    textAt 0 (tokenDecryptInto padMax data key out) = .ok text →
    ∀ out', data.length ≤ out'.length →
      textAt 0 (tokenEncryptInto padMax text key (Bytes.slice 16 data 0) out') = .ok data
  unique : ∀ padMax padMax' data data' key out out' text,
    textAt 0 (tokenDecryptInto padMax data key out) = .ok text →
    textAt 0 (tokenDecryptInto padMax' data' key out') = .ok text →
    data.take 16 = data'.take 16 → data = data'
  encryptError : ∀ padMax text key iv out e,
    (tokenEncryptInto padMax text key iv out).2 = .error e →
      (tokenEncryptInto padMax text key iv out).1 = out
  decryptError : ∀ padMax data key out e,
    (tokenDecryptInto padMax data key out).2 = .error e →
      (tokenDecryptInto padMax data key out).1 = out

/-- The in-place functions give the tokens, texts and errors of the others where the padded text is
within the budget and both buffers have room. -/
structure InPlaceAgrees : Prop where
  encrypt : ∀ padMax text key iv out buf, paddedLength text.length ≤ padMax →
    between buf 16 (16 + text.length) = text →
    (paddedLength text.length + tokenOverhead ≤ out.length ↔
      paddedLength text.length + tokenOverhead ≤ buf.length) →
    textAt 0 (tokenEncryptInPlace key iv buf text.length) =
      textAt 0 (tokenEncryptInto padMax text key iv out)
  decrypt : ∀ padMax data key out, data.length ≤ padMax + tokenOverhead →
    (∀ n, (tokenDecryptInPlace key data).2 = .ok n → n ≤ out.length) →
    textAt 16 (tokenDecryptInPlace key data) = textAt 0 (tokenDecryptInto padMax data key out)
  refused : ∀ key data, ¬ Authentic key data →
    tokenDecryptInPlace key data = (data, .error .authenticationFailed)

/-- The in-place ECIES functions give the blobs, texts and errors of the others for every text within
`maxEciesPlaintext`; a longer text is refused by the others. -/
structure EciesAgrees : Prop where
  encrypt : ∀ text pub salt priv iv out buf, text.length ≤ maxEciesPlaintext →
    between buf eciesPlaintextOffset (eciesPlaintextOffset + text.length) = text →
    (eciesCiphertextLen text.length ≤ out.length ↔ eciesCiphertextLen text.length ≤ buf.length) →
    textAt 0 (eciesEncryptInPlace pub salt priv iv buf text.length) =
      textAt 0 (eciesEncrypt text pub salt priv iv out)
  decrypt : ∀ data priv salt out,
    (∀ n, (eciesDecryptInPlace priv salt data).2 = .ok n → n ≤ maxEciesPlaintext ∧ n ≤ out.length) →
    textAt eciesPlaintextOffset (eciesDecryptInPlace priv salt data) =
      textAt 0 (eciesDecrypt data priv salt out)
  decryptLong : ∀ data priv salt out n, (eciesDecryptInPlace priv salt data).2 = .ok n →
    maxEciesPlaintext < n → eciesDecrypt data priv salt out = (out, .error .authenticationFailed)

theorem eq_tokenOf_of_textAt (hcbc : CbcBijects)
    (h : textAt 0 (tokenDecryptInto padMax data key out) = .ok text) :
    data = tokenOf key (Bytes.slice 16 data 0) text ∧ paddedLength text.length ≤ padMax := by
  by_cases htoken : ∀ iv text, data ≠ tokenOf key iv text
  · rw [tokenDecryptInto_of_not_token hcbc htoken] at h
    cases h
  · push Not at htoken
    obtain ⟨iv, text', rfl⟩ := htoken
    by_cases hpad : paddedLength text'.length ≤ padMax
    · rw [tokenDecryptInto_tokenOf hcbc.1, if_pos hpad] at h
      by_cases hroom : text'.length ≤ out.length
      · rw [textAt_written hroom] at h
        cases h
        exact ⟨by rw [slice_tokenOf], hpad⟩
      · rw [written, if_pos (by omega)] at h
        cases h
    · rw [tokenDecryptInto_tokenOf hcbc.1, if_neg hpad] at h
      cases h

theorem tokensInvert (hcbc : CbcBijects) : TokensInvert where
  tooLong padMax text key iv out := by
    by_cases hpad : paddedLength text.length ≤ padMax
    · rw [tokenEncryptInto_eq hcbc.1.keepsBlocks hpad, written]
      split_ifs <;> simp [hpad]
    · rw [tokenEncryptInto_of_long (by omega)]
      simp only [true_iff]
      omega
  decryptEncrypt padMax text key iv out hpad hroom := by
    refine ⟨tokenOf key iv text, ?_, ?_⟩
    · rw [tokenEncryptInto_eq hcbc.1.keepsBlocks hpad]
      exact textAt_written (by rw [length_tokenOf hcbc.1.keepsBlocks]; exact hroom)
    · intro out' hroom'
      rw [tokenDecryptInto_tokenOf hcbc.1, if_pos hpad]
      exact textAt_written hroom'
  encryptDecrypt padMax data key out text htext out' hroom := by
    obtain ⟨hdata, hpad⟩ := eq_tokenOf_of_textAt hcbc htext
    rw [tokenEncryptInto_eq hcbc.1.keepsBlocks hpad, ← hdata]
    exact textAt_written hroom
  unique padMax padMax' data data' key out out' text htext htext' hiv := by
    have hdata := (eq_tokenOf_of_textAt hcbc htext).1
    have hdata' := (eq_tokenOf_of_textAt hcbc htext').1
    have hlen := authentic_tokenOf hcbc.1.keepsBlocks key (Bytes.slice 16 data 0) text
    have hlen' := authentic_tokenOf hcbc.1.keepsBlocks key (Bytes.slice 16 data' 0) text
    rw [← hdata] at hlen
    rw [← hdata'] at hlen'
    have hslice : Bytes.slice 16 data 0 = Bytes.slice 16 data' 0 := by
      apply List.Vector.eq
      rw [Bytes.toList_slice (by have := hlen.1; omega),
        Bytes.toList_slice (by have := hlen'.1; omega)]
      exact hiv
    rw [hdata, hdata', hslice]
  encryptError padMax text key iv out e h := by
    by_cases hpad : paddedLength text.length ≤ padMax
    · rw [tokenEncryptInto_eq hcbc.1.keepsBlocks hpad] at h ⊢
      exact written_error h
    · rw [tokenEncryptInto_of_long (by omega)]
  decryptError padMax data key out e h := tokenDecryptInto_error h

theorem inPlaceAgrees (hcbc : CbcBijects) : InPlaceAgrees where
  encrypt padMax text key iv out buf hpad htext hroom := by
    rw [tokenEncryptInPlace_eq hcbc.1.keepsBlocks htext,
      tokenEncryptInto_eq hcbc.1.keepsBlocks hpad]
    apply textAt_written_eq
    rw [length_tokenOf hcbc.1.keepsBlocks]
    exact hroom.symm
  decrypt padMax data key out hdata hroom := by
    by_cases htoken : ∀ iv text, data ≠ tokenOf key iv text
    · rw [tokenDecryptInto_of_not_token hcbc htoken, textAt,
        tokenDecryptInPlace_of_not_token hcbc htoken]
      rfl
    · push Not at htoken
      obtain ⟨iv, text, rfl⟩ := htoken
      rw [length_tokenOf hcbc.1.keepsBlocks] at hdata
      rw [tokenDecryptInPlace_tokenOf hcbc.1] at hroom ⊢
      rw [tokenDecryptInto_tokenOf hcbc.1, if_pos (by omega), textAt_written (hroom _ rfl)]
      exact congrArg Except.ok (between_padded (Bytes.length_toList iv) text _)
  refused key data := tokenDecryptInPlace_of_not_authentic

theorem eciesAgrees (hcbc : CbcBijects) : EciesAgrees where
  encrypt text pub salt priv iv out buf hlong htext hroom := by
    have hencrypt := eciesEncrypt_eq hcbc.1.keepsBlocks hlong pub salt priv iv out
    rw [eciesEncryptInPlace_eq hcbc.1.keepsBlocks pub salt priv iv htext]
    by_cases hout : eciesCiphertextLen text.length ≤ out.length
    · rw [hencrypt.2 hout]
      apply textAt_written_eq
      rw [length_blobOf hcbc.1.keepsBlocks]
      exact hroom.symm
    · rw [written, length_blobOf hcbc.1.keepsBlocks,
        if_pos (Nat.lt_of_not_le fun hbuf => hout (hroom.mpr hbuf)), textAt, textAt,
        hencrypt.1 (Nat.lt_of_not_le hout)]
      rfl
  decrypt data priv salt out hroom := by
    by_cases htoken : ∀ iv text, data.drop 32 ≠ tokenOf (blobKey priv salt data) iv text
    · rw [eciesDecrypt_of_not_token hcbc htoken, textAt,
        eciesDecryptInPlace_of_not_token hcbc htoken]
      rfl
    · push Not at htoken
      obtain ⟨iv, text, htoken⟩ := htoken
      obtain ⟨htext, hlen⟩ := eciesDecryptInPlace_of_token hcbc.1 htoken
      obtain ⟨hlong, hout⟩ := hroom _ hlen
      rw [htext, eciesDecrypt_eq hcbc.1 htoken, tokenDecryptInto_tokenOf hcbc.1,
        if_pos (paddedLength_le_paddedMax.mpr hlong), textAt_written hout]
  decryptLong data priv salt out n hn hlong := by
    by_cases htoken : ∀ iv text, data.drop 32 ≠ tokenOf (blobKey priv salt data) iv text
    · rw [eciesDecryptInPlace_of_not_token hcbc htoken] at hn
      cases hn
    · push Not at htoken
      obtain ⟨iv, text, htoken⟩ := htoken
      rw [(eciesDecryptInPlace_of_token hcbc.1 htoken).2] at hn
      cases hn
      have hpad : ¬ paddedLength text.length ≤ paddedMax := fun hle =>
        absurd (paddedLength_le_paddedMax.mp hle) (not_le.mpr hlong)
      rw [eciesDecrypt_eq hcbc.1 htoken, tokenDecryptInto_tokenOf hcbc.1, if_neg hpad]

/-- Encryption and decryption are inverse to each other, for tokens in separate buffers, in place and
to an identity, where AES-CBC is an invertible map on whole blocks. -/
theorem token_codec (hcbc : CbcBijects) : TokensInvert ∧ InPlaceAgrees ∧ EciesAgrees :=
  ⟨tokensInvert hcbc, inPlaceAgrees hcbc, eciesAgrees hcbc⟩

end

/-! ### One token -/

theorem cbcBijects_of_swap (crypto : Crypto) (plain cipher : List UInt8)
    (hlength : plain.length = cipher.length) (known : Bytes 32 → Bytes 16 → Prop)
    [∀ key iv, Decidable (known key iv)]
    (hencrypt : ∀ key iv text, crypto.aes256CbcEncrypt key iv text =
      if known key iv then Equiv.swap plain cipher text else text)
    (hdecrypt : ∀ key iv text, crypto.aes256CbcDecrypt key iv text =
      if known key iv then Equiv.swap plain cipher text else text) : CbcBijects := by
  have hswap (text : List UInt8) : (Equiv.swap plain cipher text).length = text.length := by
    rw [Equiv.swap_apply_def]
    split_ifs with hplain hcipher
    · rw [hplain, hlength]
    · rw [hcipher, hlength]
    · rfl
  have hboth (key : Bytes 32) (iv : Bytes 16) (text : List UInt8) :
      (if known key iv then Equiv.swap plain cipher text else text).length = text.length ∧
        (if known key iv then Equiv.swap plain cipher
            (if known key iv then Equiv.swap plain cipher text else text)
          else if known key iv then Equiv.swap plain cipher text else text) = text := by
    split_ifs
    · rw [Equiv.swap_apply_self]
      exact ⟨hswap text, rfl⟩
    · exact ⟨rfl, rfl⟩
  constructor
  · intro key iv text _
    rw [hdecrypt, hencrypt]
    exact hboth key iv text
  · intro key iv text _
    rw [hencrypt, hdecrypt]
    exact hboth key iv text

/-- The text `[7]` under its padding. -/
private def knownText : List UInt8 :=
  [7, 15, 15, 15, 15, 15, 15, 15, 15, 15, 15, 15, 15, 15, 15, 15]

/-- Its AES-256-CBC ciphertext under the key of bytes 0x44 and the vector of bytes 0x55. -/
private def knownCipher : List UInt8 :=
  [254, 76, 173, 76, 117, 247, 11, 213, 183, 251, 90, 202, 247, 65, 139, 104]

/-- The HMAC-SHA256 of the vector and the ciphertext under the key of bytes 0x33. -/
private def knownTag : Bytes 32 :=
  ⟨[250, 119, 105, 13, 221, 131, 88, 220, 60, 19, 50, 6, 29, 100, 4, 93, 23, 174, 17, 196, 205, 220,
    80, 87, 83, 137, 144, 237, 164, 246, 141, 15], rfl⟩

private def knownKey : Bytes 64 := ⟨List.replicate 32 0x33 ++ List.replicate 32 0x44, rfl⟩

private def knownIv : Bytes 16 := List.Vector.replicate 16 0x55

/-- Primitives that know one block and one tag; on other texts the cipher is the identity. -/
@[reducible] private def knownBlock : Crypto :=
  { Crypto.constant with
    aes256CbcEncrypt := fun key iv text =>
      if key = aesKey knownKey ∧ iv = knownIv then Equiv.swap knownText knownCipher text else text
    aes256CbcDecrypt := fun key iv text =>
      if key = aesKey knownKey ∧ iv = knownIv then Equiv.swap knownText knownCipher text else text
    hmacSha256 := fun key text =>
      if key = (hmacKey knownKey).toList ∧ text = knownIv.toList ++ knownCipher then knownTag
      else Bytes.zero }

private theorem knownBlock_bijects : @CbcBijects knownBlock :=
  cbcBijects_of_swap knownBlock knownText knownCipher rfl
    (fun key iv => key = aesKey knownKey ∧ iv = knownIv) (fun _ _ _ => rfl) (fun _ _ _ => rfl)

theorem token_codec_knownBlock :
    letI := knownBlock
    textAt 0 (tokenEncryptInto 16 [7] knownKey knownIv (List.replicate 64 0)) =
        .ok (knownIv.toList ++ knownCipher ++ knownTag.toList) ∧
      textAt 0 (tokenDecryptInto 16 (knownIv.toList ++ knownCipher ++ knownTag.toList) knownKey
        [0]) = .ok [7] := by
  let _ := knownBlock
  obtain ⟨hinvert, _, _⟩ := @token_codec knownBlock knownBlock_bijects
  have htoken : textAt 0 (tokenEncryptInto 16 [7] knownKey knownIv (List.replicate 64 0)) =
      .ok (knownIv.toList ++ knownCipher ++ knownTag.toList) := by
    decide +kernel
  obtain ⟨token, hencrypt, hdecrypt⟩ := hinvert.decryptEncrypt 16 [7] knownKey knownIv
    (List.replicate 64 0) (by decide) (by decide)
  rw [htoken] at hencrypt
  cases hencrypt
  exact ⟨htoken, hdecrypt [0] (by decide)⟩

end ReticulumLite
