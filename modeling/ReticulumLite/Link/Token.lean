import ReticulumLite.Crypto
import ReticulumLite.Base.Results
import ReticulumLite.Base.Buffers

/-!
# Tokens

The encrypted form of link data: an initialization vector, the padded text under AES-256-CBC, and an
HMAC over both. A token key is an HMAC key followed by an AES key. The functions return the buffer
they write to; `textAt` reads a result off it.
-/

namespace ReticulumLite

open Bounded

inductive CryptoError
  | plaintextTooLong
  | outputTooSmall
  | authenticationFailed
  deriving DecidableEq

abbrev tokenOverhead : Nat := 16 + 32

/-- Pad to whole blocks; a text of whole blocks gets one more. -/
def pkcs7Pad (plaintext : List UInt8) (outLen : Nat) : Except CryptoError (List UInt8) :=
  let pad := 16 - plaintext.length % 16
  if outLen < plaintext.length + pad then .error .outputTooSmall
  else .ok (plaintext ++ List.replicate pad (UInt8.ofNat pad))

def pkcs7Unpad (data : List UInt8) : Except CryptoError (List UInt8) :=
  if data.isEmpty then .error .authenticationFailed
  else
    let pad := (byteAt data (data.length - 1)).toNat
    if pad = 0 ∨ pad > 16 ∨ pad > data.length then .error .authenticationFailed
    else
      let start := data.length - pad
      if (data.drop start).all fun b => b.toNat = pad then .ok (data.take start)
      else .error .authenticationFailed

/-- The bytes a result names: those of its buffer from a position on, as many as were returned. -/
def textAt (offset : Nat) (r : List UInt8 × Except CryptoError Nat) :
    Except CryptoError (List UInt8) :=
  r.2.map fun n => between r.1 offset (offset + n)

section

variable [Crypto]

def hmacKey (key : Bytes 64) : Bytes 32 := Bytes.slice 32 key.toList 0

def aesKey (key : Bytes 64) : Bytes 32 := Bytes.slice 32 key.toList 32

/-- Encrypt into a buffer: the buffer afterwards, and the length of the token. The constructors of the
ciphers fail on keys of another length only and are left out. -/
def tokenEncryptInto (padMax : Nat) (plaintext : List UInt8) (key : Bytes 64) (iv : Bytes 16)
    (out : List UInt8) : List UInt8 × Except CryptoError Nat :=
  match pkcs7Pad plaintext padMax with
  | .error _ => (out, .error .plaintextTooLong)
  | .ok padded =>
      let plen := padded.length
      let total := 16 + plen + 32
      if out.length < total then (out, .error .outputTooSmall)
      else
        let out := overwrite out 0 iv.toList
        let out := overwrite out 16 padded
        let out := overwrite out 16
          (Crypto.aes256CbcEncrypt (aesKey key) iv (between out 16 (16 + plen)))
        let tag := Crypto.hmacSha256 (hmacKey key).toList (out.take (16 + plen))
        (overwrite out (16 + plen) tag.toList, .ok total)

/-- Decrypt into a buffer: the buffer afterwards, and the length of the text. -/
def tokenDecryptInto (padMax : Nat) (data : List UInt8) (key : Bytes 64) (out : List UInt8) :
    List UInt8 × Except CryptoError Nat :=
  let split := data.length - 32
  let signedParts := data.take split
  let ciphertext := signedParts.drop 16
  if data.length < 16 + 16 + 32 then (out, .error .authenticationFailed)
  else if (Crypto.hmacSha256 (hmacKey key).toList signedParts).toList ≠ data.drop split then
    (out, .error .authenticationFailed)
  else if ciphertext.isEmpty ∨ ciphertext.length % 16 ≠ 0 ∨ ciphertext.length > padMax then
    (out, .error .authenticationFailed)
  else
    match pkcs7Unpad
      (Crypto.aes256CbcDecrypt (aesKey key) (Bytes.slice 16 signedParts 0) ciphertext) with
    | .error e => (out, .error e)
    | .ok plaintext =>
        if out.length < plaintext.length then (out, .error .outputTooSmall)
        else (overwrite out 0 plaintext, .ok plaintext.length)

/-- Encrypt in place the text of `ptLen` bytes at position 16 of a buffer; the buffer afterwards, and
the length of the token. -/
def tokenEncryptInPlace (key : Bytes 64) (iv : Bytes 16) (buf : List UInt8) (ptLen : Nat) :
    List UInt8 × Except CryptoError Nat :=
  let pad := 16 - ptLen % 16
  let padded := ptLen + pad
  let total := padded + tokenOverhead
  if buf.length < total then (buf, .error .outputTooSmall)
  else
    let text := between buf 16 (16 + ptLen) ++ List.replicate pad (UInt8.ofNat pad)
    let signed := iv.toList ++ Crypto.aes256CbcEncrypt (aesKey key) iv text
    (signed ++ (Crypto.hmacSha256 (hmacKey key).toList signed).toList ++ buf.drop total, .ok total)

/-- Decrypt a token in place: the buffer afterwards, and the length of the text, which then starts at
position 16. Padding that does not check clears what was decrypted. -/
def tokenDecryptInPlace (key : Bytes 64) (buf : List UInt8) : List UInt8 × Except CryptoError Nat :=
  let split := buf.length - 32
  if buf.length < 16 + 16 + 32 then (buf, .error .authenticationFailed)
  else if (Crypto.hmacSha256 (hmacKey key).toList (buf.take split)).toList ≠ buf.drop split then
    (buf, .error .authenticationFailed)
  else if (split - 16) % 16 ≠ 0 then (buf, .error .authenticationFailed)
  else
    let padded := Crypto.aes256CbcDecrypt (aesKey key) (Bytes.slice 16 buf 0) (between buf 16 split)
    match pkcs7Unpad padded with
    | .ok plaintext => (buf.take 16 ++ padded ++ buf.drop split, .ok plaintext.length)
    | .error e => (buf.take 16 ++ List.replicate (split - 16) 0 ++ buf.drop split, .error e)

/-- AES-CBC decryption inverts encryption, and encryption keeps whole blocks. -/
def CbcInverts : Prop :=
  ∀ (key : Bytes 32) (iv : Bytes 16) (text : List UInt8), text.length % 16 = 0 →
    (Crypto.aes256CbcEncrypt key iv text).length = text.length ∧
      Crypto.aes256CbcDecrypt key iv (Crypto.aes256CbcEncrypt key iv text) = text

/-- AES-CBC encryption keeps whole blocks. -/
def CbcKeepsBlocks : Prop :=
  ∀ (key : Bytes 32) (iv : Bytes 16) (text : List UInt8), text.length % 16 = 0 →
    (Crypto.aes256CbcEncrypt key iv text).length = text.length

/-- AES-CBC is an invertible map on whole blocks. -/
def CbcBijects : Prop :=
  CbcInverts ∧ ∀ (key : Bytes 32) (iv : Bytes 16) (text : List UInt8), text.length % 16 = 0 →
    (Crypto.aes256CbcDecrypt key iv text).length = text.length ∧
      Crypto.aes256CbcEncrypt key iv (Crypto.aes256CbcDecrypt key iv text) = text

theorem CbcInverts.keepsBlocks (h : CbcInverts) : CbcKeepsBlocks :=
  fun key iv text htext => (h key iv text htext).1

end

/-! ### Padding -/

def paddedLength (len : Nat) : Nat := len + (16 - len % 16)

theorem pkcs7Pad_eq_ok {plaintext padded : List UInt8} {outLen : Nat} :
    pkcs7Pad plaintext outLen = .ok padded ↔ paddedLength plaintext.length ≤ outLen ∧
      padded = plaintext ++ List.replicate (16 - plaintext.length % 16)
        (UInt8.ofNat (16 - plaintext.length % 16)) := by
  unfold pkcs7Pad paddedLength
  by_cases h : outLen < plaintext.length + (16 - plaintext.length % 16)
  · simp [h]
  · simp only [h, if_false, Except.ok.injEq]
    exact ⟨fun heq => ⟨by omega, heq.symm⟩, fun ⟨_, heq⟩ => heq.symm⟩

theorem pkcs7Unpad_pad {plaintext padded : List UInt8} {outLen : Nat}
    (h : pkcs7Pad plaintext outLen = .ok padded) : pkcs7Unpad padded = .ok plaintext := by
  obtain ⟨_, hpadded⟩ := pkcs7Pad_eq_ok.mp h
  obtain ⟨pad, hpad, hpos, hle⟩ : ∃ pad, 16 - plaintext.length % 16 = pad ∧ 0 < pad ∧ pad ≤ 16 :=
    ⟨_, rfl, by omega, by omega⟩
  rw [hpad] at hpadded
  have hbyte : (UInt8.ofNat pad).toNat = pad := by
    rw [UInt8.toNat_ofNat']
    omega
  have hlast : byteAt padded (padded.length - 1) = UInt8.ofNat pad := by
    rw [hpadded, byteAt_append_right (by simp; omega)]
    simp only [byteAt, List.length_append, List.length_replicate, List.getD_eq_getElem?_getD]
    rw [List.getElem?_replicate_of_lt (by omega)]
    rfl
  have hlen : padded.length = plaintext.length + pad := by simp [hpadded]
  unfold pkcs7Unpad
  rw [if_neg (by rw [List.isEmpty_iff, ← List.length_eq_zero_iff]; omega)]
  simp only [hlast, hbyte]
  rw [if_neg (by omega), hlen, Nat.add_sub_cancel, hpadded, if_pos]
  · simp
  · simp [hbyte]

end ReticulumLite
