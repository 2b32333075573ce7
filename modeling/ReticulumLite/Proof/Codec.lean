import ReticulumLite.Identity.Announce
import ReticulumLite.Wire.Ifac

/-!
# Packets and frames are read as they are written

A packet is a header and a payload, and a frame of an interface with an access code is a packet with
a tag and a mask. The writer and the reader of each are inverse: what was written is read back, and
what is read was written from what it is read as.
-/

namespace ReticulumLite

open Bounded

/-! ### Packets -/

namespace PacketHeader

theorem fromByte_toByte_of_unnamed {context : PacketContext}
    (h : ∀ b, context = .unknown b → ∀ c : PacketContext, c.toByte = b → ∃ b', c = .unknown b') :
    PacketContext.fromByte context.toByte = context := by
  by_cases hunknown : ∃ b, context = .unknown b
  · obtain ⟨b, rfl⟩ := hunknown
    obtain ⟨b', hb'⟩ := h b rfl (.fromByte b) (PacketContext.toByte_fromByte b)
    have hbyte := PacketContext.toByte_fromByte b
    rw [hb'] at hbyte
    show PacketContext.fromByte b = .unknown b
    rw [hb', ← hbyte]
    rfl
  · exact PacketContext.fromByte_toByte fun b hb => hunknown ⟨b, hb⟩

theorem Parses.bytes_append {raw : List UInt8} {h : PacketHeader} {offset : Nat}
    (hp : Parses raw h offset) (hflag : byteAt raw 0 &&& 0x80 = 0) :
    h.bytes ++ raw.drop offset = raw := by
  have hlen := hp.size_le
  have htwo : 1 < raw.length := by rcases h.size_eq with hs | hs <;> omega
  have hpack : h.flags.pack = byteAt raw 0 := by
    rw [hp.flags_eq, PacketFlags.pack_unpack]
    revert hflag
    generalize byteAt raw 0 = byte
    revert byte
    exact forall_byte (by decide +kernel)
  have hraw : raw = byteAt raw 0 :: byteAt raw 1 :: raw.drop 2 := by
    have hzero := drop_eq_byteAt_cons (show 0 < raw.length by omega)
    rwa [drop_eq_byteAt_cons htwo, List.drop_zero] at hzero
  rw [bytes, hpack, hp.hops_eq]
  conv_rhs => rw [hraw, hp.rest_eq]
  simp only [List.append_assoc, List.cons_append, List.nil_append]

end PacketHeader

/-- Parsing looks at the length and at the bit that says which header it is. -/
theorem PacketView.exists_parse_iff (raw : List UInt8) :
    (∃ view, PacketView.parse raw = .ok view) ↔
      raw.length ≤ 500 ∧ (if byteAt raw 0 &&& 0b01000000 = 0 then 19 else 35) ≤ raw.length := by
  have hform : (PacketFlags.unpack (byteAt raw 0)).headerType =
      if byteAt raw 0 &&& 0b01000000 = 0 then .header1 else .header2 := rfl
  constructor
  · rintro ⟨view, hview⟩
    have hp := (PacketView.parse_eq_ok hview).2.2
    refine ⟨hp.length_le, ?_⟩
    have hsize := hp.size_le
    rw [PacketHeader.size, hp.flags_eq, hform] at hsize
    split_ifs at hsize ⊢ <;> exact hsize
  · rintro ⟨hmax, hmin⟩
    have hshort : ¬ raw.length < headerMinsize := by
      split_ifs at hmin <;> simp only [headerMinsize] <;> omega
    have hheader : ∃ r, PacketHeader.parse raw = .ok r := by
      unfold PacketHeader.parse
      rw [if_neg hshort, if_neg (by simp only [mtu]; omega)]
      by_cases hbit : byteAt raw 0 &&& 0b01000000 = 0
      · rw [if_pos hbit] at hform
        simp only [hform]
        exact ⟨_, rfl⟩
      · rw [if_neg hbit] at hform hmin
        simp only [hform]
        rw [if_neg (by simp only [headerMaxsize]; omega)]
        exact ⟨_, rfl⟩
    obtain ⟨r, hr⟩ := hheader
    refine ⟨⟨r.1, raw.drop r.2, raw, r.2⟩, ?_⟩
    rw [PacketView.parse, hr]
    rfl

/-- Headers and payloads are read back from their packets, and packets without the access flag are
built again from what they are read as. -/
theorem packet_codec :
    (∀ (h : PacketHeader) (payload : List UInt8),
      (h.flags.headerType = .header2 ↔ h.transportId.isSome = true) →
      (∀ b, h.context = .unknown b → ∀ c : PacketContext, c.toByte = b → ∃ b', c = .unknown b') →
      h.size + payload.length ≤ mtu →
      ∃ packet view, buildPacket h payload = .ok packet ∧
        PacketView.parse packet.bytes = .ok view ∧ view.header = h ∧ view.payload = payload) ∧
    (∀ raw view, PacketView.parse raw = .ok view → byteAt raw 0 &&& 0x80 = 0 →
      ∃ packet, buildPacket view.header view.payload = .ok packet ∧ packet.bytes = raw) ∧
    ∀ raw, (∃ view, PacketView.parse raw = .ok view) ↔
      raw.length ≤ 500 ∧ (if byteAt raw 0 &&& 0b01000000 = 0 then 19 else 35) ≤ raw.length := by
  refine ⟨fun h payload hform hcontext hlen => ?_, fun raw view hview hflag => ?_,
    PacketView.exists_parse_iff⟩
  · have hcoherent : h.Coherent := by
      refine ⟨?_, PacketHeader.fromByte_toByte_of_unnamed hcontext⟩
      split
      · rename_i hsome
        exact hform.mpr hsome
      · rename_i hnone
        cases htype : h.flags.headerType with
        | header1 => rfl
        | header2 => exact absurd (hform.mp htype) hnone
    have hbytes : (h.bytes ++ payload).length ≤ mtu := by
      rw [List.length_append, hcoherent.length_bytes]
      exact hlen
    exact ⟨⟨h.bytes ++ payload, hbytes⟩, _, buildPacket_eq_ok.mpr rfl,
      PacketView.parse_of_header hcoherent hbytes, rfl, rfl⟩
  · obtain ⟨_, hpayload, hp⟩ := PacketView.parse_eq_ok hview
    have hbytes : view.header.bytes ++ view.payload = raw := by
      rw [hpayload]
      exact hp.bytes_append hflag
    exact ⟨⟨raw, hp.length_le⟩, buildPacket_eq_ok.mpr hbytes.symm, rfl⟩

/-! ### Access codes -/

/-- The flag may be set before the mask and after it, and is taken off at the end. -/
theorem unmask_flag (byte mask : UInt8) :
    ((((byte ||| ifacFlag) ^^^ mask) ||| ifacFlag) ^^^ mask) &&& ~~~ifacFlag =
      byte &&& ~~~ifacFlag := by
  apply UInt8.toBitVec_inj.mp
  ext i hi
  simp only [UInt8.toBitVec_and, UInt8.toBitVec_or, UInt8.toBitVec_xor, UInt8.toBitVec_not,
    BitVec.getElem_and, BitVec.getElem_or, BitVec.getElem_xor, BitVec.getElem_not]
  cases ifacFlag.toBitVec[i] <;> simp

theorem mask_flag (byte mask : UInt8) :
    ((((byte ^^^ mask) &&& ~~~ifacFlag) ||| ifacFlag) ^^^ mask) ||| ifacFlag =
      byte ||| ifacFlag := by
  apply UInt8.toBitVec_inj.mp
  ext i hi
  simp only [UInt8.toBitVec_and, UInt8.toBitVec_or, UInt8.toBitVec_xor, UInt8.toBitVec_not,
    BitVec.getElem_and, BitVec.getElem_or, BitVec.getElem_xor, BitVec.getElem_not]
  cases ifacFlag.toBitVec[i] <;> simp

theorem flag_cases (byte : UInt8) :
    (byte &&& ifacFlag ≠ 0 → byte ||| ifacFlag = byte) ∧
      (byte &&& ifacFlag = 0 → byte &&& ~~~ifacFlag = byte) ∧
      (byte ||| ifacFlag) &&& ifacFlag ≠ 0 ∧ (byte &&& ~~~ifacFlag) &&& ifacFlag = 0 := by
  revert byte
  exact forall_byte (by decide +kernel)

variable {mask : List UInt8}

theorem zipWith_xor_zipWith_xor {xs : List UInt8} (h : xs.length ≤ mask.length) :
    List.zipWith (· ^^^ ·) (List.zipWith (· ^^^ ·) xs mask) mask = xs := by
  induction xs generalizing mask with
  | nil => rfl
  | cons x xs ih =>
      cases mask with
      | nil => simp at h
      | cons k mask =>
          rw [List.zipWith_cons_cons, List.zipWith_cons_cons, ih (by simpa using h), UInt8.xor_assoc,
            UInt8.xor_self, UInt8.xor_zero]

theorem mapIdx_xor_byteAt {xs : List UInt8} {k : Nat} (h : k + xs.length ≤ mask.length) :
    xs.mapIdx (fun i byte => byte ^^^ byteAt mask (k + i)) =
      List.zipWith (· ^^^ ·) xs (mask.drop k) := by
  apply List.ext_getElem
  · simp only [List.length_mapIdx, List.length_zipWith, List.length_drop]
    omega
  · intro i hi hi'
    rw [List.length_mapIdx] at hi
    have hk : k + i < mask.length := by omega
    simp [byteAt, hk]

variable {size : Nat}

theorem maskByte_tag {i : Nat} (byte : UInt8) (htwo : 2 ≤ i) (hsize : i ≤ size + 1) :
    maskByte mask size i byte = byte := by
  unfold maskByte
  rw [if_neg (by omega), if_neg (by omega)]

theorem maskByte_rest {i : Nat} (byte : UInt8) (hsize : size + 1 < i) :
    maskByte mask size i byte = byte ^^^ byteAt mask i := by
  unfold maskByte
  rw [if_neg (by omega), if_pos (.inr hsize)]

theorem mapIdx_maskByte {tag rest : List UInt8} (first second : UInt8) (htag : tag.length = size)
    (hmask : mask.length = rest.length + 2 + size) :
    (first :: second :: (tag ++ rest)).mapIdx (maskByte mask size) =
      ((first ^^^ byteAt mask 0) ||| ifacFlag) :: (second ^^^ byteAt mask 1) ::
        (tag ++ List.zipWith (· ^^^ ·) rest (mask.drop (2 + size))) := by
  have htagged : tag.mapIdx (fun i => maskByte mask size (i + 1 + 1)) = tag := by
    apply List.ext_getElem
    · simp
    · intro i hi hi'
      rw [List.getElem_mapIdx, maskByte_tag _ (by omega) (by omega)]
  have hrest : rest.mapIdx (fun i => maskByte mask size (i + tag.length + 1 + 1)) =
      rest.mapIdx fun i byte => byte ^^^ byteAt mask (2 + size + i) := by
    apply List.ext_getElem
    · simp
    · intro i hi hi'
      have hindex : i + tag.length + 1 + 1 = 2 + size + i := by omega
      rw [List.getElem_mapIdx, List.getElem_mapIdx, hindex, maskByte_rest _ (by omega)]
  rw [List.mapIdx_cons, List.mapIdx_cons, List.mapIdx_append, htagged, hrest,
    mapIdx_xor_byteAt (by omega)]
  rfl

section

variable [Crypto]

/-- The frame of a packet: the flag, the tag of the whole packet, and the mask that the tag gives. -/
def ifacFrame (key : Bytes ifacKeyLength) (size : Nat) (first second : UInt8) (rest : List UInt8) :
    List UInt8 :=
  let tag := (signPacket (first :: second :: rest) key).toList.drop (signatureLength - size)
  let mask := (Crypto.hkdf key.toList tag (rest.length + 2 + size)).toList
  (((first ||| ifacFlag) ^^^ byteAt mask 0) ||| ifacFlag) :: (second ^^^ byteAt mask 1) ::
    (tag ++ List.zipWith (· ^^^ ·) rest (mask.drop (2 + size)))

theorem deriveMask_eq (tag : List UInt8) (key : Bytes ifacKeyLength) (len : Nat)
    (h : len ≤ wireMtuMax) : deriveMask tag key len = .ok (Crypto.hkdf key.toList tag len) := by
  have hlen : len ≤ 255 * 32 := h.trans (by decide)
  rw [deriveMask, hkdfExpand, if_pos hlen, okOr_some]

variable {key : Bytes ifacKeyLength} {size : UInt8}

variable {first second : UInt8} {rest : List UInt8} {frame : PacketBuffer wireMtuMax}

theorem ifacSignInto_eq_ok (hsize : size.toNat ≠ 0 ∧ size.toNat ≤ signatureLength)
    (hlen : 2 + rest.length ≤ mtu) :
    ifacSignInto (first :: second :: rest) key size = .ok frame ↔
      frame.bytes = ifacFrame key size.toNat first second rest := by
  have hvalid : validateSize size = .ok size.toNat := validateSize_eq_ok.mpr ⟨hsize, rfl⟩
  have htag : ((signPacket (first :: second :: rest) key).toList.drop
      (signatureLength - size.toNat)).length = size.toNat := by
    rw [List.length_drop, Bytes.length_toList, Nat.sub_sub_self hsize.2]
  have hmask := deriveMask_eq ((signPacket (first :: second :: rest) key).toList.drop
    (signatureLength - size.toNat)) key ((first :: second :: rest).length + size.toNat)
    (by simp only [signatureLength, mtu, wireMtuMax, List.length_cons] at *; omega)
  unfold ifacSignInto
  rw [hvalid, ok_bind, refuseIf_of_not (by simp), ok_bind,
    refuseIf_of_not (by simp only [List.length_cons, mtu] at *; omega), ok_bind]
  simp only [hmask, ok_bind, mapError_eq_ok, PacketBuffer.fromSlice_eq_ok,
    byteAt_cons_zero, byteAt_cons_succ, List.drop_succ_cons, List.drop_zero, List.cons_append,
    List.nil_append]
  rw [mapIdx_maskByte _ _ htag (Bytes.length_toList _)]
  rfl

theorem length_le_of_ifacSignInto {packet : List UInt8}
    (h : ifacSignInto packet key size = .ok frame) : packet.length ≤ mtu := by
  simp only [ifacSignInto, bind_eq_ok, refuseIf_eq_ok] at h
  obtain ⟨_, _, _, _, _, hmax, _⟩ := h
  exact not_lt.mp hmax

theorem length_ifacFrame (key : Bytes ifacKeyLength) {size : Nat} (hsize : size ≤ signatureLength)
    (first second : UInt8) (rest : List UInt8) :
    (ifacFrame key size first second rest).length = rest.length + 2 + size := by
  simp only [ifacFrame, List.length_cons, List.length_append, List.length_drop,
    Bytes.length_toList, List.length_zipWith, Nat.sub_sub_self hsize]
  omega

theorem eq_ifacFrame_of_ifacSignInto {packet : List UInt8}
    (h : ifacSignInto packet key size = .ok frame) : size.toNat ≤ signatureLength ∧
      ∃ first second rest, packet = first :: second :: rest ∧
        frame.bytes = ifacFrame key size.toNat first second rest := by
  have hguards : (size.toNat ≠ 0 ∧ size.toNat ≤ signatureLength) ∧ 2 ≤ packet.length := by
    simp only [ifacSignInto, bind_eq_ok, refuseIf_eq_ok] at h
    obtain ⟨n, hn, _, hmin, _⟩ := h
    obtain ⟨hsize, rfl⟩ := validateSize_eq_ok.mp hn
    exact ⟨hsize, not_lt.mp hmin⟩
  obtain ⟨hsize, hmin⟩ := hguards
  have hmax := length_le_of_ifacSignInto h
  obtain ⟨first, second, rest, rfl⟩ : ∃ first second rest, packet = first :: second :: rest := by
    cases packet with
    | nil => simp at hmin
    | cons first tail =>
        cases tail with
        | nil => simp at hmin
        | cons second rest => exact ⟨first, second, rest, rfl⟩
  simp only [List.length_cons] at hmax
  exact ⟨hsize.2, first, second, rest, rfl, (ifacSignInto_eq_ok hsize (by omega)).mp h⟩

/-- The tag is not masked, so that a frame shows the second byte of its packet to who has the key. -/
theorem second_of_ifacFrame {tagSize : Nat} (hsize : tagSize ≤ signatureLength)
    {first' second' : UInt8} {rest' : List UInt8}
    (h : ifacFrame key tagSize first second rest = ifacFrame key tagSize first' second' rest') :
    second = second' := by
  have hlen : rest.length = rest'.length := by
    have hlengths := congrArg List.length h
    rw [length_ifacFrame key hsize, length_ifacFrame key hsize] at hlengths
    omega
  have htag (a b : UInt8) (c : List UInt8) : ((signPacket (a :: b :: c) key).toList.drop
      (signatureLength - tagSize)).length = tagSize := by
    rw [List.length_drop, Bytes.length_toList, Nat.sub_sub_self hsize]
  unfold ifacFrame at h
  obtain ⟨_, htail⟩ := List.cons.inj h
  obtain ⟨hsecond, htail⟩ := List.cons.inj htail
  obtain ⟨htags, _⟩ := List.append_inj htail ((htag _ _ _).trans (htag _ _ _).symm)
  rw [htags, hlen] at hsecond
  exact (UInt8.xor_left_inj _).mp hsecond

theorem ifacVerifyInto_eq_ok {tag body mask : List UInt8} {out : PacketBuffer mtu}
    (hsize : size.toNat ≠ 0 ∧ size.toNat ≤ signatureLength) (htag : tag.length = size.toNat)
    (hbody : body ≠ []) (hlen : body.length + 2 ≤ mtu)
    (hmask : mask = (Crypto.hkdf key.toList tag (body.length + 2 + size.toNat)).toList) :
    ifacVerifyInto (first :: second :: (tag ++ body)) key size = .ok out ↔
      first &&& ifacFlag ≠ 0 ∧
        out.bytes = ((first ^^^ byteAt mask 0) &&& ~~~ifacFlag) :: (second ^^^ byteAt mask 1) ::
          List.zipWith (· ^^^ ·) body (mask.drop (2 + size.toNat)) ∧
        tag = (signPacket out.bytes key).toList.drop (signatureLength - size.toNat) := by
  have hvalid : validateSize size = .ok size.toNat := validateSize_eq_ok.mpr ⟨hsize, rfl⟩
  have hpos : 0 < body.length := List.length_pos_iff.mpr hbody
  have hlength : (first :: second :: (tag ++ body)).length = body.length + 2 + size.toNat := by
    simp only [List.length_cons, List.length_append]
    omega
  have hwire : (first :: second :: (tag ++ body)).length ≤ wireMtuMax := by
    rw [hlength]
    simp only [signatureLength, mtu, wireMtuMax] at *
    omega
  have htake : ((first :: second :: (tag ++ body)).drop 2).take size.toNat = tag := by
    rw [List.drop_succ_cons, List.drop_succ_cons, List.drop_zero, ← htag, List.take_left]
  have hdrop : (first :: second :: (tag ++ body)).drop (2 + size.toNat) = body := by
    rw [← htag, ← List.drop_drop, List.drop_succ_cons, List.drop_succ_cons, List.drop_zero,
      List.drop_left]
  have hmask' : (Crypto.hkdf key.toList tag (first :: second :: (tag ++ body)).length).toList =
      mask := by
    rw [hmask, hlength]
  unfold ifacVerifyInto
  rw [hvalid, ok_bind, refuseIf_of_not (by rw [hlength]; simp only [mtu] at *; omega), ok_bind,
    refuseIf_of_not (by rw [hlength]; omega), ok_bind]
  simp only [htake, hdrop, deriveMask_eq tag key _ hwire, ok_bind, hmask', byteAt_cons_zero,
    byteAt_cons_succ, bind_eq_ok, refuseIf_eq_ok, mapError_eq_ok, PacketBuffer.fromSlice_eq_ok,
    pure_eq_ok, List.cons_append, List.nil_append, not_not]
  constructor
  · rintro ⟨_, hflag, out', hout, _, htag', rfl⟩
    exact ⟨refuseIf_eq_ok.mp hflag, hout, htag'⟩
  · rintro ⟨hflag, hout, htag'⟩
    exact ⟨(), refuseIf_eq_ok.mpr hflag, out, hout, (), htag', rfl⟩

theorem ifacVerifyInto_ifacFrame (hsize : size.toNat ≠ 0 ∧ size.toNat ≤ signatureLength)
    (hrest : rest ≠ []) (hlen : rest.length + 2 ≤ mtu) (hflag : first &&& ifacFlag = 0) :
    ∃ out, ifacVerifyInto (ifacFrame key size.toNat first second rest) key size = .ok out ∧
      out.bytes = first :: second :: rest := by
  have htag : ((signPacket (first :: second :: rest) key).toList.drop
      (signatureLength - size.toNat)).length = size.toNat := by
    rw [List.length_drop, Bytes.length_toList, Nat.sub_sub_self hsize.2]
  unfold ifacFrame
  generalize htag' : (signPacket (first :: second :: rest) key).toList.drop
    (signatureLength - size.toNat) = tag at htag
  generalize hmask : (Crypto.hkdf key.toList tag (rest.length + 2 + size.toNat)).toList = mask
  have hmasklen : mask.length = rest.length + 2 + size.toNat := hmask ▸ Bytes.length_toList _
  have hbody : (List.zipWith (· ^^^ ·) rest (mask.drop (2 + size.toNat))).length = rest.length := by
    rw [List.length_zipWith, List.length_drop]
    omega
  have hmask' : mask = (Crypto.hkdf key.toList tag ((List.zipWith (· ^^^ ·) rest
      (mask.drop (2 + size.toNat))).length + 2 + size.toNat)).toList := by
    rw [hbody, hmask]
  have hne : List.zipWith (· ^^^ ·) rest (mask.drop (2 + size.toNat)) ≠ [] := by
    intro hnil
    exact hrest (List.length_eq_zero_iff.mp (by rw [← hbody, hnil]; rfl))
  refine ⟨⟨first :: second :: rest, hlen⟩, ?_, rfl⟩
  simp only [hmask]
  refine (ifacVerifyInto_eq_ok hsize htag hne (hbody ▸ hlen) hmask').mpr
    ⟨(flag_cases _).2.2.1, ?_, htag'.symm⟩
  rw [unmask_flag, (flag_cases first).2.1 hflag, UInt8.xor_assoc, UInt8.xor_self, UInt8.xor_zero,
    zipWith_xor_zipWith_xor (by rw [List.length_drop]; omega)]

theorem eq_ifacFrame_of_ifacVerifyInto {raw : List UInt8} {out : PacketBuffer mtu}
    (h : ifacVerifyInto raw key size = .ok out) :
    (size.toNat ≠ 0 ∧ size.toNat ≤ signatureLength) ∧ ∃ first second rest,
      out.bytes = first :: second :: rest ∧ rest ≠ [] ∧ first &&& ifacFlag = 0 ∧
        raw = ifacFrame key size.toNat first second rest := by
  have hguards : (size.toNat ≠ 0 ∧ size.toNat ≤ signatureLength) ∧ raw.length ≤ mtu + size.toNat ∧
      2 + size.toNat < raw.length := by
    simp only [ifacVerifyInto, bind_eq_ok, refuseIf_eq_ok] at h
    obtain ⟨n, hn, _, hmax, _, hmin, _⟩ := h
    obtain ⟨hsize, rfl⟩ := validateSize_eq_ok.mp hn
    exact ⟨hsize, not_lt.mp hmax, not_le.mp hmin⟩
  obtain ⟨hsize, hmax, hmin⟩ := hguards
  obtain ⟨r₀, r₁, tag, body, hraw, htag⟩ : ∃ r₀ r₁ tag body, raw = r₀ :: r₁ :: (tag ++ body) ∧
      tag.length = size.toNat := by
    obtain ⟨r₀, r₁, more, rfl⟩ : ∃ r₀ r₁ more, raw = r₀ :: r₁ :: more := by
      cases raw with
      | nil => simp at hmin
      | cons r₀ tail =>
          cases tail with
          | nil => simp at hmin
          | cons r₁ more => exact ⟨r₀, r₁, more, rfl⟩
    refine ⟨r₀, r₁, more.take size.toNat, more.drop size.toNat, by rw [List.take_append_drop], ?_⟩
    simp only [List.length_cons] at hmin
    rw [List.length_take]
    omega
  subst hraw
  simp only [List.length_cons, List.length_append, htag] at hmax hmin
  have hbody : body ≠ [] := by
    rintro rfl
    simp only [List.length_nil] at hmin
    omega
  generalize hmask : (Crypto.hkdf key.toList tag (body.length + 2 + size.toNat)).toList = mask
  have hmasklen : mask.length = body.length + 2 + size.toNat := hmask ▸ Bytes.length_toList _
  obtain ⟨hflag, hout, hsigned⟩ :=
    (ifacVerifyInto_eq_ok hsize htag hbody (by omega) hmask.symm).mp h
  have hrest : (List.zipWith (· ^^^ ·) body (mask.drop (2 + size.toNat))).length = body.length := by
    rw [List.length_zipWith, List.length_drop]
    omega
  refine ⟨hsize, _, _, _, hout, ?_, (flag_cases _).2.2.2, ?_⟩
  · intro hnil
    exact hbody (List.length_eq_zero_iff.mp (by rw [← hrest, hnil]; rfl))
  · have hmask' : (Crypto.hkdf key.toList tag ((List.zipWith (· ^^^ ·) body
        (mask.drop (2 + size.toNat))).length + 2 + size.toNat)).toList = mask := by
      rw [hrest, hmask]
    unfold ifacFrame
    rw [← hout, ← hsigned]
    simp only [hmask']
    rw [mask_flag, (flag_cases r₀).1 hflag, UInt8.xor_assoc, UInt8.xor_self, UInt8.xor_zero,
      zipWith_xor_zipWith_xor (by rw [List.length_drop]; omega)]

/-- Under one key and one size of the tag, packets without the access flag and the frames that are
accepted belong to each other one to one. -/
theorem ifac_codec (key : Bytes ifacKeyLength) {size : UInt8} (hmin : 1 ≤ size.toNat)
    (hmax : size.toNat ≤ 64) :
    (∀ packet : List UInt8, 3 ≤ packet.length → packet.length ≤ 500 →
      byteAt packet 0 &&& ifacFlag = 0 → ∃ frame out, ifacSignInto packet key size = .ok frame ∧
        frame.bytes.length = packet.length + size.toNat ∧ byteAt frame.bytes 0 &&& ifacFlag ≠ 0 ∧
        ifacVerifyInto frame.bytes key size = .ok out ∧ out.bytes = packet) ∧
    (∀ raw out, ifacVerifyInto raw key size = .ok out →
      3 ≤ out.bytes.length ∧ byteAt out.bytes 0 &&& ifacFlag = 0 ∧
        ∃ frame, ifacSignInto out.bytes key size = .ok frame ∧ frame.bytes = raw) ∧
    (∀ packet packet' : List UInt8, 3 ≤ packet.length → 3 ≤ packet'.length →
      byteAt packet 0 &&& ifacFlag = 0 → byteAt packet' 0 &&& ifacFlag = 0 → ∀ frame,
        ifacSignInto packet key size = .ok frame → ifacSignInto packet' key size = .ok frame →
          packet = packet') ∧
    ∀ raw raw' out, ifacVerifyInto raw key size = .ok out →
      ifacVerifyInto raw' key size = .ok out → raw = raw' := by
  have hsize : size.toNat ≠ 0 ∧ size.toNat ≤ signatureLength := ⟨by omega, hmax⟩
  have hsign : ∀ packet : List UInt8, 3 ≤ packet.length → packet.length ≤ 500 →
      byteAt packet 0 &&& ifacFlag = 0 → ∃ frame out, ifacSignInto packet key size = .ok frame ∧
        byteAt frame.bytes 0 &&& ifacFlag ≠ 0 ∧
        ifacVerifyInto frame.bytes key size = .ok out ∧ out.bytes = packet := by
    intro packet hlong hshort hflag
    obtain ⟨first, second, rest, rfl⟩ : ∃ first second rest, packet = first :: second :: rest := by
      match packet, hlong with
      | first :: second :: rest, _ => exact ⟨first, second, rest, rfl⟩
      | [_], hlong | [], hlong => simp at hlong
    simp only [List.length_cons] at hlong hshort
    have hrest : rest ≠ [] := List.length_pos_iff.mp (by omega)
    obtain ⟨out, hverify, hout⟩ : ∃ out,
        ifacVerifyInto (ifacFrame key size.toNat first second rest) key size = .ok out ∧
          out.bytes = first :: second :: rest := ifacVerifyInto_ifacFrame hsize hrest hshort hflag
    have hframe : (ifacFrame key size.toNat first second rest).length ≤ wireMtuMax := by
      rw [length_ifacFrame key hsize.2]
      simp only [signatureLength, mtu, wireMtuMax]
      omega
    refine ⟨⟨_, hframe⟩, out, (ifacSignInto_eq_ok hsize (Nat.add_comm 2 _ ▸ hshort)).mpr rfl, ?_,
      hverify, hout⟩
    exact (flag_cases _).2.2.1
  have hverify : ∀ raw out, ifacVerifyInto raw key size = .ok out →
      3 ≤ out.bytes.length ∧ byteAt out.bytes 0 &&& ifacFlag = 0 ∧
        ∃ frame, ifacSignInto out.bytes key size = .ok frame ∧ frame.bytes = raw := by
    intro raw out h
    obtain ⟨_, first, second, rest, hout, hrest, hflag, rfl⟩ := eq_ifacFrame_of_ifacVerifyInto h
    have hlen := out.length_le
    have hpos : 0 < rest.length := List.length_pos_iff.mpr hrest
    rw [hout] at hlen ⊢
    simp only [List.length_cons] at hlen ⊢
    have hframe : (ifacFrame key size.toNat first second rest).length ≤ wireMtuMax := by
      rw [length_ifacFrame key hsize.2]
      simp only [signatureLength, mtu, wireMtuMax] at *
      omega
    exact ⟨by omega, hflag, ⟨_, hframe⟩, (ifacSignInto_eq_ok hsize (Nat.add_comm 2 _ ▸ hlen)).mpr rfl,
      rfl⟩
  refine ⟨fun packet hlong hshort hflag => ?_, hverify, ?_, ?_⟩
  · obtain ⟨frame, out, hframe, hset, hopen, hout⟩ := hsign packet hlong hshort hflag
    exact ⟨frame, out, hframe, length_of_ifacSignInto hframe, hset, hopen, hout⟩
  · intro packet packet' hlong hlong' hflag hflag' frame h h'
    obtain ⟨_, out, hframe, _, hopen, rfl⟩ :=
      hsign packet hlong (length_le_of_ifacSignInto h) hflag
    obtain ⟨_, out', hframe', _, hopen', rfl⟩ :=
      hsign packet' hlong' (length_le_of_ifacSignInto h') hflag'
    obtain rfl := Except.ok.inj (hframe.symm.trans h)
    obtain rfl := Except.ok.inj (hframe'.symm.trans h')
    rw [Except.ok.inj (hopen.symm.trans hopen')]
  · intro raw raw' out h h'
    obtain ⟨_, _, frame, hframe, rfl⟩ := hverify raw out h
    obtain ⟨_, _, frame', hframe', rfl⟩ := hverify raw' out h'
    rw [Except.ok.inj (hframe.symm.trans hframe')]

end

theorem ifac_codec_zero :
    letI := Crypto.constant
    ∃ frame out, ifacSignInto [0, 0, 7] Bytes.zero 1 = .ok frame ∧
      frame.bytes.length = [0, 0, 7].length + (1 : UInt8).toNat ∧
      byteAt frame.bytes 0 &&& ifacFlag ≠ 0 ∧
      ifacVerifyInto frame.bytes Bytes.zero 1 = .ok out ∧ out.bytes = [0, 0, 7] := by
  let _ := Crypto.constant
  exact (@ifac_codec _ Bytes.zero 1 (by decide) (by decide)).1 [0, 0, 7] (by decide) (by decide)
    (by decide)

/-! ### Announces -/

namespace AnnounceView

theorem length_bytes (a : AnnounceView) :
    a.bytes.length = announceBaseSize + a.ratchetBytes.length + a.appData.length := by
  simp only [bytes, List.length_append, Bytes.length_toList, announceBaseSize, publicKeyLength,
    nameHashLength, randomHashLength, signatureLength]
  omega

theorem length_ratchetBytes_eq (a : AnnounceView) :
    a.ratchetBytes.length = if a.ratchet.isSome then ratchetSize else 0 := by
  unfold ratchetBytes
  cases a.ratchet <;> simp

theorem parse_bytes (a : AnnounceView) {limit : Nat} (h : a.appData.length ≤ limit) :
    parse a.bytes a.ratchet.isSome limit = .ok a := by
  have hlen := a.length_bytes
  have hratchet := a.length_ratchetBytes_eq
  have hbytes : a.bytes = a.publicKey.toList ++ (a.nameHash.toList ++ (a.randomHash.toList ++
      (a.ratchetBytes ++ (a.signature.toList ++ a.appData)))) := by
    simp only [bytes, List.append_assoc]
  have hkey : Bytes.slice 64 a.bytes 0 = a.publicKey := by
    rw [hbytes, Bytes.slice_toList_append]
  have hname : Bytes.slice 10 a.bytes 64 = a.nameHash := by
    rw [hbytes, Bytes.slice_between (by simp)]
  have hrandom : Bytes.slice 10 a.bytes 74 = a.randomHash := by
    rw [hbytes, ← List.append_assoc, Bytes.slice_between (by simp)]
  have hsignature : Bytes.slice 64 a.bytes (84 + a.ratchetBytes.length) = a.signature := by
    rw [hbytes, ← List.append_assoc, ← List.append_assoc, ← List.append_assoc,
      Bytes.slice_between (by simp; omega)]
  have hdata : a.bytes.drop (84 + a.ratchetBytes.length + 64) = a.appData := by
    rw [hbytes, ← List.append_assoc, ← List.append_assoc, ← List.append_assoc, ← List.append_assoc,
      List.drop_left' (by simp; omega)]
  have hratchet' : (if a.ratchet.isSome then some (Bytes.slice 32 a.bytes 84) else none) =
      a.ratchet := by
    cases hr : a.ratchet with
    | none => rfl
    | some r =>
        rw [hbytes, ratchetBytes, hr, ← List.append_assoc, ← List.append_assoc,
          Bytes.slice_between (by simp)]
        rfl
  unfold parse
  simp only [← hratchet, publicKeyLength, nameHashLength, randomHashLength, signatureLength]
  rw [refuseIf_of_not (by rw [hlen]; omega), ok_bind, refuseIf_of_not (by rw [hlen]; omega), ok_bind]
  simp only [hkey, hname, hrandom, hsignature, hdata, hratchet']
  rfl

theorem bytes_of_parse {payload : List UInt8} {hasRatchet : Bool} {limit : Nat} {a : AnnounceView}
    (h : parse payload hasRatchet limit = .ok a) : a.bytes = payload := by
  unfold parse at h
  simp only [bind_eq_ok, refuseIf_eq_ok, pure_eq_ok, not_lt, announceBaseSize, publicKeyLength,
    nameHashLength, randomHashLength, signatureLength, ratchetSize] at h
  obtain ⟨_, hmin, _, _, rfl⟩ := h
  simp only [bytes, ratchetBytes]
  cases hasRatchet with
  | true =>
      simp only [if_true] at hmin ⊢
      rw [Bytes.toList_slice_append (by omega), Bytes.toList_slice_append (by omega),
        Bytes.toList_slice_append (by omega), Bytes.toList_slice_append (by omega)]
      exact (@Bytes.drop_eq_slice_append (64 + 10 + 10 + 32 + 64) payload 0 (by omega)).symm
  | false =>
      simp only [Bool.false_eq_true, if_false, Nat.add_zero, List.append_nil] at hmin ⊢
      rw [Bytes.toList_slice_append (by omega), Bytes.toList_slice_append (by omega),
        Bytes.toList_slice_append (by omega)]
      exact (@Bytes.drop_eq_slice_append (64 + 10 + 10 + 64) payload 0 (by omega)).symm

end AnnounceView

namespace LocalIdentity

variable [Crypto]

def madeAnnounce (i : LocalIdentity) (nameHash randomHash : Bytes 10) (ratchet : Option (Bytes 32))
    (appData : List UInt8) : AnnounceView where
  publicKey := i.publicKey
  nameHash := nameHash
  randomHash := randomHash
  ratchet := ratchet
  signature := i.sign (i.announceSigned nameHash randomHash ratchet appData)
  appData := appData

theorem createAnnounceWithNameHash_eq_ok {i : LocalIdentity} {nameHash randomHash : Bytes 10}
    {ratchet : Option (Bytes 32)} {appData payload : List UInt8} {outLen : Nat}
    (hdata : appData.length ≤ maxAnnounceAppData)
    (hout : announceBaseSize + (if ratchet.isSome then ratchetSize else 0) + appData.length ≤
      outLen) :
    i.createAnnounceWithNameHash nameHash randomHash ratchet appData outLen = .ok payload ↔
      payload = (i.madeAnnounce nameHash randomHash ratchet appData).bytes := by
  unfold createAnnounceWithNameHash
  rw [refuseIf_of_not (not_lt.mpr hdata), ok_bind]
  simp only
  rw [refuseIf_of_not, ok_bind, pure_eq_ok, eq_comm]
  · rfl
  · simp only [announceBaseSize, not_lt] at hout ⊢
    omega

theorem signedData_madeAnnounce (i : LocalIdentity) (nameHash randomHash : Bytes 10)
    (ratchet : Option (Bytes 32)) (appData : List UInt8) :
    (i.madeAnnounce nameHash randomHash ratchet appData).signedData
        (destinationHashFromParts nameHash (some i.identityHash)) =
      i.announceSigned nameHash randomHash ratchet appData := by
  unfold AnnounceView.signedData announceSigned AnnounceView.ratchetBytes
  rfl

end LocalIdentity

/-- What an identity announces is read back and accepted for the destination it names, and an announce
that is accepted names the destination of its own key and name and is nothing but its fields. -/
theorem announce_codec [Crypto] (hed : Ed25519Signs) :
    (∀ (i : LocalIdentity) (nameHash randomHash : Bytes 10) (ratchet : Option (Bytes 32))
      (appData : List UInt8) (outLen limit : Nat), appData.length ≤ maxAnnounceAppData →
      announceBaseSize + (if ratchet.isSome then ratchetSize else 0) + appData.length ≤ outLen →
      appData.length ≤ limit → ∃ payload a,
        i.createAnnounceWithNameHash nameHash randomHash ratchet appData outLen = .ok payload ∧
        AnnounceView.parse payload ratchet.isSome limit = .ok a ∧ a.publicKey = i.publicKey ∧
        a.nameHash = nameHash ∧ a.randomHash = randomHash ∧ a.ratchet = ratchet ∧
        a.appData = appData ∧
        a.signature = i.sign (i.announceSigned nameHash randomHash ratchet appData) ∧
        a.signedData (destinationHashFromParts nameHash (some i.identityHash)) =
          i.announceSigned nameHash randomHash ratchet appData ∧
        ∀ known, known = none ∨ known = some i.publicKey →
          a.validate (destinationHashFromParts nameHash (some i.identityHash)) known signedDataMax =
            .ok i.identityHash) ∧
    ∀ payload hasRatchet limit a destinationHash known scratch id,
      AnnounceView.parse payload hasRatchet limit = .ok a →
      a.validate destinationHash known scratch = .ok id →
        destinationHash =
          destinationHashFromParts a.nameHash (some (ReticulumLite.identityHash a.publicKey)) ∧
        a.bytes = payload := by
  refine ⟨fun i nameHash randomHash ratchet appData outLen limit hdata hout hlimit => ?_,
    fun payload hasRatchet limit a destinationHash known scratch id hparse hvalid => ?_⟩
  · have hsigned := i.signedData_madeAnnounce nameHash randomHash ratchet appData
    refine ⟨_, _, (LocalIdentity.createAnnounceWithNameHash_eq_ok hdata hout).mpr rfl,
      AnnounceView.parse_bytes (i.madeAnnounce nameHash randomHash ratchet appData) hlimit, rfl, rfl,
      rfl, rfl, rfl, rfl, hsigned, fun known hknown => ?_⟩
    refine AnnounceView.validate_eq_ok.mpr ⟨⟨rfl, ?_⟩, fun k hk => ?_, ?_, rfl⟩
    · rw [hsigned]
      show verifySignature (Bytes.slice 32 i.publicKey.toList 32) _ _ = true
      rw [i.ed25519_publicKey]
      exact hed _ _
    · rcases hknown with rfl | rfl
      · cases hk
      · exact (Option.some.inj hk).symm
    · have hratchet := AnnounceView.length_ratchetBytes
        (i.madeAnnounce nameHash randomHash ratchet appData)
      rw [AnnounceView.length_signedData]
      have hsame : (i.madeAnnounce nameHash randomHash ratchet appData).appData = appData := rfl
      rw [hsame]
      simp only [signedDataMax, publicKeyLength, nameHashLength, randomHashLength, ratchetSize]
      omega
  · exact ⟨(AnnounceView.validate_eq_ok.mp hvalid).1.bound.symm, AnnounceView.bytes_of_parse hparse⟩

/-! ### An announce of an identity of one's own

The X25519 key is the byte 0x22 throughout and the Ed25519 seed the byte 0x11. The public keys, the
digests and the signature are those of X25519, SHA-256 and Ed25519. -/

namespace OwnIdentity

def identity : LocalIdentity := ⟨⟨List.replicate 32 0x22 ++ List.replicate 32 0x11, by simp⟩⟩

def x25519Key : Bytes 32 :=
  Bytes.ofNat 32 0x0faa684ed28867b97f4a6a2dee5df8ce974e76b7018e3f22a1c4cf2678570f20

def ed25519Key : Bytes 32 :=
  Bytes.ofNat 32 0xd04ab232742bb4ab3a1368bd4615e4e6d0224ab71a016baf8520a332c9778737

def identityDigest : Bytes 32 :=
  Bytes.ofNat 32 0x4cd0cc45a7405dbd5cf9b5be1ef92f10e4549f0b32cd6ccf1152b2c89a713cd9

def destinationDigest : Bytes 32 :=
  Bytes.ofNat 32 0x8d2f4d09130e2684de66d7a3218f9270c2c86dabe3550c06599c36cbdef40619

def destination : Bytes 16 := Bytes.slice 16 destinationDigest.toList 0

def nameHash : Bytes 10 := Bytes.slice 10 KnownIdentity.nameDigest.toList 0

def randomHash : Bytes 10 := Bytes.ofNat 10 0xbcbcbcbcbcbcbcbcbcbc

def signed : List UInt8 :=
  destination.toList ++ x25519Key.toList ++ ed25519Key.toList ++ nameHash.toList ++ randomHash.toList

def signature : Bytes 64 :=
  ⟨(Bytes.ofNat 32 0xea430c00966ef3a21f34a7899451d14668de109b6b0c5330a630bb471ee6d0d8).toList ++
    (Bytes.ofNat 32 0xb5f9e30c0cb22d64ee3332e802189c3b4b4ff6787d8937db8fb6b9b3fa17db0c).toList, by simp⟩

def sign (message : List UInt8) : Bytes 64 := if message = signed then signature else Bytes.zero

/-- The primitives as far as this identity needs them. -/
@[reducible] def crypto : Crypto :=
  { Crypto.constant with
    sha256 := fun data => ((
      [(x25519Key.toList ++ ed25519Key.toList, identityDigest),
       (nameHash.toList ++ (Bytes.slice 16 identityDigest.toList 0).toList, destinationDigest)] :
        List (List UInt8 × Bytes 32)).lookup data).getD Bytes.zero
    x25519Public := fun _ => x25519Key
    ed25519Public := fun _ => ed25519Key
    ed25519Sign := fun _ message => sign message
    ed25519KeyValid := fun key => decide (key = ed25519Key)
    ed25519Verify := fun key message s => decide (key = ed25519Key ∧ s = sign message) }

theorem signs : @Ed25519Signs crypto := by
  intro seed message
  show (decide (ed25519Key = ed25519Key) &&
    decide (ed25519Key = ed25519Key ∧ sign message = sign message)) = true
  simp only [and_self, decide_true, Bool.and_self]

end OwnIdentity

theorem announce_codec_ownIdentity :
    letI := OwnIdentity.crypto
    ∃ payload a, OwnIdentity.identity.createAnnounceWithNameHash OwnIdentity.nameHash
        OwnIdentity.randomHash none [] 148 = .ok payload ∧
      AnnounceView.parse payload false 333 = .ok a ∧ a.signature = OwnIdentity.signature ∧
      a.validate OwnIdentity.destination none signedDataMax =
        .ok (Bytes.slice 16 OwnIdentity.identityDigest.toList 0) := by
  let _ := OwnIdentity.crypto
  have hdestination : destinationHashFromParts OwnIdentity.nameHash
      (some OwnIdentity.identity.identityHash) = OwnIdentity.destination := by decide +kernel
  have hidentity : OwnIdentity.identity.identityHash =
      Bytes.slice 16 OwnIdentity.identityDigest.toList 0 := by decide +kernel
  have hsignature : OwnIdentity.identity.sign (OwnIdentity.identity.announceSigned
      OwnIdentity.nameHash OwnIdentity.randomHash none []) = OwnIdentity.signature := by
    decide +kernel
  obtain ⟨payload, a, hcreate, hparse, _, _, _, _, _, hsign, _, hvalid⟩ :=
    (announce_codec OwnIdentity.signs).1 OwnIdentity.identity OwnIdentity.nameHash
      OwnIdentity.randomHash none [] 148 333 (by decide) (by decide) (by decide)
  refine ⟨payload, a, hcreate, hparse, hsign.trans hsignature, ?_⟩
  rw [← hdestination, ← hidentity]
  exact hvalid none (.inl rfl)

end ReticulumLite
