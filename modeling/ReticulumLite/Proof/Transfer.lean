import ReticulumLite.Base.Records
import ReticulumLite.Proof.Advertisement
import ReticulumLite.Proof.Receiver
import ReticulumLite.Proof.Tokens

/-!
# Resource transfers, end to end

A built resource is one token cut into parts whose short hashes differ. Its advertisement survives
packing and parsing, and a receiver that accepted it puts every part where it was cut from, in
whatever order they arrive, because no other slot has the part's hash. When all slots are filled the
buffer is the token, and decrypts to the text that was sent.
-/

namespace ReticulumLite

open Bounded

section

variable [Crypto]

/-! ### Tokens -/

theorem length_tokenOf_eq (hcbc : CbcKeepsBlocks) (key : Bytes 64) (iv : Bytes 16)
    (text : List UInt8) : (tokenOf key iv text).length = tokenLen text.length := by
  rw [length_tokenOf hcbc, tokenLen_eq, paddedLength]

theorem exists_tokenDecryptInPlace (hcbc : CbcInverts) (key : Bytes 64) (iv : Bytes 16)
    (text : List UInt8) :
    ∃ rest, tokenDecryptInPlace key (tokenOf key iv text) =
      (iv.toList ++ text ++ rest, .ok text.length) := by
  rw [tokenDecryptInPlace_tokenOf hcbc, padded, ← List.append_assoc,
    List.append_assoc _ _ (List.Vector.toList _)]
  exact ⟨_, rfl⟩

/-! ### The sender -/

namespace OutboundResource

def piece (r : OutboundResource) (i : Nat) : List UInt8 :=
  between r.buf (i * sdu) (min ((i + 1) * sdu) r.totalSize)

omit [Crypto] in
theorem part_eq_some {r : OutboundResource} {i : Nat} {part : List UInt8} :
    r.part i = some part ↔ i < r.numParts ∧ part = r.piece i := by
  unfold OutboundResource.part
  by_cases hi : i < r.numParts
  · rw [if_neg (not_le.mpr hi), Option.some.injEq]
    exact ⟨fun h => ⟨hi, h.symm⟩, fun h => h.2.symm⟩
  · rw [if_pos (not_lt.mp hi)]
    exact ⟨fun h => (by cases h), fun h => absurd h.1 hi⟩

structure Sent (data : List UInt8) (keys : LinkKeys) (iv : Bytes 16) (r : OutboundResource) :
    Prop where
  small : data.length ≤ dataMax
  total : r.totalSize = tokenLen (randomHashSize + data.length)
  token : r.buf.take r.totalSize = tokenOf keys.key iv (r.randomHash.toList ++ data)
  buffer : r.totalSize ≤ r.buf.length
  dataSize : r.dataSize = data.length
  parts : r.numParts = partCount r.totalSize
  resourceHash : r.resourceHash = computeResourceHash data r.randomHash
  expectedProof : r.expectedProof = computeExpectedProof data r.resourceHash
  mapHashes : r.mapHashes = (List.range r.numParts).map fun i => getMapHash (r.piece i) r.randomHash
  nodup : r.mapHashes.Nodup

omit [Crypto] in
theorem tokenLen_le {len : Nat} (h : len ≤ dataMax) : tokenLen (randomHashSize + len) ≤ transferMax := by
  unfold tokenLen
  simp only [dataMax, transferMax, maxParts, sdu, tokenOverhead, randomHashSize] at h ⊢
  omega

omit [Crypto] in
private theorem plain_eq (randomHash : Bytes 4) (data : List UInt8) :
    overwrite (overwrite (List.replicate transferMax 0) 16 randomHash.toList)
      (16 + randomHashSize) data =
        overwrite (List.replicate transferMax 0) 16 (randomHash.toList ++ data) := by
  have hfit : 16 + randomHash.toList.length ≤ (List.replicate transferMax (0 : UInt8)).length := by
    rw [Bytes.length_toList, List.length_replicate]
    decide
  have heq : _ = overwrite _ 16 (randomHash.toList ++ data) := overwrite_overwrite hfit
  rwa [Bytes.length_toList] at heq

omit [Crypto] in
private theorem plain_fits {data : List UInt8} (randomHash : Bytes 4) (h : data.length ≤ dataMax) :
    16 + (randomHash.toList ++ data).length ≤ (List.replicate transferMax (0 : UInt8)).length := by
  rw [List.length_append, Bytes.length_toList, List.length_replicate]
  have hlen := tokenLen_le h
  unfold tokenLen at hlen
  simp only [randomHashSize] at hlen
  omega

theorem sent_of_build (hcbc : CbcKeepsBlocks) {data : List UInt8} {keys : LinkKeys} {randomHash : Bytes 4}
    {iv : Bytes 16} {r : OutboundResource} (h : build data keys randomHash iv = .ok r) :
    Sent data keys iv r := by
  unfold build buildInto at h
  by_cases hlarge : data.length > dataMax
  · simp only [if_pos hlarge] at h
    cases h
  · have hsmall : data.length ≤ dataMax := not_lt.mp hlarge
    have hfits := plain_fits randomHash hsmall
    have hlen : randomHashSize + data.length = (randomHash.toList ++ data).length := by simp
    have hroom : tokenLen (randomHash.toList ++ data).length ≤
        (overwrite (List.replicate transferMax 0) 16 (randomHash.toList ++ data)).length := by
      rw [length_overwrite hfits, ← hlen, List.length_replicate]
      exact tokenLen_le hsmall
    simp only [if_neg hlarge, plain_eq, hlen, tokenEncryptInPlace_eq hcbc (between_overwrite hfits),
      written, length_tokenOf_eq hcbc, if_neg (not_lt.mpr hroom)] at h
    split_ifs at h with hcollision
    obtain rfl := Except.ok.inj h
    refine ⟨hsmall, by rw [hlen], ?_, ?_, rfl, rfl, rfl, rfl, rfl, ?_⟩
    · exact List.take_left' (length_tokenOf_eq hcbc _ _ _)
    · simp only [List.length_append, length_tokenOf_eq hcbc]
      exact Nat.le_add_right _ _
    · simpa [hasMapHashCollision] using hcollision

namespace Sent

variable {data : List UInt8} {keys : LinkKeys} {iv : Bytes 16} {r : OutboundResource} {i : Nat}

section

variable (h : Sent data keys iv r)

include h

theorem total_le : r.totalSize ≤ transferMax := h.total ▸ tokenLen_le h.small

theorem total_low : tokenOverhead + 16 ≤ r.totalSize := by
  rw [h.total, tokenLen]
  simp only [tokenOverhead]
  omega

theorem numParts_pos : 0 < r.numParts := by
  have hlow := h.total_low
  simp only [tokenOverhead] at hlow
  exact h.parts ▸ (partCount_bounds (by omega)).1

theorem numParts_le : r.numParts ≤ maxParts :=
  h.parts ▸ partCount_le h.total_le

theorem length_mapHashes : r.mapHashes.length = r.numParts := by
  simp [h.mapHashes]

theorem getElem?_mapHashes (hi : i < r.numParts) :
    r.mapHashes[i]? = some (getMapHash (r.piece i) r.randomHash) := by
  rw [h.mapHashes, List.getElem?_map, List.getElem?_range hi]
  rfl

/-! ### Its advertisement -/

theorem hashmap_eq :
    r.advertisement.hashmap.toList = r.mapHashes.flatMap List.Vector.toList ++
      List.replicate (maxParts * maphashLen - r.numParts * maphashLen) 0 := by
  have hlen : (r.mapHashes.flatMap List.Vector.toList).length = r.numParts * maphashLen := by
    rw [length_records Bytes.length_toList, h.length_mapHashes]
  have hfit : r.numParts * maphashLen ≤ maxParts * maphashLen :=
    Nat.mul_le_mul_right _ h.numParts_le
  rw [← hlen]
  exact Bytes.toList_slice_zero (hlen ▸ hfit)

theorem wellFormed : r.advertisement.WellFormed where
  requestIdLen := Nat.zero_le _
  requestId := rfl
  hashmapLen := Nat.mul_le_mul_right _ h.numParts_le
  entries := Nat.mul_mod_left _ _
  hashmap := by
    rw [h.hashmap_eq]
    apply List.drop_left'
    rw [length_records Bytes.length_toList, h.length_mapHashes]
    rfl

theorem toNat_transferSize : r.advertisement.transferSize.toNat = r.totalSize := by
  have hle := h.total_le
  simp only [transferMax, maxParts, sdu] at hle
  exact UInt32.toNat_ofNat_of_lt' (by simp only [UInt32.size]; omega)

theorem toNat_dataSize : r.advertisement.dataSize.toNat = data.length := by
  have hle := h.small
  simp only [dataMax, transferMax, maxParts, sdu, tokenOverhead, randomHashSize] at hle
  rw [← h.dataSize] at hle ⊢
  exact UInt32.toNat_ofNat_of_lt' (by simp only [UInt32.size]; omega)

theorem toNat_numParts : r.advertisement.numParts.toNat = r.numParts := by
  have hle := h.numParts_le
  simp only [maxParts] at hle
  exact UInt32.toNat_ofNat_of_lt' (by simp only [UInt32.size]; omega)

/-- The advertisement is accepted, and the receiver knows the hash of every part. -/
theorem validateAdv_advertisement :
    InboundResource.validateAdv r.advertisement none = .ok r.mapHashes := by
  have hflags : r.advertisement.flags = { ResourceFlags.zero with encrypted := true } := rfl
  have hpurpose : InboundResource.purposeValid r.advertisement none = true := rfl
  have hhashmap : r.advertisement.hashmapLen = r.numParts * maphashLen := rfl
  have hsingle : ¬ (false ∨ r.advertisement.totalSegments ≠ 1 ∨ r.advertisement.segmentIndex ≠ 1) := by
    simp [advertisement]
  unfold InboundResource.validateAdv
  simp only [hflags, hpurpose, ResourceFlags.zero, h.toNat_transferSize, h.toNat_dataSize,
    h.toNat_numParts]
  rw [refuseIf_of_not Bool.false_ne_true, ok_bind, refuseIf_of_not Bool.false_ne_true, ok_bind,
    refuseIf_of_not hsingle, ok_bind, refuseIf_of_not (by decide), ok_bind,
    refuseIf_of_not (by decide), ok_bind,
    refuseIf_of_not (by simp only [not_or, not_lt]; exact ⟨h.total_le, h.small⟩), ok_bind,
    refuseIf_of_not (not_lt.mpr h.total_low), ok_bind, refuseIf_of_not (not_not.mpr h.total.symm),
    ok_bind, refuseIf_of_not (not_not.mpr h.parts), ok_bind, ← h.parts,
    refuseIf_of_not (not_not.mpr hhashmap), ok_bind, h.hashmap_eq, ← h.length_mapHashes]
  exact congrArg Except.ok ((map_slice_records id r.mapHashes _).trans (List.map_id _))

end

end Sent

end OutboundResource

/-! ### The receiver -/

namespace InboundResource

open OutboundResource

variable {data : List UInt8} {keys : LinkKeys} {iv : Bytes 16} {r : OutboundResource}
  {s : InboundResource} {i j : Nat}

/-- A receiver that accepted the advertisement of a resource. -/
structure Expects (r : OutboundResource) (s : InboundResource) : Prop where
  admitted : Admitted s
  resourceHash : s.resourceHash = r.resourceHash
  randomHash : s.randomHash = r.randomHash
  transferSize : s.transferSize = r.totalSize
  numParts : s.numParts = r.numParts
  mapHashes : s.mapHashes = r.mapHashes

theorem expects_accepted (h : Sent data keys iv r) : Expects r (accepted r.advertisement r.mapHashes) :=
  ⟨admitted_accepted h.validateAdv_advertisement, rfl, rfl, h.toNat_transferSize, h.length_mapHashes,
    rfl⟩

theorem expects_of_reaches {ops : List Operation} {s₀ : InboundResource} (h : Expects r s₀)
    (hrun : Reaches s₀ ops s) : Expects r s := by
  have hsame := sameTransfer_of_reaches hrun
  exact ⟨admitted_of_reaches hrun h.admitted, hsame.resourceHash.trans h.resourceHash,
    hsame.randomHash.trans h.randomHash, hsame.transferSize.trans h.transferSize,
    hsame.numParts.trans h.numParts, hsame.mapHashes.trans h.mapHashes⟩

namespace Expects

theorem getD_mapHashes (hs : Expects r s) (h : Sent data keys iv r) (hj : j < r.numParts) :
    s.mapHashes.getD j Bytes.zero = getMapHash (r.piece j) s.randomHash := by
  rw [hs.mapHashes, hs.randomHash, List.getD_eq_getElem?_getD, h.getElem?_mapHashes hj]
  rfl

omit [Crypto] in
theorem slotEnd_eq (hs : Expects r s) (hi : i < r.numParts) :
    s.slotEnd i = min ((i + 1) * sdu) r.totalSize := by
  rw [hs.admitted.slotEnd_eq (hs.numParts.symm ▸ hi), hs.transferSize]

theorem length_piece (hs : Expects r s) (h : Sent data keys iv r) (hi : i < r.numParts) :
    (r.piece i).length = s.expectedPartLen i := by
  have hend := hs.slotEnd_eq hi
  have hbuffer := h.buffer
  rw [piece, length_between, ← hend]
  unfold slotEnd at hend ⊢
  omega

theorem eq_of_open (hs : Expects r s) (h : Sent data keys iv r) (hi : i < r.numParts)
    (hopen : s.Open (r.piece i) j) : j = i := by
  have hj : j < r.numParts := hs.numParts ▸ hopen.lt
  have hhash := hopen.hash
  rw [hs.getD_mapHashes h hj, hs.randomHash] at hhash
  apply (List.getElem?_inj (h.length_mapHashes.symm ▸ hj) h.nodup).mp
  rw [h.getElem?_mapHashes hj, h.getElem?_mapHashes hi, hhash]

theorem open_piece (hs : Expects r s) (h : Sent data keys iv r) (hfirst : s.consecutiveCompleted ≤ i)
    (hlast : i < s.windowEnd) (hfree : s.got i = false) : s.Open (r.piece i) i := by
  have hi : i < r.numParts := hs.numParts ▸ lt_of_lt_of_le hlast (windowEnd_le s)
  exact ⟨hfirst, hlast, hfree, hs.getD_mapHashes h hi, hs.length_piece h hi⟩

end Expects

/-! ### Deliveries -/

def Faithful (r : OutboundResource) (s : InboundResource) : Prop :=
  ∀ i < r.numParts, s.got i = true → s.slot i = r.piece i

theorem faithful_fill (hs : Expects r s) (h : Sent data keys iv r) (hfaithful : Faithful r s)
    (hstate : s.state = .transferring) (hi : i < r.numParts) (hopen : s.Open (r.piece i) i) :
    Faithful r (s.fill i (r.piece i)) := by
  have hbound : ∀ {k}, k < r.numParts → k < s.numParts := fun hk => hs.numParts.symm ▸ hk
  have hstart : i * sdu ≤ s.buf.length ∧ i * sdu + (r.piece i).length ≤ s.buf.length := by
    have hend := hs.admitted.slotEnd_le (hbound hi)
    have hhigh := hs.admitted.high
    rw [hopen.length, hs.admitted.buffer hstate]
    unfold slotEnd at hend
    omega
  intro k hk hgot
  by_cases heq : k = i
  · subst heq
    have hend : (s.fill k (r.piece k)).slotEnd k = k * sdu + (r.piece k).length := by
      rw [hopen.length]
      rfl
    rw [slot, hend]
    exact between_overwrite hstart.2
  · have hold : s.got k = true := by
      rcases (got_fill hs.admitted.slots (lt_of_lt_of_le hi h.numParts_le) _ k).mp hgot with heq' | hold
      · exact absurd heq' heq
      · exact hold
    rw [← hfaithful k hk hold]
    apply between_overwrite_of_disjoint hstart.1
    have hdisjoint := hs.admitted.slots_disjoint (hbound hk) (hbound hi) heq
    rw [hopen.length]
    exact hdisjoint

/-- The calls of a delivery: parts of the sender, and changes of the window. -/
def Delivery (r : OutboundResource) : Operation → Prop
  | .receive part => ∃ i, r.part i = some part
  | .grow _ | .shrink => True
  | .assemble _ => False

structure Receiving (r : OutboundResource) (s : InboundResource) : Prop where
  expects : Expects r s
  state : s.state = .transferring
  faithful : Faithful r s

theorem receiving_perform (h : Sent data keys iv r) {op : Operation} (hop : Delivery r op)
    (hs : Receiving r s) : Receiving r (s.perform op) := by
  have hexpects : Expects r (s.perform op) := expects_of_reaches hs.expects (.single trivial)
  cases op with
  | receive part =>
      obtain ⟨i, hpart⟩ := hop
      obtain ⟨hi, rfl⟩ := part_eq_some.mp hpart
      simp only [perform] at hexpects ⊢
      rcases receivePart_cases s (r.piece i) with ⟨heq, _⟩ | ⟨hstate, j, hopen, heq⟩
      · rw [heq]
        exact hs
      · obtain rfl := hs.expects.eq_of_open h hi hopen
        rw [heq] at hexpects ⊢
        exact ⟨hexpects, hstate, faithful_fill hs.expects h hs.faithful hstate hi hopen⟩
  | grow rate => exact ⟨hexpects, hs.state, hs.faithful⟩
  | shrink => exact ⟨hexpects, hs.state, hs.faithful⟩
  | assemble keys => exact hop.elim

omit [Crypto] in
theorem got_accepted (adv : ResourceAdv) (mapHashes : List (Bytes 4)) (i : Nat) :
    (accepted adv mapHashes).got i = false := by
  simp only [got, accepted, List.getD_eq_getElem?_getD, List.getElem?_replicate]
  split_ifs <;> rfl

theorem receiving_accepted (h : Sent data keys iv r) :
    Receiving r (accepted r.advertisement r.mapHashes) := by
  refine ⟨expects_accepted h, rfl, fun i _ hgot => ?_⟩
  rw [got_accepted] at hgot
  cases hgot

/-! ### Assembling -/

theorem take_buf (h : Sent data keys iv r) (hs : Receiving r s) (hcomplete : s.isComplete = true) :
    s.buf.take s.transferSize = tokenOf keys.key iv (r.randomHash.toList ++ data) := by
  have hall := (isComplete_iff hs.expects.admitted).mp hcomplete
  have hbetween : between s.buf 0 s.transferSize = between r.buf 0 s.transferSize := by
    rw [between_eq_between_iff]
    intro p _ hp
    obtain ⟨i, ⟨hi, hfirst, hlast⟩, _⟩ := hs.expects.admitted.partition hp
    have hi' : i < r.numParts := hs.expects.numParts ▸ hi
    have hslot := hs.faithful i hi' (hall i hi)
    rw [slot, piece, ← hs.expects.slotEnd_eq hi'] at hslot
    exact between_eq_between_iff.mp hslot p hfirst hlast
  simp only [between, List.drop_zero] at hbetween
  rw [hbetween, hs.expects.transferSize, h.token]

theorem assemble_eq (hcbc : CbcInverts) (h : Sent data keys iv r) (hs : Receiving r s)
    (hcomplete : s.isComplete = true) :
    ∃ done, s.assemble keys = (done, .ok data.length) ∧ done.data = some data ∧
      done.state = .assembled ∧ done.resourceHash = r.resourceHash ∧ done.proof = r.expectedProof := by
  obtain ⟨rest, hdecrypt⟩ := exists_tokenDecryptInPlace hcbc keys.key iv (r.randomHash.toList ++ data)
  have hlen : (r.randomHash.toList ++ data).length = randomHashSize + data.length := by simp
  have hbuf : iv.toList ++ (r.randomHash.toList ++ data) ++ rest ++ s.buf.drop s.transferSize =
      iv.toList ++ r.randomHash.toList ++ data ++ (rest ++ s.buf.drop s.transferSize) := by
    simp only [List.append_assoc]
  have hstart : 16 + randomHashSize = (iv.toList ++ r.randomHash.toList).length := by
    rw [List.length_append, Bytes.length_toList, Bytes.length_toList]
  have hhash : computeResourceHash data s.randomHash = s.resourceHash := by
    rw [hs.expects.randomHash, hs.expects.resourceHash, h.resourceHash]
  unfold assemble
  rw [if_neg (not_not.mpr hs.state), hcomplete, if_neg (by simp), take_buf h hs hcomplete, hdecrypt]
  simp only [hlen, hbuf, hstart, Nat.add_sub_cancel_left, between_append]
  rw [if_neg (by omega), if_neg (not_not.mpr hhash)]
  refine ⟨_, rfl, ?_, rfl, hs.expects.resourceHash, ?_⟩
  · simp only [InboundResource.data, hstart, between_append]
    rfl
  · rw [hs.expects.resourceHash, h.expectedProof]

omit [Crypto] in
theorem validateProof_buildProof {done : InboundResource} (hstate : done.state = .assembled)
    (hhash : done.resourceHash = r.resourceHash) (hproof : done.proof = r.expectedProof) {outLen : Nat}
    (hroom : proofLen ≤ outLen) :
    ∃ proof, done.buildProof outLen = .ok proof ∧ r.validateProof proof = true := by
  unfold buildProof
  rw [refuseIf_of_not (not_not.mpr hstate), ok_bind, refuseIf_of_not (not_lt.mpr hroom), ok_bind]
  refine ⟨_, rfl, ?_⟩
  unfold validateProof
  rw [hhash, hproof, List.take_left' (Bytes.length_toList _), List.drop_left' (Bytes.length_toList _)]
  simp

/-- What a receiver has to show for the parts that it was given. -/
structure Delivers (data : List UInt8) (keys : LinkKeys) (r : OutboundResource) (s : InboundResource) :
    Prop where
  numParts : s.numParts = r.numParts
  slots : ∀ i < r.numParts, s.got i = true → r.part i = some (s.slot i)
  leading : s.consecutiveCompleted ≤ r.numParts ∧ (∀ i < s.consecutiveCompleted, s.got i = true) ∧
    (s.consecutiveCompleted < r.numParts → s.got s.consecutiveCompleted = false)
  complete : s.isComplete = true ↔ ∀ i < r.numParts, s.got i = true
  assembles : s.isComplete = true → ∃ done, s.assemble keys = (done, .ok data.length) ∧
    done.data = some data ∧ ∀ outLen, proofLen ≤ outLen →
      ∃ proof, done.buildProof outLen = .ok proof ∧ r.validateProof proof = true

theorem delivers_of_receiving (hcbc : CbcInverts) (h : Sent data keys iv r) (hs : Receiving r s) :
    Delivers data keys r s where
  numParts := hs.expects.numParts
  slots i hi hgot := part_eq_some.mpr ⟨hi, hs.faithful i hi hgot⟩
  leading := by
    rw [← hs.expects.numParts]
    exact ⟨hs.expects.admitted.bound, hs.expects.admitted.leading, hs.expects.admitted.missing⟩
  complete := hs.expects.numParts ▸ isComplete_iff hs.expects.admitted
  assembles hcomplete := by
    obtain ⟨done, heq, hdata, hstate, hhash, hproof⟩ := assemble_eq hcbc h hs hcomplete
    exact ⟨done, heq, hdata, fun _ => validateProof_buildProof hstate hhash hproof⟩

/-- A resource that was built is delivered: its advertisement is read back and accepted, and whatever
parts arrive in whatever order, they are put where they belong, and together they are the data. -/
theorem transfer_delivers (hcbc : CbcInverts) {data : List UInt8} {keys : LinkKeys}
    {randomHash : Bytes 4} {iv : Bytes 16} {r : OutboundResource}
    (hbuild : OutboundResource.build data keys randomHash iv = .ok r) :
    (1 ≤ r.numParts ∧ r.numParts ≤ maxParts) ∧
      (∀ outLen, advPackedMax ≤ outLen → ∃ bytes, r.advertisement.pack outLen = .ok bytes) ∧
      (∀ outLen bytes, r.advertisement.pack outLen = .ok bytes →
        ResourceAdv.parse bytes = .ok r.advertisement) ∧
      ∃ s₀, fromAdvertisement r.advertisement = .ok s₀ ∧
        (∀ old : InboundResource, old.fromAdvertisementInto r.advertisement = (s₀, .ok ())) ∧
        ∀ ops s, Runs perform (fun _ op => Delivery r op) s₀ ops s → Delivers data keys r s := by
  have h := sent_of_build hcbc.keepsBlocks hbuild
  have hpack := ResourceAdv.pack_eq h.wellFormed
  refine ⟨⟨h.numParts_pos, h.numParts_le⟩, fun outLen hroom => ?_, fun outLen bytes hbytes => ?_,
    accepted r.advertisement r.mapHashes, ?_, fun old => ?_, fun ops s hrun => ?_⟩
  · rw [hpack, if_neg (not_lt.mpr ((ResourceAdv.length_packed h.wellFormed).trans hroom))]
    exact ⟨_, rfl⟩
  · rw [hpack] at hbytes
    split_ifs at hbytes
    obtain rfl := Except.ok.inj hbytes
    have hparse := ResourceAdv.parse_packed h.wellFormed []
    rwa [List.append_nil] at hparse
  · rw [fromAdvertisement, h.validateAdv_advertisement]
    rfl
  · rw [fromAdvertisementInto, acceptInto, h.validateAdv_advertisement]
  · exact delivers_of_receiving hcbc h (Runs.invariant (I := Receiving r)
      (fun _ _ hop hs => receiving_perform h hop hs) hrun (receiving_accepted h))

end InboundResource

end

/-! ### The transfer of two parts -/

namespace KnownTransfer

theorem exchange_exchange (blocks : List UInt8) : exchange (exchange blocks) = blocks := by
  have hne : ciphertext ≠ text := by decide +kernel
  unfold exchange
  by_cases htext : blocks = text
  · rw [if_pos htext, if_neg hne, if_pos rfl, htext]
  · by_cases hcipher : blocks = ciphertext
    · rw [if_neg htext, if_pos hcipher, if_pos rfl, hcipher]
    · rw [if_neg htext, if_neg hcipher, if_neg htext, if_neg hcipher]

theorem length_exchange (blocks : List UInt8) : (exchange blocks).length = blocks.length := by
  have hlen : ciphertext.length = text.length := by decide +kernel
  unfold exchange
  split_ifs with htext hcipher
  · rw [htext, hlen]
  · rw [hcipher, hlen]
  · rfl

theorem cbcInverts :
    letI := crypto
    CbcInverts := by
  intro key vector blocks _
  have hcipher : crypto.aes256CbcEncrypt key vector = crypto.aes256CbcDecrypt key vector := rfl
  have heq : ∀ blocks, crypto.aes256CbcDecrypt key vector blocks =
      if key = aesKey keys.key ∧ vector = iv then exchange blocks else blocks := fun _ => rfl
  rw [hcipher]
  by_cases hkey : key = aesKey keys.key ∧ vector = iv
  · simp only [heq, if_pos hkey, length_exchange, exchange_exchange, and_self]
  · simp only [heq, if_neg hkey, and_self]

def sender : OutboundResource :=
  letI := crypto
  (OutboundResource.build data keys randomHash iv).toOption.getD .zeroed

theorem build_sender :
    letI := crypto
    OutboundResource.build data keys randomHash iv = .ok sender := by
  let _ := crypto
  have hok : (OutboundResource.build data keys randomHash iv).toOption.isSome = true := by
    decide +kernel
  unfold sender
  cases hbuild : OutboundResource.build data keys randomHash iv with
  | error e =>
      rw [hbuild] at hok
      cases hok
  | ok r => rfl

theorem advertisement_sender : sender.advertisement = adv := by decide +kernel

def received : InboundResource :=
  letI := crypto
  (receiver.perform (.receive (token.drop sdu))).perform (.receive (token.take sdu))

theorem delivery_received :
    letI := crypto
    Runs InboundResource.perform (fun _ op => InboundResource.Delivery sender op) receiver
      [.receive (token.drop sdu), .receive (token.take sdu)] received := by
  have hfirst : sender.part 1 = some (token.drop sdu) := by decide +kernel
  have hsecond : sender.part 0 = some (token.take sdu) := by decide +kernel
  exact .cons ⟨1, hfirst⟩ (.cons ⟨0, hsecond⟩ (.nil _))

/-- The parts of the known transfer are delivered in the wrong order, and complete it. -/
theorem transfer_delivers_sender :
    letI := crypto
    OutboundResource.build data keys randomHash iv = .ok sender ∧
      InboundResource.Delivers data keys sender received ∧ received.isComplete = true := by
  obtain ⟨_, _, _, s₀, _, haccept, hdelivers⟩ :=
    @InboundResource.transfer_delivers crypto cbcInverts _ _ _ _ _ build_sender
  rw [advertisement_sender] at haccept
  obtain rfl : receiver = s₀ := congrArg Prod.fst (acceptInto_adv.symm.trans (haccept _))
  exact ⟨build_sender, hdelivers _ _ delivery_received, by decide +kernel⟩

end KnownTransfer

end ReticulumLite
