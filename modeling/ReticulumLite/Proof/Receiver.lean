import ReticulumLite.Base.Runs
import ReticulumLite.Resource.Transfer

/-!
# Resource receivers

Whatever advertisement was accepted, the slots of its parts cut the transfer into pieces that do not
overlap, and a part is written into one empty slot of the window or not at all. The count of
completed parts is the number of slots filled from the start.
-/

namespace ReticulumLite

open Bounded

/-! ### Counting parts -/

theorem tokenLen_eq (ptLen : Nat) : tokenLen ptLen = ptLen + (16 - ptLen % 16) + tokenOverhead := by
  unfold tokenLen
  simp only [tokenOverhead]
  omega

theorem partCount_bounds {total : Nat} (hpos : 0 < total) :
    0 < partCount total ∧ (partCount total - 1) * sdu < total ∧ total ≤ partCount total * sdu := by
  unfold partCount
  simp only [sdu]
  omega

theorem partCount_le {total : Nat} (h : total ≤ transferMax) : partCount total ≤ maxParts := by
  unfold partCount
  simp only [transferMax, maxParts, sdu] at h ⊢
  omega

namespace InboundResource

def slotEnd (r : InboundResource) (i : Nat) : Nat := i * sdu + r.expectedPartLen i

def slot (r : InboundResource) (i : Nat) : List UInt8 := between r.buf (i * sdu) (r.slotEnd i)

/-- What every receiver keeps of the advertisement it accepted. -/
structure Admitted (r : InboundResource) : Prop where
  low : tokenOverhead + 16 ≤ r.transferSize
  high : r.transferSize ≤ transferMax
  parts : r.numParts = partCount r.transferSize
  hashes : r.mapHashes.length = r.numParts
  slots : r.received.length = maxParts
  buffer : r.state = .transferring → r.buf.length = transferMax
  leading : ∀ i < r.consecutiveCompleted, r.got i = true
  missing : r.consecutiveCompleted < r.numParts → r.got r.consecutiveCompleted = false
  bound : r.consecutiveCompleted ≤ r.numParts

variable {r : InboundResource} {i : Nat}

namespace Admitted

theorem positive (h : Admitted r) : 0 < r.transferSize := by
  have hlow := h.low
  simp only [tokenOverhead] at hlow
  omega

theorem numParts_le (h : Admitted r) : r.numParts ≤ maxParts := h.parts ▸ partCount_le h.high

theorem slotEnd_eq (h : Admitted r) (hi : i < r.numParts) :
    r.slotEnd i = min ((i + 1) * sdu) r.transferSize := by
  obtain ⟨_, hlast, hall⟩ := partCount_bounds h.positive
  rw [← h.parts] at hlast hall
  unfold slotEnd expectedPartLen
  simp only [sdu] at hlast hall ⊢
  split_ifs with heq
  · rw [← heq] at hlast hall
    omega
  · have hnext : (i + 1) * 464 ≤ (r.numParts - 1) * 464 := Nat.mul_le_mul_right _ (by omega)
    omega

theorem expectedPartLen_pos (h : Admitted r) (i : Nat) : 0 < r.expectedPartLen i := by
  obtain ⟨_, hlast, _⟩ := partCount_bounds h.positive
  rw [← h.parts] at hlast
  unfold expectedPartLen
  simp only [sdu] at hlast ⊢
  split_ifs with heq
  · rw [← heq] at hlast
    omega
  · omega

theorem slotEnd_le (h : Admitted r) (hi : i < r.numParts) : r.slotEnd i ≤ r.transferSize := by
  rw [h.slotEnd_eq hi]
  exact min_le_right _ _

theorem slots_disjoint (h : Admitted r) {j : Nat} (hi : i < r.numParts) (hj : j < r.numParts)
    (hne : i ≠ j) : r.slotEnd i ≤ j * sdu ∨ r.slotEnd j ≤ i * sdu := by
  rw [h.slotEnd_eq hi, h.slotEnd_eq hj]
  simp only [sdu]
  omega

end Admitted

/-! ### Counting on -/

theorem advance_spec (received : List Bool) (fuel c : Nat) :
    c ≤ advance received fuel c ∧ advance received fuel c ≤ c + fuel ∧
      (∀ j, c ≤ j → j < advance received fuel c → received.getD j false = true) ∧
      (advance received fuel c < c + fuel → received.getD (advance received fuel c) false = false) := by
  induction fuel generalizing c with
  | zero => exact ⟨le_rfl, le_rfl, fun j hle hlt => absurd hlt (not_lt.mpr hle), fun h => absurd h (lt_irrefl _)⟩
  | succ fuel ih =>
      unfold advance
      split_ifs with hgot
      · obtain ⟨hle, hbound, hfilled, hnext⟩ := ih (c + 1)
        refine ⟨by omega, by omega, fun j hj hlt => ?_, fun h => hnext (by omega)⟩
        rcases Nat.eq_or_lt_of_le hj with rfl | hj
        · exact hgot
        · exact hfilled j hj hlt
      · exact ⟨le_rfl, by omega, fun j hle hlt => absurd hlt (not_lt.mpr hle),
          fun _ => Bool.eq_false_iff.mpr hgot⟩

/-! ### Filling a slot -/

theorem got_fill (hlen : r.received.length = maxParts) (hi : i < maxParts) (part : List UInt8)
    (j : Nat) : (r.fill i part).got j = true ↔ j = i ∨ r.got j = true := by
  simp only [got, fill, List.getD_eq_getElem?_getD, List.getElem?_set, hlen]
  split_ifs with heq
  · simp [heq]
  · simp [Ne.symm heq]

theorem mem_inWindow : i ∈ r.inWindow ↔ r.consecutiveCompleted ≤ i ∧ i < r.windowEnd := by
  simp only [inWindow, List.mem_range'_1]
  omega

theorem windowEnd_le (r : InboundResource) : r.windowEnd ≤ r.numParts := min_le_right _ _

structure Open [Crypto] (r : InboundResource) (part : List UInt8) (i : Nat) : Prop where
  first : r.consecutiveCompleted ≤ i
  last : i < r.windowEnd
  free : r.got i = false
  hash : r.mapHashes.getD i Bytes.zero = getMapHash part r.randomHash
  length : part.length = r.expectedPartLen i

theorem Open.lt [Crypto] {part : List UInt8} (h : r.Open part i) : i < r.numParts :=
  lt_of_lt_of_le h.last (windowEnd_le r)

theorem receivePart_cases [Crypto] (r : InboundResource) (part : List UInt8) :
    r.receivePart part = (r, false) ∧ (r.state = .transferring → ∀ i, ¬ r.Open part i) ∨
      r.state = .transferring ∧ ∃ i, r.Open part i ∧ r.receivePart part = (r.fill i part, true) := by
  unfold receivePart
  by_cases hstate : r.state = .transferring
  · rw [if_neg (not_not.mpr hstate)]
    cases hslot : r.slotOf part with
    | none =>
        refine .inl ⟨rfl, fun _ i hopen => ?_⟩
        apply List.find?_eq_none.mp hslot i (mem_inWindow.mpr ⟨hopen.first, hopen.last⟩)
        simp only [hopen.free, hopen.hash, hopen.length, Bool.not_false, decide_true, Bool.and_self]
    | some i =>
        obtain ⟨hfirst, hlast⟩ := mem_inWindow.mp (List.mem_of_find?_eq_some hslot)
        have hmatch := List.find?_some hslot
        simp only [Bool.and_eq_true, Bool.not_eq_true', decide_eq_true_eq] at hmatch
        exact .inr ⟨hstate, i, ⟨hfirst, hlast, hmatch.1.1, hmatch.1.2, hmatch.2⟩, rfl⟩
  · rw [if_pos hstate]
    exact .inl ⟨rfl, fun h => absurd h hstate⟩

theorem Admitted.fill [Crypto] (h : Admitted r) {part : List UInt8} (hopen : r.Open part i) :
    Admitted (r.fill i part) := by
  have hi : i < r.numParts := hopen.lt
  have hgot := got_fill h.slots (lt_of_lt_of_le hi h.numParts_le) part
  obtain ⟨hle, hbound, hfilled, hnext⟩ := advance_spec (r.received.set i true)
    (r.numParts - r.consecutiveCompleted) r.consecutiveCompleted
  have hcount := h.bound
  refine ⟨h.low, h.high, h.parts, h.hashes, ?_, fun hstate => ?_, fun j hj => ?_, fun hlt => ?_, ?_⟩
  · simp only [InboundResource.fill, List.length_set]
    exact h.slots
  · have hend : r.slotEnd i ≤ r.buf.length := by
      rw [h.buffer hstate]
      exact (h.slotEnd_le hi).trans h.high
    rw [← h.buffer hstate]
    apply length_overwrite
    rw [hopen.length]
    exact hend
  · by_cases hold : j < r.consecutiveCompleted
    · exact (hgot j).mpr (.inr (h.leading j hold))
    · exact hfilled j (not_lt.mp hold) hj
  · apply hnext
    simp only [InboundResource.fill] at hlt
    omega
  · simp only [InboundResource.fill]
    omega

theorem isComplete_iff (h : Admitted r) : r.isComplete = true ↔ ∀ i < r.numParts, r.got i = true := by
  unfold isComplete
  rw [decide_eq_true_eq]
  constructor
  · intro hall i hi
    exact h.leading i (hall ▸ hi)
  · intro hall
    by_contra hne
    have hlt := lt_of_le_of_ne h.bound hne
    have hmissing := h.missing hlt
    rw [hall _ hlt] at hmissing
    cases hmissing

/-! ### Accepting an advertisement -/

section

variable {adv : ResourceAdv} {expected : Option (Bytes 16)} {mapHashes : List (Bytes 4)}
  (h : validateAdv adv expected = .ok mapHashes)

include h

theorem validateAdv_ok :
    tokenOverhead + 16 ≤ adv.transferSize.toNat ∧ adv.transferSize.toNat ≤ transferMax ∧
      mapHashes.length = partCount adv.transferSize.toNat := by
  simp only [validateAdv, bind_eq_ok, refuseIf_eq_ok, pure_eq_ok] at h
  obtain ⟨_, _, _, _, _, _, _, _, _, _, _, hlarge, _, hlow, _, _, _, _, _, _, rfl⟩ := h
  refine ⟨not_lt.mp hlow, not_lt.mp fun hlt => hlarge (.inl hlt), by simp⟩

theorem admitted_accepted :
    Admitted (accepted adv mapHashes) := by
  obtain ⟨hlow, hhigh, hparts⟩ := validateAdv_ok h
  refine ⟨hlow, hhigh, hparts, rfl, ?_, fun _ => ?_, fun i hi => absurd hi (Nat.not_lt_zero i),
    fun _ => ?_, Nat.zero_le _⟩
  · simp [accepted]
  · simp [accepted]
  · simp [accepted, got]

end

/-! ### Runs -/

inductive Operation
  | receive (part : List UInt8)
  | grow (rate : Nat)
  | shrink
  | assemble (keys : LinkKeys)

def perform [Crypto] (r : InboundResource) : Operation → InboundResource
  | .receive part => (r.receivePart part).1
  | .grow rate => { r with window := r.window.grow rate }
  | .shrink => { r with window := r.window.shrink }
  | .assemble keys => (r.assemble keys).1

section

variable [Crypto] {ops : List Operation} {s : InboundResource}

abbrev Reaches (r : InboundResource) (ops : List Operation) (s : InboundResource) : Prop :=
  Runs perform (fun _ _ => True) r ops s

/-- An attempt to assemble is refused and changes nothing, marks the transfer corrupt, or exposes bytes
that have the advertised hash. -/
theorem assemble_cases (r : InboundResource) (keys : LinkKeys) :
    (r.state ≠ .transferring ∧ r.assemble keys = (r, .error .invalidState)) ∨
    (r.state = .transferring ∧ r.isComplete = false ∧ r.assemble keys = (r, .error .incomplete)) ∨
    (r.state = .transferring ∧ r.isComplete = true ∧ ∃ buf e,
      r.assemble keys = ({ r with buf := buf, state := .corrupt }, .error e)) ∨
    (r.state = .transferring ∧ r.isComplete = true ∧ ∃ buf dataLen,
      computeResourceHash (between buf (16 + randomHashSize) (16 + randomHashSize + dataLen))
          r.randomHash = r.resourceHash ∧
      r.assemble keys = ({ r with
        buf := buf
        proof := computeExpectedProof
          (between buf (16 + randomHashSize) (16 + randomHashSize + dataLen)) r.resourceHash
        dataLen := dataLen
        state := .assembled }, .ok dataLen)) := by
  by_cases hstate : r.state = .transferring
  · cases hcomplete : r.isComplete with
    | false =>
        refine .inr (.inl ⟨hstate, rfl, ?_⟩)
        unfold assemble
        rw [if_neg (not_not.mpr hstate), hcomplete]
        rfl
    | true =>
        unfold assemble
        rw [if_neg (not_not.mpr hstate), hcomplete, if_neg (by simp)]
        dsimp only
        split
        · exact .inr (.inr (.inl ⟨hstate, rfl, _, _, rfl⟩))
        · split_ifs with hshort hhash
          · exact .inr (.inr (.inl ⟨hstate, rfl, _, _, rfl⟩))
          · exact .inr (.inr (.inl ⟨hstate, rfl, _, _, rfl⟩))
          · exact .inr (.inr (.inr ⟨hstate, rfl, _, _, not_not.mp hhash, rfl⟩))
  · exact .inl ⟨hstate, by unfold assemble; rw [if_pos hstate]⟩

/-- What an operation does: it changes at most the window, fills an open slot, or ends the transfer. -/
theorem perform_cases (r : InboundResource) (op : Operation) :
    (∃ window, r.perform op = { r with window := window }) ∨ r.state = .transferring ∧
      ((∃ part i, r.Open part i ∧ r.perform op = r.fill i part) ∨
      (∃ buf, r.perform op = { r with buf := buf, state := .corrupt }) ∨
      ∃ keys buf proof dataLen, op = .assemble keys ∧ (r.assemble keys).2 = .ok dataLen ∧
        computeResourceHash (between buf (16 + randomHashSize) (16 + randomHashSize + dataLen))
          r.randomHash = r.resourceHash ∧
        r.perform op = { r with
          buf := buf, proof := proof, dataLen := dataLen, state := .assembled }) := by
  cases op with
  | receive part =>
      simp only [perform]
      rcases receivePart_cases r part with ⟨heq, _⟩ | ⟨hstate, i, hopen, heq⟩
      · exact .inl ⟨r.window, by rw [heq]⟩
      · exact .inr ⟨hstate, .inl ⟨part, i, hopen, by rw [heq]⟩⟩
  | grow rate => exact .inl ⟨_, rfl⟩
  | shrink => exact .inl ⟨_, rfl⟩
  | assemble keys =>
      simp only [perform]
      rcases assemble_cases r keys with ⟨_, heq⟩ | ⟨_, _, heq⟩ | ⟨hstate, _, buf, _, heq⟩ |
        ⟨hstate, _, buf, dataLen, hhash, heq⟩
      · exact .inl ⟨r.window, by rw [heq]⟩
      · exact .inl ⟨r.window, by rw [heq]⟩
      · exact .inr ⟨hstate, .inr (.inl ⟨buf, by rw [heq]⟩)⟩
      · exact .inr ⟨hstate, .inr (.inr ⟨keys, buf, _, dataLen, rfl, by rw [heq], hhash, by rw [heq]⟩)⟩

theorem admitted_perform (op : Operation) (h : Admitted r) : Admitted (r.perform op) := by
  rcases perform_cases r op with
    ⟨_, heq⟩ | ⟨_, ⟨_, _, hopen, heq⟩ | ⟨_, heq⟩ | ⟨_, _, _, _, _, _, _, heq⟩⟩
  · rw [heq]
    exact ⟨h.low, h.high, h.parts, h.hashes, h.slots, h.buffer, h.leading, h.missing, h.bound⟩
  · rw [heq]
    exact h.fill hopen
  · rw [heq]
    exact ⟨h.low, h.high, h.parts, h.hashes, h.slots, by simp, h.leading, h.missing, h.bound⟩
  · rw [heq]
    exact ⟨h.low, h.high, h.parts, h.hashes, h.slots, by simp, h.leading, h.missing, h.bound⟩

theorem admitted_of_reaches (hrun : Reaches r ops s) (h : Admitted r) : Admitted s :=
  Runs.invariant (I := Admitted) (fun _ op _ h => admitted_perform op h) hrun h

structure SameTransfer (r s : InboundResource) : Prop where
  resourceHash : s.resourceHash = r.resourceHash
  randomHash : s.randomHash = r.randomHash
  transferSize : s.transferSize = r.transferSize
  numParts : s.numParts = r.numParts
  mapHashes : s.mapHashes = r.mapHashes

omit [Crypto] in
theorem SameTransfer.refl (r : InboundResource) : SameTransfer r r := ⟨rfl, rfl, rfl, rfl, rfl⟩

omit [Crypto] in
theorem SameTransfer.trans {t : InboundResource} (h : SameTransfer r s) (h' : SameTransfer s t) :
    SameTransfer r t :=
  ⟨h'.resourceHash.trans h.resourceHash, h'.randomHash.trans h.randomHash,
    h'.transferSize.trans h.transferSize, h'.numParts.trans h.numParts, h'.mapHashes.trans h.mapHashes⟩

theorem sameTransfer_perform (r : InboundResource) (op : Operation) :
    SameTransfer r (r.perform op) := by
  rcases perform_cases r op with
    ⟨_, heq⟩ | ⟨_, ⟨_, _, _, heq⟩ | ⟨_, heq⟩ | ⟨_, _, _, _, _, _, _, heq⟩⟩
  all_goals rw [heq]
  all_goals exact ⟨rfl, rfl, rfl, rfl, rfl⟩

theorem sameTransfer_of_reaches (hrun : Reaches r ops s) : SameTransfer r s :=
  Runs.invariant (I := SameTransfer r) (fun s op _ h => h.trans (sameTransfer_perform s op)) hrun
    (.refl r)

/-! ### Safety -/

omit [Crypto] in
theorem Admitted.partition (h : Admitted r) {p : Nat} (hp : p < r.transferSize) :
    ∃! i, i < r.numParts ∧ i * sdu ≤ p ∧ p < r.slotEnd i := by
  obtain ⟨_, _, hall⟩ := partCount_bounds h.positive
  rw [← h.parts] at hall
  have hlt : p / sdu < r.numParts := (Nat.div_lt_iff_lt_mul (by decide)).mpr (lt_of_lt_of_le hp hall)
  refine ⟨p / sdu, ⟨hlt, Nat.div_mul_le_self p sdu, ?_⟩, ?_⟩
  · rw [h.slotEnd_eq hlt, lt_min_iff]
    refine ⟨?_, hp⟩
    simp only [sdu]
    omega
  · rintro j ⟨hj, hstart, hend⟩
    rw [h.slotEnd_eq hj, lt_min_iff] at hend
    simp only [sdu] at hstart hend ⊢
    omega

/-- A part is written into one empty slot, or not at all. -/
def WritesOnce (r s : InboundResource) : Prop :=
  s = r ∨ ∃ i < r.numParts, r.got i = false ∧ s.got i = true ∧
    ∀ p, p < i * sdu ∨ r.slotEnd i ≤ p → s.buf[p]? = r.buf[p]?

theorem writesOnce_receivePart (h : Admitted r) (part : List UInt8) :
    WritesOnce r (r.receivePart part).1 := by
  rcases receivePart_cases r part with ⟨heq, _⟩ | ⟨hstate, i, hopen, heq⟩
  · rw [heq]
    exact .inl rfl
  · rw [heq]
    have hi := hopen.lt
    refine .inr ⟨i, hi, hopen.free,
      (got_fill h.slots (lt_of_lt_of_le hi h.numParts_le) part i).mpr (.inl rfl), fun p hp => ?_⟩
    have hstart : i * sdu ≤ r.buf.length := by
      rw [h.buffer hstate]
      exact (Nat.le_add_right _ _).trans ((h.slotEnd_le hi).trans h.high)
    show (overwrite r.buf (i * sdu) part)[p]? = _
    rw [getElem?_overwrite hstart, if_neg]
    rw [hopen.length]
    unfold slotEnd at hp
    omega

theorem got_perform (h : Admitted r) (op : Operation) {i : Nat} (hi : r.got i = true) :
    (r.perform op).got i = true := by
  rcases perform_cases r op with
    ⟨_, heq⟩ | ⟨_, ⟨part, _, hopen, heq⟩ | ⟨_, heq⟩ | ⟨_, _, _, _, _, _, _, heq⟩⟩
  · rw [heq]
    exact hi
  · rw [heq]
    exact (got_fill h.slots (lt_of_lt_of_le hopen.lt h.numParts_le) part i).mpr (.inr hi)
  · rw [heq]
    exact hi
  · rw [heq]
    exact hi

/-- Only assembling leads to data, and a receiver that is done stays as it is but for its window. -/
theorem perform_of_done (op : Operation) (h : r.state ≠ .transferring) :
    ∃ window, r.perform op = { r with window := window } :=
  (perform_cases r op).resolve_right fun htransferring => h htransferring.1

theorem reaches_of_done (hrun : Reaches r ops s) (h : r.state ≠ .transferring) :
    ∃ window, s = { r with window := window } := by
  refine Runs.invariant (I := fun s => ∃ window, s = { r with window := window }) ?_ hrun
    ⟨r.window, rfl⟩
  rintro _ op _ ⟨window, rfl⟩
  obtain ⟨window', heq⟩ := perform_of_done op (show ({ r with window := window } :
    InboundResource).state ≠ .transferring from h)
  exact ⟨window', heq⟩

def Verified (r : InboundResource) : Prop :=
  ∀ data, r.data = some data → computeResourceHash data r.randomHash = r.resourceHash

omit [Crypto] in
theorem data_eq_none (h : r.state ≠ .assembled) : r.data = none := by
  unfold data
  rw [if_pos h]

omit [Crypto] in
theorem buildProof_eq_error (h : r.state ≠ .assembled) (outLen : Nat) :
    r.buildProof outLen = .error .invalidState := by
  unfold buildProof
  rw [refuseIf_of h]
  rfl

theorem verified_perform (op : Operation) (h : Verified r) : Verified (r.perform op) := by
  rcases perform_cases r op with ⟨_, heq⟩ | ⟨hstate, ⟨part, i, _, heq⟩ | ⟨_, heq⟩ |
    ⟨_, _, _, _, _, _, hhash, heq⟩⟩
  · rw [heq]
    exact h
  · rw [heq]
    intro data hdata
    have hopen : (r.fill i part).state ≠ .assembled := ne_of_eq_of_ne hstate (by simp)
    rw [data_eq_none hopen] at hdata
    cases hdata
  · rw [heq]
    intro data hdata
    rw [data_eq_none (by simp)] at hdata
    cases hdata
  · rw [heq]
    intro data hdata
    obtain rfl := Option.some.inj hdata
    exact hhash

theorem exists_assemble (hstart : r.state = .transferring) (hrun : Reaches r ops s)
    {data : List UInt8} (hdata : s.data = some data) :
    ∃ before keys after s', ops = before ++ .assemble keys :: after ∧ Reaches r before s' ∧
      ∃ n, (s'.assemble keys).2 = .ok n := by
  have hassembled : s.state = .assembled := by
    by_contra hnot
    rw [data_eq_none hnot] at hdata
    cases hdata
  have horigin := Runs.origin (I := fun _ => True) (P := fun s => s.state = .assembled)
    (Q := fun s op => ∃ keys n, op = .assemble keys ∧ (s.assemble keys).2 = .ok n)
    (fun _ _ _ _ => trivial) ?_ hrun trivial hassembled
  · rcases horigin with hwas | ⟨before, _, after, s', hops, hbefore, keys, n, rfl, hok⟩
    · rw [hstart] at hwas
      cases hwas
    · exact ⟨before, keys, after, s', hops, hbefore, n, hok⟩
  · intro s op _ _ hafter
    rcases perform_cases s op with ⟨_, heq⟩ | ⟨hstate, ⟨_, _, _, heq⟩ | ⟨_, heq⟩ |
      ⟨keys, _, _, n, hop, hok, _, _⟩⟩
    · rw [heq] at hafter
      exact .inl hafter
    · rw [heq] at hafter
      exact absurd (hstate.symm.trans hafter) (by simp)
    · rw [heq] at hafter
      cases hafter
    · exact .inr ⟨keys, n, hop, hok⟩

theorem hidden_of_failed {keys : LinkKeys} {e : ResourceError} (hstate : r.state ≠ .assembled)
    (hfailed : (r.assemble keys).2 = .error e) (he : e ≠ .incomplete)
    (hrun : Reaches (r.assemble keys).1 ops s) :
    s.data = none ∧ ∀ outLen, s.buildProof outLen = .error .invalidState := by
  rcases assemble_cases r keys with
    ⟨hnot, heq⟩ | ⟨_, _, heq⟩ | ⟨_, _, buf, _, heq⟩ | ⟨_, _, _, n, _, heq⟩
  · rw [heq] at hrun
    obtain ⟨window, rfl⟩ := reaches_of_done hrun hnot
    exact ⟨data_eq_none hstate, buildProof_eq_error hstate⟩
  · rw [heq] at hfailed
    exact absurd (Except.error.inj hfailed).symm he
  · rw [heq] at hrun
    obtain ⟨window, rfl⟩ := reaches_of_done hrun (by simp)
    exact ⟨data_eq_none (by simp), buildProof_eq_error (by simp)⟩
  · rw [heq] at hfailed
    cases hfailed

/-- What holds of a receiver at any moment after it accepted an advertisement. -/
structure Contained (adv : ResourceAdv) (s : InboundResource) : Prop where
  size : s.transferSize = adv.transferSize.toNat ∧ s.transferSize ≤ transferMax
  partition : ∀ p < s.transferSize, ∃! i, i < s.numParts ∧ i * sdu ≤ p ∧ p < s.slotEnd i
  inside : ∀ i < s.numParts, s.slotEnd i ≤ s.transferSize ∧ 0 < s.expectedPartLen i
  writes : ∀ part, WritesOnce s (s.receivePart part).1
  outside : ∀ part p, s.transferSize ≤ p → (s.receivePart part).1.buf[p]? = s.buf[p]?
  filled : ∀ op i, s.got i = true → (s.perform op).got i = true
  verified : ∀ data, s.data = some data → computeResourceHash data adv.randomHash = adv.resourceHash
  hidden : ∀ keys e ops s', s.state ≠ .assembled → (s.assemble keys).2 = .error e →
    e ≠ .incomplete → Reaches (s.assemble keys).1 ops s' →
      s'.data = none ∧ ∀ outLen, s'.buildProof outLen = .error .invalidState

theorem contained_of_admitted {adv : ResourceAdv} (h : Admitted s) (hverified : Verified s)
    (hsize : s.transferSize = adv.transferSize.toNat) (hrandom : s.randomHash = adv.randomHash)
    (hhash : s.resourceHash = adv.resourceHash) : Contained adv s where
  size := ⟨hsize, h.high⟩
  partition _ hp := h.partition hp
  inside i hi := ⟨h.slotEnd_le hi, h.expectedPartLen_pos i⟩
  writes part := writesOnce_receivePart h part
  outside part p hp := by
    rcases writesOnce_receivePart h part with heq | ⟨i, hi, _, _, hsame⟩
    · rw [heq]
    · exact hsame p (.inr ((h.slotEnd_le hi).trans hp))
  filled op _ hi := got_perform h op hi
  verified data hdata := hrandom ▸ hhash ▸ hverified data hdata
  hidden _ _ _ _ hstate hfailed he hrun := hidden_of_failed hstate hfailed he hrun

/-- Whatever is advertised, received and tried with whatever keys: a refused advertisement changes
nothing, and after an accepted one parts stay in their slots, only bytes of the advertised hash are
exposed, and nothing is once a complete transfer turned out corrupt. -/
theorem receiver_safe (r : InboundResource) (adv : ResourceAdv) (expected : Option (Bytes 16)) :
    (∀ e, (r.acceptInto adv expected).2 = .error e → (r.acceptInto adv expected).1 = r) ∧
      ∀ s₀, r.acceptInto adv expected = (s₀, .ok ()) → ∀ ops s, Reaches s₀ ops s →
        Contained adv s ∧
        ∀ data, s.data = some data → ∃ before keys after s', ops = before ++ .assemble keys :: after ∧
          Reaches s₀ before s' ∧ ∃ n, (s'.assemble keys).2 = .ok n := by
  cases hvalidate : validateAdv adv expected with
  | error e =>
      have heq : r.acceptInto adv expected = (r, .error e) := by simp only [acceptInto, hvalidate]
      rw [heq]
      refine ⟨fun _ _ => rfl, fun s₀ haccept => ?_⟩
      cases (Prod.mk.inj haccept).2
  | ok mapHashes =>
      have heq : r.acceptInto adv expected = (accepted adv mapHashes, .ok ()) := by
        simp only [acceptInto, hvalidate]
      rw [heq]
      refine ⟨fun e he => (by cases he), fun s₀ haccept ops s hrun => ?_⟩
      obtain rfl := (Prod.mk.inj haccept).1
      have hsame := sameTransfer_of_reaches hrun
      have hverified : Verified s :=
        Runs.invariant (I := Verified) (fun _ op _ h => verified_perform op h) hrun (by
          intro data hdata
          cases hdata)
      exact ⟨contained_of_admitted (admitted_of_reaches hrun (admitted_accepted hvalidate)) hverified
        hsame.transferSize hsame.randomHash hsame.resourceHash,
        fun data hdata => exists_assemble rfl hrun hdata⟩

end

end InboundResource

/-! ### A transfer of two parts -/

namespace KnownTransfer

/-- The data, sent with the keys, the initialization vector and the random hash that follow. -/
def data : List UInt8 := List.replicate 450 7

def keys : LinkKeys := ⟨⟨(List.range 64).map UInt8.ofNat, by simp⟩⟩

def iv : Bytes 16 := ⟨List.replicate 16 0x11, by simp⟩

def randomHash : Bytes 4 := Bytes.ofNat 4 0x01020304

def text : List UInt8 := randomHash.toList ++ data ++ List.replicate 10 10

def ciphertext : List UInt8 :=
  ([
    0xc683873abcdced0c2e1d1da29c749528, 0xfca4f3fdf0b6ddcfc1f5c1e81f2c08d4,
    0xd2184ed2b77ca53f8e76bf2033fe3d38, 0x983a74570cef3cabdfe0ceda342a45b6,
    0x596c954876591f4b2dbdb4bc557bfc6f, 0xb1951b20e0ff57ede54f4aac8f361096,
    0x5595d70c379900cbe832f1ccf392a85c, 0x26598837a24aa366b9764a2665b59637,
    0xe75aad26ee31d8de78db60aabbb65de2, 0x275dafbc39cdd9dec787a02847dff2a4,
    0xfd2c56c7e268a73cc01c6896519824c7, 0x622fc922a939d121b4632cfabc868174,
    0x99df0da6d8a4abd95c4e2b8d59dcfbab, 0xe5da22c116a85a49fe5133d7a8edae25,
    0x0743bb879e56a747fb60e0a023a9e5f7, 0xb008f6dc0d00b950c513e9150cd1fc6f,
    0xd02e8286783099703be2947b6d5331a3, 0x172f740baec550d7931fe7c1b4c4041f,
    0x54125c84c05a802c3040dcf2f3e5f9ce, 0x370eb37f71515794573885a77cab2f1e,
    0x345518cfd9967432ed03284320f3d518, 0xa5928fe7c504190172eb543627d9c1d2,
    0x808d15980262256ab57a46ee238598f2, 0xde86a8fd378a00c87f5e99426506830f,
    0xed926b34c66533d1b3e7a2b4f4c4e7de, 0x704501ef56d7da615c1e01f1a6a1834b,
    0x94aaa34e27398a790561b64384f65269, 0xe37834b94bcd131dc8710f2d174ad99a,
    0xcbc78aefbaeb783c95f1b6622b246c7b] : List Nat).flatMap fun block => (Bytes.ofNat 16 block).toList

def tag : Bytes 32 :=
  Bytes.ofNat 32 0x85cc80e3aec46896a1f7378a0e4a87da19c05f27f3af0324001c622eb6470fe4

def token : List UInt8 := iv.toList ++ ciphertext ++ tag.toList

def firstDigest : Bytes 32 :=
  Bytes.ofNat 32 0xd5fe5394a29c16f2dde1f93e7f361513b8c0f4fc3486bf78c92ae4f5d8148f04

def secondDigest : Bytes 32 :=
  Bytes.ofNat 32 0x613ce98b81af8f2415c01184ba88afadae9594d79156b7c7a5f03ae052a7157d

def resourceHash : Bytes 32 :=
  Bytes.ofNat 32 0x0fc9e94f1991f0999fadd28ed57d2028d66f86a16c6c06ac4c79c328c39835a8

def proof : Bytes 32 :=
  Bytes.ofNat 32 0xf79eef35c7b849a9238c341fabc8b5f1669e5103941fb76706a54d30338894be

/-- Exchange the text and its ciphertext, and leave other texts alone. -/
def exchange (blocks : List UInt8) : List UInt8 :=
  if blocks = text then ciphertext else if blocks = ciphertext then text else blocks

/-- Primitives that know the digests, the tag and the ciphertext of the transfer. -/
@[reducible] def crypto : Crypto :=
  { Crypto.known
      [(token.take 464 ++ randomHash.toList, firstDigest),
        (token.drop 464 ++ randomHash.toList, secondDigest),
        (data ++ randomHash.toList, resourceHash), (data ++ resourceHash.toList, proof)] [] with
    hmacSha256 := fun key message =>
      if key = (hmacKey keys.key).toList ∧ message = iv.toList ++ ciphertext then tag else Bytes.zero
    aes256CbcEncrypt := fun key vector blocks =>
      if key = aesKey keys.key ∧ vector = iv then exchange blocks else blocks
    aes256CbcDecrypt := fun key vector blocks =>
      if key = aesKey keys.key ∧ vector = iv then exchange blocks else blocks }

def adv : ResourceAdv :=
  { ResourceAdv.zero with
    transferSize := 512
    dataSize := 450
    numParts := 2
    resourceHash
    randomHash
    originalHash := resourceHash
    segmentIndex := 1
    totalSegments := 1
    flags := { ResourceFlags.zero with encrypted := true }
    hashmapLen := 8
    hashmap := Bytes.slice 32 (firstDigest.toList.take 4 ++ secondDigest.toList.take 4) 0 }

def receiver : InboundResource :=
  ((InboundResource.accepted ResourceAdv.zero []).acceptInto adv none).1

/-- The parts arrive in the wrong order, and the receiver assembles what it has. -/
def delivery : List InboundResource.Operation :=
  [.receive (token.drop sdu), .receive (token.take sdu), .assemble keys]

def delivered : InboundResource :=
  letI := crypto
  delivery.foldl InboundResource.perform receiver

theorem reaches_delivered :
    letI := crypto
    InboundResource.Reaches receiver delivery delivered :=
  .cons trivial (.cons trivial (.cons trivial (.nil _)))

theorem acceptInto_adv : (InboundResource.accepted ResourceAdv.zero []).acceptInto adv none =
    (receiver, .ok ()) := by
  have hok : ((InboundResource.accepted ResourceAdv.zero []).acceptInto adv none).2 = .ok () := by
    decide +kernel
  unfold receiver
  rw [← hok]

end KnownTransfer

namespace InboundResource

open KnownTransfer

/-- What was delivered in the wrong order is contained, and it is what was sent. -/
theorem receiver_safe_delivered :
    letI := crypto
    Contained adv delivered ∧ delivered.data = some KnownTransfer.data := by
  let _ := crypto
  exact ⟨((receiver_safe _ adv none).2 _ acceptInto_adv _ _ reaches_delivered).1, by decide +kernel⟩

/-- An attempt to assemble a transfer that is not complete fails, and the data is exposed later. -/
theorem data_of_incomplete :
    letI := crypto
    (accepted ResourceAdv.zero []).acceptInto adv none = (receiver, .ok ()) ∧
      (receiver.assemble keys).2 = .error .incomplete ∧
      ∃ ops s, Reaches (receiver.assemble keys).1 ops s ∧ s.data = some KnownTransfer.data := by
  let _ := crypto
  have hrefused : receiver.assemble keys = (receiver, .error .incomplete) := by
    rcases assemble_cases receiver keys with hcase | hcase | hcase | hcase
    · exact absurd (show receiver.state = .transferring by decide +kernel) hcase.1
    · exact hcase.2.2
    · exact absurd hcase.2.1 (by decide +kernel)
    · exact absurd hcase.2.1 (by decide +kernel)
  refine ⟨acceptInto_adv, by rw [hrefused], delivery, delivered, ?_, by decide +kernel⟩
  simp only [hrefused]
  exact reaches_delivered

end InboundResource

end ReticulumLite
