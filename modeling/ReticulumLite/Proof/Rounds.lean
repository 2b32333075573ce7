import Mathlib.Data.List.Sort
import ReticulumLite.Proof.Transfer

/-!
# Rounds of a transfer

A round is a request for the missing parts of the window and the delivery of what was asked for. The
window never gets narrower than two parts, though a demotion can take it below its own lower bound.
So the first missing part is always asked for, and every round moves the count of completed parts
on, whatever else arrives.
-/

namespace ReticulumLite

open Bounded

/-! ### The window -/

namespace WindowState

structure Fits (w : WindowState) : Prop where
  low : 2 ≤ w.window
  lowMin : 2 ≤ w.windowMin
  high : w.window ≤ w.windowMax
  highMax : w.windowMax ≤ 75

variable {w : WindowState}

theorem fits_new : new.Fits := ⟨by decide, by decide, by decide, by decide⟩

theorem fits_widen (h : w.Fits) : w.widen.Fits := by
  obtain ⟨hlow, hlowMin, hhigh, hhighMax⟩ := h
  unfold widen
  dsimp only
  split_ifs with hroom
  · exact ⟨Nat.le_succ_of_le hlow, Nat.le_succ_of_le hlowMin, hroom, hhighMax⟩
  · exact ⟨Nat.le_succ_of_le hlow, hlowMin, hroom, hhighMax⟩
  · exact ⟨hlow, hlowMin, hhigh, hhighMax⟩

theorem fits_grow (h : w.Fits) (rate : Nat) : (w.grow rate).Fits := by
  obtain ⟨hlow, hlowMin, hhigh, hhighMax⟩ := fits_widen h
  unfold grow
  dsimp only
  split_ifs
  · exact ⟨hlow, hlowMin, hhigh, hhighMax⟩
  · exact ⟨hlow, hlowMin, hhigh.trans hhighMax, le_rfl⟩
  · exact ⟨hlow, hlowMin, hhigh, hhighMax⟩
  · exact ⟨le_min hlow (by decide), hlowMin, min_le_right _ _, show 4 ≤ 75 by decide⟩
  · exact ⟨hlow, hlowMin, hhigh, hhighMax⟩
  · exact ⟨hlow, hlowMin, hhigh, hhighMax⟩

theorem fits_shrink (h : w.Fits) : w.shrink.Fits := by
  obtain ⟨hlow, hlowMin, hhigh, hhighMax⟩ := h
  unfold shrink
  dsimp only [windowFlexibility]
  split_ifs
  all_goals constructor
  all_goals dsimp only
  all_goals omega

end WindowState

/-! ### Requests -/

namespace InboundResource

def missing (s : InboundResource) : List Nat :=
  (List.range s.numParts).filter fun i =>
    decide (s.consecutiveCompleted ≤ i ∧ i < s.consecutiveCompleted + s.window.window) && !s.got i

variable {s : InboundResource} {i : Nat}

theorem mem_missing : i ∈ s.missing ↔ i < s.numParts ∧ s.consecutiveCompleted ≤ i ∧
    i < s.consecutiveCompleted + s.window.window ∧ s.got i = false := by
  simp only [missing, List.mem_filter, List.mem_range, Bool.and_eq_true, decide_eq_true_eq,
    Bool.not_eq_true', and_assoc]

theorem missing_eq (s : InboundResource) : (s.inWindow.filter fun i => !s.got i) = s.missing := by
  have hleft : (s.inWindow.filter fun i => !s.got i).Pairwise (· < ·) :=
    List.Pairwise.filter _ List.pairwise_lt_range'
  have hright : s.missing.Pairwise (· < ·) := List.Pairwise.filter _ List.pairwise_lt_range
  apply hleft.eq_of_mem_iff hright
  intro i
  rw [mem_missing, List.mem_filter, mem_inWindow, windowEnd, lt_min_iff, Bool.not_eq_true']
  tauto

theorem length_missing_le (s : InboundResource) : s.missing.length ≤ s.window.window := by
  rw [← missing_eq]
  apply (List.length_filter_le _ _).trans
  simp only [inWindow, List.length_range', windowEnd]
  omega

theorem take_missing (s : InboundResource) :
    (s.inWindow.filter fun i => !s.got i).take s.window.window = s.missing := by
  rw [missing_eq]
  exact List.take_of_length_le s.length_missing_le

theorem consecutiveCompleted_mem_missing (h : Admitted s) (hwindow : s.window.Fits)
    (hincomplete : s.isComplete = false) : s.consecutiveCompleted ∈ s.missing := by
  have hlt : s.consecutiveCompleted < s.numParts := by
    apply lt_of_le_of_ne h.bound
    simpa [isComplete] using hincomplete
  have hlow := hwindow.low
  exact mem_missing.mpr ⟨hlt, le_rfl, by omega, h.missing hlt⟩

def requestBytes (s : InboundResource) : List UInt8 :=
  hashmapIsNotExhausted :: s.resourceHash.toList ++
    s.missing.flatMap fun i => (s.mapHashes.getD i Bytes.zero).toList

theorem buildPartRequest_eq (hstate : s.state = .transferring) (hincomplete : s.isComplete = false)
    {outLen : Nat} (hroom : 1 + 32 + s.missing.length * maphashLen ≤ outLen) :
    s.buildPartRequest outLen = .ok s.requestBytes := by
  unfold buildPartRequest
  rw [refuseIf_of_not (by simp [hstate, hincomplete]), ok_bind]
  simp only [take_missing]
  rw [refuseIf_of_not (not_lt.mpr hroom)]
  rfl

theorem parse_requestBytes (s : InboundResource) :
    ∃ view, PartRequestView.parse s.requestBytes = .ok view ∧ view.resourceHash = s.resourceHash ∧
      view.requestedHashes = s.missing.map fun i => s.mapHashes.getD i Bytes.zero := by
  have hlen : 1 + 32 ≤ s.requestBytes.length := by
    simp only [requestBytes, List.length_append, List.length_cons, Bytes.length_toList]
    omega
  have hflag : byteAt s.requestBytes 0 = hashmapIsNotExhausted := rfl
  unfold PartRequestView.parse
  rw [refuseIf_of_not (by simp [requestBytes]), ok_bind, hflag]
  simp only [show decide (hashmapIsNotExhausted = hashmapIsExhausted) = false from rfl]
  rw [refuseIf_of_not (by simpa using hlen)]
  refine ⟨_, rfl, Bytes.slice_toList_append s.resourceHash _, ?_⟩
  have hrequested : s.requestBytes.drop (1 + 32) =
      (s.missing.flatMap fun i => (s.mapHashes.getD i Bytes.zero).toList) ++ [] := by
    rw [List.append_nil]
    exact List.drop_left' (by simp)
  have hcount : ((s.missing.flatMap fun i => (s.mapHashes.getD i Bytes.zero).toList) ++ []).length /
      maphashLen = s.missing.length := by
    rw [List.append_nil, length_records fun i => Bytes.length_toList _]
    exact Nat.mul_div_cancel _ (by decide)
  show (List.range ((s.requestBytes.drop (1 + 32)).length / maphashLen)).map _ = _
  simp only [Bool.false_eq_true, if_false, hrequested, hcount]
  exact map_slice_records (fun i => s.mapHashes.getD i Bytes.zero) s.missing []

section

open OutboundResource

variable [Crypto] {data : List UInt8} {keys : LinkKeys} {iv : Bytes 16} {r : OutboundResource}
  {t : InboundResource} {ops : List Operation}

theorem requestedParts_eq (hs : Expects r s) (h : Sent data keys iv r) {view : PartRequestView}
    (hhash : view.resourceHash = s.resourceHash)
    (hrequested : view.requestedHashes = s.missing.map fun i => s.mapHashes.getD i Bytes.zero) :
    r.requestedParts view = s.missing := by
  have hnamed : ∀ k < r.numParts, some (s.mapHashes.getD k Bytes.zero) = r.mapHashes[k]? := by
    intro k hk
    rw [hs.getD_mapHashes h hk, hs.randomHash, h.getElem?_mapHashes hk]
  have hpart : ∀ {k}, k ∈ s.missing → k < r.numParts := fun hk => hs.numParts ▸ (mem_missing.mp hk).1
  have hright : s.missing.Pairwise (· < ·) := List.Pairwise.filter _ List.pairwise_lt_range
  unfold requestedParts
  rw [if_neg (not_not.mpr (hhash.trans hs.resourceHash)), hrequested]
  apply (List.Pairwise.filter _ List.pairwise_lt_range).eq_of_mem_iff hright
  intro i
  simp only [List.mem_filter, List.mem_range, List.any_eq_true, List.mem_map, decide_eq_true_eq]
  constructor
  · rintro ⟨_, _, ⟨k, hk, rfl⟩, heq⟩
    rw [hnamed k (hpart hk)] at heq
    rwa [← (List.getElem?_inj (h.length_mapHashes.symm ▸ hpart hk) h.nodup).mp heq]
  · intro hi
    exact ⟨hpart hi, _, ⟨i, hi, rfl⟩, hnamed i (hpart hi)⟩

/-! ### Collecting parts -/

def Collects : Operation → Prop
  | .receive _ | .grow _ | .shrink => True
  | .assemble _ => False

/-- A receiver of a resource, before it assembles. -/
structure Collecting (r : OutboundResource) (s : InboundResource) : Prop where
  expects : Expects r s
  state : s.state = .transferring
  window : s.window.Fits

theorem collecting_accepted (h : Sent data keys iv r) :
    Collecting r (accepted r.advertisement r.mapHashes) :=
  ⟨expects_accepted h, rfl, WindowState.fits_new⟩

theorem collecting_perform {op : Operation} (hop : Collects op) (hs : Collecting r s) :
    Collecting r (s.perform op) := by
  have hexpects : Expects r (s.perform op) := expects_of_reaches hs.expects (.single trivial)
  cases op with
  | receive part =>
      simp only [perform] at hexpects ⊢
      rcases receivePart_cases s part with ⟨heq, _⟩ | ⟨hstate, j, _, heq⟩
      · rw [heq]
        exact hs
      · rw [heq] at hexpects ⊢
        exact ⟨hexpects, hstate, hs.window⟩
  | grow rate => exact ⟨hexpects, hs.state, WindowState.fits_grow hs.window rate⟩
  | shrink => exact ⟨hexpects, hs.state, WindowState.fits_shrink hs.window⟩
  | assemble keys => exact hop.elim

theorem got_receive (h : Sent data keys iv r) (hs : Collecting r s) (hi : i < r.numParts)
    (hready : s.got i = true ∨ i < s.windowEnd) : (s.perform (.receive (r.piece i))).got i = true := by
  have hadmitted := hs.expects.admitted
  cases hgot : s.got i with
  | true => exact got_perform hadmitted _ hgot
  | false =>
      have hlast : i < s.windowEnd := hready.resolve_left (by simp [hgot])
      have hfirst : s.consecutiveCompleted ≤ i := by
        by_contra hlt
        rw [hadmitted.leading i (not_le.mp hlt)] at hgot
        cases hgot
      have hopen := hs.expects.open_piece h hfirst hlast hgot
      simp only [perform]
      rcases receivePart_cases s (r.piece i) with ⟨_, hnone⟩ | ⟨_, j, hopen', heq⟩
      · exact absurd hopen (hnone hs.state i)
      · obtain rfl := hs.expects.eq_of_open h hi hopen'
        rw [heq]
        exact (got_fill hadmitted.slots (lt_of_lt_of_le hi h.numParts_le) _ _).mpr (.inl rfl)

theorem got_of_reaches (h : Admitted s) (hrun : Reaches s ops t) (hi : s.got i = true) :
    t.got i = true := by
  have hboth := Runs.invariant (I := fun t => Admitted t ∧ t.got i = true)
    (fun _ op _ ht => ⟨admitted_perform op ht.1, got_perform ht.1 op ht.2⟩) hrun ⟨h, hi⟩
  exact hboth.2

omit [Crypto] in
theorem lt_consecutiveCompleted (h : Admitted s) (hi : i < s.numParts)
    (hgot : ∀ j ≤ i, s.got j = true) : i < s.consecutiveCompleted := by
  by_contra hle
  have hle := not_lt.mp hle
  have hmissing := h.missing (lt_of_le_of_lt hle hi)
  rw [hgot _ hle] at hmissing
  cases hmissing

theorem consecutiveCompleted_of_reaches (h : Admitted s) (hrun : Reaches s ops t) :
    s.consecutiveCompleted ≤ t.consecutiveCompleted := by
  have ht := admitted_of_reaches hrun h
  by_contra hlt
  have hlt := not_le.mp hlt
  have hparts : t.consecutiveCompleted < t.numParts := by
    rw [(sameTransfer_of_reaches hrun).numParts]
    exact lt_of_lt_of_le hlt h.bound
  have hmissing := ht.missing hparts
  rw [got_of_reaches h hrun (h.leading _ hlt)] at hmissing
  cases hmissing

theorem windowEnd_receive (h : Admitted s) (part : List UInt8) :
    s.windowEnd ≤ (s.perform (.receive part)).windowEnd := by
  have hrun : Reaches s [.receive part] (s.perform (.receive part)) := .single trivial
  have hcount := consecutiveCompleted_of_reaches h hrun
  have hparts := (sameTransfer_of_reaches hrun).numParts
  have hwindow : (s.perform (.receive part)).window = s.window := by
    simp only [perform]
    rcases receivePart_cases s part with ⟨heq, _⟩ | ⟨_, j, _, heq⟩
    · rw [heq]
    · rw [heq]
      rfl
  unfold windowEnd
  rw [hparts, hwindow]
  omega

/-- Whatever else arrives, a part that the window has room for is there after it arrived. -/
theorem got_of_received (h : Sent data keys iv r) (hs : Collecting r s) (hi : i ∈ s.missing)
    (hrun : Runs perform (fun _ op => ∃ part, op = .receive part) s ops t)
    (hmem : .receive (r.piece i) ∈ ops) : t.got i = true := by
  obtain ⟨hparts, _, hlast, _⟩ := mem_missing.mp hi
  refine Runs.of_mem (I := fun t => Collecting r t ∧ i < t.windowEnd) (P := fun t => t.got i = true)
    ?_ ?_ (fun t ht => ?_) hrun ⟨hs, lt_min hlast hparts⟩ hmem
  · rintro t _ ⟨part, rfl⟩ ⟨ht, hend⟩
    exact ⟨collecting_perform trivial ht,
      lt_of_lt_of_le hend (windowEnd_receive ht.expects.admitted part)⟩
  · rintro t op _ ⟨ht, _⟩ hgot
    exact got_perform ht.expects.admitted op hgot
  · exact got_receive h ht.1 (hs.expects.numParts ▸ hparts) (.inr ht.2)

/-! ### Rounds -/

/-- A request, and a run in which every part that it asks for arrives. -/
structure Round (r : OutboundResource) (s t : InboundResource) : Prop where
  incomplete : s.isComplete = false
  delivered : ∃ outLen request view ops, s.buildPartRequest outLen = .ok request ∧
    PartRequestView.parse request = .ok view ∧ Runs perform (fun _ op => Collects op) s ops t ∧
    ∀ i ∈ r.requestedParts view, ∃ part, r.part i = some part ∧ .receive part ∈ ops

inductive Rounds (r : OutboundResource) : Nat → InboundResource → InboundResource → Prop
  | nil (s : InboundResource) : Rounds r 0 s s
  | cons {n : Nat} {s t u : InboundResource} : Round r s t → Rounds r n t u → Rounds r (n + 1) s u

omit [Crypto] in
theorem eq_requestBytes {outLen : Nat} {request : List UInt8}
    (h : s.buildPartRequest outLen = .ok request) : request = s.requestBytes := by
  simp only [buildPartRequest, take_missing, bind_eq_ok, refuseIf_eq_ok, pure_eq_ok] at h
  obtain ⟨_, _, _, _, rfl⟩ := h
  rfl

theorem round_progress (h : Sent data keys iv r) (hs : Collecting r s) (hround : Round r s t) :
    Collecting r t ∧ s.consecutiveCompleted < t.consecutiveCompleted := by
  obtain ⟨hincomplete, outLen, request, view, ops, hrequest, hparse, hrun, hall⟩ := hround
  obtain ⟨view', hview, hhash, hrequested⟩ := parse_requestBytes s
  obtain rfl := eq_requestBytes hrequest
  obtain rfl : view' = view := Except.ok.inj (hview.symm.trans hparse)
  rw [requestedParts_eq hs.expects h hhash hrequested] at hall
  have hadmitted := hs.expects.admitted
  have hfirst := consecutiveCompleted_mem_missing hadmitted hs.window hincomplete
  have hlt := (mem_missing.mp hfirst).1
  obtain ⟨part, hpart, hmem⟩ := hall _ hfirst
  obtain ⟨hi, rfl⟩ := part_eq_some.mp hpart
  have hcount : ∀ {t : InboundResource} (op : Operation), Collecting r t →
      t.consecutiveCompleted ≤ (t.perform op).consecutiveCompleted := fun {t} op ht =>
    consecutiveCompleted_of_reaches ht.expects.admitted
      (show Reaches t [op] (t.perform op) from .single trivial)
  have hgot : t.got s.consecutiveCompleted = true := by
    refine Runs.of_mem
      (I := fun t => Collecting r t ∧ s.consecutiveCompleted ≤ t.consecutiveCompleted)
      (P := fun t => t.got s.consecutiveCompleted = true) ?_ ?_ ?_ hrun ⟨hs, le_rfl⟩ hmem
    · rintro t op hop ⟨ht, hle⟩
      exact ⟨collecting_perform hop ht, hle.trans (hcount op ht)⟩
    · rintro t op _ ⟨ht, _⟩ hgot
      exact got_perform ht.expects.admitted op hgot
    · rintro t ⟨ht, hle⟩
      apply got_receive h ht hi
      rcases Nat.eq_or_lt_of_le hle with heq | hpast
      · have hlow := ht.window.low
        have hparts := ht.expects.numParts
        refine .inr (lt_min ?_ ?_)
        · omega
        · omega
      · exact .inl (ht.expects.admitted.leading _ hpast)
  have hreaches : Reaches s ops t := hrun.mono fun _ _ _ => trivial
  refine ⟨Runs.invariant (I := Collecting r) (fun _ _ hop => collecting_perform hop) hrun hs, ?_⟩
  apply lt_consecutiveCompleted (admitted_of_reaches hreaches hadmitted)
  · rw [(sameTransfer_of_reaches hreaches).numParts]
    exact hlt
  · intro j hj
    rcases Nat.eq_or_lt_of_le hj with rfl | hj
    · exact hgot
    · exact got_of_reaches hadmitted hreaches (hadmitted.leading j hj)

theorem rounds_progress (h : Sent data keys iv r) {n : Nat} (hrounds : Rounds r n s t)
    (hs : Collecting r s) :
    Collecting r t ∧ s.consecutiveCompleted + n ≤ t.consecutiveCompleted := by
  induction hrounds with
  | nil s => exact ⟨hs, le_rfl⟩
  | cons hround _ ih =>
      obtain ⟨ht, hlt⟩ := round_progress h hs hround
      obtain ⟨hu, hle⟩ := ih ht
      exact ⟨hu, by omega⟩

theorem exists_round (h : Sent data keys iv r) (hs : Collecting r s) (hincomplete : s.isComplete = false) :
    ∃ t, Round r s t := by
  obtain ⟨view, hparse, hhash, hrequested⟩ := parse_requestBytes s
  have hparts := requestedParts_eq hs.expects h hhash hrequested
  refine ⟨_, hincomplete, _, _, view, s.missing.map fun i => .receive (r.piece i),
    buildPartRequest_eq hs.state hincomplete le_rfl, hparse, Runs.foldl s fun op hop _ => ?_,
    fun i hi => ?_⟩
  · obtain ⟨i, _, rfl⟩ := List.mem_map.mp hop
    trivial
  · rw [hparts] at hi
    have hlt : i < r.numParts := hs.expects.numParts ▸ (mem_missing.mp hi).1
    exact ⟨r.piece i, part_eq_some.mpr ⟨hlt, rfl⟩, List.mem_map.mpr ⟨i, hi, rfl⟩⟩

structure Progresses (r : OutboundResource) (s : InboundResource) : Prop where
  window : 2 ≤ s.window.window ∧ s.window.window ≤ s.window.windowMax ∧ s.window.windowMax ≤ 75
  requests : s.isComplete = false → ∀ outLen, 1 + 32 + s.missing.length * maphashLen ≤ outLen →
    ∃ request view, s.buildPartRequest outLen = .ok request ∧
      PartRequestView.parse request = .ok view ∧ view.resourceHash = r.resourceHash ∧
      view.requestedHashes.map some = s.missing.map (r.mapHashes[·]?) ∧ s.missing ≠ [] ∧
      r.requestedParts view = s.missing
  room : 1 + 32 + s.missing.length * maphashLen ≤ requestMax
  fills : ∀ ops t, Runs perform (fun _ op => ∃ part, op = .receive part) s ops t →
    ∀ i ∈ s.missing, ∀ part, r.part i = some part → .receive part ∈ ops → t.got i = true
  next : s.isComplete = false → ∃ t, Round r s t
  rounds : ∀ n t, Rounds r n s t → n ≤ r.numParts ∧ (n = r.numParts → t.isComplete = true)

theorem progresses_of_collecting (h : Sent data keys iv r) (hs : Collecting r s) :
    Progresses r s where
  window := ⟨hs.window.low, hs.window.high, hs.window.highMax⟩
  requests hincomplete outLen hroom := by
    obtain ⟨view, hparse, hhash, hrequested⟩ := parse_requestBytes s
    refine ⟨_, view, buildPartRequest_eq hs.state hincomplete hroom, hparse,
      hhash.trans hs.expects.resourceHash, ?_, ?_, requestedParts_eq hs.expects h hhash hrequested⟩
    · rw [hrequested, List.map_map]
      apply List.map_congr_left
      intro i hi
      have hlt : i < r.numParts := hs.expects.numParts ▸ (mem_missing.mp hi).1
      simp only [Function.comp_apply]
      rw [hs.expects.getD_mapHashes h hlt, hs.expects.randomHash, h.getElem?_mapHashes hlt]
    · exact List.ne_nil_of_mem
        (consecutiveCompleted_mem_missing hs.expects.admitted hs.window hincomplete)
  room := by
    have hlen : s.missing.length ≤ maxParts := by
      apply (List.length_filter_le _ _).trans
      rw [List.length_range]
      exact hs.expects.admitted.numParts_le
    simp only [requestMax, maphashLen, maxParts] at hlen ⊢
    omega
  fills ops t hrun i hi part hpart hmem := by
    obtain ⟨_, rfl⟩ := part_eq_some.mp hpart
    exact got_of_received h hs hi hrun hmem
  next := exists_round h hs
  rounds n t hrounds := by
    obtain ⟨ht, hle⟩ := rounds_progress h hrounds hs
    have hbound := ht.expects.admitted.bound
    have hparts := ht.expects.numParts
    refine ⟨by omega, fun heq => decide_eq_true ?_⟩
    omega

/-- The request and the delivery of parts always move a transfer on, from every state that was reached
by receiving whatever arrived and changing the window. -/
theorem transfer_progresses (hcbc : CbcKeepsBlocks) {data : List UInt8} {keys : LinkKeys}
    {randomHash : Bytes 4} {iv : Bytes 16} {r : OutboundResource}
    (hbuild : OutboundResource.build data keys randomHash iv = .ok r) {old s₀ s : InboundResource}
    (haccept : old.fromAdvertisementInto r.advertisement = (s₀, .ok ())) {ops : List Operation}
    (hrun : Runs perform (fun _ op => Collects op) s₀ ops s) : Progresses r s := by
  have h := sent_of_build hcbc hbuild
  rw [fromAdvertisementInto, acceptInto, h.validateAdv_advertisement] at haccept
  obtain rfl := (Prod.mk.inj haccept).1
  exact progresses_of_collecting h (Runs.invariant (I := Collecting r)
    (fun _ _ hop => collecting_perform hop) hrun (collecting_accepted h))

end

end InboundResource

namespace KnownTransfer

/-- After the second part arrived, the first one is asked for. -/
theorem transfer_progresses_sender :
    letI := crypto
    InboundResource.Progresses sender (receiver.perform (.receive (token.drop sdu))) ∧
      (receiver.perform (.receive (token.drop sdu))).missing = [0] := by
  have haccept : (InboundResource.accepted ResourceAdv.zero []).fromAdvertisementInto
      sender.advertisement = (receiver, .ok ()) := by
    rw [advertisement_sender]
    exact acceptInto_adv
  have hrun : Runs (@InboundResource.perform crypto) (fun _ op => InboundResource.Collects op)
      receiver [.receive (token.drop sdu)] (@InboundResource.perform crypto receiver _) :=
    .cons trivial (.nil _)
  exact ⟨@InboundResource.transfer_progresses crypto (@CbcInverts.keepsBlocks crypto cbcInverts)
    _ _ _ _ _ build_sender _ _ _ haccept _ hrun, by decide +kernel⟩

end KnownTransfer

end ReticulumLite
