import ReticulumLite.Wire.Lora
import ReticulumLite.Proof.Codec

/-!
# LoRa framing

Every packet that an interface admits fits two frames, and a receiver not waiting under the same
sequence number puts them together again. Over any sequence of frames, what is returned was the
payload of one frame or of two that followed each other, and no half is used twice.
-/

namespace ReticulumLite

open Bounded

/-! ### One frame -/

namespace LoraFramer

variable {f : LoraFramer} {frame : List UInt8} {nowMs : Nat} {packet : LoraPacketBuffer}
  {pending : PendingSplit}

@[simp] theorem splitTimeoutMs_expire (f : LoraFramer) (nowMs : Nat) :
    (f.expire nowMs).splitTimeoutMs = f.splitTimeoutMs := by
  unfold expire
  split <;> rfl

theorem pending_expire :
    (f.expire nowMs).pending = some pending ↔ f.pending = some pending ∧ nowMs < pending.expiresMs := by
  unfold expire
  cases hpending : f.pending with
  | none => simp [hpending]
  | some p =>
      simp only [Option.any_some, decide_eq_true_eq, Option.some.injEq]
      split_ifs with hlate
      · simp only [false_iff, not_and, not_lt]
        rintro rfl
        exact hlate
      · rw [hpending, Option.some.injEq, iff_self_and]
        rintro rfl
        exact not_le.mp hlate

theorem splitTimeoutMs_hold (f : LoraFramer) (sequence : UInt8) (payload : List UInt8) (nowMs : Nat) :
    (f.hold sequence payload nowMs).1.splitTimeoutMs = f.splitTimeoutMs := by
  unfold hold
  split <;> rfl

theorem splitTimeoutMs_ingestFrame (f : LoraFramer) (frame : List UInt8) (nowMs : Nat) :
    (f.ingestFrame frame nowMs).1.splitTimeoutMs = f.splitTimeoutMs := by
  rw [← splitTimeoutMs_expire f nowMs]
  unfold ingestFrame
  dsimp only
  repeat' split
  all_goals first | rfl | exact splitTimeoutMs_hold ..

def Completes (f : LoraFramer) (pending : PendingSplit) (header : UInt8) (nowMs : Nat) : Prop :=
  f.pending = some pending ∧ nowMs < pending.expiresMs ∧ pending.sequence = header >>> 4

theorem ingestFrame_whole {header : UInt8} (h : header &&& splitFlag = 0) (payload : List UInt8) :
    f.ingestFrame (header :: payload) nowMs =
      ({ f.expire nowMs with pending := none },
        ((PacketBuffer.fromSlice payload).mapError .buffer).map some) := by
  unfold ingestFrame
  dsimp only
  rw [if_pos h]

theorem ingestFrame_second {header : UInt8} (h : header &&& splitFlag ≠ 0)
    (hpending : f.Completes pending header nowMs) (payload : List UInt8) :
    f.ingestFrame (header :: payload) nowMs =
      ({ f.expire nowMs with pending := none },
        ((pending.first.extendFromSlice payload).mapError .buffer).map some) := by
  obtain ⟨hheld, hlive, hsequence⟩ := hpending
  unfold ingestFrame
  dsimp only
  rw [if_neg h, pending_expire.mpr ⟨hheld, hlive⟩]
  dsimp only
  rw [if_pos hsequence]

theorem ingestFrame_first {header : UInt8} (h : header &&& splitFlag ≠ 0)
    (hother : ∀ pending, ¬ f.Completes pending header nowMs) (payload : List UInt8) :
    f.ingestFrame (header :: payload) nowMs = (f.expire nowMs).hold (header >>> 4) payload nowMs := by
  unfold ingestFrame
  dsimp only
  rw [if_neg h]
  split
  · rfl
  · rename_i pending hpending
    obtain ⟨hheld, hlive⟩ := pending_expire.mp hpending
    rw [if_neg fun hsequence => hother pending ⟨hheld, hlive, hsequence⟩]

theorem hold_cases (f : LoraFramer) (sequence : UInt8) (payload : List UInt8) (nowMs : Nat) :
    (∃ first, first.bytes = payload ∧ f.hold sequence payload nowMs =
      ({ f with pending := some ⟨sequence, first, satAdd nowMs f.splitTimeoutMs⟩ }, .ok none)) ∨
    ∃ e, f.hold sequence payload nowMs = ({ f with pending := none }, .error (.buffer e)) := by
  unfold hold
  split
  · exact .inr ⟨_, rfl⟩
  · rename_i first hfirst
    exact .inl ⟨first, PacketBuffer.fromSlice_eq_ok.mp hfirst, rfl⟩

private theorem map_some_eq_ok {x : Except LoraError LoraPacketBuffer} :
    x.map some = .ok (some packet) ↔ x = .ok packet := by
  cases x <;> simp [Except.map]

theorem ingestFrame_returns (h : (f.ingestFrame frame nowMs).2 = .ok (some packet)) :
    ∃ header payload, frame = header :: payload ∧
      (header &&& splitFlag = 0 ∧ packet.bytes = payload ∨
        header &&& splitFlag ≠ 0 ∧ ∃ pending, f.Completes pending header nowMs ∧
          packet.bytes = pending.first.bytes ++ payload) := by
  cases frame with
  | nil => cases h
  | cons header payload =>
      refine ⟨header, payload, rfl, ?_⟩
      by_cases hwhole : header &&& splitFlag = 0
      · rw [ingestFrame_whole hwhole, map_some_eq_ok, mapError_eq_ok, PacketBuffer.fromSlice_eq_ok] at h
        exact .inl ⟨hwhole, h⟩
      by_cases hsecond : ∃ pending, f.Completes pending header nowMs
      · obtain ⟨pending, hpending⟩ := hsecond
        rw [ingestFrame_second hwhole hpending, map_some_eq_ok, mapError_eq_ok,
          PacketBuffer.extendFromSlice_eq_ok] at h
        exact .inr ⟨hwhole, pending, hpending, h⟩
      · rw [ingestFrame_first hwhole (not_exists.mp hsecond)] at h
        rcases hold_cases (f.expire nowMs) (header >>> 4) payload nowMs with ⟨_, _, heq⟩ | ⟨_, heq⟩
        · rw [heq] at h
          cases h
        · rw [heq] at h
          cases h

theorem ingestFrame_pending (h : (f.ingestFrame frame nowMs).1.pending = some pending) :
    frame = [] ∧ f.pending = some pending ∨
    ∃ header payload, frame = header :: payload ∧ header &&& splitFlag ≠ 0 ∧
      pending.sequence = header >>> 4 ∧ pending.first.bytes = payload ∧
      pending.expiresMs = satAdd nowMs f.splitTimeoutMs ∧
      (f.ingestFrame frame nowMs).2 = .ok none := by
  cases frame with
  | nil => exact .inl ⟨rfl, (pending_expire.mp h).1⟩
  | cons header payload =>
      refine .inr ⟨header, payload, rfl, ?_⟩
      by_cases hwhole : header &&& splitFlag = 0
      · rw [ingestFrame_whole hwhole] at h
        cases h
      by_cases hsecond : ∃ pending, f.Completes pending header nowMs
      · obtain ⟨pending, hpending⟩ := hsecond
        rw [ingestFrame_second hwhole hpending] at h
        cases h
      · rw [ingestFrame_first hwhole (not_exists.mp hsecond)] at h ⊢
        rcases hold_cases (f.expire nowMs) (header >>> 4) payload nowMs with
          ⟨first, hfirst, heq⟩ | ⟨_, heq⟩
        · rw [heq] at h ⊢
          cases h
          exact ⟨hwhole, rfl, hfirst, by rw [splitTimeoutMs_expire], rfl⟩
        · rw [heq] at h
          cases h

/-! ### Sequences of frames -/

def after (f : LoraFramer) (arrivals : List (List UInt8 × Nat)) : LoraFramer :=
  arrivals.foldl (fun f a => (f.ingestFrame a.1 a.2).1) f

def results : LoraFramer → List (List UInt8 × Nat) → List (Except LoraError (Option LoraPacketBuffer))
  | _, [] => []
  | f, a :: arrivals => (f.ingestFrame a.1 a.2).2 :: results (f.ingestFrame a.1 a.2).1 arrivals

/-- The frames, by their places, that a returned packet is made of. -/
inductive MadeOf (timeoutMs : Nat) (arrivals : List (List UInt8 × Nat)) :
    Nat → List Nat → List UInt8 → Prop
  | whole {j nowMs : Nat} {header : UInt8} {payload : List UInt8}
      (hj : arrivals[j]? = some (header :: payload, nowMs)) (hwhole : header &&& splitFlag = 0) :
      MadeOf timeoutMs arrivals j [j] payload
  | joined {i j nowMs nowMs' : Nat} {header header' : UInt8} {first second : List UInt8} (hlt : i < j)
      (hi : arrivals[i]? = some (header :: first, nowMs))
      (hj : arrivals[j]? = some (header' :: second, nowMs'))
      (hsplit : header &&& splitFlag ≠ 0) (hsplit' : header' &&& splitFlag ≠ 0)
      (hsequence : header >>> 4 = header' >>> 4) (hintime : nowMs' < satAdd nowMs timeoutMs)
      (hsilent : ∀ k, i < k → k < j → ∃ nowMs, arrivals[k]? = some ([], nowMs)) :
      MadeOf timeoutMs arrivals j [i, j] (first ++ second)

variable {arrivals : List (List UInt8 × Nat)} {timeoutMs : Nat}

section

variable (f arrivals)

theorem splitTimeoutMs_after : (f.after arrivals).splitTimeoutMs = f.splitTimeoutMs := by
  induction arrivals generalizing f with
  | nil => rfl
  | cons a arrivals ih => exact (ih _).trans (splitTimeoutMs_ingestFrame ..)

theorem after_concat (a : List UInt8 × Nat) :
    f.after (arrivals ++ [a]) = ((f.after arrivals).ingestFrame a.1 a.2).1 :=
  List.foldl_concat ..

theorem getElem?_results (j : Nat) :
    (f.results arrivals)[j]? =
      arrivals[j]?.map fun a => ((f.after (arrivals.take j)).ingestFrame a.1 a.2).2 := by
  induction arrivals generalizing f j with
  | nil => rfl
  | cons a arrivals ih =>
      cases j with
      | zero => rfl
      | succ j => exact ih _ j

end

structure Origin (timeoutMs : Nat) (arrivals : List (List UInt8 × Nat)) (i : Nat)
    (pending : PendingSplit) : Prop where
  arrived : ∃ header nowMs, arrivals[i]? = some (header :: pending.first.bytes, nowMs) ∧
    header &&& splitFlag ≠ 0 ∧ pending.sequence = header >>> 4 ∧
    pending.expiresMs = satAdd nowMs timeoutMs
  silent : ∀ k, i < k → k < arrivals.length → ∃ nowMs, arrivals[k]? = some ([], nowMs)
  returned : ((new timeoutMs).results arrivals)[i]? = some (.ok none)

theorem Origin.lt {i : Nat} (h : Origin timeoutMs arrivals i pending) : i < arrivals.length := by
  obtain ⟨_, _, hi, _⟩ := h.arrived
  exact (List.getElem?_eq_some_iff.mp hi).1

theorem results_append_left {j : Nat} (h : j < arrivals.length)
    (more : List (List UInt8 × Nat)) :
    (f.results (arrivals ++ more))[j]? = (f.results arrivals)[j]? := by
  rw [getElem?_results, getElem?_results, List.getElem?_append_left h,
    List.take_append_of_le_length h.le]

theorem exists_origin (h : ((new timeoutMs).after arrivals).pending = some pending) :
    ∃ i, Origin timeoutMs arrivals i pending := by
  induction arrivals using List.reverseRecOn generalizing pending with
  | nil => cases h
  | append_singleton arrivals a ih =>
      rw [after_concat] at h
      rcases ingestFrame_pending h with ⟨hempty, hbefore⟩ | ⟨header, payload, hframe, hsplit, hsequence,
        hfirst, hexpires, hreturned⟩
      · obtain ⟨i, horigin⟩ := ih hbefore
        obtain ⟨header, nowMs, hi, hrest⟩ := horigin.arrived
        refine ⟨i, ⟨header, nowMs, ?_, hrest⟩, fun k hik hk => ?_, ?_⟩
        · rwa [List.getElem?_append_left horigin.lt]
        · rcases Nat.lt_or_ge k arrivals.length with hlt | hge
          · rw [List.getElem?_append_left hlt]
            exact horigin.silent k hik hlt
          · have hlast : k = arrivals.length := by
              rw [List.length_append, List.length_singleton] at hk
              omega
            exact ⟨a.2, by rw [hlast, List.getElem?_concat_length, ← hempty]⟩
        · rw [results_append_left horigin.lt]
          exact horigin.returned
      · refine ⟨arrivals.length, ⟨header, a.2, ?_, hsplit, hsequence, ?_⟩, fun k hik hk => ?_, ?_⟩
        · rw [List.getElem?_concat_length, hfirst, ← hframe]
        · rw [hexpires, splitTimeoutMs_after]
          rfl
        · rw [List.length_append, List.length_singleton] at hk
          omega
        · rw [getElem?_results, List.getElem?_concat_length, List.take_left' rfl]
          exact congrArg some hreturned

/-- A packet that is returned is made of one frame, or of two of which the first returned nothing. -/
theorem exists_madeOf {j : Nat}
    (h : ((new timeoutMs).results arrivals)[j]? = some (.ok (some packet))) :
    MadeOf timeoutMs arrivals j [j] packet.bytes ∨
      ∃ i, MadeOf timeoutMs arrivals j [i, j] packet.bytes ∧
        ((new timeoutMs).results arrivals)[i]? = some (.ok none) := by
  rw [getElem?_results] at h
  obtain ⟨⟨frame, nowMs⟩, hj, hreturned⟩ := Option.map_eq_some_iff.mp h
  obtain ⟨header, payload, rfl, ⟨hwhole, hbytes⟩ | ⟨hsplit, pending, ⟨hpending, hlive, hsequence⟩,
    hbytes⟩⟩ := ingestFrame_returns hreturned
  · rw [hbytes]
    exact .inl (.whole hj hwhole)
  · obtain ⟨i, horigin⟩ := exists_origin hpending
    obtain ⟨header', nowMs', hi, hsplit', hsequence', hexpires⟩ := horigin.arrived
    have hlen : (arrivals.take j).length = j :=
      List.length_take_of_le (List.getElem?_eq_some_iff.mp hj).1.le
    have hlt : i < j := hlen ▸ horigin.lt
    rw [List.getElem?_take_of_lt hlt] at hi
    refine .inr ⟨i, ?_, ?_⟩
    · rw [hbytes]
      refine .joined hlt hi hj hsplit' hsplit (hsequence'.symm.trans hsequence) (hexpires ▸ hlive) ?_
      intro k hik hkj
      have hsilent := horigin.silent k hik (hlen.symm ▸ hkj)
      rwa [List.getElem?_take_of_lt hkj] at hsilent
    · have hbefore := results_append_left (f := new timeoutMs) horigin.lt (arrivals.drop j)
      rw [List.take_append_drop] at hbefore
      rw [hbefore]
      exact horigin.returned

section

variable {i i' j j' k : Nat} {used used' : List Nat} {bytes bytes' : List UInt8}

theorem MadeOf.le (h : MadeOf timeoutMs arrivals j used bytes) (hk : k ∈ used) : k ≤ j := by
  cases h with
  | whole => exact (List.mem_singleton.mp hk).le
  | joined hlt =>
      rcases List.mem_cons.mp hk with rfl | hk
      · exact hlt.le
      · exact (List.mem_singleton.mp hk).le

theorem MadeOf.ne_empty (h : MadeOf timeoutMs arrivals j used bytes) (nowMs : Nat) :
    arrivals[j]? ≠ some ([], nowMs) := by
  intro hempty
  cases h with
  | whole hj => cases hempty.symm.trans hj
  | joined _ _ hj => cases hempty.symm.trans hj

theorem MadeOf.first_unique (h : MadeOf timeoutMs arrivals j [i, j] bytes)
    (h' : MadeOf timeoutMs arrivals j [i', j] bytes') : i = i' := by
  cases h with
  | joined hlt hi _ _ _ _ _ hsilent =>
      cases h' with
      | joined hlt' hi' _ _ _ _ _ hsilent' =>
          rcases Nat.lt_trichotomy i i' with hless | heq | hless
          · obtain ⟨_, hempty⟩ := hsilent i' hless hlt'
            cases hempty.symm.trans hi'
          · exact heq
          · obtain ⟨_, hempty⟩ := hsilent' i hless hlt
            cases hempty.symm.trans hi

theorem MadeOf.first_returned (h : MadeOf timeoutMs arrivals j [i, j] bytes)
    (hreturned : ((new timeoutMs).results arrivals)[j]? = some (.ok (some packet))) :
    ((new timeoutMs).results arrivals)[i]? = some (.ok none) := by
  rcases exists_madeOf hreturned with hwhole | ⟨i', hjoined, hnone⟩
  · cases hwhole with
    | whole hj hwhole =>
        cases h with
        | joined _ _ hj' _ hsplit =>
            cases hj.symm.trans hj'
            exact absurd hwhole hsplit
  · rwa [h.first_unique hjoined]

theorem MadeOf.disjoint (h : MadeOf timeoutMs arrivals j used bytes)
    (h' : MadeOf timeoutMs arrivals j' used' bytes') (hlt : j < j') {packet' : LoraPacketBuffer}
    (hreturned : ((new timeoutMs).results arrivals)[j]? = some (.ok (some packet)))
    (hreturned' : ((new timeoutMs).results arrivals)[j']? = some (.ok (some packet'))) :
    used.Disjoint used' := by
  intro k hk hk'
  have hle := h.le hk
  cases h' with
  | whole =>
      have := List.mem_singleton.mp hk'
      omega
  | joined hij hi hj hsplit hsplit' hsequence hintime hsilent =>
      have hnone := MadeOf.first_returned (.joined hij hi hj hsplit hsplit' hsequence hintime hsilent)
        hreturned'
      rcases List.mem_cons.mp hk' with rfl | hk'
      · rcases Nat.lt_or_eq_of_le hle with hless | rfl
        · obtain ⟨nowMs, hempty⟩ := hsilent j hless hlt
          exact h.ne_empty nowMs hempty
        · cases hnone.symm.trans hreturned
      · have := List.mem_singleton.mp hk'
        omega

end

/-! ### Packets in frames -/

private theorem header_fields : ∀ nibble : UInt8,
    ((nibble &&& 0x0F) <<< 4) &&& splitFlag = 0 ∧
      ((nibble &&& 0x0F) <<< 4 ||| splitFlag) &&& splitFlag ≠ 0 ∧
      ((nibble &&& 0x0F) <<< 4 ||| splitFlag) >>> 4 = nibble &&& 0x0F :=
  forall_byte (by decide +kernel)

theorem encode_short {bytes : List UInt8} (h : bytes.length ≤ loraFramePayloadMax) (nibble : UInt8)
    (out : LoraFrame × LoraFrame) :
    ∃ frame : LoraFrame, frame.bytes = ((nibble &&& 0x0F) <<< 4) :: bytes ∧
      encode bytes nibble out = .ok (1, frame, out.2) := by
  have hfits : bytes.length ≤ loraSplitFramePayloadMax := h.trans (by decide)
  refine ⟨⟨((nibble &&& 0x0F) <<< 4) :: bytes, Nat.succ_le_succ h⟩, rfl, ?_⟩
  simp only [encode, LoraFrame.set]
  rw [refuseIf_of_not (not_lt.mpr hfits), ok_bind, if_pos h, dif_neg (not_lt.mpr h)]
  rfl

theorem encode_long {bytes : List UInt8} (hlong : loraFramePayloadMax < bytes.length)
    (hfits : bytes.length ≤ loraSplitFramePayloadMax) (nibble : UInt8) (out : LoraFrame × LoraFrame) :
    ∃ first second : LoraFrame,
      first.bytes = ((nibble &&& 0x0F) <<< 4 ||| splitFlag) :: bytes.take loraFramePayloadMax ∧
      second.bytes = ((nibble &&& 0x0F) <<< 4 ||| splitFlag) :: bytes.drop loraFramePayloadMax ∧
      encode bytes nibble out = .ok (2, first, second) := by
  have hfirst : (bytes.take loraFramePayloadMax).length ≤ loraFramePayloadMax :=
    List.length_take_le ..
  have hsecond : (bytes.drop loraFramePayloadMax).length ≤ loraFramePayloadMax := by
    rw [List.length_drop]
    exact Nat.sub_le_of_le_add hfits
  let header : UInt8 := (nibble &&& 0x0F) <<< 4 ||| splitFlag
  refine ⟨⟨header :: bytes.take loraFramePayloadMax, Nat.succ_le_succ hfirst⟩,
    ⟨header :: bytes.drop loraFramePayloadMax, Nat.succ_le_succ hsecond⟩, rfl, rfl, ?_⟩
  simp only [encode, LoraFrame.set]
  rw [refuseIf_of_not (not_lt.mpr hfits), ok_bind, if_neg (not_le.mpr hlong),
    dif_neg (not_lt.mpr hfirst), ok_bind, dif_neg (not_lt.mpr hsecond)]
  rfl

theorem exists_encode {bytes : List UInt8} (hfits : bytes.length ≤ loraSplitFramePayloadMax)
    (nibble : UInt8) (out : LoraFrame × LoraFrame) :
    ∃ n frames, encode bytes nibble out = .ok (n, frames) := by
  rcases Nat.lt_or_ge loraFramePayloadMax bytes.length with hlong | hshort
  · obtain ⟨_, _, _, _, hencode⟩ := encode_long hlong hfits nibble out
    exact ⟨_, _, hencode⟩
  · obtain ⟨_, _, hencode⟩ := encode_short hshort nibble out
    exact ⟨_, _, hencode⟩

/-- Frames that arrive in order and in time make the packet again. -/
theorem results_encode {bytes : List UInt8} (hfits : bytes.length ≤ loraSplitFramePayloadMax)
    {nibble : UInt8} (hother : ∀ pending, f.pending = some pending → nowMs < pending.expiresMs →
      pending.sequence ≠ nibble &&& 0x0F) (out : LoraFrame × LoraFrame) :
    ∃ n frames, encode bytes nibble out = .ok (n, frames) ∧
      (n = 1 ∧ f.results [(frames.1.bytes, nowMs)] = [.ok (some ⟨bytes, hfits⟩)] ∨
        n = 2 ∧ ∀ nowMs', nowMs' < satAdd nowMs f.splitTimeoutMs →
          f.results [(frames.1.bytes, nowMs), (frames.2.bytes, nowMs')] =
            [.ok none, .ok (some ⟨bytes, hfits⟩)]) := by
  obtain ⟨hwhole, hsplit, hsequence⟩ := header_fields nibble
  rcases Nat.lt_or_ge loraFramePayloadMax bytes.length with hlong | hshort
  · obtain ⟨first, second, hfirst, hsecond, hencode⟩ := encode_long hlong hfits nibble out
    refine ⟨2, (first, second), hencode, .inr ⟨rfl, fun nowMs' hintime => ?_⟩⟩
    have hnone : ∀ pending, ¬ f.Completes pending ((nibble &&& 0x0F) <<< 4 ||| splitFlag) nowMs := by
      rintro pending ⟨hpending, hlive, hsame⟩
      exact hother pending hpending hlive (hsame.trans hsequence)
    have hhalf : (bytes.take loraFramePayloadMax).length ≤ loraSplitFramePayloadMax :=
      (List.length_take_le ..).trans (by decide)
    let held : PendingSplit := ⟨((nibble &&& 0x0F) <<< 4 ||| splitFlag) >>> 4,
      ⟨bytes.take loraFramePayloadMax, hhalf⟩, satAdd nowMs f.splitTimeoutMs⟩
    have hingest : f.ingestFrame first.bytes nowMs =
        ({ f.expire nowMs with pending := some held }, .ok none) := by
      rw [hfirst, ingestFrame_first hsplit hnone, hold, PacketBuffer.fromSlice_of_le hhalf]
      simp only [splitTimeoutMs_expire, held]
    have hjoin : (⟨bytes.take loraFramePayloadMax, hhalf⟩ : LoraPacketBuffer).extendFromSlice
        (bytes.drop loraFramePayloadMax) = .ok ⟨bytes, hfits⟩ :=
      PacketBuffer.extendFromSlice_eq_ok.mpr (List.take_append_drop ..).symm
    have hcompletes : Completes { f.expire nowMs with pending := some held } held
        ((nibble &&& 0x0F) <<< 4 ||| splitFlag) nowMs' := ⟨rfl, hintime, rfl⟩
    simp only [results, hingest]
    rw [hsecond, ingestFrame_second hsplit hcompletes, hjoin]
    rfl
  · obtain ⟨frame, hframe, hencode⟩ := encode_short hshort nibble out
    refine ⟨1, (frame, out.2), hencode, .inl ⟨rfl, ?_⟩⟩
    simp only [results]
    rw [hframe, ingestFrame_whole hwhole, PacketBuffer.fromSlice_of_le hfits]
    rfl

end LoraFramer

/-! ### Interfaces -/

namespace InterfaceConfig

/-- What goes on the wire for a packet, with an access tag where the interface has a key. -/
def Wraps [Crypto] (c : InterfaceConfig) (packet wire : List UInt8) : Prop :=
  match c.ifac with
  | none => wire = packet
  | some ifac => ∃ frame, ifacSignInto packet ifac.key ifac.size = .ok frame ∧ wire = frame.bytes

variable {c : InterfaceConfig} {depth : Nat} {packet wire : List UInt8}

theorem Valid.clearMtu_add_le (h : c.Valid depth) (hrole : c.role = .loRa) :
    c.clearMtu + ifacSize c.ifac ≤ loraSplitFramePayloadMax := by
  have htag : ifacSize c.ifac ≤ 64 := by
    cases hifac : c.ifac with
    | none => exact Nat.zero_le _
    | some ifac => exact (h.ifac ifac hifac).2
  have hclear : c.clearMtu ≤ loraSplitFramePayloadMax - ifacSize c.ifac := by
    unfold clearMtu
    rw [hrole]
    dsimp only
    split_ifs <;> omega
  exact (Nat.le_sub_iff_add_le (htag.trans (by decide))).mp hclear

variable [Crypto]

theorem length_of_wraps (h : c.Wraps packet wire) : wire.length = packet.length + ifacSize c.ifac := by
  unfold Wraps at h
  cases hifac : c.ifac with
  | none =>
      rw [hifac] at h
      rw [h]
      rfl
  | some ifac =>
      rw [hifac] at h
      obtain ⟨frame, hsigned, rfl⟩ := h
      exact length_of_ifacSignInto hsigned

theorem Valid.exists_wraps (h : c.Valid depth) (hmin : 2 ≤ packet.length)
    (hlen : packet.length ≤ c.clearMtu) : ∃ wire, c.Wraps packet wire := by
  unfold Wraps
  cases hifac : c.ifac with
  | none => exact ⟨packet, rfl⟩
  | some ifac =>
      obtain ⟨first, packet, rfl⟩ := List.exists_cons_of_length_pos (show 0 < packet.length by omega)
      obtain ⟨second, rest, rfl⟩ := List.exists_cons_of_length_pos
        (show 0 < packet.length by simp only [List.length_cons] at hmin; omega)
      have hsize := h.ifac ifac hifac
      have hmtu : (first :: second :: rest).length ≤ ReticulumLite.mtu :=
        hlen.trans ((clearMtu_le c).trans h.mtu_le)
      have hframe : (ifacFrame ifac.key ifac.size.toNat first second rest).length ≤ wireMtuMax := by
        rw [length_ifacFrame _ hsize.2]
        simp only [List.length_cons, ReticulumLite.mtu, wireMtuMax, signatureLength] at hmtu hsize ⊢
        omega
      have hsigned : ifacSignInto (first :: second :: rest) ifac.key ifac.size = .ok ⟨_, hframe⟩ :=
        (ifacSignInto_eq_ok hsize (Nat.add_comm 2 _ ▸ hmtu)).mpr rfl
      exact ⟨_, _, hsigned, rfl⟩

end InterfaceConfig

open LoraFramer

/-- LoRa framing carries every packet that a radio interface admits, and makes up none. A packet
with its tag fits the frames; frames that arrive in order and in time make the packet again, unless
a half with the same sequence number is pending; and over any frames, at whatever times, a packet
returned is made of one unsplit frame or of two halves with nothing but empty frames between, where
no frame is used for two packets. -/
theorem lora_framing [Crypto] :
    (∀ (c : InterfaceConfig) (depth : Nat) (packet : List UInt8) (nibble : UInt8)
      (out : LoraFrame × LoraFrame), c.validate depth = .ok () → c.role = .loRa →
      packet.length ≤ c.clearMtu →
      (2 ≤ packet.length → ∃ wire, c.Wraps packet wire) ∧
      ∀ wire, c.Wraps packet wire → wire.length ≤ 508 ∧
        ∃ n frames, encode wire nibble out = .ok (n, frames) ∧
          ∀ frame ∈ [frames.1, frames.2].take n, frame.bytes.length ≤ 255) ∧
    (∀ (f : LoraFramer) (bytes : List UInt8) (hfits : bytes.length ≤ 508) (nibble : UInt8)
      (out : LoraFrame × LoraFrame) (nowMs : Nat),
      (∀ pending, f.pending = some pending → nowMs < pending.expiresMs →
        pending.sequence ≠ nibble &&& 0x0F) →
      ∃ n frames, encode bytes nibble out = .ok (n, frames) ∧
        (n = 1 ∧ f.results [(frames.1.bytes, nowMs)] = [.ok (some ⟨bytes, hfits⟩)] ∨
          n = 2 ∧ ∀ nowMs', nowMs' < satAdd nowMs f.splitTimeoutMs →
            f.results [(frames.1.bytes, nowMs), (frames.2.bytes, nowMs')] =
              [.ok none, .ok (some ⟨bytes, hfits⟩)])) ∧
    ∀ (timeoutMs : Nat) (arrivals : List (List UInt8 × Nat)),
      (∀ j packet, ((new timeoutMs).results arrivals)[j]? = some (.ok (some packet)) →
        ∃ used, MadeOf timeoutMs arrivals j used packet.bytes) ∧
      ∀ j j' packet packet' used used', j ≠ j' →
        ((new timeoutMs).results arrivals)[j]? = some (.ok (some packet)) →
        ((new timeoutMs).results arrivals)[j']? = some (.ok (some packet')) →
        MadeOf timeoutMs arrivals j used packet.bytes →
        MadeOf timeoutMs arrivals j' used' packet'.bytes → used.Disjoint used' := by
  refine ⟨?_, fun f bytes hfits nibble out nowMs hother => results_encode hfits hother out,
    fun timeoutMs arrivals => ⟨?_, ?_⟩⟩
  · intro c depth packet nibble out hvalidate hrole hlen
    have hvalid := InterfaceConfig.valid_of_validate hvalidate
    refine ⟨fun hmin => hvalid.exists_wraps hmin hlen, fun wire hwraps => ?_⟩
    have hfits : wire.length ≤ loraSplitFramePayloadMax := by
      rw [InterfaceConfig.length_of_wraps hwraps]
      exact (Nat.add_le_add_right hlen _).trans (hvalid.clearMtu_add_le hrole)
    obtain ⟨n, frames, hencode⟩ := exists_encode hfits nibble out
    exact ⟨hfits, n, frames, hencode, fun frame _ => frame.length_le⟩
  · intro j packet hreturned
    rcases exists_madeOf hreturned with hwhole | ⟨i, hjoined, _⟩
    · exact ⟨_, hwhole⟩
    · exact ⟨_, hjoined⟩
  · intro j j' packet packet' used used' hne hreturned hreturned' h h'
    rcases Nat.lt_or_gt_of_ne hne with hlt | hlt
    · exact h.disjoint h' hlt hreturned hreturned'
    · exact (h'.disjoint h hlt hreturned' hreturned).symm

def taggedInterface : InterfaceConfig :=
  { id := 1, role := .loRa, mode := .full, direction := ⟨true, true, true, false⟩, mtu := 500,
    bitrateBps := 1000, ifac := some ⟨Bytes.zero, 64⟩, online := true, txQueueDepth := 1,
    announceCapPermille := 20, bulkPaths := false }

/-- A packet of 444 bytes leaves in two frames with the tag, and a packet of 300 bytes is made again
by a receiver that waits for another. -/
theorem lora_framing_taggedInterface :
    letI := Crypto.constant
    (∃ wire frames, taggedInterface.Wraps (List.replicate 444 7) wire ∧
      encode wire 3 (.new, .new) = .ok (2, frames)) ∧
    ∃ frames got, encode (List.replicate 300 7) 3 (.new, .new) = .ok (2, frames) ∧
      got.bytes = List.replicate 300 7 ∧
      (LoraFramer.mk (some ⟨4, .new, 2000⟩) 5000).results
        [(frames.1.bytes, 1000), (frames.2.bytes, 5999)] = [.ok none, .ok (some got)] := by
  let _ := Crypto.constant
  have hlong : ∀ {bytes : List UInt8} {n : Nat} {frames : LoraFrame × LoraFrame},
      loraFramePayloadMax < bytes.length → bytes.length ≤ 508 →
      encode bytes 3 (.new, .new) = .ok (n, frames) → n = 2 := by
    intro bytes n frames hlong hfits hencode
    obtain ⟨_, _, _, _, htwo⟩ := encode_long hlong hfits 3 (.new, .new)
    rw [htwo] at hencode
    cases hencode
    rfl
  have hsent : (List.replicate 444 (7 : UInt8)).length = 444 := List.length_replicate
  have hheard : (List.replicate 300 (7 : UInt8)).length = 300 := List.length_replicate
  constructor
  · obtain ⟨hwraps, hall⟩ := lora_framing.1 taggedInterface 1 (List.replicate 444 7) 3 (.new, .new)
      rfl rfl (by rw [hsent]; decide)
    obtain ⟨wire, hwire⟩ := hwraps (by rw [hsent]; decide)
    obtain ⟨hfits, n, frames, hencode, _⟩ := hall wire hwire
    have hlen := InterfaceConfig.length_of_wraps hwire
    rw [hsent] at hlen
    obtain rfl := hlong (by rw [hlen]; decide) hfits hencode
    exact ⟨wire, frames, hwire, hencode⟩
  · obtain ⟨n, frames, hencode, hone | ⟨rfl, hresults⟩⟩ := lora_framing.2.1
      (LoraFramer.mk (some ⟨4, .new, 2000⟩) 5000) (List.replicate 300 7) (by rw [hheard]; decide) 3
      (.new, .new) 1000 (by rintro pending ⟨⟩ _; decide)
    · have htwo := hlong (by rw [hheard]; decide) (by rw [hheard]; decide) hencode
      exact absurd (hone.1.symm.trans htwo) (by decide)
    · exact ⟨frames, _, hencode, rfl, hresults 5999 (by decide)⟩

end ReticulumLite
