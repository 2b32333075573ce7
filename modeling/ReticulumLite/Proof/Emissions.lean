import ReticulumLite.Identity.Announce
import ReticulumLite.Identity.AnnounceState
import ReticulumLite.Tables.Freshness

/-!
# Announces stay ordered across crashes

A device keeps the ordering state of its announces in memory and its last serialization in storage,
which is all that a crash leaves. A candidate is a plain value that a host may keep while others are
stored and committed. As long as the host stores only what is ahead of the live value, and commits
only what it stored last, committed values increase, and a relay that knows one of the announces
takes exactly the later ones.
-/

namespace ReticulumLite

open Bounded

theorem announceEmitted_composeRandomHash {value : Nat} (h : value ≤ announceTimeMax)
    (rng : Bytes 5) : announceEmitted (composeRandomHash rng value) = value := by
  have hvalue : value < 256 ^ 5 := lt_of_le_of_lt h (by decide)
  unfold announceEmitted composeRandomHash
  rw [Bytes.toList_mk, Bytes.slice_append_right (by simp)]
  simp only [Bytes.length_toList, Nat.sub_self, Bytes.slice_toList]
  rw [Bytes.beNat_ofNat, Nat.mod_eq_of_lt hvalue]

namespace AnnounceWireState

theorem prepareNext_spec {s candidate : AnnounceWireState} {wallSecs : Option Nat}
    (h : s.prepareNext wallSecs = .ok (some candidate)) :
    ∃ value, candidate = ⟨some value⟩ ∧ value ≤ announceTimeMax ∧
      ∀ last ∈ s.lastValue, last < value := by
  cases wallSecs with
  | some now =>
      simp only [prepareNext] at h
      split_ifs at h with hmax hlast
      · cases Except.ok.inj h
      obtain rfl := Option.some.inj (Except.ok.inj h)
      refine ⟨now, rfl, not_lt.mp hmax, fun last hmem => ?_⟩
      rw [show s.lastValue = some last from hmem] at hlast
      simpa using hlast
  | none =>
      obtain ⟨last⟩ := s
      cases last with
      | none =>
          cases h
          exact ⟨0, rfl, Nat.zero_le _, fun _ hmem => by cases hmem⟩
      | some last =>
          simp only [prepareNext] at h
          split at h
          · cases h
          · next next hnext =>
            cases h
            obtain ⟨hsucc, hmax⟩ := Option.filter_eq_some_iff.mp hnext
            refine ⟨next, rfl, of_decide_eq_true hmax, fun value hmem => ?_⟩
            obtain rfl := Option.some.inj hmem
            exact lt_of_checkedSucc hsucc

theorem commitPrepared_cases (s prepared : AnnounceWireState) :
    (∃ value, prepared = ⟨some value⟩ ∧ (∀ last ∈ s.lastValue, last < value) ∧
      s.commitPrepared prepared = (prepared, .ok value)) ∨
    s.commitPrepared prepared = (s, .error .staleCandidate) := by
  obtain ⟨next⟩ := prepared
  cases next with
  | none => exact .inr rfl
  | some next =>
      by_cases hlast : s.lastValue.any fun last => decide (next ≤ last)
      · exact .inr (if_pos hlast)
      · refine .inl ⟨next, rfl, fun last hmem => ?_, if_neg hlast⟩
        rw [show s.lastValue = some last from hmem] at hlast
        simpa using hlast

end AnnounceWireState

/-- A device and its storage. The last two fields are history: the state whose serialization is in
storage, and the values that commits returned, in their order. -/
structure AnnounceDevice where
  live : AnnounceWireState
  candidates : List AnnounceWireState
  persisted : List AnnounceWireState
  storage : Option (List UInt8)
  kept : AnnounceWireState
  committed : List Nat

namespace AnnounceDevice

inductive Step
  | prepare (wallSecs : Option Nat)
  | store (candidate : AnnounceWireState)
  | commit (candidate : AnnounceWireState)
  | crash

def new : AnnounceDevice := ⟨.new, [], [], none, .new, []⟩

def prepare (d : AnnounceDevice) (wallSecs : Option Nat) : AnnounceDevice :=
  match d.live.prepareNext wallSecs with
  | .ok (some candidate) => { d with candidates := candidate :: d.candidates }
  | _ => d

def store (d : AnnounceDevice) (candidate : AnnounceWireState) : AnnounceDevice :=
  { d with
    persisted := candidate :: d.persisted
    storage := some candidate.blob
    kept := candidate }

def commit (d : AnnounceDevice) (candidate : AnnounceWireState) : AnnounceDevice :=
  match d.live.commitPrepared candidate with
  | (live, .ok value) => { d with live, committed := d.committed ++ [value] }
  | (live, .error _) => { d with live }

/-- Memory is lost; the device resumes from storage, or afresh when there is nothing in it. A blob that
cannot be read leaves no state to resume from. -/
def crash (d : AnnounceDevice) : AnnounceDevice :=
  match d.storage with
  | none => { d with live := .new, candidates := [], persisted := [] }
  | some blob =>
      match AnnounceWireState.deserialize blob with
      | .ok live => { d with live, candidates := [], persisted := [] }
      | .error _ => { d with live := .new, candidates := [], persisted := [] }

def perform (d : AnnounceDevice) : Step → AnnounceDevice
  | .prepare wallSecs => d.prepare wallSecs
  | .store candidate => d.store candidate
  | .commit candidate => d.commit candidate
  | .crash => d.crash

/-- Only candidates are stored, and only stored candidates are committed. -/
def Allowed (d : AnnounceDevice) : Step → Prop
  | .store candidate => candidate ∈ d.candidates
  | .commit candidate => candidate ∈ d.candidates ∧ candidate ∈ d.persisted
  | _ => True

instance (d : AnnounceDevice) : DecidablePred d.Allowed
  | .prepare _ => inferInstanceAs (Decidable True)
  | .store candidate => inferInstanceAs (Decidable (candidate ∈ d.candidates))
  | .commit candidate =>
      inferInstanceAs (Decidable (candidate ∈ d.candidates ∧ candidate ∈ d.persisted))
  | .crash => inferInstanceAs (Decidable True)

/-- The candidate to be stored is ahead of the live value, and the one to be committed is the one in
storage. -/
def Orderly (d : AnnounceDevice) : Step → Prop
  | .store candidate => ∀ last ∈ d.live.lastValue, ∃ value ∈ candidate.lastValue, last < value
  | .commit candidate => d.storage = some candidate.blob
  | _ => True

instance (d : AnnounceDevice) : DecidablePred d.Orderly
  | .prepare _ => inferInstanceAs (Decidable True)
  | .store candidate =>
      inferInstanceAs
        (Decidable (∀ last ∈ d.live.lastValue, ∃ value ∈ candidate.lastValue, last < value))
  | .commit candidate => inferInstanceAs (Decidable (d.storage = some candidate.blob))
  | .crash => inferInstanceAs (Decidable True)

variable {d : AnnounceDevice} {ops : List Step}

/-- What every run keeps: each state the device handles fits the wire field, and storage holds the
serialization of the state that was kept. -/
structure Readable (d : AnnounceDevice) : Prop where
  candidates : ∀ candidate ∈ d.candidates, ∃ value, candidate = ⟨some value⟩ ∧ value ≤ announceTimeMax
  kept : d.kept.Fits
  storage : d.storage = none ∧ d.kept = .new ∨ d.storage = some d.kept.blob

theorem crash_eq (h : Readable d) :
    d.crash = { d with live := d.kept, candidates := [], persisted := [] } := by
  rcases h.storage with ⟨hnone, hkept⟩ | hsome
  · unfold crash
    simp only [hnone, hkept]
  · unfold crash
    simp only [hsome, AnnounceWireState.deserialize_blob h.kept]

theorem readable_perform {op : Step} (hop : d.Allowed op) (h : Readable d) :
    Readable (d.perform op) := by
  cases op with
  | prepare wallSecs =>
      simp only [perform, prepare]
      split
      · next candidate hprepare =>
        refine ⟨fun c hc => ?_, h.kept, h.storage⟩
        rcases List.mem_cons.mp hc with rfl | hc
        · obtain ⟨value, heq, hmax, _⟩ := AnnounceWireState.prepareNext_spec hprepare
          exact ⟨value, heq, hmax⟩
        · exact h.candidates c hc
      · exact h
  | store candidate =>
      obtain ⟨value, rfl, hmax⟩ := h.candidates candidate hop
      refine ⟨h.candidates, fun v hv => ?_, .inr rfl⟩
      exact Option.some.inj hv ▸ hmax
  | commit candidate =>
      rcases AnnounceWireState.commitPrepared_cases d.live candidate with ⟨_, _, _, hcommit⟩ | hcommit
      · simp only [perform, commit, hcommit]
        exact ⟨h.candidates, h.kept, h.storage⟩
      · simp only [perform, commit, hcommit]
        exact h
  | crash =>
      simp only [perform, crash_eq h]
      exact ⟨fun _ hc => absurd hc List.not_mem_nil, h.kept, h.storage⟩

/-- What orderly runs keep besides: what was committed is not ahead of the live value, nor the live value
ahead of the stored one. -/
structure InStep (d : AnnounceDevice) : Prop where
  live : d.live.Before d.kept
  committed : ∀ value ∈ d.committed, ∃ last ∈ d.live.lastValue, value ≤ last
  increasing : d.committed.Pairwise (· < ·)

theorem inStep_commit {candidate : AnnounceWireState} (hop : d.Allowed (.commit candidate))
    (hstored : d.storage = some candidate.blob) (hreadable : Readable d) (h : InStep d) :
    InStep (d.commit candidate) := by
  rcases AnnounceWireState.commitPrepared_cases d.live candidate with
    ⟨value, heq, hahead, hcommit⟩ | hcommit
  · have hkept : d.kept = candidate := by
      have hfits : candidate.Fits := by
        obtain ⟨_, rfl, hmax⟩ := hreadable.candidates candidate hop.1
        exact fun v hv => Option.some.inj hv ▸ hmax
      have hblob : d.kept.blob = candidate.blob := by
        rcases hreadable.storage with ⟨hnone, _⟩ | hsome
        · rw [hnone] at hstored
          cases hstored
        · exact Option.some.inj (hsome.symm.trans hstored)
      have hread := AnnounceWireState.deserialize_blob hreadable.kept
      rw [hblob, AnnounceWireState.deserialize_blob hfits] at hread
      exact (Except.ok.inj hread).symm
    simp only [commit, hcommit]
    have hvalue : value ∈ candidate.lastValue := by rw [heq]; rfl
    have hbelow : ∀ earlier ∈ d.committed, earlier < value := by
      intro earlier hearlier
      obtain ⟨last, hlast, hle⟩ := h.committed earlier hearlier
      exact lt_of_le_of_lt hle (hahead last hlast)
    refine ⟨fun v hv => ⟨v, by rwa [hkept], le_rfl⟩, fun v hv => ⟨value, hvalue, ?_⟩, ?_⟩
    · rcases List.mem_append.mp hv with hv | hv
      · exact (hbelow v hv).le
      · exact (List.mem_singleton.mp hv).le
    · refine List.pairwise_append.mpr ⟨h.increasing, List.pairwise_singleton _ _, ?_⟩
      intro earlier hearlier later hlater
      rw [List.mem_singleton.mp hlater]
      exact hbelow earlier hearlier
  · simp only [commit, hcommit]
    exact h

theorem inStep_perform {op : Step} (hop : d.Allowed op ∧ d.Orderly op) (hreadable : Readable d)
    (h : InStep d) : InStep (d.perform op) := by
  cases op with
  | prepare wallSecs =>
      simp only [perform, prepare]
      split
      · exact ⟨h.live, h.committed, h.increasing⟩
      · exact h
  | store candidate =>
      refine ⟨fun last hlast => ?_, h.committed, h.increasing⟩
      obtain ⟨value, hvalue, hlt⟩ := hop.2 last hlast
      exact ⟨value, hvalue, hlt.le⟩
  | commit candidate => exact inStep_commit hop.1 hop.2 hreadable h
  | crash =>
      simp only [perform, crash_eq hreadable]
      refine ⟨fun value hvalue => ⟨value, hvalue, le_rfl⟩, fun value hvalue => ?_, h.increasing⟩
      obtain ⟨last, hlast, hle⟩ := h.committed value hvalue
      obtain ⟨later, hlater, hle'⟩ := h.live last hlast
      exact ⟨later, hlater, hle.trans hle'⟩

abbrev OrderlyRun (ops : List Step) (d : AnnounceDevice) : Prop :=
  Runs perform (fun d op => d.Allowed op ∧ d.Orderly op) new ops d

theorem inStep_of_run (hrun : OrderlyRun ops d) : Readable d ∧ InStep d := by
  refine Runs.invariant (I := fun d => Readable d ∧ InStep d) ?_ hrun ⟨⟨?_, ?_, .inl ⟨rfl, rfl⟩⟩, ?_⟩
  · exact fun d op hop h => ⟨readable_perform hop.1 h.1, inStep_perform hop h.1 h.2⟩
  · exact fun _ hc => absurd hc List.not_mem_nil
  · exact fun _ hv => absurd hv (Option.not_mem_none _)
  · exact ⟨fun _ hv => absurd hv (Option.not_mem_none _), fun _ hv => absurd hv List.not_mem_nil,
      List.Pairwise.nil⟩

theorem committed_le (hreadable : Readable d) (h : InStep d) {value : Nat} (hvalue : value ∈ d.committed) :
    value ≤ announceTimeMax := by
  obtain ⟨last, hlast, hle⟩ := h.committed value hvalue
  obtain ⟨later, hlater, hle'⟩ := h.live last hlast
  exact hle.trans (hle'.trans (hreadable.kept later hlater))

/-- What a relay does with the announces of a device whose values were committed in this order, when it
has a live row of one of them. -/
def Ranks (committed : List Nat) : Prop :=
  ∀ (n : Nat) (ops : List PathTable.Operation) (t : PathTable n), PathTable.Reaches GenTable.new ops t →
    ∀ (before after : List Nat) (value : Nat), committed = before ++ value :: after →
    ∀ (rng : Bytes 5) (i : Fin n) (old : PathEntry) (nowMs : Nat), t.entries.get i = some old →
      old.randomHash = composeRandomHash rng value → nowMs < old.expiresMs →
    ∀ (rng' : Bytes 5) (other : Nat) (entry : PathEntry),
      entry.destinationHash = old.destinationHash → entry.randomHash = composeRandomHash rng' other →
      (other ∈ after → t.lastGeneration < u64Max → (t.insertOrUpdate entry nowMs).2 = true) ∧
      (other = value ∨ other ∈ before → (t.insertOrUpdate entry nowMs).2 = false)

theorem ranks_of_increasing {committed : List Nat} (hincreasing : committed.Pairwise (· < ·))
    (hmax : ∀ value ∈ committed, value ≤ announceTimeMax) : Ranks committed := by
  intro n ops t hrun before after value hcommitted rng i old nowMs hi hold hlive rng' other entry hdest
    hentry
  subst hcommitted
  have hvalue : announceEmitted old.randomHash = value := by
    rw [hold, announceEmitted_composeRandomHash (hmax value (by simp))]
  have hother : other ∈ before ++ value :: after → announceEmitted entry.randomHash = other := by
    intro hmem
    rw [hentry, announceEmitted_composeRandomHash (hmax other hmem)]
  have htaken := PathTable.insertOrUpdate_of_live (PathTable.keyed_of_reaches hrun) hi hdest.symm hlive
  obtain ⟨_, hright, hcross⟩ := List.pairwise_append.mp hincreasing
  refine ⟨fun hafter hlast => htaken.mpr ⟨?_, .inr hlast⟩, fun hbefore => ?_⟩
  · rw [hvalue, hother (by simp [hafter])]
    exact List.rel_of_pairwise_cons hright hafter
  · rw [← Bool.not_eq_true, htaken, hvalue, hother (by rcases hbefore with rfl | h <;> simp [*])]
    rintro ⟨hlt, -⟩
    rcases hbefore with rfl | hbefore
    · exact lt_irrefl _ hlt
    · exact lt_asymm hlt (hcross other hbefore value (by simp))

/-- In every orderly run, a crash resumes exactly what was stored, the committed values increase
strictly within the wire range, and relays rank the announces in the order of their commits. -/
theorem announces_ordered (hrun : OrderlyRun ops d) :
    (∀ blob ∈ d.storage, AnnounceWireState.deserialize blob = .ok d.kept) ∧
      d.crash.live = d.kept ∧
      d.committed.Pairwise (· < ·) ∧
      (∀ value ∈ d.committed, value ≤ announceTimeMax ∧
        ∀ rng, announceEmitted (composeRandomHash rng value) = value) ∧
      Ranks d.committed := by
  obtain ⟨hreadable, hstep⟩ := inStep_of_run hrun
  have hmax : ∀ value ∈ d.committed, value ≤ announceTimeMax :=
    fun value hvalue => committed_le hreadable hstep hvalue
  refine ⟨fun blob hblob => ?_, by rw [crash_eq hreadable], hstep.increasing, fun value hvalue =>
    ⟨hmax value hvalue, announceEmitted_composeRandomHash (hmax value hvalue)⟩,
    ranks_of_increasing hstep.increasing hmax⟩
  rcases hreadable.storage with ⟨hnone, _⟩ | hsome
  · rw [hnone] at hblob
    cases hblob
  · obtain rfl := Option.some.inj (hsome.symm.trans hblob)
    exact AnnounceWireState.deserialize_blob hreadable.kept

/-- A wall time, a crash after the commit, and a value counted up from it. -/
def sampleRun : List Step :=
  [.prepare (some 100), .store ⟨some 100⟩, .commit ⟨some 100⟩, .crash, .prepare none, .store ⟨some 101⟩,
    .commit ⟨some 101⟩]

theorem announces_ordered_sampleRun :
    (sampleRun.foldl perform new).committed = [100, 101] ∧
      Ranks (sampleRun.foldl perform new).committed := by
  have hrun : OrderlyRun sampleRun (sampleRun.foldl perform new) := by
    refine .cons ?_ (.cons ?_ (.cons ?_ (.cons ?_ (.cons ?_ (.cons ?_ (.cons ?_ (.nil _)))))))
    all_goals decide +kernel
  exact ⟨by decide +kernel, (announces_ordered hrun).2.2.2.2⟩

/-- Two candidates of one state: the later one is stored and committed, then the earlier one is stored
over it, and after a crash the values start again below what was committed. -/
def overwrittenRun : List Step :=
  [.prepare (some 100), .prepare none, .store ⟨some 100⟩, .commit ⟨some 100⟩, .store ⟨some 0⟩, .crash,
    .prepare none, .store ⟨some 1⟩, .commit ⟨some 1⟩]

/-- Storing every candidate before its commit is not enough. -/
theorem stale_store_reorders :
    Runs perform Allowed new overwrittenRun (overwrittenRun.foldl perform new) ∧
      (overwrittenRun.foldl perform new).committed = [100, 1] := by
  refine ⟨.cons ?_ (.cons ?_ (.cons ?_ (.cons ?_ (.cons ?_ (.cons ?_ (.cons ?_ (.cons ?_ (.cons ?_
    (.nil _))))))))), by decide +kernel⟩
  all_goals decide +kernel

end AnnounceDevice

end ReticulumLite
