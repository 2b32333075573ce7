import ReticulumLite.Node.State

/-!
# Lifetimes as tokens

A node hands a lifetime to its host as 88 bytes and takes it back later. The token says twice
whether there is a path and which entry the frame depends on, and most of it is zeros. Decoding
checks all of it, so that one lifetime has one token.
-/

namespace ReticulumLite

open Bounded

def OutboundState.kind : OutboundState → UInt8
  | .independent => 0
  | .reverse _ => 1
  | .link _ => 2
  | .discovery _ => 3

def OutboundState.generation : OutboundState → Nat
  | .independent => 0
  | .reverse generation => generation
  | .link generation => generation
  | .discovery identity => identity

/-- An entry has a number, and what depends on none has none. -/
def OutboundState.ofToken (kind : UInt8) (generation : Nat) : Option OutboundState :=
  if kind = 0 ∧ generation = 0 then some .independent
  else if kind = 1 ∧ generation ≠ 0 then some (.reverse generation)
  else if kind = 2 ∧ generation ≠ 0 then some (.link generation)
  else if kind = 3 ∧ generation ≠ 0 then some (.discovery generation)
  else none

theorem OutboundState.ofToken_eq_some {kind : UInt8} {generation : Nat} {state : OutboundState} :
    OutboundState.ofToken kind generation = some state ↔
      state.kind = kind ∧ state.generation = generation ∧
        (state ≠ .independent → generation ≠ 0) := by
  unfold OutboundState.ofToken
  constructor
  · intro h
    split_ifs at h with h0 h1 h2 h3 <;> cases h
    · exact ⟨h0.1.symm, h0.2.symm, fun hne => absurd rfl hne⟩
    · exact ⟨h1.1.symm, rfl, fun _ => h1.2⟩
    · exact ⟨h2.1.symm, rfl, fun _ => h2.2⟩
    · exact ⟨h3.1.symm, rfl, fun _ => h3.2⟩
  · rintro ⟨rfl, rfl, hnumbered⟩
    cases state with
    | independent => rfl
    | reverse generation => simpa [kind, OutboundState.generation] using hnumbered
    | link generation => simpa [kind, OutboundState.generation] using hnumbered
    | discovery identity => simpa [kind, OutboundState.generation] using hnumbered

namespace OutboundLifetime

/-- The text `RTX` and the version. -/
def tokenMagic : List UInt8 := [0x52, 0x54, 0x58, 0x02]

def tokenBytes (hasPath kind : UInt8) (enqueued expires path generation : Bytes 8) : List UInt8 :=
  (tokenMagic ++ [hasPath, kind, 0, 0]) ++ (enqueued.toList ++ (expires.toList ++
    (path.toList ++ (generation.toList ++ List.replicate 48 0))))

theorem length_tokenBytes (hasPath kind : UInt8) (enqueued expires path generation : Bytes 8) :
    (tokenBytes hasPath kind enqueued expires path generation).length = 88 := by
  simp [tokenBytes, tokenMagic]

def toToken (x : OutboundLifetime) : Bytes 88 :=
  ⟨tokenBytes (if x.path ≠ 0 then 1 else 0) x.state.kind (.ofNatLe 8 x.enqueuedMs)
    (.ofNatLe 8 x.expiresMs) (.ofNatLe 8 x.path) (.ofNatLe 8 x.state.generation),
    length_tokenBytes _ _ _ _ _ _⟩

def fromToken (token : Bytes 88) : Option OutboundLifetime :=
  let bytes := token.toList
  if bytes.take 4 ≠ tokenMagic ∨ byteAt bytes 4 > 1 ∨ (bytes.drop 6).take 2 ≠ [0, 0] ∨
      (bytes.drop 40).any (· ≠ 0) then none
  else
    let enqueuedMs := leNat (Bytes.slice 8 bytes 8).toList
    let expiresMs := leNat (Bytes.slice 8 bytes 16).toList
    if expiresMs < enqueuedMs ∨ expiresMs > satAdd enqueuedMs outboundMaxAgeMs then none
    else
      let path := leNat (Bytes.slice 8 bytes 24).toList
      if decide (byteAt bytes 4 = 1) ≠ decide (path ≠ 0) then none
      else
        let generation := leNat (Bytes.slice 8 bytes 32).toList
        (OutboundState.ofToken (byteAt bytes 5) generation).map fun state =>
          { enqueuedMs, expiresMs, path, state }

/-! ### One token for each lifetime -/

structure Words (x : OutboundLifetime) : Prop where
  enqueuedMs : x.enqueuedMs ≤ u64Max
  expiresMs : x.expiresMs ≤ u64Max
  path : x.path ≤ u64Max
  generation : x.state.generation ≤ u64Max

/-- A frame waits no longer than it may, and what it depends on has a number. -/
structure Valid (x : OutboundLifetime) : Prop where
  ordered : x.enqueuedMs ≤ x.expiresMs
  bounded : x.expiresMs ≤ satAdd x.enqueuedMs outboundMaxAgeMs
  numbered : x.state ≠ .independent → x.state.generation ≠ 0

section

variable (hasPath kind : UInt8) (enqueued expires path generation : Bytes 8)

theorem slices_tokenBytes :
    let bytes := tokenBytes hasPath kind enqueued expires path generation
    Bytes.slice 8 bytes 8 = enqueued ∧ Bytes.slice 8 bytes 16 = expires ∧
      Bytes.slice 8 bytes 24 = path ∧ Bytes.slice 8 bytes 32 = generation := by
  have hfront : (tokenMagic ++ [hasPath, kind, 0, 0]).length = 8 := rfl
  dsimp only [tokenBytes]
  generalize tokenMagic ++ [hasPath, kind, 0, 0] = front at hfront
  refine ⟨Bytes.slice_between hfront _ _, ?_, ?_, ?_⟩
  · rw [← List.append_assoc]
    exact Bytes.slice_between (by simp [hfront]) _ _
  · rw [← List.append_assoc, ← List.append_assoc]
    exact Bytes.slice_between (by simp [hfront]) _ _
  · rw [← List.append_assoc, ← List.append_assoc, ← List.append_assoc]
    exact Bytes.slice_between (by simp [hfront]) _ _

theorem drop_tokenBytes :
    (tokenBytes hasPath kind enqueued expires path generation).drop 40 = List.replicate 48 0 := by
  rw [tokenBytes, ← List.append_assoc, ← List.append_assoc, ← List.append_assoc,
    ← List.append_assoc]
  exact List.drop_left' (by simp [tokenMagic])

end

theorem eq_tokenBytes {bytes : List UInt8} (hlen : bytes.length = 88)
    (hmagic : bytes.take 4 = tokenMagic) (hreserved : (bytes.drop 6).take 2 = [0, 0])
    (hzeros : (bytes.drop 40).any (· ≠ 0) = false) :
    bytes = tokenBytes (byteAt bytes 4) (byteAt bytes 5) (Bytes.slice 8 bytes 8)
      (Bytes.slice 8 bytes 16) (Bytes.slice 8 bytes 24) (Bytes.slice 8 bytes 32) := by
  have hrest : bytes.drop 40 = List.replicate 48 0 := by
    rw [List.eq_replicate_iff]
    refine ⟨by rw [List.length_drop, hlen], fun b hb => ?_⟩
    simpa using List.any_eq_false.mp hzeros b hb
  have hword (start : Nat) (h : start + 8 ≤ 88) :
      bytes.drop start = (Bytes.slice 8 bytes start).toList ++ bytes.drop (start + 8) :=
    Bytes.drop_eq_slice_append (hlen ▸ h)
  have hskip : (bytes.drop 6).drop 2 = bytes.drop 8 := List.drop_drop
  calc bytes = bytes.take 4 ++ (byteAt bytes 4 :: byteAt bytes 5 :: bytes.drop 6) := by
        rw [← drop_eq_byteAt_cons (by omega), ← drop_eq_byteAt_cons (by omega),
          List.take_append_drop]
    _ = tokenMagic ++ (byteAt bytes 4 :: byteAt bytes 5 :: ([0, 0] ++ bytes.drop 8)) := by
        rw [hmagic, ← hreserved, ← hskip, List.take_append_drop]
    _ = _ := by
        rw [hword 8 (by decide), hword 16 (by decide), hword 24 (by decide), hword 32 (by decide),
          hrest]
        rfl

theorem leNat_word {value : Nat} (h : value ≤ u64Max) :
    leNat (Bytes.ofNatLe 8 value).toList = value := by
  rw [Bytes.leNat_ofNatLe]
  exact Nat.mod_eq_of_lt (Nat.lt_of_le_of_lt h (by decide))

theorem leNat_le (b : Bytes 8) : leNat b.toList ≤ u64Max :=
  Nat.le_of_lt_succ (Bytes.leNat_lt b)

variable {x : OutboundLifetime}

theorem words_toToken (hwords : x.Words) :
    leNat (Bytes.slice 8 x.toToken.toList 8).toList = x.enqueuedMs ∧
      leNat (Bytes.slice 8 x.toToken.toList 16).toList = x.expiresMs ∧
      leNat (Bytes.slice 8 x.toToken.toList 24).toList = x.path ∧
      leNat (Bytes.slice 8 x.toToken.toList 32).toList = x.state.generation := by
  obtain ⟨henqueued, hexpires, hpath, hgeneration⟩ := slices_tokenBytes
    (if x.path ≠ 0 then 1 else 0) x.state.kind (.ofNatLe 8 x.enqueuedMs) (.ofNatLe 8 x.expiresMs)
    (.ofNatLe 8 x.path) (.ofNatLe 8 x.state.generation)
  rw [toToken, Bytes.toList_mk, henqueued, hexpires, hpath, hgeneration]
  exact ⟨leNat_word hwords.enqueuedMs, leNat_word hwords.expiresMs, leNat_word hwords.path,
    leNat_word hwords.generation⟩

theorem fixed_toToken (x : OutboundLifetime) :
    ¬ (x.toToken.toList.take 4 ≠ tokenMagic ∨ byteAt x.toToken.toList 4 > 1 ∨
      (x.toToken.toList.drop 6).take 2 ≠ [0, 0] ∨
      (x.toToken.toList.drop 40).any (· ≠ 0) = true) := by
  have hflag : byteAt x.toToken.toList 4 = if x.path ≠ 0 then 1 else 0 := rfl
  rintro (hmagic | hlarge | hreserved | hnonzero)
  · exact hmagic rfl
  · rw [hflag] at hlarge
    split at hlarge <;> exact absurd hlarge (by decide)
  · exact hreserved rfl
  · rw [toToken, Bytes.toList_mk, drop_tokenBytes] at hnonzero
    exact absurd hnonzero (by decide)

theorem fromToken_toToken (hwords : x.Words) (hvalid : x.Valid) : fromToken x.toToken = some x := by
  obtain ⟨henqueued, hexpires, hpath, hgeneration⟩ := words_toToken hwords
  have hage : ¬ (x.expiresMs < x.enqueuedMs ∨
      x.expiresMs > satAdd x.enqueuedMs outboundMaxAgeMs) := by
    have hordered := hvalid.ordered
    have hbounded := hvalid.bounded
    omega
  have hkind : byteAt x.toToken.toList 5 = x.state.kind := rfl
  have hstate : OutboundState.ofToken x.state.kind x.state.generation = some x.state :=
    OutboundState.ofToken_eq_some.mpr ⟨rfl, rfl, hvalid.numbered⟩
  have hflag : decide (byteAt x.toToken.toList 4 = 1) = decide (x.path ≠ 0) := by
    change decide ((if x.path ≠ 0 then 1 else 0 : UInt8) = 1) = _
    by_cases h : x.path = 0 <;> simp [h]
  unfold fromToken
  dsimp only
  rw [if_neg (fixed_toToken x), henqueued, hexpires, if_neg hage, hpath,
    if_neg (not_not.mpr hflag), hgeneration, hkind, hstate]
  rfl

theorem toToken_of_fromToken {token : Bytes 88} (h : fromToken token = some x) :
    x.toToken = token ∧ x.Valid ∧ x.Words := by
  unfold fromToken at h
  dsimp only at h
  split_ifs at h with hfixed hage hpath
  obtain ⟨state, hstate, rfl⟩ := Option.map_eq_some_iff.mp h
  obtain ⟨hkind, hgeneration, hnumbered⟩ := OutboundState.ofToken_eq_some.mp hstate
  simp only [not_or, not_not, Bool.not_eq_true] at hfixed
  obtain ⟨hmagic, hsmall, hreserved, hzeros⟩ := hfixed
  obtain ⟨hordered, hbounded⟩ := not_or.mp hage
  have hbit : byteAt token.toList 4 = 0 ∨ byteAt token.toList 4 = 1 := by
    have hle : (byteAt token.toList 4).toNat ≤ 1 :=
      UInt8.le_iff_toNat_le.mp (UInt8.not_lt.mp hsmall)
    rcases Nat.le_one_iff_eq_zero_or_eq_one.mp hle with hzero | hone
    · exact .inl (UInt8.toNat_inj.mp hzero)
    · exact .inr (UInt8.toNat_inj.mp hone)
  have hflag : (if leNat (Bytes.slice 8 token.toList 24).toList ≠ 0 then 1 else 0 : UInt8) =
      byteAt token.toList 4 := by
    have hsame := decide_eq_decide.mp (not_not.mp hpath)
    rcases hbit with hzero | hone
    · rw [hzero, if_neg (fun hne => absurd (hzero.symm.trans (hsame.mpr hne)) (by decide))]
    · rw [hone, if_pos (hsame.mp hone)]
  refine ⟨Bytes.ext_toList ?_, ⟨not_lt.mp hordered, not_lt.mp hbounded, ?_⟩,
    ⟨leNat_le _, leNat_le _, leNat_le _, ?_⟩⟩
  · refine Eq.trans ?_
      (eq_tokenBytes (Bytes.length_toList token) hmagic hreserved hzeros).symm
    simp only [toToken, Bytes.toList_mk, hkind, hgeneration, hflag, Bytes.ofNatLe_leNat]
  · show state ≠ .independent → state.generation ≠ 0
    rw [hgeneration]
    exact hnumbered
  · show state.generation ≤ u64Max
    rw [hgeneration]
    exact leNat_le _

/-- Tokens and lifetimes belong to each other one to one: a lifetime that a frame can have is
decoded from its token, and what decodes is the token of such a lifetime. -/
theorem token_canonical :
    (∀ x : OutboundLifetime, x.Words → x.Valid → fromToken x.toToken = some x) ∧
      (∀ token x, fromToken token = some x → x.toToken = token ∧ x.Valid ∧ x.Words) ∧
      (∀ token, (fromToken token).isSome = true ↔
        ∃ x : OutboundLifetime, x.Words ∧ x.Valid ∧ x.toToken = token) ∧
      ∀ token token' x, fromToken token = some x → fromToken token' = some x →
        token = token' := by
  refine ⟨fun x => fromToken_toToken, fun token x => toToken_of_fromToken, fun token => ?_,
    fun token token' x h h' => ?_⟩
  · constructor
    · intro hsome
      obtain ⟨x, hx⟩ := Option.isSome_iff_exists.mp hsome
      obtain ⟨htoken, hvalid, hwords⟩ := toToken_of_fromToken hx
      exact ⟨x, hwords, hvalid, htoken⟩
    · rintro ⟨x, hwords, hvalid, rfl⟩
      rw [fromToken_toToken hwords hvalid]
      rfl
  · exact (toToken_of_fromToken h).1.symm.trans (toToken_of_fromToken h').1

end OutboundLifetime

end ReticulumLite
