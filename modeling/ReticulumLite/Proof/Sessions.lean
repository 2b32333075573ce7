import ReticulumLite.Base.Runs
import ReticulumLite.Link.Session

/-!
# Responder sessions over time

A session is watched together with the clock and the times at which packets were accepted and the
link was activated. `Receives` says what a packet can do to a session; every law of the state
machine is read off it.
-/

namespace ReticulumLite

open Bounded

section

variable [Crypto]

namespace ResponderSession

variable {s : ResponderSession} {context : PacketContext} {payload : List UInt8}
  {nowMs plaintextLen : Nat}

/-! ### What a packet does -/

/-- The session after a packet, and what the packet meant. -/
inductive Receives (s : ResponderSession) (context : PacketContext) (payload : List UInt8)
    (nowMs plaintextLen : Nat) : ResponderSession → Except SessionError Received → Prop
  | refused (e : SessionError) : Receives s context payload nowMs plaintextLen s (.error e)
  | ignored (hcontext : context ≠ .linkIdentify) :
      Receives s context payload nowMs plaintextLen s (.ok .ignored)
  | activated {plaintext : List UInt8} (hstate : s.state = .handshake)
      (hdecrypt : linkDecrypt s.keys payload plaintextLen = .ok plaintext) :
      Receives s context payload nowMs plaintextLen (s.activate plaintext nowMs) (.ok .activated)
  | kept (hopen : s.state ≠ .closed) (respond : Bool) :
      Receives s context payload nowMs plaintextLen (s.recordInbound nowMs) (.ok (.keepalive respond))
  | data {plaintext : List UInt8} (hopen : s.state = .active ∨ s.state = .stale) :
      Receives s context payload nowMs plaintextLen (s.recordInbound nowMs) (.ok (.data plaintext))
  | repeated (hopen : s.state ≠ .closed) (hcontext : context = .linkIdentify) :
      Receives s context payload nowMs plaintextLen (s.recordInbound nowMs) (.ok .ignored)
  | identified {plaintext : List UInt8} {publicKey : Bytes 64} (hopen : s.state ≠ .closed)
      (hnone : s.remoteIdentityHash = none)
      (hverify : verifyIdentification s.linkId plaintext = some publicKey) :
      Receives s context payload nowMs plaintextLen
        { s.recordInbound nowMs with remoteIdentityHash := some (identityHash publicKey) }
        (.ok (.identified publicKey))
  | closed : Receives s context payload nowMs plaintextLen { s with state := .closed } (.ok .closed)

omit [Crypto] in
theorem active_or_stale (hclosed : s.state ≠ .closed) (hstate : s.state ≠ .handshake) :
    s.state = .active ∨ s.state = .stale := by
  cases h : s.state with
  | handshake => exact absurd h hstate
  | active => exact .inl rfl
  | stale => exact .inr rfl
  | closed => exact absurd h hclosed

theorem receive_spec (s : ResponderSession) (context : PacketContext) (payload : List UInt8)
    (nowMs plaintextLen : Nat) :
    Receives s context payload nowMs plaintextLen (s.receive context payload nowMs plaintextLen).1
      (s.receive context payload nowMs plaintextLen).2 := by
  by_cases hclosed : s.state = .closed
  · simp only [receive, hclosed, if_true]
    exact .refused _
  unfold receive
  rw [if_neg hclosed]
  cases context with
  | keepalive =>
      dsimp only
      split_ifs
      · exact .ignored (by simp)
      · exact .kept hclosed _
  | lrrtt =>
      dsimp only
      split_ifs with hstate
      · exact .refused _
      · cases hdecrypt : linkDecrypt s.keys payload plaintextLen with
        | error e => exact .refused _
        | ok plaintext => exact .activated (not_not.mp hstate) hdecrypt
  | linkIdentify =>
      dsimp only
      cases hdecrypt : linkDecrypt s.keys payload plaintextLen with
      | error e => exact .refused _
      | ok plaintext =>
          dsimp only
          cases hverify : verifyIdentification s.linkId plaintext with
          | none => exact .refused _
          | some publicKey =>
              dsimp only
              split_ifs with hsome
              · exact .repeated hclosed rfl
              · exact .identified hclosed (by simpa using hsome) hverify
  | linkClose =>
      dsimp only
      cases hdecrypt : linkDecrypt s.keys payload plaintextLen with
      | error e => exact .refused _
      | ok plaintext =>
          dsimp only
          split_ifs
          · exact .ignored (by simp)
          · exact .closed
  | none =>
      dsimp only
      split_ifs with hstate
      · exact .refused _
      · cases hdecrypt : linkDecrypt s.keys payload plaintextLen with
        | error e => exact .refused _
        | ok plaintext => exact .data (active_or_stale hclosed hstate)
  | _ =>
      exact .ignored (by simp)

omit [Crypto] in
theorem recordInbound_eq (s : ResponderSession) (nowMs : Nat) :
    ∃ state since, s.recordInbound nowMs =
        { s with lastInboundMs := nowMs, state := state, staleSinceMs := since } ∧
      state ≠ .stale ∧ (state = .closed ↔ s.state = .closed) ∧
        (state = .handshake ↔ s.state = .handshake) := by
  unfold recordInbound
  split_ifs with hstale
  · exact ⟨.active, none, rfl, by simp, by simp [hstale], by simp [hstale]⟩
  · exact ⟨s.state, s.staleSinceMs, rfl, hstale, Iff.rfl, Iff.rfl⟩

/-! ### Calls -/

inductive Operation
  | receive (context : PacketContext) (payload : List UInt8) (nowMs plaintextLen : Nat)
  | sealData (plaintext : List UInt8) (iv : Bytes 16) (outLen nowMs : Nat)
  | keepaliveResponse (nowMs : Nat)
  | teardown (iv : Bytes 16) (outLen : Nat)
  | tick (nowMs : Nat)

def perform (s : ResponderSession) : Operation → ResponderSession
  | .receive context payload nowMs plaintextLen => (s.receive context payload nowMs plaintextLen).1
  | .sealData plaintext iv outLen nowMs => (s.sealData plaintext iv outLen nowMs).1
  | .keepaliveResponse nowMs => (s.keepaliveResponse nowMs).1
  | .teardown iv outLen => (s.teardown iv outLen).1
  | .tick nowMs => (s.tick nowMs).1

structure Extends (s s' : ResponderSession) : Prop where
  linkId : s'.linkId = s.linkId
  keys : s'.keys = s.keys
  closed : s.state = .closed → s'.state = .closed
  identity : ∀ hash, s.remoteIdentityHash = some hash → s'.remoteIdentityHash = some hash
  begun : s.state ≠ .handshake → s'.state ≠ .handshake
  timers : s.state ≠ .handshake → s'.keepaliveMs = s.keepaliveMs ∧ s'.staleMs = s.staleMs

omit [Crypto] in
theorem Extends.refl (s : ResponderSession) : Extends s s :=
  ⟨rfl, rfl, id, fun _ h => h, id, fun _ => ⟨rfl, rfl⟩⟩

omit [Crypto] in
theorem Extends.trans {s s' s'' : ResponderSession} (h : Extends s s') (h' : Extends s' s'') :
    Extends s s'' where
  linkId := h'.linkId.trans h.linkId
  keys := h'.keys.trans h.keys
  closed hs := h'.closed (h.closed hs)
  identity hash hs := h'.identity hash (h.identity hash hs)
  begun hs := h'.begun (h.begun hs)
  timers hs :=
    ⟨(h'.timers (h.begun hs)).1.trans (h.timers hs).1, (h'.timers (h.begun hs)).2.trans (h.timers hs).2⟩

omit [Crypto] in
theorem extends_recordInbound (s : ResponderSession) (nowMs : Nat) :
    Extends s (s.recordInbound nowMs) := by
  obtain ⟨state, since, heq, _, hclosed, hhandshake⟩ := recordInbound_eq s nowMs
  rw [heq]
  exact ⟨rfl, rfl, hclosed.mpr, fun _ h => h, fun h hs => h (hhandshake.mp hs), fun _ => ⟨rfl, rfl⟩⟩

omit [Crypto] in
theorem extends_closed (s : ResponderSession) : Extends s { s with state := .closed } :=
  ⟨rfl, rfl, fun _ => rfl, fun _ h => h, fun _ => by simp, fun _ => ⟨rfl, rfl⟩⟩

theorem extends_of_receives {s' : ResponderSession} {result : Except SessionError Received}
    (h : Receives s context payload nowMs plaintextLen s' result) : Extends s s' := by
  cases h with
  | refused e => exact .refl s
  | ignored _ => exact .refl s
  | activated hstate _ =>
      refine ⟨rfl, rfl, fun hclosed => ?_, fun _ h => h, fun h => absurd hstate h,
        fun h => absurd hstate h⟩
      rw [hstate] at hclosed
      cases hclosed
  | kept _ _ => exact extends_recordInbound s nowMs
  | data _ => exact extends_recordInbound s nowMs
  | repeated _ _ => exact extends_recordInbound s nowMs
  | identified _ hnone _ =>
      have h := extends_recordInbound s nowMs
      refine ⟨h.linkId, h.keys, h.closed, fun hash hhash => ?_, h.begun, h.timers⟩
      rw [hnone] at hhash
      cases hhash
  | closed => exact extends_closed s

omit [Crypto] in
theorem tick_cases (s : ResponderSession) (nowMs : Nat) :
    s.tick nowMs = (s, .none) ∨
    (s.state = .handshake ∧ s.tick nowMs = ({ s with state := .closed }, .expired)) ∨
    (s.state = .active ∧
      s.staleMs ≤ nowMs -
        s.activatedMs.elim s.lastInboundMs (fun activated => max activated s.lastInboundMs) ∧
      s.tick nowMs = ({ s with state := .stale, staleSinceMs := some nowMs }, .stale)) ∨
    (s.state = .stale ∧ (∃ since, s.staleSinceMs = some since ∧ s.grace ≤ nowMs - since) ∧
      s.tick nowMs = (s, .teardown)) := by
  unfold tick
  cases hstate : s.state with
  | handshake =>
      dsimp only
      split_ifs
      · exact .inr (.inl ⟨rfl, rfl⟩)
      · exact .inl rfl
  | active =>
      dsimp only
      split_ifs with hdue
      · exact .inr (.inr (.inl ⟨rfl, hdue, rfl⟩))
      · exact .inl rfl
  | stale =>
      dsimp only
      split_ifs with hdue
      · obtain ⟨since, hsince, hgrace⟩ := (Option.any_eq_true _ _).mp hdue
        exact .inr (.inr (.inr ⟨rfl, ⟨since, hsince, of_decide_eq_true hgrace⟩, rfl⟩))
      · exact .inl rfl
  | closed => exact .inl rfl

theorem extends_perform (s : ResponderSession) (op : Operation) : Extends s (s.perform op) := by
  cases op with
  | receive context payload nowMs plaintextLen =>
      exact extends_of_receives (receive_spec s context payload nowMs plaintextLen)
  | sealData plaintext iv outLen nowMs =>
      simp only [perform, sealData]
      split_ifs
      · exact .refl s
      · cases linkEncrypt s.keys plaintext iv outLen with
        | error e => exact .refl s
        | ok token => exact ⟨rfl, rfl, id, fun _ h => h, id, fun _ => ⟨rfl, rfl⟩⟩
  | keepaliveResponse nowMs => exact ⟨rfl, rfl, id, fun _ h => h, id, fun _ => ⟨rfl, rfl⟩⟩
  | teardown iv outLen =>
      simp only [perform, teardown]
      split_ifs
      · exact .refl s
      · exact extends_closed s
  | tick nowMs =>
      rcases tick_cases s nowMs with heq | ⟨_, heq⟩ | ⟨hactive, _, heq⟩ | ⟨_, _, heq⟩
      · simp only [perform, heq]
        exact .refl s
      · simp only [perform, heq]
        exact extends_closed s
      · simp only [perform, heq]
        refine ⟨rfl, rfl, fun h => ?_, fun _ h => h, fun _ => by simp, fun _ => ⟨rfl, rfl⟩⟩
        rw [hactive] at h
        cases h
      · simp only [perform, heq]
        exact .refl s

end ResponderSession

/-! ### Sessions with their history -/

/-- Whether a packet was accepted. A valid identification that comes again means nothing new, but it
was accepted. -/
def accepts (context : PacketContext) : Except SessionError Received → Bool
  | .error _ => false
  | .ok .ignored => decide (context = .linkIdentify)
  | .ok _ => true

/-- A session, the time of the last call, and the times at which packets were accepted and the link was
activated, the latest first. -/
structure WatchedSession where
  session : ResponderSession
  clock : Nat
  accepted : List Nat
  activations : List Nat

namespace WatchedSession

open ResponderSession (Operation Receives Extends receive_spec tick_cases)

def start (session : ResponderSession) (nowMs : Nat) : WatchedSession := ⟨session, nowMs, [], []⟩

def perform (w : WatchedSession) : Operation → WatchedSession
  | .receive context payload nowMs plaintextLen =>
      let result := (w.session.receive context payload nowMs plaintextLen).2
      { session := w.session.perform (.receive context payload nowMs plaintextLen)
        clock := nowMs
        accepted := if accepts context result then nowMs :: w.accepted else w.accepted
        activations := if result = .ok .activated then nowMs :: w.activations else w.activations }
  | .sealData plaintext iv outLen nowMs =>
      { w with session := w.session.perform (.sealData plaintext iv outLen nowMs), clock := nowMs }
  | .keepaliveResponse nowMs =>
      { w with session := w.session.perform (.keepaliveResponse nowMs), clock := nowMs }
  | .teardown iv outLen => { w with session := w.session.perform (.teardown iv outLen) }
  | .tick nowMs => { w with session := w.session.perform (.tick nowMs), clock := nowMs }

def InOrder (w : WatchedSession) : Operation → Prop
  | .receive _ _ nowMs _ => w.clock ≤ nowMs
  | .sealData _ _ _ nowMs => w.clock ≤ nowMs
  | .keepaliveResponse nowMs => w.clock ≤ nowMs
  | .teardown _ _ => True
  | .tick nowMs => w.clock ≤ nowMs

abbrev Reaches (w : WatchedSession) (ops : List Operation) (w' : WatchedSession) : Prop :=
  Runs perform InOrder w ops w'

variable {w w' : WatchedSession} {ops : List Operation}

theorem session_perform (w : WatchedSession) (op : Operation) :
    (w.perform op).session = w.session.perform op := by
  cases op <;> rfl

theorem extends_of_reaches (h : Reaches w ops w') : Extends w.session w'.session := by
  refine Runs.invariant (I := fun w' => Extends w.session w'.session) ?_ h (.refl _)
  intro w' op _ hw'
  rw [session_perform]
  exact hw'.trans (ResponderSession.extends_perform w'.session op)

def Timed (s : ResponderSession) : Prop :=
  keepaliveMinMs ≤ s.keepaliveMs ∧ s.keepaliveMs ≤ keepaliveDefaultMs ∧
    s.staleMs = staleFactor * s.keepaliveMs

def Proves (linkId : Bytes 16) (publicKey : Bytes 64) : Prop :=
  ∃ signature, verifySignature (Bytes.slice 32 publicKey.toList keysize)
    (linkId.toList ++ publicKey.toList) signature = true

/-- What every call keeps of a session and its history. -/
structure Coherent (w : WatchedSession) : Prop where
  once : w.activations = [] ∧ (w.session.state = .handshake ∨ w.session.state = .closed) ∨
    ∃ activated, w.activations = [activated] ∧ w.session.activatedMs = some activated ∧
      activated ≤ w.session.lastInboundMs ∧ w.accepted ≠ [] ∧ Timed w.session ∧
      w.session.state ≠ .handshake
  clock : w.session.lastInboundMs ≤ w.clock
  latest : w.session.state ≠ .closed → (∀ time ∈ w.accepted, time ≤ w.session.lastInboundMs) ∧
    (w.accepted ≠ [] → w.accepted.head? = some w.session.lastInboundMs)
  waiting : w.session.state = .stale → ∃ since, w.session.staleSinceMs = some since ∧
    since ≤ w.clock ∧ w.session.lastInboundMs + w.session.staleMs ≤ since
  identity : ∀ hash, w.session.remoteIdentityHash = some hash →
    ∃ publicKey, hash = identityHash publicKey ∧ Proves w.session.linkId publicKey

section

variable (h : Coherent w) {nowMs : Nat} (hle : w.clock ≤ nowMs)

include h hle

theorem Coherent.later :
    Coherent { w with clock := nowMs } where
  once := h.once
  clock := h.clock.trans hle
  latest := h.latest
  waiting hstale := by
    obtain ⟨since, hsince, hclock, hquiet⟩ := h.waiting hstale
    exact ⟨since, hsince, hclock.trans hle, hquiet⟩
  identity := h.identity

theorem Coherent.close (accepted : List Nat) (haccepted : w.accepted ≠ [] → accepted ≠ []) :
    Coherent ⟨{ w.session with state := .closed }, nowMs, accepted, w.activations⟩ where
  once := by
    rcases h.once with ⟨hnone, _⟩ | ⟨activated, hone, hat, hlast, hsome, htimed, _⟩
    · exact .inl ⟨hnone, .inr rfl⟩
    · exact .inr ⟨activated, hone, hat, hlast, haccepted hsome, htimed, by simp⟩
  clock := h.clock.trans hle
  latest hopen := absurd rfl hopen
  waiting hstale := by cases hstale
  identity := h.identity

theorem Coherent.record :
    Coherent ⟨w.session.recordInbound nowMs, nowMs, nowMs :: w.accepted, w.activations⟩ := by
  obtain ⟨state, since, heq, hstale, hclosed, hhandshake⟩ :=
    ResponderSession.recordInbound_eq w.session nowMs
  rw [heq]
  refine ⟨?_, le_rfl, fun hopen => ?_, fun h => absurd h hstale, h.identity⟩
  · rcases h.once with ⟨hnone, hstate⟩ | ⟨activated, hone, hat, hlast, _, htimed, hbegun⟩
    · exact .inl ⟨hnone, hstate.imp hhandshake.mpr hclosed.mpr⟩
    · exact .inr ⟨activated, hone, hat, (hlast.trans h.clock).trans hle, by simp, htimed,
        fun hs => hbegun (hhandshake.mp hs)⟩
  · refine ⟨fun time htime => ?_, fun _ => rfl⟩
    rcases List.mem_cons.mp htime with rfl | htime
    · exact le_rfl
    · have hwas : w.session.state ≠ .closed := fun hs => hopen (hclosed.mpr hs)
      exact (((h.latest hwas).1 time htime).trans h.clock).trans hle

end

omit [Crypto] in
theorem keepaliveFor_bounds (rttMs : Nat) :
    keepaliveMinMs ≤ ResponderSession.keepaliveFor rttMs ∧
      ResponderSession.keepaliveFor rttMs ≤ keepaliveDefaultMs := by
  unfold ResponderSession.keepaliveFor
  exact ⟨le_min (le_max_right _ _) (by decide), min_le_right _ _⟩

omit [Crypto] in
theorem timed_activate (s : ResponderSession) (plaintext : List UInt8) (nowMs : Nat) :
    Timed (s.activate plaintext nowMs) := by
  unfold ResponderSession.activate
  dsimp only [Timed]
  generalize hrtt : (peerRttMs plaintext).elim _ _ = rtt
  obtain ⟨hmin, hmax⟩ := keepaliveFor_bounds rtt
  refine ⟨hmin, hmax, ?_⟩
  rw [satMul, min_eq_left, Nat.mul_comm]
  exact (Nat.mul_le_mul_right _ hmax).trans (by decide)

theorem proves_of_verifyIdentification {linkId : Bytes 16} {plaintext : List UInt8}
    {publicKey : Bytes 64} (h : verifyIdentification linkId plaintext = some publicKey) :
    Proves linkId publicKey := by
  unfold verifyIdentification at h
  split_ifs at h with hlen
  dsimp only at h
  split_ifs at h with hverify
  obtain rfl := Option.some.inj h
  exact ⟨_, hverify⟩

theorem coherent_receive (h : Coherent w) {context : PacketContext} {payload : List UInt8}
    {nowMs plaintextLen : Nat} (hle : w.clock ≤ nowMs) :
    Coherent (w.perform (.receive context payload nowMs plaintextLen)) := by
  have hspec := receive_spec w.session context payload nowMs plaintextLen
  simp only [perform, ResponderSession.perform]
  generalize w.session.receive context payload nowMs plaintextLen = outcome at hspec ⊢
  obtain ⟨s', result⟩ := outcome
  dsimp only at hspec ⊢
  cases hspec with
  | refused e => exact h.later hle
  | ignored hcontext => simpa [accepts, hcontext] using h.later hle
  | activated hstate hdecrypt =>
      have hnone : w.activations = [] := by
        rcases h.once with ⟨hnone, _⟩ | ⟨_, _, _, _, _, _, hbegun⟩
        · exact hnone
        · exact absurd hstate hbegun
      have hlatest := h.latest (by rw [hstate]; simp)
      refine ⟨.inr ⟨nowMs, by simp [hnone], rfl, le_rfl, by simp [accepts], timed_activate _ _ _,
        by simp [ResponderSession.activate]⟩, le_rfl, fun _ => ⟨fun time htime => ?_, fun _ => rfl⟩,
        (by intro hs; cases hs), h.identity⟩
      rcases List.mem_cons.mp htime with rfl | htime
      · exact le_rfl
      · exact ((hlatest.1 time htime).trans h.clock).trans hle
  | kept hopen respond => simpa [accepts] using h.record hle
  | data hopen => simpa [accepts] using h.record hle
  | repeated hopen hcontext => simpa [accepts, hcontext] using h.record hle
  | identified hopen hnone hverify =>
      have hrecord := h.record hle
      simp only [accepts, if_true]
      refine ⟨hrecord.once, hrecord.clock, hrecord.latest, hrecord.waiting, fun hash hhash => ?_⟩
      have hlink := (ResponderSession.extends_recordInbound w.session nowMs).linkId
      refine ⟨_, (Option.some.inj hhash).symm, ?_⟩
      rw [hlink]
      exact proves_of_verifyIdentification hverify
  | closed =>
      simpa [accepts] using h.close hle (nowMs :: w.accepted) (by simp)

theorem coherent_perform {op : Operation} (hop : w.InOrder op) (h : Coherent w) :
    Coherent (w.perform op) := by
  cases op with
  | receive context payload nowMs plaintextLen => exact coherent_receive h hop
  | sealData plaintext iv outLen nowMs =>
      have hlater := h.later hop
      simp only [perform, ResponderSession.perform, ResponderSession.sealData]
      split_ifs
      · exact hlater
      · cases linkEncrypt w.session.keys plaintext iv outLen with
        | error e => exact hlater
        | ok token =>
            exact ⟨hlater.once, hlater.clock, hlater.latest, hlater.waiting, hlater.identity⟩
  | keepaliveResponse nowMs =>
      have hlater := h.later hop
      exact ⟨hlater.once, hlater.clock, hlater.latest, hlater.waiting, hlater.identity⟩
  | teardown iv outLen =>
      simp only [perform, ResponderSession.perform, ResponderSession.teardown]
      split_ifs
      · exact h
      · exact h.close le_rfl w.accepted id
  | tick nowMs =>
      simp only [perform, ResponderSession.perform]
      rcases tick_cases w.session nowMs with
        heq | ⟨_, heq⟩ | ⟨hactive, hdue, heq⟩ | ⟨_, _, heq⟩
      · rw [heq]
        exact h.later hop
      · rw [heq]
        exact h.close hop w.accepted id
      · rw [heq]
        rcases h.once with ⟨_, hstate⟩ | ⟨activated, hone, hat, hlast, hsome, htimed, _⟩
        · rw [hactive] at hstate
          simp at hstate
        · refine ⟨.inr ⟨activated, hone, hat, hlast, hsome, htimed, by simp⟩, h.clock.trans hop,
            fun _ => h.latest (by rw [hactive]; simp), fun _ => ⟨nowMs, rfl, le_rfl, ?_⟩, h.identity⟩
          rw [hat, Option.elim_some, max_eq_right hlast] at hdue
          have hnow : w.session.lastInboundMs ≤ nowMs := h.clock.trans hop
          exact Nat.add_le_of_le_sub' hnow hdue
      · rw [heq]
        exact h.later hop

theorem coherent_of_reaches (h : Reaches w ops w') (hw : Coherent w) : Coherent w' :=
  Runs.invariant (I := Coherent) (fun _ _ hop hw => coherent_perform hop hw) h hw

theorem coherent_start {identity : LocalIdentity} {destinationHash : Bytes 16} {request : List UInt8}
    {hops : UInt8} {ephemeralX25519 : Bytes 32} {nowMs proofLen : Nat} {s₀ : ResponderSession}
    {proof : List UInt8}
    (h : ResponderSession.accept identity destinationHash request hops ephemeralX25519 nowMs proofLen =
      .ok (s₀, proof)) : Coherent (start s₀ nowMs) := by
  simp only [ResponderSession.accept, bind_eq_ok, mapError_eq_ok, refuseIf_eq_ok, pure_eq_ok,
    Prod.mk.injEq] at h
  obtain ⟨_, _, _, _, _, _, _, _, rfl, _⟩ := h
  exact ⟨.inl ⟨rfl, .inl rfl⟩, le_rfl, fun _ => ⟨by simp [start], by simp [start]⟩,
    (by intro hs; cases hs), (by intro hash hhash; cases hhash)⟩

/-- The laws of a session at a moment of its life; `session` is the one that was accepted. -/
structure Lawful (session : ResponderSession) (w : WatchedSession) : Prop where
  closed : ∀ ops w', Reaches w ops w' → w.session.state = .closed → w'.session.state = .closed
  activated : w.activations.length ≤ 1 ∧ ∀ context payload nowMs plaintextLen,
    (w.session.receive context payload nowMs plaintextLen).2 = .ok .activated →
      w.session.state = .handshake ∧ w.activations = [] ∧
        ∃ plaintext, linkDecrypt session.keys payload plaintextLen = .ok plaintext
  data : ∀ context payload nowMs plaintextLen plaintext,
    (w.session.receive context payload nowMs plaintextLen).2 = .ok (.data plaintext) →
      w.session.state = .active ∨ w.session.state = .stale
  identity : ∀ hash, w.session.remoteIdentityHash = some hash →
    (∃ publicKey, hash = identityHash publicKey ∧ Proves session.linkId publicKey) ∧
      ∀ ops w', Reaches w ops w' → w'.session.remoteIdentityHash = some hash
  refused : (∀ context payload nowMs plaintextLen e,
      (w.session.receive context payload nowMs plaintextLen).2 = .error e →
        (w.session.receive context payload nowMs plaintextLen).1 = w.session) ∧
    ∀ plaintext iv outLen nowMs e, (w.session.sealData plaintext iv outLen nowMs).2 = .error e →
      (w.session.sealData plaintext iv outLen nowMs).1 = w.session
  timers : w.activations ≠ [] → Timed w.session ∧ ∀ ops w', Reaches w ops w' →
    w'.session.keepaliveMs = w.session.keepaliveMs ∧ w'.session.staleMs = w.session.staleMs
  stale : ∀ nowMs, w.clock ≤ nowMs → ((w.session.tick nowMs).2 = .stale ↔
    w.session.state = .active ∧ ∃ activated last, w.activations = [activated] ∧
      w.accepted.head? = some last ∧ max activated last + w.session.staleMs ≤ nowMs)
  teardown : ∀ nowMs, w.clock ≤ nowMs → (w.session.tick nowMs).2 = .teardown →
    ∀ time ∈ w.accepted, time + w.session.staleMs + w.session.grace ≤ nowMs

theorem receives_of_answer {s : ResponderSession} {context : PacketContext} {payload : List UInt8}
    {nowMs plaintextLen : Nat} {result : Except SessionError Received}
    (h : (s.receive context payload nowMs plaintextLen).2 = result) :
    ∃ s', (s.receive context payload nowMs plaintextLen).1 = s' ∧
      Receives s context payload nowMs plaintextLen s' result :=
  ⟨_, rfl, h ▸ receive_spec s context payload nowMs plaintextLen⟩

theorem sealData_error {s : ResponderSession} {plaintext : List UInt8} {iv : Bytes 16}
    {outLen nowMs : Nat} {e : SessionError}
    (h : (s.sealData plaintext iv outLen nowMs).2 = .error e) :
    (s.sealData plaintext iv outLen nowMs).1 = s := by
  unfold ResponderSession.sealData at h ⊢
  split_ifs at h ⊢ with hstate
  · rfl
  · cases hseal : linkEncrypt s.keys plaintext iv outLen with
    | error e => rfl
    | ok token =>
        rw [hseal] at h
        cases h

theorem tick_stale_iff (h : Coherent w) {nowMs : Nat} (hle : w.clock ≤ nowMs) :
    (w.session.tick nowMs).2 = .stale ↔
      w.session.state = .active ∧ ∃ activated last, w.activations = [activated] ∧
        w.accepted.head? = some last ∧ max activated last + w.session.staleMs ≤ nowMs := by
  have hnow : w.session.lastInboundMs ≤ nowMs := h.clock.trans hle
  constructor
  · intro htick
    rcases tick_cases w.session nowMs with
      heq | ⟨_, heq⟩ | ⟨hactive, hdue, heq⟩ | ⟨_, _, heq⟩
    all_goals rw [heq] at htick
    all_goals try cases htick
    rcases h.once with ⟨_, hstate⟩ | ⟨activated, hone, hat, hlast, hsome, _, _⟩
    · rw [hactive] at hstate
      simp at hstate
    · rw [hat, Option.elim_some] at hdue
      refine ⟨hactive, activated, _, hone, (h.latest (by rw [hactive]; simp)).2 hsome, ?_⟩
      exact Nat.add_le_of_le_sub' (max_le (hlast.trans hnow) hnow) hdue
  · rintro ⟨hactive, activated, last, hone, hhead, hdue⟩
    rcases h.once with ⟨hnone, _⟩ | ⟨activated', hone', hat, hlast, hsome, _, _⟩
    · rw [hnone] at hone
      cases hone
    · obtain rfl : activated' = activated := by
        rw [hone'] at hone
        exact (List.cons.inj hone).1
      have hinbound := (h.latest (by rw [hactive]; simp)).2 hsome
      obtain rfl : w.session.lastInboundMs = last := Option.some.inj (hinbound.symm.trans hhead)
      simp only [ResponderSession.tick, hactive, hat, Option.elim_some]
      rw [if_pos (Nat.le_sub_of_add_le' hdue)]

theorem quiet_of_teardown (h : Coherent w) {nowMs : Nat} (hle : w.clock ≤ nowMs)
    (htick : (w.session.tick nowMs).2 = .teardown) :
    ∀ time ∈ w.accepted, time + w.session.staleMs + w.session.grace ≤ nowMs := by
  rcases tick_cases w.session nowMs with
    heq | ⟨_, heq⟩ | ⟨_, _, heq⟩ | ⟨hstale, ⟨since, hsince, hgrace⟩, heq⟩
  all_goals rw [heq] at htick
  all_goals try cases htick
  intro time htime
  obtain ⟨since', hsince', hclock, hquiet⟩ := h.waiting hstale
  obtain rfl := Option.some.inj (hsince.symm.trans hsince')
  have hlast := (h.latest (by rw [hstale]; simp)).1 time htime
  omega

theorem lawful_of_coherent {session : ResponderSession} (h : Coherent w)
    (hextends : Extends session w.session) : Lawful session w where
  closed _ _ hrun hclosed := (extends_of_reaches hrun).closed hclosed
  activated := by
    refine ⟨?_, fun context payload nowMs plaintextLen hresult => ?_⟩
    · rcases h.once with ⟨hnone, _⟩ | ⟨activated, hone, _⟩
      · simp [hnone]
      · simp [hone]
    · obtain ⟨s', _, hspec⟩ := receives_of_answer hresult
      cases hspec with
      | activated hstate hdecrypt =>
          refine ⟨hstate, ?_, _, hextends.keys ▸ hdecrypt⟩
          rcases h.once with ⟨hnone, _⟩ | ⟨_, _, _, _, _, _, hbegun⟩
          · exact hnone
          · exact absurd hstate hbegun
  data context payload nowMs plaintextLen plaintext hresult := by
    obtain ⟨s', _, hspec⟩ := receives_of_answer hresult
    cases hspec with
    | data hopen => exact hopen
  identity hash hhash :=
    ⟨hextends.linkId ▸ h.identity hash hhash, fun _ _ hrun =>
      (extends_of_reaches hrun).identity hash hhash⟩
  refused := by
    refine ⟨fun context payload nowMs plaintextLen e hresult => ?_, fun _ _ _ _ _ => sealData_error⟩
    obtain ⟨s', heq, hspec⟩ := receives_of_answer hresult
    cases hspec
    exact heq
  timers hsome := by
    rcases h.once with ⟨hnone, _⟩ | ⟨_, _, _, _, _, htimed, hbegun⟩
    · exact absurd hnone hsome
    · exact ⟨htimed, fun _ _ hrun => (extends_of_reaches hrun).timers hbegun⟩
  stale _ hle := tick_stale_iff h hle
  teardown _ hle htick := quiet_of_teardown h hle htick

/-- Every session that was accepted keeps the laws, whatever is called on it in whatever order, as long
as the clock does not go back. -/
theorem session_lawful {identity : LocalIdentity} {destinationHash : Bytes 16} {request : List UInt8}
    {hops : UInt8} {ephemeralX25519 : Bytes 32} {nowMs proofLen : Nat} {session : ResponderSession}
    {proof : List UInt8}
    (haccept : ResponderSession.accept identity destinationHash request hops ephemeralX25519 nowMs
      proofLen = .ok (session, proof))
    (hrun : Reaches (start session nowMs) ops w) : Lawful session w :=
  lawful_of_coherent (coherent_of_reaches hrun (coherent_start haccept)) (extends_of_reaches hrun)

end WatchedSession

end

namespace WatchedSession

/-- A token of the empty text, as the constant primitives make it. -/
def emptyToken : List UInt8 :=
  List.replicate 16 0 ++ List.replicate 16 16 ++ List.replicate 32 0

def sampleSession : Except SessionError (ResponderSession × List UInt8) :=
  letI := Crypto.constant
  ResponderSession.accept ⟨Bytes.zero⟩ Bytes.zero (List.replicate 64 0) 1 Bytes.zero 0 linkProofLen

def sampleCall : ResponderSession.Operation := .receive .lrrtt emptyToken 10 480

/-- A session that was activated after ten milliseconds becomes stale after ten seconds. -/
theorem session_lawful_sampleSession :
    letI := Crypto.constant
    ∃ session proof, sampleSession = .ok (session, proof) ∧
      Lawful session ((start session 0).perform sampleCall) ∧
      ((start session 0).perform sampleCall).activations = [10] ∧
      (((start session 0).perform sampleCall).session.tick 10010).2 = .stale := by
  let _ := Crypto.constant
  refine ⟨_, _, rfl, ?_, ?_, ?_⟩
  · have haccept : sampleSession = .ok (_, _) := rfl
    exact session_lawful haccept (.cons (Nat.zero_le _) (.nil _))
  · decide +kernel
  · decide +kernel

end WatchedSession

end ReticulumLite
