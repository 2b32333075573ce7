import ReticulumLite.Proof.Reachable

/-!
# The lifecycle of a router's interfaces

A call that registers, withdraws or resets interfaces succeeds or leaves the whole node as it was.
The numbers of the interfaces only go up: over any run an id keeps its number and its description,
has none, or has one never given out before.
-/

namespace ReticulumLite

open Bounded

namespace Router

variable {r r' r'' : Router} {slot : Fin requesters} {id : InterfaceId}

/-- What becomes of the numbers of a router: every id keeps its number and its description, loses the
number, or gets one beyond all that were given out. -/
structure Carries (r r' : Router) : Prop where
  last_le : r.lastGeneration ≤ r'.lastGeneration
  generation : ∀ id, r'.generation id = r.generation id ∧ r'.interface id = r.interface id ∨
    r'.generation id = 0 ∨ r.lastGeneration < r'.generation id

theorem Carries.of_eq (hregistry : r'.registry = r.registry)
    (hgenerations : r'.generations = r.generations)
    (hlast : r'.lastGeneration = r.lastGeneration) : Carries r r' where
  last_le := hlast.ge
  generation id := by
    left
    unfold Router.generation Router.interface
    rw [hregistry, hgenerations]
    exact ⟨rfl, rfl⟩

theorem Carries.refl (r : Router) : Carries r r := .of_eq rfl rfl rfl

theorem Carries.trans (h : Carries r r') (h' : Carries r' r'') : Carries r r'' where
  last_le := h.last_le.trans h'.last_le
  generation id := by
    rcases h'.generation id with ⟨hsame', hinterface'⟩ | hnone | hnew
    · rw [hsame', hinterface']
      exact h.generation id
    · exact .inr (.inl hnone)
    · exact .inr (.inr (h.last_le.trans_lt hnew))

theorem Rewrites.carries (h : Rewrites r r' slot id)
    (hlast : r.lastGeneration ≤ r'.lastGeneration)
    (hid : r'.generation id = 0 ∨ r.lastGeneration < r'.generation id) : Carries r r' where
  last_le := hlast
  generation id' := by
    by_cases heq : id' = id
    · subst heq
      exact .inr hid
    · exact .inl ⟨h.generation_of_ne heq, h.interface_of_ne heq⟩

theorem generation_of_slotOf (h : r.registry.slotOf id = some slot) :
    r.generation id = r.generations.get slot := by
  unfold Router.generation
  rw [h]

theorem generation_of_none (h : r.registry.slotOf id = none) : r.generation id = 0 := by
  unfold Router.generation
  rw [h]

theorem Connects.generation {interface : InterfaceConfig} (h : r.Connects r' slot interface)
    (hr : r.Ordered) : r'.generation interface.id = r.lastGeneration + 1 := by
  rw [generation_of_slotOf ((h.ordered hr).slotOf h.get), h.number]

theorem Carries.of_replicate
    (hgenerations : r'.generations = List.Vector.replicate requesters (r.lastGeneration + 1))
    (hlast : r'.lastGeneration = r.lastGeneration + 1) : Carries r r' where
  last_le := by omega
  generation id := by
    cases hslot : r'.registry.slotOf id with
    | none => exact .inr (.inl (generation_of_none hslot))
    | some slot =>
        right
        right
        rw [generation_of_slotOf hslot, hgenerations, List.Vector.get_replicate]
        exact Nat.lt_succ_self _

end Router

namespace LiteNode

variable {K : Capacities} {s s' : LiteNode K .router}

/-! ### Calls that fail -/

theorem registerInterface_error {interface : InterfaceConfig} {e : ConfigError}
    (h : (s.registerInterface interface).2 = .error e) : (s.registerInterface interface).1 = s := by
  rcases registerInterface_cases s interface with ⟨_, heq⟩ | ⟨_, _, _, heq⟩
  · rw [heq]
  · rw [heq] at h
    cases h

theorem unregisterInterface_error {id : InterfaceId} {e : ConfigError}
    (h : (s.unregisterInterface id).2 = .error e) : (s.unregisterInterface id).1 = s := by
  rcases unregisterInterface_cases s id with ⟨_, heq⟩ | ⟨_, _, _, heq⟩
  · rw [heq]
  · rw [heq] at h
    cases h

theorem setInterfaceOnline_error {id : InterfaceId} {online : Bool} {e : ConfigError}
    (h : (s.setInterfaceOnline id online).2 = .error e) :
    (s.setInterfaceOnline id online).1 = s := by
  rcases setInterfaceOnline_cases s id online with
    ⟨_, heq⟩ | ⟨_, _, _, _, _, ⟨_, _, heq⟩ | ⟨_, _, _, heq⟩ | ⟨_, heq⟩⟩
  · rw [heq]
  all_goals
    rw [heq] at h
    cases h

theorem resetInPlace_error {config : LiteConfig} {transportId : Hash16} {e : TransportError}
    (h : (s.resetInPlace config transportId).2 = .error e) :
    (s.resetInPlace config transportId).1 = s := by
  rcases resetInPlace_cases s config transportId with ⟨_, heq⟩ | heq
  · rw [heq]
  · rw [heq] at h
    cases h

theorem resetRouterInPlace_error {config : LiteConfig} {id : Hash16} {registry : InterfaceRegistry}
    {modem : Option LoraModemConfig} {e : TransportError}
    (h : (s.resetRouterInPlace config id registry modem).2 = .error e) :
    (s.resetRouterInPlace config id registry modem).1 = s := by
  rcases resetRouterInPlace_cases s config id registry modem with ⟨_, heq⟩ | ⟨_, heq⟩
  · rw [heq]
  · rw [heq] at h
    cases h

/-! ### Numbers over a run -/

theorem Consistent.ordered (hs : s.Consistent) : s.router.Ordered :=
  hs.placed.ordered _ (router?_eq s)

theorem Consistent.generation_le (hs : s.Consistent) (id : InterfaceId) :
    s.router.generation id ≤ s.router.lastGeneration := by
  cases hslot : s.router.registry.slotOf id with
  | none =>
      rw [Router.generation_of_none hslot]
      exact Nat.zero_le _
  | some slot =>
      rw [Router.generation_of_slotOf hslot]
      exact numbersIssued_iff.mp hs.numbers slot

theorem carries_retire (hs : s.Consistent) {id : InterfaceId} {slot : Fin requesters}
    (hslot : s.router.registry.slotOf id = some slot) {c : Option InterfaceConfig}
    (hc : ∀ c', c = some c' → c'.id = id) :
    s.router.Carries (Router.retire { s.router with
      registry := s.router.registry.put slot c } slot) := by
  refine (rewrites_retire hslot hc).carries le_rfl (.inl ?_)
  cases hafter : InterfaceRegistry.slotOf (s.router.registry.put slot c) id with
  | none => exact Router.generation_of_none hafter
  | some j =>
      -- only the place that was written can have the id
      obtain ⟨c', hc', hid⟩ := InterfaceRegistry.get_of_slotOf hafter
      have hj : j = slot := by
        by_contra hj
        rw [Slots.get_put_of_ne (Ne.symm hj)] at hc'
        exact hs.ordered.ne_of_slotOf hslot hj hc' hid
      subst hj
      refine (Router.generation_of_slotOf hafter).trans ?_
      exact List.Vector.get_set_same _ _ _

theorem Rewires.carries (h : Rewires s s') (hs : s.Consistent) : s.router.Carries s'.router := by
  cases h with
  | same => exact .refl _
  | reset => exact .of_replicate rfl rfl
  | connect h =>
      refine h.rewrites.carries (h.last ▸ Nat.le_succ _) (.inr ?_)
      rw [h.generation hs.ordered]
      exact Nat.lt_succ_self _
  | retire hslot hc₀ hid hc =>
      rw [router_retireRouterInterface]
      exact carries_retire hs hslot fun c' hc' => by rw [hc c' hc']; exact hid

theorem Grows.carries (h : Grows s s') : s.router.Carries s'.router := by
  obtain ⟨r, hr, hregistry, hgenerations, hlast⟩ := h.registry _ (router?_eq s')
  obtain rfl := Option.some.inj ((router?_eq s).symm.trans hr)
  exact .of_eq hregistry hgenerations hlast

section

variable [Crypto]

theorem perform_carries (hs : s.Consistent) (op : Operation .router) :
    s.router.Carries (op.perform s).router := by
  cases ht : op.time with
  | some t =>
      obtain ⟨_, hchanges, _⟩ := Operation.perform_timed hs.sound hs.placed ht
      exact hchanges.grows.carries
  | none =>
      rcases Operation.perform_untimed (s := s) ht with ⟨_, hchanges⟩ | ⟨hop, _⟩
      · exact (hchanges 0).grows.carries
      · exact (Operation.rewires s hop).carries hs

theorem Reaches.carries {ops : List (Operation .router)} (hs : s.Consistent)
    (h : s.Reaches ops s') : s.router.Carries s'.router := by
  induction h with
  | nil => exact .refl _
  | @cons s _ op _ _ _ ih =>
      exact (perform_carries hs op).trans (ih (Operation.perform_consistent hs op))

/-- The ids that an operation attaches anew: the one it registers, the one it brings online, and all
that a reset leaves registered. -/
def Attaches (s : LiteNode K .router) : Operation .router → InterfaceId → Prop
  | .registerInterface interface, id =>
      (s.registerInterface interface).2 = .ok () ∧ id = interface.id
  | .setInterfaceOnline id' online, id =>
      (s.setInterfaceOnline id' online).2 = .ok () ∧ id = id' ∧ online = true ∧
        ∃ c, s.router.interface id = some c ∧ c.online = false
  | .resetInPlace config transportId, id =>
      (s.resetInPlace config transportId).2 = .ok () ∧ (s.router.interface id).isSome
  | .resetRouterInPlace config transportId registry modem, id =>
      (s.resetRouterInPlace config transportId registry modem).2 = .ok () ∧
        (registry.lookup id).isSome
  | _, _ => False

theorem generation_of_attaches (hs : s.Consistent) {op : Operation .router} {id : InterfaceId}
    (h : s.Attaches op id) :
    (op.perform s).router.generation id = s.router.lastGeneration + 1 := by
  have hreset {r : Router} (hr : r.generations =
      List.Vector.replicate requesters (s.router.lastGeneration + 1))
      (hsome : (r.registry.lookup id).isSome) : r.generation id = s.router.lastGeneration + 1 := by
    obtain ⟨c, hc⟩ := Option.isSome_iff_exists.mp hsome
    obtain ⟨slot, hslot, _⟩ := Slots.find_eq_some.mp hc
    rw [Router.generation_of_slotOf hslot, hr, List.Vector.get_replicate]
  cases op with
  | registerInterface interface =>
      obtain ⟨hok, rfl⟩ := h
      rcases registerInterface_cases s interface with ⟨_, heq⟩ | ⟨slot, r', hconnects, heq⟩
      · rw [heq] at hok
        cases hok
      · simp only [Operation.perform, heq]
        exact hconnects.generation hs.ordered
  | setInterfaceOnline id' online =>
      obtain ⟨hok, rfl, rfl, c', hc', hoffline⟩ := h
      rcases setInterfaceOnline_cases s id true with
        ⟨_, heq⟩ | ⟨slot, c, hslot, hc, rfl, ⟨_, honline, _⟩ | ⟨r', _, hconnects, heq⟩ | ⟨hfalse, _⟩⟩
      · rw [heq] at hok
        cases hok
      · obtain ⟨slot', hslot', hget⟩ := Slots.find_eq_some.mp hc'
        obtain rfl := Option.some.inj (hslot.symm.trans hslot')
        obtain rfl := Option.some.inj (hc.symm.trans hget)
        exact absurd (honline.symm.trans hoffline) (by decide)
      · simp only [Operation.perform, heq]
        exact hconnects.generation hs.ordered
      · cases hfalse
  | resetInPlace config transportId =>
      rcases resetInPlace_cases s config transportId with ⟨_, heq⟩ | heq
      · rw [Attaches, heq] at h
        cases h.1
      · simp only [Operation.perform, heq]
        exact hreset rfl h.2
  | resetRouterInPlace config transportId registry modem =>
      rcases resetRouterInPlace_cases s config transportId registry modem with ⟨_, heq⟩ | ⟨_, heq⟩
      · rw [Attaches, heq] at h
        cases h.1
      · simp only [Operation.perform, heq]
        exact hreset rfl h.2
  | _ => cases h

/-- Lifecycle calls change nothing when they fail; an id that is attached anew gets a number above
all numbers that any interface had; and an id that has the same number at two points of a run had it
all the time between, for the same interface. -/
theorem interface_lifecycle {config : LiteConfig} {transportId : Hash16}
    {registry : InterfaceRegistry} {modem : Option LoraModemConfig} {s₀ : LiteNode K .router}
    (hnew : newRouter config transportId registry modem = .ok s₀) :
    (∀ ops (s : LiteNode K .router), s₀.Reaches ops s →
      (∀ interface e, (s.registerInterface interface).2 = .error e →
        (s.registerInterface interface).1 = s) ∧
      (∀ id e, (s.unregisterInterface id).2 = .error e → (s.unregisterInterface id).1 = s) ∧
      (∀ id online e, (s.setInterfaceOnline id online).2 = .error e →
        (s.setInterfaceOnline id online).1 = s) ∧
      (∀ config id e, (s.resetInPlace config id).2 = .error e →
        (s.resetInPlace config id).1 = s) ∧
      (∀ config id registry modem e, (s.resetRouterInPlace config id registry modem).2 = .error e →
        (s.resetRouterInPlace config id registry modem).1 = s)) ∧
    (∀ ops (s : LiteNode K .router) ops' t op id, s₀.Reaches ops s → s.Reaches ops' t →
      t.Attaches op id →
      ∀ id', s.router.generation id' < (op.perform t).router.generation id) ∧
    (∀ ops (s : LiteNode K .router) ops' t ops'' u id, s₀.Reaches ops s → s.Reaches ops' t →
      t.Reaches ops'' u → s.router.generation id ≠ 0 →
      u.router.generation id = s.router.generation id →
      t.router.generation id = s.router.generation id ∧
        t.router.interface id = s.router.interface id) := by
  have hfresh := (fresh_of_newRouter hnew).consistent
  refine ⟨fun ops s _ => ⟨fun _ _ => registerInterface_error, fun _ _ => unregisterInterface_error,
    fun _ _ _ => setInterfaceOnline_error, fun _ _ _ => resetInPlace_error,
    fun _ _ _ _ _ => resetRouterInPlace_error⟩, ?_, ?_⟩
  · intro ops s ops' t op id hrun hrun' hattach id'
    have hs := Consistent.runs hrun hfresh
    have hle := hs.generation_le id'
    have hlast := (Reaches.carries hs hrun').last_le
    rw [generation_of_attaches (Consistent.runs hrun' hs) hattach]
    omega
  · intro ops s ops' t ops'' u id hrun hrun' hrun'' hnumber hsame
    have hs := Consistent.runs hrun hfresh
    have hcarries := Reaches.carries hs hrun'
    have hcarries' := Reaches.carries (Consistent.runs hrun' hs) hrun''
    have hle := hs.generation_le id
    rcases hcarries.generation id with hkept | hnone | hnext
    · exact hkept
    · -- the number was withdrawn, so any later one is beyond it
      rcases hcarries'.generation id with ⟨hkept, _⟩ | hnone' | hnext'
      · omega
      · omega
      · have hlast := hcarries.last_le
        omega
    · rcases hcarries'.generation id with ⟨hkept, _⟩ | hnone' | hnext'
      · omega
      · omega
      · have hlast := hcarries.last_le
        omega

end

/-- A third interface of the small router gets number 2; the first two have number 1. -/
theorem interface_lifecycle_smallRouter :
    letI := Crypto.constant
    smallRouter.router.generation 1 = 1 ∧
      ((Operation.registerInterface (smallInterface 3)).perform smallRouter).router.generation 3 = 2 ∧
      smallRouter.router.generation 1 <
        ((Operation.registerInterface (smallInterface 3)).perform smallRouter).router.generation 3 := by
  let _ := Crypto.constant
  have hlifecycle := interface_lifecycle newRouter_smallRouter
  have hattach : smallRouter.Attaches (.registerInterface (smallInterface 3)) 3 := ⟨rfl, rfl⟩
  exact ⟨rfl, rfl, hlifecycle.2.1 [] _ [] _ _ _ (.nil _) (.nil _) hattach 1⟩

end LiteNode

end ReticulumLite
