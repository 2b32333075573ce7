import ReticulumLite.Wire.Ifac
import ReticulumLite.Base.Slots
import ReticulumLite.Base.Words

/-!
# Configuration

Interface descriptors, the registry of the interfaces a router owns, and the limits of a node.
-/

namespace ReticulumLite

open Bounded

abbrev InterfaceId := UInt8

inductive InterfaceMode
  | full | pointToPoint | internal | accessPoint | gateway | roaming | boundary
  deriving DecidableEq

/-- The purpose of an interface. A local client shares this node's transport; every other role is a
network interface. -/
inductive InterfaceRole
  | loRa | backbone | normal | localClient
  deriving DecidableEq

inductive ConfigError
  | emptyPathTable
  | emptyHashTable
  | emptyTxQueue
  | unsupportedMtu
  | mduExceedsMtu
  | invalidIfacSize
  | duplicateInterfaceId
  | interfaceRegistryFull
  | unknownInterface
  | interfaceHasNoDirection
  | invalidInterfaceDirection
  | invalidInterfaceMtu
  | invalidInterfaceQueueDepth
  | cannotRemoveLastInterface
  | interfaceGenerationExhausted
  deriving DecidableEq

/-! ### Interfaces -/

/-- What an interface may carry. Repeating is the exception that lets a frame leave by the
interface it came from. -/
structure InterfaceDirection where
  inbound : Bool
  outbound : Bool
  forward : Bool
  repeating : Bool
  deriving DecidableEq

namespace InterfaceDirection

def bidirectional : InterfaceDirection := ⟨true, true, true, false⟩

def validate (d : InterfaceDirection) : Except ConfigError Unit := do
  refuseIf (!d.inbound && !d.outbound) .interfaceHasNoDirection
  refuseIf ((d.forward || d.repeating) && !d.outbound) .invalidInterfaceDirection

end InterfaceDirection

structure IfacConfig where
  key : Bytes ifacKeyLength
  size : UInt8
  deriving DecidableEq

def IfacConfig.validate (c : IfacConfig) : Except ConfigError Unit :=
  refuseIf (c.size = 0 ∨ c.size.toNat > 64) .invalidIfacSize

def ifacSize (ifac : Option IfacConfig) : Nat :=
  match ifac with
  | some ifac => ifac.size.toNat
  | none => 0

abbrev loraFramePayloadMax : Nat := 254
abbrev loraSplitFramePayloadMax : Nat := loraFramePayloadMax * 2

structure InterfaceConfig where
  id : InterfaceId
  role : InterfaceRole
  mode : InterfaceMode
  direction : InterfaceDirection
  mtu : Nat
  bitrateBps : Nat
  ifac : Option IfacConfig
  online : Bool
  txQueueDepth : Nat
  announceCapPermille : Nat
  bulkPaths : Bool
  deriving DecidableEq

namespace InterfaceConfig

/-- A radio frame has room for a tag of eight bytes; a longer one shrinks the packet. -/
def clearMtu (c : InterfaceConfig) : Nat :=
  let physicalClearMtu := match c.role with
    | .loRa => loraSplitFramePayloadMax - ifacSize c.ifac
    | _ => c.mtu
  if c.mtu < physicalClearMtu then c.mtu else physicalClearMtu

def supportsGeneralLinks (c : InterfaceConfig) : Bool := decide (c.clearMtu ≥ ReticulumLite.mtu)

def wireMtu (c : InterfaceConfig) : Nat := c.clearMtu + ifacSize c.ifac

def validate (c : InterfaceConfig) (totalQueueDepth : Nat) : Except ConfigError Unit := do
  match c.ifac with
  | some ifac => ifac.validate
  | none => pure ()
  refuseIf (c.mtu < headerMinsize ∨ c.mtu > ReticulumLite.mtu) .invalidInterfaceMtu
  refuseIf (c.txQueueDepth = 0 ∨ c.txQueueDepth > totalQueueDepth) .invalidInterfaceQueueDepth
  c.direction.validate

/-- What validation establishes. -/
structure Valid (c : InterfaceConfig) (totalQueueDepth : Nat) : Prop where
  ifac : ∀ i, c.ifac = some i → i.size.toNat ≠ 0 ∧ i.size.toNat ≤ 64
  mtu_ge : headerMinsize ≤ c.mtu
  mtu_le : c.mtu ≤ ReticulumLite.mtu
  depth_pos : 0 < c.txQueueDepth
  depth_le : c.txQueueDepth ≤ totalQueueDepth
  outbound : c.direction.forward = true ∨ c.direction.repeating = true →
    c.direction.outbound = true

theorem valid_of_validate {c : InterfaceConfig} {depth : Nat} {u : Unit}
    (h : c.validate depth = .ok u) : c.Valid depth := by
  have hdir : ∀ u' : Unit, c.direction.validate = .ok u' →
      c.direction.forward = true ∨ c.direction.repeating = true → c.direction.outbound = true := by
    intro u' hd
    simp only [InterfaceDirection.validate, bind_eq_ok, refuseIf_eq_ok] at hd
    obtain ⟨_, _, hd⟩ := hd
    simpa using hd
  unfold validate at h
  cases hifac : c.ifac with
  | none =>
      simp only [hifac, bind_eq_ok, refuseIf_eq_ok] at h
      obtain ⟨_, hmtu, _, hdepth, hd⟩ := h
      exact ⟨by simp [hifac], by omega, by omega, by omega, by omega, hdir _ hd⟩
  | some i =>
      simp only [hifac, bind_eq_ok, IfacConfig.validate, refuseIf_eq_ok] at h
      obtain ⟨_, hsize, _, hmtu, _, hdepth, hd⟩ := h
      rw [← UInt8.toNat_inj] at hsize
      refine ⟨?_, by omega, by omega, by omega, by omega, hdir _ hd⟩
      intro i' hi'
      rw [hifac] at hi'
      obtain rfl := Option.some.inj hi'
      exact ⟨fun h0 => hsize (.inl h0), not_lt.mp fun h64 => hsize (.inr h64)⟩

theorem clearMtu_le (c : InterfaceConfig) : c.clearMtu ≤ c.mtu := by
  unfold clearMtu
  generalize (match c.role with
    | .loRa => loraSplitFramePayloadMax - ifacSize c.ifac
    | _ => c.mtu) = physical
  simp only
  split <;> omega

end InterfaceConfig

/-! ### The registry -/

abbrev maxInterfaces : Nat := 8

/-- The interfaces of a router; an interface keeps its slot while it is registered. -/
abbrev InterfaceRegistry := Slots InterfaceConfig maxInterfaces

namespace InterfaceRegistry

def new : InterfaceRegistry := Slots.empty

def interfaces (r : InterfaceRegistry) : List InterfaceConfig :=
  (List.finRange maxInterfaces).filterMap r.get

def slotOf (r : InterfaceRegistry) (id : InterfaceId) : Option (Fin maxInterfaces) :=
  r.indexOf fun c => c.id = id

def lookup (r : InterfaceRegistry) (id : InterfaceId) : Option InterfaceConfig :=
  r.find fun c => c.id = id

def register (r : InterfaceRegistry) (interface : InterfaceConfig) :
    Except ConfigError InterfaceRegistry :=
  if (lookup r interface.id).isSome then .error .duplicateInterfaceId
  else match r.free with
  | none => .error .interfaceRegistryFull
  | some slot => .ok (r.put slot (some interface))

def setOnline (r : InterfaceRegistry) (id : InterfaceId) (online : Bool) :
    Except ConfigError InterfaceRegistry :=
  match slotOf r id with
  | none => .error .unknownInterface
  | some slot => .ok (r.put slot ((r.get slot).map fun c => { c with online }))

def unregister (r : InterfaceRegistry) (id : InterfaceId) :
    Except ConfigError (InterfaceRegistry × InterfaceConfig) :=
  match slotOf r id with
  | none => .error .unknownInterface
  | some slot =>
      match r.get slot with
      | none => .error .unknownInterface
      | some interface => .ok (r.put slot none, interface)

def validate (r : InterfaceRegistry) (totalQueueDepth : Nat) : Except ConfigError Unit :=
  (List.finRange maxInterfaces).forM fun i =>
    match r.get i with
    | none => .ok ()
    | some interface => do
        interface.validate totalQueueDepth
        refuseIf (∃ j : Fin maxInterfaces, i < j ∧ ∃ other ∈ r.get j, other.id = interface.id)
          .duplicateInterfaceId

def Distinct (r : InterfaceRegistry) : Prop :=
  ∀ i j c c', r.get i = some c → r.get j = some c' → c.id = c'.id → i = j

/-- What a registry keeps to: every interface is valid, and no id is used twice. -/
structure Valid (r : InterfaceRegistry) (totalQueueDepth : Nat) : Prop where
  interfaces : ∀ i c, r.get i = some c → c.Valid totalQueueDepth
  distinct : r.Distinct

theorem valid_of_validate {r : InterfaceRegistry} {depth : Nat} {u : Unit}
    (h : validate r depth = .ok u) : Valid r depth := by
  have hslot : ∀ i c, r.get i = some c → c.Valid depth ∧
      ∀ j, i < j → ∀ other, r.get j = some other → other.id ≠ c.id := by
    intro i c hi
    have := forM_eq_ok.mp h i (List.mem_finRange i)
    simp only [hi, bind_eq_ok, refuseIf_eq_ok, Option.mem_def, not_exists, not_and] at this
    obtain ⟨_, hvalid, hdup⟩ := this
    exact ⟨InterfaceConfig.valid_of_validate hvalid, hdup⟩
  refine ⟨fun i c hi => (hslot i c hi).1, fun i j c c' hi hj hid => ?_⟩
  rcases lt_trichotomy i j with hij | hij | hij
  · exact absurd hid.symm ((hslot i c hi).2 j hij c' hj)
  · exact hij
  · exact absurd hid ((hslot j c' hj).2 i hij c hi)

end InterfaceRegistry

/-! ### Node limits -/

structure AnnounceAdmissionConfig where
  steadyPerSec : Nat
  gracePerSec : Nat
  graceSecs : Nat
  deriving DecidableEq

structure TableCaps where
  pathEntries : Nat
  announceEntries : Nat
  reverseEntries : Nat
  linkEntries : Nat
  packetHashes : Nat
  pathRequestTags : Nat
  queuedAnnouncesPerInterface : Nat
  txQueueDepth : Nat
  deriving DecidableEq

def TableCaps.validate (c : TableCaps) : Except ConfigError Unit := do
  refuseIf (c.pathEntries = 0) .emptyPathTable
  refuseIf (c.packetHashes = 0) .emptyHashTable
  refuseIf (c.txQueueDepth = 0) .emptyTxQueue

structure LiteConfig where
  mode : InterfaceMode
  tableCaps : TableCaps
  mtu : Nat
  mdu : Nat
  maxAnnounceAppData : Nat
  transportEnabled : Bool
  probeDestinationEnabled : Bool
  ifac : Option IfacConfig
  announceAdmission : AnnounceAdmissionConfig
  deriving DecidableEq

def LiteConfig.validate (c : LiteConfig) : Except ConfigError Unit := do
  match c.ifac with
  | some ifac => ifac.validate
  | none => pure ()
  refuseIf (c.mtu ≠ ReticulumLite.mtu) .unsupportedMtu
  refuseIf (c.mdu > c.mtu) .mduExceedsMtu
  c.tableCaps.validate

end ReticulumLite
