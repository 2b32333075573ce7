import ReticulumLite.Proof.Cache

/-!
# Who is to blame for a packet that cannot be built

As long as every announce taken in leaves room for a transport id, an ingest that complains of a
packet or a buffer complains of the bytes it received. An announce without that room is cached all
the same, and a later path request for its destination is answered with an error.
-/

namespace ReticulumLite

open Bounded

namespace LiteNode

variable [Crypto] {K : Capacities} {m : Model} {s : LiteNode K m}

/-- In a run whose announces all leave room for a transport id, no packet that parses makes an ingest
complain of a packet or a buffer. -/
theorem wire_errors_blame_input {s₀ : LiteNode K m} {ops : List (Operation m)} (hfresh : s₀.Fresh)
    (hrun : Runs Operation.perform Operation.LeavesRoom s₀ ops s) {raw : List UInt8} {rx : RxMeta}
    (hclear : ∀ packet, s.unwrapFrame rx.interfaceId raw = some packet →
      ∃ view, PacketView.parse packet = .ok view)
    (nowMs : Nat) (localLink : Option Hash16) (endpoint : Option (PacketBuffer mtu)) :
    (∀ e, (s.ingestInner raw rx nowMs localLink endpoint).answer ≠ .error (.wire e)) ∧
      ∀ e, (s.ingestInner raw rx nowMs localLink endpoint).answer ≠ .error (.buffer e) := by
  have hexcused : Errors (Excused True) (s.ingestInner raw rx nowMs localLink endpoint).answer :=
    errors_ingestInner (fun _ => hclear) (fun _ => cacheRoomy_of_runs hfresh hrun) nowMs localLink
      endpoint
  exact ⟨fun e he => ((hexcused _ he).built trivial).1 e rfl,
    fun e he => ((hexcused _ he).built trivial).2 e rfl⟩

end LiteNode

/-! ### The room that an announce leaves -/

namespace KnownIdentity

/-- An announce with as much application data as a packet of 500 bytes takes. -/
def long : AnnounceView where
  publicKey := publicKey
  nameHash := Bytes.slice 10 nameDigest.toList 0
  randomHash := Bytes.ofNat 10 0xbcbcbcbcbcbcbcbcbcbc
  ratchet := none
  signature :=
    ⟨(Bytes.ofNat 32 0x21de9bba3c2405dfcafa2e2978091ad187d570a03dded9003154feb86793c453).toList ++
      (Bytes.ofNat 32 0xa5d4f752d590bb36e566f71eafec7f8b1d1dd34df3597624e398a5fec3fc2704).toList, by simp⟩
  appData := List.replicate 333 0x5a

def longDigest : Bytes 32 :=
  Bytes.ofNat 32 0xc45dcbb3aa99cd0546f9678ba4cf4e9ecb0d744c05d25a1311c23cbb2afd052a

/-- The primitives with the hash and the signature of the long announce. -/
@[reducible] def longCrypto : Crypto :=
  .known (digests ++
    [(pathRequestName, requestNameDigest),
     ((Bytes.slice 10 requestNameDigest.toList 0).toList, requestDigest),
     (requestHeader.hashed ++ requestPayload, requestPacketDigest),
     (hashed 0x01 0x00 long, longDigest)])
    ((Bytes.slice 32 publicKey.toList 32, long.signedData destination, long.signature) :: signatures)

end KnownIdentity

section Witness

open LiteNode

theorem wire_errors_blame_input_learnedEndpoint :
    letI := KnownIdentity.crypto
    let answer := (learnedEndpoint.ingestInner KnownIdentity.requestPacket ⟨2, some .gateway⟩ 2000
      none none).answer
    answer = .ok .answeredPathRequest ∧ (∀ e, answer ≠ .error (.wire e)) ∧
      ∀ e, answer ≠ .error (.buffer e) := by
  let _ := KnownIdentity.crypto
  refine ⟨by decide +kernel, wire_errors_blame_input fresh_smallEndpoint leavesRoom_hearsFirst ?_
    2000 none none⟩
  intro packet hpacket
  have hsame : KnownIdentity.requestPacket = packet :=
    Option.some.inj ((show learnedEndpoint.unwrapFrame 2 KnownIdentity.requestPacket =
      some KnownIdentity.requestPacket by decide +kernel).symm.trans hpacket)
  rw [← hsame]
  have hview : PacketView.parse KnownIdentity.requestPacket =
      .ok ⟨KnownIdentity.requestHeader, KnownIdentity.requestPayload, KnownIdentity.requestPacket,
        headerMinsize⟩ := by decide +kernel
  exact ⟨_, hview⟩

/-- A node that takes in as much application data as the profiles allow. -/
private def openEndpoint : LiteNode smallCapacities .endpoint :=
  newConst { smallConfig with maxAnnounceAppData := 333 } Bytes.zero

/-- The long announce is learned and cached without an error, and the request for its destination then
ends in one. -/
theorem cached_announce_blames_request :
    letI := KnownIdentity.longCrypto
    let heard := openEndpoint.ingest (KnownIdentity.packet 0x01 0x00 0x00 KnownIdentity.long) ⟨1, none⟩
      1000
    let asked := heard.node.ingest KnownIdentity.requestPacket ⟨2, some .gateway⟩ 2000
    heard.answer = .ok .learnedAnnounce ∧
      heard.node.unwrapFrame 2 KnownIdentity.requestPacket = some KnownIdentity.requestPacket ∧
      PacketView.parse KnownIdentity.requestPacket =
        .ok ⟨KnownIdentity.requestHeader, KnownIdentity.requestPayload, KnownIdentity.requestPacket,
          headerMinsize⟩ ∧
      asked.answer = .error (.wire (.buffer .insufficientCapacity)) := by
  decide +kernel

end Witness

end ReticulumLite
