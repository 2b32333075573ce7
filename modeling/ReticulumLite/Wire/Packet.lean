import ReticulumLite.Crypto

/-!
# Packets on the wire

The two header forms, the flag byte, packet contexts, the bounded packet buffer, and the two digests
that name a packet and a link. A packet is a list of bytes; `PacketView.parse` splits it.
-/

namespace ReticulumLite

open Bounded

/-! ### Sizes -/

abbrev mtu : Nat := 500
abbrev headerMinsize : Nat := 19
abbrev headerMaxsize : Nat := 35
abbrev mdu : Nat := 464
abbrev transportIdLength : Nat := 16
abbrev signatureLength : Nat := 64
/-- Room for a full packet and the longest access tag. -/
abbrev wireMtuMax : Nat := mtu + signatureLength

/-! ### Flags and contexts -/

inductive PacketType
  | data | announce | linkRequest | proof
  deriving DecidableEq

def PacketType.toByte : PacketType → UInt8
  | .data => 0x00
  | .announce => 0x01
  | .linkRequest => 0x02
  | .proof => 0x03

inductive DestinationType
  | single | group | plain | link
  deriving DecidableEq

def DestinationType.toByte : DestinationType → UInt8
  | .single => 0x00
  | .group => 0x01
  | .plain => 0x02
  | .link => 0x03

inductive HeaderType
  | header1 | header2
  deriving DecidableEq

def HeaderType.toByte : HeaderType → UInt8
  | .header1 => 0x00
  | .header2 => 0x01

inductive TransportType
  | broadcast | transport
  deriving DecidableEq

def TransportType.toByte : TransportType → UInt8
  | .broadcast => 0x00
  | .transport => 0x01

structure PacketFlags where
  headerType : HeaderType
  contextFlag : Bool
  transportType : TransportType
  destinationType : DestinationType
  packetType : PacketType
  deriving DecidableEq

def PacketFlags.pack (f : PacketFlags) : UInt8 :=
  (f.headerType.toByte <<< 6) ||| (f.contextFlag.toUInt8 <<< 5) |||
    (f.transportType.toByte <<< 4) ||| (f.destinationType.toByte <<< 2) ||| f.packetType.toByte

def PacketFlags.unpack (byte : UInt8) : PacketFlags where
  headerType := if byte &&& 0b01000000 = 0 then .header1 else .header2
  transportType := if byte &&& 0b00010000 = 0 then .broadcast else .transport
  destinationType :=
    match (byte &&& 0b00001100) >>> 2 with
    | 0 => .single
    | 1 => .group
    | 2 => .plain
    | _ => .link
  packetType :=
    match byte &&& 0b00000011 with
    | 0 => .data
    | 1 => .announce
    | 2 => .linkRequest
    | _ => .proof
  contextFlag := decide (byte &&& 0b00100000 ≠ 0)

@[simp] theorem PacketFlags.unpack_pack (f : PacketFlags) : unpack f.pack = f := by
  obtain ⟨headerType, contextFlag, transportType, destinationType, packetType⟩ := f
  cases headerType <;> cases contextFlag <;> cases transportType <;> cases destinationType <;>
    cases packetType <;> rfl

/-- The bits of the flag byte that the packet digests keep name the two types only. -/
theorem PacketFlags.pack_and_low (f : PacketFlags) :
    f.pack &&& (0x0F : UInt8) = (f.destinationType.toByte <<< 2) ||| f.packetType.toByte := by
  obtain ⟨headerType, contextFlag, transportType, destinationType, packetType⟩ := f
  cases headerType <;> cases contextFlag <;> cases transportType <;> cases destinationType <;>
    cases packetType <;> rfl

/-- Packing what a byte unpacks to forgets only the access flag. -/
theorem PacketFlags.pack_unpack (byte : UInt8) : (unpack byte).pack = byte &&& 0x7F := by
  revert byte
  exact forall_byte (by decide +kernel)

theorem PacketFlags.low_unpack (byte : UInt8) : (unpack byte).pack &&& (0x0F : UInt8) = byte &&& 0x0F := by
  revert byte
  exact forall_byte (by decide +kernel)

inductive PacketContext
  | none | resource | resourceAdv | resourceReq | resourceHmu | resourcePrf | resourceIcl
  | resourceRcl | cacheRequest | request | response | pathResponse | command | commandStatus
  | channel | keepalive | linkIdentify | linkClose | linkProof | lrrtt | lrproof
  | unknown (byte : UInt8)
  deriving DecidableEq

namespace PacketContext

def fromByte (byte : UInt8) : PacketContext :=
  match byte with
  | 0x00 => .none
  | 0x01 => .resource
  | 0x02 => .resourceAdv
  | 0x03 => .resourceReq
  | 0x04 => .resourceHmu
  | 0x05 => .resourcePrf
  | 0x06 => .resourceIcl
  | 0x07 => .resourceRcl
  | 0x08 => .cacheRequest
  | 0x09 => .request
  | 0x0A => .response
  | 0x0B => .pathResponse
  | 0x0C => .command
  | 0x0D => .commandStatus
  | 0x0E => .channel
  | 0xFA => .keepalive
  | 0xFB => .linkIdentify
  | 0xFC => .linkClose
  | 0xFD => .linkProof
  | 0xFE => .lrrtt
  | 0xFF => .lrproof
  | other => .unknown other

def toByte : PacketContext → UInt8
  | .none => 0x00
  | .resource => 0x01
  | .resourceAdv => 0x02
  | .resourceReq => 0x03
  | .resourceHmu => 0x04
  | .resourcePrf => 0x05
  | .resourceIcl => 0x06
  | .resourceRcl => 0x07
  | .cacheRequest => 0x08
  | .request => 0x09
  | .response => 0x0A
  | .pathResponse => 0x0B
  | .command => 0x0C
  | .commandStatus => 0x0D
  | .channel => 0x0E
  | .keepalive => 0xFA
  | .linkIdentify => 0xFB
  | .linkClose => 0xFC
  | .linkProof => 0xFD
  | .lrrtt => 0xFE
  | .lrproof => 0xFF
  | .unknown byte => byte

/-- Contexts whose packets may repeat and are never entered in the hash list. -/
def skipHashlist : PacketContext → Bool
  | .resource | .resourceReq | .resourcePrf | .cacheRequest | .channel | .keepalive => true
  | _ => false

@[simp] theorem toByte_fromByte (byte : UInt8) : (fromByte byte).toByte = byte := by
  revert byte
  exact forall_byte (by decide +kernel)

theorem fromByte_toByte {c : PacketContext} (h : ∀ b, c ≠ .unknown b) :
    fromByte c.toByte = c := by
  cases c with
  | unknown b => exact absurd rfl (h b)
  | _ => rfl

end PacketContext

/-! ### The packet buffer -/

inductive BufferError
  | insufficientCapacity
  deriving DecidableEq

/-- Packet storage of fixed capacity; only the visible bytes are kept. -/
structure PacketBuffer (cap : Nat) where
  bytes : List UInt8
  length_le : bytes.length ≤ cap
  deriving DecidableEq

namespace PacketBuffer

variable {cap : Nat}

def new : PacketBuffer cap := ⟨[], Nat.zero_le _⟩

def len (b : PacketBuffer cap) : Nat := b.bytes.length

def extendFromSlice (b : PacketBuffer cap) (data : List UInt8) :
    Except BufferError (PacketBuffer cap) :=
  if h : b.bytes.length + data.length ≤ cap then
    .ok ⟨b.bytes ++ data, by rw [List.length_append]; exact h⟩
  else .error .insufficientCapacity

def push (b : PacketBuffer cap) (byte : UInt8) : Except BufferError (PacketBuffer cap) :=
  if h : b.bytes.length = cap then .error .insufficientCapacity
  else .ok ⟨b.bytes ++ [byte], by
    have := b.length_le
    rw [List.length_append, List.length_singleton]
    omega⟩

def fromSlice (data : List UInt8) : Except BufferError (PacketBuffer cap) :=
  (new : PacketBuffer cap).extendFromSlice data

def copyWithHops (b : PacketBuffer cap) (hops : UInt8) : PacketBuffer cap :=
  ⟨b.bytes.set 1 hops, by rw [List.length_set]; exact b.length_le⟩

def setLen (b : PacketBuffer cap) (len : Nat) : PacketBuffer cap :=
  ⟨b.bytes.take len, (List.length_take_le' len b.bytes).trans b.length_le⟩

@[ext] theorem ext_bytes {a b : PacketBuffer cap} (h : a.bytes = b.bytes) : a = b := by
  cases a
  cases b
  simpa using h

theorem push_eq_extendFromSlice (b : PacketBuffer cap) (byte : UInt8) :
    b.push byte = b.extendFromSlice [byte] := by
  have := b.length_le
  unfold push extendFromSlice
  by_cases h : b.bytes.length = cap
  · rw [dif_pos h, dif_neg (by simp [h])]
  · rw [dif_neg h, dif_pos (by rw [List.length_singleton]; omega)]

theorem extendFromSlice_bind (b : PacketBuffer cap) (xs ys : List UInt8) :
    (b.extendFromSlice xs >>= fun c => c.extendFromSlice ys) = b.extendFromSlice (xs ++ ys) := by
  unfold extendFromSlice
  by_cases hx : b.bytes.length + xs.length ≤ cap
  · rw [dif_pos hx]
    simp only [bind, Except.bind, List.length_append, ← Nat.add_assoc, List.append_assoc]
  · rw [dif_neg hx, dif_neg (by rw [List.length_append]; omega)]
    rfl

theorem fromSlice_of_le {data : List UInt8} (h : data.length ≤ cap) :
    (fromSlice data : Except BufferError (PacketBuffer cap)) = .ok ⟨data, h⟩ := by
  unfold fromSlice extendFromSlice new
  rw [dif_pos (by simpa using h)]
  rfl

theorem extendFromSlice_eq_ok {b c : PacketBuffer cap} {data : List UInt8} :
    b.extendFromSlice data = .ok c ↔ c.bytes = b.bytes ++ data := by
  unfold extendFromSlice
  constructor
  · intro h
    split_ifs at h
    cases h
    rfl
  · intro h
    have hfits : b.bytes.length + data.length ≤ cap := by
      rw [← List.length_append, ← h]
      exact c.length_le
    rw [dif_pos hfits]
    exact congrArg Except.ok (ext_bytes h.symm)

theorem fromSlice_eq_ok {data : List UInt8} {b : PacketBuffer cap} :
    fromSlice data = .ok b ↔ b.bytes = data :=
  extendFromSlice_eq_ok

end PacketBuffer

/-! ### Headers -/

inductive WireError
  | tooShort
  | exceedsMtu
  | buffer (e : BufferError)
  deriving DecidableEq

structure PacketHeader where
  flags : PacketFlags
  hops : UInt8
  transportId : Option (Bytes 16)
  destinationHash : Bytes 16
  context : PacketContext
  deriving DecidableEq

def HeaderType.size : HeaderType → Nat
  | .header1 => headerMinsize
  | .header2 => headerMaxsize

namespace PacketHeader

def size (h : PacketHeader) : Nat := h.flags.headerType.size

def parse (raw : List UInt8) : Except WireError (PacketHeader × Nat) :=
  if raw.length < headerMinsize then .error .tooShort
  else if raw.length > mtu then .error .exceedsMtu
  else
    let flags := PacketFlags.unpack (byteAt raw 0)
    let hops := byteAt raw 1
    match flags.headerType with
    | .header1 =>
        .ok ({ flags, hops, transportId := none, destinationHash := Bytes.slice 16 raw 2,
               context := .fromByte (byteAt raw 18) }, headerMinsize)
    | .header2 =>
        if raw.length < headerMaxsize then .error .tooShort
        else
          .ok ({ flags, hops, transportId := some (Bytes.slice 16 raw 2),
                 destinationHash := Bytes.slice 16 raw 18,
                 context := .fromByte (byteAt raw 34) }, headerMaxsize)

def writeInto (h : PacketHeader) (out : PacketBuffer mtu) :
    Except BufferError (PacketBuffer mtu) := do
  let out ← out.push h.flags.pack
  let out ← out.push h.hops
  let out ← match h.transportId with
    | some transportId => out.extendFromSlice transportId.toList
    | none => pure out
  let out ← out.extendFromSlice h.destinationHash.toList
  out.push h.context.toByte

def transportBytes (h : PacketHeader) : List UInt8 :=
  match h.transportId with
  | some transportId => transportId.toList
  | none => []

def bytes (h : PacketHeader) : List UInt8 :=
  [h.flags.pack, h.hops] ++ h.transportBytes ++ h.destinationHash.toList ++ [h.context.toByte]

/-- What the digests read of a header: neither its form, nor its transport id, nor its hops. -/
def hashed (h : PacketHeader) : List UInt8 :=
  [(h.flags.destinationType.toByte <<< 2) ||| h.flags.packetType.toByte] ++
    h.destinationHash.toList ++ [h.context.toByte]

/-- The headers that parsing yields: the form says whether there is a transport id, and the context
is the one its byte stands for. -/
structure Coherent (h : PacketHeader) : Prop where
  form : h.flags.headerType = if h.transportId.isSome then .header2 else .header1
  context : PacketContext.fromByte h.context.toByte = h.context

end PacketHeader

structure PacketView where
  header : PacketHeader
  payload : List UInt8
  raw : List UInt8
  payloadOffset : Nat
  deriving DecidableEq

def PacketView.parse (raw : List UInt8) : Except WireError PacketView := do
  let (header, payloadOffset) ← PacketHeader.parse raw
  return { header, payload := raw.drop payloadOffset, raw, payloadOffset }

def buildPacket (header : PacketHeader) (payload : List UInt8) :
    Except WireError (PacketBuffer mtu) := do
  let out ← (header.writeInto .new).mapError .buffer
  (out.extendFromSlice payload).mapError .buffer

def rewriteWithHeader (raw : List UInt8) (oldHeader newHeader : PacketHeader) :
    Except WireError (PacketBuffer mtu) :=
  let payloadOffset := oldHeader.size
  if raw.length < payloadOffset then .error .tooShort
  else buildPacket newHeader (raw.drop payloadOffset)

/-! ### Digests -/

section Digests

variable [Crypto]

def packetHash (raw : List UInt8) (headerType : HeaderType) : Bytes 32 :=
  if raw.isEmpty then Bytes.zero
  else
    let skip := match headerType with
      | .header1 => 2
      | .header2 => 2 + transportIdLength
    sha256 ([byteAt raw 0 &&& 0x0F] ++ if raw.length > skip then raw.drop skip else [])

def truncatedPacketHash (raw : List UInt8) (headerType : HeaderType) : Bytes 16 :=
  Bytes.slice 16 (packetHash raw headerType).toList 0

/-- The digest of a link request: its signalling suffix is left out, so that a relay may drop it. -/
def linkIdFromRaw (raw : List UInt8) (headerType : HeaderType) : Bytes 16 :=
  if raw.isEmpty then Bytes.zero
  else
    let keyed := match headerType with
      | .header1 =>
          if raw.length > 2 then
            let headerEnd := min headerMinsize raw.length
            (raw.take headerEnd).drop 2 ++ (raw.drop headerEnd).take 64
          else []
      | .header2 =>
          if raw.length > 2 + transportIdLength then
            let headerEnd := min headerMaxsize raw.length
            (raw.take headerEnd).drop (2 + transportIdLength) ++ (raw.drop headerEnd).take 64
          else []
    truncatedHash ([byteAt raw 0 &&& 0x0F] ++ keyed)

end Digests

/-! ### Parsing and writing -/

namespace PacketHeader

theorem length_bytes (h : PacketHeader) :
    h.bytes.length = 19 + if h.transportId.isSome then 16 else 0 := by
  unfold bytes transportBytes
  cases h.transportId <;> simp

theorem Coherent.length_bytes {h : PacketHeader} (hc : h.Coherent) : h.bytes.length = h.size := by
  rw [PacketHeader.length_bytes, size, hc.form]
  split <;> rfl

theorem writeInto_eq (h : PacketHeader) (out : PacketBuffer mtu) :
    h.writeInto out = out.extendFromSlice h.bytes := by
  unfold writeInto bytes transportBytes
  cases h.transportId <;>
    simp only [PacketBuffer.push_eq_extendFromSlice, pure_bind, List.append_nil,
      PacketBuffer.extendFromSlice_bind,
      List.append_assoc, List.cons_append, List.nil_append]

theorem Coherent.parse_append {h : PacketHeader} (hc : h.Coherent) {payload : List UInt8}
    (hlen : (h.bytes ++ payload).length ≤ mtu) : parse (h.bytes ++ payload) = .ok (h, h.size) := by
  obtain ⟨flags, hops, transportId, destinationHash, context⟩ := h
  have hform := hc.form
  have hcontext := hc.context
  have hge : 19 ≤ (PacketHeader.mk flags hops transportId destinationHash context).bytes.length := by
    rw [PacketHeader.length_bytes]
    omega
  rw [List.length_append] at hlen
  simp only [mtu] at hlen
  unfold parse
  rw [if_neg (by rw [List.length_append]; simp only [headerMinsize]; omega),
    if_neg (by rw [List.length_append]; simp only [mtu]; omega)]
  cases transportId with
  | none =>
      simp only [Option.isSome_none, Bool.false_eq_true, if_false] at hform
      have hdest : Bytes.slice 16 (destinationHash.toList ++ context.toByte :: payload) 0 =
          destinationHash := Bytes.slice_toList_append _ _
      have hctx : byteAt (destinationHash.toList ++ context.toByte :: payload) 16 =
          context.toByte := by
        rw [byteAt_append_right (by simp)]
        simp
      simp only [bytes, transportBytes, List.append_nil, List.append_assoc, List.cons_append,
        List.nil_append, byteAt_cons_zero, byteAt_cons_succ, PacketFlags.unpack_pack, hform,
        Bytes.slice_cons, hdest, hctx, hcontext, size, HeaderType.size]
  | some transportId =>
      simp only [Option.isSome_some, if_true] at hform
      have hid : Bytes.slice 16
          (transportId.toList ++ (destinationHash.toList ++ context.toByte :: payload)) 0 =
          transportId := Bytes.slice_toList_append _ _
      have hdest : Bytes.slice 16
          (transportId.toList ++ (destinationHash.toList ++ context.toByte :: payload)) 16 =
          destinationHash := by
        rw [Bytes.slice_append_right (by simp)]
        simpa using Bytes.slice_toList_append destinationHash (context.toByte :: payload)
      have hctx : byteAt
          (transportId.toList ++ (destinationHash.toList ++ context.toByte :: payload)) 32 =
          context.toByte := by
        rw [byteAt_append_right (by simp), byteAt_append_right (by simp)]
        simp
      simp only [bytes, transportBytes, List.append_assoc, List.cons_append,
        List.nil_append, byteAt_cons_zero, byteAt_cons_succ, PacketFlags.unpack_pack, hform,
        Bytes.slice_cons, hid, hdest, hctx, hcontext, size, HeaderType.size]
      rw [if_neg]
      simp only [headerMaxsize, List.length_cons, List.length_append, Bytes.length_toList]
      omega

/-- What a successful parse says of the bytes. -/
structure Parses (raw : List UInt8) (h : PacketHeader) (offset : Nat) : Prop where
  offset_eq : offset = h.size
  length_le : raw.length ≤ mtu
  offset_le : offset ≤ raw.length
  flags_eq : h.flags = PacketFlags.unpack (byteAt raw 0)
  hops_eq : h.hops = byteAt raw 1
  coherent : h.Coherent
  rest_eq : raw.drop 2 =
    h.transportBytes ++ h.destinationHash.toList ++ [h.context.toByte] ++ raw.drop offset

theorem parses_of_parse {raw : List UInt8} {h : PacketHeader} {offset : Nat}
    (hp : parse raw = .ok (h, offset)) : Parses raw h offset := by
  unfold parse at hp
  simp only [headerMinsize, mtu, headerMaxsize] at hp
  by_cases hmin : raw.length < 19
  · simp [hmin] at hp
  by_cases hmax : raw.length > 500
  · simp [hmin, hmax] at hp
  rw [if_neg hmin, if_neg hmax] at hp
  cases hform : (PacketFlags.unpack (byteAt raw 0)).headerType with
  | header1 =>
      simp only [hform, Except.ok.injEq, Prod.mk.injEq] at hp
      obtain ⟨rfl, rfl⟩ := hp
      refine ⟨by simp [size, hform, HeaderType.size], by simp only [mtu]; omega, by omega, rfl, rfl,
        ⟨by simp [hform], by simp⟩, ?_⟩
      rw [@Bytes.drop_eq_slice_append 16 raw 2 (by omega),
        drop_eq_byteAt_cons (show 2 + 16 < raw.length by omega)]
      simp [transportBytes]
  | header2 =>
      by_cases hlong : raw.length < 35
      · simp [hform, hlong] at hp
      simp only [hform, hlong, if_false, Except.ok.injEq, Prod.mk.injEq] at hp
      obtain ⟨rfl, rfl⟩ := hp
      refine ⟨by simp [size, hform, HeaderType.size], by simp only [mtu]; omega, by omega, rfl, rfl,
        ⟨by simp [hform], by simp⟩, ?_⟩
      rw [@Bytes.drop_eq_slice_append 16 raw 2 (by omega),
        @Bytes.drop_eq_slice_append 16 raw (2 + 16) (by omega),
        drop_eq_byteAt_cons (show 2 + 16 + 16 < raw.length by omega)]
      simp [transportBytes]

theorem length_transportBytes (h : PacketHeader) :
    h.transportBytes.length = if h.transportId.isSome then 16 else 0 := by
  unfold transportBytes
  cases h.transportId <;> simp

end PacketHeader

theorem PacketView.parse_eq_ok {raw : List UInt8} {v : PacketView}
    (h : PacketView.parse raw = .ok v) :
    v.raw = raw ∧ v.payload = raw.drop v.payloadOffset ∧
      PacketHeader.Parses raw v.header v.payloadOffset := by
  cases hp : PacketHeader.parse raw with
  | error e => simp [PacketView.parse, hp, bind, Except.bind] at h
  | ok r =>
      simp only [PacketView.parse, hp, bind, Except.bind, pure, Except.pure,
        Except.ok.injEq] at h
      subst h
      exact ⟨rfl, rfl, PacketHeader.parses_of_parse hp⟩

theorem PacketView.parse_of_header {h : PacketHeader} (hc : h.Coherent) {payload : List UInt8}
    (hlen : (h.bytes ++ payload).length ≤ mtu) :
    PacketView.parse (h.bytes ++ payload) =
      .ok ⟨h, payload, h.bytes ++ payload, h.size⟩ := by
  simp [PacketView.parse, hc.parse_append hlen, bind, Except.bind, pure, Except.pure,
    ← hc.length_bytes]

theorem buildPacket_eq (header : PacketHeader) (payload : List UInt8) :
    buildPacket header payload =
      (PacketBuffer.fromSlice (header.bytes ++ payload)).mapError .buffer := by
  unfold buildPacket PacketBuffer.fromSlice
  rw [PacketHeader.writeInto_eq, ← PacketBuffer.extendFromSlice_bind]
  cases PacketBuffer.new.extendFromSlice header.bytes <;> rfl

theorem buildPacket_eq_ok {header : PacketHeader} {payload : List UInt8} {b : PacketBuffer mtu} :
    buildPacket header payload = .ok b ↔ b.bytes = header.bytes ++ payload := by
  rw [buildPacket_eq, ← PacketBuffer.fromSlice_eq_ok]
  cases PacketBuffer.fromSlice (header.bytes ++ payload) <;> simp [Except.mapError]

theorem rewriteWithHeader_eq_ok {raw : List UInt8} {old new : PacketHeader}
    {b : PacketBuffer mtu} : rewriteWithHeader raw old new = .ok b ↔
      old.size ≤ raw.length ∧ b.bytes = new.bytes ++ raw.drop old.size := by
  unfold rewriteWithHeader
  by_cases h : raw.length < old.size
  · simp [h]
  · rw [if_neg h, buildPacket_eq_ok]
    exact ⟨fun hb => ⟨by omega, hb⟩, fun hb => hb.2⟩

/-! ### The digests do not see the header form -/

section Digests

variable {raw : List UInt8} {h : PacketHeader} {offset : Nat}

theorem PacketHeader.Parses.low_byte (hp : PacketHeader.Parses raw h offset) :
    byteAt raw 0 &&& (0x0F : UInt8) =
      (h.flags.destinationType.toByte <<< 2) ||| h.flags.packetType.toByte := by
  rw [← PacketFlags.low_unpack, ← hp.flags_eq, PacketFlags.pack_and_low]

theorem PacketHeader.Parses.size_le (hp : PacketHeader.Parses raw h offset) :
    h.size ≤ raw.length := hp.offset_eq ▸ hp.offset_le

theorem PacketHeader.Parses.drop_eq (hp : PacketHeader.Parses raw h offset) :
    raw.drop (h.size - 17) =
      h.destinationHash.toList ++ [h.context.toByte] ++ raw.drop offset := by
  have hsize : h.size - 17 = 2 + h.transportBytes.length := by
    rw [h.length_transportBytes, size, hp.coherent.form]
    split <;> rfl
  rw [hsize, ← List.drop_drop, hp.rest_eq, List.append_assoc, List.append_assoc,
    List.drop_append_of_le_length le_rfl, List.drop_length, List.nil_append, List.append_assoc]

theorem PacketHeader.size_eq (h : PacketHeader) : h.size = 19 ∨ h.size = 35 := by
  unfold size HeaderType.size
  cases h.flags.headerType <;> simp

variable [Crypto]

theorem packetHash_of_parses (hp : PacketHeader.Parses raw h offset) :
    packetHash raw h.flags.headerType = sha256 (h.hashed ++ raw.drop offset) := by
  have hlen := hp.size_le
  have hne : raw ≠ [] := by
    rintro rfl
    rcases h.size_eq with hs | hs <;> simp [hs] at hlen
  have hskip : (match h.flags.headerType with
      | .header1 => 2
      | .header2 => 2 + transportIdLength) = h.size - 17 := by
    unfold PacketHeader.size HeaderType.size
    cases h.flags.headerType <;> rfl
  unfold packetHash
  rw [if_neg (by simpa using hne)]
  simp only [hskip]
  rw [if_pos (by rcases h.size_eq with hs | hs <;> omega), hp.low_byte, hp.drop_eq]
  simp [PacketHeader.hashed]

end Digests

/-! ### Another hop count -/

theorem byteAt_set_zero (raw : List UInt8) (hops : UInt8) : byteAt (raw.set 1 hops) 0 = byteAt raw 0 := by
  cases raw <;> rfl

theorem slice_set_hops (n : Nat) (raw : List UInt8) (hops : UInt8) (start : Nat) :
    Bytes.slice n (raw.set 1 hops) (start + 2) = Bytes.slice n raw (start + 2) := by
  cases raw with
  | nil => rfl
  | cons a raw => cases raw <;> rfl

theorem byteAt_set_hops (raw : List UInt8) (hops : UInt8) (i : Nat) :
    byteAt (raw.set 1 hops) (i + 2) = byteAt raw (i + 2) := by
  cases raw with
  | nil => rfl
  | cons a raw => cases raw <;> rfl

theorem PacketView.parse_set_hops {raw : List UInt8} {view : PacketView}
    (h : PacketView.parse raw = .ok view) (hops : UInt8) :
    PacketView.parse (raw.set 1 hops) =
      .ok { view with header := { view.header with hops }, raw := raw.set 1 hops } := by
  have hone : 1 < raw.length := by
    have hparses := (PacketView.parse_eq_ok h).2.2
    have hsize := hparses.size_le
    rcases view.header.size_eq with hs | hs <;> omega
  have hbyte : byteAt (raw.set 1 hops) 1 = hops := by simp [byteAt, hone]
  have hheader : PacketHeader.parse (raw.set 1 hops) =
      (PacketHeader.parse raw).map fun r => ({ r.1 with hops }, r.2) := by
    have htwo := slice_set_hops 16 raw hops 0
    have hcontext := byteAt_set_hops raw hops 16
    have hdest := slice_set_hops 16 raw hops 16
    have hcontext' := byteAt_set_hops raw hops 32
    simp only [Nat.zero_add, Nat.reduceAdd] at htwo hcontext hdest hcontext'
    unfold PacketHeader.parse
    rw [List.length_set, byteAt_set_zero, hbyte, htwo, hcontext, hdest, hcontext']
    split
    · rfl
    split
    · rfl
    cases hform : (PacketFlags.unpack (byteAt raw 0)).headerType with
    | header1 => simp only [hform, Except.map]
    | header2 =>
        simp only [hform]
        split <;> rfl
  obtain ⟨_, hpayload, hparses⟩ := PacketView.parse_eq_ok h
  cases hp : PacketHeader.parse raw with
  | error e => simp [PacketView.parse, hp, bind, Except.bind] at h
  | ok r =>
      simp only [PacketView.parse, hp, bind, Except.bind, pure, Except.pure, Except.ok.injEq] at h
      subst h
      have hoffset : 1 < r.2 := by
        have := hparses.offset_eq
        rcases r.1.size_eq with hs | hs <;> simp only at this <;> omega
      simp [PacketView.parse, hheader, hp, bind, Except.bind, pure, Except.pure, Except.map,
        List.drop_set_of_lt hoffset]

section

variable [Crypto] {raw raw' : List UInt8} {view view' : PacketView}

theorem packetHash_of_parse (h : PacketView.parse raw = .ok view) :
    packetHash raw view.header.flags.headerType = sha256 (view.header.hashed ++ view.payload) := by
  obtain ⟨_, hpayload, hparses⟩ := PacketView.parse_eq_ok h
  rw [packetHash_of_parses hparses, hpayload]

theorem packetHash_congr (h : PacketView.parse raw = .ok view)
    (h' : PacketView.parse raw' = .ok view') (hheader : view'.header.hashed = view.header.hashed)
    (hpayload : view'.payload = view.payload) :
    packetHash raw' view'.header.flags.headerType = packetHash raw view.header.flags.headerType := by
  rw [packetHash_of_parse h', packetHash_of_parse h, hheader, hpayload]

end

end ReticulumLite
