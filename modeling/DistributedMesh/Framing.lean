import DistributedMesh.ByteFormats

namespace DistributedMesh.Framing

open ByteFormats

abbrev Bytes := List UInt8

def crockford : String := "0123456789abcdefghjkmnpqrstvwxyz"

/-- Twelve characters of the lowercase Crockford alphabet. -/
def canonical (value : String) : Bool := (value.toList.all fun c => crockford.toList.contains c) && value.utf8ByteSize == 12

/-- A minted id. -/
structure ProductId where
  value : String
  isCanonical : canonical value = true
deriving DecidableEq

namespace ProductId

def parse (value : String) : Option ProductId := if h : canonical value = true then some ⟨value, h⟩ else none

theorem parse_value (id : ProductId) : parse id.value = some id := by
  unfold parse
  rw [dif_pos id.isCanonical]

/-- An id is written as its string, and read as a string that is one. -/
def wire : Wire ProductId := Wire.string.map value parse parse_value

end ProductId

/-- A sending node's exact birth. -/
structure Birth where
  nodeId : ProductId
  incarnation : ProductId
deriving DecidableEq

structure DeliveryId where
  sender : Birth
  deliverySeq : UInt64
deriving DecidableEq

/-- The header every frame begins with. -/
inductive TransportHeader where
  | request (sender : Birth) (deliverySeq forgetBelow : UInt64)
  | response (sender : Birth) (deliverySeq forgetBelow : UInt64) (invocationId : DeliveryId) (seq : UInt32)
  | ack (sender : Birth) (deliverySeq : UInt64)
deriving DecidableEq

/-- What the receiver reads first, alone. -/
structure Target where
  nodeId : String
  op : UInt8
deriving DecidableEq

/-- The observability context one invocation carries. -/
structure CallContext where
  callerSystem : Option String
  traceparent : Option String
  tracestate : Option String
  baggage : Option String
deriving DecidableEq

structure RequestHeader where
  target : Target
  context : CallContext
deriving DecidableEq

section Postcard

def birthWire : Wire Birth :=
  (ProductId.wire.pair ProductId.wire).map (fun b => (b.nodeId, b.incarnation)) (fun p => some ⟨p.1, p.2⟩) fun _ => rfl

def deliveryWire : Wire DeliveryId :=
  (birthWire.pair .u64).map (fun d => (d.sender, d.deliverySeq)) (fun p => some ⟨p.1, p.2⟩) fun _ => rfl

def requestWire : Wire (Birth × UInt64 × UInt64) := birthWire.pair (Wire.u64.pair .u64)

def responseWire : Wire (Birth × UInt64 × UInt64 × DeliveryId × UInt32) :=
  birthWire.pair (Wire.u64.pair (Wire.u64.pair (deliveryWire.pair .u32)))

def ackWire : Wire (Birth × UInt64) := birthWire.pair .u64

/-- A kind is written by its position. -/
def headerWire : Wire TransportHeader where
  enc
    | .request s d f => Wire.u32.enc 0 ++ requestWire.enc (s, d, f)
    | .response s d f i n => Wire.u32.enc 1 ++ responseWire.enc (s, d, f, i, n)
    | .ack s d => Wire.u32.enc 2 ++ ackWire.enc (s, d)
  take l := (Wire.u32.take l).bind fun kind =>
    if kind.1 = 0 then (requestWire.take kind.2).map fun p => (.request p.1.1 p.1.2.1 p.1.2.2, p.2)
    else if kind.1 = 1 then
      (responseWire.take kind.2).map fun p => (.response p.1.1 p.1.2.1 p.1.2.2.1 p.1.2.2.2.1 p.1.2.2.2.2, p.2)
    else if kind.1 = 2 then (ackWire.take kind.2).map fun p => (.ack p.1.1 p.1.2, p.2)
    else none
  take_enc h rest hlen := by
    cases h with
    | request s d f =>
      rw [List.length_append] at hlen
      rw [List.append_assoc, Wire.u32.take_enc _ _ (by omega), Option.bind_some, if_pos rfl,
        requestWire.take_enc _ _ (by omega)]
      rfl
    | response s d f i n =>
      rw [List.length_append] at hlen
      rw [List.append_assoc, Wire.u32.take_enc _ _ (by omega), Option.bind_some, if_neg (by simp), if_pos rfl,
        responseWire.take_enc _ _ (by omega)]
      rfl
    | ack s d =>
      rw [List.length_append] at hlen
      rw [List.append_assoc, Wire.u32.take_enc _ _ (by omega), Option.bind_some, if_neg (by simp), if_neg (by simp),
        if_pos rfl, ackWire.take_enc _ _ (by omega)]
      rfl

def targetWire : Wire Target :=
  (Wire.string.pair .byte).map (fun t => (t.nodeId, t.op)) (fun p => some ⟨p.1, p.2⟩) fun _ => rfl

def contextWire : Wire CallContext :=
  (Wire.string.option.pair (Wire.string.option.pair (Wire.string.option.pair Wire.string.option))).map
    (fun c => (c.callerSystem, c.traceparent, c.tracestate, c.baggage)) (fun p => some ⟨p.1, p.2.1, p.2.2.1, p.2.2.2⟩)
    fun _ => rfl

end Postcard

/-- The largest encoded header a reader reads. -/
def maxHeaderBytes : Nat := 128

def maxTargetBytes : Nat := 256

def maxContextBytes : Nat := 12 * 1024

def maxVarintLen : Nat := 10

def encodeVarint (v : UInt64) : Bytes := encode maxVarintLen v.toNat

abbrev Varint := Reading

/-- A tenth byte of more than one bit overflows, and so does an eleventh byte. -/
def decodeVarint (b : Bytes) : Varint := readOn 1 maxVarintLen 0 0 b

def encodeHeader (h : TransportHeader) : Bytes :=
  let bytes := headerWire.enc h
  encodeVarint (UInt64.ofNat bytes.length) ++ bytes

def encodeRequest (header : RequestHeader) (payload : Bytes) : Bytes :=
  let target := targetWire.enc header.target
  let context := contextWire.enc header.context
  encodeVarint (UInt64.ofNat target.length) ++ target ++ encodeVarint (UInt64.ofNat context.length) ++ context ++
    encodeVarint (UInt64.ofNat payload.length) ++ payload

def encodeRequestFrame (h : TransportHeader) (header : RequestHeader) (payload : Bytes) : Bytes :=
  encodeHeader h ++ encodeRequest header payload

inductive Section where
  | needMore
  | bad
  /-- The section's bytes and where the next section starts. -/
  | read (bytes : Bytes) (next : Nat)
deriving DecidableEq

/-- One section starting at `start`, bounded by `max`. -/
def decodeSection (buf : Bytes) (start max : Nat) : Section :=
  if buf.length < start then .needMore
  else
    match decodeVarint (buf.drop start) with
    | .needMore => .needMore
    | .overflow => .bad
    | .complete value len =>
      if max < value then .bad
      else if buf.length < start + len + value then .needMore
      else .read ((buf.drop (start + len)).take value) (start + len + value)

/-- What reading a header section found. -/
inductive HeaderRead where
  | needMore
  | bad (reason : String)
  | read (header : TransportHeader) (taken : Nat)
deriving DecidableEq

def decodeHeader (buf : Bytes) : HeaderRead :=
  match decodeSection buf 0 maxHeaderBytes with
  | .needMore => .needMore
  | .bad => .bad "transport header over its 128-byte bound or not a varint length"
  | .read bytes next =>
    match headerWire.take bytes with
    | some (h, []) => .read h next
    | some _ => .bad "bytes past the transport header inside its section"
    | none => .bad "transport header does not decode, or names an unknown kind"

/-- What the receiver knows after reading the head of a request. -/
inductive RequestHead where
  | needMore
  | unserved (op : UInt8)
  | tooLarge (op : UInt8) (declared : Nat) (max : UInt64)
  | badLength (op : UInt8)
  | badTarget (op : Option UInt8)
  /-- The target and context are read and the length is not yet. -/
  | targeted (op : UInt8) (header : RequestHeader)
  | ready (op : UInt8) (header : RequestHeader) (payloadLen headLen : Nat)
deriving DecidableEq

/-- The target and context of a request, read; the length is next. -/
structure TargetRead where
  op : UInt8
  header : RequestHeader
  next : Nat
  max : UInt64
deriving DecidableEq

/-- The op is looked up before a byte of the context is read. -/
def parseRequestTarget (buf : Bytes) (ceiling : UInt8 → Option UInt64) : Except RequestHead TargetRead :=
  match decodeSection buf 0 maxTargetBytes with
  | .needMore => .error .needMore
  | .bad => .error (.badTarget none)
  | .read bytes next =>
    match targetWire.take bytes with
    | none => .error (.badTarget none)
    | some (target, _) =>
      match ceiling target.op with
      | none => .error (.unserved target.op)
      | some max =>
        match decodeSection buf next maxContextBytes with
        | .needMore => .error .needMore
        | .bad => .error (.badTarget (some target.op))
        | .read bytes next =>
          match contextWire.take bytes with
          | none => .error (.badTarget (some target.op))
          | some (context, _) => .ok ⟨target.op, ⟨target, context⟩, next, max⟩

def parseRequestLength (buf : Bytes) (t : TargetRead) : RequestHead :=
  match decodeVarint (buf.drop t.next) with
  | .needMore => .targeted t.op t.header
  | .overflow => .badLength t.op
  | .complete value len => if t.max.toNat < value then .tooLarge t.op value t.max else .ready t.op t.header value (t.next + len)

def parseRequestHead (buf : Bytes) (ceiling : UInt8 → Option UInt64) : RequestHead :=
  match parseRequestTarget buf ceiling with
  | .ok t => parseRequestLength buf t
  | .error head => head

/-- Split a complete request into its op, header and payload. -/
def decodeRequest (buf : Bytes) (ceiling : UInt8 → Option UInt64) : Except RequestHead (UInt8 × RequestHeader × Bytes) :=
  match parseRequestHead buf ceiling with
  | .ready op header payloadLen headLen =>
    if buf.length = headLen + payloadLen then .ok (op, header, buf.drop headLen) else .error .needMore
  | .targeted _ _ => .error .needMore
  | other => .error other

end DistributedMesh.Framing
