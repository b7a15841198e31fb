import DistributedMesh.TopologyChunks
import DistributedMesh.TraceContext

namespace DistributedMesh

open Framing (canonical)

namespace Gossip

/-- Why a value did not encode or decode: a rule of the binding, or the codec's own reason. -/
inductive WireError where
  | invalid (reason : String)
  | postcard
deriving DecidableEq

inductive DecodeError where
  | reserved (kind : String) (position : Nat)
  | unknown (kind : String)
  | malformed (error : WireError)
deriving DecidableEq

end Gossip

open Gossip

namespace Birth

def uri (b : Birth) : String := "rdm://" ++ b.fabric ++ "/" ++ b.node ++ "/" ++ b.incarnation

def parse (uri : String) : Except WireError Birth :=
  if "rdm://".toList.isPrefixOf uri.toList then
    match Gossip.split '/' (String.ofList (uri.toList.drop 6)) with
    | [fabric, node, incarnation] =>
      if canonical fabric = false then .error (.invalid "source fabric")
      else if canonical node = false then .error (.invalid "source node")
      else if canonical incarnation = false then .error (.invalid "source incarnation")
      else .ok ⟨fabric, node, incarnation⟩
    | _ => .error (.invalid "source birth")
  else .error (.invalid "source scheme")

end Birth

namespace Gossip

open ByteFormats
open Framing (Bytes CallContext)

/-- The calendar: a time as the text of its UTC milliseconds, and the milliseconds of a text. -/
structure Chrono where
  format : Nat → Option String
  parse : String → Option Int

def date (chrono : Chrono) (ms : Nat) : Except WireError String :=
  if 2 ^ 63 ≤ ms then .error (.invalid "time range")
  else
    match chrono.format ms with
    | some text => .ok text
    | none => .error (.invalid "time range")

def dateMs (chrono : Chrono) (s : String) : Except WireError Nat :=
  match chrono.parse s with
  | none => .error (.invalid "time RFC3339")
  | some ms =>
    if ms < 0 then .error (.invalid "time range")
    else
      match date chrono ms.toNat with
      | .error e => .error e
      | .ok text => if text ≠ s then .error (.invalid "time must be UTC milliseconds") else .ok ms.toNat

section Data

def u64 : Format Nat := .number 1 9

def u32 : Format Nat := .number 15 4

def text : Format String := Wire.string.format

def minted : Format String := text.only canonical

def publisherFormat : Format PublisherId :=
  (minted.pair minted).map (fun p => (p.incarnation, p.nodeId)) fun p => ⟨p.1, p.2⟩

/-- The codec of what is derived for it, field by field: a digest in its wire shape, an operation, and the data of the
kinds that no receiver decodes. -/
structure Postcard where
  digest : Format MeshDigest
  lifecycleOp : Format LifecycleOp
  reserved : Format Frame

/-- The fields of a whole topology before its counter. -/
def fullHead : Format (String × PublisherId × Option String × Nat × Nat) :=
  text.pair (publisherFormat.pair (text.option.pair (u64.pair u64)))

/-- A publication's owner, before its counter. -/
def ownerFormat : Format (String × String × String × Nat) := minted.pair (minted.pair (minted.pair u64))

def statusFormat (name : Format String) : Format (String × String × String × Option String × Nat) :=
  name.pair (text.pair (text.pair (text.option.pair u64)))

namespace Postcard

variable (D : Postcard)

def fullTail : Format (Nat × Nat × List MeshDigest × List LifecycleOp × List LifecycleOp) :=
  u32.pair (u32.pair (D.digest.list.pair (D.lifecycleOp.list.pair D.lifecycleOp.list)))

def full := fullHead.pair (u64.pair D.fullTail)

def delta : Format (String × PublisherId × Nat × Nat × Nat × List MeshDigest × List String × List LifecycleOp ×
    List LifecycleOp) :=
  text.pair (publisherFormat.pair (u64.pair (u64.pair (u64.pair (D.digest.list.pair (text.list.pair
    (D.lifecycleOp.list.pair D.lifecycleOp.list)))))))

def fact : Format (LifecycleOp × Option String × PublisherId × Nat) :=
  D.lifecycleOp.pair (text.option.pair (publisherFormat.pair u64))

def deleted : Format (LifecycleOp × Option String) := D.lifecycleOp.pair text.option

/-- A frame's fields in their order, without its schema index. -/
def fields : Frame → Bytes
  | .digest d => D.digest.enc d
  | .topologyFull mesh publisher forwardedBy version publishedAt snapshotId chunkIndex chunkCount digests inFlight gone =>
    D.full.enc ((mesh, publisher, forwardedBy, version, publishedAt), snapshotId, chunkIndex, chunkCount, digests,
      inFlight, gone)
  | .topologyDelta mesh publisher base version publishedAt changed removed inFlight gone =>
    D.delta.enc (mesh, publisher, base, version, publishedAt, changed, removed, inFlight, gone)
  | .nodeDeleting op forwardedBy publisher version | .nodeStopped op forwardedBy publisher version =>
    D.fact.enc (op, forwardedBy, publisher, version)
  | .nodeDeleted op forwardedBy => D.deleted.enc (op, forwardedBy)
  | .meshStatus mesh status publisher forwardedBy changedAt =>
    (statusFormat text).enc (mesh, status, publisher, forwardedBy, changedAt)
  | .fabricStatus fabric status publisher forwardedBy changedAt =>
    (statusFormat minted).enc (fabric, status, publisher, forwardedBy, changedAt)
  | frame => D.reserved.enc frame

def takeFields (index : Nat) (l : Bytes) : Option (Frame × Bytes) :=
  match index with
  | 0 => (D.digest.take l).map fun p => (.digest p.1, p.2)
  | 1 => (D.full.take l).map fun (((mesh, publisher, forwardedBy, version, publishedAt), snapshotId, chunkIndex,
      chunkCount, digests, inFlight, gone), rest) =>
    (.topologyFull mesh publisher forwardedBy version publishedAt snapshotId chunkIndex chunkCount digests inFlight gone,
      rest)
  | 2 => (D.delta.take l).map fun ((mesh, publisher, base, version, publishedAt, changed, removed, inFlight, gone), rest) =>
    (.topologyDelta mesh publisher base version publishedAt changed removed inFlight gone, rest)
  | 3 => (D.fact.take l).map fun ((op, forwardedBy, publisher, version), rest) =>
    (.nodeDeleting op forwardedBy publisher version, rest)
  | 4 => (D.deleted.take l).map fun ((op, forwardedBy), rest) => (.nodeDeleted op forwardedBy, rest)
  | 6 => ((statusFormat text).take l).map fun ((mesh, status, publisher, forwardedBy, changedAt), rest) =>
    (.meshStatus mesh status publisher forwardedBy changedAt, rest)
  | 7 => ((statusFormat minted).take l).map fun ((fabric, status, publisher, forwardedBy, changedAt), rest) =>
    (.fabricStatus fabric status publisher forwardedBy changedAt, rest)
  | 18 => (D.fact.take l).map fun ((op, forwardedBy, publisher, version), rest) =>
    (.nodeStopped op forwardedBy publisher version, rest)
  | _ => D.reserved.take l

def frame : Format Frame where
  enc f := u32.enc f.kindIndex ++ D.fields f
  take l := (u32.take l).bind fun p => D.takeFields p.1 p.2

end Postcard

/-- The complete message: the attributes by their names, and the data they select. -/
def message : Format (List (String × String) × Bytes) := (text.pair text).list.pair Wire.bytes.format

end Data

/-- What the envelope is read and written with: the codec and the calendar, the tracing library's reading of a state, and
the trace of the span it runs in. -/
structure Env where
  postcard : Postcard
  chrono : Chrono
  traceState : List (String × String) → Bool
  current : Trace

def Context.attributes (chrono : Chrono) (c : Context) (dataschema : Option String) :
    Except WireError (List (String × String)) := do
  let time ← date chrono c.timeMs
  return [("specversion", "1.0"), ("id", c.id), ("source", c.source.uri), ("type", c.kind), ("subject", c.subject)] ++
    (c.sequence.map fun s => ("sequence", s)).toList ++
    [("time", time), ("datacontenttype", "application/octet-stream")] ++
    (dataschema.map fun schema => ("dataschema", schema)).toList ++
    (c.traceparent.map fun parent => ("traceparent", parent)).toList ++
    (c.tracestate.map fun state => ("tracestate", state)).toList

/-- The one binary binding for domain, application and chunk data. -/
def encodeData (chrono : Chrono) (c : Context) (data : Bytes) (dataschema : Option String) : Except WireError Bytes := do
  return message.enc (← c.attributes chrono dataschema, data)

/-- The fixed fields of a whole topology, and where its counter ends. -/
def topologyFullPrefix (data : Bytes) : Except WireError (Bytes × Nat) :=
  match fullHead.take data with
  | none => .error .postcard
  | some (_, cursor) =>
    let head := data.take (data.length - cursor.length)
    match u64.take cursor with
    | none => .error .postcard
    | some (_, cursor) => .ok (head, data.length - cursor.length)

def body (D : Postcard) (c : Context) (f : Frame) : Except WireError Bytes := do
  let data := (D.frame.enc f).drop 1
  match f with
  | .topologyFull .. =>
    let (head, counterAt) ← topologyFullPrefix data
    match c.publication with
    | none => .error (.invalid "missing publication owner")
    | some (owner, counter) =>
      -- only the publication's counter gains its owner's birth
      return head ++ ownerFormat.enc (owner.fabric, owner.node, owner.incarnation, counter) ++ data.drop counterAt
  | _ => return data

def encode (E : Env) (c : Context) (f : Frame) : Except WireError Bytes := do
  encodeData E.chrono c (← body E.postcard c f) none

/-- Validated context; the data are selected only after it. -/
structure Header where
  source : Birth
  id : String
  kind : String
  subject : String
  timeMs : Nat
  sequence : Option String
  dataschema : Option String
  data : Bytes
deriving DecidableEq

def attributeName (name : String) : Bool := name != "" && name.toList.all fun c => c.isLower || c.isDigit

/-- The characters no attribute's text holds. -/
def forbidden (c : Char) : Bool :=
  let n := c.toNat
  n ≤ 0x1f || (0x7f ≤ n && n ≤ 0x9f) || (0xfdd0 ≤ n && n ≤ 0xfdef) || 0xfffe ≤ n &&& 0xffff

def attributeText (value : String) : Bool := !value.toList.any forbidden

/-- The attributes by name, each checked and held once. -/
def collect : List (String × String) → List (String × String) → Except WireError (List (String × String))
  | a, [] => .ok a
  | a, (name, value) :: rest =>
    if attributeName name = false then .error (.invalid "attribute name")
    else if name ≠ "traceparent" ∧ name ≠ "tracestate" ∧ attributeText value = false then
      .error (.invalid "attribute String value")
    else if (a.lookup name).isSome then .error (.invalid "duplicate attribute")
    else collect (a ++ [(name, value)]) rest

def required (a : List (String × String)) (name : String) : Except WireError String :=
  match (a.lookup name).filter (· ≠ "") with
  | some value => .ok value
  | none => .error (.invalid ("missing " ++ name))

def requiredAs (a : List (String × String)) (name expected : String) : Except WireError Unit := do
  let value ← required a name
  if value ≠ expected then .error (.invalid "specversion or datacontenttype") else .ok ()

def sequencetypeUnset (a : List (String × String)) : Except WireError Unit :=
  if (a.lookup "sequencetype").isSome then .error (.invalid "sequencetype must be unset in this binding") else .ok ()

/-- The context that the attributes are of, with the data beside them. -/
def headerOf (chrono : Chrono) (pairs : List (String × String)) (data : Bytes) : Except WireError Header := do
  let a ← collect [] pairs
  requiredAs a "specversion" "1.0"
  requiredAs a "datacontenttype" "application/octet-stream"
  let source ← Birth.parse (← required a "source")
  let id ← required a "id"
  let kind ← required a "type"
  let subject ← required a "subject"
  let timeMs ← dateMs chrono (← required a "time")
  sequencetypeUnset a
  return ⟨source, id, kind, subject, timeMs, a.lookup "sequence", a.lookup "dataschema", data⟩

/-- The trace a message carries, what of it was dropped, and its header. -/
def decodeHeader (E : Env) (bytes : Bytes) (limit : Nat) :
    Except Panic (CallContext × List Dropped × Except DecodeError Header) :=
  if limit < bytes.length then
    .ok (⟨none, none, none, none⟩, [], .error (.malformed (.invalid "complete message exceeds MAX_FRAME")))
  else
    match message.decode bytes with
    | none => .ok (⟨none, none, none, none⟩, [], .error (.malformed .postcard))
    | some (pairs, data) => do
      -- whatever the trace says, it refuses no data
      let (trace, dropped) ← sanitizedTrace E.traceState (pairs.lookup "traceparent") (pairs.lookup "tracestate")
      return (trace, dropped, (headerOf E.chrono pairs data).mapError .malformed)

/-- A frame's schema index, as its first encoded byte. -/
def kindIndexOf (D : Postcard) (f : Frame) : Except Panic Nat :=
  match D.frame.enc f with
  | [] => .error .index
  | tag :: _ => .ok tag.toNat

/-- The context of a frame in the span that authors it. -/
def Context.authoredIn (E : Env) (frame : Frame) (author : Birth) (primaryRevision nowMs : Nat) :
    Except Panic Context := do
  let index ← kindIndexOf E.postcard frame
  if types[index]?.isNone then throw .index
  let (trace, _) ← sanitizedTrace E.traceState E.current.parent E.current.state
  return Context.authored frame author primaryRevision nowMs ⟨trace.traceparent, trace.tracestate⟩

def checkScalar (s : String) : Except WireError Unit :=
  if (scalar s).isSome then .ok ()
  else if s.length ≠ 20 ∨ ¬ s.toList.all Char.isDigit then .error (.invalid "sequence decimal width")
  else .error (.invalid "sequence range")

/-- What a kind's sequence has to be, before its data are read. -/
def checkSequence (index : Nat) (sequence : Option String) : Except WireError Unit :=
  if index = 0 ∨ index = 1 ∨ index = 2 then
    match sequence with
    | none => .error (.invalid "missing sequence")
    | some s => checkScalar s
  else if index = 6 ∨ index = 7 then
    match sequence.bind (splitOnce '.') with
    | none => .error (.invalid "status sequence")
    | some (r, t) => do
      checkScalar r
      checkScalar t
  else if sequence.isSome then .error (.invalid "fact declares sequence")
  else .ok ()

/-- A whole topology's fields as its frame has them, and the publication they were sent as. -/
def takePublication (data : Bytes) : Except Panic (Except WireError (Bytes × Option (Birth × Nat))) :=
  match fullHead.take data with
  | none => .ok (.error .postcard)
  | some (_, cursor) =>
    if data.length < cursor.length then .error .overflow
    else
      let start := data.length - cursor.length
      match ownerFormat.take cursor with
      | none => .ok (.error .postcard)
      | some ((fabric, node, incarnation, counter), cursor) =>
        if data.length < start then .error .slice
        else .ok (.ok (data.take start ++ u64.enc counter ++ cursor, some (⟨fabric, node, incarnation⟩, counter)))

def sourceAgrees (source : Birth) : Frame → Except WireError Unit
  | .nodeDeleting _ _ publisher _ | .nodeStopped _ _ publisher _ =>
    if publisherBirth source.fabric publisher ≠ source then .error (.invalid "publisher and source disagree") else .ok ()
  | .fabricStatus fabric .. => if fabric ≠ source.fabric then .error (.invalid "fabric and source disagree") else .ok ()
  | _ => .ok ()

/-- Go on with what was read, or refuse the message with the reason it was not. -/
def orRefuse {α β : Type} (r : Except WireError α) (next : α → Except Panic (Except DecodeError β)) :
    Except Panic (Except DecodeError β) :=
  match r with
  | .error e => .ok (.error (.malformed e))
  | .ok a => next a

def publicationOf (index : Nat) (data : Bytes) : Except Panic (Except WireError (Bytes × Option (Birth × Nat))) :=
  if index = 1 then takePublication data else .ok (.ok (data, none))

/-- The fields read under their schema index. -/
def decodeFrame (D : Postcard) (index : Nat) (data : Bytes) : Except WireError Frame :=
  match D.frame.decode (UInt8.ofNat index :: data) with
  | none => .error .postcard
  | some frame => .ok frame

def Header.context (h : Header) (trace : CallContext) (publication : Option (Birth × Nat)) : Context where
  id := h.id
  source := h.source
  kind := h.kind
  subject := h.subject
  sequence := h.sequence
  timeMs := h.timeMs
  publication := publication
  traceparent := trace.traceparent
  tracestate := trace.tracestate

/-- The frame under its header's context, where that is the context the data would have been authored with. -/
def agree (E : Env) (trace : CallContext) (h : Header) (publication : Option (Birth × Nat)) (frame : Frame) :
    Except Panic (Except DecodeError Carried) := do
  let expected ← Context.authoredIn E frame ((publication.map Prod.fst).getD h.source)
    ((h.context trace publication).primaryRevision.getD 0) h.timeMs
  if h.id ≠ expected.id ∨ h.source ≠ expected.source ∨ h.subject ≠ expected.subject ∨
      h.sequence ≠ expected.sequence ∨ h.timeMs ≠ expected.timeMs then
    return .error (.malformed (.invalid "context and data disagree"))
  return .ok ⟨some (h.context trace publication), frame⟩

def decodeData (E : Env) (trace : CallContext) (h : Header) (index : Nat) : Except Panic (Except DecodeError Carried) :=
  orRefuse (checkSequence index h.sequence) fun _ => do
  let taken ← publicationOf index h.data
  orRefuse taken fun p =>
  orRefuse (decodeFrame E.postcard index p.1) fun frame =>
  orRefuse (sourceAgrees h.source frame) fun _ => agree E trace h p.2 frame

/-- The indexes of the catalog that no receiver decodes. -/
def isReserved (index : Nat) : Bool := index == 5 || (8 ≤ index && index ≤ 17)

def decodeEvent (E : Env) (trace : CallContext) (h : Header) : Except Panic (Except DecodeError Carried) :=
  match types.idxOf? h.kind with
  | none => .ok (.error (.unknown h.kind))
  | some index =>
    if isReserved index then
      if h.sequence.isSome then .ok (.error (.malformed (.invalid "reserved type declares sequence")))
      else .ok (.error (.reserved h.kind (index + 2)))
    else decodeData E trace h index

structure Received where
  trace : CallContext
  dropped : List Dropped
  frame : Except DecodeError Carried

def decodeReceived (E : Env) (bytes : Bytes) : Except Panic Received := do
  let (trace, dropped, header) ← decodeHeader E bytes maxFrame
  match header with
  | .error e => return ⟨trace, dropped, .error e⟩
  | .ok h => return ⟨trace, dropped, ← decodeEvent E trace h⟩

/-- Decode context, reject reserved and unknown types, then select and validate domain data. -/
def decode (E : Env) (bytes : Bytes) : Except Panic (Except DecodeError Carried) := do
  let received ← decodeReceived E bytes
  return received.frame

def reservedName (position : Nat) : Except Panic String :=
  match position with
  | 7 => .ok "node-restarting"
  | 10 => .ok "concern"
  | 11 => .ok "node-connections-deleting"
  | 12 => .ok "node-leaving"
  | 13 => .ok "node-left"
  | 14 => .ok "node-connections-deleted"
  | 15 => .ok "new-fabric-primary"
  | _ => .error .unreachable

/-- A received message as its span names it, before any handler reads it. -/
inductive Outcome where
  | frame (f : Carried)
  | foreign
  | reserved (name kind : String) (position : Nat)
  | unknown (kind : String)
  | undecodable (error : WireError)

/-- The outcome on a channel of `fabric`. -/
def outcomeOf (fabric : String) : Except DecodeError Carried → Except Panic Outcome
  | .ok f => .ok (if f.context.all fun c => c.source.fabric ≠ fabric then .foreign else .frame f)
  | .error (.reserved kind position) => (reservedName position).map fun name => .reserved name kind position
  | .error (.unknown kind) => .ok (.unknown kind)
  | .error (.malformed e) => .ok (.undecodable e)

/-- One message of the channel: its remote parent, the names of what its context lost, and its outcome. -/
def receive (E : Env) (fabric : String) (content : Bytes) : Except Panic (Option String × String × Outcome) := do
  let received ← decodeReceived E content
  let outcome ← outcomeOf fabric received.frame
  return (received.trace.traceparent, droppedAsStr received.dropped, outcome)

end Gossip

end DistributedMesh
