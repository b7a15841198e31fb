import DistributedMesh.EnvelopeRoundTrip
import DistributedMesh.Pieces

namespace DistributedMesh.App

open ByteFormats
open Framing (Bytes CallContext)
open Gossip

def queueCapacity : Nat := 8192

def parts : Nat := 16

def chunkType : String := "rdm.gossip.chunk"

/-- One application event, whose data nothing here reads. -/
structure Event where
  subject : String
  sequence : Option Nat
  dataschema : Option String
  data : Bytes
deriving DecidableEq

inductive ChannelError where
  | oversize (bytes max : Nat)
  | left
  | noAuthor
  | encode (error : WireError)
  | broadcast (chunk count : Nat)
deriving DecidableEq

structure Attributes where
  source : Birth
  id : String
  kind : String
  subject : String
  sequence : Option Nat
  dataschema : Option String
  time : Nat
  trace : CallContext
deriving DecidableEq

namespace Attributes

def context (a : Attributes) : Context where
  id := a.id
  source := a.source
  kind := a.kind
  subject := a.subject
  sequence := a.sequence.map p
  timeMs := a.time
  publication := none
  traceparent := a.trace.traceparent
  tracestate := a.trace.tracestate

def encode (chrono : Chrono) (a : Attributes) (data : Bytes) : Except WireError Bytes :=
  encodeData chrono a.context data a.dataschema

/-- What chunk `i` of the event is sent under: the event's id is its subject. -/
def chunk (a : Attributes) (i : Nat) : Attributes where
  source := a.source
  id := a.id ++ "/" ++ toString i
  kind := chunkType
  subject := a.id
  sequence := none
  dataschema := none
  time := a.time
  trace := a.trace

end Attributes

def u16 : Format Nat := .number 3 2

/-- A chunk's place, the count of chunks and its bytes. -/
def chunkBody : Format (Nat × Nat × Bytes) := u16.pair (u16.pair Wire.bytes.format)

section Publishing

/-- What a publication is made with: the calendar, the id of each count of the birth's publications, the clock and the
trace of the span it is made in. -/
structure Desk where
  chrono : Chrono
  mint : Nat → String
  now : Nat
  current : Trace

/-- The messages of an event: itself, or its chunks of the widest that fits with the most that a chunk can say. -/
def broadcastWholeOrChunks (chrono : Chrono) (accepts : Bytes → Bool) (context : Attributes) (full : Bytes) :
    Except ChannelError (List Bytes) :=
  if full.length ≤ maxFrame then
    if accepts full then .ok [full] else .error (.broadcast 0 1)
  else do
    let sample ← ((context.chunk 15).context.attributes chrono none).mapError .encode
    let lo := Pieces.widest
      (fun mid => (message.enc (sample, chunkBody.enc (15, parts, List.replicate mid 0))).length ≤ maxFrame) 0 maxFrame
    if lo = 0 ∨ lo * parts < full.length then .error (.oversize full.length (lo * parts))
    else
      let n := (full.length + lo - 1) / lo
      (Pieces.cut lo n full).zipIdx.mapM fun (bytes, i) => do
        let m ← ((context.chunk i).encode chrono (chunkBody.enc (i, n, bytes))).mapError .encode
        if accepts m then .ok m else .error (.broadcast i n)

/-- A channel as its publisher holds it; `sender` is whether the gossip takes a message. -/
structure Channel where
  left : Bool
  author : Option Birth
  sender : Option (Bytes → Bool)
  kind : String
  ids : Nat

def contextOf (D : Desk) (ch : Channel) (source : Birth) (event : Event) : Attributes where
  source := source
  id := D.mint ch.ids
  kind := ch.kind
  subject := event.subject
  sequence := event.sequence
  dataschema := event.dataschema
  time := D.now
  trace := (CallContext.sanitized ⟨none, D.current.parent, D.current.state, none⟩).1

/-- The channel after a publication, and the messages that the gossip was handed. -/
def publish (D : Desk) (ch : Channel) (event : Event) : Channel × Except ChannelError (List Bytes) :=
  if ch.left then (ch, .error .left)
  else
    match ch.author with
    | none => (ch, .error .noAuthor)
    | some source =>
      ({ ch with ids := (ch.ids + 1) % 2 ^ 64 }, do
        let context := contextOf D ch source event
        let full ← (context.encode D.chrono event.data).mapError .encode
        match ch.sender with
        | none => .error .left
        | some accepts => broadcastWholeOrChunks D.chrono accepts context full)

end Publishing

section Delivering

/-- The substrate's cache of keys, each held until its expiry. -/
structure TimeBoundCache (σ κ : Type) [DecidableEq κ] where
  contains : σ → κ → Bool
  insert : σ → κ → Nat → σ
  expireUntil : σ → Nat → σ
  /-- When the cache lets go of a key it holds. -/
  expiry : σ → κ → Option Nat
  contains_eq : ∀ s k, contains s k = (expiry s k).isSome
  expiry_insert : ∀ s k e j, expiry s k = none → expiry (insert s k e) j = if j = k then some e else expiry s j
  expiry_expireUntil : ∀ s now k, expiry (expireUntil s now) k = (expiry s k).filter (now < ·)

structure Assembly where
  parts : List (Option Bytes)
  deadline : Nat
deriving DecidableEq

/-- A whole event as the subscriber is handed it, with the id it came under. -/
structure Received where
  id : String
  source : Birth
  subject : String
  sequence : Option Nat
  timeMs : Nat
  dataschema : Option String
  data : Bytes
deriving DecidableEq

variable {σ κ : Type} [DecidableEq κ]

/-- What a channel's delivery is made with. -/
structure Reader (σ κ : Type) [DecidableEq κ] where
  chrono : Chrono
  fabric : String
  stalenessFloor : Nat
  retention : Nat
  eventIdentity : Birth → String → κ
  cache : TimeBoundCache σ κ

/-- A channel's delivery: the unfinished events, the identities of the finished ones, the places taken of the
subscriber's queue, the events that found none, and those that did. -/
structure Inbox (σ : Type) where
  assemblies : Birth × String → Option Assembly
  seen : σ
  queued : Nat
  dropped : Nat
  handed : List Received

def deliver (s : Inbox σ) (event : Received) : Inbox σ :=
  if s.queued < queueCapacity then { s with queued := s.queued + 1, handed := s.handed ++ [event] }
  else { s with dropped := s.dropped + 1 }

/-- A sequence as the subscriber reads it, when it is one. -/
def sequenceOf : Option String → Option (Option Nat)
  | none => some none
  | some s => (scalar s).map some

/-- Hand a whole event over, unless it was before. -/
def finish (R : Reader σ κ) (now : Nat) (s : Inbox σ) (h : Gossip.Header) : Inbox σ :=
  match sequenceOf h.sequence with
  | none => s
  | some sequence =>
    if R.cache.contains s.seen (R.eventIdentity h.source h.id) then s
    else
      deliver { s with seen := R.cache.insert s.seen (R.eventIdentity h.source h.id) (now + R.retention) }
        ⟨h.id, h.source, h.subject, sequence, h.timeMs, h.dataschema, h.data⟩

def putAssembly (s : Inbox σ) (key : Birth × String) (a : Option Assembly) : Inbox σ :=
  { s with assemblies := Function.update s.assemblies key a }

/-- Put chunk `i` of `n` into its event's assembly; the whole event's header, when it was the last. -/
def assemble (R : Reader σ κ) (now : Nat) (s : Inbox σ) (key : Birth × String) (i n : Nat) (bytes : Bytes) :
    Inbox σ × Option Gossip.Header :=
  if R.cache.contains s.seen (R.eventIdentity key.1 key.2) then (s, none)
  else
    let a := (s.assemblies key).getD ⟨List.replicate n none, now + R.stalenessFloor⟩
    if a.parts.length ≠ n ∨ (a.parts[i]?.join.any fun old => old ≠ bytes) then (putAssembly s key (some a), none)
    else
      let slots := a.parts.set i (some bytes)
      if slots.any Option.isNone then (putAssembly s key (some { a with parts := slots }), none)
      else
        match readHeader R.chrono (slots.filterMap id).flatten (maxFrame * parts) with
        | .error _ => (putAssembly s key none, none)
        | .ok whole =>
          if whole.source ≠ key.1 ∨ whole.id ≠ key.2 then (putAssembly s key none, none)
          else (putAssembly s key none, some whole)

def takeChunk (R : Reader σ κ) (now : Nat) (s : Inbox σ) (h : Gossip.Header) : Inbox σ × Option Gossip.Header :=
  if h.sequence.isSome ∨ h.dataschema.isSome then (s, none)
  else
    match chunkBody.decode h.data with
    | none => (s, none)
    | some (i, n, bytes) =>
      if n = 0 ∨ parts < n ∨ n ≤ i ∨ h.id ≠ h.subject ++ "/" ++ toString i then (s, none)
      else assemble R now s (h.source, h.subject) i n bytes

/-- One message of the channel. -/
def receive (R : Reader σ κ) (now : Nat) (s : Inbox σ) (content : Bytes) : Inbox σ :=
  match readHeader R.chrono content maxFrame with
  | .error _ => s
  | .ok h =>
    if h.source.fabric ≠ R.fabric then s
    else if h.kind = chunkType then
      match takeChunk R now s h with
      | (s, none) => s
      | (s, some whole) => finish R now s whole
    else finish R now s h

inductive Item where
  | message (content : Bytes)
  /-- A neighbour came or went, or the subscription lagged. -/
  | notice
  /-- The earliest deadline passed. -/
  | expiry
  /-- The subscriber took an event. -/
  | taken
deriving DecidableEq

def expireSeen (R : Reader σ κ) (now : Nat) (s : Inbox σ) : Inbox σ :=
  { s with seen := R.cache.expireUntil s.seen now }

def step (R : Reader σ κ) (s : Inbox σ) : Nat × Item → Inbox σ
  | (now, .message content) => receive R now (expireSeen R now s) content
  | (now, .notice) => expireSeen R now s
  | (now, .expiry) => { s with assemblies := fun key => (s.assemblies key).filter (now < ·.deadline) }
  | (_, .taken) => { s with queued := s.queued - 1 }

def run (R : Reader σ κ) (s : Inbox σ) (items : List (Nat × Item)) : Inbox σ := items.foldl (step R) s

end Delivering

end DistributedMesh.App
