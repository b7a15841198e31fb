import DistributedMesh.Framing
import DistributedMesh.SectionRuns

namespace DistributedMesh.BuildGet

open Framing (canonical)
open SectionRuns (boundedReason)

inductive BuildPhase where
  | pending
  | running
  | complete
  | failed
  | incomplete
deriving DecidableEq

def BuildPhase.pageName : BuildPhase → String
  | .pending => "pending"
  | .running => "running"
  | .complete => "complete"
  | .failed => "failed"
  | .incomplete => "incomplete"

/-- A Build's header as a filter matches it. -/
structure BuildHeader where
  buildId : String
  phase : BuildPhase
  current : Bool
deriving DecidableEq

/-- The header's value of a property. -/
def BuildHeader.value (h : BuildHeader) (property : String) : Option String :=
  if property = "id" then some h.buildId
  else if property = "current" then some (if h.current then "true" else "false")
  else if property = "phase" then some h.phase.pageName
  else none

/-- A list of pairs of a property and values, all to match. -/
structure Filter where
  pairs : List (String × List String)
deriving DecidableEq

/-- Whether the property is negated, and the property it names. -/
def negated (property : String) : Bool × String :=
  match property.toList with
  | '!' :: rest => (true, String.ofList rest)
  | _ => (false, property)

def Filter.matches (f : Filter) (h : BuildHeader) : Bool :=
  f.pairs.all fun pair =>
    let any := (h.value (negated pair.1).2).any fun v => pair.2.contains v
    any != (negated pair.1).1

/-- What a value of the property may be, and why another is refused. -/
def valueRefusal (property v : String) : Option String :=
  if property = "id" then
    if canonical v then none else some "an id is 12 lowercase Crockford characters"
  else if property = "current" then
    if v = "true" ∨ v = "false" then none else some "a boolean is true or false"
  else if ["pending", "running", "complete", "failed", "incomplete"].contains v then none
  else some "it is one of pending, running, complete, failed, incomplete"

/-- Why a pair is refused; `debug` is how a value prints in a message. -/
def pairRefusal (debug : String → String) (property : String) (values : List String) : Option String :=
  if values.isEmpty then some "names no value: a pair needs at least one"
  else if !(["id", "current", "phase"].contains property) then
    some "names no property of a Build header row (its properties: id, current, phase)"
  else
    values.findSome? fun v => (valueRefusal property v).map fun why =>
      "names " ++ debug v ++ ", which " ++ property ++ " cannot take: " ++ why

/-- Why the filter is refused for `build.get`, naming the pair. -/
def Filter.buildsRefusal (f : Filter) (debug : String → String) : Option String :=
  f.pairs.findSome? fun pair => (pairRefusal debug (negated pair.1).2 pair.2).map fun why =>
    "build.get: the pair (" ++ pair.1 ++ ", [" ++ ", ".intercalate pair.2 ++ "]) " ++ why

def chunkBytes : Nat := 32 * 1024

/-- Items in chunks in their order, each filled while its bytes go in; an item too large is alone in its chunk. -/
def chunked {α : Type} (weight : α → Nat) (full : List (List α)) (last : List α) (size : Nat) : List α → List (List α)
  | [] => full ++ [last]
  | x :: xs =>
    if size + weight x > chunkBytes && !last.isEmpty then chunked weight (full ++ [last]) [x] (weight x) xs
    else chunked weight full (last ++ [x]) (size + weight x) xs

variable {Spec Event Change : Type}

/-- How a Build read writes what it carries: a text as a message prints it, the bytes of a node's create spec, the order of
the specs by their location, and the JSON of an event. -/
structure Coding (Spec Event : Type) where
  debug : String → String
  weight : Spec → Nat
  le : Spec → Spec → Bool
  json : Event → String
  parse : String → Option Event

/-- A Build as the fabric-primary holds it. -/
structure HeldBuild (Spec Event Change : Type) where
  buildId : String
  canonical : canonical buildId = true
  phase : BuildPhase
  change : Change
  time : Nat
  specs : List Spec
  events : List Event

def eventChunks (coding : Coding Spec Event) (events : List Event) : UInt32 × List (List String) :=
  (UInt32.ofNat events.length, chunked String.utf8ByteSize [] [] 0 (events.map coding.json))

def topologyChunks (coding : Coding Spec Event) (specs : List Spec) : List (List Spec) :=
  chunked coding.weight [] [] 0 (specs.mergeSort coding.le)

/-- A frame of a `build.get` stream after `Started`. -/
inductive BuildReply (Spec Change : Type) where
  | topology (buildId : String) (chunkIndex chunkCount : UInt32) (nodes : List Spec)
  | events (buildId : String) (chunkIndex chunkCount : UInt32) (events : List String)
  | build (buildId : String) (phase : BuildPhase) (current : Bool) (events chunks : UInt32) (change : Change) (time : Nat)
  | done (builds : UInt32)
  | refusal (name : String)
  | other (name : String)

def topologyFrames (buildId : String) (count : UInt32) (i : Nat) : List (List Spec) → List (BuildReply Spec Change)
  | [] => []
  | nodes :: chunks => .topology buildId (UInt32.ofNat i) count nodes :: topologyFrames buildId count (i + 1) chunks

def eventFrames (buildId : String) (count : UInt32) (i : Nat) : List (List String) → List (BuildReply Spec Change)
  | [] => []
  | events :: chunks => .events buildId (UInt32.ofNat i) count events :: eventFrames buildId count (i + 1) chunks

/-- What the stream carries of one Build: its topology, its events and the header that closes it. -/
def buildFrames (coding : Coding Spec Event) (current : Option String) (p : HeldBuild Spec Event Change) :
    List (BuildReply Spec Change) :=
  let topology := topologyChunks coding p.specs
  let events := eventChunks coding p.events
  topologyFrames p.buildId (UInt32.ofNat topology.length) 0 topology ++
    eventFrames p.buildId (UInt32.ofNat events.2.length) 0 events.2 ++
    [.build p.buildId p.phase (current == some p.buildId) events.1 (UInt32.ofNat events.2.length) p.change p.time]

/-- Why a Build could not be read: it left the views, or its log cannot be read. -/
inductive ReadError where
  | unknownBuild
  | unreadable (why : String)
deriving DecidableEq

/-- The Build log as the fabric-primary reads it. -/
structure BuildLog (Spec Event Change : Type) where
  currentBuild : Except String (Option String)
  acceptedNewestFirst : Except String (List String)
  readBuild : String → Except ReadError (HeldBuild Spec Event Change)

inductive Refusal where
  | rejectedFilter (why : String)
  | notReady (why : String)
deriving DecidableEq

/-- The Builds of the order that are held, or that one could not be read. -/
def readHeld (log : BuildLog Spec Event Change) : List String → Except Refusal (List (HeldBuild Spec Event Change))
  | [] => .ok []
  | id :: order =>
    match log.readBuild id with
    | .ok p => (readHeld log order).map (p :: ·)
    | .error .unknownBuild => readHeld log order
    | .error (.unreadable why) => .error (.notReady why)

def HeldBuild.header (current : Option String) (p : HeldBuild Spec Event Change) : BuildHeader :=
  ⟨p.buildId, p.phase, current == some p.buildId⟩

/-- The stream of the Builds the filter matches, after `Started`. -/
def streamed (coding : Coding Spec Event) (current : Option String) (held : List (HeldBuild Spec Event Change)) :
    List (BuildReply Spec Change) :=
  held.flatMap (buildFrames coding current) ++ [.done (UInt32.ofNat held.length)]

def serveBuilds (coding : Coding Spec Event) (log : BuildLog Spec Event Change) (filter : Filter) :
    Except Refusal (List (BuildReply Spec Change)) :=
  match filter.buildsRefusal coding.debug with
  | some why => .error (.rejectedFilter (boundedReason why))
  | none =>
    match log.currentBuild, log.acceptedNewestFirst with
    | .error why, _ => .error (.notReady why)
    | .ok _, .error why => .error (.notReady why)
    | .ok current, .ok order =>
      (readHeld log order).map fun held => streamed coding current (held.filter fun p => filter.matches (p.header current))

/-- A Build as `build.get` reads it whole. -/
structure Build (Spec Event Change : Type) where
  buildId : String
  phase : BuildPhase
  current : Bool
  change : Change
  time : Nat
  nodes : List Spec
  events : List Event

/-- The Build whose chunks are arriving. -/
structure Open (Spec Event : Type) where
  id : String
  topologyChunks : UInt32
  nodes : List Spec
  eventChunks : UInt32
  events : List Event

def Open.new (id : String) : Open Spec Event := ⟨id, 0, [], 0, []⟩

structure Reading (Spec Event Change : Type) where
  out : List (Build Spec Event Change)
  opened : Option (Open Spec Event)

inductive CallEnd where
  | incomplete
  | broken
  | notJson
  | malformedBuildId
  | refused (name : String)
  | unexpectedFrame (name : String)
deriving DecidableEq

/-- What a frame leaves a read in: more to read, a list, or an end without one. -/
inductive Took (Spec Event Change : Type) where
  | more (r : Reading Spec Event Change)
  | list (out : List (Build Spec Event Change))
  | fails (e : CallEnd)

def take (coding : Coding Spec Event) (r : Reading Spec Event Change) : BuildReply Spec Change → Took Spec Event Change
  | .topology buildId chunkIndex _ nodes =>
    let o := r.opened.getD (.new buildId)
    if o.id ≠ buildId ∨ o.topologyChunks ≠ chunkIndex then .fails .incomplete
    else .more { r with opened := some { o with topologyChunks := o.topologyChunks + 1, nodes := o.nodes ++ nodes } }
  | .events buildId chunkIndex _ events =>
    match events.mapM coding.parse with
    | none => .fails .notJson
    | some events =>
      let o := r.opened.getD (.new buildId)
      if o.id ≠ buildId ∨ o.eventChunks ≠ chunkIndex then .fails .incomplete
      else .more { r with opened := some { o with eventChunks := o.eventChunks + 1, events := o.events ++ events } }
  | .build buildId phase current events chunks change time =>
    let o := r.opened.getD (.new buildId)
    if o.id ≠ buildId ∨ o.eventChunks ≠ chunks ∨ o.events.length ≠ events.toNat then .fails .incomplete
    else if canonical buildId then
      .more ⟨r.out ++ [⟨buildId, phase, current, change, time, o.nodes, o.events⟩], none⟩
    else .fails .malformedBuildId
  | .done builds =>
    if r.opened.isSome then .fails .incomplete
    else if builds.toNat ≠ r.out.length then .fails .incomplete
    else .list r.out
  | .refusal name => .fails (.refused name)
  | .other name => .fails (.unexpectedFrame name)

def takes (coding : Coding Spec Event) (r : Reading Spec Event Change) : List (BuildReply Spec Change) → Took Spec Event Change
  | [] => .more r
  | f :: frames =>
    match take coding r f with
    | .more r => takes coding r frames
    | .list out => .list out
    | .fails e => .fails e

/-- How a stream ends after its last frame: it breaks, or has no more. -/
inductive StreamEnd where
  | failed
  | none
deriving DecidableEq

def StreamEnd.error : StreamEnd → CallEnd
  | .failed => .broken
  | .none => .incomplete

/-- The read of the stream after `Started`. -/
def builds (coding : Coding Spec Event) (frames : List (BuildReply Spec Change)) (ending : StreamEnd) :
    Except CallEnd (List (Build Spec Event Change)) :=
  match takes coding ⟨[], none⟩ frames with
  | .list out => .ok out
  | .fails e => .error e
  | .more _ => .error ending.error

end DistributedMesh.BuildGet
