import DistributedMesh.DeliveryOrder
import DistributedMesh.TransportChunking

namespace DistributedMesh.ReadStreams

inductive Code where
  | ok
  | invalidArgument
  | notFound
  | permissionDenied
  | resourceExhausted
  | failedPrecondition
  | unavailable
  | dataLoss
deriving DecidableEq

/-- How a streaming protocol classifies one reply frame. -/
inductive FrameKind where
  | refusal (kind : Code)
  | started
  | data
  | terminal
deriving DecidableEq

/-- Where a stream stands. -/
inductive OrderState where
  | notStarted
  | streaming
  | done
deriving DecidableEq

inductive OrderViolation where
  | dataBeforeStarted
  | terminalBeforeStarted
  | secondStarted
  | refusalAfterStarted
  | afterEnded (kind : FrameKind)
  | notItsTerminal (state : OrderState) (kind : FrameKind)
  | pastLastPosition
  | doesNotEncode
deriving DecidableEq

/-- The next frame of a stream, or the violation it is. -/
def OrderState.admit : OrderState → FrameKind → Except OrderViolation OrderState
  | .notStarted, .refusal _ => .ok .done
  | .notStarted, .started => .ok .streaming
  | .streaming, .data => .ok .streaming
  | .streaming, .terminal => .ok .done
  | .notStarted, .data => .error .dataBeforeStarted
  | .notStarted, .terminal => .error .terminalBeforeStarted
  | .streaming, .started => .error .secondStarted
  | .streaming, .refusal _ => .error .refusalAfterStarted
  | .done, kind => .error (.afterEnded kind)

/-- The frame a handler returns must end its stream. -/
def OrderState.finalFrame : OrderState → FrameKind → Except OrderViolation OrderState
  | .notStarted, .refusal kind => OrderState.notStarted.admit (.refusal kind)
  | .streaming, .terminal => OrderState.streaming.admit .terminal
  | state, kind => .error (.notItsTerminal state kind)

inductive MalformedKind where
  | tooLarge
  | unknownVariant
  | corrupt
deriving DecidableEq

structure ConnectionsView (C : Type) where
  node : String
  complete : Bool
  connections : List C

/-- One frame of a read, over the rows of a node, a mesh, a fabric and a connection. -/
inductive ReadReply (N M F C : Type) where
  | started (read : String)
  | nodes (nodes : List N)
  | meshes (meshes : List M)
  | fabrics (fabrics : List F)
  | ended (rows frames : Nat)
  | rejectedFilter (reason : String)
  | readOverBound (read row : String) (bytes max : Nat)
  | rejectedSourceFailed (source op cause : String)
  | notReady (reason : String)
  | peerUnresolved (reason : String)
  | busy (reason : String)
  | connectionsDeleting (reason : String)
  | malformed (kind : MalformedKind)
  | unauthorized (reason : String)
  | connections (node : String) (complete : Bool) (connections : List C)

/-- The rows one read answers, in its stable order. -/
inductive Rows (N M F C : Type) where
  | nodes (nodes : List N)
  | meshes (meshes : List M)
  | fabrics (fabrics : List F)
  | connections (view : ConnectionsView C)

/-- One row of a read. A node that holds no matching connection answers one row without one. -/
inductive Row (N M F C : Type) where
  | node (node : N)
  | mesh (mesh : M)
  | fabric (fabric : F)
  | connection (node : String) (complete : Bool) (connection : Option C)

/-- What a refusal names a row by. -/
structure Names (N M F C : Type) where
  node : N → String
  mesh : M → String
  fabric : F → String
  connection : C → String

inductive Entity where
  | fabrics
  | meshes
  | nodes
  | connections
deriving DecidableEq

def Entity.read : Entity → String
  | fabrics => "fabric.get"
  | meshes => "mesh.get"
  | nodes => "node.get"
  | connections => "node.connection.get"

/-- A read call, over the filters of reads. -/
inductive ReadRequest (Q : Type) where
  | get (entity : Entity) (filter : Q)
  | getConnections (node incarnation : String) (filter : Q)

def ReadRequest.op {Q : Type} : ReadRequest Q → String
  | get entity _ => entity.read
  | getConnections _ _ _ => "node.connection.get"

variable {N M F C Q X : Type}

def MalformedKind.code : MalformedKind → Code
  | tooLarge => .resourceExhausted
  | unknownVariant => .invalidArgument
  | corrupt => .dataLoss

namespace ReadReply

def classifyReply : ReadReply N M F C → Code
  | started _ | nodes _ | meshes _ | fabrics _ | connections _ _ _ | ended _ _ => .ok
  | rejectedFilter _ => .invalidArgument
  | readOverBound _ _ _ _ => .resourceExhausted
  | rejectedSourceFailed _ _ _ => .failedPrecondition
  | notReady _ | busy _ | connectionsDeleting _ => .unavailable
  | peerUnresolved _ => .notFound
  | malformed kind => kind.code
  | unauthorized _ => .permissionDenied

def frameKind : ReadReply N M F C → FrameKind
  | started _ => .started
  | nodes _ | meshes _ | fabrics _ | connections _ _ _ => .data
  | ended _ _ => .terminal
  | other => .refusal other.classifyReply

end ReadReply

namespace Rows

def len : Rows N M F C → Nat
  | nodes rows => rows.length
  | meshes rows => rows.length
  | fabrics rows => rows.length
  | connections view => view.connections.length

/-- The empty rows of an entity, but of the connections, which are read by their own request. -/
def empty : Entity → Option (Rows N M F C)
  | .nodes => some (nodes [])
  | .meshes => some (meshes [])
  | .fabrics => some (fabrics [])
  | .connections => none

/-- Appends a data frame's rows: none for a frame of another entity's, or of connections that disagree with the
frames before. -/
def take : Rows N M F C → ReadReply N M F C → Option (Rows N M F C)
  | nodes rows, .nodes more => some (nodes (rows ++ more))
  | meshes rows, .meshes more => some (meshes (rows ++ more))
  | fabrics rows, .fabrics more => some (fabrics (rows ++ more))
  | connections view, .connections node complete more =>
    if node = "" ∨ (view.node ≠ "" ∧ (view.node ≠ node ∨ view.complete ≠ complete)) then none
    else some (connections ⟨node, complete, view.connections ++ more⟩)
  | _, _ => none

def intoRows : Rows N M F C → List (Row N M F C)
  | nodes rows => rows.map .node
  | meshes rows => rows.map .mesh
  | fabrics rows => rows.map .fabric
  | connections ⟨node, complete, []⟩ => [.connection node complete none]
  | connections ⟨node, complete, rows⟩ => rows.map fun c => .connection node complete (some c)

end Rows

namespace Row

def name (names : Names N M F C) : Row N M F C → String
  | node n => names.node n
  | mesh m => names.mesh m
  | fabric f => names.fabric f
  | connection _ _ (some c) => names.connection c
  | connection holder _ none => holder

def node? : Row N M F C → Option N
  | node n => some n
  | _ => none

def mesh? : Row N M F C → Option M
  | mesh m => some m
  | _ => none

def fabric? : Row N M F C → Option F
  | fabric f => some f
  | _ => none

def connection? : Row N M F C → Option C
  | connection _ _ c => c
  | _ => none

/-- One data frame of a batch, every row of it of one entity. -/
def frame (batch : List (Row N M F C)) : ReadReply N M F C :=
  match batch.head? with
  | some (mesh _) => .meshes (batch.filterMap mesh?)
  | some (fabric _) => .fabrics (batch.filterMap fabric?)
  | some (connection holder complete _) => .connections holder complete (batch.filterMap connection?)
  | _ => .nodes (batch.filterMap node?)

end Row

/-- The bound of one reply frame of a read. -/
def maxReplyFrameBytes : Nat := 64 * 1024

/-- Why a frame could not be written. -/
inductive SinkError where
  | callerGone (reason : String)
  | tooLarge (size max : Nat)
  | order (violation : OrderViolation)
deriving DecidableEq

/-- How long a reply is encoded, if it encodes, how rows are named, and how the failure of a write is written out. -/
structure Codec (N M F C : Type) where
  size : ReadReply N M F C → Option Nat
  names : Names N M F C
  debug : SinkError → String

variable (codec : Codec N M F C)

/-- Whether a batch fits a frame; else the row it begins with and the frame's size. -/
def measure (batch : List (Row N M F C)) : Except (String × Nat) Unit :=
  let bytes := (codec.size (Row.frame batch)).getD (UInt64.size - 1)
  if bytes ≤ maxReplyFrameBytes then .ok ()
  else .error (((batch.head?).map (Row.name codec.names)).getD "", bytes)

/-- The rows packed in order into data frames. A row that fits no frame alone is named, and nothing is packed then. -/
def readFrames (rows : List (Row N M F C)) (read : String) : Except (ReadReply N M F C) (List (ReadReply N M F C)) :=
  let packed := Chunking.packInOrder (measure codec) rows
  match packed.2 with
  | (row, bytes) :: _ => .error (.readOverBound read row bytes maxReplyFrameBytes)
  | [] => .ok (packed.1.map fun p => Row.frame p.1)

section Serving

/-- What became of a frame's write: the caller stopped the reply direction, or the stream is gone. -/
inductive Written where
  | ok
  | stopped (code : Nat)
  | gone
deriving DecidableEq

/-- Where the handler of a read stands. -/
inductive Handler (N M F C : Type) where
  | starting (read : String) (frames : List (ReadReply N M F C)) (rows count : Nat)
  | sending (frames : List (ReadReply N M F C)) (rows count : Nat)
  | returned (last : ReadReply N M F C)
  | joined

/-- How a served stream ended. -/
inductive Served where
  | terminal
  | reset
deriving DecidableEq

/-- One read as it is served: the handler, the order and positions of its stream, whether the response is owed, how
many of its frames are unacked, whether the handler waits for an ack, and every frame that was owed. -/
structure Serving (N M F C : Type) where
  handler : Handler N M F C
  order : OrderState
  frames : Nat
  callerGone : Option String
  isOwed : Bool
  unacked : Nat
  waits : Bool
  owed : List (ReadReply N M F C)
  served : Option Served

namespace Serving

/-- A read that takes its rows: they are packed before the stream starts. -/
def answer (read : String) : Except (ReadReply N M F C) (Rows N M F C) → Handler N M F C
  | .error refusal => .returned refusal
  | .ok rows =>
    match readFrames codec rows.intoRows read with
    | .error tooLong => .returned tooLong
    | .ok frames => .starting read frames (rows.len % UInt32.size) (frames.length % UInt32.size)

/-- What a service that reads rows answers a request. -/
def rowsOf (readRows : Entity → Option (String × String) → Q → Except (ReadReply N M F C) (Rows N M F C)) (req : ReadRequest Q) :
    Except (ReadReply N M F C) (Rows N M F C) :=
  match req with
  | .get .connections _ => .error (.rejectedFilter (req.op ++ " is GetConnections (with its node and incarnation), never Get"))
  | .get entity filter => readRows entity none filter
  | .getConnections node incarnation filter => readRows .connections (some (node, incarnation)) filter

def start (handler : Handler N M F C) : Serving N M F C := ⟨handler, .notStarted, 0, none, true, 0, false, [], none⟩

/-- The response is owed no longer. -/
def drop (s : Serving N M F C) : Serving N M F C := { s with isOwed := false, unacked := 0 }

def gone (s : Serving N M F C) (reason : String) : Serving N M F C × Option SinkError :=
  ({ s with callerGone := some reason, waits := false }, some (.callerGone reason))

/-- Owes the frame at the next position and writes it. -/
def put (s : Serving N M F C) (frame : ReadReply N M F C) (written : Written) : Serving N M F C × Option SinkError :=
  if UInt32.size ≤ s.frames then (s, some (.order .pastLastPosition))
  else if s.isOwed = false then s.gone "the caller ended the invocation"
  else
    let s := { s with owed := s.owed ++ [frame], unacked := s.unacked + 1 }
    match written with
    | .stopped 0 => s.drop.gone "the caller dropped the invocation"
    | _ => ({ s with frames := s.frames + 1 }, none)

/-- Writes a frame of the stream, or waits while too many frames are unacked. `changed` is whether an ack is seen before
the end of the response. -/
def write (s : Serving N M F C) (frame : ReadReply N M F C) (written : Written) (changed : Bool) :
    Serving N M F C × Option (Option SinkError) :=
  match codec.size frame with
  | none => (s, some (some (.order .doesNotEncode)))
  | some size =>
    match s.callerGone with
    | some reason => (s, some (some (.callerGone reason)))
    | none =>
      if maxReplyFrameBytes < size then (s, some (some (.tooLarge size maxReplyFrameBytes)))
      else if s.waits = true ∧ s.isOwed = false ∧ changed = false then
        let out := s.gone "the response is owed no longer"
        (out.1, some out.2)
      else if NodeRpc.maxReorderPositions ≤ s.unacked then ({ s with waits := true }, none)
      else
        match s.order.admit frame.frameKind with
        | .error violation => ({ s with waits := false }, some (some (.order violation)))
        | .ok order =>
          let out := { s with order := order, waits := false }.put frame written
          (out.1, some out.2)

/-- Writes the handler's returned frame, which must end the stream. -/
def finish (s : Serving N M F C) (last : ReadReply N M F C) (written : Written) : Serving N M F C :=
  if maxReplyFrameBytes < (codec.size last).getD 0 then { s.drop with handler := .joined, served := some .reset }
  else
    match s.order.finalFrame last.frameKind with
    | .error _ => { s.drop with handler := .joined, served := some .reset }
    | .ok order => { ({ s with order := order }.put last written).1 with handler := .joined, served := some .terminal }

/-- The handler writes a frame and goes on, or says in a refusal that the caller left; or it waits. -/
def sends (s : Serving N M F C) (frame : ReadReply N M F C) (goesOn : Handler N M F C) (left : String) (written : Written)
    (changed : Bool) : Serving N M F C :=
  match s.write codec frame written changed with
  | (s, none) => s
  | (s, some none) => { s with handler := goesOn }
  | (s, some (some e)) => { s with handler := .returned (.notReady (left ++ codec.debug e)) }

/-- The handler's next turn. -/
def next (s : Serving N M F C) (written : Written) (changed : Bool) : Serving N M F C :=
  match s.handler with
  | .starting read frames rows count =>
    s.sends codec (.started read) (.sending frames rows count) "the caller left before the read started: " written changed
  | .sending [] rows count => { s with handler := .returned (.ended rows count) }
  | .sending (frame :: frames) rows count =>
    s.sends codec frame (.sending frames rows count) "the caller left during the read: " written changed
  | .returned last => s.finish codec last written
  | .joined => s

end Serving

end Serving

section Reading

/-- Why a stream did not complete: a frame broke its order, or the transport says. -/
inductive StreamFailure (X : Type) where
  | violation (violation : OrderViolation)
  | ended (cause : X)

/-- How a read ends without its rows. -/
inductive ReadEnd (N M F C X : Type) where
  | rejected (reply : ReadReply N M F C)
  | otherEntity
  | miscounted (rows frames arrivedRows arrivedFrames : Nat)
  | failed (failure : StreamFailure X)
  | noConnections

/-- Where the caller of a read stands: it takes frames, or the read has its end. -/
inductive Reading (N M F C X : Type) where
  | reading (rows : Rows N M F C) (frames : Nat) (order : OrderState)
  | ended (result : Except (ReadEnd N M F C X) (Rows N M F C))

namespace Reading

/-- A frame in the order of the stream. -/
def item (rows : Rows N M F C) (frames : Nat) (order : OrderState) (frame : ReadReply N M F C) : Reading N M F C X :=
  match frame.frameKind, frame with
  | .refusal _, refusal => .ended (.error (.rejected refusal))
  | _, .started _ => .reading rows frames order
  | .data, frame =>
    match rows.take frame with
    | none => .ended (.error .otherEntity)
    | some rows => .reading rows ((frames + 1) % UInt32.size) order
  | _, .ended n f =>
    if n ≠ rows.len ∨ f ≠ frames then .ended (.error (.miscounted n f rows.len frames)) else .ended (.ok rows)
  | _, other => .ended (.error (.rejected other))

/-- The next frame of the stream. -/
def frame (reading : Reading N M F C X) (frame : ReadReply N M F C) : Reading N M F C X :=
  match reading with
  | .reading rows frames order =>
    match order.admit frame.frameKind with
    | .error violation => .ended (.error (.failed (.violation violation)))
    | .ok order => item rows frames order frame
  | .ended result => .ended result

/-- The stream ends without its terminal. -/
def fail (reading : Reading N M F C X) (cause : X) : Reading N M F C X :=
  match reading with
  | .reading _ _ _ => .ended (.error (.failed (.ended cause)))
  | .ended result => .ended result

end Reading

/-- The rows a caller begins with: a get of connections is refused before it is called. -/
def emptyRows : ReadRequest Q → Option (Rows N M F C)
  | .get entity _ => Rows.empty entity
  | .getConnections _ _ _ => some (.connections ⟨"", false, []⟩)

/-- What a caller answers of its read: connections without one frame of them are none. -/
def answered : ReadRequest Q → Except (ReadEnd N M F C X) (Rows N M F C) → Except (ReadEnd N M F C X) (Rows N M F C)
  | .getConnections _ _ _, .ok (.connections view) => if view.node = "" then .error .noConnections else .ok (.connections view)
  | .getConnections _ _ _, .ok _ => .error .noConnections
  | _, result => result

end Reading

section System

/-- A read over its two parties. The transport hands the frames that are owed to the caller in the order of their
positions, each once: `handed` of them so far. -/
structure ReadCall (N M F C X : Type) where
  serving : Serving N M F C
  reading : Reading N M F C X
  handed : Nat

/-- What can happen to a read: the handler goes on, frames are acked, the response is owed no longer, the next frame
reaches the caller, or the caller's stream ends. -/
inductive ReadEvent (X : Type) where
  | next (written : Written) (changed : Bool)
  | acked (frames : Nat)
  | dropped
  | deliver
  | fail (cause : X)

namespace ReadCall

def start (handler : Handler N M F C) (rows : Rows N M F C) : ReadCall N M F C X :=
  ⟨.start handler, .reading rows 0 .notStarted, 0⟩

def step (c : ReadCall N M F C X) : ReadEvent X → ReadCall N M F C X
  | .next written changed => { c with serving := c.serving.next codec written changed }
  | .acked frames => { c with serving := { c.serving with unacked := c.serving.unacked - frames } }
  | .dropped => { c with serving := c.serving.drop }
  | .deliver =>
    match c.serving.owed[c.handed]? with
    | some frame => { c with reading := c.reading.frame frame, handed := c.handed + 1 }
    | none => c
  | .fail cause => { c with reading := c.reading.fail cause }

def run (c : ReadCall N M F C X) (events : List (ReadEvent X)) : ReadCall N M F C X := events.foldl (step codec) c

end ReadCall

end System

end DistributedMesh.ReadStreams
