import DistributedMesh.Decimals
import DistributedMesh.ViewMembers

namespace DistributedMesh.Gossip

/-- The hook a reserved state frame carried. -/
structure StateHook where
  fabricId : String
  nodeId : String
  incarnation : String
  buildId : String
  operation : OperationId
  publisher : String
  eventAtRafkaMs : Nat
deriving DecidableEq

/-- What travels on a mesh channel or the backbone, without the context it was authored under. -/
inductive Frame where
  | digest (digest : MeshDigest)
  | topologyFull (mesh : String) (publisher : PublisherId) (forwardedBy : Option String)
      (topologyVersion publishedAtRafkaMs snapshotId chunkIndex chunkCount : Nat) (digests : List MeshDigest)
      (inFlight deleted : List LifecycleOp)
  | topologyDelta (mesh : String) (sourcePublisher : PublisherId) (baseVersion topologyVersion publishedAtRafkaMs : Nat)
      (changed : List MeshDigest) (removed : List String) (inFlight deleted : List LifecycleOp)
  | nodeDeleting (op : LifecycleOp) (forwardedBy : Option String) (publisher : PublisherId) (topologyVersion : Nat)
  | nodeDeleted (op : LifecycleOp) (forwardedBy : Option String)
  | nodeRestarting (op : LifecycleOp) (forwardedBy : Option String) (publisher : PublisherId) (topologyVersion : Nat)
  | meshStatus (mesh status publisher : String) (forwardedBy : Option String) (changedAtRafkaMs : Nat)
  | fabricStatus (fabric status publisher : String) (forwardedBy : Option String) (changedAtRafkaMs : Nat)
  | concern (role : PrimaryRole) (nodeId incarnation observer : String)
  | nodeConnectionsDeleting (op : LifecycleOp) (forwardedBy : Option String)
  | nodeLeaving (op : LifecycleOp) (forwardedBy : Option String)
  | nodeLeft (op : LifecycleOp) (forwardedBy : Option String)
  | nodeConnectionsDeleted (op : LifecycleOp) (forwardedBy : Option String)
  | newFabricPrimary (primary : Primary) (endpointId transportAddr : String) (adminApiBase : Option String)
  | reserved15 (hook : StateHook) (forwardedBy : Option String)
  | reserved16 (hook : StateHook) (forwardedBy : Option String)
  | reserved17 (hook : StateHook) (forwardedBy : Option String)
  | reserved18 (hook : StateHook) (forwardedBy : Option String)
  | nodeStopped (op : LifecycleOp) (forwardedBy : Option String) (publisher : PublisherId) (topologyVersion : Nat)
deriving DecidableEq

/-- The immutable context an event was authored under. -/
structure Context where
  /-- Unique within its source. -/
  id : String
  source : Birth
  kind : String
  subject : String
  /-- The event's version as it is ordered, absent on facts. -/
  sequence : Option String
  timeMs : Nat
  /-- The owner and the counter of a publication of a whole topology. -/
  publication : Option (Birth × Nat)
  traceparent : Option String
  tracestate : Option String
deriving DecidableEq

/-- A frame in process, with its author's context when it has one. -/
structure Carried where
  context : Option Context
  data : Frame
deriving DecidableEq

/-- The types of the catalog, in the order of their pages. -/
def types : List String :=
  ["rdm.mesh.digest", "rdm.mesh.members", "rdm.mesh.members.delta", "rdm.node.deleting", "rdm.node.deleted",
    "rdm.node.restarting", "rdm.mesh.status", "rdm.fabric.status", "rdm.mesh.concern",
    "rdm.node.connections.deleting", "rdm.node.leaving", "rdm.node.left", "rdm.node.connections.deleted",
    "rdm.fabric.primary.new", "rdm.fabric.state.committing", "rdm.fabric.state.committed",
    "rdm.fabric.traffic.opening", "rdm.fabric.traffic.opened", "rdm.node.stopped"]

/-- A frame's schema index, which is its type's place in the catalog. -/
def Frame.kindIndex : Frame → Nat
  | .digest .. => 0
  | .topologyFull .. => 1
  | .topologyDelta .. => 2
  | .nodeDeleting .. => 3
  | .nodeDeleted .. => 4
  | .nodeRestarting .. => 5
  | .meshStatus .. => 6
  | .fabricStatus .. => 7
  | .concern .. => 8
  | .nodeConnectionsDeleting .. => 9
  | .nodeLeaving .. => 10
  | .nodeLeft .. => 11
  | .nodeConnectionsDeleted .. => 12
  | .newFabricPrimary .. => 13
  | .reserved15 .. => 14
  | .reserved16 .. => 15
  | .reserved17 .. => 16
  | .reserved18 .. => 17
  | .nodeStopped .. => 18

def Frame.type (f : Frame) : String := types[f.kindIndex]?.getD ""

/-- A counter as its sequence is written: twenty decimal digits. -/
def p (value : Nat) : String := String.ofList (Decimals.padded 20 value)

/-- The counter twenty digits name, when it is one of 64 bits. -/
def scalar (value : String) : Option Nat :=
  let n := Decimals.valueOf value.toList
  if value.length = 20 ∧ value.toList.all Char.isDigit ∧ n < 2 ^ 64 then some n else none

/-- The text before the first `sep` and the text after it. -/
def splitOnce (sep : Char) (s : String) : Option (String × String) :=
  if sep ∈ s.toList then
    some (String.ofList (s.toList.takeWhile (· ≠ sep)), String.ofList ((s.toList.dropWhile (· ≠ sep)).drop 1))
  else none

theorem length_p {n : Nat} (h : n < 2 ^ 64) : (p n).length = 20 := by
  rw [p, String.length_ofList]
  exact Decimals.length_padded (by decide) (by omega)

theorem scalar_p {n : Nat} (h : n < 2 ^ 64) : scalar (p n) = some n := by
  have hvalue : Decimals.valueOf (p n).toList = n := by
    rw [p, String.toList_ofList, Decimals.valueOf_padded]
  have hdigits : (p n).toList.all Char.isDigit = true := by
    rw [p, String.toList_ofList, List.all_eq_true]
    exact Decimals.isDigit_padded 20 n
  unfold scalar
  dsimp only
  rw [hvalue, if_pos ⟨length_p h, hdigits, h⟩]

/-- The primary record's revision in a status sequence. -/
def Context.primaryRevision (c : Context) : Option Nat := do
  let sequence ← c.sequence
  let (revision, _) ← splitOnce '.' sequence
  scalar revision

def hexDigit (n : Nat) : Char := if n < 10 then Char.ofNat (48 + n) else Char.ofNat (55 + n)

/-- One byte of a name in an identity: as it is where it needs no escape. -/
def escapedByte (b : UInt8) : List Char :=
  let c := Char.ofUInt8 b
  if b < 128 ∧ (c.isAlphanum ∨ c = '-' ∨ c = '.' ∨ c = '_' ∨ c = '~') then [c]
  else ['%', hexDigit (b.toNat / 16), hexDigit (b.toNat % 16)]

def escaped (s : String) : String :=
  String.ofList ((s.toList.flatMap String.utf8EncodeChar).flatMap escapedByte)

def path (parts : List String) : String := "/".intercalate (parts.map escaped)

def birthParts (b : Birth) : List String := [b.fabric, b.node, b.incarnation]

def operationParts : OperationId → List String
  | .mk action _ step occurrence => [action, (step.map toString).getD "", occurrence.getD ""]

def operation (op : LifecycleOp) : List String :=
  op.buildId :: operationParts op.operation ++ [op.mesh, op.nodeId, op.incarnation]

/-- The birth of a publisher in its fabric. -/
def publisherBirth (fabric : String) (publisher : PublisherId) : Birth :=
  ⟨fabric, publisher.nodeId, publisher.incarnation⟩

/-- What a frame's own data say of its context. -/
structure Derived where
  source : Birth
  subject : String
  sequence : Option String
  identity : List String
  timeMs : Nat
  publication : Option (Birth × Nat)

def derivedOf (author : Birth) (primaryRevision nowMs : Nat) : Frame → Derived
  | .digest d =>
    let source : Birth := ⟨d.fabricId, d.node.nodeId, d.node.incarnation⟩
    { source := source, subject := "birth/" ++ path (birthParts source), sequence := some (p d.digestSeq)
      identity := birthParts source ++ [toString d.digestSeq], timeMs := d.emittedAtRafkaMs, publication := none }
  | .topologyFull mesh publisher _ topologyVersion publishedAt snapshotId chunkIndex _ _ _ _ =>
    let source := publisherBirth author.fabric publisher
    { source := source, subject := "mesh/" ++ escaped mesh ++ "/publisher/" ++ path (birthParts source)
      sequence := some (p topologyVersion)
      identity := mesh :: birthParts source ++ toString topologyVersion :: birthParts author ++
        [toString snapshotId, toString chunkIndex]
      timeMs := publishedAt, publication := some (author, snapshotId) }
  | .topologyDelta mesh sourcePublisher baseVersion topologyVersion publishedAt _ _ _ _ =>
    let source := publisherBirth author.fabric sourcePublisher
    { source := source, subject := "mesh/" ++ escaped mesh ++ "/publisher/" ++ path (birthParts source)
      sequence := some (p topologyVersion)
      identity := mesh :: birthParts source ++ [toString baseVersion, toString topologyVersion]
      timeMs := publishedAt, publication := none }
  | .meshStatus mesh _ _ _ changedAt =>
    { source := author, subject := "mesh/" ++ escaped mesh ++ "/status"
      sequence := some (p primaryRevision ++ "." ++ p changedAt)
      identity := [mesh, toString primaryRevision, toString changedAt], timeMs := changedAt, publication := none }
  | .fabricStatus fabric _ _ _ changedAt =>
    { source := author, subject := "fabric/" ++ fabric ++ "/status"
      sequence := some (p primaryRevision ++ "." ++ p changedAt)
      identity := [fabric, toString primaryRevision, toString changedAt], timeMs := changedAt, publication := none }
  | .reserved15 hook _ | .reserved16 hook _ | .reserved17 hook _ | .reserved18 hook _ =>
    { source := author, subject := "birth/" ++ hook.fabricId ++ "/" ++ hook.nodeId ++ "/" ++ hook.incarnation
      sequence := none
      identity := hook.fabricId :: hook.buildId :: operationParts hook.operation ++ [hook.nodeId, hook.incarnation]
      timeMs := hook.eventAtRafkaMs, publication := none }
  | .nodeDeleting op .. | .nodeDeleted op _ | .nodeRestarting op .. | .nodeStopped op ..
  | .nodeConnectionsDeleting op _ | .nodeConnectionsDeleted op _ | .nodeLeaving op _ | .nodeLeft op _ =>
    { source := author, subject := "birth/" ++ author.fabric ++ "/" ++ op.nodeId ++ "/" ++ op.incarnation
      sequence := none, identity := operation op, timeMs := op.eventAtRafkaMs, publication := none }
  | .concern _ nodeId incarnation observer =>
    { source := author, subject := "birth/" ++ author.fabric ++ "/" ++ nodeId ++ "/" ++ incarnation
      sequence := none, identity := [nodeId, incarnation, observer], timeMs := nowMs, publication := none }
  | .newFabricPrimary primary .. =>
    { source := author, subject := "fabric/" ++ author.fabric ++ "/primary", sequence := none
      identity := [primary.nodeId, primary.incarnation], timeMs := nowMs, publication := none }

/-- A trace as an author's span names it. -/
structure Trace where
  parent : Option String
  state : Option String
deriving DecidableEq

/-- The context of a frame of its author, the committed revision it holds and the time. -/
def Context.authored (frame : Frame) (author : Birth) (primaryRevision nowMs : Nat) (trace : Trace) : Context :=
  let d := derivedOf author primaryRevision nowMs frame
  { id := frame.type ++ "/" ++ path d.identity, source := d.source, kind := frame.type, subject := d.subject
    sequence := d.sequence, timeMs := d.timeMs, publication := d.publication
    traceparent := trace.parent, tracestate := trace.state }

/-- Bind a frame without a context to its author. -/
def Carried.authored (f : Carried) (author : Birth) (primaryRevision timeMs : Nat) (trace : Trace) : Carried :=
  match f.context with
  | some _ => f
  | none => { f with context := some (Context.authored f.data author primaryRevision timeMs trace) }

end DistributedMesh.Gossip
