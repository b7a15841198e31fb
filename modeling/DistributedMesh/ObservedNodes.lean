import DistributedMesh.Contests
import DistributedMesh.ElectionSuccessors
import DistributedMesh.Framing
import DistributedMesh.NodeRecords
import DistributedMesh.ViewState

namespace DistributedMesh.Observed

open Std (ExtTreeMap ExtTreeSet)
open KeyedMaps Contests
open Properties (NodeRecord)

inductive ProviderKind where
  | process | container
deriving DecidableEq

/-- The state a birth declared to its authority. -/
inductive NodeState where
  | pending | ready | connectionsDeleting | stopped
deriving DecidableEq

def NodeState.debug : NodeState → String
  | .pending => "Pending"
  | .ready => "Ready"
  | .connectionsDeleting => "ConnectionsDeleting"
  | .stopped => "Stopped"

/-- One node as the fabric control projection knows it, with all the view says of it. -/
structure Node extends Build.Node where
  renamedFrom : Option String
  endpointId : Option String
  deploymentId : Option String
  provider : Option ProviderKind
  dataDir : Option String
  adminApiBase : Option String
  transportAddr : Option String
  listeners : List (String × String)
  routable : Bool
  declared : Option String
deriving DecidableEq

/-- A newly allocated node under the id it is given: identity only. -/
def Node.allocated (name : PathName) (mesh type nodeId : String) : Node where
  path := name.1
  name := name.2
  type := type
  mesh := mesh
  nodeId := nodeId
  incarnationId := none
  status := .pending
  isPrimary := false
  isFabricPrimary := false
  stopped := false
  renamedFrom := none
  endpointId := none
  deploymentId := none
  provider := none
  dataDir := none
  adminApiBase := none
  transportAddr := none
  listeners := []
  routable := false
  declared := none

/-- What a digest view answers as of a projection's instant, each group in the order it enumerates it. -/
structure ViewAnswers where
  /-- Every member held, with how long it has gone unheard. -/
  all : List (MeshDigest × Nat)
  stoppedDigests : List MeshDigest
  /-- The open stops of births no digest was ever held of. -/
  stoppedUnheard : List LifecycleOp
  /-- The births held only from the mesh-primary's projection, with how long each has gone unheard. -/
  projectedUnheard : List (MeshDigest × Nat)
  deleted : List LifecycleOp
  stalenessFloor : Nat
  routable : String → Bool

def ViewAnswers.isDeleted (v : ViewAnswers) (nodeId : String) : Bool := v.deleted.any fun op => op.nodeId == nodeId

/-- The nodes store by node id, an error where an entry cannot be read. -/
abbrev NodesStorage := String → Except String (Option NodeRecord)

/-- What an admin's records hold for a projection. -/
structure Records where
  /-- The births it launched or learned of, each at its own path and name. -/
  nodes : ExtTreeMap PathName Node pathNameCode.cmp
  located : Keyed (fun n : Node => n.location) nodes
  removed : List (PathName × Option String)
  contacts : Option NodesStorage
  /-- The node ids the process holds deleted. -/
  heldDeleted : String → Bool
  declared : ExtTreeMap (String × String) NodeState pathNameCode.cmp
  /-- The exact births held true offline. -/
  offline : Births
  entering : Bool

def holdsItsName (r : Records) (row : NodeRecord) : Bool :=
  !(row.state == .deleted || row.state == .withdrawn) && !r.heldDeleted row.nodeId

def releasedItsName (r : Records) (row : NodeRecord) : Bool := !holdsItsName r row

/-- Where the row of one birth stands. -/
inductive RowName where
  | standsAt (name : PathName)
  | unreadable
deriving DecidableEq

/-- Where a birth's row stands, and whether it released its name. A node that holds no row keeps the name it published. -/
def rowName (r : Records) (store : NodesStorage) (nodeId : String) (published : PathName) : RowName × Bool :=
  match store nodeId with
  | .ok (some record) => (.standsAt (record.path, record.name), releasedItsName r record)
  | .ok none => (.standsAt published, false)
  | .error _ => (.unreadable, false)

/-- The birth speaks for its own name: it published within the staleness floor and is not held true offline. -/
def publishes (v : ViewAnswers) (r : Records) (nodeId incarnation : String) (age : Nat) : Bool :=
  age ≤ v.stalenessFloor && !r.offline.contains (nodeId, incarnation)

/-- A birth and the name it last published. -/
structure Publication where
  nodeId : String
  incarnation : String
  published : PathName
deriving DecidableEq

namespace Publication

def ofDigest (d : MeshDigest) : Publication := ⟨d.node.nodeId, d.node.incarnation, d.node.location⟩

def ofStop (op : LifecycleOp) : Publication := ⟨op.nodeId, op.incarnation, op.location⟩

def birth (b : Publication) : String × String := (b.nodeId, b.incarnation)

end Publication

namespace ViewAnswers

def ofFabric (v : ViewAnswers) (fabric : String) : List (MeshDigest × Nat) := v.all.filter fun e => e.1.fabricId == fabric

/-- The births of the fabric that do not publish their own name. -/
def quiet (v : ViewAnswers) (r : Records) (fabric : String) : List Publication :=
  ((v.ofFabric fabric).filter fun e => !publishes v r e.1.node.nodeId e.1.node.incarnation e.2).map
      (fun e => .ofDigest e.1) ++
    (v.stoppedDigests.filter fun d => d.fabricId == fabric).map .ofDigest ++ v.stoppedUnheard.map .ofStop

def publishing (v : ViewAnswers) (r : Records) (fabric : String) : List Publication :=
  ((v.ofFabric fabric).filter fun e => publishes v r e.1.node.nodeId e.1.node.incarnation e.2).map fun e => .ofDigest e.1

end ViewAnswers

/-- The name a quiet birth's row moved to. -/
def movedName (r : Records) (store : NodesStorage) (b : Publication) : Option PathName :=
  match (rowName r store b.nodeId b.published).1 with
  | .standsAt moved => if moved = b.published then none else some moved
  | .unreadable => none

/-- Every name a birth the view holds is listed at, once for each. -/
def listedNames (v : ViewAnswers) (r : Records) (store : NodesStorage) (fabric : String) : List PathName :=
  (v.quiet r fabric ++ v.publishing r fabric).map Publication.published ++
    (v.projectedUnheard.filter fun e => e.1.fabricId == fabric).map (fun e => e.1.node.location) ++
    (v.quiet r fabric).filterMap (movedName r store)

/-- The names the rows hold for the births that do not publish their own, and the births whose rows released theirs. -/
structure RowNames where
  names : ExtTreeMap (String × String) (PathName × RowName) pathNameCode.cmp
  released : Births

namespace RowNames

def releaseWhen (rows : RowNames) (b : Publication) (released : Bool) : RowNames :=
  if released then { rows with released := rows.released.insert b.birth } else rows

def readQuiet (r : Records) (store : NodesStorage) (rows : RowNames) (b : Publication) : RowNames :=
  let (name, released) := rowName r store b.nodeId b.published
  let rows := rows.releaseWhen b released
  { rows with names := rows.names.insert b.birth (b.published, name) }

/-- Only whether its row released the name, and only where another birth is listed at that name too. -/
def readPublishing (r : Records) (store : NodesStorage) (listed : List PathName) (rows : RowNames) (b : Publication) :
    RowNames :=
  if listed.count b.published < 2 then rows else rows.releaseWhen b (rowName r store b.nodeId b.published).2

def read (v : ViewAnswers) (r : Records) (fabric : String) : RowNames :=
  match r.contacts with
  | none => ⟨∅, ∅⟩
  | some store =>
    let rows := (v.quiet r fabric).foldl (readQuiet r store) ⟨∅, ∅⟩
    (v.publishing r fabric).foldl (readPublishing r store (listedNames v r store fabric)) rows

/-- The name a birth is listed at: its row's when it was read, else the published one. -/
def nameOf (rows : RowNames) (b : Publication) : Option PathName :=
  match rows.names[b.birth]? with
  | some (_, .standsAt name) => some name
  | some (_, .unreadable) => none
  | none => some b.published

def releasedBy (rows : RowNames) (n : Node) : Bool := n.incarnationId.any fun inc => rows.released.contains (n.nodeId, inc)

/-- Which of two births at one path the rows say is current, when they say it. -/
def takesPath (rows : RowNames) (listed candidate : Node) : Option Bool :=
  match rows.releasedBy listed, rows.releasedBy candidate with
  | true, false => some true
  | false, true => some false
  | _, _ => none

/-- The rule of a held birth: where the rows do not tell, a live birth never yields to one that is not. -/
def takesHeld (rows : RowNames) (listed candidate : Node) : Bool :=
  (rows.takesPath listed candidate).getD !(Build.isLive listed.status && !Build.isLive candidate.status)

/-- The rule of every other birth: only from one that is not current. -/
def takesPlace (rows : RowNames) (listed candidate : Node) : Bool := rows.takesPath listed candidate == some true

end RowNames

/-- The launch record of the exact birth, whatever name it is listed at. -/
def launched (recorded : ExtTreeMap PathName Node pathNameCode.cmp) (incarnation : Option String) : Option Node :=
  incarnation.bind fun inc => (values recorded).find? fun n => n.incarnationId == some inc

/-- What the launch record of the birth adds. -/
def Node.withLaunched (recorded : ExtTreeMap PathName Node pathNameCode.cmp) (n : Node) : Node :=
  match launched recorded n.incarnationId with
  | some l => { n with deploymentId := l.deploymentId.or n.deploymentId, dataDir := l.dataDir, listeners := l.listeners }
  | none => n

def declaredText (r : Records) (nodeId incarnation : String) : Option String :=
  r.declared[(nodeId, incarnation)]?.map NodeState.debug

/-- The deployment a runtime fact names, when its id is well formed. -/
def deployment (f : RuntimeFact) : Option String := if Framing.canonical f.deploymentId then some f.deploymentId else none

/-- A node listed from a digest. -/
def ofDigest (r : Records) (provider : ProviderKind) (name : PathName) (d : MeshDigest) (status : NodeStatus)
    (stopped routable : Bool) : Node :=
  Node.withLaunched r.nodes
    { Node.allocated name d.node.mesh d.node.type d.node.nodeId with
      endpointId := some d.node.endpointId
      incarnationId := some d.node.incarnation
      provider := some provider
      status := status
      stopped := stopped
      routable := routable
      declared := declaredText r d.node.nodeId d.node.incarnation
      adminApiBase := d.adminApiBase
      transportAddr := some d.node.transportAddr
      dataDir := d.dataDir
      deploymentId := d.node.runtime.bind deployment }

/-- A node listed from a stop it never held a digest of. -/
def ofStop (r : Records) (provider : ProviderKind) (name : PathName) (op : LifecycleOp) : Node :=
  Node.withLaunched r.nodes
    { Node.allocated name op.mesh op.type op.nodeId with
      incarnationId := some op.incarnation
      provider := some provider
      status := .leaving
      stopped := true
      declared := declaredText r op.nodeId op.incarnation }

/-- A birth's status: dead while it is held true offline, its own within the floor, and past it unheard. -/
def heardStatus (v : ViewAnswers) (r : Records) (d : MeshDigest) (age : Nat) : NodeStatus :=
  if r.offline.contains (d.node.nodeId, d.node.incarnation) then .dead
  else if age ≤ v.stalenessFloor then d.status
  else .pendingReconnect

section Passes

variable (v : ViewAnswers) (r : Records) (rows : RowNames) (fabric : String) (provider : ProviderKind)

/-- A birth entered at its name, unless the name is not known or the birth was removed from it. -/
def entered (name : Option PathName) (incarnation : String) (node : PathName → Node) : Option (PathName × Node) :=
  name.bind fun name => if r.removed.contains (name, some incarnation) then none else some (name, node name)

/-- The name a held birth is listed at: the one it publishes, else its row's. -/
def heldName (d : MeshDigest) (age : Nat) : Option PathName :=
  if publishes v r d.node.nodeId d.node.incarnation age then some d.node.location else rows.nameOf (.ofDigest d)

def heldNode (d : MeshDigest) (age : Nat) (name : PathName) : Node :=
  let status := heardStatus v r d age
  ofDigest r provider name d status false (status == .ready && v.routable d.node.nodeId)

def heldEntry (e : MeshDigest × Nat) : Option (PathName × Node) :=
  if e.1.fabricId != fabric then none
  else entered r (heldName v r rows e.1 e.2) e.1.node.incarnation (heldNode v r provider e.1 e.2)

def stoppedEntry (d : MeshDigest) : Option (PathName × Node) :=
  if d.fabricId != fabric || v.isDeleted d.node.nodeId then none
  else entered r (rows.nameOf (.ofDigest d)) d.node.incarnation fun name => ofDigest r provider name d .leaving true false

def stopEntry (op : LifecycleOp) : Option (PathName × Node) :=
  if v.isDeleted op.nodeId then none
  else entered r (rows.nameOf (.ofStop op)) op.incarnation fun name => ofStop r provider name op

def projectedEntry (e : MeshDigest × Nat) : Option (PathName × Node) :=
  if e.1.fabricId != fabric then none
  else entered r (rows.nameOf (.ofDigest e.1)) e.1.node.incarnation fun name =>
    ofDigest r provider name e.1 (heardStatus v r e.1 e.2) false false

/-- Every birth the view has spoken for, whatever became of it. -/
def heard : List String :=
  (v.ofFabric fabric).map (fun e => e.1.node.incarnation) ++
    (v.stoppedDigests.filter fun d => !(d.fabricId != fabric || v.isDeleted d.node.nodeId)).map
      (fun d => d.node.incarnation) ++
    (v.stoppedUnheard.filter fun op => !v.isDeleted op.nodeId).map LifecycleOp.incarnation ++
    (v.projectedUnheard.filter fun e => e.1.fabricId == fabric).map (fun e => e.1.node.incarnation) ++
    v.deleted.map LifecycleOp.incarnation

/-- The launch records that still stand in for their births. -/
def launches : List (PathName × Node) :=
  r.nodes.toList.filter fun e => !((e.2.incarnationId.any (heard v fabric).contains) || v.isDeleted e.2.nodeId)

def heldEntries : List (PathName × Node) := v.all.filterMap (heldEntry v r rows fabric provider)

def stoppedEntries : List (PathName × Node) := v.stoppedDigests.filterMap (stoppedEntry v r rows fabric provider)

def stopEntries : List (PathName × Node) := v.stoppedUnheard.filterMap (stopEntry v r rows provider)

def projectedEntries : List (PathName × Node) := v.projectedUnheard.filterMap (projectedEntry v r rows fabric provider)

/-- The birth listed at each path. -/
def places : ExtTreeMap PathName Node pathNameCode.cmp :=
  let nodes := enterAll rows.takesHeld ∅ (heldEntries v r rows fabric provider)
  let nodes := enterAll rows.takesPlace nodes (stoppedEntries v r rows fabric provider)
  let nodes := enterAll rows.takesPlace nodes (stopEntries v r rows provider)
  let nodes := enterAll rows.takesPlace nodes (projectedEntries v r rows fabric provider)
  enterAll rows.takesPlace nodes (launches v r fabric)

end Passes

/-- Mark every role by the election; an admin not told yet who holds the roles elects nobody. -/
def markRoles (r : Records) (decided : Election.Incumbency) (nodes : List Node) : List Node :=
  if r.entering then nodes.map fun n => { n with isPrimary := false, isFabricPrimary := false }
  else
    nodes.zipWith (fun n m => { n with isPrimary := m.isPrimary, isFabricPrimary := m.isFabricPrimary })
      (Election.resolved (nodes.map Node.toNode) decided)

/-- The nodes of the observed topology, from what a view answers, the records and the rows read. -/
def projectDecidedAt (v : ViewAnswers) (r : Records) (rows : RowNames) (fabric : String) (provider : ProviderKind)
    (decided : Election.Incumbency) : List Node :=
  markRoles r decided (values (places v r rows fabric provider))

end DistributedMesh.Observed
