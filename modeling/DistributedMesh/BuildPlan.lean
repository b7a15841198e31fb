import DistributedMesh.BuildTopology

namespace DistributedMesh.Build

open Std (ExtTreeMap ExtTreeSet)
open LexCode KeyedMaps

/-- The exact exited birth a node recovery acts for. -/
structure ExitedBirth where
  nodeId : String
  incarnation : String
deriving DecidableEq

/-- What a path's entry names for its create. -/
structure EntrySpec where
  executable : Option Binding
  tags : List String
  config : List (String × String)
deriving DecidableEq

/-- One idempotent operation of a Build plan. -/
inductive BuildOperation where
  | createMesh (mesh meshId : String)
  | createNode (path name nodeId mesh type : String) (takenOver : Option ExitedBirth) (executable : Option Binding)
    (entry : Option EntrySpec)
  | deleteLiveNode (path name mesh type : String) (exited : Option ExitedBirth) (birth : Option PinnedBirth)
  | shutdownMesh (mesh meshId : String)
  | deleteFabric (fabricId : String)
deriving DecidableEq

def operationOn (action : String) (subject : OperationSubject) : OperationId := .mk action (some subject) none none

/-- The idempotency key. -/
def BuildOperation.key : BuildOperation → OperationId
  | .createMesh _ meshId => operationOn "create-mesh" (.mesh meshId)
  | .createNode _ _ nodeId _ _ _ _ _ => operationOn "node.create" (.node nodeId)
  | .deleteLiveNode _ _ _ _ exited birth =>
    match (birth.map PinnedBirth.nodeId).or (exited.map ExitedBirth.nodeId) with
    | some id => operationOn "node.delete" (.node id)
    | none => .mk "node.delete" none none none
  | .shutdownMesh _ meshId => operationOn "mesh.delete" (.mesh meshId)
  | .deleteFabric fabricId => operationOn "fabric.delete" (.fabric fabricId)

mutual

/-- The subject as the operation's name carries it. -/
def subjectText : OperationSubject → String
  | .node id => ":" ++ id
  | .birth nodeId _ => ":" ++ nodeId
  | .reserved2 => ""
  | .mesh id => ":" ++ id
  | .fabric id => ":" ++ id
  | .named name => ":" ++ name
  | .primaryUpdate _ preceding => ":" ++ operationText preceding

/-- The operation as the pages write it, its action and its subject. -/
def operationText : OperationId → String
  | .mk action none _ _ => action
  | .mk action (some subject) _ _ => action ++ subjectText subject

end

inductive StepOutcome where
  | complete
  | failed (reason : String)
deriving DecidableEq

/-- A step event of the Build. -/
structure BuildStep where
  operation : String
  step : String
  outcome : StepOutcome
deriving DecidableEq

def completed (steps : List BuildStep) (operation step : String) : Bool :=
  steps.any fun r => r.operation == operation && r.step == step && r.outcome == .complete

/-- The operation's `Complete` step ended complete. -/
def done (steps : List BuildStep) (operation : OperationId) : Bool := completed steps (operationText operation) "Complete"

/-- The operation began: a step event of it is there. -/
def begun (steps : List BuildStep) (operation : OperationId) : Bool :=
  steps.any fun s => s.operation == operationText operation

/-- How the owner of a mesh.delete resumes it. -/
inductive OwnerResume where
  | left
  | deleted
  | lead
deriving DecidableEq

def ownerResume (steps : List BuildStep) (operation : String) : OwnerResume :=
  if completed steps operation "MeshLeft" then .left
  else if completed steps operation "MeshDeleted" then .deleted
  else .lead

def nodeCreateKey (nodeId : String) : OperationId := operationOn "node.create" (.node nodeId)

/-- The delete of the birth pinned at the path. -/
def deletePinned (path : PathName) (birth : PinnedBirth) : BuildOperation :=
  .deleteLiveNode path.1 path.2 birth.mesh birth.type none (some birth)

namespace FabricTopology

/-- The births of a kept mesh that are live or stopped at a path the topology no longer names, and the pinned ones. -/
def surplusBirths (t : FabricTopology) (observed : Topology) : List Node :=
  observed.nodes.filter fun n =>
    let pinned := t.pinned.any fun c => c.1 = n.location && c.2.is n
    (isLive n.status || n.stopped || pinned) && (n.mesh ∈ t.meshes || pinned) && !t.contains n.location

/-- The one step of a mesh's executable replacements a pass plans, over the pins in their order. -/
def replacementOf (t : FabricTopology) (mesh : String) (m : MeshTopology) (steps : List BuildStep) :
    List (PathName × PinnedBirth) → Option BuildOperation
  | [] => none
  | (p, birth) :: rest =>
    if p ∈ m.nodes then
      match t.createdId p with
      | none => replacementOf t mesh m steps rest
      | some nodeId =>
        if done steps (nodeCreateKey nodeId) then replacementOf t mesh m steps rest
        else if !done steps (deletePinned p birth).key then some (deletePinned p birth)
        else (m.spec p).map fun spec => .createNode p.1 p.2 nodeId mesh spec.type none spec.executable none
    else replacementOf t mesh m steps rest

def replacementStep (t : FabricTopology) (mesh : String) (m : MeshTopology) (steps : List BuildStep) : Option BuildOperation :=
  t.replacementOf mesh m steps t.pinned

/-- The birth the view holds at the path satisfies it. -/
def satisfied (observed : Topology) (held : List String) (steps : List BuildStep) (mesh : String) (m : MeshTopology)
    (p : PathName) (nodeId : String) : Bool :=
  (observed.node p).any fun n =>
    n.mesh == mesh && (m.spec p).any (fun s => s.type == n.type) &&
      (isLive n.status || (n.stopped && done steps (nodeCreateKey nodeId)) ||
        (held.contains mesh && (n.status == .pendingReconnect || n.status == .dead)))

/-- The create of a path this Build creates and does not replace, unless it is satisfied. -/
def createStep (t : FabricTopology) (observed : Topology) (held : List String) (steps : List BuildStep) (mesh : String)
    (m : MeshTopology) (p : PathName) : Option BuildOperation :=
  match t.createdId p with
  | none => none
  | some nodeId =>
    if (t.replaced p).isSome then none
    -- A create that began and did not complete is planned again whatever the view holds.
    else if (begun steps (nodeCreateKey nodeId) && !done steps (nodeCreateKey nodeId)) ||
        !satisfied observed held steps mesh m p nodeId then
      -- A listed node has a spec.
      some (.createNode p.1 p.2 nodeId mesh (((m.spec p).map NodeSpec.type).getD "") none
        ((t.nodeSpec p).bind NodeSpec.executable) none)
    else none

/-- A mesh's node-admins, then its other nodes, each in path order. -/
def adminsFirst (m : MeshTopology) : List PathName :=
  let isAdmin (p : PathName) : Bool := (m.spec p).any fun s => isNodeAdmin s.type
  m.nodes.toList.filter isAdmin ++ m.nodes.toList.filter fun p => !isAdmin p

/-- What a mesh of the topology lacks. -/
def planMesh (t : FabricTopology) (observed : Topology) (held : List String) (steps : List BuildStep) (name : String)
    (m : MeshTopology) : List BuildOperation :=
  (if observed.meshes.any fun x => x.name == name then [] else [.createMesh name m.meshId]) ++
    (t.replacementStep name m steps).toList ++ (adminsFirst m).filterMap (t.createStep observed held steps name m)

/-- The delete of the birth pinned at the path, until it is done. -/
def planDelete (t : FabricTopology) (observed : Topology) (steps : List BuildStep) (p : PathName) : Option BuildOperation :=
  (((t.pinned.find? fun c => c.1 = p).map Prod.snd).or ((observed.node p).bind PinnedBirth.of)).bind fun birth =>
    if done steps (deletePinned p birth).key then none else some (deletePinned p birth)

/-- The pinned paths of surplus births, in order, the ones a create of this Build is held at left out. -/
def extra (t : FabricTopology) (observed : Topology) (created : List PathName) : List PathName :=
  (((t.surplusBirths observed).map Node.location).filter fun p => !created.contains p && t.pinned.any fun c => c.1 = p).insertionSort
    fun p q => (pathNameCode.cmp p q).isLE

/-- The meshes the view holds and the topology does not, in order, a deleted one only while its delete is open. -/
def gone (t : FabricTopology) (observed : Topology) (openDeletes : List String) : List String :=
  (((observed.meshes.filter fun m => m.status != .dead || openDeletes.contains m.name).map Mesh.name).filter
    fun m => !t.meshes.contains m).insertionSort fun a b => (stringCode.cmp a b).isLE

/-- The shutdown of a mesh, when a member has stated its id. -/
def shutdownMesh (observed : Topology) (mesh : String) : Option BuildOperation :=
  ((observed.meshes.find? fun m => m.name == mesh).bind Mesh.id).map fun meshId => .shutdownMesh mesh meshId

/-- Every other mesh in name order first, the fabric-primary's own last. -/
def leafInward (observed : Topology) : List Mesh :=
  let fpMesh := observed.fabricPrimary.map Node.mesh
  observed.meshes.insertionSort fun a b =>
    (!(some a.name == fpMesh) && some b.name == fpMesh) ||
      ((some a.name == fpMesh) == (some b.name == fpMesh) && (stringCode.cmp a.name b.name).isLE)

/-- The node.delete of a deleted mesh's final primary, and of each birth whose node.delete began. -/
def finalDeletes (observed : Topology) (steps : List BuildStep) (mesh : String) : List BuildOperation :=
  (observed.nodes.filter fun n =>
    n.mesh == mesh && ((n.isPrimary && (isLive n.status || n.stopped)) || begun steps (operationOn "node.delete" (.node n.nodeId)))).filterMap
    fun n => (PinnedBirth.of n).bind fun birth =>
      if done steps (deletePinned n.location birth).key then none else some (deletePinned n.location birth)

/-- A mesh's part of fabric.delete. -/
def leaveMesh (observed : Topology) (openDeletes : List String) (steps : List BuildStep) (m : Mesh) : List BuildOperation :=
  match m.id with
  | none => []
  | some meshId =>
    match ownerResume steps (operationText (operationOn "mesh.delete" (.mesh meshId))) with
    | .left => []
    | .deleted => if some m.name == observed.fabricPrimary.map Node.mesh then [] else finalDeletes observed steps m.name
    | .lead => if m.status != .dead || openDeletes.contains m.name then [.shutdownMesh m.name meshId] else []

/-- The plan of a topology with no mesh and no pin. -/
def planFabricDelete (observed : Topology) (openDeletes : List String) (steps : List BuildStep) : List BuildOperation :=
  (leafInward observed).flatMap (leaveMesh observed openDeletes steps) ++
    if done steps (BuildOperation.deleteFabric observed.fabricId).key then [] else [.deleteFabric observed.fabricId]

/-- The difference of the topology and the view. -/
def planWith (t : FabricTopology) (observed : Topology) (openDeletes held : List String) (steps : List BuildStep)
    (created : List PathName) : List BuildOperation :=
  if t.meshes.isEmpty && t.pinned.isEmpty then planFabricDelete observed openDeletes steps
  else
    (t.meshes.toList.flatMap fun e => t.planMesh observed held steps e.1 e.2) ++
      (t.extra observed created).filterMap (t.planDelete observed steps) ++
      (t.gone observed openDeletes).filterMap (shutdownMesh observed)

end FabricTopology

end DistributedMesh.Build
