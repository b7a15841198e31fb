import DistributedMesh.BuildTopology

namespace DistributedMesh.Build

open Std (ExtTreeMap ExtTreeSet)
open LexCode KeyedMaps

/-- The paths and names a change adds, those outside the name grammar left out. -/
def BuildChange.createdPaths : BuildChange → PathNames
  | .create _ nodes => ExtTreeSet.ofList (nodes.filterMap fun n => (PathName.new n.path n.name).toOption) pathNameCode.cmp
  | _ => ∅

def reject {α : Type} (r : BuildReject) : Except Halt α := .error (.reject r)

/-- The meshes a Create adds, each under an id minted now. -/
def createMeshes (mint : Minted) : FabricTopology → List String → List Meshes → Except Halt (FabricTopology × List String)
  | next, added, [] => .ok (next, added)
  | next, added, m :: rest =>
    if !isValidMeshName m.name then reject (.invalidMeshName m.name)
    else if m.name ∈ next.meshes then reject (.meshAlreadyExists m.name)
    else if m.name ∈ added then reject (.duplicateMesh m.name)
    else createMeshes mint (next.setMesh (.empty m.name (mint.mesh m.name)) m.name) (added ++ [m.name]) rest

/-- The entry a created node takes. -/
def specOfNode (path : PathName) (n : Nodes) (executable : Binding) : NodeSpec :=
  ⟨path.1, path.2, n.mesh, n.type, n.storagePersistence.getD (.ofType n.type), some executable, n.tags, n.config⟩

/-- One node a Create adds, at the path and name it asks for. -/
def createNode (observed : Topology) (replaced named : List PathName) (next : FabricTopology) (n : Nodes) :
    Except Halt (PathName × FabricTopology) :=
  match PathName.new n.path n.name with
  | .error e => reject (.invalidNodeName n.path n.name e)
  | .ok path =>
    -- Held by a node now and not replaced, or named twice.
    if ((observed.node path).isSome && !(path ∈ replaced)) || path ∈ named then reject (.nameHeld path.1 path.2)
    else
      match n.executable with
      | none => reject (.executableMissing path.1 path.2)
      | some executable =>
        match tagsRefusal n.tags with
        | some detail => reject (.tagsRefused path.1 path.2 detail)
        | none =>
          match next.meshes[n.mesh]? with
          | none => reject (.unknownMesh n.mesh)
          | some mesh => .ok (path, next.setMesh (mesh.insert path (specOfNode path n executable)) n.mesh)

def createNodes (observed : Topology) (replaced : List PathName) :
    List PathName → FabricTopology → List Nodes → Except Halt FabricTopology
  | _, next, [] => .ok next
  | named, next, n :: rest =>
    match createNode observed replaced named next n with
    | .error e => .error e
    | .ok (path, next) => createNodes observed replaced (named ++ [path]) next rest

/-- What a Create adds. -/
def created (mint : Minted) (observed : Topology) (replaced : List PathName) (next : FabricTopology) (meshes : List Meshes)
    (nodes : List Nodes) : Except Halt FabricTopology :=
  if meshes.isEmpty && nodes.isEmpty then reject .noNodeListed
  else
    match createMeshes mint next [] meshes with
    | .error e => .error e
    | .ok (next, added) =>
      match createNodes observed replaced [] next nodes with
      | .error e => .error e
      | .ok next =>
        match (ExtTreeSet.ofList added stringCode.cmp).toList.find? fun m =>
            (next.meshes[m]?).all fun m => m.count "node-admin" == 0 with
        | some mesh => reject (.meshWithoutAdmin mesh)
        | none => .ok next

/-- One node a Delete removes; the last node of a deleted mesh takes its mesh with it. -/
def deleteNode (observed : Topology) (meshes : List String) (next : FabricTopology) (id : String) :
    Except Halt FabricTopology :=
  match observed.birthOfNodeId id with
  | none => reject (.unknownNodeId id)
  | some birth =>
    match next.nodeSpec birth.location with
    | none => reject (.unknownNodeId id)
    | some spec =>
      match next.meshes[spec.mesh]? with
      | none => .error .panics
      | some m =>
        if isNodeAdmin spec.type && m.count "node-admin" ≤ 1 && !(spec.mesh ∈ meshes) && !observed.isDead spec.mesh then
          reject (.wouldLeaveMeshWithoutAdmin spec.mesh)
        else if observed.isDead spec.mesh && (m.remove birth.location).nodes.isEmpty then .ok (next.removeMesh spec.mesh)
        else .ok (next.setMesh (m.remove birth.location) spec.mesh)

def deleteNodes (observed : Topology) (meshes : List String) : FabricTopology → List String → Except Halt FabricTopology
  | next, [] => .ok next
  | next, id :: rest =>
    match deleteNode observed meshes next id with
    | .error e => .error e
    | .ok next => deleteNodes observed meshes next rest

def deleteMeshes : FabricTopology → List String → Except Halt FabricTopology
  | next, [] => .ok next
  | next, mesh :: rest => if mesh ∈ next.meshes then deleteMeshes (next.removeMesh mesh) rest else reject (.unknownMesh mesh)

/-- What a Delete removes. -/
def deleted (observed : Topology) (next : FabricTopology) (meshes nodeIds : List String) : Except Halt FabricTopology :=
  if meshes.isEmpty && nodeIds.isEmpty then reject .noNodeListed
  else
    match deleteNodes observed meshes next nodeIds with
    | .error e => .error e
    | .ok next =>
      match deleteMeshes next meshes with
      | .error e => .error e
      | .ok next =>
        -- Only a fabric with a live mesh left is refused its last mesh.
        if next.meshes.isEmpty && observed.meshes.any (fun m => m.status != .dead) then reject .emptyFabric else .ok next

/-- The topology a change's meshes and nodes give, before its nodes take their ids. -/
def applied (mint : Minted) (observed : Topology) (replaced : List PathName) (next : FabricTopology) :
    BuildChange → Except Halt FabricTopology
  | .create meshes nodes => created mint observed replaced next meshes nodes
  | .delete meshes nodeIds => deleted observed next meshes nodeIds
  | .deleteFabric => .ok { next with meshes := ∅ }

/-- The change applied once to the topology the records hold; `replaced` holds the held paths a Create names that are a node's
executable replacement. -/
def compileReplacing (mint : Minted) (accepted : FabricTopology) (change : BuildChange) (observed : Topology)
    (replaced : List PathName) : Except Halt FabricTopology :=
  match applied mint observed replaced (.ofRecords mint observed accepted) change with
  | .error e => .error e
  | .ok next =>
    if change = .deleteFabric then .ok next
    else if next.meshes.isEmpty then .ok (next.mintCreated mint change.createdPaths.toList)
    else
      match next.validate with
      | .error r => reject r
      | .ok () => .ok (next.mintCreated mint change.createdPaths.toList)

end DistributedMesh.Build
