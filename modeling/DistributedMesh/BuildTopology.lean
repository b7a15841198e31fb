import DistributedMesh.BuildLog
import DistributedMesh.KeyedMaps
import DistributedMesh.TopologyTypes

namespace DistributedMesh.Build

open Std (ExtTreeMap ExtTreeSet)
open LexCode KeyedMaps

abbrev PathName := String × String

def pathNameCode : Code PathName := pairCode stringCode stringCode

abbrev PathNames := ExtTreeSet PathName pathNameCode.cmp

/-- Why a path/name pair was refused. -/
inductive PathNameError where
  | path (path : String)
  | name (name : String)
deriving DecidableEq

def segmentChar (c : Char) : Bool := c.isLower || c.isDigit || c == '-' || c == '_' || c == '~'

/-- A segment of ASCII characters, so its length is its bytes. -/
def validSegment (s : List Char) : Bool := !s.isEmpty && s.length ≤ 64 && s.all segmentChar

def PathName.new (path name : String) : Except PathNameError PathName :=
  if !(path.toList.splitOn '.').all validSegment then .error (.path path)
  else if !validSegment name.toList then .error (.name name)
  else .ok (path, name)

def isValidMeshName (m : String) : Bool :=
  match m.toList with
  | [] => false
  | c :: cs => (c :: cs).length ≤ 64 && (c.isLower || c.isDigit) && (c :: cs).all fun c => c.isLower || c.isDigit || c == '-'

/-- Why a tag set is refused. -/
inductive TagsRefusal where
  | tooMany (labels : Nat)
  | empty
  | long (tag : String) (bytes : Nat)
  | leadingDot (tag : String)
  | outsideGrammar (tag : String)
deriving DecidableEq

def maxNodeTags : Nat := 32

def maxTagBytes : Nat := 64

def tagRefusal (tag : String) : Option TagsRefusal :=
  if tag == "" then some .empty
  else if tag.utf8ByteSize > maxTagBytes then some (.long tag tag.utf8ByteSize)
  else if tag.toList.head? == some '.' then some (.leadingDot tag)
  else if !tag.toList.all (fun c => segmentChar c || c == '.') then some (.outsideGrammar tag)
  else none

def tagsRefusal (tags : List String) : Option TagsRefusal :=
  if tags.length > maxNodeTags then some (.tooMany tags.length) else tags.findSome? tagRefusal

def isNodeAdmin (type : String) : Bool := type == "node-admin"

def StoragePersistence.ofType (type : String) : StoragePersistence :=
  if isNodeAdmin type then .persistent .preserve else .ephemeral

/-- The create spec of a path. -/
structure NodeSpec where
  path : String
  name : String
  mesh : String
  type : String
  storagePersistence : StoragePersistence
  executable : Option Binding
  tags : List String
  config : List (String × String)
deriving DecidableEq

def NodeSpec.location (s : NodeSpec) : PathName := (s.path, s.name)

def NodeSpec.defaultFor (path : PathName) (mesh type : String) : NodeSpec :=
  ⟨path.1, path.2, mesh, type, .ofType type, none, [], []⟩

/-- One mesh of the accepted topology. -/
structure MeshTopology where
  name : String
  meshId : String
  nodes : PathNames
  specByPath : ExtTreeMap PathName NodeSpec pathNameCode.cmp

/-- The exact birth an operation carries. -/
structure PinnedBirth where
  type : String
  mesh : String
  nodeId : String
  incarnation : String
deriving DecidableEq

/-- The complete accepted Fabric topology. -/
structure FabricTopology where
  fabric : String
  meshes : ExtTreeMap String MeshTopology stringCode.cmp
  topologyStorageProvider : Option String
  pinned : List (PathName × PinnedBirth)
  created : List (PathName × String)

inductive ScopeStatus where
  | pending | ready | leaving | dead
deriving DecidableEq

/-- One node as the fabric control projection knows it. -/
structure Node where
  path : String
  name : String
  type : String
  mesh : String
  nodeId : String
  incarnationId : Option String
  status : NodeStatus
  isPrimary : Bool
  isFabricPrimary : Bool
  stopped : Bool
deriving DecidableEq

def Node.location (n : Node) : PathName := (n.path, n.name)

def isLive : NodeStatus → Bool
  | .pending => true
  | .ready => true
  | .connectionsDeleting => true
  | _ => false

structure Mesh where
  /-- None until a member of the mesh has said which id it carries. -/
  id : Option String
  name : String
  status : ScopeStatus
deriving DecidableEq

/-- The view the fabric-primary observes. -/
structure Topology where
  fabricId : String
  fabricName : String
  meshes : List Mesh
  nodes : List Node
deriving DecidableEq

namespace Topology

def node (t : Topology) (name : PathName) : Option Node := t.nodes.find? fun n => n.location = name

/-- The fabric primary, when exactly one member holds the role. -/
def fabricPrimary (t : Topology) : Option Node :=
  match t.nodes.filter Node.isFabricPrimary with
  | [n] => some n
  | _ => none

/-- The birth holding the node id now, the current one at its path and name. -/
def birthOfNodeId (t : Topology) (nodeId : String) : Option Node := do
  let n ← t.nodes.find? fun n => n.nodeId == nodeId
  (t.node n.location).filter fun current => current.nodeId == nodeId

def isDead (t : Topology) (mesh : String) : Bool := t.meshes.any fun m => m.name == mesh && m.status == .dead

/-- Births with ids and locations of their own, meshes with names of their own. -/
structure Distinct (t : Topology) : Prop where
  ids : (t.nodes.map Node.nodeId).Nodup
  locations : (t.nodes.map Node.location).Nodup
  names : (t.meshes.map Mesh.name).Nodup

end Topology

def PinnedBirth.of (n : Node) : Option PinnedBirth :=
  n.incarnationId.map fun incarnation => ⟨n.type, n.mesh, n.nodeId, incarnation⟩

def PinnedBirth.is (b : PinnedBirth) (n : Node) : Bool :=
  n.type == b.type && n.mesh == b.mesh && n.nodeId == b.nodeId && n.incarnationId == some b.incarnation

/-- The ids minted at an acceptance: a mesh that enters the topology, and a node it creates, each takes its own. -/
structure Minted where
  mesh : String → String
  node : PathName → String

namespace MeshTopology

def empty (name meshId : String) : MeshTopology := ⟨name, meshId, ∅, ∅⟩

def spec (m : MeshTopology) (path : PathName) : Option NodeSpec := m.specByPath[path]?

def nodesOfType (m : MeshTopology) (type : String) : List PathName :=
  m.nodes.toList.filter fun p => (m.spec p).any fun s => s.type == type

def count (m : MeshTopology) (type : String) : Nat := (m.nodesOfType type).length

/-- The mesh with a node at the path. -/
def insert (m : MeshTopology) (path : PathName) (spec : NodeSpec) : MeshTopology :=
  { m with nodes := m.nodes.insert path, specByPath := m.specByPath.insert path spec }

def remove (m : MeshTopology) (path : PathName) : MeshTopology :=
  { m with nodes := m.nodes.erase path, specByPath := m.specByPath.erase path }

end MeshTopology

namespace FabricTopology

def setMesh (t : FabricTopology) (m : MeshTopology) (name : String) : FabricTopology :=
  { t with meshes := t.meshes.insert name m }

def removeMesh (t : FabricTopology) (name : String) : FabricTopology := { t with meshes := t.meshes.erase name }

def createdId (t : FabricTopology) (path : PathName) : Option String :=
  (t.created.find? fun c => c.1 = path).map Prod.snd

/-- The explicit accepted entry at a path. -/
def nodeSpec (t : FabricTopology) (node : PathName) : Option NodeSpec := (values t.meshes).findSome? fun m => m.spec node

def contains (t : FabricTopology) (node : PathName) : Bool := (t.nodeSpec node).isSome

/-- The birth this Build replaces at a path: pinned there, and created again. -/
def replaced (t : FabricTopology) (path : PathName) : Option PinnedBirth :=
  if !t.contains path || (t.createdId path).isNone then none
  else (t.pinned.find? fun c => c.1 = path).map Prod.snd

/-- A node id for each path the Build does not yet name one for. -/
def mintCreated (mint : Minted) (t : FabricTopology) (paths : List PathName) : FabricTopology :=
  paths.foldl (fun t p => if (t.createdId p).isNone then { t with created := t.created ++ [(p, mint.node p)] } else t) t

/-- The id the records hold for the mesh, else the accepted one, else one minted now. -/
def heldId (mint : Minted) (accepted : FabricTopology) (name : String) (id : Option String) : String :=
  (id.or (accepted.meshes[name]?.map MeshTopology.meshId)).getD (mint.mesh name)

/-- The births that are the current ones at their path and name. -/
def standing (observed : Topology) : List Node :=
  observed.nodes.filter fun n => (observed.node n.location).any fun current => current.nodeId == n.nodeId

/-- The meshes not deleted, and those a node stands in. -/
def heldMeshes (observed : Topology) : List Mesh :=
  observed.meshes.filter fun m => m.status != .dead || (standing observed).any fun n => n.mesh == m.name

/-- The spec the accepted topology holds for the node when its type and mesh match, else its type's defaults. -/
def specOf (accepted : FabricTopology) (n : Node) : NodeSpec :=
  ((accepted.nodeSpec n.location).filter fun s => s.type == n.type && s.mesh == n.mesh).getD
    (.defaultFor n.location n.mesh n.type)

def recordMesh (mint : Minted) (accepted t : FabricTopology) (m : Mesh) : FabricTopology :=
  t.setMesh (.empty m.name (heldId mint accepted m.name m.id)) m.name

def recordNode (mint : Minted) (accepted t : FabricTopology) (n : Node) : FabricTopology :=
  let mesh := (t.meshes[n.mesh]?).getD (.empty n.mesh (heldId mint accepted n.mesh none))
  t.setMesh (mesh.insert n.location (specOf accepted n)) n.mesh

/-- The topology the fabric-primary's records hold now. -/
def ofRecords (mint : Minted) (observed : Topology) (accepted : FabricTopology) : FabricTopology :=
  let start : FabricTopology := ⟨observed.fabricName, ∅, accepted.topologyStorageProvider, [], []⟩
  (standing observed).foldl (recordNode mint accepted) ((heldMeshes observed).foldl (recordMesh mint accepted) start)

end FabricTopology

/-- A create specification inconsistent with its location or mesh. -/
structure NodeSpecConflict where
  path : String
  name : String
  declaredPath : String
  declaredName : String
  declaredMesh : String
deriving DecidableEq

/-- The refusals by name of a compile. -/
inductive BuildReject where
  | invalidMeshName (mesh : String)
  | duplicateMesh (mesh : String)
  | meshWithoutAdmin (mesh : String)
  | unknownMesh (mesh : String)
  | wouldLeaveMeshWithoutAdmin (mesh : String)
  | meshAlreadyExists (mesh : String)
  | emptyFabric
  | nodeSpecMismatch (mesh : String) (missing : List PathName) (extra : List NodeSpecConflict)
  | noNodeListed
  | nodeNamedTwice (path name : String)
  | executableMissing (path name : String)
  | tagsRefused (path name : String) (detail : TagsRefusal)
  | unknownNodeId (nodeId : String)
  | nameHeld (path name : String)
  | invalidNodeName (path name : String) (detail : PathNameError)
deriving DecidableEq

/-- A call that answers nothing. -/
inductive Halt where
  | reject (r : BuildReject)
  /-- An `expect` is not met. -/
  | panics
deriving DecidableEq

/-- The names taken so far with the mesh's, or the first that is taken already. -/
def nameAll : PathNames → List PathName → Except PathName PathNames
  | named, [] => .ok named
  | named, p :: ps => if p ∈ named then .error p else nameAll (named.insert p) ps

namespace MeshTopology

def missing (m : MeshTopology) : List PathName := m.nodes.toList.filter fun p => (m.spec p).isNone

def extra (m : MeshTopology) (name : String) : List NodeSpecConflict :=
  (m.specByPath.toList.filter fun e => e.1 ∉ m.nodes || e.2.mesh != name || e.2.location != e.1).map fun e =>
    ⟨e.1.1, e.1.2, e.2.path, e.2.name, e.2.mesh⟩

/-- Every invariant of one mesh of a persisted topology but that its paths are its own. -/
def validate (m : MeshTopology) (name : String) : Except BuildReject Unit :=
  if name != m.name then .error (.invalidMeshName m.name)
  else if !isValidMeshName name then .error (.invalidMeshName name)
  else if m.count "node-admin" == 0 then .error (.meshWithoutAdmin name)
  else if !m.missing.isEmpty || !(m.extra name).isEmpty then .error (.nodeSpecMismatch name m.missing (m.extra name))
  else .ok ()

end MeshTopology

def validateMeshes : PathNames → List (String × MeshTopology) → Except BuildReject Unit
  | _, [] => .ok ()
  | named, (name, m) :: rest =>
    match nameAll named m.nodes.toList with
    | .error p => .error (.nodeNamedTwice p.1 p.2)
    | .ok named =>
      match m.validate name with
      | .error e => .error e
      | .ok () => validateMeshes named rest

/-- Every invariant a persisted topology holds. -/
def FabricTopology.validate (t : FabricTopology) : Except BuildReject Unit :=
  if t.meshes.isEmpty then .error .emptyFabric else validateMeshes ∅ t.meshes.toList

end DistributedMesh.Build
