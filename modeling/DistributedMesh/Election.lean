import DistributedMesh.ViewMembers
import Mathlib.Data.List.MinMax
import Mathlib.Data.String.Basic

namespace DistributedMesh.Election

open Std (ExtTreeMap ExtTreeSet)
open KeyedMaps

/-- A node of the topology, as an election takes it. -/
structure Node where
  type : String
  mesh : String
  nodeId : String
  /-- The node's current birth, once launched. -/
  incarnationId : Option String
  status : NodeStatus
  isPrimary : Bool
  isFabricPrimary : Bool
deriving DecidableEq

namespace Node

def nodeType (n : Node) : String × String := (n.mesh, n.type)

def unmarked (n : Node) : Node := { n with isPrimary := false, isFabricPrimary := false }

end Node

def isNodeAdmin (type : String) : Bool := type == "node-admin"

/-- What an election takes beside the nodes: the primaries recorded, and the births known gone. -/
structure Incumbency where
  fabric : Option Primary
  /-- Each mesh's node-admin primary. -/
  meshes : ExtTreeMap String Primary
  /-- The primary of every other type of a mesh. -/
  nodeTypePrimaries : ExtTreeMap (String × String) Primary pathNameCode.cmp
  lost : ExtTreeSet String

namespace Incumbency

def isLost (inc : Incumbency) (n : Node) : Bool := n.incarnationId.any inc.lost.contains

/-- The record of a role: the node-admin type's role is the mesh's primary. -/
def record (inc : Incumbency) (role : String × String) : Option Primary :=
  if isNodeAdmin role.2 then inc.meshes[role.1]? else inc.nodeTypePrimaries[role]?

end Incumbency

structure Candidate where
  nodeId : String
  ready : Bool

/-- The eligible candidate with the lowest node id. -/
def elect (candidates : List Candidate) : Option Nat :=
  ((candidates.zipIdx.filter fun c => c.1.ready).argmin fun c => c.1.nodeId).map Prod.snd

/-- What a view shows of a role's recorded primary. -/
inductive Holding where
  | living (i : Nat)
  /-- Replaced by a later birth, known gone, or unheard past the staleness floor. -/
  | yielded
  /-- The view has not heard the birth the record names. -/
  | unseen
deriving DecidableEq

section Resolve

variable (nodes : List Node) (inc : Incumbency)

/-- Whether a node is not the birth recorded, or is unheard. -/
def yields (h : Primary) (n : Node) : Bool :=
  (n.incarnationId.any fun i => i != h.incarnation) || n.status == .pendingReconnect || n.status == .dead

def holding (h : Primary) : Holding :=
  if inc.lost.contains h.incarnation then .yielded
  else
    match nodes.zipIdx.find? fun n => n.1.nodeId == h.nodeId with
    | none => .unseen
    | some (n, i) => if yields h n then .yielded else .living i

def Holding.isLiving : Holding → Bool
  | .living _ => true
  | _ => false

/-- The fabric's primary record, while the birth it names is not a heard primary. -/
def fabricRecoveryTarget : Option Primary := inc.fabric.filter fun h => !(holding nodes inc h).isLiving

/-- The lowest Ready node among `members` that is not known gone. -/
def lowestReady (members : List Nat) : Option Nat :=
  let candidates := members.filterMap fun i =>
    nodes[i]?.map fun n => (⟨n.nodeId, n.status == .ready && !inc.isLost n⟩ : Candidate)
  (elect candidates).bind fun k => members[k]?

/-- The places of the nodes of each type of each mesh. -/
def nodeTypes : ExtTreeMap (String × String) (List Nat) pathNameCode.cmp :=
  nodes.zipIdx.foldl (fun m n => m.insert n.1.nodeType ((m[n.1.nodeType]?).getD [] ++ [n.2])) ∅

/-- The primary of one type of a mesh: the one recorded while it lives, none while its birth is not heard, else the
lowest Ready. -/
def winner (role : String × String) (members : List Nat) : Option Nat :=
  if isNodeAdmin role.2 && (fabricRecoveryTarget nodes inc).any fun h => h.mesh == role.1 then none
  else
    match inc.record role with
    | some h =>
      match holding nodes inc h with
      | .living i =>
        match nodes[i]? with
        | some n => if n.type = role.2 then if n.mesh = role.1 then some i else none else lowestReady nodes inc members
        | none => none
      | .unseen => none
      | .yielded => lowestReady nodes inc members
    | none => lowestReady nodes inc members

/-- Each role's winner. -/
def winners : List ((String × String) × Nat) :=
  (nodeTypes nodes).toList.filterMap fun role => (winner nodes inc role.1 role.2).map fun i => (role.1, i)

def meshPrimaries : ExtTreeMap String Nat :=
  (winners nodes inc).foldl (fun m w => if isNodeAdmin w.1.2 then m.insert w.1.1 w.2 else m) ∅

/-- The lowest Ready mesh primary, outside one mesh. -/
def lowestPrimary (except : Option String) : Option Nat :=
  lowestReady nodes inc
    (((meshPrimaries nodes inc).toList.filter fun m => some m.1 != except).map Prod.snd)

/-- Whether a node-admin of the recorded primary's mesh keeps the mesh's priority. -/
def survives (h : Primary) (n : Node) : Bool :=
  isNodeAdmin n.type && n.mesh == h.mesh && !inc.isLost n && n.status != .leaving

/-- Whether a mesh's primary takes the role from a recorded one that is not its mesh's primary. -/
def succeeds (h : Primary) (n : Node) : Bool :=
  n.status == .ready && !inc.isLost n && !(n.nodeId == h.nodeId && n.incarnationId == some h.incarnation)

/-- The fabric's primary: the one recorded while it lives and is its mesh's primary; with no record, the lowest Ready
mesh primary. -/
def electedFabricPrimary : Option Nat :=
  match inc.fabric with
  | none => lowestPrimary nodes inc none
  | some h =>
    let next :=
      if nodes.any (survives inc h) then
        (meshPrimaries nodes inc)[h.mesh]?.filter fun i => nodes[i]?.any (succeeds inc h)
      else lowestPrimary nodes inc (some h.mesh)
    match holding nodes inc h with
    | .living i => if nodes[i]?.any fun n => (meshPrimaries nodes inc)[n.mesh]? == some i then some i else next
    | .unseen => none
    | .yielded => next

end Resolve

/-- Mark each node type's primary and the fabric's. -/
def resolveWith (nodes : List Node) (inc : Incumbency) : List Node :=
  let nodes := nodes.map Node.unmarked
  let marked := (winners nodes inc).map Prod.snd
  let fabric := (electedFabricPrimary nodes inc).filter fun _ => (fabricRecoveryTarget nodes inc).isNone
  nodes.mapIdx fun i n => { n with isPrimary := marked.contains i, isFabricPrimary := fabric == some i }

end DistributedMesh.Election
