import DistributedMesh.KeyedMaps
import DistributedMesh.TopologyTypes

namespace DistributedMesh

open LexCode
open Std (ExtTreeMap)
open KeyedMaps

/-- How a held member was last heard. Only `direct` and `forwarded` are liveness. -/
inductive Heard where
  | direct
  | forwarded
  | topology
deriving DecidableEq

/-- One member as the view holds it: its latest digest, when it was heard and how. -/
structure HeldMember where
  digest : MeshDigest
  heardAt : Nat
  heard : Heard
deriving DecidableEq

abbrev PathName := String × String

def pathNameCode : Code PathName := pairCode stringCode stringCode

instance pathNameOrdered : Std.TransCmp pathNameCode.cmp := inferInstance

def MeshNode.location (n : MeshNode) : PathName := (n.path, n.name)

def LifecycleOp.location (op : LifecycleOp) : PathName := (op.path, op.name)

/-- The members a view holds by node id, each birth also found by its endpoint key and by its
(path, name), in the order the view first held each birth. -/
structure HeldMembers where
  map : ExtTreeMap String HeldMember
  byEndpoint : ExtTreeMap String (List String)
  byName : ExtTreeMap PathName (List String) pathNameCode.cmp

/-- The ids a lookup lists under a key, without `id`; a key with none left leaves the lookup. -/
def unlistId {α : Type} {cmp : α → α → Ordering} [Std.TransCmp cmp] (lookup : ExtTreeMap α (List String) cmp)
    (key : α) (id : String) : ExtTreeMap α (List String) cmp :=
  match lookup[key]? with
  | none => lookup
  | some ids =>
    let kept := ids.filter (· != id)
    if kept.isEmpty then lookup.erase key else lookup.insert key kept

namespace HeldMembers

def empty : HeldMembers := ⟨∅, ∅, ∅⟩

def unlist (m : HeldMembers) (id : String) : HeldMembers :=
  match m.map[id]? with
  | none => m
  | some held =>
    { m with
      byEndpoint := unlistId m.byEndpoint held.digest.node.endpointId id
      byName := unlistId m.byName held.digest.node.location id }

/-- Hold `entry` for `id`. A fresher digest of the birth held keeps its place in the lookups. -/
def insert (m : HeldMembers) (id : String) (entry : HeldMember) : HeldMembers :=
  let sameBirth := (m.map[id]?).any fun held => held.digest.node == entry.digest.node
  let listed :=
    if sameBirth then m
    else
      let m := m.unlist id
      { m with
        byEndpoint := m.byEndpoint.insert entry.digest.node.endpointId
          ((m.byEndpoint[entry.digest.node.endpointId]?).getD [] ++ [id])
        byName := m.byName.insert entry.digest.node.location
          ((m.byName[entry.digest.node.location]?).getD [] ++ [id]) }
  { listed with map := m.map.insert id entry }

def remove (m : HeldMembers) (id : String) : HeldMembers :=
  { m.unlist id with map := m.map.erase id }

def atEndpoint (m : HeldMembers) (endpointId : String) : Option HeldMember := do
  let ids ← m.byEndpoint[endpointId]?
  let id ← ids.getLast?
  m.map[id]?

def atName (m : HeldMembers) (name : PathName) : Option HeldMember := do
  let ids ← m.byName[name]?
  let id ← ids.getLast?
  m.map[id]?

/-- Restart every member's silence at `now`. -/
def restartSilence (m : HeldMembers) (now : Nat) : HeldMembers :=
  { m with map := m.map.map fun _ held => { held with heardAt := now } }

/-- A status set on the held digest of a node. -/
def setStatus (m : HeldMembers) (id : String) (status : NodeStatus) : HeldMembers :=
  match m.map[id]? with
  | none => m
  | some held => { m with map := m.map.insert id { held with digest := { held.digest with status := status } } }

@[simp] theorem insert_map (m : HeldMembers) (id : String) (entry : HeldMember) :
    (m.insert id entry).map = m.map.insert id entry := rfl

@[simp] theorem remove_map (m : HeldMembers) (id : String) : (m.remove id).map = m.map.erase id := rfl

@[simp] theorem restartSilence_map (m : HeldMembers) (now : Nat) :
    (m.restartSilence now).map = m.map.map fun _ held => { held with heardAt := now } := rfl

end HeldMembers

/-- A primary as it is recorded: the exact birth and the record's revision. -/
structure Primary where
  mesh : String
  nodeId : String
  incarnation : String
  revision : Nat
deriving DecidableEq

namespace Primary

/-- Whether this record replaces `held`: a later revision, or the same one announced by a birth with
the lower node id. -/
def supersedes (r held : Primary) : Bool :=
  if r.revision ≠ held.revision then decide (held.revision < r.revision)
  else decide ((r.nodeId ≠ held.nodeId ∨ r.incarnation ≠ held.incarnation) ∧ r.nodeId < held.nodeId)

def isBirth (r : Primary) (nodeId incarnation : String) : Bool :=
  r.nodeId == nodeId && r.incarnation == incarnation

end Primary

def PrimaryRole.ofType (type : String) : PrimaryRole :=
  if type = "node-admin" then .meshPrimary else .nodePrimary type

/-- The primaries a view holds: each role's record with the latest revision. -/
structure HeldRoles where
  fabric : Option Primary
  meshes : ExtTreeMap String Primary
  nodeTypePrimaries : ExtTreeMap (String × String) Primary pathNameCode.cmp

namespace HeldRoles

def empty : HeldRoles := ⟨none, ∅, ∅⟩

def get (h : HeldRoles) (role : PrimaryRole) (mesh : String) : Option Primary :=
  match role with
  | .fabricPrimary => h.fabric
  | .meshPrimary => h.meshes[mesh]?
  | .nodePrimary type => h.nodeTypePrimaries[(mesh, type)]?

def put (h : HeldRoles) (role : PrimaryRole) (mesh : String) (record : Primary) : HeldRoles :=
  match role with
  | .fabricPrimary => { h with fabric := some record }
  | .meshPrimary => { h with meshes := h.meshes.insert mesh record }
  | .nodePrimary type => { h with nodeTypePrimaries := h.nodeTypePrimaries.insert (mesh, type) record }

/-- Hold `record` for `role` if it supersedes what is held. -/
def take (h : HeldRoles) (role : PrimaryRole) (record : Primary) : HeldRoles :=
  match h.get role record.mesh with
  | some held =>
    if held = record then h
    else if record.supersedes held then h.put role record.mesh record
    else h
  | none => h.put role record.mesh record

def nodeTypePrimary (h : HeldRoles) (mesh type : String) : Option Primary :=
  h.get (PrimaryRole.ofType type) mesh

end HeldRoles

end DistributedMesh
