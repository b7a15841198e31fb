import DistributedMesh.TopologyIndex

namespace DistributedMesh

open Std (ExtTreeMap)
open KeyedMaps

abbrev Overlays := ExtTreeMap OpKey LifecycleOp opKeyCode.cmp

abbrev Departures := ExtTreeMap String LifecycleOp

/-- One source Mesh as one publication holds it: its members, its open overlays, its retained
departures. -/
structure Full where
  digests : Members
  inFlight : Overlays
  deleted : Departures
  byEndpoint : EndpointIndex
  digests_keyed : Keyed (fun d => d.node.nodeId) digests
  inFlight_keyed : Keyed LifecycleOp.key inFlight
  deleted_keyed : Keyed LifecycleOp.nodeId deleted
  listed : Listed digests byEndpoint

/-- What moves a held source projection from one version to another. -/
structure Delta where
  changed : List MeshDigest
  removed : List String
  inFlight : List LifecycleOp
  deleted : List LifecycleOp
deriving DecidableEq

def Delta.isEmpty (delta : Delta) : Bool :=
  delta.changed.isEmpty && delta.removed.isEmpty && delta.inFlight.isEmpty && delta.deleted.isEmpty

namespace Full

def new (digests : List MeshDigest) (inFlight deleted : List LifecycleOp) : Full where
  digests := insertAll (fun d => d.node.nodeId) ∅ digests
  inFlight := insertAll LifecycleOp.key ∅ inFlight
  deleted := insertAll LifecycleOp.nodeId ∅ deleted
  byEndpoint := indexOf (insertAll (fun d => d.node.nodeId) ∅ digests)
  digests_keyed := Keyed.empty.insertAll digests
  inFlight_keyed := Keyed.empty.insertAll inFlight
  deleted_keyed := Keyed.empty.insertAll deleted
  listed := Listed.index _

/-- The member at an endpoint key: of two at one key, the first by node id. -/
def memberAt (full : Full) (endpointId : String) : Option MeshDigest := do
  let ids ← full.byEndpoint[endpointId]?
  let id ← ids.min?
  full.digests[id]?

/-- Hold `d` as its node id's member, its endpoint key listed. -/
def put (full : Full) (d : MeshDigest) : Full where
  digests := full.digests.insert d.node.nodeId d
  inFlight := full.inFlight
  deleted := full.deleted
  byEndpoint := enlist (unlist full.digests full.byEndpoint d.node.nodeId) d.node.endpointId
    d.node.nodeId
  digests_keyed := full.digests_keyed.insert d
  inFlight_keyed := full.inFlight_keyed
  deleted_keyed := full.deleted_keyed
  listed := full.listed.put d

def remove (full : Full) (id : String) : Full where
  digests := full.digests.erase id
  inFlight := full.inFlight
  deleted := full.deleted
  byEndpoint := unlist full.digests full.byEndpoint id
  digests_keyed := full.digests_keyed.erase id
  inFlight_keyed := full.inFlight_keyed
  deleted_keyed := full.deleted_keyed
  listed := full.listed.erase id

/-- Keep the overlays that satisfy `p`. -/
def retain (full : Full) (p : LifecycleOp → Bool) : Full :=
  { full with
    inFlight := full.inFlight.filter fun _ o => p o
    inFlight_keyed := full.inFlight_keyed.filter p }

def overlay (full : Full) (o : LifecycleOp) : Full :=
  { full with
    inFlight := full.inFlight.insert o.key o
    inFlight_keyed := full.inFlight_keyed.insert o }

/-- A member added or changed; the stop overlay of its exact birth is cleared. -/
def change (full : Full) (d : MeshDigest) : Full :=
  (full.retain fun o => !(o.isStop && o.nodeId == d.node.nodeId
    && o.incarnation == d.node.incarnation)).put d

/-- A departure; every overlay of its exact birth is ended. -/
def depart (full : Full) (o : LifecycleOp) : Full :=
  { full.retain fun x => !(x.nodeId == o.nodeId && x.incarnation == o.incarnation) with
    deleted := full.deleted.insert o.nodeId o
    deleted_keyed := full.deleted_keyed.insert o }

/-- This full moved by `delta`. -/
def apply (full : Full) (delta : Delta) : Full :=
  let full := delta.changed.foldl change full
  let full := delta.removed.foldl remove full
  let full := delta.inFlight.foldl overlay full
  delta.deleted.foldl depart full

/-- The complete difference from this full to `next`, loads omitted. -/
def deltaTo (full next : Full) : Delta where
  changed := (next.digests.toList.filter fun (id, d) =>
    (full.digests[id]?).all fun o => topologyView o ≠ topologyView d).map fun (_, d) => withoutLoad d
  removed := full.digests.keys.filter fun id => id ∉ next.digests
  inFlight := (next.inFlight.toList.filter fun (k, _) => k ∉ full.inFlight).map (·.2)
  deleted := (next.deleted.toList.filter fun (k, _) => k ∉ full.deleted).map (·.2)

/-- The same members by their topology view, the same overlays, the same departures. -/
def sameTopology (full other : Full) : Bool :=
  full.digests.size == other.digests.size
    && (full.digests.toList.all fun (id, d) =>
      (other.digests[id]?).any fun o => topologyView d = topologyView o)
    && full.inFlight.map (fun _ o => o.untraced) = other.inFlight.map (fun _ o => o.untraced)
    && full.deleted.map (fun _ o => o.untraced) = other.deleted.map (fun _ o => o.untraced)

/-- This full without any member's load. -/
def withoutLoads (full : Full) : Full where
  digests := full.digests.map fun _ d => withoutLoad d
  inFlight := full.inFlight
  deleted := full.deleted
  byEndpoint := full.byEndpoint
  digests_keyed := full.digests_keyed.map fun _ => rfl
  inFlight_keyed := full.inFlight_keyed
  deleted_keyed := full.deleted_keyed
  listed := by
    refine ⟨fun e id => (full.listed.lists e id).trans ?_, full.listed.nonempty⟩
    rw [ExtTreeMap.getElem?_map]
    cases h : full.digests[id]? with
    | none => simp
    | some d => simp [withoutLoad]

end Full

end DistributedMesh
