import DistributedMesh.TopologyFull
import DistributedMesh.ViewMembers

namespace DistributedMesh

open LexCode
open Std (ExtTreeMap ExtTreeSet)
open KeyedMaps

/-- An operation fact's identity, whatever carried it: its key and the exact birth. -/
structure LifecycleIdentity where
  buildId : String
  operation : OperationId
  nodeId : String
  incarnation : String
deriving DecidableEq

def LifecycleIdentity.fields (i : LifecycleIdentity) : OpKey × String × String :=
  ((i.buildId, i.operation), i.nodeId, i.incarnation)

theorem LifecycleIdentity.fields_injective : Function.Injective LifecycleIdentity.fields := by
  intro a b h
  cases a
  cases b
  simp_all [LifecycleIdentity.fields]

def identityCode : Code LifecycleIdentity :=
  (pairCode opKeyCode (pairCode stringCode stringCode)).comap LifecycleIdentity.fields
    LifecycleIdentity.fields_injective

def LifecycleOp.identity (op : LifecycleOp) : LifecycleIdentity :=
  ⟨op.buildId, op.operation, op.nodeId, op.incarnation⟩

theorem LifecycleOp.isStop_of_key {a b : LifecycleOp} (h : a.key = b.key) : a.isStop = b.isStop := by
  have hop : a.operation = b.operation := congrArg Prod.snd h
  unfold LifecycleOp.isStop
  rw [hop]

/-- The open lifecycle overlays, each under its operation's key. -/
structure OpenOverlays where
  map : Overlays
  keyed : Keyed LifecycleOp.key map

namespace OpenOverlays

def empty : OpenOverlays := ⟨∅, Keyed.empty⟩

instance : Membership LifecycleOp OpenOverlays := ⟨fun o op => o.map[op.key]? = some op⟩

def put (o : OpenOverlays) (op : LifecycleOp) : OpenOverlays := ⟨o.map.insert op.key op, o.keyed.insert op⟩

def close (o : OpenOverlays) (key : OpKey) : OpenOverlays := ⟨o.map.erase key, o.keyed.erase key⟩

def retain (o : OpenOverlays) (p : LifecycleOp → Bool) : OpenOverlays :=
  ⟨o.map.filter fun _ op => p op, o.keyed.filter p⟩

/-- The open overlays in their keys' order. -/
def list (o : OpenOverlays) : List LifecycleOp := values o.map

variable {o : OpenOverlays} {op a : LifecycleOp}

theorem mem_def : op ∈ o ↔ o.map[op.key]? = some op := Iff.rfl

theorem mem_list : op ∈ o.list ↔ op ∈ o := o.keyed.mem_values op

theorem not_mem_empty : op ∉ empty := by
  intro h
  simp [mem_def, empty] at h

/-- An overlay opened replaces the one under its key. -/
theorem mem_put : a ∈ o.put op ↔ a = op ∨ (a ∈ o ∧ a.key ≠ op.key) := by
  rw [mem_def, mem_def, put, getElem?_insert_eq]
  by_cases h : op.key = a.key
  · rw [if_pos h]
    constructor
    · intro he
      exact Or.inl (Option.some.inj he).symm
    · rintro (rfl | ⟨-, hne⟩)
      · rfl
      · exact absurd h.symm hne
  · rw [if_neg h]
    constructor
    · intro ha
      exact Or.inr ⟨ha, fun he => h he.symm⟩
    · rintro (rfl | ⟨ha, -⟩)
      · exact absurd rfl h
      · exact ha

theorem mem_close {key : OpKey} : a ∈ o.close key ↔ a ∈ o ∧ a.key ≠ key := by
  rw [mem_def, mem_def, close, getElem?_erase_eq]
  by_cases h : key = a.key
  · simp [h]
  · simp [h, Ne.symm h]

theorem mem_retain {p : LifecycleOp → Bool} : a ∈ o.retain p ↔ a ∈ o ∧ p a = true := by
  rw [mem_def, mem_def, retain, getElem?_filter_eq, Option.filter_eq_some_iff]

end OpenOverlays

/-- What a view holds of one stopped birth. -/
structure StopMark where
  incarnation : String
  /-- The sequence of the digest held of it when it was dropped, 0 when none was. -/
  heldSeq : Nat
  held : Option MeshDigest
  /-- The latest digest of the birth refused since. -/
  latest : Option HeldMember
  /-- The highest version, and its publisher, at which an applied projection carried the stop. -/
  carried : Option (String × Nat)
deriving DecidableEq

abbrev Births := ExtTreeSet (String × String) pathNameCode.cmp

/-- One projection frame as its receiver applies it: what was held of that source before and after. -/
structure Target where
  publisher : String
  held : Option (String × Nat)
  version : Nat
  priorStops : Births
  postStops : Births

/-- Where a digest came from. -/
inductive Via where
  | heartbeat
  | forwarded
  | join
  | topology
deriving DecidableEq

def Via.heard : Via → Heard
  | .heartbeat => .direct
  | .forwarded | .join => .forwarded
  | .topology => .topology

/-- The digest refused is kept when it is newer than every one held or refused of the birth. -/
def StopMark.keep (mark : StopMark) (d : MeshDigest) (via : Via) (now : Nat) : StopMark :=
  if mark.latest.all (fun l => decide (l.digest.digestSeq < d.digestSeq)) && decide (mark.heldSeq < d.digestSeq) then
    { mark with latest := some ⟨d, now, via.heard⟩ }
  else mark

/-- The digest a stopped birth is held again from, under the operation's name. -/
def StopMark.again (mark : StopMark) (op : LifecycleOp) : Option MeshDigest :=
  ((mark.latest.map HeldMember.digest).or mark.held).map fun d =>
    { d with node := { d.node with path := op.path, name := op.name } }

/-- Every birth a node holds, its liveness and its overlays. -/
structure DigestView where
  inner : HeldMembers
  /-- Proven departures by node id, with when each was accepted. -/
  deleted : ExtTreeMap String (LifecycleOp × Nat)
  recovering : ExtTreeMap String String
  inFlight : OpenOverlays
  returned : ExtTreeMap (String × String) MeshDigest pathNameCode.cmp
  awake : Option Nat
  stoppedMarks : ExtTreeMap String StopMark
  primary : Bool
  ownMesh : String
  own : Option String
  ownPredecessor : Option String
  /-- The births held only from the mesh-primary's projection, and since when. -/
  projected : ExtTreeMap String (MeshDigest × Nat)
  endedOverlays : ExtTreeSet LifecycleIdentity identityCode.cmp
  observerName : String
  retention : Nat
  stalenessFloor : Nat
  primaries : HeldRoles
  statuses : ExtTreeMap String String

namespace DigestView

def withFloor (retention stalenessFloor : Nat) : DigestView where
  inner := .empty
  deleted := ∅
  recovering := ∅
  inFlight := .empty
  returned := ∅
  awake := none
  stoppedMarks := ∅
  primary := false
  ownMesh := ""
  own := none
  ownPredecessor := none
  projected := ∅
  endedOverlays := ∅
  observerName := ""
  retention := retention
  stalenessFloor := stalenessFloor
  primaries := .empty
  statuses := ∅

/-- Forget each departure held longer than the retention. -/
def expireDeletedAt (v : DigestView) (now : Nat) : DigestView :=
  { v with deleted := v.deleted.filter fun _ e => decide (now - e.2 < v.retention) }

theorem expireDeletedAt_deleted (v : DigestView) (now : Nat) (n : String) :
    (v.expireDeletedAt now).deleted[n]? =
      (v.deleted[n]?).filter fun e => decide (now - e.2 < v.retention) :=
  getElem?_filter_eq v.deleted (fun e => decide (now - e.2 < v.retention)) n

def isDeletedAt (v : DigestView) (id : String) (now : Nat) : Bool :=
  (v.expireDeletedAt now).deleted.contains id

def holdRecovering (v : DigestView) (id incarnation : String) : DigestView :=
  { v with recovering := v.recovering.insert id incarnation }

def isRecovering (v : DigestView) (id incarnation : String) : Bool := v.recovering[id]? == some incarnation

/-- How long a member has gone unheard; one known only from topology never ages. -/
def unheard (held : HeldMember) (now : Nat) : Nat :=
  if held.heard = .topology then 0 else now - held.heardAt

/-- One birth has one runtime. -/
def runtimeChanged (held d : MeshDigest) : Bool :=
  held.node.incarnation == d.node.incarnation && held.node.runtime.isSome && d.node.runtime.isSome &&
    held.node.runtime != d.node.runtime

/-- `d` with the primary records the view holds for its exact birth. -/
def recordedPrimaries (v : DigestView) (d : MeshDigest) : MeshDigest :=
  let revisionOf (held : Option Primary) : Option Nat :=
    (held.filter fun h => h.isBirth d.node.nodeId d.node.incarnation).map Primary.revision
  { d with
    isPrimary := revisionOf (v.primaries.nodeTypePrimary d.node.mesh d.node.type)
    isFabricPrimary := revisionOf v.primaries.fabric }

/-- Hold the primary records `d` carries. -/
def takePrimaries (v : DigestView) (d : MeshDigest) : DigestView :=
  let record (revision : Nat) : Primary := ⟨d.node.mesh, d.node.nodeId, d.node.incarnation, revision⟩
  let primaries := match d.isPrimary with
    | some revision => v.primaries.take (PrimaryRole.ofType d.node.type) (record revision)
    | none => v.primaries
  let primaries := match d.isFabricPrimary with
    | some revision => primaries.take .fabricPrimary (record revision)
    | none => primaries
  { v with primaries := primaries }

def restartSilence (v : DigestView) (now : Nat) : DigestView :=
  { v with
    inner := v.inner.restartSilence now
    projected := v.projected.map fun _ e => (e.1, now) }

/-- A node that did not run for longer than the floor measured no silence in that gap. -/
def woken (v : DigestView) (now : Nat) : DigestView :=
  match v.awake with
  | some last =>
    if now - last > v.stalenessFloor then { v with awake := some now }.restartSilence now else v
  | none => v

def markAwake (v : DigestView) (now : Nat) : DigestView := { v.woken now with awake := some now }

/-- A member's latest digest as every read hands it out, and how long it has gone unheard. -/
def getAt (v : DigestView) (id : String) (now : Nat) : DigestView × Option (MeshDigest × Nat) :=
  let v := v.woken now
  (v, (v.inner.map[id]?).map fun held => (v.recordedPrimaries held.digest, unheard held now))

def isOwnLineage (v : DigestView) (id incarnation : String) : Bool :=
  v.own == some id || v.observerName == id || v.ownPredecessor == some incarnation

/-- A birth of the view's own mesh other than its holder. -/
def ownMeshMember (v : DigestView) (d : MeshDigest) : Bool :=
  v.ownMesh != "" && d.node.mesh == v.ownMesh && !v.isOwnLineage d.node.nodeId d.node.incarnation

def primaryOf (v : DigestView) (mesh : String) : Bool := v.primary && v.ownMesh == mesh

/-- The overlays `gone` picks end: none of them opens again. -/
def endOverlays (v : DigestView) (gone : LifecycleOp → Bool) : DigestView :=
  { v with
    inFlight := v.inFlight.retain fun o => !gone o
    endedOverlays := (v.inFlight.list.filter gone).foldl (fun ended o => ended.insert o.identity)
      v.endedOverlays }

def unmark (v : DigestView) (id : String) : DigestView :=
  { v with stoppedMarks := v.stoppedMarks.erase id }

/-- The stop of a node is over: its mark and its overlays clear. -/
def endStop (v : DigestView) (id : String) : DigestView :=
  (v.unmark id).endOverlays fun o => o.isStop && o.nodeId == id

/-- The overlay opens: it did not end here, and is not the one held under its key. -/
def admitOverlay (op : LifecycleOp) (held : Option LifecycleOp) (ended : Bool) : Bool :=
  !ended && !held.any fun h => h.identity == op.identity

/-- The birth leaves: the node id is held deleted, its stop ends, and the operation's overlay clears. -/
def leave (v : DigestView) (op : LifecycleOp) (now : Nat) : DigestView :=
  let v := { v with
    deleted := v.deleted.insert op.nodeId (op, now)
    recovering := v.recovering.erase op.nodeId }
  let v := v.endStop op.nodeId
  { v with
    inFlight := v.inFlight.close op.key
    projected := v.projected.erase op.nodeId
    inner := v.inner.remove op.nodeId }

/-- The departure `op` at `now`. One held already stands: a copy of it changes nothing, and any other
is refused. -/
def departAt (v : DigestView) (op : LifecycleOp) (now : Nat) : DigestView × Bool :=
  let v := v.expireDeletedAt now
  match v.deleted[op.nodeId]? with
  | some _ => (v, false)
  | none => (v.leave op now, true)

/-- As `leave`, with every overlay of the node cleared. -/
def leaveQuietly (v : DigestView) (op : LifecycleOp) (now : Nat) : DigestView :=
  let v := { v with deleted := v.deleted.insert op.nodeId (op, now) }
  let v := v.endStop op.nodeId
  { v with
    inFlight := v.inFlight.retain fun o => o.nodeId != op.nodeId
    projected := v.projected.erase op.nodeId
    inner := v.inner.remove op.nodeId }

def departQuiet (v : DigestView) (op : LifecycleOp) (now : Nat) : DigestView × Bool :=
  match v.deleted[op.nodeId]? with
  | some _ => (v, false)
  | none => (v.leaveQuietly op now, true)

/-- The removals whose operation has a terminal verdict, or whose Build is forgotten, end. -/
def deletionsFromFacts (v : DigestView) (byVerdict : List OpKey) (forgotten : List String) : DigestView :=
  v.endOverlays fun o => !o.isStop && (byVerdict.contains o.key || forgotten.contains o.buildId)

/-- A stopped own-mesh node ends its stop by its own digest of its next cycle, but at its mesh's
primary. -/
def nextCycle (v : DigestView) (d : MeshDigest) : Bool :=
  (v.stoppedMarks[d.node.nodeId]?).any (fun mark =>
    mark.incarnation == d.node.incarnation && (d.status == .starting || d.status == .pending) &&
      decide (mark.heldSeq < d.digestSeq) &&
      mark.latest.all fun l => decide (l.digest.digestSeq < d.digestSeq)) &&
    v.ownMeshMember d && !v.primaryOf d.node.mesh

/-- Whether `d` is refused because its birth is stopped. A digest of another birth ends the stop. -/
def stoppedRefuses (v : DigestView) (d : MeshDigest) (via : Via) (now : Nat) : DigestView × Bool :=
  if v.nextCycle d then (v.endStop d.node.nodeId, false)
  else
    match v.stoppedMarks[d.node.nodeId]? with
    | none => (v, false)
    | some mark =>
      if mark.incarnation ≠ d.node.incarnation then (v.endStop d.node.nodeId, false)
      else ({ v with stoppedMarks := v.stoppedMarks.insert d.node.nodeId (mark.keep d via now) }, true)

def holdsStopped (v : DigestView) (id incarnation : String) : Bool :=
  (v.stoppedMarks[id]?).any fun mark => mark.incarnation == incarnation

theorem holdsStopped_iff {v : DigestView} {id incarnation : String} :
    v.holdsStopped id incarnation = true ↔ ∃ m, v.stoppedMarks[id]? = some m ∧ m.incarnation = incarnation := by
  simp only [holdsStopped, Option.any_eq_true, beq_iff_eq]

def isStopped (v : DigestView) (d : MeshDigest) : Bool := v.holdsStopped d.node.nodeId d.node.incarnation

/-- A deleted birth's own word, emitted after its deletion, is owed a report. -/
def noteReturned (v : DigestView) (d : MeshDigest) : DigestView :=
  if (v.deleted[d.node.nodeId]?).any fun e =>
      e.1.incarnation == d.node.incarnation && decide (e.1.eventAtRafkaMs < d.emittedAtRafkaMs) then
    { v with returned := v.returned.insertIfNew (d.node.nodeId, d.node.incarnation) d }
  else v

/-- At its own mesh's primary a birth keeps the status its own reports set. -/
def keepReportedStatus (v : DigestView) (d : MeshDigest) : MeshDigest :=
  if v.primary && v.ownMeshMember d then
    match v.inner.map[d.node.nodeId]? with
    | some held =>
      if held.digest.node.incarnation = d.node.incarnation then { d with status := held.digest.status } else d
    | none => d
  else d

/-- The installed digest's primaries are taken with it. -/
def hold (v : DigestView) (d : MeshDigest) (heardAt : Nat) (heard : Heard) : DigestView :=
  { v.takePrimaries d with inner := v.inner.insert d.node.nodeId ⟨d, heardAt, heard⟩ }

/-- Sequence orders only the same exact birth. -/
def admitDigest (held offered : MeshDigest) : Bool :=
  held.node.nodeId != offered.node.nodeId || held.node.incarnation != offered.node.incarnation ||
    decide (held.digestSeq < offered.digestSeq)

def refusesHeartbeat (held d : MeshDigest) : Bool :=
  !admitDigest held d || runtimeChanged held d ||
    (held.node.incarnation != d.node.incarnation && held.node.supersedes == some d.node.incarnation)

/-- A copy is older than what is held of its birth, or of a birth the held one superseded. An own-mesh
birth's status is its own digest's: a copy at the sequence held moves no status. -/
def refusesCopy (ownMesh : Bool) (held d : MeshDigest) : Bool :=
  runtimeChanged held d ||
    if held.node.incarnation = d.node.incarnation then
      decide (d.digestSeq < held.digestSeq) ||
        (ownMesh && d.digestSeq == held.digestSeq && d.status != held.status)
    else held.node.supersedes == some d.node.incarnation

def installHeartbeat (v : DigestView) (d : MeshDigest) (now : Nat) : DigestView × Bool :=
  if (v.inner.map[d.node.nodeId]?).any fun held => refusesHeartbeat held.digest d then (v, false)
  else (v.hold (v.keepReportedStatus d) now .direct, true)

def installForwarded (v : DigestView) (d : MeshDigest) (now : Nat) : DigestView × Bool :=
  if (v.inner.map[d.node.nodeId]?).any fun held => refusesCopy (v.ownMeshMember d) held.digest d then (v, false)
  else (v.hold (v.keepReportedStatus d) now .forwarded, true)

/-- A forwarded word is no liveness: a member already heard keeps when and how it was. -/
def installTopology (v : DigestView) (d : MeshDigest) (now : Nat) : DigestView × Bool :=
  match v.inner.map[d.node.nodeId]? with
  | none => (v.hold d now .topology, true)
  | some held =>
    if refusesCopy (v.ownMeshMember d) held.digest d then (v, false)
    else (v.hold d held.heardAt held.heard, true)

/-- What is done under the hold of the members. -/
def install (v : DigestView) (via : Via) (d : MeshDigest) (now : Nat) : DigestView × Bool :=
  match via with
  | .heartbeat => v.installHeartbeat d now
  | .forwarded | .join => v.installForwarded d now
  | .topology => v.installTopology d now

/-- A digest is checked against the departures, the recoveries and the stops, each under its own hold,
and against the stops again under the hold of the members it is installed under. -/
def recordVia (v : DigestView) (via : Via) (d : MeshDigest) (now : Nat) : DigestView × Bool :=
  let v := v.expireDeletedAt now
  if v.deleted.contains d.node.nodeId then (if via = .heartbeat then v.noteReturned d else v, false)
  else if v.isRecovering d.node.nodeId d.node.incarnation then (v, false)
  else
    match v.stoppedRefuses d via now with
    | (v, true) => (v, false)
    | (v, false) =>
      if v.isStopped d then ((v.stoppedRefuses d via now).1, false) else v.install via d now

def recordAt (v : DigestView) (d : MeshDigest) (now : Nat) : DigestView × Bool := v.recordVia .heartbeat d now

def recordForwardedAt (v : DigestView) (d : MeshDigest) (now : Nat) : DigestView × Bool :=
  v.recordVia .forwarded d now

def recordJoined (v : DigestView) (d : MeshDigest) (now : Nat) : DigestView × Bool := v.recordVia .join d now

def recordTopologyAt (v : DigestView) (d : MeshDigest) (now : Nat) : DigestView × Bool :=
  v.recordVia .topology d now

/-- The stop's overlay opens, its mark is kept, and the birth is dropped. -/
def stop (v : DigestView) (op : LifecycleOp) (mark : StopMark) : DigestView :=
  { v with
    inFlight := v.inFlight.put op
    stoppedMarks := v.stoppedMarks.insert op.nodeId mark
    projected := v.projected.erase op.nodeId
    inner := v.inner.remove op.nodeId }

/-- The stop is taken once; a copy of it only adds where its publication carried it. -/
def takeStop (v : DigestView) (op : LifecycleOp) (carried : Option (String × Nat)) (heldDigest : Option MeshDigest) :
    DigestView × Bool :=
  let ended := v.endedOverlays.contains op.identity
  if admitOverlay op v.inFlight.map[op.key]? ended then
    (v.stop op ⟨op.incarnation, (heldDigest.map MeshDigest.digestSeq).getD 0, heldDigest, none, carried⟩, true)
  else if ended then (v, false)
  else
    match v.stoppedMarks[op.nodeId]? with
    | some mark =>
      if carried.isSome && mark.incarnation == op.incarnation && mark.carried.isNone then
        ({ v with stoppedMarks := v.stoppedMarks.insert op.nodeId { mark with carried := carried } }, false)
      else (v, false)
    | none => (v, false)

/-- The digest the view holds of a node: its own, or the projection's. -/
def heldDigest (v : DigestView) (id : String) : Option MeshDigest :=
  ((v.inner.map[id]?).map fun held => v.recordedPrimaries held.digest).or ((v.projected[id]?).map Prod.fst)

/-- A stopped birth: it leaves the view, and no digest of it is taken again until the stop ends. The
view's own holder, another birth than the one held and a stop that ended are refused. `carried` is
the publisher and version its publication carried the stop at. -/
def stoppedCarried (v : DigestView) (op : LifecycleOp) (carried : Option (String × Nat)) (now : Nat) :
    DigestView × Bool :=
  let v := v.expireDeletedAt now
  if v.deleted.contains op.nodeId then (v, false)
  else if v.own = some op.nodeId then (v, false)
  else
    let v := v.woken now
    let held := v.heldDigest op.nodeId
    if held.any fun d => d.node.incarnation != op.incarnation then (v, false) else v.takeStop op carried held

def stopped (v : DigestView) (op : LifecycleOp) (now : Nat) : DigestView × Bool := v.stoppedCarried op none now

/-- Set the status of an exact birth, where the view holds it; answers the status it had. -/
def authorStatus (v : DigestView) (id incarnation : String) (status : NodeStatus) :
    DigestView × Option NodeStatus :=
  match (v.inner.map[id]?).filter fun held => held.digest.node.incarnation == incarnation with
  | some held => ({ v with inner := v.inner.setStatus id status }, some held.digest.status)
  | none =>
    match (v.projected[id]?).filter fun e => e.1.node.incarnation == incarnation with
    | some e =>
      ({ v with projected := v.projected.insert id ({ e.1 with status := status }, e.2) }, some e.1.status)
    | none => (v, none)

/-- A birth whose stop ended is held again. -/
def rehold (v : DigestView) (id : String) (entry : HeldMember) : DigestView :=
  { v with inner := v.inner.insert id entry }

/-- The mesh-primary took `node.joined` of the birth: a stop of exactly it ends and it is held again;
with none, the own-mesh birth held is set to the status. -/
def takeJoined (v : DigestView) (op : LifecycleOp) (already : Option NodeStatus) (now : Nat) : DigestView × Bool :=
  let status := already.getD .pending
  match (v.stoppedMarks[op.nodeId]?).filter fun m => m.incarnation == op.incarnation with
  | some mark =>
    let v := v.endStop op.nodeId
    match mark.again op with
    | some d =>
      let v := v.rehold op.nodeId ⟨d, now, .direct⟩
      ((v.authorStatus op.nodeId op.incarnation status).1, true)
    | none => (v, true)
  | none =>
    if (v.inner.map[op.nodeId]?).any fun held =>
        held.digest.node.incarnation == op.incarnation && v.ownMesh != "" && held.digest.node.mesh == v.ownMesh then
      ((v.authorStatus op.nodeId op.incarnation status).1, true)
    else (v, false)

def joined (v : DigestView) (op : LifecycleOp) (now : Nat) : DigestView × Bool := v.takeJoined op none now

def joinedAlreadyApplied (v : DigestView) (op : LifecycleOp) (status : NodeStatus) (now : Nat) :
    DigestView × Bool := v.takeJoined op (some status) now

/-- The mesh-primary took `node.started` of a birth of its own mesh: the birth is ready. -/
def started (v : DigestView) (id incarnation mesh : String) : DigestView × Bool :=
  let held := (v.inner.map[id]?).filter fun held => held.digest.node.incarnation == incarnation
  let mesh := (held.map fun held => held.digest.node.mesh).getD mesh
  if v.ownMesh != "" && mesh == v.ownMesh then ((v.authorStatus id incarnation .ready).1, true) else (v, false)

def reported (v : DigestView) (id incarnation : String) (status : NodeStatus) : DigestView × Bool :=
  if (v.inner.map[id]?).any fun held =>
      held.digest.node.incarnation == incarnation && v.ownMesh != "" && held.digest.node.mesh == v.ownMesh then
    ((v.authorStatus id incarnation status).1, true)
  else (v, false)

/-- A command on an own-mesh birth was accepted, and sets its status. -/
def admitted (v : DigestView) (op : LifecycleOp) (status : NodeStatus) : DigestView × Bool :=
  if v.ownMesh != "" && op.mesh == v.ownMesh &&
      (v.inner.map[op.nodeId]?).any fun held => held.digest.node.incarnation == op.incarnation then
    ((v.authorStatus op.nodeId op.incarnation status).1, true)
  else (v, false)

/-- A new primary adopts the status its mesh's primary set for an own-mesh birth. -/
def adoptStatus (v : DigestView) (id incarnation mesh : String) (status : NodeStatus) (now : Nat) :
    DigestView × Except String (Option NodeStatus) :=
  if v.ownMesh = "" ∨ mesh ≠ v.ownMesh then (v, .error "another-mesh")
  else if v.own = some id then (v, .error "own-birth")
  else if v.ownPredecessor = some incarnation then (v, .error "own-predecessor-birth")
  else
    let v := v.expireDeletedAt now
    if v.deleted.contains id then (v, .error "deleted")
    else if v.holdsStopped id incarnation then (v, .error "stopped")
    else if (v.inner.map[id]?).any fun held => held.digest.node.incarnation != incarnation then
      (v, .error "another-birth-held")
    else
      let out := v.authorStatus id incarnation status
      (out.1, .ok out.2)

/-- The stop of a birth was carried by `publisher` at `version`, unless a higher version of it was. -/
def noteCarried (marks : ExtTreeMap String StopMark) (birth : String × String) (publisher : String)
    (version : Nat) : ExtTreeMap String StopMark :=
  match marks[birth.1]? with
  | some mark =>
    if mark.incarnation = birth.2 ∧ (mark.carried.all fun c => c.1 != publisher || decide (c.2 < version)) then
      marks.insert birth.1 { mark with carried := some (publisher, version) }
    else marks
  | none => marks

/-- Every stop the source carried before the frame, or carries after it, is marked carried there. -/
def noteStopsCarried (v : DigestView) (target : Target) : DigestView :=
  let marks := match target.held with
    | some (publisher, version) =>
      target.priorStops.toList.foldl (fun marks birth => noteCarried marks birth publisher version) v.stoppedMarks
    | none => v.stoppedMarks
  let marks := target.postStops.toList.foldl
    (fun marks birth => noteCarried marks birth target.publisher target.version) marks
  { v with stoppedMarks := marks }

/-- The projection moved, in order, from a version carrying the stop of `d` to one listing the birth:
an own-mesh birth is held again from the latest digest refused while the stop stood. -/
def stopEndedInProjection (v : DigestView) (d : MeshDigest) (mark : StopMark) : DigestView :=
  let v := v.endStop d.node.nodeId
  match mark.latest with
  | some again =>
    if v.ownMeshMember d then v.rehold d.node.nodeId again else v
  | none => v

/-- What a projection frame does to the stop of the birth it lists: none when no stop of it is held. -/
def stoppedEntry (v : DigestView) (d : MeshDigest) (target : Target) : DigestView × Option Bool :=
  match (v.stoppedMarks[d.node.nodeId]?).filter fun m => m.incarnation == d.node.incarnation with
  | none => (v, none)
  | some mark =>
    let moved := (mark.carried.any fun c => c.1 != target.publisher || decide (c.2 < target.version)) &&
      !target.postStops.contains (d.node.nodeId, d.node.incarnation)
    if moved then ((v.unmark d.node.nodeId).stopEndedInProjection d mark, some true) else (v, some false)

/-- Hold the own-mesh birth its mesh-primary's projection lists, when the view holds no digest of it. -/
def holdProjectedAt (v : DigestView) (d : MeshDigest) (now : Nat) : DigestView × Bool :=
  if v.inner.map.contains d.node.nodeId then (v, false)
  else
    let first : DigestView × Bool := ({ v with projected := v.projected.insert d.node.nodeId (d, now) }, true)
    match v.projected[d.node.nodeId]? with
    | none => first
    | some held =>
      if held.1.node.incarnation = d.node.incarnation then
        if held.1.digestSeq < d.digestSeq then
          ({ v with projected := v.projected.insert d.node.nodeId (d, held.2) }, held.1.status != d.status)
        else (v, false)
      else if held.1.node.supersedes = some d.node.incarnation then (v, false)
      else first

/-- An open lifecycle overlay: the node stays held and stops being routable. -/
def deleting (v : DigestView) (op : LifecycleOp) (now : Nat) : DigestView × Bool :=
  let v := v.expireDeletedAt now
  if v.deleted.contains op.nodeId then (v, false)
  else
    let held := v.inFlight.map[op.key]?
    if admitOverlay op held (v.endedOverlays.contains op.identity) then
      ({ v with inFlight := v.inFlight.put op }, held.isNone)
    else (v, false)

/-- Only while the birth is ready and its mesh is ready, as the view holds them. -/
def routable (v : DigestView) (id : String) (now : Nat) : Bool :=
  let v := v.expireDeletedAt now
  if v.deleted.contains id || v.inFlight.list.any (fun op => op.nodeId == id) then false
  else
    ((v.getAt id now).2).any fun got =>
      got.1.status == .ready && v.statuses[got.1.node.mesh]? == some "ready"

/-- The birth of the node held only from the mesh-primary's projection. -/
def projectedAt (v : DigestView) (id : String) (now : Nat) : Option MeshDigest :=
  if v.inner.map.contains id || v.stoppedMarks.contains id || v.isDeletedAt id now then none
  else (v.projected[id]?).map fun e => v.recordedPrimaries e.1

/-- A birth a mesh deletion departs: its incarnation, its name and its type. -/
abbrev Leaver := String × PathName × String

/-- The births of a mesh still held: its members, its projected births, its stopped births and the
births its open overlays name, each by the first of these that has it. -/
def meshRoster (v : DigestView) (mesh : String) (now : Nat) : ExtTreeMap String Leaver :=
  let ofDigest (roster : ExtTreeMap String Leaver) (d : MeshDigest) :=
    if d.node.mesh = mesh then
      roster.insertIfNew d.node.nodeId (d.node.incarnation, d.node.location, d.node.type)
    else roster
  let members := (values v.inner.map).foldl (fun roster held =>
    if held.digest.node.mesh = mesh then
      roster.insert held.digest.node.nodeId
        (held.digest.node.incarnation, held.digest.node.location, held.digest.node.type)
    else roster) (∅ : ExtTreeMap String Leaver)
  let projected := (v.projected.keys.filterMap fun id => v.projectedAt id now).foldl ofDigest members
  let stopped := ((values v.stoppedMarks).filterMap StopMark.held).foldl ofDigest projected
  v.inFlight.list.foldl (fun roster op =>
    if op.mesh = mesh then roster.insertIfNew op.nodeId (op.incarnation, op.location, op.type) else roster) stopped

def departEntry (mesh buildId : String) (atRafkaMs now : Nat) (v : DigestView) (entry : String × Leaver) : DigestView :=
  let (id, incarnation, location, type) := entry
  if v.own = some id then v
  else
    let op : LifecycleOp :=
      { type := type, buildId := buildId, operation := .mk "node.delete" (some (.node id)) none none
        nodeId := id, incarnation := incarnation, path := location.1, name := location.2, mesh := mesh
        eventAtRafkaMs := atRafkaMs, traceparent := none, tracestate := none }
    (v.departQuiet op now).1

/-- Depart every remaining birth of a mesh but the holder's own, and forget the mesh's status. -/
def departMeshBirths (v : DigestView) (mesh buildId : String) (atRafkaMs now : Nat) : DigestView :=
  let roster := v.meshRoster mesh now
  let v := v.woken now
  -- Reading a projected birth looks it up among the departures, which forgets the expired ones.
  let v :=
    if v.projected.keys.any fun id => !v.inner.map.contains id && !v.stoppedMarks.contains id then
      v.expireDeletedAt now
    else v
  let v := roster.toList.foldl (departEntry mesh buildId atRafkaMs now) v
  { v with statuses := v.statuses.erase mesh }

def returnedReported (v : DigestView) (id incarnation : String) : DigestView :=
  { v with returned := v.returned.erase (id, incarnation) }

end DigestView

end DistributedMesh
