import DistributedMesh.TopologyDelta

namespace DistributedMesh

open Std (ExtTreeMap)
open KeyedMaps LexCode

/-- What one chunk carries of a snapshot's members, overlays and departures. -/
structure Parts where
  digests : List MeshDigest
  inFlight : List LifecycleOp
  deleted : List LifecycleOp
deriving DecidableEq

def Parts.full (parts : Parts) : Full := Full.new parts.digests parts.inFlight parts.deleted

def Parts.append (a b : Parts) : Parts :=
  ⟨a.digests ++ b.digests, a.inFlight ++ b.inFlight, a.deleted ++ b.deleted⟩

structure Chunk where
  mesh : String
  publisher : PublisherId
  forwardedBy : Option String
  topologyVersion : Nat
  snapshotId : Nat
  chunkIndex : UInt32
  chunkCount : UInt32
  parts : Parts
deriving DecidableEq

structure Install where
  mesh : String
  publisher : PublisherId
  topologyVersion : Nat
  snapshotId : Nat
  full : Full
  newRevision : Bool
  resumed : Bool
  refreshed : Bool

inductive Refusal where
  | duplicate
  | inconsistent
  | malformedChunk (chunkIndex chunkCount : UInt32) (why : String)
  | olderThanHeld (heldVersion offeredVersion : Nat)
  | olderThanPending (pendingVersion pendingSnapshot offeredVersion offeredSnapshot : Nat)
deriving DecidableEq

/-- What a chunk did. -/
inductive Taken where
  | waiting (held of : UInt32)
  | installed (install : Install)
  | refused (refusal : Refusal)

/-- Why a delta did not apply. -/
inductive Gap where
  | noBaseline
  | otherRevision (held : PublisherId)
  | version (held base : Nat)
  | alreadyDesynced
  | stoppedBirthHeard
deriving DecidableEq

/-- What a delta did. -/
inductive Moved where
  | stale
  | inconsistent
  | applied (mesh : String) (baseVersion topologyVersion : Nat) (delta : Delta)
  | duplicate (heldVersion : Nat)
  | desynced (mesh : String) (gap : Gap)
deriving DecidableEq

structure SourceKey where
  owner : Option Birth
  mesh : String
  publisher : PublisherId
  fromRead : Bool
deriving DecidableEq

def birthCode : Code Birth :=
  (pairCode stringCode (pairCode stringCode stringCode)).comap
    (fun b => (b.fabric, b.node, b.incarnation)) (by rintro ⟨⟩ ⟨⟩; simp)

def publisherCode : Code PublisherId :=
  (pairCode stringCode stringCode).comap (fun p => (p.incarnation, p.nodeId))
    (by rintro ⟨⟩ ⟨⟩; simp)

def boolCode : Code Bool := natCode.comap Bool.toNat fun a b h => by cases a <;> cases b <;> simp_all

def sourceKeyCode : Code SourceKey :=
  (pairCode (optionCode birthCode) (pairCode stringCode (pairCode publisherCode boolCode))).comap
    (fun k => (k.owner, k.mesh, k.publisher, k.fromRead)) (by rintro ⟨⟩ ⟨⟩; simp)

structure PendingSnapshot where
  owner : Option Birth
  version : Nat
  snapshotId : Nat
  count : UInt32
  chunks : ExtTreeMap UInt32 Parts

structure Held where
  publisher : PublisherId
  version : Nat
  full : Full
  desynced : Option Gap
  publication : Option PendingSnapshot
  lastDelta : Option (Nat × Delta)

/-- The held source moved by a delta. -/
def Held.move (h : Held) (base version : Nat) (delta : Delta) : Held :=
  { h with
    full := h.full.apply delta
    version := version
    publication := none
    lastDelta := some (base, delta) }

def sameParts (parts : Parts) (c : Chunk) : Bool := parts.full.sameTopology c.parts.full

def sameDelta (a b : Delta) : Bool :=
  Std.ExtTreeSet.ofList a.removed == Std.ExtTreeSet.ofList b.removed
    && (Full.new a.changed a.inFlight a.deleted).sameTopology (Full.new b.changed b.inFlight b.deleted)

/-- The complete image another channel installed. -/
structure InstalledProjection where
  publisher : PublisherId
  version : Nat
  full : Full
  snapshotId : Option Nat

/-- A node's held cross-mesh projection, one source mesh at a time. -/
structure SnapshotReceiver where
  pending : ExtTreeMap SourceKey PendingSnapshot sourceKeyCode.cmp
  held : ExtTreeMap String Held
  unbased : ExtTreeMap String Gap
  dropped : ExtTreeMap String Nat

/-- The pending chunks of a complete snapshot, joined in index order. -/
def PendingSnapshot.parts (p : PendingSnapshot) : Parts :=
  (values p.chunks).foldl Parts.append ⟨[], [], []⟩

def PendingSnapshot.fresh (owner : Option Birth) (c : Chunk) : PendingSnapshot :=
  ⟨owner, c.topologyVersion, c.snapshotId, c.chunkCount, ∅⟩

def PendingSnapshot.same (p : PendingSnapshot) (c : Chunk) : Prop :=
  p.version = c.topologyVersion ∧ p.snapshotId = c.snapshotId

instance (p : PendingSnapshot) (c : Chunk) : Decidable (p.same c) := inferInstanceAs (Decidable (_ ∧ _))

def PendingSnapshot.add (p : PendingSnapshot) (c : Chunk) : PendingSnapshot :=
  { p with chunks := p.chunks.insert c.chunkIndex c.parts }

/-- What a publication already has of a chunk: a different count or content is a conflict. -/
def PendingSnapshot.has (p : PendingSnapshot) (c : Chunk) : Option Refusal :=
  if p.count ≠ c.chunkCount then some .inconsistent
  else (p.chunks[c.chunkIndex]?).map fun parts =>
    if sameParts parts c then .duplicate else .inconsistent

namespace SnapshotReceiver

def empty : SnapshotReceiver := ⟨∅, ∅, ∅, ∅⟩

def heldBy (rx : SnapshotReceiver) (mesh : String) (publisher : PublisherId) : Option Held :=
  rx.held[mesh]?.filter fun h => h.publisher = publisher

/-- What the held source of the chunk's publisher refuses. -/
def againstHeld (rx : SnapshotReceiver) (c : Chunk) (fromRead : Bool) (owner : Option Birth) :
    Option Refusal := do
  let h ← rx.heldBy c.mesh c.publisher
  if c.topologyVersion < h.version then some (.olderThanHeld h.version c.topologyVersion)
  else if !fromRead && c.topologyVersion == h.version then
    let p ← h.publication.filter fun p => p.snapshotId = c.snapshotId ∧ p.owner = owner
    p.has c
  else none

/-- What the assembly of the chunk's source refuses. -/
def againstPending (rx : SnapshotReceiver) (key : SourceKey) (c : Chunk) : Option Refusal := do
  let p ← rx.pending[key]?
  if p.same c then p.has c
  else if c.topologyVersion < p.version ∨
      (c.topologyVersion = p.version ∧ c.snapshotId < p.snapshotId) then
    some (.olderThanPending p.version p.snapshotId c.topologyVersion c.snapshotId)
  else none

/-- The assembly a chunk joins: the one of its publication, or a new one in the place of an
older one. -/
def assembly (rx : SnapshotReceiver) (key : SourceKey) (c : Chunk) : PendingSnapshot :=
  match rx.pending[key]? with
  | some p => if p.same c then p else PendingSnapshot.fresh key.owner c
  | none => PendingSnapshot.fresh key.owner c

/-- What a complete snapshot is refused for. -/
def againstComplete (rx : SnapshotReceiver) (c : Chunk) (full : Full) (fromRead : Bool)
    (installed : Option InstalledProjection) : Option Refusal :=
  if (rx.heldBy c.mesh c.publisher).any fun h =>
      h.version == c.topologyVersion && !h.full.sameTopology full then some .inconsistent
  else do
    let i ← installed.filter fun i => i.publisher = c.publisher ∧ i.version = c.topologyVersion
    if !i.full.sameTopology full then some .inconsistent
    else if !fromRead && i.snapshotId == some c.snapshotId then some .duplicate
    else none

def install (rx : SnapshotReceiver) (mesh : String) (publisher : PublisherId) (publication : PendingSnapshot)
    (full : Full) (fromRead : Bool) : SnapshotReceiver × Taken :=
  let version := publication.version
  let unbased := mesh ∈ rx.unbased
  let flags : Bool × Bool × Bool := match rx.held[mesh]? with
    | none => (true, unbased, false)
    | some h =>
      if h.publisher ≠ publisher then (true, h.desynced.isSome || unbased, false)
      else (false, h.desynced.isSome, version == h.version)
  let same := (rx.heldBy mesh publisher).filter fun h => h.version = version
  let retained := if fromRead then same.bind fun h => h.publication else some publication
  let behind := rx.dropped[mesh]?.filter fun d => d > version
  let held : Held :=
    { publisher, version, full
      desynced := behind.map fun d => .version version d
      publication := retained
      lastDelta := same.bind fun h => h.lastDelta }
  ({ pending := rx.pending.filter fun k p => !(k.mesh = mesh ∧ k.publisher = publisher ∧
        (p.version < version ∨ (k.owner = publication.owner ∧ p.version = version)))
     held := rx.held.insert mesh held
     unbased := rx.unbased.erase mesh
     dropped := if behind.isNone then rx.dropped.erase mesh else rx.dropped },
   .installed ⟨mesh, publisher, version, publication.snapshotId, full, flags.1, flags.2.1, flags.2.2⟩)

def sourceKey (c : Chunk) (fromRead : Bool) (owner : Option Birth) : SourceKey :=
  ⟨owner, c.mesh, c.publisher, fromRead⟩

def chunk (rx : SnapshotReceiver) (c : Chunk) (fromRead : Bool)
    (installed : Option InstalledProjection) (owner : Option Birth) : SnapshotReceiver × Taken :=
  if c.chunkCount = 0 ∨ c.chunkIndex ≥ c.chunkCount then
    (rx, .refused (.malformedChunk c.chunkIndex c.chunkCount "the index is outside the count"))
  else match rx.againstHeld c fromRead owner with
  | some refusal => (rx, .refused refusal)
  | none =>
    let key := sourceKey c fromRead owner
    match rx.againstPending key c with
    | some refusal => (rx, .refused refusal)
    | none =>
      let p := (rx.assembly key c).add c
      if UInt32.ofNat p.chunks.size < p.count then
        ({ rx with pending := rx.pending.insert key p },
          .waiting (UInt32.ofNat p.chunks.size) p.count)
      else
        let rx := { rx with pending := rx.pending.erase key }
        match rx.againstComplete c p.parts.full fromRead installed with
        | some refusal => (rx, .refused refusal)
        | none => rx.install c.mesh c.publisher p p.parts.full fromRead

def takeChunk (rx : SnapshotReceiver) (c : Chunk) : SnapshotReceiver × Taken :=
  rx.chunk c false none none

def takeReadChunk (rx : SnapshotReceiver) (c : Chunk) : SnapshotReceiver × Taken :=
  rx.chunk c true none none

def takeChunkAgainst (rx : SnapshotReceiver) (c : Chunk) (fromRead : Bool)
    (installed : Option InstalledProjection) : SnapshotReceiver × Taken :=
  rx.chunk c fromRead installed none

def takeAuthoredChunk (rx : SnapshotReceiver) (c : Chunk) (owner : Option Birth)
    (installed : Option InstalledProjection) : SnapshotReceiver × Taken :=
  rx.chunk c false installed owner

def desync (rx : SnapshotReceiver) (mesh : String) (h : Held) (gap : Gap) :
    SnapshotReceiver × Moved :=
  match h.desynced with
  | some _ => (rx, .desynced mesh .alreadyDesynced)
  | none => ({ rx with held := rx.held.insert mesh { h with desynced := some gap } }, .desynced mesh gap)

/-- Whether a delta to the held version is the one the version was reached by. -/
def repeats (h : Held) (baseVersion : Nat) (delta : Delta) : Bool :=
  match h.lastDelta with
  | some (base, applied) => base == baseVersion && sameDelta applied delta
  | none => h.full.sameTopology (h.full.apply delta)

def takeDeltaAtBase (rx : SnapshotReceiver) (mesh : String) (source : PublisherId)
    (baseVersion topologyVersion : Nat) (delta : Delta) : SnapshotReceiver × Moved :=
  match rx.held[mesh]? with
  | none =>
    ({ rx with unbased := rx.unbased.insertIfNew mesh .noBaseline },
      .desynced mesh (if mesh ∈ rx.unbased then .alreadyDesynced else .noBaseline))
  | some h =>
    if h.publisher ≠ source then rx.desync mesh h (.otherRevision h.publisher)
    else if topologyVersion < h.version then (rx, .stale)
    else if h.version = topologyVersion then
      if repeats h baseVersion delta then (rx, .duplicate h.version) else (rx, .inconsistent)
    else if h.desynced.isSome then (rx, .desynced mesh .alreadyDesynced)
    else if h.version ≠ baseVersion then rx.desync mesh h (.version h.version baseVersion)
    else
      ({ rx with held := rx.held.insert mesh (h.move baseVersion topologyVersion delta) },
        .applied mesh baseVersion topologyVersion delta)

/-- The floor a dropped delta leaves. -/
def dropAt (rx : SnapshotReceiver) (mesh : String) (version : Nat) : SnapshotReceiver :=
  { rx with dropped := rx.dropped.insert mesh (max (rx.dropped[mesh]?.getD version) version) }

def takeDelta (rx : SnapshotReceiver) (mesh : String) (source : PublisherId)
    (baseVersion topologyVersion : Nat) (delta : Delta) : SnapshotReceiver × Moved :=
  match rx.takeDeltaAtBase mesh source baseVersion topologyVersion delta with
  | (rx, .desynced _ .alreadyDesynced) =>
    (rx.dropAt mesh topologyVersion, .desynced mesh .alreadyDesynced)
  | answer => answer

/-- Take another channel's image as the held source, where none as new of its publisher is held. -/
def adopt (rx : SnapshotReceiver) (mesh : String) (source : PublisherId)
    (installed : Option InstalledProjection) : SnapshotReceiver :=
  match installed.filter fun i => i.publisher = source with
  | none => rx
  | some i =>
    if rx.held[mesh]?.all fun h => h.publisher ≠ i.publisher ∨ h.version < i.version then
      { rx with held := rx.held.insert mesh ⟨i.publisher, i.version, i.full, none, none, none⟩ }
    else rx

def takeDeltaAgainst (rx : SnapshotReceiver) (mesh : String) (source : PublisherId)
    (baseVersion topologyVersion : Nat) (delta : Delta) (installed : Option InstalledProjection) :
    SnapshotReceiver × Moved :=
  (rx.adopt mesh source installed).takeDelta mesh source baseVersion topologyVersion delta

def markDesynced (rx : SnapshotReceiver) (mesh : String) (gap : Gap) : SnapshotReceiver × Bool :=
  match rx.held[mesh]? with
  | none => (rx, false)
  | some h =>
    if h.desynced.isNone then
      ({ rx with held := rx.held.insert mesh { h with desynced := some gap } }, true)
    else (rx, false)

/-- Forget the source projection held of `mesh`. -/
def remove (rx : SnapshotReceiver) (mesh : String) : SnapshotReceiver :=
  { rx with
    held := rx.held.erase mesh
    unbased := rx.unbased.erase mesh
    dropped := rx.dropped.erase mesh }

def heldVersion (rx : SnapshotReceiver) (mesh : String) : Option (PublisherId × Nat) :=
  rx.held[mesh]?.map fun h => (h.publisher, h.version)

def heldFull (rx : SnapshotReceiver) (mesh : String) : Option Full := rx.held[mesh]?.map Held.full

/-- The meshes whose source is desynchronized, with the gap that desynchronized each. -/
def desynced (rx : SnapshotReceiver) : List (String × Gap) :=
  ((rx.held.toList.filterMap fun (m, h) => h.desynced.map fun g => (m, g)) ++ rx.unbased.toList).mergeSort
    fun a b => compare a.1 b.1 != .gt

theorem mem_desynced_iff (rx : SnapshotReceiver) (mesh : String) :
    (∃ g, (mesh, g) ∈ rx.desynced) ↔
      (∃ h, rx.held[mesh]? = some h ∧ h.desynced.isSome = true) ∨ mesh ∈ rx.unbased := by
  simp only [desynced, List.mem_mergeSort, List.mem_append, List.mem_filterMap, Prod.exists,
    Option.map_eq_some_iff, Prod.mk.injEq, ExtTreeMap.mem_toList_iff_getElem?_eq_some,
    mem_iff_getElem?, Option.isSome_iff_exists]
  constructor
  · rintro ⟨g, ⟨m, h, hh, gap, hg, rfl, rfl⟩ | hu⟩
    · exact Or.inl ⟨h, hh, gap, hg⟩
    · exact Or.inr ⟨g, hu⟩
  · rintro (⟨h, hh, gap, hg⟩ | ⟨g, hu⟩)
    · exact ⟨gap, Or.inl ⟨mesh, h, hh, gap, hg, rfl, rfl⟩⟩
    · exact ⟨g, Or.inr hu⟩

/-- The chunk passes every check made before it joins its assembly. -/
structure Joins (rx : SnapshotReceiver) (c : Chunk) (fromRead : Bool) (owner : Option Birth) : Prop where
  index : c.chunkIndex < c.chunkCount
  held : rx.againstHeld c fromRead owner = none
  pending : rx.againstPending (sourceKey c fromRead owner) c = none

/-- The assembly with the chunk in it. -/
def joined (rx : SnapshotReceiver) (c : Chunk) (fromRead : Bool) (owner : Option Birth) : PendingSnapshot :=
  (rx.assembly (sourceKey c fromRead owner) c).add c

/-- The receiver with the chunk in its assembly. -/
def waits (rx : SnapshotReceiver) (c : Chunk) (fromRead : Bool) (owner : Option Birth) :
    SnapshotReceiver :=
  let key := sourceKey c fromRead owner
  { rx with pending := rx.pending.insert key (rx.joined c fromRead owner) }

/-- The receiver once the chunk's assembly is taken out of it, complete. -/
def taken (rx : SnapshotReceiver) (c : Chunk) (fromRead : Bool) (owner : Option Birth) :
    SnapshotReceiver :=
  { rx with pending := rx.pending.erase (sourceKey c fromRead owner) }

def short (p : PendingSnapshot) : Prop := UInt32.ofNat p.chunks.size < p.count

/-- What a chunk can do: it is refused at once, it waits in its assembly, or its assembly is
complete and is refused or installed. -/
inductive ChunkStep (rx : SnapshotReceiver) (c : Chunk) (fromRead : Bool)
    (installed : Option InstalledProjection) (owner : Option Birth) :
    SnapshotReceiver × Taken → Prop where
  | refused (refusal : Refusal) (h : ¬ rx.Joins c fromRead owner) :
      ChunkStep rx c fromRead installed owner (rx, .refused refusal)
  | waiting (h : rx.Joins c fromRead owner) (hs : short (rx.joined c fromRead owner)) :
      ChunkStep rx c fromRead installed owner
        (rx.waits c fromRead owner, .waiting (UInt32.ofNat (rx.joined c fromRead owner).chunks.size)
            (rx.joined c fromRead owner).count)
  | conflicting (refusal : Refusal) (h : rx.Joins c fromRead owner)
      (hs : ¬ short (rx.joined c fromRead owner))
      (hr : (rx.taken c fromRead owner).againstComplete c (rx.joined c fromRead owner).parts.full
        fromRead installed = some refusal) :
      ChunkStep rx c fromRead installed owner (rx.taken c fromRead owner, .refused refusal)
  | installed (h : rx.Joins c fromRead owner) (hs : ¬ short (rx.joined c fromRead owner))
      (hr : (rx.taken c fromRead owner).againstComplete c (rx.joined c fromRead owner).parts.full
        fromRead installed = none) :
      ChunkStep rx c fromRead installed owner ((rx.taken c fromRead owner).install c.mesh c.publisher
        (rx.joined c fromRead owner) (rx.joined c fromRead owner).parts.full fromRead)

theorem chunk_step (rx : SnapshotReceiver) (c : Chunk) (fromRead : Bool)
    (installed : Option InstalledProjection) (owner : Option Birth) :
    ChunkStep rx c fromRead installed owner (rx.chunk c fromRead installed owner) := by
  unfold chunk
  by_cases hi : c.chunkCount = 0 ∨ c.chunkIndex ≥ c.chunkCount
  · rw [if_pos hi]
    refine .refused _ fun h => ?_
    rcases hi with hi | hi
    · have := h.index
      rw [hi] at this
      exact UInt32.not_lt_zero this
    · exact UInt32.not_lt.mpr hi h.index
  · rw [if_neg hi]
    have hi : c.chunkIndex < c.chunkCount := by
      rw [not_or] at hi
      exact UInt32.not_le.mp hi.2
    cases hh : rx.againstHeld c fromRead owner with
    | some refusal => exact .refused _ fun h => by simp [h.held] at hh
    | none =>
      dsimp only
      cases hp : rx.againstPending (sourceKey c fromRead owner) c with
      | some refusal => exact .refused _ fun h => by simp [h.pending] at hp
      | none =>
        have hj : rx.Joins c fromRead owner := ⟨hi, hh, hp⟩
        dsimp only
        split
        next hs => exact .waiting hj hs
        next hs =>
          split
          next refusal hr => exact .conflicting refusal hj hs hr
          next hr => exact .installed hj hs hr

theorem index_ok {c : Chunk} (h : c.chunkIndex < c.chunkCount) :
    ¬ (c.chunkCount = 0 ∨ c.chunkIndex ≥ c.chunkCount) := by
  rintro (h0 | hge)
  · rw [h0] at h
    exact UInt32.not_lt_zero h
  · exact UInt32.not_lt.mpr hge h

theorem chunk_refused {rx : SnapshotReceiver} {c : Chunk} {fromRead : Bool} {owner : Option Birth}
    {refusal : Refusal} (installed : Option InstalledProjection) (hi : c.chunkIndex < c.chunkCount)
    (hh : rx.againstHeld c fromRead owner = none)
    (hp : rx.againstPending (sourceKey c fromRead owner) c = some refusal) :
    rx.chunk c fromRead installed owner = (rx, .refused refusal) := by
  simp only [chunk, if_neg (index_ok hi), hh, hp]

theorem chunk_waiting {rx : SnapshotReceiver} {c : Chunk} {fromRead : Bool} {owner : Option Birth}
    (installed : Option InstalledProjection) (hj : rx.Joins c fromRead owner)
    (hs : short (rx.joined c fromRead owner)) : rx.chunk c fromRead installed owner =
      (rx.waits c fromRead owner, .waiting (UInt32.ofNat (rx.joined c fromRead owner).chunks.size)
        (rx.joined c fromRead owner).count) := by
  simp only [chunk, if_neg (index_ok hj.index), hj.held, hj.pending]
  exact if_pos hs

theorem chunk_complete {rx : SnapshotReceiver} {c : Chunk} {fromRead : Bool} {owner : Option Birth}
    (installed : Option InstalledProjection) (hj : rx.Joins c fromRead owner)
    (hs : ¬ short (rx.joined c fromRead owner)) : rx.chunk c fromRead installed owner =
      match (rx.taken c fromRead owner).againstComplete c (rx.joined c fromRead owner).parts.full
        fromRead installed with
      | some refusal => (rx.taken c fromRead owner, .refused refusal)
      | none => (rx.taken c fromRead owner).install c.mesh c.publisher (rx.joined c fromRead owner)
        (rx.joined c fromRead owner).parts.full fromRead := by
  simp only [chunk, if_neg (index_ok hj.index), hj.held, hj.pending]
  exact if_neg hs

theorem againstHeld_none {rx : SnapshotReceiver} {c : Chunk} (fromRead : Bool) (owner : Option Birth)
    (h : rx.held[c.mesh]? = none) : rx.againstHeld c fromRead owner = none := by
  rw [againstHeld, heldBy, h]
  rfl

end SnapshotReceiver

end DistributedMesh
