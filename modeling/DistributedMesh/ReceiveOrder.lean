import DistributedMesh.GossipFrames
import DistributedMesh.GuardedRuns
import DistributedMesh.TopologyReceiver
import DistributedMesh.ViewState

namespace DistributedMesh.Gossip

open Std (ExtTreeMap ExtTreeSet)
open LexCode KeyedMaps GuardedRuns

/-- Exact applied counters as inclusive runs, each by its start. -/
abbrev PublicationCounters := ExtTreeMap Nat Nat

namespace PublicationCounters

def contains (c : PublicationCounters) (counter : Nat) : Bool :=
  (ExtTreeMap.getEntryLE? c counter).any fun run => counter ≤ run.2

/-- The counter joins the run that ends right before it and the one that starts right after. -/
def insert (c : PublicationCounters) (counter : Nat) : PublicationCounters :=
  let previous := ExtTreeMap.getEntryLE? c counter
  if previous.any fun run => counter ≤ run.2 then c
  else
    let (c, start) :=
      match previous.filter fun run => run.2 + 1 = counter with
      | some run => (ExtTreeMap.erase c run.1, run.1)
      | none => (c, counter)
    match (ExtTreeMap.getEntryGE? c counter).filter fun run => counter + 1 = run.1 with
    | some run => ExtTreeMap.insert (ExtTreeMap.erase c run.1) start run.2
    | none => ExtTreeMap.insert c start counter

end PublicationCounters

def publisherText (p : PublisherId) : String := p.nodeId ++ "@" ++ p.incarnation

/-- The source a frame's key orders within. -/
inductive Source where
  /-- One mesh's publications. -/
  | mesh (mesh : String)
  /-- One publisher's lifecycle facts of one mesh. -/
  | lifecycle (publisher : PublisherId) (mesh : String)
deriving DecidableEq

namespace Source

def fields : Source → String × Option PublisherId
  | .mesh m => (m, none)
  | .lifecycle publisher m => (m, some publisher)

theorem fields_injective : Function.Injective fields := by
  intro a b h
  cases a with
  | mesh m =>
    cases b with
    | mesh n =>
      cases h
      rfl
    | lifecycle q n => cases h
  | lifecycle p m =>
    cases b with
    | mesh n => cases h
    | lifecycle q n =>
      cases h
      rfl

def text : Source → String
  | .mesh m => m
  | .lifecycle publisher m => publisherText publisher ++ " " ++ m

end Source

def sourceCode : Code Source := (pairCode stringCode (optionCode publisherCode)).comap Source.fields Source.fields_injective

/-- A frame's order key; one source holds one kind of key. -/
inductive Key where
  | publication (publishedAtRafkaMs topologyVersion : Nat)
  | topologyVersion (version : Nat)
deriving DecidableEq

namespace Key

/-- By kind, then by the fields in their order. -/
def lt : Key → Key → Bool
  | .publication t v, .publication u w => t < u || (t == u && v < w)
  | .publication .., .topologyVersion _ => true
  | .topologyVersion _, .publication .. => false
  | .topologyVersion v, .topologyVersion w => v < w

def text : Key → String
  | .publication publishedAtRafkaMs version =>
    "published_at_rafka_ms=" ++ toString publishedAtRafkaMs ++ " topology_version=" ++ toString version
  | .topologyVersion version => "topology_version=" ++ toString version

end Key

/-- The frame's name, its source and its key; none for a frame with no order key. -/
def orderOf : Frame → Option (String × Source × Key)
  | .topologyFull mesh _ _ topologyVersion publishedAtRafkaMs _ _ _ _ _ _ =>
    some ("mesh-topology", .mesh mesh, .publication publishedAtRafkaMs topologyVersion)
  | .topologyDelta mesh _ _ topologyVersion publishedAtRafkaMs _ _ _ _ =>
    some ("mesh-topology-delta", .mesh mesh, .publication publishedAtRafkaMs topologyVersion)
  | .nodeDeleting op _ publisher topologyVersion =>
    some ("node-deleting", .lifecycle publisher op.mesh, .topologyVersion topologyVersion)
  | .nodeStopped op _ publisher topologyVersion =>
    some ("node-stopped", .lifecycle publisher op.mesh, .topologyVersion topologyVersion)
  | _ => none

/-- The frame's name and each source with its key. -/
def ordersOf (f : Frame) : String × List (Source × Key) :=
  match orderOf f with
  | some (name, source, key) => (name, [(source, key)])
  | none => ("", [])

/-- A frame the receive path ignores: received after a newer one of its source. -/
structure Earlier where
  frame : String
  source : String
  held : String
  offered : String
deriving DecidableEq

/-- A mesh's installed publisher, version, image and last publication. -/
structure InstalledSource where
  publisher : PublisherId
  version : Nat
  full : Option Full
  snapshotId : Option Nat

def publicationsCode : Code (String × PublisherId × Nat × Birth) :=
  pairCode stringCode (pairCode publisherCode (pairCode natCode birthCode))

/-- What one node holds to order what it receives, shared by every channel and its topology reads. -/
structure ReceiveOrder where
  publications : ExtTreeMap (String × PublisherId × Nat × Birth) PublicationCounters publicationsCode.cmp
  newest : ExtTreeMap Source Key sourceCode.cmp
  lifecycleSeen : ExtTreeSet LifecycleIdentity identityCode.cmp
  installed : ExtTreeMap String InstalledSource
  /-- The version this node published last of a mesh, under its exact birth. -/
  published : ExtTreeMap String (PublisherId × Nat)

/-- The mesh, publisher and version a publication names. -/
def publicationNamed : Frame → Option (String × PublisherId × Nat)
  | .topologyFull mesh publisher _ topologyVersion _ _ _ _ _ _ _ => some (mesh, publisher, topologyVersion)
  | .topologyDelta mesh sourcePublisher _ topologyVersion _ _ _ _ _ => some (mesh, sourcePublisher, topologyVersion)
  | _ => none

/-- The operation of a lifecycle fact whose identity is recorded. -/
def lifecycleFact : Frame → Option LifecycleOp
  | .nodeDeleting op _ _ _ => some op
  | .nodeStopped op _ _ _ => some op
  | _ => none

namespace ReceiveOrder

def empty : ReceiveOrder := ⟨∅, ∅, ∅, ∅, ∅⟩

/-- Record a lifecycle identity, before its revision is judged. -/
def admitLifecycleIdentity (o : ReceiveOrder) (f : Frame) : ReceiveOrder × Bool :=
  match lifecycleFact f with
  | none => (o, true)
  | some op =>
    if op.identity ∈ o.lifecycleSeen then (o, false)
    else ({ o with lifecycleSeen := o.lifecycleSeen.insert op.identity }, true)

/-- The version that orders a publisher's publications and reads of a mesh: the higher of the version installed, when it is
the publisher's, and the version this node published as it. -/
def floor (o : ReceiveOrder) (mesh : String) (publisher : PublisherId) : Option Nat :=
  max ((o.installed[mesh]?.filter fun h => h.publisher = publisher).map InstalledSource.version)
    ((o.published[mesh]?.filter fun p => p.1 = publisher).map Prod.snd)

/-- Refused when the publisher's floor of the mesh is above the version. -/
def belowInstalled (o : ReceiveOrder) (frame mesh : String) (publisher : PublisherId) (topologyVersion : Nat)
    (offered : String) : Except Earlier Unit :=
  match o.floor mesh publisher with
  | some held =>
    if topologyVersion < held then
      .error ⟨frame, mesh, "publisher=" ++ publisherText publisher ++ " topology_version=" ++ toString held, offered⟩
    else .ok ()
  | none => .ok ()

def offeredText (keys : List (Source × Key)) : String := (keys.head?.map fun k => k.2.text).getD ""

/-- The held key a key is below, of the first source that holds one. -/
def heldAbove (o : ReceiveOrder) (frame : String) (keys : List (Source × Key)) : Option Earlier :=
  keys.findSome? fun k => (o.newest[k.1]?.filter fun held => k.2.lt held).map fun held =>
    ⟨frame, k.1.text, held.text, k.2.text⟩

/-- The key held when it is newer. -/
def hold (o : ReceiveOrder) (source : Source) (key : Key) : ReceiveOrder :=
  if o.newest[source]?.all fun held => held.lt key then { o with newest := o.newest.insert source key } else o

/-- Whether a frame is taken. -/
def admitFrame (o : ReceiveOrder) (f : Frame) : ReceiveOrder × Except Earlier Unit :=
  let (frame, keys) := ordersOf f
  match publicationNamed f with
  | some (mesh, publisher, version) =>
    -- Within the installed publisher the version alone orders.
    if o.installed[mesh]?.any fun h => h.publisher = publisher then
      (o, o.belowInstalled frame mesh publisher version (offeredText keys))
    else
      match o.heldAbove frame keys with
      | some earlier => (o, .error earlier)
      | none => (o, o.belowInstalled frame mesh publisher version (offeredText keys))
  | none =>
    match o.heldAbove frame keys with
    | some earlier => (o, .error earlier)
    | none => (keys.foldl (fun o k => o.hold k.1 k.2) o, .ok ())

/-- Whether a chunk of a topology read is taken. -/
def admitRead (o : ReceiveOrder) (mesh : String) (publisher : PublisherId) (topologyVersion : Nat) : Except Earlier Unit :=
  o.belowInstalled "topology-read" mesh publisher topologyVersion ("topology_version=" ++ toString topologyVersion)

/-- This node published the mesh. -/
def publishedAs (o : ReceiveOrder) (mesh : String) (publisher : PublisherId) (topologyVersion : Nat) : ReceiveOrder :=
  let version :=
    match o.published[mesh]? with
    | some (p, v) => if p = publisher then max v topologyVersion else topologyVersion
    | none => topologyVersion
  { o with published := o.published.insert mesh (publisher, version) }

/-- The source version is held, and the stamped key when newer. -/
def installs (o : ReceiveOrder) (mesh : String) (publisher : PublisherId) (topologyVersion : Nat)
    (publishedAtRafkaMs : Option Nat) : ReceiveOrder :=
  let o :=
    match publishedAtRafkaMs with
    | some stamp => o.hold (.mesh mesh) (.publication stamp topologyVersion)
    | none => o
  { o with installed := o.installed.insert mesh ⟨publisher, topologyVersion, none, none⟩ }

def publicationInstalled (o : ReceiveOrder) (mesh : String) (publisher : PublisherId) (version : Nat) (owner : Birth)
    (counter : Nat) : ReceiveOrder :=
  let kept := o.publications.filter fun k _ => k.1 != mesh || (k.2.1 == publisher && k.2.2.1 == version)
  let counters := (kept[(mesh, publisher, version, owner)]?).getD ∅
  { o with publications := kept.insert (mesh, publisher, version, owner) (PublicationCounters.insert counters counter) }

/-- The image and its floor move together, after the complete projection is installed. -/
def installedProjection (o : ReceiveOrder) (mesh : String) (publisher : PublisherId) (version : Nat) (stamp : Option Nat)
    (full : Full) (snapshotId : Option Nat) : ReceiveOrder :=
  let retained := (o.installed[mesh]?.filter fun h => h.publisher = publisher ∧ h.version = version).bind
    InstalledSource.snapshotId
  let o := o.installs mesh publisher version stamp
  { o with installed := o.installed.insert mesh ⟨publisher, version, some full, snapshotId.or retained⟩ }

/-- A frame is handed on when it is taken and, of a lifecycle fact, its identity is new. -/
def admitted (o : ReceiveOrder) (f : Frame) : ReceiveOrder × Bool :=
  let (o, first) := o.admitLifecycleIdentity f
  match o.admitFrame f with
  | (o, .ok ()) => (o, first)
  | (o, .error _) => (o, false)

/-- What the handler installs of a publication that completes a snapshot, or of a delta that applies. -/
def handle (o : ReceiveOrder) (f : Carried) (full : Full) : ReceiveOrder :=
  match f.data with
  | .topologyFull mesh publisher _ version stamp snapshotId _ _ _ _ _ =>
    let o :=
      match f.context.bind Context.publication with
      | some (owner, _) => o.publicationInstalled mesh publisher version owner snapshotId
      | none => o
    o.installedProjection mesh publisher version (some stamp) full (some snapshotId)
  | .topologyDelta mesh sourcePublisher _ version stamp _ _ _ _ =>
    o.installedProjection mesh sourcePublisher version (some stamp) full none
  | _ => o

end ReceiveOrder

/-- A call the node makes of its receive order, under one hold of it. -/
inductive Call where
  /-- A frame of a channel, and the image it completes when it completes one. -/
  | hears (f : Carried) (completed : Option Full)
  /-- A chunk of a topology read, and the image it completes when it completes one. -/
  | reads (mesh : String) (publisher : PublisherId) (topologyVersion : Nat) (completed : Option Full)
  | publishes (topologyVersion : Nat)

/-- The order after a call of a node that publishes its mesh under its one birth. -/
def ReceiveOrder.step (own : String × PublisherId) (o : ReceiveOrder) : Call → ReceiveOrder
  | .hears f completed =>
    let (o, taken) := o.admitted f.data
    match completed with
    | some full => if taken then o.handle f full else o
    | none => o
  | .reads mesh publisher version completed =>
    match o.admitRead mesh publisher version, completed with
    | .ok (), some full => o.installedProjection mesh publisher version none full none
    | _, _ => o
  | .publishes version => o.publishedAs own.1 own.2 version

end DistributedMesh.Gossip
