import DistributedMesh.BuildTopology
import Mathlib

namespace DistributedMesh.Properties

open DistributedMesh.Build (Binding StoragePersistence TagsRefusal tagsRefusal)

/-- The place of a status along a node's start and stop. -/
def statusOrder : NodeStatus → Nat
  | .starting => 0
  | .pending => 1
  | .ready => 2
  | .pendingReconnect => 2
  | .dead => 2
  | .reserved5 => 2
  | .deleting => 3
  | .stopping => 4
  | .connectionsDeleting => 5
  | .connectionsDeleted => 6
  | .leaving => 7
  | .left => 8
  | .stopped => 9
  | .deleted => 10
  | .withdrawn => 10

/-- Whether a node of one status moves to another. -/
def movesTo (now next : NodeStatus) : Bool :=
  if now = .deleted ∨ now = .withdrawn then false
  else
    match next with
    | .starting => decide (now = .stopped ∨ now = .leaving)
    | .pending => decide (now ≠ .deleting)
    | .deleting => true
    | .stopping => decide (now ≠ .stopped)
    | _ => decide (statusOrder next > statusOrder now)

structure CertDates where
  issuedAt : Nat
  expiresAt : Nat
  issuerExpiresAt : Nat
  renewAt : Nat
deriving DecidableEq

structure SigningCertDates where
  issuedAt : Nat
  expiresAt : Nat
  renewAt : Nat
deriving DecidableEq

/-- A node's own storage. -/
structure NodeStorage where
  persistence : Option StoragePersistence
  dataDir : Option String
deriving DecidableEq

/-- A node's durable record. -/
structure NodeRecord where
  nodeId : String
  path : String
  name : String
  type : String
  incarnation : String
  state : NodeStatus
  endpointId : String
  transportAddr : String
  listeners : List (String × String)
  runtime : RuntimeFact
  isPrimary : Option Nat
  isFabricPrimary : Option Nat
  cert : Option CertDates
  signingCert : Option SigningCertDates
  storage : NodeStorage
  executable : Option Binding
  config : List (String × String)
  tags : Finset String
deriving DecidableEq

def NodeRecord.setState (r : NodeRecord) (next : NodeStatus) : NodeRecord :=
  if movesTo r.state next then { r with state := next } else r

/-- Why a property write is refused before storage is asked. -/
inductive Refusal where
  | deleted (nodeId : String)
  | tags (reason : TagsRefusal)
  /-- The text of a command's own check, or of the backend. -/
  | named (reason : String)
deriving DecidableEq

inductive StorageError where
  | io (file reason : String)
  | unrecognised (file reason : String)
  | refused (file : String) (reason : Refusal)
deriving DecidableEq

/-- One call of the writer: the record it starts from where it holds none and reads none, whether it reads the retained one
first, and its change. -/
structure Write where
  initial : NodeRecord
  readRetained : Bool
  change : NodeRecord → Except StorageError NodeRecord

inductive TagScope where
  | all
  | labels (labels : Finset String)
deriving DecidableEq

inductive TagChange where
  | create (labels : Finset String)
  | delete (scope : TagScope)
deriving DecidableEq

/-- The whole Build entry of a node. -/
structure EntryProperties where
  config : List (String × String)
  tags : Finset String
deriving DecidableEq

/-- The reasons of `tags_refusal`, found in the set's order. -/
def labelsRefusal (tags : Finset String) : Option TagsRefusal := tagsRefusal tags.sort

/-- The refusals of a tag command before the writer is asked: `create_tags_refusal` and the scope's. -/
def TagChange.refusal : TagChange → Option Refusal
  | create labels =>
    if labels = ∅ then some (.named "node.tag.create names no label: it needs at least one")
    else (labelsRefusal labels).map .tags
  | delete .all => none
  | delete (.labels labels) =>
    if labels = ∅ then
      some (.named "node.tag.delete names no label: Labels needs at least one label (All is its own scope)")
    else (labelsRefusal labels).map .tags

/-- What an applied tag command answers. -/
inductive TagReply where
  | created (nodeId incarnation : String) (alreadyCarried : Finset String)
  | deleted (nodeId incarnation : String) (notCarried : Finset String)
deriving DecidableEq

def TagChange.apply (r : NodeRecord) : TagChange → Except StorageError (NodeRecord × TagReply)
  | create labels =>
    match labelsRefusal (r.tags ∪ labels) with
    | some reason => .error (.refused "node.tags" (.tags reason))
    | none => .ok ({ r with tags := r.tags ∪ labels }, .created r.nodeId r.incarnation (labels ∩ r.tags))
  | delete .all => .ok ({ r with tags := ∅ }, .deleted r.nodeId r.incarnation ∅)
  | delete (.labels labels) =>
    .ok ({ r with tags := r.tags \ labels }, .deleted r.nodeId r.incarnation (labels \ r.tags))

def EntryProperties.apply (entry : EntryProperties) (r : NodeRecord) : Except StorageError NodeRecord :=
  match labelsRefusal entry.tags with
  | some reason => .error (.refused "node.tags" (.tags reason))
  | none => .ok { r with config := entry.config, tags := entry.tags }

/-- The facts of a start on the record it finds. -/
def NodeRecord.bind (bound r : NodeRecord) : NodeRecord :=
  { r with
    incarnation := bound.incarnation
    state := bound.state
    endpointId := bound.endpointId
    transportAddr := bound.transportAddr
    listeners := bound.listeners
    runtime := bound.runtime
    storage := { r.storage with dataDir := bound.storage.dataDir } }

/-- The calls on a node's property writer. -/
inductive Command where
  | bound (initial : NodeRecord)
  | update (initial : NodeRecord) (change : NodeRecord → NodeRecord)
  | updateChecked (initial : NodeRecord) (change : NodeRecord → Except StorageError NodeRecord)
  | tags (initial : NodeRecord) (change : TagChange)
  | entry (initial : NodeRecord) (properties : EntryProperties)
  | state (initial : NodeRecord) (next : NodeStatus)

def updateChecked (initial : NodeRecord) (change : NodeRecord → Except StorageError NodeRecord) : Write :=
  ⟨initial, true, change⟩

def update (initial : NodeRecord) (change : NodeRecord → NodeRecord) : Write :=
  updateChecked initial fun r => .ok (change r)

/-- The write a call asks for: none where a tag command is refused before it. -/
def Command.write : Command → Option Write
  | bound initial => some ⟨initial, false, fun r => .ok (initial.bind r)⟩
  | update initial change => some (Properties.update initial change)
  | updateChecked initial change => some (Properties.updateChecked initial change)
  | tags initial change =>
    match change.refusal with
    | some _ => none
    | none => some (Properties.updateChecked initial fun r => (change.apply r).map Prod.fst)
  | entry initial properties => some (Properties.updateChecked initial properties.apply)
  | state initial next => some (Properties.update initial fun r => r.setState next)

/-- What a write makes of the durable record. -/
def Write.on (r : Option NodeRecord) (w : Write) : Option NodeRecord :=
  match w.change ((if w.readRetained then r else none).getD w.initial) with
  | .ok next => some next
  | .error _ => r

/-- A write that is given the record it reads. -/
theorem Write.on_readRetained {w : Write} (h : w.readRetained = true) (r : Option NodeRecord) {next : NodeRecord}
    (hnext : w.change (r.getD w.initial) = .ok next) : w.on r = some next := by
  unfold Write.on
  rw [if_pos h, hnext]

theorem Write.on_bound {w : Write} (h : w.readRetained = false) (r : Option NodeRecord) {next : NodeRecord}
    (hnext : w.change w.initial = .ok next) : w.on r = some next := by
  unfold Write.on
  rw [if_neg (by rw [h]; exact Bool.false_ne_true), Option.getD_none, hnext]

end DistributedMesh.Properties
