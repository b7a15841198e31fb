import DistributedMesh.LexCode

namespace DistributedMesh

open LexCode

inductive PrimaryRole where
  | meshPrimary
  | fabricPrimary
  | nodePrimary (type : String)
deriving DecidableEq

mutual

/-- The subject chosen when an operation is admitted. -/
inductive OperationSubject where
  | node (id : String)
  | birth (nodeId incarnation : String)
  | reserved2
  | mesh (id : String)
  | fabric (id : String)
  | named (name : String)
  | primaryUpdate (role : PrimaryRole) (preceding : OperationId)

inductive OperationId where
  | mk (action : String) (subject : Option OperationSubject) (step : Option Nat)
    (occurrence : Option String)

end

def PrimaryRole.sortFields : PrimaryRole → Nat × String
  | .meshPrimary => (0, "")
  | .fabricPrimary => (1, "")
  | .nodePrimary type => (2, type)

theorem PrimaryRole.sortFields_injective : Function.Injective PrimaryRole.sortFields := by
  intro a b h
  cases a <;> cases b <;> simp_all [PrimaryRole.sortFields]

def roleCode : Code PrimaryRole :=
  (pairCode natCode stringCode).comap PrimaryRole.sortFields PrimaryRole.sortFields_injective

def OperationSubject.sortFields : OperationSubject → Nat × String × String
  | .node id => (0, id, "")
  | .birth nodeId incarnation => (1, nodeId, incarnation)
  | .reserved2 => (2, "", "")
  | .mesh id => (3, id, "")
  | .fabric id => (4, id, "")
  | .named name => (5, name, "")
  | .primaryUpdate _ _ => (6, "", "")

def fieldsCode : Code (Nat × String × String) :=
  pairCode natCode (pairCode stringCode stringCode)

/-- What an operation's identity is ordered by after its subject. -/
def restCode : Code (Option Nat × Option String) :=
  pairCode (optionCode natCode) (optionCode stringCode)

mutual

def OperationSubject.encode : OperationSubject → List Nat
  | .primaryUpdate role preceding => 6 :: (roleCode.encode role ++ preceding.encode)
  | subject => fieldsCode.encode subject.sortFields

def OperationId.encode : OperationId → List Nat
  | .mk action none step occurrence =>
    stringCode.encode action ++ 0 :: restCode.encode (step, occurrence)
  | .mk action (some subject) step occurrence =>
    stringCode.encode action ++ 1 :: (subject.encode ++ restCode.encode (step, occurrence))

end

theorem fieldsCode_encode (n : Nat) (a b : String) :
    fieldsCode.encode (n, a, b) = n :: (stringCode.encode a ++ stringCode.encode b) := rfl

/-- Two subjects that are no primary update are told apart by their sort fields. -/
theorem sortFields_exact {a b : OperationSubject} {r s : List Nat}
    (ha : ∀ role preceding, a ≠ .primaryUpdate role preceding)
    (hb : ∀ role preceding, b ≠ .primaryUpdate role preceding)
    (h : fieldsCode.encode a.sortFields ++ r = fieldsCode.encode b.sortFields ++ s) :
    a = b ∧ r = s := by
  obtain ⟨hf, hr⟩ := fieldsCode.exact_ h
  refine ⟨?_, hr⟩
  cases a <;> cases b <;> simp_all [OperationSubject.sortFields]

mutual

theorem OperationSubject.encode_exact (a b : OperationSubject) {r s : List Nat}
    (h : a.encode ++ r = b.encode ++ s) : a = b ∧ r = s := by
  match a, b with
  | .primaryUpdate role preceding, .primaryUpdate role' preceding' =>
    simp only [OperationSubject.encode, List.cons_append, List.cons.injEq, true_and,
      List.append_assoc] at h
    obtain ⟨hrole, hrest⟩ := roleCode.exact_ h
    obtain ⟨hop, hr⟩ := preceding.encode_exact preceding' hrest
    exact ⟨by rw [hrole, hop], hr⟩
  | .primaryUpdate role preceding, .node _ | .primaryUpdate role preceding, .birth _ _
  | .primaryUpdate role preceding, .reserved2 | .primaryUpdate role preceding, .mesh _
  | .primaryUpdate role preceding, .fabric _ | .primaryUpdate role preceding, .named _
  | .node _, .primaryUpdate role preceding | .birth _ _, .primaryUpdate role preceding
  | .reserved2, .primaryUpdate role preceding | .mesh _, .primaryUpdate role preceding
  | .fabric _, .primaryUpdate role preceding | .named _, .primaryUpdate role preceding =>
    simp [OperationSubject.encode, OperationSubject.sortFields, fieldsCode_encode] at h
  | .node _, b | .birth _ _, b | .reserved2, b | .mesh _, b | .fabric _, b | .named _, b =>
    cases b with
    | primaryUpdate role preceding =>
      simp [OperationSubject.encode, OperationSubject.sortFields, fieldsCode_encode] at h
    | _ => exact sortFields_exact (by simp) (by simp) (by simpa only [OperationSubject.encode] using h)

theorem OperationId.encode_exact (a b : OperationId) {r s : List Nat}
    (h : a.encode ++ r = b.encode ++ s) : a = b ∧ r = s := by
  match a, b with
  | .mk action none step occurrence, .mk action' none step' occurrence' =>
    simp only [OperationId.encode, List.append_assoc, List.cons_append] at h
    obtain ⟨haction, hrest⟩ := stringCode.exact_ h
    obtain ⟨hfields, hr⟩ := restCode.exact_ (List.cons.inj hrest).2
    cases hfields
    exact ⟨by rw [haction], hr⟩
  | .mk action (some subject) step occurrence, .mk action' (some subject') step' occurrence' =>
    simp only [OperationId.encode, List.append_assoc, List.cons_append] at h
    obtain ⟨haction, hrest⟩ := stringCode.exact_ h
    obtain ⟨hsubject, hrest⟩ := subject.encode_exact subject' (List.cons.inj hrest).2
    obtain ⟨hfields, hr⟩ := restCode.exact_ hrest
    cases hfields
    exact ⟨by rw [haction, hsubject], hr⟩
  | .mk action none step occurrence, .mk action' (some subject) step' occurrence' =>
    simp only [OperationId.encode, List.append_assoc, List.cons_append] at h
    have hrest := (stringCode.exact_ h).2
    simp at hrest
  | .mk action (some subject) step occurrence, .mk action' none step' occurrence' =>
    simp only [OperationId.encode, List.append_assoc, List.cons_append] at h
    have hrest := (stringCode.exact_ h).2
    simp at hrest

end

def operationCode : Code OperationId :=
  ⟨OperationId.encode, fun h => OperationId.encode_exact _ _ h⟩

instance : DecidableEq OperationId :=
  fun a b => decidable_of_iff (a.encode = b.encode) operationCode.injective.eq_iff

def OperationId.action : OperationId → String
  | .mk action _ _ _ => action

/-- One lifecycle operation on a birth, as its carriers hold it. -/
structure LifecycleOp where
  type : String
  buildId : String
  operation : OperationId
  nodeId : String
  incarnation : String
  path : String
  name : String
  mesh : String
  eventAtRafkaMs : Nat
  traceparent : Option String
  tracestate : Option String
deriving DecidableEq

def LifecycleOp.isStop (o : LifecycleOp) : Bool := o.operation.action == "node.stop"

abbrev OpKey := String × OperationId

def opKeyCode : Code OpKey := pairCode stringCode operationCode

def LifecycleOp.key (o : LifecycleOp) : OpKey := (o.buildId, o.operation)

/-- The operation without the context it was carried with, which decides nothing. -/
def LifecycleOp.untraced (o : LifecycleOp) : LifecycleOp :=
  { o with traceparent := none, tracestate := none }

/-- The source's equality of operations. -/
def LifecycleOp.same (a b : LifecycleOp) : Bool := a.untraced == b.untraced

inductive NodeStatus where
  | pending | ready | connectionsDeleting | leaving | pendingReconnect | reserved5 | dead | deleted
  | withdrawn | starting | connectionsDeleted | stopping | stopped | deleting | left
deriving DecidableEq

inductive RuntimeProvider where
  | process | container
deriving DecidableEq

inductive RuntimeLocator where
  | process (pid start : Nat)
  | container (id : String)
deriving DecidableEq

structure RuntimeFact where
  deploymentId : String
  provider : RuntimeProvider
  controlDomain : String
  locator : RuntimeLocator
deriving DecidableEq

/-- One process birth of a logical node, as it publishes itself. -/
structure MeshNode where
  mesh : String
  type : String
  nodeId : String
  path : String
  name : String
  endpointId : String
  transportAddr : String
  incarnation : String
  supersedes : Option String
  runtime : Option RuntimeFact
deriving DecidableEq

structure NodeLoad where
  cpuUsedMillicores : Nat
  cpuBudgetMillicores : Nat
  ramUsedBytes : Nat
  ramBudgetBytes : Nat
deriving DecidableEq

structure GossipStats where
  heard : Nat
  neighbours : Nat
  framesSent : Nat
  framesReceived : Nat
deriving DecidableEq

/-- One topology digest: the node's current birth and its status. -/
structure MeshDigest where
  fabricId : String
  node : MeshNode
  status : NodeStatus
  adminApiBase : Option String
  digestSeq : Nat
  emittedAtRafkaMs : Nat
  dataDir : Option String
  meshId : Option String
  inFlight : Option Nat
  load : Option NodeLoad
  gossip : Option GossipStats
  isPrimary : Option Nat
  isFabricPrimary : Option Nat
deriving DecidableEq

/-- The digest without its load and gossip stats. -/
def withoutLoad (d : MeshDigest) : MeshDigest :=
  { d with inFlight := none, load := none, gossip := none }

/-- The digest as `topology_version` orders it. -/
def topologyView (d : MeshDigest) : MeshDigest :=
  { withoutLoad d with digestSeq := 0, emittedAtRafkaMs := 0 }

theorem node_of_topologyView {d e : MeshDigest} (h : topologyView d = topologyView e) :
    d.node = e.node := by
  have hn : (topologyView d).node = (topologyView e).node := by rw [h]
  exact hn

/-- The birth that holds a role, as it names itself on what it publishes. -/
structure PublisherId where
  incarnation : String
  nodeId : String
deriving DecidableEq

/-- The original author's exact birth. -/
structure Birth where
  fabric : String
  node : String
  incarnation : String
deriving DecidableEq

end DistributedMesh
