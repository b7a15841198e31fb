import DistributedMesh.GuardedRuns
import DistributedMesh.MeshHandoff

namespace DistributedMesh.MeshDelete

open Std (ExtTreeMap)
open GuardedRuns

/-- The workflow a key names, as a refusal carries it. -/
structure MeshDeleteIdentity where
  buildId : String
  operation : OperationId
deriving DecidableEq

def MeshDeleteKey.identity (key : MeshDeleteKey) : MeshDeleteIdentity := ⟨key.buildId, key.operation⟩

inductive WorkflowOrder where
  /-- The same Build and operation. -/
  | same
  /-- Another Build or operation: conflicting. -/
  | other
deriving DecidableEq

/-- Where an offered workflow stands against the one held, both of one mesh. -/
def workflowOrder (held offered : MeshDeleteKey) : WorkflowOrder :=
  if held.buildId ≠ offered.buildId ∨ held.operation ≠ offered.operation then .other else .same

/-- One mesh leave at the leaving mesh's primary, the `delete-mesh` admitted last and its sender. -/
inductive MeshDeleteRun (Owner : Type) where
  | running (key : MeshDeleteKey) (owner : Owner)
  | exited (key : MeshDeleteKey) (owner : Owner) (manifest : ExitManifest)

namespace MeshDeleteRun

variable {Owner : Type}

def key : MeshDeleteRun Owner → MeshDeleteKey
  | .running key _ => key
  | .exited key _ _ => key

def owner : MeshDeleteRun Owner → Owner
  | .running _ owner => owner
  | .exited _ owner _ => owner

end MeshDeleteRun

/-- Why a `delete-mesh` is refused. -/
inductive Refusal (Reply : Type) where
  | conflictingWorkflow (held offered : MeshDeleteIdentity)
  /-- The commit of the mesh row was. -/
  | uncommitted (reply : Reply)

/-- What a `delete-mesh` does for the leave of its mesh. -/
inductive MeshDeleteAdmission (Reply : Type) where
  | start
  | running
  /-- The recorded report is what repeats. -/
  | repeats (manifest : ExitManifest)
  | refused (refusal : Refusal Reply)

/-- What a run's manifest found the leave holding. -/
inductive RunExit (Owner : Type) where
  | exited (owner : Owner)
  | moved
  | forgotten

/-- How a run of the member workflows ended. -/
inductive MeshDeleteRunEnd (Owner : Type) where
  | exited (key : MeshDeleteKey) (owner : Owner) (manifest : ExitManifest)
  | incomplete (key : MeshDeleteKey) (owner : Owner) (reason : String)
  | forgotten

/-- The mesh leaves of this admin, one per mesh. -/
abbrev MeshDeleteRuns (Owner : Type) := ExtTreeMap String (MeshDeleteRun Owner)

namespace MeshDeleteRuns

variable {Owner Reply : Type}

/-- The workflow held for the mesh decides a `delete-mesh`. -/
def admitKey (runs : MeshDeleteRuns Owner) (key : MeshDeleteKey) (sender : Owner) :
    MeshDeleteRuns Owner × MeshDeleteAdmission Reply :=
  match runs[key.meshId]? with
  | some held =>
    if workflowOrder held.key key = .other then (runs, .refused (.conflictingWorkflow held.key.identity key.identity))
    else
      match held with
      | .running _ _ => (runs.insert key.meshId (.running key sender), .running)
      | .exited _ _ manifest => (runs.insert key.meshId (.exited key sender manifest), .repeats manifest)
  | none => (runs.insert key.meshId (.running key sender), .start)

def holds (runs : MeshDeleteRuns Owner) (meshId : String) : Bool := runs.contains meshId

/-- The `delete-mesh` admitted last while the member workflows run, and its sender. -/
def running (runs : MeshDeleteRuns Owner) (meshId : String) : Option (MeshDeleteKey × Owner) :=
  match runs[meshId]? with
  | some (.running key owner) => some (key, owner)
  | _ => none

/-- A run recorded its manifest under `ran`. -/
def exited (runs : MeshDeleteRuns Owner) (ran : MeshDeleteKey) (manifest : ExitManifest) :
    MeshDeleteRuns Owner × RunExit Owner :=
  match runs[ran.meshId]? with
  | some (.running key owner) =>
    if key = ran then (runs.insert key.meshId (.exited key owner manifest), .exited owner) else (runs, .moved)
  | _ => (runs, .forgotten)

/-- The run ended incomplete: it is forgotten. -/
def incomplete (runs : MeshDeleteRuns Owner) (meshId : String) : MeshDeleteRuns Owner × Option (MeshDeleteKey × Owner) :=
  (runs.erase meshId, runs[meshId]?.map fun run => (run.key, run.owner))

end MeshDeleteRuns

/-- The answer of the commit of the mesh row `Leaving`. -/
inductive Committed (Reply : Type) where
  | applied
  | alreadyApplied
  | refused (reply : Reply)

/-- What a `delete-mesh` did: its commit of the row when it made one, and its admission. -/
structure DeleteMeshAdmission (Reply : Type) where
  leavingRow : Option (Committed Reply)
  admission : MeshDeleteAdmission Reply

/-- Where a call of `admit_delete_mesh` stands. -/
inductive AdmitCall (Owner Reply : Type) where
  /-- No leave was held: the row is put and applied first. -/
  | committing (key : MeshDeleteKey) (sender : Owner)
  | admitting (key : MeshDeleteKey) (sender : Owner) (leavingRow : Option (Committed Reply))
  | answered (answer : DeleteMeshAdmission Reply)

/-- Where a run of the member workflows stands. -/
inductive RunPoint (Owner : Type) where
  /-- The `delete-mesh` admitted last is read. -/
  | reads
  | runs (key : MeshDeleteKey)
  /-- The member workflows answered; the leave has not been told. -/
  | answered (key : MeshDeleteKey) (result : Except String ExitManifest)
  | ended (how : MeshDeleteRunEnd Owner)

/-- A run of a mesh's member workflows. -/
structure RunTask (Owner : Type) where
  meshId : String
  point : RunPoint Owner

/-- The mesh whose run is in progress. -/
def RunTask.holds {Owner : Type} (task : RunTask Owner) : Option String :=
  match task.point with
  | .ended _ => none
  | _ => some task.meshId

inductive Event (Owner Reply : Type) where
  | admitted (key : MeshDeleteKey) (sender : Owner) (admission : MeshDeleteAdmission Reply)
  | ended (meshId : String) (how : MeshDeleteRunEnd Owner)

/-- A leaving mesh's primary: the leaves it holds, its calls and its runs, and what was answered and told, in order. -/
structure LeavingPrimary (Owner Reply : Type) where
  runs : MeshDeleteRuns Owner
  calls : List (AdmitCall Owner Reply)
  tasks : List (RunTask Owner)
  log : List (Event Owner Reply)

/-- What one thread of the primary does next. -/
inductive Turn (Owner Reply : Type) where
  /-- `admit_delete_mesh` looks whether a leave of the mesh is held. -/
  | looks (key : MeshDeleteKey) (sender : Owner)
  | commits (i : Nat) (row : Committed Reply)
  | admits (i : Nat)
  /-- `admit` is called on its own. -/
  | asks (key : MeshDeleteKey) (sender : Owner)
  | reads (i : Nat)
  | answers (i : Nat) (result : Except String ExitManifest)
  | tells (i : Nat)

namespace LeavingPrimary

variable {Owner Reply : Type}

def empty : LeavingPrimary Owner Reply := ⟨∅, [], [], []⟩

/-- A `start` begins the one run of the member workflows. -/
def admitted (s : LeavingPrimary Owner Reply) (key : MeshDeleteKey) (sender : Owner) :
    LeavingPrimary Owner Reply × MeshDeleteAdmission Reply :=
  let (runs, admission) := s.runs.admitKey key sender
  let begun :=
    match admission with
    | .start => [⟨key.meshId, .reads⟩]
    | _ => []
  ({ s with runs, tasks := s.tasks ++ begun, log := s.log ++ [.admitted key sender admission] }, admission)

def ends (s : LeavingPrimary Owner Reply) (i : Nat) (meshId : String) (how : MeshDeleteRunEnd Owner) :
    LeavingPrimary Owner Reply :=
  { s with tasks := s.tasks.set i ⟨meshId, .ended how⟩, log := s.log ++ [.ended meshId how] }

def step (s : LeavingPrimary Owner Reply) : Turn Owner Reply → LeavingPrimary Owner Reply
  | .looks key sender =>
    let call := if s.runs.holds key.meshId then .admitting key sender none else .committing key sender
    { s with calls := s.calls ++ [call] }
  | .commits i row =>
    match s.calls[i]? with
    | some (.committing key sender) =>
      let call :=
        match row with
        | .refused reply => .answered ⟨some row, .refused (.uncommitted reply)⟩
        | _ => .admitting key sender (some row)
      { s with calls := s.calls.set i call }
    | _ => s
  | .admits i =>
    match s.calls[i]? with
    | some (.admitting key sender row) =>
      let (s, admission) := s.admitted key sender
      { s with calls := s.calls.set i (.answered ⟨row, admission⟩) }
    | _ => s
  | .asks key sender => (s.admitted key sender).1
  | .reads i =>
    match s.tasks[i]? with
    | some ⟨meshId, .reads⟩ =>
      match s.runs.running meshId with
      | some (key, _) => { s with tasks := s.tasks.set i ⟨meshId, .runs key⟩ }
      | none => s.ends i meshId .forgotten
    | _ => s
  | .answers i result =>
    match s.tasks[i]? with
    | some ⟨meshId, .runs key⟩ => { s with tasks := s.tasks.set i ⟨meshId, .answered key result⟩ }
    | _ => s
  | .tells i =>
    match s.tasks[i]? with
    | some ⟨meshId, .answered key (.ok manifest)⟩ =>
      match s.runs.exited key manifest with
      | (runs, .exited owner) => { s with runs }.ends i meshId (.exited key owner manifest)
      -- A later `delete-mesh` joined the run: it runs on under that one.
      | (runs, .moved) => { s with runs, tasks := s.tasks.set i ⟨meshId, .reads⟩ }
      | (runs, .forgotten) => { s with runs }.ends i meshId .forgotten
    | some ⟨meshId, .answered _ (.error reason)⟩ =>
      match s.runs.incomplete meshId with
      | (runs, some (key, owner)) => { s with runs }.ends i meshId (.incomplete key owner reason)
      | (runs, none) => { s with runs }.ends i meshId .forgotten
    | _ => s

end LeavingPrimary

end DistributedMesh.MeshDelete
