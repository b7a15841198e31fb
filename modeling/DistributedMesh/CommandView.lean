import DistributedMesh.GuardedRuns

namespace DistributedMesh.Commands

open GuardedRuns

variable {Op : Type}

/-- The natural key of a command and its completion; an operation is only compared. -/
structure CommandKey (Op : Type) where
  operation : Op
  nodeId : String
  incarnation : String
deriving DecidableEq

/-- The commands an admin has sent and not forgotten, and what `mesh.block` holds. -/
structure CommandView (Op : Type) where
  opened : List (CommandKey Op)
  blocked : Bool
  rowsHeld : Bool
  /-- The task that holds the row writers' mutex. -/
  rowWrites : Option Nat

namespace CommandView

/-- Opening again is the same command. -/
def openKey [DecidableEq Op] (view : CommandView Op) (key : CommandKey Op) : CommandView Op :=
  if key ∈ view.opened then view else { view with opened := key :: view.opened }

def close [DecidableEq Op] (view : CommandView Op) (key : CommandKey Op) : CommandView Op :=
  { view with opened := view.opened.filter fun k => decide (k ≠ key) }

/-- Whether any command is open for this exact birth. -/
def openFor (view : CommandView Op) (nodeId incarnation : String) : Bool :=
  view.opened.any fun k => k.nodeId == nodeId && k.incarnation == incarnation

end CommandView

/-- The commands that open a key. -/
inductive CommandKind where
  /-- `carry_lifecycle_reaching`, a `node.stop` or a `node.start`. -/
  | lifecycle
  /-- `command_mesh_join`. -/
  | meshJoin
  /-- `HeardAgain::rejoin`. -/
  | rejoin
  /-- A storage change's command, tracked by a guard. -/
  | storage
deriving DecidableEq

inductive CommandStage where
  | asked
  /-- Past its look at the view, its key not opened. -/
  | ready
  | opened
  | sent
  /-- Its call ended, or it was never sent. -/
  | ended
  | finished
deriving DecidableEq

inductive RowStage where
  | waiting
  /-- It holds the mutex and has not looked at `rows_held`. -/
  | turn
  | writing
  | finished
deriving DecidableEq

/-- Where a `block` call is; it answers how many commands were in flight. -/
inductive BlockStage where
  | called
  | marked
  | held
  | waiting (inFlight : Nat)
  /-- It read the open set empty. -/
  | emptied (inFlight : Nat)
  | turn (inFlight : Nat)
  | returned (inFlight : Nat)
deriving DecidableEq

inductive UnblockStage where
  | called
  | rowsReleased
  | finished
deriving DecidableEq

/-- A task on the view, stopped between two of its mutex holds or at an await. -/
inductive Task (Op : Type) where
  | command (kind : CommandKind) (key : CommandKey Op) (stage : CommandStage)
  | rowWriter (stage : RowStage)
  | block (stage : BlockStage)
  | releaseRows (done : Bool)
  | unblock (stage : UnblockStage)
deriving DecidableEq

/-- A view and the tasks on it. `commandsBarred` stands from a `block`'s return until the next `unblock`, `rowsBarred` from
there until the next `release_rows` or `unblock`. -/
structure System (Op : Type) where
  view : CommandView Op
  tasks : List (Task Op)
  commandsBarred : Bool
  rowsBarred : Bool

/-- What happens next: a task takes its next step, a command ends without being sent, a command's task is dropped. -/
inductive Move where
  | next (i : Nat)
  | unsent (i : Nat)
  | drop (i : Nat)
deriving DecidableEq

namespace System

variable [DecidableEq Op]

def start (blocked rowsHeld : Bool) (tasks : List (Task Op)) : System Op := ⟨⟨[], blocked, rowsHeld, none⟩, tasks, false, false⟩

def put (s : System Op) (i : Nat) (task : Task Op) : System Op := { s with tasks := s.tasks.set i task }

def withView (s : System Op) (view : CommandView Op) : System Op := { s with view := view }

def nextCommand (s : System Op) (i : Nat) (kind : CommandKind) (key : CommandKey Op) : CommandStage → System Op
  | .asked =>
    match kind with
    -- `admitted().await`
    | .lifecycle => if s.view.blocked then s else s.put i (.command kind key .ready)
    | .meshJoin => s.put i (.command kind key (if s.view.openFor key.nodeId key.incarnation then .finished else .ready))
    | _ => s.put i (.command kind key .ready)
  | .ready => (s.withView (s.view.openKey key)).put i (.command kind key .opened)
  | .opened => s.put i (.command kind key .sent)
  | .sent => s.put i (.command kind key .ended)
  | .ended => (s.withView (s.view.close key)).put i (.command kind key .finished)
  | .finished => s

def nextRowWriter (s : System Op) (i : Nat) : RowStage → System Op
  | .waiting =>
    match s.view.rowWrites with
    | none => (s.withView { s.view with rowWrites := some i }).put i (.rowWriter .turn)
    | some _ => s
  | .turn =>
    if s.view.rowsHeld then (s.withView { s.view with rowWrites := none }).put i (.rowWriter .finished)
    else s.put i (.rowWriter .writing)
  | .writing => (s.withView { s.view with rowWrites := none }).put i (.rowWriter .finished)
  | .finished => s

def nextBlock (s : System Op) (i : Nat) : BlockStage → System Op
  | .called => (s.withView { s.view with blocked := true }).put i (.block .marked)
  | .marked => (s.withView { s.view with rowsHeld := true }).put i (.block .held)
  | .held => s.put i (.block (.waiting s.view.opened.length))
  -- Read again every 50 ms until it is empty.
  | .waiting inFlight => if s.view.opened.isEmpty then s.put i (.block (.emptied inFlight)) else s
  | .emptied inFlight =>
    match s.view.rowWrites with
    | none => (s.withView { s.view with rowWrites := some i }).put i (.block (.turn inFlight))
    | some _ => s
  | .turn inFlight =>
    { (s.withView { s.view with rowWrites := none }).put i (.block (.returned inFlight)) with
      commandsBarred := true
      rowsBarred := true }
  | .returned _ => s

/-- `rows_held.send_replace(false)`. -/
def rowsRelease (s : System Op) : System Op := { s.withView { s.view with rowsHeld := false } with rowsBarred := false }

def nextUnblock (s : System Op) (i : Nat) : UnblockStage → System Op
  | .called => s.rowsRelease.put i (.unblock .rowsReleased)
  | .rowsReleased => { (s.withView { s.view with blocked := false }).put i (.unblock .finished) with commandsBarred := false }
  | .finished => s

/-- A storage command's guard closes its key; the others close theirs after their last await only. -/
def dropCommand (s : System Op) (i : Nat) (kind : CommandKind) (key : CommandKey Op) : CommandStage → System Op
  | .asked => s.put i (.command kind key .finished)
  -- A carry opens its key with no await after its admission.
  | .ready => if kind = .lifecycle then s else s.put i (.command kind key .finished)
  | .opened | .sent =>
    if kind = .storage then (s.withView (s.view.close key)).put i (.command kind key .finished)
    else s.put i (.command kind key .finished)
  | .ended => s
  | .finished => s

def step (s : System Op) : Move → System Op
  | .next i =>
    match s.tasks[i]? with
    | some (.command kind key stage) => s.nextCommand i kind key stage
    | some (.rowWriter stage) => s.nextRowWriter i stage
    | some (.block stage) => s.nextBlock i stage
    | some (.releaseRows false) => s.rowsRelease.put i (.releaseRows true)
    | some (.unblock stage) => s.nextUnblock i stage
    | _ => s
  | .unsent i =>
    match s.tasks[i]? with
    | some (.command kind key .opened) => s.put i (.command kind key .ended)
    | _ => s
  | .drop i =>
    match s.tasks[i]? with
    | some (.command kind key stage) => s.dropCommand i kind key stage
    | _ => s

end System

end DistributedMesh.Commands
