import DistributedMesh.DriveReads
import DistributedMesh.KeyedMaps
import DistributedMesh.LexCode

namespace DistributedMesh.SectionRuns

open Std (ExtTreeMap)
open LexCode
open DriveReads (Stage)

inductive Code where
  | ok
  | cancelled
  | unknown
  | invalidArgument
  | deadlineExceeded
  | notFound
  | alreadyExists
  | permissionDenied
  | resourceExhausted
  | failedPrecondition
  | aborted
  | outOfRange
  | unimplemented
  | internal
  | unavailable
  | dataLoss
  | unauthenticated
deriving DecidableEq

/-- How a step ended, as its event has it and, its reason cut, as its frame has it. -/
inductive StepOutcome where
  | complete
  | failed (reason : String) (code : Code)
deriving DecidableEq

/-- A mesh's section that ended short of its end. -/
structure UnfinishedSection where
  mesh : String
  operation : String
  step : String
  reason : String
  code : Code
deriving DecidableEq

structure Birth where
  nodeId : String
  incarnation : String
deriving DecidableEq

inductive BuildReply where
  | step (buildId mesh operation step : String) (result : StepOutcome)
  | pending (buildId mesh operation step reason : String)
  | complete (buildId : String)
  | incomplete (buildId : String) (sections : List UnfinishedSection)
  | notExecutor (named recipient : Birth)
  | unknownBuild (buildId : String)
  | notReady (reason : String)
deriving DecidableEq

/-- A step event of the Build, in `event.id` order in its store. -/
structure BuildStep where
  buildId : String
  mesh : String
  operation : String
  step : String
  outcome : StepOutcome
deriving DecidableEq

def maxReasonBytes : Nat := 16 * 1024

/-- The longest run of whole characters in a number of bytes. -/
def whole : Nat → List Char → List Char
  | _, [] => []
  | n, c :: cs => if c.utf8Size ≤ n then c :: whole (n - c.utf8Size) cs else []

def boundedReason (reason : String) : String :=
  if reason.utf8ByteSize ≤ maxReasonBytes then reason
  else
    let kept := String.ofList (whole maxReasonBytes reason.toList)
    kept ++ "... (reason cut: " ++ toString (reason.utf8ByteSize - kept.utf8ByteSize) ++ " more bytes)"

/-- A step's result on the wire. -/
def resultOf : StepOutcome → StepOutcome
  | .complete => .complete
  | .failed reason code => .failed (boundedReason reason) code

/-- A step and a reason: what a run waits for, or what failed in it. -/
structure Blocker where
  operation : String
  step : String
  reason : String
deriving DecidableEq

def Blocker.isOf (b : Blocker) (operation step : String) : Bool := b.operation == operation && b.step == step

structure RunState where
  events : List BuildReply
  steps : List BuildReply
  pending : Option Blocker
  failed : Option Blocker
  terminal : Option BuildReply
deriving DecidableEq

/-- A run's frames, and how many of its writers let the state go and have yet to notify the readers. -/
structure RunLog where
  buildId : String
  mesh : String
  state : RunState
  fabricPrimarys : Bool
  notifying : Nat
deriving DecidableEq

namespace RunLog

def new (buildId mesh : String) : RunLog := ⟨buildId, mesh, ⟨[], [], none, none, none⟩, false, 0⟩

def frame (log : RunLog) (operation step : String) (result : StepOutcome) : BuildReply :=
  .step log.buildId log.mesh operation step result

def blocked (log : RunLog) (b : Blocker) : BuildReply :=
  .pending log.buildId log.mesh b.operation b.step (boundedReason b.reason)

/-- The step is framed with that result already. -/
def framed (log : RunLog) (operation step : String) (result : StepOutcome) : Bool :=
  log.state.steps.any fun
    | .step _ _ o t r => o == operation && t == step && r == result
    | _ => false

def step (log : RunLog) (operation step : String) (result : StepOutcome) : RunLog :=
  if log.framed operation step result then log
  else
    let s := log.state
    { log with
      state :=
        { s with
          events := s.events ++ [log.frame operation step result]
          steps := s.steps ++ [log.frame operation step result]
          failed :=
            match result with
            | .failed reason _ => some ⟨operation, step, reason⟩
            | .complete => s.failed
          pending := if s.pending.any (·.isOf operation step) then none else s.pending }
      notifying := log.notifying + 1 }

def pending (log : RunLog) (operation step reason : String) : RunLog :=
  let now : Blocker := ⟨operation, step, reason⟩
  if log.state.pending = some now then log
  else
    { log with
      state := { log.state with pending := some now, events := log.state.events ++ [log.blocked now] }
      notifying := log.notifying + 1 }

def finish (log : RunLog) (terminal : BuildReply) : RunLog :=
  { log with
    state := if log.state.terminal.isNone then { log.state with pending := none, terminal := some terminal } else log.state
    notifying := log.notifying + 1 }

/-- What a call that attaches is replayed: the steps, then what the run waits for. -/
def replay (log : RunLog) : List BuildReply := log.state.steps ++ (log.state.pending.map log.blocked).toList

end RunLog

/-- A call's read position in a run's log, and where its `next` is. -/
structure RunReader where
  log : Nat
  cursor : Nat
  done : Bool
  stage : Stage
deriving DecidableEq

namespace RunReader

def new (log cursor : Nat) : RunReader := ⟨log, cursor, false, .idle⟩

/-- One turn of the reader: its `next` begins and registers with the wake, looks at the state under its lock, or waits. -/
def next (r : RunReader) (s : RunState) : RunReader × Option BuildReply :=
  match r.stage with
  | .idle => if r.done then (r, none) else ({ r with stage := .enabled false }, none)
  | .enabled notified =>
    match s.events[r.cursor]? with
    | some frame => ({ r with cursor := r.cursor + 1, stage := .idle }, some frame)
    | none =>
      match s.terminal with
      | some terminal => ({ r with done := true, stage := .idle }, some terminal)
      | none => ({ r with stage := .waiting notified }, none)
  | .waiting notified => if notified then ({ r with stage := .enabled false }, none) else (r, none)

def notified (r : RunReader) : RunReader := { r with stage := r.stage.notified }

end RunReader

/-- How a section of operations ended. -/
inductive SectionEnd where
  | complete
  | failed (operation reason : String) (code : Code)
  | incomplete (operation reason : String)
  | interrupted (delete : String)
  | replan
deriving DecidableEq

def interruptedReason (interrupted delete : String) : String :=
  "Build " ++ interrupted ++ " is interrupted by fabric.delete Build " ++ delete ++
    ", accepted after it: its dispatched sections have ended, it runs no further step and is never resumed"

/-- The section's terminal when it ended short. -/
def short (buildId mesh operation step reason : String) (code : Code) : BuildReply :=
  .incomplete buildId [⟨mesh, operation, step, boundedReason reason, code⟩]

def terminalOf (buildId mesh : String) (e : SectionEnd) (failed : Option Blocker) : BuildReply :=
  match e with
  | .complete | .replan => .complete buildId
  | .failed operation reason code =>
    let step :=
      match failed with
      | some b => if b.operation == operation then b.step else "section"
      | none => "section"
    short buildId mesh operation step reason code
  | .incomplete operation reason => short buildId mesh operation "section" reason .unavailable
  | .interrupted delete => short buildId mesh "" "fabric.delete" (interruptedReason buildId delete) .aborted

/-- The Build's step is in the projection, ended complete. -/
def completed (steps : List BuildStep) (operation step : String) : Bool :=
  steps.any fun s => s.operation == operation && s.step == step && s.outcome == .complete

/-- A section with nothing left to run: the frames of its completed steps, each once, and its terminal, which names
the last step that failed and did not complete since. -/
def ended (buildId mesh : String) (steps : List BuildStep) : List BuildReply × BuildReply :=
  let own := steps.filter (·.mesh == mesh)
  let frames := (own.filter (·.outcome == .complete)).map fun s => BuildReply.step buildId mesh s.operation s.step .complete
  let replay := frames.foldl (fun replay frame => if replay.contains frame then replay else replay ++ [frame]) []
  let failed := own.reverse.find? fun s => s.outcome != .complete && !completed steps s.operation s.step
  match failed with
  | some ⟨_, _, operation, step, .failed reason code⟩ => (replay, short buildId mesh operation step reason code)
  | _ => (replay, .complete buildId)

def sectionCode : LexCode.Code (String × String) := pairCode stringCode stringCode

instance : Std.TransCmp sectionCode.cmp := inferInstance

inductive Disposition where
  | started
  | reattached
deriving DecidableEq

/-- Where a `build.section.run` call is. -/
inductive CallStage where
  | asks
  | plans
  | begins
  | attaches (log : Nat)
  | marks (log : Nat)
  | spawns (log : Nat)
  | closes (log : Nat)
  | live (disposition : Disposition) (received : List BuildReply) (reader : RunReader)
  | ended (replay : List BuildReply) (terminal : BuildReply)
  | refused (reply : BuildReply)
  | cut
deriving DecidableEq

/-- A call for a section, served or made by the admin's own drive pass, which plans the section itself. -/
structure Call where
  buildId : String
  mesh : String
  under : Bool
  stage : CallStage
deriving DecidableEq

def Call.key (c : Call) : String × String := (c.buildId, c.mesh)

/-- What the planning of a served call comes to: a refusal, a section with nothing left, or operations to run. -/
inductive Plan where
  | refused (reply : BuildReply)
  | ended (steps : List BuildStep)
  | operations
deriving DecidableEq

/-- Where the task of a run is: it waits for its turn, runs its section, or has left it with its end. -/
inductive TaskStage where
  | waits
  | runs
  | ends (e : SectionEnd)
  | names (e : SectionEnd)
  | finishes (e : SectionEnd) (failed : Option Blocker)
  | finished
  | aborted
deriving DecidableEq

structure Task where
  buildId : String
  mesh : String
  log : Nat
  abort : Bool
  stage : TaskStage
deriving DecidableEq

def Task.key (t : Task) : String × String := (t.buildId, t.mesh)

/-- The task runs its section, or may yet. -/
def Task.running (t : Task) : Bool := t.stage matches .waits | .runs

def Task.isFinished (t : Task) : Bool := t.stage matches .finished | .aborted

structure StepWrite where
  buildId : String
  mesh : Option String
  operation : String
  step : String
  outcome : StepOutcome
deriving DecidableEq

/-- Where a write of a step, or of what a step waits for, is. -/
inductive Write where
  | checks (w : StepWrite)
  | appends (w : StepWrite)
  | frames (w : StepWrite)
  | steps (w : StepWrite) (log : Nat)
  | notes (buildId operation step reason : String)
  | pends (logs : List Nat) (operation step reason : String)
  | written
  | failed
deriving DecidableEq

/-- The admin's Build state as its runs write it: the admin's own mesh when it writes step events, and whether the
fabric-primary check is made. -/
structure FramedBuilds where
  own : Option String
  role : Bool
deriving DecidableEq

/-- The mesh the step belongs to: its own, else the admin's. -/
def FramedBuilds.meshOf (b : FramedBuilds) (w : StepWrite) : String := (w.mesh.or b.own).getD ""

/-- The event of the step. -/
def FramedBuilds.event (b : FramedBuilds) (w : StepWrite) : BuildStep :=
  ⟨w.buildId, b.meshOf w, w.operation, w.step, w.outcome⟩

/-- An admin's section runs: its node id, the logs made, the runs held by their section, the tasks spawned, whether it runs sections
no longer, the calls and the writes made so far, and the step events written. -/
structure Admin where
  me : String
  logs : List RunLog
  runs : ExtTreeMap (String × String) Nat sectionCode.cmp
  tasks : List Task
  stopped : Bool
  calls : List Call
  writes : List Write
  events : List BuildStep

namespace Admin

def new (me : String) : Admin := ⟨me, [], ∅, [], false, [], [], []⟩

def goes (s : Admin) (i : Nat) (c : Call) (stage : CallStage) : Admin :=
  { s with calls := s.calls.set i { c with stage := stage } }

def onLog (s : Admin) (l : Nat) (f : RunLog → RunLog) : Admin := { s with logs := s.logs.modify l f }

/-- The run of the section: the one held, or a new one. -/
def begin (s : Admin) (buildId mesh : String) : Admin × Nat × Bool :=
  match s.runs[(buildId, mesh)]? with
  | some l => (s, l, false)
  | none =>
    ({ s with logs := s.logs ++ [RunLog.new buildId mesh], runs := s.runs.insert (buildId, mesh) s.logs.length }, s.logs.length, true)

def runByTheFabricPrimary (s : Admin) (buildId : String) : Bool :=
  s.runs.toList.any fun p => p.1.1 == buildId && ((s.logs[p.2]?).map RunLog.fabricPrimarys).getD false

/-- The call is answered with the run's log as it is: what it is replayed, and a reader of what follows. -/
def attach (s : Admin) (i : Nat) (c : Call) (l : Nat) (log : RunLog) : Admin :=
  s.goes i c (.live .reattached log.replay (.new l log.state.events.length))

def stoppedReply (me buildId : String) : BuildReply :=
  .notReady ("node_id=" ++ me ++ ": this admin stopped reconciling: it runs no section of Build " ++ buildId)

/-- One turn of a call; its planning, where it plans, comes to the plan. -/
def callTurn (s : Admin) (i : Nat) (c : Call) (plan : Plan) : Admin :=
  match c.stage with
  | .asks =>
    match s.runs[c.key]? with
    | some l => s.goes i c (.attaches l)
    | none => s.goes i c (if c.under then .begins else .plans)
  | .plans =>
    match plan with
    | .refused reply => s.goes i c (.refused reply)
    | .ended steps => s.goes i c (.ended (SectionRuns.ended c.buildId c.mesh steps).1 (SectionRuns.ended c.buildId c.mesh steps).2)
    | .operations => s.goes i c .begins
  | .begins =>
    let out := s.begin c.buildId c.mesh
    out.1.goes i c (if out.2.2 then .marks out.2.1 else .attaches out.2.1)
  | .attaches l =>
    match s.logs[l]? with
    | some log => s.attach i c l log
    | none => s
  | .marks l => (s.onLog l fun log => { log with fabricPrimarys := log.fabricPrimarys || c.under }).goes i c (.spawns l)
  | .spawns l =>
    if s.stopped then s.goes i c (.closes l)
    else ({ s with tasks := s.tasks ++ [⟨c.buildId, c.mesh, l, false, .waits⟩] } : Admin).goes i c (.live .started [] (.new l 0))
  | .closes _ => ({ s with runs := s.runs.erase c.key } : Admin).goes i c (.refused (stoppedReply s.me c.buildId))
  | .live disposition received reader =>
    match s.logs[reader.log]? with
    | some log =>
      let out := reader.next log.state
      s.goes i c (.live disposition (received ++ out.2.toList) out.1)
    | none => s
  | .ended _ _ | .refused _ | .cut => s

/-- The call is dropped where it waits. -/
def cutCall (s : Admin) (i : Nat) (c : Call) : Admin :=
  match c.stage with
  | .plans => s.goes i c .cut
  | .live _ _ _ => s.goes i c .cut
  | _ => s

def taskGoes (s : Admin) (i : Nat) (t : Task) (stage : TaskStage) : Admin :=
  { s with tasks := s.tasks.set i { t with stage := stage } }

/-- One turn of a run's task; its section, where it runs it, ends so. -/
def taskTurn (s : Admin) (i : Nat) (t : Task) (e : SectionEnd) : Admin :=
  match t.stage with
  | .waits => s.taskGoes i t .runs
  | .runs => s.taskGoes i t (.ends e)
  | .ends e => ({ s with runs := s.runs.erase t.key } : Admin).taskGoes i t (.names e)
  | .names e =>
    match s.logs[t.log]? with
    | some log => s.taskGoes i t (.finishes e log.state.failed)
    | none => s
  | .finishes e failed => (s.onLog t.log fun log => log.finish (terminalOf t.buildId t.mesh e failed)).taskGoes i t .finished
  | .finished | .aborted => s

/-- The task ends where it waits, once it was told to. -/
def abortTask (s : Admin) (i : Nat) (t : Task) : Admin := if t.abort && t.running then s.taskGoes i t .aborted else s

def stop (s : Admin) : Admin :=
  { s with stopped := true, tasks := s.tasks.map fun t => if t.isFinished then t else { t with abort := true } }

/-- The runs of the Build a pending step is noted in. -/
def noted (b : FramedBuilds) (s : Admin) (buildId : String) : List Nat :=
  let held := (s.runs.toList.filter fun p => p.1.1 == buildId).map Prod.snd
  held.filter fun l => (s.logs[l]?).map RunLog.mesh == some (b.own.getD "") || held.length == 1

def writeGoes (s : Admin) (i : Nat) (w : Write) : Admin := { s with writes := s.writes.set i w }

/-- One turn of a write; the role check, or the write of the event, comes out so. -/
def writeTurn (b : FramedBuilds) (s : Admin) (i : Nat) (w : Write) (answer : Bool) : Admin :=
  match w with
  | .checks w =>
    if b.role && s.runByTheFabricPrimary w.buildId && !answer then s.writeGoes i .failed else s.writeGoes i (.appends w)
  | .appends w =>
    if b.own.isNone then s.writeGoes i (.frames w)
    else if answer then ({ s with events := s.events ++ [b.event w] } : Admin).writeGoes i (.frames w)
    else s.writeGoes i .failed
  | .frames w =>
    match s.runs[(w.buildId, b.meshOf w)]? with
    | some l => s.writeGoes i (.steps w l)
    | none => s.writeGoes i .written
  | .steps w l => (s.onLog l fun log => log.step w.operation w.step (resultOf w.outcome)).writeGoes i .written
  | .notes buildId operation step reason => s.writeGoes i (.pends (s.noted b buildId) operation step reason)
  | .pends [] _ _ _ => s.writeGoes i .written
  | .pends (l :: logs) operation step reason =>
    (s.onLog l fun log => log.pending operation step reason).writeGoes i (.pends logs operation step reason)
  | .written | .failed => s

/-- A call's reader hears the wake of the log. -/
def heard (l : Nat) (c : Call) : Call :=
  match c.stage with
  | .live disposition received reader =>
    if reader.log = l then { c with stage := .live disposition received reader.notified } else c
  | _ => c

/-- One of the writers of the log that let it go notifies its readers. -/
def notifyWaiters (s : Admin) (l : Nat) : Admin :=
  match s.logs[l]? with
  | some log =>
    if log.notifying = 0 then s
    else { s.onLog l fun log => { log with notifying := log.notifying - 1 } with calls := s.calls.map (heard l) }
  | none => s

end Admin

inductive Move where
  | sectionRun (buildId mesh : String)
  | runUnder (buildId mesh : String)
  | call (i : Nat) (plan : Plan)
  | cut (i : Nat)
  | task (i : Nat) (e : SectionEnd)
  | stop
  | abort (i : Nat)
  | writeStep (w : StepWrite)
  | notePending (buildId operation step reason : String)
  | write (i : Nat) (answer : Bool)
  | notifyWaiters (l : Nat)
deriving DecidableEq

namespace Admin

def step (b : FramedBuilds) (s : Admin) : Move → Admin
  | .sectionRun buildId mesh => { s with calls := s.calls ++ [⟨buildId, mesh, false, .asks⟩] }
  | .runUnder buildId mesh => { s with calls := s.calls ++ [⟨buildId, mesh, true, .asks⟩] }
  | .call i plan =>
    match s.calls[i]? with
    | some c => s.callTurn i c plan
    | none => s
  | .cut i =>
    match s.calls[i]? with
    | some c => s.cutCall i c
    | none => s
  | .task i e =>
    match s.tasks[i]? with
    | some t => s.taskTurn i t e
    | none => s
  | .stop => s.stop
  | .abort i =>
    match s.tasks[i]? with
    | some t => s.abortTask i t
    | none => s
  | .writeStep w => { s with writes := s.writes ++ [.checks w] }
  | .notePending buildId operation step reason => { s with writes := s.writes ++ [.notes buildId operation step reason] }
  | .write i answer =>
    match s.writes[i]? with
    | some w => s.writeTurn b i w answer
    | none => s
  | .notifyWaiters l => s.notifyWaiters l

def run (b : FramedBuilds) (s : Admin) (moves : List Move) : Admin := moves.foldl (step b) s

end Admin

end DistributedMesh.SectionRuns
