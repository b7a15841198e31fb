import DistributedMesh.GuardedRuns
import DistributedMesh.MeshHandoff

namespace DistributedMesh.MeshDelete

open Std (ExtTreeMap ExtTreeSet)
open LexCode KeyedMaps GuardedRuns
open Build (BuildStep Node StepOutcome completed operationText isNodeAdmin)
open Framing (canonical)

/-- Why a member of a tier did not exit. -/
inductive Failure where
  /-- No record is held of the birth, and the roster gives none. -/
  | unrunnable (nodeId incarnationId : String) (refusal : RecordRefusal)
  | refused (nodeId reason : String)
deriving DecidableEq

/-- Why the member workflows ended without a manifest. -/
inductive LeaveError where
  | notOfRoster (executor nodeId incarnationId : String) (operation : OperationId)
  | unreadable (executor buildId : String) (operation : OperationId) (reason : String)
  /-- The next tier does not start. -/
  | tierIncomplete (admins : Bool) (failed : List Failure)
  | unrecorded (reason : String)
deriving DecidableEq

/-- What the leaving mesh-primary runs its member workflows over. -/
structure Leave where
  key : MeshDeleteKey
  executor : String
  roster : List RosterBirth
  /-- The final primary, still running. -/
  me : RosterBirth
  finalRuntime : RuntimeIdentity
  records : List MemberRecord

abbrev Answer := Except String TerminalReceipt

/-- Where the member workflows stand. -/
inductive Phase where
  /-- The tier's shutdowns run, each with its answer once it has one. -/
  | tier (admins : Bool) (failed : List Failure) (members : List (MemberRecord × Option Answer))
  /-- The exit manifest is written. -/
  | recording (manifest : ExitManifest)
  | ended (result : Except LeaveError ExitManifest)
deriving DecidableEq

/-- What an append of an event that answered an error left of it. -/
inductive Left where
  /-- Nothing, now and later. -/
  | nothing
  /-- Its line stands whole: its write answered in full and its fsync failed. -/
  | line
  /-- The append is pending with the events store, whose next append settles it. -/
  | pending
deriving DecidableEq

/-- What the write of the manifest's event answers. -/
inductive Written where
  | recorded
  | refused (reason : String) (left : Left)
deriving DecidableEq

/-- A run of the member workflows. -/
structure Run where
  /-- The steps as they were read when the run began. -/
  read : List BuildStep
  /-- The Build's steps now. -/
  steps : List BuildStep
  receipts : List TerminalReceipt
  /-- The shutdowns started, in their order. -/
  started : List MemberRecord
  /-- The answers of the shutdowns, in the order they came. -/
  answered : List (MemberRecord × Answer)
  phase : Phase
  /-- The append of the manifest's event is pending with the events store. -/
  pending : Bool

/-- A member's answer, as a failure of its tier. -/
def failureOf (member : MemberRecord × Answer) : Option Failure :=
  match member.2 with
  | .ok _ => none
  | .error reason => some (.refused member.1.node.nodeId reason)

/-- The answers that came, in the members' order. -/
def answersOf (members : List (MemberRecord × Option Answer)) : List (MemberRecord × Answer) :=
  members.filterMap fun m => m.2.map fun answer => (m.1, answer)

namespace Leave

variable (l : Leave)

def others : List RosterBirth := l.roster.filter fun b => b != l.me

/-- The receipt a birth keeps: its own delete ended, its exit proven. -/
def keptReceipt (steps : List BuildStep) (b : RosterBirth) : Option TerminalReceipt :=
  (exitReceipts steps l.roster)[b.birth]?.filter fun _ => finishedDelete steps b

def kept (steps : List BuildStep) : List TerminalReceipt := l.others.filterMap (l.keptReceipt steps)

/-- The births whose delete runs: each that keeps no receipt. -/
def remaining (steps : List BuildStep) : List RosterBirth := l.others.filter fun b => (l.keptReceipt steps b).isNone

/-- The record a birth runs from: the one held of that exact birth, else the roster's own. -/
def recordOf (b : RosterBirth) : Except RecordRefusal MemberRecord :=
  match l.records.find? fun n => n.node.nodeId == b.nodeId && n.node.incarnationId == some b.incarnationId with
  | some n => .ok n
  | none => b.record

def tierOf (steps : List BuildStep) (admins : Bool) : List RosterBirth :=
  (l.remaining steps).filter fun b => isNodeAdmin b.type == admins

def members (steps : List BuildStep) (admins : Bool) : List MemberRecord :=
  (l.tierOf steps admins).filterMap fun b => (l.recordOf b).toOption

def unrunnable (steps : List BuildStep) (admins : Bool) : List Failure :=
  (l.tierOf steps admins).filterMap fun b =>
    match l.recordOf b with
    | .ok _ => none
    | .error refusal => some (.unrunnable b.nodeId b.incarnationId refusal)

/-- Every shutdown of a tier starts at once. -/
def enterTier (r : Run) (admins : Bool) : Run :=
  let members := l.members r.read admins
  { r with
    started := r.started ++ members
    phase := .tier admins (l.unrunnable r.read admins) (members.map fun n => (n, none)) }

/-- The run begins: the Build's steps are read, or cannot be. -/
def begin (steps : List BuildStep) (unreadable : Option String) : Run :=
  let starts (phase : Phase) : Run := ⟨steps, steps, l.kept steps, [], [], phase, false⟩
  if l.me ∉ l.roster then
    starts (.ended (.error (.notOfRoster l.executor l.me.nodeId l.me.incarnationId l.key.operation)))
  else
    match unreadable with
    | some reason => starts (.ended (.error (.unreadable l.executor l.key.buildId l.key.operation reason)))
    | none => l.enterTier (starts (.tier false [] [])) false

def manifest (receipts : List TerminalReceipt) : ExitManifest :=
  ⟨l.key.meshId, l.roster, l.me, some l.finalRuntime, receipts⟩

/-- Every shutdown of the tier answered: the next tier starts, or the manifest is written, unless one failed. -/
def joined (r : Run) (admins : Bool) (failed : List Failure) (answers : List (MemberRecord × Answer)) : Run :=
  let receipts := r.receipts ++ answers.filterMap fun m => m.2.toOption
  let failed := failed ++ answers.filterMap failureOf
  if failed ≠ [] then { r with phase := .ended (.error (.tierIncomplete admins failed)) }
  else if admins then { r with receipts, phase := .recording (l.manifest receipts) }
  else l.enterTier { r with receipts } true

/-- The event that records every other member's exit. -/
def exitStep : BuildStep := ⟨operationText l.key.operation, otherMembersExited, .complete⟩

end Leave

/-- What happens while the member workflows run. -/
inductive Move where
  /-- A step's event is written to the Build. -/
  | records (step : BuildStep)
  /-- A shutdown of the tier answers. -/
  | answers (i : Nat) (answer : Answer)
  /-- Every shutdown of the tier has answered. -/
  | joins
  /-- The write of the manifest's event answers. -/
  | writes (written : Written)
  /-- The events store's next append settles the one it holds pending, whose line lands. -/
  | settles

/-- The step a move of the shutdowns records. -/
def Move.recorded : Move → Option BuildStep
  | .records step => some step
  | _ => none

def Leave.step (l : Leave) (r : Run) : Move → Run
  | .records step => { r with steps := r.steps ++ [step] }
  | .answers i answer =>
    match r.phase with
    | .tier admins failed members =>
      match members[i]? with
      | some (n, none) =>
        { r with
          answered := r.answered ++ [(n, answer)]
          phase := .tier admins failed (members.set i (n, some answer)) }
      | _ => r
    | _ => r
  | .joins =>
    match r.phase with
    | .tier admins failed members =>
      if members.all fun m => m.2.isSome then
        l.joined r admins failed (answersOf members)
      else r
    | _ => r
  | .writes written =>
    match r.phase, written with
    | .recording manifest, .recorded => { r with steps := r.steps ++ [l.exitStep], phase := .ended (.ok manifest) }
    | .recording _, .refused reason left =>
      { r with
        steps := r.steps ++ if left = .line then [l.exitStep] else []
        phase := .ended (.error (.unrecorded reason))
        pending := left = .pending }
    | _, _ => r
  | .settles => if r.pending then { r with steps := r.steps ++ [l.exitStep], pending := false } else r

end DistributedMesh.MeshDelete
