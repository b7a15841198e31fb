import DistributedMesh.SectionRunLogs

namespace DistributedMesh.SectionRuns

open GuardedRuns

/-- A stage in which a call has nothing of a run. -/
def CallStage.quiet : CallStage → Bool
  | .asks | .plans | .begins | .ended _ _ | .refused _ | .cut => true
  | _ => false

/-- Where a call goes with nothing else changed. -/
inductive CallGoes (s : Admin) (c : Call) : CallStage → Prop where
  | found (l : Nat) (h : s.runs[c.key]? = some l) : CallGoes s c (.attaches l)
  | quiet (stage : CallStage) (h : stage.quiet = true) : CallGoes s c stage
  | attached (l : Nat) (log : RunLog) (hstage : c.stage = .attaches l) (hlog : s.logs[l]? = some log) :
      CallGoes s c (.live .reattached log.replay (.new l log.state.events.length))
  | refused (l : Nat) (hstage : c.stage = .spawns l) : CallGoes s c (.closes l)
  | read (disposition : Disposition) (received : List BuildReply) (reader : RunReader) (log : RunLog)
      (hstage : c.stage = .live disposition received reader) (hlog : s.logs[reader.log]? = some log) :
      CallGoes s c (.live disposition (received ++ (reader.next log.state).2.toList) (reader.next log.state).1)

/-- Where a task goes with nothing else changed: it runs, its run is over, or it reads what failed in it. -/
inductive TaskGoes (t : Task) : TaskStage → Prop where
  | runs (h : t.stage = .waits) : TaskGoes t .runs
  | ends (e : SectionEnd) (h : t.stage = .runs) : TaskGoes t (.ends e)
  | names (e : SectionEnd) (failed : Option Blocker) : TaskGoes t (.finishes e failed)
  | aborts : TaskGoes t .aborted

/-- Where a write goes with nothing else changed. -/
inductive WriteGoes (b : FramedBuilds) (s : Admin) : Write → Write → Prop where
  | checked (w : StepWrite) : WriteGoes b s (.checks w) (.appends w)
  | unwritten (w : StepWrite) (h : b.own = none) : WriteGoes b s (.appends w) (.frames w)
  | found (w : StepWrite) (l : Nat) (h : s.runs[(w.buildId, b.meshOf w)]? = some l) : WriteGoes b s (.frames w) (.steps w l)
  | notes (w : Write) (logs : List Nat) (operation step reason : String) : WriteGoes b s w (.pends logs operation step reason)
  | written (w : Write) : WriteGoes b s w .written
  | failed (w : Write) : WriteGoes b s w .failed

/-- All a move can do. -/
inductive Does (b : FramedBuilds) (s : Admin) : Admin → Prop where
  | nothing : Does b s s
  | asks (c : Call) (h : c.stage = .asks) : Does b s { s with calls := s.calls ++ [c] }
  | goes (i : Nat) (c : Call) (stage : CallStage) (hi : s.calls[i]? = some c) (h : CallGoes s c stage) :
      Does b s (s.goes i c stage)
  | begins (i : Nat) (c : Call) (hi : s.calls[i]? = some c) (hfree : s.runs[c.key]? = none) :
      Does b s (Admin.goes
        { s with
          logs := s.logs ++ [RunLog.new c.buildId c.mesh]
          runs := s.runs.insert c.key s.logs.length } i c (.marks s.logs.length))
  | marks (i : Nat) (c : Call) (l : Nat) (hi : s.calls[i]? = some c) (hstage : c.stage = .marks l) :
      Does b s ((s.onLog l fun log => { log with fabricPrimarys := log.fabricPrimarys || c.under }).goes i c (.spawns l))
  | spawns (i : Nat) (c : Call) (l : Nat) (hi : s.calls[i]? = some c) (hstage : c.stage = .spawns l)
      (hopen : s.stopped = false) :
      Does b s (Admin.goes { s with tasks := s.tasks ++ [⟨c.buildId, c.mesh, l, false, .waits⟩] } i c
        (.live .started [] (.new l 0)))
  | closes (i : Nat) (c : Call) (l : Nat) (hi : s.calls[i]? = some c) (hstage : c.stage = .closes l) :
      Does b s (Admin.goes { s with runs := s.runs.erase c.key } i c (.refused (Admin.stoppedReply s.me c.buildId)))
  | task (i : Nat) (t : Task) (stage : TaskStage) (hi : s.tasks[i]? = some t) (h : TaskGoes t stage) :
      Does b s (s.taskGoes i t stage)
  | ends (i : Nat) (t : Task) (e : SectionEnd) (hi : s.tasks[i]? = some t) (hstage : t.stage = .ends e) :
      Does b s (Admin.taskGoes { s with runs := s.runs.erase t.key } i t (.names e))
  | finishes (i : Nat) (t : Task) (e : SectionEnd) (failed : Option Blocker) (hi : s.tasks[i]? = some t)
      (hstage : t.stage = .finishes e failed) :
      Does b s ((s.onLog t.log fun log => log.finish (terminalOf t.buildId t.mesh e failed)).taskGoes i t .finished)
  | stop : Does b s s.stop
  | writes (w : Write) (h : (∃ step, w = .checks step) ∨ ∃ id o t r, w = .notes id o t r) :
      Does b s { s with writes := s.writes ++ [w] }
  | write (i : Nat) (w w' : Write) (hi : s.writes[i]? = some w) (h : WriteGoes b s w w') : Does b s (s.writeGoes i w')
  | appends (i : Nat) (w : StepWrite) (hi : s.writes[i]? = some (.appends w)) :
      Does b s (Admin.writeGoes { s with events := s.events ++ [b.event w] } i (.frames w))
  | steps (i : Nat) (w : StepWrite) (l : Nat) (hi : s.writes[i]? = some (.steps w l)) :
      Does b s ((s.onLog l fun log => log.step w.operation w.step (resultOf w.outcome)).writeGoes i .written)
  | pends (i l : Nat) (logs : List Nat) (operation step reason : String)
      (hi : s.writes[i]? = some (.pends (l :: logs) operation step reason)) :
      Does b s ((s.onLog l fun log => log.pending operation step reason).writeGoes i (.pends logs operation step reason))
  | notifies (l : Nat) (log : RunLog) (hlog : s.logs[l]? = some log) (hdue : 0 < log.notifying) :
      Does b s
        { s.onLog l fun log => { log with notifying := log.notifying - 1 } with calls := s.calls.map (Admin.heard l) }

variable {b : FramedBuilds} {s : Admin} {i : Nat}

theorem callTurn_does {c : Call} (hi : s.calls[i]? = some c) (plan : Plan) : Does b s (s.callTurn i c plan) := by
  rw [Admin.callTurn.eq_def]
  cases hstage : c.stage with
  | asks =>
    dsimp only
    cases hruns : s.runs[c.key]? with
    | some l => exact .goes i c _ hi (.found l hruns)
    | none =>
      dsimp only
      split
      · exact .goes i c _ hi (.quiet _ rfl)
      · exact .goes i c _ hi (.quiet _ rfl)
  | plans =>
    cases plan with
    | refused reply => exact .goes i c _ hi (.quiet _ rfl)
    | ended steps => exact .goes i c _ hi (.quiet _ rfl)
    | operations => exact .goes i c _ hi (.quiet _ rfl)
  | begins =>
    dsimp only
    rw [Admin.begin]
    cases hruns : s.runs[(c.buildId, c.mesh)]? with
    | some l => exact .goes i c _ hi (.found l hruns)
    | none => exact .begins i c hi hruns
  | attaches l =>
    dsimp only
    cases hlog : s.logs[l]? with
    | some log => exact .goes i c _ hi (.attached l log hstage hlog)
    | none => exact .nothing
  | marks l => exact .marks i c l hi hstage
  | spawns l =>
    dsimp only
    split
    · exact .goes i c _ hi (.refused l hstage)
    next hopen => exact .spawns i c l hi hstage (by simpa using hopen)
  | closes l => exact .closes i c l hi hstage
  | live disposition received reader =>
    dsimp only
    cases hlog : s.logs[reader.log]? with
    | some log => exact .goes i c _ hi (.read disposition received reader log hstage hlog)
    | none => exact .nothing
  | ended | refused | cut => exact .nothing

theorem cutCall_does {c : Call} (hi : s.calls[i]? = some c) : Does b s (s.cutCall i c) := by
  rw [Admin.cutCall.eq_def]
  cases c.stage with
  | plans => exact .goes i c _ hi (.quiet _ rfl)
  | live => exact .goes i c _ hi (.quiet _ rfl)
  | asks | begins | attaches | marks | spawns | closes | ended | refused | cut => exact .nothing

theorem taskTurn_does {t : Task} (hi : s.tasks[i]? = some t) (e : SectionEnd) : Does b s (s.taskTurn i t e) := by
  rw [Admin.taskTurn.eq_def]
  cases hstage : t.stage with
  | waits => exact .task i t _ hi (.runs hstage)
  | runs => exact .task i t _ hi (.ends e hstage)
  | ends e => exact .ends i t e hi hstage
  | names e =>
    dsimp only
    cases s.logs[t.log]? with
    | some log => exact .task i t _ hi (.names e _)
    | none => exact .nothing
  | finishes e failed => exact .finishes i t e failed hi hstage
  | finished | aborted => exact .nothing

theorem writeTurn_does {w : Write} (hi : s.writes[i]? = some w) (answer : Bool) : Does b s (s.writeTurn b i w answer) := by
  cases w with
  | checks w =>
    rw [Admin.writeTurn]
    split
    · exact .write i _ _ hi (.failed _)
    · exact .write i _ _ hi (.checked w)
  | appends w =>
    rw [Admin.writeTurn]
    split
    next hnone => exact .write i _ _ hi (.unwritten w (by simpa using hnone))
    next =>
      split
      · exact .appends i w hi
      · exact .write i _ _ hi (.failed _)
  | frames w =>
    rw [Admin.writeTurn]
    cases hruns : s.runs[(w.buildId, b.meshOf w)]? with
    | some l => exact .write i _ _ hi (.found w l hruns)
    | none => exact .write i _ _ hi (.written _)
  | steps w l => exact .steps i w l hi
  | notes buildId operation step reason => exact .write i _ _ hi (.notes _ _ _ _ _)
  | pends logs operation step reason =>
    cases logs with
    | nil => exact .write i _ _ hi (.written _)
    | cons l logs => exact .pends i l logs operation step reason hi
  | written | failed => exact .nothing

/-- A move does one of these. -/
theorem step_does (b : FramedBuilds) (s : Admin) (m : Move) : Does b s (s.step b m) := by
  cases m with
  | sectionRun buildId mesh => exact .asks _ rfl
  | runUnder buildId mesh => exact .asks _ rfl
  | call i plan =>
    rw [Admin.step]
    cases hi : s.calls[i]? with
    | some c => exact callTurn_does hi plan
    | none => exact .nothing
  | cut i =>
    rw [Admin.step]
    cases hi : s.calls[i]? with
    | some c => exact cutCall_does hi
    | none => exact .nothing
  | task i e =>
    rw [Admin.step]
    cases hi : s.tasks[i]? with
    | some t => exact taskTurn_does hi e
    | none => exact .nothing
  | stop => exact .stop
  | abort i =>
    rw [Admin.step]
    cases hi : s.tasks[i]? with
    | some t =>
      dsimp only
      rw [Admin.abortTask]
      split
      · exact .task i t _ hi .aborts
      · exact .nothing
    | none => exact .nothing
  | writeStep w => exact .writes _ (.inl ⟨w, rfl⟩)
  | notePending buildId operation step reason => exact .writes _ (.inr ⟨buildId, operation, step, reason, rfl⟩)
  | write i answer =>
    rw [Admin.step]
    cases hi : s.writes[i]? with
    | some w => exact writeTurn_does hi answer
    | none => exact .nothing
  | notifyWaiters l =>
    rw [Admin.step, Admin.notifyWaiters]
    cases hlog : s.logs[l]? with
    | some log =>
      dsimp only
      split
      · exact .nothing
      next hdue => exact .notifies l log hlog (Nat.pos_of_ne_zero hdue)
    | none => exact .nothing

end DistributedMesh.SectionRuns
