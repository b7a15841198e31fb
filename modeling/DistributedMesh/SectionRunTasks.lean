import DistributedMesh.Holdings
import DistributedMesh.SectionRunReads

namespace DistributedMesh.SectionRuns

open GuardedRuns Holdings

/-- The task has its section's run held: it has not left it. -/
def Task.holds (t : Task) : Bool := t.stage matches .waits | .runs | .ends _

/-- The log of the run the call opened and has held for a task. -/
def Call.holds (c : Call) : Option Nat :=
  match c.stage with
  | .marks l | .spawns l | .closes l => some l
  | _ => none

/-- A task, or a call before it spawned its task. -/
inductive Holder where
  | task (i : Nat)
  | call (i : Nat)
deriving DecidableEq

/-- The section and the log a holder has held. -/
def Admin.holding (s : Admin) : Holder → Option ((String × String) × Nat)
  | .task i => (s.tasks[i]?).bind fun t => if t.holds then some (t.key, t.log) else none
  | .call i => (s.calls[i]?).bind fun c => c.holds.map (c.key, ·)

variable {b : FramedBuilds} {s s' : Admin} {i l : Nat} {c : Call} {t : Task}

theorem holding_call (hi : s.calls[i]? = some c) (hl : c.holds = some l) : s.holding (.call i) = some (c.key, l) := by
  rw [Admin.holding, hi, Option.bind_some, hl]
  rfl

theorem holding_task (hi : s.tasks[i]? = some t) (ht : t.holds = true) : s.holding (.task i) = some (t.key, t.log) := by
  rw [Admin.holding, hi, Option.bind_some, if_pos ht]

/-- The holding of one call that moved on; the others hold what they held. -/
theorem holding_goes (hi : s.calls[i]? = some c) (stage : CallStage) (s' : Admin) (htasks : s'.tasks = s.tasks)
    (hcalls : s'.calls = s.calls.set i { c with stage := stage }) :
    s'.holding (.call i) = ({ c with stage := stage } : Call).holds.map (c.key, ·) ∧
      ∀ o, o ≠ .call i → s'.holding o = s.holding o := by
  refine ⟨?_, ?_⟩
  · rw [Admin.holding, hcalls, getElem?_set_new hi]
    rfl
  · intro o hne
    cases o with
    | task j => rw [Admin.holding, Admin.holding, htasks]
    | call j =>
      have hij : i ≠ j := fun h => hne (by rw [h])
      rw [Admin.holding, Admin.holding, hcalls, List.getElem?_set_ne hij]

theorem holding_taskGoes (hi : s.tasks[i]? = some t) (stage : TaskStage) (s' : Admin) (hcalls : s'.calls = s.calls)
    (htasks : s'.tasks = s.tasks.set i { t with stage := stage }) :
    s'.holding (.task i) = (if ({ t with stage := stage } : Task).holds then some (t.key, t.log) else none) ∧
      ∀ o, o ≠ .task i → s'.holding o = s.holding o := by
  refine ⟨?_, ?_⟩
  · rw [Admin.holding, htasks, getElem?_set_new hi]
    rfl
  · intro o hne
    cases o with
    | call j => rw [Admin.holding, Admin.holding, hcalls]
    | task j =>
      have hij : i ≠ j := fun h => hne (by rw [h])
      rw [Admin.holding, Admin.holding, htasks, List.getElem?_set_ne hij]

/-- A holder that goes on holding nothing, the others as they were, holds nothing new. -/
theorem holding_of_others {who : Holder} (hwho : ∀ p, s'.holding who = some p → s.holding who = some p)
    (hothers : ∀ o, o ≠ who → s'.holding o = s.holding o) :
    ∀ o k l, s'.holding o = some (k, l) → s.holding o = some (k, l) := by
  intro o k l ho
  by_cases heq : o = who
  · rw [heq] at ho ⊢
    exact hwho _ ho
  · rw [← hothers o heq]
    exact ho

/-- A call that goes somewhere with nothing else changed holds nothing it did not hold. -/
theorem CallGoes.holds {stage : CallStage} (h : CallGoes s c stage) :
    ({ c with stage := stage } : Call).holds = none ∨ ({ c with stage := stage } : Call).holds = c.holds := by
  cases h with
  | found | attached | read => exact .inl rfl
  | quiet _ hquiet =>
    cases stage with
    | asks | plans | begins | ended | refused | cut => exact .inl rfl
    | attaches | marks | spawns | closes | live => cases hquiet
  | refused l hstage =>
    refine .inr ?_
    rw [Call.holds, Call.holds, hstage]

theorem TaskGoes.holds {stage : TaskStage} (h : TaskGoes t stage) (hholds : ({ t with stage := stage } : Task).holds = true) :
    t.holds = true := by
  cases h with
  | runs hstage => rw [Task.holds, hstage]
  | ends e hstage => rw [Task.holds, hstage]
  | names | aborts => cases hholds

theorem heard_holds (l : Nat) (c : Call) : (Admin.heard l c).holds = c.holds ∧ (Admin.heard l c).key = c.key := by
  unfold Admin.heard
  cases hstage : c.stage with
  | live disposition received reader =>
    dsimp only
    split
    · exact ⟨by rw [Call.holds, Call.holds, hstage], rfl⟩
    · exact ⟨rfl, rfl⟩
  | asks | plans | begins | attaches | marks | spawns | closes | ended | refused | cut => exact ⟨rfl, rfl⟩

/-- What is held is in the table of runs, and every section has one holder at most. -/
def Admin.Held (s : Admin) : Prop := Owned (fun k => s.runs[k]?) s.holding

theorem held_new (me : String) : (Admin.new me).Held :=
  ⟨fun o _ _ ho => by cases o <;> simp [Admin.holding, Admin.new] at ho,
    fun o _ _ _ _ ho _ => by cases o <;> simp [Admin.holding, Admin.new] at ho⟩

theorem Admin.Held.asks (h : s.Held) (hstage : c.stage = .asks) : ({ s with calls := s.calls ++ [c] } : Admin).Held := by
  refine Owned.keeps h ?_
  intro o k l ho
  cases o with
  | task j => exact ho
  | call j =>
    rw [Admin.holding] at ho ⊢
    obtain ⟨a, ha, hl⟩ := Option.bind_eq_some_iff.mp ho
    obtain ⟨-, hj⟩ | ⟨-, rfl⟩ := getElem?_of_append ha
    · rw [hj]
      exact hl
    · rw [Call.holds, hstage] at hl
      cases hl

/-- A call that moves on holding nothing new, or nothing. -/
theorem Admin.Held.goes (h : s.Held) (hi : s.calls[i]? = some c) (stage : CallStage)
    (hholds : ({ c with stage := stage } : Call).holds = none ∨ ({ c with stage := stage } : Call).holds = c.holds)
    (htasks : s'.tasks = s.tasks) (hcalls : s'.calls = s.calls.set i { c with stage := stage }) (hruns : s'.runs = s.runs) :
    s'.Held := by
  obtain ⟨hwho, hothers⟩ := holding_goes hi stage s' htasks hcalls
  have hkept : Owned (fun k => s.runs[k]?) s'.holding := by
    refine Owned.keeps h (holding_of_others ?_ hothers)
    intro p hp
    rw [hwho] at hp
    rw [Admin.holding, hi, Option.bind_some]
    rcases hholds with hnone | hsame
    · rw [hnone] at hp
      cases hp
    · rw [← hsame]
      exact hp
  rw [Admin.Held, hruns]
  exact hkept

theorem Admin.Held.begins (h : s.Held) (hi : s.calls[i]? = some c) (hfree : s.runs[c.key]? = none) :
    (Admin.goes
      { s with
        logs := s.logs ++ [RunLog.new c.buildId c.mesh]
        runs := s.runs.insert c.key s.logs.length } i c (.marks s.logs.length)).Held := by
  obtain ⟨hwho, hothers⟩ := holding_goes hi (.marks s.logs.length) (Admin.goes
    { s with
      logs := s.logs ++ [RunLog.new c.buildId c.mesh]
      runs := s.runs.insert c.key s.logs.length } i c (.marks s.logs.length)) rfl rfl
  refine Owned.opens h hfree hwho hothers ?_ ?_
  · show (s.runs.insert c.key s.logs.length)[c.key]? = _
    rw [KeyedMaps.getElem?_insert_eq, if_pos rfl]
  · intro k hk
    show (s.runs.insert c.key s.logs.length)[k]? = _
    rw [KeyedMaps.getElem?_insert_eq, if_neg (Ne.symm hk)]

theorem Admin.Held.spawns (h : s.Held) (hi : s.calls[i]? = some c) (hstage : c.stage = .spawns l) :
    (Admin.goes { s with tasks := s.tasks ++ [⟨c.buildId, c.mesh, l, false, .waits⟩] } i c
      (.live .started [] (.new l 0))).Held := by
  have hwho : s.holding (.call i) = some (c.key, l) := holding_call hi (by rw [Call.holds, hstage])
  refine Owned.hands h (.task s.tasks.length) hwho ?_ ?_ ?_
  · rw [Admin.holding]
    show ((s.tasks ++ [_])[s.tasks.length]?).bind _ = _
    rw [List.getElem?_concat_length]
    rfl
  · rw [Admin.holding]
    show ((s.calls.set i _)[i]?).bind _ = _
    rw [getElem?_set_new hi]
    rfl
  · intro o hcall htask
    cases o with
    | task j =>
      have hj : j ≠ s.tasks.length := fun h => htask (by rw [h])
      rw [Admin.holding, Admin.holding]
      show ((s.tasks ++ [_])[j]?).bind _ = _
      rw [List.getElem?_append]
      split
      · rfl
      next hge =>
        have hlen : s.tasks.length < j := by omega
        rw [List.getElem?_eq_none (by rw [List.length_singleton]; omega), List.getElem?_eq_none (Nat.le_of_lt hlen)]
    | call j =>
      have hij : i ≠ j := fun h => hcall (by rw [h])
      rw [Admin.holding, Admin.holding]
      show ((s.calls.set i _)[j]?).bind _ = _
      rw [List.getElem?_set_ne hij]

theorem Admin.Held.closes (h : s.Held) (hi : s.calls[i]? = some c) (hstage : c.stage = .closes l) {reply : BuildReply} :
    (Admin.goes { s with runs := s.runs.erase c.key } i c (.refused reply)).Held := by
  have hwho : s.holding (.call i) = some (c.key, l) := holding_call hi (by rw [Call.holds, hstage])
  obtain ⟨hnone, hothers⟩ :=
    holding_goes hi (.refused reply) (Admin.goes { s with runs := s.runs.erase c.key } i c (.refused reply)) rfl rfl
  refine Owned.releases h hwho hnone (holding_of_others ?_ hothers) ?_
  · intro p hp
    rw [hnone] at hp
    cases hp
  · intro k hk
    show (s.runs.erase c.key)[k]? = _
    rw [KeyedMaps.getElem?_erase_eq, if_neg (Ne.symm hk)]

theorem Admin.Held.task (h : s.Held) (hi : s.tasks[i]? = some t) (stage : TaskStage)
    (hholds : ({ t with stage := stage } : Task).holds = true → t.holds = true) (hcalls : s'.calls = s.calls)
    (htasks : s'.tasks = s.tasks.set i { t with stage := stage }) (hruns : s'.runs = s.runs) : s'.Held := by
  obtain ⟨hwho, hothers⟩ := holding_taskGoes hi stage s' hcalls htasks
  have hkept : Owned (fun k => s.runs[k]?) s'.holding := by
    refine Owned.keeps h (holding_of_others ?_ hothers)
    intro p hp
    rw [hwho] at hp
    split at hp
    next hheld =>
      rw [← hp]
      exact holding_task hi (hholds hheld)
    next => cases hp
  rw [Admin.Held, hruns]
  exact hkept

theorem Admin.Held.ends (h : s.Held) (hi : s.tasks[i]? = some t) {e : SectionEnd} (hstage : t.stage = .ends e) :
    (Admin.taskGoes { s with runs := s.runs.erase t.key } i t (.names e)).Held := by
  have hwho : s.holding (.task i) = some (t.key, t.log) := holding_task hi (by rw [Task.holds, hstage])
  obtain ⟨hnone, hothers⟩ :=
    holding_taskGoes hi (.names e) (Admin.taskGoes { s with runs := s.runs.erase t.key } i t (.names e)) rfl rfl
  refine Owned.releases h hwho hnone (holding_of_others ?_ hothers) ?_
  · intro p hp
    rw [hnone] at hp
    cases hp
  · intro k hk
    show (s.runs.erase t.key)[k]? = _
    rw [KeyedMaps.getElem?_erase_eq, if_neg (Ne.symm hk)]

theorem Admin.Held.stop (h : s.Held) : s.stop.Held := by
  refine Owned.keeps h ?_
  intro o k l ho
  cases o with
  | call j => exact ho
  | task j =>
    rw [Admin.holding] at ho ⊢
    obtain ⟨t, ht, hl⟩ := Option.bind_eq_some_iff.mp ho
    obtain ⟨was, hwas, rfl⟩ := Option.map_eq_some_iff.mp ((List.getElem?_map ..).symm.trans ht)
    rw [hwas, Option.bind_some]
    split at hl <;> exact hl

theorem Admin.Held.notifies (h : s.Held) {logs : List RunLog} :
    ({ s with logs := logs, calls := s.calls.map (Admin.heard l) } : Admin).Held := by
  refine Owned.keeps h ?_
  intro o k m ho
  cases o with
  | task j => exact ho
  | call j =>
    rw [Admin.holding] at ho ⊢
    obtain ⟨c, hc, hl⟩ := Option.bind_eq_some_iff.mp ho
    obtain ⟨was, hwas, rfl⟩ := Option.map_eq_some_iff.mp ((List.getElem?_map ..).symm.trans hc)
    rw [hwas, Option.bind_some, ← (heard_holds l was).1, ← (heard_holds l was).2]
    exact hl

theorem Admin.Held.does (h : s.Held) (hdoes : Does b s s') : s'.Held := by
  cases hdoes with
  | nothing | writes | write | appends | steps | pends => exact h
  | asks c hstage => exact h.asks hstage
  | goes i c stage hi hgoes => exact h.goes hi stage hgoes.holds rfl rfl rfl
  | begins i c hi hfree => exact h.begins hi hfree
  | marks i c l hi hstage => exact h.goes hi (.spawns l) (.inr (by rw [Call.holds, Call.holds, hstage])) rfl rfl rfl
  | spawns i c l hi hstage hopen => exact h.spawns hi hstage
  | closes i c l hi hstage => exact h.closes hi hstage
  | task i t stage hi hgoes => exact h.task hi stage hgoes.holds rfl rfl rfl
  | ends i t e hi hstage => exact h.ends hi hstage
  | finishes i t e failed hi hstage => exact h.task hi .finished nofun rfl rfl rfl
  | stop => exact h.stop
  | notifies l log hlog hdue => exact h.notifies

theorem Admin.Held.run (h : s.Held) (moves : List Move) : (s.run b moves).Held :=
  invariant_run (fun s m hs => hs.does (step_does b s m)) h moves

theorem Task.holds_of_running (h : t.running = true) : t.holds = true := by
  unfold Task.running at h
  unfold Task.holds
  cases hstage : t.stage with
  | waits | runs | ends => rfl
  | names | finishes | finished | aborted =>
    rw [hstage] at h
    cases h

/-- However calls, writes, tasks and stops interleave, no section runs twice at once on an admin, and the run of a
section that runs is the one a call for it finds. -/
theorem one_run_per_section (b : FramedBuilds) (me : String) (moves : List Move) (i : Nat) (t : Task)
    (hi : ((Admin.new me).run b moves).tasks[i]? = some t) (ht : t.running = true) :
    ((Admin.new me).run b moves).runs[t.key]? = some t.log ∧
      ∀ (j : Nat) (u : Task), ((Admin.new me).run b moves).tasks[j]? = some u → u.running = true → u.key = t.key → j = i := by
  have hheld : ((Admin.new me).run b moves).Held := (held_new me).run moves
  have hmine := holding_task hi (Task.holds_of_running ht)
  refine ⟨hheld.held _ _ _ hmine, ?_⟩
  intro j u hj hu hkey
  have hother := holding_task hj (Task.holds_of_running hu)
  rw [hkey] at hother
  have hsame := hheld.once _ _ _ _ _ hother hmine
  exact Holder.task.inj hsame

theorem one_run_per_section_asked_twice :
    ((Admin.new "n0").run ⟨some "mesh1", false⟩ (startMoves ++ attachMoves)).runs[("build1", "mesh1")]? = some 0 ∧
      ∀ (j : Nat) (u : Task), ((Admin.new "n0").run ⟨some "mesh1", false⟩ (startMoves ++ attachMoves)).tasks[j]? = some u →
        u.running = true → u.key = ("build1", "mesh1") → j = 0 :=
  one_run_per_section ⟨some "mesh1", false⟩ "n0" (startMoves ++ attachMoves) 0 ⟨"build1", "mesh1", 0, false, .waits⟩ rfl rfl

/-- The admin runs sections no longer: the runs it has were told to end. -/
structure Stopped (n : Nat) (s : Admin) : Prop where
  stopped : s.stopped = true
  tasks : s.tasks.length = n
  told : ∀ t ∈ s.tasks, t.running = true → t.abort = true

theorem TaskGoes.running {stage : TaskStage} (h : TaskGoes t stage) (hrunning : ({ t with stage := stage } : Task).running = true) :
    t.running = true := by
  cases h with
  | runs hstage => rw [Task.running, hstage]
  | ends | names | aborts => cases hrunning

theorem Task.not_finished_of_running (h : t.running = true) : t.isFinished = false := by
  unfold Task.running at h
  unfold Task.isFinished
  cases hstage : t.stage with
  | waits | runs | ends | names | finishes => rfl
  | finished | aborted =>
    rw [hstage] at h
    cases h

theorem stopped_stop (s : Admin) : Stopped s.tasks.length s.stop := by
  refine ⟨rfl, List.length_map .., ?_⟩
  intro t ht hrunning
  obtain ⟨was, -, rfl⟩ := List.mem_map.mp ht
  by_cases hfinished : was.isFinished = true
  · rw [if_pos hfinished] at hrunning
    rw [Task.not_finished_of_running hrunning] at hfinished
    cases hfinished
  · rw [if_neg hfinished]

variable {n : Nat}

theorem Stopped.set (h : Stopped n s) (hi : s.tasks[i]? = some t) (stage : TaskStage)
    (hrunning : ({ t with stage := stage } : Task).running = true → t.running = true) (hstopped : s'.stopped = s.stopped)
    (htasks : s'.tasks = s.tasks.set i { t with stage := stage }) : Stopped n s' := by
  refine ⟨hstopped.trans h.stopped, ?_, ?_⟩
  · rw [htasks, List.length_set]
    exact h.tasks
  · rw [htasks]
    exact forall_mem_set h.told fun hr => h.told t (List.mem_of_getElem? hi) (hrunning hr)

theorem Stopped.does (h : Stopped n s) (hdoes : Does b s s') : Stopped n s' := by
  cases hdoes with
  | nothing | asks | goes | begins | marks | closes | writes | write | appends | steps | pends | notifies =>
    exact ⟨h.stopped, h.tasks, h.told⟩
  | spawns i c l hi hstage hopen =>
    rw [h.stopped] at hopen
    cases hopen
  | task i t stage hi hgoes => exact h.set hi stage hgoes.running rfl rfl
  | ends i t e hi hstage => exact h.set hi (.names e) nofun rfl rfl
  | finishes i t e failed hi hstage => exact h.set hi .finished nofun rfl rfl
  | stop =>
    have hstop := stopped_stop s
    rw [h.tasks] at hstop
    exact hstop

/-- Once an admin stopped, no run starts on it whatever is asked of it, and each that is left was told to end. -/
theorem stopped_admin_starts_no_run (b : FramedBuilds) (me : String) (before after : List Move) :
    ((Admin.new me).run b (before ++ .stop :: after)).tasks.length = ((Admin.new me).run b before).tasks.length ∧
      ∀ t ∈ ((Admin.new me).run b (before ++ .stop :: after)).tasks, t.running = true → t.abort = true := by
  have hsplit : (Admin.new me).run b (before ++ .stop :: after) = (((Admin.new me).run b before).step b .stop).run b after := by
    rw [Admin.run, List.foldl_append, List.foldl_cons]
    rfl
  have hstopped : Stopped ((Admin.new me).run b before).tasks.length ((Admin.new me).run b (before ++ .stop :: after)) := by
    rw [hsplit]
    exact invariant_run (fun s m h => h.does (step_does b s m)) (stopped_stop _) after
  exact ⟨hstopped.tasks, hstopped.told⟩

/-- The frame of a step's event. -/
def BuildStep.frame (e : BuildStep) : BuildReply := .step e.buildId e.mesh e.operation e.step (resultOf e.outcome)

/-- Where a write has the event of its step written already, and the run it frames it in. -/
def Write.Backed (b : FramedBuilds) (s : Admin) : Write → Prop
  | .frames w => b.event w ∈ s.events
  | .steps w l => b.event w ∈ s.events ∧ ∃ log : RunLog, s.logs[l]? = some log ∧ log.key = (w.buildId, b.meshOf w)
  | _ => True

/-- Every step framed has its event written. -/
structure Durable (b : FramedBuilds) (s : Admin) : Prop where
  logs : ∀ log ∈ s.logs, ∀ f ∈ log.state.steps, ∃ e ∈ s.events, f = e.frame
  writes : ∀ w ∈ s.writes, w.Backed b s

theorem mem_modified {f : RunLog → RunLog} {log' : RunLog} (h : log' ∈ s.logs.modify l f) :
    ∃ log ∈ s.logs, log' = log ∨ (s.logs[l]? = some log ∧ log' = f log) := by
  obtain ⟨j, hj⟩ := List.mem_iff_getElem?.mp h
  rw [List.getElem?_modify] at hj
  obtain ⟨log, hlog, heq⟩ := Option.map_eq_some_iff.mp hj
  refine ⟨log, List.mem_of_getElem? hlog, ?_⟩
  split at heq
  next hl =>
    rw [hl]
    exact .inr ⟨hlog, heq.symm⟩
  next => exact .inl heq.symm

/-- A log moved on without a step frames no other step. -/
theorem Durable.modified (h : Durable b s) {f : RunLog → RunLog} (hf : ∀ log : RunLog, (f log).state.steps = log.state.steps) :
    ∀ log ∈ s.logs.modify l f, ∀ g ∈ log.state.steps, ∃ e ∈ s.events, g = e.frame := by
  intro log hmem g hg
  obtain ⟨was, hwas, rfl | ⟨-, rfl⟩⟩ := mem_modified hmem
  · exact h.logs log hwas g hg
  · rw [hf was] at hg
    exact h.logs was hwas g hg

theorem finish_steps (log : RunLog) (terminal : BuildReply) : (log.finish terminal).state.steps = log.state.steps := by
  unfold RunLog.finish
  cases log.state.terminal <;> rfl

theorem pending_steps (log : RunLog) (operation step reason : String) :
    (log.pending operation step reason).state.steps = log.state.steps := by
  rw [RunLog.pending]
  split <;> rfl

/-- A step framed in the run of its section is framed as its event has it. -/
theorem Durable.framed (h : Durable b s) {w : StepWrite} (hevent : b.event w ∈ s.events)
    (hkey : ∀ log : RunLog, s.logs[l]? = some log → log.key = (w.buildId, b.meshOf w)) :
    ∀ log ∈ s.logs.modify l (fun log => log.step w.operation w.step (resultOf w.outcome)), ∀ g ∈ log.state.steps,
      ∃ e ∈ s.events, g = e.frame := by
  intro log hmem g hg
  obtain ⟨was, hwas, rfl | ⟨hlog, rfl⟩⟩ := mem_modified hmem
  · exact h.logs log hwas g hg
  · cases hframed : was.framed w.operation w.step (resultOf w.outcome) with
    | true =>
      rw [RunLog.step, if_pos hframed] at hg
      exact h.logs was hwas g hg
    | false =>
      rw [(step_state hframed).2.1] at hg
      rcases List.mem_append.mp hg with hg | hg
      · exact h.logs was hwas g hg
      · refine ⟨b.event w, hevent, ?_⟩
        obtain ⟨hbuild, hmesh⟩ := Prod.mk.inj (hkey was hlog)
        rw [List.mem_singleton.mp hg, RunLog.frame, hbuild, hmesh]
        rfl

theorem Write.Backed.does {w : Write} (h : w.Backed b s) (hdoes : Does b s s') (hevents : s.events ⊆ s'.events) :
    w.Backed b s' := by
  cases w with
  | frames w => exact hevents h
  | steps w l =>
    obtain ⟨hevent, log, hlog, hkey⟩ := h
    obtain ⟨log', hlog', hgrown⟩ := hdoes.grown hlog
    exact ⟨hevents hevent, log', hlog', hgrown.key.trans hkey⟩
  | checks | appends | notes | pends | written | failed => trivial

theorem Does.events (h : Does b s s') : s.events ⊆ s'.events := by
  cases h with
  | nothing | asks | goes | begins | marks | spawns | closes | task | ends | finishes | stop | writes | write | steps | pends |
    notifies => exact fun _ he => he
  | appends i w => exact List.subset_append_left ..

variable {own : String} {role : Bool}

theorem Durable.logged (h : Durable b s) (hdoes : Does b s s') :
    ∀ log ∈ s'.logs, ∀ f ∈ log.state.steps, ∃ e ∈ s'.events, f = e.frame := by
  cases hdoes with
  | nothing | asks | goes | spawns | closes | task | ends | stop | writes | write => exact h.logs
  | begins i c =>
    intro log hmem f hf
    rcases List.mem_append.mp hmem with hmem | hmem
    · exact h.logs log hmem f hf
    · rw [List.mem_singleton.mp hmem] at hf
      cases hf
  | marks i c l => exact h.modified fun _ => rfl
  | finishes i t e failed => exact h.modified fun log => finish_steps log _
  | appends i w =>
    intro log hmem f hf
    obtain ⟨e, he, hframe⟩ := h.logs log hmem f hf
    exact ⟨e, List.mem_append_left _ he, hframe⟩
  | steps i w l hi =>
    obtain ⟨hevent, log, hlog, hkey⟩ := h.writes _ (List.mem_of_getElem? hi)
    refine h.framed hevent ?_
    intro held hheld
    rw [hlog] at hheld
    cases hheld
    exact hkey
  | pends i l logs operation step reason => exact h.modified fun log => pending_steps log _ _ _
  | notifies l log => exact h.modified fun _ => rfl

theorem Durable.backed (hs : Sound s) (h : Durable ⟨some own, role⟩ s) (hdoes : Does ⟨some own, role⟩ s s') :
    ∀ w ∈ s'.writes, w.Backed ⟨some own, role⟩ s' := by
  have hstays : ∀ w ∈ s.writes, w.Backed ⟨some own, role⟩ s' := fun w hw => (h.writes w hw).does hdoes hdoes.events
  cases hdoes with
  | nothing | asks | goes | begins | marks | spawns | closes | task | ends | finishes | stop | notifies => exact hstays
  | writes w hnew =>
    intro a ha
    rcases List.mem_append.mp ha with ha | ha
    · exact hstays a ha
    · rw [List.mem_singleton.mp ha]
      obtain ⟨step, rfl⟩ | ⟨id, o, t, r, rfl⟩ := hnew <;> trivial
  | write i w w' hi hgoes =>
    refine forall_mem_set hstays ?_
    cases hgoes with
    | checked | notes | written | failed => trivial
    | unwritten w hnone => cases hnone
    | found w l hrun => exact ⟨h.writes _ (List.mem_of_getElem? hi), hs.runs _ l hrun⟩
  | appends i w hi => exact forall_mem_set hstays (List.mem_append_right _ (List.mem_singleton.mpr rfl))
  | steps i w l hi => exact forall_mem_set hstays trivial
  | pends i l logs operation step reason hi => exact forall_mem_set hstays trivial

/-- On an admin that writes its steps, a call is given the frame of a step only once the step's event is written, and as
the event has it. -/
theorem step_frame_after_event (own : String) (role : Bool) (me : String) (moves : List Move) (c : Call)
    (hc : c ∈ ((Admin.new me).run ⟨some own, role⟩ moves).calls) (disposition : Disposition) (received : List BuildReply)
    (r : RunReader) (hstage : c.stage = .live disposition received r) (f : BuildReply) (hf : f ∈ received)
    (hstep : f.isStep = true) : ∃ e ∈ ((Admin.new me).run ⟨some own, role⟩ moves).events, f = e.frame := by
  have hrun : ∀ s m, Sound s ∧ Durable ⟨some own, role⟩ s →
      Sound (s.step ⟨some own, role⟩ m) ∧ Durable ⟨some own, role⟩ (s.step ⟨some own, role⟩ m) := by
    intro s m ⟨hs, h⟩
    have hdoes := step_does ⟨some own, role⟩ s m
    exact ⟨hs.step m, h.logged hdoes, h.backed hs hdoes⟩
  have hnew : Durable ⟨some own, role⟩ (Admin.new me) := ⟨List.forall_mem_nil _, List.forall_mem_nil _⟩
  obtain ⟨hsound, hdurable⟩ := invariant_run hrun ⟨sound_new me, hnew⟩ moves
  obtain ⟨log, hlog, -, hfollows, -⟩ := hsound.follows hc hstage
  have hmem := List.mem_of_getElem? hlog
  have hframed : f ∈ log.state.steps :=
    (hfollows.told (hsound.logs log hmem)).order.subset (List.mem_filter.mpr ⟨hf, hstep⟩)
  exact hdurable.logs log hmem f hframed

theorem step_frame_after_event_replayed :
    ∃ e ∈ ((Admin.new "n0").run ⟨some "mesh1", false⟩ (startMoves ++ stepMoves ++ attachMoves)).events, placedFrame = e.frame :=
  step_frame_after_event "mesh1" false "n0" (startMoves ++ stepMoves ++ attachMoves)
    ⟨"build1", "mesh1", false, .live .reattached [placedFrame] (.new 0 1)⟩ (List.mem_of_getElem? (i := 1) rfl) .reattached
    [placedFrame] (.new 0 1) rfl placedFrame (List.mem_singleton.mpr rfl) rfl

end DistributedMesh.SectionRuns
