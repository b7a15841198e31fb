import DistributedMesh.SectionRunMoves

namespace DistributedMesh.SectionRuns

open GuardedRuns
open DriveReads (Stage)

/-- The frames are of the first events of the log: their steps, and what they tell the run waits for while it has not
ended. -/
structure Reads (log : RunLog) (frames : List BuildReply) (n : Nat) : Prop where
  steps : stepsOf frames = stepsOf (log.state.events.take n)
  waits : log.state.terminal = none → waitsFor frames = waitsFor (log.state.events.take n)
  kinds : ∀ f ∈ frames, f.isStep = true ∨ f.isPending = true

/-- What a call received of the log, with its reader where it is. -/
structure Follows (log : RunLog) (received : List BuildReply) (r : RunReader) : Prop where
  bound : r.cursor ≤ log.state.events.length
  reads : r.done = false → Reads log received r.cursor
  ended : r.done = true → ∃ frames t, received = frames ++ [t] ∧ log.state.terminal = some t ∧ Reads log frames r.cursor
  idle : r.done = true → r.stage = .idle

/-- A reader that waits unnotified has all there is, or one of the log's writers is yet to notify it. -/
def Awake (log : RunLog) (r : RunReader) : Prop :=
  r.stage = .waiting false → (r.cursor = log.state.events.length ∧ log.state.terminal = none) ∨ 0 < log.notifying

/-- The log is of the section. -/
def RunLog.key (log : RunLog) : String × String := (log.buildId, log.mesh)

/-- The call's part in the run it came to. -/
def Joined (s : Admin) (c : Call) : Prop :=
  match c.stage with
  | .attaches l | .marks l | .spawns l | .closes l => ∃ log : RunLog, s.logs[l]? = some log ∧ log.key = c.key
  | .live _ received r => ∃ log : RunLog, s.logs[r.log]? = some log ∧ log.key = c.key ∧ Follows log received r ∧ Awake log r
  | .asks | .plans | .begins | .ended _ _ | .refused _ | .cut => True

structure Sound (s : Admin) : Prop where
  logs : ∀ log ∈ s.logs, Kept log
  runs : ∀ k l, s.runs[k]? = some l → ∃ log : RunLog, s.logs[l]? = some log ∧ log.key = k
  calls : ∀ c ∈ s.calls, Joined s c

variable {log log' : RunLog} {frames received : List BuildReply} {r : RunReader} {n : Nat}

/-- A log as a later one still has it. -/
structure Grown (log log' : RunLog) : Prop where
  events : log.state.events <+: log'.state.events
  terminal : ∀ t, log.state.terminal = some t → log'.state.terminal = some t
  key : log'.key = log.key

theorem Grown.refl (log : RunLog) : Grown log log := ⟨List.prefix_rfl, fun _ h => h, rfl⟩

theorem Moved.grown (h : Moved log log') : Grown log log' :=
  ⟨h.events, fun _ ht => h.terminal ht, by rw [RunLog.key, RunLog.key, h.section.1, h.section.2]⟩

theorem Grown.open (h : Grown log log') (ht : log'.state.terminal = none) : log.state.terminal = none := by
  cases hterminal : log.state.terminal with
  | none => rfl
  | some t =>
    rw [h.terminal t hterminal] at ht
    cases ht

theorem Grown.take (h : Grown log log') (hn : n ≤ log.state.events.length) :
    log'.state.events.take n = log.state.events.take n := by
  obtain ⟨more, hmore⟩ := h.events
  rw [← hmore, List.take_append_of_le_length hn]

theorem Reads.grown (h : Reads log frames n) (hg : Grown log log') (hn : n ≤ log.state.events.length) :
    Reads log' frames n := by
  refine ⟨?_, ?_, h.kinds⟩
  · rw [hg.take hn]
    exact h.steps
  · intro hopen
    rw [hg.take hn]
    exact h.waits (hg.open hopen)

theorem Follows.grown (h : Follows log received r) (hg : Grown log log') : Follows log' received r := by
  refine ⟨h.bound.trans hg.events.length_le, ?_, ?_, h.idle⟩
  · intro hopen
    exact (h.reads hopen).grown hg h.bound
  · intro hdone
    obtain ⟨frames, t, hreceived, ht, hreads⟩ := h.ended hdone
    exact ⟨frames, t, hreceived, hg.terminal t ht, hreads.grown hg h.bound⟩

theorem Awake.moved (h : Awake log r) (hm : Moved log log') : Awake log' r := by
  intro hstage
  obtain ⟨hle, ⟨hevents, hterminal⟩ | hdue⟩ := hm.notifying
  · rw [hevents, hterminal]
    exact (h hstage).imp_right fun hpos => Nat.lt_of_lt_of_le hpos hle
  · exact .inr hdue

theorem Reads.next (h : Reads log frames n) (hk : Kept log) {f : BuildReply} (hf : log.state.events[n]? = some f) :
    Reads log (frames ++ [f]) (n + 1) := by
  have htake : log.state.events.take (n + 1) = log.state.events.take n ++ [f] := by
    rw [List.take_add_one, hf]
    rfl
  refine ⟨?_, ?_, ?_⟩
  · rw [htake, stepsOf_append, stepsOf_append, h.steps]
  · intro hopen
    rw [htake, waitsFor_concat, waitsFor_concat, h.waits hopen]
  · intro g hg
    rcases List.mem_append.mp hg with hg | hg
    · exact h.kinds g hg
    · rw [List.mem_singleton.mp hg]
      exact hk.frames f (List.mem_of_getElem? hf)

theorem Kept.isStep (hk : Kept log) {f : BuildReply} (hf : f ∈ log.state.steps) : f.isStep = true := by
  rw [hk.steps] at hf
  exact (List.mem_filter.mp hf).2

/-- A call that attaches is replayed the run so far. -/
theorem Reads.replay (hk : Kept log) : Reads log log.replay log.state.events.length := by
  have hsteps : stepsOf log.state.steps = log.state.steps := List.filter_eq_self.mpr fun f hf => hk.isStep hf
  have hnone : waitsFor log.state.steps = none := waitsFor_of_steps fun f hf => hk.isStep hf
  cases hpending : log.state.pending with
  | none =>
    have hreplay : log.replay = log.state.steps := by
      rw [RunLog.replay, hpending]
      exact List.append_nil _
    rw [hreplay]
    refine ⟨?_, ?_, fun f hf => .inl (hk.isStep hf)⟩
    · rw [List.take_length, hsteps, hk.steps]
    · intro hopen
      rw [List.take_length, hnone, hk.waits hopen, hpending]
      rfl
  | some p =>
    have hreplay : log.replay = log.state.steps ++ [log.blocked p] := by
      rw [RunLog.replay, hpending]
      rfl
    rw [hreplay]
    refine ⟨?_, ?_, ?_⟩
    · rw [List.take_length, stepsOf_append, hsteps, hk.steps]
      exact List.append_nil _
    · intro hopen
      rw [List.take_length, waitsFor_concat, hk.waits hopen, hpending]
      rfl
    · intro f hf
      rcases List.mem_append.mp hf with hf | hf
      · exact .inl (hk.isStep hf)
      · rw [List.mem_singleton.mp hf]
        exact .inr rfl

/-- What a reader's turn does: it reads the event it is at, reads the end past the last, or only its `next` moves on. -/
theorem next_cases (r : RunReader) (s : RunState) :
    (∃ f, s.events[r.cursor]? = some f ∧ r.stage ≠ .idle ∧
      r.next s = ({ r with cursor := r.cursor + 1, stage := .idle }, some f)) ∨
    (∃ t, s.events[r.cursor]? = none ∧ s.terminal = some t ∧ r.stage ≠ .idle ∧
      r.next s = ({ r with done := true, stage := .idle }, some t)) ∨
    ∃ stage, r.next s = ({ r with stage := stage }, none) ∧ (r.done = true → r.stage = .idle → stage = .idle) ∧
      (stage = .waiting false → r.stage = .waiting false ∨ s.events[r.cursor]? = none ∧ s.terminal = none) := by
  rw [RunReader.next.eq_def]
  cases hstage : r.stage with
  | idle =>
    cases hdone : r.done with
    | true => exact .inr (.inr ⟨.idle, by simp [← hstage, ← hdone], fun _ _ => rfl, nofun⟩)
    | false => exact .inr (.inr ⟨.enabled false, by simp, nofun, nofun⟩)
  | enabled notified =>
    dsimp only
    cases hevent : s.events[r.cursor]? with
    | some f => exact .inl ⟨f, rfl, nofun, rfl⟩
    | none =>
      cases hterminal : s.terminal with
      | some t => exact .inr (.inl ⟨t, rfl, rfl, nofun, rfl⟩)
      | none => exact .inr (.inr ⟨.waiting notified, rfl, fun _ => nofun, fun _ => .inr ⟨rfl, rfl⟩⟩)
  | waiting notified =>
    cases notified with
    | true => exact .inr (.inr ⟨.enabled false, by simp, fun _ => nofun, nofun⟩)
    | false => exact .inr (.inr ⟨.waiting false, by simp [← hstage], fun _ => nofun, fun _ => .inl rfl⟩)

/-- A reader's turn goes on with the log. -/
theorem Follows.next (h : Follows log received r) (hk : Kept log) :
    Follows log (received ++ (r.next log.state).2.toList) (r.next log.state).1 := by
  have hopen : r.stage ≠ .idle → r.done = false := by
    intro hstage
    cases hdone : r.done with
    | false => rfl
    | true => exact absurd (h.idle hdone) hstage
  obtain ⟨f, hf, hstage, hnext⟩ | ⟨t, hend, ht, hstage, hnext⟩ | ⟨stage, hnext, hidle, -⟩ := next_cases r log.state <;>
    rw [hnext]
  · have hreads := (h.reads (hopen hstage)).next hk hf
    refine ⟨(List.getElem?_eq_some_iff.mp hf).1, fun _ => hreads, ?_, fun _ => rfl⟩
    intro hdone
    rw [hopen hstage] at hdone
    cases hdone
  · refine ⟨h.bound, nofun, ?_, fun _ => rfl⟩
    intro _
    exact ⟨received, t, rfl, ht, h.reads (hopen hstage)⟩
  · rw [Option.toList_none, List.append_nil]
    exact ⟨h.bound, h.reads, h.ended, fun hdone => hidle hdone (h.idle hdone)⟩

theorem Awake.next (h : Awake log r) (hbound : r.cursor ≤ log.state.events.length) : Awake log (r.next log.state).1 := by
  obtain ⟨f, hf, hstage, hnext⟩ | ⟨t, hend, ht, hstage, hnext⟩ | ⟨stage, hnext, hidle, hwaits⟩ := next_cases r log.state <;>
    rw [hnext] <;> intro hwaiting
  · cases hwaiting
  · cases hwaiting
  · rcases hwaits hwaiting with hwas | ⟨hnone, hterminal⟩
    · exact h hwas
    · have hle := List.getElem?_eq_none_iff.mp hnone
      exact .inl ⟨Nat.le_antisymm hbound hle, hterminal⟩

theorem Follows.notified (h : Follows log received r) : Follows log received r.notified := by
  refine ⟨h.bound, h.reads, h.ended, ?_⟩
  intro hdone
  show r.stage.notified = .idle
  rw [h.idle hdone]
  rfl

theorem notified_awake (log : RunLog) (r : RunReader) : Awake log r.notified := by
  intro hstage
  have hne : r.stage.notified ≠ .waiting false := by
    cases r.stage <;> nofun
  exact absurd hstage hne

variable {b : FramedBuilds} {s s' : Admin} {i l : Nat} {c : Call}

/-- What a move does to the logs: a writer moves one on, one is opened, or a writer of one notifies its readers. -/
theorem Does.logs (h : Does b s s') :
    (∃ l f, s'.logs = s.logs.modify l f ∧ ∀ log, Moved log (f log)) ∨
    (∃ buildId mesh, s'.logs = s.logs ++ [RunLog.new buildId mesh]) ∨
    ∃ l, s'.logs = s.logs.modify l (fun log => { log with notifying := log.notifying - 1 }) ∧
      s'.calls = s.calls.map (Admin.heard l) := by
  have hsame : s'.logs = s.logs → ∃ l f, s'.logs = s.logs.modify l f ∧ ∀ log, Moved log (f log) :=
    fun h => ⟨0, id, by rw [h, List.modify_id], fun _ => .same⟩
  cases h with
  | nothing | asks | goes | spawns | closes | task | ends | stop | writes | write | appends => exact .inl (hsame rfl)
  | begins i c => exact .inr (.inl ⟨c.buildId, c.mesh, rfl⟩)
  | marks i c l => exact .inl ⟨l, _, rfl, fun _ => .marked _⟩
  | finishes i t e failed =>
    refine .inl ⟨t.log, _, rfl, fun log => ?_⟩
    cases e <;> exact .finished _ rfl rfl
  | steps i w l =>
    refine .inl ⟨l, _, rfl, fun log => ?_⟩
    cases hframed : log.framed w.operation w.step (resultOf w.outcome) with
    | true =>
      rw [RunLog.step, if_pos hframed]
      exact .same
    | false => exact .stepped _ _ _ hframed
  | pends i l logs operation step reason =>
    refine .inl ⟨l, _, rfl, fun log => ?_⟩
    by_cases hpending : log.state.pending = some ⟨operation, step, reason⟩
    · rw [RunLog.pending, if_pos hpending]
      exact .same
    · exact .pended _ _ _ hpending
  | notifies l log => exact .inr (.inr ⟨l, rfl, rfl⟩)

theorem getElem?_modified {f : RunLog → RunLog} (hlog : s.logs[i]? = some log) :
    (s.logs.modify l f)[i]? = some (if l = i then f log else log) := by
  rw [List.getElem?_modify, hlog]
  rfl

/-- Every log is still there, grown. -/
theorem Does.grown (h : Does b s s') (hlog : s.logs[l]? = some log) : ∃ log', s'.logs[l]? = some log' ∧ Grown log log' := by
  obtain ⟨m, f, hlogs, hmoved⟩ | ⟨buildId, mesh, hlogs⟩ | ⟨m, hlogs, -⟩ := h.logs <;> rw [hlogs]
  · refine ⟨_, getElem?_modified hlog, ?_⟩
    split
    · exact (hmoved log).grown
    · exact .refl log
  · refine ⟨log, ?_, .refl log⟩
    rw [List.getElem?_append_left (List.getElem?_eq_some_iff.mp hlog).1]
    exact hlog
  · refine ⟨_, getElem?_modified hlog, ?_⟩
    split
    · exact ⟨List.prefix_rfl, fun _ h => h, rfl⟩
    · exact .refl log

theorem Sound.kept (h : Sound s) (hdoes : Does b s s') : ∀ log ∈ s'.logs, Kept log := by
  obtain ⟨m, f, hlogs, hmoved⟩ | ⟨buildId, mesh, hlogs⟩ | ⟨m, hlogs, -⟩ := hdoes.logs <;> rw [hlogs] <;> intro log hmem
  · obtain ⟨j, hj⟩ := List.mem_iff_getElem?.mp hmem
    rw [List.getElem?_modify] at hj
    obtain ⟨old, hold, rfl⟩ := Option.map_eq_some_iff.mp hj
    have hkept := h.logs old (List.mem_of_getElem? hold)
    split
    · exact hkept.moved (hmoved old)
    · exact hkept
  · rcases List.mem_append.mp hmem with hmem | hmem
    · exact h.logs log hmem
    · rw [List.mem_singleton.mp hmem]
      exact kept_new buildId mesh
  · obtain ⟨j, hj⟩ := List.mem_iff_getElem?.mp hmem
    rw [List.getElem?_modify] at hj
    obtain ⟨old, hold, rfl⟩ := Option.map_eq_some_iff.mp hj
    have hkept := h.logs old (List.mem_of_getElem? hold)
    split
    · exact ⟨hkept.frames, hkept.steps, hkept.once, hkept.waits, hkept.ended⟩
    · exact hkept

/-- A call that stays where it is keeps its part in its run. -/
theorem Joined.stays (h : Joined s c)
    (hlogs : ∀ (l : Nat) log, s.logs[l]? = some log → ∃ log', s'.logs[l]? = some log' ∧ Grown log log' ∧ ∀ r, Awake log r → Awake log' r) :
    Joined s' c := by
  have hkeeps : ∀ l : Nat, (∃ log : RunLog, s.logs[l]? = some log ∧ log.key = c.key) →
      ∃ log : RunLog, s'.logs[l]? = some log ∧ log.key = c.key := by
    rintro l ⟨log, hlog, hkey⟩
    obtain ⟨log', hlog', hgrown, -⟩ := hlogs l log hlog
    exact ⟨log', hlog', hgrown.key.trans hkey⟩
  unfold Joined at h ⊢
  cases hstage : c.stage with
  | attaches l | marks l | spawns l | closes l =>
    rw [hstage] at h
    exact hkeeps l h
  | live disposition received r =>
    rw [hstage] at h
    obtain ⟨log, hlog, hkey, hfollows, hawake⟩ := h
    obtain ⟨log', hlog', hgrown, hawakes⟩ := hlogs _ log hlog
    exact ⟨log', hlog', hgrown.key.trans hkey, hfollows.grown hgrown, hawakes r hawake⟩
  | asks | plans | begins | ended | refused | cut => trivial

/-- A call that hears a wake keeps its part in its run, whose writer notified it. -/
theorem Joined.heard (h : Joined s c)
    (hlogs : s'.logs = s.logs.modify l (fun log => { log with notifying := log.notifying - 1 })) :
    Joined s' (Admin.heard l c) := by
  have hkeeps : ∀ m : Nat, (∃ log : RunLog, s.logs[m]? = some log ∧ log.key = c.key) →
      ∃ log : RunLog, s'.logs[m]? = some log ∧ log.key = c.key := by
    rintro m ⟨log, hlog, hkey⟩
    rw [hlogs]
    refine ⟨_, getElem?_modified hlog, ?_⟩
    split <;> exact hkey
  unfold Joined at h
  unfold Admin.heard
  cases hstage : c.stage with
  | attaches m | marks m | spawns m | closes m =>
    rw [hstage] at h
    simp only [Joined, hstage]
    exact hkeeps m h
  | live disposition received r =>
    rw [hstage] at h
    obtain ⟨log, hlog, hkey, hfollows, hawake⟩ := h
    dsimp only
    by_cases hl : r.log = l
    · rw [if_pos hl]
      have hgrown : Grown log { log with notifying := log.notifying - 1 } := ⟨List.prefix_rfl, fun _ h => h, rfl⟩
      refine ⟨{ log with notifying := log.notifying - 1 }, ?_, hkey, hfollows.notified.grown hgrown, notified_awake _ r⟩
      rw [hlogs]
      exact (getElem?_modified hlog).trans (by rw [if_pos hl.symm])
    · rw [if_neg hl]
      simp only [Joined, hstage]
      refine ⟨log, ?_, hkey, hfollows, hawake⟩
      rw [hlogs]
      exact (getElem?_modified hlog).trans (by rw [if_neg (Ne.symm hl)])
  | asks | plans | begins | ended | refused | cut =>
    simp only [Joined, hstage]

/-- Every log keeps its readers awake, unless one of its writers notifies them. -/
theorem Does.stays (h : Does b s s') :
    (∀ (l : Nat) log, s.logs[l]? = some log → ∃ log', s'.logs[l]? = some log' ∧ Grown log log' ∧
      ∀ r, Awake log r → Awake log' r) ∨
    ∃ l, s'.logs = s.logs.modify l (fun log => { log with notifying := log.notifying - 1 }) ∧
      s'.calls = s.calls.map (Admin.heard l) := by
  obtain ⟨m, f, hlogs, hmoved⟩ | ⟨buildId, mesh, hlogs⟩ | hnotified := h.logs
  · refine .inl fun l log hlog => ?_
    rw [hlogs]
    refine ⟨_, getElem?_modified hlog, ?_⟩
    split
    · exact ⟨(hmoved log).grown, fun r hawake => hawake.moved (hmoved log)⟩
    · exact ⟨.refl log, fun r hawake => hawake⟩
  · refine .inl fun l log hlog => ?_
    rw [hlogs]
    refine ⟨log, ?_, .refl log, fun r hawake => hawake⟩
    rw [List.getElem?_append_left (List.getElem?_eq_some_iff.mp hlog).1]
    exact hlog
  · exact .inr hnotified

theorem Sound.registered (h : Sound s) (hdoes : Does b s s') :
    ∀ k l, s'.runs[k]? = some l → ∃ log : RunLog, s'.logs[l]? = some log ∧ log.key = k := by
  have hkeeps : ∀ k l, s.runs[k]? = some l → ∃ log : RunLog, s'.logs[l]? = some log ∧ log.key = k := by
    intro k l hrun
    obtain ⟨log, hlog, hkey⟩ := h.runs k l hrun
    obtain ⟨log', hlog', hgrown⟩ := hdoes.grown hlog
    exact ⟨log', hlog', hgrown.key.trans hkey⟩
  cases hdoes with
  | nothing | asks | goes | marks | spawns | task | finishes | stop | writes | write | appends | steps | pends | notifies =>
    exact hkeeps
  | begins i c hi hfree =>
    intro k l hrun
    replace hrun : (s.runs.insert c.key s.logs.length)[k]? = some l := hrun
    rw [KeyedMaps.getElem?_insert_eq] at hrun
    split at hrun
    next hkey =>
      cases hrun
      exact ⟨.new c.buildId c.mesh, List.getElem?_concat_length, hkey⟩
    next => exact hkeeps k l hrun
  | closes i c l hi hstage =>
    intro k l hrun
    replace hrun : (s.runs.erase c.key)[k]? = some l := hrun
    rw [KeyedMaps.getElem?_erase_eq] at hrun
    split at hrun
    · cases hrun
    · exact hkeeps k l hrun
  | ends i t e hi hstage =>
    intro k l hrun
    replace hrun : (s.runs.erase t.key)[k]? = some l := hrun
    rw [KeyedMaps.getElem?_erase_eq] at hrun
    split at hrun
    · cases hrun
    · exact hkeeps k l hrun

/-- A call that goes somewhere with nothing else changed has its part in its run there. -/
theorem CallGoes.joined (h : Sound s) (hc : Joined s c) {stage : CallStage} (hgoes : CallGoes s c stage) :
    Joined s { c with stage := stage } := by
  cases hgoes with
  | found l hrun => exact h.runs c.key l hrun
  | quiet _ hquiet =>
    cases stage with
    | asks | plans | begins | ended | refused | cut => trivial
    | attaches | marks | spawns | closes | live => cases hquiet
  | attached l log hstage hlog =>
    rw [Joined, hstage] at hc
    obtain ⟨held, hheld, hkey⟩ := hc
    rw [hlog] at hheld
    cases hheld
    have hreads : Reads log log.replay log.state.events.length := .replay (h.logs log (List.mem_of_getElem? hlog))
    exact ⟨log, hlog, hkey, ⟨Nat.le_refl _, fun _ => hreads, nofun, nofun⟩, nofun⟩
  | refused l hstage =>
    rw [Joined, hstage] at hc
    exact hc
  | read disposition received reader log hstage hlog =>
    rw [Joined, hstage] at hc
    obtain ⟨held, hheld, hkey, hfollows, hawake⟩ := hc
    rw [hlog] at hheld
    cases hheld
    have hkept := h.logs log (List.mem_of_getElem? hlog)
    have hread : (reader.next log.state).1.log = reader.log := by
      obtain ⟨f, -, -, hnext⟩ | ⟨t, -, -, -, hnext⟩ | ⟨stage, hnext, -⟩ := next_cases reader log.state <;> rw [hnext]
    refine ⟨log, ?_, hkey, hfollows.next hkept, hawake.next hfollows.bound⟩
    rw [hread]
    exact hlog

theorem Sound.joined (h : Sound s) (hdoes : Does b s s') : ∀ c ∈ s'.calls, Joined s' c := by
  obtain hlogs | ⟨l, hlogs, hcalls⟩ := hdoes.stays
  · have hstays : ∀ c ∈ s.calls, Joined s' c := fun c hc => (h.calls c hc).stays hlogs
    cases hdoes with
    | nothing | task | ends | finishes | stop | writes | write | appends | steps | pends => exact hstays
    | asks c hstage =>
      intro a ha
      rcases List.mem_append.mp ha with ha | ha
      · exact hstays a ha
      · rw [List.mem_singleton.mp ha, Joined, hstage]
        trivial
    | goes i c stage hi hgoes =>
      exact forall_mem_set hstays (hgoes.joined h (h.calls c (List.mem_of_getElem? hi)))
    | begins i c hi hfree => exact forall_mem_set hstays ⟨.new c.buildId c.mesh, List.getElem?_concat_length, rfl⟩
    | marks i c l hi hstage =>
      have hc := hstays c (List.mem_of_getElem? hi)
      rw [Joined, hstage] at hc
      exact forall_mem_set hstays hc
    | spawns i c l hi hstage hopen =>
      have hc := h.calls c (List.mem_of_getElem? hi)
      rw [Joined, hstage] at hc
      obtain ⟨log, hlog, hkey⟩ := hc
      have hreads : Reads log [] 0 := ⟨rfl, fun _ => rfl, nofun⟩
      exact forall_mem_set hstays ⟨log, hlog, hkey, ⟨Nat.zero_le _, fun _ => hreads, nofun, nofun⟩, nofun⟩
    | closes i c l hi hstage => exact forall_mem_set hstays trivial
    | notifies l log hlog hdue =>
      intro c hc
      obtain ⟨a, ha, rfl⟩ := List.mem_map.mp hc
      exact (h.calls a ha).heard rfl
  · intro c hc
    rw [hcalls] at hc
    obtain ⟨a, ha, rfl⟩ := List.mem_map.mp hc
    exact (h.calls a ha).heard hlogs

theorem Sound.step (h : Sound s) (m : Move) : Sound (s.step b m) :=
  have hdoes := step_does b s m
  ⟨h.kept hdoes, h.registered hdoes, h.joined hdoes⟩

theorem sound_new (me : String) : Sound (.new me) :=
  ⟨List.forall_mem_nil _, fun k l hrun => by simp [Admin.new] at hrun, List.forall_mem_nil _⟩

theorem Sound.run (h : Sound s) (moves : List Move) : Sound (s.run b moves) :=
  invariant_run (fun _ m hs => hs.step m) h moves

/-- What a call that came to a run was told of it: its steps in their order, each once, all of them and what it waits
for once the call is up to date, and at last its end. -/
structure Told (log : RunLog) (received : List BuildReply) (r : RunReader) : Prop where
  order : stepsOf received <+: log.state.steps
  once : (stepsOf received).Nodup
  current : r.done = false → r.cursor = log.state.events.length →
    stepsOf received = log.state.steps ∧
      (log.state.terminal = none → waitsFor received = log.state.pending.map Blocker.bounded)
  unended : r.done = false → ∀ f ∈ received, f.isStep = true ∨ f.isPending = true
  ended : r.done = true → ∃ (frames : List BuildReply) (t : BuildReply), received = frames ++ [t] ∧ log.state.terminal = some t ∧
    ∀ f ∈ frames, f.isStep = true ∨ f.isPending = true

/-- The end of a run is none of its steps. -/
theorem Kept.stepsOf_ended (hk : Kept log) {t : BuildReply} (ht : log.state.terminal = some t) (frames : List BuildReply) :
    stepsOf (frames ++ [t]) = stepsOf frames := by
  have hnil : stepsOf [t] = [] := by
    rw [stepsOf, List.filter_cons_of_neg (by rw [(hk.ended t ht).1]; exact Bool.false_ne_true), List.filter_nil]
  rw [stepsOf_append, hnil, List.append_nil]

theorem Follows.stepsOf_eq (h : Follows log received r) (hk : Kept log) :
    stepsOf received = stepsOf (log.state.events.take r.cursor) := by
  cases hdone : r.done with
  | false => exact (h.reads hdone).steps
  | true =>
    obtain ⟨frames, t, rfl, ht, hreads⟩ := h.ended hdone
    rw [hk.stepsOf_ended ht, hreads.steps]

theorem Follows.told (h : Follows log received r) (hk : Kept log) : Told log received r := by
  have horder : stepsOf received <+: log.state.steps := by
    rw [h.stepsOf_eq hk, hk.steps]
    exact (List.take_prefix _ _).filter _
  refine ⟨horder, hk.once.sublist horder.sublist, ?_, fun hopen => (h.reads hopen).kinds, ?_⟩
  · intro hopen hcursor
    have hreads := h.reads hopen
    rw [hcursor] at hreads
    refine ⟨?_, fun hterminal => ?_⟩
    · rw [hreads.steps, List.take_length, hk.steps]
    · rw [hreads.waits hterminal, List.take_length, hk.waits hterminal]
  · intro hdone
    obtain ⟨frames, t, hreceived, ht, hreads⟩ := h.ended hdone
    exact ⟨frames, t, hreceived, ht, hreads.kinds⟩

theorem Sound.follows (h : Sound s) (hc : c ∈ s.calls) {disposition : Disposition}
    (hstage : c.stage = .live disposition received r) :
    ∃ log : RunLog, s.logs[r.log]? = some log ∧ log.key = c.key ∧ Follows log received r ∧ Awake log r := by
  have hjoined := h.calls c hc
  rw [Joined, hstage] at hjoined
  exact hjoined

/-- In every run of an admin, a call that came to a section's run, whenever it did, was told of that run. -/
theorem attached_call_follows_run (b : FramedBuilds) (me : String) (moves : List Move) (c : Call)
    (hc : c ∈ ((Admin.new me).run b moves).calls) (disposition : Disposition) (received : List BuildReply) (r : RunReader)
    (hstage : c.stage = .live disposition received r) :
    ∃ log : RunLog, ((Admin.new me).run b moves).logs[r.log]? = some log ∧ log.key = c.key ∧ Told log received r := by
  have hsound : Sound ((Admin.new me).run b moves) := (sound_new me).run moves
  obtain ⟨log, hlog, hkey, hfollows, -⟩ := hsound.follows hc hstage
  exact ⟨log, hlog, hkey, hfollows.told (hsound.logs log (List.mem_of_getElem? hlog))⟩

/-- A mesh's section of a Build is asked for and its run starts. -/
def startMoves : List Move := .sectionRun "build1" "mesh1" :: List.replicate 5 (.call 0 .operations)

/-- The run writes a step. -/
def stepMoves : List Move :=
  .writeStep ⟨"build1", none, "node.create:n1", "Placed", .complete⟩ :: List.replicate 4 (.write 0 true)

/-- The section is asked for once more, and the call comes to the run. -/
def attachMoves : List Move := .sectionRun "build1" "mesh1" :: List.replicate 2 (.call 1 .operations)

def placedFrame : BuildReply := .step "build1" "mesh1" "node.create:n1" "Placed" .complete

theorem attached_call_follows_run_late :
    ∃ log : RunLog, ((Admin.new "n0").run ⟨some "mesh1", false⟩ (startMoves ++ stepMoves ++ attachMoves)).logs[0]? = some log ∧
      log.key = ("build1", "mesh1") ∧ Told log [placedFrame] (.new 0 1) :=
  attached_call_follows_run ⟨some "mesh1", false⟩ "n0" (startMoves ++ stepMoves ++ attachMoves)
    ⟨"build1", "mesh1", false, .live .reattached [placedFrame] (.new 0 1)⟩ (List.mem_of_getElem? (i := 1) rfl) .reattached
    [placedFrame] (.new 0 1) rfl

/-- The steps the log has, and those every call that read the log's end was told, have these first. -/
def Shows (l : Nat) (steps : List BuildReply) (s : Admin) : Prop :=
  (∃ log : RunLog, s.logs[l]? = some log ∧ steps <+: log.state.steps) ∧
  ∀ c ∈ s.calls, ∀ disposition received r, c.stage = .live disposition received r → r.log = l → r.done = true →
    steps <+: stepsOf received

theorem shows_of_open (h : Sound s) (hlog : s.logs[l]? = some log) (hopen : log.state.terminal = none) :
    Shows l log.state.steps s := by
  refine ⟨⟨log, hlog, List.prefix_rfl⟩, ?_⟩
  intro c hc disposition received r hstage hl hdone
  obtain ⟨held, hheld, -, hfollows, -⟩ := h.follows hc hstage
  rw [hl, hlog] at hheld
  cases hheld
  obtain ⟨frames, t, -, ht, -⟩ := hfollows.ended hdone
  rw [hopen] at ht
  cases ht

/-- A call that just read the end of its log was told all its steps. -/
theorem Follows.stepsOf_end (h : Follows log received r) (hk : Kept log) (hopen : r.done = false)
    (hdone : (r.next log.state).1.done = true) :
    stepsOf (received ++ (r.next log.state).2.toList) = log.state.steps := by
  obtain ⟨f, -, -, hnext⟩ | ⟨t, hend, ht, -, hnext⟩ | ⟨stage, hnext, -⟩ := next_cases r log.state <;> rw [hnext] at hdone ⊢
  · rw [hopen] at hdone
    cases hdone
  · have hcursor : log.state.events.take r.cursor = log.state.events :=
      List.take_of_length_le (List.getElem?_eq_none_iff.mp hend)
    rw [Option.toList_some, hk.stepsOf_ended ht, h.stepsOf_eq hk, hcursor, hk.steps]
  · rw [hopen] at hdone
    cases hdone

theorem Follows.next_done (h : Follows log received r) (hdone : r.done = true) :
    received ++ (r.next log.state).2.toList = received := by
  have hnext : r.next log.state = (r, none) := by
    rw [RunReader.next, h.idle hdone, hdone]
    rfl
  rw [hnext]
  exact List.append_nil _

variable {steps : List BuildReply}

/-- A turn of a call shows it what its log has. -/
theorem CallGoes.shows (h : Sound s) (hshows : Shows l steps s) (hc : c ∈ s.calls) {stage : CallStage}
    (hgoes : CallGoes s c stage) {disposition : Disposition} (hstage : stage = .live disposition received r)
    (hl : r.log = l) (hdone : r.done = true) : steps <+: stepsOf received := by
  cases hgoes with
  | found | refused => cases hstage
  | quiet _ hquiet =>
    rw [hstage] at hquiet
    cases hquiet
  | attached m log hattaches hlog =>
    cases hstage
    cases hdone
  | read disposition' received' reader log hwas hlog =>
    cases hstage
    obtain ⟨held, hheld, -, hfollows, -⟩ := h.follows hc hwas
    rw [hlog] at hheld
    cases hheld
    have hkept := h.logs log (List.mem_of_getElem? hlog)
    have hreader : (reader.next log.state).1.log = reader.log := by
      obtain ⟨f, -, -, hnext⟩ | ⟨t, -, -, -, hnext⟩ | ⟨stage, hnext, -⟩ := next_cases reader log.state <;> rw [hnext]
    rw [hreader] at hl
    cases hopen : reader.done with
    | true =>
      rw [hfollows.next_done hopen]
      exact hshows.2 c hc _ _ _ hwas hl hopen
    | false =>
      rw [hfollows.stepsOf_end hkept hopen hdone]
      obtain ⟨shown, hshown, hsteps⟩ := hshows.1
      rw [← hl, hlog] at hshown
      cases hshown
      exact hsteps

theorem Shows.does (h : Sound s) (hshows : Shows l steps s) (hdoes : Does b s s') : Shows l steps s' := by
  refine ⟨?_, ?_⟩
  · obtain ⟨log, hlog, hsteps⟩ := hshows.1
    obtain ⟨log', hlog', hgrown⟩ := hdoes.grown hlog
    refine ⟨log', hlog', hsteps.trans ?_⟩
    rw [(h.logs log (List.mem_of_getElem? hlog)).steps, (h.kept hdoes log' (List.mem_of_getElem? hlog')).steps]
    exact hgrown.events.filter _
  · have hset : ∀ (i : Nat) (c : Call) (stage : CallStage), (∀ disposition received r,
        stage = .live disposition received r → r.log = l → r.done = true → steps <+: stepsOf received) →
        ∀ a ∈ s.calls.set i { c with stage := stage }, ∀ disposition received r,
          a.stage = .live disposition received r → r.log = l → r.done = true → steps <+: stepsOf received :=
      fun i c stage hnew => forall_mem_set hshows.2 hnew
    cases hdoes with
    | nothing | task | ends | finishes | stop | writes | write | appends | steps | pends => exact hshows.2
    | asks c hstage =>
      intro a ha disposition received r hlive
      rcases List.mem_append.mp ha with ha | ha
      · exact hshows.2 a ha disposition received r hlive
      · rw [List.mem_singleton.mp ha, hstage] at hlive
        cases hlive
    | goes i c stage hi hgoes =>
      exact hset i c stage fun _ _ _ hstage hl hdone => hgoes.shows h hshows (List.mem_of_getElem? hi) hstage hl hdone
    | begins i c => exact hset i c _ nofun
    | marks i c m => exact hset i c _ nofun
    | spawns i c m =>
      refine hset i c _ ?_
      intro disposition received r hlive hl hdone
      cases hlive
      cases hdone
    | closes i c m => exact hset i c _ nofun
    | notifies m log hlog hdue =>
      intro a ha disposition received r hlive hl hdone
      obtain ⟨c, hc, rfl⟩ := List.mem_map.mp ha
      obtain ⟨reader, hwas, hreader⟩ : ∃ reader, c.stage = .live disposition received reader ∧
          (r = reader ∨ r = reader.notified) := by
        unfold Admin.heard at hlive
        cases hstage : c.stage with
        | live d got reader =>
          rw [hstage] at hlive
          dsimp only at hlive
          split at hlive
          · cases hlive
            exact ⟨reader, rfl, .inr rfl⟩
          · rw [hstage] at hlive
            cases hlive
            exact ⟨_, rfl, .inl rfl⟩
        | _ =>
          rw [hstage] at hlive
          dsimp only at hlive
          rw [hstage] at hlive
          cases hlive
      rcases hreader with rfl | rfl
      · exact hshows.2 c hc _ _ _ hwas hl hdone
      · exact hshows.2 c hc _ _ _ hwas hl hdone

/-- A call reads a run's end only after every step the run wrote before it ended. -/
theorem end_after_every_step (b : FramedBuilds) (me : String) (before after : List Move) (l : Nat) (log : RunLog)
    (hlog : ((Admin.new me).run b before).logs[l]? = some log) (hopen : log.state.terminal = none) (c : Call)
    (hc : c ∈ ((Admin.new me).run b (before ++ after)).calls) (disposition : Disposition) (received : List BuildReply)
    (r : RunReader) (hstage : c.stage = .live disposition received r) (hl : r.log = l) (hdone : r.done = true) :
    log.state.steps <+: stepsOf received := by
  have hsound : Sound ((Admin.new me).run b before) := (sound_new me).run before
  have hstep : ∀ s m, Sound s ∧ Shows l log.state.steps s → Sound (s.step b m) ∧ Shows l log.state.steps (s.step b m) :=
    fun s m h => ⟨h.1.step m, h.2.does h.1 (step_does b s m)⟩
  have hrun := invariant_run hstep ⟨hsound, shows_of_open hsound hlog hopen⟩ after
  rw [Admin.run, List.foldl_append] at hc
  exact hrun.2.2 c hc disposition received r hstage hl hdone

/-- The run ends, and the call that started it reads on to its end. -/
def finishMoves : List Move := List.replicate 5 (.task 0 .complete) ++ List.replicate 4 (.call 0 .operations)

theorem end_after_every_step_finished : [placedFrame] <+: stepsOf [placedFrame, .complete "build1"] :=
  end_after_every_step ⟨some "mesh1", false⟩ "n0" (startMoves ++ stepMoves) finishMoves 0
    ⟨"build1", "mesh1", ⟨[placedFrame], [placedFrame], none, none, none⟩, false, 1⟩ rfl rfl
    ⟨"build1", "mesh1", false, .live .started [placedFrame, .complete "build1"] ⟨0, 1, true, .idle⟩⟩
    (List.mem_of_getElem? (i := 0) rfl) .started [placedFrame, .complete "build1"] ⟨0, 1, true, .idle⟩ rfl rfl rfl

variable {disposition : Disposition}

theorem step_call (hi : s.calls[i]? = some c) (hstage : c.stage = .live disposition received r)
    (hlog : s.logs[r.log]? = some log) (plan : Plan) :
    s.step b (.call i plan) =
      s.goes i c (.live disposition (received ++ (r.next log.state).2.toList) (r.next log.state).1) := by
  simp only [Admin.step, hi, Admin.callTurn, hstage, hlog]

/-- The turns of a reader up to its next look at the log. -/
def waits : Stage → Nat
  | .enabled _ => 0
  | .idle => 1
  | .waiting _ => 1

/-- In turns of its own the call reads up to the end of its run, the frames in all. -/
def ReadsTo (b : FramedBuilds) (i : Nat) (s : Admin) (c : Call) (disposition : Disposition) (frames : List BuildReply) : Prop :=
  ∃ turns r', (s.run b (List.replicate turns (.call i .operations))).calls[i]? =
    some { c with stage := .live disposition frames r' } ∧ r'.done = true

theorem readsTo_turn (hi : s.calls[i]? = some c) (hstage : c.stage = .live disposition received r)
    (hlog : s.logs[r.log]? = some log) {r₁ : RunReader} {got : Option BuildReply} (hnext : r.next log.state = (r₁, got))
    (h : ReadsTo b i (s.goes i c (.live disposition (received ++ got.toList) r₁))
      { c with stage := .live disposition (received ++ got.toList) r₁ } disposition frames) :
    ReadsTo b i s c disposition frames := by
  obtain ⟨turns, r', hcalls, hdone⟩ := h
  refine ⟨turns + 1, r', ?_, hdone⟩
  rw [List.replicate_succ, Admin.run, List.foldl_cons, step_call hi hstage hlog, hnext]
  exact hcalls

/-- A call that does not wait unnotified reads all that is left of an ended log, and its end, in its own turns. -/
theorem reads_on {t : BuildReply} (ht : log.state.terminal = some t) (k : Nat) (hi : s.calls[i]? = some c)
    (hstage : c.stage = .live disposition received r) (hlog : s.logs[r.log]? = some log) (hopen : r.done = false)
    (hawake : r.stage ≠ .waiting false) (hk : 2 * (log.state.events.length - r.cursor) + waits r.stage < k) :
    ReadsTo b i s c disposition (received ++ log.state.events.drop r.cursor ++ [t]) := by
  induction k generalizing s c received r with
  | zero => exact absurd hk (Nat.not_lt_zero _)
  | succ k ih =>
    -- The reader registers, and reads on with one turn fewer left.
    have hregisters : r.next log.state = ({ r with stage := .enabled false }, none) → waits r.stage = 1 →
        ReadsTo b i s c disposition (received ++ log.state.events.drop r.cursor ++ [t]) := by
      intro hnext hwaits
      rw [hwaits] at hk
      refine readsTo_turn hi hstage hlog hnext ?_
      rw [Option.toList_none, List.append_nil]
      refine ih (r := { r with stage := .enabled false }) (getElem?_set_new hi) rfl hlog hopen nofun ?_
      show 2 * (log.state.events.length - r.cursor) + 0 < k
      omega
    cases hr : r.stage with
    | idle => exact hregisters (by simp [RunReader.next, hr, hopen]) (by rw [hr]; rfl)
    | waiting notified =>
      cases notified with
      | false => exact absurd hr hawake
      | true => exact hregisters (by simp [RunReader.next, hr]) (by rw [hr]; rfl)
    | enabled notified =>
      rw [hr] at hk
      simp only [waits] at hk
      cases hevent : log.state.events[r.cursor]? with
      | some f =>
        have hlt := (List.getElem?_eq_some_iff.mp hevent).1
        have hnext : r.next log.state = ({ r with cursor := r.cursor + 1, stage := .idle }, some f) := by
          simp only [RunReader.next, hr, hevent]
        have hdrop : log.state.events.drop r.cursor = [f] ++ log.state.events.drop (r.cursor + 1) := by
          rw [List.drop_eq_getElem_cons hlt, (List.getElem?_eq_some_iff.mp hevent).2]
          rfl
        refine readsTo_turn hi hstage hlog hnext ?_
        rw [hdrop, ← List.append_assoc]
        refine ih (r := { r with cursor := r.cursor + 1, stage := .idle }) (getElem?_set_new hi) rfl hlog hopen nofun ?_
        show 2 * (log.state.events.length - (r.cursor + 1)) + 1 < k
        omega
      | none =>
        have hnext : r.next log.state = ({ r with done := true, stage := .idle }, some t) := by
          simp only [RunReader.next, hr, hevent, ht]
        have hdrop : log.state.events.drop r.cursor = [] := List.drop_eq_nil_of_le (List.getElem?_eq_none_iff.mp hevent)
        refine readsTo_turn hi hstage hlog hnext ?_
        rw [hdrop, List.append_nil]
        exact ⟨0, { r with done := true, stage := .idle }, getElem?_set_new hi, rfl⟩

/-- The writer of a log that owes its readers a wake gives it to a reader that waits. -/
theorem step_notifies (hi : s.calls[i]? = some c) (hstage : c.stage = .live disposition received r)
    (hlog : s.logs[r.log]? = some log) (hdue : 0 < log.notifying) :
    (s.step b (.notifyWaiters r.log)).calls[i]? = some { c with stage := .live disposition received r.notified } ∧
    (s.step b (.notifyWaiters r.log)).logs[r.log]? = some { log with notifying := log.notifying - 1 } := by
  simp only [Admin.step, Admin.notifyWaiters, hlog, if_neg (Nat.ne_of_gt hdue)]
  refine ⟨?_, ?_⟩
  · simp only [List.getElem?_map, hi, Option.map_some, Admin.heard, hstage, if_pos]
  · exact (getElem?_modified hlog).trans (by rw [if_pos rfl])

/-- A call that came to a run that ended is never left waiting: what its log's writers owe it and turns of its own give
it every frame it has yet to read and the run's end, whatever came before. -/
theorem ended_run_completes_calls (b : FramedBuilds) (me : String) (moves : List Move) (i : Nat) (c : Call)
    (hi : ((Admin.new me).run b moves).calls[i]? = some c) (disposition : Disposition) (received : List BuildReply)
    (r : RunReader) (hstage : c.stage = .live disposition received r) (hopen : r.done = false) (log : RunLog)
    (hlog : ((Admin.new me).run b moves).logs[r.log]? = some log) (t : BuildReply) (ht : log.state.terminal = some t) :
    ∃ more r', (∀ m ∈ more, m = .notifyWaiters r.log ∨ m = .call i .operations) ∧
      ((Admin.new me).run b (moves ++ more)).calls[i]? =
        some { c with stage := .live disposition (received ++ log.state.events.drop r.cursor ++ [t]) r' } ∧
      r'.done = true := by
  have hsound : Sound ((Admin.new me).run b moves) := (sound_new me).run moves
  have hruns : ∀ more, (Admin.new me).run b (moves ++ more) = ((Admin.new me).run b moves).run b more :=
    fun more => List.foldl_append ..
  by_cases hwaiting : r.stage = .waiting false
  · obtain ⟨held, hheld, -, -, hawake⟩ := hsound.follows (List.mem_of_getElem? hi) hstage
    rw [hlog] at hheld
    cases hheld
    have hdue : 0 < log.notifying := by
      rcases hawake hwaiting with ⟨-, hnone⟩ | hdue
      · rw [ht] at hnone
        cases hnone
      · exact hdue
    have hnotified : r.notified.stage ≠ .waiting false := by
      rw [RunReader.notified, hwaiting]
      nofun
    obtain ⟨hi', hlog'⟩ := step_notifies (b := b) hi hstage hlog hdue
    have ht' : ({ log with notifying := log.notifying - 1 } : RunLog).state.terminal = some t := ht
    obtain ⟨turns, r', hcalls, hdone⟩ :=
      reads_on (b := b) (r := r.notified) ht' _ hi' rfl hlog' hopen hnotified (Nat.lt_succ_self _)
    refine ⟨.notifyWaiters r.log :: List.replicate turns (.call i .operations), r', ?_, ?_, hdone⟩
    · intro m hm
      rcases List.mem_cons.mp hm with rfl | hm
      · exact .inl rfl
      · exact .inr (List.eq_of_mem_replicate hm)
    · rw [hruns]
      exact hcalls
  · obtain ⟨turns, r', hcalls, hdone⟩ := reads_on (b := b) ht _ hi hstage hlog hopen hwaiting (Nat.lt_succ_self _)
    refine ⟨List.replicate turns (.call i .operations), r', fun m hm => .inr (List.eq_of_mem_replicate hm), ?_, hdone⟩
    rw [hruns]
    exact hcalls

/-- The call that started the run waits, the run writes a step and ends, and nobody has notified the call. -/
def waitMoves : List Move :=
  startMoves ++ List.replicate 2 (.call 0 .operations) ++ stepMoves ++ List.replicate 5 (.task 0 .complete)

theorem ended_run_completes_calls_waiting :
    ∃ more r', (∀ m ∈ more, m = .notifyWaiters 0 ∨ m = .call 0 .operations) ∧
      ((Admin.new "n0").run ⟨some "mesh1", false⟩ (waitMoves ++ more)).calls[0]? =
        some ⟨"build1", "mesh1", false, .live .started [placedFrame, .complete "build1"] r'⟩ ∧
      r'.done = true :=
  ended_run_completes_calls ⟨some "mesh1", false⟩ "n0" waitMoves 0
    ⟨"build1", "mesh1", false, .live .started [] ⟨0, 0, false, .waiting false⟩⟩ rfl .started [] ⟨0, 0, false, .waiting false⟩ rfl
    rfl ⟨"build1", "mesh1", ⟨[placedFrame], [placedFrame], none, none, some (.complete "build1")⟩, false, 2⟩ rfl
    (.complete "build1") rfl

end DistributedMesh.SectionRuns
