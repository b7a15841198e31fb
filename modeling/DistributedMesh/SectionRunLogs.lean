import DistributedMesh.SectionRuns
import Mathlib.Data.List.Induction

namespace DistributedMesh.SectionRuns

open GuardedRuns
open DriveReads (Stage)

def BuildReply.isStep : BuildReply → Bool
  | .step _ _ _ _ _ => true
  | _ => false

def BuildReply.isPending : BuildReply → Bool
  | .pending _ _ _ _ _ => true
  | _ => false

def stepsOf (frames : List BuildReply) : List BuildReply := frames.filter BuildReply.isStep

/-- What a caller takes the run to wait for once it is given the frame. -/
def told (known : Option Blocker) : BuildReply → Option Blocker
  | .step _ _ operation step _ => if known.any (·.isOf operation step) then none else known
  | .pending _ _ operation step reason => some ⟨operation, step, reason⟩
  | _ => known

def waitsFor (frames : List BuildReply) : Option Blocker := frames.foldl told none

def Blocker.bounded (b : Blocker) : Blocker := { b with reason := boundedReason b.reason }

theorem stepsOf_append (xs ys : List BuildReply) : stepsOf (xs ++ ys) = stepsOf xs ++ stepsOf ys := List.filter_append ..

theorem waitsFor_concat (frames : List BuildReply) (f : BuildReply) : waitsFor (frames ++ [f]) = told (waitsFor frames) f := by
  rw [waitsFor, List.foldl_append, List.foldl_cons, List.foldl_nil, waitsFor]

/-- Steps alone name nothing the run waits for. -/
theorem waitsFor_of_steps {frames : List BuildReply} (h : ∀ f ∈ frames, f.isStep = true) : waitsFor frames = none := by
  induction frames using List.reverseRecOn with
  | nil => rfl
  | append_singleton frames f ih =>
    have hnone : waitsFor frames = none := ih fun g hg => h g (List.mem_append_left _ hg)
    rw [waitsFor_concat, hnone]
    have hf := h f (by simp)
    cases f with
    | step buildId mesh operation step result => rfl
    | pending | complete | incomplete | notExecutor | unknownBuild | notReady => cases hf

/-- A run's log as its operations keep it: its steps are those of its frames, each once, and what it waits for is what
its frames tell. -/
structure Kept (log : RunLog) : Prop where
  frames : ∀ f ∈ log.state.events, f.isStep = true ∨ f.isPending = true
  steps : log.state.steps = stepsOf log.state.events
  once : log.state.steps.Nodup
  waits : log.state.terminal = none → waitsFor log.state.events = log.state.pending.map Blocker.bounded
  ended : ∀ t, log.state.terminal = some t → t.isStep = false ∧ t.isPending = false

/-- What one move does to a log, a notification apart. -/
inductive Moved (log : RunLog) : RunLog → Prop where
  | same : Moved log log
  | marked (b : Bool) : Moved log { log with fabricPrimarys := b }
  | stepped (operation step : String) (result : StepOutcome) (h : log.framed operation step result = false) :
      Moved log (log.step operation step result)
  | pended (operation step reason : String) (h : log.state.pending ≠ some ⟨operation, step, reason⟩) :
      Moved log (log.pending operation step reason)
  | finished (terminal : BuildReply) (hstep : terminal.isStep = false) (hpending : terminal.isPending = false) :
      Moved log (log.finish terminal)

variable {log log' : RunLog} {operation step reason : String} {result : StepOutcome}

theorem kept_new (buildId mesh : String) : Kept (.new buildId mesh) where
  frames := by simp [RunLog.new]
  steps := rfl
  once := List.nodup_nil
  waits := fun _ => rfl
  ended := by simp [RunLog.new]

/-- A step that is not framed with its result has no frame of it. -/
theorem frame_not_mem (h : log.framed operation step result = false) :
    log.frame operation step result ∉ log.state.steps := by
  intro hmem
  have hframed : log.framed operation step result = true := List.any_eq_true.mpr ⟨_, hmem, by simp [RunLog.frame]⟩
  rw [h] at hframed
  cases hframed

theorem step_state (h : log.framed operation step result = false) :
    (log.step operation step result).state.events = log.state.events ++ [log.frame operation step result] ∧
    (log.step operation step result).state.steps = log.state.steps ++ [log.frame operation step result] ∧
    (log.step operation step result).state.pending =
      (if log.state.pending.any (·.isOf operation step) then none else log.state.pending) ∧
    (log.step operation step result).state.terminal = log.state.terminal ∧
    (log.step operation step result).notifying = log.notifying + 1 := by
  rw [RunLog.step, if_neg (by simp [h])]
  exact ⟨rfl, rfl, rfl, rfl, rfl⟩

theorem pending_state (h : log.state.pending ≠ some ⟨operation, step, reason⟩) :
    log.pending operation step reason =
      { log with
        state :=
          { log.state with
            pending := some ⟨operation, step, reason⟩
            events := log.state.events ++ [log.blocked ⟨operation, step, reason⟩] }
        notifying := log.notifying + 1 } := by
  rw [RunLog.pending]
  exact if_neg h

/-- What a step's frame tells is what the step leaves the run waiting for. -/
theorem told_frame (known : Option Blocker) :
    told (known.map Blocker.bounded) (log.frame operation step result) =
      (if known.any (·.isOf operation step) then none else known).map Blocker.bounded := by
  have hany : (known.map Blocker.bounded).any (·.isOf operation step) = known.any (·.isOf operation step) := by
    cases known <;> rfl
  rw [RunLog.frame, told, hany]
  split
  · rfl
  · rfl

theorem Kept.stepped (h : Kept log) (hnew : log.framed operation step result = false) :
    Kept (log.step operation step result) := by
  obtain ⟨hevents, hsteps, hpending, hterminal, -⟩ := step_state hnew
  refine ⟨?_, ?_, ?_, ?_, ?_⟩
  · intro f hf
    rw [hevents, List.mem_append, List.mem_singleton] at hf
    rcases hf with hf | rfl
    · exact h.frames f hf
    · exact .inl rfl
  · rw [hevents, hsteps, stepsOf_append, h.steps]
    rfl
  · rw [hsteps]
    exact h.once.append (List.nodup_singleton _) (by simpa using frame_not_mem hnew)
  · intro hnone
    rw [hterminal] at hnone
    rw [hevents, waitsFor_concat, h.waits hnone, hpending, told_frame]
  · intro t ht
    rw [hterminal] at ht
    exact h.ended t ht

theorem Kept.pended (h : Kept log) (hnew : log.state.pending ≠ some ⟨operation, step, reason⟩) :
    Kept (log.pending operation step reason) := by
  rw [pending_state hnew]
  refine ⟨?_, ?_, h.once, ?_, h.ended⟩
  · intro f hf
    rcases List.mem_append.mp hf with hf | hf
    · exact h.frames f hf
    · rw [List.mem_singleton] at hf
      subst hf
      exact .inr rfl
  · have hnil : stepsOf [log.blocked ⟨operation, step, reason⟩] = [] := rfl
    show log.state.steps = stepsOf (log.state.events ++ _)
    rw [stepsOf_append, hnil, List.append_nil, h.steps]
  · intro _
    show waitsFor (log.state.events ++ _) = _
    rw [waitsFor_concat]
    rfl

theorem Kept.finished (h : Kept log) {terminal : BuildReply} (hstep : terminal.isStep = false)
    (hpending : terminal.isPending = false) : Kept (log.finish terminal) := by
  cases hterminal : log.state.terminal with
  | some t =>
    have hsame : (log.finish terminal).state = log.state := by
      rw [RunLog.finish, hterminal]
      rfl
    refine ⟨?_, ?_, ?_, ?_, ?_⟩ <;> rw [hsame]
    · exact h.frames
    · exact h.steps
    · exact h.once
    · exact h.waits
    · exact h.ended
  | none =>
    have hset : (log.finish terminal).state = { log.state with pending := none, terminal := some terminal } := by
      rw [RunLog.finish, hterminal]
      rfl
    refine ⟨?_, ?_, ?_, ?_, ?_⟩ <;> rw [hset]
    · exact h.frames
    · exact h.steps
    · exact h.once
    · intro hnone
      cases hnone
    · intro t ht
      cases ht
      exact ⟨hstep, hpending⟩

theorem Kept.moved (h : Kept log) (hmoved : Moved log log') : Kept log' := by
  cases hmoved with
  | same => exact h
  | marked b => exact ⟨h.frames, h.steps, h.once, h.waits, h.ended⟩
  | stepped operation step result hnew => exact h.stepped hnew
  | pended operation step reason hnew => exact h.pended hnew
  | finished terminal hstep hpending => exact h.finished hstep hpending

/-- A log only grows. -/
theorem Moved.events (h : Moved log log') : log.state.events <+: log'.state.events := by
  cases h with
  | same | marked => exact List.prefix_rfl
  | stepped operation step result hnew =>
    rw [(step_state hnew).1]
    exact List.prefix_append ..
  | pended operation step reason hnew =>
    rw [pending_state hnew]
    exact List.prefix_append ..
  | finished terminal _ _ =>
    unfold RunLog.finish
    cases log.state.terminal <;> exact List.prefix_rfl

/-- A log that ended keeps its end. -/
theorem Moved.terminal (h : Moved log log') {t : BuildReply} (ht : log.state.terminal = some t) :
    log'.state.terminal = some t := by
  cases h with
  | same | marked => exact ht
  | stepped operation step result hnew =>
    rw [(step_state hnew).2.2.2.1]
    exact ht
  | pended operation step reason hnew =>
    rw [pending_state hnew]
    exact ht
  | finished terminal _ _ =>
    simp only [RunLog.finish, ht, Option.isNone_some, Bool.false_eq_true, if_false]

theorem Moved.open (h : Moved log log') (ht : log'.state.terminal = none) : log.state.terminal = none := by
  cases hterminal : log.state.terminal with
  | none => rfl
  | some t =>
    rw [h.terminal hterminal] at ht
    cases ht

theorem Moved.section (h : Moved log log') : log'.buildId = log.buildId ∧ log'.mesh = log.mesh := by
  cases h with
  | same | marked => exact ⟨rfl, rfl⟩
  | stepped operation step result hnew =>
    rw [RunLog.step, if_neg (by simp [hnew])]
    exact ⟨rfl, rfl⟩
  | pended operation step reason hnew =>
    rw [pending_state hnew]
    exact ⟨rfl, rfl⟩
  | finished terminal _ _ => exact ⟨rfl, rfl⟩

/-- The writers of a log yet to notify its readers are those there were, or one more when it changed for its readers. -/
theorem Moved.notifying (h : Moved log log') :
    log.notifying ≤ log'.notifying ∧
      (log'.state.events = log.state.events ∧ log'.state.terminal = log.state.terminal ∨ 0 < log'.notifying) := by
  cases h with
  | same | marked => exact ⟨Nat.le_refl _, .inl ⟨rfl, rfl⟩⟩
  | stepped operation step result hnew =>
    rw [(step_state hnew).2.2.2.2]
    exact ⟨Nat.le_succ _, .inr (Nat.succ_pos _)⟩
  | pended operation step reason hnew =>
    rw [pending_state hnew]
    exact ⟨Nat.le_succ _, .inr (Nat.succ_pos _)⟩
  | finished terminal _ _ => exact ⟨Nat.le_succ _, .inr (Nat.succ_pos _)⟩

end DistributedMesh.SectionRuns
