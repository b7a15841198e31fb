import DistributedMesh.CommandBarrier

namespace DistributedMesh.Commands

open GuardedRuns

variable {Op : Type}

namespace Task

/-- The key of a command that opened it and has not closed it. -/
def holds : Task Op → Option (CommandKey Op)
  | .command _ key .opened => some key
  | .command _ key .sent => some key
  | .command _ key .ended => some key
  | _ => none

def IsCommand : Task Op → Prop
  | .command _ _ _ => True
  | _ => False

def IsOver : Task Op → Prop
  | .command _ _ stage => stage = .finished
  | _ => False

end Task

namespace System

/-- Another command has the key open and will close it. -/
def HeldBeside (s : System Op) (i : Nat) (key : CommandKey Op) : Prop :=
  ∃ j < s.tasks.length, j ≠ i ∧ s.tasks[j]?.bind Task.holds = some key

/-- A carry, a mesh join or a rejoin that is dropped after it opened its key leaves the key to another command under it. -/
def DropCovered (s : System Op) (i : Nat) : Task Op → Prop
  | .command kind key stage => kind ≠ .storage → stage = .opened ∨ stage = .sent → s.HeldBeside i key
  | _ => True

def Covered (s : System Op) : Move → Prop
  | .drop i => ∀ task ∈ s.tasks[i]?, s.DropCovered i task
  | .next _ => True
  | .unsent _ => True

/-- Every open key is some command's, which has not closed it. -/
def Owned (s : System Op) : Prop :=
  ∀ key ∈ s.view.opened, ∃ (j : Nat) (task : Task Op), s.tasks[j]? = some task ∧ task.holds = some key

/-- Commands alone, none of which takes the row writers' turn. -/
def OfCommands (s : System Op) : Prop := s.view.rowWrites = none ∧ ∀ task ∈ s.tasks, task.IsCommand

variable {s : System Op} {i : Nat}

theorem HeldBeside.getElem? {key : CommandKey Op} (h : s.HeldBeside i key) :
    ∃ j task, j ≠ i ∧ s.tasks[j]? = some task ∧ task.holds = some key := by
  obtain ⟨j, _, hne, hj⟩ := h
  obtain ⟨task, htask, hholds⟩ := Option.bind_eq_some_iff.mp hj
  exact ⟨j, task, hne, htask, hholds⟩

/-- A step that takes no key from its task, or takes one that is closed with it or that another command has too. -/
theorem Owned.put (h : s.Owned) {t : System Op} {old new : Task Op} (hi : s.tasks[i]? = some old)
    (htasks : t.tasks = s.tasks.set i new)
    (hopened : ∀ key ∈ t.view.opened, key ∈ s.view.opened ∨ new.holds = some key)
    (hholds : ∀ key ∈ t.view.opened, old.holds = some key → new.holds = some key ∨ s.HeldBeside i key) : t.Owned := by
  have hlt : i < s.tasks.length := (List.getElem?_eq_some_iff.mp hi).1
  have hself : (s.tasks.set i new)[i]? = some new := List.getElem?_set_self hlt
  have hother : ∀ (j : Nat) (task : Task Op) (key : CommandKey Op), j ≠ i → s.tasks[j]? = some task → task.holds = some key →
      ∃ (k : Nat) (task : Task Op), t.tasks[k]? = some task ∧ task.holds = some key := by
    intro j task key hne hj hkey
    refine ⟨j, task, ?_, hkey⟩
    rw [htasks, List.getElem?_set_ne (Ne.symm hne)]
    exact hj
  intro key hkey
  rcases hopened key hkey with hbefore | hnew
  · obtain ⟨j, task, hj, hholder⟩ := h key hbefore
    by_cases hne : j = i
    · subst hne
      rw [hi] at hj
      cases hj
      rcases hholds key hkey hholder with hnew | hbeside
      · exact ⟨j, new, htasks ▸ hself, hnew⟩
      · obtain ⟨k, other, hne, hk, hother'⟩ := hbeside.getElem?
        exact hother k other key hne hk hother'
    · exact hother j task key hne hj hholder
  · exact ⟨i, new, htasks ▸ hself, hnew⟩

theorem Owned.same (h : s.Owned) {t : System Op} {old new : Task Op} (hi : s.tasks[i]? = some old)
    (htasks : t.tasks = s.tasks.set i new) (hopened : t.view.opened = s.view.opened) (hholds : new.holds = old.holds) :
    t.Owned :=
  h.put hi htasks (fun _ hkey => .inl (hopened ▸ hkey)) fun _ _ hold => .inl (hholds ▸ hold)

theorem OfCommands.put (h : s.OfCommands) {t : System Op} {kind : CommandKind} {key : CommandKey Op} {stage : CommandStage}
    (htasks : t.tasks = s.tasks.set i (.command kind key stage)) (hwrites : t.view.rowWrites = s.view.rowWrites) :
    t.OfCommands := by
  refine ⟨hwrites.trans h.1, fun task hm => ?_⟩
  rw [htasks] at hm
  rcases List.mem_or_eq_of_mem_set hm with hm | rfl
  · exact h.2 task hm
  · trivial

theorem OfCommands.commandMoves (h : s.OfCommands) {t : System Op} {kind : CommandKind} {key : CommandKey Op}
    (ht : CommandMoves s t i kind key) : t.OfCommands := by
  obtain rfl | ⟨view, after, _, hwrites, rfl⟩ := ht
  · exact h
  · exact h.put rfl hwrites

section Steps

variable [DecidableEq Op]

theorem Owned.close (h : s.Owned) {kind : CommandKind} {key : CommandKey Op} {stage : CommandStage}
    (hi : s.tasks[i]? = some (.command kind key stage)) :
    ((s.withView (s.view.close key)).put i (.command kind key .finished)).Owned := by
  refine h.put hi rfl (fun k hk => .inl ((mem_close s.view key k).mp hk).1) fun k hk hold => ?_
  have hne := ((mem_close s.view key k).mp hk).2
  have hsame : k = key := by
    cases stage <;> first | exact (Option.some.inj hold).symm | cases hold
  exact absurd hsame hne

theorem Owned.nextCommand (h : s.Owned) {kind : CommandKind} {key : CommandKey Op} {stage : CommandStage}
    (hi : s.tasks[i]? = some (.command kind key stage)) : (s.nextCommand i kind key stage).Owned := by
  cases stage with
  | asked =>
    cases kind with
    | lifecycle =>
      dsimp only [System.nextCommand]
      split
      next => exact h
      next => exact h.same hi rfl rfl rfl
    | meshJoin =>
      dsimp only [System.nextCommand]
      split
      next => exact h.same hi rfl rfl rfl
      next => exact h.same hi rfl rfl rfl
    | rejoin => exact h.same hi rfl rfl rfl
    | storage => exact h.same hi rfl rfl rfl
  | ready =>
    refine h.put hi rfl (fun k hk => ?_) fun k _ hold => by cases hold
    rcases (mem_openKey s.view key k).mp hk with rfl | hk
    · exact .inr rfl
    · exact .inl hk
  | opened => exact h.same hi rfl rfl rfl
  | sent => exact h.same hi rfl rfl rfl
  | ended => exact h.close hi
  | finished => exact h

theorem Owned.dropCommand (h : s.Owned) {kind : CommandKind} {key : CommandKey Op} {stage : CommandStage}
    (hi : s.tasks[i]? = some (.command kind key stage)) (hok : s.DropCovered i (.command kind key stage)) :
    (s.dropCommand i kind key stage).Owned := by
  have hleft : kind ≠ .storage → stage = .opened ∨ stage = .sent → (s.put i (.command kind key .finished)).Owned := by
    intro hkind hstage
    refine h.put hi rfl (fun k hk => .inl hk) fun k _ hold => .inr ?_
    have hsame : key = k := by
      rcases hstage with rfl | rfl <;> exact Option.some.inj hold
    exact hsame ▸ hok hkind hstage
  cases stage with
  | asked => exact h.same hi rfl rfl rfl
  | ready =>
    dsimp only [System.dropCommand]
    split
    next => exact h
    next => exact h.same hi rfl rfl rfl
  | opened =>
    dsimp only [System.dropCommand]
    split
    next => exact h.close hi
    next hkind => exact hleft hkind (.inl rfl)
  | sent =>
    dsimp only [System.dropCommand]
    split
    next => exact h.close hi
    next hkind => exact hleft hkind (.inr rfl)
  | ended => exact h
  | finished => exact h

/-- Only a command opens or closes a key. -/
theorem Owned.step (h : s.Owned) (hcommands : s.OfCommands) (m : Move) (hok : s.Covered m) : (s.step m).Owned := by
  cases m with
  | next i =>
    dsimp only [System.step]
    cases hi : s.tasks[i]? with
    | none => exact h
    | some task =>
      cases task with
      | command kind key stage => exact h.nextCommand hi
      | rowWriter | block | releaseRows | unblock => exact (hcommands.2 _ (mem_tasks hi)).elim
  | unsent i =>
    dsimp only [System.step]
    split
    next hi => exact h.same hi rfl rfl rfl
    next => exact h
  | drop i =>
    dsimp only [System.step]
    split
    next hi => exact h.dropCommand hi (hok _ hi)
    next => exact h

theorem OfCommands.step (h : s.OfCommands) (m : Move) : (s.step m).OfCommands := by
  cases m with
  | next i =>
    dsimp only [System.step]
    cases hi : s.tasks[i]? with
    | none => exact h
    | some task =>
      cases task with
      | command kind key stage => exact h.commandMoves nextCommand_moves
      | rowWriter | block | releaseRows | unblock => exact (h.2 _ (mem_tasks hi)).elim
  | unsent i =>
    dsimp only [System.step]
    split
    next => exact h.commandMoves (.put .ended)
    next => exact h
  | drop i =>
    dsimp only [System.step]
    split
    next => exact h.commandMoves dropCommand_moves
    next => exact h

end Steps

/-- The commands of one view, none begun. -/
def ofCommands (blocked rowsHeld : Bool) (commands : List (CommandKind × CommandKey Op)) : System Op :=
  start blocked rowsHeld (commands.map fun c => .command c.1 c.2 .asked)

/-- A `block` call beside the tasks there are. -/
def call (s : System Op) : System Op := { s with tasks := s.tasks ++ [.block .called] }

theorem ofCommands_ofCommands (blocked rowsHeld : Bool) (commands : List (CommandKind × CommandKey Op)) :
    (ofCommands blocked rowsHeld commands).OfCommands := by
  refine ⟨rfl, fun task hm => ?_⟩
  obtain ⟨c, -, rfl⟩ := List.mem_map.mp hm
  trivial

theorem opened_of_over (h : s.Owned) (hover : ∀ task ∈ s.tasks, task.IsOver) : s.view.opened = [] := by
  refine List.eq_nil_iff_forall_not_mem.mpr fun key hkey => ?_
  obtain ⟨j, task, hj, hholds⟩ := h key hkey
  have htask := hover task (mem_tasks hj)
  cases task with
  | command kind key' stage =>
    obtain rfl : stage = .finished := htask
    cases hholds
  | rowWriter | block | releaseRows | unblock => cases hholds

/-- A `block` call made while nothing is open and no row is written returns at once. -/
theorem call_returns [DecidableEq Op] (hempty : s.view.opened = []) (hfree : s.view.rowWrites = none) :
    ((turns s.tasks.length 6).foldl step s.call).tasks[s.tasks.length]? = some (.block (.returned 0)) := by
  have hset : ∀ a b : Task Op, (s.tasks ++ [a]).set s.tasks.length b = s.tasks ++ [b] := by
    intro a b
    simp
  simp [turns, step, call, hset, nextBlock, put, withView, hempty, hfree, List.replicate]

/-- Once every command's task has ended, each that was dropped with its key open having left it to another, no key is open: a
`block` called then returns, and no birth has an open command. -/
theorem block_resolves [DecidableEq Op] (blocked rowsHeld : Bool) (commands : List (CommandKind × CommandKey Op))
    {moves : List Move} (hok : RunOk step Covered (ofCommands blocked rowsHeld commands) moves) :
    let run := moves.foldl step (ofCommands blocked rowsHeld commands)
    (∀ task ∈ run.tasks, task.IsOver) →
      run.view.opened = [] ∧ (∀ nodeId incarnation, run.view.openFor nodeId incarnation = false) ∧
        ((turns run.tasks.length 6).foldl step run.call).tasks[run.tasks.length]? = some (.block (.returned 0)) := by
  intro run hover
  have hrun := hok.invariant (I := fun s => s.Owned ∧ s.OfCommands)
    (fun s m h hm => ⟨h.1.step h.2 m hm, h.2.step m⟩)
    ⟨fun key hkey => (by cases hkey), ofCommands_ofCommands blocked rowsHeld commands⟩
  have hempty := opened_of_over hrun.1 hover
  refine ⟨hempty, fun nodeId incarnation => ?_, call_returns hempty hrun.2.1⟩
  unfold CommandView.openFor
  rw [hempty]
  rfl

section Runs

instance : ∀ task : Task String, Decidable task.IsOver
  | .command _ _ stage => inferInstanceAs (Decidable (stage = .finished))
  | .rowWriter _ => inferInstanceAs (Decidable False)
  | .block _ => inferInstanceAs (Decidable False)
  | .releaseRows _ => inferInstanceAs (Decidable False)
  | .unblock _ => inferInstanceAs (Decidable False)

instance (s : System String) (i : Nat) (key : CommandKey String) : Decidable (s.HeldBeside i key) :=
  inferInstanceAs (Decidable (∃ j < s.tasks.length, j ≠ i ∧ s.tasks[j]?.bind Task.holds = some key))

instance (s : System String) (i : Nat) : ∀ task, Decidable (s.DropCovered i task)
  | .command _ _ _ => inferInstanceAs (Decidable (_ → _))
  | .rowWriter _ => inferInstanceAs (Decidable True)
  | .block _ => inferInstanceAs (Decidable True)
  | .releaseRows _ => inferInstanceAs (Decidable True)
  | .unblock _ => inferInstanceAs (Decidable True)

instance (s : System String) : ∀ m, Decidable (s.Covered m)
  | .drop i => inferInstanceAs (Decidable (∀ task ∈ s.tasks[i]?, s.DropCovered i task))
  | .next _ => inferInstanceAs (Decidable True)
  | .unsent _ => inferInstanceAs (Decidable True)

/-- A carry ends, and a storage command is dropped in flight. -/
theorem block_resolves_storage_dropped :
    let run := (turns 0 5 ++ turns 1 3 ++ [Move.drop 1]).foldl step
      (ofCommands false false [(.lifecycle, stopKey), (.storage, ⟨"storage.block", "n1", "i1"⟩)])
    run.view.opened = [] ∧ (∀ nodeId incarnation, run.view.openFor nodeId incarnation = false) ∧
      ((turns run.tasks.length 6).foldl step run.call).tasks[run.tasks.length]? = some (.block (.returned 0)) :=
  block_resolves false false _ (by decide) (by decide)

/-- A carry that sent its stop is dropped: no command is left running, its key stays open, and a `block` called then reads the
open set again for ever. -/
theorem dropped_carry_holds_block :
    let run := (turns 0 3 ++ [Move.drop 0]).foldl step (ofCommands false false [(.lifecycle, stopKey)])
    (∀ task ∈ run.tasks, task.IsOver) ∧ run.view.openFor "n1" "i1" = true ∧
      ∀ n, ((turns 1 n).foldl step ((turns 1 3).foldl step run.call)).tasks[1]? = some (.block (.waiting 1)) := by
  refine ⟨by decide, by decide, fun n => ?_⟩
  have hstays : ∀ s : System String, s = (turns 1 3).foldl step ((turns 0 3 ++ [Move.drop 0]).foldl step
      (ofCommands false false [(.lifecycle, stopKey)])).call → (turns 1 n).foldl step s = s := by
    intro s hs
    induction n with
    | zero => rfl
    | succ n ih =>
      have hstep : s.step (.next 1) = s := by
        rw [hs]
        rfl
      rw [turns, List.replicate_succ, List.foldl_cons, hstep]
      exact ih
  rw [hstays _ rfl]
  decide

end Runs

end System

end DistributedMesh.Commands
