import DistributedMesh.GuardedRuns
import DistributedMesh.Tallies

namespace DistributedMesh.Gating

open Std (ExtTreeMap)
open KeyedMaps GuardedRuns Tallies

abbrev TaskCounts := ExtTreeMap String Nat

/-- Where the gate stands: whether it is stopped, the turns past their wait point by task, and those of
them that are a Build's by Build, then task. -/
structure GateState where
  stopped : Bool
  turns : TaskCounts
  builds : ExtTreeMap String TaskCounts

namespace GateState

/-- The gate without the turns of a Build. -/
def butBuild (s : GateState) (build : String) : GateState :=
  match s.builds[build]? with
  | none => s
  | some spared => { s with builds := s.builds.erase build, turns := without s.turns spared }

/-- One turn of `task` more among those of a Build. -/
def tag (s : GateState) (build task : String) : GateState :=
  { s with builds := s.builds.insert build (more ((s.builds[build]?).getD ∅) task) }

/-- One turn of `task` fewer among those of a Build. -/
def untag (s : GateState) (build task : String) : Option GateState :=
  match s.builds[build]? with
  | none => some s
  | some tasks => (less tasks task).map fun tasks =>
    { s with builds := if tasks.isEmpty then s.builds.erase build else s.builds.insert build tasks }

/-- The turn's tag and its task's count, where it has a Build. -/
def tagged (s : GateState) (build : Option String) (task : String) : GateState :=
  match build with
  | none => s
  | some build => s.tag build task

def untagged (s : GateState) (build : Option String) (task : String) : Option GateState :=
  match build with
  | none => some s
  | some build => s.untag build task

/-- A turn begun. -/
def begins (s : GateState) (build : Option String) (task : String) : GateState :=
  ({ s with turns := more s.turns task } : GateState).tagged build task

/-- A turn dropped. -/
def ends (s : GateState) (build : Option String) (task : String) : Option GateState := do
  let turns ← less s.turns task
  ({ s with turns := turns } : GateState).untagged build task

/-- A turn retagged as one of a Build. -/
def rebuilds (s : GateState) (was : Option String) (build task : String) : Option GateState :=
  (s.untagged was task).map fun s => s.tag build task

end GateState

/-- One turn of a gated task; it ends when it is dropped. -/
structure Turn where
  task : String
  build : Option String
  ended : Bool
deriving DecidableEq

/-- The live turns of a task. -/
def ofTask (turns : List Turn) (task : String) : Nat := turns.countP fun t => !t.ended && t.task == task

/-- The live turns of a Build's task. -/
def ofBuildTask (turns : List Turn) (build task : String) : Nat :=
  turns.countP fun t => !t.ended && (t.build == some build && t.task == task)

/-- The counts of Builds' turns, with no Build that has none. -/
structure CountsBuilds (builds : ExtTreeMap String TaskCounts) (turns : List Turn) : Prop where
  counts : ∀ build : String, Counts ((builds[build]?).getD ∅) (ofBuildTask turns build)
  nonempty : ∀ (build : String) (tasks : TaskCounts), builds[build]? = some tasks → tasks.isEmpty = false

/-- The gate counts exactly the live turns. -/
structure Exact (s : GateState) (turns : List Turn) : Prop where
  tasks : Counts s.turns (ofTask turns)
  builds : CountsBuilds s.builds turns

section Counting

variable {s : GateState} {turns : List Turn} {builds : ExtTreeMap String TaskCounts} {i : Nat} {t u : Turn}

/-- One turn changed: what is counted changes by what the turn counted for. -/
theorem countP_replaced (hi : turns[i]? = some t) (p : Turn → Bool) :
    (turns.set i u).countP p + (if p t then 1 else 0) = turns.countP p + if p u then 1 else 0 := by
  obtain ⟨hlt, rfl⟩ := List.getElem?_eq_some_iff.mp hi
  rw [List.countP_set hlt]
  have hpos : p turns[i] = true → 0 < turns.countP p := fun hp =>
    List.countP_pos_iff.mpr ⟨turns[i], List.getElem_mem hlt, hp⟩
  by_cases hp : p turns[i] = true
  · have hcount := hpos hp
    rw [if_pos hp]
    omega
  · rw [if_neg hp]
    omega

theorem ofTask_append (turns : List Turn) (build : Option String) (task task' : String) :
    ofTask (turns ++ [⟨task, build, false⟩]) task' = ofTask turns task' + if task' = task then 1 else 0 := by
  rw [ofTask, List.countP_append, List.countP_singleton]
  simp only [Bool.not_false, Bool.true_and, beq_iff_eq, eq_comm (a := task)]
  rfl

theorem CountsBuilds.get (h : CountsBuilds builds turns) {build : String} {tasks : TaskCounts}
    (hb : builds[build]? = some tasks) : Counts tasks (ofBuildTask turns build) := by
  have hcounts := h.counts build
  rw [hb] at hcounts
  exact hcounts

theorem CountsBuilds.congr {turns' : List Turn} (h : CountsBuilds builds turns)
    (hsame : ∀ build task, ofBuildTask turns build task = ofBuildTask turns' build task) : CountsBuilds builds turns' :=
  ⟨fun build => (h.counts build).congr (hsame build), h.nonempty⟩

/-- A tag more: the counts of the Build's task are one more, and no other's. -/
theorem CountsBuilds.tag {turns' : List Turn} (h : CountsBuilds s.builds turns) {build task : String}
    (hcount : ∀ b k, ofBuildTask turns' b k = ofBuildTask turns b k + if b = build ∧ k = task then 1 else 0) :
    CountsBuilds (s.tag build task).builds turns' := by
  constructor
  · intro b
    rw [GateState.tag, getElem?_insert_eq]
    by_cases hb : build = b
    · subst hb
      rw [if_pos rfl, Option.getD_some]
      refine ((h.counts build).more task).congr fun k => ?_
      rw [hcount]
      simp only [true_and]
    · rw [if_neg hb]
      refine (h.counts b).congr fun k => ?_
      rw [hcount, if_neg fun heq => hb heq.1.symm, Nat.add_zero]
  · intro b tasks hget
    rw [GateState.tag, getElem?_insert_eq] at hget
    split at hget
    next =>
      rw [← Option.some.inj hget]
      exact isEmpty_more _ _
    next => exact h.nonempty b tasks hget

/-- A tag fewer, of a turn counted there. -/
theorem CountsBuilds.untag {turns' : List Turn} (h : CountsBuilds s.builds turns) {build task : String}
    (hpos : 0 < ofBuildTask turns build task)
    (hcount : ∀ b k, ofBuildTask turns' b k = ofBuildTask turns b k - if b = build ∧ k = task then 1 else 0) :
    ∃ s', s.untag build task = some s' ∧ s'.stopped = s.stopped ∧ s'.turns = s.turns ∧ CountsBuilds s'.builds turns' := by
  cases hb : s.builds[build]? with
  | none =>
    -- A Build that is not listed counts nothing.
    have hempty := h.counts build
    rw [hb] at hempty
    have hzero := hempty task
    rw [Option.getD_none, if_neg (Nat.ne_of_gt hpos)] at hzero
    simp at hzero
  | some tasks =>
    obtain ⟨fewer, hless, hcounts⟩ := (h.get hb).less hpos
    refine ⟨{ s with builds := if fewer.isEmpty then s.builds.erase build else s.builds.insert build fewer }, ?_, rfl, rfl,
      fun b => ?_, fun b tasks' hget => ?_⟩
    · rw [GateState.untag, hb]
      simp only [hless, Option.map_some]
    · rw [getElem?_erase_or_insert]
      by_cases hbuild : build = b
      · subst hbuild
        have hfewer : Counts fewer (ofBuildTask turns' build) := by
          refine hcounts.congr fun k => ?_
          rw [hcount]
          simp only [true_and]
        rw [if_pos rfl]
        by_cases hempty : fewer.isEmpty = true
        · rw [if_pos hempty, Option.getD_none, ← ExtTreeMap.isEmpty_iff.mp hempty]
          exact hfewer
        · rw [if_neg hempty, Option.getD_some]
          exact hfewer
      · rw [if_neg hbuild]
        refine (h.counts b).congr fun k => ?_
        rw [hcount, if_neg fun heq => hbuild heq.1.symm, Nat.sub_zero]
    · rw [getElem?_erase_or_insert] at hget
      split at hget
      next =>
        split at hget
        next => cases hget
        next hkept =>
          rw [← Option.some.inj hget]
          simpa using hkept
      next => exact h.nonempty b tasks' hget

theorem ofBuildTask_append (turns : List Turn) (t : Turn) (hlive : t.ended = false) (build task : String) :
    ofBuildTask (turns ++ [t]) build task =
      ofBuildTask turns build task + if t.build = some build ∧ task = t.task then 1 else 0 := by
  rw [ofBuildTask, List.countP_append, List.countP_singleton, hlive]
  simp only [Bool.not_false, Bool.true_and, Bool.and_eq_true, beq_iff_eq, eq_comm (a := t.task)]
  rfl

/-- A turn begun is counted. -/
theorem Exact.begins (h : Exact s turns) (build : Option String) (task : String) :
    Exact (s.begins build task) (turns ++ [⟨task, build, false⟩]) := by
  have htasks : Counts (more s.turns task) (ofTask (turns ++ [⟨task, build, false⟩])) :=
    (h.tasks.more task).congr fun k => (ofTask_append turns build task k).symm
  cases build with
  | none =>
    refine ⟨htasks, h.builds.congr fun b k => ?_⟩
    rw [ofBuildTask_append _ _ rfl]
    simp
  | some build =>
    refine ⟨htasks, CountsBuilds.tag (s := { s with turns := more s.turns task }) h.builds fun b k => ?_⟩
    rw [ofBuildTask_append _ _ rfl]
    simp only [Option.some.injEq, eq_comm (a := build)]

theorem ofTask_replaced (hi : turns[i]? = some t) (hlive : t.ended = false) {e : Bool} (hnew : u.ended = e) (task : String) :
    ofTask (turns.set i u) task + (if task = t.task then 1 else 0) =
      ofTask turns task + if e = false ∧ task = u.task then 1 else 0 := by
  have hcount := countP_replaced (u := u) hi fun t => !t.ended && t.task == task
  simp only [hlive, hnew, Bool.not_false, Bool.true_and, beq_iff_eq, Bool.and_eq_true, Bool.not_eq_true'] at hcount
  simp only [eq_comm (a := task)]
  exact hcount

theorem ofBuildTask_replaced (hi : turns[i]? = some t) (hlive : t.ended = false) {e : Bool} (hnew : u.ended = e)
    (build task : String) :
    ofBuildTask (turns.set i u) build task + (if t.build = some build ∧ task = t.task then 1 else 0) =
      ofBuildTask turns build task + if e = false ∧ u.build = some build ∧ task = u.task then 1 else 0 := by
  have hcount := countP_replaced (u := u) hi fun t => !t.ended && (t.build == some build && t.task == task)
  simp only [hlive, hnew, Bool.not_false, Bool.true_and, beq_iff_eq, Bool.and_eq_true, Bool.not_eq_true'] at hcount
  simp only [eq_comm (a := task)]
  exact hcount

/-- The tag of a live turn, where it has one, is taken off its Build. -/
theorem CountsBuilds.untagged {turns' : List Turn} (h : CountsBuilds s.builds turns)
    (hcount : ∀ b k, ofBuildTask turns' b k + (if t.build = some b ∧ k = t.task then 1 else 0) =
      ofBuildTask turns b k) :
    ∃ s', s.untagged t.build t.task = some s' ∧ s'.stopped = s.stopped ∧ s'.turns = s.turns ∧
      CountsBuilds s'.builds turns' := by
  cases hb : t.build with
  | none =>
    refine ⟨s, rfl, rfl, rfl, h.congr fun b k => ?_⟩
    have hsame := hcount b k
    rw [hb] at hsame
    simpa using hsame.symm
  | some build =>
    have hpos : 0 < ofBuildTask turns build t.task := by
      have hone := hcount build t.task
      rw [hb, if_pos ⟨rfl, rfl⟩] at hone
      omega
    refine h.untag hpos fun b k => ?_
    have hone := hcount b k
    rw [hb] at hone
    simp only [Option.some.injEq, eq_comm (a := build)] at hone
    omega

/-- A live turn dropped is counted no more, and no count goes below zero. -/
theorem Exact.ends (h : Exact s turns) (hi : turns[i]? = some t) (hlive : t.ended = false) :
    ∃ s', s.ends t.build t.task = some s' ∧ s'.stopped = s.stopped ∧ Exact s' (turns.set i { t with ended := true }) := by
  have htask : ∀ k, ofTask (turns.set i { t with ended := true }) k + (if k = t.task then 1 else 0) = ofTask turns k := by
    intro k
    rw [ofTask_replaced hi hlive rfl]
    simp
  have hpos : 0 < ofTask turns t.task := by
    have hone := htask t.task
    rw [if_pos rfl] at hone
    omega
  obtain ⟨fewer, hless, hcounts⟩ := h.tasks.less hpos
  have hbuild : ∀ b k, ofBuildTask (turns.set i { t with ended := true }) b k +
      (if t.build = some b ∧ k = t.task then 1 else 0) = ofBuildTask turns b k := by
    intro b k
    rw [ofBuildTask_replaced hi hlive rfl]
    simp
  obtain ⟨s', huntag, hstopped, hturns, hbuilds⟩ :=
    CountsBuilds.untagged (s := { s with turns := fewer }) h.builds hbuild
  refine ⟨s', ?_, hstopped, ?_, hbuilds⟩
  · rw [GateState.ends, hless]
    exact huntag
  · rw [hturns]
    refine hcounts.congr fun k => ?_
    have hone := htask k
    omega

/-- A live turn made one of a Build's is counted there, and no more where it was. -/
theorem Exact.rebuilds (h : Exact s turns) (hi : turns[i]? = some t) (hlive : t.ended = false) (build : String) :
    ∃ s', s.rebuilds t.build build t.task = some s' ∧ s'.stopped = s.stopped ∧
      Exact s' (turns.set i { t with build := some build }) := by
  have hbuild : ∀ b k, ofBuildTask (turns.set i { t with build := none }) b k +
      (if t.build = some b ∧ k = t.task then 1 else 0) = ofBuildTask turns b k := by
    intro b k
    have hone := ofBuildTask_replaced (u := { t with build := none }) hi hlive (e := false) hlive b k
    simpa using hone
  obtain ⟨s', huntag, hstopped, hturns, hbuilds⟩ := CountsBuilds.untagged h.builds hbuild
  refine ⟨s'.tag build t.task, ?_, hstopped, ?_, ?_⟩
  · rw [GateState.rebuilds, huntag]
    rfl
  · change Counts s'.turns _
    rw [hturns]
    refine h.tasks.congr fun k => ?_
    have hone := ofTask_replaced (u := { t with build := some build }) hi hlive (e := false) hlive k
    simp only [true_and] at hone
    omega
  · refine hbuilds.tag fun b k => ?_
    have hone := ofBuildTask_replaced (u := { t with build := some build }) hi hlive (e := false) hlive b k
    have hnone := hbuild b k
    simp only [true_and, Option.some.injEq, eq_comm (a := build)] at hone
    omega

/-- No turn is counted just when none is live. -/
theorem Exact.isEmpty_iff (h : Exact s turns) : s.turns.isEmpty = true ↔ ∀ t ∈ turns, t.ended = true := by
  rw [h.tasks.isEmpty_iff]
  constructor
  · intro hzero t ht
    have hnot := List.countP_eq_zero.mp (hzero t.task) t ht
    simpa using hnot
  · intro hended task
    refine List.countP_eq_zero.mpr fun t ht => ?_
    simp [hended t ht]

theorem ofTask_sub_ofBuildTask (turns : List Turn) (build task : String) :
    ofTask turns task - ofBuildTask turns build task =
      turns.countP fun t => !t.ended && (t.task == task && t.build != some build) := by
  have hsplit : ofTask turns task = ofBuildTask turns build task +
      turns.countP fun t => !t.ended && (t.task == task && t.build != some build) := by
    induction turns with
    | nil => rfl
    | cons t turns ih =>
      simp only [ofTask, ofBuildTask, List.countP_cons] at ih ⊢
      rw [ih]
      cases t.ended <;> cases ht : t.task == task <;> cases hb : t.build == some build <;> simp [hb, bne] <;> omega
  omega

/-- Without a Build's turns, none is counted just when every live turn is of that Build. -/
theorem Exact.butBuild_isEmpty_iff (h : Exact s turns) (build : String) :
    (s.butBuild build).turns.isEmpty = true ↔ ∀ t ∈ turns, t.ended = false → t.build = some build := by
  have hcounts : Counts (s.butBuild build).turns fun task => ofTask turns task - ofBuildTask turns build task := by
    have hspared := h.builds.counts build
    unfold GateState.butBuild
    cases hb : s.builds[build]? with
    | none =>
      rw [hb] at hspared
      refine h.tasks.congr fun task => ?_
      rw [← hspared.getD]
      simp
    | some spared =>
      rw [hb] at hspared
      exact h.tasks.without hspared
  rw [hcounts.isEmpty_iff]
  simp only [ofTask_sub_ofBuildTask, List.countP_eq_zero, Bool.and_eq_true, Bool.not_eq_true', beq_iff_eq, bne_iff_ne]
  constructor
  · intro hnone t ht hlive
    by_contra hne
    exact hnone t.task t ht ⟨hlive, rfl, hne⟩
  · rintro hall task t ht ⟨hlive, -, hne⟩
    exact hne (hall t ht hlive)

end Counting

end DistributedMesh.Gating
