import DistributedMesh.MeshAdmission

namespace DistributedMesh.MeshDelete

open Std (ExtTreeMap)
open GuardedRuns KeyedMaps

variable {Owner Reply : Type}

/-- The sender an event admits for the mesh. -/
def Event.admittedTo (meshId : String) : Event Owner Reply → Option Owner
  | .admitted _ _ (.refused _) => none
  | .admitted key sender _ => if key.meshId = meshId then some sender else none
  | .ended _ _ => none

/-- The sender admitted last for the mesh. -/
def lastAdmitted (log : List (Event Owner Reply)) (meshId : String) : Option Owner :=
  (log.filterMap (Event.admittedTo meshId)).getLast?

/-- The owner told of the end. -/
def MeshDeleteRunEnd.told : MeshDeleteRunEnd Owner → Option Owner
  | .exited _ owner _ => some owner
  | .incomplete _ owner _ => some owner
  | .forgotten => none

/-- The sender waits for the end of the run it started or joined. -/
def MeshDeleteAdmission.Waits : MeshDeleteAdmission Reply → Prop
  | .start => True
  | .running => True
  | _ => False

def RunPoint.key : RunPoint Owner → Option MeshDeleteKey
  | .runs key => some key
  | .answered key _ => some key
  | _ => none

/-- A sender of the log was superseded by one admitted later, was told the end, or is who the run in progress tells. -/
def Settled (runs : MeshDeleteRuns Owner) (log : List (Event Owner Reply)) (i : Nat) (meshId : String) (sender : Owner) :
    Prop :=
  (∃ j event later, i < j ∧ log[j]? = some event ∧ event.admittedTo meshId = some later) ∨
  (∃ j how, i < j ∧ log[j]? = some (.ended meshId how) ∧ how.told = some sender) ∨
  ∃ key, runs[meshId]? = some (.running key sender)

theorem lastAdmitted_append (log : List (Event Owner Reply)) (e : Event Owner Reply) (meshId : String) :
    lastAdmitted (log ++ [e]) meshId = (e.admittedTo meshId).or (lastAdmitted log meshId) := by
  unfold lastAdmitted
  rw [List.filterMap_append]
  cases hadmitted : e.admittedTo meshId with
  | none => simp [hadmitted]
  | some owner => simp [hadmitted]

theorem same_key {held key : MeshDeleteKey} (hmesh : held.meshId = key.meshId) (h : workflowOrder held key ≠ .other) :
    held = key := by
  unfold workflowOrder at h
  split at h
  next => exact absurd rfl h
  next hsame =>
    rw [not_or, not_not, not_not] at hsame
    cases held
    cases key
    cases hmesh
    cases hsame.1
    cases hsame.2
    rfl

/-- What an admission does, each way it can go. -/
theorem admitKey_cases {runs : MeshDeleteRuns Owner} {key : MeshDeleteKey} {sender : Owner}
    {result : MeshDeleteRuns Owner × MeshDeleteAdmission Reply} (h : runs.admitKey key sender = result) :
    (∃ held, runs[key.meshId]? = some held ∧ workflowOrder held.key key = .other ∧
      result = (runs, .refused (.conflictingWorkflow held.key.identity key.identity))) ∨
    (∃ held owner, runs[key.meshId]? = some (.running held owner) ∧ workflowOrder held key ≠ .other ∧
      result = (runs.insert key.meshId (.running key sender), .running)) ∨
    (∃ held owner manifest, runs[key.meshId]? = some (.exited held owner manifest) ∧
      result = (runs.insert key.meshId (.exited key sender manifest), .repeats manifest)) ∨
    (runs[key.meshId]? = none ∧ result = (runs.insert key.meshId (.running key sender), .start)) := by
  unfold MeshDeleteRuns.admitKey at h
  split at h
  next held hheld =>
    split at h
    next hother => exact .inl ⟨held, hheld, hother, h.symm⟩
    next hsame =>
      cases held with
      | running k owner => exact .inr (.inl ⟨k, owner, hheld, hsame, h.symm⟩)
      | exited k owner manifest => exact .inr (.inr (.inl ⟨k, owner, manifest, hheld, h.symm⟩))
  next hnone => exact .inr (.inr (.inr ⟨hnone, h.symm⟩))

/-- The log against the leaves held. -/
structure Logged (runs : MeshDeleteRuns Owner) (log : List (Event Owner Reply)) : Prop where
  last : ∀ (meshId : String) (run : MeshDeleteRun Owner), runs[meshId]? = some run → lastAdmitted log meshId = some run.owner
  told : ∀ (i : Nat) (meshId : String) (how : MeshDeleteRunEnd Owner), log[i]? = some (.ended meshId how) →
    ∃ owner, how.told = some owner ∧ lastAdmitted (log.take i) meshId = some owner
  waits : ∀ (i : Nat) (key : MeshDeleteKey) (sender : Owner) (admission : MeshDeleteAdmission Reply),
    log[i]? = some (.admitted key sender admission) → admission.Waits → Settled runs log i key.meshId sender

variable {runs after : MeshDeleteRuns Owner} {log : List (Event Owner Reply)}

/-- An event is logged: who is held then is who was admitted last, an end told who was held, and whoever waited on a run that
is no longer held was told or superseded. -/
theorem Logged.append {e : Event Owner Reply} (h : Logged runs log)
    (hlast : ∀ (meshId : String) (run : MeshDeleteRun Owner), after[meshId]? = some run →
      (e.admittedTo meshId).or (lastAdmitted log meshId) = some run.owner)
    (hended : ∀ meshId how, e = .ended meshId how → ∃ owner, how.told = some owner ∧ lastAdmitted log meshId = some owner)
    (hruns : ∀ (meshId : String) (key : MeshDeleteKey) (owner : Owner), runs[meshId]? = some (.running key owner) →
      (∃ later, e.admittedTo meshId = some later) ∨ (∃ how, e = .ended meshId how ∧ how.told = some owner) ∨
        ∃ key, after[meshId]? = some (.running key owner))
    (hnew : ∀ key sender admission, e = .admitted key sender admission → admission.Waits →
      ∃ k, after[key.meshId]? = some (.running k sender)) : Logged after (log ++ [e]) := by
  have hlater : (log ++ [e])[log.length]? = some e := List.getElem?_concat_length
  have hkept : ∀ (j : Nat) (x : Event Owner Reply), log[j]? = some x → (log ++ [e])[j]? = some x := by
    intro j x hj
    rw [List.getElem?_append_left (List.getElem?_eq_some_iff.mp hj).1, hj]
  refine ⟨?_, ?_, ?_⟩
  · intro meshId run hrun
    rw [lastAdmitted_append]
    exact hlast meshId run hrun
  · intro i meshId how hi
    obtain ⟨hlt, hi⟩ | ⟨rfl, he⟩ := getElem?_of_append hi
    · rw [List.take_append_of_le_length (Nat.le_of_lt hlt)]
      exact h.told i meshId how hi
    · rw [List.take_left]
      exact hended meshId how he.symm
  · intro i key sender admission hi hwaits
    obtain ⟨hlt, hi⟩ | ⟨rfl, he⟩ := getElem?_of_append hi
    · obtain ⟨j, event, later, hij, hj, hadmitted⟩ | ⟨j, how, hij, hj, htold⟩ | ⟨k, hrunning⟩ :=
        h.waits i key sender admission hi hwaits
      · exact .inl ⟨j, event, later, hij, hkept j event hj, hadmitted⟩
      · exact .inr (.inl ⟨j, how, hij, hkept j _ hj, htold⟩)
      · obtain ⟨later, hadmitted⟩ | ⟨how, rfl, htold⟩ | hstill := hruns key.meshId k sender hrunning
        · exact .inl ⟨log.length, e, later, hlt, hlater, hadmitted⟩
        · exact .inr (.inl ⟨log.length, how, hlt, hlater, htold⟩)
        · exact .inr (.inr hstill)
    · exact .inr (.inr (hnew key sender admission he.symm hwaits))

/-- A sender is admitted and held as the owner. -/
theorem Logged.admits (h : Logged runs log) {key : MeshDeleteKey} {sender : Owner} {admission : MeshDeleteAdmission Reply}
    {run : MeshDeleteRun Owner} (howner : run.owner = sender)
    (hadmitted : ∀ meshId, (Event.admitted key sender admission).admittedTo meshId =
      if key.meshId = meshId then some sender else none)
    (hwaits : admission.Waits → ∃ k, run = .running k sender) :
    Logged (runs.insert key.meshId run) (log ++ [.admitted key sender admission]) := by
  refine h.append ?_ (fun meshId how he => by cases he) ?_ ?_
  · intro meshId found hfound
    rw [getElem?_insert_eq] at hfound
    rw [hadmitted]
    split at hfound
    next hmesh =>
      cases hfound
      rw [if_pos hmesh, howner]
      rfl
    next hmesh =>
      rw [if_neg hmesh]
      exact h.last meshId found hfound
  · intro meshId k owner hrunning
    rw [hadmitted, getElem?_insert_eq]
    by_cases hmesh : key.meshId = meshId
    · rw [if_pos hmesh]
      exact .inl ⟨sender, rfl⟩
    · rw [if_neg hmesh, if_neg hmesh]
      exact .inr (.inr ⟨k, hrunning⟩)
  · intro k o a he hw
    cases he
    obtain ⟨k, rfl⟩ := hwaits hw
    exact ⟨k, by rw [getElem?_insert_eq, if_pos rfl]⟩

/-- The owner held of a run is told its end. -/
theorem Logged.ends (h : Logged runs log) {meshId : String} {key : MeshDeleteKey} {owner : Owner}
    (hrunning : runs[meshId]? = some (.running key owner)) {how : MeshDeleteRunEnd Owner} (htold : how.told = some owner)
    (hafter : ∀ run, after[meshId]? = some run → run.owner = owner)
    (hothers : ∀ other, other ≠ meshId → after[other]? = runs[other]?) : Logged after (log ++ [.ended meshId how]) := by
  have hlast := h.last meshId _ hrunning
  refine h.append ?_ ?_ ?_ (fun k o a he => by cases he)
  · intro other run hrun
    show lastAdmitted log other = some run.owner
    by_cases hmesh : other = meshId
    · subst hmesh
      rw [hlast, hafter run hrun]
      rfl
    · rw [hothers other hmesh] at hrun
      exact h.last other run hrun
  · intro m e he
    cases he
    exact ⟨owner, htold, hlast⟩
  · intro other k o hother
    by_cases hmesh : other = meshId
    · subst hmesh
      cases hrunning.symm.trans hother
      exact .inr (.inl ⟨how, rfl, htold⟩)
    · rw [hothers other hmesh]
      exact .inr (.inr ⟨k, hother⟩)

/-- The runs in progress against the leaves held. -/
structure Staffed (runs : MeshDeleteRuns Owner) (tasks : List (RunTask Owner)) : Prop where
  keyed : ∀ (meshId : String) (run : MeshDeleteRun Owner), runs[meshId]? = some run → run.key.meshId = meshId
  exclusive : Exclusive RunTask.holds tasks
  /-- A run in progress is of a leave whose workflows run, under its key. -/
  live : ∀ task ∈ tasks, ∀ meshId, task.holds = some meshId →
    ∃ key owner, runs[meshId]? = some (.running key owner) ∧ ∀ k, task.point.key = some k → k = key
  staffed : ∀ (meshId : String) (key : MeshDeleteKey) (owner : Owner), runs[meshId]? = some (.running key owner) →
    ∃ task ∈ tasks, task.holds = some meshId

namespace Staffed

variable {tasks : List (RunTask Owner)} {i : Nat} {old new : RunTask Owner}

/-- The run in progress of a mesh moves on, under the key of the leave. -/
theorem set (h : Staffed runs tasks) (hi : tasks[i]? = some old) (hholds : new.holds = old.holds)
    (hkey : ∀ (meshId : String) (key : MeshDeleteKey) (owner : Owner), old.holds = some meshId →
      runs[meshId]? = some (.running key owner) → ∀ k, new.point.key = some k → k = key) :
    Staffed runs (tasks.set i new) := by
  have hold := List.mem_of_getElem? hi
  refine ⟨h.keyed, h.exclusive.set hi fun k hk => .inl (hholds ▸ hk), ?_, ?_⟩
  · refine forall_mem_set h.live fun meshId hmesh => ?_
    rw [hholds] at hmesh
    obtain ⟨key, owner, hrunning, _⟩ := h.live old hold meshId hmesh
    exact ⟨key, owner, hrunning, hkey meshId key owner hmesh hrunning⟩
  · intro meshId key owner hrunning
    refine exists_mem_set hi (h.staffed meshId key owner hrunning) fun hmesh => ?_
    rw [hholds]
    exact hmesh

/-- A run ends: its leave is no longer one whose workflows run. -/
theorem ends (h : Staffed runs tasks) (hi : tasks[i]? = some old) {meshId : String} (hold : old.holds = some meshId)
    (hnew : new.holds = none) (hkeyed : ∀ run, after[meshId]? = some run → run.key.meshId = meshId)
    (hended : ∀ key owner, after[meshId]? ≠ some (.running key owner))
    (hothers : ∀ other, other ≠ meshId → after[other]? = runs[other]?) : Staffed after (tasks.set i new) := by
  have hlets : new.holds ≠ some meshId := by
    rw [hnew]
    intro hk
    cases hk
  have hfree := h.exclusive.free_of_set hi hold hlets
  have hexclusive : Exclusive RunTask.holds (tasks.set i new) := by
    refine h.exclusive.set hi fun k hk => ?_
    rw [hnew] at hk
    cases hk
  have hlive : ∀ task ∈ tasks.set i new, ∀ other, task.holds = some other →
      ∃ key owner, runs[other]? = some (.running key owner) ∧ ∀ k, task.point.key = some k → k = key := by
    refine forall_mem_set h.live fun other hother => ?_
    rw [hnew] at hother
    cases hother
  refine ⟨?_, hexclusive, ?_, ?_⟩
  · intro other run hrun
    by_cases hmesh : other = meshId
    · subst hmesh
      exact hkeyed run hrun
    · rw [hothers other hmesh] at hrun
      exact h.keyed other run hrun
  · intro task htask other hother
    have hne : other ≠ meshId := by
      rintro rfl
      exact hfree task htask hother
    rw [hothers other hne]
    exact hlive task htask other hother
  · intro other key owner hrunning
    have hne : other ≠ meshId := by
      rintro rfl
      exact hended key owner hrunning
    rw [hothers other hne] at hrunning
    refine exists_mem_set hi (h.staffed other key owner hrunning) fun hmesh => ?_
    exact absurd (Option.some.inj (hmesh.symm.trans hold)) hne

/-- A leave that is held gets another owner: its workflows run as they did, under the same key. -/
theorem reowned (h : Staffed runs tasks) {meshId : String} {held run : MeshDeleteRun Owner}
    (hheld : runs[meshId]? = some held) (hkey : run.key.meshId = meshId)
    (hruns : ∀ key owner, held = .running key owner → ∃ next, run = .running key next)
    (hran : ∀ key owner, run = .running key owner → ∃ k o, held = .running k o) :
    Staffed (runs.insert meshId run) tasks := by
  refine ⟨?_, h.exclusive, ?_, ?_⟩
  · intro other found hfound
    rw [getElem?_insert_eq] at hfound
    split at hfound
    next hmesh =>
      cases hfound
      rw [hkey, hmesh]
    next => exact h.keyed other found hfound
  · intro task htask other hother
    obtain ⟨key, owner, hrunning, hk⟩ := h.live task htask other hother
    rw [getElem?_insert_eq]
    split
    next hmesh =>
      subst hmesh
      obtain ⟨next, hrun⟩ := hruns key owner (Option.some.inj (hheld.symm.trans hrunning))
      exact ⟨key, next, congrArg some hrun, hk⟩
    next => exact ⟨key, owner, hrunning, hk⟩
  · intro other key owner hrunning
    rw [getElem?_insert_eq] at hrunning
    split at hrunning
    next hmesh =>
      subst hmesh
      obtain ⟨k, o, rfl⟩ := hran key owner (Option.some.inj hrunning)
      exact h.staffed meshId k o hheld
    next => exact h.staffed other key owner hrunning

/-- The first workflow of a leave begins its run. -/
theorem begins (h : Staffed runs tasks) {key : MeshDeleteKey} (hnone : runs[key.meshId]? = none) (sender : Owner) :
    Staffed (runs.insert key.meshId (.running key sender)) (tasks ++ [⟨key.meshId, .reads⟩]) := by
  have hfree : LockFree RunTask.holds tasks key.meshId := by
    intro task htask hholds
    obtain ⟨k, owner, hrunning, _⟩ := h.live task htask key.meshId hholds
    cases hnone.symm.trans hrunning
  refine ⟨?_, ?_, ?_, ?_⟩
  · intro other run hrun
    rw [getElem?_insert_eq] at hrun
    split at hrun
    next hmesh =>
      cases hrun
      exact hmesh
    next => exact h.keyed other run hrun
  · refine h.exclusive.append_of_free fun k hk => ?_
    cases hk
    exact hfree
  · intro task htask other hother
    rw [getElem?_insert_eq]
    obtain htask | htask := List.mem_append.mp htask
    · have hne : key.meshId ≠ other := by
        rintro rfl
        exact hfree task htask hother
      rw [if_neg hne]
      exact h.live task htask other hother
    · obtain rfl := List.mem_singleton.mp htask
      cases hother
      rw [if_pos rfl]
      exact ⟨key, sender, rfl, (fun k hk => by cases hk)⟩
  · intro other k owner hrunning
    rw [getElem?_insert_eq] at hrunning
    split at hrunning
    next hmesh =>
      subst hmesh
      exact ⟨_, List.mem_append_right _ List.mem_cons_self, rfl⟩
    next =>
      obtain ⟨task, htask, hholds⟩ := h.staffed other k owner hrunning
      exact ⟨task, List.mem_append_left _ htask, hholds⟩

end Staffed

namespace LeavingPrimary

variable {s : LeavingPrimary Owner Reply}

/-- The leaves held, the runs in progress and the log agree. -/
structure Kept (s : LeavingPrimary Owner Reply) : Prop where
  staffed : Staffed s.runs s.tasks
  logged : Logged s.runs s.log

theorem Kept.admitted (h : s.Kept) (key : MeshDeleteKey) (sender : Owner) : (s.admitted key sender).1.Kept := by
  unfold LeavingPrimary.admitted
  generalize hadmits : s.runs.admitKey key sender = result
  obtain ⟨held, _, _, rfl⟩ | ⟨held, owner, hheld, hsame, rfl⟩ | ⟨held, owner, manifest, hheld, rfl⟩ | ⟨hnone, rfl⟩ :=
    admitKey_cases hadmits
  · refine ⟨?_, ?_⟩
    · show Staffed s.runs (s.tasks ++ [])
      rw [List.append_nil]
      exact h.staffed
    · exact h.logged.append h.logged.last (fun _ _ he => by cases he)
        (fun _ k owner hrunning => .inr (.inr ⟨k, hrunning⟩)) (fun _ _ _ he hwaits => by cases he; cases hwaits)
  · have hkey : held = key := same_key (h.staffed.keyed key.meshId _ hheld) hsame
    refine ⟨?_, h.logged.admits rfl (fun _ => rfl) fun _ => ⟨key, rfl⟩⟩
    show Staffed _ (s.tasks ++ [])
    rw [List.append_nil]
    refine h.staffed.reowned hheld rfl (fun k o hrun => ?_) fun _ _ _ => ⟨held, owner, rfl⟩
    cases hrun
    exact ⟨sender, by rw [hkey]⟩
  · refine ⟨?_, h.logged.admits rfl (fun _ => rfl) (fun hwaits => by cases hwaits)⟩
    show Staffed _ (s.tasks ++ [])
    rw [List.append_nil]
    exact h.staffed.reowned hheld rfl (fun _ _ hrun => by cases hrun) (fun _ _ hrun => by cases hrun)
  · exact ⟨h.staffed.begins hnone sender, h.logged.admits rfl (fun _ => rfl) fun _ => ⟨key, rfl⟩⟩

/-- The leave of a run in progress, under whose key it runs. -/
theorem Kept.leave (h : s.Kept) {i : Nat} {meshId : String} {point : RunPoint Owner}
    (hi : s.tasks[i]? = some ⟨meshId, point⟩) (hholds : RunTask.holds ⟨meshId, point⟩ = some meshId) :
    ∃ key owner, s.runs[meshId]? = some (.running key owner) ∧
      key.meshId = meshId ∧ ∀ k, point.key = some k → k = key := by
  obtain ⟨key, owner, hrunning, hkey⟩ := h.staffed.live _ (List.mem_of_getElem? hi) meshId hholds
  exact ⟨key, owner, hrunning, h.staffed.keyed meshId _ hrunning, hkey⟩

theorem Kept.reads (h : s.Kept) (i : Nat) : (s.step (.reads i)).Kept := by
  unfold step
  dsimp only
  split
  next meshId hi =>
    obtain ⟨key, owner, hrunning, _⟩ := h.leave hi rfl
    have hread : s.runs.running meshId = some (key, owner) := by
      unfold MeshDeleteRuns.running
      rw [hrunning]
    rw [hread]
    refine ⟨h.staffed.set hi rfl fun m k o hmesh hrun found hfound => ?_, h.logged⟩
    cases hmesh
    cases hfound
    cases hrunning.symm.trans hrun
    rfl
  next => exact h

theorem Kept.answers (h : s.Kept) (i : Nat) (result : Except String ExitManifest) : (s.step (.answers i result)).Kept := by
  unfold step
  dsimp only
  split
  next meshId key hi =>
    obtain ⟨k, owner, hrunning, _, hkey⟩ := h.leave hi rfl
    refine ⟨h.staffed.set hi rfl fun m c o hmesh hrun found hfound => ?_, h.logged⟩
    cases hmesh
    cases hfound
    cases hrunning.symm.trans hrun
    exact hkey key rfl
  next => exact h

/-- A run ends, told to the owner held: the leave has exited under it, or is forgotten. -/
theorem Kept.ends (h : s.Kept) {i : Nat} {old : RunTask Owner} {meshId : String} {key : MeshDeleteKey} {owner : Owner}
    (hi : s.tasks[i]? = some old) (hold : old.holds = some meshId) (hrunning : s.runs[meshId]? = some (.running key owner))
    {how : MeshDeleteRunEnd Owner} (htold : how.told = some owner) {after : MeshDeleteRuns Owner}
    (hafter : ∀ run, after[meshId]? = some run → ∃ manifest, run = .exited key owner manifest)
    (hothers : ∀ other, other ≠ meshId → after[other]? = s.runs[other]?) :
    (LeavingPrimary.ends { s with runs := after } i meshId how).Kept := by
  have hkeyed : key.meshId = meshId := h.staffed.keyed meshId _ hrunning
  refine ⟨h.staffed.ends hi hold rfl ?_ ?_ hothers, h.logged.ends hrunning htold ?_ hothers⟩
  · intro run hrun
    obtain ⟨manifest, rfl⟩ := hafter run hrun
    exact hkeyed
  · intro k o hrun
    obtain ⟨manifest, hexited⟩ := hafter _ hrun
    cases hexited
  · intro run hrun
    obtain ⟨manifest, rfl⟩ := hafter run hrun
    rfl

/-- A run whose member workflows answered ends at its next turn and tells the owner held: its leave has exited under it, or is
forgotten. -/
theorem Kept.answered_ends (h : s.Kept) {i : Nat} {meshId : String} {ran : MeshDeleteKey} {result : Except String ExitManifest}
    (hi : s.tasks[i]? = some ⟨meshId, .answered ran result⟩) :
    ∃ key owner how after, s.runs[meshId]? = some (.running key owner) ∧ how.told = some owner ∧
      (∀ run, after[meshId]? = some run → ∃ manifest, run = .exited key owner manifest) ∧
      (∀ other, other ≠ meshId → after[other]? = s.runs[other]?) ∧
      s.step (.tells i) = LeavingPrimary.ends { s with runs := after } i meshId how := by
  obtain ⟨key, owner, hrunning, hmesh, hkey⟩ := h.leave hi rfl
  unfold step
  dsimp only
  rw [hi]
  cases result with
  | ok manifest =>
    cases hkey ran rfl
    subst hmesh
    have hexited : s.runs.exited ran manifest =
        (s.runs.insert ran.meshId (.exited ran owner manifest), .exited owner) := by
      unfold MeshDeleteRuns.exited
      rw [hrunning]
      dsimp only
      rw [if_pos rfl]
    dsimp only
    rw [hexited]
    refine ⟨ran, owner, .exited ran owner manifest, _, hrunning, rfl, ?_, ?_, rfl⟩
    · intro run hrun
      rw [getElem?_insert_eq, if_pos rfl] at hrun
      cases hrun
      exact ⟨manifest, rfl⟩
    · intro other hne
      rw [getElem?_insert_eq, if_neg (Ne.symm hne)]
  | error reason =>
    have hincomplete : s.runs.incomplete meshId = (s.runs.erase meshId, some (key, owner)) := by
      unfold MeshDeleteRuns.incomplete
      rw [hrunning]
      rfl
    dsimp only
    rw [hincomplete]
    refine ⟨key, owner, .incomplete key owner reason, _, hrunning, rfl, ?_, ?_, rfl⟩
    · intro run hrun
      rw [getElem?_erase_eq, if_pos rfl] at hrun
      cases hrun
    · intro other hne
      rw [getElem?_erase_eq, if_neg (Ne.symm hne)]

theorem Kept.tells (h : s.Kept) (i : Nat) : (s.step (.tells i)).Kept := by
  by_cases hanswered : ∃ meshId key result, s.tasks[i]? = some ⟨meshId, .answered key result⟩
  · obtain ⟨meshId, ran, result, hi⟩ := hanswered
    obtain ⟨key, owner, how, after, hrunning, htold, hafter, hothers, hends⟩ := h.answered_ends hi
    rw [hends]
    exact h.ends hi rfl hrunning htold hafter hothers
  · unfold step
    dsimp only
    split
    next meshId ran manifest hi => exact absurd ⟨meshId, ran, _, hi⟩ hanswered
    next meshId ran reason hi => exact absurd ⟨meshId, ran, _, hi⟩ hanswered
    next => exact h

theorem Kept.step (h : s.Kept) (turn : Turn Owner Reply) : (s.step turn).Kept := by
  cases turn with
  | looks key sender => exact ⟨h.staffed, h.logged⟩
  | commits i row =>
    unfold LeavingPrimary.step
    dsimp only
    split
    next => exact ⟨h.staffed, h.logged⟩
    next => exact h
  | admits i =>
    unfold LeavingPrimary.step
    dsimp only
    split
    next key sender _ _ => exact ⟨(h.admitted key sender).staffed, (h.admitted key sender).logged⟩
    next => exact h
  | asks key sender => exact h.admitted key sender
  | reads i => exact h.reads i
  | answers i result => exact h.answers i result
  | tells i => exact h.tells i

theorem kept_empty : (empty : LeavingPrimary Owner Reply).Kept := by
  have hnone : ∀ (meshId : String) (run : MeshDeleteRun Owner), (∅ : MeshDeleteRuns Owner)[meshId]? ≠ some run := by
    intro meshId run hrun
    cases hrun.symm.trans ExtTreeMap.getElem?_empty
  refine ⟨⟨fun m run hrun => absurd hrun (hnone m run), exclusive_nil, ?_, fun m k o hrun => absurd hrun (hnone m _)⟩,
    ⟨fun m run hrun => absurd hrun (hnone m run), ?_, ?_⟩⟩
  · intro task htask
    cases htask
  · intro i m how hi
    cases hi
  · intro i k o a hi
    cases hi

/-- Every order of the calls and the runs: one run of a mesh's member workflows is in progress at most; a conflicting
workflow changes nothing held; a run that ends tells the sender admitted last before its end; whoever waits on a run is
superseded, told, or who the run in progress will tell; and a run whose workflows answered ends at its next turn. -/
theorem one_run_per_leave (turns : List (Turn Owner Reply)) :
    let s := turns.foldl LeavingPrimary.step empty
    Exclusive RunTask.holds s.tasks ∧
    (∀ (key : MeshDeleteKey) (sender : Owner) (held : MeshDeleteRun Owner), s.runs[key.meshId]? = some held →
      workflowOrder held.key key = .other →
        s.runs.admitKey key sender =
          (s.runs, (.refused (.conflictingWorkflow held.key.identity key.identity) : MeshDeleteAdmission Reply))) ∧
    (∀ (i : Nat) (meshId : String) (how : MeshDeleteRunEnd Owner), s.log[i]? = some (.ended meshId how) →
      ∃ owner, how.told = some owner ∧ lastAdmitted (s.log.take i) meshId = some owner) ∧
    (∀ (i : Nat) (key : MeshDeleteKey) (sender : Owner) (admission : MeshDeleteAdmission Reply),
      s.log[i]? = some (.admitted key sender admission) → admission.Waits → Settled s.runs s.log i key.meshId sender) ∧
    (∀ (meshId : String) (key : MeshDeleteKey) (owner : Owner), s.runs[meshId]? = some (.running key owner) →
      ∃ task ∈ s.tasks, task.holds = some meshId) ∧
    ∀ (i : Nat) (meshId : String) (key : MeshDeleteKey) (result : Except String ExitManifest),
      s.tasks[i]? = some ⟨meshId, .answered key result⟩ →
        ∃ how owner, (s.step (.tells i)).log = s.log ++ [.ended meshId how] ∧
          how.told = some owner ∧ lastAdmitted s.log meshId = some owner := by
  intro s
  have hkept : s.Kept := invariant_run (I := Kept) (fun _ turn h => h.step turn) kept_empty turns
  refine ⟨hkept.staffed.exclusive, ?_, hkept.logged.told, hkept.logged.waits, hkept.staffed.staffed, ?_⟩
  · intro key sender held hheld hother
    unfold MeshDeleteRuns.admitKey
    rw [hheld]
    dsimp only
    rw [if_pos hother]
  · intro i meshId key result hi
    obtain ⟨held, owner, how, after, hrunning, htold, _, _, hends⟩ := hkept.answered_ends hi
    exact ⟨how, owner, by rw [hends]; rfl, htold, hkept.logged.last meshId _ hrunning⟩

/-- A second sender joins the run the first one started, and the member workflows answer. -/
def joinedTurns : List (Turn Nat Unit) :=
  let key : MeshDeleteKey :=
    ⟨"mesh00000002", "0000000000b1", Build.operationOn "mesh.delete" (.mesh "mesh00000002")⟩
  [.looks key 1, .commits 0 .applied, .admits 0, .reads 0, .looks key 2, .admits 1, .answers 0 (.error "a member stays")]

theorem one_run_per_leave_joined :
    let s := joinedTurns.foldl LeavingPrimary.step empty
    lastAdmitted s.log "mesh00000002" = some 2 ∧
      ∃ how, (s.step (.tells 0)).log = s.log ++ [.ended "mesh00000002" how] ∧ how.told = some 2 := by
  intro s
  have hlast : lastAdmitted s.log "mesh00000002" = some 2 := by decide +kernel
  obtain ⟨how, owner, hlog, htold, howner⟩ := (one_run_per_leave joinedTurns).2.2.2.2.2 0 "mesh00000002"
    ⟨"mesh00000002", "0000000000b1", Build.operationOn "mesh.delete" (.mesh "mesh00000002")⟩ (.error "a member stays") (by rfl)
  have htwo : owner = 2 := Option.some.inj (howner.symm.trans hlast)
  exact ⟨hlast, how, hlog, htwo ▸ htold⟩

end LeavingPrimary

end DistributedMesh.MeshDelete
