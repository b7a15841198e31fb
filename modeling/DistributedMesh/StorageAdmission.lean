import DistributedMesh.BuildReads

namespace DistributedMesh.Storage

open GuardedRuns Build

/-- A Build in the builds store: whether it is a fabric.delete, and where it is in its life. -/
structure AcceptedBuild where
  deletesFabric : Bool
  state : BuildState
deriving DecidableEq

def AcceptedBuild.inProgress (b : AcceptedBuild) : Bool := b.state == .pending || b.state == .running

/-- The current Build of Builds listed newest first: one that ended short is skipped. -/
def current (builds : List AcceptedBuild) : Option AcceptedBuild := builds.find? fun b => !b.state.endedShort

def fabricDeleteInForce (builds : List AcceptedBuild) : Bool :=
  (current builds).any AcceptedBuild.deletesFabric || builds.head?.any fun b => b.deletesFabric && b.state.endedShort

/-- Whether a Build accepted before the one at the position, and after the newest that completed, has not ended. -/
def interruptedOpen (builds : List AcceptedBuild) (k : Nat) : Bool :=
  ((builds.drop (k + 1)).takeWhile fun b => b.state != .complete).any AcceptedBuild.inProgress

/-- Whether a Build that ended short runs again when it is resubmitted: none is in progress, and it is newer than the one that
completed. -/
def drivableAgain (builds : List AcceptedBuild) (k : Nat) : Bool :=
  (builds.take (k + 1)).all (fun b => b.state.endedShort) && !(current builds).any AcceptedBuild.inProgress

def startBuild (builds : List AcceptedBuild) (k : Nat) : List AcceptedBuild :=
  match builds[k]? with
  | some b => if b.state = .pending then builds.set k { b with state := .running } else builds
  | none => builds

/-- A fabric.delete tears nothing down before every Build it interrupts has ended; a Build that never ran could not start. -/
def endBuild (builds : List AcceptedBuild) (k : Nat) (state : BuildState) : List AcceptedBuild :=
  match builds[k]? with
  | some b =>
    if (b.state = .running ∧ state = .complete ∧ ¬ (b.deletesFabric = true ∧ interruptedOpen builds k = true)) ∨
        (b.state = .running ∧ state.endedShort = true) ∨ (b.state = .pending ∧ state = .failed) then
      builds.set k { b with state := state }
    else builds
  | none => builds

/-- The started event of a Build that ended short, which its drive writes whatever was accepted since it read it drivable. -/
def restartBuild (builds : List AcceptedBuild) (k : Nat) : List AcceptedBuild :=
  match builds[k]? with
  | some b => builds.set k { b with state := .running }
  | none => builds

/-- Where a `submit_checked` is. -/
inductive SubmissionStage where
  | asked
  /-- It read no storage change in progress; a fabric.delete does not look. -/
  | looked
  /-- It holds the admission. -/
  | locked
  /-- A fabric.delete that read the current Build. -/
  | read
  /-- A fabric.delete that interrupted the change of an admission and waits for its end. -/
  | waiting (change : Nat)
  | waited
  /-- Past every check: it composes, compiles and writes. -/
  | ready
  | accepted
  | refused
deriving DecidableEq

/-- Where a `StorageChanges::admit`, and the change it admitted, is. -/
inductive AdmissionStage where
  | asked
  /-- It read no storage change in progress, and the providers. -/
  | looked
  /-- Its change is held as the one running. -/
  | held
  /-- It read that no Build is in progress. -/
  | read
  /-- Its started event is written and it answered `storage_updated`. -/
  | admitted
  /-- Its ended event is written. -/
  | written
  | cleared
  | ended
  | refused
deriving DecidableEq

inductive Task where
  | submission (deletes : Bool) (stage : SubmissionStage)
  | admission (stage : AdmissionStage)
deriving DecidableEq

/-- One fabric-primary: its builds store newest first, the change it runs, the holder of its admission, the calls, and the
drives that read their Build drivable again, each by how many Builds are older. -/
structure Primary where
  builds : List AcceptedBuild
  running : Option Nat
  admission : Option Nat
  tasks : List Task
  drives : List Nat
deriving DecidableEq

/-- What happens next: a call goes on by one read, write or lock; a call is refused at an await; a Build starts, ends, is read
drivable again by its drive, or is started again by it. -/
inductive Move where
  | next (i : Nat)
  | refuse (i : Nat)
  | starts (k : Nat)
  | ends (k : Nat) (state : BuildState)
  | drivable (k : Nat)
  | restarts (k : Nat)
deriving DecidableEq

namespace Primary

def start (first : AcceptedBuild) (tasks : List Task) : Primary := ⟨[first], none, none, tasks, []⟩

/-- How many Builds are older than the one at the position. -/
def older (s : Primary) (k : Nat) : Nat := s.builds.length - (k + 1)

def put (s : Primary) (i : Nat) (task : Task) : Primary := { s with tasks := s.tasks.set i task }

/-- The admission guard goes with the call. -/
def endSubmission (s : Primary) (i : Nat) (deletes : Bool) (stage : SubmissionStage) : Primary :=
  { s with admission := none }.put i (.submission deletes stage)

def nextSubmission (s : Primary) (i : Nat) (deletes : Bool) : SubmissionStage → Primary
  | .asked =>
    if deletes then
      match s.admission with
      | none => { s with admission := some i }.put i (.submission deletes .locked)
      | some _ => s
    else
      match s.running with
      | none => s.put i (.submission deletes .looked)
      | some _ => s.put i (.submission deletes .refused)
  | .looked =>
    match s.admission with
    | none => { s with admission := some i }.put i (.submission deletes .locked)
    | some _ => s
  | .locked =>
    match current s.builds with
    | none => s.endSubmission i deletes .refused
    | some b =>
      if deletes then s.put i (.submission deletes .read)
      else if b.inProgress then s.endSubmission i deletes .refused
      else s.put i (.submission deletes .ready)
  -- `interrupt_for_delete`
  | .read =>
    match s.running with
    | none => s.put i (.submission deletes .waited)
    | some change => s.put i (.submission deletes (.waiting change))
  | .waiting change =>
    match s.tasks[change]? with
    | some (.admission .ended) => s.put i (.submission deletes .waited)
    -- Its sender was dropped: the change was never admitted.
    | some (.admission .refused) => s.put i (.submission deletes .waited)
    | _ => s
  | .waited =>
    if fabricDeleteInForce s.builds then s.endSubmission i deletes .refused else s.put i (.submission deletes .ready)
  | .ready => { s with builds := ⟨deletes, .pending⟩ :: s.builds }.endSubmission i deletes .accepted
  | .accepted => s
  | .refused => s

def nextAdmission (s : Primary) (i : Nat) : AdmissionStage → Primary
  | .asked =>
    match s.running with
    | none => s.put i (.admission .looked)
    | some _ => s.put i (.admission .refused)
  | .looked =>
    match s.running with
    | none => { s with running := some i }.put i (.admission .held)
    | some _ => s.put i (.admission .refused)
  | .held =>
    if (current s.builds).any AcceptedBuild.inProgress then { s with running := none }.put i (.admission .refused)
    else s.put i (.admission .read)
  | .read => s.put i (.admission .admitted)
  | .admitted => s.put i (.admission .written)
  | .written => { s with running := none }.put i (.admission .cleared)
  | .cleared => s.put i (.admission .ended)
  | .ended => s
  | .refused => s

def refuseSubmission (s : Primary) (i : Nat) (deletes : Bool) : SubmissionStage → Primary
  | .asked | .looked => s.put i (.submission deletes .refused)
  | .accepted | .refused => s
  | _ => s.endSubmission i deletes .refused

def refuseAdmission (s : Primary) (i : Nat) : AdmissionStage → Primary
  | .asked | .looked => s.put i (.admission .refused)
  | .held | .read => { s with running := none }.put i (.admission .refused)
  | _ => s

def step (s : Primary) : Move → Primary
  | .next i =>
    match s.tasks[i]? with
    | some (.submission deletes stage) => s.nextSubmission i deletes stage
    | some (.admission stage) => s.nextAdmission i stage
    | none => s
  | .refuse i =>
    match s.tasks[i]? with
    | some (.submission deletes stage) => s.refuseSubmission i deletes stage
    | some (.admission stage) => s.refuseAdmission i stage
    | none => s
  | .starts k => { s with builds := startBuild s.builds k }
  | .ends k state => { s with builds := endBuild s.builds k state }
  -- One drive runs a Build.
  | .drivable k =>
    if drivableAgain s.builds k && !s.drives.contains (s.older k) then { s with drives := s.older k :: s.drives } else s
  | .restarts k =>
    if s.drives.contains (s.older k) then
      { s with builds := restartBuild s.builds k, drives := s.drives.erase (s.older k) }
    else s

end Primary

/-- A Build below which every Build has ended. -/
def AcceptedBuild.Bars (b : AcceptedBuild) : Prop := b.state = .complete ∨ b.inProgress = true ∧ b.deletesFabric = false

/-- What the Builds of one store keep, listed newest first: below one that completed, or one in progress that is no
fabric.delete, every Build has ended. -/
def Ordered (builds : List AcceptedBuild) : Prop :=
  builds.Pairwise fun newer older => newer.Bars → older.inProgress = false

theorem inProgress_of_endedShort {b : AcceptedBuild} (h : b.state.endedShort = true) : b.inProgress = false := by
  obtain ⟨deletes, state⟩ := b
  cases state <;> first | rfl | cases h

theorem not_bars_of_endedShort {b : AcceptedBuild} (h : b.state.endedShort = true) : ¬ b.Bars := by
  rintro (hcomplete | hopen)
  · rw [hcomplete] at h
    cases h
  · rw [inProgress_of_endedShort h] at hopen
    cases hopen.1

theorem complete_of_settled {b : AcceptedBuild} (hopen : b.inProgress = false) (hshort : b.state.endedShort = false) :
    b.state = .complete := by
  obtain ⟨deletes, state⟩ := b
  cases state with
  | complete => rfl
  | pending | running => cases hopen
  | failed | incomplete => cases hshort

theorem Ordered.settled {builds : List AcceptedBuild} (h : Ordered builds)
    (hcurrent : (current builds).any AcceptedBuild.inProgress = false) : ∀ b ∈ builds, b.inProgress = false := by
  induction builds with
  | nil => exact fun b hb => by cases hb
  | cons b builds ih =>
    obtain ⟨hbars, hrest⟩ := List.pairwise_cons.mp h
    unfold current at hcurrent
    rw [List.find?_cons] at hcurrent
    cases hshort : b.state.endedShort with
    | true =>
      rw [hshort] at hcurrent
      have hbelow := ih hrest hcurrent
      intro c hc
      rcases List.mem_cons.mp hc with rfl | hc
      · exact inProgress_of_endedShort hshort
      · exact hbelow c hc
    | false =>
      rw [hshort] at hcurrent
      have hb : b.inProgress = false := hcurrent
      have hcomplete := complete_of_settled hb hshort
      intro c hc
      rcases List.mem_cons.mp hc with rfl | hc
      · exact hb
      · exact hbars c hc (.inl hcomplete)

theorem Ordered.settled_of_takeWhile {builds : List AcceptedBuild} (h : Ordered builds)
    (hopen : (builds.takeWhile fun b => b.state != .complete).any AcceptedBuild.inProgress = false) :
    ∀ b ∈ builds, b.inProgress = false := by
  induction builds with
  | nil => exact fun b hb => by cases hb
  | cons b builds ih =>
    obtain ⟨hbars, hrest⟩ := List.pairwise_cons.mp h
    by_cases hcomplete : b.state = .complete
    · intro c hc
      rcases List.mem_cons.mp hc with rfl | hc
      · simp [AcceptedBuild.inProgress, hcomplete]
      · exact hbars c hc (.inl hcomplete)
    · rw [List.takeWhile_cons_of_pos (by simpa using hcomplete), List.any_cons, Bool.or_eq_false_iff] at hopen
      have hbelow := ih hrest hopen.2
      intro c hc
      rcases List.mem_cons.mp hc with rfl | hc
      · exact hopen.1
      · exact hbelow c hc

theorem Ordered.set {builds : List AcceptedBuild} (h : Ordered builds) {k : Nat} {b c : AcceptedBuild}
    (hk : builds[k]? = some b)
    (hbefore : c.inProgress = true → b.inProgress = true ∨ ∀ d ∈ builds.take k, ¬ d.Bars)
    (hafter : c.Bars → b.Bars ∨ ∀ d ∈ builds.drop (k + 1), d.inProgress = false) : Ordered (builds.set k c) := by
  obtain ⟨hlt, hget⟩ := List.getElem?_eq_some_iff.mp hk
  have hsplit : builds = builds.take k ++ b :: builds.drop (k + 1) := by
    rw [← hget, ← List.drop_eq_getElem_cons hlt, List.take_append_drop]
  have hset : builds.set k c = builds.take k ++ c :: builds.drop (k + 1) := by
    rw [List.set_eq_take_append_cons_drop, if_pos hlt]
  unfold Ordered at h ⊢
  rw [hsplit] at h
  rw [hset]
  obtain ⟨hnewer, hrest, hacross⟩ := List.pairwise_append.mp h
  obtain ⟨hbelow, holder⟩ := List.pairwise_cons.mp hrest
  refine List.pairwise_append.mpr ⟨hnewer, List.pairwise_cons.mpr ⟨fun d hd hbars => ?_, holder⟩, fun d hd e he hbars => ?_⟩
  · rcases hafter hbars with hbars | hsettled
    · exact hbelow d hd hbars
    · exact hsettled d hd
  · rcases List.mem_cons.mp he with rfl | he
    · cases hopen : e.inProgress with
      | false => rfl
      | true =>
        rcases hbefore hopen with hb | hnone
        · rw [hacross d hd b List.mem_cons_self hbars] at hb
          cases hb
        · exact absurd hbars (hnone d hd)
    · exact hacross d hd e (List.mem_cons_of_mem b he) hbars

section Builds

variable {builds : List AcceptedBuild}

theorem Ordered.startBuild (h : Ordered builds) (k : Nat) : Ordered (startBuild builds k) := by
  unfold Storage.startBuild
  split
  next b hk =>
    split
    next hpending =>
      have hopen : b.inProgress = true := by simp [AcceptedBuild.inProgress, hpending]
      refine h.set hk (fun _ => .inl hopen) ?_
      rintro (hcomplete | hbars)
      · cases hcomplete
      · exact .inl (.inr ⟨hopen, hbars.2⟩)
    next => exact h
  next => exact h

theorem settled_startBuild (k : Nat) (h : ∀ b ∈ builds, b.inProgress = false) :
    ∀ b ∈ startBuild builds k, b.inProgress = false := by
  unfold startBuild
  split
  next b hk =>
    split
    next hpending =>
      have hopen := h b (List.mem_of_getElem? hk)
      simp [AcceptedBuild.inProgress, hpending] at hopen
    next => exact h
  next => exact h

theorem Ordered.endBuild (h : Ordered builds) (k : Nat) (state : BuildState) : Ordered (endBuild builds k state) := by
  unfold Storage.endBuild
  split
  next b hk =>
    split
    next hend =>
      have hopen : b.inProgress = true := by
        rcases hend with hend | hend | hend <;> simp [AcceptedBuild.inProgress, hend.1]
      refine h.set hk (fun _ => .inl hopen) fun hbars => ?_
      have hshort : state.endedShort ≠ true := by
        intro hshort
        have hno : ¬ AcceptedBuild.Bars { b with state := state } := not_bars_of_endedShort hshort
        exact hno hbars
      rcases hend with ⟨_, _, hclear⟩ | hend | hend
      · cases hdeletes : b.deletesFabric with
        | false => exact .inl (.inr ⟨hopen, hdeletes⟩)
        | true =>
          have hbelow : Ordered (builds.drop (k + 1)) := h.sublist (List.drop_sublist (k + 1) builds)
          have hended : interruptedOpen builds k = false := by simpa [hdeletes] using hclear
          exact .inr (hbelow.settled_of_takeWhile hended)
      · exact absurd hend.2 hshort
      · rw [hend.2] at hshort
        exact absurd rfl hshort
    next => exact h
  next => exact h

theorem settled_endBuild (k : Nat) (state : BuildState) (h : ∀ b ∈ builds, b.inProgress = false) :
    ∀ b ∈ endBuild builds k state, b.inProgress = false := by
  unfold endBuild
  split
  next b hk =>
    split
    next hend =>
      have hopen := h b (List.mem_of_getElem? hk)
      rcases hend with hend | hend | hend <;> simp [AcceptedBuild.inProgress, hend.1] at hopen
    next => exact h
  next => exact h

theorem Ordered.restartBuild (h : Ordered builds) {k : Nat} (hagain : drivableAgain builds k = true) :
    Ordered (restartBuild builds k) := by
  unfold Storage.restartBuild
  split
  next b hk =>
    obtain ⟨hshort, hcurrent⟩ := Bool.and_eq_true_iff.mp hagain
    have hsettled := h.settled (by simpa using hcurrent)
    refine h.set hk (fun _ => .inr fun d hd => ?_) fun _ => .inr fun d hd => hsettled d (List.mem_of_mem_drop hd)
    have hd' : d ∈ builds.take (k + 1) := (List.take_sublist_take_left (Nat.le_succ k)).mem hd
    exact not_bars_of_endedShort (List.all_eq_true.mp hshort d hd')
  next => exact h

end Builds

namespace Task

/-- The change of the admission is the one held as running. -/
def holdsChange : Task → Bool
  | .admission .held => true
  | .admission .read => true
  | .admission .admitted => true
  | .admission .written => true
  | _ => false

/-- A submission past its look at the change in progress, or past its wait for one. -/
def sawNone : Task → Bool
  | .submission false .looked => true
  | .submission false .locked => true
  | .submission _ .waited => true
  | .submission _ .ready => true
  | _ => false

/-- The change a fabric.delete waits for. -/
def waitsFor : Task → Option Nat
  | .submission _ (.waiting change) => some change
  | _ => none

def holdsAdmission : Task → Bool
  | .submission _ .locked => true
  | .submission _ .read => true
  | .submission _ (.waiting _) => true
  | .submission _ .waited => true
  | .submission _ .ready => true
  | _ => false

/-- A call that goes on from having read that no Build is in progress. -/
def sawSettled : Task → Bool
  | .submission false .ready => true
  | .admission .read => true
  | _ => false

/-- Only a fabric.delete looks at the change after it read the current Build. -/
def onPath : Task → Bool
  | .submission false .read => false
  | .submission false (.waiting _) => false
  | .submission false .waited => false
  | _ => true

def Unbegun : Task → Prop
  | .submission _ stage => stage = .asked
  | .admission stage => stage = .asked

end Task

namespace Primary

/-- The change of an admission is held while no submission is past its look at the change in progress and not ended; a Build
that ended short is started again while what its drive read still holds, and while no call goes on from having read that none
is in progress. -/
def Undisturbed (s : Primary) : Move → Prop
  | .next i =>
    s.tasks[i]? = some (.admission .looked) → s.running = none →
      ∀ task ∈ s.tasks, task.sawNone = false ∧ task.waitsFor = none
  | .restarts k =>
    s.drives.contains (s.older k) = true →
      drivableAgain s.builds k = true ∧ ∀ task ∈ s.tasks, task.sawSettled = false
  | _ => True

/-- The step that writes a submission's Build into the builds store. -/
def Accepts (s : Primary) : Move → Prop
  | .next i => ∃ deletes, s.tasks[i]? = some (.submission deletes .ready)
  | _ => False

/-- The step that starts an admission's change and answers `storage_updated`. -/
def Admits (s : Primary) : Move → Prop
  | .next i => s.tasks[i]? = some (.admission .read)
  | _ => False

structure Guarded (s : Primary) : Prop where
  holds : ∀ i task, s.tasks[i]? = some task → task.holdsChange = true → s.running = some i
  held : ∀ i, s.running = some i → ∃ task, s.tasks[i]? = some task ∧ task.holdsChange = true
  saw : ∀ task ∈ s.tasks, task.sawNone = true → s.running = none
  waits : ∀ task ∈ s.tasks, ∀ change, task.waitsFor = some change → s.running = none ∨ s.running = some change
  admission : ∀ i task, s.tasks[i]? = some task → task.holdsAdmission = true → s.admission = some i
  settled : ∀ task ∈ s.tasks, task.sawSettled = true → ∀ b ∈ s.builds, b.inProgress = false
  ordered : Ordered s.builds
  path : ∀ task ∈ s.tasks, task.onPath = true

/-- A call moves on, the change that runs and the Builds left as they are; the admission is its own to take or to leave. -/
theorem Guarded.put {s t : Primary} (h : Guarded s) {i : Nat} {old new : Task} (hi : s.tasks[i]? = some old)
    (htasks : t.tasks = s.tasks.set i new) (hbuilds : t.builds = s.builds) (hrunning : t.running = s.running)
    (hchange : new.holdsChange = old.holdsChange)
    (hnone : new.sawNone = true → old.sawNone = true ∨ s.running = none)
    (hwaits : ∀ change, new.waitsFor = some change → s.running = some change)
    (hadmission : t.admission = s.admission ∨ s.admission = none ∨ s.admission = some i)
    (hlocks : new.holdsAdmission = true → t.admission = some i)
    (hsettled : new.sawSettled = true → ∀ b ∈ s.builds, b.inProgress = false) (hpath : new.onPath = true) : Guarded t := by
  have hlt : i < s.tasks.length := (List.getElem?_eq_some_iff.mp hi).1
  have hold : old ∈ s.tasks := List.mem_of_getElem? hi
  constructor
  · rw [hrunning, htasks]
    exact forall_getElem?_set (fun j task _ => h.holds j task) fun hc => h.holds i old hi (hchange ▸ hc)
  · intro j hj
    rw [hrunning] at hj
    obtain ⟨task, htask, hc⟩ := h.held j hj
    by_cases hji : j = i
    · subst hji
      rw [hi] at htask
      cases htask
      exact ⟨new, by rw [htasks]; exact List.getElem?_set_self hlt, hchange ▸ hc⟩
    · exact ⟨task, by rw [htasks, List.getElem?_set_ne (Ne.symm hji)]; exact htask, hc⟩
  · rw [hrunning, htasks]
    refine forall_mem_set h.saw fun hsaw => ?_
    rcases hnone hsaw with hsaw | hfree
    · exact h.saw old hold hsaw
    · exact hfree
  · rw [hrunning, htasks]
    exact forall_mem_set h.waits fun change hw => .inr (hwaits change hw)
  · rw [htasks]
    refine forall_getElem?_set (fun j task hne hj hl => ?_) hlocks
    have hmine := h.admission j task hj hl
    rcases hadmission with hsame | hfree | hown
    · rw [hsame]
      exact hmine
    · rw [hfree] at hmine
      cases hmine
    · rw [hown] at hmine
      exact absurd (Option.some.inj hmine).symm hne
  · rw [hbuilds, htasks]
    exact forall_mem_set h.settled hsettled
  · rw [hbuilds]
    exact h.ordered
  · rw [htasks]
    exact forall_mem_set h.path hpath

theorem Guarded.take {s : Primary} (h : Guarded s) {i : Nat} (hi : s.tasks[i]? = some (.admission .looked))
    (hfree : s.running = none) (hok : ∀ task ∈ s.tasks, task.sawNone = false ∧ task.waitsFor = none) :
    Guarded ({ s with running := some i }.put i (.admission .held)) := by
  have hlt : i < s.tasks.length := (List.getElem?_eq_some_iff.mp hi).1
  constructor
  · refine forall_getElem?_set (fun j task _ hj hc => ?_) fun _ => rfl
    have hother := h.holds j task hj hc
    rw [hfree] at hother
    cases hother
  · intro j hj
    obtain rfl : i = j := Option.some.inj hj
    exact ⟨.admission .held, List.getElem?_set_self hlt, rfl⟩
  · refine forall_mem_set (fun task hm hsaw => ?_) fun hsaw => by cases hsaw
    rw [(hok task hm).1] at hsaw
    cases hsaw
  · refine forall_mem_set (fun task hm change hw => ?_) fun change hw => by cases hw
    rw [(hok task hm).2] at hw
    cases hw
  · exact forall_getElem?_set (fun j task _ => h.admission j task) fun hl => by cases hl
  · exact forall_mem_set h.settled fun hsaw => by cases hsaw
  · exact h.ordered
  · exact forall_mem_set h.path rfl

theorem Guarded.release {s : Primary} (h : Guarded s) {i : Nat} {stage after : AdmissionStage}
    (hi : s.tasks[i]? = some (.admission stage)) (hheld : (Task.admission stage).holdsChange = true)
    (hafter : (Task.admission after).holdsChange = false) (hsettled : (Task.admission after).sawSettled = false) :
    Guarded ({ s with running := none }.put i (.admission after)) := by
  have hmine := h.holds i _ hi hheld
  constructor
  · refine forall_getElem?_set (fun j task hne hj hc => ?_) fun hc => ?_
    · have hother := h.holds j task hj hc
      rw [hmine] at hother
      exact absurd (Option.some.inj hother).symm hne
    · rw [hafter] at hc
      cases hc
  · intro j hj
    cases hj
  · exact fun _ _ _ => rfl
  · exact fun _ _ _ _ => .inl rfl
  · exact forall_getElem?_set (fun j task _ => h.admission j task) fun hl => by cases hl
  · refine forall_mem_set h.settled fun hsaw => ?_
    rw [hsettled] at hsaw
    cases hsaw
  · exact h.ordered
  · exact forall_mem_set h.path rfl

/-- Builds change, no call having read that none is in progress, or none being in progress after. -/
theorem Guarded.builds {s : Primary} (h : Guarded s) {builds : List AcceptedBuild} {drives : List Nat}
    (hordered : Ordered builds)
    (hkept : (∀ b ∈ s.builds, b.inProgress = false) → (∀ task ∈ s.tasks, task.sawSettled = false) ∨
      ∀ b ∈ builds, b.inProgress = false) : Guarded { s with builds := builds, drives := drives } := by
  refine ⟨h.holds, h.held, h.saw, h.waits, h.admission, fun task hm hsaw => ?_, hordered, h.path⟩
  rcases hkept (h.settled task hm hsaw) with hnone | hsettled
  · rw [hnone task hm] at hsaw
    cases hsaw
  · exact hsettled

/-- A submission's Build is written: nobody else holds the admission, so no other call counts on the Builds. -/
theorem Guarded.accept {s : Primary} (h : Guarded s) {i : Nat} {deletes : Bool}
    (hi : s.tasks[i]? = some (.submission deletes .ready)) : Guarded (s.nextSubmission i deletes .ready) := by
  have hmine := h.admission i _ hi rfl
  have hfree := h.saw _ (List.mem_of_getElem? hi) (by cases deletes <;> rfl)
  have hended : Guarded (s.endSubmission i deletes .accepted) :=
    h.put hi rfl rfl rfl rfl (fun hsaw => by cases deletes <;> cases hsaw) (fun _ hw => by cases hw) (.inr (.inr hmine))
      (fun hl => by cases hl) (fun hsaw => by cases deletes <;> cases hsaw) (by cases deletes <;> rfl)
  refine hended.builds ?_ fun _ => .inl fun task hm => ?_
  · refine List.pairwise_cons.mpr ⟨fun b hb hbars => ?_, h.ordered⟩
    rcases hbars with hcomplete | ⟨_, hdeletes⟩
    · cases hcomplete
    · obtain rfl : deletes = false := hdeletes
      exact h.settled _ (List.mem_of_getElem? hi) rfl b hb
  · obtain ⟨j, hj⟩ := List.mem_iff_getElem?.mp hm
    obtain ⟨rfl, rfl⟩ | ⟨hne, hj⟩ := getElem?_of_set hj
    · cases deletes <;> rfl
    · cases hsaw : task.sawSettled with
      | false => rfl
      | true =>
        -- An admission that read the Builds holds the change; a submission holds the admission.
        cases task with
        | submission other stage =>
          have hready : (Task.submission other stage).holdsAdmission = true := by
            cases other <;> cases stage <;> first | rfl | cases hsaw
          have hother := h.admission j _ hj hready
          rw [hmine] at hother
          exact absurd (Option.some.inj hother).symm hne
        | admission stage =>
          have hchange : (Task.admission stage).holdsChange = true := by
            cases stage <;> first | rfl | cases hsaw
          have hother := h.holds j _ hj hchange
          rw [hfree] at hother
          cases hother

section Steps

variable {s : Primary} {i : Nat}

theorem Guarded.refuse (h : Guarded s) {deletes : Bool} {stage : SubmissionStage}
    (hi : s.tasks[i]? = some (.submission deletes stage)) (hmine : (Task.submission deletes stage).holdsAdmission = true) :
    Guarded (s.endSubmission i deletes .refused) :=
  h.put hi rfl rfl rfl rfl (fun hsaw => by cases deletes <;> cases hsaw) (fun _ hw => by cases hw)
    (.inr (.inr (h.admission i _ hi hmine))) (fun hl => by cases hl) (fun hsaw => by cases deletes <;> cases hsaw)
    (by cases deletes <;> rfl)

theorem Guarded.turnAway (h : Guarded s) {deletes : Bool} {stage : SubmissionStage}
    (hi : s.tasks[i]? = some (.submission deletes stage)) : Guarded (s.put i (.submission deletes .refused)) :=
  h.put hi rfl rfl rfl rfl (fun hsaw => by cases deletes <;> cases hsaw) (fun _ hw => by cases hw) (.inl rfl)
    (fun hl => by cases hl) (fun hsaw => by cases deletes <;> cases hsaw) (by cases deletes <;> rfl)

theorem Guarded.lock (h : Guarded s) {deletes : Bool} {stage : SubmissionStage}
    (hi : s.tasks[i]? = some (.submission deletes stage)) (hfree : s.admission = none)
    (hsaw : deletes = false → (Task.submission deletes stage).sawNone = true) :
    Guarded ({ s with admission := some i }.put i (.submission deletes .locked)) := by
  refine h.put hi rfl rfl rfl rfl (fun hnew => .inl ?_) (fun _ hw => by cases hw) (.inr (.inl hfree)) (fun _ => rfl)
    (fun hnew => by cases deletes <;> cases hnew) (by cases deletes <;> rfl)
  cases deletes with
  | false => exact hsaw rfl
  | true => cases hnew

theorem Guarded.move (h : Guarded s) {deletes : Bool} {stage after : SubmissionStage}
    (hi : s.tasks[i]? = some (.submission deletes stage)) (hmine : (Task.submission deletes stage).holdsAdmission = true)
    (hnone : (Task.submission deletes after).sawNone = true → (Task.submission deletes stage).sawNone = true ∨ s.running = none)
    (hwaits : ∀ change, (Task.submission deletes after).waitsFor = some change → s.running = some change)
    (hsettled : (Task.submission deletes after).sawSettled = true → ∀ b ∈ s.builds, b.inProgress = false)
    (hpath : (Task.submission deletes after).onPath = true) : Guarded (s.put i (.submission deletes after)) :=
  h.put hi rfl rfl rfl rfl hnone hwaits (.inl rfl) (fun _ => h.admission i _ hi hmine) hsettled hpath

/-- The change waited for is over, and none was held since. -/
theorem Guarded.waited (h : Guarded s) {change : Nat} (hi : s.tasks[i]? = some (.submission true (.waiting change)))
    {stage : AdmissionStage} (hstage : s.tasks[change]? = some (.admission stage))
    (hover : (Task.admission stage).holdsChange = false) : Guarded (s.put i (.submission true .waited)) := by
  have hfree : s.running = none := by
    rcases h.waits _ (List.mem_of_getElem? hi) change rfl with hfree | hheld
    · exact hfree
    · obtain ⟨task, htask, hc⟩ := h.held change hheld
      rw [hstage] at htask
      cases htask
      rw [hover] at hc
      cases hc
  exact h.move hi rfl (fun _ => .inr hfree) (fun _ hw => by cases hw) (fun hsaw => by cases hsaw) rfl

theorem Guarded.nextSubmission (h : Guarded s) {deletes : Bool} {stage : SubmissionStage}
    (hi : s.tasks[i]? = some (.submission deletes stage)) : Guarded (s.nextSubmission i deletes stage) := by
  have hdelete : (Task.submission false stage).onPath = false → deletes = true := by
    intro hoff
    have hon := h.path _ (List.mem_of_getElem? hi)
    cases deletes with
    | true => rfl
    | false => rw [hoff] at hon; cases hon
  cases stage with
  | asked =>
    cases deletes with
    | true =>
      dsimp only [Primary.nextSubmission]
      rw [if_pos rfl]
      split
      next hfree => exact h.lock hi hfree fun hfalse => by cases hfalse
      next => exact h
    | false =>
      dsimp only [Primary.nextSubmission]
      rw [if_neg Bool.false_ne_true]
      split
      next hfree =>
        exact h.put hi rfl rfl rfl rfl (fun _ => .inr hfree) (fun _ hw => by cases hw) (.inl rfl) (fun hl => by cases hl)
          (fun hsaw => by cases hsaw) rfl
      next => exact h.turnAway hi
  | looked =>
    dsimp only [Primary.nextSubmission]
    split
    next hfree =>
      refine h.lock hi hfree ?_
      rintro rfl
      rfl
    next => exact h
  | locked =>
    dsimp only [Primary.nextSubmission]
    split
    next => exact h.refuse hi rfl
    next b hcurrent =>
      cases deletes with
      | true =>
        rw [if_pos rfl]
        exact h.move hi rfl (fun hsaw => by cases hsaw) (fun _ hw => by cases hw) (fun hsaw => by cases hsaw) rfl
      | false =>
        rw [if_neg Bool.false_ne_true]
        split
        next => exact h.refuse hi rfl
        next hopen =>
          refine h.move hi rfl (fun _ => .inl rfl) (fun _ hw => by cases hw) (fun _ => h.ordered.settled ?_) rfl
          rw [hcurrent]
          exact Bool.eq_false_iff.mpr hopen
  | read =>
    obtain rfl := hdelete rfl
    dsimp only [Primary.nextSubmission]
    split
    next hfree => exact h.move hi rfl (fun _ => .inr hfree) (fun _ hw => by cases hw) (fun hsaw => by cases hsaw) rfl
    next change hchange =>
      refine h.move hi rfl (fun hsaw => by cases hsaw) (fun other hw => ?_) (fun hsaw => by cases hsaw) rfl
      rw [← Option.some.inj hw]
      exact hchange
  | waiting change =>
    obtain rfl := hdelete rfl
    dsimp only [Primary.nextSubmission]
    split
    next hended => exact h.waited hi hended rfl
    next hrefused => exact h.waited hi hrefused rfl
    next => exact h
  | waited =>
    obtain rfl := hdelete rfl
    dsimp only [Primary.nextSubmission]
    split
    next => exact h.refuse hi rfl
    next => exact h.move hi rfl (fun _ => .inl rfl) (fun _ hw => by cases hw) (fun hsaw => by cases hsaw) rfl
  | ready => exact h.accept hi
  | accepted => exact h
  | refused => exact h

theorem Guarded.moveAdmission (h : Guarded s) {stage after : AdmissionStage} (hi : s.tasks[i]? = some (.admission stage))
    (hchange : (Task.admission after).holdsChange = (Task.admission stage).holdsChange)
    (hsettled : (Task.admission after).sawSettled = true → ∀ b ∈ s.builds, b.inProgress = false) :
    Guarded (s.put i (.admission after)) :=
  h.put hi rfl rfl rfl hchange (fun hsaw => by cases hsaw) (fun _ hw => by cases hw) (.inl rfl) (fun hl => by cases hl) hsettled rfl

theorem Guarded.nextAdmission (h : Guarded s) {stage : AdmissionStage} (hi : s.tasks[i]? = some (.admission stage))
    (hok : s.Undisturbed (.next i)) : Guarded (s.nextAdmission i stage) := by
  cases stage with
  | asked =>
    dsimp only [Primary.nextAdmission]
    split
    next => exact h.moveAdmission hi rfl fun hsaw => by cases hsaw
    next => exact h.moveAdmission hi rfl fun hsaw => by cases hsaw
  | looked =>
    dsimp only [Primary.nextAdmission]
    split
    next hfree => exact h.take hi hfree (hok hi hfree)
    next => exact h.moveAdmission hi rfl fun hsaw => by cases hsaw
  | held =>
    dsimp only [Primary.nextAdmission]
    split
    next => exact h.release hi rfl rfl rfl
    next hopen => exact h.moveAdmission hi rfl fun _ => h.ordered.settled (Bool.eq_false_iff.mpr hopen)
  | read => exact h.moveAdmission hi rfl fun hsaw => by cases hsaw
  | admitted => exact h.moveAdmission hi rfl fun hsaw => by cases hsaw
  | written => exact h.release hi rfl rfl rfl
  | cleared => exact h.moveAdmission hi rfl fun hsaw => by cases hsaw
  | ended => exact h
  | refused => exact h

theorem Guarded.refuseCall (h : Guarded s) (i : Nat) : Guarded (s.step (.refuse i)) := by
  dsimp only [step]
  split
  next deletes stage hi =>
    cases stage with
    | asked => exact h.turnAway hi
    | looked => exact h.turnAway hi
    | locked => exact h.refuse hi rfl
    | read => exact h.refuse hi rfl
    | waiting => exact h.refuse hi rfl
    | waited => exact h.refuse hi rfl
    | ready => exact h.refuse hi rfl
    | accepted => exact h
    | refused => exact h
  next stage hi =>
    cases stage with
    | asked => exact h.moveAdmission hi rfl fun hsaw => by cases hsaw
    | looked => exact h.moveAdmission hi rfl fun hsaw => by cases hsaw
    | held => exact h.release hi rfl rfl rfl
    | read => exact h.release hi rfl rfl rfl
    | admitted | written | cleared | ended | refused => exact h
  next => exact h

theorem Guarded.step (h : Guarded s) (m : Move) (hok : s.Undisturbed m) : Guarded (s.step m) := by
  cases m with
  | next i =>
    dsimp only [Primary.step]
    split
    next hi => exact h.nextSubmission hi
    next hi => exact h.nextAdmission hi hok
    next => exact h
  | refuse i => exact h.refuseCall i
  | starts k => exact h.builds (h.ordered.startBuild k) fun hsettled => .inr (settled_startBuild k hsettled)
  | ends k state => exact h.builds (h.ordered.endBuild k state) fun hsettled => .inr (settled_endBuild k state hsettled)
  | drivable k =>
    dsimp only [Primary.step]
    split
    next => exact h.builds h.ordered fun hsettled => .inr hsettled
    next => exact h
  | restarts k =>
    dsimp only [Primary.step]
    split
    next hread => exact h.builds (h.ordered.restartBuild (hok hread).1) fun _ => .inl (hok hread).2
    next => exact h

theorem guarded_start (first : AcceptedBuild) {tasks : List Task} (hunbegun : ∀ task ∈ tasks, task.Unbegun) :
    Guarded (start first tasks) := by
  have hfresh : ∀ task ∈ tasks, task.holdsChange = false ∧ task.sawNone = false ∧ task.waitsFor = none ∧
      task.holdsAdmission = false ∧ task.sawSettled = false ∧ task.onPath = true := by
    intro task hm
    have hu := hunbegun task hm
    cases task with
    | submission deletes stage =>
      obtain rfl : stage = .asked := hu
      cases deletes <;> exact ⟨rfl, rfl, rfl, rfl, rfl, rfl⟩
    | admission stage =>
      obtain rfl : stage = .asked := hu
      exact ⟨rfl, rfl, rfl, rfl, rfl, rfl⟩
  constructor
  · intro i task hi hc
    rw [(hfresh task (List.mem_of_getElem? hi)).1] at hc
    cases hc
  · intro i hi
    cases hi
  · exact fun _ _ _ => rfl
  · exact fun _ _ _ _ => .inl rfl
  · intro i task hi hl
    rw [(hfresh task (List.mem_of_getElem? hi)).2.2.2.1] at hl
    cases hl
  · intro task hm hsaw
    rw [(hfresh task hm).2.2.2.2.1] at hsaw
    cases hsaw
  · exact List.pairwise_singleton _ _
  · exact fun task hm => (hfresh task hm).2.2.2.2.2

/-- Along every run in which no change is held while a submission is past its look at it, and no Build is run again under a call
that read none in progress or beside one accepted since its drive looked: a Build is accepted only while no admitted change has not ended, and a change is admitted only
while every Build has ended. -/
theorem builds_and_changes_apart (first : AcceptedBuild) {tasks : List Task} (hunbegun : ∀ task ∈ tasks, task.Unbegun)
    {before after : List Move} {m : Move} (hok : RunOk Primary.step Undisturbed (start first tasks) (before ++ m :: after)) :
    let s := before.foldl Primary.step (start first tasks)
    (s.Accepts m → Task.admission .admitted ∉ s.tasks) ∧ (s.Admits m → ∀ b ∈ s.builds, b.inProgress = false) := by
  intro s
  have h : Guarded s := (RunOk.at (fun _ m h hm => h.step m hm) (guarded_start first hunbegun) hok).1
  cases m with
  | next i =>
    constructor
    · rintro ⟨deletes, hi⟩ hadmitted
      have hfree := h.saw _ (List.mem_of_getElem? hi) (by cases deletes <;> rfl)
      obtain ⟨j, hj⟩ := List.mem_iff_getElem?.mp hadmitted
      have hheld := h.holds j _ hj rfl
      rw [hfree] at hheld
      cases hheld
    · intro hi
      exact h.settled _ (List.mem_of_getElem? hi) rfl
  | refuse | starts | ends | drivable | restarts => exact ⟨fun h => h.elim, fun h => h.elim⟩

end Steps

section Runs

instance (s : Primary) : ∀ m, Decidable (s.Undisturbed m)
  | .next _ => inferInstanceAs (Decidable (_ → _))
  | .restarts _ => inferInstanceAs (Decidable (_ → _ ∧ ∀ task ∈ s.tasks, task.sawSettled = false))
  | .drivable _ => inferInstanceAs (Decidable True)
  | .refuse _ => inferInstanceAs (Decidable True)
  | .starts _ => inferInstanceAs (Decidable True)
  | .ends _ _ => inferInstanceAs (Decidable True)

def turns (i n : Nat) : List Move := List.replicate n (.next i)

def calls : List Task := [.submission false .asked, .admission .asked, .admission .asked]

/-- A Build is accepted and an admission that comes after it is refused; once the Build has ended, the next one is admitted. -/
theorem builds_and_changes_apart_in_turn :
    let s := (turns 0 3).foldl Primary.step (start ⟨false, .complete⟩ calls)
    let t := (turns 0 4 ++ turns 1 3 ++ [Move.starts 0, Move.ends 0 .complete] ++ turns 2 3).foldl Primary.step
      (start ⟨false, .complete⟩ calls)
    (s.Accepts (.next 0) ∧ Task.admission .admitted ∉ s.tasks) ∧ t.Admits (.next 2) ∧ ∀ b ∈ t.builds, b.inProgress = false := by
  have hunbegun : ∀ task ∈ calls, task.Unbegun := by simp [calls, Task.Unbegun]
  have hsubmits : RunOk Primary.step Undisturbed (start ⟨false, .complete⟩ calls) (turns 0 3 ++ Move.next 0 :: []) := by
    decide
  have hadmits : RunOk Primary.step Undisturbed (start ⟨false, .complete⟩ calls)
      ((turns 0 4 ++ turns 1 3 ++ [Move.starts 0, Move.ends 0 .complete] ++ turns 2 3) ++ Move.next 2 :: []) := by
    decide
  have haccepted := (builds_and_changes_apart ⟨false, .complete⟩ hunbegun hsubmits).1 ⟨false, rfl⟩
  have hadmitted := (builds_and_changes_apart ⟨false, .complete⟩ hunbegun hadmits).2 rfl
  exact ⟨⟨⟨false, rfl⟩, haccepted⟩, rfl, hadmitted⟩

/-- A submission looked before an admission held its change: its Build is accepted beside the admitted change, or the change is
admitted beside its Build. A fabric.delete found no change to interrupt, and is accepted beside one admitted since. -/
theorem build_and_change_together :
    let beside := (turns 0 1 ++ turns 1 4 ++ turns 0 2).foldl Primary.step
      (start ⟨false, .complete⟩ [.submission false .asked, .admission .asked])
    let ended := (turns 0 1 ++ turns 1 3 ++ turns 0 3).foldl Primary.step
      (start ⟨false, .complete⟩ [.submission false .asked, .admission .asked])
    let deleting := (turns 0 4 ++ turns 1 4).foldl Primary.step
      (start ⟨false, .complete⟩ [.submission true .asked, .admission .asked])
    (beside.Accepts (.next 0) ∧ Task.admission .admitted ∈ beside.tasks) ∧
      (ended.Admits (.next 1) ∧ ended.builds = [⟨false, .pending⟩, ⟨false, .complete⟩]) ∧
      (deleting.Accepts (.next 0) ∧ Task.admission .admitted ∈ deleting.tasks) :=
  ⟨⟨⟨false, rfl⟩, by decide⟩, ⟨rfl, rfl⟩, ⟨true, rfl⟩, by decide⟩

end Runs

end Primary

end DistributedMesh.Storage
