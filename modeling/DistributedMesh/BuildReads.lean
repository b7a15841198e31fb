import DistributedMesh.BuildJournal
import DistributedMesh.GuardedRuns

namespace DistributedMesh.Build

open KeyedMaps GuardedRuns

variable {T : Type}

/-- How a Build ended, as its event says it. -/
inductive EndedState where
  | complete
  | failed (reason code : String)
  | incomplete (sections : List String)

/-- An event of a Build. -/
inductive BuildEvent where
  | started
  | dispatched (mesh : String)
  | step (mesh operation step : String)
  | ended (state : EndedState)

inductive BuildState where
  | pending
  | running
  | complete
  /-- It could not start. -/
  | failed
  /-- It ran and not every section finished. -/
  | incomplete
deriving DecidableEq

def BuildState.endedShort : BuildState → Bool
  | .failed | .incomplete => true
  | _ => false

/-- A Build's view: its record, and where it is in its life. -/
structure BuildProjection (T : Type) where
  buildId : String
  topology : T
  change : BuildChange
  time : UInt64
  state : BuildState
deriving DecidableEq

def BuildState.after (s : BuildState) : BuildEvent → BuildState
  | .started => .running
  | .dispatched _ => s
  | .step _ _ _ => s
  | .ended .complete => .complete
  | .ended (.failed _ _) => .failed
  | .ended (.incomplete _) => .incomplete

namespace BuildProjection

/-- The accepted Build with its events folded. -/
def of (accepted : BuildAccepted T) (events : List (String × BuildEvent)) : BuildProjection T :=
  ⟨accepted.buildId, accepted.topology, accepted.change, accepted.time,
    ((events.filter fun e => e.1 = accepted.buildId).map Prod.snd).foldl BuildState.after .pending⟩

def deletesFabric (p : BuildProjection T) : Bool :=
  match p.change with
  | .deleteFabric => true
  | _ => false

/-- Accepted after another, by the acceptance stamp. -/
def newer (p d : BuildProjection T) : Bool := stampCode.cmp (p.time, p.buildId) (d.time, d.buildId) == .gt

end BuildProjection

inductive CurrentBuild where
  | inProgress (buildId : String)
  | completed (buildId : String)
  | none
deriving DecidableEq

def CurrentBuild.buildId : CurrentBuild → Option String
  | .inProgress buildId => some buildId
  | .completed buildId => some buildId
  | .none => Option.none

/-- What a Build is to the read newest first: in progress, completed, or skipped. -/
def currentOf (p : BuildProjection T) : Option CurrentBuild :=
  match p.state with
  | .pending | .running => some (.inProgress p.buildId)
  | .complete => some (.completed p.buildId)
  | .failed | .incomplete => none

def isCurrent (p : BuildProjection T) : Bool := (currentOf p).isSome

theorem currentOf_buildId {p : BuildProjection T} {c : CurrentBuild} (h : currentOf p = some c) :
    c.buildId = some p.buildId := by
  unfold currentOf at h
  split at h <;> cases h <;> rfl

theorem not_endedShort {p : BuildProjection T} (h : isCurrent p = true) : p.state.endedShort = false := by
  unfold isCurrent currentOf at h
  cases hstate : p.state with
  | pending => rfl
  | running => rfl
  | complete => rfl
  | failed => simp [hstate] at h
  | incomplete => simp [hstate] at h

theorem findSome_currentOf (builds : List (BuildProjection T)) :
    builds.findSome? currentOf = (builds.find? isCurrent).bind currentOf := by
  induction builds with
  | nil => rfl
  | cons p builds ih =>
    rw [List.findSome?_cons, List.find?_cons]
    cases hp : currentOf p with
    | none =>
      rw [show isCurrent p = false from by simp [isCurrent, hp]]
      exact ih
    | some c =>
      rw [show isCurrent p = true from by simp [isCurrent, hp]]
      exact hp.symm

/-- The current Build of Builds listed newest first. -/
def currentOver (builds : List (BuildProjection T)) : CurrentBuild := (builds.findSome? currentOf).getD .none

/-- The fabric.delete in force among Builds listed newest first. -/
def inForceOver (builds : List (BuildProjection T)) : Option (BuildProjection T × Bool) :=
  (((builds.find? isCurrent).filter BuildProjection.deletesFabric).map fun c => (c, false)).or
    ((builds.head?.filter fun p => p.deletesFabric && p.state.endedShort).map fun p => (p, true))

theorem inForceOver_of_current {builds : List (BuildProjection T)} {c : BuildProjection T}
    (h : (builds.find? isCurrent).filter BuildProjection.deletesFabric = some c) : inForceOver builds = some (c, false) := by
  unfold inForceOver
  rw [h]
  rfl

theorem inForceOver_of_none {builds : List (BuildProjection T)}
    (h : (builds.find? isCurrent).filter BuildProjection.deletesFabric = none) :
    inForceOver builds = (builds.head?.filter fun p => p.deletesFabric && p.state.endedShort).map fun p => (p, true) := by
  unfold inForceOver
  rw [h]
  rfl

/-- The Builds a fabric.delete interrupts among Builds listed newest first. -/
def openOver (delete : BuildProjection T) (builds : List (BuildProjection T)) : List String :=
  (((builds.filter fun p => p.buildId != delete.buildId && !p.newer delete).takeWhile fun p => p.state != .complete).filter
    fun p => p.state == .pending || p.state == .running).map BuildProjection.buildId

theorem openOver_cons_open {delete p : BuildProjection T} {builds : List (BuildProjection T)}
    (hother : p.buildId ≠ delete.buildId) (hold : p.newer delete = false) (hopen : p.state = .pending ∨ p.state = .running) :
    openOver delete (p :: builds) = p.buildId :: openOver delete builds := by
  unfold openOver
  rcases hopen with hstate | hstate
  · simp [hother, hold, hstate]
  · simp [hother, hold, hstate]

theorem openOver_cons_short {delete p : BuildProjection T} {builds : List (BuildProjection T)}
    (hother : p.buildId ≠ delete.buildId) (hold : p.newer delete = false)
    (hshort : p.state = .failed ∨ p.state = .incomplete) : openOver delete (p :: builds) = openOver delete builds := by
  unfold openOver
  rcases hshort with hstate | hstate
  · simp [hother, hold, hstate]
  · simp [hother, hold, hstate]

theorem map_cons_ok_iff {ε α : Type} {x : Except ε (List α)} {a : α} {l : List α} :
    (x.map fun rest => a :: rest) = .ok (a :: l) ↔ x = .ok l := by
  cases x with
  | error e => exact ⟨fun h => (by cases h), fun h => (by cases h)⟩
  | ok rest => simp [Except.map]

def BuildState.debug : BuildState → String
  | .pending => "Pending"
  | .running => "Running"
  | .complete => "Complete"
  | .failed => "Failed"
  | .incomplete => "Incomplete"

/-- Why the control plane refused a call. -/
inductive Refusal where
  | notFound (reason : String)
  | conflict (reason : String)
  | state (e : BuildStateError)

/-- The acceptance held of a Build. -/
def acceptance (facts : List (BuildFact T)) (buildId : String) : Option (BuildAccepted T) :=
  facts.findSome? fun f =>
    match f with
    | .accepted a => if a.buildId = buildId then some a else none
    | .forget _ => none

theorem acceptance_some {facts : List (BuildFact T)} {buildId : String} {a : BuildAccepted T}
    (h : acceptance facts buildId = some a) : .accepted a ∈ facts ∧ a.buildId = buildId := by
  obtain ⟨f, hf, hfa⟩ := List.exists_of_findSome?_eq_some h
  cases f with
  | accepted c =>
    dsimp only at hfa
    split at hfa
    next hid =>
      cases hfa
      exact ⟨hf, hid⟩
    next => cases hfa
  | forget forgotten => cases hfa

theorem acceptance_append (facts : List (BuildFact T)) (f : BuildFact T) (buildId : String) :
    acceptance (facts ++ [f]) buildId = (acceptance facts buildId).or (acceptance [f] buildId) := by
  unfold acceptance
  rw [List.findSome?_append]

theorem acceptance_cons (f : BuildFact T) (facts : List (BuildFact T)) (buildId : String) :
    acceptance (f :: facts) buildId = (acceptance [f] buildId).or (acceptance facts buildId) := by
  unfold acceptance
  rw [← List.findSome?_append]
  rfl

theorem known_eq (facts : List (BuildFact T)) (buildId : String) :
    known facts buildId = (acceptance facts buildId).isSome := by
  induction facts with
  | nil => rfl
  | cons f facts ih =>
    rw [acceptance_cons, Option.isSome_or, ← ih]
    cases f with
    | accepted a =>
      by_cases hid : a.buildId = buildId
      · simp [known, acceptance, hid]
      · simp [known, acceptance, hid]
    | forget forgotten => simp [known, acceptance]

theorem acceptedConflict_free [DecidableEq T] {facts : List (BuildFact T)} {a : BuildAccepted T}
    (h : acceptedConflict facts a = .ok false) : acceptance facts a.buildId = none := by
  induction facts with
  | nil => rfl
  | cons f facts ih =>
    rw [acceptance_cons]
    cases f with
    | accepted i =>
      rw [acceptedConflict] at h
      split at h
      next =>
        split at h
        next => cases h
        next => cases h
      next hid =>
        rw [ih h]
        simp [acceptance, hid]
    | forget forgotten =>
      rw [acceptedConflict] at h
      rw [ih h]
      simp [acceptance]

inductive BuildLogKind where
  | memory
  | file
deriving DecidableEq

/-- A Build log beside its events. -/
structure Builds (T : Type) where
  kind : BuildLogKind
  journal : Journal T
  events : List (String × BuildEvent)

namespace Builds

variable [DecidableEq T]

def opened (kind : BuildLogKind) : Builds T := ⟨kind, .opened, []⟩

/-- What a read sees: a journal on a store root reads on first. -/
def seenNow (b : Builds T) : FactLog T :=
  match b.kind with
  | .memory => b.journal.log
  | .file => b.journal.sync.log

def readBuild (b : Builds T) (buildId : String) : Except BuildStateError (BuildProjection T) :=
  (b.seenNow.readOwn buildId).map fun accepted => .of accepted b.events

def acceptedNewestFirst (b : Builds T) : List String := b.seenNow.acceptedNewestFirst

def currentOfBuilds (b : Builds T) : List String → Except BuildStateError CurrentBuild
  | [] => .ok .none
  | id :: ids =>
    match b.readBuild id with
    | .ok p =>
      match currentOf p with
      | some c => .ok c
      | none => b.currentOfBuilds ids
    | .error (.unknownBuild _) => b.currentOfBuilds ids
    | .error e => .error e

def currentBuild (b : Builds T) : Except BuildStateError CurrentBuild := b.currentOfBuilds b.acceptedNewestFirst

def current (b : Builds T) : Except BuildStateError (Option (BuildProjection T)) :=
  match b.currentBuild with
  | .error e => .error e
  | .ok c =>
    match c.buildId with
    | some id => (b.readBuild id).map some
    | none => .ok none

/-- The walk of the Builds a fabric.delete interrupts: one that completed is the last. -/
def interruptedWalk (b : Builds T) (delete : BuildProjection T) : List String → Except BuildStateError (List String)
  | [] => .ok []
  | id :: ids =>
    if id = delete.buildId then b.interruptedWalk delete ids
    else
      match b.readBuild id with
      | .error e => .error e
      | .ok p =>
        if p.newer delete then b.interruptedWalk delete ids
        else
          match p.state with
          | .complete => .ok []
          | .pending | .running => (b.interruptedWalk delete ids).map fun open_ => id :: open_
          | .failed | .incomplete => b.interruptedWalk delete ids

def interruptedOpen (b : Builds T) (delete : BuildProjection T) : Except BuildStateError (List String) :=
  b.interruptedWalk delete b.acceptedNewestFirst

/-- The fabric.delete in force: the current Build, or the newest accepted one when it ended short. -/
def fabricDeleteInForce (b : Builds T) : Except BuildStateError (Option (BuildProjection T × Bool)) :=
  match b.current with
  | .error e => .error e
  | .ok current =>
    match current.filter BuildProjection.deletesFabric with
    | some c => .ok (some (c, false))
    | none =>
      match b.acceptedNewestFirst.head? with
      | none => .ok none
      | some newest =>
        if current.any fun c => c.buildId = newest then .ok none
        else
          match b.readBuild newest with
          | .error e => .error e
          | .ok p => .ok (if p.deletesFabric && p.state.endedShort then some (p, true) else none)

/-- A Build record is written, once; `id` is its line's. -/
def publishAccepted (b : Builds T) (id : String) (accepted : BuildAccepted T) : Except BuildStateError (Builds T) :=
  match b.kind with
  | .memory =>
    match acceptedConflict b.journal.log.facts accepted with
    | .error e => .error e
    | .ok true => .ok b
    | .ok false => .ok { b with journal := { b.journal with log := b.journal.log.publish [.accepted accepted] } }
  | .file =>
    let journal := b.journal.sync
    match acceptedConflict journal.log.facts accepted with
    | .error e => .error e
    | .ok true => .ok { b with journal := journal }
    | .ok false => .ok { b with journal := journal.append id (.accepted accepted) }

def forget (b : Builds T) (id buildId : String) : Builds T :=
  match b.kind with
  | .memory => { b with journal := { b.journal with log := b.journal.log.publish [.forget buildId] } }
  | .file => { b with journal := b.journal.sync.append id (.forget buildId) }

/-- The control plane's forgetting: the current Build, and one still reconciling, stay. -/
def forgetBuild (b : Builds T) (id buildId : String) : Except Refusal (Builds T) :=
  match b.readBuild buildId with
  | .error (.unknownBuild unknown) => .error (.notFound ("no Build " ++ unknown))
  | .error e => .error (.state e)
  | .ok p =>
    if p.state = .pending ∨ p.state = .running then
      .error (.conflict ("Build " ++ buildId ++ " is still " ++ p.state.debug ++ "; only finished Builds leave history"))
    else
      match b.currentBuild with
      | .error e => .error (.state e)
      | .ok c =>
        if c.buildId = some buildId then
          .error (.conflict ("Build " ++ buildId ++ " is the current Build (the newest in the builds store that is in " ++
            "progress or completed); it leaves history once a later Build is current"))
        else .ok (b.forget id buildId)

/-- What is done to a Build log. -/
inductive Op (T : Type) where
  | publish (id : String) (accepted : BuildAccepted T)
  | event (buildId : String) (e : BuildEvent)
  | forget (id buildId : String)

/-- A call that is refused leaves the log as it is. -/
def step (b : Builds T) : Op T → Builds T
  | .publish id accepted => (b.publishAccepted id accepted).toOption.getD b
  | .event buildId e => { b with events := b.events ++ [(buildId, e)] }
  | .forget id buildId => (b.forgetBuild id buildId).toOption.getD b

def run (kind : BuildLogKind) (ops : List (Op T)) : Builds T := ops.foldl step (opened kind)

def Forgotten (b : Builds T) (buildId : String) : Prop := .forget buildId ∈ b.journal.log.facts

instance (b : Builds T) (buildId : String) : Decidable (b.Forgotten buildId) :=
  inferInstanceAs (Decidable (_ ∈ _))

/-- A Build that is not forgotten, as its record and events have it. -/
def standing (b : Builds T) (buildId : String) : Option (BuildProjection T) :=
  if b.Forgotten buildId then none else (acceptance b.journal.log.facts buildId).map fun a => .of a b.events

/-- The Builds not forgotten, newest accepted first. -/
def notForgotten (b : Builds T) : List (BuildProjection T) :=
  b.journal.log.acceptedNewestFirst.filterMap b.standing

/-- What a reachable log keeps: its indexes, the records of its file, and that a Build is forgotten only once held. -/
structure Sound (b : Builds T) : Prop where
  positioned : b.journal.log.Positioned
  ordered : b.journal.log.Ordered
  own : b.journal.Own
  answers : ∀ buildId, answer b.journal.log.facts buildId =
    if b.Forgotten buildId then none else acceptance b.journal.log.facts buildId
  held : ∀ buildId, b.Forgotten buildId → (acceptance b.journal.log.facts buildId).isSome = true

variable {b : Builds T}

theorem Sound.seenNow_eq (h : b.Sound) : b.seenNow = b.journal.log := by
  unfold seenNow
  split
  next => rfl
  next => rw [h.own.sync_eq]

theorem Sound.readBuild_eq (h : b.Sound) (buildId : String) :
    b.readBuild buildId = (b.standing buildId).elim (.error (.unknownBuild buildId)) .ok := by
  unfold readBuild standing
  rw [h.seenNow_eq, h.positioned.readOwn_eq, h.answers buildId]
  split
  next => rfl
  next =>
    cases acceptance b.journal.log.facts buildId with
    | none => rfl
    | some a => rfl

theorem Sound.acceptedNewestFirst_eq (h : b.Sound) : b.acceptedNewestFirst = b.journal.log.acceptedNewestFirst := by
  unfold acceptedNewestFirst
  rw [h.seenNow_eq]

theorem standing_buildId {buildId : String} {p : BuildProjection T} (h : b.standing buildId = some p) :
    p.buildId = buildId := by
  unfold standing at h
  split at h
  next => cases h
  next =>
    obtain ⟨a, ha, rfl⟩ := Option.map_eq_some_iff.mp h
    exact (acceptance_some ha).2

theorem sound_opened (kind : BuildLogKind) : (opened kind : Builds T).Sound :=
  ⟨FactLog.positioned_empty, FactLog.ordered_empty, Journal.own_opened, fun _ => rfl, fun _ h => by cases h⟩

theorem Sound.accept (h : b.Sound) {j : Journal T} {a : BuildAccepted T} (hown : j.Own)
    (hnone : acceptance b.journal.log.facts a.buildId = none) (hlog : j.log = b.journal.log.publish [.accepted a]) :
    Sound { b with journal := j } := by
  have hfacts : j.log.facts = b.journal.log.facts ++ [.accepted a] := by rw [hlog, FactLog.facts_publish]
  have hforgotten : ∀ id, Forgotten { b with journal := j } id ↔ b.Forgotten id := by
    intro id
    unfold Forgotten
    rw [hfacts]
    simp
  have hnot : ¬ b.Forgotten a.buildId := by
    intro hf
    have hsome := h.held a.buildId hf
    rw [hnone] at hsome
    cases hsome
  refine ⟨by rw [hlog]; exact h.positioned.publish, by rw [hlog]; exact h.ordered.publish, hown, ?_, ?_⟩
  · intro id
    simp only [hforgotten id]
    rw [hfacts, answer_append, h.answers id, acceptance_append]
    by_cases hid : a.buildId = id
    · subst hid
      simp [answerAfter, acceptance, hnot]
    · simp [answerAfter, acceptance, hid]
  · intro id hf
    rw [hfacts, acceptance_append, Option.isSome_or]
    rw [h.held id ((hforgotten id).mp hf)]
    rfl

theorem Sound.forget (h : b.Sound) {j : Journal T} {id : String} (hown : j.Own)
    (hsome : (acceptance b.journal.log.facts id).isSome = true) (hlog : j.log = b.journal.log.publish [.forget id]) :
    Sound { b with journal := j } := by
  have hfacts : j.log.facts = b.journal.log.facts ++ [.forget id] := by rw [hlog, FactLog.facts_publish]
  have hforgotten : ∀ other, Forgotten { b with journal := j } other ↔ b.Forgotten other ∨ other = id := by
    intro other
    unfold Forgotten
    rw [hfacts]
    simp
  have hkept : ∀ other, acceptance (b.journal.log.facts ++ [.forget id]) other = acceptance b.journal.log.facts other := by
    intro other
    rw [acceptance_append]
    simp [acceptance]
  refine ⟨by rw [hlog]; exact h.positioned.publish, by rw [hlog]; exact h.ordered.publish, hown, ?_, ?_⟩
  · intro other
    simp only [hforgotten other]
    rw [hfacts, answer_append, h.answers other, hkept]
    by_cases hid : id = other
    · simp [answerAfter, hid]
    · simp [answerAfter, hid, Ne.symm hid]
  · intro other hf
    rw [hfacts, hkept]
    rcases (hforgotten other).mp hf with hf | rfl
    · exact h.held other hf
    · exact hsome

theorem Sound.synced (h : b.Sound) : Sound { b with journal := b.journal.sync } := by
  have hsync := h.own.sync
  rw [h.own.sync_eq] at hsync ⊢
  exact ⟨h.positioned, h.ordered, hsync, h.answers, h.held⟩

theorem Sound.append_new (h : b.Sound) (id : String) {f : BuildFact T} (hnew : isNew b.journal.log.facts f = true) :
    (b.journal.sync.append id f).Own ∧ (b.journal.sync.append id f).log = b.journal.log.publish [f] := by
  refine ⟨h.own.sync.append id f, ?_⟩
  rw [h.own.sync_eq]
  unfold Journal.append
  dsimp only
  rw [hnew, if_neg (by decide)]

theorem Sound.step (h : b.Sound) (op : Op T) : (b.step op).Sound := by
  cases op with
  | event buildId e => exact ⟨h.positioned, h.ordered, h.own, h.answers, h.held⟩
  | publish id a =>
    unfold Builds.step publishAccepted
    dsimp only
    split
    next =>
      split
      next => exact h
      next => exact h
      next hfree => exact h.accept h.own (acceptedConflict_free hfree) rfl
    next =>
      have hfacts : b.journal.sync.log.facts = b.journal.log.facts := by rw [h.own.sync_eq]
      split
      next => exact h
      next => exact h.synced
      next hfree =>
        rw [hfacts] at hfree
        have hnone := acceptedConflict_free hfree
        have hnew : isNew b.journal.log.facts (.accepted a) = true := by
          show (!known _ _) = true
          rw [known_eq, hnone]
          rfl
        obtain ⟨hown, hlog⟩ := h.append_new id hnew
        exact h.accept hown hnone hlog
  | forget id buildId =>
    unfold Builds.step
    dsimp only
    cases hforget : b.forgetBuild id buildId with
    | error e => exact h
    | ok c =>
      unfold forgetBuild at hforget
      split at hforget
      next => cases hforget
      next => cases hforget
      next p hp =>
        have hsome : (acceptance b.journal.log.facts buildId).isSome = true := by
          rw [h.readBuild_eq] at hp
          unfold standing at hp
          split at hp
          next => cases hp
          next =>
            cases hacc : acceptance b.journal.log.facts buildId with
            | none =>
              rw [hacc] at hp
              cases hp
            | some a => rfl
        have hnot : ¬ b.Forgotten buildId := by
          intro hf
          rw [h.readBuild_eq] at hp
          unfold standing at hp
          rw [if_pos hf] at hp
          cases hp
        split at hforget
        next => cases hforget
        next =>
          split at hforget
          next => cases hforget
          next =>
            split at hforget
            next => cases hforget
            next =>
              cases hforget
              show (b.forget id buildId).Sound
              unfold Builds.forget
              split
              next => exact h.forget h.own hsome rfl
              next =>
                have hnew : isNew b.journal.log.facts (.forget buildId) = true := by
                  have hmem : (.forget buildId : BuildFact T) ∉ b.journal.log.facts := hnot
                  simpa [isNew] using hmem
                obtain ⟨hown, hlog⟩ := h.append_new id hnew
                exact h.forget hown hsome hlog

theorem sound_run (kind : BuildLogKind) (ops : List (Op T)) : (run kind ops).Sound := by
  unfold run
  have hrun : ∀ b : Builds T, b.Sound → (ops.foldl Builds.step b).Sound := by
    induction ops with
    | nil => exact fun _ hb => hb
    | cons op ops ih => exact fun b hb => ih (b.step op) (hb.step op)
  exact hrun (opened kind) (sound_opened kind)

/-- The index names Builds whose acceptance is held. -/
theorem Sound.indexed (h : b.Sound) {id : String} (hid : id ∈ b.journal.log.acceptedNewestFirst) :
    b.standing id = none ↔ b.Forgotten id := by
  unfold FactLog.acceptedNewestFirst at hid
  obtain ⟨stamp, hstamp, rfl⟩ := List.mem_map.mp hid
  rw [List.mem_reverse, Std.ExtTreeSet.mem_toList] at hstamp
  obtain ⟨a, ha, rfl⟩ := (h.ordered stamp).mp hstamp
  have hknown : known b.journal.log.facts a.buildId = true := List.any_eq_true.mpr ⟨.accepted a, ha, by simp⟩
  rw [known_eq, Option.isSome_iff_exists] at hknown
  obtain ⟨c, hc⟩ := hknown
  unfold standing
  rw [show a.stamp.2 = a.buildId from rfl, hc]
  split
  next hf => simp [hf]
  next hf => simp [hf]

theorem Sound.currentOfBuilds_eq (h : b.Sound) (ids : List String) :
    b.currentOfBuilds ids = .ok (currentOver (ids.filterMap b.standing)) := by
  unfold currentOver
  induction ids with
  | nil => rfl
  | cons id ids ih =>
    unfold currentOfBuilds
    rw [h.readBuild_eq, List.filterMap_cons]
    cases hid : b.standing id with
    | none => exact ih
    | some p =>
      dsimp only [Option.elim]
      rw [List.findSome?_cons]
      cases hp : currentOf p with
      | none => exact ih
      | some c => rfl

theorem Sound.current_eq (h : b.Sound) : b.current = .ok (b.notForgotten.find? isCurrent) := by
  have hcurrent : b.currentBuild = .ok (currentOver b.notForgotten) := by
    unfold currentBuild
    rw [h.currentOfBuilds_eq, h.acceptedNewestFirst_eq]
    rfl
  unfold current
  rw [hcurrent]
  dsimp only
  unfold currentOver
  rw [findSome_currentOf]
  cases hfound : b.notForgotten.find? isCurrent with
  | none => rfl
  | some p =>
    have hp : isCurrent p = true := List.find?_some hfound
    obtain ⟨c, hc⟩ := Option.isSome_iff_exists.mp hp
    rw [Option.bind_some, hc, Option.getD_some, currentOf_buildId hc]
    dsimp only
    obtain ⟨id, -, hid⟩ := List.mem_filterMap.mp (List.mem_of_find?_eq_some hfound)
    rw [h.readBuild_eq, standing_buildId hid, hid]
    rfl

/-- Each Build of the walk that cannot be read stands behind one the walk stops at. -/
def Passable (b : Builds T) (delete : BuildProjection T) (ids : List String) : Prop :=
  ∀ before id after, ids = before ++ id :: after → b.standing id = none → id ≠ delete.buildId →
    ∃ c ∈ before, c ≠ delete.buildId ∧ ∃ p, b.standing c = some p ∧ p.newer delete = false ∧ p.state = .complete

/-- A Build the walk goes on from bears nothing on the others. -/
theorem passable_cons {delete : BuildProjection T} {id : String} {ids : List String}
    (hread : b.standing id = none → id = delete.buildId)
    (hon : ∀ p, b.standing id = some p → id ≠ delete.buildId → p.newer delete = false → p.state ≠ .complete) :
    b.Passable delete (id :: ids) ↔ b.Passable delete ids := by
  constructor
  · intro h before other after hids hnone hne
    obtain ⟨c, hc, hcne, p, hp, hnewer, hstate⟩ := h (id :: before) other after (by rw [hids]; rfl) hnone hne
    rcases List.mem_cons.mp hc with rfl | hc
    · exact absurd hstate (hon p hp hcne hnewer)
    · exact ⟨c, hc, hcne, p, hp, hnewer, hstate⟩
  · intro h before other after hids hnone hne
    cases before with
    | nil =>
      cases hids
      exact absurd (hread hnone) hne
    | cons first before =>
      obtain ⟨rfl, rfl⟩ := List.cons.inj hids
      obtain ⟨c, hc, hrest⟩ := h before other after rfl hnone hne
      exact ⟨c, List.mem_cons_of_mem _ hc, hrest⟩

theorem Sound.interruptedWalk_iff (h : b.Sound) (delete : BuildProjection T) (ids : List String) :
    b.interruptedWalk delete ids = .ok (openOver delete (ids.filterMap b.standing)) ↔ b.Passable delete ids := by
  induction ids with
  | nil =>
    refine ⟨fun _ before id after hids => ?_, fun _ => rfl⟩
    simp at hids
  | cons id ids ih =>
    unfold interruptedWalk
    rw [h.readBuild_eq, List.filterMap_cons]
    by_cases hdelete : id = delete.buildId
    · rw [if_pos hdelete, passable_cons (fun _ => hdelete) (fun _ _ hne => absurd hdelete hne), ← ih]
      cases hid : b.standing id with
      | none => rfl
      | some p =>
        have hp : p.buildId = delete.buildId := (standing_buildId hid).trans hdelete
        unfold openOver
        simp [hp]
    · rw [if_neg hdelete]
      cases hid : b.standing id with
      | none =>
        refine ⟨fun herr => (by cases herr), fun hpass => ?_⟩
        obtain ⟨c, hc, -⟩ := hpass [] id ids rfl hid hdelete
        cases hc
      | some p =>
        have hpid : p.buildId ≠ delete.buildId := by rw [standing_buildId hid]; exact hdelete
        dsimp only [Option.elim]
        by_cases hnewer : p.newer delete = true
        · rw [if_pos hnewer, passable_cons (by simp [hid]) (fun q hq _ hold => ?_), ← ih]
          · unfold openOver
            simp [hnewer]
          · rw [hid] at hq
            cases hq
            rw [hnewer] at hold
            cases hold
        · rw [if_neg hnewer]
          have hold : p.newer delete = false := by simpa using hnewer
          have hgoes : p.state ≠ .complete → (b.Passable delete (id :: ids) ↔ b.Passable delete ids) := by
            intro hstate
            refine passable_cons (by simp [hid]) (fun q hq _ _ => ?_)
            rw [hid] at hq
            cases hq
            exact hstate
          cases hstate : p.state with
          | complete =>
            have hopen : openOver delete (p :: ids.filterMap b.standing) = [] := by
              unfold openOver
              simp [hpid, hold, hstate]
            rw [hopen]
            refine ⟨fun _ => ?_, fun _ => rfl⟩
            intro before other after hids hnone hne
            cases before with
            | nil =>
              cases hids
              rw [hid] at hnone
              cases hnone
            | cons first before =>
              obtain ⟨rfl, rfl⟩ := List.cons.inj hids
              exact ⟨id, List.mem_cons_self, hdelete, p, hid, hold, hstate⟩
          | pending =>
            rw [hgoes (by rw [hstate]; decide), ← ih, openOver_cons_open hpid hold (.inl hstate), standing_buildId hid]
            exact map_cons_ok_iff
          | running =>
            rw [hgoes (by rw [hstate]; decide), ← ih, openOver_cons_open hpid hold (.inr hstate), standing_buildId hid]
            exact map_cons_ok_iff
          | failed => rw [hgoes (by rw [hstate]; decide), ← ih, openOver_cons_short hpid hold (.inl hstate)]
          | incomplete => rw [hgoes (by rw [hstate]; decide), ← ih, openOver_cons_short hpid hold (.inr hstate)]

theorem standing_of_current {c : BuildProjection T} (h : b.notForgotten.find? isCurrent = some c) :
    b.standing c.buildId = some c := by
  obtain ⟨id, -, hstanding⟩ := List.mem_filterMap.mp (List.mem_of_find?_eq_some h)
  rw [standing_buildId hstanding]
  exact hstanding

theorem head?_notForgotten {newest : String} {p : BuildProjection T}
    (hhead : b.journal.log.acceptedNewestFirst.head? = some newest) (hp : b.standing newest = some p) :
    b.notForgotten.head? = some p := by
  obtain ⟨rest, hrest⟩ := List.head?_eq_some_iff.mp hhead
  unfold notForgotten
  rw [hrest, List.filterMap_cons, hp]
  rfl

/-- The newest accepted Build is read by itself only when no Build in progress or completed is a fabric.delete. -/
theorem Sound.fabricDeleteInForce_iff (h : b.Sound) :
    b.fabricDeleteInForce = .ok (inForceOver b.notForgotten) ↔
      ∀ id, b.journal.log.acceptedNewestFirst.head? = some id → b.Forgotten id →
        ∃ c, b.notForgotten.find? isCurrent = some c ∧ c.deletesFabric = true := by
  unfold fabricDeleteInForce
  rw [h.current_eq, h.acceptedNewestFirst_eq]
  dsimp only
  cases hfilter : (b.notForgotten.find? isCurrent).filter BuildProjection.deletesFabric with
  | some c =>
    obtain ⟨hfound, hdeletes⟩ := Option.filter_eq_some_iff.mp hfilter
    rw [inForceOver_of_current hfilter]
    exact ⟨fun _ _ _ _ => ⟨c, hfound, hdeletes⟩, fun _ => rfl⟩
  | none =>
    have hnot : ¬ ∃ c, b.notForgotten.find? isCurrent = some c ∧ c.deletesFabric = true := by
      rintro ⟨c, hfound, hdeletes⟩
      rw [Option.filter_eq_some_iff.mpr ⟨hfound, hdeletes⟩] at hfilter
      cases hfilter
    rw [inForceOver_of_none hfilter]
    cases hhead : b.journal.log.acceptedNewestFirst.head? with
    | none =>
      have hnil : b.journal.log.acceptedNewestFirst = [] := List.head?_eq_none_iff.mp hhead
      rw [notForgotten, hnil]
      exact ⟨fun _ id hid => (by cases hid), fun _ => rfl⟩
    | some newest =>
      have hindexed := h.indexed (List.mem_of_mem_head? hhead)
      dsimp only
      rw [h.readBuild_eq]
      cases hstanding : b.standing newest with
      | none =>
        have hany : ((b.notForgotten.find? isCurrent).any fun c => decide (c.buildId = newest)) = false := by
          rw [Option.any_eq_false]
          intro c hc
          rw [decide_eq_false_iff_not]
          rintro rfl
          rw [standing_of_current hc] at hstanding
          cases hstanding
        rw [hany, if_neg Bool.false_ne_true]
        refine ⟨fun herr => (by cases herr), fun hall => ?_⟩
        exact absurd (hall newest rfl (hindexed.mp hstanding)) hnot
      | some p =>
        have hnotForgotten : ¬ b.Forgotten newest := by
          intro hf
          rw [hindexed.mpr hf] at hstanding
          cases hstanding
        rw [head?_notForgotten hhead hstanding, Option.filter_some]
        refine ⟨fun _ id hid hf => ?_, fun _ => ?_⟩
        · cases hid
          exact absurd hf hnotForgotten
        · split
          next hany =>
            obtain ⟨c, hc, hid⟩ := (Option.any_eq_true _ _).mp hany
            have hid : c.buildId = newest := by simpa using hid
            subst hid
            have hsame := standing_of_current hc
            rw [hstanding] at hsame
            cases hsame
            have hcurrent : isCurrent p = true := List.find?_some hc
            rw [not_endedShort hcurrent, Bool.and_false]
            rfl
          next =>
            dsimp only [Option.elim]
            split
            next => rfl
            next => rfl

theorem Sound.interruptedOpen_iff (h : b.Sound) (delete : BuildProjection T) :
    b.interruptedOpen delete = .ok (openOver delete b.notForgotten) ↔
      ∀ before id after, b.journal.log.acceptedNewestFirst = before ++ id :: after → b.Forgotten id →
        id ≠ delete.buildId →
          ∃ c ∈ before, c ≠ delete.buildId ∧
            ∃ p, b.standing c = some p ∧ p.newer delete = false ∧ p.state = .complete := by
  unfold interruptedOpen notForgotten
  rw [h.acceptedNewestFirst_eq, h.interruptedWalk_iff]
  unfold Passable
  have hmem : ∀ before id after, b.journal.log.acceptedNewestFirst = before ++ id :: after →
      (b.standing id = none ↔ b.Forgotten id) := by
    intro before id after hids
    exact h.indexed (by rw [hids]; simp)
  constructor
  · intro hpass before id after hids hf hne
    exact hpass before id after hids ((hmem before id after hids).mpr hf) hne
  · intro hpass before id after hids hnone hne
    exact hpass before id after hids ((hmem before id after hids).mp hnone) hne

/-- In every state a Build log reaches, its Build reads answer as over the Builds not forgotten exactly when the newest
accepted Build is not a forgotten one that a read meets, and no forgotten Build stands before the Build the walk of a
fabric.delete stops at. -/
theorem reads_over_not_forgotten_iff (kind : BuildLogKind) (ops : List (Op T)) (delete : BuildProjection T) :
    let b := run kind ops
    (b.currentBuild = .ok (currentOver b.notForgotten) ∧
      b.fabricDeleteInForce = .ok (inForceOver b.notForgotten) ∧
      b.interruptedOpen delete = .ok (openOver delete b.notForgotten)) ↔
    (∀ id, b.journal.log.acceptedNewestFirst.head? = some id → b.Forgotten id →
      ∃ c, b.notForgotten.find? isCurrent = some c ∧ c.deletesFabric = true) ∧
    ∀ before id after, b.journal.log.acceptedNewestFirst = before ++ id :: after → b.Forgotten id →
      id ≠ delete.buildId →
        ∃ c ∈ before, c ≠ delete.buildId ∧
          ∃ p, b.standing c = some p ∧ p.newer delete = false ∧ p.state = .complete := by
  intro b
  have h : b.Sound := sound_run kind ops
  have hcurrent : b.currentBuild = .ok (currentOver b.notForgotten) := by
    unfold currentBuild
    rw [h.currentOfBuilds_eq, h.acceptedNewestFirst_eq]
    rfl
  rw [h.fabricDeleteInForce_iff, h.interruptedOpen_iff]
  simp only [hcurrent, true_and]

/-- A Build accepted at a time, its change a node's delete. -/
def sampleBuild (id : String) (time : UInt64) : BuildAccepted Unit := ⟨id, (), .delete [] ["n"], none, time⟩

/-- A Build completed, a later one failed, and the failed one forgotten. -/
def forgottenNewest : List (Op Unit) :=
  [.publish "l1" (sampleBuild "b1" 1), .event "b1" .started, .event "b1" (.ended .complete),
    .publish "l2" (sampleBuild "b2" 2), .event "b2" (.ended (.failed "no primary" "UNAVAILABLE")), .forget "l3" "b2"]

/-- The failed Build is forgotten, and the reads that meet it in the acceptance order answer that no such Build is. -/
theorem forgotten_newest_unread :
    (run .memory forgottenNewest).fabricDeleteInForce = .error (.unknownBuild "b2") ∧
      (run .file forgottenNewest).fabricDeleteInForce = .error (.unknownBuild "b2") ∧
      (run .file forgottenNewest).interruptedOpen (.of ⟨"d", (), .deleteFabric, none, 3⟩ []) =
        .error (.unknownBuild "b2") := by
  decide +kernel

end Builds

end DistributedMesh.Build
