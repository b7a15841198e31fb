import DistributedMesh.GuardedRuns
import Mathlib.Data.Bool.Basic
import Mathlib.Logic.Function.Basic

namespace DistributedMesh.Driving

open GuardedRuns

/-- What a drive's readers are told at its end. -/
inductive Terminal where
  | complete
  | failed
  | incomplete
  | notReady
  | rejected
  deriving DecidableEq

/-- How one run of a drive ended. -/
inductive DriveEnd where
  | stalled
  | terminal
  | roleLost
  | unwritten
  deriving DecidableEq

/-- One Build's drive: its end, the role lost, the two flags of its task, and what it owes if it ended unwritten. -/
structure Drive where
  build : String
  terminal : Option Terminal
  lost : Bool
  running : Bool
  again : Bool
  unwritten : Option (Option Terminal)

namespace Drive

def new (build : String) : Drive := ⟨build, none, false, false, false, none⟩

def completed (d : Drive) : Bool := d.terminal == some .complete

def ended (d : Drive) : Bool := d.terminal.isSome || d.lost

def finish (d : Drive) (t : Terminal) : Drive := { d with terminal := some (d.terminal.getD t) }

def loseFabricPrimary (d : Drive) : Drive := { d with lost := d.lost || d.terminal.isNone }

end Drive

/-- One hold of a drive's own mutex, or one access of a flag. -/
inductive Effect where
  | keeps
  /-- `running.swap(true)`. -/
  | takes
  | releases
  | flags (again : Bool)
  | unwrites (owed : Option Terminal)
  | clears
  | finishes (t : Terminal)
  | loses

def Effect.on (e : Effect) (d : Drive) : Drive :=
  match e with
  | keeps => d
  | takes => { d with running := true }
  | releases => { d with running := false }
  | flags again => { d with again := again }
  | unwrites owed => { d with unwritten := some owed }
  | clears => { d with unwritten := none }
  | finishes t => d.finish t
  | loses => d.loseFabricPrimary

/-- Who looks a drive up. -/
inductive Asker where
  | ensure
  | unread
  deriving DecidableEq

/-- What the hold of the drives reads next of the drive held. -/
inductive Reading where
  | completed
  | unwritten
  | ended

/-- A call, or the task of a drive, and how far it is. -/
inductive Actor where
  | asking (k : Asker) (build : String)
  /-- The drives' mutex is held. -/
  | reads (k : Asker) (drive : Nat) (r : Reading)
  | found (k : Asker) (drive : Nat)
  /-- An `ensure` holds the tasks' mutex, and read the running flag as it set it. -/
  | swapped (drive : Nat) (was : Bool)
  | answered (k : Asker) (drive : Nat)
  | joins (drive : Nat)
  /-- An `unread` set the running flag. -/
  | marked (drive : Nat)
  | unreadUnwrote (drive : Nat)
  | unreadFinished (drive : Nat)
  /-- A `write_unwritten` found the drive unwritten. -/
  | writing (drive : Nat)
  | storing (drive : Nat)
  | clearing (drive : Nat) (owed : Bool)
  | checking (drive : Nat)
  | forgetting (drive : Nat)
  | stopping
  | aborting (drained : List Nat)
  | awaiting (drained : List Nat)
  /-- A `stop` that returned. -/
  | stopped (drained : List Nat)
  /-- A task, at the start of its loop. -/
  | spawned (drive : Nat)
  | starting (drive : Nat)
  /-- A run is in progress. -/
  | running (drive : Nat)
  | finished (drive : Nat) (how : DriveEnd)
  | unwrote (drive : Nat) (told : Terminal)
  | returned (drive : Nat) (how : DriveEnd)
  /-- The task holds the tasks' mutex, and read whether it runs again. -/
  | settling (drive : Nat) (how : DriveEnd) (again : Bool)
  | tail (drive : Nat) (how : DriveEnd)
  | leaving (drive : Nat)
  | gone

inductive Lock where
  | drives
  | tasks
  deriving DecidableEq

namespace Actor

/-- The drive it is at. -/
def drive : Actor → Option Nat
  | reads _ d _ => some d
  | found _ d => some d
  | swapped d _ => some d
  | answered _ d => some d
  | joins d => some d
  | marked d => some d
  | unreadUnwrote d => some d
  | unreadFinished d => some d
  | writing d => some d
  | storing d => some d
  | clearing d _ => some d
  | checking d => some d
  | forgetting d => some d
  | spawned d => some d
  | starting d => some d
  | running d => some d
  | finished d _ => some d
  | unwrote d _ => some d
  | returned d _ => some d
  | settling d _ _ => some d
  | tail d _ => some d
  | leaving d => some d
  | _ => none

/-- The mutex it holds from one step to the next. -/
def lock : Actor → Option Lock
  | reads _ _ _ => some .drives
  | swapped _ _ => some .tasks
  | settling _ _ _ => some .tasks
  | _ => none

/-- The drive whose running flag it set. -/
def flag : Actor → Option Nat
  | swapped d false => some d
  | marked d => some d
  | unreadUnwrote d => some d
  | unreadFinished d => some d
  | spawned d => some d
  | starting d => some d
  | running d => some d
  | finished d _ => some d
  | unwrote d _ => some d
  | returned d _ => some d
  | settling d _ _ => some d
  | _ => none

/-- The drive a task is of, until it is over. -/
def task : Actor → Option Nat
  | spawned d => some d
  | starting d => some d
  | running d => some d
  | finished d _ => some d
  | unwrote d _ => some d
  | returned d _ => some d
  | settling d _ _ => some d
  | tail d _ => some d
  | leaving d => some d
  | _ => none

/-- The drive a run is in progress of. -/
def inRun : Actor → Option Nat
  | running d => some d
  | finished d _ => some d
  | unwrote d _ => some d
  | _ => none

/-- It awaits what others do: a run its end, a write the store. -/
def awaits : Actor → Bool
  | running _ => true
  | storing _ => true
  | _ => false

def isOver : Actor → Bool
  | gone => true
  | _ => false

def hasReturned : Actor → Bool
  | stopped _ => true
  | _ => false

end Actor

/-- An admin's drives: the one held of each Build, every drive there is, the handle of each Build's last task and whether the
drives are stopped, the calls and tasks, the tasks aborted, and the Builds of the runs begun. -/
structure Drives where
  drives : String → Option Nat
  drive : Nat → Drive
  made : Nat
  handles : String → Option Nat
  stopped : Bool
  actors : List Actor
  aborted : List Nat
  runs : List String

namespace Drives

def new : Drives := ⟨fun _ => none, fun _ => Drive.new "", 0, fun _ => none, false, [], [], []⟩

def Free (s : Drives) (l : Lock) : Prop := LockFree Actor.lock s.actors l

instance (s : Drives) (l : Lock) : Decidable (s.Free l) := inferInstanceAs (Decidable (LockFree Actor.lock s.actors l))

def goesTo (s : Drives) (i : Nat) (a : Actor) : Drives := { s with actors := s.actors.set i a }

def effect (s : Drives) (d : Nat) (e : Effect) : Drives := { s with drive := Function.update s.drive d (e.on (s.drive d)) }

/-- A drive is made, and held of its Build. -/
def make (s : Drives) (build : String) : Drives :=
  { s with
    drives := Function.update s.drives build (some s.made)
    drive := Function.update s.drive s.made (Drive.new build)
    made := s.made + 1 }

/-- `forget_drive`: the drive is held no more, if it was. -/
def forget (s : Drives) (d : Nat) : Drives :=
  if s.drives (s.drive d).build = some d then { s with drives := Function.update s.drives (s.drive d).build none } else s

/-- The task of the drive starts, and its handle takes the place of the Build's last. -/
def spawn (s : Drives) (d : Nat) : Drives :=
  { s with
    actors := s.actors ++ [.spawned d]
    handles := Function.update s.handles (s.drive d).build (some s.actors.length) }

/-- The tasks whose handle is held and that are not finished. -/
def unfinished (s : Drives) : List Nat :=
  (List.range s.actors.length).filter fun i =>
    match s.actors[i]?.bind Actor.task with
    | some d => s.handles (s.drive d).build == some i
    | none => false

/-- The next step of a call or a task that reads or changes its drive alone. -/
def act (s : Drives) : Actor → Option (Nat × Effect × Actor)
  | .reads k d .completed => some (d, .keeps, if (s.drive d).completed then .answered k d else .reads k d .unwritten)
  | .reads k d .unwritten => some (d, .keeps, if (s.drive d).unwritten.isSome then .answered k d else .reads k d .ended)
  | .found .ensure d =>
    if s.Free .tasks then
      if s.stopped then some (d, .keeps, .answered .ensure d) else some (d, .takes, .swapped d (s.drive d).running)
    else none
  | .swapped d true => some (d, .flags true, .answered .ensure d)
  | .found .unread d => some (d, .takes, if (s.drive d).running then .joins d else .marked d)
  | .joins d => some (d, .flags true, .answered .unread d)
  | .marked d => some (d, .unwrites none, .unreadUnwrote d)
  | .unreadUnwrote d => some (d, .finishes .notReady, .unreadFinished d)
  | .unreadFinished d => some (d, .releases, .answered .unread d)
  | .writing d =>
    match (s.drive d).unwritten with
    | some (some _) => some (d, .keeps, .storing d)
    | _ => some (d, .keeps, .clearing d false)
  | .clearing d owed => some (d, .clears, if owed then .checking d else .forgetting d)
  | .checking d => some (d, .keeps, if (s.drive d).completed then .gone else .forgetting d)
  | .spawned d => some (d, .flags false, .starting d)
  | .finished d how => some (d, .keeps, .returned d how)
  | .unwrote d told => some (d, .finishes told, .finished d .unwritten)
  | .returned d how =>
    if s.Free .tasks then
      if how = .stalled ∧ s.stopped = false then some (d, .flags false, .settling d how (s.drive d).again)
      else some (d, .keeps, .settling d how false)
    else none
  | .settling d _ true => some (d, .keeps, .spawned d)
  | .settling d how false => some (d, .releases, .tail d how)
  | .tail d how =>
    some (d, .keeps, if (how = .terminal ∨ how = .roleLost) ∧ (s.drive d).completed = false then .leaving d else .gone)
  | _ => none

/-- The next step of a call or a task. -/
def goes (s : Drives) (i : Nat) (a : Actor) : Drives :=
  match a with
  | .asking k build =>
    if s.Free .drives then
      match s.drives build with
      | some d => s.goesTo i (.reads k d .completed)
      | none => (s.make build).goesTo i (.found k s.made)
    else s
  | .reads k d .ended =>
    if (s.drive d).ended then (s.make (s.drive d).build).goesTo i (.found k s.made) else s.goesTo i (.found k d)
  | .swapped d false => (s.goesTo i (.answered .ensure d)).spawn d
  | .forgetting d => if s.Free .drives then (s.forget d).goesTo i .gone else s
  | .leaving d => if s.Free .drives then (s.forget d).goesTo i .gone else s
  | .stopping =>
    if s.Free .tasks then { s with stopped := true, handles := fun _ => none }.goesTo i (.aborting s.unfinished) else s
  | .aborting drained => { s with aborted := s.aborted ++ drained }.goesTo i (.awaiting drained)
  | .awaiting drained =>
    if drained.all fun t => s.actors[t]?.any Actor.isOver then s.goesTo i (.stopped drained) else s
  | .starting d => { s with runs := s.runs ++ [(s.drive d).build] }.goesTo i (.running d)
  | a =>
    match s.act a with
    | some (d, e, a') => (s.effect d e).goesTo i a'
    | none => s

end Drives

/-- How a run goes on to its end. -/
inductive RunEnd where
  | stalls
  | finishes (t : Terminal)
  | loses
  | unwrites (owed : Option Terminal) (told : Terminal)

def RunEnd.act (d : Nat) : RunEnd → Effect × Actor
  | stalls => (.keeps, .returned d .stalled)
  | finishes t => (.finishes t, .finished d .terminal)
  | loses => (.loses, .finished d .roleLost)
  | unwrites owed told => (.unwrites owed, .unwrote d told)

/-- What happens next at the drives. -/
inductive Move where
  | ensures (build : String)
  | unreads (build : String)
  /-- A `write_unwritten` finds the Build's drive unwritten. -/
  | writes (build : String)
  | stops
  | goes (i : Nat)
  | ends (i : Nat) (how : RunEnd)
  /-- The owed event is written, or its `Send` spent. -/
  | stores (i : Nat) (ok : Bool)
  /-- An aborted task ends at an await. -/
  | cancels (i : Nat)

open Drives

def step (s : Drives) : Move → Drives
  | .ensures build => { s with actors := s.actors ++ [.asking .ensure build] }
  | .unreads build => { s with actors := s.actors ++ [.asking .unread build] }
  | .writes build =>
    match s.drives build with
    | some d =>
      if s.Free .drives ∧ (s.drive d).unwritten.isSome = true then { s with actors := s.actors ++ [.writing d] } else s
    | none => s
  | .stops => { s with actors := s.actors ++ [.stopping] }
  | .goes i =>
    match s.actors[i]? with
    | some a => s.goes i a
    | none => s
  | .ends i how =>
    match s.actors[i]? with
    | some (.running d) => (s.effect d (how.act d).1).goesTo i (how.act d).2
    | _ => s
  | .stores i ok =>
    match s.actors[i]? with
    | some (.storing d) => s.goesTo i (if ok then .clearing d true else .gone)
    | _ => s
  | .cancels i =>
    if i ∈ s.aborted then
      match s.actors[i]? with
      | some (.spawned _) => s.goesTo i .gone
      | some (.starting _) => s.goesTo i .gone
      | some (.running _) => s.goesTo i .gone
      | _ => s
    else s

/-- A step of a call or a task at its drive alone: what it does to the drive, and where it goes. -/
inductive Acts (s : Drives) : Actor → Nat → Effect → Actor → Prop where
  | incomplete {k : Asker} {d : Nat} : Acts s (.reads k d .completed) d .keeps (.reads k d .unwritten)
  | completed {k : Asker} {d : Nat} (h : (s.drive d).completed = true) :
      Acts s (.reads k d .completed) d .keeps (.answered k d)
  | written {k : Asker} {d : Nat} : Acts s (.reads k d .unwritten) d .keeps (.reads k d .ended)
  | unwritten {k : Asker} {d : Nat} (h : (s.drive d).unwritten.isSome = true) :
      Acts s (.reads k d .unwritten) d .keeps (.answered k d)
  | unended {k : Asker} {d : Nat} (h : (s.drive d).ended = false) : Acts s (.reads k d .ended) d .keeps (.found k d)
  | stopped {d : Nat} (h : s.stopped = true) : Acts s (.found .ensure d) d .keeps (.answered .ensure d)
  | swapped {d : Nat} (hfree : s.Free .tasks) (h : s.stopped = false) :
      Acts s (.found .ensure d) d .takes (.swapped d (s.drive d).running)
  | flagged {d : Nat} : Acts s (.swapped d true) d (.flags true) (.answered .ensure d)
  | joined {d : Nat} (h : (s.drive d).running = true) : Acts s (.found .unread d) d .takes (.joins d)
  | marked {d : Nat} (h : (s.drive d).running = false) : Acts s (.found .unread d) d .takes (.marked d)
  | rejoined {d : Nat} : Acts s (.joins d) d (.flags true) (.answered .unread d)
  | unreads {d : Nat} : Acts s (.marked d) d (.unwrites none) (.unreadUnwrote d)
  | unreadFinishes {d : Nat} : Acts s (.unreadUnwrote d) d (.finishes .notReady) (.unreadFinished d)
  | unreadReleases {d : Nat} : Acts s (.unreadFinished d) d .releases (.answered .unread d)
  | owes {d : Nat} : Acts s (.writing d) d .keeps (.storing d)
  | owesNone {d : Nat} : Acts s (.writing d) d .keeps (.clearing d false)
  | stored {d : Nat} : Acts s (.storing d) d .keeps (.clearing d true)
  | spent {d : Nat} : Acts s (.storing d) d .keeps .gone
  | clears {d : Nat} : Acts s (.clearing d true) d .clears (.checking d)
  | clearsNone {d : Nat} : Acts s (.clearing d false) d .clears (.forgetting d)
  | keptCompleted {d : Nat} : Acts s (.checking d) d .keeps .gone
  | checked {d : Nat} : Acts s (.checking d) d .keeps (.forgetting d)
  | resets {d : Nat} : Acts s (.spawned d) d (.flags false) (.starting d)
  | stalls {d : Nat} : Acts s (.running d) d .keeps (.returned d .stalled)
  | finishes {d : Nat} (t : Terminal) : Acts s (.running d) d (.finishes t) (.finished d .terminal)
  | loses {d : Nat} : Acts s (.running d) d .loses (.finished d .roleLost)
  | unwrites {d : Nat} (owed : Option Terminal) (told : Terminal) :
      Acts s (.running d) d (.unwrites owed) (.unwrote d told)
  | told {d : Nat} {told : Terminal} : Acts s (.unwrote d told) d (.finishes told) (.finished d .unwritten)
  | returns {d : Nat} {how : DriveEnd} : Acts s (.finished d how) d .keeps (.returned d how)
  | settles {d : Nat} (hfree : s.Free .tasks) (h : s.stopped = false) :
      Acts s (.returned d .stalled) d (.flags false) (.settling d .stalled (s.drive d).again)
  | settlesNot {d : Nat} {how : DriveEnd} (hfree : s.Free .tasks) (h : how = .stalled → s.stopped = true) :
      Acts s (.returned d how) d .keeps (.settling d how false)
  | repeats {d : Nat} {how : DriveEnd} : Acts s (.settling d how true) d .keeps (.spawned d)
  | releases {d : Nat} {how : DriveEnd} : Acts s (.settling d how false) d .releases (.tail d how)
  | leaves {d : Nat} {how : DriveEnd} (h : how = .terminal ∨ how = .roleLost) : Acts s (.tail d how) d .keeps (.leaving d)
  | stays {d : Nat} {how : DriveEnd} : Acts s (.tail d how) d .keeps .gone

/-- What one step does to the drives. -/
inductive Does (s : Drives) : Move → Drives → Prop where
  | nothing (m : Move) : Does s m s
  | called (m : Move) {a : Actor} (h : a = .stopping ∨ ∃ k build, a = .asking k build) :
      Does s m { s with actors := s.actors ++ [a] }
  | wrote (m : Move) {d : Nat} (hunwritten : (s.drive d).unwritten.isSome = true) (hheld : ∃ build, s.drives build = some d) :
      Does s m { s with actors := s.actors ++ [.writing d] }
  | acted {m : Move} {i d : Nat} {a a' : Actor} {e : Effect} (hi : s.actors[i]? = some a) (h : Acts s a d e a')
      (hm : m = .goes i ∨ a.awaits = true) : Does s m ((s.effect d e).goesTo i a')
  | reading {i d : Nat} {k : Asker} {build : String} (hi : s.actors[i]? = some (.asking k build)) (hfree : s.Free .drives)
      (hheld : s.drives build = some d) : Does s (.goes i) (s.goesTo i (.reads k d .completed))
  | made {i : Nat} {k : Asker} {build : String} (hi : s.actors[i]? = some (.asking k build)) (hfree : s.Free .drives)
      (hnone : s.drives build = none) : Does s (.goes i) ((s.make build).goesTo i (.found k s.made))
  | replaced {i d : Nat} {k : Asker} (hi : s.actors[i]? = some (.reads k d .ended)) (hended : (s.drive d).ended = true) :
      Does s (.goes i) ((s.make (s.drive d).build).goesTo i (.found k s.made))
  | spawned {i d : Nat} (hi : s.actors[i]? = some (.swapped d false)) :
      Does s (.goes i) ((s.goesTo i (.answered .ensure d)).spawn d)
  | forgot {i d : Nat} {a : Actor} (hi : s.actors[i]? = some a) (ha : a = .forgetting d ∨ a = .leaving d)
      (hfree : s.Free .drives) : Does s (.goes i) ((s.forget d).goesTo i .gone)
  | drained {i : Nat} (hi : s.actors[i]? = some .stopping) (hfree : s.Free .tasks) :
      Does s (.goes i) ({ s with stopped := true, handles := fun _ => none }.goesTo i (.aborting s.unfinished))
  | aborted {i : Nat} {drained : List Nat} (hi : s.actors[i]? = some (.aborting drained)) :
      Does s (.goes i) ({ s with aborted := s.aborted ++ drained }.goesTo i (.awaiting drained))
  | returned {i : Nat} {drained : List Nat} (hi : s.actors[i]? = some (.awaiting drained))
      (hover : ∀ t ∈ drained, s.actors[t]?.any Actor.isOver = true) : Does s (.goes i) (s.goesTo i (.stopped drained))
  | began {i d : Nat} (hi : s.actors[i]? = some (.starting d)) :
      Does s (.goes i) ({ s with runs := s.runs ++ [(s.drive d).build] }.goesTo i (.running d))
  | cancelled {i d : Nat} {a : Actor} (hi : s.actors[i]? = some a) (haborted : i ∈ s.aborted)
      (ha : a = .spawned d ∨ a = .starting d ∨ a = .running d) : Does s (.cancels i) (s.goesTo i .gone)

theorem effect_keeps (s : Drives) (d : Nat) : s.effect d .keeps = s := by
  unfold Drives.effect
  rw [show Effect.keeps.on (s.drive d) = s.drive d from rfl, Function.update_eq_self]

theorem Does.keeps {s : Drives} {m : Move} {i d : Nat} {a a' : Actor} (hi : s.actors[i]? = some a)
    (h : Acts s a d .keeps a') (hm : m = .goes i ∨ a.awaits = true) : Does s m (s.goesTo i a') := by
  have hacted : Does s m ((s.effect d .keeps).goesTo i a') := .acted hi h hm
  rwa [effect_keeps] at hacted

/-- What `act` answers is a step at the drive alone. -/
theorem acts_of_act {s : Drives} {a a' : Actor} {d : Nat} {e : Effect} (h : s.act a = some (d, e, a')) : Acts s a d e a' := by
  unfold act at h
  split at h
  next k d₀ =>
    cases h
    split
    next hc => exact .completed hc
    next => exact .incomplete
  next k d₀ =>
    cases h
    split
    next hu => exact .unwritten hu
    next => exact .written
  next d₀ =>
    split at h
    next hfree =>
      split at h
      next hstopped =>
        cases h
        exact .stopped hstopped
      next hstopped =>
        cases h
        exact .swapped hfree (Bool.eq_false_of_not_eq_true hstopped)
    next => cases h
  next d₀ =>
    cases h
    exact .flagged
  next d₀ =>
    cases h
    split
    next hr => exact .joined hr
    next hr => exact .marked (Bool.eq_false_of_not_eq_true hr)
  next d₀ =>
    cases h
    exact .rejoined
  next d₀ =>
    cases h
    exact .unreads
  next d₀ =>
    cases h
    exact .unreadFinishes
  next d₀ =>
    cases h
    exact .unreadReleases
  next d₀ =>
    split at h
    next =>
      cases h
      exact .owes
    next =>
      cases h
      exact .owesNone
  next d₀ owed =>
    cases h
    cases owed with
    | true => exact .clears
    | false => exact .clearsNone
  next d₀ =>
    cases h
    split
    next => exact .keptCompleted
    next => exact .checked
  next d₀ =>
    cases h
    exact .resets
  next d₀ how =>
    cases h
    exact .returns
  next d₀ told =>
    cases h
    exact .told
  next d₀ how =>
    split at h
    next hfree =>
      split at h
      next hagain =>
        obtain ⟨rfl, hstopped⟩ := hagain
        cases h
        exact .settles hfree hstopped
      next hnot =>
        cases h
        exact .settlesNot hfree fun hhow => by simpa [hhow] using hnot
    next => cases h
  next d₀ how =>
    cases h
    exact .repeats
  next d₀ how =>
    cases h
    exact .releases
  next d₀ how =>
    cases h
    split
    next hl => exact .leaves hl.1
    next => exact .stays
  next => cases h

theorem goes_does {s : Drives} {i : Nat} {a : Actor} (hi : s.actors[i]? = some a) : Does s (.goes i) (s.goes i a) := by
  unfold goes
  split
  next k build =>
    split
    next hfree =>
      split
      next d hheld => exact .reading hi hfree hheld
      next hnone => exact .made hi hfree hnone
    next => exact .nothing _
  next k d =>
    split
    next hended => exact .replaced hi hended
    next hended => exact .keeps hi (.unended (Bool.eq_false_of_not_eq_true hended)) (.inl rfl)
  next d => exact .spawned hi
  next d =>
    split
    next hfree => exact .forgot hi (.inl rfl) hfree
    next => exact .nothing _
  next d =>
    split
    next hfree => exact .forgot hi (.inr rfl) hfree
    next => exact .nothing _
  next =>
    split
    next hfree => exact .drained hi hfree
    next => exact .nothing _
  next drained => exact .aborted hi
  next drained =>
    split
    next hall => exact .returned hi (List.all_eq_true.mp hall)
    next => exact .nothing _
  next d => exact .began hi
  next =>
    split
    next d e a' h => exact .acted hi (acts_of_act h) (.inl rfl)
    next => exact .nothing _

theorem step_does (s : Drives) (m : Move) : Does s m (step s m) := by
  cases m with
  | ensures build => exact .called _ (.inr ⟨.ensure, build, rfl⟩)
  | unreads build => exact .called _ (.inr ⟨.unread, build, rfl⟩)
  | writes build =>
    simp only [step]
    split
    next d hheld =>
      split
      next h => exact .wrote _ h.2 ⟨build, hheld⟩
      next => exact .nothing _
    next => exact .nothing _
  | stops => exact .called _ (.inl rfl)
  | goes i =>
    simp only [step]
    split
    next a hi => exact goes_does hi
    next => exact .nothing _
  | ends i how =>
    simp only [step]
    split
    next d hi =>
      cases how with
      | stalls => exact .acted hi .stalls (.inr rfl)
      | finishes t => exact .acted hi (.finishes t) (.inr rfl)
      | loses => exact .acted hi .loses (.inr rfl)
      | unwrites owed told => exact .acted hi (.unwrites owed told) (.inr rfl)
    next => exact .nothing _
  | stores i ok =>
    simp only [step]
    split
    next d hi =>
      cases ok with
      | true => exact .keeps hi .stored (.inr rfl)
      | false => exact .keeps hi .spent (.inr rfl)
    next => exact .nothing _
  | cancels i =>
    simp only [step]
    split
    next haborted =>
      split
      next d hi => exact .cancelled hi haborted (.inl rfl)
      next d hi => exact .cancelled hi haborted (.inr (.inl rfl))
      next d hi => exact .cancelled hi haborted (.inr (.inr rfl))
      next => exact .nothing _
    next => exact .nothing _

end DistributedMesh.Driving
