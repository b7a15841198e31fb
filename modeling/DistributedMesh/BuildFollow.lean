import DistributedMesh.BuildGet
import DistributedMesh.GuardedRuns
import DistributedMesh.Repeats
import DistributedMesh.SectionRuns

namespace DistributedMesh.BuildFollow

open GuardedRuns (invariant_run)
open Repeats
open SectionRuns (Code StepOutcome UnfinishedSection)

/-- How a Build's stream ends on its own. -/
inductive Terminal where
  | complete
  | failed (reason : String) (code : Code)
  | incomplete (sections : List UnfinishedSection)
  | got (phase : BuildGet.BuildPhase) (reason : String) (lastFailure : Option String) (events chunks : UInt32)
  | deleted

/-- A reply on a Build's stream after `Started`. -/
inductive BuildReply where
  | step (mesh operation step : String) (result : StepOutcome)
  | pending (mesh operation step reason : String)
  | events (events : List String)
  | ends (terminal : Terminal)
  | fabricPrimaryMoved (fabricPrimary : Option String)
  | other (name : String)

/-- What the stream gives next: a frame, that it broke, or nothing more. -/
inductive StreamItem where
  | frame (reply : BuildReply)
  | failed (code : Code)
  | none

/-- A frame of a Build stream as a caller has it. -/
inductive BuildFrame (E : Type) where
  | step (mesh operation step : String) (result : StepOutcome)
  | pending (mesh operation step reason : String)
  | events (events : List E)
  | ends (terminal : Terminal)
  | fabricPrimaryMoved (fabricPrimary : Option String)

inductive CallEnd where
  | indeterminate (code : Code)
  | rejected (name : String)
deriving DecidableEq

/-- What a stream drops a frame by once it gave one of that key. -/
inductive Key where
  | step (mesh operation step : String)
  | pending (mesh operation step reason : String)
deriving DecidableEq

structure BuildStream where
  seen : List Key
  ended : Bool

/-- What `next` comes to at an item: it reads on, gives a frame, ends the call, or has nothing more. -/
inductive Next (E : Type) where
  | continues
  | frame (f : BuildFrame E)
  | error (e : CallEnd)
  | none

namespace BuildStream

variable {E : Type}

def new : BuildStream := ⟨[], false⟩

/-- The frame, unless one of its key was given. -/
def give (s : BuildStream) (key : Key) (f : BuildFrame E) : BuildStream × Next E :=
  if s.seen.contains key then (s, .continues) else ({ s with seen := key :: s.seen }, .frame f)

def ends (s : BuildStream) (n : Next E) : BuildStream × Next E := ({ s with ended := true }, n)

def next (parse : String → Option E) (s : BuildStream) (item : StreamItem) : BuildStream × Next E :=
  if s.ended then (s, .none)
  else
    match item with
    | .none => (s, .none)
    | .failed code => s.ends (.error (.indeterminate code))
    | .frame (.step mesh operation step result) => s.give (.step mesh operation step) (.step mesh operation step result)
    | .frame (.pending mesh operation step reason) =>
      s.give (.pending mesh operation step reason) (.pending mesh operation step reason)
    | .frame (.events events) =>
      match events.mapM parse with
      | some events => (s, .frame (.events events))
      | none => s.ends (.error (.indeterminate .dataLoss))
    | .frame (.ends terminal) => s.ends (.frame (.ends terminal))
    | .frame (.fabricPrimaryMoved fabricPrimary) => s.ends (.frame (.fabricPrimaryMoved fabricPrimary))
    | .frame (.other name) => s.ends (.error (.rejected name))

end BuildStream

/-- Where a follower is: it reads its stream, has asked to reattach, or is done. -/
inductive Stage where
  | reading
  | reattaching
  | followed
  | failed (e : CallEnd)
deriving DecidableEq

/-- A Build followed so far: the frames of every attachment, how often it reattached, and the steps it has. -/
structure Follower (E : Type) where
  stream : BuildStream
  frames : List (BuildFrame E)
  reattached : Nat
  steps : List (String × String × String)
  stage : Stage

/-- What reaches a follower: an item of its stream, or what its reattachment came to, the events read and a stream opened
again. -/
inductive Input (E : Type) where
  | item (item : StreamItem)
  | reattached (out : Except CallEnd (List E))

namespace Follower

variable {E : Type}

def new : Follower E := ⟨.new, [], 0, [], .reading⟩

/-- The stream is over: the follower asks to reattach. -/
def breaks (f : Follower E) : Follower E := { f with reattached := f.reattached + 1, stage := .reattaching }

/-- The step of a frame that has one is kept, unless it is kept already. -/
def keepStep (f : Follower E) (key : String × String × String) (frame : BuildFrame E) : Follower E :=
  if f.steps.contains key then f else { f with steps := key :: f.steps, frames := f.frames ++ [frame] }

def keep (f : Follower E) : BuildFrame E → Follower E
  | .step mesh operation step result => f.keepStep (mesh, operation, step) (.step mesh operation step result)
  | .ends terminal => { f with frames := f.frames ++ [BuildFrame.ends terminal], stage := .followed }
  | .fabricPrimaryMoved fabricPrimary =>
    ({ f with frames := f.frames ++ [BuildFrame.fabricPrimaryMoved fabricPrimary] } : Follower E).breaks
  | .pending mesh operation step reason => { f with frames := f.frames ++ [BuildFrame.pending mesh operation step reason] }
  | .events events => { f with frames := f.frames ++ [BuildFrame.events events] }

/-- The step an event read again shows complete. -/
def keepCompleted (f : Follower E) (key : String × String × String) : Follower E :=
  f.keepStep key (.step key.1 key.2.1 key.2.2 .complete)

/-- What the stream comes to. -/
def takes (f : Follower E) (stream : BuildStream) : Next E → Follower E
  | .continues => { f with stream := stream }
  | .frame frame => ({ f with stream := stream } : Follower E).keep frame
  | .error (.indeterminate _) => ({ f with stream := stream } : Follower E).breaks
  | .error (.rejected name) => { f with stream := stream, stage := .failed (.rejected name) }
  | .none => ({ f with stream := stream } : Follower E).breaks

/-- What a reattachment came to: each step it shows complete is kept once, and the stream opened again is read on. -/
def reattach (completedStep : E → Option (String × String × String)) (f : Follower E) :
    Except CallEnd (List E) → Follower E
  | .ok events => { (events.filterMap completedStep).foldl keepCompleted f with stream := .new, stage := .reading }
  | .error e => { f with stage := .failed e }

def input (parse : String → Option E) (completedStep : E → Option (String × String × String)) (f : Follower E) :
    Input E → Follower E
  | .item item =>
    if f.stage = .reading then f.takes (f.stream.next parse item).1 (f.stream.next parse item).2 else f
  | .reattached out => if f.stage = .reattaching then f.reattach completedStep out else f

def run (parse : String → Option E) (completedStep : E → Option (String × String × String)) (f : Follower E)
    (inputs : List (Input E)) : Follower E := inputs.foldl (input parse completedStep) f

/-- What makes a frame repeat another: a step's own key, and a pending step's key within its attachment. -/
def repeatKey : Nat × BuildFrame E → Option (Option Nat × Key)
  | (_, .step mesh operation step _) => some (none, .step mesh operation step)
  | (n, .pending mesh operation step reason) => some (some n, .pending mesh operation step reason)
  | _ => none

/-- The frame a reply carries. -/
def carried (parse : String → Option E) : BuildReply → List (BuildFrame E)
  | .step mesh operation step result => [.step mesh operation step result]
  | .pending mesh operation step reason => [.pending mesh operation step reason]
  | .events events => ((events.mapM parse).map BuildFrame.events).toList
  | .ends terminal => [.ends terminal]
  | .fabricPrimaryMoved fabricPrimary => [.fabricPrimaryMoved fabricPrimary]
  | .other _ => []

/-- The frames an input brings, each with the number of its attachment: a reply's own, and a step frame of each event read
again that shows a step complete. -/
def heardAt (parse : String → Option E) (completedStep : E → Option (String × String × String)) (f : Follower E) :
    Input E → List (Nat × BuildFrame E)
  | .item (.frame reply) => if f.stage = .reading then (carried parse reply).map (f.reattached, ·) else []
  | .reattached (.ok events) =>
    if f.stage = .reattaching then
      (events.filterMap completedStep).map fun key => (f.reattached, BuildFrame.step key.1 key.2.1 key.2.2 .complete)
    else []
  | _ => []

/-- All a run of inputs brings a follower. -/
def heard (parse : String → Option E) (completedStep : E → Option (String × String × String)) (f : Follower E) :
    List (Input E) → List (Nat × BuildFrame E)
  | [] => []
  | i :: inputs => heardAt parse completedStep f i ++ heard parse completedStep (f.input parse completedStep i) inputs

/-- The frames kept are the first of each key heard, and the steps are the keys of the step frames among them. -/
structure Kept (frames : List (BuildFrame E)) (steps : List (String × String × String))
    (h : List (Nat × BuildFrame E)) : Prop where
  frames : frames = (firsts repeatKey h).map Prod.snd
  steps : ∀ mesh operation step, (mesh, operation, step) ∈ steps ↔ (none, .step mesh operation step) ∈ keys repeatKey h

variable {f : Follower E} {h : List (Nat × BuildFrame E)} {frames : List (BuildFrame E)}
  {steps : List (String × String × String)} {frame : BuildFrame E} {n : Nat}

theorem Kept.nil : Kept ([] : List (BuildFrame E)) [] [] := ⟨rfl, by simp⟩

/-- A frame that is no step's comes after those kept, unless it repeats one. -/
theorem Kept.pushes (hk : Kept frames steps h) (hstep : ∀ key, repeatKey (n, frame) ≠ some (none, key))
    (hnew : ∀ k, repeatKey (n, frame) = some k → k ∉ keys repeatKey h) :
    Kept (frames ++ [frame]) steps (h ++ [(n, frame)]) := by
  refine ⟨?_, ?_⟩
  · rw [firsts_new hnew, List.map_append, hk.frames]
    rfl
  · intro mesh operation step
    rw [hk.steps, mem_keys_concat]
    refine ⟨Or.inl, ?_⟩
    rintro (hmem | hkey)
    · exact hmem
    · exact absurd hkey (hstep _)

/-- A frame that repeats one heard leaves what is kept. -/
theorem Kept.repeats {k : Option Nat × Key} (hk : Kept frames steps h) (hkey : repeatKey (n, frame) = some k)
    (hmem : k ∈ keys repeatKey h) : Kept frames steps (h ++ [(n, frame)]) := by
  refine ⟨?_, ?_⟩
  · rw [firsts_repeated hkey hmem, hk.frames]
  · intro mesh operation step
    rw [hk.steps, keys_repeated hkey hmem]

theorem Kept.keepStep (hk : Kept f.frames f.steps h) (mesh operation step : String) (result : StepOutcome) (n : Nat) :
    Kept (f.keepStep (mesh, operation, step) (.step mesh operation step result)).frames
      (f.keepStep (mesh, operation, step) (.step mesh operation step result)).steps
      (h ++ [(n, BuildFrame.step mesh operation step result)]) := by
  rw [Follower.keepStep]
  by_cases hmem : (mesh, operation, step) ∈ f.steps
  · rw [if_pos (List.contains_iff_mem.mpr hmem)]
    exact hk.repeats rfl ((hk.steps mesh operation step).mp hmem)
  · rw [if_neg fun hc => hmem (List.contains_iff_mem.mp hc)]
    have hnew : ∀ k, repeatKey (n, BuildFrame.step (E := E) mesh operation step result) = some k →
        k ∉ keys repeatKey h := by
      rintro k ⟨⟩ hin
      exact hmem ((hk.steps mesh operation step).mpr hin)
    refine ⟨?_, ?_⟩
    · rw [firsts_new hnew, List.map_append, hk.frames]
      rfl
    · intro mesh' operation' step'
      rw [mem_keys_concat, List.mem_cons, hk.steps]
      simp only [repeatKey, Option.some.injEq, Prod.mk.injEq, true_and, Key.step.injEq]
      rw [or_comm, eq_comm (a := mesh), eq_comm (a := operation), eq_comm (a := step)]

/-- Keeping a step leaves the stream, the stage and the count alone. -/
theorem keepStep_rest (f : Follower E) (key : String × String × String) (frame : BuildFrame E) :
    (f.keepStep key frame).stream = f.stream ∧ (f.keepStep key frame).stage = f.stage ∧
      (f.keepStep key frame).reattached = f.reattached ∧ ∀ k ∈ f.steps, k ∈ (f.keepStep key frame).steps := by
  rw [Follower.keepStep]
  split
  · exact ⟨rfl, rfl, rfl, fun _ hk => hk⟩
  · exact ⟨rfl, rfl, rfl, fun _ hk => List.mem_cons_of_mem key hk⟩

theorem mem_keepStep (f : Follower E) (key : String × String × String) (frame : BuildFrame E) :
    key ∈ (f.keepStep key frame).steps := by
  rw [Follower.keepStep]
  split
  next hc => exact List.contains_iff_mem.mp hc
  next => exact List.mem_cons_self

/-- A step that is kept already is not kept again. -/
theorem keepStep_known {key : String × String × String} (hkey : key ∈ f.steps) : f.keepStep key frame = f := by
  rw [Follower.keepStep, if_pos (List.contains_iff_mem.mpr hkey)]

theorem Kept.completed (keys : List (String × String × String)) (hk : Kept f.frames f.steps h) :
    Kept (keys.foldl keepCompleted f).frames (keys.foldl keepCompleted f).steps
        (h ++ keys.map fun key => (n, BuildFrame.step key.1 key.2.1 key.2.2 .complete)) ∧
      (keys.foldl keepCompleted f).reattached = f.reattached := by
  induction keys generalizing f h with
  | nil => simpa using hk
  | cons key keys ih =>
    obtain ⟨mesh, operation, step⟩ := key
    have hstep := ih (hk.keepStep mesh operation step .complete n)
    rw [List.append_assoc, List.singleton_append] at hstep
    exact ⟨hstep.1, hstep.2.trans (keepStep_rest f _ _).2.2.1⟩

/-- What a follower holds of all it heard: the stream open has given no step that is not kept, and just the pending steps
of its attachment. -/
structure Follows (f : Follower E) (h : List (Nat × BuildFrame E)) : Prop where
  kept : Kept f.frames f.steps h
  steps : ∀ mesh operation step, .step mesh operation step ∈ f.stream.seen → (mesh, operation, step) ∈ f.steps
  pending : f.stage = .reading → ∀ mesh operation step reason,
    .pending mesh operation step reason ∈ f.stream.seen ↔
      (some f.reattached, .pending mesh operation step reason) ∈ keys repeatKey h
  unended : f.stage = .reading → f.stream.ended = false
  attached : ∀ n key, (some n, key) ∈ keys repeatKey h → n ≤ f.reattached
  broken : f.stage = .reattaching → ∀ n key, (some n, key) ∈ keys repeatKey h → n < f.reattached

theorem Follows.new : Follows (Follower.new : Follower E) [] :=
  ⟨.nil, by simp [Follower.new, BuildStream.new], by simp [Follower.new, BuildStream.new], (fun _ => rfl), by simp,
    by simp⟩

/-- A stream that is over is asked for again; what it gave stands. -/
theorem Follows.breaks (hf : Follows f h) (stream : BuildStream) (hseen : stream.seen = f.stream.seen) :
    Follows ({ f with stream := stream } : Follower E).breaks h := by
  have hearlier : ∀ n key, (some n, key) ∈ keys repeatKey h → n < f.reattached + 1 := by
    intro n key hmem
    exact Nat.lt_succ_of_le (hf.attached n key hmem)
  refine ⟨hf.kept, ?_, (fun hstage => by cases hstage), (fun hstage => by cases hstage), ?_, fun _ => hearlier⟩
  · intro mesh operation step hmem
    exact hf.steps mesh operation step (hseen ▸ hmem)
  · intro n key hmem
    exact Nat.le_of_lt (hearlier n key hmem)

/-- A follower that is done keeps what it has. -/
theorem Follows.stops (hf : Follows f h) {stage : Stage} (hreading : stage ≠ .reading)
    (hreattaching : stage ≠ .reattaching) (stream : BuildStream) (hseen : stream.seen = f.stream.seen) :
    Follows ({ f with stream := stream, stage := stage } : Follower E) h := by
  refine ⟨hf.kept, ?_, fun hstage => absurd hstage hreading, fun hstage => absurd hstage hreading, hf.attached,
    fun hstage => absurd hstage hreattaching⟩
  intro mesh operation step hmem
  exact hf.steps mesh operation step (hseen ▸ hmem)

/-- A frame that repeats nothing is kept. -/
theorem Follows.pushes (frame : BuildFrame E) (hf : Follows f h) (hkey : repeatKey (n, frame) = none) :
    Follows { f with frames := f.frames ++ [frame] } (h ++ [(n, frame)]) := by
  have hkeys : keys repeatKey (h ++ [(n, frame)]) = keys repeatKey h := by
    rw [keys_new (by simp [hkey]), hkey, Option.toList_none, List.append_nil]
  refine ⟨hf.kept.pushes (by simp [hkey]) (by simp [hkey]), hf.steps, ?_, hf.unended, ?_, ?_⟩
  · rw [hkeys]
    exact hf.pending
  · rw [hkeys]
    exact hf.attached
  · rw [hkeys]
    exact hf.broken

/-- A step frame adds no pending step. -/
theorem mem_keys_step {mesh operation step : String} {result : StepOutcome} {m : Nat} {key : Key} :
    (some m, key) ∈ keys repeatKey (h ++ [(n, BuildFrame.step mesh operation step result)]) ↔ (some m, key) ∈ keys repeatKey h := by
  rw [mem_keys_concat]
  simp [repeatKey]

/-- A step the stream has is kept, once. -/
theorem Follows.step (hf : Follows f h) (mesh operation step : String) (result : StepOutcome) (seen : List Key)
    (hseen : seen = f.stream.seen ∨ seen = .step mesh operation step :: f.stream.seen) :
    Follows { f.keepStep (mesh, operation, step) (.step mesh operation step result) with
      stream := { f.stream with seen := seen } } (h ++ [(n, BuildFrame.step mesh operation step result)]) := by
  obtain ⟨hstream, hstage, hreattached, hsteps⟩ :=
    keepStep_rest f (mesh, operation, step) (.step mesh operation step result)
  refine ⟨hf.kept.keepStep mesh operation step result n, ?_, ?_, ?_, ?_, ?_⟩
  · intro mesh' operation' step' hmem
    rcases hseen with rfl | rfl
    · exact hsteps _ (hf.steps _ _ _ hmem)
    · rcases List.mem_cons.mp hmem with hkey | hold
      · cases hkey
        exact mem_keepStep f _ _
      · exact hsteps _ (hf.steps _ _ _ hold)
  · intro hreading mesh' operation' step' reason
    rw [mem_keys_step, hreattached, ← hf.pending (hstage.symm.trans hreading)]
    rcases hseen with rfl | rfl <;> simp
  · intro hreading
    exact hf.unended (hstage.symm.trans hreading)
  · intro m key hmem
    rw [hreattached]
    exact hf.attached m key (mem_keys_step.mp hmem)
  · intro hreattaching m key hmem
    rw [hreattached]
    exact hf.broken (hstage.symm.trans hreattaching) m key (mem_keys_step.mp hmem)

/-- A pending step its stream has given is left out. -/
theorem Follows.pendingKnown (hf : Follows f h) (hreading : f.stage = .reading) {mesh operation step reason : String}
    (hmem : .pending mesh operation step reason ∈ f.stream.seen) :
    Follows f (h ++ [(f.reattached, BuildFrame.pending mesh operation step reason)]) := by
  have hin := (hf.pending hreading mesh operation step reason).mp hmem
  have hkeys : keys repeatKey (h ++ [(f.reattached, BuildFrame.pending mesh operation step reason)]) = keys repeatKey h :=
    keys_repeated rfl hin
  refine ⟨hf.kept.repeats rfl hin, hf.steps, ?_, hf.unended, ?_, ?_⟩
  · rw [hkeys]
    exact hf.pending
  · rw [hkeys]
    exact hf.attached
  · rw [hkeys]
    exact hf.broken

/-- A pending step its stream has not given is kept. -/
theorem Follows.pendingNew (hf : Follows f h) (hreading : f.stage = .reading) {mesh operation step reason : String}
    (hmem : .pending mesh operation step reason ∉ f.stream.seen) :
    Follows { f with
      stream := { f.stream with seen := .pending mesh operation step reason :: f.stream.seen }
      frames := f.frames ++ [BuildFrame.pending mesh operation step reason] }
        (h ++ [(f.reattached, BuildFrame.pending mesh operation step reason)]) := by
  have hnew : ∀ k, repeatKey (f.reattached, BuildFrame.pending (E := E) mesh operation step reason) = some k →
      k ∉ keys repeatKey h := by
    rintro k ⟨⟩ hin
    exact hmem ((hf.pending hreading mesh operation step reason).mpr hin)
  have hkeys : ∀ m key, (some m, key) ∈ keys repeatKey (h ++ [(f.reattached, BuildFrame.pending mesh operation step reason)]) ↔
      (some m, key) ∈ keys repeatKey h ∨ m = f.reattached ∧ key = .pending mesh operation step reason := by
    intro m key
    rw [mem_keys_concat]
    simp only [repeatKey, Option.some.injEq, Prod.mk.injEq, eq_comm]
  refine ⟨hf.kept.pushes (by simp [repeatKey]) hnew, ?_, ?_, hf.unended, ?_, ?_⟩
  · intro mesh' operation' step' hin
    rcases List.mem_cons.mp hin with hkey | hold
    · cases hkey
    · exact hf.steps mesh' operation' step' hold
  · intro _ mesh' operation' step' reason'
    rw [hkeys, List.mem_cons, hf.pending hreading, or_comm]
    simp
  · intro m key hin
    rcases (hkeys m key).mp hin with hold | ⟨rfl, _⟩
    · exact hf.attached m key hold
    · exact Nat.le_refl f.reattached
  · intro hreattaching
    cases hreading.symm.trans hreattaching

variable (parse : String → Option E) (completedStep : E → Option (String × String × String))

/-- Step frames add no pending step. -/
theorem mem_keys_steps (l : List (String × String × String)) {m : Nat} {key : Key} :
    (some m, key) ∈ keys repeatKey (h ++ l.map fun k => (n, BuildFrame.step k.1 k.2.1 k.2.2 .complete)) ↔
      (some m, key) ∈ keys repeatKey h := by
  induction l generalizing h with
  | nil => simp
  | cons k l ih =>
    rw [List.map_cons, ← List.singleton_append, ← List.append_assoc, ih]
    exact mem_keys_step

/-- A reattachment: no pending step of the new attachment is heard yet. -/
theorem Follows.reattached (hf : Follows f h) (hreattaching : f.stage = .reattaching) (events : List E) :
    Follows (f.reattach completedStep (.ok events))
      (h ++ (events.filterMap completedStep).map fun key => (f.reattached, BuildFrame.step key.1 key.2.1 key.2.2 .complete)) := by
  obtain ⟨hkept, hcount⟩ := Kept.completed (n := f.reattached) (events.filterMap completedStep) hf.kept
  have hcount : (f.reattach completedStep (.ok events)).reattached = f.reattached := hcount
  refine ⟨hkept, by simp [Follower.reattach, BuildStream.new], ?_, (fun _ => rfl), ?_,
    (fun hstage => by cases hstage)⟩
  · intro _ mesh operation step reason
    refine ⟨(fun hmem => by cases hmem), ?_⟩
    rw [hcount, mem_keys_steps]
    intro hmem
    exact absurd (hf.broken hreattaching _ _ hmem) (Nat.lt_irrefl _)
  · intro m key hmem
    rw [hcount]
    exact hf.attached m key ((mem_keys_steps _).mp hmem)

/-- One reply of the stream. -/
theorem Follows.reply (hf : Follows f h) (hreading : f.stage = .reading) (reply : BuildReply) :
    Follows (f.takes (f.stream.next parse (.frame reply)).1 (f.stream.next parse (.frame reply)).2)
      (h ++ (carried parse reply).map (f.reattached, ·)) := by
  have hopen := hf.unended hreading
  cases reply with
  | step mesh operation step result =>
    have hnext : f.stream.next parse (.frame (.step mesh operation step result)) =
        f.stream.give (.step mesh operation step) (.step mesh operation step result) := by
      simp [BuildStream.next, hopen]
    rw [hnext, BuildStream.give]
    by_cases hmem : Key.step mesh operation step ∈ f.stream.seen
    · -- The stream drops it, and the follower has the step from the same stream.
      rw [if_pos (List.contains_iff_mem.mpr hmem)]
      have hstep := hf.step (n := f.reattached) mesh operation step result f.stream.seen (.inl rfl)
      rw [keepStep_known (hf.steps mesh operation step hmem)] at hstep
      exact hstep
    · rw [if_neg fun hc => hmem (List.contains_iff_mem.mp hc)]
      have hstep := hf.step (n := f.reattached) mesh operation step result _ (.inr rfl)
      have hkeep : ({ f with stream := { f.stream with seen := .step mesh operation step :: f.stream.seen } } :
            Follower E).keepStep (mesh, operation, step) (.step mesh operation step result) =
          { f.keepStep (mesh, operation, step) (.step mesh operation step result) with
            stream := { f.stream with seen := .step mesh operation step :: f.stream.seen } } := by
        simp only [Follower.keepStep]
        split
        · rfl
        · rfl
      rw [← hkeep] at hstep
      exact hstep
  | pending mesh operation step reason =>
    have hnext : f.stream.next parse (.frame (.pending mesh operation step reason)) =
        f.stream.give (.pending mesh operation step reason) (.pending mesh operation step reason) := by
      simp [BuildStream.next, hopen]
    rw [hnext, BuildStream.give]
    by_cases hmem : Key.pending mesh operation step reason ∈ f.stream.seen
    · rw [if_pos (List.contains_iff_mem.mpr hmem)]
      exact hf.pendingKnown hreading hmem
    · rw [if_neg fun hc => hmem (List.contains_iff_mem.mp hc)]
      exact hf.pendingNew hreading hmem
  | events events =>
    cases hparse : events.mapM parse with
    | some parsed =>
      have hnext : f.stream.next parse (.frame (.events events)) = (f.stream, .frame (.events parsed)) := by
        simp [BuildStream.next, hopen, hparse]
      rw [hnext, carried, hparse]
      exact hf.pushes (.events parsed) rfl
    | none =>
      have hnext : f.stream.next parse (.frame (.events events)) =
          f.stream.ends (.error (.indeterminate .dataLoss)) := by
        simp [BuildStream.next, hopen, hparse]
      rw [hnext, carried, hparse, Option.map_none, Option.toList_none, List.map_nil, List.append_nil]
      exact hf.breaks { f.stream with ended := true } rfl
  | ends terminal =>
    have hnext : f.stream.next parse (.frame (.ends terminal)) = f.stream.ends (.frame (.ends terminal)) := by
      simp [BuildStream.next, hopen]
    rw [hnext]
    have hpush := hf.pushes (n := f.reattached) (.ends terminal) rfl
    exact hpush.stops (by simp) (by simp) { f.stream with ended := true } rfl
  | fabricPrimaryMoved fabricPrimary =>
    have hnext : f.stream.next parse (.frame (.fabricPrimaryMoved fabricPrimary)) =
        f.stream.ends (.frame (.fabricPrimaryMoved fabricPrimary)) := by
      simp [BuildStream.next, hopen]
    rw [hnext]
    have hpush := hf.pushes (n := f.reattached) (.fabricPrimaryMoved fabricPrimary) rfl
    exact hpush.breaks { f.stream with ended := true } rfl
  | other name =>
    have hnext : f.stream.next parse (.frame (.other name)) = f.stream.ends (.error (.rejected name)) := by
      simp [BuildStream.next, hopen]
    rw [hnext, carried, List.map_nil, List.append_nil]
    exact hf.stops (by simp) (by simp) { f.stream with ended := true } rfl

/-- One input, whichever reaches the follower. -/
theorem Follows.input (hf : Follows f h) (i : Input E) :
    Follows (f.input parse completedStep i) (h ++ heardAt parse completedStep f i) := by
  cases i with
  | item item =>
    by_cases hreading : f.stage = .reading
    · rw [Follower.input, if_pos hreading]
      have hopen := hf.unended hreading
      cases item with
      | frame reply =>
        rw [heardAt, if_pos hreading]
        exact hf.reply parse hreading reply
      | failed code =>
        have hnext : f.stream.next parse (.failed code) = f.stream.ends (.error (.indeterminate code)) := by
          simp [BuildStream.next, hopen]
        rw [hnext, show heardAt parse completedStep f (.item (.failed code)) = [] from rfl, List.append_nil]
        exact hf.breaks { f.stream with ended := true } rfl
      | none =>
        have hnext : f.stream.next parse .none = (f.stream, .none) := by simp [BuildStream.next]
        rw [hnext, show heardAt parse completedStep f (.item .none) = [] from rfl, List.append_nil]
        exact hf.breaks f.stream rfl
    · have hnone : heardAt parse completedStep f (.item item) = [] := by
        cases item <;> simp [heardAt, hreading]
      rw [Follower.input, if_neg hreading, hnone, List.append_nil]
      exact hf
  | reattached out =>
    by_cases hreattaching : f.stage = .reattaching
    · rw [Follower.input, if_pos hreattaching]
      cases out with
      | ok events =>
        rw [heardAt, if_pos hreattaching]
        exact hf.reattached completedStep hreattaching events
      | error e =>
        rw [show heardAt parse completedStep f (.reattached (.error e)) = [] from rfl, List.append_nil]
        exact hf.stops (by simp) (by simp) f.stream rfl
    · have hnone : heardAt parse completedStep f (.reattached out) = [] := by
        cases out <;> simp [heardAt, hreattaching]
      rw [Follower.input, if_neg hreattaching, hnone, List.append_nil]
      exact hf

theorem Follows.run (hf : Follows f h) (inputs : List (Input E)) :
    Follows (f.run parse completedStep inputs) (h ++ heard parse completedStep f inputs) := by
  induction inputs generalizing f h with
  | nil => simpa [heard, Follower.run] using hf
  | cons i inputs ih =>
    have hrest := ih (hf.input parse completedStep i)
    rwa [List.append_assoc] at hrest

/-- The terminal is the last frame of a Build followed, and no other follower has one. -/
def Ended (f : Follower E) : Prop :=
  (f.stage = .followed → ∃ front t, f.frames = front ++ [BuildFrame.ends t] ∧ ∀ t', .ends t' ∉ front) ∧
    (f.stage ≠ .followed → ∀ t, .ends t ∉ f.frames)

theorem ends_keepStep {key : String × String × String} {mesh operation step : String} {result : StepOutcome}
    {t : Terminal} :
    .ends t ∈ (f.keepStep key (.step mesh operation step result)).frames ↔ .ends t ∈ f.frames := by
  rw [Follower.keepStep]
  split
  · exact Iff.rfl
  · simp

theorem ends_completed (l : List (String × String × String)) {t : Terminal} :
    .ends t ∈ (l.foldl keepCompleted f).frames ↔ .ends t ∈ f.frames := by
  induction l generalizing f with
  | nil => exact Iff.rfl
  | cons key l ih => exact ih.trans ends_keepStep

theorem Ended.keep (hstage : f.stage ≠ .followed) (hf : ∀ t, .ends t ∉ f.frames) (frame : BuildFrame E) :
    Ended (f.keep frame) := by
  cases frame with
  | step mesh operation step result =>
    have hkeep := (keepStep_rest f (mesh, operation, step) (.step mesh operation step result)).2.1
    refine ⟨fun hfollowed => absurd (hkeep.symm.trans hfollowed) hstage, ?_⟩
    intro _ t hmem
    exact hf t (ends_keepStep.mp hmem)
  | ends terminal => exact ⟨fun _ => ⟨f.frames, terminal, rfl, hf⟩, fun hnot => absurd rfl hnot⟩
  | pending mesh operation step reason =>
    exact ⟨fun hfollowed => absurd hfollowed hstage, fun _ t => by simp [Follower.keep, hf t]⟩
  | events events => exact ⟨fun hfollowed => absurd hfollowed hstage, fun _ t => by simp [Follower.keep, hf t]⟩
  | fabricPrimaryMoved fabricPrimary =>
    refine ⟨(fun hfollowed => by cases hfollowed), ?_⟩
    intro _ t
    simp [Follower.keep, Follower.breaks, hf t]

theorem Ended.input (hf : Ended f) (i : Input E) : Ended (f.input parse completedStep i) := by
  cases i with
  | item item =>
    by_cases hreading : f.stage = .reading
    · have hstage : f.stage ≠ .followed := by simp [hreading]
      have hnone := hf.2 hstage
      rw [Follower.input, if_pos hreading]
      cases hnext : (f.stream.next parse item).2 with
      | continues => exact ⟨fun hfollowed => absurd hfollowed hstage, fun _ => hnone⟩
      | frame frame => exact Ended.keep (f := { f with stream := (f.stream.next parse item).1 }) hstage hnone frame
      | error e =>
        cases e with
        | indeterminate code => exact ⟨(fun hfollowed => by cases hfollowed), fun _ => hnone⟩
        | rejected name => exact ⟨(fun hfollowed => by cases hfollowed), fun _ => hnone⟩
      | none => exact ⟨(fun hfollowed => by cases hfollowed), fun _ => hnone⟩
    · rwa [Follower.input, if_neg hreading]
  | reattached out =>
    by_cases hreattaching : f.stage = .reattaching
    · have hnone := hf.2 (by simp [hreattaching])
      rw [Follower.input, if_pos hreattaching]
      cases out with
      | ok events =>
        refine ⟨(fun hfollowed => by cases hfollowed), ?_⟩
        intro _ t hmem
        exact hnone t ((ends_completed _).mp hmem)
      | error e => exact ⟨(fun hfollowed => by cases hfollowed), fun _ => hnone⟩
    · rwa [Follower.input, if_neg hreattaching]

theorem Ended.run (inputs : List (Input E)) : Ended (Follower.new.run parse completedStep inputs) := by
  have hnew : Ended (Follower.new : Follower E) := ⟨by simp [Follower.new], by simp [Follower.new]⟩
  have hstep : ∀ (f : Follower E) i, Ended f → Ended (f.input parse completedStep i) := by
    intro f i hf
    exact hf.input parse completedStep i
  exact invariant_run hstep hnew inputs

/-- A terminal that stands among the frames is their last. -/
theorem Ended.last (hf : Ended f) {front back : List (BuildFrame E)} {t : Terminal}
    (hframes : f.frames = front ++ BuildFrame.ends t :: back) : back = [] ∧ f.stage = .followed := by
  have hfollowed : f.stage = .followed := by
    by_contra hnot
    exact hf.2 hnot t (by simp [hframes])
  obtain ⟨front', t', hlast, hnone⟩ := hf.1 hfollowed
  refine ⟨?_, hfollowed⟩
  rcases List.eq_nil_or_concat back with hnil | ⟨init, x, rfl⟩
  · exact hnil
  · rw [hlast, List.concat_eq_append, ← List.cons_append, ← List.append_assoc] at hframes
    have hfront := (List.append_inj' hframes rfl).1
    exact absurd (by simp [hfront]) (hnone t)

/-- A followed Build's frames, over every run of streams that break, move and are opened again: all that was heard, in
order, each step once over all the attachments and each pending step once in its own; the terminal is there exactly when
the Build is followed to its end, and nothing comes after it. -/
theorem followed_frames_exact (inputs : List (Input E)) :
    (Follower.new.run parse completedStep inputs).frames =
        (firsts repeatKey (heard parse completedStep .new inputs)).map Prod.snd ∧
      ((Follower.new.run parse completedStep inputs).stage = .followed ↔
        ∃ t, .ends t ∈ (Follower.new.run parse completedStep inputs).frames) ∧
      ∀ front t back, (Follower.new.run parse completedStep inputs).frames = front ++ BuildFrame.ends t :: back → back = [] := by
  have hended := Ended.run parse completedStep inputs
  refine ⟨?_, ⟨?_, ?_⟩, ?_⟩
  · exact (Follows.new.run parse completedStep inputs).kept.frames
  · intro hfollowed
    obtain ⟨front, t, hframes, _⟩ := hended.1 hfollowed
    exact ⟨t, by simp [hframes]⟩
  · rintro ⟨t, hmem⟩
    obtain ⟨front, back, hframes⟩ := List.append_of_mem hmem
    exact (hended.last hframes).2
  · intro front t back hframes
    exact (hended.last hframes).1

end Follower

end DistributedMesh.BuildFollow
