import DistributedMesh.StopGate

namespace DistributedMesh.Gating

open Std (ExtTreeMap)
open KeyedMaps GuardedRuns Tallies

/-- Where a `turn` call stands: at its wait for an open gate, having checked the value of a version, or
past that wait and about to take its turn. -/
inductive TurnStage where
  | waiting (checked : Option Nat)
  | passed
  | begun
deriving DecidableEq

structure TurnCall where
  task : String
  stage : TurnStage
deriving DecidableEq

inductive QuiesceStage where
  | waiting (checked : Option Nat)
  | resolved
deriving DecidableEq

/-- A `quiesce`, or a `quiesce_commanded_by` a Build, with the gate as it stood at its stop. -/
structure Quiesce where
  build : Option String
  stood : GateState
  stage : QuiesceStage

/-- The gate in its watch channel, every turn it began, and the calls that wait at it. -/
structure StopGate where
  state : GateState
  version : Nat
  turns : List Turn
  turnCalls : List TurnCall
  quiesces : List Quiesce
  underflow : Bool

/-- What a task does next at the gate. -/
inductive Move where
  | begun (task : String)
  | under (i : Nat) (task : String)
  | ofBuild (i : Nat) (build : String)
  | drop (i : Nat)
  | stop
  | resume
  | turn (task : String)
  | pollTurn (i : Nat)
  | quiesce (build : Option String)
  | pollQuiesce (i : Nat)
deriving DecidableEq

/-- What a stop waits for. -/
def GateState.clear (s : GateState) : Option String → Bool
  | none => s.turns.isEmpty
  | some build => (s.butBuild build).turns.isEmpty

/-- The gate a stop answers. -/
def GateState.stands (s : GateState) : Option String → GateState
  | none => s
  | some build => s.butBuild build

namespace StopGate

def new : StopGate := ⟨⟨false, ∅, ∅⟩, 0, [], [], [], false⟩

/-- The watched value changed. -/
def send (g : StopGate) (s : GateState) : StopGate := { g with state := s, version := g.version + 1 }

def halted (g : StopGate) : StopGate := g.send { g.state with stopped := true }

/-- A turn begun, of a Build or of none. -/
def beginTurn (g : StopGate) (build : Option String) (task : String) : StopGate :=
  { g.send (g.state.begins build task) with turns := g.turns ++ [⟨task, build, false⟩] }

/-- A turn changed with its counts. -/
def replaceTurn (g : StopGate) (i : Nat) (t : Turn) : Option GateState → StopGate
  | none => { g with underflow := true }
  | some s => { g.send s with turns := g.turns.set i t }

/-- The next await of a `turn` call. -/
def turnGoes (g : StopGate) (i : Nat) (c : TurnCall) : StopGate :=
  match c.stage with
  | .waiting checked =>
    if checked = some g.version then g
    else if g.state.stopped then { g with turnCalls := g.turnCalls.set i { c with stage := .waiting (some g.version) } }
    else { g with turnCalls := g.turnCalls.set i { c with stage := .passed } }
  | .passed =>
    if g.state.stopped then { g with turnCalls := g.turnCalls.set i { c with stage := .waiting none } }
    else { g.beginTurn none c.task with turnCalls := g.turnCalls.set i { c with stage := .begun } }
  | .begun => g

/-- The next check of a quiesce's wait. -/
def quiesceGoes (g : StopGate) (i : Nat) (q : Quiesce) : StopGate :=
  match q.stage with
  | .waiting checked =>
    if checked = some g.version then g
    else if g.state.clear q.build then { g with quiesces := g.quiesces.set i { q with stage := .resolved } }
    else { g with quiesces := g.quiesces.set i { q with stage := .waiting (some g.version) } }
  | .resolved => g

end StopGate

/-- One move at the gate; a move of a turn that has ended, or of none, does nothing. -/
def step (g : StopGate) : Move → StopGate
  | .begun task => g.beginTurn none task
  | .under i task =>
    match g.turns[i]? with
    | some t => if t.ended then g else g.beginTurn t.build task
    | none => g
  | .ofBuild i build =>
    match g.turns[i]? with
    | some t =>
      if t.ended then g
      else g.replaceTurn i { t with build := some build } (g.state.rebuilds t.build build t.task)
    | none => g
  | .drop i =>
    match g.turns[i]? with
    | some t => if t.ended then g else g.replaceTurn i { t with ended := true } (g.state.ends t.build t.task)
    | none => g
  | .stop => g.halted
  | .resume => g.send { g.state with stopped := false }
  | .turn task => { g with turnCalls := g.turnCalls ++ [⟨task, .waiting none⟩] }
  | .pollTurn i =>
    match g.turnCalls[i]? with
    | some c => g.turnGoes i c
    | none => g
  | .quiesce build =>
    { g.halted with
      quiesces := g.quiesces ++ [⟨build, ({ g.state with stopped := true } : GateState).stands build, .waiting none⟩] }
  | .pollQuiesce i =>
    match g.quiesces[i]? with
    | some q => g.quiesceGoes i q
    | none => g

/-- What a move does to the gate. -/
inductive Does (g : StopGate) : Move → StopGate → Prop where
  | nothing {m : Move} : Does g m g
  | begins {m : Move} (build : Option String) (task : String) : Does g m (g.beginTurn build task)
  | retags {i : Nat} {build : String} {t : Turn} (hi : g.turns[i]? = some t) (hlive : t.ended = false) :
      Does g (.ofBuild i build)
        (g.replaceTurn i { t with build := some build } (g.state.rebuilds t.build build t.task))
  | drops {i : Nat} {t : Turn} (hi : g.turns[i]? = some t) (hlive : t.ended = false) :
      Does g (.drop i) (g.replaceTurn i { t with ended := true } (g.state.ends t.build t.task))
  | stops : Does g .stop g.halted
  | resumes : Does g .resume (g.send { g.state with stopped := false })
  | calls (task : String) : Does g (.turn task) { g with turnCalls := g.turnCalls ++ [⟨task, .waiting none⟩] }
  | waits {i : Nat} {c : TurnCall} {checked : Option Nat} (hi : g.turnCalls[i]? = some c) (hunbegun : c.stage ≠ .begun) :
      Does g (.pollTurn i) { g with turnCalls := g.turnCalls.set i { c with stage := .waiting checked } }
  | passes {i : Nat} {c : TurnCall} (hi : g.turnCalls[i]? = some c) (hunbegun : c.stage ≠ .begun) :
      Does g (.pollTurn i) { g with turnCalls := g.turnCalls.set i { c with stage := .passed } }
  | takes {i : Nat} {c : TurnCall} (hi : g.turnCalls[i]? = some c) (hopen : g.state.stopped = false) :
      Does g (.pollTurn i) { g.beginTurn none c.task with turnCalls := g.turnCalls.set i { c with stage := .begun } }
  | quiesces (build : Option String) : Does g (.quiesce build)
      { g.halted with
        quiesces := g.quiesces ++ [⟨build, ({ g.state with stopped := true } : GateState).stands build, .waiting none⟩] }
  | resolves {i : Nat} {q : Quiesce} (hi : g.quiesces[i]? = some q) (hclear : g.state.clear q.build = true) :
      Does g (.pollQuiesce i) { g with quiesces := g.quiesces.set i { q with stage := .resolved } }
  | checks {i : Nat} {q : Quiesce} (hi : g.quiesces[i]? = some q) (hwaits : q.stage ≠ .resolved)
      (hunclear : g.state.clear q.build = false) :
      Does g (.pollQuiesce i) { g with quiesces := g.quiesces.set i { q with stage := .waiting (some g.version) } }

theorem turnGoes_does {g : StopGate} {i : Nat} {c : TurnCall} (hi : g.turnCalls[i]? = some c) :
    Does g (.pollTurn i) (g.turnGoes i c) := by
  simp only [StopGate.turnGoes]
  split
  next checked hstage =>
    have hunbegun : c.stage ≠ .begun := by
      rw [hstage]
      exact fun heq => by cases heq
    split
    next => exact .nothing
    next =>
      split
      next => exact .waits hi hunbegun
      next => exact .passes hi hunbegun
  next hstage =>
    split
    next =>
      refine .waits hi ?_
      rw [hstage]
      exact fun heq => by cases heq
    next hopen => exact .takes hi (by simpa using hopen)
  next => exact .nothing

theorem quiesceGoes_does {g : StopGate} {i : Nat} {q : Quiesce} (hi : g.quiesces[i]? = some q) :
    Does g (.pollQuiesce i) (g.quiesceGoes i q) := by
  simp only [StopGate.quiesceGoes]
  split
  next checked hstage =>
    split
    next => exact .nothing
    next =>
      split
      next hclear => exact .resolves hi hclear
      next hunclear =>
        refine .checks hi ?_ (by simpa using hunclear)
        rw [hstage]
        exact fun heq => by cases heq
  next => exact .nothing

theorem step_does (g : StopGate) (m : Move) : Does g m (step g m) := by
  cases m with
  | begun task => exact .begins none task
  | under i task =>
    simp only [step]
    cases hi : g.turns[i]? with
    | none => exact .nothing
    | some t =>
      simp only
      split
      next => exact .nothing
      next => exact .begins t.build task
  | ofBuild i build =>
    simp only [step]
    cases hi : g.turns[i]? with
    | none => exact .nothing
    | some t =>
      simp only
      split
      next => exact .nothing
      next hlive => exact .retags hi (by simpa using hlive)
  | drop i =>
    simp only [step]
    cases hi : g.turns[i]? with
    | none => exact .nothing
    | some t =>
      simp only
      split
      next => exact .nothing
      next hlive => exact .drops hi (by simpa using hlive)
  | stop => exact .stops
  | resume => exact .resumes
  | turn task => exact .calls task
  | pollTurn i =>
    simp only [step]
    cases hi : g.turnCalls[i]? with
    | none => exact .nothing
    | some c => exact turnGoes_does hi
  | quiesce build => exact .quiesces build
  | pollQuiesce i =>
    simp only [step]
    cases hi : g.quiesces[i]? with
    | none => exact .nothing
    | some q => exact quiesceGoes_does hi

/-- The counts are exact, none went below zero, and a quiesce that checked the value there is now found
turns to wait for in it. -/
structure Sound (g : StopGate) : Prop where
  exact : Exact g.state g.turns
  counted : g.underflow = false
  checked : ∀ q ∈ g.quiesces, ∀ v, q.stage = .waiting (some v) →
    v ≤ g.version ∧ (v = g.version → g.state.clear q.build = false)

theorem sound_new : Sound StopGate.new where
  exact := by
    refine ⟨Counts.empty, fun build => ?_, fun build tasks hget => ?_⟩
    · change Counts (((∅ : ExtTreeMap String TaskCounts)[build]?).getD ∅) _
      rw [ExtTreeMap.getElem?_empty]
      exact Counts.empty
    · change (∅ : ExtTreeMap String TaskCounts)[build]? = some tasks at hget
      rw [ExtTreeMap.getElem?_empty] at hget
      cases hget
  counted := rfl
  checked := List.forall_mem_nil _

/-- A changed value is one no quiesce has checked. -/
theorem Sound.sends {g : StopGate} (h : Sound g) {s : GateState} {turns : List Turn} (hexact : Exact s turns) :
    Sound { g.send s with turns := turns } where
  exact := hexact
  counted := h.counted
  checked := by
    intro q hq v hv
    have hle := (h.checked q hq v hv).1
    refine ⟨Nat.le_succ_of_le hle, fun heq => ?_⟩
    change v = g.version + 1 at heq
    omega

theorem Exact.setStopped {s : GateState} {turns : List Turn} (h : Exact s turns) (stopped : Bool) :
    Exact { s with stopped := stopped } turns := ⟨h.tasks, h.builds⟩

theorem Sound.turnCalls {g : StopGate} (h : Sound g) (calls : List TurnCall) : Sound { g with turnCalls := calls } :=
  ⟨h.exact, h.counted, h.checked⟩

theorem Sound.quiesces {g : StopGate} (h : Sound g) {quiesces : List Quiesce}
    (hchecked : ∀ q ∈ quiesces, ∀ v, q.stage = .waiting (some v) →
      v ≤ g.version ∧ (v = g.version → g.state.clear q.build = false)) : Sound { g with quiesces := quiesces } :=
  ⟨h.exact, h.counted, hchecked⟩

theorem sound_step {g : StopGate} (h : Sound g) (m : Move) : Sound (step g m) := by
  have hdoes := step_does g m
  generalize step g m = g' at hdoes ⊢
  cases hdoes with
  | nothing => exact h
  | begins build task => exact h.sends (h.exact.begins build task)
  | retags hi hlive =>
    obtain ⟨s, hs, -, hexact⟩ := h.exact.rebuilds hi hlive _
    rw [hs]
    exact h.sends hexact
  | drops hi hlive =>
    obtain ⟨s, hs, -, hexact⟩ := h.exact.ends hi hlive
    rw [hs]
    exact h.sends hexact
  | stops => exact h.sends (h.exact.setStopped true)
  | resumes => exact h.sends (h.exact.setStopped false)
  | calls task => exact h.turnCalls _
  | waits hi hunbegun => exact h.turnCalls _
  | passes hi hunbegun => exact h.turnCalls _
  | takes hi hopen => exact (h.sends (h.exact.begins none _)).turnCalls _
  | quiesces build =>
    have hhalted : Sound g.halted := h.sends (h.exact.setStopped true)
    refine hhalted.quiesces fun q hq v hv => ?_
    rcases List.mem_append.mp hq with hq | hq
    · exact hhalted.checked q hq v hv
    · rw [List.mem_singleton.mp hq] at hv
      cases hv
  | resolves hi hclear =>
    refine h.quiesces (forall_mem_set h.checked fun v hv => ?_)
    cases hv
  | checks hi hwaits hunclear =>
    refine h.quiesces (forall_mem_set h.checked fun v hv => ?_)
    cases hv
    exact ⟨Nat.le_refl _, fun _ => hunclear⟩

/-- The gate after some moves. -/
def after (moves : List Move) : StopGate := moves.foldl step StopGate.new

theorem sound_after (moves : List Move) : Sound (after moves) :=
  invariant_run (I := Sound) (fun _ m hs => sound_step hs m) sound_new moves

/-- The call has its turn. -/
def StopGate.hasBegun (g : StopGate) (i : Nat) : Prop := ∃ c, g.turnCalls[i]? = some c ∧ c.stage = .begun

/-- A call that moves on without beginning leaves the others as they had begun. -/
theorem StopGate.hasBegun_of_set {g : StopGate} {i j : Nat} {new : TurnCall} (hnew : new.stage ≠ .begun)
    (h : ∃ c, (g.turnCalls.set i new)[j]? = some c ∧ c.stage = .begun) : g.hasBegun j := by
  obtain ⟨c, hc, hbegun⟩ := h
  obtain ⟨-, hsame⟩ | ⟨-, hold⟩ := getElem?_of_set hc
  · exact absurd hbegun (hsame ▸ hnew)
  · exact ⟨c, hold, hbegun⟩

/-- While the gate is stopped it stays so, and no `turn` call takes its turn, until it is opened. -/
theorem stopped_step {g : StopGate} (hstopped : g.state.stopped = true) {m : Move} (hm : m ≠ .resume) (hs : Sound g) :
    (step g m).state.stopped = true ∧ ∀ i, (step g m).hasBegun i → g.hasBegun i := by
  have hdoes := step_does g m
  generalize step g m = g' at hdoes ⊢
  cases hdoes with
  | nothing => exact ⟨hstopped, fun _ h => h⟩
  | begins build task =>
    refine ⟨?_, fun _ h => h⟩
    cases build
    all_goals exact hstopped
  | retags hi hlive =>
    obtain ⟨s, hs', hsame, -⟩ := hs.exact.rebuilds hi hlive _
    rw [hs']
    exact ⟨hsame.trans hstopped, fun _ h => h⟩
  | drops hi hlive =>
    obtain ⟨s, hs', hsame, -⟩ := hs.exact.ends hi hlive
    rw [hs']
    exact ⟨hsame.trans hstopped, fun _ h => h⟩
  | stops => exact ⟨rfl, fun _ h => h⟩
  | resumes => exact absurd rfl hm
  | calls task =>
    refine ⟨hstopped, fun i h => ?_⟩
    obtain ⟨c, hc, hbegun⟩ := h
    obtain ⟨-, hold⟩ | ⟨-, hnew⟩ := getElem?_of_append hc
    · exact ⟨c, hold, hbegun⟩
    · rw [hnew] at hbegun
      cases hbegun
  | waits hi hunbegun => exact ⟨hstopped, fun _ h => StopGate.hasBegun_of_set (by simp) h⟩
  | passes hi hunbegun => exact ⟨hstopped, fun _ h => StopGate.hasBegun_of_set (by simp) h⟩
  | takes hi hopen =>
    rw [hstopped] at hopen
    cases hopen
  | quiesces build => exact ⟨rfl, fun _ h => h⟩
  | resolves hi hclear => exact ⟨hstopped, fun _ h => h⟩
  | checks hi hwaits hunclear => exact ⟨hstopped, fun _ h => h⟩

theorem stopped_run {g : StopGate} (hstopped : g.state.stopped = true) (hs : Sound g) {moves : List Move}
    (hmoves : Move.resume ∉ moves) (i : Nat) (h : (moves.foldl step g).hasBegun i) : g.hasBegun i := by
  induction moves generalizing g with
  | nil => exact h
  | cons m moves ih =>
    have hm : m ≠ .resume := fun heq => hmoves (heq ▸ List.mem_cons_self)
    obtain ⟨hstill, hbegun⟩ := stopped_step hstopped hm hs
    exact hbegun i (ih hstill (sound_step hs m) (fun hmem => hmoves (List.mem_cons_of_mem _ hmem)) h)

/-- A turn that the stop does not wait for: one of the Build that commands it. -/
def Turn.spared (t : Turn) (build : Option String) : Prop := ∃ b, build = some b ∧ t.build = some b

/-- The gate clear for a stop has no live turn but those the stop spares. -/
theorem Sound.clear_iff {g : StopGate} (h : Sound g) (build : Option String) :
    g.state.clear build = true ↔ ∀ t ∈ g.turns, t.ended = false → t.spared build := by
  cases build with
  | none =>
    change g.state.turns.isEmpty = true ↔ _
    rw [h.exact.isEmpty_iff]
    constructor
    · intro hended t ht hlive
      rw [hended t ht] at hlive
      cases hlive
    · intro hnone t ht
      by_contra hlive
      obtain ⟨b, hb, -⟩ := hnone t ht (by simpa using hlive)
      cases hb
  | some build =>
    change (g.state.butBuild build).turns.isEmpty = true ↔ _
    rw [h.exact.butBuild_isEmpty_iff]
    constructor
    · intro hall t ht hlive
      exact ⟨build, rfl, hall t ht hlive⟩
    · intro hall t ht hlive
      obtain ⟨b, hb, hbuild⟩ := hall t ht hlive
      cases hb
      exact hbuild

theorem resolved_of_step {g : StopGate} {m : Move} {i : Nat} {q : Quiesce} (hq : (step g m).quiesces[i]? = some q)
    (hresolved : q.stage = .resolved) :
    (∃ q', g.quiesces[i]? = some q' ∧ q'.stage = .resolved) ∨ g.state.clear q.build = true := by
  have hdoes := step_does g m
  generalize step g m = g' at hdoes hq
  cases hdoes with
  | nothing => exact .inl ⟨q, hq, hresolved⟩
  | begins build task => exact .inl ⟨q, hq, hresolved⟩
  | retags hi hlive =>
    generalize g.state.rebuilds _ _ _ = s at hq
    cases s with
    | none => exact .inl ⟨q, hq, hresolved⟩
    | some s => exact .inl ⟨q, hq, hresolved⟩
  | drops hi hlive =>
    generalize g.state.ends _ _ = s at hq
    cases s with
    | none => exact .inl ⟨q, hq, hresolved⟩
    | some s => exact .inl ⟨q, hq, hresolved⟩
  | stops => exact .inl ⟨q, hq, hresolved⟩
  | resumes => exact .inl ⟨q, hq, hresolved⟩
  | calls task => exact .inl ⟨q, hq, hresolved⟩
  | waits hi hunbegun => exact .inl ⟨q, hq, hresolved⟩
  | passes hi hunbegun => exact .inl ⟨q, hq, hresolved⟩
  | takes hi hopen => exact .inl ⟨q, hq, hresolved⟩
  | quiesces build =>
    obtain ⟨-, hold⟩ | ⟨-, hnew⟩ := getElem?_of_append hq
    · exact .inl ⟨q, hold, hresolved⟩
    · rw [hnew] at hresolved
      cases hresolved
  | resolves hi hclear =>
    obtain ⟨-, hnew⟩ | ⟨-, hold⟩ := getElem?_of_set hq
    · rw [hnew]
      exact .inr hclear
    · exact .inl ⟨q, hold, hresolved⟩
  | checks hi hwaits hunclear =>
    obtain ⟨-, hnew⟩ | ⟨-, hold⟩ := getElem?_of_set hq
    · rw [hnew] at hresolved
      cases hresolved
    · exact .inl ⟨q, hold, hresolved⟩

/-- The turn has been dropped. -/
def StopGate.hasEnded (g : StopGate) (i : Nat) : Prop := ∃ t, g.turns[i]? = some t ∧ t.ended = true

def StopGate.hasResolved (g : StopGate) (i : Nat) : Prop := ∃ q, g.quiesces[i]? = some q ∧ q.stage = .resolved

theorem hasEnded_append {turns more : List Turn} {i : Nat} (h : ∃ t, turns[i]? = some t ∧ t.ended = true) :
    ∃ t, (turns ++ more)[i]? = some t ∧ t.ended = true := by
  obtain ⟨t, ht, hended⟩ := h
  refine ⟨t, ?_, hended⟩
  rw [List.getElem?_append_left (List.getElem?_eq_some_iff.mp ht).1]
  exact ht

theorem hasEnded_replaceTurn {g : StopGate} {i j : Nat} {t u : Turn} (hj : g.turns[j]? = some t) (hlive : t.ended = false)
    (s : Option GateState) (h : g.hasEnded i) : (g.replaceTurn j u s).hasEnded i := by
  obtain ⟨t', ht', hended⟩ := h
  cases s with
  | none => exact ⟨t', ht', hended⟩
  | some s =>
    have hne : j ≠ i := by
      rintro rfl
      rw [hj] at ht'
      cases ht'
      rw [hlive] at hended
      cases hended
    refine ⟨t', ?_, hended⟩
    change (g.turns.set j u)[i]? = some t'
    rw [List.getElem?_set_ne hne]
    exact ht'

/-- An ended turn stays ended. -/
theorem hasEnded_step {g : StopGate} {i : Nat} (h : g.hasEnded i) (m : Move) : (step g m).hasEnded i := by
  have hdoes := step_does g m
  generalize step g m = g' at hdoes ⊢
  cases hdoes with
  | nothing => exact h
  | begins build task => exact hasEnded_append h
  | retags hi hlive => exact hasEnded_replaceTurn hi hlive _ h
  | drops hi hlive => exact hasEnded_replaceTurn hi hlive _ h
  | stops => exact h
  | resumes => exact h
  | calls task => exact h
  | waits hi hunbegun => exact h
  | passes hi hunbegun => exact h
  | takes hi hopen => exact hasEnded_append h
  | quiesces build => exact h
  | resolves hi hclear => exact h
  | checks hi hwaits hunclear => exact h

theorem quiesces_replaceTurn (g : StopGate) (i : Nat) (t : Turn) (s : Option GateState) :
    (g.replaceTurn i t s).quiesces = g.quiesces := by
  cases s with
  | none => rfl
  | some s => rfl

/-- A quiesce stays where it was called. -/
theorem quiesce_step {g : StopGate} {i : Nat} {q : Quiesce} (hq : g.quiesces[i]? = some q) (m : Move) :
    ∃ q', (step g m).quiesces[i]? = some q' := by
  have hdoes := step_does g m
  generalize step g m = g' at hdoes ⊢
  cases hdoes with
  | nothing => exact ⟨q, hq⟩
  | begins build task => exact ⟨q, hq⟩
  | retags hi hlive =>
    rw [quiesces_replaceTurn]
    exact ⟨q, hq⟩
  | drops hi hlive =>
    rw [quiesces_replaceTurn]
    exact ⟨q, hq⟩
  | stops => exact ⟨q, hq⟩
  | resumes => exact ⟨q, hq⟩
  | calls task => exact ⟨q, hq⟩
  | waits hi hunbegun => exact ⟨q, hq⟩
  | passes hi hunbegun => exact ⟨q, hq⟩
  | takes hi hopen => exact ⟨q, hq⟩
  | quiesces build =>
    refine ⟨q, ?_⟩
    change (g.quiesces ++ [_])[i]? = some q
    rw [List.getElem?_append_left (List.getElem?_eq_some_iff.mp hq).1]
    exact hq
  | @resolves j p hi hclear =>
    by_cases hij : j = i
    · subst hij
      exact ⟨_, getElem?_set_new hi⟩
    · exact ⟨q, (List.getElem?_set_ne hij).trans hq⟩
  | @checks j p hi hwaits hunclear =>
    by_cases hij : j = i
    · subst hij
      exact ⟨_, getElem?_set_new hi⟩
    · exact ⟨q, (List.getElem?_set_ne hij).trans hq⟩

/-- The gate after the first moves of a run without end. -/
def stateAt (moves : Nat → Move) : Nat → StopGate
  | 0 => StopGate.new
  | n + 1 => step (stateAt moves n) (moves n)

section Unending

variable {moves : Nat → Move}

theorem sound_stateAt (n : Nat) : Sound (stateAt moves n) := by
  induction n with
  | zero => exact sound_new
  | succ n ih => exact sound_step ih (moves n)

theorem hasEnded_later {i m n : Nat} (hmn : m ≤ n) (h : (stateAt moves m).hasEnded i) : (stateAt moves n).hasEnded i := by
  induction n, hmn using Nat.le_induction with
  | base => exact h
  | succ n _ ih => exact hasEnded_step ih (moves n)

theorem quiesce_later {i m n : Nat} (hmn : m ≤ n) (h : ∃ q, (stateAt moves m).quiesces[i]? = some q) :
    ∃ q, (stateAt moves n).quiesces[i]? = some q := by
  induction n, hmn using Nat.le_induction with
  | base => exact h
  | succ n _ ih =>
    obtain ⟨q, hq⟩ := ih
    exact quiesce_step hq (moves n)

/-- From some point on none of the turns begun so far is live. -/
theorem all_ended {L : Nat} (h : ∀ i < L, ∃ n, (stateAt moves n).hasEnded i) :
    ∃ n, ∀ i < L, (stateAt moves n).hasEnded i := by
  induction L with
  | zero => exact ⟨0, fun i hi => absurd hi (Nat.not_lt_zero i)⟩
  | succ L ih =>
    obtain ⟨n, hn⟩ := ih fun i hi => h i (Nat.lt_succ_of_lt hi)
    obtain ⟨k, hk⟩ := h L (Nat.lt_succ_self L)
    refine ⟨max n k, fun i hi => ?_⟩
    rcases Nat.lt_succ_iff_lt_or_eq.mp hi with hlt | rfl
    · exact hasEnded_later (Nat.le_max_left n k) (hn i hlt)
    · exact hasEnded_later (Nat.le_max_right n k) hk

/-- A quiesce whose wait has not checked the value there is now. -/
def StopGate.woken (g : StopGate) (i : Nat) : Prop :=
  ∃ q checked, g.quiesces[i]? = some q ∧ q.stage = .waiting checked ∧ checked ≠ some g.version

/-- A quiesce polled at a clear gate resolves. -/
theorem hasResolved_of_poll {g : StopGate} {i : Nat} (hwoken : g.woken i) (hclear : ∀ build, g.state.clear build = true) :
    (step g (.pollQuiesce i)).hasResolved i := by
  obtain ⟨q, checked, hq, hstage, hne⟩ := hwoken
  have hstep : step g (.pollQuiesce i) = { g with quiesces := g.quiesces.set i { q with stage := .resolved } } := by
    simp only [step, hq, StopGate.quiesceGoes, hstage, if_neg hne, hclear, if_true]
  rw [hstep]
  exact ⟨_, getElem?_set_new hq, rfl⟩

/-- At a clear gate a quiesce has resolved or is woken. -/
theorem Sound.resolved_or_woken {g : StopGate} (h : Sound g) (hclear : ∀ build, g.state.clear build = true) {i : Nat}
    {q : Quiesce} (hq : g.quiesces[i]? = some q) : g.hasResolved i ∨ g.woken i := by
  cases hstage : q.stage with
  | resolved => exact .inl ⟨q, hq, hstage⟩
  | waiting checked =>
    refine .inr ⟨q, checked, hq, hstage, ?_⟩
    rintro rfl
    have hunclear := (h.checked q (List.mem_of_getElem? hq) _ hstage).2 rfl
    rw [hclear] at hunclear
    cases hunclear

theorem quiesce_resolves {N : Nat}
    (hnone : ∀ n ≥ N, (stateAt moves (n + 1)).turns.length = (stateAt moves n).turns.length)
    (hends : ∀ i < (stateAt moves N).turns.length, ∃ n, (stateAt moves n).hasEnded i)
    (hpolled : ∀ n i, (stateAt moves n).woken i → ∃ k ≥ n, moves k = .pollQuiesce i) {n i : Nat}
    (hcalled : i < (stateAt moves n).quiesces.length) : ∃ k, (stateAt moves k).hasResolved i := by
  obtain ⟨M, hM⟩ := all_ended hends
  have hlength : ∀ k ≥ N, (stateAt moves k).turns.length = (stateAt moves N).turns.length := by
    intro k hk
    induction k, hk using Nat.le_induction with
    | base => rfl
    | succ k hk ih => rw [hnone k hk, ih]
  -- Once every turn has ended, and none begins, the gate is clear for every stop.
  have hclear : ∀ k ≥ max N M, ∀ build, (stateAt moves k).state.clear build = true := by
    intro k hk build
    refine ((sound_stateAt k).clear_iff build).mpr fun t ht hlive => ?_
    obtain ⟨j, hj⟩ := List.mem_iff_getElem?.mp ht
    have hlt : j < (stateAt moves N).turns.length := by
      rw [← hlength k (by omega)]
      exact (List.getElem?_eq_some_iff.mp hj).1
    obtain ⟨t', ht', hended⟩ := hasEnded_later (show M ≤ k by omega) (hM j hlt)
    rw [hj] at ht'
    cases ht'
    rw [hlive] at hended
    cases hended
  let start := max n (max N M)
  have hstart : max N M ≤ start := Nat.le_max_right _ _
  obtain ⟨q, hq⟩ := quiesce_later (Nat.le_max_left n (max N M)) ⟨_, List.getElem?_eq_getElem hcalled⟩
  rcases (sound_stateAt start).resolved_or_woken (hclear start hstart) hq with hresolved | hwoken
  · exact ⟨start, hresolved⟩
  · obtain ⟨k, hk, hpoll⟩ := hpolled start i hwoken
    obtain ⟨q', hq'⟩ := quiesce_later (show start ≤ k from hk) ⟨q, hq⟩
    have hthen := hclear k (Nat.le_trans hstart hk)
    rcases (sound_stateAt k).resolved_or_woken hthen hq' with hresolved | hwoken
    · exact ⟨k, hresolved⟩
    · refine ⟨k + 1, ?_⟩
      change (step (stateAt moves k) (moves k)).hasResolved i
      rw [hpoll]
      exact hasResolved_of_poll hwoken hthen

end Unending

/-- Whether a move stops the gate. -/
def Move.stops : Move → Bool
  | .stop => true
  | .quiesce _ => true
  | _ => false

theorem stopped_of_stops (g : StopGate) {m : Move} (hm : m.stops = true) :
    (step g m).state.stopped = true ∧ (step g m).turnCalls = g.turnCalls := by
  cases m
  case stop => exact ⟨rfl, rfl⟩
  case quiesce build => exact ⟨rfl, rfl⟩
  all_goals cases hm

/-- The gate counts its live turns exactly whatever is done at it, begins no turn of a `turn` call while
it is stopped, resolves a stop's wait only where nothing it waits for is live, and resolves every one
once turns end and none begins. -/
theorem gate_counts_holds_and_resolves :
    (∀ moves : List Move, Exact (after moves).state (after moves).turns ∧ (after moves).underflow = false ∧
      ∀ (m : Move) (i : Nat) (q : Quiesce), (step (after moves) m).quiesces[i]? = some q → q.stage = .resolved →
        ¬ (after moves).hasResolved i → ∀ t ∈ (after moves).turns, t.ended = false → t.spared q.build) ∧
    (∀ (before stopped : List Move) (m : Move), m.stops = true → Move.resume ∉ stopped →
      ∀ i, (after (before ++ m :: stopped)).hasBegun i → (after before).hasBegun i) ∧
    ∀ (moves : Nat → Move) (N : Nat),
      (∀ n ≥ N, (stateAt moves (n + 1)).turns.length = (stateAt moves n).turns.length) →
      (∀ i < (stateAt moves N).turns.length, ∃ n, (stateAt moves n).hasEnded i) →
      (∀ n i, (stateAt moves n).woken i → ∃ k ≥ n, moves k = .pollQuiesce i) →
      ∀ n i, i < (stateAt moves n).quiesces.length → ∃ k, (stateAt moves k).hasResolved i := by
  refine ⟨fun moves => ⟨(sound_after moves).exact, (sound_after moves).counted, ?_⟩, ?_, ?_⟩
  · intro m i q hq hresolved hnot t ht hlive
    rcases resolved_of_step hq hresolved with hwas | hclear
    · exact absurd hwas hnot
    · exact ((sound_after moves).clear_iff q.build).mp hclear t ht hlive
  · intro before stopped m hm hresume i hbegun
    obtain ⟨hstopped, hcalls⟩ := stopped_of_stops (after before) hm
    rw [after, List.foldl_append, List.foldl_cons] at hbegun
    obtain ⟨c, hc, hstage⟩ := stopped_run hstopped (sound_step (sound_after before) m) hresume i hbegun
    rw [hcalls] at hc
    exact ⟨c, hc, hstage⟩
  · intro moves N hnone hends hpolled n i hcalled
    exact quiesce_resolves hnone hends hpolled hcalled

/-- A turn, a quiesce that finds it, the turn's end, and the quiesce polled for ever. -/
def quiesceRun : Nat → Move
  | 0 => .begun "hierarchy"
  | 1 => .quiesce none
  | 2 => .pollQuiesce 0
  | 3 => .drop 0
  | _ => .pollQuiesce 0

theorem poll_keeps (g : StopGate) (i : Nat) : (step g (.pollQuiesce i)).turns = g.turns ∧
    (step g (.pollQuiesce i)).quiesces.length = g.quiesces.length := by
  simp only [step]
  cases g.quiesces[i]? with
  | none => exact ⟨rfl, rfl⟩
  | some q =>
    simp only [StopGate.quiesceGoes]
    split
    next =>
      split
      next => exact ⟨rfl, rfl⟩
      next =>
        split
        next => exact ⟨rfl, List.length_set⟩
        next => exact ⟨rfl, List.length_set⟩
    next => exact ⟨rfl, rfl⟩

theorem quiesceRun_from {n : Nat} (hn : 4 ≤ n) : quiesceRun n = .pollQuiesce 0 := by
  obtain ⟨k, rfl⟩ := Nat.exists_eq_add_of_le hn
  rw [Nat.add_comm]
  rfl

theorem quiesceRun_one (n : Nat) : (stateAt quiesceRun n).quiesces.length ≤ 1 := by
  by_cases hn : 4 ≤ n
  · induction n, hn using Nat.le_induction with
    | base => decide +kernel
    | succ n hn ih =>
      change (step (stateAt quiesceRun n) (quiesceRun n)).quiesces.length ≤ 1
      rw [quiesceRun_from hn, (poll_keeps _ _).2]
      exact ih
  · have hfirst : ∀ k < 4, (stateAt quiesceRun k).quiesces.length ≤ 1 := by decide +kernel
    exact hfirst n (by omega)

theorem quiesceRun_resolves : ∃ k, (stateAt quiesceRun k).hasResolved 0 := by
  refine gate_counts_holds_and_resolves.2.2 quiesceRun 4 (fun n hn => ?_) (fun i hi => ⟨4, ?_⟩)
    (fun n i hwoken => ⟨max n 4, Nat.le_max_left n 4, ?_⟩) 2 0 (by decide +kernel)
  · change (step (stateAt quiesceRun n) (quiesceRun n)).turns.length = _
    rw [quiesceRun_from hn, (poll_keeps _ _).1]
  · have hone : (stateAt quiesceRun 4).turns = [⟨"hierarchy", none, true⟩] := by decide +kernel
    rw [hone, List.length_singleton, Nat.lt_one_iff] at hi
    subst hi
    exact ⟨⟨"hierarchy", none, true⟩, by rw [hone]; rfl, rfl⟩
  · obtain ⟨q, -, hq, -⟩ := hwoken
    have hlt := (List.getElem?_eq_some_iff.mp hq).1
    have hle := quiesceRun_one n
    rw [quiesceRun_from (Nat.le_max_right n 4), show i = 0 by omega]

end DistributedMesh.Gating
