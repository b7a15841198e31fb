import DistributedMesh.PropertyWriter
import DistributedMesh.StorageMoves

namespace DistributedMesh.Properties

open GuardedRuns
open DistributedMesh.Storage (NodeCommandReply StorageMoves)

section Released

def Event.isThawed : Event → Bool
  | thawed _ => true
  | _ => false

/-- No put began and no freeze was released. -/
def Clean (log : List Event) : Prop := ∀ e ∈ log, e.isPut = false ∧ e.isThawed = false

/-- The record a put's change was made to: one read from the provider since, or a start's own. -/
def Based (provider : String) (since : List Event) (w : Write) (base : NodeRecord) : Prop :=
  (∃ r, Event.read provider r ∈ since ∧ base = r.getD w.initial) ∨ w.readRetained = false ∧ base = w.initial

def Task.putting (t : Task) : Bool :=
  match t.stage with
  | .putting _ _ => true
  | _ => false

/-- What a writer knows since its freeze was released, while no put began. -/
structure Since (s : Writer) (p : String) (since : List Event) : Prop where
  provider : s.frozen = false → s.provider = p
  held : ∀ r, s.held = some r → Event.read p (some r) ∈ since
  tasks : ∀ t ∈ s.tasks, t.putting = false

/-- Of a log, what holds since the last release while no put began. -/
def SinceRelease (log : List Event) (P : String → List Event → Prop) : Prop :=
  ∀ before provider since, log = before ++ .thawed provider :: since → Clean since → P provider since

/-- The first put after a release is based on what was read since. -/
def FirstBased (log : List Event) : Prop :=
  ∀ before provider since task w base record after,
    log = before ++ .thawed provider :: (since ++ .put task w base record :: after) → Clean since → Based provider since w base

structure Released (s : Writer) : Prop where
  since : SinceRelease s.log (Since s)
  based : FirstBased s.log

/-- Where a list with one more at its end is split. -/
theorem split_concat {α : Type} {xs before after : List α} {e x : α} (h : xs ++ [e] = before ++ x :: after) :
    after = [] ∧ xs = before ∧ e = x ∨ ∃ rest, after = rest ++ [e] ∧ xs = before ++ x :: rest := by
  rcases List.eq_nil_or_concat after with rfl | ⟨rest, last, rfl⟩
  · obtain ⟨hxs, he⟩ := List.append_inj' h rfl
    exact .inl ⟨rfl, hxs, List.singleton_inj.mp he⟩
  · rw [List.concat_eq_append] at h ⊢
    have h' : xs ++ [e] = (before ++ x :: rest) ++ [last] := by
      rw [h, List.append_assoc, List.cons_append]
    obtain ⟨hxs, he⟩ := List.append_inj' h' rfl
    cases List.singleton_inj.mp he
    exact .inr ⟨rest, rfl, hxs⟩

variable {log : List Event} {P Q : String → List Event → Prop} {s s' : Writer} {i : Nat} {t : Task}

theorem clean_concat {since : List Event} {e : Event} (h : Clean (since ++ [e])) :
    Clean since ∧ e.isPut = false ∧ e.isThawed = false :=
  ⟨fun f hf => h f (List.mem_append_left _ hf), h e (List.mem_append_right _ (List.mem_singleton_self _))⟩

theorem SinceRelease.imp (h : SinceRelease log P) (himp : ∀ p since, P p since → Q p since) : SinceRelease log Q :=
  fun before p since hlog hclean => himp p since (h before p since hlog hclean)

/-- One more event: the last release, or one more since. -/
theorem SinceRelease.note (h : SinceRelease log P) {e : Event} (hthawed : ∀ p, e = .thawed p → Q p [])
    (hmore : e.isPut = false → e.isThawed = false → ∀ p since, P p since → Q p (since ++ [e])) : SinceRelease (log ++ [e]) Q := by
  intro before p since hlog hclean
  rcases split_concat hlog with ⟨rfl, -, he⟩ | ⟨rest, rfl, hwas⟩
  · exact hthawed p he
  · obtain ⟨hrest, hput, hthaw⟩ := clean_concat hclean
    exact hmore hput hthaw p rest (h before p rest hwas hrest)

theorem FirstBased.note (h : FirstBased log) {e : Event}
    (hput : ∀ task w base record, e = .put task w base record → SinceRelease log fun p since => Based p since w base) :
    FirstBased (log ++ [e]) := by
  intro before p since task w base record after hlog hclean
  have hsplit : log ++ [e] = (before ++ .thawed p :: since) ++ .put task w base record :: after := by
    rw [hlog, List.append_assoc, List.cons_append]
  rcases split_concat hsplit with ⟨-, hwas, he⟩ | ⟨rest, -, hwas⟩
  · exact hput task w base record he before p since hwas hclean
  · rw [List.append_assoc, List.cons_append] at hwas
    exact h before p since task w base record rest hwas hclean

theorem Task.holds_of_isPutting (h : t.putting = true) : t.holds = some () := by
  unfold Task.putting at h
  split at h
  next hstage => exact Task.holds_of_putting hstage
  next => cases h

theorem released_new (stores : String → Option NodeRecord) (provider : String) : Released (Writer.new stores provider) := by
  constructor
  · intro before p since hlog
    simp [Writer.new] at hlog
  · intro before p since task w base record after hlog
    simp [Writer.new] at hlog

/-- A task that issues no put goes on, and what is held stays. -/
theorem Released.goesOn (h : Released s) (hlog : s'.log = s.log) (hprovider : s'.provider = s.provider)
    (hfrozen : s'.frozen = false → s.frozen = false) (hheld : s'.held = s.held)
    (htasks : (∀ u ∈ s.tasks, u.putting = false) → ∀ u ∈ s'.tasks, u.putting = false) : Released s' := by
  refine ⟨?_, hlog ▸ h.based⟩
  rw [hlog]
  refine h.since.imp fun p since hsince => ⟨fun hf => ?_, ?_, htasks hsince.tasks⟩
  · rw [hprovider]
    exact hsince.provider (hfrozen hf)
  · rw [hheld]
    exact hsince.held

/-- A task whose put was issued goes on: that put began since the last release. -/
theorem Released.putting (h : Released s) (hi : s.tasks[i]? = some t) (hput : t.putting = true) (hlog : s'.log = s.log) :
    Released s' := by
  refine ⟨?_, hlog ▸ h.based⟩
  rw [hlog]
  refine h.since.imp fun p since hsince => ?_
  have hnone := hsince.tasks t (List.mem_of_getElem? hi)
  rw [hput] at hnone
  cases hnone

/-- The change of a call whose base was read since the last release, or is a start's own. -/
theorem Released.change (h : Released s)
    (hbase : s.held = none → t.write.readRetained = false ∨ SinceRelease s.log fun p since => Event.read p none ∈ since) :
    Released (s.change i t) := by
  have hset : ∀ stage, ({ t with stage := stage } : Task).putting = false → (∀ u ∈ s.tasks, u.putting = false) →
      ∀ u ∈ s.tasks.set i { t with stage := stage }, u.putting = false := fun stage hstage hall => forall_mem_set hall hstage
  rcases change_cases s i t with ⟨e, -, hchange⟩ | ⟨next, -, ⟨hsame, hchange⟩ | ⟨-, hchange⟩⟩
  · rw [hchange]
    exact h.goesOn rfl rfl id rfl (hset _ rfl)
  · rw [hchange]
    exact h.goesOn rfl rfl id hsame.symm (hset _ rfl)
  · rw [hchange]
    constructor
    · refine h.since.note (fun p hp => by cases hp) fun hput => by cases hput
    · refine h.based.note fun task w base record he => ?_
      cases he
      cases hr : s.held with
      | some r => exact h.since.imp fun p since hsince => .inl ⟨some r, hsince.held r hr, rfl⟩
      | none =>
        rcases hbase hr with hbound | hread
        · exact fun _ _ _ _ _ => .inr ⟨hbound, rfl⟩
        · exact hread.imp fun p since hmem => .inl ⟨none, hmem, rfl⟩

/-- What a writer does keeps its first put after a release based on what it read since. -/
theorem released_step (h : Released s) (hlocks : Locks s) (m : Move) : Released (step s m) := by
  have hbegins : ∀ new : Task, new.putting = false → (∀ u ∈ s.tasks, u.putting = false) →
      ∀ u ∈ s.tasks ++ [new], u.putting = false := by
    intro new hnew hall u hu
    rcases List.mem_append.mp hu with hu | hu
    · exact hall u hu
    · rw [List.mem_singleton.mp hu]
      exact hnew
  have hdoes := step_does s m
  generalize step s m = s' at hdoes ⊢
  cases hdoes with
  | nothing => exact h
  | called hw => exact h.goesOn rfl rfl id rfl (hbegins _ rfl)
  | refused hw =>
    refine ⟨h.since.note (fun p hp => by cases hp) fun _ _ p since hsince => ?_, h.based.note fun _ _ _ _ he => by cases he⟩
    exact ⟨hsince.provider, fun r hr => List.mem_append_left _ (hsince.held r hr), hbegins _ rfl hsince.tasks⟩
  | @cancelled i t hi =>
    exact h.goesOn rfl rfl id rfl fun hall => forall_mem_set hall (hall t (List.mem_of_getElem? hi))
  | lockedRead hi hstage hfree hheld hread => exact h.goesOn rfl rfl id rfl fun hall => forall_mem_set hall rfl
  | @locked i t hi hstage hfree hheld =>
    have hlock : Released (s.lock i t) := h.goesOn rfl rfl id rfl id
    exact hlock.change fun hnone => .inl (hheld hnone)
  | @retained i t hi hstage =>
    have hthawed := hlocks.not_frozen hi (Task.holds_of_reading hstage)
    have hread : SinceRelease (s.log ++ [.read s.provider s.durable]) fun p since => Event.read p s.durable ∈ since := by
      refine h.since.note (fun p hp => by cases hp) fun _ _ p since hsince => ?_
      rw [hsince.provider hthawed]
      exact List.mem_append_right _ (List.mem_singleton_self _)
    refine @Released.change ({ s with held := s.durable }.note (.read s.provider s.durable)) i t ⟨?_, ?_⟩ fun hnone => ?_
    · refine h.since.note (fun p hp => by cases hp) fun _ _ p since hsince => ?_
      refine ⟨hsince.provider, fun r hr => ?_, hsince.tasks⟩
      rw [← hsince.provider hthawed, ← show s.durable = some r from hr]
      exact List.mem_append_right _ (List.mem_singleton_self _)
    · exact h.based.note fun _ _ _ _ he => by cases he
    · rw [← show s.durable = none from hnone]
      exact .inr hread
  | readFailed hi hstage => exact h.goesOn rfl rfl id rfl fun hall => forall_mem_set hall rfl
  | landed hi hstage => exact h.putting hi (by unfold Task.putting; rw [hstage]) rfl
  | finished hi hstage => exact h.putting hi (by unfold Task.putting; rw [hstage]) rfl
  | failed hi hstage => exact h.putting hi (by unfold Task.putting; rw [hstage]) rfl
  | froze hfree => exact h.goesOn rfl rfl (fun hf => by cases hf) rfl id
  | thawed hfrozen =>
    constructor
    · refine h.since.note (fun p hp => ?_) fun _ hthaw => by cases hthaw
      cases hp
      refine ⟨fun _ => rfl, fun r hr => (nomatch hr), fun u hu => ?_⟩
      by_contra hput
      exact hlocks.frozen hfrozen u hu (Task.holds_of_isPutting (Bool.eq_true_of_not_eq_false hput))
    · exact h.based.note fun _ _ _ _ he => by cases he
  | installed config => exact h.goesOn rfl rfl id rfl id

end Released

/-- A storage command of a change to one node. -/
inductive StorageCommand where
  | block (changeId : String)
  | serve (changeId provider : String)
deriving DecidableEq

def StorageCommand.changeId : StorageCommand → String
  | block changeId => changeId
  | serve changeId _ => changeId

/-- Where the retained task of a command is. -/
inductive CommandStage where
  /-- It waits for the lock on the moves. -/
  | waiting
  /-- It has it: a block may await the writer's lock, a serve the mover. -/
  | holding
  /-- The mover swapped the provider beneath the node's storage and has not answered. -/
  | swapped
  | answered (reply : NodeCommandReply)
deriving DecidableEq

structure CommandTask where
  command : StorageCommand
  stage : CommandStage
  awaited : Bool
deriving DecidableEq

def CommandTask.holds (t : CommandTask) : Option Unit :=
  match t.stage with
  | .holding => some ()
  | .swapped => some ()
  | _ => none

/-- A node: its property writer, its storage change moves and the commands on them. -/
structure Node where
  writer : Writer
  moves : StorageMoves
  commands : List CommandTask

/-- What happens next at a node. -/
inductive NodeMove where
  | writer (m : Move)
  /-- Another writer of a provider's store, such as the change's copy. -/
  | stores (provider : String) (record : Option NodeRecord)
  | commands (c : StorageCommand)
  /-- The caller of a command is cancelled: its task goes on. -/
  | cancels (i : Nat)
  | takes (i : Nat)
  | swaps (i : Nat)
  | answers (i : Nat) (mover : Except String Unit)

/-- The lock on the writer's record is a storage change's only by a command. -/
def Move.isLock : Move → Bool
  | freezes => true
  | thaws => true
  | _ => false

namespace Node

/-- A block under the moves' lock, once the writer's lock is free where it takes it. -/
def block (s : Node) (changeId : String) : Option (Node × NodeCommandReply) :=
  if (s.moves.block changeId).1 = s.moves then some (s, (s.moves.block changeId).2)
  else if s.writer.Free then
    some ({ s with writer := s.writer.freeze, moves := (s.moves.block changeId).1 }, (s.moves.block changeId).2)
  else none

/-- A serve under the moves' lock: the move is recorded and the freeze dropped. -/
def serve (s : Node) (changeId provider : String) (mover : Except String Unit) : Node × NodeCommandReply :=
  let moved := s.moves.serve changeId provider mover
  if moved.1 = s.moves then (s, moved.2)
  else
    let writer := { s.writer with provider := moved.1.provider }
    ({ s with writer := if s.moves.blocked.isSome then writer.thaw else writer, moves := moved.1 }, moved.2)

def advance (s : Node) (i : Nat) (t : CommandTask) (stage : CommandStage) : Node :=
  { s with commands := s.commands.set i { t with stage := stage } }

/-- A mover that swapped the provider answers Ok. -/
def run (s : Node) (t : CommandTask) (mover : Except String Unit) : Option (Node × NodeCommandReply) :=
  match t.command, t.stage with
  | .block changeId, .holding => s.block changeId
  | .serve changeId provider, .holding => some (s.serve changeId provider mover)
  | .serve changeId provider, .swapped => some (s.serve changeId provider (.ok ()))
  | _, _ => none

/-- Whether a serve of the change asks the mover. -/
def asksMover (s : Node) (changeId provider : String) : Bool :=
  s.moves.blocked == some changeId && !s.moves.acted.any (fun c => c.1 == changeId) && s.moves.provider != provider

def step (s : Node) : NodeMove → Node
  | .writer m => if m.isLock then s else { s with writer := Properties.step s.writer m }
  | .stores provider record => { s with writer := { s.writer with stores := Function.update s.writer.stores provider record } }
  | .commands c => { s with commands := s.commands ++ [⟨c, .waiting, true⟩] }
  | .cancels i =>
    match s.commands[i]? with
    | some t => { s with commands := s.commands.set i { t with awaited := false } }
    | none => s
  | .takes i =>
    match s.commands[i]? with
    | some t =>
      if t.stage = .waiting ∧ LockFree CommandTask.holds s.commands () then s.advance i t .holding else s
    | none => s
  | .swaps i =>
    match s.commands[i]? with
    | some ⟨.serve changeId provider, .holding, awaited⟩ =>
      if s.asksMover changeId provider then
        { s with writer := { s.writer with provider := provider } }.advance i ⟨.serve changeId provider, .holding, awaited⟩ .swapped
      else s
    | _ => s
  | .answers i mover =>
    match s.commands[i]? with
    | some t =>
      match s.run t mover with
      | some (s', reply) => s'.advance i t (.answered reply)
      | none => s
    | none => s

/-- A node that was blocked by no change yet. -/
def new (stores : String → Option NodeRecord) (provider : String) : Node :=
  ⟨Writer.new stores provider, ⟨[], none, provider, true⟩, []⟩

end Node

section Blocks

variable {m : StorageMoves} {changeId provider : String} {mover : Except String Unit}

/-- A block changes nothing, or freezes for a change that has not completed. -/
theorem block_cases (m : StorageMoves) (changeId : String) :
    (m.block changeId).1 = m ∧ ((m.block changeId).2 = .storageBlocked → m.blocked = some changeId) ∨
      m.block changeId = ({ m with blocked := some changeId }, .storageBlocked) ∧ m.blocked = none ∧ ¬ m.HasActed changeId := by
  unfold StorageMoves.block
  split
  next held hheld =>
    refine .inl ⟨rfl, fun hreply => ?_⟩
    dsimp only at hreply
    split at hreply
    next heq => rw [hheld, heq]
    next => cases hreply
  next hnone =>
    split
    next => exact .inl ⟨rfl, fun hreply => by cases hreply⟩
    next hacted =>
      split
      next =>
        refine .inr ⟨rfl, hnone, ?_⟩
        rintro ⟨p, hp⟩
        exact hacted (List.any_eq_true.mpr ⟨_, hp, beq_self_eq_true _⟩)
      next => exact .inl ⟨rfl, fun hreply => by cases hreply⟩

/-- A serve that moves is of the change that froze the writer, or of none that did and onto the provider written. -/
theorem serve_moves (hne : (m.serve changeId provider mover).1 ≠ m) (hproperties : m.properties = true) :
    m.blocked = some changeId ∨ m.blocked = none ∧ m.provider = provider := by
  unfold StorageMoves.serve at hne
  split at hne
  next => exact absurd rfl hne
  next hfilter =>
    split at hne
    next => exact absurd rfl hne
    next hready =>
      cases hblocked : m.blocked with
      | some held =>
        left
        rw [hblocked, Option.filter_some] at hfilter
        split at hfilter
        next => cases hfilter
        next hheld => simpa using hheld
      | none =>
        right
        refine ⟨rfl, ?_⟩
        split at hne
        next =>
          split at hne
          next => exact absurd rfl hne
          next => exact absurd rfl hne
        next => exact absurd rfl hne
        next hfind =>
          by_contra hprovider
          refine hready ⟨hblocked, hproperties, hprovider, ?_⟩
          intro hany
          obtain ⟨c, hc, hcid⟩ := List.any_eq_true.mp hany
          exact List.find?_eq_none.mp hfind c hc hcid

end Blocks

/-- What one step does to a node. -/
inductive NodeDoes (s : Node) : NodeMove → Node → Prop where
  | nothing (m : NodeMove) : NodeDoes s m s
  | wrote {m : Move} (hm : m.isLock = false) : NodeDoes s (.writer m) { s with writer := step s.writer m }
  | stored (provider : String) (record : Option NodeRecord) :
      NodeDoes s (.stores provider record)
        { s with writer := { s.writer with stores := Function.update s.writer.stores provider record } }
  | began (c : StorageCommand) : NodeDoes s (.commands c) { s with commands := s.commands ++ [⟨c, .waiting, true⟩] }
  | cancelled {i : Nat} {t : CommandTask} (hi : s.commands[i]? = some t) :
      NodeDoes s (.cancels i) { s with commands := s.commands.set i { t with awaited := false } }
  | took {i : Nat} {t : CommandTask} (hi : s.commands[i]? = some t) : NodeDoes s (.takes i) (s.advance i t .holding)
  | swapped {i : Nat} {t : CommandTask} {provider : String} (hi : s.commands[i]? = some t)
      (hblocked : s.moves.blocked = some t.command.changeId) (hacted : ¬ s.moves.HasActed t.command.changeId) :
      NodeDoes s (.swaps i) ({ s with writer := { s.writer with provider := provider } }.advance i t .swapped)
  | answered {i : Nat} {t : CommandTask} {mover : Except String Unit} {reply : NodeCommandReply} (hi : s.commands[i]? = some t)
      (hreply : ∀ changeId, t.command = .block changeId → reply = .storageBlocked → s.moves.blocked = some changeId) :
      NodeDoes s (.answers i mover) (s.advance i t (.answered reply))
  | blocked {i : Nat} {t : CommandTask} {mover : Except String Unit} (hi : s.commands[i]? = some t)
      (hfree : s.writer.Free) (hnone : s.moves.blocked = none) (hacted : ¬ s.moves.HasActed t.command.changeId) :
      NodeDoes s (.answers i mover)
        ({ s with writer := s.writer.freeze, moves := { s.moves with blocked := some t.command.changeId } }.advance i t
          (.answered .storageBlocked))
  | released {i : Nat} {t : CommandTask} {mover : Except String Unit} {provider : String} (hi : s.commands[i]? = some t)
      (hserve : t.command = .serve t.command.changeId provider) (hblocked : s.moves.blocked = some t.command.changeId)
      (hacted : ¬ s.moves.HasActed t.command.changeId) :
      NodeDoes s (.answers i mover)
        ({ s with writer := { s.writer with provider := provider }.thaw, moves := s.moves.moved t.command.changeId provider }.advance
          i t (.answered (.storageStepped provider)))
  | recorded {i : Nat} {t : CommandTask} {mover : Except String Unit} {provider : String} (hi : s.commands[i]? = some t)
      (hserve : t.command = .serve t.command.changeId provider) (hnone : s.moves.blocked = none)
      (hprovider : s.moves.provider = provider) (hacted : ¬ s.moves.HasActed t.command.changeId) :
      NodeDoes s (.answers i mover)
        ({ s with writer := { s.writer with provider := provider }, moves := s.moves.moved t.command.changeId provider }.advance
          i t (.answered (.storageStepped provider)))

section Does

variable {s : Node} {i : Nat} {t : CommandTask} {mover mover' : Except String Unit} {changeId provider : String}

theorem moved_ne (m : StorageMoves) (changeId provider : String) : m.moved changeId provider ≠ m := by
  intro h
  have hacted := congrArg (fun m => m.acted.length) h
  simp [StorageMoves.moved] at hacted

theorem serve_does (hi : s.commands[i]? = some t) (hcommand : t.command = .serve changeId provider)
    (hproperties : s.moves.properties = true) {s' : Node} {reply : NodeCommandReply}
    (hserve : s.serve changeId provider mover' = (s', reply)) :
    NodeDoes s (.answers i mover) (s'.advance i t (.answered reply)) := by
  have hchange : t.command.changeId = changeId := by rw [hcommand]; rfl
  unfold Node.serve at hserve
  rcases s.moves.serve_cases changeId provider mover' with ⟨hsame, -⟩ | ⟨hmoved, hacted⟩
  · rw [if_pos hsame] at hserve
    cases hserve
    exact .answered hi fun c hc => by rw [hcommand] at hc; cases hc
  · have hne : (s.moves.serve changeId provider mover').1 ≠ s.moves := by
      rw [hmoved]
      exact moved_ne _ _ _
    rw [if_neg hne, hmoved] at hserve
    rw [← hchange] at hacted hserve
    rcases serve_moves hne hproperties with hblocked | ⟨hnone, hprovider⟩
    · rw [hblocked] at hserve
      cases hserve
      exact .released hi (by rw [hcommand]; rfl) (by rw [hblocked, hchange]) hacted
    · rw [hnone] at hserve
      cases hserve
      exact .recorded hi (by rw [hcommand]; rfl) hnone hprovider hacted

theorem block_does (hi : s.commands[i]? = some t) (hcommand : t.command = .block changeId) {s' : Node}
    {reply : NodeCommandReply} (hblock : s.block changeId = some (s', reply)) :
    NodeDoes s (.answers i mover) (s'.advance i t (.answered reply)) := by
  have hchange : t.command.changeId = changeId := by rw [hcommand]; rfl
  unfold Node.block at hblock
  rcases block_cases s.moves changeId with ⟨hsame, hreply⟩ | ⟨hblocked, hnone, hacted⟩
  · rw [if_pos hsame] at hblock
    cases hblock
    refine .answered hi fun c hc hblocked => ?_
    rw [hcommand] at hc
    cases hc
    exact hreply hblocked
  · have hne : (s.moves.block changeId).1 ≠ s.moves := by
      rw [hblocked]
      intro h
      have hb := congrArg StorageMoves.blocked h
      rw [hnone] at hb
      cases hb
    rw [if_neg hne, hblocked] at hblock
    split at hblock
    next hfree =>
      cases hblock
      rw [← hchange] at hacted ⊢
      exact .blocked hi hfree hnone hacted
    next => cases hblock

theorem node_step_does (s : Node) (m : NodeMove) (hproperties : s.moves.properties = true) : NodeDoes s m (s.step m) := by
  cases m with
  | writer m =>
    simp only [Node.step]
    split
    next => exact .nothing _
    next hm => exact .wrote (Bool.eq_false_of_not_eq_true hm)
  | stores provider record => exact .stored provider record
  | commands c => exact .began c
  | cancels i =>
    simp only [Node.step]
    split
    next t hi => exact .cancelled hi
    next => exact .nothing _
  | takes i =>
    simp only [Node.step]
    split
    next t hi =>
      split
      next => exact .took hi
      next => exact .nothing _
    next => exact .nothing _
  | swaps i =>
    simp only [Node.step]
    split
    next changeId provider awaited hi =>
      split
      next hasks =>
        simp only [Node.asksMover, Bool.and_eq_true, beq_iff_eq, Bool.not_eq_true'] at hasks
        refine .swapped hi hasks.1.1 ?_
        rintro ⟨p, hp⟩
        exact List.any_eq_false.mp hasks.1.2 _ hp (beq_self_eq_true _)
      next => exact .nothing _
    next => exact .nothing _
  | answers i mover =>
    simp only [Node.step]
    split
    next t hi =>
      split
      next s' reply hrun =>
        unfold Node.run at hrun
        split at hrun
        next changeId hcommand _ => exact block_does hi hcommand hrun
        next changeId provider hcommand _ => exact serve_does hi hcommand hproperties (Option.some.inj hrun)
        next changeId provider hcommand _ => exact serve_does hi hcommand hproperties (Option.some.inj hrun)
        next => cases hrun
      next => exact .nothing _
    next => exact .nothing _

end Does

section Governed

variable {s : Node} {w : Writer} {i : Nat} {t : CommandTask} {changeId : String}

/-- A change under the lock logs at most the put it begins. -/
theorem change_log (w : Writer) (i : Nat) (t : Task) :
    (w.change i t).provider = w.provider ∧ ∀ p, Event.thawed p ∈ (w.change i t).log → Event.thawed p ∈ w.log := by
  rcases change_cases w i t with ⟨e, -, hchange⟩ | ⟨next, -, ⟨-, hchange⟩ | ⟨-, hchange⟩⟩
  · rw [hchange]
    exact ⟨rfl, fun p hp => hp⟩
  · rw [hchange]
    exact ⟨rfl, fun p hp => hp⟩
  · rw [hchange]
    refine ⟨rfl, fun p hp => ?_⟩
    rcases List.mem_append.mp hp with hp | hp
    · exact hp
    · cases List.mem_singleton.mp hp

/-- A writer's own step leaves its provider, and its lock where a storage change has it. -/
theorem step_unlocked {m : Move} (hm : m.isLock = false) :
    (step w m).frozen = w.frozen ∧ (step w m).provider = w.provider ∧
      ∀ p, Event.thawed p ∈ (step w m).log → Event.thawed p ∈ w.log := by
  have hnote : ∀ {log : List Event} {e : Event}, e.isThawed = false → ∀ p, Event.thawed p ∈ log ++ [e] → Event.thawed p ∈ log := by
    intro log e he p hp
    rcases List.mem_append.mp hp with hp | hp
    · exact hp
    · rw [← List.mem_singleton.mp hp] at he
      cases he
  have hdoes := step_does w m
  generalize step w m = w' at hdoes ⊢
  cases hdoes with
  | refused hw => exact ⟨rfl, rfl, hnote rfl⟩
  | @locked i t hi hstage hfree hheld => exact ⟨change_frozen _ i t, change_log _ i t⟩
  | @retained i t hi hstage =>
    obtain ⟨hprovider, hlog⟩ := change_log ({ w with held := w.durable }.note (.read w.provider w.durable)) i t
    exact ⟨change_frozen _ i t, hprovider, fun p hp => hnote rfl p (hlog p hp)⟩
  | froze hfree => cases hm
  | thawed hfrozen => cases hm
  | nothing | called | cancelled | lockedRead | readFailed | landed | finished | failed | installed =>
    exact ⟨rfl, rfl, fun p hp => hp⟩

/-- No put begins while a storage change has the lock. -/
theorem puts_frozen (hlocks : Locks w) (hfrozen : w.frozen = true) (m : Move) :
    (step w m).log.filter Event.isPut = w.log.filter Event.isPut := by
  have hfree := hlocks.frozen hfrozen
  have hdoes := step_does w m
  generalize step w m = w' at hdoes ⊢
  cases hdoes with
  | refused hw =>
    change (w.log ++ [Event.deleted]).filter Event.isPut = _
    rw [List.filter_append, List.filter_singleton]
    exact List.append_nil _
  | locked hi hstage hfree' hheld =>
    have hthawed := hfree'.1
    rw [hfrozen] at hthawed
    cases hthawed
  | retained hi hstage => exact absurd (Task.holds_of_reading hstage) (hfree _ (List.mem_of_getElem? hi))
  | thawed hfrozen =>
    change (w.log ++ [Event.thawed w.provider]).filter Event.isPut = _
    rw [List.filter_append, List.filter_singleton]
    exact List.append_nil _
  | nothing | called | cancelled | lockedRead | readFailed | landed | finished | failed | froze | installed => rfl

/-- A change's freeze is the writer's lock, from the answer of its block until its move is recorded. -/
structure Governed (s : Node) : Prop where
  locks : Locks s.writer
  released : Released s.writer
  frozen : s.writer.frozen = s.moves.blocked.isSome
  provider : s.moves.blocked = none → s.writer.provider = s.moves.provider
  decided : ∀ p, Event.thawed p ∈ s.writer.log → ∃ c, (c, p) ∈ s.moves.acted
  properties : s.moves.properties = true
  answered : ∀ t ∈ s.commands, ∀ c, t.command = .block c → t.stage = .answered .storageBlocked →
    s.moves.blocked = some c ∨ s.moves.HasActed c

theorem governed_new (stores : String → Option NodeRecord) (provider : String) : Governed (Node.new stores provider) :=
  ⟨locks_new stores provider, released_new stores provider, rfl, fun _ => rfl, fun _ hp => (nomatch hp), rfl,
    fun _ ht => (nomatch ht)⟩

/-- Only a command's task changed. -/
theorem Governed.commands (h : Governed s) {commands : List CommandTask}
    (hanswered : ∀ t ∈ commands, ∀ c, t.command = .block c → t.stage = .answered .storageBlocked →
      s.moves.blocked = some c ∨ s.moves.HasActed c) : Governed { s with commands := commands } :=
  ⟨h.locks, h.released, h.frozen, h.provider, h.decided, h.properties, hanswered⟩

theorem hasActed_moved {m : StorageMoves} {c : String} (h : m.HasActed c) (changeId provider : String) :
    (m.moved changeId provider).HasActed c := by
  obtain ⟨p, hp⟩ := h
  exact ⟨p, List.mem_append_left _ hp⟩

theorem hasActed_self (m : StorageMoves) (changeId provider : String) : (m.moved changeId provider).HasActed changeId :=
  ⟨provider, List.mem_append_right _ (List.mem_singleton_self _)⟩

/-- A lock that a storage change took, or dropped. -/
theorem Locks.frozenTo (h : Locks w) {w' : Writer} (htasks : w'.tasks = w.tasks)
    (hfrozen : w'.frozen = true → LockFree Task.holds w.tasks ()) : Locks w' :=
  ⟨htasks ▸ h.exclusive, htasks ▸ hfrozen⟩

theorem Governed.frozen_of_blocked (h : Governed s) {changeId : String} (hblocked : s.moves.blocked = some changeId) :
    s.writer.frozen = true := by
  rw [h.frozen, hblocked]
  rfl

/-- The mover swaps the provider under the freeze. -/
theorem Governed.swaps (h : Governed s) (i : Nat) (t : CommandTask) {changeId : String}
    (hblocked : s.moves.blocked = some changeId) (provider : String) :
    Governed ({ s with writer := { s.writer with provider := provider } }.advance i t .swapped) := by
  refine ⟨⟨h.locks.exclusive, h.locks.frozen⟩, ⟨?_, h.released.based⟩, h.frozen, ?_, h.decided, h.properties,
    forall_mem_set h.answered ?_⟩
  · refine h.released.since.imp fun p since hsince => ⟨fun hf => ?_, hsince.held, hsince.tasks⟩
    have hfrozen := h.frozen_of_blocked hblocked
    rw [show s.writer.frozen = false from hf] at hfrozen
    cases hfrozen
  · intro hnone
    rw [show s.moves.blocked = none from hnone] at hblocked
    cases hblocked
  · intro c _ hstage
    cases hstage

/-- A block takes the writer's lock. -/
theorem Governed.blocks (h : Governed s) (i : Nat) (t : CommandTask) (hfree : s.writer.Free) (hnone : s.moves.blocked = none) :
    Governed ({ s with writer := s.writer.freeze, moves := { s.moves with blocked := some t.command.changeId } }.advance i t
      (.answered .storageBlocked)) := by
  refine ⟨h.locks.frozenTo rfl fun _ => hfree.2, h.released.goesOn rfl rfl (fun hf => nomatch hf) rfl id, rfl,
    fun hn => (nomatch hn), h.decided, h.properties, forall_mem_set ?_ ?_⟩
  · intro u hu c hc hstage
    rcases h.answered u hu c hc hstage with hblocked | hacted
    · rw [hnone] at hblocked
      cases hblocked
    · exact .inr hacted
  · intro c hc _
    left
    rw [show t.command = .block c from hc]
    rfl

/-- A change that moved, or the block before it, stands as moved. -/
theorem Governed.answered_moved (h : Governed s) (i : Nat) {t : CommandTask} {provider : String} {reply : NodeCommandReply}
    (hserve : t.command = .serve t.command.changeId provider)
    (hblocked : ∀ c, s.moves.blocked = some c → c = t.command.changeId) :
    ∀ u ∈ s.commands.set i { t with stage := .answered reply }, ∀ c, u.command = .block c →
      u.stage = .answered .storageBlocked → (s.moves.moved t.command.changeId provider).blocked = some c ∨
        (s.moves.moved t.command.changeId provider).HasActed c := by
  refine forall_mem_set (fun u hu c hc hstage => .inr ?_) fun c hc => ?_
  · rcases h.answered u hu c hc hstage with hwas | hwas
    · rw [hblocked c hwas]
      exact hasActed_self _ _ _
    · exact hasActed_moved hwas _ _
  · rw [show t.command = .block c from hc] at hserve
    cases hserve

theorem Governed.decided_moved (h : Governed s) (changeId provider : String) {p : String}
    (hp : Event.thawed p ∈ s.writer.log) : ∃ c, (c, p) ∈ (s.moves.moved changeId provider).acted := by
  obtain ⟨c, hc⟩ := h.decided p hp
  exact ⟨c, List.mem_append_left _ hc⟩

/-- A serve of the change that blocked the node records its move and drops the freeze. -/
theorem Governed.releases (h : Governed s) (i : Nat) {t : CommandTask} {provider : String}
    (hserve : t.command = .serve t.command.changeId provider) (hblocked : s.moves.blocked = some t.command.changeId) :
    Governed ({ s with
      writer := { s.writer with provider := provider }.thaw, moves := s.moves.moved t.command.changeId provider }.advance i t
        (.answered (.storageStepped provider))) := by
  have hfree := h.locks.frozen (h.frozen_of_blocked hblocked)
  refine ⟨h.locks.frozenTo rfl fun _ => hfree, ⟨?_, ?_⟩, rfl, fun _ => rfl, ?_, h.properties, h.answered_moved i hserve ?_⟩
  · refine h.released.since.note (fun p hp => ?_) fun _ hthaw => nomatch hthaw
    cases hp
    refine ⟨fun _ => rfl, fun r hr => (nomatch hr), fun u hu => ?_⟩
    by_contra hput
    exact hfree u hu (Task.holds_of_isPutting (Bool.eq_true_of_not_eq_false hput))
  · exact h.released.based.note fun _ _ _ _ he => nomatch he
  · intro p hp
    rcases List.mem_append.mp hp with hp | hp
    · exact h.decided_moved _ _ hp
    · cases List.mem_singleton.mp hp
      exact ⟨t.command.changeId, List.mem_append_right _ (List.mem_singleton_self _)⟩
  · intro c hc
    rw [hblocked] at hc
    exact (Option.some.inj hc).symm

/-- A serve at the provider of a node that no change blocks records the move. -/
theorem Governed.records (h : Governed s) (i : Nat) {t : CommandTask} {provider : String}
    (hserve : t.command = .serve t.command.changeId provider) (hnone : s.moves.blocked = none)
    (hprovider : s.moves.provider = provider) :
    Governed ({ s with
      writer := { s.writer with provider := provider }, moves := s.moves.moved t.command.changeId provider }.advance i t
        (.answered (.storageStepped provider))) := by
  have hsame : s.writer.provider = provider := (h.provider hnone).trans hprovider
  have hfrozen : s.writer.frozen = false := by
    rw [h.frozen, hnone]
    rfl
  refine ⟨⟨h.locks.exclusive, h.locks.frozen⟩, h.released.goesOn rfl hsame.symm id rfl id, hfrozen, fun _ => rfl,
    fun p hp => h.decided_moved _ _ hp, h.properties, h.answered_moved i hserve ?_⟩
  intro c hc
  rw [hnone] at hc
  cases hc

theorem governed_step (h : Governed s) (m : NodeMove) : Governed (s.step m) := by
  have hdoes := node_step_does s m h.properties
  generalize s.step m = s' at hdoes ⊢
  cases hdoes with
  | nothing => exact h
  | @wrote m hm =>
    obtain ⟨hfrozen, hprovider, hlog⟩ := @step_unlocked s.writer m hm
    exact ⟨locks_step h.locks m, released_step h.released h.locks m, hfrozen.trans h.frozen,
      fun hnone => hprovider.trans (h.provider hnone), fun p hp => h.decided p (hlog p hp), h.properties, h.answered⟩
  | stored provider record =>
    exact ⟨⟨h.locks.exclusive, h.locks.frozen⟩, h.released.goesOn rfl rfl id rfl id, h.frozen, h.provider, h.decided,
      h.properties, h.answered⟩
  | began c =>
    refine h.commands fun t ht => ?_
    rcases List.mem_append.mp ht with ht | ht
    · exact h.answered t ht
    · intro c' _ hstage
      rw [List.mem_singleton.mp ht] at hstage
      cases hstage
  | @cancelled i t hi => exact h.commands (forall_mem_set h.answered (h.answered t (List.mem_of_getElem? hi)))
  | @took i t hi =>
    refine h.commands (forall_mem_set h.answered ?_)
    intro c _ hstage
    cases hstage
  | swapped hi hblocked hacted => exact h.swaps _ _ hblocked _
  | @answered i t mover reply hi hreply =>
    refine h.commands (forall_mem_set h.answered ?_)
    intro c hc hstage
    cases hstage
    exact .inl (hreply c hc rfl)
  | blocked hi hfree hnone hacted => exact h.blocks _ _ hfree hnone
  | released hi hserve hblocked hacted => exact h.releases _ hserve hblocked
  | recorded hi hserve hnone hprovider hacted => exact h.records _ hserve hnone hprovider

theorem hasActed_step (h : Governed s) (m : NodeMove) (hacted : s.moves.HasActed changeId) :
    (s.step m).moves.HasActed changeId := by
  have hdoes := node_step_does s m h.properties
  generalize s.step m = s' at hdoes ⊢
  cases hdoes with
  | released | recorded => exact hasActed_moved hacted _ _
  | nothing | wrote | stored | began | cancelled | took | swapped | answered | blocked => exact hacted

theorem governed_run (h : Governed s) (moves : List NodeMove) : Governed (moves.foldl Node.step s) :=
  invariant_run (I := Governed) (fun _ m hs => governed_step hs m) h moves

theorem hasActed_run (h : Governed s) (moves : List NodeMove) (hacted : s.moves.HasActed changeId) :
    (moves.foldl Node.step s).moves.HasActed changeId := by
  have hboth := invariant_run (I := fun s : Node => Governed s ∧ s.moves.HasActed changeId)
    (fun _ m hs => ⟨governed_step hs.1 m, hasActed_step hs.1 m hs.2⟩) ⟨h, hacted⟩ moves
  exact hboth.2

/-- While a change holds the freeze, a step begins no put, and drops the freeze only by the change's own recorded move. -/
theorem blocked_step (h : Governed s) (hblocked : s.moves.blocked = some changeId) (m : NodeMove) :
    (s.step m).moves.HasActed changeId ∨ (s.step m).moves.blocked = some changeId ∧
      (s.step m).writer.log.filter Event.isPut = s.writer.log.filter Event.isPut := by
  have hfrozen : s.writer.frozen = true := by
    rw [h.frozen, hblocked]
    rfl
  have hdoes := node_step_does s m h.properties
  generalize s.step m = s' at hdoes ⊢
  cases hdoes with
  | @wrote m hm => exact .inr ⟨hblocked, puts_frozen h.locks hfrozen m⟩
  | blocked hi hfree hnone hacted =>
    rw [hnone] at hblocked
    cases hblocked
  | released hi hserve hwas hacted =>
    rw [hwas] at hblocked
    cases hblocked
    exact .inl (hasActed_self _ _ _)
  | recorded hi hserve hnone hprovider hacted =>
    rw [hnone] at hblocked
    cases hblocked
  | nothing | stored | began | cancelled | took | swapped | answered => exact .inr ⟨hblocked, rfl⟩

theorem blocked_run (h : Governed s) (hblocked : s.moves.blocked = some changeId) (moves : List NodeMove)
    (hacted : ¬ (moves.foldl Node.step s).moves.HasActed changeId) :
    (moves.foldl Node.step s).moves.blocked = some changeId ∧
      (moves.foldl Node.step s).writer.log.filter Event.isPut = s.writer.log.filter Event.isPut := by
  induction moves generalizing s with
  | nil => exact ⟨hblocked, rfl⟩
  | cons m moves ih =>
    have hnext := governed_step h m
    rcases blocked_step h hblocked m with hmoved | ⟨hstill, hputs⟩
    · exact absurd (hasActed_run hnext moves hmoved) hacted
    · obtain ⟨hend, hrest⟩ := ih hnext hstill hacted
      exact ⟨hend, hrest.trans hputs⟩

/-- A command of a change that completed changes neither the writer nor the moves. -/
theorem completed_step (h : Governed s) (hi : s.commands[i]? = some t) (hacted : s.moves.HasActed t.command.changeId)
    {m : NodeMove} (hm : m = .takes i ∨ m = .swaps i ∨ ∃ mover, m = .answers i mover) :
    (s.step m).writer = s.writer ∧ (s.step m).moves = s.moves := by
  have hdoes := node_step_does s m h.properties
  generalize s.step m = s' at hdoes ⊢
  have hnot : ∀ {j : Nat} {u : CommandTask}, j = i → s.commands[j]? = some u → s.moves.HasActed u.command.changeId := by
    intro j u hj hu
    rw [hj, hi] at hu
    cases hu
    exact hacted
  cases hdoes with
  | nothing | took | answered => exact ⟨rfl, rfl⟩
  | wrote | stored | began | cancelled => simp at hm
  | swapped hj hblocked hnew => exact absurd (hnot (by simpa using hm) hj) hnew
  | blocked hj hfree hnone hnew => exact absurd (hnot (by simpa using hm) hj) hnew
  | released hj hserve hblocked hnew => exact absurd (hnot (by simpa using hm) hj) hnew
  | recorded hj hserve hnone hprovider hnew => exact absurd (hnot (by simpa using hm) hj) hnew

end Governed

/-- From the answer that a change blocked a node until a serve of it records its move, no put is made; the first put after a
release is based on the record read since from the provider decided; and the commands of a change that completed neither
freeze, move nor release the writer. -/
theorem storage_change_freezes (stores : String → Option NodeRecord) (provider : String) (first later : List NodeMove) :
    let s := first.foldl Node.step (Node.new stores provider)
    let s' := later.foldl Node.step s
    (∀ (i : Nat) (t : CommandTask) (c : String), s.commands[i]? = some t → t.command = .block c →
      t.stage = .answered .storageBlocked → ¬ s'.moves.HasActed c →
      LockFree Task.holds s'.writer.tasks () ∧ s'.writer.log.filter Event.isPut = s.writer.log.filter Event.isPut) ∧
    (∀ before p since task w base record after,
      s.writer.log = before ++ .thawed p :: (since ++ .put task w base record :: after) → Clean since →
      (∃ c, (c, p) ∈ s.moves.acted) ∧
      (w.readRetained = true → ∃ r, Event.read p r ∈ since ∧ base = r.getD w.initial) ∧
      (w.readRetained = false → base = w.initial ∨ ∃ r, Event.read p r ∈ since ∧ base = r.getD w.initial)) ∧
    (∀ (i : Nat) (t : CommandTask) (m : NodeMove), s.commands[i]? = some t → s.moves.HasActed t.command.changeId →
      (m = .takes i ∨ m = .swaps i ∨ ∃ mover, m = .answers i mover) →
      (s.step m).writer = s.writer ∧ (s.step m).moves = s.moves) := by
  intro s s'
  have hs : Governed s := governed_run (governed_new stores provider) first
  have hs' : Governed s' := governed_run hs later
  refine ⟨?_, ?_, fun i t m hi hacted hm => completed_step hs hi hacted hm⟩
  · intro i t c hi hcommand hstage hacted
    have hblocked : s.moves.blocked = some c := by
      rcases hs.answered t (List.mem_of_getElem? hi) c hcommand hstage with hblocked | hwas
      · exact hblocked
      · exact absurd (hasActed_run hs later hwas) hacted
    obtain ⟨hend, hputs⟩ := blocked_run hs hblocked later hacted
    refine ⟨hs'.locks.frozen ?_, hputs⟩
    rw [hs'.frozen, hend]
    rfl
  · intro before p since task w base record after hlog hclean
    have hthawed : Event.thawed p ∈ s.writer.log := by
      rw [hlog]
      exact List.mem_append_right _ (List.mem_cons_self ..)
    have hbased := hs.released.based before p since task w base record after hlog hclean
    refine ⟨hs.decided p hthawed, fun hread => ?_, fun _ => ?_⟩
    · rcases hbased with hbased | ⟨hbound, -⟩
      · exact hbased
      · rw [hbound] at hread
        cases hread
    · rcases hbased with hbased | ⟨-, hbase⟩
      · exact .inr hbased
      · exact .inl hbase

/-- A node that started and was blocked by a change, with an update waiting for its lock. -/
def blockedMoves : List NodeMove :=
  [.writer (.calls (.bound startedRecord) false), .writer (.locks 0), .writer (.lands 0), .writer (.answers 0),
    .commands (.block "c1"), .takes 0, .answers 0 (.ok ()), .writer (.calls (configured "1") false)]

/-- The change copies the record as its own and moves the node; then the update goes on. -/
def releasedMoves : List NodeMove :=
  [.stores "db" (some { startedRecord with tags := ∅, state := .ready }), .commands (.serve "c1" "db"), .takes 1, .swaps 1,
    .writer (.locks 1), .answers 1 (.ok ()), .writer (.locks 1), .writer (.reads 1), .writer (.lands 1)]

/-- Before its change moves it the node puts nothing, and then the update's put is based on the copy. -/
theorem blockedMoves_frozen :
    (((releasedMoves.take 5).foldl Node.step (blockedMoves.foldl Node.step (Node.new (fun _ => none) "file"))).writer.log.filter
        Event.isPut).length = 1 ∧
      ((releasedMoves.foldl Node.step (blockedMoves.foldl Node.step (Node.new (fun _ => none) "file"))).writer.durable.map
        fun r => (r.state, r.config)) = some (.ready, [("k", "1")]) := by
  refine ⟨?_, by decide +kernel⟩
  obtain ⟨hfrozen, -⟩ := storage_change_freezes (fun _ => none) "file" blockedMoves (releasedMoves.take 5)
  have hblocked : (blockedMoves.foldl Node.step (Node.new (fun _ => none) "file")).commands[0]?
      = some ⟨.block "c1", .answered .storageBlocked, true⟩ := by decide +kernel
  have hacted : ¬ ((releasedMoves.take 5).foldl Node.step
      (blockedMoves.foldl Node.step (Node.new (fun _ => none) "file"))).moves.HasActed "c1" := by
    rintro ⟨p, hp⟩
    have hnil : ((releasedMoves.take 5).foldl Node.step
      (blockedMoves.foldl Node.step (Node.new (fun _ => none) "file"))).moves.acted = [] := by decide +kernel
    rw [hnil] at hp
    cases hp
  rw [(hfrozen 0 _ "c1" hblocked rfl rfl hacted).2]
  decide +kernel

end DistributedMesh.Properties
