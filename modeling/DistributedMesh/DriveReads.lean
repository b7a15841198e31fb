import DistributedMesh.GuardedRuns
import Mathlib.Data.Finset.Insert
import Mathlib.Data.List.Nodup

namespace DistributedMesh.DriveReads

open GuardedRuns

/-- A reply of a Build's stream: a step or a pending one with its key, or any other, with the rest each carries. -/
inductive BuildReply (P : Type) where
  | step (mesh operation step : String) (rest : P)
  | pending (mesh operation step reason : String) (rest : P)
  | other (rest : P)
deriving DecidableEq

inductive FrameKey where
  | step (mesh operation step : String)
  | pending (mesh operation step reason : String)
deriving DecidableEq

/-- The fabric-primary role moved off this admin while it drove a Build. -/
structure RoleLoss where
  why : String
  toNode : Option String
deriving DecidableEq

/-- What a reader of a drive reads. -/
inductive Read (P : Type) where
  | frame (frame : BuildReply P)
  | terminal (terminal : BuildReply P)
  | roleLost (loss : RoleLoss)
deriving DecidableEq

structure DriveState (P : Type) where
  events : List (BuildReply P)
  seen : Finset FrameKey
  terminal : Option (BuildReply P)
  lost : Option RoleLoss
deriving DecidableEq

variable {P : Type}

def frameKey : BuildReply P → Option FrameKey
  | .step mesh operation step _ => some (.step mesh operation step)
  | .pending mesh operation step reason _ => some (.pending mesh operation step reason)
  | .other _ => none

def Read.isEnd : Read P → Bool
  | .frame _ => false
  | .terminal _ => true
  | .roleLost _ => true

namespace DriveState

def new : DriveState P := ⟨[], ∅, none, none⟩

/-- The frame is passed on, unless its key was already; and whether it was. -/
def push (s : DriveState P) (frame : BuildReply P) : DriveState P × Bool :=
  if s.terminal.isSome then (s, false)
  else
    match frameKey frame with
    | none => ({ s with events := s.events ++ [frame] }, true)
    | some key =>
      if key ∈ s.seen then (s, false)
      else ({ s with seen := insert key s.seen, events := s.events ++ [frame] }, true)

def finish (s : DriveState P) (terminal : BuildReply P) : DriveState P :=
  if s.terminal.isNone then { s with terminal := some terminal } else s

def loseFabricPrimary (s : DriveState P) (loss : RoleLoss) : DriveState P :=
  if s.lost.isNone && s.terminal.isNone then { s with lost := some loss } else s

def ended (s : DriveState P) : Bool := s.terminal.isSome || s.lost.isSome

/-- The end a reader past the last frame reads: the terminal, else the loss. -/
def end? (s : DriveState P) : Option (Read P) :=
  match s.terminal with
  | some terminal => some (.terminal terminal)
  | none => s.lost.map .roleLost

end DriveState

/-- Where a reader's `next` call is: not made, registered with the wake, or waiting on it; and whether the waiters
were notified since it registered. -/
inductive Stage where
  | idle
  | enabled (notified : Bool)
  | waiting (notified : Bool)
deriving DecidableEq

def Stage.notified : Stage → Stage
  | .idle => .idle
  | .enabled _ => .enabled true
  | .waiting _ => .waiting true

/-- A caller's read position, and what its `next` calls returned. -/
structure DriveReader (P : Type) where
  cursor : Nat
  done : Bool
  stage : Stage
  reads : List (Option (Read P))
deriving DecidableEq

namespace DriveReader

def new : DriveReader P := ⟨0, false, .idle, []⟩

def returns (r : DriveReader P) (read : Option (Read P)) : DriveReader P :=
  { r with stage := .idle, reads := r.reads ++ [read] }

/-- One turn of the reader: its call begins and registers, looks at the state under its lock, or waits. -/
def next (r : DriveReader P) (s : DriveState P) : DriveReader P :=
  match r.stage with
  | .idle => if r.done then r.returns none else { r with stage := .enabled false }
  | .enabled notified =>
    match s.events[r.cursor]? with
    | some frame => { r.returns (some (.frame frame)) with cursor := r.cursor + 1 }
    | none =>
      match s.end? with
      | some e => { r.returns (some e) with done := true }
      | none => { r with stage := .waiting notified }
  | .waiting notified => if notified then { r with stage := .enabled false } else r

def notified (r : DriveReader P) : DriveReader P := { r with stage := r.stage.notified }

end DriveReader

/-- A drive, its readers, and how many of its writers let the state go and have yet to notify the waiters. -/
structure Drive (P : Type) where
  state : DriveState P
  readers : List (DriveReader P)
  notifying : Nat
deriving DecidableEq

inductive Move (P : Type) where
  | push (frame : BuildReply P)
  | finish (terminal : BuildReply P)
  | loseFabricPrimary (loss : RoleLoss)
  /-- One of those writers notifies. -/
  | notifyWaiters
  | reader
  | next (i : Nat)
  /-- The reader's call is dropped where it is. -/
  | cancels (i : Nat)
deriving DecidableEq

namespace Drive

def new : Drive P := ⟨.new, [], 0⟩

def step (d : Drive P) : Move P → Drive P
  | .push frame =>
    { d with state := (d.state.push frame).1, notifying := d.notifying + if (d.state.push frame).2 then 1 else 0 }
  | .finish terminal => { d with state := d.state.finish terminal, notifying := d.notifying + 1 }
  | .loseFabricPrimary loss => { d with state := d.state.loseFabricPrimary loss, notifying := d.notifying + 1 }
  | .notifyWaiters =>
    if d.notifying = 0 then d
    else { d with readers := d.readers.map DriveReader.notified, notifying := d.notifying - 1 }
  | .reader => { d with readers := d.readers ++ [.new] }
  | .next i =>
    match d.readers[i]? with
    | none => d
    | some r => { d with readers := d.readers.set i (r.next d.state) }
  | .cancels i =>
    match d.readers[i]? with
    | none => d
    | some r => { d with readers := d.readers.set i { r with stage := .idle } }

def after (moves : List (Move P)) : Drive P := moves.foldl step new

/-- The frame a move passes on, when it is a push that does. -/
def accepts (d : Drive P) : Move P → List (BuildReply P)
  | .push frame => if (d.state.push frame).2 then [frame] else []
  | _ => []

/-- The frames the pushes of a run passed on, in order. -/
def accepted (d : Drive P) : List (Move P) → List (BuildReply P)
  | [] => []
  | m :: moves => d.accepts m ++ (d.step m).accepted moves

end Drive

namespace DriveState

variable {s : DriveState P} {frame : BuildReply P}

/-- What a push does: nothing, or the frame is the last one and its key is held. -/
theorem push_cases (s : DriveState P) (frame : BuildReply P) :
    (s.push frame = (s, false) ∧ (s.terminal.isSome = true ∨ ∃ key, frameKey frame = some key ∧ key ∈ s.seen)) ∨
    ∃ seen, s.push frame = ({ s with seen := seen, events := s.events ++ [frame] }, true) ∧ s.terminal = none ∧
      (∀ key, frameKey frame = some key → key ∉ s.seen) ∧ ∀ key, key ∈ seen ↔ key ∈ s.seen ∨ frameKey frame = some key := by
  unfold push
  cases hterminal : s.terminal with
  | some t => exact .inl ⟨rfl, .inl rfl⟩
  | none =>
    rw [Option.isSome_none, if_neg Bool.false_ne_true]
    cases hkey : frameKey frame with
    | none => exact .inr ⟨s.seen, rfl, rfl, by simp, by simp⟩
    | some key =>
      dsimp only
      by_cases hseen : key ∈ s.seen
      · rw [if_pos hseen]
        exact .inl ⟨rfl, .inr ⟨key, rfl, hseen⟩⟩
      · rw [if_neg hseen]
        refine .inr ⟨insert key s.seen, rfl, rfl, ?_, ?_⟩
        · intro k hk
          rw [← Option.some.inj hk]
          exact hseen
        · intro k
          rw [Finset.mem_insert, Option.some.injEq, or_comm, eq_comm]

theorem ended_iff : s.ended = true ↔ s.end? ≠ none := by
  unfold ended end?
  cases s.terminal with
  | some t => simp
  | none => simp [Option.isSome_iff_ne_none]

end DriveState

end DistributedMesh.DriveReads
