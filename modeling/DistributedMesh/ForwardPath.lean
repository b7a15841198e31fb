import DistributedMesh.GuardedRuns
import DistributedMesh.TopologyAgreement

namespace DistributedMesh

open Std (ExtTreeMap)
open KeyedMaps

/-- A frame a primary puts on its mesh channel: a source's, or one of another kind. -/
inductive ChannelFrame (L : Type) where
  | topology (frame : Frame)
  | other (frame : L)

/-- One entry of the queue. Its revision is the term of the forwarder role it was decided in. -/
inductive Job (L : Type) where
  | forwarded (revision : Nat) (out : Forward)
  | carried (revision : Nat) (frame : L)
  | replayed (revision : Option Nat) (frames : List (ChannelFrame L))

/-- Where the one sender stands: it waits for an entry, has received one, or puts its frames on the channel, without
those of a source one of whose frames was refused. -/
inductive Sender (L : Type) where
  | waiting
  | received (job : Job L)
  | sending (revision : Option Nat) (frames : List (ChannelFrame L)) (refused : List String)

/-- A frame handed to the channel, and whether the channel took it. -/
structure Sent (L : Type) where
  revision : Option Nat
  frame : ChannelFrame L
  taken : Bool

variable {L : Type}

/-- The mesh of the source a frame belongs to. -/
def ChannelFrame.mesh : ChannelFrame L → Option String
  | .topology (.topologyFull _ _ chunk) => some chunk.mesh
  | .topology (.topologyDelta _ _ mesh _ _ _ _) => some mesh
  | .other _ => none

def ChannelFrame.source : ChannelFrame L → Option Frame
  | .topology frame => some frame
  | .other _ => none

namespace Job

def revision : Job L → Option Nat
  | .forwarded revision _ => some revision
  | .carried revision _ => some revision
  | .replayed revision _ => revision

def frames : Job L → List (ChannelFrame L)
  | .forwarded _ out => out.frames.map .topology
  | .carried _ frame => [.other frame]
  | .replayed _ frames => frames

end Job

namespace Sender

/-- The sender with the frames still to be handed over; with none it waits for the next entry. -/
def upTo (revision : Option Nat) (refused : List String) : List (ChannelFrame L) → Sender L
  | [] => .waiting
  | frames => .sending revision frames refused

/-- The frames of what the sender holds. -/
def frames : Sender L → List (ChannelFrame L)
  | .waiting => []
  | .received job => job.frames
  | .sending _ frames _ => frames

variable {revision : Option Nat} {refused : List String} {toSend : List (ChannelFrame L)}

@[simp] theorem frames_waiting : (waiting : Sender L).frames = [] := rfl

@[simp] theorem frames_received (job : Job L) : (received job).frames = job.frames := rfl

@[simp] theorem frames_sending : (sending revision toSend refused).frames = toSend := rfl

@[simp] theorem frames_upTo : (upTo revision refused toSend).frames = toSend := by
  cases toSend <;> rfl

end Sender

/-- The forwarder with its role, and the one queue its frames are sent from. `due` is the answer a publication took
from `owesFull` and acts on next. -/
structure ForwardPath (L : Type) where
  forwarder : Forwarder
  roleOn : Bool
  roleRevision : Nat
  owesFull : Bool
  due : Option Bool
  alive : Bool
  queue : List (Job L)
  sender : Sender L
  sent : List (Sent L)

namespace ForwardPath

/-- The path of a node that never held the role. -/
def pair (author : Birth) (snapshots : Nat) (ownMesh : String) : ForwardPath L :=
  ⟨.start author snapshots ownMesh, false, 0, false, none, true, [], .waiting, []⟩

def role (p : ForwardPath L) : Option Nat := if p.roleOn then some p.roleRevision else none

/-- A queue whose task is gone sends nothing: the next publication is a full. -/
def enqueue (p : ForwardPath L) (job : Job L) : ForwardPath L :=
  if p.alive then { p with queue := p.queue ++ [job] }
  else { p with owesFull := p.owesFull || job.frames.any fun frame => frame.mesh.isSome }

variable (encode : Frame → Bytes)

def source (p : ForwardPath L) (me : String) (offer : Offer) (now : Nat) : ForwardPath L :=
  match p.role with
  | none => p
  | some revision =>
    let out := p.forwarder.source encode me offer now
    match out.2 with
    | .nothing _ => { p with forwarder := out.1 }
    | decided => { p with forwarder := out.1 }.enqueue (.forwarded revision decided)

def fulls (p : ForwardPath L) (me : String) (held : List Offer) (now : Nat) : ForwardPath L :=
  match p.role with
  | none => p
  | some revision =>
    let out := Forwarder.fulls encode me now p.forwarder held
    { p with forwarder := out.1 }.enqueue (.forwarded revision (.full out.2))

def setRole (p : ForwardPath L) (on : Bool) : ForwardPath L :=
  if p.roleOn = on then p
  else
    { p with
      forwarder := { p.forwarder with published := ∅ }
      roleOn := on
      roleRevision := p.roleRevision + 1
      owesFull := on }

def carry (p : ForwardPath L) (frame : L) : ForwardPath L :=
  match p.role with
  | none => p
  | some revision => p.enqueue (.carried revision frame)

def replay (p : ForwardPath L) (me : String) (frames : List L) (now : Nat) : ForwardPath L :=
  match p.role with
  | none => if frames.isEmpty then p else p.enqueue (.replayed none (frames.map .other))
  | some revision =>
    let out := p.forwarder.replay encode me now
    let all := frames.map .other ++ out.2.map .topology
    let p := { p with forwarder := out.1 }
    if all.isEmpty then p else p.enqueue (.replayed (some revision) all)

/-- A publication takes whether a full of every source is owed. -/
def takeDue (p : ForwardPath L) : ForwardPath L := { p with owesFull := false, due := some p.owesFull }

/-- A publication: the full of every source where one was owed, else its own mesh. -/
def publish (p : ForwardPath L) (me : String) (held : List Offer) (own : Offer) (now : Nat) : ForwardPath L :=
  match p.due with
  | none => p
  | some true => { p with due := none }.fulls encode me held now
  | some false => { p with due := none }.source encode me own now

/-- The sender takes the next entry. -/
def receive (p : ForwardPath L) : ForwardPath L :=
  match p.alive, p.sender, p.queue with
  | true, .waiting, job :: queue => { p with sender := .received job, queue := queue }
  | _, _, _ => p

/-- An entry of a term that is not the current one is dropped. -/
def checkRole (p : ForwardPath L) : ForwardPath L :=
  match p.alive, p.sender with
  | true, .received job =>
    if job.revision = none ∨ p.role = job.revision then { p with sender := .upTo job.revision [] job.frames }
    else { p with sender := .waiting }
  | _, _ => p

/-- The channel answers for the next frame. A source one of whose frames it refused sends no more of the decision,
and the next publication is a full. -/
def hand (p : ForwardPath L) (taken : Bool) : ForwardPath L :=
  match p.alive, p.sender with
  | true, .sending revision (frame :: frames) refused =>
    match frame.mesh with
    | some mesh =>
      if mesh ∈ refused then { p with sender := .upTo revision refused frames }
      else
        { p with
          sent := p.sent ++ [⟨revision, frame, taken⟩]
          owesFull := p.owesFull || !taken
          sender := .upTo revision (if taken then refused else mesh :: refused) frames }
    | none => { p with sent := p.sent ++ [⟨revision, frame, taken⟩], sender := .upTo revision refused frames }
  | _, _ => p

end ForwardPath

/-- What can happen to a path: a call on it, or a step of its sender. -/
inductive PathCall (L : Type) where
  | source (me : String) (offer : Offer) (now : Nat)
  | fulls (me : String) (held : List Offer) (now : Nat)
  | setRole (on : Bool)
  | carry (frame : L)
  | replay (me : String) (frames : List L) (now : Nat)
  | takeDue
  | publish (me : String) (held : List Offer) (own : Offer) (now : Nat)
  | receive
  | checkRole
  | hand (taken : Bool)
  /-- The sender's task is gone. -/
  | senderGone

namespace ForwardPath

def call (encode : Frame → Bytes) (p : ForwardPath L) : PathCall L → ForwardPath L
  | .source me offer now => p.source encode me offer now
  | .fulls me held now => p.fulls encode me held now
  | .setRole on => p.setRole on
  | .carry frame => p.carry frame
  | .replay me frames now => p.replay encode me frames now
  | .takeDue => p.takeDue
  | .publish me held own now => p.publish encode me held own now
  | .receive => p.receive
  | .checkRole => p.checkRole
  | .hand taken => p.hand taken
  | .senderGone => { p with alive := false }

def run (encode : Frame → Bytes) (p : ForwardPath L) (calls : List (PathCall L)) : ForwardPath L :=
  calls.foldl (call encode) p

end ForwardPath

end DistributedMesh
