import Mathlib.Logic.Function.Basic
import DistributedMesh.DeliveryState
import DistributedMesh.GuardedRuns

namespace DistributedMesh.NodeRpc

open Std (ExtTreeMap ExtTreeSet)
open KeyedMaps

/-- A response frame: what its header says of it, and its reply bytes. -/
structure ResponseFrame where
  sender : Birth
  deliverySeq : Nat
  invocation : DeliveryId
  seq : Nat
  body : Bytes
deriving DecidableEq

def ResponseFrame.deliveryId (f : ResponseFrame) : DeliveryId := ⟨f.sender, f.deliverySeq⟩

/-- A stream frame's ack, written once its owner can recover the frame. -/
structure AckOnRecovery where
  invocation : DeliveryId
  seq : Nat
  deliverySeq : Nat
deriving DecidableEq

/-- An event on a caller's open invocation. -/
inductive SlotEvent where
  | frame (body : Bytes) (later : Option AckOnRecovery)
  | violation (why : String)
deriving DecidableEq

inductive ResponseVerdict where
  | ack (acks : List DeliveryId)
  | held
  | drop
  | violation (why : String)
deriving DecidableEq

def ResponseVerdict.acks : ResponseVerdict → List DeliveryId
  | ack acks => acks
  | _ => []

namespace Slot

/-- The events that hand `frames` to the invocation's owner. -/
def events (slot : Slot) (invocation : DeliveryId) (frames : List (Nat × Nat × Bytes)) : List SlotEvent :=
  frames.map fun f => .frame f.2.2 (if slot.unary then none else some ⟨invocation, f.1, f.2.1⟩)

/-- The acks to write now: a stream's frames carry theirs to their owner. -/
def acksNow (slot : Slot) (sender : Birth) (frames : List (Nat × Nat × Bytes)) : List DeliveryId :=
  if slot.unary then frames.map fun f => ⟨sender, f.2.1⟩ else []

def record (slot : Slot) (sender : Birth) (back : AckTo) (frames : List (Nat × Nat × Bytes)) : Slot :=
  if slot.unary then slot
  else { slot with
    unrecovered := frames.foldl (fun m f => m.insert f.2.1 (⟨sender, f.2.1⟩, back)) slot.unrecovered }

/-- The frame is put in its invocation's order: it is new, and breaks nothing. -/
def takes (slot : Slot) (f : ResponseFrame) : Bool :=
  match (slot.order.admitFrame f.seq f.deliverySeq f.body).2 with
  | .ok (.deliver _) => true
  | .ok .held => true
  | _ => false

end Slot

namespace Delivery

/-- Has the invocation, which this process does not hold open, completed? -/
def completed (d : Delivery) (id : DeliveryId) : Bool :=
  if id.sender = d.me then id.deliverySeq < d.send.next && id ∉ d.calls
  else if id.sender.nodeId = d.me.nodeId then true
  else match d.doneCarried[id.sender]? with
    | some done => id.deliverySeq ∈ done
    | none => false

/-- The slot written back under its invocation. -/
def putSlot (d : Delivery) (id : DeliveryId) (slot : Slot) : Delivery :=
  { d with calls := d.calls.insert id slot }

/-- A response frame arrived, `back` the way its ack goes: deliver it to its open invocation in order. Answers
what it sends to the invocation's owner, and the acks to write now. -/
def onResponse (d : Delivery) (f : ResponseFrame) (back : AckTo) :
    Delivery × List SlotEvent × ResponseVerdict :=
  let acked := (d.requestAcked f.invocation).1
  match acked.calls[f.invocation]? with
  | none => (acked, [], if acked.completed f.invocation then .ack [f.deliveryId] else .drop)
  | some slot =>
    let admitted := slot.order.admitFrame f.seq f.deliverySeq f.body
    let slot := { slot with order := admitted.1 }
    match admitted.2 with
    | .ok (.deliver frames) =>
      let delivered := acked.putSlot f.invocation (slot.record f.sender back frames)
      (if slot.unary && frames.any (fun frame => frame.1 = 0) then delivered.endCall f.invocation
        else delivered,
        slot.events f.invocation frames, .ack (slot.acksNow f.sender frames))
    | .ok .duplicate => match slot.unrecovered[f.deliverySeq]? with
      | some held =>
        (acked.putSlot f.invocation
          { slot with unrecovered := slot.unrecovered.insert f.deliverySeq (held.1, back) }, [], .held)
      | none => (acked.putSlot f.invocation slot, [], .ack [f.deliveryId])
    | .ok .held => (acked.putSlot f.invocation slot, [], .held)
    | .error v => (acked.putSlot f.invocation slot, [.violation v.text], .violation v.text)

/-- The owed ack `a` was written on `back`: the frame is owed no longer, unless a copy moved its ack
elsewhere meanwhile. -/
def ackWritten (d : Delivery) (a : AckOnRecovery) (back : AckTo) : Delivery :=
  match d.calls[a.invocation]? with
  | none => d
  | some slot =>
    let rest := d.putSlot a.invocation { slot with unrecovered := slot.unrecovered.erase a.deliverySeq }
    match slot.unrecovered[a.deliverySeq]? with
    | some (_, now) => if now = back then rest else d
    | none => rest

/-- The invocation's response broke the framing on a stream: its owner is told. -/
def failCall (d : Delivery) (id : DeliveryId) (why : String) : List SlotEvent :=
  if id ∈ d.calls then [.violation why] else []

end Delivery

def SlotEvent.body : SlotEvent → Option Bytes
  | frame body _ => some body
  | violation _ => none

/-- What an invocation's owner was sent since it was opened, and the frame taken at each position,
in the reorder buffer or handed over. -/
structure Invocation where
  owner : List SlotEvent
  taken : Nat → Option ResponseFrame

namespace Invocation

def opened : Invocation := ⟨[], fun _ => none⟩

/-- The reply bytes the owner was sent, in the order they were sent. -/
def handed (i : Invocation) : List Bytes := i.owner.filterMap SlotEvent.body

def send (i : Invocation) (events : List SlotEvent) : Invocation := { i with owner := i.owner ++ events }

def take (i : Invocation) (f : ResponseFrame) : Invocation :=
  { i with taken := Function.update i.taken f.seq (some f) }

end Invocation

/-- A calling process, the response frames it was given, and each invocation's history. -/
structure Caller where
  delivery : Delivery
  received : List ResponseFrame
  invocations : DeliveryId → Invocation

inductive CallerAct where
  | openCall (id : DeliveryId) (maxReply : Nat) (unary : Bool)
  | onResponse (f : ResponseFrame) (back : AckTo)
  | ackWritten (a : AckOnRecovery) (back : AckTo)
  | failCall (id : DeliveryId) (why : String)
  | onAck (id : DeliveryId)
  | completeCall (id : DeliveryId)

namespace Caller

def start (me : Birth) : Caller := ⟨.new me, [], fun _ => .opened⟩

def takes (c : Caller) (f : ResponseFrame) : Bool :=
  match c.delivery.calls[f.invocation]? with
  | none => false
  | some slot => slot.takes f

def update (c : Caller) (id : DeliveryId) (i : Invocation) : Caller :=
  { c with invocations := Function.update c.invocations id i }

def step (c : Caller) : CallerAct → Caller
  | .openCall id maxReply unary =>
    { c with delivery := c.delivery.openCall id maxReply unary }.update id .opened
  | .onResponse f back =>
    let out := c.delivery.onResponse f back
    let i := (c.invocations f.invocation).send out.2.1
    { c with delivery := out.1, received := c.received ++ [f] }.update f.invocation
      (if c.takes f then i.take f else i)
  | .ackWritten a back => { c with delivery := c.delivery.ackWritten a back }
  | .failCall id why => c.update id ((c.invocations id).send (c.delivery.failCall id why))
  | .onAck id => { c with delivery := c.delivery.onAck id }
  | .completeCall id => { c with delivery := c.delivery.completeCall id }

def run (c : Caller) (acts : List CallerAct) : Caller := acts.foldl step c

/-- A frame received for the invocation, with the identity `a` names, whose bytes its owner was sent. -/
def HandedOver (c : Caller) (invocation a : DeliveryId) : Prop :=
  ∃ g ∈ c.received, g.invocation = invocation ∧ g.deliveryId = a ∧
    (c.invocations invocation).handed[g.seq]? = some g.body

end Caller

end DistributedMesh.NodeRpc
