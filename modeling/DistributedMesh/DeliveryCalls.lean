import Mathlib.Logic.Function.Basic
import DistributedMesh.DeliveryState
import DistributedMesh.Shards

namespace DistributedMesh.NodeRpc

open Std (ExtTreeMap ExtTreeSet)
open KeyedMaps

/-- Where a node is now. -/
structure ResolvedNode where
  endpointId : PublicKey
  incarnation : String

/-- The task that sends one request and resends it, with the same identity, until it is acked. -/
structure Attempts where
  primary : Bool
  birth : Option String
  id : DeliveryId
  receivers : List PublicKey
  carriedFloor : Option Nat

namespace Attempts

/-- For a call addressed to a primary: the birth the view names for the role now, when it is not
the one the call is sent to. -/
def nextBirth (a : Attempts) (n : ResolvedNode) : Attempts × Option ResolvedNode :=
  if !a.primary then (a, none)
  else if a.birth = some n.incarnation then (a, none)
  else
    ({ a with
       birth := some n.incarnation
       receivers := if n.endpointId ∈ a.receivers then a.receivers
         else a.receivers ++ [n.endpointId] }, some n)

def lowestUnacked (a : Attempts) (d : Delivery) : Nat :=
  let own := min (d.lowestUnacked a.receivers) a.id.deliverySeq
  match a.carriedFloor with
  | some r => r
  | none => own

def header (a : Attempts) (d : Delivery) : RequestHeader :=
  ⟨a.id.sender, a.id.deliverySeq, a.lowestUnacked d⟩

/-- What taking on the next birth does to a call's task. -/
theorem nextBirth_spec (a : Attempts) (n : ResolvedNode) :
    (a.nextBirth n).1.id = a.id ∧ (a.nextBirth n).1.carriedFloor = a.carriedFloor ∧
      (∀ r ∈ a.receivers, r ∈ (a.nextBirth n).1.receivers) ∧
      ∀ r ∈ (a.nextBirth n).1.receivers, r ∈ a.receivers ∨ (r = n.endpointId ∧ a.primary = true ∧
        a.birth ≠ some n.incarnation ∧ n.endpointId ∉ a.receivers) := by
  unfold nextBirth
  split
  next => exact ⟨rfl, rfl, fun r hr => hr, fun r hr => Or.inl hr⟩
  next hp =>
    split
    next => exact ⟨rfl, rfl, fun r hr => hr, fun r hr => Or.inl hr⟩
    next hb =>
      have hp : a.primary = true := by simpa using hp
      by_cases hn : n.endpointId ∈ a.receivers
      · rw [if_pos hn]
        exact ⟨rfl, rfl, fun r hr => hr, fun r hr => Or.inl hr⟩
      · rw [if_neg hn]
        refine ⟨rfl, rfl, fun r hr => List.mem_append_left _ hr, fun r hr => ?_⟩
        rcases List.mem_append.mp hr with hr | hr
        · exact Or.inl hr
        · exact Or.inr ⟨List.mem_singleton.mp hr, hp, hb, hn⟩

end Attempts

/-- A sending birth, the processes its requests reach, and every request frame it has put on the
wire: a frame stays there, to arrive late, again or never. -/
structure Net where
  sender : Delivery
  attempts : ExtTreeMap Nat Attempts
  receivers : PublicKey → Delivery
  wire : List (PublicKey × RequestHeader)

inductive Act where
  | call (receivers : List PublicKey) (primary : Bool) (birth : Option String) (maxReply : Nat)
      (unary : Bool)
  | nextBirth (seq : Nat) (node : ResolvedNode)
  | attempt (seq : Nat) (toward : PublicKey)
  | carry (carrier : PublicKey)
  | oweResponse (id : DeliveryId) (replyTo : PublicKey)
  | oweFrame (id : DeliveryId) (seq : Nat) (body : Bytes) (terminal : Bool)
  | arrive (toward : PublicKey) (h : RequestHeader)
  | settle (r : PublicKey) (id : DeliveryId) (how : Settled)
  | ack (id : DeliveryId)
  | complete (id : DeliveryId)

namespace Net

def start (me : Birth) (births : PublicKey → Birth) : Net where
  sender := .new me
  attempts := ∅
  receivers r := .new (births r)
  wire := []

/-- A call minted for its receivers and opened. -/
def opened (s : Net) (receivers : List PublicKey) (primary : Bool) (birth : Option String)
    (maxReply : Nat) (unary : Bool) : Net :=
  let minted := s.sender.mint receivers
  { s with
    sender := minted.1.openCall minted.2 maxReply unary
    attempts := s.attempts.insert minted.2.deliverySeq ⟨primary, birth, minted.2, receivers, none⟩ }

def put (s : Net) (toward : PublicKey) (h : RequestHeader) : Net :=
  { s with wire := s.wire ++ [(toward, h)] }

def receive (s : Net) (r : PublicKey) (d : Delivery) : Net :=
  { s with receivers := Function.update s.receivers r d }

/-- A carried attempt: its own identity toward the carrier, written once. -/
def carried (s : Net) (carrier : PublicKey) : Net :=
  let minted := s.sender.mint [carrier]
  { s with sender := minted.1 }.put carrier
    ⟨minted.2.sender, minted.2.deliverySeq, minted.1.lowestUnacked [carrier]⟩

def step (s : Net) : Act → Net × Option RequestArrival
  | .call receivers primary birth maxReply unary =>
    (s.opened receivers primary birth maxReply unary, none)
  | .nextBirth seq node => match s.attempts[seq]? with
    | some a => ({ s with attempts := s.attempts.insert seq (a.nextBirth node).1 }, none)
    | none => (s, none)
  | .attempt seq toward => match s.attempts[seq]? with
    | some a => if toward ∈ a.receivers then (s.put toward (a.header s.sender), none) else (s, none)
    | none => (s, none)
  | .carry carrier => (s.carried carrier, none)
  | .oweResponse id replyTo => ({ s with sender := s.sender.oweResponse id replyTo }, none)
  | .oweFrame id seq body terminal =>
    ({ s with sender := (s.sender.oweFrame id seq body terminal).1 }, none)
  | .arrive toward h =>
    if (toward, h) ∈ s.wire then
      let arrived := (s.receivers toward).arriveRequest h
      (s.receive toward arrived.1, some arrived.2)
    else (s, none)
  | .settle r id how => (s.receive r ((s.receivers r).settleRequest id how).1, none)
  | .ack id => ({ s with sender := s.sender.onAck id }, none)
  | .complete id => ({ s with sender := s.sender.completeCall id }, none)

def run (s : Net) (acts : List Act) : Net := Shards.run step s acts

theorem run_concat (s : Net) (acts : List Act) (act : Act) :
    s.run (acts ++ [act]) = ((s.run acts).step act).1 := Shards.run_concat _ _ _ _

def OpenUnacked (s : Net) (seq : Nat) : Prop := s.sender.OpenUnacked ⟨s.sender.me, seq⟩

/-- The call took `r` on after its identity was minted: it is sent there, and the window does not
hold it toward `r`. -/
def TookOn (s : Net) (seq : Nat) (r : PublicKey) : Prop :=
  s.OpenUnacked seq ∧ (∃ a, s.attempts[seq]? = some a ∧ r ∈ a.receivers) ∧
    ¬ Holds s.sender.send.unacked r seq

/-- A frame whose watermark passes none of the calls that took its receiver on, and a birth taken on
before any frame to it passed the call. -/
def StepOk (s : Net) : Act → Prop
  | .nextBirth seq node => s.OpenUnacked seq → ∀ a, s.attempts[seq]? = some a →
    a.primary = true → a.birth ≠ some node.incarnation → node.endpointId ∉ a.receivers →
    ∀ f ∈ s.wire, f.1 = node.endpointId → f.2.forgetBelow ≤ seq
  | .attempt seq toward => ∀ a, s.attempts[seq]? = some a → ∀ k, s.TookOn k toward →
    seq ≤ k ∨ ∃ r ∈ a.receivers, ∃ j ≤ k, Holds s.sender.send.unacked r j
  | .carry carrier => ∀ k, s.TookOn k carrier → ∃ j ≤ k, Holds s.sender.send.unacked carrier j
  | _ => True

/-- The receiver settled the request as accepted while it held it. -/
def SettledAccepted (start : Net) (acts : List Act) (r : PublicKey) (id : DeliveryId) : Prop :=
  ∃ before after w seen, acts = before ++ .settle r id .accepted :: after ∧
    ((start.run before).receivers r).recv[id.sender]? = some w ∧ w.held[id.deliverySeq]? = some seen

end Net

end DistributedMesh.NodeRpc
