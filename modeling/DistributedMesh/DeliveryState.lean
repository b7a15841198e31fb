import DistributedMesh.DeliveryWindow
import DistributedMesh.DeliveryOrder
import DistributedMesh.LexCode

namespace DistributedMesh.NodeRpc

open Std (ExtTreeMap ExtTreeSet)
open KeyedMaps LexCode

abbrev PublicKey := String

/-- A sending node's exact birth. -/
structure Birth where
  nodeId : String
  incarnation : String
deriving DecidableEq

/-- One frame's delivery identity: minted by its sender, the same on every resend. -/
structure DeliveryId where
  sender : Birth
  deliverySeq : Nat
deriving DecidableEq

def senderCode : Code Birth :=
  (pairCode stringCode stringCode).comap (fun b => (b.nodeId, b.incarnation)) (by rintro ⟨⟩ ⟨⟩; simp)

def deliveryCode : Code DeliveryId :=
  (pairCode senderCode natCode).comap (fun id => (id.sender, id.deliverySeq)) (by rintro ⟨⟩ ⟨⟩; simp)

/-- The transport header of a request frame. -/
structure RequestHeader where
  sender : Birth
  deliverySeq : Nat
  forgetBelow : Nat
deriving DecidableEq

def RequestHeader.deliveryId (h : RequestHeader) : DeliveryId := ⟨h.sender, h.deliverySeq⟩

/-- What a repeated request is answered with, once its original settles. -/
inductive Settled where
  | accepted
  | ended (code : Nat)
  | dropped
deriving DecidableEq

/-- A request held at its receiver; a pending one counts the repeats that wait for it to settle. -/
inductive Seen where
  | pending (waiters : Nat)
  | accepted
  | ended (code : Nat)
deriving DecidableEq

inductive RequestArrival where
  | new
  | pending
  | accepted
  | ended (code : Nat)
deriving DecidableEq

/-- Where an ack goes: the stream the frame arrived on, or a new stream of its connection. -/
inductive AckTo where
  | stream (out : Nat)
  | newStream (conn : Nat)
deriving DecidableEq

/-- A caller's open invocation; `unrecovered` holds the ack of each frame its owner was handed and
has not recovered, by `delivery_seq`. -/
structure Slot where
  order : ResponseOrder
  maxReply : Nat
  unary : Bool
  acked : Bool
  unrecovered : ExtTreeMap Nat (DeliveryId × AckTo)

inductive Sent where
  | request
  | response (invocation : DeliveryId) (seq : Nat)
deriving DecidableEq

/-- A response whose frames its caller has not acked. -/
structure Owed where
  replyTo : PublicKey
  frames : ExtTreeMap Nat (Nat × Bytes)
  complete : Bool
  pushing : Bool

/-- The response without its acked frame, or nothing once all its frames are acked. -/
def Owed.without (o : Owed) (seq : Nat) : Option Owed :=
  let frames := o.frames.erase seq
  if o.complete && frames.isEmpty then none else some { o with frames }

def Settled.seen : Settled → Seen
  | .accepted => .accepted
  | .ended code => .ended code
  | .dropped => .ended 0

/-- A process's delivery state, shared by its client and its server. -/
structure Delivery where
  me : Birth
  send : SendWindow PublicKey compare
  sent : ExtTreeMap DeliveryId Sent deliveryCode.cmp
  recv : ExtTreeMap Birth (RecvWindow Seen) senderCode.cmp
  calls : ExtTreeMap DeliveryId Slot deliveryCode.cmp
  doneCarried : ExtTreeMap Birth (ExtTreeSet Nat) senderCode.cmp
  owed : ExtTreeMap DeliveryId Owed deliveryCode.cmp

namespace Delivery

def new (me : Birth) : Delivery := ⟨me, SendWindow.new, ∅, ∅, ∅, ∅, ∅⟩

/-- Mint the identity of a frame toward every one of `receivers`. -/
def mint (d : Delivery) (receivers : List PublicKey) : Delivery × DeliveryId :=
  let minted := d.send.mint receivers
  ({ d with send := minted.1 }, ⟨d.me, minted.2⟩)

/-- The `forget_below` a frame toward `receivers` carries: the lowest over them. -/
def lowestUnacked (d : Delivery) (receivers : List PublicKey) : Nat :=
  (receivers.map d.send.lowestUnacked).min?.getD 1

def settleOwn (d : Delivery) (id : DeliveryId) : Delivery :=
  if id.sender = d.me then { d with send := (d.send.settle id.deliverySeq).1 } else d

def openCall (d : Delivery) (id : DeliveryId) (maxReply : Nat) (unary : Bool) : Delivery :=
  { d with
    sent := d.sent.insert id .request
    calls := d.calls.insert id ⟨.new, maxReply, unary, false, ∅⟩ }

/-- The invocation has ended: complete, or cancelled by its owner. -/
def endCall (d : Delivery) (id : DeliveryId) : Delivery :=
  let settled := { d with sent := d.sent.erase id }.settleOwn id
  let done := settled.doneCarried[id.sender]?.getD ∅
  if id ∈ settled.calls then
    { settled with
      calls := settled.calls.erase id
      doneCarried := if id.sender ≠ d.me then
        settled.doneCarried.insert id.sender (done.insert id.deliverySeq) else settled.doneCarried }
  else settled

def completeCall (d : Delivery) (id : DeliveryId) : Delivery := d.endCall id

/-- The request `id` was acked: its retry ends. -/
def requestAcked (d : Delivery) (id : DeliveryId) : Delivery × Bool :=
  match d.sent[id]? with
  | some .request =>
    let settled := { d with sent := d.sent.erase id }.settleOwn id
    ({ settled with calls := match settled.calls[id]? with
        | some slot => settled.calls.insert id { slot with acked := true }
        | none => settled.calls }, true)
  | _ => (d, false)

/-- An `Ack` arrived: settle the request or response frame it names. -/
def onAck (d : Delivery) (id : DeliveryId) : Delivery :=
  match d.requestAcked id with
  | (acked, true) => acked
  | (_, false) =>
    let rest := { d with sent := d.sent.erase id }
    match d.sent[id]? with
    | some (.response invocation seq) =>
      let settled := rest.settleOwn id
      { settled with owed := match settled.owed[invocation]? with
          | some o => match o.without seq with
            | some o => settled.owed.insert invocation o
            | none => settled.owed.erase invocation
          | none => settled.owed }
    | _ => rest

/-- The duplicate window of a sender: an empty one before its first frame. -/
def windowOf (d : Delivery) (sender : Birth) : RecvWindow Seen := d.recv[sender]?.getD .new

/-- A request frame arrived: is it new, or a repeat of one held? -/
def arriveRequest (d : Delivery) (h : RequestHeader) : Delivery × RequestArrival :=
  let arrived := (d.windowOf h.sender).arrive h.deliverySeq h.forgetBelow
  let answer : RecvWindow Seen × RequestArrival := match arrived.2 with
    | .new => (arrived.1.insert h.deliverySeq (.pending 0), .new)
    | .held (.pending waiters) => (arrived.1.insert h.deliverySeq (.pending (waiters + 1)), .pending)
    | .held .accepted | .belowWatermark => (arrived.1, .accepted)
    | .held (.ended code) => (arrived.1, .ended code)
  ({ d with
     recv := d.recv.insert h.sender answer.1
     doneCarried := match d.doneCarried[h.sender]? with
       | some done => d.doneCarried.insert h.sender (done.filter fun seq => answer.1.below ≤ seq)
       | none => d.doneCarried },
   answer.2)

/-- Settle the request's entry. Answers how many waiting repeats it tells. -/
def settleRequest (d : Delivery) (id : DeliveryId) (how : Settled) : Delivery × Nat :=
  match d.recv[id.sender]? with
  | none => (d, 0)
  | some window => match window.held[id.deliverySeq]? with
    | none => (d, 0)
    | some seen =>
      let settled := window.insert id.deliverySeq how.seen
      let window := if how = .dropped then settled.remove id.deliverySeq else settled
      ({ d with recv := d.recv.insert id.sender window },
        match seen with
        | .pending waiters => waiters
        | _ => 0)

/-- The caller's side of `id` is open, and its request is not acked. -/
def OpenUnacked (d : Delivery) (id : DeliveryId) : Prop :=
  ∃ slot, d.calls[id]? = some slot ∧ slot.acked = false

def oweResponse (d : Delivery) (id : DeliveryId) (replyTo : PublicKey) : Delivery :=
  { d with owed := d.owed.insert id { d.owed[id]?.getD ⟨replyTo, ∅, false, false⟩ with replyTo } }

/-- Record the response frame at `seq` as owed; `none` when its response is owed no longer. -/
def oweFrame (d : Delivery) (id : DeliveryId) (seq : Nat) (body : Bytes) (terminal : Bool) :
    Delivery × Option Nat :=
  match d.owed[id]? with
  | none => (d, none)
  | some o =>
    let minted := d.mint [o.replyTo]
    ({ minted.1 with
       sent := d.sent.insert minted.2 (.response id seq)
       owed := d.owed.insert id
         { o with
           frames := o.frames.insert seq (minted.2.deliverySeq, body)
           complete := o.complete || terminal } },
     some (minted.1.send.lowestUnacked o.replyTo))

/-- The invocation ended in a reset: nothing of its response is owed. -/
def dropResponse (d : Delivery) (id : DeliveryId) : Delivery := { d with owed := d.owed.erase id }

/-- The caller of `id` is reachable at `replyTo` now. -/
def answerTo (d : Delivery) (id : DeliveryId) (replyTo : PublicKey) : Delivery :=
  match d.owed[id]? with
  | some o => { d with owed := d.owed.insert id { o with replyTo } }
  | none => d

/-- Resend whatever of the response is still owed. Answers whether a loop of resends starts. -/
def push (d : Delivery) (id : DeliveryId) (replyTo : Option PublicKey) : Delivery × Bool :=
  match d.owed[id]? with
  | none => (d, false)
  | some o =>
    let o := { o with replyTo := replyTo.getD o.replyTo }
    if o.frames.isEmpty then
      if o.complete then ({ d with owed := d.owed.erase id }, false)
      else ({ d with owed := d.owed.insert id o }, false)
    else if o.pushing then ({ d with owed := d.owed.insert id o }, false)
    else ({ d with owed := d.owed.insert id { o with pushing := true } }, true)

/-- How one resend of an owed response begins: what ends its loop, or the frames it writes again. -/
inductive Resend where
  | acked
  | caughtUp
  | frames (replyTo : PublicKey) (frames : List (Nat × Nat × Bytes))

def pushResend (d : Delivery) (id : DeliveryId) : Delivery × Resend :=
  match d.owed[id]? with
  | none => (d, .acked)
  | some o =>
    if o.frames.isEmpty then
      if o.complete then ({ d with owed := d.owed.erase id }, .acked)
      else ({ d with owed := d.owed.insert id { o with pushing := false } }, .caughtUp)
    else (d, .frames o.replyTo (o.frames.toList.map fun f => (f.1, f.2.1, f.2.2)))

/-- What an operation that opens no call leaves of the calls that stay open and unacked. -/
structure Keeps (d e : Delivery) : Prop where
  me : e.me = d.me
  next : d.send.next ≤ e.send.next
  calls : ∀ id, e.OpenUnacked id → d.OpenUnacked id
  sent : ∀ seq, e.OpenUnacked ⟨d.me, seq⟩ → seq < d.send.next →
    d.sent[(⟨d.me, seq⟩ : DeliveryId)]? = some .request →
    e.sent[(⟨d.me, seq⟩ : DeliveryId)]? = some .request
  holds : ∀ seq r, e.OpenUnacked ⟨d.me, seq⟩ →
    d.sent[(⟨d.me, seq⟩ : DeliveryId)]? = some .request → Holds d.send.unacked r seq →
    Holds e.send.unacked r seq

section Keeps

variable {d : Delivery}

/-- A call opened is open and unacked, and the others stay as they are. -/
theorem openUnacked_openCall {id x : DeliveryId} {maxReply : Nat} {unary : Bool} :
    (d.openCall id maxReply unary).OpenUnacked x ↔ x = id ∨ d.OpenUnacked x := by
  unfold OpenUnacked openCall
  dsimp only
  rw [getElem?_insert_eq]
  split
  next hx => simp [hx]
  next hx => simp [Ne.symm hx]

theorem settleOwn_me (d : Delivery) (id : DeliveryId) : (d.settleOwn id).me = d.me := by
  unfold settleOwn
  split <;> rfl

theorem settleOwn_next (d : Delivery) (id : DeliveryId) :
    (d.settleOwn id).send.next = d.send.next := by
  unfold settleOwn
  split <;> rfl

theorem settleOwn_calls (d : Delivery) (id : DeliveryId) : (d.settleOwn id).calls = d.calls := by
  unfold settleOwn
  split <;> rfl

theorem settleOwn_sent (d : Delivery) (id : DeliveryId) : (d.settleOwn id).sent = d.sent := by
  unfold settleOwn
  split <;> rfl

theorem settleOwn_owed (d : Delivery) (id : DeliveryId) : (d.settleOwn id).owed = d.owed := by
  unfold settleOwn
  split <;> rfl

theorem settleOwn_holds {d : Delivery} {id : DeliveryId} {seq : Nat} {r : PublicKey}
    (h : Holds d.send.unacked r seq) (hne : (⟨d.me, seq⟩ : DeliveryId) ≠ id) :
    Holds (d.settleOwn id).send.unacked r seq := by
  unfold settleOwn
  split
  next he =>
    refine (holds_unhold _ _ _ _).mpr ⟨h, fun hseq => hne ?_⟩
    rw [hseq, ← he]
  next => exact h

theorem Keeps.refl (d : Delivery) : Keeps d d :=
  ⟨rfl, Nat.le_refl _, fun _ h => h, fun _ _ _ h => h, fun _ _ _ _ h => h⟩

theorem keeps_mint (d : Delivery) (receivers : List PublicKey) : Keeps d (d.mint receivers).1 where
  me := rfl
  next := Nat.le_succ _
  calls _ h := h
  sent _ _ _ h := h
  holds _ _ _ _ h := (holds_hold _ _ _ _ _).mpr (Or.inl h)

theorem endCall_me (d : Delivery) (id : DeliveryId) : (d.endCall id).me = d.me := by
  unfold endCall
  dsimp only
  split <;> exact settleOwn_me _ _

theorem endCall_calls (d : Delivery) (id : DeliveryId) : (d.endCall id).calls = d.calls.erase id := by
  unfold endCall
  dsimp only
  split
  next => exact congrArg (fun m => m.erase id) (settleOwn_calls _ _)
  next hn =>
    rw [settleOwn_calls] at hn
    refine (settleOwn_calls _ _).trans (ExtTreeMap.ext_getElem? fun x => ?_)
    rw [getElem?_erase_eq]
    split
    next hx => rw [← hx, ExtTreeMap.getElem?_eq_none hn]
    next => rfl

theorem endCall_send (d : Delivery) (id : DeliveryId) :
    (d.endCall id).send = (settleOwn { d with sent := d.sent.erase id } id).send := by
  unfold endCall
  dsimp only
  split <;> rfl

theorem endCall_sent (d : Delivery) (id : DeliveryId) : (d.endCall id).sent = d.sent.erase id := by
  unfold endCall
  dsimp only
  split <;> exact settleOwn_sent _ _

theorem endCall_owed (d : Delivery) (id : DeliveryId) : (d.endCall id).owed = d.owed := by
  unfold endCall
  dsimp only
  split <;> exact settleOwn_owed _ _

theorem keeps_endCall (d : Delivery) (id : DeliveryId) : Keeps d (d.endCall id) := by
  have hne : ∀ x, (d.endCall id).OpenUnacked x → x ≠ id ∧ d.OpenUnacked x := by
    rintro x ⟨slot, hslot, hacked⟩
    rw [endCall_calls, getElem?_erase_eq] at hslot
    split at hslot
    next => simp at hslot
    next hx => exact ⟨fun he => hx he.symm, slot, hslot, hacked⟩
  refine ⟨endCall_me d id, ?_, fun x hx => (hne x hx).2, fun seq hx _ hs => ?_, fun seq r hx _ hh => ?_⟩
  · rw [endCall_send, settleOwn_next]
  · rw [endCall_sent, getElem?_erase_eq, if_neg (hne _ hx).1.symm]
    exact hs
  · rw [endCall_send]
    exact settleOwn_holds hh (hne _ hx).1

theorem keeps_requestAcked {d : Delivery} {id : DeliveryId} (h : d.sent[id]? = some .request) :
    Keeps d (d.requestAcked id).1 ∧ (d.requestAcked id).2 = true := by
  have hacked : d.requestAcked id = ({ settleOwn { d with sent := d.sent.erase id } id with
      calls := match d.calls[id]? with
        | some slot => d.calls.insert id { slot with acked := true }
        | none => d.calls }, true) := by
    simp only [requestAcked, h, settleOwn_calls]
  have hne : ∀ x, (d.requestAcked id).1.OpenUnacked x → x ≠ id ∧ d.OpenUnacked x := by
    rintro x ⟨slot, hslot, hopen⟩
    rw [hacked] at hslot
    dsimp only at hslot
    cases hc : d.calls[id]? with
    | none =>
      rw [hc] at hslot
      refine ⟨fun he => ?_, slot, hslot, hopen⟩
      rw [he, hc] at hslot
      simp at hslot
    | some old =>
      rw [hc] at hslot
      dsimp only at hslot
      rw [getElem?_insert_eq] at hslot
      split at hslot
      next =>
        cases hslot
        simp at hopen
      next hx => exact ⟨fun he => hx he.symm, slot, hslot, hopen⟩
  refine ⟨⟨?_, ?_, fun x hx => (hne x hx).2, fun seq hx _ hs => ?_, fun seq r hx _ hh => ?_⟩, ?_⟩
  · rw [hacked]
    exact settleOwn_me _ _
  · rw [hacked]
    exact Nat.le_of_eq (settleOwn_next { d with sent := d.sent.erase id } id).symm
  · have hx := (hne _ hx).1
    rw [hacked]
    simp only [settleOwn_sent, getElem?_erase_eq, if_neg (Ne.symm hx)]
    exact hs
  · have hx := (hne _ hx).1
    rw [hacked]
    exact settleOwn_holds hh hx
  · rw [hacked]

theorem keeps_onAck (d : Delivery) (id : DeliveryId) : Keeps d (d.onAck id) := by
  cases hs : d.sent[id]? with
  | none =>
    have hack : d.onAck id = { d with sent := d.sent.erase id } := by
      simp only [onAck, requestAcked, hs]
    rw [hack]
    refine ⟨rfl, Nat.le_refl _, fun _ h => h, fun seq _ _ h => ?_, fun _ _ _ _ h => h⟩
    rw [getElem?_erase_eq]
    split
    next he =>
      rw [← he, hs] at h
      simp at h
    next => exact h
  | some sent =>
    cases sent with
    | request =>
      obtain ⟨hkeeps, htrue⟩ := keeps_requestAcked hs
      have hack : d.onAck id = (d.requestAcked id).1 := by
        unfold onAck
        split
        next acked he => rw [he]
        next he =>
          rw [he] at htrue
          simp at htrue
      rw [hack]
      exact hkeeps
    | response invocation seq =>
      have hcalls : (d.onAck id).calls = d.calls := by
        simp only [onAck, requestAcked, hs]
        exact settleOwn_calls _ _
      have hopen : ∀ x, (d.onAck id).OpenUnacked x → d.OpenUnacked x := by
        rintro x ⟨slot, hslot, hopen⟩
        rw [hcalls] at hslot
        exact ⟨slot, hslot, hopen⟩
      have hother : ∀ k, d.sent[(⟨d.me, k⟩ : DeliveryId)]? = some .request →
          (⟨d.me, k⟩ : DeliveryId) ≠ id := by
        rintro k hk rfl
        rw [hs] at hk
        simp at hk
      refine ⟨?_, ?_, hopen, fun k _ _ hk => ?_, fun k r _ hk hh => ?_⟩
      · simp only [onAck, requestAcked, hs]
        exact settleOwn_me _ _
      · simp only [onAck, requestAcked, hs]
        exact Nat.le_of_eq (settleOwn_next { d with sent := d.sent.erase id } id).symm
      · simp only [onAck, requestAcked, hs, settleOwn_sent, getElem?_erase_eq,
          if_neg (Ne.symm (hother k hk))]
        exact hk
      · simp only [onAck, requestAcked, hs]
        exact settleOwn_holds hh (hother k hk)

theorem keeps_oweResponse (d : Delivery) (id : DeliveryId) (replyTo : PublicKey) :
    Keeps d (d.oweResponse id replyTo) :=
  ⟨rfl, Nat.le_refl _, fun _ h => h, fun _ _ _ h => h, fun _ _ _ _ h => h⟩

theorem keeps_oweFrame (d : Delivery) (id : DeliveryId) (seq : Nat) (body : Bytes) (terminal : Bool) :
    Keeps d (d.oweFrame id seq body terminal).1 := by
  unfold oweFrame
  split
  next => exact Keeps.refl d
  next o _ =>
    have hmint := keeps_mint d [o.replyTo]
    refine ⟨rfl, hmint.next, fun _ h => h, fun k _ hk hs => ?_, hmint.holds⟩
    have hne : (d.mint [o.replyTo]).2 ≠ ⟨d.me, k⟩ := by
      intro he
      have hseq : d.send.next = k := congrArg DeliveryId.deliverySeq he
      omega
    dsimp only
    rw [getElem?_insert_eq, if_neg hne]
    exact hs

end Keeps

section Arrivals

/-- What an arrival does to its sender's window: the watermark follows `forget_below`, nothing new
is accepted, and a repeat is answered as accepted only when it is held so or below the watermark. -/
theorem arriveRequest_spec (d : Delivery) (h : RequestHeader) :
    ∃ w, (d.arriveRequest h).1.recv[h.sender]? = some w ∧
      w.below = max (d.windowOf h.sender).below h.forgetBelow ∧
      (∀ k : Nat, w.held[k]? = some .accepted → (d.windowOf h.sender).held[k]? = some .accepted) ∧
      ((d.arriveRequest h).2 = .accepted → h.deliverySeq < w.below ∨
        (d.windowOf h.sender).held[h.deliverySeq]? = some .accepted) := by
  unfold arriveRequest RecvWindow.arrive
  generalize d.windowOf h.sender = w₀
  have hbelow := w₀.forget_below h.forgetBelow
  have hheld : ∀ k : Nat, (w₀.forget h.forgetBelow).held[k]? = some .accepted →
      w₀.held[k]? = some .accepted := fun k => RecvWindow.forget_held
  have hpending : ∀ n k : Nat, ((w₀.forget h.forgetBelow).insert h.deliverySeq (.pending n)).held[k]? =
      some .accepted → w₀.held[k]? = some .accepted := by
    intro n k hk
    rw [RecvWindow.insert, getElem?_insert_eq] at hk
    split at hk
    next => simp at hk
    next => exact hheld k hk
  simp only [getElem?_insert_eq, if_true, Option.some.injEq, exists_eq_left']
  by_cases hlow : h.deliverySeq < (w₀.forget h.forgetBelow).below
  · simp only [if_pos hlow]
    exact ⟨hbelow, hheld, fun _ => Or.inl hlow⟩
  · simp only [if_neg hlow]
    cases hs : (w₀.forget h.forgetBelow).held[h.deliverySeq]? with
    | none => exact ⟨hbelow, hpending 0, by simp⟩
    | some seen =>
      cases seen with
      | pending n => exact ⟨hbelow, hpending (n + 1), by simp⟩
      | accepted => exact ⟨hbelow, hheld, fun _ => Or.inr (hheld _ hs)⟩
      | ended code => exact ⟨hbelow, hheld, by simp⟩

/-- What settling does to a sender's window. -/
theorem settleRequest_spec (d : Delivery) (id : DeliveryId) (how : Settled) (sender : Birth)
    (w : RecvWindow Seen) (h : (d.settleRequest id how).1.recv[sender]? = some w) :
    ∃ w₀, d.recv[sender]? = some w₀ ∧ w.below = w₀.below ∧
      ∀ k : Nat, w.held[k]? = some .accepted → w₀.held[k]? = some .accepted ∨
        (id = ⟨sender, k⟩ ∧ how = .accepted ∧ ∃ seen, w₀.held[k]? = some seen) := by
  unfold settleRequest at h
  cases hw : d.recv[id.sender]? with
  | none =>
    rw [hw] at h
    exact ⟨w, h, rfl, fun k hk => Or.inl hk⟩
  | some w₀ =>
    rw [hw] at h
    dsimp only at h
    cases hs : w₀.held[id.deliverySeq]? with
    | none =>
      rw [hs] at h
      exact ⟨w, h, rfl, fun k hk => Or.inl hk⟩
    | some seen =>
      rw [hs] at h
      dsimp only at h
      rw [getElem?_insert_eq] at h
      by_cases hsender : id.sender = sender
      · subst hsender
        rw [if_pos rfl] at h
        refine ⟨w₀, hw, ?_, fun k hk => ?_⟩
        · rw [← Option.some.inj h]
          split <;> rfl
        · rw [← Option.some.inj h] at hk
          by_cases hdropped : how = .dropped
          · rw [if_pos hdropped, RecvWindow.remove, getElem?_erase_eq, RecvWindow.insert,
              getElem?_insert_eq] at hk
            split at hk
            next => simp at hk
            next => exact Or.inl hk
          · rw [if_neg hdropped, RecvWindow.insert, getElem?_insert_eq] at hk
            split at hk
            next he =>
              subst he
              cases how with
              | accepted => exact Or.inr ⟨rfl, rfl, seen, hs⟩
              | ended code => simp [Settled.seen] at hk
              | dropped => exact absurd rfl hdropped
            next => exact Or.inl hk
      · rw [if_neg hsender] at h
        exact ⟨w, h, rfl, fun k hk => Or.inl hk⟩

end Arrivals

end Delivery

end DistributedMesh.NodeRpc
