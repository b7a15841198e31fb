import DistributedMesh.GuardedRuns
import DistributedMesh.StatusHeld

namespace DistributedMesh.Gossip

/-- A status change: the status and the instant it changed. -/
structure StatusFact where
  status : String
  changedAt : UInt64
deriving DecidableEq

/-- How many times one change is sent. -/
def statusSends : Nat := 5

/-- The spacing of a change's sends, in nanoseconds. -/
def statusEvery : Nat := 1000000000

/-- A mesh's lifecycle state by its order. -/
def meshStateRank (status : String) : Option Nat := ["pending", "ready", "leaving", "dead"].idxOf? status

/-- An unknown word is below every state. -/
def rankBelow : Option Nat → Option Nat → Bool
  | some a, some b => decide (a < b)
  | none, some _ => true
  | _, none => false

/-- A state both words know is followed by a later one. -/
def isForward (held status : String) : Bool :=
  (meshStateRank held).isSome && rankBelow (meshStateRank held) (meshStateRank status)

/-- The bounded reinforcement of one status: a change is sent at once, then once a second, five times in
all. -/
structure StatusReinforcement where
  held : Option StatusFact
  sent : Nat
  nextAt : Option Nat
  /-- The fact held was adopted and not republished. -/
  awaitingChecklist : Bool
deriving DecidableEq

namespace StatusReinforcement

def reset : StatusReinforcement := ⟨none, 0, none, false⟩

/-- The fact held is sent for the first time. -/
def first (fact : StatusFact) (now : Nat) : StatusReinforcement :=
  ⟨some fact, 1, if 1 < statusSends then some (now + statusEvery) else none, false⟩

def observe (r : StatusReinforcement) (status : String) (now : Nat) (nowMs : UInt64) :
    StatusReinforcement × Option StatusFact :=
  if r.held.any fun h => h.status == status then (r, none)
  else (first ⟨status, nowMs⟩ now, some ⟨status, nowMs⟩)

/-- Hold a fact as heard: nothing is sent until it is republished. -/
def adopt (fact : StatusFact) : StatusReinforcement := ⟨some fact, statusSends, none, true⟩

def republish (r : StatusReinforcement) (now : Nat) : StatusReinforcement × Option StatusFact :=
  if r.awaitingChecklist then
    ({ r with awaitingChecklist := false, sent := 1, nextAt := if 1 < statusSends then some (now + statusEvery) else none },
      r.held)
  else (r, none)

/-- The next reinforcing send due at `now`. -/
def due (r : StatusReinforcement) (now : Nat) : StatusReinforcement × Option StatusFact :=
  match r.nextAt with
  | none => (r, none)
  | some instant =>
    if now < instant then (r, none)
    else
      ({ r with sent := r.sent + 1, nextAt := if r.sent + 1 < statusSends then some (instant + statusEvery) else none },
        r.held)

end StatusReinforcement

/-- The author of one status frame, while it holds the role and only then. -/
structure StatusPublisher where
  node : String
  scope : StatusScope
  author : Option (Birth × UInt64)
  /-- The context the fact held was first sent under. -/
  context : Option (StatusFact × Context)
  role : Bool
  schedule : StatusReinforcement

namespace StatusPublisher

def new (node : String) (scope : StatusScope) : StatusPublisher := ⟨node, scope, none, none, false, .reset⟩

/-- Losing the role forgets the status and the sends still to come. -/
def setRole (p : StatusPublisher) (primary : Bool) : StatusPublisher :=
  if p.role && !primary then { p with schedule := .reset, author := none, context := none, role := primary }
  else { p with role := primary }

def setAuthor (p : StatusPublisher) (author : Option (Birth × UInt64)) : StatusPublisher := { p with author := author }

/-- Whether a fact handed over is no word or instant of a mesh's state. -/
def malformed (fact : StatusFact) : Bool :=
  (meshStateRank fact.status).isNone || (fact.changedAt == 0 && fact.status != "pending")

/-- Whether a fact is past the one held: a later state, or a later instant of the same one. -/
def advances (held fact : StatusFact) : Bool :=
  rankBelow (meshStateRank held.status) (meshStateRank fact.status) ||
    (held.status == fact.status && decide (held.changedAt < fact.changedAt))

/-- The fact replaces the one held. -/
def adopts (p : StatusPublisher) (fact : StatusFact) : Bool :=
  !malformed fact && p.schedule.held.all fun held =>
    !(held == fact && p.schedule.awaitingChecklist) && advances held fact

/-- Hand a fact to the publisher as its adopted held fact. -/
def adopt (p : StatusPublisher) (fact : StatusFact) : StatusPublisher × Bool :=
  if p.adopts fact then ({ p with schedule := .adopt fact, context := none }, true)
  else (p, !malformed fact && p.schedule.held.any fun held => held == fact && p.schedule.awaitingChecklist)

/-- The frame of a fact, under the context it was first sent under. -/
def frame (p : StatusPublisher) (fact : StatusFact) (trace : Trace) : StatusPublisher × Carried :=
  let data := p.scope.frame fact.status p.node none fact.changedAt.toNat
  match p.context.filter fun c => c.1 == fact with
  | some c => (p, ⟨some c.2, data⟩)
  | none =>
    match p.author with
    | some (author, revision) =>
      let context := Context.authored data author revision.toNat fact.changedAt.toNat trace
      ({ p with context := some (fact, context) }, ⟨some context, data⟩)
    | none => (p, ⟨none, data⟩)

/-- What is sent of a step's fact, if any. -/
def send (p : StatusPublisher) (out : StatusReinforcement × Option StatusFact) (trace : Trace) :
    StatusPublisher × Option Carried :=
  match out.2 with
  | none => ({ p with schedule := out.1 }, none)
  | some fact =>
    let framed := { p with schedule := out.1 }.frame fact trace
    (framed.1, some framed.2)

/-- A mesh's state as the publisher holds it: what a projection or a completed checklist makes of it. -/
def observeHeld (p : StatusPublisher) (status : String) (checklistComplete : Bool) (now : Nat) (nowMs : UInt64) :
    StatusReinforcement × Option StatusFact :=
  match p.schedule.held with
  | none => (p.schedule, none)
  | some held =>
    if held.changedAt = 0 then
      if held.status = "pending" then StatusReinforcement.reset.observe held.status now nowMs else (.reset, none)
    else
      let forward := isForward held.status status
      -- A forward change is stamped after the state it replaces.
      let stamp := max nowMs (held.changedAt + 1)
      if p.schedule.awaitingChecklist then
        if !checklistComplete then (p.schedule, none)
        else if forward then p.schedule.observe status now stamp
        else p.schedule.republish now
      else if forward then p.schedule.observe status now stamp
      else (p.schedule, none)

/-- What a mesh's publisher hears of its state while it holds none or waits. -/
def hears (p : StatusPublisher) (heard : Option StatusFact) : Option StatusFact :=
  if p.schedule.held.isNone || p.schedule.awaitingChecklist then
    heard.filter fun h => (meshStateRank h.status).isSome
  else none

def observeMesh (p : StatusPublisher) (status : String) (heard : Option StatusFact) (checklistComplete : Bool)
    (now : Nat) (nowMs : UInt64) : StatusPublisher × (StatusReinforcement × Option StatusFact) :=
  match p.hears heard with
  | some h =>
    if h.changedAt = 0 ∧ p.schedule.held.isNone then
      (p, if h.status = "pending" then p.schedule.observe h.status now nowMs else (p.schedule, none))
    else ((p.adopt h).1, (p.adopt h).1.observeHeld status checklistComplete now nowMs)
  | none => (p, p.observeHeld status checklistComplete now nowMs)

/-- A fabric's publisher that holds nothing adopts the status heard when it is the one observed. -/
def hearFabric (p : StatusPublisher) (status : String) (heard : Option StatusFact) : StatusPublisher :=
  match if p.schedule.held.isNone then heard.filter fun h => h.status == status else none with
  | some h => { p with schedule := .adopt h }
  | none => p

def observeFabric (p : StatusPublisher) (status : String) (checklistComplete : Bool) (now : Nat) (nowMs : UInt64) :
    StatusReinforcement × Option StatusFact :=
  if p.schedule.awaitingChecklist && p.schedule.held.any fun h => h.status == status then
    if checklistComplete then p.schedule.republish now else (p.schedule, none)
  else p.schedule.observe status now nowMs

/-- The status as observed: a change is the frame to send at once. -/
def observe (p : StatusPublisher) (status : String) (heard : Option StatusFact) (checklistComplete : Bool) (now : Nat)
    (nowMs : UInt64) (trace : Trace) : StatusPublisher × Option Carried :=
  if !p.role then (p, none)
  else
    match p.scope with
    | .mesh _ =>
      let out := p.observeMesh status heard checklistComplete now nowMs
      out.1.send out.2 trace
    | .fabric _ =>
      let p := p.hearFabric status heard
      p.send (p.observeFabric status checklistComplete now nowMs) trace

def due (p : StatusPublisher) (now : Nat) (trace : Trace) : StatusPublisher × Option Carried :=
  if !p.role then (p, none) else p.send (p.schedule.due now) trace

end StatusPublisher

/-- A call of a publisher; `trace` is the caller's span. -/
inductive PublisherCall where
  | setRole (primary : Bool)
  | setAuthor (author : Option (Birth × UInt64))
  | adopt (fact : StatusFact)
  | observe (status : String) (heard : Option StatusFact) (checklistComplete : Bool) (now : Nat) (nowMs : UInt64)
      (trace : Trace)
  | due (now : Nat) (trace : Trace)

def StatusPublisher.call (p : StatusPublisher) : PublisherCall → StatusPublisher × Option Carried
  | .setRole primary => (p.setRole primary, none)
  | .setAuthor author => (p.setAuthor author, none)
  | .adopt fact => ((p.adopt fact).1, none)
  | .observe status heard checklistComplete now nowMs trace => p.observe status heard checklistComplete now nowMs trace
  | .due now trace => p.due now trace

end DistributedMesh.Gossip
