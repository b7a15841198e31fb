import DistributedMesh.GuardedRuns
import DistributedMesh.KeyedMaps
import Mathlib.Logic.Function.Basic

namespace DistributedMesh.Pooling

open GuardedRuns KeyedMaps

/-- One pooled connection's identity: the caller's scope, the peer's key and its birth, if a record of it is held. -/
structure PoolKey where
  scope : Option String
  peer : String
  incarnation : Option String
  deriving DecidableEq

/-- The node a resolver names. -/
structure ResolvedNode where
  endpointId : String
  incarnation : String
  transportAddr : String

/-- Whether the resolver's answer still names this birth. -/
def PoolKey.isCurrent (k : PoolKey) (node : Option ResolvedNode) : Bool :=
  match k.incarnation with
  | none => true
  | some held => node.any fun n => n.endpointId == k.peer && n.incarnation == held

def PoolKey.birthless (k : PoolKey) : PoolKey := { k with incarnation := none }

/-- A pooled connection, by its stable id. -/
structure Pooled where
  conn : Nat
  addr : String
  reported : Bool

abbrev Conns := AList fun _ : PoolKey => Pooled

/-- How a dial ended. -/
inductive DialError where
  | superseded
  | blocked (place why : String)
  | deadline
  | failed (why : String)

/-- What a dial needs: its address, whether the resolver names its target, and whether the connection is reported. -/
structure DialSpec where
  addr : String
  target : Bool
  hooks : Bool

/-- How far the task of a dial is. -/
inductive DialStage where
  /-- In the select. -/
  | connecting
  | connected (conn : Nat)
  /-- The admission was read, and admits. -/
  | admitted (conn : Nat)
  /-- The resolver was asked, and still names the target. -/
  | current (conn : Nat)
  /-- Its connection is in the pool, its opening not reported. -/
  | pooled (conn : Nat)
  | ending (out : Except DialError Nat)
  /-- It left the dials, its outcome told. -/
  | ended (out : Except DialError Nat)

/-- A dial. -/
structure Dial where
  key : PoolKey
  spec : DialSpec
  cancel : Bool
  stage : DialStage

/-- The connection of a dial that is past its select and not in the pool. -/
def Dial.opens (d : Dial) : Option Nat :=
  match d.stage with
  | .connected c => some c
  | .admitted c => some c
  | .current c => some c
  | _ => none

def Dial.inFlight (d : Dial) : Bool :=
  match d.stage with
  | .ended _ => false
  | _ => true

/-- How far a `get_or_dial` is. -/
inductive CallStage where
  | looking
  /-- It found a live connection whose opening it reports. -/
  | found (conn : Nat)
  | missed
  | admitted
  | waiting (dial : Nat)
  | answered (answer : Except DialError (Nat × Bool))

structure Call where
  key : PoolKey
  spec : DialSpec
  stage : CallStage

/-- The dial a call starts. -/
def Call.dial (c : Call) : Dial := ⟨c.key, c.spec, false, .connecting⟩

/-- It found no connection and has not looked at the dials. -/
def Call.missing (c : Call) : Bool :=
  match c.stage with
  | .missed => true
  | .admitted => true
  | _ => false

/-- A close of the pool: of every peer but some, or of one. -/
inductive CloseCall where
  | allExcept (spare : List String)
  | ofPeer (peer : String)

def CloseCall.covers (c : CloseCall) (k : PoolKey) : Bool :=
  match c with
  | .allExcept spare => !spare.contains k.peer
  | .ofPeer peer => k.peer == peer

inductive CloseStage where
  /-- The dials are cancelled. -/
  | cancelled
  /-- The pooled connections are removed, to be closed. -/
  | emptied (removed : List Nat)
  | returned

/-- A close, with the dials that were in flight to its peers when it was called. -/
structure Close where
  call : CloseCall
  inFlight : List Nat
  stage : CloseStage

/-- The watch on a connection reported open. -/
structure Watch where
  key : PoolKey
  conn : Nat
  fired : Bool

/-- A pool: the connections pooled, the dials in flight by their task, the client's admission block, its dials, calls,
closes, the purges that have not cancelled their dials, the watches; which connections closed and the next stable id; and
the connections reported open and closed. -/
structure Pool where
  conns : Conns
  dials : PoolKey → Option Nat
  blocked : Option String
  tasks : List Dial
  calls : List Call
  closes : List Close
  purging : List ResolvedNode
  watches : List Watch
  closed : Nat → Bool
  next : Nat
  opened : List Nat
  told : List Nat

/-- One key of the purged peer: a birthless connection at the node's address is adopted by the node's birth. -/
def purgeKey (node : ResolvedNode) (closed : Nat → Bool) (conns : Conns) (k : PoolKey) : Conns :=
  match k.incarnation with
  | none =>
    match conns.lookup k with
    | none => conns
    | some p =>
      if p.addr == node.transportAddr && !closed p.conn then
        orInsert (conns.erase k) { k with incarnation := some node.incarnation } p
      else conns.erase k
  | some held => if held = node.incarnation then conns else conns.erase k

def purgeConns (node : ResolvedNode) (closed : Nat → Bool) (conns : Conns) : Conns :=
  (conns.keys.filter fun k => k.peer == node.endpointId).foldl (purgeKey node closed) conns

/-- A dial of the purged peer that the node no longer names. -/
def staleDial (node : ResolvedNode) (d : Dial) : Bool :=
  d.key.peer == node.endpointId &&
    match d.key.incarnation with
    | none => d.spec.addr != node.transportAddr
    | some held => held != node.incarnation

namespace Pool

def new : Pool := ⟨∅, fun _ => none, none, [], [], [], [], [], fun _ => false, 0, [], []⟩

/-- A live connection is pooled under the key. -/
def live (s : Pool) (k : PoolKey) : Bool :=
  match s.conns.lookup k with
  | some p => !s.closed p.conn
  | none => false

/-- The connection is the one pooled under the key. -/
def holds (s : Pool) (k : PoolKey) (c : Nat) : Bool :=
  match s.conns.lookup k with
  | some p => p.conn == c
  | none => false

/-- The dials in flight that pass are cancelled. -/
def cancelDials (s : Pool) (p : Dial → Bool) : List Dial :=
  s.tasks.mapIdx fun i d => { d with cancel := d.cancel || (p d && s.dials d.key == some i) }

/-- The dials in flight to the peers of a close. -/
def dialsOf (s : Pool) (c : CloseCall) : List Nat :=
  (List.range s.tasks.length).filter fun i =>
    match s.tasks[i]? with
    | some d => c.covers d.key && s.dials d.key == some i
    | none => false

def dialGoes (s : Pool) (i : Nat) (d : Dial) (stage : DialStage) : Pool :=
  { s with tasks := s.tasks.set i { d with stage := stage } }

def callGoes (s : Pool) (j : Nat) (c : Call) (stage : CallStage) : Pool :=
  { s with calls := s.calls.set j { c with stage := stage } }

def closeConn (s : Pool) (c : Nat) : Pool := { s with closed := Function.update s.closed c true }

def start (s : Pool) (c : Call) : Pool :=
  { s with dials := Function.update s.dials c.key (some s.tasks.length), tasks := s.tasks ++ [c.dial] }

/-- The opening is reported, and the connection watched. -/
def report (s : Pool) (k : PoolKey) (c : Nat) : Pool :=
  { s with opened := s.opened ++ [c], watches := s.watches ++ [⟨k, c, false⟩] }

def removePooled (s : Pool) (k : PoolKey) (c : Nat) : Conns := if s.holds k c then s.conns.erase k else s.conns

end Pool

/-- What happens next at a pool. -/
inductive Move where
  | calls (key : PoolKey) (spec : DialSpec)
  | looks (j : Nat)
  | reports (j : Nat)
  | asks (j : Nat)
  | dials (j : Nat)
  | hears (j : Nat)
  | expires (j : Nat)
  | connects (i : Nat)
  | fails (i : Nat) (why : String)
  /-- Cancelled, or the resolver moved. -/
  | stops (i : Nat)
  | admits (i : Nat)
  /-- What the resolver answers now. -/
  | checks (i : Nat) (now : Option ResolvedNode)
  | pools (i : Nat)
  | tells (i : Nat)
  | leaves (i : Nat)
  | cuts (c : CloseCall)
  | empties (j : Nat)
  | returns (j : Nat)
  | purges (node : ResolvedNode)
  | cancels (j : Nat)
  | breaks (k : PoolKey) (c : Nat)
  /-- The connection closes: its peer closed it, or it was lost. -/
  | closes (c : Nat)
  | fires (w : Nat)
  | blocks (why : String)
  | lifts

open Pool

/-- A call goes on from the stage it is in. -/
def Pool.onCall (s : Pool) (j : Nat) (next : Call → CallStage → Pool) : Pool :=
  match s.calls[j]? with
  | some c => next c c.stage
  | none => s

def Pool.onDial (s : Pool) (i : Nat) (next : Dial → DialStage → Pool) : Pool :=
  match s.tasks[i]? with
  | some d => next d d.stage
  | none => s

/-- The first hold of a `get_or_dial`. -/
def Pool.look (s : Pool) (j : Nat) (c : Call) : Pool :=
  match s.conns.lookup c.key with
  | some p =>
    if s.closed p.conn then { s with conns := s.conns.erase c.key }.callGoes j c .missed
    else if !p.reported && c.spec.hooks then
      { s with conns := s.conns.insert c.key { p with reported := true } }.callGoes j c (.found p.conn)
    else s.callGoes j c (.answered (.ok (p.conn, true)))
  | none => s.callGoes j c .missed

/-- Its look at the dials: one in flight is joined, or one starts. -/
def Pool.join (s : Pool) (j : Nat) (c : Call) : Pool :=
  match s.dials c.key with
  | some i => s.callGoes j c (.waiting i)
  | none => (s.start c).callGoes j c (.waiting s.tasks.length)

def step (s : Pool) : Move → Pool
  | .calls key spec =>
    { s with calls := s.calls ++ [⟨key, { spec with hooks := spec.hooks && key.incarnation.isSome }, .looking⟩] }
  | .looks j =>
    s.onCall j fun c stage =>
      match stage with
      | .looking => s.look j c
      | _ => s
  | .reports j =>
    s.onCall j fun c stage =>
      match stage with
      | .found conn => (s.report c.key conn).callGoes j c (.answered (.ok (conn, true)))
      | _ => s
  | .asks j =>
    s.onCall j fun c stage =>
      match stage with
      | .missed =>
        match s.blocked with
        | some why => s.callGoes j c (.answered (.error (.blocked "dial" why)))
        | none => s.callGoes j c .admitted
      | _ => s
  | .dials j =>
    s.onCall j fun c stage =>
      match stage with
      | .admitted => s.join j c
      | _ => s
  | .hears j =>
    s.onCall j fun c stage =>
      match stage with
      | .waiting i =>
        s.onDial i fun _ dialStage =>
          match dialStage with
          | .ended out => s.callGoes j c (.answered (out.map fun conn => (conn, false)))
          | _ => s
      | _ => s
  | .expires j =>
    s.onCall j fun c stage =>
      match stage with
      | .waiting _ => s.callGoes j c (.answered (.error .deadline))
      | _ => s
  | .connects i =>
    s.onDial i fun d stage =>
      match stage with
      | .connecting => if d.cancel then s else { s with next := s.next + 1 }.dialGoes i d (.connected s.next)
      | _ => s
  | .fails i why =>
    s.onDial i fun d stage =>
      match stage with
      | .connecting => if d.cancel then s else s.dialGoes i d (.ending (.error (.failed why)))
      | _ => s
  | .stops i =>
    s.onDial i fun d stage =>
      match stage with
      | .connecting => if d.cancel || d.spec.target then s.dialGoes i d (.ending (.error .superseded)) else s
      | _ => s
  | .admits i =>
    s.onDial i fun d stage =>
      match stage with
      | .connected c =>
        match s.blocked with
        | some why => (s.closeConn c).dialGoes i d (.ending (.error (.blocked "pool" why)))
        | none => s.dialGoes i d (.admitted c)
      | _ => s
  | .checks i now =>
    s.onDial i fun d stage =>
      match stage with
      | .admitted c =>
        if d.spec.target && !d.key.isCurrent now then (s.closeConn c).dialGoes i d (.ending (.error .superseded))
        else s.dialGoes i d (.current c)
      | _ => s
  | .pools i =>
    s.onDial i fun d stage =>
      match stage with
      | .current c =>
        { s with conns := s.conns.insert d.key (⟨c, d.spec.addr, d.spec.hooks⟩ : Pooled) }.dialGoes i d (.pooled c)
      | _ => s
  | .tells i =>
    s.onDial i fun d stage =>
      match stage with
      | .pooled c =>
        if d.spec.hooks then (s.report d.key c).dialGoes i d (.ending (.ok c)) else s.dialGoes i d (.ending (.ok c))
      | _ => s
  | .leaves i =>
    s.onDial i fun d stage =>
      match stage with
      | .ending out => { s with dials := Function.update s.dials d.key none }.dialGoes i d (.ended out)
      | _ => s
  | .cuts c => { s with tasks := s.cancelDials fun d => c.covers d.key, closes := s.closes ++ [⟨c, s.dialsOf c, .cancelled⟩] }
  | .empties j =>
    match s.closes[j]? with
    | some ⟨c, inFlight, .cancelled⟩ =>
      { s with
        conns := filterKeys (fun k => !c.covers k) s.conns
        closes := s.closes.set j ⟨c, inFlight, .emptied ((filterKeys c.covers s.conns).entries.map fun e => e.2.conn)⟩ }
    | _ => s
  | .returns j =>
    match s.closes[j]? with
    | some ⟨c, inFlight, .emptied removed⟩ =>
      { s with closed := fun conn => s.closed conn || removed.contains conn, closes := s.closes.set j ⟨c, inFlight, .returned⟩ }
    | _ => s
  | .purges node => { s with conns := purgeConns node s.closed s.conns, purging := s.purging ++ [node] }
  | .cancels j =>
    match s.purging[j]? with
    | some node => { s with tasks := s.cancelDials (staleDial node), purging := s.purging.eraseIdx j }
    | none => s
  | .breaks k c => { s with conns := s.removePooled k c }
  | .closes c => if c < s.next then s.closeConn c else s
  | .fires w =>
    match s.watches[w]? with
    | some ⟨k, c, false⟩ =>
      if s.closed c then
        { s with
          conns := s.removePooled k c
          told := if s.holds k c then s.told ++ [c] else s.told
          watches := s.watches.set w ⟨k, c, true⟩ }
      else s
    | _ => s
  | .blocks why => { s with blocked := some why }
  | .lifts => { s with blocked := none }

/-- What one step does to a pool. -/
inductive Does (s : Pool) : Move → Pool → Prop where
  | nothing (m : Move) : Does s m s
  | called (key : PoolKey) (spec : DialSpec) : Does s (.calls key spec)
      { s with calls := s.calls ++ [⟨key, { spec with hooks := spec.hooks && key.incarnation.isSome }, .looking⟩] }
  | absent {j : Nat} {c : Call} (hj : s.calls[j]? = some c) (hstage : c.stage = .looking) (hnone : s.conns.lookup c.key = none) :
      Does s (.looks j) (s.callGoes j c .missed)
  | lost {j : Nat} {c : Call} {p : Pooled} (hj : s.calls[j]? = some c) (hstage : c.stage = .looking)
      (hp : s.conns.lookup c.key = some p) (hclosed : s.closed p.conn = true) :
      Does s (.looks j) ({ s with conns := s.conns.erase c.key }.callGoes j c .missed)
  | claimed {j : Nat} {c : Call} {p : Pooled} (hj : s.calls[j]? = some c) (hstage : c.stage = .looking)
      (hp : s.conns.lookup c.key = some p) (hlive : s.closed p.conn = false) (hreported : p.reported = false)
      (hhooks : c.spec.hooks = true) : Does s (.looks j)
        ({ s with conns := s.conns.insert c.key { p with reported := true } }.callGoes j c (.found p.conn))
  | reused {j : Nat} {c : Call} {p : Pooled} (hj : s.calls[j]? = some c) (hstage : c.stage = .looking)
      (hp : s.conns.lookup c.key = some p) (hlive : s.closed p.conn = false) :
      Does s (.looks j) (s.callGoes j c (.answered (.ok (p.conn, true))))
  | reported {j : Nat} {c : Call} {conn : Nat} (hj : s.calls[j]? = some c) (hstage : c.stage = .found conn) :
      Does s (.reports j) ((s.report c.key conn).callGoes j c (.answered (.ok (conn, true))))
  | refused {j : Nat} {c : Call} {why : String} (hj : s.calls[j]? = some c) (hstage : c.stage = .missed)
      (hblocked : s.blocked = some why) : Does s (.asks j) (s.callGoes j c (.answered (.error (.blocked "dial" why))))
  | asked {j : Nat} {c : Call} (hj : s.calls[j]? = some c) (hstage : c.stage = .missed) (hblocked : s.blocked = none) :
      Does s (.asks j) (s.callGoes j c .admitted)
  | joined {j : Nat} {c : Call} {i : Nat} (hj : s.calls[j]? = some c) (hstage : c.stage = .admitted)
      (hdials : s.dials c.key = some i) : Does s (.dials j) (s.callGoes j c (.waiting i))
  | started {j : Nat} {c : Call} (hj : s.calls[j]? = some c) (hstage : c.stage = .admitted) (hdials : s.dials c.key = none) :
      Does s (.dials j) ((s.start c).callGoes j c (.waiting s.tasks.length))
  | heard {j : Nat} {c : Call} {i : Nat} (hj : s.calls[j]? = some c) (hstage : c.stage = .waiting i)
      (out : Except DialError Nat) : Does s (.hears j) (s.callGoes j c (.answered (out.map fun conn => (conn, false))))
  | expired {j : Nat} {c : Call} {i : Nat} (hj : s.calls[j]? = some c) (hstage : c.stage = .waiting i) :
      Does s (.expires j) (s.callGoes j c (.answered (.error .deadline)))
  | connected {i : Nat} {d : Dial} (hi : s.tasks[i]? = some d) (hstage : d.stage = .connecting) (hcancel : d.cancel = false) :
      Does s (.connects i) ({ s with next := s.next + 1 }.dialGoes i d (.connected s.next))
  | failed {i : Nat} {d : Dial} {why : String} (hi : s.tasks[i]? = some d) (hstage : d.stage = .connecting) :
      Does s (.fails i why) (s.dialGoes i d (.ending (.error (.failed why))))
  | stopped {i : Nat} {d : Dial} (hi : s.tasks[i]? = some d) (hstage : d.stage = .connecting) :
      Does s (.stops i) (s.dialGoes i d (.ending (.error .superseded)))
  | unadmitted {i : Nat} {d : Dial} {c : Nat} {why : String} (hi : s.tasks[i]? = some d) (hstage : d.stage = .connected c)
      (hblocked : s.blocked = some why) :
      Does s (.admits i) ((s.closeConn c).dialGoes i d (.ending (.error (.blocked "pool" why))))
  | admitted {i : Nat} {d : Dial} {c : Nat} (hi : s.tasks[i]? = some d) (hstage : d.stage = .connected c)
      (hblocked : s.blocked = none) : Does s (.admits i) (s.dialGoes i d (.admitted c))
  | superseded {i : Nat} {d : Dial} {c : Nat} {now : Option ResolvedNode} (hi : s.tasks[i]? = some d)
      (hstage : d.stage = .admitted c) :
      Does s (.checks i now) ((s.closeConn c).dialGoes i d (.ending (.error .superseded)))
  | checked {i : Nat} {d : Dial} {c : Nat} {now : Option ResolvedNode} (hi : s.tasks[i]? = some d)
      (hstage : d.stage = .admitted c) : Does s (.checks i now) (s.dialGoes i d (.current c))
  | pooled {i : Nat} {d : Dial} {c : Nat} (hi : s.tasks[i]? = some d) (hstage : d.stage = .current c) : Does s (.pools i)
      ({ s with conns := s.conns.insert d.key (⟨c, d.spec.addr, d.spec.hooks⟩ : Pooled) }.dialGoes i d (.pooled c))
  | told {i : Nat} {d : Dial} {c : Nat} (hi : s.tasks[i]? = some d) (hstage : d.stage = .pooled c)
      (hhooks : d.spec.hooks = true) : Does s (.tells i) ((s.report d.key c).dialGoes i d (.ending (.ok c)))
  | untold {i : Nat} {d : Dial} {c : Nat} (hi : s.tasks[i]? = some d) (hstage : d.stage = .pooled c) :
      Does s (.tells i) (s.dialGoes i d (.ending (.ok c)))
  | left {i : Nat} {d : Dial} {out : Except DialError Nat} (hi : s.tasks[i]? = some d) (hstage : d.stage = .ending out) :
      Does s (.leaves i) ({ s with dials := Function.update s.dials d.key none }.dialGoes i d (.ended out))
  | cut (c : CloseCall) : Does s (.cuts c)
      { s with tasks := s.cancelDials fun d => c.covers d.key, closes := s.closes ++ [⟨c, s.dialsOf c, .cancelled⟩] }
  | emptied {j : Nat} {c : CloseCall} {inFlight : List Nat} (hj : s.closes[j]? = some ⟨c, inFlight, .cancelled⟩) :
      Does s (.empties j) { s with
        conns := filterKeys (fun k => !c.covers k) s.conns
        closes := s.closes.set j ⟨c, inFlight, .emptied ((filterKeys c.covers s.conns).entries.map fun e => e.2.conn)⟩ }
  | returned {j : Nat} {c : CloseCall} {inFlight removed : List Nat}
      (hj : s.closes[j]? = some ⟨c, inFlight, .emptied removed⟩) : Does s (.returns j) { s with
        closed := fun conn => s.closed conn || removed.contains conn, closes := s.closes.set j ⟨c, inFlight, .returned⟩ }
  | purged (node : ResolvedNode) : Does s (.purges node)
      { s with conns := purgeConns node s.closed s.conns, purging := s.purging ++ [node] }
  | cancelled {j : Nat} {node : ResolvedNode} (hj : s.purging[j]? = some node) : Does s (.cancels j)
      { s with tasks := s.cancelDials (staleDial node), purging := s.purging.eraseIdx j }
  | broken (k : PoolKey) (c : Nat) : Does s (.breaks k c) { s with conns := s.removePooled k c }
  | closed {c : Nat} (hc : c < s.next) : Does s (.closes c) (s.closeConn c)
  | fired {w : Nat} {k : PoolKey} {c : Nat} (hw : s.watches[w]? = some ⟨k, c, false⟩) (hclosed : s.closed c = true) :
      Does s (.fires w) { s with
        conns := s.removePooled k c
        told := if s.holds k c then s.told ++ [c] else s.told
        watches := s.watches.set w ⟨k, c, true⟩ }
  | blocked (why : String) : Does s (.blocks why) { s with blocked := some why }
  | lifted : Does s .lifts { s with blocked := none }

theorem onCall_does {s : Pool} {m : Move} {j : Nat} {next : Call → CallStage → Pool}
    (h : ∀ c, s.calls[j]? = some c → Does s m (next c c.stage)) : Does s m (s.onCall j next) := by
  unfold onCall
  split
  next c hj => exact h c hj
  next => exact .nothing m

theorem onDial_does {s : Pool} {m : Move} {i : Nat} {next : Dial → DialStage → Pool}
    (h : ∀ d, s.tasks[i]? = some d → Does s m (next d d.stage)) : Does s m (s.onDial i next) := by
  unfold onDial
  split
  next d hi => exact h d hi
  next => exact .nothing m

theorem look_does {s : Pool} {j : Nat} {c : Call} (hj : s.calls[j]? = some c) (hstage : c.stage = .looking) :
    Does s (.looks j) (s.look j c) := by
  unfold look
  split
  next p hp =>
    split
    next hclosed => exact .lost hj hstage hp hclosed
    next hlive =>
      have hlive := Bool.eq_false_of_not_eq_true hlive
      split
      next hreport =>
        rw [Bool.and_eq_true, Bool.not_eq_true'] at hreport
        exact .claimed hj hstage hp hlive hreport.1 hreport.2
      next => exact .reused hj hstage hp hlive
  next hnone => exact .absent hj hstage hnone

theorem step_does (s : Pool) (m : Move) : Does s m (step s m) := by
  cases m with
  | calls key spec => exact .called key spec
  | looks j =>
    simp only [step]
    refine onCall_does fun c hj => ?_
    split
    next hstage => exact look_does hj hstage
    next => exact .nothing _
  | reports j =>
    simp only [step]
    refine onCall_does fun c hj => ?_
    split
    next conn hstage => exact .reported hj hstage
    next => exact .nothing _
  | asks j =>
    simp only [step]
    refine onCall_does fun c hj => ?_
    split
    next hstage =>
      split
      next why hblocked => exact .refused hj hstage hblocked
      next hblocked => exact .asked hj hstage hblocked
    next => exact .nothing _
  | dials j =>
    simp only [step]
    refine onCall_does fun c hj => ?_
    split
    next hstage =>
      unfold join
      split
      next i hdials => exact .joined hj hstage hdials
      next hdials => exact .started hj hstage hdials
    next => exact .nothing _
  | hears j =>
    simp only [step]
    refine onCall_does fun c hj => ?_
    split
    next i hstage =>
      refine onDial_does fun d hi => ?_
      split
      next out _ => exact .heard hj hstage out
      next => exact .nothing _
    next => exact .nothing _
  | expires j =>
    simp only [step]
    refine onCall_does fun c hj => ?_
    split
    next i hstage => exact .expired hj hstage
    next => exact .nothing _
  | connects i =>
    simp only [step]
    refine onDial_does fun d hi => ?_
    split
    next hstage =>
      split
      next => exact .nothing _
      next hcancel => exact .connected hi hstage (Bool.eq_false_of_not_eq_true hcancel)
    next => exact .nothing _
  | fails i why =>
    simp only [step]
    refine onDial_does fun d hi => ?_
    split
    next hstage =>
      split
      next => exact .nothing _
      next => exact .failed hi hstage
    next => exact .nothing _
  | stops i =>
    simp only [step]
    refine onDial_does fun d hi => ?_
    split
    next hstage =>
      split
      next => exact .stopped hi hstage
      next => exact .nothing _
    next => exact .nothing _
  | admits i =>
    simp only [step]
    refine onDial_does fun d hi => ?_
    split
    next c hstage =>
      split
      next why hblocked => exact .unadmitted hi hstage hblocked
      next hblocked => exact .admitted hi hstage hblocked
    next => exact .nothing _
  | checks i now =>
    simp only [step]
    refine onDial_does fun d hi => ?_
    split
    next c hstage =>
      split
      next => exact .superseded hi hstage
      next => exact .checked hi hstage
    next => exact .nothing _
  | pools i =>
    simp only [step]
    refine onDial_does fun d hi => ?_
    split
    next c hstage => exact .pooled hi hstage
    next => exact .nothing _
  | tells i =>
    simp only [step]
    refine onDial_does fun d hi => ?_
    split
    next c hstage =>
      split
      next hhooks => exact .told hi hstage hhooks
      next => exact .untold hi hstage
    next => exact .nothing _
  | leaves i =>
    simp only [step]
    refine onDial_does fun d hi => ?_
    split
    next out hstage => exact .left hi hstage
    next => exact .nothing _
  | cuts c => exact .cut c
  | empties j =>
    simp only [step]
    split
    next c inFlight hj => exact .emptied hj
    next => exact .nothing _
  | returns j =>
    simp only [step]
    split
    next c inFlight removed hj => exact .returned hj
    next => exact .nothing _
  | purges node => exact .purged node
  | cancels j =>
    simp only [step]
    split
    next node hj => exact .cancelled hj
    next => exact .nothing _
  | breaks k c => exact .broken k c
  | closes c =>
    simp only [step]
    split
    next hc => exact .closed hc
    next => exact .nothing _
  | fires w =>
    simp only [step]
    split
    next k c hw =>
      split
      next hclosed => exact .fired hw hclosed
      next => exact .nothing _
    next => exact .nothing _
  | blocks why => exact .blocked why
  | lifts => exact .lifted

end DistributedMesh.Pooling
