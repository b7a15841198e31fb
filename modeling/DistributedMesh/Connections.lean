import DistributedMesh.KeyedMaps
import DistributedMesh.LexCode
import Mathlib.Tactic.Ring

namespace DistributedMesh.Connections

open Std (ExtTreeMap)
open LexCode

/-- What the topology view holds of a node a connection fact names. -/
inductive Birth where
  | current (incarnation : String)
  | deleted
  /-- The view does not hold the node: nothing is judged. -/
  | unknown

inductive ConnectionState where
  | connected
  | disconnected
  /-- This source failed to establish the connection. -/
  | failed
  /-- An acceptor dropped an inbound connection when it was offered. -/
  | refused
deriving DecidableEq

def ConnectionState.debug : ConnectionState → String
  | .connected => "Connected"
  | .disconnected => "Disconnected"
  | .failed => "Failed"
  | .refused => "Refused"

inductive ConnectionKind where
  | direct
  /-- A proven path of two hops, through one carrier. -/
  | proxy
deriving DecidableEq

def ConnectionKind.debug : ConnectionKind → String
  | .direct => "Direct"
  | .proxy => "Proxy"

structure ConnectionEnd where
  mesh : String
  type : String
  path : String
  name : String
  nodeId : String
  incarnation : Option String
deriving DecidableEq

/-- What an entry is keyed by. -/
structure ConnectionIndex where
  source : String
  destination : String
  alpn : List UInt8
  kind : ConnectionKind
deriving DecidableEq

/-- One connection fact. -/
structure NodeConnection where
  id : String
  source : ConnectionEnd
  destination : ConnectionEnd
  kind : ConnectionKind
  alpn : List UInt8
  state : ConnectionState
  carrier : Option ConnectionEnd
  reason : Option String
  loggedAtMs : UInt64
deriving DecidableEq

namespace NodeConnection

def index (e : NodeConnection) : ConnectionIndex := ⟨e.source.nodeId, e.destination.nodeId, e.alpn, e.kind⟩

/-- The destination and protocol a node's own entries are held by. -/
def toward (e : NodeConnection) : String × List UInt8 := (e.destination.nodeId, e.alpn)

def isActiveDirect (e : NodeConnection) : Bool := e.kind == .direct && e.state == .connected

/-- The order entries of one key settle in: the doubling saturates, the addition is of machine words. -/
def stamp (e : NodeConnection) : UInt64 :=
  UInt64.ofNat (min (2 * e.loggedAtMs.toNat) (2 ^ 64 - 1)) + if e.state = .connected then 0 else 1

/-- Why an entry's shape is not one the model takes. -/
def shapeRefusal (e : NodeConnection) : Option String :=
  let where_ := "connection " ++ e.source.nodeId ++ "->" ++ e.destination.nodeId ++ " (" ++ e.kind.debug ++ ", " ++
    e.state.debug ++ ")"
  if e.alpn.isEmpty then some (where_ ++ ": an entry must name a non-empty alpn")
  else
    match e.kind, e.state, e.carrier.isSome with
    | .proxy, .failed, _ => some (where_ ++ ": Failed is a Direct state only")
    | .proxy, .refused, _ => some (where_ ++ ": Refused is a Direct state only")
    | .proxy, _, false => some (where_ ++ ": a Proxy entry names its carrier")
    | .direct, _, true => some (where_ ++ ": a Direct entry names no carrier")
    | _, _, _ => none

end NodeConnection

/-- One key's latest stamp, its entry when that is an active Direct fact, and the destination a latest Direct
Failed entry names. -/
structure Cell where
  stamp : UInt64
  active : Option NodeConnection
  failed : Option ConnectionEnd
deriving DecidableEq

def alpnCode : Code (List UInt8) := listCode (natCode.comap UInt8.toNat fun _ _ => UInt8.toNat_inj.mp)

def towardCode : Code (String × List UInt8) := pairCode stringCode alpnCode

def indexCode : Code ConnectionIndex :=
  (pairCode stringCode (pairCode towardCode natCode)).comap
    (fun i => (i.source, (i.destination, i.alpn), if i.kind = .direct then 0 else 1))
    (by rintro ⟨s, d, a, k⟩ ⟨s', d', a', k'⟩; cases k <;> cases k' <;> simp)

instance indexOrdered : Std.TransCmp indexCode.cmp := inferInstance

instance towardOrdered : Std.TransCmp towardCode.cmp := inferInstance

/-- The connections a node holds: active Direct facts of every source, and its own. -/
structure ConnectionsHeld where
  cells : ExtTreeMap ConnectionIndex Cell indexCode.cmp
  complete : Bool
  ownSource : Option String
  ownProxies : ExtTreeMap (String × List UInt8) NodeConnection towardCode.cmp
  /-- This node's latest Direct entry, whatever its state. -/
  ownDirects : ExtTreeMap (String × List UInt8) NodeConnection towardCode.cmp
  topologyView : Option (String → Birth)

/-- Why an entry was not applied. -/
inductive ApplyRefusal where
  | shape (reason : String)
  | stale (held offered : UInt64)
deriving DecidableEq

namespace ConnectionsHeld

def new : ConnectionsHeld := ⟨∅, false, none, ∅, ∅, none⟩

def setOwnSource (h : ConnectionsHeld) (name : String) : ConnectionsHeld :=
  if h.ownSource ≠ some name then { h with ownSource := some name, ownProxies := ∅, ownDirects := ∅ } else h

def setTopologyView (h : ConnectionsHeld) (view : String → Birth) : ConnectionsHeld := { h with topologyView := some view }

def markComplete (h : ConnectionsHeld) : ConnectionsHeld := { h with complete := true }

/-- What a key's cell becomes when an entry of it is taken: a Refused one keeps what the key held. -/
def cellAfter (held : Option Cell) (e : NodeConnection) : Cell :=
  if e.state = .refused then ⟨e.stamp, held.bind Cell.active, held.bind Cell.failed⟩
  else
    ⟨e.stamp, if e.isActiveDirect then some e else none,
      if e.kind = .direct ∧ e.state = .failed then some e.destination else none⟩

/-- The entry becomes the latest of its key when its stamp is newer than the one held. -/
def apply (h : ConnectionsHeld) (e : NodeConnection) : Except ApplyRefusal ConnectionsHeld :=
  match e.shapeRefusal with
  | some reason => .error (.shape reason)
  | none =>
    match h.cells[e.index]?.filter fun held => decide (e.stamp ≤ held.stamp) with
    | some held => .error (.stale held.stamp e.stamp)
    | none =>
      let own := h.ownSource = some e.source.nodeId
      .ok
        { h with
          ownDirects := if e.kind = .direct ∧ e.state ≠ .refused ∧ own then h.ownDirects.insert e.toward e else h.ownDirects
          ownProxies :=
            if e.kind = .proxy ∧ own then
              if e.state = .connected then h.ownProxies.insert e.toward e else h.ownProxies.erase e.toward
            else h.ownProxies
          cells := h.cells.insert e.index (cellAfter h.cells[e.index]? e) }

/-- A refused entry leaves the holder as it is. -/
def applied (h : ConnectionsHeld) (e : NodeConnection) : ConnectionsHeld :=
  match h.apply e with
  | .ok h' => h'
  | .error _ => h

/-- Whether an end names a process the view does not hold now. -/
def endSuperseded (h : ConnectionsHeld) (e : ConnectionEnd) : Option Bool :=
  h.topologyView.bind fun view =>
    match view e.nodeId with
    | .current now => some (e.incarnation.any fun named => named != now)
    | .deleted => some true
    | .unknown => none

def namesSupersededDestination (h : ConnectionsHeld) (e : NodeConnection) : Bool :=
  (h.endSuperseded e.destination).getD false

/-- The own Proxy toward a destination, none when the holder cannot answer. -/
def ownProxyFor (h : ConnectionsHeld) (destination : String) (alpn : List UInt8) : Option (Option NodeConnection) :=
  if !h.complete || h.ownSource.isNone then none else some h.ownProxies[(destination, alpn)]?

/-- By the destination's path and name, then the protocol; a tie falls as the map holds them. -/
def ownActiveProxies (h : ConnectionsHeld) : List NodeConnection :=
  (h.ownProxies.toList.map Prod.snd).mergeSort fun a b =>
    ((pairCode (pairCode stringCode stringCode) alpnCode).cmp ((a.destination.path, a.destination.name), a.alpn)
      ((b.destination.path, b.destination.name), b.alpn)).isLE

def activeDirectFor (h : ConnectionsHeld) (source destination : String) (alpn : List UInt8) :
    Option (Option NodeConnection) :=
  if !h.complete then none else some (h.cells[(⟨source, destination, alpn, .direct⟩ : ConnectionIndex)]?.bind Cell.active)

def latestDirectFailedFor (h : ConnectionsHeld) (source destination : String) (alpn : List UInt8) : Bool :=
  (h.cells[(⟨source, destination, alpn, .direct⟩ : ConnectionIndex)]?.bind Cell.failed).any fun e =>
    h.endSuperseded e != some true

end ConnectionsHeld

/-- How a new invocation reaches its destination. -/
inductive EffectiveRoute where
  | direct (known : Bool)
  | viaPeer (carrier : String) (proxy : NodeConnection)
  | noActiveRoute
deriving DecidableEq

/-- The route, and the own Proxies found invalid on the way. -/
structure RouteResolution where
  route : EffectiveRoute
  delete : List (NodeConnection × String)

def invalidConnectionLost : String := "connection-lost"

def invalidCarrierSuperseded : String := "carrier-incarnation-superseded"

def invalidDestinationSuperseded : String := "destination-incarnation-superseded"

/-- Why a Proxy is not valid now. -/
def proxyInvalid (held : ConnectionsHeld) (proxy : NodeConnection) : Option String :=
  match proxy.carrier with
  | none => some invalidConnectionLost
  | some carrier =>
    if held.endSuperseded proxy.destination = some true then some invalidDestinationSuperseded
    else if held.endSuperseded carrier = some true then some invalidCarrierSuperseded
    else none

/-- The Direct route, when no Proxy is taken. -/
def directRoute (held : ConnectionsHeld) (own destination : String) (alpn : List UInt8) : EffectiveRoute :=
  match held.activeDirectFor own destination alpn with
  | some (some connection) => .direct !held.namesSupersededDestination connection
  | some none => if held.latestDirectFailedFor own destination alpn then .noActiveRoute else .direct false
  | none => .direct false

/-- The Proxy toward the destination, when a carrier is allowed: the route through it, and its deletion. -/
def throughProxy (held : ConnectionsHeld) (destination : String) (alpn : List UInt8) (carriers : List String) :
    Option EffectiveRoute × List (NodeConnection × String) :=
  match held.ownProxyFor destination alpn with
  | some (some proxy) =>
    match proxyInvalid held proxy with
    | some reason => (none, [(proxy, reason)])
    | none =>
      -- A carrier of a type the protocol does not allow is skipped, not deleted.
      ((proxy.carrier.filter fun c => carriers.contains c.type).map fun c => .viaPeer c.nodeId proxy, [])
  | _ => (none, [])

def resolveForCarriers (held : ConnectionsHeld) (own destination : String) (alpn : List UInt8) (proxy : Bool)
    (carriers : List String) : RouteResolution :=
  let via := if proxy && !carriers.isEmpty then throughProxy held destination alpn carriers else (none, [])
  let others := (held.ownActiveProxies.filter fun p => !(p.toward == (destination, alpn))).filterMap fun p =>
    (proxyInvalid held p).map fun reason => (p, reason)
  ⟨via.1.getD (directRoute held own destination alpn), via.2 ++ others⟩

end DistributedMesh.Connections
