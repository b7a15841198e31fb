import DistributedMesh.Connections
import DistributedMesh.GuardedRuns
import DistributedMesh.ViewMembers

namespace DistributedMesh.Resolver

open Std (ExtTreeMap ExtTreeSet)
open KeyedMaps LexCode

/-- Where a node is now: its identity, its endpoint and its current birth. -/
structure ResolvedNode where
  mesh : String
  type : String
  nodeId : String
  path : String
  name : String
  endpointId : String
  transportAddr : String
  incarnation : String
deriving DecidableEq

def ResolvedNode.location (n : ResolvedNode) : PathName := (n.path, n.name)

/-- The exact node a call is for. -/
inductive NodeTarget where
  | currentPath (path : PathName)
  | exactNode (nodeId : String)
  | endpoint (endpointId addr : String)
  /-- The mesh-primary of a mesh, or the fabric-primary when none is named. -/
  | primary (mesh : Option String)
deriving DecidableEq

inductive ResolveFailure where
  | unknown
  | gone
  | unavailable
deriving DecidableEq

inductive Refusal where
  | deleted (nodeId : String)
  | staleIncarnation (nodeId incarnation : String)
  | unknownLineage (nodeId held offered : String)
  | transportChanged (nodeId : String)
deriving DecidableEq

/-- What applying one fact did. -/
inductive Applied where
  | joined
  | restarted (old : String)
  | updated
  | unchanged
  | refused (why : Refusal)
  | deleted
deriving DecidableEq

/-- Whether a fact was taken: the answers may have changed. -/
def Applied.moves : Applied → Bool
  | .refused _ | .unchanged => false
  | _ => true

def roleCode : Code (Option String) := optionCode stringCode

instance roleOrdered : Std.TransCmp roleCode.cmp := inferInstance

abbrev Births := ExtTreeSet (String × String) pathNameCode.cmp

/-- What the resolver holds. -/
structure Live where
  nodes : ExtTreeMap String ResolvedNode
  byPath : ExtTreeMap PathName String pathNameCode.cmp
  superseded : ExtTreeMap String (ExtTreeSet String)
  deleted : ExtTreeMap String Nat
  /-- Births known to have exited: the node resolves nothing until a successor is applied. -/
  exited : Births
  /-- Births stopped by a published stop: they hold no path and stay reachable by their node id. -/
  stopped : Births
  primaries : ExtTreeMap (Option String) String roleCode.cmp

namespace Live

def empty : Live := ⟨∅, ∅, ∅, ∅, ∅, ∅, ∅⟩

def isStopped (l : Live) (n : ResolvedNode) : Bool := l.stopped.contains (n.nodeId, n.incarnation)

def isExited (l : Live) (n : ResolvedNode) : Bool := l.exited.contains (n.nodeId, n.incarnation)

def isSuperseded (l : Live) (id incarnation : String) : Bool :=
  (l.superseded[id]?).any fun incarnations => incarnations.contains incarnation

/-- A live node at a path is one that is held there and not stopped. -/
def atPath (l : Live) (path : PathName) (n : ResolvedNode) : Bool := n.location = path && !l.isStopped n

def expire (l : Live) (retention now : Nat) : Live :=
  { l with deleted := l.deleted.filter fun _ since => now - since < retention }

/-- The path's holder after another left it. -/
def rehold (l : Live) (path : PathName) : Live :=
  { l with
    byPath :=
      if ((l.byPath[path]?).bind fun id => l.nodes[id]?).any (l.atPath path) then l.byPath
      else
        -- the nodes stand in the order of their ids, so the first of them has the least
        match (values l.nodes).find? (l.atPath path) with
        | some n => (l.byPath.erase path).insert path n.nodeId
        | none => l.byPath.erase path }

def supersede (l : Live) (id incarnation : String) : Live :=
  { l with superseded := l.superseded.insert id (((l.superseded[id]?).getD ∅).insert incarnation) }

def unstop (l : Live) (id : String) : Live := { l with stopped := l.stopped.filter fun b => b.1 ≠ id }

def someStopped (l : Live) (id : String) : Bool := l.stopped.toList.any fun b => b.1 = id

/-- How a birth stands to the one held. -/
def judge (l : Live) (birth : ResolvedNode) (supersedes : Option String) : Applied :=
  match l.nodes[birth.nodeId]? with
  | none => .joined
  | some held =>
    if held.endpointId ≠ birth.endpointId then .refused (.transportChanged birth.nodeId)
    else if held.incarnation = birth.incarnation then
      if held.transportAddr = birth.transportAddr ∧ held.location = birth.location ∧ l.someStopped birth.nodeId = false
      then .unchanged else .updated
    else if supersedes = some held.incarnation then .restarted held.incarnation
    else .refused (.unknownLineage birth.nodeId held.incarnation birth.incarnation)

/-- The old birth of a restart never returns. -/
def endOld (l : Live) (id : String) : Applied → Live
  | .restarted old => { l.supersede id old with exited := l.exited.erase (id, old) }
  | _ => l

/-- The birth at its path, and whoever holds the path then. -/
def seat (l : Live) (birth : ResolvedNode) : Live :=
  { l with
    nodes := l.nodes.insert birth.nodeId birth
    byPath := l.byPath.insertIfNew birth.location birth.nodeId }.rehold birth.location

def take (l : Live) (birth : ResolvedNode) (applied : Applied) : Live :=
  let l := (l.unstop birth.nodeId).endOld birth.nodeId applied
  -- a birth that took another name gives up the one it held
  match ((l.nodes[birth.nodeId]?).map ResolvedNode.location).filter (· ≠ birth.location) with
  | some old => (l.seat birth).rehold old
  | none => l.seat birth

def apply (l : Live) (retention now : Nat) (birth : ResolvedNode) (supersedes : Option String) : Live × Applied :=
  let l := l.expire retention now
  if birth.nodeId ∈ l.deleted then (l, .refused (.deleted birth.nodeId))
  else if l.isSuperseded birth.nodeId birth.incarnation then
    (l, .refused (.staleIncarnation birth.nodeId birth.incarnation))
  else
    match l.judge birth supersedes with
    | .refused why => (l, .refused why)
    | .unchanged => (l, .unchanged)
    | applied => (l.take birth applied, applied)

/-- The node leaves a path it held. -/
def vacate (l : Live) (id : String) (path : PathName) : Live :=
  { l with byPath := if l.byPath[path]? = some id then l.byPath.erase path else l.byPath }.rehold path

def depart (l : Live) (retention now : Nat) (id incarnation : String) (path : PathName) : Live × Applied :=
  let l := l.expire retention now
  if id ∈ l.deleted then (l, .unchanged)
  else
    let gone := ({ l with deleted := l.deleted.insert id now }.unstop id).supersede id incarnation
    let left := { gone with nodes := gone.nodes.erase id }
    match gone.nodes[id]? with
    | some held => ((left.vacate id held.location).vacate id path, .deleted)
    | none => (left.vacate id path, .deleted)

def stop (l : Live) (id incarnation : String) : Live × Bool :=
  match (l.nodes[id]?).filter fun n => n.incarnation = incarnation with
  | none => (l, false)
  | some n =>
    if (id, incarnation) ∈ l.stopped then (l, false)
    else ({ l with stopped := l.stopped.insert (id, incarnation) }.vacate id n.location, true)

def setPrimary (l : Live) (mesh : Option String) : Option String → Live × Bool
  | some id => ({ l with primaries := l.primaries.insert mesh id }, l.primaries[mesh]? ≠ some id)
  | none => ({ l with primaries := l.primaries.erase mesh }, l.primaries.contains mesh)

def current (l : Live) (n : ResolvedNode) : Except ResolveFailure ResolvedNode :=
  if l.isExited n then .error .unavailable else .ok n

def resolveAt (l : Live) (retention : Nat) (target : NodeTarget) (now : Nat) : Except ResolveFailure ResolvedNode :=
  match target with
  | .exactNode id =>
    match l.nodes[id]? with
    | some n => l.current n
    | none =>
      match l.deleted[id]? with
      | some since => .error (if now - since < retention then .gone else .unknown)
      | none => .error .unknown
  | .currentPath path =>
    match (l.byPath[path]?).bind fun id => l.nodes[id]? with
    | some n => l.current n
    | none => .error .unknown
  | .primary mesh =>
    match (l.primaries[mesh]?).bind fun id => l.nodes[id]? with
    | some n => l.current n
    | none => .error .unknown
  | .endpoint _ _ => .error .unknown

/-- The birth of a node that a connection fact may be judged against. -/
def birth (l : Live) (retention now : Nat) (id : String) : Connections.Birth :=
  match l.resolveAt retention (.exactNode id) now with
  | .ok n => .current n.incarnation
  | .error .gone => .deleted
  | .error _ => .unknown

/-- The node held for an id, where it is live at the path. -/
def occupant (l : Live) (path : PathName) (id : String) : Option ResolvedNode := (l.nodes[id]?).filter (l.atPath path)

/-- A path's holder is live at it, and a path without one has no live node. -/
structure HeldRight (l : Live) (path : PathName) : Prop where
  holder : ∀ id, l.byPath[path]? = some id → (l.occupant path id).isSome
  vacant : l.byPath[path]? = none → ∀ id, l.occupant path id = none

variable {l m : Live} {path : PathName} {id incarnation : String}

theorem atPath_iff (n : ResolvedNode) : l.atPath path n = true ↔ n.location = path ∧ l.isStopped n = false := by
  simp [atPath]

theorem occupant_eq_some {n : ResolvedNode} :
    l.occupant path id = some n ↔ l.nodes[id]? = some n ∧ n.location = path ∧ l.isStopped n = false := by
  rw [occupant, Option.filter_eq_some_iff, atPath_iff]

theorem HeldRight.of_agree (h : l.HeldRight path) (hpath : m.byPath[path]? = l.byPath[path]?)
    (hocc : ∀ id, m.occupant path id = l.occupant path id) : m.HeldRight path := by
  refine ⟨fun id hid => ?_, fun hnone id => ?_⟩
  · rw [hocc]
    exact h.holder id (hpath ▸ hid)
  · rw [hocc]
    exact h.vacant (hpath ▸ hnone) id

theorem any_holder (h : ((l.byPath[path]?).bind fun id => l.nodes[id]?).any (l.atPath path) = true) :
    ∃ id, l.byPath[path]? = some id ∧ (l.occupant path id).isSome := by
  obtain ⟨n, hn, hat⟩ := (Option.any_eq_true _ _).mp h
  obtain ⟨id, hid, hnode⟩ := Option.bind_eq_some_iff.mp hn
  refine ⟨id, hid, ?_⟩
  rw [occupant, hnode, Option.filter_some, if_pos hat]
  rfl

theorem not_any_holder (h : ¬((l.byPath[path]?).bind fun id => l.nodes[id]?).any (l.atPath path) = true)
    (hid : l.byPath[path]? = some id) : l.occupant path id = none := by
  cases hocc : l.occupant path id with
  | none => rfl
  | some n =>
    obtain ⟨hnode, hat⟩ := Option.filter_eq_some_iff.mp hocc
    exact absurd (by simp [hid, hnode, hat]) h

/-- A holder that is live at its path keeps it. -/
theorem rehold_holder (hid : l.byPath[path]? = some id) (hocc : (l.occupant path id).isSome) :
    (l.rehold path).byPath = l.byPath := by
  have hany : ((l.byPath[path]?).bind fun id => l.nodes[id]?).any (l.atPath path) = true := by
    by_contra hno
    rw [not_any_holder hno hid] at hocc
    cases hocc
  simp only [rehold, if_pos hany]

theorem rehold_other {q : PathName} (hq : q ≠ path) : (l.rehold path).byPath[q]? = l.byPath[q]? := by
  simp only [rehold]
  split
  next => rfl
  next =>
    split
    next => rw [getElem?_insert_eq, if_neg hq.symm, getElem?_erase_eq, if_neg hq.symm]
    next => rw [getElem?_erase_eq, if_neg hq.symm]

/-- Whoever is live at the path after another left holds it. -/
theorem rehold_right (hkeyed : Keyed ResolvedNode.nodeId l.nodes) : (l.rehold path).HeldRight path := by
  by_cases hany : ((l.byPath[path]?).bind fun id => l.nodes[id]?).any (l.atPath path) = true
  · obtain ⟨id, hid, hocc⟩ := any_holder hany
    have hsame := rehold_holder hid hocc
    refine ⟨fun id' hid' => ?_, fun hnone => ?_⟩
    · rw [hsame, hid] at hid'
      cases hid'
      exact hocc
    · rw [hsame, hid] at hnone
      cases hnone
  · cases hfind : (values l.nodes).find? (l.atPath path) with
    | some n =>
      have hpath : (l.rehold path).byPath[path]? = some n.nodeId := by
        simp only [rehold, if_neg hany, hfind]
        rw [getElem?_insert_eq, if_pos rfl]
      refine ⟨fun id hid => ?_, fun hnone => ?_⟩
      · rw [hpath] at hid
        cases hid
        have hnode := (hkeyed.mem_values n).mp (List.mem_of_find?_eq_some hfind)
        change (l.occupant path n.nodeId).isSome
        rw [occupant, hnode, Option.filter_some, if_pos (List.find?_some hfind)]
        rfl
      · rw [hpath] at hnone
        cases hnone
    | none =>
      refine ⟨fun id hid => ?_, fun _ id => ?_⟩
      · simp only [rehold, if_neg hany, hfind] at hid
        rw [getElem?_erase_eq, if_pos rfl] at hid
        cases hid
      · change l.occupant path id = none
        rw [occupant, Option.filter_eq_none_iff]
        intro n hn
        rw [List.find?_eq_none] at hfind
        exact hfind n ((mem_values_iff l.nodes n).mpr ⟨id, hn⟩)

/-- Reholding a path leaves every other path as it was held. -/
theorem HeldRight.rehold {q : PathName} (hkeyed : Keyed ResolvedNode.nodeId l.nodes)
    (h : q ≠ path → l.HeldRight q) : (l.rehold path).HeldRight q := by
  by_cases hq : q = path
  · subst hq
    exact rehold_right hkeyed
  · exact (h hq).of_agree (rehold_other hq) fun _ => rfl

theorem HeldRight.vacate {q : PathName} (hkeyed : Keyed ResolvedNode.nodeId l.nodes)
    (h : q ≠ path → l.HeldRight q) : (l.vacate id path).HeldRight q := by
  refine HeldRight.rehold hkeyed fun hq => (h hq).of_agree ?_ fun _ => rfl
  change (if l.byPath[path]? = some id then l.byPath.erase path else l.byPath)[q]? = l.byPath[q]?
  split
  next => rw [getElem?_erase_eq, if_neg hq.symm]
  next => rfl

/-- A holder that is live at its path keeps it as another node leaves a path. -/
theorem vacate_holder {other : String} {q : PathName} (hid : l.byPath[path]? = some id)
    (hocc : (l.occupant path id).isSome) (hne : other ≠ id) : (l.vacate other q).byPath[path]? = some id := by
  have herased : (if l.byPath[q]? = some other then l.byPath.erase q else l.byPath)[path]? = some id := by
    split
    next hheld =>
      have hq : q ≠ path := by
        rintro rfl
        rw [hid] at hheld
        exact hne (Option.some.inj hheld).symm
      rw [getElem?_erase_eq, if_neg hq, hid]
    next => exact hid
  by_cases hq : path = q
  · subst hq
    have hkept := rehold_holder (l := { l with byPath := if l.byPath[path]? = some other then l.byPath.erase path else l.byPath })
      herased hocc
    rw [Live.vacate, hkept]
    exact herased
  · rw [Live.vacate, rehold_other hq]
    exact herased

theorem isSuperseded_supersede {i j : String} : (l.supersede id incarnation).isSuperseded i j = true ↔
    i = id ∧ j = incarnation ∨ l.isSuperseded i j = true := by
  simp only [isSuperseded, supersede, getElem?_insert_eq]
  by_cases hi : id = i
  · subst hi
    rw [if_pos rfl, Option.any_some, ExtTreeSet.contains_iff_mem, mem_insert_set]
    cases hset : l.superseded[id]? with
    | none => simp
    | some incarnations => simp
  · rw [if_neg hi]
    simp [Ne.symm hi]

theorem mem_unstop {i j : String} : (i, j) ∈ (l.unstop id).stopped ↔ (i, j) ∈ l.stopped ∧ i ≠ id := by
  rw [unstop, ExtTreeSet.mem_filter]
  have hget : ∀ hmem : (i, j) ∈ l.stopped, l.stopped.get (i, j) hmem = (i, j) :=
    fun hmem => Std.LawfulEqCmp.compare_eq_iff_eq.mp (ExtTreeSet.compare_get_self hmem)
  constructor
  · rintro ⟨hmem, hne⟩
    rw [hget] at hne
    exact ⟨hmem, by simpa using hne⟩
  · rintro ⟨hmem, hne⟩
    refine ⟨hmem, ?_⟩
    rw [hget]
    simpa using hne

theorem isStopped_unstop {n : ResolvedNode} : (l.unstop id).isStopped n = (l.isStopped n && decide (n.nodeId ≠ id)) := by
  rw [Bool.eq_iff_iff]
  simp only [isStopped, ExtTreeSet.contains_iff_mem, mem_unstop, Bool.and_eq_true, decide_eq_true_eq]

end Live

end DistributedMesh.Resolver
