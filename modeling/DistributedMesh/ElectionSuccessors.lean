import DistributedMesh.BuildTopology
import DistributedMesh.ElectionMarks

namespace DistributedMesh.Election

open Std (ExtTreeMap)
open KeyedMaps

/-- A node of the view as an election takes it, its marks cleared. -/
def asCandidate (n : Build.Node) : Node := ⟨n.type, n.mesh, n.nodeId, n.incarnationId, n.status, false, false⟩

/-- The nodes with the marks the election gives them. -/
def resolved (nodes : List Build.Node) (inc : Incumbency) : List Build.Node :=
  nodes.zipWith (fun n e => { n with isPrimary := e.isPrimary, isFabricPrimary := e.isFabricPrimary })
    (resolveWith (nodes.map asCandidate) inc)

/-- The lowest Ready node of a kind that is not known gone. -/
def lowestOf (nodes : List Build.Node) (inc : Incumbency) (kind : Build.Node → Bool) : Option Build.Node :=
  (lowestReady (nodes.map asCandidate) inc ((nodes.zipIdx.filter fun n => kind n.1).map Prod.snd)).bind fun i : Nat => nodes[i]?

/-- The records with the fabric's vacated. -/
def Incumbency.vacated (inc : Incumbency) : Incumbency := { inc with fabric := none }

def outside (nodes : List Build.Node) (mesh : String) : List Build.Node := nodes.filter fun n => n.mesh != mesh

/-- The fabric's primary once a mesh is left out. -/
def fabricSuccessorExcluding (nodes : List Build.Node) (inc : Incumbency) (mesh : String) : Option Build.Node :=
  (resolved (outside nodes mesh) inc.vacated).find? Build.Node.isFabricPrimary

/-- An exact birth: its mesh, node and incarnation. -/
structure HandoverBirth where
  mesh : String
  nodeId : String
  incarnation : String
deriving DecidableEq

/-- The fabric's primary after one is lost: of its own mesh while it has another, else of another mesh. -/
def fabricSuccessorAfter (nodes : List Build.Node) (inc : Incumbency) (lost : HandoverBirth) : Option Build.Node :=
  match lowestOf nodes inc fun n => n.mesh == lost.mesh && isNodeAdmin n.type && n.nodeId != lost.nodeId with
  | some n => some n
  | none => fabricSuccessorExcluding nodes inc lost.mesh

/-- Why a named successor is refused. -/
inductive NamedRefusal where
  /-- The primary's view holds it under a status, or of a type, that takes no role. -/
  | held (named : Build.PathName) (primary : String) (status : NodeStatus)
  | unknown (named : Build.PathName) (primary : String)
deriving DecidableEq

/-- The nodes a named successor is looked for among: those outside the primary's mesh, unless the name is in it. -/
def namedAmong (nodes : List Build.Node) (primary : Build.Node) (named : Build.PathName) : List Build.Node :=
  let namedMesh := (nodes.find? fun n => n.location = named).map Build.Node.mesh
  nodes.filter fun n => namedMesh == some primary.mesh || n.mesh != primary.mesh

/-- The successor the fabric's primary names. -/
def namedFabricSuccessor (nodes : List Build.Node) (inc : Incumbency) (primary : Build.Node) (named : Build.PathName) :
    Except NamedRefusal Build.Node :=
  match (resolved (namedAmong nodes primary named) inc.vacated).find? fun n => n.location = named with
  | some n => if isNodeAdmin n.type && n.status == .ready then .ok n else .error (.held named primary.nodeId n.status)
  | none => .error (.unknown named primary.nodeId)

/-- The lowest Ready node of the primary's type in its mesh, but itself. -/
def nodeTypeSuccessor (nodes : List Build.Node) (inc : Incumbency) (primary : Build.Node) : Option Build.Node :=
  lowestOf nodes inc fun n => n.mesh == primary.mesh && n.type == primary.type && n.nodeId != primary.nodeId

/-- The roles a commanded transfer moves. -/
inductive Moving where
  | meshRole
  | bothRoles
  | fabricRoleOutside
deriving DecidableEq

def noSecondary (type mesh : String) : String :=
  "cannot transfer: no secondary of type " ++ type ++ " in mesh " ++ mesh

def noFabricSuccessor (mesh : String) : String :=
  "cannot transfer fabric-primary: no other node-admin Ready in mesh " ++ mesh ++ ", no other mesh-primary Ready"

/-- The successor of a commanded transfer of the primary's roles. -/
def commandedSuccessor (nodes : List Build.Node) (inc : Incumbency) (primary : Build.Node) : Moving → Except String Build.Node
  | .meshRole =>
    match nodeTypeSuccessor nodes inc { primary with type := "node-admin" } with
    | some n => .ok n
    | none => .error (noSecondary "node-admin" primary.mesh)
  | .bothRoles =>
    match nodeTypeSuccessor nodes inc { primary with type := "node-admin" } with
    | some n => .ok n
    | none =>
      if (fabricSuccessorExcluding nodes inc primary.mesh).isNone then .error (noFabricSuccessor primary.mesh)
      else .error (noSecondary "node-admin" primary.mesh)
  | .fabricRoleOutside =>
    match fabricSuccessorExcluding nodes inc primary.mesh with
    | some n => .ok n
    | none => .error (noFabricSuccessor primary.mesh)

/-- The mesh is deleted, or leaving. -/
def goneMesh (t : Build.Topology) (mesh : String) : Bool :=
  t.meshes.any fun m => m.name == mesh && (m.status == .dead || m.status == .leaving)

def candidatesIn (t : Build.Topology) (primary : Build.Node) : List Build.Node :=
  t.nodes.filter fun n => n.mesh == primary.mesh || !goneMesh t n.mesh

/-- The successor of a commanded transfer over a view: the members of another mesh while it stays. -/
def commandedSuccessorIn (t : Build.Topology) (inc : Incumbency) (primary : Build.Node) (moving : Moving) :
    Except String Build.Node :=
  commandedSuccessor (candidatesIn t primary) inc primary moving

section Places

variable {nodes : List Node} {inc : Incumbency} {i : Nat}

/-- The elected place of a role is of a node of the role. -/
theorem winner_some {role : String × String} {members : List Nat}
    (hmembers : ∀ j, j ∈ members ↔ ∃ n, nodes[j]? = some n ∧ n.nodeType = role)
    (hwinner : winner nodes inc role members = some i) : ∃ n, nodes[i]? = some n ∧ n.nodeType = role := by
  have hlowest : lowestReady nodes inc members = some i → ∃ n, nodes[i]? = some n ∧ n.nodeType = role := by
    intro hlowest
    refine (hmembers i).mp (lowestReady_some (fun j hj => ?_) hlowest).1
    obtain ⟨b, hb, _⟩ := (hmembers j).mp hj
    exact ⟨b, hb⟩
  unfold winner at hwinner
  split at hwinner
  next => cases hwinner
  next =>
    cases hrecord : inc.record role with
    | none =>
      rw [hrecord] at hwinner
      exact hlowest hwinner
    | some h =>
      rw [hrecord] at hwinner
      dsimp only at hwinner
      cases hholding : holding nodes inc h with
      | unseen =>
        rw [hholding] at hwinner
        cases hwinner
      | yielded =>
        rw [hholding] at hwinner
        exact hlowest hwinner
      | living j =>
        rw [hholding] at hwinner
        dsimp only at hwinner
        cases hn : nodes[j]? with
        | none =>
          rw [hn] at hwinner
          cases hwinner
        | some n =>
          rw [hn] at hwinner
          dsimp only at hwinner
          split at hwinner
          next htype =>
            split at hwinner
            next hmesh =>
              cases hwinner
              exact ⟨n, hn, Prod.ext hmesh htype⟩
            next => cases hwinner
          next => exact hlowest hwinner

theorem mem_winners_lookup {role : String × String} :
    (role, i) ∈ winners nodes inc ↔
      ∃ members, (nodeTypes nodes)[role]? = some members ∧ winner nodes inc role members = some i := by
  unfold winners
  rw [List.mem_filterMap]
  constructor
  · intro h
    obtain ⟨⟨role', members⟩, hmem, hwinner⟩ := h
    obtain ⟨j, hj, heq⟩ := Option.map_eq_some_iff.mp hwinner
    cases heq
    exact ⟨members, ExtTreeMap.mem_toList_iff_getElem?_eq_some.mp hmem, hj⟩
  · intro h
    obtain ⟨members, hmembers, hwinner⟩ := h
    refine ⟨(role, members), ExtTreeMap.mem_toList_iff_getElem?_eq_some.mpr hmembers, ?_⟩
    rw [hwinner, Option.map_some]

theorem node_of_winner {role : String × String} (h : (role, i) ∈ winners nodes inc) :
    ∃ n, nodes[i]? = some n ∧ n.nodeType = role := by
  obtain ⟨members, hmembers, hwinner⟩ := mem_winners_lookup.mp h
  exact winner_some (nodeTypes_some hmembers) hwinner

theorem meshPrimaries_lookup {mesh : String} :
    (meshPrimaries nodes inc)[mesh]? = some i ↔ ((mesh, "node-admin"), i) ∈ winners nodes inc := by
  have hone : ∀ v ∈ winners nodes inc, ∀ w ∈ winners nodes inc, v.1 = w.1 → v.2 = w.2 := by
    intro v hv w hw heq
    obtain ⟨role, j⟩ := v
    obtain ⟨role', k⟩ := w
    cases heq
    obtain ⟨members, hmembers, hwinner⟩ := mem_winners_lookup.mp hv
    obtain ⟨members', hmembers', hwinner'⟩ := mem_winners_lookup.mp hw
    cases hmembers.symm.trans hmembers'
    exact Option.some.inj (hwinner.symm.trans hwinner')
  unfold meshPrimaries
  rw [meshPrimaries_foldl hone]
  refine or_iff_left fun hnone => ?_
  rw [ExtTreeMap.getElem?_empty] at hnone
  cases hnone.2

/-- A place is a node-admin's and its mesh's primary just when an election marks it. -/
theorem marked_iff {n : Node} (hn : nodes[i]? = some n) (hadmin : isNodeAdmin n.type = true) :
    ((winners nodes inc).map Prod.snd).contains i = true ↔ (meshPrimaries nodes inc)[n.mesh]? = some i := by
  have htype : n.type = "node-admin" := beq_iff_eq.mp hadmin
  rw [List.contains_iff_mem, List.mem_map, meshPrimaries_lookup]
  constructor
  · intro h
    obtain ⟨⟨role, j⟩, hwinner, hj⟩ := h
    cases hj
    obtain ⟨m, hm, hrole⟩ := node_of_winner hwinner
    cases hn.symm.trans hm
    rw [← htype]
    cases hrole
    exact hwinner
  · intro h
    exact ⟨_, h, rfl⟩

/-- With no fabric record, the fabric's primary is the lowest Ready mesh primary. -/
theorem fabricFirst_some (hrecord : inc.fabric = none) (h : electedFabricPrimary nodes inc = some i) :
    ∃ n, nodes[i]? = some n ∧ isNodeAdmin n.type = true ∧ eligible inc n = true ∧
      (meshPrimaries nodes inc)[n.mesh]? = some i := by
  unfold electedFabricPrimary at h
  rw [hrecord] at h
  dsimp only at h
  unfold lowestPrimary at h
  have hplaces : ∀ j ∈ ((meshPrimaries nodes inc).toList.filter fun m => some m.1 != none).map Prod.snd,
      ∃ n, nodes[j]? = some n ∧ isNodeAdmin n.type = true ∧ (meshPrimaries nodes inc)[n.mesh]? = some j := by
    intro j hj
    obtain ⟨e, he, rfl⟩ := List.mem_map.mp hj
    have hlookup := ExtTreeMap.mem_toList_iff_getElem?_eq_some.mp (List.mem_filter.mp he).1
    obtain ⟨n, hn, hrole⟩ := node_of_winner (meshPrimaries_lookup.mp hlookup)
    obtain ⟨hmesh, htype⟩ := Prod.mk.inj hrole
    refine ⟨n, hn, ?_, ?_⟩
    · rw [htype]
      rfl
    · rw [hmesh]
      exact hlookup
  obtain ⟨hi, n, hn, heligible, _⟩ := lowestReady_some (fun j hj => ⟨_, (hplaces j hj).choose_spec.1⟩) h
  obtain ⟨m, hm, hadmin, hprimary⟩ := hplaces i hi
  cases hn.symm.trans hm
  exact ⟨n, hn, hadmin, heligible, hprimary⟩

theorem fabricFirst_none (hrecord : inc.fabric = none) (h : electedFabricPrimary nodes inc = none) {n : Node}
    (hn : nodes[i]? = some n) (hprimary : (meshPrimaries nodes inc)[n.mesh]? = some i) : eligible inc n = false := by
  unfold electedFabricPrimary at h
  rw [hrecord] at h
  dsimp only at h
  unfold lowestPrimary at h
  refine lowestReady_none (fun j hj => ?_) h i (List.mem_map.mpr ⟨(n.mesh, i), List.mem_filter.mpr ⟨?_, rfl⟩, rfl⟩) n hn
  · obtain ⟨e, he, rfl⟩ := List.mem_map.mp hj
    have hlookup := ExtTreeMap.mem_toList_iff_getElem?_eq_some.mp (List.mem_filter.mp he).1
    obtain ⟨b, hb, _⟩ := node_of_winner (meshPrimaries_lookup.mp hlookup)
    exact ⟨b, hb⟩
  · exact ExtTreeMap.mem_toList_iff_getElem?_eq_some.mpr hprimary

end Places

section Successors

variable {nodes : List Build.Node} {inc : Incumbency} {n : Build.Node} {i : Nat}

theorem candidate_place (hn : nodes[i]? = some n) : (nodes.map asCandidate)[i]? = some (asCandidate n) := by
  rw [List.getElem?_map, hn, Option.map_some]

theorem node_of_candidate {c : Node} (hc : (nodes.map asCandidate)[i]? = some c) : ∃ n, nodes[i]? = some n ∧ c = asCandidate n := by
  rw [List.getElem?_map] at hc
  obtain ⟨n, hn, rfl⟩ := Option.map_eq_some_iff.mp hc
  exact ⟨n, hn, rfl⟩

/-- A resolved node at a place is the node there with its marks. -/
theorem resolved_place (nodes : List Build.Node) (inc : Incumbency) (i : Nat) :
    (resolved nodes inc)[i]? = nodes[i]?.map fun n =>
      { n with
        isPrimary := ((winners (nodes.map asCandidate) inc).map Prod.snd).contains i
        isFabricPrimary := (electedFabricPrimary (nodes.map asCandidate) inc).filter
          (fun _ => (fabricRecoveryTarget (nodes.map asCandidate) inc).isNone) == some i } := by
  have hcleared : (nodes.map asCandidate).map Node.unmarked = nodes.map asCandidate := by
    rw [List.map_map]
    rfl
  unfold resolved resolveWith
  dsimp only
  rw [hcleared, List.getElem?_zipWith, List.getElem?_mapIdx, List.getElem?_map]
  cases nodes[i]? with
  | none => rfl
  | some n => rfl

theorem fabricRecoveryTarget_vacated (nodes : List Node) (inc : Incumbency) :
    fabricRecoveryTarget nodes inc.vacated = none := rfl

/-- The birth is one of the nodes, Ready, not known gone, and a node-admin. -/
structure Eligible (nodes : List Build.Node) (inc : Incumbency) (n : Build.Node) : Prop where
  present : ∃ m ∈ nodes, n = { m with isPrimary := n.isPrimary, isFabricPrimary := n.isFabricPrimary }
  ready : n.status = .ready
  known : inc.isLost (asCandidate n) = false
  admin : isNodeAdmin n.type = true

theorem eligible_iff (n : Node) : eligible inc n = true ↔ n.status = .ready ∧ inc.isLost n = false := by
  unfold eligible
  rw [Bool.and_eq_true_iff, beq_iff_eq, Bool.not_eq_true']

theorem place_zipIdx {kind : Build.Node → Bool} (j : Nat) :
    j ∈ (nodes.zipIdx.filter fun n => kind n.1).map Prod.snd ↔ ∃ m, nodes[j]? = some m ∧ kind m = true := by
  rw [List.mem_map]
  constructor
  · intro h
    obtain ⟨⟨m, k⟩, hmem, rfl⟩ := h
    obtain ⟨hplace, hkind⟩ := List.mem_filter.mp hmem
    exact ⟨m, List.mk_mem_zipIdx_iff_getElem?.mp hplace, hkind⟩
  · intro h
    obtain ⟨m, hm, hkind⟩ := h
    exact ⟨(m, j), List.mem_filter.mpr ⟨List.mk_mem_zipIdx_iff_getElem?.mpr hm, hkind⟩, rfl⟩

theorem places_of_kind (kind : Build.Node → Bool) :
    ∀ j ∈ (nodes.zipIdx.filter fun n => kind n.1).map Prod.snd, ∃ c, (nodes.map asCandidate)[j]? = some c := by
  intro j hj
  obtain ⟨m, hm, _⟩ := (place_zipIdx j).mp hj
  exact ⟨_, candidate_place hm⟩

theorem lowestOf_some {kind : Build.Node → Bool} (h : lowestOf nodes inc kind = some n) :
    n ∈ nodes ∧ kind n = true ∧ eligible inc (asCandidate n) = true := by
  obtain ⟨i, hlowest, hn⟩ := Option.bind_eq_some_iff.mp h
  obtain ⟨hi, c, hc, heligible, _⟩ := lowestReady_some (places_of_kind kind) hlowest
  obtain ⟨m, hm, hkind⟩ := (place_zipIdx i).mp hi
  cases hn.symm.trans hm
  cases hc.symm.trans (candidate_place hn)
  exact ⟨List.mem_of_getElem? hn, hkind, heligible⟩

theorem lowestOf_none {kind : Build.Node → Bool} (h : lowestOf nodes inc kind = none) {m : Build.Node} (hm : m ∈ nodes)
    (hkind : kind m = true) : eligible inc (asCandidate m) = false := by
  obtain ⟨j, hj⟩ := List.mem_iff_getElem?.mp hm
  refine lowestReady_none (places_of_kind kind) ?_ j ((place_zipIdx j).mpr ⟨m, hj, hkind⟩) _ (candidate_place hj)
  cases hlowest : lowestReady (nodes.map asCandidate) inc ((nodes.zipIdx.filter fun n => kind n.1).map Prod.snd) with
  | none => rfl
  | some i =>
    obtain ⟨b, hb, _⟩ := (place_zipIdx i).mp (lowestReady_some (places_of_kind kind) hlowest).1
    unfold lowestOf at h
    rw [hlowest, Option.bind_some, hb] at h
    cases h

/-- The node at a place is its mesh's primary, as the election over the nodes has it. -/
def PrimaryAt (nodes : List Build.Node) (inc : Incumbency) (i : Nat) (m : Build.Node) : Prop :=
  nodes[i]? = some m ∧ (meshPrimaries (nodes.map asCandidate) inc)[m.mesh]? = some i

theorem mem_outside {mesh : String} {m : Build.Node} : m ∈ outside nodes mesh ↔ m ∈ nodes ∧ m.mesh ≠ mesh := by
  unfold outside
  rw [List.mem_filter, bne_iff_ne]

theorem excluding_some {mesh : String} (h : fabricSuccessorExcluding nodes inc mesh = some n) :
    Eligible nodes inc n ∧ n.mesh ≠ mesh := by
  have hmark := List.find?_some h
  obtain ⟨i, hi⟩ := List.mem_iff_getElem?.mp (List.mem_of_find?_eq_some h)
  rw [resolved_place] at hi
  obtain ⟨m, hm, rfl⟩ := Option.map_eq_some_iff.mp hi
  have hfabric := (Option.filter_eq_some_iff.mp (beq_iff_eq.mp hmark)).1
  obtain ⟨c, hc, hadmin, heligible, _⟩ := fabricFirst_some rfl hfabric
  obtain ⟨b, hb, rfl⟩ := node_of_candidate hc
  cases hm.symm.trans hb
  obtain ⟨hready, hknown⟩ := (eligible_iff _).mp heligible
  obtain ⟨hin, hmesh⟩ := mem_outside.mp (List.mem_of_getElem? hm)
  exact ⟨⟨⟨m, hin, rfl⟩, hready, hknown, hadmin⟩, hmesh⟩

theorem excluding_none {mesh : String} (h : fabricSuccessorExcluding nodes inc mesh = none) {m : Build.Node}
    (hm : PrimaryAt (outside nodes mesh) inc.vacated i m) : eligible inc (asCandidate m) = false := by
  cases hfabric : electedFabricPrimary ((outside nodes mesh).map asCandidate) inc.vacated with
  | none =>
    have hnot := fabricFirst_none rfl hfabric (candidate_place hm.1) hm.2
    exact hnot
  | some j =>
    obtain ⟨c, hc, _⟩ := fabricFirst_some rfl hfabric
    obtain ⟨b, hb, rfl⟩ := node_of_candidate hc
    have hplace := resolved_place (outside nodes mesh) inc.vacated j
    rw [hb, Option.map_some, hfabric] at hplace
    have hmark := List.find?_eq_none.mp h _ (List.mem_of_getElem? hplace)
    simp [fabricRecoveryTarget_vacated] at hmark

theorem locations_resolved (nodes : List Build.Node) (inc : Incumbency) :
    (resolved nodes inc).map Build.Node.location = nodes.map Build.Node.location := by
  refine List.ext_getElem? fun i => ?_
  rw [List.getElem?_map, List.getElem?_map, resolved_place, Option.map_map]
  rfl

theorem findIdx_resolved (nodes : List Build.Node) (inc : Incumbency) (named : Build.PathName) :
    (resolved nodes inc).findIdx? (fun n => n.location = named) = nodes.findIdx? fun n => n.location = named := by
  have hmaps : ∀ l : List Build.Node, l.findIdx? (fun n => n.location = named) =
      (l.map Build.Node.location).findIdx? fun p => p = named := by
    intro l
    rw [List.findIdx?_map]
    rfl
  rw [hmaps, hmaps, locations_resolved]

/-- The nodes a name is looked for among hold the same node first at it. -/
theorem find_namedAmong (nodes : List Build.Node) (primary : Build.Node) (named : Build.PathName) :
    (namedAmong nodes primary named).find? (fun n => n.location = named) = nodes.find? fun n => n.location = named := by
  unfold namedAmong
  dsimp only
  rw [List.find?_filter]
  cases hfound : nodes.find? fun n => n.location = named with
  | none =>
    rw [List.find?_eq_none] at hfound ⊢
    intro n hn hboth
    exact hfound n hn (of_decide_eq_true hboth).2
  | some m =>
    obtain ⟨hm, before, after, rfl, hbefore⟩ := List.find?_eq_some_iff_append.mp hfound
    refine List.find?_eq_some_iff_append.mpr ⟨?_, before, after, rfl, fun n hn => ?_⟩
    · refine decide_eq_true ⟨?_, hm⟩
      by_cases hmesh : m.mesh = primary.mesh
      · rw [Option.map_some, hmesh, beq_self_eq_true, Bool.true_or]
      · rw [bne_iff_ne.mpr hmesh, Bool.or_true]
    · have hnot := hbefore n hn
      rw [Bool.not_eq_true'] at hnot ⊢
      refine decide_eq_false fun hboth => ?_
      rw [hnot] at hboth
      cases hboth.2

theorem namedAmong_other {primary m : Build.Node} {named : Build.PathName}
    (hfound : (nodes.find? fun n => n.location = named) = some m) (hmesh : m.mesh ≠ primary.mesh) :
    namedAmong nodes primary named = outside nodes primary.mesh := by
  unfold namedAmong outside
  refine List.filter_congr fun n _ => ?_
  have hother : (some m.mesh == some primary.mesh) = false := beq_eq_false_iff_ne.mpr fun heq => hmesh (Option.some.inj heq)
  rw [hfound, Option.map_some, hother, Bool.false_or]

/-- The answer for a name is the first node at it, when it is a Ready node-admin. -/
theorem named_ok_iff {primary : Build.Node} {named : Build.PathName} :
    namedFabricSuccessor nodes inc primary named = .ok n ↔
      ∃ i m, (namedAmong nodes primary named).findIdx? (fun n => n.location = named) = some i ∧
        (namedAmong nodes primary named)[i]? = some m ∧ isNodeAdmin m.type = true ∧ m.status = .ready ∧
        (resolved (namedAmong nodes primary named) inc.vacated)[i]? = some n := by
  unfold namedFabricSuccessor
  rw [List.find?_eq_bind_findIdx?_getElem?, findIdx_resolved]
  cases hplace : (namedAmong nodes primary named).findIdx? fun n => n.location = named with
  | none =>
    constructor
    · intro h
      cases h
    · intro h
      obtain ⟨i, m, hi, _⟩ := h
      cases hi
  | some i =>
    obtain ⟨hlt, _⟩ := List.findIdx?_eq_some_iff_getElem.mp hplace
    obtain ⟨m, hm⟩ : ∃ m, (namedAmong nodes primary named)[i]? = some m := ⟨_, List.getElem?_eq_getElem hlt⟩
    have hresolved := resolved_place (namedAmong nodes primary named) inc.vacated i
    rw [hm, Option.map_some] at hresolved
    rw [Option.bind_some, hresolved]
    dsimp only
    constructor
    · intro h
      split at h
      next hfits =>
        obtain ⟨hadmin, hready⟩ := Bool.and_eq_true_iff.mp hfits
        cases h
        exact ⟨i, m, rfl, hm, hadmin, beq_iff_eq.mp hready, hresolved⟩
      next => cases h
    · intro h
      obtain ⟨j, b, hj, hb, hadmin, hready, hn⟩ := h
      cases hj
      cases hm.symm.trans hb
      cases hresolved.symm.trans hn
      rw [if_pos (Bool.and_eq_true_iff.mpr ⟨hadmin, beq_iff_eq.mpr hready⟩)]

/-- Whom a transfer of the roles may go to: another of the primary's mesh, or one of another mesh. -/
def Moving.Outside (primary n : Build.Node) : Moving → Prop
  | .meshRole => n.mesh = primary.mesh ∧ n.nodeId ≠ primary.nodeId
  | .bothRoles => n.mesh = primary.mesh ∧ n.nodeId ≠ primary.nodeId
  | .fabricRoleOutside => n.mesh ≠ primary.mesh

/-- A mesh has a Ready node-admin that is not known gone, but the one node. -/
def HasOwn (nodes : List Build.Node) (inc : Incumbency) (mesh nodeId : String) : Prop :=
  ∃ m ∈ nodes, m.mesh = mesh ∧ isNodeAdmin m.type = true ∧ m.nodeId ≠ nodeId ∧ eligible inc (asCandidate m) = true

/-- Another mesh has a Ready primary that is not known gone. -/
def HasOther (nodes : List Build.Node) (inc : Incumbency) (mesh : String) : Prop :=
  ∃ i m, PrimaryAt (outside nodes mesh) inc.vacated i m ∧ eligible inc (asCandidate m) = true

def Moving.Available (nodes : List Build.Node) (inc : Incumbency) (primary : Build.Node) : Moving → Prop
  | .meshRole => HasOwn nodes inc primary.mesh primary.nodeId
  | .bothRoles => HasOwn nodes inc primary.mesh primary.nodeId
  | .fabricRoleOutside => HasOther nodes inc primary.mesh

theorem excluding_of_other {mesh : String} (h : HasOther nodes inc mesh) : ∃ n, fabricSuccessorExcluding nodes inc mesh = some n := by
  obtain ⟨i, m, hm, heligible⟩ := h
  cases hnone : fabricSuccessorExcluding nodes inc mesh with
  | some n => exact ⟨n, rfl⟩
  | none =>
    rw [excluding_none hnone hm] at heligible
    cases heligible

theorem nodeTypeSuccessor_some {primary : Build.Node}
    (h : nodeTypeSuccessor nodes inc { primary with type := "node-admin" } = some n) :
    Eligible nodes inc n ∧ n.mesh = primary.mesh ∧ n.nodeId ≠ primary.nodeId := by
  obtain ⟨hin, hkind, heligible⟩ := lowestOf_some h
  simp only [Bool.and_eq_true, beq_iff_eq, bne_iff_ne] at hkind
  obtain ⟨hready, hknown⟩ := (eligible_iff _).mp heligible
  refine ⟨⟨⟨n, hin, rfl⟩, hready, hknown, ?_⟩, hkind.1.1, hkind.2⟩
  rw [hkind.1.2]
  rfl

theorem nodeTypeSuccessor_of_own {primary : Build.Node} (h : HasOwn nodes inc primary.mesh primary.nodeId) :
    ∃ n, nodeTypeSuccessor nodes inc { primary with type := "node-admin" } = some n := by
  obtain ⟨m, hm, hmesh, hadmin, hid, heligible⟩ := h
  cases hnone : nodeTypeSuccessor nodes inc { primary with type := "node-admin" } with
  | some n => exact ⟨n, rfl⟩
  | none =>
    rw [lowestOf_none hnone hm] at heligible
    · cases heligible
    · simp only [Bool.and_eq_true, beq_iff_eq, bne_iff_ne]
      exact ⟨⟨hmesh, beq_iff_eq.mp hadmin⟩, hid⟩

theorem commanded_ok {primary : Build.Node} {moving : Moving} (h : commandedSuccessor nodes inc primary moving = .ok n) :
    Eligible nodes inc n ∧ moving.Outside primary n := by
  cases moving with
  | meshRole =>
    unfold commandedSuccessor at h
    dsimp only at h
    split at h
    next m hm =>
      cases h
      exact nodeTypeSuccessor_some hm
    next => cases h
  | bothRoles =>
    unfold commandedSuccessor at h
    dsimp only at h
    split at h
    next m hm =>
      cases h
      exact nodeTypeSuccessor_some hm
    next => split at h <;> cases h
  | fabricRoleOutside =>
    unfold commandedSuccessor at h
    dsimp only at h
    split at h
    next m hm =>
      cases h
      exact excluding_some hm
    next => cases h

theorem commanded_of_available {primary : Build.Node} {moving : Moving} (h : moving.Available nodes inc primary) :
    ∃ n, commandedSuccessor nodes inc primary moving = .ok n := by
  cases moving with
  | meshRole =>
    obtain ⟨n, hn⟩ := nodeTypeSuccessor_of_own h
    exact ⟨n, by simp only [commandedSuccessor, hn]⟩
  | bothRoles =>
    obtain ⟨n, hn⟩ := nodeTypeSuccessor_of_own h
    exact ⟨n, by simp only [commandedSuccessor, hn]⟩
  | fabricRoleOutside =>
    obtain ⟨n, hn⟩ := excluding_of_other h
    exact ⟨n, by simp only [commandedSuccessor, hn]⟩

theorem Eligible.mono {others : List Build.Node} (h : Eligible others inc n) (hin : ∀ m ∈ others, m ∈ nodes) :
    Eligible nodes inc n := by
  obtain ⟨m, hm, heq⟩ := h.present
  exact ⟨⟨m, hin m hm, heq⟩, h.ready, h.known, h.admin⟩

/-- Every successor answered is eligible and outside what is left out, a named one of another mesh is that mesh's primary, and
a succession with no name is answered when an eligible birth is there. -/
structure SuccessorsEligible (t : Build.Topology) (inc : Incumbency) (primary : Build.Node) (named : Build.PathName) : Prop where
  excluding : ∀ mesh n, fabricSuccessorExcluding t.nodes inc mesh = some n → Eligible t.nodes inc n ∧ n.mesh ≠ mesh
  after : ∀ lost n, fabricSuccessorAfter t.nodes inc lost = some n →
    Eligible t.nodes inc n ∧ ¬ (n.mesh = lost.mesh ∧ n.nodeId = lost.nodeId)
  commanded : ∀ moving n, commandedSuccessor t.nodes inc primary moving = .ok n →
    Eligible t.nodes inc n ∧ moving.Outside primary n
  commandedIn : ∀ moving n, commandedSuccessorIn t inc primary moving = .ok n →
    Eligible t.nodes inc n ∧ moving.Outside primary n ∧ (n.mesh = primary.mesh ∨ goneMesh t n.mesh = false)
  named : ∀ n, namedFabricSuccessor t.nodes inc primary named = .ok n →
    Eligible t.nodes inc n ∧ ¬ (n.mesh = primary.mesh ∧ n.nodeId = primary.nodeId) ∧
      (n.mesh ≠ primary.mesh → n.isPrimary = true)
  excludingAnswered : ∀ mesh, HasOther t.nodes inc mesh → ∃ n, fabricSuccessorExcluding t.nodes inc mesh = some n
  afterAnswered : ∀ lost, HasOwn t.nodes inc lost.mesh lost.nodeId ∨ HasOther t.nodes inc lost.mesh →
    ∃ n, fabricSuccessorAfter t.nodes inc lost = some n
  commandedAnswered : ∀ moving, moving.Available t.nodes inc primary →
    ∃ n, commandedSuccessor t.nodes inc primary moving = .ok n
  commandedInAnswered : ∀ moving, moving.Available (candidatesIn t primary) inc primary →
    ∃ n, commandedSuccessorIn t inc primary moving = .ok n

/-- The first node at the name, if a Ready node-admin, is not known gone, is not the primary itself, and, if of another mesh,
is its primary among the nodes outside the primary's mesh. -/
def NameFits (nodes : List Build.Node) (inc : Incumbency) (primary : Build.Node) (named : Build.PathName) : Prop :=
  ∀ m, (nodes.find? fun n => n.location = named) = some m → isNodeAdmin m.type = true → m.status = .ready →
    inc.isLost (asCandidate m) = false ∧ ¬ (m.mesh = primary.mesh ∧ m.nodeId = primary.nodeId) ∧
      (m.mesh ≠ primary.mesh → ∃ i, ((outside nodes primary.mesh).findIdx? fun n => n.location = named) = some i ∧
        PrimaryAt (outside nodes primary.mesh) inc.vacated i m)

theorem after_some {lost : HandoverBirth} (h : fabricSuccessorAfter nodes inc lost = some n) :
    Eligible nodes inc n ∧ ¬ (n.mesh = lost.mesh ∧ n.nodeId = lost.nodeId) := by
  unfold fabricSuccessorAfter at h
  split at h
  next m hm =>
    cases h
    obtain ⟨hin, hkind, heligible⟩ := lowestOf_some hm
    simp only [Bool.and_eq_true, beq_iff_eq, bne_iff_ne] at hkind
    obtain ⟨hready, hknown⟩ := (eligible_iff _).mp heligible
    exact ⟨⟨⟨n, hin, rfl⟩, hready, hknown, hkind.1.2⟩, fun hsame => hkind.2 hsame.2⟩
  next =>
    obtain ⟨heligible, hmesh⟩ := excluding_some h
    exact ⟨heligible, fun hsame => hmesh hsame.1⟩

theorem after_of_either {lost : HandoverBirth} (h : HasOwn nodes inc lost.mesh lost.nodeId ∨ HasOther nodes inc lost.mesh) :
    ∃ n, fabricSuccessorAfter nodes inc lost = some n := by
  unfold fabricSuccessorAfter
  split
  next m _ => exact ⟨m, rfl⟩
  next hnone =>
    rcases h with ⟨m, hm, hmesh, hadmin, hid, heligible⟩ | hother
    · rw [lowestOf_none hnone hm] at heligible
      · cases heligible
      · simp only [Bool.and_eq_true, beq_iff_eq, bne_iff_ne]
        exact ⟨⟨hmesh, hadmin⟩, hid⟩
    · exact excluding_of_other hother

theorem commandedIn_ok {t : Build.Topology} {primary : Build.Node} {moving : Moving}
    (h : commandedSuccessorIn t inc primary moving = .ok n) :
    Eligible t.nodes inc n ∧ moving.Outside primary n ∧ (n.mesh = primary.mesh ∨ goneMesh t n.mesh = false) := by
  obtain ⟨heligible, houtside⟩ := commanded_ok h
  refine ⟨heligible.mono fun m hm => (List.mem_filter.mp hm).1, houtside, ?_⟩
  obtain ⟨m, hm, heq⟩ := heligible.present
  have hkept := (List.mem_filter.mp hm).2
  rw [Bool.or_eq_true, beq_iff_eq, Bool.not_eq_true'] at hkept
  have hmesh : n.mesh = m.mesh := by rw [heq]
  rwa [hmesh]

/-- The named successor is as it must be just when the name fits. -/
theorem named_iff (nodes : List Build.Node) (inc : Incumbency) (primary : Build.Node) (named : Build.PathName) :
    (∀ n, namedFabricSuccessor nodes inc primary named = .ok n →
      Eligible nodes inc n ∧ ¬ (n.mesh = primary.mesh ∧ n.nodeId = primary.nodeId) ∧
        (n.mesh ≠ primary.mesh → n.isPrimary = true)) ↔ NameFits nodes inc primary named := by
  have hfind : (namedAmong nodes primary named).find? (fun n => n.location = named) = nodes.find? fun n => n.location = named :=
    find_namedAmong nodes primary named
  rw [List.find?_eq_bind_findIdx?_getElem?] at hfind
  constructor
  · intro h m hm hadmin hready
    rw [hm] at hfind
    obtain ⟨i, hi, hplace⟩ := Option.bind_eq_some_iff.mp hfind
    have hresolved := resolved_place (namedAmong nodes primary named) inc.vacated i
    rw [hplace, Option.map_some] at hresolved
    obtain ⟨heligible, hother, hprimary⟩ := h _ (named_ok_iff.mpr ⟨i, m, hi, hplace, hadmin, hready, hresolved⟩)
    refine ⟨heligible.known, hother, fun hmesh => ⟨i, ?_⟩⟩
    rw [← namedAmong_other hm hmesh]
    exact ⟨hi, hplace, (marked_iff (candidate_place hplace) hadmin).mp (hprimary hmesh)⟩
  · intro h n hn
    obtain ⟨i, m, hi, hplace, hadmin, hready, hresolved⟩ := named_ok_iff.mp hn
    rw [hi, Option.bind_some, hplace] at hfind
    obtain ⟨hknown, hother, hprimary⟩ := h m hfind.symm hadmin hready
    rw [resolved_place, hplace, Option.map_some] at hresolved
    cases hresolved
    refine ⟨⟨⟨m, List.mem_of_find?_eq_some hfind.symm, rfl⟩, hready, hknown, hadmin⟩, hother, fun hmesh => ?_⟩
    obtain ⟨j, hj, hat⟩ := hprimary hmesh
    rw [← namedAmong_other hfind.symm hmesh] at hj hat
    cases hi.symm.trans hj
    exact (marked_iff (candidate_place hplace) hadmin).mpr hat.2

theorem successors_eligible_iff (t : Build.Topology) (inc : Incumbency) (primary : Build.Node) (named : Build.PathName) :
    SuccessorsEligible t inc primary named ↔ NameFits t.nodes inc primary named := by
  rw [← named_iff]
  constructor
  · exact fun h => h.named
  · intro h
    exact ⟨fun _ _ => excluding_some, fun _ _ => after_some, fun _ _ => commanded_ok, fun _ _ => commandedIn_ok, h,
      fun _ => excluding_of_other, fun _ => after_of_either, fun _ => commanded_of_available, fun _ => commanded_of_available⟩

/-- Two meshes: the fabric's primary, and two admins of another mesh, the first its primary. -/
def handBackView : Build.Topology :=
  ⟨"fabric", "fabric", [⟨some "i1", "m1", .ready⟩, ⟨some "i2", "m2", .ready⟩],
    [⟨"m1.node-admin", "1", "node-admin", "m1", "n1", some "b1", .ready, true, true, false⟩,
     ⟨"m2.node-admin", "1", "node-admin", "m2", "n2", some "b2", .ready, true, false, false⟩,
     ⟨"m2.node-admin", "2", "node-admin", "m2", "n3", some "b3", .ready, false, false, false⟩]⟩

def nothingRecorded : Incumbency := ⟨none, ∅, ∅, ∅⟩

/-- An admin of another mesh that is not its primary is taken for the fabric's role. -/
theorem named_secondary_taken :
    ¬ ∀ primary ∈ handBackView.nodes, SuccessorsEligible handBackView nothingRecorded primary ("m2.node-admin", "2") := by
  intro h
  have heligible := h ⟨"m1.node-admin", "1", "node-admin", "m1", "n1", some "b1", .ready, true, true, false⟩ (by decide)
  have hnamed : namedFabricSuccessor handBackView.nodes nothingRecorded
      ⟨"m1.node-admin", "1", "node-admin", "m1", "n1", some "b1", .ready, true, true, false⟩ ("m2.node-admin", "2") =
      .ok ⟨"m2.node-admin", "2", "node-admin", "m2", "n3", some "b3", .ready, false, false, false⟩ := by
    decide +kernel
  have hprimary := (heligible.named _ hnamed).2.2 (by decide)
  cases hprimary

end Successors

end DistributedMesh.Election
