import DistributedMesh.BuildTouches

namespace DistributedMesh.Build

open Std (ExtTreeMap ExtTreeSet)
open LexCode KeyedMaps

/-- The path an operation acts at. -/
def BuildOperation.node : BuildOperation → Option PathName
  | .createNode path name _ _ _ _ _ _ => some (path, name)
  | .deleteLiveNode path name _ _ _ _ => some (path, name)
  | _ => none

/-- The step event of an operation that ended. -/
def completeStep (op : BuildOperation) : BuildStep := ⟨operationText op.key, "Complete", .complete⟩

/-- What a pass of the Build reads besides the steps recorded, and the steps it records of its other operations. -/
structure Pass where
  view : Topology
  openDeletes : List String
  held : List String
  created : List PathName
  others : List BuildStep

namespace FabricTopology

/-- A topology a Build was compiled to: each path pinned to one birth, births and created nodes with ids of their own. -/
structure Accepted (t : FabricTopology) : Prop where
  validated : t.validate = .ok ()
  paths : (t.pinned.map Prod.fst).Nodup
  births : (t.pinned.map fun c => c.2.nodeId).Nodup
  created : ∀ c ∈ t.created, ∀ d ∈ t.created, c.2 = d.2 → c.1 = d.1

/-- The operation is a step of a replacement in the mesh. -/
def replacesIn (t : FabricTopology) (m : MeshTopology) (op : BuildOperation) : Bool :=
  op.node.any fun p => decide (p ∈ m.nodes) && (t.replaced p).isSome

def replaces (t : FabricTopology) (op : BuildOperation) : Bool := op.node.any fun p => (t.replaced p).isSome

/-- The paths of the mesh the Build replaces the birth of. -/
def replacedPaths (t : FabricTopology) (m : MeshTopology) : List PathName :=
  m.nodes.toList.filter fun p => (t.replaced p).isSome

/-- The two steps of a pinned path's replacement. -/
def agendaOf (t : FabricTopology) (mesh : String) (m : MeshTopology) (pin : PathName × PinnedBirth) : List BuildOperation :=
  if pin.1 ∈ m.nodes then
    match t.createdId pin.1, m.spec pin.1 with
    | some nodeId, some spec =>
      [deletePinned pin.1 pin.2, .createNode pin.1.1 pin.1.2 nodeId mesh spec.type none spec.executable none]
    | _, _ => []
  else []

/-- The steps of a mesh's replacements, in the order their births are pinned. -/
def agenda (t : FabricTopology) (mesh : String) (m : MeshTopology) : List BuildOperation := t.pinned.flatMap (t.agendaOf mesh m)

/-- The path's create holds its Complete. -/
def recreated (t : FabricTopology) (steps : List BuildStep) (p : PathName) : Bool :=
  (t.createdId p).any fun nodeId => done steps (nodeCreateKey nodeId)

/-- A step of a replacement is owed until it is done, and a delete until its path is created again. -/
def owes (t : FabricTopology) (steps : List BuildStep) (op : BuildOperation) : Bool :=
  !done steps op.key && !op.node.any (t.recreated steps)

/-- The plan of the pass. -/
def planOf (t : FabricTopology) (steps : List BuildStep) (v : Pass) : List BuildOperation :=
  t.planWith v.view v.openDeletes v.held steps v.created

/-- A pass plans and records the Complete of each step of a replacement it planned. -/
def pass (t : FabricTopology) (steps : List BuildStep) (v : Pass) : List BuildStep :=
  steps ++ v.others ++ ((t.planOf steps v).filter t.replaces).map completeStep

/-- The steps of replacements the passes plan, one pass after the other. -/
def planned (t : FabricTopology) : List BuildStep → List Pass → List BuildOperation
  | _, [] => []
  | steps, v :: vs => (t.planOf steps v).filter t.replaces ++ t.planned (t.pass steps v) vs

/-- The step event completes no step of a replacement. -/
def Apart (t : FabricTopology) (s : BuildStep) : Prop :=
  ∀ (k : String) (m : MeshTopology), t.meshes[k]? = some m → ∀ op ∈ t.agenda k m, s ≠ completeStep op

variable {t : FabricTopology} {steps : List BuildStep} {k : String} {m : MeshTopology} {op : BuildOperation}

theorem Accepted.valid (h : t.Accepted) : t.Valid := valid_of_validate h.validated

theorem Accepted.listed (h : t.Accepted) (hm : t.meshes[k]? = some m) {p : PathName} (hp : (m.spec p).isSome = true) :
    p ∈ m.nodes := by
  have hvalidated := h.validated
  unfold validate at hvalidated
  split at hvalidated
  next => cases hvalidated
  next =>
    have hall := (validateMeshes_ok hvalidated).2.2
    exact MeshTopology.listed_of_validate (hall (k, m) (ExtTreeMap.mem_toList_iff_getElem?_eq_some.mpr hm)) hp

/-- A replaced path is one of a mesh of the topology, pinned there and created again. -/
theorem Accepted.of_replaced (h : t.Accepted) {p : PathName} {birth : PinnedBirth} (hreplaced : t.replaced p = some birth) :
    (∃ (k : String) (m : MeshTopology), t.meshes[k]? = some m ∧ p ∈ m.nodes) ∧ (p, birth) ∈ t.pinned ∧
      ∃ nodeId, t.createdId p = some nodeId := by
  unfold replaced at hreplaced
  split at hreplaced
  next => cases hreplaced
  next hkept =>
    rw [Bool.or_eq_true, not_or, Bool.not_eq_true', Bool.not_eq_false, Option.isNone_iff_eq_none] at hkept
    obtain ⟨m, hin, hspec⟩ := List.findSome?_isSome_iff.mp hkept.1
    obtain ⟨k, hm⟩ := (mem_values_iff t.meshes m).mp hin
    obtain ⟨pin, hpin, hbirth⟩ := Option.map_eq_some_iff.mp hreplaced
    have hp := List.find?_some hpin
    refine ⟨⟨k, m, hm, h.listed hm hspec⟩, ?_, Option.ne_none_iff_exists'.mp hkept.2⟩
    rw [← of_decide_eq_true hp, ← hbirth]
    exact List.mem_of_find?_eq_some hpin

theorem Accepted.replaced_of_pin (h : t.Accepted) (hm : t.meshes[k]? = some m) {p : PathName} {birth : PinnedBirth}
    (hpin : (p, birth) ∈ t.pinned) (hp : p ∈ m.nodes) {nodeId : String} (hid : t.createdId p = some nodeId) :
    t.replaced p = some birth := by
  unfold replaced
  rw [contains_of_mem h.valid hm hp, hid, if_neg (by simp)]
  have hsome : (t.pinned.find? fun c => c.1 = p).isSome = true := List.find?_isSome.mpr ⟨_, hpin, decide_eq_true rfl⟩
  obtain ⟨pin, hfound⟩ := Option.isSome_iff_exists.mp hsome
  have hpath := List.find?_some hfound
  have heq : pin = (p, birth) :=
    List.inj_on_of_nodup_map h.paths (List.mem_of_find?_eq_some hfound) hpin (of_decide_eq_true hpath)
  rw [hfound, heq]
  rfl

/-- A replaced path is of one mesh. -/
theorem Accepted.same_mesh (h : t.Accepted) (hm : t.meshes[k]? = some m) {j : String} {n : MeshTopology}
    (hn : t.meshes[j]? = some n) {p : PathName} (hp : p ∈ m.nodes) (hq : p ∈ n.nodes) : j = k ∧ n = m := by
  have hjk := h.valid.apart j k n m hn hm p hq hp
  rw [hjk, hm] at hn
  exact ⟨hjk, (Option.some.inj hn).symm⟩

theorem mem_agenda : op ∈ t.agenda k m ↔ ∃ p birth nodeId spec, (p, birth) ∈ t.pinned ∧ p ∈ m.nodes ∧
    t.createdId p = some nodeId ∧ m.spec p = some spec ∧
    (op = deletePinned p birth ∨ op = .createNode p.1 p.2 nodeId k spec.type none spec.executable none) := by
  rw [agenda, List.mem_flatMap]
  constructor
  · intro h
    obtain ⟨pin, hpin, hop⟩ := h
    unfold agendaOf at hop
    split at hop
    next hp =>
      split at hop
      next nodeId spec hid hspec =>
        rw [List.mem_cons, List.mem_singleton] at hop
        exact ⟨pin.1, pin.2, nodeId, spec, hpin, hp, hid, hspec, hop⟩
      next => cases hop
    next => cases hop
  · intro h
    obtain ⟨p, birth, nodeId, spec, hpin, hp, hid, hspec, hop⟩ := h
    refine ⟨(p, birth), hpin, ?_⟩
    unfold agendaOf
    rw [if_pos hp, hid, hspec]
    exact List.mem_cons.mpr (hop.imp id List.mem_singleton.mpr)

theorem agendaOf_of_pin {p : PathName} {birth : PinnedBirth} (hp : p ∈ m.nodes) {nodeId : String} {spec : NodeSpec}
    (hid : t.createdId p = some nodeId) (hspec : m.spec p = some spec) :
    t.agendaOf k m (p, birth) =
      [deletePinned p birth, .createNode p.1 p.2 nodeId k spec.type none spec.executable none] := by
  unfold agendaOf
  rw [if_pos hp, hid, hspec]

theorem deleteText (p : PathName) (birth : PinnedBirth) :
    operationText (deletePinned p birth).key = "node.delete" ++ (":" ++ birth.nodeId) := rfl

theorem createText (nodeId : String) : operationText (nodeCreateKey nodeId) = "node.create" ++ (":" ++ nodeId) := rfl

theorem deleteText_ne_createText (p : PathName) (birth : PinnedBirth) (nodeId : String) :
    operationText (deletePinned p birth).key ≠ operationText (nodeCreateKey nodeId) := by
  intro heq
  have hlists := congrArg String.toList heq
  rw [deleteText, createText, String.toList_append, String.toList_append (t := ":" ++ nodeId)] at hlists
  have htexts : "node.delete".toList = "node.create".toList := (List.append_inj hlists (by decide)).1
  exact absurd htexts (by decide)

theorem Accepted.key_inj (h : t.Accepted) (hm : t.meshes[k]? = some m) {j : String} {n : MeshTopology}
    (hn : t.meshes[j]? = some n) {a b : BuildOperation} (ha : a ∈ t.agenda k m) (hb : b ∈ t.agenda j n)
    (hkey : operationText a.key = operationText b.key) : a = b := by
  have hsuffix : ∀ {action s u : String}, action ++ (":" ++ s) = action ++ (":" ++ u) → s = u := by
    intro action s u heq
    have hlists := congrArg String.toList heq
    simp only [String.toList_append] at hlists
    exact String.toList_injective (List.append_cancel_left (List.append_cancel_left hlists))
  obtain ⟨p, birth, nodeId, spec, hpin, hp, hid, hspec, rfl | rfl⟩ := mem_agenda.mp ha
  · obtain ⟨q, other, otherId, otherSpec, hqin, hq, hqid, hqspec, rfl | rfl⟩ := mem_agenda.mp hb
    · have hbirths : birth.nodeId = other.nodeId := hsuffix hkey
      cases List.inj_on_of_nodup_map h.births hpin hqin hbirths
      rfl
    · exact absurd hkey (deleteText_ne_createText p birth otherId)
  · obtain ⟨q, other, otherId, otherSpec, hqin, hq, hqid, hqspec, rfl | rfl⟩ := mem_agenda.mp hb
    · exact absurd hkey.symm (deleteText_ne_createText q other nodeId)
    · have hids : nodeId = otherId := hsuffix hkey
      have hpq : p = q := h.created _ (mem_created_of_createdId hid) _ (mem_created_of_createdId hqid) hids
      subst hpq hids
      obtain ⟨rfl, rfl⟩ := h.same_mesh hm hn hp hq
      cases hspec.symm.trans hqspec
      rfl

theorem owes_create {p : PathName} {nodeId : String} (hid : t.createdId p = some nodeId) (type : String)
    (executable : Option Binding) :
    t.owes steps (.createNode p.1 p.2 nodeId k type none executable none) = !done steps (nodeCreateKey nodeId) := by
  have hrecreated : t.recreated steps (p.1, p.2) = done steps (nodeCreateKey nodeId) := by
    unfold recreated
    rw [hid, Option.any_some]
  unfold owes
  rw [BuildOperation.node, Option.any_some, hrecreated]
  exact Bool.and_self _

theorem owes_delete {p : PathName} {nodeId : String} (hid : t.createdId p = some nodeId) (birth : PinnedBirth) :
    t.owes steps (deletePinned p birth) =
      (!done steps (deletePinned p birth).key && !done steps (nodeCreateKey nodeId)) := by
  have hrecreated : t.recreated steps (p.1, p.2) = done steps (nodeCreateKey nodeId) := by
    unfold recreated
    rw [hid, Option.any_some]
  unfold owes
  rw [deletePinned, BuildOperation.node, Option.any_some, hrecreated]

/-- A mesh's replacement step is the first of its agenda that is owed. -/
theorem replacementOf_eq_find (hspec : ∀ p ∈ m.nodes, (m.spec p).isSome = true) (steps : List BuildStep)
    (pins : List (PathName × PinnedBirth)) :
    t.replacementOf k m steps pins = (pins.flatMap (t.agendaOf k m)).find? (t.owes steps) := by
  induction pins with
  | nil => rfl
  | cons pin pins ih =>
    rw [List.flatMap_cons, List.find?_append]
    unfold replacementOf
    rw [← ih]
    split
    next hp =>
      split
      next hnone =>
        have hagenda : t.agendaOf k m pin = [] := by
          unfold agendaOf
          rw [if_pos hp, hnone]
        rw [hagenda, List.find?_nil, Option.none_or]
      next nodeId hid =>
        obtain ⟨spec, hspec⟩ := Option.isSome_iff_exists.mp (hspec pin.1 hp)
        rw [agendaOf_of_pin hp hid hspec, List.find?_cons, List.find?_cons, List.find?_nil, owes_delete hid, owes_create hid,
          hspec]
        cases done steps (nodeCreateKey nodeId) <;> cases done steps (deletePinned pin.1 pin.2).key <;> rfl
    next hp =>
      have hagenda : t.agendaOf k m pin = [] := if_neg hp
      rw [hagenda, List.find?_nil, Option.none_or]

theorem replacementStep_eq_find (h : t.Accepted) (hm : t.meshes[k]? = some m) (steps : List BuildStep) :
    t.replacementStep k m steps = (t.agenda k m).find? (t.owes steps) :=
  replacementOf_eq_find (h.valid.spec k m hm) steps t.pinned

/-- A step of the agenda acts at a replaced path of the mesh. -/
theorem Accepted.replacesIn_of_agenda (h : t.Accepted) (hm : t.meshes[k]? = some m) (hop : op ∈ t.agenda k m) :
    ∃ p, op.node = some p ∧ p ∈ m.nodes ∧ (t.replaced p).isSome = true := by
  obtain ⟨p, birth, nodeId, spec, hpin, hp, hid, _, hop⟩ := mem_agenda.mp hop
  refine ⟨p, ?_, hp, Option.isSome_iff_exists.mpr ⟨birth, h.replaced_of_pin hm hpin hp hid⟩⟩
  rcases hop with rfl | rfl <;> rfl

theorem Accepted.agenda_of_step (h : t.Accepted) (hm : t.meshes[k]? = some m) (hop : t.replacementStep k m steps = some op) :
    op ∈ t.agenda k m := by
  rw [replacementStep_eq_find h hm] at hop
  exact List.mem_of_find?_eq_some hop

/-- Of a mesh's part of the plan, only its replacement step is a step of a replacement. -/
theorem filter_planMesh (h : t.Accepted) (hm : t.meshes[k]? = some m) {j : String} {n : MeshTopology}
    (hn : t.meshes[j]? = some n) (observed : Topology) (held : List String) :
    (t.planMesh observed held steps j n).filter (t.replacesIn m) = if j = k then (t.replacementStep k m steps).toList else [] := by
  have hcreates : ((adminsFirst n).filterMap (t.createStep observed held steps j n)).filter (t.replacesIn m) = [] := by
    refine List.filter_eq_nil_iff.mpr fun op hop => ?_
    obtain ⟨p, _, hop⟩ := List.mem_filterMap.mp hop
    obtain ⟨nodeId, type, executable, rfl, _, hnot⟩ := createStep_some hop
    simp only [replacesIn, BuildOperation.node, Option.any_some, hnot, Bool.and_false, Bool.false_eq_true, not_false_iff]
  have hmesh : (if observed.meshes.any fun x => x.name == j then [] else [BuildOperation.createMesh j n.meshId]).filter
      (t.replacesIn m) = [] := by
    split
    next => rfl
    next => rfl
  unfold planMesh
  rw [List.filter_append, List.filter_append, hmesh, hcreates, List.nil_append, List.append_nil]
  cases hstep : t.replacementStep j n steps with
  | none =>
    split
    next hjk =>
      subst hjk
      cases hm.symm.trans hn
      rw [hstep]
      rfl
    next => rfl
  | some op =>
    obtain ⟨p, hnode, hp, hreplaced⟩ := h.replacesIn_of_agenda hn (h.agenda_of_step hn hstep)
    split
    next hjk =>
      subst hjk
      cases hm.symm.trans hn
      rw [hstep]
      refine List.filter_eq_self.mpr fun op hop => ?_
      cases List.mem_singleton.mp hop
      unfold replacesIn
      rw [hnode, Option.any_some, decide_eq_true hp, hreplaced, Bool.and_self]
    next hjk =>
      refine List.filter_eq_nil_iff.mpr fun op hop => ?_
      cases List.mem_singleton.mp hop
      have hout : p ∉ m.nodes := fun hin => hjk (h.same_mesh hm hn hin hp).1
      unfold replacesIn
      rw [hnode, Option.any_some, decide_eq_false hout, Bool.false_and]
      exact Bool.false_ne_true

/-- A plan holds of a mesh's replacements the one step the pass plans. -/
theorem filter_planOf (h : t.Accepted) (hm : t.meshes[k]? = some m) (steps : List BuildStep) (v : Pass) :
    (t.planOf steps v).filter (t.replacesIn m) = (t.replacementStep k m steps).toList := by
  have hbranch : (t.meshes.isEmpty && t.pinned.isEmpty) = false := by
    have hfull : t.meshes.isEmpty = false := by
      refine Bool.eq_false_iff.mpr fun hempty => ?_
      rw [ExtTreeMap.isEmpty_iff.mp hempty, ExtTreeMap.getElem?_empty] at hm
      cases hm
    rw [hfull, Bool.false_and]
  have hdeletes : ((t.extra v.view v.created).filterMap (t.planDelete v.view steps)).filter (t.replacesIn m) = [] := by
    refine List.filter_eq_nil_iff.mpr fun op hop => ?_
    obtain ⟨p, hp, hop⟩ := List.mem_filterMap.mp hop
    obtain ⟨hcontains, hpinned⟩ := mem_extra hp
    obtain ⟨birth, _, rfl⟩ := planDelete_some hpinned hop
    have hnot : t.replaced p = none := by
      unfold replaced
      rw [hcontains, Bool.not_false, Bool.true_or, if_pos rfl]
    simp only [replacesIn, deletePinned, BuildOperation.node, Option.any_some, hnot, Option.isSome_none, Bool.and_false,
      Bool.false_eq_true, not_false_iff]
  have hshutdowns : ((t.gone v.view v.openDeletes).filterMap (shutdownMesh v.view)).filter (t.replacesIn m) = [] := by
    refine List.filter_eq_nil_iff.mpr fun op hop => ?_
    obtain ⟨mesh, _, hop⟩ := List.mem_filterMap.mp hop
    obtain ⟨_, meshId, _, _, _, rfl⟩ := shutdownMesh_some hop
    exact Bool.false_ne_true
  unfold planOf planWith
  rw [hbranch, if_neg Bool.false_ne_true, List.filter_append, List.filter_append, hdeletes, hshutdowns, List.append_nil,
    List.append_nil, List.filter_flatMap, flatMap_toList_of_lookup hm, filter_planMesh h hm hm, if_pos rfl]
  intro e he hek
  rw [filter_planMesh h hm (ExtTreeMap.mem_toList_iff_getElem?_eq_some.mp he), if_neg hek]

theorem replaces_of_replacesIn (h : t.replacesIn m op = true) : t.replaces op = true := by
  unfold replacesIn at h
  unfold replaces
  cases hnode : op.node with
  | none =>
    rw [hnode] at h
    cases h
  | some p =>
    rw [hnode, Option.any_some] at h
    exact (Bool.and_eq_true_iff.mp h).2

theorem replacesIn_of_node {p : PathName} (hnode : op.node = some p) (hp : p ∈ m.nodes) (hreplaced : (t.replaced p).isSome = true) :
    t.replacesIn m op = true := by
  unfold replacesIn
  rw [hnode, Option.any_some, decide_eq_true hp, hreplaced, Bool.and_self]

/-- A step of a replacement in a plan is the step its mesh plans. -/
theorem Accepted.step_of_planned (h : t.Accepted) (hm : t.meshes[k]? = some m) {v : Pass} (hop : op ∈ t.planOf steps v)
    {p : PathName} (hnode : op.node = some p) (hp : p ∈ m.nodes) (hreplaced : (t.replaced p).isSome = true) :
    t.replacementStep k m steps = some op := by
  have hin := List.mem_filter.mpr ⟨hop, replacesIn_of_node hnode hp hreplaced⟩
  rw [filter_planOf h hm] at hin
  exact Option.mem_toList.mp hin

theorem done_pass (steps : List BuildStep) (v : Pass) (key : OperationId) :
    done (t.pass steps v) key = (done steps key || done v.others key ||
      ((t.planOf steps v).filter t.replaces).any fun op => operationText op.key == operationText key) := by
  unfold pass done completed
  rw [List.any_append, List.any_append, List.any_map]
  congr 2
  funext op
  simp only [Function.comp_apply, completeStep, beq_self_eq_true, Bool.and_true]

/-- A pass completes of a mesh's agenda the step it plans, and nothing else. -/
theorem Accepted.done_pass_agenda (h : t.Accepted) (hm : t.meshes[k]? = some m) (hop : op ∈ t.agenda k m) (steps : List BuildStep)
    {v : Pass} (hothers : ∀ s ∈ v.others, t.Apart s) :
    done (t.pass steps v) op.key = (done steps op.key || decide (t.replacementStep k m steps = some op)) := by
  have hforeign : done v.others op.key = false := by
    unfold done completed
    refine List.any_eq_false.mpr fun s hs hcomplete => ?_
    simp only [Bool.and_eq_true, beq_iff_eq] at hcomplete
    apply hothers s hs k m hm op hop
    cases s
    simp only at hcomplete
    rw [completeStep, hcomplete.1.1, hcomplete.1.2, hcomplete.2]
  rw [done_pass, hforeign, Bool.or_false]
  congr 1
  rw [Bool.eq_iff_iff, List.any_eq_true, decide_eq_true_iff]
  constructor
  · intro hany
    obtain ⟨other, hother, htext⟩ := hany
    obtain ⟨hplanned, hreplaces⟩ := List.mem_filter.mp hother
    unfold replaces at hreplaces
    cases hnode : other.node with
    | none =>
      rw [hnode] at hreplaces
      cases hreplaces
    | some p =>
      rw [hnode, Option.any_some] at hreplaces
      obtain ⟨birth, hbirth⟩ := Option.isSome_iff_exists.mp hreplaces
      obtain ⟨⟨j, n, hn, hp⟩, _⟩ := h.of_replaced hbirth
      have hstep := h.step_of_planned hn hplanned hnode hp hreplaces
      have heq := h.key_inj hn hm (h.agenda_of_step hn hstep) hop (beq_iff_eq.mp htext)
      -- The mesh of the step is the mesh of the path it acts at.
      obtain ⟨q, hqnode, hq, _⟩ := h.replacesIn_of_agenda hm hop
      rw [heq, hqnode] at hnode
      cases hnode
      obtain ⟨rfl, rfl⟩ := h.same_mesh hm hn hq hp
      rw [hstep, heq]
  · intro hstep
    refine ⟨op, List.mem_filter.mpr ?_, beq_self_eq_true _⟩
    have hin : op ∈ (t.planOf steps v).filter (t.replacesIn m) := by
      rw [filter_planOf h hm, hstep]
      exact List.mem_singleton.mpr rfl
    exact ⟨(List.mem_filter.mp hin).1, replaces_of_replacesIn (List.mem_filter.mp hin).2⟩

/-- After a pass a mesh owes what it owed but the step the pass planned. -/
theorem Accepted.owes_pass (h : t.Accepted) (hm : t.meshes[k]? = some m) (hop : op ∈ t.agenda k m) (steps : List BuildStep)
    {v : Pass} (hothers : ∀ s ∈ v.others, t.Apart s) :
    t.owes (t.pass steps v) op = (t.owes steps op && decide (t.replacementStep k m steps ≠ some op)) := by
  have hdone := h.done_pass_agenda hm hop steps hothers
  obtain ⟨p, birth, nodeId, spec, hpin, hp, hid, hspec, hop⟩ := mem_agenda.mp hop
  have hcreate : BuildOperation.createNode p.1 p.2 nodeId k spec.type none spec.executable none ∈ t.agenda k m :=
    mem_agenda.mpr ⟨p, birth, nodeId, spec, hpin, hp, hid, hspec, .inr rfl⟩
  have hcreated := h.done_pass_agenda hm hcreate steps hothers
  have hkey : (BuildOperation.createNode p.1 p.2 nodeId k spec.type none spec.executable none).key = nodeCreateKey nodeId := rfl
  rw [hkey] at hcreated
  rcases hop with rfl | rfl
  · rw [owes_delete hid, owes_delete hid, hdone, hcreated]
    -- The create is planned only once the delete is done, and the delete is owed no more.
    have hafter : t.replacementStep k m steps = some (.createNode p.1 p.2 nodeId k spec.type none spec.executable none) →
        done steps (deletePinned p birth).key = true := by
      intro hstep
      obtain ⟨before, q, other, after, otherId, hpins, _, _, _, _, ⟨hdelete, _⟩ | ⟨hdeleted, spec, _, hnode⟩⟩ :=
        replacementOf_first hstep
      · cases hdelete
      · have hpq : p = q := Prod.ext (BuildOperation.createNode.inj hnode).1 (BuildOperation.createNode.inj hnode).2.1
        have hqin : (q, other) ∈ t.pinned := by
          rw [hpins]
          exact List.mem_append_right before List.mem_cons_self
        cases List.inj_on_of_nodup_map h.paths hpin hqin hpq
        exact hdeleted
    by_cases hstep : t.replacementStep k m steps = some (.createNode p.1 p.2 nodeId k spec.type none spec.executable none)
    · rw [hafter hstep]
      rfl
    · rw [decide_eq_false hstep, Bool.or_false, decide_not, Bool.not_or]
      ac_rfl
  · rw [owes_create hid, owes_create hid, hcreated, decide_not, Bool.not_or]

theorem node_agendaOf {pin : PathName × PinnedBirth} (hop : op ∈ t.agendaOf k m pin) : op.node = some pin.1 := by
  unfold agendaOf at hop
  split at hop
  next =>
    split at hop
    next =>
      rcases List.mem_cons.mp hop with rfl | hop
      · rfl
      · cases List.mem_singleton.mp hop
        rfl
    next => cases hop
  next => cases hop

theorem Accepted.nodup_agenda (h : t.Accepted) (k : String) (m : MeshTopology) : (t.agenda k m).Nodup := by
  refine List.nodup_flatMap.mpr ⟨fun pin _ => ?_, ?_⟩
  · unfold agendaOf
    split
    next =>
      split
      next =>
        refine List.nodup_cons.mpr ⟨fun hin => ?_, List.nodup_singleton _⟩
        cases List.mem_singleton.mp hin
      next => exact List.nodup_nil
    next => exact List.nodup_nil
  · refine (List.pairwise_map.mp h.paths).imp fun {a b} hab op ha hb => hab ?_
    exact Option.some.inj ((node_agendaOf ha).symm.trans (node_agendaOf hb))

/-- What is left of a list once its first member of a kind is of the kind no more. -/
theorem filter_eq_tail {α : Type} [DecidableEq α] {l : List α} (hl : l.Nodup) {p q : α → Bool}
    (hq : ∀ a ∈ l, q a = (p a && decide (l.find? p ≠ some a))) : l.filter q = (l.filter p).tail := by
  induction l with
  | nil => rfl
  | cons a l ih =>
    obtain ⟨ha, hl⟩ := List.nodup_cons.mp hl
    have hfirst := hq a List.mem_cons_self
    cases hpa : p a with
    | true =>
      rw [List.find?_cons_of_pos hpa] at hq hfirst
      rw [hpa, decide_eq_false (fun hne => hne rfl), Bool.and_false] at hfirst
      rw [List.filter_cons_of_neg (by rw [hfirst]; exact Bool.false_ne_true), List.filter_cons_of_pos hpa, List.tail_cons]
      refine List.filter_congr fun b hb => ?_
      have hab : a ≠ b := fun hab => ha (hab ▸ hb)
      have hne : some a ≠ some b := fun heq => hab (Option.some.inj heq)
      rw [hq b (List.mem_cons_of_mem a hb), decide_eq_true hne, Bool.and_true]
    | false =>
      have hpa : ¬ p a = true := by
        rw [hpa]
        exact Bool.false_ne_true
      rw [List.find?_cons_of_neg hpa] at hq
      have hqa : ¬ q a = true := fun hqa => hpa (Bool.and_eq_true_iff.mp (hfirst.symm.trans hqa)).1
      rw [List.filter_cons_of_neg hqa, List.filter_cons_of_neg hpa]
      exact ih hl fun b hb => hq b (List.mem_cons_of_mem a hb)

/-- What a mesh owes, in order. -/
def owed (t : FabricTopology) (mesh : String) (m : MeshTopology) (steps : List BuildStep) : List BuildOperation :=
  (t.agenda mesh m).filter (t.owes steps)

theorem replacementStep_eq_head (h : t.Accepted) (hm : t.meshes[k]? = some m) (steps : List BuildStep) :
    t.replacementStep k m steps = (t.owed k m steps).head? := by
  rw [replacementStep_eq_find h hm, owed, List.head?_filter]

theorem Accepted.owed_pass (h : t.Accepted) (hm : t.meshes[k]? = some m) (steps : List BuildStep) {v : Pass}
    (hothers : ∀ s ∈ v.others, t.Apart s) : t.owed k m (t.pass steps v) = (t.owed k m steps).tail := by
  refine filter_eq_tail (h.nodup_agenda k m) fun op hop => ?_
  rw [h.owes_pass hm hop steps hothers, replacementStep_eq_find h hm]

/-- The passes plan what the mesh owes, one step a pass, and the mesh is left owing the rest. -/
theorem Accepted.planned_passes (h : t.Accepted) (hm : t.meshes[k]? = some m) (steps : List BuildStep) {vs : List Pass}
    (hothers : ∀ v ∈ vs, ∀ s ∈ v.others, t.Apart s) :
    (t.planned steps vs).filter (t.replacesIn m) = (t.owed k m steps).take vs.length ∧
      t.owed k m (vs.foldl t.pass steps) = (t.owed k m steps).drop vs.length := by
  induction vs generalizing steps with
  | nil => exact ⟨rfl, rfl⟩
  | cons v vs ih =>
    have hv := h.owed_pass hm steps (hothers v List.mem_cons_self)
    obtain ⟨hplanned, hleft⟩ := ih (t.pass steps v) fun w hw => hothers w (List.mem_cons_of_mem v hw)
    have hfirst : ((t.planOf steps v).filter t.replaces).filter (t.replacesIn m) = (t.owed k m steps).head?.toList := by
      rw [List.filter_filter, ← replacementStep_eq_head h hm, ← filter_planOf h hm steps v]
      refine List.filter_congr fun op _ => ?_
      rw [Bool.eq_iff_iff, Bool.and_eq_true_iff]
      exact ⟨fun hboth => hboth.1, fun hin => ⟨hin, replaces_of_replacesIn hin⟩⟩
    constructor
    · rw [planned, List.filter_append, hfirst, hplanned, hv]
      cases t.owed k m steps with
      | nil => simp
      | cons op rest => rfl
    · rw [List.foldl_cons, hleft, hv, List.length_cons, List.drop_tail]

/-- Two steps for each replaced path, its delete and its create. -/
theorem Accepted.length_agenda (h : t.Accepted) (hm : t.meshes[k]? = some m) :
    (t.agenda k m).length = 2 * (t.replacedPaths m).length := by
  have hlength : ∀ pins : List (PathName × PinnedBirth), (pins.flatMap (t.agendaOf k m)).length =
      2 * (pins.filter fun c => decide (c.1 ∈ m.nodes) && (t.createdId c.1).isSome).length := by
    intro pins
    induction pins with
    | nil => rfl
    | cons pin pins ih =>
      rw [List.flatMap_cons, List.length_append, ih]
      by_cases hp : pin.1 ∈ m.nodes
      · cases hid : t.createdId pin.1 with
        | none =>
          have hagenda : t.agendaOf k m pin = [] := by
            unfold agendaOf
            rw [if_pos hp, hid]
          rw [hagenda, List.filter_cons_of_neg (by simp [hid])]
          exact Nat.zero_add _
        | some nodeId =>
          obtain ⟨spec, hspec⟩ := Option.isSome_iff_exists.mp (h.valid.spec k m hm pin.1 hp)
          rw [agendaOf_of_pin hp hid hspec, List.filter_cons_of_pos (by simp [hid, hp]), List.length_cons, List.length_cons,
            List.length_cons, List.length_nil]
          omega
      · have hagenda : t.agendaOf k m pin = [] := if_neg hp
        rw [hagenda, List.filter_cons_of_neg (by simp [hp])]
        exact Nat.zero_add _
  have hperm : ((t.pinned.filter fun c => decide (c.1 ∈ m.nodes) && (t.createdId c.1).isSome).map Prod.fst).Perm
      (t.replacedPaths m) := by
    refine (List.perm_ext_iff_of_nodup ?_ ?_).mpr fun p => ?_
    · exact h.paths.sublist (List.filter_sublist.map _)
    · exact (nodup_toList m.nodes).filter _
    · rw [List.mem_map, replacedPaths, List.mem_filter, ExtTreeSet.mem_toList]
      constructor
      · intro hpin
        obtain ⟨pin, hpin, rfl⟩ := hpin
        obtain ⟨hpin, hkept⟩ := List.mem_filter.mp hpin
        obtain ⟨hp, hid⟩ := Bool.and_eq_true_iff.mp hkept
        obtain ⟨nodeId, hid⟩ := Option.isSome_iff_exists.mp hid
        have hp := of_decide_eq_true hp
        exact ⟨hp, Option.isSome_iff_exists.mpr ⟨_, h.replaced_of_pin hm hpin hp hid⟩⟩
      · intro hp
        obtain ⟨hp, hreplaced⟩ := hp
        obtain ⟨birth, hbirth⟩ := Option.isSome_iff_exists.mp hreplaced
        obtain ⟨_, hpin, nodeId, hid⟩ := h.of_replaced hbirth
        refine ⟨(p, birth), List.mem_filter.mpr ⟨hpin, ?_⟩, rfl⟩
        rw [decide_eq_true hp, hid, Option.isSome_some, Bool.and_self]
  rw [agenda, hlength, ← hperm.length_eq, List.length_map]

/-- With no step of it done, a mesh owes its whole agenda. -/
theorem owed_fresh (hfresh : ∀ op ∈ t.agenda k m, done steps op.key = false) : t.owed k m steps = t.agenda k m := by
  refine List.filter_eq_self.mpr fun op hop => ?_
  have hopen := hfresh op hop
  obtain ⟨p, birth, nodeId, spec, hpin, hp, hid, hspec, hop⟩ := mem_agenda.mp hop
  have hcreate := hfresh _ (mem_agenda.mpr ⟨p, birth, nodeId, spec, hpin, hp, hid, hspec, .inr rfl⟩)
  have hcreate : done steps (nodeCreateKey nodeId) = false := hcreate
  rcases hop with rfl | rfl
  · rw [owes_delete hid, hopen, hcreate]
    rfl
  · rw [owes_create hid, hcreate]
    rfl

/-- Where a mesh owes nothing, each replaced path of it is created again. -/
theorem Accepted.recreated_of_owed (h : t.Accepted) (hm : t.meshes[k]? = some m) (howed : t.owed k m steps = [])
    {p : PathName} {birth : PinnedBirth} (hp : p ∈ m.nodes) (hreplaced : t.replaced p = some birth) :
    t.recreated steps p = true := by
  obtain ⟨_, hpin, nodeId, hid⟩ := h.of_replaced hreplaced
  obtain ⟨spec, hspec⟩ := Option.isSome_iff_exists.mp (h.valid.spec k m hm p hp)
  have hcreate : .createNode p.1 p.2 nodeId k spec.type none spec.executable none ∈ t.agenda k m :=
    mem_agenda.mpr ⟨p, birth, nodeId, spec, hpin, hp, hid, hspec, .inr rfl⟩
  have hdone := List.filter_eq_nil_iff.mp howed _ hcreate
  rw [owes_create hid, Bool.not_eq_true', Bool.not_eq_false] at hdone
  unfold recreated
  rw [hid, Option.any_some, hdone]

/-- A plan takes a mesh's replacements one step at a time, in the order their births are pinned, a create after its delete. -/
structure InTurn (t : FabricTopology) (m : MeshTopology) (steps : List BuildStep) (plan : List BuildOperation) : Prop where
  one : (plan.filter (t.replacesIn m)).length ≤ 1
  notDone : ∀ op ∈ plan, t.replacesIn m op = true → done steps op.key = false
  deleted : ∀ op ∈ plan, ∀ p ∈ m.nodes, ∀ birth, t.replaced p = some birth → op.slot = .createNode p →
    done steps (deletePinned p birth).key = true
  ordered : ∀ op ∈ plan, ∀ p ∈ m.nodes, op.node = some p → (t.replaced p).isSome = true →
    ∀ before birth after, t.pinned = before ++ (p, birth) :: after →
      ∀ c ∈ before, c.1 ∈ m.nodes → (t.replaced c.1).isSome = true → t.recreated steps c.1 = true

theorem Accepted.inTurn (h : t.Accepted) (hm : t.meshes[k]? = some m) (steps : List BuildStep) (v : Pass) :
    t.InTurn m steps (t.planOf steps v) where
  one := by
    rw [filter_planOf h hm]
    exact Option.length_toList_le
  notDone op hop hin := by
    have hstep : op ∈ (t.planOf steps v).filter (t.replacesIn m) := List.mem_filter.mpr ⟨hop, hin⟩
    rw [filter_planOf h hm, Option.mem_toList, replacementStep_eq_find h hm] at hstep
    have howes := List.find?_some hstep
    simpa using (Bool.and_eq_true_iff.mp howes).1
  deleted op hop p hp birth hreplaced hslot := by
    have hnode : op.node = some p := by
      cases op with
      | createNode path name nodeId mesh type takenOver executable entry => exact congrArg some (Slot.createNode.inj hslot)
      | createMesh | deleteLiveNode | shutdownMesh | deleteFabric => cases hslot
    have hstep := h.step_of_planned hm hop hnode hp (Option.isSome_iff_exists.mpr ⟨birth, hreplaced⟩)
    obtain ⟨before, q, other, after, nodeId, hpins, _, _, _, _, ⟨rfl, _⟩ | ⟨hdeleted, spec, _, rfl⟩⟩ := replacementOf_first hstep
    · cases hslot
    · have hqp : q = p := Slot.createNode.inj hslot
      have hqin : (q, other) ∈ t.pinned := by
        rw [hpins]
        exact List.mem_append_right before List.mem_cons_self
      cases List.inj_on_of_nodup_map h.paths hqin (h.of_replaced hreplaced).2.1 hqp
      exact hdeleted
  ordered op hop p hp hnode hreplaced before birth after hpins c hc hcm hcreplaced := by
    have hstep := h.step_of_planned hm hop hnode hp hreplaced
    obtain ⟨first, q, other, rest, nodeId, hsplit, _, _, _, hfirst, hop⟩ := replacementOf_first hstep
    have hqp : q = p := by
      rcases hop with ⟨rfl, _⟩ | ⟨_, _, _, rfl⟩ <;> exact Option.some.inj hnode
    subst hqp
    -- The path is pinned once, so its pin splits the pins one way.
    have hsame : first = before := by
      have hotherIn : (q, other) ∈ t.pinned := by
        rw [hsplit]
        exact List.mem_append_right first List.mem_cons_self
      have hbirthIn : (q, birth) ∈ t.pinned := by
        rw [hpins]
        exact List.mem_append_right before List.mem_cons_self
      have heq : (q, other) = (q, birth) := List.inj_on_of_nodup_map h.paths hotherIn hbirthIn rfl
      have hnodup := h.paths.of_map
      rw [hsplit] at hnodup
      obtain ⟨hout, _⟩ := List.nodup_cons.mp (List.nodup_middle.mp hnodup)
      rw [List.mem_append, not_or] at hout
      rw [← heq, hsplit] at hpins
      exact ((List.append_cons_inj_of_notMem hout.1 hout.2).mp hpins).1
    subst hsame
    obtain ⟨birth, hbirth⟩ := Option.isSome_iff_exists.mp hcreplaced
    obtain ⟨_, _, id, hid⟩ := h.of_replaced hbirth
    unfold recreated
    rw [hid, Option.any_some]
    exact hfirst c hc hcm id hid

/-- Each replaced path is of a mesh. A plan takes a mesh's replacements in turn; passes that record each step they plan take
two for each replaced path, and leave none. -/
theorem replacements_run_in_turn (h : t.Accepted) :
    (∀ p, (t.replaced p).isSome = true → ∃ (k : String) (m : MeshTopology), t.meshes[k]? = some m ∧ p ∈ t.replacedPaths m) ∧
    ∀ (k : String) (m : MeshTopology), t.meshes[k]? = some m →
      (∀ (steps : List BuildStep) (v : Pass), t.InTurn m steps (t.planOf steps v)) ∧
      ∀ (steps : List BuildStep) (vs : List Pass), (∀ v ∈ vs, ∀ s ∈ v.others, t.Apart s) →
        ((t.planned steps vs).filter (t.replacesIn m)).Nodup ∧
        ((∀ op ∈ t.agenda k m, done steps op.key = false) →
          (t.planned steps vs).filter (t.replacesIn m) = (t.agenda k m).take vs.length ∧
          ((t.planned steps vs).filter (t.replacesIn m)).length = min vs.length (2 * (t.replacedPaths m).length)) ∧
        (2 * (t.replacedPaths m).length ≤ vs.length →
          (∀ p ∈ t.replacedPaths m, t.recreated (vs.foldl t.pass steps) p = true) ∧
          ∀ v : Pass, (t.planOf (vs.foldl t.pass steps) v).filter (t.replacesIn m) = []) := by
  refine ⟨fun p hp => ?_, fun k m hm => ⟨h.inTurn hm, fun steps vs hothers => ?_⟩⟩
  · obtain ⟨birth, hbirth⟩ := Option.isSome_iff_exists.mp hp
    obtain ⟨⟨k, m, hm, hin⟩, _⟩ := h.of_replaced hbirth
    exact ⟨k, m, hm, List.mem_filter.mpr ⟨ExtTreeSet.mem_toList.mpr hin, hp⟩⟩
  obtain ⟨hplanned, hleft⟩ := h.planned_passes hm steps hothers
  have hlength := h.length_agenda hm
  refine ⟨?_, fun hfresh => ?_, fun henough => ?_⟩
  · rw [hplanned]
    exact ((h.nodup_agenda k m).filter _).sublist (List.take_sublist _ _)
  · rw [hplanned, owed_fresh hfresh, List.length_take, hlength]
    exact ⟨rfl, rfl⟩
  · have hnone : t.owed k m (vs.foldl t.pass steps) = [] := by
      rw [hleft, List.drop_eq_nil_iff]
      have hle : (t.owed k m steps).length ≤ (t.agenda k m).length := List.length_filter_le _ _
      omega
    refine ⟨fun p hp => ?_, fun v => ?_⟩
    · obtain ⟨hp, hreplaced⟩ := List.mem_filter.mp hp
      obtain ⟨birth, hbirth⟩ := Option.isSome_iff_exists.mp hreplaced
      exact h.recreated_of_owed hm hnone (ExtTreeSet.mem_toList.mp hp) hbirth
    · rw [filter_planOf h hm, replacementStep_eq_head h hm, hnone]
      rfl

end FabricTopology

/-- A Create compiled over a view of births with ids of their own, each replaced path listed once, gives such a topology. -/
theorem Submitted.accepted {mint : Minted} {observed : Topology} {before final : FabricTopology} {meshes : List Meshes}
    {nodes : List Nodes} {replaced : List PathName} {pins : List (PathName × PinnedBirth)} (hd : observed.Distinct)
    (hmint : ∀ p ∈ (BuildChange.create meshes nodes).createdPaths, ∀ q ∈ (BuildChange.create meshes nodes).createdPaths,
      mint.node p = mint.node q → p = q) (hreplaced : replaced.Nodup)
    (h : Submitted mint observed before (.create meshes nodes) replaced final pins) : (final.withPins pins).Accepted := by
  obtain ⟨next, happlied, hvalidate, rfl⟩ := compile_ok h.notFabric h.compiled
  obtain ⟨deleting, exited, hdeleting, hexited, hpins⟩ := h.pinned
  cases hdeleting
  obtain ⟨hpaths, hbirths⟩ := pinsOf_some h.held hexited hpins
  have hnodup : (pins.map Prod.fst).Nodup := by rwa [hpaths]
  have hfull : next.meshes.isEmpty = false := by
    obtain ⟨k, m, hm⟩ := created_nonempty happlied
    refine Bool.eq_false_iff.mpr fun hempty => ?_
    rw [ExtTreeMap.isEmpty_iff.mp hempty, ExtTreeMap.getElem?_empty] at hm
    cases hm
  refine ⟨hvalidate hfull, hnodup, ?_, ?_⟩
  · refine List.Nodup.map_on (fun c hc d hd' hids => ?_) hnodup.of_map
    obtain ⟨n, hn, hnc, hnid⟩ := hbirths c hc
    obtain ⟨m, hm, hmd, hmid⟩ := hbirths d hd'
    have hsame : n = m := List.inj_on_of_nodup_map hd.ids hn hm (hnid.trans (hids.trans hmid.symm))
    refine List.inj_on_of_nodup_map hnodup hc hd' ?_
    rw [← hnc, ← hmd, hsame]
  · intro c hc d hd' hids
    obtain ⟨p, hp, rfl⟩ := List.mem_map.mp hc
    obtain ⟨q, hq, rfl⟩ := List.mem_map.mp hd'
    exact hmint p (ExtTreeSet.mem_toList.mp hp) q (ExtTreeSet.mem_toList.mp hq) hids

/-- A mesh of an admin and two brokers, the first their primary. -/
def twoBrokers : Topology :=
  ⟨"fabric", "fabric", [⟨some "mesh-id", "mesh", .ready⟩],
    [⟨"mesh.node-admin", "1", "node-admin", "mesh", "admin", some "a", .ready, true, true, false⟩,
     ⟨"mesh.broker", "1", "broker", "mesh", "first", some "b", .ready, true, false, false⟩,
     ⟨"mesh.broker", "2", "broker", "mesh", "second", some "c", .ready, false, false, false⟩]⟩

/-- Both brokers on another executable. -/
def replaceBrokers : BuildChange :=
  .create [] [⟨"mesh.broker", "1", "mesh", "broker", none, some ⟨"broker", "/bin/broker", "ab", none⟩, [], []⟩,
    ⟨"mesh.broker", "2", "mesh", "broker", none, some ⟨"broker", "/bin/broker", "ab", none⟩, [], []⟩]

def mintNamed : Minted := ⟨fun _ => "minted-mesh", fun p => "minted-" ++ p.2⟩

/-- The second broker's birth pinned first, the primary's last. -/
def brokerPins : List (PathName × PinnedBirth) :=
  [(("mesh.broker", "2"), ⟨"broker", "mesh", "second", "c"⟩), (("mesh.broker", "1"), ⟨"broker", "mesh", "first", "b"⟩)]

theorem replaceBrokers_in_turn :
    ∃ final m, Submitted mintNamed twoBrokers nothingAccepted replaceBrokers (brokerPins.map Prod.fst) final brokerPins ∧
      (final.withPins brokerPins).meshes["mesh"]? = some m ∧
      (((final.withPins brokerPins).planned [] (List.replicate 4 ⟨twoBrokers, [], [], [], []⟩)).filter
        ((final.withPins brokerPins).replacesIn m)).length = 4 := by
  have hchecks : (compileReplacing mintNamed nothingAccepted replaceBrokers twoBrokers (brokerPins.map Prod.fst)).toOption.any
      (fun final => ((final.withPins brokerPins).meshes["mesh"]?).any fun m =>
        decide (((final.withPins brokerPins).replacedPaths m).length = 2)) = true := by decide +kernel
  have hdistinct : twoBrokers.Distinct := by constructor <;> decide
  have hmint : ∀ p ∈ replaceBrokers.createdPaths, ∀ q ∈ replaceBrokers.createdPaths,
      mintNamed.node p = mintNamed.node q → p = q := by
    have hall : ∀ p ∈ replaceBrokers.createdPaths.toList, ∀ q ∈ replaceBrokers.createdPaths.toList,
        mintNamed.node p = mintNamed.node q → p = q := by decide +kernel
    exact fun p hp q hq => hall p (ExtTreeSet.mem_toList.mpr hp) q (ExtTreeSet.mem_toList.mpr hq)
  cases hcompiled : compileReplacing mintNamed nothingAccepted replaceBrokers twoBrokers (brokerPins.map Prod.fst) with
  | error e =>
    rw [hcompiled] at hchecks
    cases hchecks
  | ok final =>
    rw [hcompiled] at hchecks
    obtain ⟨_, hfinal, hmeshes⟩ := (Option.any_eq_true _ _).mp hchecks
    cases hfinal
    obtain ⟨m, hm, hpaths⟩ := (Option.any_eq_true _ _).mp hmeshes
    have hpaths := of_decide_eq_true hpaths
    have hsubmitted : Submitted mintNamed twoBrokers nothingAccepted replaceBrokers (brokerPins.map Prod.fst) final
        brokerPins :=
      ⟨by decide, by decide, by decide +kernel, hcompiled, _, [], rfl, fun e he => absurd he List.not_mem_nil, rfl⟩
    have haccepted := hsubmitted.accepted hdistinct hmint (by decide)
    refine ⟨final, m, hsubmitted, hm, ?_⟩
    obtain ⟨_, hrun⟩ := (FabricTopology.replacements_run_in_turn haccepted).2 "mesh" m hm
    have hothers : ∀ v ∈ List.replicate 4 (⟨twoBrokers, [], [], [], []⟩ : Pass), ∀ s ∈ v.others,
        (final.withPins brokerPins).Apart s := by
      intro v hv s hs
      cases List.eq_of_mem_replicate hv
      cases hs
    obtain ⟨_, hfresh, _⟩ := hrun [] (List.replicate 4 ⟨twoBrokers, [], [], [], []⟩) hothers
    rw [(hfresh fun _ _ => rfl).2, hpaths, List.length_replicate]
    rfl

end DistributedMesh.Build
