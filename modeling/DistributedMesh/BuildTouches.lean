import DistributedMesh.BuildCompiled
import DistributedMesh.BuildPlanned

namespace DistributedMesh.Build

open Std (ExtTreeMap ExtTreeSet)
open LexCode KeyedMaps

/-- The paths of the births that hold the node ids now; an id no birth holds is refused. -/
def deletedPaths (observed : Topology) : List String → Option (List PathName)
  | [] => some []
  | id :: rest =>
    match observed.birthOfNodeId id, deletedPaths observed rest with
    | some n, some paths => some (n.location :: paths)
    | _, _ => none

/-- The paths whose birth the change ends: a Delete's nodes, and the nodes it replaces. -/
def deletingPaths (observed : Topology) (replaced : List PathName) : BuildChange → Option (List PathName)
  | .delete _ nodeIds => (deletedPaths observed nodeIds).map (· ++ replaced)
  | _ => some replaced

/-- The pin of each birth; one with no incarnation cannot be pinned. -/
def pinAll : List Node → Option (List (PathName × PinnedBirth))
  | [] => some []
  | n :: rest =>
    match PinnedBirth.of n, pinAll rest with
    | some birth, some pins => some ((n.location, birth) :: pins)
    | _, _ => none

/-- The pins the acceptance sets: the birth the view holds at each path, and the births admitted as exited at paths it pins
none at. -/
def pinsOf (observed : Topology) (deleting : List PathName) (exited : List (PathName × PinnedBirth)) :
    Option (List (PathName × PinnedBirth)) :=
  (pinAll (deleting.filterMap observed.node)).map fun pins =>
    exited.foldl (fun pins e => if pins.any fun c => c.1 = e.1 then pins else pins ++ [e]) pins

theorem pinAll_some {nodes : List Node} {pins : List (PathName × PinnedBirth)} (h : pinAll nodes = some pins) :
    pins.map Prod.fst = nodes.map Node.location ∧ ∀ c ∈ pins, ∃ n ∈ nodes, n.location = c.1 ∧ n.nodeId = c.2.nodeId := by
  induction nodes generalizing pins with
  | nil =>
    cases h
    exact ⟨rfl, fun c hc => absurd hc List.not_mem_nil⟩
  | cons n nodes ih =>
    unfold pinAll at h
    split at h
    next birth rest hbirth hrest =>
      cases h
      obtain ⟨hpaths, hpins⟩ := ih hrest
      refine ⟨congrArg (n.location :: ·) hpaths, fun c hc => ?_⟩
      rcases List.mem_cons.mp hc with rfl | hc
      · obtain ⟨incarnation, _, rfl⟩ := Option.map_eq_some_iff.mp hbirth
        exact ⟨n, List.mem_cons_self, rfl, rfl⟩
      · obtain ⟨m, hm, hfacts⟩ := hpins c hc
        exact ⟨m, List.mem_cons_of_mem n hm, hfacts⟩
    next => cases h

/-- Where every path is held, each is pinned to the birth the view holds there, and nothing else is. -/
theorem pinsOf_some {observed : Topology} {deleting : List PathName} {exited pins : List (PathName × PinnedBirth)}
    (hheld : ∀ p ∈ deleting, (observed.node p).isSome = true) (hexited : ∀ e ∈ exited, e.1 ∈ deleting)
    (h : pinsOf observed deleting exited = some pins) :
    pins.map Prod.fst = deleting ∧ ∀ c ∈ pins, ∃ n ∈ observed.nodes, n.location = c.1 ∧ n.nodeId = c.2.nodeId := by
  obtain ⟨own, hown, rfl⟩ := Option.map_eq_some_iff.mp h
  obtain ⟨hpaths, hpins⟩ := pinAll_some hown
  have hlocations : ∀ l : List PathName, (∀ p ∈ l, (observed.node p).isSome = true) →
      (l.filterMap observed.node).map Node.location = l := by
    intro l
    induction l with
    | nil => exact fun _ => rfl
    | cons p l ih =>
      intro hl
      obtain ⟨n, hn⟩ := Option.isSome_iff_exists.mp (hl p List.mem_cons_self)
      rw [List.filterMap_cons_some hn, List.map_cons, (mem_of_node hn).2, ih fun q hq => hl q (List.mem_cons_of_mem p hq)]
  have hpaths : own.map Prod.fst = deleting := hpaths.trans (hlocations deleting hheld)
  have hfold : ∀ l : List (PathName × PinnedBirth), (∀ e ∈ l, e.1 ∈ deleting) →
      l.foldl (fun pins e => if pins.any fun c => c.1 = e.1 then pins else pins ++ [e]) own = own := by
    intro l
    induction l with
    | nil => exact fun _ => rfl
    | cons e l ih =>
      intro hl
      have hpinned : (own.any fun c => c.1 = e.1) = true := by
        have he := hl e List.mem_cons_self
        rw [← hpaths] at he
        obtain ⟨c, hc, hce⟩ := List.mem_map.mp he
        exact List.any_eq_true.mpr ⟨c, hc, decide_eq_true hce⟩
      rw [List.foldl_cons, if_pos hpinned]
      exact ih fun x hx => hl x (List.mem_cons_of_mem e hx)
  rw [hfold exited hexited]
  refine ⟨hpaths, fun c hc => ?_⟩
  obtain ⟨n, hn, hfacts⟩ := hpins c hc
  obtain ⟨p, _, hp⟩ := List.mem_filterMap.mp hn
  exact ⟨n, (mem_of_node hp).1, hfacts⟩

theorem mem_of_birthOfNodeId {observed : Topology} {id : String} {n : Node} (h : observed.birthOfNodeId id = some n) :
    n ∈ observed.nodes := by
  obtain ⟨first, _, h⟩ := Option.bind_eq_some_iff.mp h
  exact (mem_of_node (Option.filter_eq_some_iff.mp h).1).1

theorem deletedPaths_some {observed : Topology} {nodeIds : List String} {paths : List PathName}
    (h : deletedPaths observed nodeIds = some paths) :
    (paths = [] ↔ nodeIds = []) ∧ ∀ p ∈ paths, ∃ n ∈ observed.nodes, n.location = p := by
  induction nodeIds generalizing paths with
  | nil =>
    cases h
    exact ⟨by simp, fun p hp => absurd hp List.not_mem_nil⟩
  | cons id nodeIds ih =>
    unfold deletedPaths at h
    split at h
    next n rest hn hrest =>
      cases h
      refine ⟨by simp, fun p hp => ?_⟩
      rcases List.mem_cons.mp hp with rfl | hp
      · exact ⟨n, mem_of_birthOfNodeId hn, rfl⟩
      · exact (ih hrest).2 p hp
    next => cases h

/-- The meshes of the topology have ids of their own. -/
def FabricTopology.IdsApart (t : FabricTopology) : Prop :=
  ∀ (j k : String) (a b : MeshTopology), t.meshes[j]? = some a → t.meshes[k]? = some b → a.meshId = b.meshId → j = k

/-- The meshes of the view have ids of their own. -/
def Topology.IdsApart (o : Topology) : Prop :=
  ∀ m ∈ o.meshes, ∀ n ∈ o.meshes, ∀ id, m.id = some id → n.id = some id → m.name = n.name

/-- A plan creates what its Build creates, deletes what it pinned, shuts down no mesh it keeps, and holds nothing twice; with
ids of their own for the meshes, no two operations share a key. -/
structure PlanTouches (t : FabricTopology) (observed : Topology) (plan : List BuildOperation) : Prop where
  createMesh : ∀ mesh meshId, .createMesh mesh meshId ∈ plan → ∀ m ∈ observed.meshes, m.name ≠ mesh
  createNode : ∀ path name nodeId mesh type takenOver executable entry,
    .createNode path name nodeId mesh type takenOver executable entry ∈ plan → ((path, name), nodeId) ∈ t.created
  deleteLiveNode : ∀ path name mesh type exited birth, .deleteLiveNode path name mesh type exited birth ∈ plan →
    exited = none ∧ ∃ b, birth = some b ∧ ((path, name), b) ∈ t.pinned
  shutdownMesh : ∀ mesh meshId, .shutdownMesh mesh meshId ∈ plan → mesh ∉ t.meshes
  nodup : plan.Nodup
  keys : t.IdsApart → observed.IdsApart → (plan.map BuildOperation.key).Nodup

namespace FabricTopology

variable {t : FabricTopology} {observed : Topology}

/-- Operations that share a key act on the same. -/
theorem Planned.slot_eq (hcreated : ∀ c ∈ t.created, ∀ d ∈ t.created, c.2 = d.2 → c.1 = d.1)
    (hpinned : ∀ c ∈ t.pinned, ∀ d ∈ t.pinned, c.2.nodeId = d.2.nodeId → c.1 = d.1) (hids : t.IdsApart)
    (hobserved : observed.IdsApart) {a b : BuildOperation} (ha : t.Planned observed a) (hb : t.Planned observed b)
    (h : a.key = b.key) : a.slot = b.slot := by
  cases ha with
  | createMesh j m hm _ =>
    cases hb with
    | createMesh k n hn _ =>
      have hid : m.meshId = n.meshId := by simpa [BuildOperation.key, operationOn] using h
      exact congrArg Slot.createMesh (hids j k m n hm hn hid)
    | createNode | deletePinned | shutdownMesh => simp [BuildOperation.key, operationOn, Build.deletePinned] at h
  | createNode p nodeId _ _ _ hp =>
    cases hb with
    | createNode q otherId _ _ _ hq =>
      have hid : nodeId = otherId := by simpa [BuildOperation.key, operationOn] using h
      exact congrArg Slot.createNode (hcreated (p, nodeId) hp (q, otherId) hq hid)
    | createMesh | deletePinned | shutdownMesh => simp [BuildOperation.key, operationOn, Build.deletePinned] at h
  | deletePinned p birth hp =>
    cases hb with
    | deletePinned q other hq =>
      have hid : birth.nodeId = other.nodeId := by simpa [BuildOperation.key, operationOn, Build.deletePinned] using h
      exact congrArg Slot.deleteNode (hpinned (p, birth) hp (q, other) hq hid)
    | createMesh | createNode | shutdownMesh => simp [BuildOperation.key, operationOn, Build.deletePinned] at h
  | shutdownMesh m meshId hm hid _ =>
    cases hb with
    | shutdownMesh n otherId hn hother _ =>
      have hsame : meshId = otherId := by simpa [BuildOperation.key, operationOn] using h
      subst hsame
      exact congrArg Slot.shutdownMesh (hobserved m hm n hn meshId hid hother)
    | createMesh | createNode | deletePinned => simp [BuildOperation.key, operationOn, Build.deletePinned] at h

/-- The plan of a topology that is no fabric.delete. -/
theorem planTouches (hvalid : t.Valid) (hcreated : ∀ c ∈ t.created, ∀ d ∈ t.created, c.2 = d.2 → c.1 = d.1)
    (hpinned : ∀ c ∈ t.pinned, ∀ d ∈ t.pinned, c.2.nodeId = d.2.nodeId → c.1 = d.1)
    (hbranch : (t.meshes.isEmpty && t.pinned.isEmpty) = false) (hobserved : observed.Distinct) (openDeletes held : List String)
    (steps : List BuildStep) (created : List PathName) :
    PlanTouches t observed (t.planWith observed openDeletes held steps created) := by
  have hplanned : ∀ op ∈ t.planWith observed openDeletes held steps created, t.Planned observed op :=
    fun _ hop => planned_of_mem hbranch hop
  have hslots : ((t.planWith observed openDeletes held steps created).map BuildOperation.slot).Nodup :=
    nodup_planWith hvalid hobserved hbranch openDeletes created
  constructor
  · intro mesh meshId hop
    cases hplanned _ hop with
    | createMesh _ _ _ hfree => exact hfree
  · intro path name nodeId mesh type takenOver executable entry hop
    cases hplanned _ hop with
    | createNode p _ _ _ _ hp => exact hp
  · intro path name mesh type exited birth hop
    generalize hgeneral : BuildOperation.deleteLiveNode path name mesh type exited birth = op at hop
    cases hplanned op hop with
    | deletePinned p b hp =>
      cases hgeneral
      exact ⟨rfl, b, rfl, hp⟩
    | createMesh | createNode | shutdownMesh => cases hgeneral
  · intro mesh meshId hop
    cases hplanned _ hop with
    | shutdownMesh _ _ _ _ hgone => exact hgone
  · exact List.Nodup.of_map _ hslots
  · intro hids hobservedIds
    refine List.pairwise_map.mpr ((List.pairwise_map.mp hslots).imp_of_mem fun {a b} ha hb hne hkey => hne ?_)
    exact (hplanned a ha).slot_eq hcreated hpinned hids hobservedIds (hplanned b hb) hkey

end FabricTopology

/-- The Build a change compiles to, with the pins its acceptance set. -/
def FabricTopology.withPins (t : FabricTopology) (pins : List (PathName × PinnedBirth)) : FabricTopology :=
  { t with pinned := pins }

/-- A mesh whose mesh.delete completed, its primary alive. -/
def leftBehind : Topology :=
  ⟨"fabric", "fabric", [⟨some "mesh-id", "mesh", .dead⟩],
    [⟨"mesh.node-admin", "1", "node-admin", "mesh", "node-id", some "incarnation", .ready, true, false, false⟩]⟩

def meshDeleted : List BuildStep := [⟨"mesh.delete:mesh-id", "MeshDeleted", .complete⟩]

theorem distinct_leftBehind : leftBehind.Distinct := by
  constructor <;> decide

/-- A topology with no mesh and no pin plans fabric.delete: it deletes births no one pinned. -/
theorem unpinned_deleted :
    .deleteLiveNode "mesh.node-admin" "1" "mesh" "node-admin" none (some ⟨"node-admin", "mesh", "node-id", "incarnation"⟩) ∈
      FabricTopology.planFabricDelete leftBehind [] meshDeleted := by
  decide +kernel

/-- The plan is the fabric's just when the change deletes all that is left by its meshes' names. -/
theorem fabricDelete_iff {mint : Minted} {observed : Topology} {accepted next : FabricTopology} {change : BuildChange}
    {replaced deleting : List PathName} {pins : List (PathName × PinnedBirth)} (hd : observed.Distinct)
    (hchange : change ≠ .deleteFabric) (hreplaced : ∀ p ∈ replaced, p ∈ change.createdPaths)
    (happlied : applied mint observed replaced (.ofRecords mint observed accepted) change = .ok next)
    (hdeleting : deletingPaths observed replaced change = some deleting) (hpins : pins.map Prod.fst = deleting) :
    (next.meshes.isEmpty && pins.isEmpty) = true ↔ WholeDelete observed change := by
  have hempty : pins.isEmpty = true ↔ deleting = [] := by
    rw [← hpins, List.map_eq_nil_iff, List.isEmpty_iff]
  rw [Bool.and_eq_true_iff, hempty, ExtTreeMap.isEmpty_iff]
  cases change with
  | create meshes nodes =>
    refine ⟨fun h => ?_, fun h => h.elim⟩
    obtain ⟨k, b, hb⟩ := created_nonempty happlied
    rw [h.1, ExtTreeMap.getElem?_empty] at hb
    cases hb
  | delete meshes nodeIds =>
    obtain ⟨paths, hpaths, rfl⟩ := Option.map_eq_some_iff.mp hdeleting
    have hnone : replaced = [] := by
      refine List.eq_nil_iff_forall_not_mem.mpr fun p hp => ?_
      exact ExtTreeSet.not_mem_empty (hreplaced p hp)
    rw [hnone, List.append_nil, (deletedPaths_some hpaths).1]
    exact empty_iff_wholeDelete hd happlied
  | deleteFabric => exact absurd rfl hchange

theorem mem_createdPaths {mint : Minted} {observed : Topology} {replaced : List PathName} {next final : FabricTopology}
    {meshes : List Meshes} {nodes : List Nodes} (h : created mint observed replaced next meshes nodes = .ok final)
    (p : PathName) : p ∈ (BuildChange.create meshes nodes).createdPaths ↔ ∃ n ∈ nodes, (n.path, n.name) = p := by
  have hnamed : ∀ n ∈ nodes, PathName.new n.path n.name = .ok (n.path, n.name) := by
    unfold created at h
    split at h
    next => cases h
    next =>
      split at h
      next => cases h
      next =>
        split at h
        next => cases h
        next hnodes => exact createNodes_named hnodes
  rw [BuildChange.createdPaths, ExtTreeSet.mem_ofList, List.contains_iff_mem, List.mem_filterMap]
  refine exists_congr fun n => and_congr_right fun hn => ?_
  rw [hnamed n hn]
  simp [Except.toOption]

/-- The paths a Create names. -/
def BuildChange.CreatesPath : BuildChange → PathName → Prop
  | .create _ nodes, path => ∃ n ∈ nodes, (n.path, n.name) = path
  | _, _ => False

theorem mem_createdPaths_iff {mint : Minted} {observed : Topology} {replaced : List PathName} {base next : FabricTopology}
    {change : BuildChange} (h : applied mint observed replaced base change = .ok next) (p : PathName) :
    p ∈ change.createdPaths ↔ change.CreatesPath p := by
  cases change with
  | create meshes nodes => exact mem_createdPaths h p
  | delete | deleteFabric => exact iff_of_false ExtTreeSet.not_mem_empty id

/-- A Create or a Delete as an acceptance takes it: compiled over the records, with its pins. -/
structure Submitted (mint : Minted) (observed : Topology) (accepted : FabricTopology) (change : BuildChange)
    (replaced : List PathName) (final : FabricTopology) (pins : List (PathName × PinnedBirth)) : Prop where
  notFabric : change ≠ .deleteFabric
  /-- A replaced path is held, and the Create names it. -/
  held : ∀ p ∈ replaced, (observed.node p).isSome = true
  named : ∀ p ∈ replaced, p ∈ change.createdPaths
  compiled : compileReplacing mint accepted change observed replaced = .ok final
  /-- The births admitted as exited are at paths the change ends. -/
  pinned : ∃ deleting exited, deletingPaths observed replaced change = some deleting ∧ (∀ e ∈ exited, e.1 ∈ deleting) ∧
    pinsOf observed deleting exited = some pins

/-- A Build touches what its change names, but for a Delete that leaves no mesh and pins no birth: the plan of that one is the
fabric's. -/
theorem build_touches_what_it_names {mint : Minted} {observed : Topology} {accepted final : FabricTopology}
    {change : BuildChange} {replaced : List PathName} {pins : List (PathName × PinnedBirth)} (hd : observed.Distinct)
    (hmint : ∀ p ∈ change.createdPaths, ∀ q ∈ change.createdPaths, mint.node p = mint.node q → p = q)
    (h : Submitted mint observed accepted change replaced final pins) :
    TouchesOnly observed change (.ofRecords mint observed accepted) final ∧
    ((final.created.map Prod.fst).Nodup ∧ ∀ p, p ∈ final.created.map Prod.fst ↔ change.CreatesPath p) ∧
    ((final.withPins pins).meshes.isEmpty = false → (final.withPins pins).validate = .ok ()) ∧
    ((∀ view : Topology, view.Distinct → ∀ openDeletes held steps created,
        PlanTouches (final.withPins pins) view ((final.withPins pins).planWith view openDeletes held steps created)) ↔
      ¬ WholeDelete observed change) := by
  obtain ⟨next, happlied, hvalidate, rfl⟩ := compile_ok h.notFabric h.compiled
  obtain ⟨deleting, exited, hdeleting, hexited, hpins⟩ := h.pinned
  obtain ⟨hbare, htouches⟩ := applied_touches h.notFabric happlied
  have hheld : ∀ p ∈ deleting, (observed.node p).isSome = true := by
    intro p hp
    cases change with
    | create meshes nodes =>
      cases hdeleting
      exact h.held p hp
    | delete meshes nodeIds =>
      obtain ⟨paths, hpaths, rfl⟩ := Option.map_eq_some_iff.mp hdeleting
      rcases List.mem_append.mp hp with hp | hp
      · obtain ⟨n, hn, rfl⟩ := (deletedPaths_some hpaths).2 p hp
        rw [node_of_mem hd hn]
        rfl
      · exact h.held p hp
    | deleteFabric => exact absurd rfl h.notFabric
  obtain ⟨hpaths, hbirths⟩ := pinsOf_some hheld hexited hpins
  have hcreated : (change.createdPaths.toList.map fun p => (p, mint.node p)).map Prod.fst = change.createdPaths.toList := by
    rw [List.map_map]
    exact List.map_id _
  have hbranch := fabricDelete_iff hd h.notFabric h.named happlied hdeleting hpaths
  refine ⟨⟨htouches.fabric, htouches.provider, htouches.kept, htouches.added, htouches.removed⟩, ?_, hvalidate, ?_⟩
  · rw [hcreated]
    exact ⟨nodup_toList _, fun p => ExtTreeSet.mem_toList.trans (mem_createdPaths_iff happlied p)⟩
  constructor
  · -- The view of a mesh left behind: its primary is deleted, and no one pinned it.
    intro hplans hwhole
    have hempty := hbranch.mpr hwhole
    have hplan := hplans leftBehind distinct_leftBehind [] [] meshDeleted []
    rw [FabricTopology.planWith_fabricDelete hempty] at hplan
    obtain ⟨_, b, _, hb⟩ := hplan.deleteLiveNode _ _ _ _ _ _ unpinned_deleted
    have hnone : pins = [] := List.isEmpty_iff.mp (Bool.and_eq_true_iff.mp hempty).2
    have hb : _ ∈ pins := hb
    rw [hnone] at hb
    cases hb
  · intro hwhole view hview openDeletes held steps created
    have hvalid : next.Valid := by
      cases hfull : next.meshes.isEmpty with
      | true => exact .of_empty (ExtTreeMap.isEmpty_iff.mp hfull)
      | false => exact FabricTopology.valid_of_validate (hvalidate hfull)
    refine FabricTopology.planTouches ?_ ?_ ?_ ?_ hview _ _ _ _
    · exact ⟨hvalid.spec, hvalid.apart⟩
    · intro c hc e he hids
      obtain ⟨p, hp, rfl⟩ := List.mem_map.mp hc
      obtain ⟨q, hq, rfl⟩ := List.mem_map.mp he
      exact hmint p (ExtTreeSet.mem_toList.mp hp) q (ExtTreeSet.mem_toList.mp hq) hids
    · intro c hc e he hids
      obtain ⟨n, hn, hnc, hnid⟩ := hbirths c hc
      obtain ⟨m, hm, hme, hmid⟩ := hbirths e he
      rw [← hnc, ← hme, List.inj_on_of_nodup_map hd.ids hn hm (hnid.trans (hids.trans hmid.symm))]
    · exact Bool.eq_false_iff.mpr fun hempty => hwhole (hbranch.mp hempty)

/-- One mesh, its admin, and the id each created node takes. -/
def oneMesh : Topology :=
  ⟨"fabric", "fabric", [⟨some "mesh-id", "mesh", .ready⟩],
    [⟨"mesh.node-admin", "1", "node-admin", "mesh", "node-id", some "incarnation", .ready, true, true, false⟩]⟩

def mintSample : Minted := ⟨fun _ => "minted-mesh", fun _ => "minted-node"⟩

def nothingAccepted : FabricTopology := ⟨"fabric", ∅, none, [], []⟩

def createOne : BuildChange := .create [] [⟨"mesh.node", "1", "mesh", "node", none, some ⟨"node", "/bin/node", "ab", none⟩, [], []⟩]

/-- A Create of a node in the mesh. -/
theorem build_touches_what_it_names_create :
    ∃ final, Submitted mintSample oneMesh nothingAccepted createOne [] final [] ∧ ¬ WholeDelete oneMesh createOne ∧
      TouchesOnly oneMesh createOne (.ofRecords mintSample oneMesh nothingAccepted) final ∧
      (∀ p, p ∈ final.created.map Prod.fst ↔ p = ("mesh.node", "1")) ∧
      PlanTouches (final.withPins []) oneMesh ((final.withPins []).planWith oneMesh [] [] [] []) := by
  have hok : (compileReplacing mintSample nothingAccepted createOne oneMesh []).isOk = true := by decide +kernel
  have hdistinct : oneMesh.Distinct := by constructor <;> decide
  have hmint : ∀ p ∈ createOne.createdPaths, ∀ q ∈ createOne.createdPaths, mintSample.node p = mintSample.node q → p = q := by
    have hall : ∀ p ∈ createOne.createdPaths.toList, p = ("mesh.node", "1") := by decide +kernel
    intro p hp q hq _
    rw [hall p (ExtTreeSet.mem_toList.mpr hp), hall q (ExtTreeSet.mem_toList.mpr hq)]
  cases hcompiled : compileReplacing mintSample nothingAccepted createOne oneMesh [] with
  | error e =>
    rw [hcompiled] at hok
    cases hok
  | ok final =>
    have hsubmitted : Submitted mintSample oneMesh nothingAccepted createOne [] final [] :=
      ⟨by decide, fun p hp => absurd hp List.not_mem_nil, fun p hp => absurd hp List.not_mem_nil, hcompiled,
        [], [], rfl, fun e he => absurd he List.not_mem_nil, rfl⟩
    obtain ⟨htouches, hcreated, _, hplans⟩ := build_touches_what_it_names hdistinct hmint hsubmitted
    refine ⟨final, hsubmitted, id, htouches, fun p => (hcreated.2 p).trans ?_, hplans.mpr id oneMesh hdistinct [] [] [] []⟩
    simp [BuildChange.CreatesPath, createOne, eq_comm]

/-- A Delete of the one mesh left, deleted and its primary alive, plans the fabric's delete, and deletes the primary no one
pinned. -/
theorem mesh_delete_plans_fabric_delete :
    leftBehind.Distinct ∧
    ∃ final, Submitted mintSample leftBehind nothingAccepted (.delete ["mesh"] []) [] final [] ∧
      .deleteFabric "fabric" ∈ (final.withPins []).planWith leftBehind [] [] [] [] ∧
      ¬ PlanTouches (final.withPins []) leftBehind ((final.withPins []).planWith leftBehind [] [] meshDeleted []) := by
  refine ⟨distinct_leftBehind, ?_⟩
  have hempty : (compileReplacing mintSample nothingAccepted (.delete ["mesh"] []) leftBehind []).toOption.map
      (fun t => t.meshes.isEmpty) = some true := by decide +kernel
  cases hcompiled : compileReplacing mintSample nothingAccepted (.delete ["mesh"] []) leftBehind [] with
  | error e =>
    rw [hcompiled] at hempty
    cases hempty
  | ok final =>
    rw [hcompiled] at hempty
    have hbranch : ((final.withPins []).meshes.isEmpty && (final.withPins []).pinned.isEmpty) = true :=
      Bool.and_eq_true_iff.mpr ⟨Option.some.inj hempty, rfl⟩
    refine ⟨final, ⟨by decide, fun p hp => absurd hp List.not_mem_nil, fun p hp => absurd hp List.not_mem_nil, hcompiled,
      [], [], rfl, fun e he => absurd he List.not_mem_nil, rfl⟩, ?_, fun htouches => ?_⟩
    · rw [FabricTopology.planWith_fabricDelete hbranch]
      decide +kernel
    · rw [FabricTopology.planWith_fabricDelete hbranch] at htouches
      obtain ⟨_, b, _, hb⟩ := htouches.deleteLiveNode _ _ _ _ _ _ unpinned_deleted
      cases hb

end DistributedMesh.Build
