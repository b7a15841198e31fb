import DistributedMesh.BuildPlan
import Mathlib.Data.List.Pairwise

namespace DistributedMesh.Build

open Std (ExtTreeMap ExtTreeSet)
open LexCode KeyedMaps

theorem nameAll_ok {named after : PathNames} {ps : List PathName} (h : nameAll named ps = .ok after) :
    (∀ p ∈ ps, p ∉ named) ∧ ∀ p, p ∈ after ↔ p ∈ named ∨ p ∈ ps := by
  induction ps generalizing named with
  | nil =>
    cases h
    exact ⟨fun p hp => absurd hp List.not_mem_nil, fun p => by simp⟩
  | cons q ps ih =>
    unfold nameAll at h
    split at h
    next => cases h
    next hq =>
      obtain ⟨hfree, hafter⟩ := ih h
      refine ⟨fun p hp => ?_, fun p => ?_⟩
      · rcases List.mem_cons.mp hp with rfl | hp
        · exact hq
        · exact fun hin => hfree p hp ((mem_insert_set named q p).mpr (.inr hin))
      · rw [hafter p, mem_insert_set, List.mem_cons]
        tauto

/-- Meshes that validate have paths of their own and a spec for each. -/
theorem validateMeshes_ok {named : PathNames} {l : List (String × MeshTopology)} (h : validateMeshes named l = .ok ()) :
    (∀ e ∈ l, ∀ p ∈ e.2.nodes, p ∉ named) ∧ l.Pairwise (fun a b => ∀ p ∈ a.2.nodes, p ∉ b.2.nodes) ∧
      ∀ e ∈ l, e.2.validate e.1 = .ok () := by
  induction l generalizing named with
  | nil => exact ⟨fun e he => absurd he List.not_mem_nil, .nil, fun e he => absurd he List.not_mem_nil⟩
  | cons e l ih =>
    unfold validateMeshes at h
    split at h
    next => cases h
    next after hnames =>
      split at h
      next => cases h
      next hvalid =>
        obtain ⟨hfree, hafter⟩ := nameAll_ok hnames
        obtain ⟨hrest, hapart, hall⟩ := ih h
        refine ⟨fun x hx p hp => ?_, List.pairwise_cons.mpr ⟨fun x hx p hp hin => ?_, hapart⟩, fun x hx => ?_⟩
        · rcases List.mem_cons.mp hx with rfl | hx
          · exact hfree p (ExtTreeSet.mem_toList.mpr hp)
          · exact fun hin => hrest x hx p hp ((hafter p).mpr (.inl hin))
        · exact hrest x hx p hin ((hafter p).mpr (.inr (ExtTreeSet.mem_toList.mpr hp)))
        · rcases List.mem_cons.mp hx with rfl | hx
          · exact hvalid
          · exact hall x hx

theorem MeshTopology.spec_of_validate {m : MeshTopology} {name : String} (h : m.validate name = .ok ()) {p : PathName}
    (hp : p ∈ m.nodes) : (m.spec p).isSome = true := by
  unfold MeshTopology.validate at h
  split at h
  next => cases h
  next =>
    split at h
    next => cases h
    next =>
      split at h
      next => cases h
      next =>
        split at h
        next => cases h
        next hmatch =>
          by_contra hnone
          apply hmatch
          have hmissing : p ∈ m.missing :=
            List.mem_filter.mpr ⟨ExtTreeSet.mem_toList.mpr hp, by simpa using hnone⟩
          have hfull : m.missing.isEmpty = false := by
            cases hlist : m.missing with
            | nil =>
              rw [hlist] at hmissing
              cases hmissing
            | cons q ps => rfl
          rw [hfull]
          rfl

theorem MeshTopology.listed_of_validate {m : MeshTopology} {name : String} (h : m.validate name = .ok ()) {p : PathName}
    (hp : (m.spec p).isSome = true) : p ∈ m.nodes := by
  unfold MeshTopology.validate at h
  split at h
  next => cases h
  next =>
    split at h
    next => cases h
    next =>
      split at h
      next => cases h
      next =>
        split at h
        next => cases h
        next hmatch =>
          by_contra hout
          apply hmatch
          obtain ⟨spec, hspec⟩ := Option.isSome_iff_exists.mp hp
          have hconflict : (p, spec) ∈ m.specByPath.toList.filter fun e => e.1 ∉ m.nodes || e.2.mesh != name || e.2.location != e.1 := by
            refine List.mem_filter.mpr ⟨ExtTreeMap.mem_toList_iff_getElem?_eq_some.mpr hspec, ?_⟩
            rw [decide_eq_true hout, Bool.true_or, Bool.true_or]
          have hfull : (m.extra name).isEmpty = false := by
            rw [List.isEmpty_eq_false_iff]
            exact List.ne_nil_of_mem (List.mem_map_of_mem hconflict)
          rw [hfull, Bool.not_false, Bool.or_true]

namespace FabricTopology

/-- Each path is in one mesh, with its spec. -/
structure Valid (t : FabricTopology) : Prop where
  spec : ∀ (k : String) (m : MeshTopology), t.meshes[k]? = some m → ∀ p ∈ m.nodes, (m.spec p).isSome = true
  apart : ∀ (j k : String) (a b : MeshTopology), t.meshes[j]? = some a → t.meshes[k]? = some b →
    ∀ p ∈ a.nodes, p ∈ b.nodes → j = k

theorem valid_of_validate {t : FabricTopology} (h : t.validate = .ok ()) : t.Valid := by
  unfold validate at h
  split at h
  next => cases h
  next =>
    obtain ⟨_, hapart, hall⟩ := validateMeshes_ok h
    have hmem : ∀ (k : String) (m : MeshTopology), t.meshes[k]? = some m → (k, m) ∈ t.meshes.toList :=
      fun k m hm => ExtTreeMap.mem_toList_iff_getElem?_eq_some.mpr hm
    refine ⟨fun k m hm p hp => MeshTopology.spec_of_validate (hall _ (hmem k m hm)) hp, fun j k a b ha hb p hp hq => ?_⟩
    by_contra hne
    have hsymm : Std.Symm fun x y : String × MeshTopology => ∀ p ∈ x.2.nodes, p ∉ y.2.nodes :=
      ⟨fun x y hxy p hp hq => hxy p hq hp⟩
    have hpair := hapart.forall (hmem j a ha) (hmem k b hb) fun heq => hne (congrArg Prod.fst heq)
    exact hpair p hp hq

theorem Valid.of_empty {t : FabricTopology} (h : t.meshes = ∅) : t.Valid := by
  have hnone : ∀ (k : String) (m : MeshTopology), t.meshes[k]? ≠ some m := by
    intro k m hm
    rw [h, ExtTreeMap.getElem?_empty] at hm
    cases hm
  exact ⟨fun k m hm => absurd hm (hnone k m), fun j k a b ha => absurd ha (hnone j a)⟩

variable {t : FabricTopology} {observed : Topology} {held : List String} {steps : List BuildStep} {name : String}
  {m : MeshTopology}

theorem contains_of_mem (hvalid : t.Valid) {k : String} (hm : t.meshes[k]? = some m) {p : PathName} (hp : p ∈ m.nodes) :
    t.contains p = true := by
  refine List.findSome?_isSome_iff.mpr ⟨m, (mem_values_iff t.meshes m).mpr ⟨k, hm⟩, ?_⟩
  exact hvalid.spec k m hm p hp

theorem mem_created_of_createdId {p : PathName} {nodeId : String} (h : t.createdId p = some nodeId) :
    (p, nodeId) ∈ t.created := by
  obtain ⟨c, hc, rfl⟩ := Option.map_eq_some_iff.mp h
  have hp := List.find?_some hc
  rw [← of_decide_eq_true hp]
  exact List.mem_of_find?_eq_some hc

/-- A mesh's replacement step is the first pin's whose path is not created again yet: the delete of its birth, then, once that
is done, the create. -/
theorem replacementOf_first {pins : List (PathName × PinnedBirth)} {op : BuildOperation}
    (h : t.replacementOf name m steps pins = some op) :
    ∃ before p birth after nodeId, pins = before ++ (p, birth) :: after ∧ p ∈ m.nodes ∧ t.createdId p = some nodeId ∧
      done steps (nodeCreateKey nodeId) = false ∧
      (∀ c ∈ before, c.1 ∈ m.nodes → ∀ id, t.createdId c.1 = some id → done steps (nodeCreateKey id) = true) ∧
      ((op = deletePinned p birth ∧ done steps (deletePinned p birth).key = false) ∨
        (done steps (deletePinned p birth).key = true ∧ ∃ spec, m.spec p = some spec ∧
          op = .createNode p.1 p.2 nodeId name spec.type none spec.executable none)) := by
  induction pins with
  | nil => cases h
  | cons pin pins ih =>
    have hrest : t.replacementOf name m steps pins = some op →
        (pin.1 ∈ m.nodes → ∀ id, t.createdId pin.1 = some id → done steps (nodeCreateKey id) = true) →
        ∃ before p birth after nodeId, pin :: pins = before ++ (p, birth) :: after ∧ p ∈ m.nodes ∧
          t.createdId p = some nodeId ∧ done steps (nodeCreateKey nodeId) = false ∧
          (∀ c ∈ before, c.1 ∈ m.nodes → ∀ id, t.createdId c.1 = some id → done steps (nodeCreateKey id) = true) ∧
          ((op = deletePinned p birth ∧ done steps (deletePinned p birth).key = false) ∨
            (done steps (deletePinned p birth).key = true ∧ ∃ spec, m.spec p = some spec ∧
              op = .createNode p.1 p.2 nodeId name spec.type none spec.executable none)) := by
      intro hrest hpin
      obtain ⟨before, p, birth, after, nodeId, rfl, hp, hid, hopen, hbefore, hop⟩ := ih hrest
      refine ⟨pin :: before, p, birth, after, nodeId, rfl, hp, hid, hopen, fun c hc => ?_, hop⟩
      rcases List.mem_cons.mp hc with rfl | hc
      · exact hpin
      · exact hbefore c hc
    unfold replacementOf at h
    split at h
    next hp =>
      split at h
      next hnone =>
        refine hrest h fun _ id hid => ?_
        rw [hnone] at hid
        cases hid
      next nodeId hid =>
        split at h
        next hdone =>
          refine hrest h fun _ id hother => ?_
          rw [hid] at hother
          cases hother
          exact hdone
        next hopen =>
          have hopen : done steps (nodeCreateKey nodeId) = false := Bool.eq_false_iff.mpr hopen
          have hfirst : ∀ c ∈ ([] : List (PathName × PinnedBirth)), c.1 ∈ m.nodes → ∀ id, t.createdId c.1 = some id →
              done steps (nodeCreateKey id) = true := fun c hc => absurd hc List.not_mem_nil
          split at h
          next hdelete =>
            cases h
            exact ⟨[], pin.1, pin.2, pins, nodeId, rfl, hp, hid, hopen, hfirst, .inl ⟨rfl, by simpa using hdelete⟩⟩
          next hdeleted =>
            obtain ⟨spec, hspec, rfl⟩ := Option.map_eq_some_iff.mp h
            exact ⟨[], pin.1, pin.2, pins, nodeId, rfl, hp, hid, hopen, hfirst, .inr ⟨by simpa using hdeleted, spec, hspec, rfl⟩⟩
    next hp => exact hrest h fun hin => absurd hin hp

/-- A mesh's replacement step deletes a birth pinned at a path of the mesh that is created again, or creates it. -/
theorem replacementOf_some {pins : List (PathName × PinnedBirth)} {op : BuildOperation}
    (h : t.replacementOf name m steps pins = some op) :
    ∃ p birth nodeId, (p, birth) ∈ pins ∧ p ∈ m.nodes ∧ t.createdId p = some nodeId ∧
      (op = deletePinned p birth ∨ ∃ type executable, op = .createNode p.1 p.2 nodeId name type none executable none) := by
  obtain ⟨before, p, birth, after, nodeId, rfl, hp, hid, _, _, hop⟩ := replacementOf_first h
  refine ⟨p, birth, nodeId, List.mem_append_right before List.mem_cons_self, hp, hid, ?_⟩
  rcases hop with ⟨rfl, _⟩ | ⟨_, spec, _, rfl⟩
  · exact .inl rfl
  · exact .inr ⟨_, _, rfl⟩

theorem createStep_some {p : PathName} {op : BuildOperation} (h : t.createStep observed held steps name m p = some op) :
    ∃ nodeId type executable, op = .createNode p.1 p.2 nodeId name type none executable none ∧
      t.createdId p = some nodeId ∧ (t.replaced p).isSome = false := by
  unfold createStep at h
  split at h
  next => cases h
  next nodeId hid =>
    split at h
    next => cases h
    next hreplaced =>
      split at h
      next =>
        cases h
        exact ⟨nodeId, _, _, rfl, hid, by simpa using hreplaced⟩
      next => cases h

theorem mem_adminsFirst {p : PathName} (h : p ∈ adminsFirst m) : p ∈ m.nodes := by
  rcases List.mem_append.mp h with h | h
  · exact ExtTreeSet.mem_toList.mp (List.mem_filter.mp h).1
  · exact ExtTreeSet.mem_toList.mp (List.mem_filter.mp h).1

theorem nodup_adminsFirst (m : MeshTopology) : (adminsFirst m).Nodup := by
  refine List.nodup_append.mpr ⟨(nodup_toList m.nodes).filter _, (nodup_toList m.nodes).filter _, ?_⟩
  rintro p hp q hq rfl
  have hadmin := (List.mem_filter.mp hp).2
  have hother := (List.mem_filter.mp hq).2
  simp only [hadmin] at hother
  cases hother

theorem mem_planMesh {op : BuildOperation} (h : op ∈ t.planMesh observed held steps name m) :
    (op = .createMesh name m.meshId ∧ ∀ x ∈ observed.meshes, x.name ≠ name) ∨
    (∃ p birth, op = deletePinned p birth ∧ (p, birth) ∈ t.pinned ∧ p ∈ m.nodes) ∨
    ∃ p nodeId type executable, op = .createNode p.1 p.2 nodeId name type none executable none ∧
      t.createdId p = some nodeId ∧ p ∈ m.nodes := by
  rcases List.mem_append.mp h with h | h
  · rcases List.mem_append.mp h with h | h
    · split at h
      next => cases h
      next hexists =>
        refine .inl ⟨List.mem_singleton.mp h, fun x hx hname => hexists ?_⟩
        exact List.any_eq_true.mpr ⟨x, hx, by simpa using hname⟩
    · obtain ⟨p, birth, nodeId, hpin, hp, hid, rfl | ⟨type, executable, rfl⟩⟩ := replacementOf_some (Option.mem_toList.mp h)
      · exact .inr (.inl ⟨p, birth, rfl, hpin, hp⟩)
      · exact .inr (.inr ⟨p, nodeId, type, executable, rfl, hid, hp⟩)
  · obtain ⟨p, hp, hop⟩ := List.mem_filterMap.mp h
    obtain ⟨nodeId, type, executable, rfl, hid, _⟩ := createStep_some hop
    exact .inr (.inr ⟨p, nodeId, type, executable, rfl, hid, mem_adminsFirst hp⟩)

theorem mem_extra {created : List PathName} {p : PathName} (h : p ∈ t.extra observed created) :
    t.contains p = false ∧ ∃ c ∈ t.pinned, c.1 = p := by
  obtain ⟨hp, hkept⟩ := List.mem_filter.mp ((List.mem_insertionSort _).mp h)
  obtain ⟨n, hn, rfl⟩ := List.mem_map.mp hp
  have hsurplus := (List.mem_filter.mp hn).2
  obtain ⟨c, hc, hcp⟩ := List.any_eq_true.mp (Bool.and_eq_true_iff.mp hkept).2
  refine ⟨?_, c, hc, of_decide_eq_true hcp⟩
  simpa using (Bool.and_eq_true_iff.mp hsurplus).2

theorem nodup_extra (h : observed.Distinct) (created : List PathName) : (t.extra observed created).Nodup := by
  refine (List.perm_insertionSort _ _).nodup_iff.mpr (List.Nodup.filter _ ?_)
  exact List.Nodup.sublist (List.Sublist.map _ List.filter_sublist) h.locations

theorem mem_gone {openDeletes : List String} {k : String} (h : k ∈ t.gone observed openDeletes) : k ∉ t.meshes := by
  have hkept := (List.mem_filter.mp ((List.mem_insertionSort _).mp h)).2
  intro hin
  rw [ExtTreeMap.contains_iff_mem.mpr hin] at hkept
  cases hkept

theorem nodup_gone (h : observed.Distinct) (openDeletes : List String) : (t.gone observed openDeletes).Nodup := by
  refine (List.perm_insertionSort _ _).nodup_iff.mpr (List.Nodup.filter _ ?_)
  exact List.Nodup.sublist (List.Sublist.map _ List.filter_sublist) h.names

theorem planDelete_some {p : PathName} {op : BuildOperation} (hpinned : ∃ c ∈ t.pinned, c.1 = p)
    (h : t.planDelete observed steps p = some op) : ∃ birth, (p, birth) ∈ t.pinned ∧ op = deletePinned p birth := by
  obtain ⟨c, hc, hcp⟩ := hpinned
  have hsome : (t.pinned.find? fun c => c.1 = p).isSome = true := List.find?_isSome.mpr ⟨c, hc, decide_eq_true hcp⟩
  obtain ⟨pin, hpin⟩ := Option.isSome_iff_exists.mp hsome
  have hp := List.find?_some hpin
  unfold planDelete at h
  rw [hpin, Option.map_some, Option.some_or, Option.bind_some] at h
  split at h
  next => cases h
  next =>
    cases h
    refine ⟨pin.2, ?_, rfl⟩
    rw [← of_decide_eq_true hp]
    exact List.mem_of_find?_eq_some hpin

theorem shutdownMesh_some {mesh : String} {op : BuildOperation} (h : shutdownMesh observed mesh = some op) :
    ∃ m meshId, m ∈ observed.meshes ∧ m.name = mesh ∧ m.id = some meshId ∧ op = .shutdownMesh mesh meshId := by
  obtain ⟨meshId, hid, rfl⟩ := Option.map_eq_some_iff.mp h
  obtain ⟨m, hm, hid⟩ := Option.bind_eq_some_iff.mp hid
  have hname := List.find?_some hm
  exact ⟨m, meshId, List.mem_of_find?_eq_some hm, beq_iff_eq.mp hname, hid, rfl⟩

theorem planWith_fabricDelete (h : (t.meshes.isEmpty && t.pinned.isEmpty) = true) (openDeletes : List String)
    (created : List PathName) :
    t.planWith observed openDeletes held steps created = planFabricDelete observed openDeletes steps :=
  if_pos h

/-- What the plan of a topology that is no fabric.delete holds. -/
inductive Planned (t : FabricTopology) (observed : Topology) : BuildOperation → Prop
  | createMesh (k : String) (m : MeshTopology) : t.meshes[k]? = some m → (∀ x ∈ observed.meshes, x.name ≠ k) →
    Planned t observed (.createMesh k m.meshId)
  | createNode (p : PathName) (nodeId mesh type : String) (executable : Option Binding) : (p, nodeId) ∈ t.created →
    Planned t observed (.createNode p.1 p.2 nodeId mesh type none executable none)
  | deletePinned (p : PathName) (birth : PinnedBirth) : (p, birth) ∈ t.pinned → Planned t observed (deletePinned p birth)
  | shutdownMesh (m : Mesh) (meshId : String) : m ∈ observed.meshes → m.id = some meshId → m.name ∉ t.meshes →
    Planned t observed (.shutdownMesh m.name meshId)

theorem planned_of_mem {openDeletes : List String} {created : List PathName} {op : BuildOperation}
    (hbranch : (t.meshes.isEmpty && t.pinned.isEmpty) = false)
    (h : op ∈ t.planWith observed openDeletes held steps created) : t.Planned observed op := by
  unfold planWith at h
  rw [hbranch, if_neg Bool.false_ne_true] at h
  rcases List.mem_append.mp h with h | h
  · rcases List.mem_append.mp h with h | h
    · obtain ⟨e, he, hop⟩ := List.mem_flatMap.mp h
      have hm := ExtTreeMap.mem_toList_iff_getElem?_eq_some.mp he
      rcases mem_planMesh hop with ⟨rfl, hfree⟩ | ⟨p, birth, rfl, hpin, _⟩ | ⟨p, nodeId, type, executable, rfl, hid, _⟩
      · exact .createMesh e.1 e.2 hm hfree
      · exact .deletePinned p birth hpin
      · exact .createNode p nodeId e.1 type executable (mem_created_of_createdId hid)
    · obtain ⟨p, hp, hop⟩ := List.mem_filterMap.mp h
      obtain ⟨birth, hpin, rfl⟩ := planDelete_some (mem_extra hp).2 hop
      exact .deletePinned p birth hpin
  · obtain ⟨k, hk, hop⟩ := List.mem_filterMap.mp h
    obtain ⟨m, meshId, hm, rfl, hid, rfl⟩ := shutdownMesh_some hop
    exact .shutdownMesh m meshId hm hid (mem_gone hk)

end FabricTopology

/-- What an operation acts on. -/
inductive Slot where
  | createMesh (mesh : String)
  | createNode (path : PathName)
  | deleteNode (path : PathName)
  | shutdownMesh (mesh : String)
  | deleteFabric
deriving DecidableEq

def BuildOperation.slot : BuildOperation → Slot
  | .createMesh mesh _ => .createMesh mesh
  | .createNode path name _ _ _ _ _ _ => .createNode (path, name)
  | .deleteLiveNode path name _ _ _ _ => .deleteNode (path, name)
  | .shutdownMesh mesh _ => .shutdownMesh mesh
  | .deleteFabric _ => .deleteFabric

/-- Operations planned one for a place, each at its place, are at places of their own. -/
theorem nodup_slots {α : Type} {f : α → Option BuildOperation} {g : α → Slot} (hg : Function.Injective g) {l : List α}
    (hl : l.Nodup) (h : ∀ a ∈ l, ∀ op, f a = some op → op.slot = g a) :
    ((l.filterMap f).map BuildOperation.slot).Nodup := by
  induction l with
  | nil => exact List.nodup_nil
  | cons a l ih =>
    obtain ⟨ha, hl⟩ := List.nodup_cons.mp hl
    have hrest := ih hl fun b hb => h b (List.mem_cons_of_mem a hb)
    cases hfa : f a with
    | none => rwa [List.filterMap_cons_none hfa]
    | some op =>
      rw [List.filterMap_cons_some hfa, List.map_cons, List.nodup_cons]
      refine ⟨fun hin => ?_, hrest⟩
      obtain ⟨other, hother, hslot⟩ := List.mem_map.mp hin
      obtain ⟨b, hb, hfb⟩ := List.mem_filterMap.mp hother
      rw [h b (List.mem_cons_of_mem a hb) other hfb, h a List.mem_cons_self op hfa] at hslot
      rw [hg hslot] at hb
      exact ha hb

namespace FabricTopology

variable {t : FabricTopology} {observed : Topology} {held : List String} {steps : List BuildStep} {name : String}
  {m : MeshTopology}

theorem replaced_of_replacementStep (hvalid : t.Valid) (hm : t.meshes[name]? = some m) {op : BuildOperation}
    (h : t.replacementStep name m steps = some op) :
    ∃ p, (t.replaced p).isSome = true ∧ (op.slot = .createNode p ∨ op.slot = .deleteNode p) := by
  obtain ⟨p, birth, nodeId, hpin, hp, hid, hop⟩ := replacementOf_some h
  refine ⟨p, ?_, ?_⟩
  · unfold replaced
    rw [contains_of_mem hvalid hm hp, hid, if_neg (by simp), Option.isSome_map, List.find?_isSome]
    exact ⟨(p, birth), hpin, decide_eq_true rfl⟩
  · rcases hop with rfl | ⟨type, executable, rfl⟩
    · exact .inr rfl
    · exact .inl rfl

theorem nodup_planMesh (hvalid : t.Valid) (hm : t.meshes[name]? = some m) :
    ((t.planMesh observed held steps name m).map BuildOperation.slot).Nodup := by
  have hcreates : (((adminsFirst m).filterMap (t.createStep observed held steps name m)).map BuildOperation.slot).Nodup := by
    refine nodup_slots (fun _ _ h => Slot.createNode.inj h) (nodup_adminsFirst m) fun p _ op hop => ?_
    obtain ⟨nodeId, type, executable, rfl, _⟩ := createStep_some hop
    rfl
  unfold planMesh
  rw [List.map_append, List.map_append]
  refine List.nodup_append.mpr ⟨List.nodup_append.mpr ⟨?_, ?_, ?_⟩, hcreates, ?_⟩
  · split
    next => exact List.nodup_nil
    next => exact List.nodup_singleton _
  · cases t.replacementStep name m steps with
    | none => exact List.nodup_nil
    | some op => exact List.nodup_singleton _
  · -- The mesh, then a node of it.
    intro x hx y hy hxy
    obtain ⟨op, hop, rfl⟩ := List.mem_map.mp hy
    obtain ⟨p, _, hslot⟩ := replaced_of_replacementStep hvalid hm (Option.mem_toList.mp hop)
    split at hx
    next => cases hx
    next =>
      rw [List.map_singleton, List.mem_singleton] at hx
      rcases hslot with hslot | hslot <;> rw [hx, hslot] at hxy <;> cases hxy
  · intro x hx y hy hxy
    obtain ⟨op, hop, rfl⟩ := List.mem_map.mp hy
    obtain ⟨p, _, hop⟩ := List.mem_filterMap.mp hop
    obtain ⟨nodeId, type, executable, rfl, _, hnot⟩ := createStep_some hop
    rcases List.mem_append.mp hx with hx | hx
    · split at hx
      next => cases hx
      next =>
        rw [List.map_singleton, List.mem_singleton] at hx
        rw [hx] at hxy
        cases hxy
    · obtain ⟨first, hfirst, rfl⟩ := List.mem_map.mp hx
      obtain ⟨q, hreplaced, hslot⟩ := replaced_of_replacementStep hvalid hm (Option.mem_toList.mp hfirst)
      rcases hslot with hslot | hslot
      · rw [hslot] at hxy
        have hqp : q = p := Slot.createNode.inj hxy
        rw [← hqp, hreplaced] at hnot
        cases hnot
      · rw [hslot] at hxy
        cases hxy

theorem slot_planMesh {x : Slot} (h : x ∈ (t.planMesh observed held steps name m).map BuildOperation.slot) :
    x = .createMesh name ∨ ∃ p ∈ m.nodes, x = .createNode p ∨ x = .deleteNode p := by
  obtain ⟨op, hop, rfl⟩ := List.mem_map.mp h
  rcases mem_planMesh hop with ⟨rfl, _⟩ | ⟨p, birth, rfl, _, hp⟩ | ⟨p, nodeId, type, executable, rfl, _, hp⟩
  · exact .inl rfl
  · exact .inr ⟨p, hp, .inr rfl⟩
  · exact .inr ⟨p, hp, .inl rfl⟩

theorem nodup_planWith (hvalid : t.Valid) (hobserved : observed.Distinct)
    (hbranch : (t.meshes.isEmpty && t.pinned.isEmpty) = false) (openDeletes : List String) (created : List PathName) :
    ((t.planWith observed openDeletes held steps created).map BuildOperation.slot).Nodup := by
  have hmesh : ∀ e ∈ t.meshes.toList, t.meshes[e.1]? = some e.2 :=
    fun e he => ExtTreeMap.mem_toList_iff_getElem?_eq_some.mp he
  have hdeletes : (((t.extra observed created).filterMap (t.planDelete observed steps)).map BuildOperation.slot).Nodup := by
    refine nodup_slots (fun _ _ h => Slot.deleteNode.inj h) (nodup_extra hobserved created) fun p hp op hop => ?_
    obtain ⟨birth, _, rfl⟩ := planDelete_some (mem_extra hp).2 hop
    rfl
  have hshutdowns : (((t.gone observed openDeletes).filterMap (shutdownMesh observed)).map BuildOperation.slot).Nodup := by
    refine nodup_slots (fun _ _ h => Slot.shutdownMesh.inj h) (nodup_gone hobserved openDeletes) fun k _ op hop => ?_
    obtain ⟨m, meshId, _, _, _, rfl⟩ := shutdownMesh_some hop
    rfl
  have hmeshes : ((t.meshes.toList.flatMap fun e => t.planMesh observed held steps e.1 e.2).map BuildOperation.slot).Nodup := by
    rw [List.map_flatMap, List.nodup_flatMap]
    refine ⟨fun e he => nodup_planMesh hvalid (hmesh e he), ?_⟩
    refine ExtTreeMap.distinct_keys_toList.imp_of_mem fun {e f} he hf hne x hx hy => ?_
    have hef : e.1 ≠ f.1 := fun heq => hne (Std.LawfulEqCmp.compare_eq_iff_eq.mpr heq)
    have hshared : ∀ p ∈ e.2.nodes, p ∉ f.2.nodes :=
      fun p hp hq => hef (hvalid.apart e.1 f.1 e.2 f.2 (hmesh e he) (hmesh f hf) p hp hq)
    rcases slot_planMesh hx with rfl | ⟨p, hp, rfl | rfl⟩
    · rcases slot_planMesh hy with h | ⟨q, _, h | h⟩
      · exact hef (Slot.createMesh.inj h)
      · cases h
      · cases h
    · rcases slot_planMesh hy with h | ⟨q, hq, h | h⟩
      · cases h
      · exact hshared p hp (Slot.createNode.inj h ▸ hq)
      · cases h
    · rcases slot_planMesh hy with h | ⟨q, hq, h | h⟩
      · cases h
      · cases h
      · exact hshared p hp (Slot.deleteNode.inj h ▸ hq)
  unfold planWith
  rw [hbranch, if_neg Bool.false_ne_true, List.map_append, List.map_append]
  refine List.nodup_append.mpr ⟨List.nodup_append.mpr ⟨hmeshes, hdeletes, ?_⟩, hshutdowns, ?_⟩
  · -- A path of the topology is no surplus path.
    intro x hx y hy hxy
    rw [List.map_flatMap] at hx
    obtain ⟨e, he, hx⟩ := List.mem_flatMap.mp hx
    obtain ⟨op, hop, rfl⟩ := List.mem_map.mp hy
    obtain ⟨q, hq, hop⟩ := List.mem_filterMap.mp hop
    obtain ⟨birth, _, rfl⟩ := planDelete_some (mem_extra hq).2 hop
    rcases slot_planMesh hx with rfl | ⟨p, hp, rfl | rfl⟩
    · cases hxy
    · cases hxy
    · have hpq : p = q := Slot.deleteNode.inj hxy
      have hcontains := contains_of_mem hvalid (hmesh e he) hp
      rw [hpq, (mem_extra hq).1] at hcontains
      cases hcontains
  · intro x hx y hy hxy
    obtain ⟨op, hop, rfl⟩ := List.mem_map.mp hy
    obtain ⟨k, _, hop⟩ := List.mem_filterMap.mp hop
    obtain ⟨m, meshId, _, _, _, rfl⟩ := shutdownMesh_some hop
    rcases List.mem_append.mp hx with hx | hx
    · rw [List.map_flatMap] at hx
      obtain ⟨e, _, hx⟩ := List.mem_flatMap.mp hx
      rcases slot_planMesh hx with rfl | ⟨p, _, rfl | rfl⟩ <;> cases hxy
    · obtain ⟨other, hother, rfl⟩ := List.mem_map.mp hx
      obtain ⟨q, hq, hother⟩ := List.mem_filterMap.mp hother
      obtain ⟨birth, _, rfl⟩ := planDelete_some (mem_extra hq).2 hother
      cases hxy

end FabricTopology

end DistributedMesh.Build
