import DistributedMesh.BuildCompile

namespace DistributedMesh.Build

open Std (ExtTreeMap ExtTreeSet)
open LexCode KeyedMaps

/-- The change names the mesh. -/
def BuildChange.NamesMesh : BuildChange → String → Prop
  | .create meshes _, mesh => ∃ m ∈ meshes, m.name = mesh
  | .delete meshes _, mesh => mesh ∈ meshes
  | .deleteFabric, _ => True

/-- The change names the path: a Create by its path and name, a Delete by the node id of the birth that stands there. -/
def BuildChange.NamesPath (observed : Topology) : BuildChange → PathName → Prop
  | .create _ nodes, path => ∃ n ∈ nodes, (n.path, n.name) = path
  | .delete _ nodeIds, path => ∃ id ∈ nodeIds, ∃ n, observed.birthOfNodeId id = some n ∧ n.location = path
  | .deleteFabric, _ => True

/-- The mesh keeps its name and id, and every path outside the named ones, with its spec. -/
structure MeshTopology.Agrees (named : PathName → Prop) (a b : MeshTopology) : Prop where
  name : b.name = a.name
  meshId : b.meshId = a.meshId
  nodes : ∀ p, ¬ named p → (p ∈ b.nodes ↔ p ∈ a.nodes)
  spec : ∀ p, ¬ named p → b.spec p = a.spec p

namespace MeshTopology.Agrees

variable {named : PathName → Prop} {a b c : MeshTopology}

theorem refl (named : PathName → Prop) (a : MeshTopology) : a.Agrees named a :=
  ⟨rfl, rfl, fun _ _ => Iff.rfl, fun _ _ => rfl⟩

theorem trans (hab : a.Agrees named b) (hbc : b.Agrees named c) : a.Agrees named c :=
  ⟨hbc.name.trans hab.name, hbc.meshId.trans hab.meshId, fun p hp => (hbc.nodes p hp).trans (hab.nodes p hp),
    fun p hp => (hbc.spec p hp).trans (hab.spec p hp)⟩

theorem insert {p : PathName} (hp : named p) (spec : NodeSpec) : a.Agrees named (a.insert p spec) := by
  have hne : ∀ q, ¬ named q → p ≠ q := by
    rintro q hq rfl
    exact hq hp
  refine ⟨rfl, rfl, fun q hq => ?_, fun q hq => ?_⟩
  · rw [MeshTopology.insert, mem_insert_set]
    exact or_iff_right (Ne.symm (hne q hq))
  · rw [MeshTopology.spec, MeshTopology.insert, getElem?_insert_eq, if_neg (hne q hq)]
    rfl

theorem remove {p : PathName} (hp : named p) : a.Agrees named (a.remove p) := by
  have hne : ∀ q, ¬ named q → p ≠ q := by
    rintro q hq rfl
    exact hq hp
  refine ⟨rfl, rfl, fun q hq => ?_, fun q hq => ?_⟩
  · rw [MeshTopology.remove, ExtTreeSet.mem_erase, Std.LawfulEqCmp.compare_eq_iff_eq.ne]
    exact and_iff_right (hne q hq)
  · rw [MeshTopology.spec, MeshTopology.remove, getElem?_erase_eq, if_neg (hne q hq)]
    rfl

end MeshTopology.Agrees

/-- The topology but its meshes. -/
def FabricTopology.bare (t : FabricTopology) : FabricTopology := { t with meshes := ∅ }

/-- The change leaves the topology as it was but for the meshes and paths it names, and a deleted mesh whose last node leaves. -/
structure TouchesOnly (observed : Topology) (change : BuildChange) (s t : FabricTopology) : Prop where
  fabric : t.fabric = s.fabric
  provider : t.topologyStorageProvider = s.topologyStorageProvider
  kept : ∀ (k : String) (a b : MeshTopology), s.meshes[k]? = some a → t.meshes[k]? = some b →
    a.Agrees (change.NamesPath observed) b
  added : ∀ (k : String) (b : MeshTopology), s.meshes[k]? = none → t.meshes[k]? = some b →
    change.NamesMesh k ∧ ∀ p ∈ b.nodes, change.NamesPath observed p
  removed : ∀ (k : String) (a : MeshTopology), s.meshes[k]? = some a → t.meshes[k]? = none →
    change.NamesMesh k ∨ (observed.isDead k = true ∧ ∀ p ∈ a.nodes, change.NamesPath observed p)

namespace FabricTopology

/-- Meshes are added and named paths set. -/
structure Grows (named : PathName → Prop) (adds : String → Prop) (s t : FabricTopology) : Prop where
  bare : t.bare = s.bare
  kept : ∀ (k : String) (a : MeshTopology), s.meshes[k]? = some a → ∃ b, t.meshes[k]? = some b ∧ a.Agrees named b
  added : ∀ (k : String) (b : MeshTopology), s.meshes[k]? = none → t.meshes[k]? = some b → adds k ∧ ∀ p ∈ b.nodes, named p

/-- Meshes are removed and named paths left out. -/
structure Shrinks (observed : Topology) (named : PathName → Prop) (gone : String → Prop) (s t : FabricTopology) : Prop where
  bare : t.bare = s.bare
  kept : ∀ (k : String) (b : MeshTopology), t.meshes[k]? = some b → ∃ a, s.meshes[k]? = some a ∧ a.Agrees named b
  removed : ∀ (k : String) (a : MeshTopology), s.meshes[k]? = some a → t.meshes[k]? = none →
    gone k ∨ (observed.isDead k = true ∧ ∀ p ∈ a.nodes, named p)

variable {observed : Topology} {named : PathName → Prop} {adds gone : String → Prop} {s t u : FabricTopology}

theorem fields_of_bare (h : t.bare = s.bare) :
    t.fabric = s.fabric ∧ t.topologyStorageProvider = s.topologyStorageProvider := by
  have hfabric : t.bare.fabric = s.bare.fabric := congrArg fabric h
  have hprovider : t.bare.topologyStorageProvider = s.bare.topologyStorageProvider := congrArg topologyStorageProvider h
  exact ⟨hfabric, hprovider⟩

theorem meshes_setMesh (t : FabricTopology) (m : MeshTopology) (name k : String) :
    (t.setMesh m name).meshes[k]? = if name = k then some m else t.meshes[k]? :=
  getElem?_insert_eq t.meshes name m k

theorem meshes_removeMesh (t : FabricTopology) (name k : String) :
    (t.removeMesh name).meshes[k]? = if name = k then none else t.meshes[k]? :=
  getElem?_erase_eq t.meshes name k

theorem Grows.refl (named : PathName → Prop) (adds : String → Prop) (t : FabricTopology) : Grows named adds t t := by
  refine ⟨rfl, fun k a ha => ⟨a, ha, .refl named a⟩, fun k b hs ht => ?_⟩
  rw [hs] at ht
  cases ht

theorem Grows.trans (hst : Grows named adds s t) (htu : Grows named adds t u) : Grows named adds s u := by
  refine ⟨htu.bare.trans hst.bare, fun k a ha => ?_, fun k c hs hc => ?_⟩
  · obtain ⟨b, hb, hab⟩ := hst.kept k a ha
    obtain ⟨c, hc, hbc⟩ := htu.kept k b hb
    exact ⟨c, hc, hab.trans hbc⟩
  · cases hb : t.meshes[k]? with
    | none => exact htu.added k c hb hc
    | some b =>
      obtain ⟨hadds, hnamed⟩ := hst.added k b hs hb
      obtain ⟨c', hc', hbc⟩ := htu.kept k b hb
      rw [hc] at hc'
      cases hc'
      refine ⟨hadds, fun p hp => ?_⟩
      by_contra hp'
      exact hp' (hnamed p ((hbc.nodes p hp').mp hp))

theorem Grows.addMesh {k : String} (hs : s.meshes[k]? = none) (hadds : adds k) (meshId : String) :
    Grows named adds s (s.setMesh (.empty k meshId) k) := by
  refine ⟨rfl, fun l a ha => ?_, fun l b hl hb => ?_⟩
  · have hne : k ≠ l := by
      rintro rfl
      rw [hs] at ha
      cases ha
    rw [meshes_setMesh, if_neg hne]
    exact ⟨a, ha, .refl named a⟩
  · rw [meshes_setMesh] at hb
    split at hb
    next hkl =>
      cases hb
      refine ⟨hkl ▸ hadds, fun p hp => ?_⟩
      exact absurd hp ExtTreeSet.not_mem_empty
    next =>
      rw [hl] at hb
      cases hb

theorem Grows.ofAgrees {k : String} {a b : MeshTopology} (ha : s.meshes[k]? = some a) (hab : a.Agrees named b) :
    Grows named adds s (s.setMesh b k) := by
  refine ⟨rfl, fun l c hc => ?_, fun l c hl hc => ?_⟩
  · rw [meshes_setMesh]
    split
    next hkl =>
      subst hkl
      rw [ha] at hc
      cases hc
      exact ⟨b, rfl, hab⟩
    next => exact ⟨c, hc, .refl named c⟩
  · rw [meshes_setMesh] at hc
    split at hc
    next hkl =>
      subst hkl
      rw [ha] at hl
      cases hl
    next =>
      rw [hl] at hc
      cases hc

theorem Shrinks.refl (observed : Topology) (named : PathName → Prop) (gone : String → Prop) (t : FabricTopology) :
    Shrinks observed named gone t t := by
  refine ⟨rfl, fun k b hb => ⟨b, hb, .refl named b⟩, fun k a hs ht => ?_⟩
  rw [hs] at ht
  cases ht

theorem Shrinks.trans (hst : Shrinks observed named gone s t) (htu : Shrinks observed named gone t u) :
    Shrinks observed named gone s u := by
  refine ⟨htu.bare.trans hst.bare, fun k c hc => ?_, fun k a ha hu => ?_⟩
  · obtain ⟨b, hb, hbc⟩ := htu.kept k c hc
    obtain ⟨a, ha, hab⟩ := hst.kept k b hb
    exact ⟨a, ha, hab.trans hbc⟩
  · cases hb : t.meshes[k]? with
    | none => exact hst.removed k a ha hb
    | some b =>
      obtain ⟨a', ha', hab⟩ := hst.kept k b hb
      rw [ha] at ha'
      cases ha'
      refine (htu.removed k b hb hu).imp_right fun h => ⟨h.1, fun p hp => ?_⟩
      by_contra hp'
      exact hp' (h.2 p ((hab.nodes p hp').mpr hp))

theorem Shrinks.ofAgrees {k : String} {a b : MeshTopology} (ha : s.meshes[k]? = some a) (hab : a.Agrees named b) :
    Shrinks observed named gone s (s.setMesh b k) := by
  refine ⟨rfl, fun l c hc => ?_, fun l c hc hl => ?_⟩
  · rw [meshes_setMesh] at hc
    split at hc
    next hkl =>
      cases hc
      exact ⟨a, hkl ▸ ha, hab⟩
    next => exact ⟨c, hc, .refl named c⟩
  · rw [meshes_setMesh] at hl
    split at hl
    next => cases hl
    next =>
      rw [hc] at hl
      cases hl

theorem Shrinks.removeMesh {k : String}
    (h : ∀ a, s.meshes[k]? = some a → gone k ∨ (observed.isDead k = true ∧ ∀ p ∈ a.nodes, named p)) :
    Shrinks observed named gone s (s.removeMesh k) := by
  refine ⟨rfl, fun l b hb => ?_, fun l a ha hl => ?_⟩
  · rw [meshes_removeMesh] at hb
    split at hb
    next => cases hb
    next => exact ⟨b, hb, .refl named b⟩
  · rw [meshes_removeMesh] at hl
    split at hl
    next hkl =>
      subst hkl
      exact h a ha
    next =>
      rw [ha] at hl
      cases hl

end FabricTopology

open FabricTopology

theorem PathName.new_ok {path name : String} {p : PathName} (h : PathName.new path name = .ok p) : p = (path, name) := by
  unfold PathName.new at h
  split at h
  next => cases h
  next =>
    split at h
    next => cases h
    next =>
      cases h
      rfl

theorem lookup_none_of_not_mem {t : FabricTopology} {k : String} (h : k ∉ t.meshes) : t.meshes[k]? = none :=
  ExtTreeMap.getElem?_eq_none h

theorem createMeshes_grows (mint : Minted) {named : PathName → Prop} {adds : String → Prop} {meshes : List Meshes}
    (hadds : ∀ m ∈ meshes, adds m.name) {next final : FabricTopology} {added rest : List String}
    (h : createMeshes mint next added meshes = .ok (final, rest)) : FabricTopology.Grows named adds next final := by
  induction meshes generalizing next added with
  | nil =>
    cases h
    exact .refl named adds _
  | cons m meshes ih =>
    unfold createMeshes at h
    split at h
    next => cases h
    next =>
      split at h
      next => cases h
      next hfree =>
        split at h
        next => cases h
        next =>
          have hadd : FabricTopology.Grows named adds next (next.setMesh (.empty m.name (mint.mesh m.name)) m.name) :=
            .addMesh (lookup_none_of_not_mem hfree) (hadds m List.mem_cons_self) _
          exact hadd.trans (ih (fun x hx => hadds x (List.mem_cons_of_mem m hx)) h)

theorem createNode_ok {observed : Topology} {replaced named : List PathName} {next final : FabricTopology} {n : Nodes}
    {path : PathName} (h : createNode observed replaced named next n = .ok (path, final)) :
    path = (n.path, n.name) ∧ PathName.new n.path n.name = .ok path ∧
      ∃ mesh spec, next.meshes[n.mesh]? = some mesh ∧ final = next.setMesh (mesh.insert path spec) n.mesh := by
  unfold createNode at h
  split at h
  next => cases h
  next asked hnew =>
    split at h
    next => cases h
    next =>
      split at h
      next => cases h
      next executable _ =>
        split at h
        next => cases h
        next =>
          split at h
          next => cases h
          next mesh hmesh =>
            cases h
            exact ⟨PathName.new_ok hnew, hnew, mesh, _, hmesh, rfl⟩

theorem createNodes_grows {observed : Topology} {replaced : List PathName} {named : PathName → Prop} {adds : String → Prop}
    {nodes : List Nodes} (hnamed : ∀ n ∈ nodes, named (n.path, n.name)) {taken : List PathName} {next final : FabricTopology}
    (h : createNodes observed replaced taken next nodes = .ok final) : FabricTopology.Grows named adds next final := by
  induction nodes generalizing taken next with
  | nil =>
    cases h
    exact .refl named adds _
  | cons n nodes ih =>
    unfold createNodes at h
    split at h
    next => cases h
    next path after hn =>
      obtain ⟨rfl, _, mesh, spec, hmesh, rfl⟩ := createNode_ok hn
      have hset : FabricTopology.Grows named adds next (next.setMesh (mesh.insert (n.path, n.name) spec) n.mesh) :=
        .ofAgrees hmesh (.insert (hnamed n List.mem_cons_self) spec)
      exact hset.trans (ih (fun x hx => hnamed x (List.mem_cons_of_mem n hx)) h)

/-- Every node of a Create that is not refused is within the name grammar. -/
theorem createNodes_named {observed : Topology} {replaced : List PathName} {nodes : List Nodes} {taken : List PathName}
    {next final : FabricTopology} (h : createNodes observed replaced taken next nodes = .ok final) :
    ∀ n ∈ nodes, PathName.new n.path n.name = .ok (n.path, n.name) := by
  induction nodes generalizing taken next with
  | nil =>
    intro n hn
    cases hn
  | cons m nodes ih =>
    unfold createNodes at h
    split at h
    next => cases h
    next path after hm =>
      obtain ⟨rfl, hnew, _⟩ := createNode_ok hm
      intro n hn
      rcases List.mem_cons.mp hn with rfl | hn
      · exact hnew
      · exact ih h n hn

/-- A Delete removes the birth's path from its mesh, or the deleted mesh it was the last node of. -/
theorem deleteNode_shrinks {observed : Topology} {meshes : List String} {next final : FabricTopology} {id : String}
    {named : PathName → Prop} {gone : String → Prop}
    (hnamed : ∀ n, observed.birthOfNodeId id = some n → named n.location)
    (h : deleteNode observed meshes next id = .ok final) : Shrinks observed named gone next final := by
  unfold deleteNode at h
  split at h
  next => cases h
  next birth hbirth =>
    split at h
    next => cases h
    next spec _ =>
      split at h
      next => cases h
      next m hm =>
        have hagrees : m.Agrees named (m.remove birth.location) := .remove (hnamed birth hbirth)
        split at h
        next => cases h
        next =>
          split at h
          next hdead =>
            cases h
            obtain ⟨hdead, hempty⟩ := Bool.and_eq_true_iff.mp hdead
            refine .removeMesh fun a ha => .inr ⟨hdead, fun p hp => ?_⟩
            rw [hm] at ha
            cases ha
            by_contra hp'
            have hleft := (hagrees.nodes p hp').mpr hp
            rw [ExtTreeSet.isEmpty_iff.mp hempty] at hleft
            exact ExtTreeSet.not_mem_empty hleft
          next =>
            cases h
            exact .ofAgrees hm hagrees

theorem deleteNodes_shrinks {observed : Topology} {meshes nodeIds : List String} {named : PathName → Prop}
    {gone : String → Prop} (hnamed : ∀ id ∈ nodeIds, ∀ n, observed.birthOfNodeId id = some n → named n.location)
    {next final : FabricTopology} (h : deleteNodes observed meshes next nodeIds = .ok final) :
    Shrinks observed named gone next final := by
  induction nodeIds generalizing next with
  | nil =>
    cases h
    exact .refl observed named gone _
  | cons id nodeIds ih =>
    unfold deleteNodes at h
    split at h
    next => cases h
    next after hid =>
      have hfirst : Shrinks observed named gone next after := deleteNode_shrinks (hnamed id List.mem_cons_self) hid
      exact hfirst.trans (ih (fun x hx => hnamed x (List.mem_cons_of_mem id hx)) h)

theorem deleteMeshes_shrinks {observed : Topology} {named : PathName → Prop} {gone : String → Prop} {meshes : List String}
    (hgone : ∀ k ∈ meshes, gone k) {next final : FabricTopology} (h : deleteMeshes next meshes = .ok final) :
    Shrinks observed named gone next final := by
  induction meshes generalizing next with
  | nil =>
    cases h
    exact .refl observed named gone _
  | cons k meshes ih =>
    unfold deleteMeshes at h
    split at h
    next =>
      have hfirst : Shrinks observed named gone next (next.removeMesh k) :=
        .removeMesh fun _ _ => .inl (hgone k List.mem_cons_self)
      exact hfirst.trans (ih (fun x hx => hgone x (List.mem_cons_of_mem k hx)) h)
    next => cases h

theorem created_grows {mint : Minted} {observed : Topology} {replaced : List PathName} {next final : FabricTopology}
    {meshes : List Meshes} {nodes : List Nodes} {named : PathName → Prop} {adds : String → Prop}
    (hadds : ∀ m ∈ meshes, adds m.name) (hnamed : ∀ n ∈ nodes, named (n.path, n.name))
    (h : created mint observed replaced next meshes nodes = .ok final) : FabricTopology.Grows named adds next final := by
  unfold created at h
  split at h
  next => cases h
  next =>
    split at h
    next => cases h
    next withMeshes added hmeshes =>
      split at h
      next => cases h
      next withNodes hnodes =>
        split at h
        next => cases h
        next =>
          cases h
          exact (createMeshes_grows mint hadds hmeshes).trans (createNodes_grows hnamed hnodes)

theorem deleted_shrinks {observed : Topology} {next final : FabricTopology} {meshes nodeIds : List String}
    {named : PathName → Prop} {gone : String → Prop} (hgone : ∀ k ∈ meshes, gone k)
    (hnamed : ∀ id ∈ nodeIds, ∀ n, observed.birthOfNodeId id = some n → named n.location)
    (h : deleted observed next meshes nodeIds = .ok final) : Shrinks observed named gone next final := by
  unfold deleted at h
  split at h
  next => cases h
  next =>
    split at h
    next => cases h
    next withoutNodes hnodes =>
      split at h
      next => cases h
      next withoutMeshes hmeshes =>
        split at h
        next => cases h
        next =>
          cases h
          exact (deleteNodes_shrinks hnamed hnodes).trans (deleteMeshes_shrinks hgone hmeshes)

theorem applied_touches {mint : Minted} {observed : Topology} {replaced : List PathName} {next final : FabricTopology}
    {change : BuildChange} (hchange : change ≠ .deleteFabric) (h : applied mint observed replaced next change = .ok final) :
    final.bare = next.bare ∧ TouchesOnly observed change next final := by
  cases change with
  | create meshes nodes =>
    have hgrows : FabricTopology.Grows (BuildChange.NamesPath observed (.create meshes nodes))
        (BuildChange.NamesMesh (.create meshes nodes)) next final := created_grows (fun m hm => ⟨m, hm, rfl⟩) (fun n hn => ⟨n, hn, rfl⟩) h
    obtain ⟨hfabric, hprovider⟩ := fields_of_bare hgrows.bare
    refine ⟨hgrows.bare, hfabric, hprovider, fun k a b ha hb => ?_, hgrows.added, fun k a ha hb => ?_⟩
    · obtain ⟨b', hb', hab⟩ := hgrows.kept k a ha
      rw [hb] at hb'
      cases hb'
      exact hab
    · obtain ⟨b, hb', _⟩ := hgrows.kept k a ha
      rw [hb] at hb'
      cases hb'
  | delete meshes nodeIds =>
    have hshrinks : Shrinks observed (BuildChange.NamesPath observed (.delete meshes nodeIds))
        (BuildChange.NamesMesh (.delete meshes nodeIds)) next final :=
      deleted_shrinks (fun k hk => hk) (fun id hid n hn => ⟨id, hid, n, hn, rfl⟩) h
    obtain ⟨hfabric, hprovider⟩ := fields_of_bare hshrinks.bare
    refine ⟨hshrinks.bare, hfabric, hprovider, fun k a b ha hb => ?_, fun k b ha hb => ?_, hshrinks.removed⟩
    · obtain ⟨a', ha', hab⟩ := hshrinks.kept k b hb
      rw [ha] at ha'
      cases ha'
      exact hab
    · obtain ⟨a', ha', _⟩ := hshrinks.kept k b hb
      rw [ha] at ha'
      cases ha'
  | deleteFabric => exact absurd rfl hchange

namespace FabricTopology

/-- A path the Build names no id for takes one; the meshes and the rest stay. -/
theorem mintCreated_eq (mint : Minted) {paths : List PathName} (hpaths : paths.Nodup) (t : FabricTopology)
    (hfree : ∀ p ∈ paths, p ∉ t.created.map Prod.fst) :
    t.mintCreated mint paths = { t with created := t.created ++ paths.map fun p => (p, mint.node p) } := by
  induction paths generalizing t with
  | nil => simp [mintCreated]
  | cons p paths ih =>
    obtain ⟨hp, hpaths⟩ := List.nodup_cons.mp hpaths
    have hnone : (t.createdId p).isNone = true := by
      rw [Option.isNone_iff_eq_none, createdId, Option.map_eq_none_iff, List.find?_eq_none]
      intro c hc hcp
      exact hfree p List.mem_cons_self (List.mem_map.mpr ⟨c, hc, by simpa using hcp⟩)
    rw [mintCreated, List.foldl_cons, if_pos hnone]
    refine (ih hpaths _ fun q hq hin => ?_).trans ?_
    · rw [List.map_append, List.mem_append] at hin
      rcases hin with hin | hin
      · exact hfree q (List.mem_cons_of_mem p hq) hin
      · rw [List.map_singleton, List.mem_singleton] at hin
        subst hin
        exact hp hq
    · simp

end FabricTopology

theorem ofRecords_created (mint : Minted) (observed : Topology) (accepted : FabricTopology) :
    (ofRecords mint observed accepted).created = [] ∧ (ofRecords mint observed accepted).pinned = [] := by
  have hmeshes : ∀ (l : List Mesh) (t : FabricTopology), (l.foldl (recordMesh mint accepted) t).bare = t.bare := by
    intro l
    induction l with
    | nil => exact fun _ => rfl
    | cons m l ih => exact fun t => (ih _).trans rfl
  have hnodes : ∀ (l : List Node) (t : FabricTopology), (l.foldl (recordNode mint accepted) t).bare = t.bare := by
    intro l
    induction l with
    | nil => exact fun _ => rfl
    | cons n l ih => exact fun t => (ih _).trans rfl
  have hbare := (hnodes (standing observed) _).trans (hmeshes (heldMeshes observed)
    ⟨observed.fabricName, ∅, accepted.topologyStorageProvider, [], []⟩)
  exact ⟨congrArg FabricTopology.created hbare, congrArg FabricTopology.pinned hbare⟩

theorem compile_ok {mint : Minted} {accepted final : FabricTopology} {change : BuildChange} {observed : Topology}
    {replaced : List PathName} (hchange : change ≠ .deleteFabric)
    (h : compileReplacing mint accepted change observed replaced = .ok final) :
    ∃ next, applied mint observed replaced (ofRecords mint observed accepted) change = .ok next ∧
      (next.meshes.isEmpty = false → next.validate = .ok ()) ∧
      final = { next with created := change.createdPaths.toList.map fun p => (p, mint.node p) } := by
  unfold compileReplacing at h
  split at h
  next => cases h
  next next happlied =>
    have hfinal : next.mintCreated mint change.createdPaths.toList =
        { next with created := change.createdPaths.toList.map fun p => (p, mint.node p) } := by
      have hnone : next.created = [] :=
        (congrArg FabricTopology.created (applied_touches hchange happlied).1).trans
          (ofRecords_created mint observed accepted).1
      rw [mintCreated_eq mint (nodup_toList _) next (by simp [hnone]), hnone, List.nil_append]
    rw [if_neg hchange] at h
    split at h
    next hempty =>
      refine ⟨next, happlied, fun hfull => ?_, (Except.ok.inj h).symm.trans hfinal⟩
      rw [hempty] at hfull
      cases hfull
    next =>
      split at h
      next => cases h
      next hvalid => exact ⟨next, happlied, fun _ => hvalid, (Except.ok.inj h).symm.trans hfinal⟩

theorem mem_setMesh (t : FabricTopology) (m : MeshTopology) (name k : String) :
    k ∈ (t.setMesh m name).meshes ↔ k = name ∨ k ∈ t.meshes :=
  mem_insert_map t.meshes name m k

theorem mem_ofRecords (mint : Minted) (observed : Topology) (accepted : FabricTopology) (k : String) :
    k ∈ (ofRecords mint observed accepted).meshes ↔
      (∃ m ∈ heldMeshes observed, m.name = k) ∨ ∃ n ∈ standing observed, n.mesh = k := by
  have hmeshes : ∀ (l : List Mesh) (t : FabricTopology),
      k ∈ (l.foldl (recordMesh mint accepted) t).meshes ↔ k ∈ t.meshes ∨ ∃ m ∈ l, m.name = k := by
    intro l
    induction l with
    | nil => simp
    | cons m l ih =>
      intro t
      rw [List.foldl_cons, ih, recordMesh, mem_setMesh, List.exists_mem_cons_iff, eq_comm]
      tauto
  have hnodes : ∀ (l : List Node) (t : FabricTopology),
      k ∈ (l.foldl (recordNode mint accepted) t).meshes ↔ k ∈ t.meshes ∨ ∃ n ∈ l, n.mesh = k := by
    intro l
    induction l with
    | nil => simp
    | cons n l ih =>
      intro t
      rw [List.foldl_cons, ih, recordNode, mem_setMesh, List.exists_mem_cons_iff, eq_comm]
      tauto
  unfold ofRecords
  rw [hnodes, hmeshes]
  simp only [ExtTreeMap.not_mem_empty, false_or]

/-- The records hold every standing birth at its path. -/
theorem location_ofRecords (mint : Minted) (observed : Topology) (accepted : FabricTopology) {n : Node}
    (hn : n ∈ standing observed) :
    ∃ m, (ofRecords mint observed accepted).meshes[n.mesh]? = some m ∧ n.location ∈ m.nodes := by
  have hkeeps : ∀ (l : List Node) (t : FabricTopology), (∃ m, t.meshes[n.mesh]? = some m ∧ n.location ∈ m.nodes) →
      ∃ m, (l.foldl (recordNode mint accepted) t).meshes[n.mesh]? = some m ∧ n.location ∈ m.nodes := by
    intro l
    induction l with
    | nil => exact fun _ h => h
    | cons x l ih =>
      intro t ⟨m, hm, hin⟩
      refine ih _ ?_
      rw [recordNode, meshes_setMesh]
      split
      next heq =>
        rw [heq, hm]
        exact ⟨_, rfl, (mem_insert_set _ _ _).mpr (.inr hin)⟩
      next => exact ⟨m, hm, hin⟩
  have hsets : ∀ (l : List Node) (t : FabricTopology), n ∈ l →
      ∃ m, (l.foldl (recordNode mint accepted) t).meshes[n.mesh]? = some m ∧ n.location ∈ m.nodes := by
    intro l
    induction l with
    | nil => exact fun _ h => absurd h List.not_mem_nil
    | cons x l ih =>
      intro t h
      rcases List.mem_cons.mp h with rfl | h
      · refine hkeeps l _ ?_
        rw [recordNode, meshes_setMesh, if_pos rfl]
        exact ⟨_, rfl, (mem_insert_set _ _ _).mpr (.inl rfl)⟩
      · exact ih _ h
  exact hsets _ _ hn

theorem mem_of_node {observed : Topology} {p : PathName} {n : Node} (h : observed.node p = some n) :
    n ∈ observed.nodes ∧ n.location = p := by
  have hlocation := List.find?_some h
  exact ⟨List.mem_of_find?_eq_some h, of_decide_eq_true hlocation⟩

theorem node_of_mem {observed : Topology} (h : observed.Distinct) {n : Node} (hn : n ∈ observed.nodes) :
    observed.node n.location = some n := by
  have hsome : (observed.node n.location).isSome = true := List.find?_isSome.mpr ⟨n, hn, decide_eq_true rfl⟩
  obtain ⟨m, hm⟩ := Option.isSome_iff_exists.mp hsome
  obtain ⟨hmem, hlocation⟩ := mem_of_node hm
  rw [hm, List.inj_on_of_nodup_map h.locations hmem hn hlocation]

theorem standing_eq {observed : Topology} (h : observed.Distinct) : standing observed = observed.nodes := by
  refine List.filter_eq_self.mpr fun n hn => ?_
  rw [node_of_mem h hn]
  simp

theorem created_nonempty {mint : Minted} {observed : Topology} {replaced : List PathName} {next final : FabricTopology}
    {meshes : List Meshes} {nodes : List Nodes} (h : created mint observed replaced next meshes nodes = .ok final) :
    ∃ k b, final.meshes[(k : String)]? = some b := by
  unfold created at h
  split at h
  next => cases h
  next hlisted =>
    split at h
    next => cases h
    next withMeshes added hmeshes =>
      split at h
      next => cases h
      next withNodes hnodes =>
        split at h
        next => cases h
        next =>
          cases h
          have hgrows : FabricTopology.Grows (fun _ => True) (fun _ => True) withMeshes final :=
            createNodes_grows (fun _ _ => trivial) hnodes
          cases meshes with
          | cons m meshes =>
            unfold createMeshes at hmeshes
            split at hmeshes
            next => cases hmeshes
            next =>
              split at hmeshes
              next => cases hmeshes
              next =>
                split at hmeshes
                next => cases hmeshes
                next =>
                  have hrest : FabricTopology.Grows (fun _ => True) (fun _ => True) _ withMeshes :=
                    createMeshes_grows mint (fun _ _ => trivial) hmeshes
                  obtain ⟨b, hb, _⟩ := (hrest.trans hgrows).kept m.name _ (by rw [meshes_setMesh, if_pos rfl])
                  exact ⟨m.name, b, hb⟩
          | nil =>
            cases nodes with
            | nil => exact absurd rfl hlisted
            | cons n nodes =>
              unfold createNodes at hnodes
              split at hnodes
              next => cases hnodes
              next path after hn =>
                obtain ⟨_, _, mesh, _, hmesh, _⟩ := createNode_ok hn
                obtain ⟨b, hb, _⟩ := hgrows.kept n.mesh mesh hmesh
                exact ⟨n.mesh, b, hb⟩

theorem deleteMeshes_gone (observed : Topology) {meshes : List String} {next final : FabricTopology}
    (h : deleteMeshes next meshes = .ok final) : ∀ k ∈ meshes, final.meshes[k]? = none := by
  induction meshes generalizing next with
  | nil =>
    intro k hk
    cases hk
  | cons m meshes ih =>
    unfold deleteMeshes at h
    split at h
    next =>
      intro k hk
      rcases List.mem_cons.mp hk with rfl | hk
      · have hrest : Shrinks observed (fun _ => True) (fun _ => True) (next.removeMesh k) final :=
          deleteMeshes_shrinks (fun _ _ => trivial) h
        cases hk : final.meshes[k]? with
        | none => rfl
        | some b =>
          obtain ⟨a, ha, _⟩ := hrest.kept k b hk
          rw [meshes_removeMesh, if_pos rfl] at ha
          cases ha
      · exact ih h k hk
    next => cases h

/-- A Delete that lists no node and names every mesh a birth stands in, of a fabric whose meshes are all deleted. -/
def WholeDelete (observed : Topology) : BuildChange → Prop
  | .delete meshes nodeIds =>
    nodeIds = [] ∧ (∀ m ∈ observed.meshes, m.status = .dead) ∧ ∀ n ∈ observed.nodes, n.mesh ∈ meshes
  | _ => False

/-- The compiled topology holds no mesh and the change lists no node to pin just when it deletes all that is left by its meshes'
names. -/
theorem empty_iff_wholeDelete {mint : Minted} {observed : Topology} {accepted final : FabricTopology}
    {meshes nodeIds : List String} (hd : observed.Distinct)
    (h : deleted observed (ofRecords mint observed accepted) meshes nodeIds = .ok final) :
    (final.meshes = ∅ ∧ nodeIds = []) ↔ WholeDelete observed (.delete meshes nodeIds) := by
  have hshrinks : Shrinks observed (BuildChange.NamesPath observed (.delete meshes nodeIds)) (· ∈ meshes)
      (ofRecords mint observed accepted) final :=
    deleted_shrinks (fun _ hk => hk) (fun id hid n hn => ⟨id, hid, n, hn, rfl⟩) h
  unfold deleted at h
  split at h
  next => cases h
  next =>
    split at h
    next => cases h
    next withoutNodes hnodes =>
      split at h
      next => cases h
      next withoutMeshes hmeshes =>
        split at h
        next => cases h
        next hlast =>
          cases h
          constructor
          · rintro ⟨hempty, rfl⟩
            refine ⟨rfl, fun m hm => ?_, fun n hn => ?_⟩
            · by_contra hdead
              refine hlast (Bool.and_eq_true_iff.mpr ⟨?_, List.any_eq_true.mpr ⟨m, hm, by simpa using hdead⟩⟩)
              rw [hempty]
              rfl
            · rw [← standing_eq hd] at hn
              obtain ⟨a, ha, hin⟩ := location_ofRecords mint observed accepted hn
              rcases hshrinks.removed n.mesh a ha (by rw [hempty]; rfl) with hnamed | ⟨_, hall⟩
              · exact hnamed
              · obtain ⟨id, hid, _⟩ := hall n.location hin
                cases hid
          · rintro ⟨rfl, hdead, hbirths⟩
            refine ⟨ExtTreeMap.ext_getElem? fun k => ?_, rfl⟩
            rw [ExtTreeMap.getElem?_empty]
            cases hk : final.meshes[k]? with
            | none => rfl
            | some b =>
              obtain ⟨a, ha, _⟩ := hshrinks.kept k b hk
              have hnamed : k ∈ meshes := by
                rcases (mem_ofRecords mint observed accepted k).mp (mem_of_lookup ha) with ⟨m, hm, rfl⟩ | ⟨n, hn, rfl⟩
                · obtain ⟨hm, hheld⟩ := List.mem_filter.mp hm
                  rw [hdead m hm, standing_eq hd] at hheld
                  have hheld : ∃ n ∈ observed.nodes, n.mesh = m.name := by simpa using hheld
                  obtain ⟨n, hn, hmesh⟩ := hheld
                  rw [← hmesh]
                  exact hbirths n hn
                · rw [standing_eq hd] at hn
                  exact hbirths n hn
              rw [deleteMeshes_gone observed hmeshes k hnamed] at hk
              cases hk

end DistributedMesh.Build
