import DistributedMesh.TopologyReceiver
import Mathlib.Data.List.MinMax
import Mathlib.Data.String.Basic

namespace DistributedMesh

open Std (ExtTreeMap ExtTreeSet)
open KeyedMaps

/-- Every (endpoint key, node id) an index lists, a key after another. -/
def listings (byEndpoint : EndpointIndex) : List (String × String) := pairs ExtTreeSet.toList byEndpoint

def memberKeys (digests : Members) : List (String × String) := inverted (fun d => d.node.endpointId) digests

/-- Each member is listed exactly once, under its endpoint key, and nothing else is listed. -/
theorem Listed.perm {digests : Members} {byEndpoint : EndpointIndex} (h : Listed digests byEndpoint) :
    (listings byEndpoint).Perm (memberKeys digests) := by
  refine pairs_perm_inverted (fun _ ids _ => nodup_toList ids) fun e id => ?_
  simp only [ExtTreeSet.mem_toList]
  exact h.lists e id

/-- The index answers what a scan of the members in node id order finds first. -/
theorem Full.memberAt_eq_scan (full : Full) (e : String) :
    full.memberAt e = (values full.digests).find? fun d => d.node.endpointId = e := by
  cases hids : full.byEndpoint[e]? with
  | none =>
    have hscan : ((values full.digests).find? fun d => d.node.endpointId = e) = none := by
      rw [List.find?_eq_none]
      intro d hd he
      obtain ⟨id, hid⟩ := (mem_values_iff _ _).mp hd
      obtain ⟨ids, hsome, _⟩ := (full.listed.lists e id).mpr ⟨d, hid, by simpa using he⟩
      rw [hids] at hsome
      cases hsome
    rw [hscan, memberAt, hids]
    rfl
  | some ids =>
    obtain ⟨id, hid⟩ := full.listed.nonempty e ids hids
    have hsome := ExtTreeSet.isSome_min?_of_mem hid
    obtain ⟨first, hfirst⟩ := Option.isSome_iff_exists.mp hsome
    obtain ⟨hmem, hle⟩ := ExtTreeSet.min?_eq_some_iff_mem_and_forall.mp hfirst
    obtain ⟨d, hd, he⟩ := (full.listed.lists e first).mp ⟨ids, hids, hmem⟩
    have hanswer : full.memberAt e = some d := by
      rw [memberAt, hids]
      change ids.min?.bind (fun id => full.digests[id]?) = some d
      rw [hfirst]
      exact hd
    rw [hanswer]
    refine (find?_values_of_least hd (by simpa using he) fun id' d' hd' he' => hle id' ?_).symm
    obtain ⟨ids', hids', hmem'⟩ := (full.listed.lists e id').mpr ⟨d', hd', by simpa using he'⟩
    rw [hids] at hids'
    cases hids'
    exact hmem'

/-- The held sources as a hash map may walk them. -/
abbrev SnapshotReceiver.Walk (r : SnapshotReceiver) := { walk : List (String × Held) // walk.Perm r.held.toList }

/-- The member at an endpoint key in the first source, by mesh name, that lists one. -/
def SnapshotReceiver.memberAt (r : SnapshotReceiver) (walk : r.Walk) (endpointId : String) : Option MeshDigest :=
  let listing := walk.val.filterMap fun (m, h) => (h.full.memberAt endpointId).map fun d => (m, d)
  (listing.argmin Prod.fst).map Prod.snd

/-- Every complete source held, as (mesh, publisher, version, full), by mesh name. -/
def SnapshotReceiver.sources (r : SnapshotReceiver) (walk : r.Walk) : List (String × PublisherId × Nat × Full) :=
  (walk.val.map fun (m, h) => (m, h.publisher, h.version, h.full)).mergeSort fun a b => decide (a.1 ≤ b.1)

/-- The least of a list is the first of the list in order. -/
theorem argmin_eq_head? {α β : Type} [LinearOrder β] (f : α → β) {l sorted : List α} (hperm : l.Perm sorted)
    (hsorted : sorted.Pairwise fun a b => f a < f b) : l.argmin f = sorted.head? := by
  cases sorted with
  | nil => rw [hperm.eq_nil, List.argmin_nil, List.head?_nil]
  | cons a rest =>
    cases hleast : l.argmin f with
    | none =>
      rw [List.argmin_eq_none.mp hleast] at hperm
      exact absurd hperm.symm.eq_nil (by simp)
    | some least =>
      have hle := List.le_of_mem_argmin (hperm.mem_iff.mpr List.mem_cons_self) hleast
      rcases List.mem_cons.mp (hperm.mem_iff.mp (List.argmin_mem hleast)) with heq | hmem
      · rw [heq, List.head?_cons]
      · exact absurd hle (not_le_of_gt (List.rel_of_pairwise_cons hsorted hmem))

theorem SnapshotReceiver.sources_perm (r : SnapshotReceiver) (walk : r.Walk) :
    (r.sources walk).Perm (walk.val.map fun (m, h) => (m, h.publisher, h.version, h.full)) :=
  List.mergeSort_perm _ _

/-- The sources stand in the strict order of their meshes. -/
theorem SnapshotReceiver.sources_ordered (r : SnapshotReceiver) (walk : r.Walk) :
    (r.sources walk).Pairwise fun a b => a.1 < b.1 := by
  have hsorted : (r.sources walk).Pairwise fun a b => decide (a.1 ≤ b.1) = true :=
    List.pairwise_mergeSort (fun a b c hab hbc => by simpa using le_trans (by simpa using hab) (by simpa using hbc))
      (fun a b => by simpa using le_total a.1 b.1) _
  have hkeys : ((r.sources walk).map Prod.fst).Nodup := by
    have hperm : ((r.sources walk).map Prod.fst).Perm r.held.keys := by
      refine ((r.sources_perm walk).map Prod.fst).trans ?_
      rw [List.map_map, ← ExtTreeMap.map_fst_toList_eq_keys]
      exact walk.property.map Prod.fst
    exact hperm.nodup_iff.mpr ExtTreeMap.nodup_keys
  refine (hsorted.and (List.pairwise_map.mp hkeys)).imp fun {a b} h => ?_
  exact lt_of_le_of_ne (by simpa using h.1) h.2

/-- The receiver answers what a scan of the sources, mesh by mesh, finds first. -/
theorem SnapshotReceiver.memberAt_eq_scan (r : SnapshotReceiver) (walk : r.Walk) (e : String) :
    r.memberAt walk e =
      ((r.sources walk).flatMap fun source => values source.2.2.2.digests).find? fun d => d.node.endpointId = e := by
  let lists : String × PublisherId × Nat × Full → Option (String × MeshDigest) :=
    fun source => (source.2.2.2.memberAt e).map fun d => (source.1, d)
  have hperm : (walk.val.filterMap fun (m, h) => (h.full.memberAt e).map fun d => (m, d)).Perm
      ((r.sources walk).filterMap lists) := by
    refine List.Perm.trans ?_ ((r.sources_perm walk).symm.filterMap lists)
    rw [List.filterMap_map]
    exact List.Perm.refl _
  have hordered : ((r.sources walk).filterMap lists).Pairwise fun a b => a.1 < b.1 := by
    refine List.pairwise_filterMap.mpr ((r.sources_ordered walk).imp fun {a b} hlt p hp q hq => ?_)
    obtain ⟨_, _, rfl⟩ := Option.map_eq_some_iff.mp hp
    obtain ⟨_, _, rfl⟩ := Option.map_eq_some_iff.mp hq
    exact hlt
  have hscan : ∀ source : String × PublisherId × Nat × Full,
      (lists source).map Prod.snd = (values source.2.2.2.digests).find? fun d => d.node.endpointId = e := by
    intro source
    rw [← Full.memberAt_eq_scan, Option.map_map]
    exact Option.map_id'
  rw [memberAt, argmin_eq_head? Prod.fst hperm hordered, List.head?_filterMap, List.find?_flatMap, List.map_findSome?]
  exact congrArg (fun g => List.findSome? g (r.sources walk)) (funext hscan)

theorem Listed.no_empty_key {digests : Members} {byEndpoint : EndpointIndex} (h : Listed digests byEndpoint) :
    (byEndpoint.toList.all fun p => !p.2.isEmpty) = true := by
  rw [List.all_eq_true]
  intro p hp
  obtain ⟨id, hid⟩ := h.nonempty p.1 p.2 (ExtTreeMap.mem_toList_iff_getElem?_eq_some.mp hp)
  by_contra hempty
  have hnone : p.2 = ∅ := ExtTreeSet.isEmpty_iff.mp (by simpa using hempty)
  rw [hnone] at hid
  simp at hid

/-- A call that moves a full. -/
inductive FullCall where
  | apply (delta : Delta)
  | withoutLoads

def Full.call (full : Full) : FullCall → Full
  | .apply delta => full.apply delta
  | .withoutLoads => full.withoutLoads

/-- After any calls on a new full its index lists each member once, under the endpoint key it has, and
nothing else; so it answers as a scan does, and a receiver as a scan of its sources does. -/
theorem index_answers_as_scan (digests : List MeshDigest) (inFlight deleted : List LifecycleOp)
    (calls : List FullCall) :
    let full := calls.foldl Full.call (Full.new digests inFlight deleted)
    (listings full.byEndpoint).Perm (memberKeys full.digests) ∧
      (full.byEndpoint.toList.all fun p => !p.2.isEmpty) = true ∧
      (∀ e : String, full.memberAt e = (values full.digests).find? fun d => d.node.endpointId = e) ∧
      ∀ (r : SnapshotReceiver) (walk : r.Walk) (e : String), r.memberAt walk e =
        ((r.sources walk).flatMap fun source => values source.2.2.2.digests).find? fun d =>
          d.node.endpointId = e := by
  intro full
  exact ⟨full.listed.perm, full.listed.no_empty_key, full.memberAt_eq_scan, SnapshotReceiver.memberAt_eq_scan⟩

end DistributedMesh
