import DistributedMesh.TopologyFull

namespace DistributedMesh

open Std (ExtTreeMap)
open KeyedMaps

namespace Full

theorem foldl_change (l : List MeshDigest) (full : Full) :
    (l.foldl change full).digests = insertAll (fun d => d.node.nodeId) full.digests l ∧
    (∀ k : OpKey, (l.foldl change full).inFlight[k]? = full.inFlight[k]?.filter fun o =>
      l.all fun d => !(o.isStop && o.nodeId == d.node.nodeId && o.incarnation == d.node.incarnation)) ∧
    (l.foldl change full).deleted = full.deleted := by
  induction l generalizing full with
  | nil =>
    refine ⟨rfl, fun k => ?_, rfl⟩
    cases h : full.inFlight[k]? with
    | none => simp [h]
    | some o => rw [List.foldl_nil, h]; rfl
  | cons d l ih =>
    obtain ⟨hd, hi, hx⟩ := ih (full.change d)
    refine ⟨hd, fun k => ?_, hx⟩
    rw [List.foldl_cons, hi, change, put, retain, getElem?_filter_eq, Option.filter_filter]
    rfl

theorem foldl_remove (l : List String) (full : Full) :
    (l.foldl remove full).digests = l.foldl (fun m id => m.erase id) full.digests ∧
    (l.foldl remove full).inFlight = full.inFlight ∧
    (l.foldl remove full).deleted = full.deleted := by
  induction l generalizing full with
  | nil => exact ⟨rfl, rfl, rfl⟩
  | cons id l ih => exact ih (full.remove id)

theorem foldl_overlay (l : List LifecycleOp) (full : Full) :
    (l.foldl overlay full).digests = full.digests ∧
    (l.foldl overlay full).inFlight = insertAll LifecycleOp.key full.inFlight l ∧
    (l.foldl overlay full).deleted = full.deleted := by
  induction l generalizing full with
  | nil => exact ⟨rfl, rfl, rfl⟩
  | cons o l ih => exact ih (full.overlay o)

theorem foldl_depart (l : List LifecycleOp) (full : Full) :
    (l.foldl depart full).digests = full.digests ∧
    (∀ k : OpKey, (l.foldl depart full).inFlight[k]? = full.inFlight[k]?.filter fun o =>
      l.all fun x => !(o.nodeId == x.nodeId && o.incarnation == x.incarnation)) ∧
    (l.foldl depart full).deleted = insertAll LifecycleOp.nodeId full.deleted l := by
  induction l generalizing full with
  | nil =>
    refine ⟨rfl, fun k => ?_, rfl⟩
    cases h : full.inFlight[k]? with
    | none => simp [h]
    | some o => rw [List.foldl_nil, h]; rfl
  | cons x l ih =>
    obtain ⟨hd, hi, hx⟩ := ih (full.depart x)
    refine ⟨hd, fun k => ?_, hx⟩
    rw [List.foldl_cons, hi, depart, retain, getElem?_filter_eq, Option.filter_filter]
    rfl

/-- The members, the overlays and the departures of a full moved by a delta. -/
theorem apply_spec (full : Full) (delta : Delta) :
    (∀ id : String, (full.apply delta).digests[id]? = if id ∈ delta.removed then none
      else (insertAll (fun d => d.node.nodeId) full.digests delta.changed)[id]?) ∧
    (∀ k : OpKey, (full.apply delta).inFlight[k]? =
      ((insertAll LifecycleOp.key (∅ : Overlays) delta.inFlight)[k]?.or
        (full.inFlight[k]?.filter fun o => delta.changed.all fun d =>
          !(o.isStop && o.nodeId == d.node.nodeId && o.incarnation == d.node.incarnation))).filter
        fun o => delta.deleted.all fun x => !(o.nodeId == x.nodeId && o.incarnation == x.incarnation)) ∧
    (full.apply delta).deleted = insertAll LifecycleOp.nodeId full.deleted delta.deleted := by
  obtain ⟨hd₁, hi₁, hx₁⟩ := foldl_change delta.changed full
  obtain ⟨hd₂, hi₂, hx₂⟩ := foldl_remove delta.removed (delta.changed.foldl change full)
  obtain ⟨hd₃, hi₃, hx₃⟩ := foldl_overlay delta.inFlight
    (delta.removed.foldl remove (delta.changed.foldl change full))
  obtain ⟨hd₄, hi₄, hx₄⟩ := foldl_depart delta.deleted
    (delta.inFlight.foldl overlay (delta.removed.foldl remove (delta.changed.foldl change full)))
  refine ⟨fun id => ?_, fun k => ?_, ?_⟩
  · rw [apply, hd₄, hd₃, hd₂, getElem?_foldl_erase, hd₁]
  · rw [apply, hi₄, hi₃, getElem?_insertAll, getElem?_insertAll, hi₂, hi₁]
    simp
  · rw [apply, hx₄, hx₃, hx₂, hx₁]

theorem sameMembers_iff (m n : Members) :
    (m.size = n.size ∧ ∀ p ∈ m.toList, ∃ o, n[p.1]? = some o ∧ topologyView p.2 = topologyView o) ↔
      ∀ id : String, m[id]?.map topologyView = n[id]?.map topologyView := by
  constructor
  · rintro ⟨hs, hall⟩ id
    have hin : ∀ a, a ∈ m → a ∈ n := by
      intro a ha
      obtain ⟨d, hd⟩ := (mem_iff_getElem? m a).mp ha
      obtain ⟨o, ho, _⟩ := hall (a, d) (ExtTreeMap.mem_toList_iff_getElem?_eq_some.mpr hd)
      exact (mem_iff_getElem? n a).mpr ⟨o, ho⟩
    cases hd : m[id]? with
    | some d =>
      obtain ⟨o, ho, hv⟩ := hall (id, d) (ExtTreeMap.mem_toList_iff_getElem?_eq_some.mpr hd)
      rw [ho]
      exact congrArg some hv
    | none =>
      cases ho : n[id]? with
      | none => rfl
      | some o =>
        have hmem := mem_of_size_eq hs hin ((mem_iff_getElem? n id).mpr ⟨o, ho⟩)
        obtain ⟨d, hsome⟩ := (mem_iff_getElem? m id).mp hmem
        simp [hd] at hsome
  · intro h
    have hmap := (map_eq_iff m n topologyView).mpr h
    refine ⟨?_, fun p hp => ?_⟩
    · rw [← ExtTreeMap.size_map (f := fun _ d => topologyView d), hmap, ExtTreeMap.size_map]
    · have hp := ExtTreeMap.mem_toList_iff_getElem?_eq_some.mp hp
      have hid := h p.1
      rw [hp] at hid
      obtain ⟨o, ho, hv⟩ := Option.map_eq_some_iff.mp hid.symm
      exact ⟨o, ho, hv.symm⟩

/-- The same topology, key by key. -/
theorem sameTopology_iff (full other : Full) : full.sameTopology other = true ↔
    (∀ id : String, full.digests[id]?.map topologyView = other.digests[id]?.map topologyView) ∧
    (∀ k : OpKey, full.inFlight[k]?.map LifecycleOp.untraced =
      other.inFlight[k]?.map LifecycleOp.untraced) ∧
    ∀ id : String, full.deleted[id]?.map LifecycleOp.untraced =
      other.deleted[id]?.map LifecycleOp.untraced := by
  rw [← sameMembers_iff, ← map_eq_iff, ← map_eq_iff, sameTopology]
  simp only [Bool.and_eq_true, beq_iff_eq, List.all_eq_true, Option.any_eq_true, decide_eq_true_eq,
    and_assoc]

theorem sameTopology_refl (full : Full) : full.sameTopology full = true := by
  simp [sameTopology_iff]

theorem sameTopology_symm {full other : Full} (h : full.sameTopology other = true) :
    other.sameTopology full = true := by
  obtain ⟨hd, hi, hx⟩ := (sameTopology_iff full other).mp h
  exact (sameTopology_iff other full).mpr
    ⟨fun id => (hd id).symm, fun k => (hi k).symm, fun id => (hx id).symm⟩

theorem sameTopology_trans {a b c : Full} (hab : a.sameTopology b = true)
    (hbc : b.sameTopology c = true) : a.sameTopology c = true := by
  obtain ⟨hd, hi, hx⟩ := (sameTopology_iff a b).mp hab
  obtain ⟨hd', hi', hx'⟩ := (sameTopology_iff b c).mp hbc
  exact (sameTopology_iff a c).mpr
    ⟨fun id => (hd id).trans (hd' id), fun k => (hi k).trans (hi' k), fun id => (hx id).trans (hx' id)⟩

/-- The index is the members' own: the same members by view are listed alike. -/
theorem byEndpoint_congr {full other : Full}
    (h : ∀ id : String, full.digests[id]?.map topologyView = other.digests[id]?.map topologyView) :
    full.byEndpoint = other.byEndpoint := by
  have hside : ∀ {f g : Full}, (∀ id : String, f.digests[id]?.map topologyView =
      g.digests[id]?.map topologyView) → ∀ e id : String,
      (∃ ids, f.byEndpoint[e]? = some ids ∧ id ∈ ids) → ∃ ids, g.byEndpoint[e]? = some ids ∧ id ∈ ids := by
    intro f g hfg e id hm
    obtain ⟨d, hd, he⟩ := (f.listed.lists e id).mp hm
    have hid := hfg id
    rw [hd] at hid
    obtain ⟨o, ho, hv⟩ := Option.map_eq_some_iff.mp hid.symm
    refine (g.listed.lists e id).mpr ⟨o, ho, ?_⟩
    rw [node_of_topologyView hv]
    exact he
  refine ExtTreeMap.ext_getElem? fun e => ?_
  have hto := hside h e
  have hback := hside (fun id => (h id).symm) e
  cases hf : full.byEndpoint[e]? with
  | none =>
    cases hg : other.byEndpoint[e]? with
    | none => rfl
    | some ids =>
      obtain ⟨id, hid⟩ := other.listed.nonempty e ids hg
      obtain ⟨ids', hsome, _⟩ := hback id ⟨ids, hg, hid⟩
      simp [hf] at hsome
  | some ids =>
    obtain ⟨id, hid⟩ := full.listed.nonempty e ids hf
    obtain ⟨ids', hg, _⟩ := hto id ⟨ids, hf, hid⟩
    rw [hg]
    refine congrArg some (Std.ExtTreeSet.ext_mem fun a => ⟨fun ha => ?_, fun ha => ?_⟩)
    · obtain ⟨x, hx, hm⟩ := hto a ⟨ids, hf, ha⟩
      cases hg.symm.trans hx
      exact hm
    · obtain ⟨x, hx, hm⟩ := hback a ⟨ids', hg, ha⟩
      cases hf.symm.trans hx
      exact hm

theorem memberAt_congr {full other : Full}
    (h : ∀ id : String, full.digests[id]?.map topologyView = other.digests[id]?.map topologyView)
    (e : String) : (full.memberAt e).map topologyView = (other.memberAt e).map topologyView := by
  rw [memberAt, memberAt, byEndpoint_congr h]
  cases other.byEndpoint[e]? with
  | none => rfl
  | some ids =>
    cases hm : ids.min? with
    | none => simp [hm]
    | some id => simpa [hm] using h id

def departed (full : Full) (nodeId incarnation : String) : Prop :=
  ∃ x, full.deleted[nodeId]? = some x ∧ x.incarnation = incarnation

/-- The birth is listed by `next` and this full lists it differently or not at all. -/
def relists (full next : Full) (nodeId incarnation : String) : Prop :=
  ∃ d, next.digests[nodeId]? = some d ∧ d.node.incarnation = incarnation ∧
    full.digests[nodeId]?.map topologyView ≠ some (topologyView d)

/-- What a source's next projection keeps of this one: overlays and departures end only as a
delta can tell. -/
structure Succeeds (old new : Full) : Prop where
  overlay_same : ∀ (k : OpKey) (a b : LifecycleOp), old.inFlight[k]? = some a →
    new.inFlight[k]? = some b → a.same b = true
  overlay_ended : ∀ (k : OpKey) (o : LifecycleOp), old.inFlight[k]? = some o → k ∉ new.inFlight →
    (new.departed o.nodeId o.incarnation ∧ ¬ old.departed o.nodeId o.incarnation) ∨
      (o.isStop = true ∧ old.relists new o.nodeId o.incarnation)
  departure_kept : ∀ (id : String) (x : LifecycleOp), old.deleted[id]? = some x →
    ∃ y, new.deleted[id]? = some y ∧ x.same y = true
  departure_clear : ∀ (k : OpKey) (o : LifecycleOp), new.inFlight[k]? = some o →
    new.departed o.nodeId o.incarnation → old.departed o.nodeId o.incarnation
  stop_kept : ∀ (k : OpKey) (o : LifecycleOp), old.inFlight[k]? = some o → o.isStop = true →
    k ∈ new.inFlight → ¬ old.relists new o.nodeId o.incarnation

theorem same_iff (a b : LifecycleOp) : a.same b = true ↔ a.untraced = b.untraced := by
  simp [LifecycleOp.same]

theorem nodeId_of_untraced {a b : LifecycleOp} (h : a.untraced = b.untraced) :
    a.nodeId = b.nodeId := by
  have hn : a.untraced.nodeId = b.untraced.nodeId := by rw [h]
  exact hn

theorem incarnation_of_untraced {a b : LifecycleOp} (h : a.untraced = b.untraced) :
    a.incarnation = b.incarnation := by
  have hn : a.untraced.incarnation = b.untraced.incarnation := by rw [h]
  exact hn

theorem mem_deltaTo_changed (old new : Full) (d : MeshDigest) :
    d ∈ (old.deltaTo new).changed ↔ ∃ (id : String) (e : MeshDigest), new.digests[id]? = some e ∧
      old.digests[id]?.map topologyView ≠ some (topologyView e) ∧ d = withoutLoad e := by
  have hall : ∀ (o : Option MeshDigest) (e : MeshDigest),
      (o.all fun o => decide (topologyView o ≠ topologyView e)) = true ↔
        o.map topologyView ≠ some (topologyView e) := by
    intro o e
    cases o <;> simp
  simp only [deltaTo, List.mem_map, List.mem_filter, Prod.exists,
    ExtTreeMap.mem_toList_iff_getElem?_eq_some, hall]
  constructor
  · rintro ⟨id, e, ⟨he, hv⟩, rfl⟩
    exact ⟨id, e, he, hv, rfl⟩
  · rintro ⟨id, e, he, hv, rfl⟩
    exact ⟨id, e, ⟨he, hv⟩, rfl⟩

theorem mem_deltaTo_removed (old new : Full) (id : String) :
    id ∈ (old.deltaTo new).removed ↔ id ∈ old.digests ∧ id ∉ new.digests := by
  simp [deltaTo]

theorem mem_deltaTo_inFlight (old new : Full) (o : LifecycleOp) :
    o ∈ (old.deltaTo new).inFlight ↔ new.inFlight[o.key]? = some o ∧ o.key ∉ old.inFlight := by
  refine (new.inFlight_keyed.mem_filter _ o).trans ?_
  simp

theorem mem_deltaTo_deleted (old new : Full) (o : LifecycleOp) :
    o ∈ (old.deltaTo new).deleted ↔ new.deleted[o.nodeId]? = some o ∧ o.nodeId ∉ old.deleted := by
  refine (new.deleted_keyed.mem_filter _ o).trans ?_
  simp

theorem changed_of_mem_keys {old new : Full} {id : String}
    (h : id ∈ (old.deltaTo new).changed.map fun d => d.node.nodeId) :
    ∃ e, new.digests[id]? = some e ∧ old.digests[id]?.map topologyView ≠ some (topologyView e) := by
  obtain ⟨d, hd, hid⟩ := List.mem_map.mp h
  obtain ⟨k, e, he, hv, rfl⟩ := (mem_deltaTo_changed old new d).mp hd
  have hk : e.node.nodeId = k := new.digests_keyed k e he
  have hki : k = id := hk.symm.trans hid
  rw [← hki]
  exact ⟨e, he, hv⟩

/-- A delta's members are the next projection's. -/
theorem apply_deltaTo_members (old new : Full) (id : String) :
    (old.apply (old.deltaTo new)).digests[id]?.map topologyView = new.digests[id]?.map topologyView := by
  have hnodup : ((old.deltaTo new).changed.map fun d => d.node.nodeId).Nodup :=
    new.digests_keyed.nodup_filter _ (f := withoutLoad) fun _ => rfl
  rw [(apply_spec old (old.deltaTo new)).1 id]
  cases hn : new.digests[id]? with
  | none =>
    have hnew : id ∉ new.digests := not_mem_of_lookup hn
    by_cases ho : id ∈ old.digests
    · rw [if_pos ((mem_deltaTo_removed old new id).mpr ⟨ho, hnew⟩)]
    · have hno : id ∉ (old.deltaTo new).changed.map fun d => d.node.nodeId := by
        intro hmem
        obtain ⟨e, he, _⟩ := changed_of_mem_keys hmem
        simp [hn] at he
      have hrem : id ∉ (old.deltaTo new).removed := fun h =>
        ho ((mem_deltaTo_removed old new id).mp h).1
      rw [if_neg hrem, getElem?_insertAll_of_not_mem hno, ExtTreeMap.getElem?_eq_none ho]
  | some e =>
    have hrem : id ∉ (old.deltaTo new).removed := by
      intro h
      have habs := ((mem_deltaTo_removed old new id).mp h).2
      exact habs (mem_of_lookup hn)
    rw [if_neg hrem]
    by_cases hv : old.digests[id]?.map topologyView = some (topologyView e)
    · have hno : id ∉ (old.deltaTo new).changed.map fun d => d.node.nodeId := by
        intro hmem
        obtain ⟨e', he', hv'⟩ := changed_of_mem_keys hmem
        rw [hn] at he'
        cases he'
        exact hv' hv
      rw [getElem?_insertAll_of_not_mem hno, hv]
      rfl
    · have hmem : withoutLoad e ∈ (old.deltaTo new).changed :=
        (mem_deltaTo_changed old new _).mpr ⟨id, e, hn, hv, rfl⟩
      have hid : e.node.nodeId = id := new.digests_keyed id e hn
      have hget := getElem?_insertAll_of_mem (m := old.digests) hnodup hmem
      rw [show (withoutLoad e).node.nodeId = id from hid] at hget
      rw [hget]
      rfl

/-- A departure of the next projection's that a delta carries is of a birth that departs there. -/
theorem departs_iff {old new : Full} (h : old.Succeeds new) (o : LifecycleOp) :
    ((old.deltaTo new).deleted.all fun x => !(o.nodeId == x.nodeId && o.incarnation == x.incarnation))
      = false ↔ new.departed o.nodeId o.incarnation ∧ ¬ old.departed o.nodeId o.incarnation := by
  rw [List.all_eq_false]
  constructor
  · rintro ⟨x, hx, hb⟩
    obtain ⟨hnew, hold⟩ := (mem_deltaTo_deleted old new x).mp hx
    have hb : o.nodeId = x.nodeId ∧ o.incarnation = x.incarnation := by simpa using hb
    rw [hb.1, hb.2]
    refine ⟨⟨x, hnew, rfl⟩, ?_⟩
    rintro ⟨y, hy, _⟩
    exact hold (mem_of_lookup hy)
  · rintro ⟨⟨x, hx, hi⟩, hnot⟩
    have hid : x.nodeId = o.nodeId := new.deleted_keyed _ x hx
    have hold : x.nodeId ∉ old.deleted := by
      intro hmem
      obtain ⟨y, hy⟩ := (mem_iff_getElem? _ _).mp hmem
      rw [hid] at hy
      obtain ⟨z, hz, hyz⟩ := h.departure_kept _ y hy
      rw [hx] at hz
      cases hz
      have hinc := incarnation_of_untraced ((same_iff y x).mp hyz)
      exact hnot ⟨y, hy, hinc.trans hi⟩
    refine ⟨x, (mem_deltaTo_deleted old new x).mpr ⟨by rw [hid]; exact hx, hold⟩, ?_⟩
    simp [hid, hi]

/-- A delta relists a birth exactly when its stop is cleared with it. -/
theorem relists_iff (old new : Full) (o : LifecycleOp) :
    ((old.deltaTo new).changed.all fun d =>
      !(o.isStop && o.nodeId == d.node.nodeId && o.incarnation == d.node.incarnation)) = false ↔
        o.isStop = true ∧ old.relists new o.nodeId o.incarnation := by
  rw [List.all_eq_false]
  constructor
  · rintro ⟨d, hd, hb⟩
    obtain ⟨id, e, he, hv, rfl⟩ := (mem_deltaTo_changed old new d).mp hd
    have hb : (o.isStop = true ∧ o.nodeId = e.node.nodeId) ∧ o.incarnation = e.node.incarnation := by
      simpa [withoutLoad] using hb
    obtain ⟨⟨hstop, hid⟩, hinc⟩ := hb
    have hk : e.node.nodeId = id := new.digests_keyed id e he
    refine ⟨hstop, e, ?_, hinc.symm, ?_⟩
    · rw [hid, hk]
      exact he
    · rw [hid, hk]
      exact hv
  · rintro ⟨hstop, e, he, hinc, hv⟩
    have hk : e.node.nodeId = o.nodeId := new.digests_keyed _ e he
    refine ⟨withoutLoad e, (mem_deltaTo_changed old new _).mpr ⟨_, e, he, hv, rfl⟩, ?_⟩
    simp [withoutLoad, hstop, hk, hinc]

/-- A delta's departures are the next projection's. -/
theorem apply_deltaTo_departures {old new : Full} (h : old.Succeeds new) (id : String) :
    (old.apply (old.deltaTo new)).deleted[id]?.map LifecycleOp.untraced =
      new.deleted[id]?.map LifecycleOp.untraced := by
  have hnodup : ((old.deltaTo new).deleted.map LifecycleOp.nodeId).Nodup :=
    new.deleted_keyed.nodup_filter _ (f := fun o => o) fun _ => rfl
  rw [(apply_spec old (old.deltaTo new)).2.2]
  cases ho : old.deleted[id]? with
  | some x =>
    have hno : id ∉ (old.deltaTo new).deleted.map LifecycleOp.nodeId := by
      intro hmem
      obtain ⟨y, hy, hid⟩ := List.mem_map.mp hmem
      have habs := ((mem_deltaTo_deleted old new y).mp hy).2
      rw [hid] at habs
      exact habs (mem_of_lookup ho)
    obtain ⟨y, hy, hxy⟩ := h.departure_kept id x ho
    rw [getElem?_insertAll_of_not_mem hno, ho, hy]
    exact congrArg some ((same_iff x y).mp hxy)
  | none =>
    have hold : id ∉ old.deleted := not_mem_of_lookup ho
    cases hn : new.deleted[id]? with
    | none =>
      have hno : id ∉ (old.deltaTo new).deleted.map LifecycleOp.nodeId := by
        intro hmem
        obtain ⟨y, hy, hid⟩ := List.mem_map.mp hmem
        have hy := ((mem_deltaTo_deleted old new y).mp hy).1
        rw [hid, hn] at hy
        simp at hy
      rw [getElem?_insertAll_of_not_mem hno, ho]
    | some y =>
      have hid : y.nodeId = id := new.deleted_keyed id y hn
      have hmem : y ∈ (old.deltaTo new).deleted := by
        rw [mem_deltaTo_deleted, hid]
        exact ⟨hn, hold⟩
      have hget := getElem?_insertAll_of_mem (m := old.deleted) hnodup hmem
      rw [hid] at hget
      rw [hget]

/-- A delta opens no overlay that the projection before it held or the next one lacks. -/
theorem opened_eq_none {old new : Full} {k : OpKey} (hk : k ∈ old.inFlight ∨ k ∉ new.inFlight) :
    (insertAll LifecycleOp.key (∅ : Overlays) (old.deltaTo new).inFlight)[k]? = none := by
  rw [getElem?_insertAll_of_not_mem]
  · simp
  · intro hmem
    obtain ⟨x, hx, hxk⟩ := List.mem_map.mp hmem
    obtain ⟨hx, hxo⟩ := (mem_deltaTo_inFlight old new x).mp hx
    rw [hxk] at hx hxo
    rcases hk with hk | hk
    · exact hxo hk
    · exact hk (mem_of_lookup hx)

/-- A delta opens the overlays of the next projection that the one before it lacked. -/
theorem opened_eq_some {old new : Full} {k : OpKey} {o : LifecycleOp} (hn : new.inFlight[k]? = some o)
    (hold : k ∉ old.inFlight) :
    (insertAll LifecycleOp.key (∅ : Overlays) (old.deltaTo new).inFlight)[k]? = some o := by
  have hnodup : ((old.deltaTo new).inFlight.map LifecycleOp.key).Nodup :=
    new.inFlight_keyed.nodup_filter _ (f := fun o => o) fun _ => rfl
  have hkey : o.key = k := new.inFlight_keyed k o hn
  have hmem : o ∈ (old.deltaTo new).inFlight := by
    rw [mem_deltaTo_inFlight, hkey]
    exact ⟨hn, hold⟩
  have hget := getElem?_insertAll_of_mem (m := (∅ : Overlays)) hnodup hmem
  rw [hkey] at hget
  exact hget

/-- A delta's overlays are the next projection's. -/
theorem apply_deltaTo_overlays {old new : Full} (h : old.Succeeds new) (k : OpKey) :
    (old.apply (old.deltaTo new)).inFlight[k]?.map LifecycleOp.untraced =
      new.inFlight[k]?.map LifecycleOp.untraced := by
  rw [(apply_spec old (old.deltaTo new)).2.1 k]
  cases ho : old.inFlight[k]? with
  | none =>
    have hold : k ∉ old.inFlight := not_mem_of_lookup ho
    cases hn : new.inFlight[k]? with
    | none =>
      have hnew : k ∉ new.inFlight := not_mem_of_lookup hn
      rw [opened_eq_none (Or.inr hnew)]
      rfl
    | some o =>
      have hkeep : ((old.deltaTo new).deleted.all fun x =>
          !(o.nodeId == x.nodeId && o.incarnation == x.incarnation)) = true := by
        rw [← Bool.not_eq_false, departs_iff h]
        exact fun hd => hd.2 (h.departure_clear k o hn hd.1)
      rw [opened_eq_some hn hold, Option.some_or, Option.filter_some, if_pos hkeep]
  | some o =>
    have hold : k ∈ old.inFlight := mem_of_lookup ho
    rw [opened_eq_none (Or.inl hold), Option.none_or, Option.filter_filter, Option.filter_some]
    cases hn : new.inFlight[k]? with
    | none =>
      have hnew : k ∉ new.inFlight := not_mem_of_lookup hn
      rw [if_neg]
      intro hkeep
      rw [Bool.and_eq_true, ← Bool.not_eq_false, ← Bool.not_eq_false, departs_iff h,
        relists_iff] at hkeep
      rcases h.overlay_ended k o ho hnew with hd | hr
      · exact hkeep.2 hd
      · exact hkeep.1 hr
    | some x =>
      have hx := (same_iff o x).mp (h.overlay_same k o x ho hn)
      have hid := nodeId_of_untraced hx
      have hinc := incarnation_of_untraced hx
      rw [if_pos]
      · exact congrArg some hx
      · rw [Bool.and_eq_true, ← Bool.not_eq_false, ← Bool.not_eq_false, departs_iff h, relists_iff]
        refine ⟨fun hr => ?_, fun hd => ?_⟩
        · exact h.stop_kept k o ho hr.1 (mem_of_lookup hn) hr.2
        · rw [hid, hinc] at hd
          exact hd.2 (h.departure_clear k x hn hd.1)

/-- A delta moves a full to the next projection. -/
theorem apply_deltaTo_sameTopology {old new : Full} (h : old.Succeeds new) :
    (old.apply (old.deltaTo new)).sameTopology new = true :=
  (sameTopology_iff _ _).mpr
    ⟨apply_deltaTo_members old new, apply_deltaTo_overlays h, apply_deltaTo_departures h⟩

theorem map_filter_untraced (o : Option LifecycleOp) (p : LifecycleOp → Bool)
    (hp : ∀ x, p x.untraced = p x) :
    (o.filter p).map LifecycleOp.untraced = (o.map LifecycleOp.untraced).filter p := by
  cases o with
  | none => rfl
  | some x =>
    rw [Option.map_some, Option.filter_some, Option.filter_some, hp]
    split <;> rfl

/-- A delta moves the same topologies alike. -/
theorem apply_congr {full other : Full} (h : full.sameTopology other = true) (delta : Delta) :
    (full.apply delta).sameTopology (other.apply delta) = true := by
  obtain ⟨hd, hi, hx⟩ := (sameTopology_iff full other).mp h
  obtain ⟨hd₁, hi₁, hx₁⟩ := apply_spec full delta
  obtain ⟨hd₂, hi₂, hx₂⟩ := apply_spec other delta
  refine (sameTopology_iff _ _).mpr ⟨fun id => ?_, fun k => ?_, fun id => ?_⟩
  · rw [hd₁, hd₂]
    by_cases hr : id ∈ delta.removed
    · rw [if_pos hr, if_pos hr]
    · rw [if_neg hr, if_neg hr, getElem?_insertAll, getElem?_insertAll _ _ other.digests, Option.map_or,
        Option.map_or, hd]
  · rw [hi₁, hi₂, map_filter_untraced _ _ fun _ => rfl, map_filter_untraced _ _ fun _ => rfl,
      Option.map_or, Option.map_or, map_filter_untraced _ _ fun _ => rfl,
      map_filter_untraced _ _ fun _ => rfl, hi]
  · rw [hx₁, hx₂, getElem?_insertAll, getElem?_insertAll _ _ other.deleted, Option.map_or, Option.map_or, hx]

/-- Loads are no part of a topology. -/
theorem withoutLoads_sameTopology (full : Full) : full.withoutLoads.sameTopology full = true := by
  refine (sameTopology_iff _ _).mpr ⟨fun id => ?_, fun _ => rfl, fun _ => rfl⟩
  simp only [withoutLoads, ExtTreeMap.getElem?_map, Option.map_map]
  rfl

theorem apply_of_isEmpty {full : Full} {delta : Delta} (h : delta.isEmpty = true) :
    full.apply delta = full := by
  simp only [Delta.isEmpty, Bool.and_eq_true, List.isEmpty_iff] at h
  obtain ⟨⟨⟨hc, hr⟩, hi⟩, hx⟩ := h
  rw [apply, hc, hr, hi, hx]
  rfl

theorem delta_law {old new : Full} (h : old.Succeeds new) :
    (old.apply (old.deltaTo new)).sameTopology new = true ∧
      ∀ e, ((old.apply (old.deltaTo new)).memberAt e).map topologyView =
        (new.memberAt e).map topologyView :=
  ⟨apply_deltaTo_sameTopology h, memberAt_congr (apply_deltaTo_members old new)⟩

/-- An operation `action` on the birth `i` of the node `n`. -/
def opOn (action : String) : LifecycleOp where
  type := "node"
  buildId := "b1"
  operation := .mk action (some (.birth "n" "i")) none none
  nodeId := "n"
  incarnation := "i"
  path := "mesh1.node"
  name := "2"
  mesh := "mesh1"
  eventAtRafkaMs := 1
  traceparent := none
  tracestate := none

theorem stopped_succeeds :
    (new [] [opOn "node.stop"] []).Succeeds (new [] [] [opOn "node.delete"]) where
  overlay_same := by
    intro k a b _ hb
    simp [new, insertAll] at hb
  overlay_ended := by
    intro k o ho _
    have ho : o = opOn "node.stop" := List.mem_singleton.mp (mem_of_getElem?_insertAll ho)
    subst ho
    refine Or.inl ⟨⟨opOn "node.delete", by decide +kernel, rfl⟩, ?_⟩
    rintro ⟨x, hx, _⟩
    simp [new, insertAll] at hx
  departure_kept := by
    intro id x hx
    simp [new, insertAll] at hx
  departure_clear := by
    intro k o ho
    simp [new, insertAll] at ho
  stop_kept := by
    intro k o _ _ hk
    simp [new, insertAll] at hk

theorem delta_law_departure :
    ((new [] [opOn "node.stop"] []).apply
      ((new [] [opOn "node.stop"] []).deltaTo (new [] [] [opOn "node.delete"]))).sameTopology
        (new [] [] [opOn "node.delete"]) = true :=
  (delta_law stopped_succeeds).1
end Full

end DistributedMesh
