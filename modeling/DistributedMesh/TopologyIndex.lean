import DistributedMesh.KeyedMaps
import DistributedMesh.TopologyTypes

namespace DistributedMesh

open Std (ExtTreeMap ExtTreeSet)
open KeyedMaps

abbrev Members := ExtTreeMap String MeshDigest

/-- The members' node ids by endpoint key. -/
abbrev EndpointIndex := ExtTreeMap String (ExtTreeSet String)

/-- The index lists each member under its endpoint key, and keeps no key without a member. -/
structure Listed (digests : Members) (byEndpoint : EndpointIndex) : Prop where
  lists : ∀ e id : String, (∃ ids : ExtTreeSet String, byEndpoint[e]? = some ids ∧ id ∈ ids) ↔
    ∃ d : MeshDigest, digests[id]? = some d ∧ d.node.endpointId = e
  nonempty : ∀ (e : String) (ids : ExtTreeSet String), byEndpoint[e]? = some ids → ∃ id, id ∈ ids

/-- List `id` under the endpoint key `e`. -/
def enlist (byEndpoint : EndpointIndex) (e id : String) : EndpointIndex :=
  byEndpoint.insert e ((byEndpoint[e]?.getD ∅).insert id)

/-- Take `id`'s endpoint key out of the listing. -/
def unlist (digests : Members) (byEndpoint : EndpointIndex) (id : String) : EndpointIndex :=
  match digests[id]? with
  | none => byEndpoint
  | some held =>
    match byEndpoint[held.node.endpointId]? with
    | none => byEndpoint
    | some ids =>
      if (ids.erase id).isEmpty then byEndpoint.erase held.node.endpointId
      else byEndpoint.insert held.node.endpointId (ids.erase id)

theorem mem_enlist (byEndpoint : EndpointIndex) (e id e' id' : String) :
    (∃ ids, (enlist byEndpoint e id)[e']? = some ids ∧ id' ∈ ids) ↔
      (e = e' ∧ id = id') ∨ ∃ ids, byEndpoint[e']? = some ids ∧ id' ∈ ids := by
  rw [enlist, getElem?_insert_eq]
  by_cases he : e = e'
  · subst he
    cases h : byEndpoint[e]? with
    | none => simp [ExtTreeSet.mem_insert]
    | some ids => simp [ExtTreeSet.mem_insert]
  · simp [he]

theorem mem_unlist {digests : Members} {byEndpoint : EndpointIndex} (h : Listed digests byEndpoint)
    (id e' id' : String) :
    (∃ ids, (unlist digests byEndpoint id)[e']? = some ids ∧ id' ∈ ids) ↔
      id ≠ id' ∧ ∃ ids, byEndpoint[e']? = some ids ∧ id' ∈ ids := by
  have hkey : ∀ e ids, byEndpoint[e]? = some ids → id ∈ ids →
      ∃ d, digests[id]? = some d ∧ d.node.endpointId = e :=
    fun e ids he hm => (h.lists e id).mp ⟨ids, he, hm⟩
  cases hd : digests[id]? with
  | none =>
    simp only [unlist, hd]
    refine ⟨fun ⟨ids, hi, hm⟩ => ⟨?_, ids, hi, hm⟩, fun hx => hx.2⟩
    rintro rfl
    obtain ⟨d, hsome, _⟩ := hkey e' ids hi hm
    simp [hd] at hsome
  | some held =>
    have hother : held.node.endpointId ≠ e' → ∀ ids, byEndpoint[e']? = some ids → id' ∈ ids →
        id ≠ id' := by
      rintro hne ids hi hm rfl
      obtain ⟨d, hsome, he⟩ := hkey e' ids hi hm
      rw [hd] at hsome
      cases hsome
      exact hne he
    obtain ⟨ids, hids, hm⟩ := (h.lists held.node.endpointId id).mpr ⟨held, hd, rfl⟩
    simp only [unlist, hd, hids]
    by_cases he : held.node.endpointId = e'
    · subst he
      split
      next hemp =>
        rw [getElem?_erase_eq, if_pos rfl, hids]
        refine ⟨by simp, ?_⟩
        rintro ⟨hne, ids', hi, hm'⟩
        cases hi
        have hmem : id' ∈ ids.erase id := by
          rw [ExtTreeSet.mem_erase]
          exact ⟨by simpa using hne, hm'⟩
        rw [ExtTreeSet.isEmpty_iff.mp hemp] at hmem
        simp at hmem
      next =>
        rw [getElem?_insert_eq, if_pos rfl, hids]
        simp [ExtTreeSet.mem_erase]
    · have hsame : ∀ (t : Bool), ((if t = true then byEndpoint.erase held.node.endpointId
          else byEndpoint.insert held.node.endpointId (ids.erase id)) : EndpointIndex)[e']? =
            byEndpoint[e']? := by
        intro t
        cases t with
        | true => simp only [if_true, getElem?_erase_eq, if_neg he]
        | false => simp only [Bool.false_eq_true, if_false, getElem?_insert_eq, if_neg he]
      rw [hsame]
      exact ⟨fun ⟨ids', hi, hm'⟩ => ⟨hother he ids' hi hm', ids', hi, hm'⟩, fun hx => hx.2⟩

theorem unlist_nonempty {digests : Members} {byEndpoint : EndpointIndex}
    (h : Listed digests byEndpoint) (id e : String) (ids : ExtTreeSet String)
    (he : (unlist digests byEndpoint id)[e]? = some ids) : ∃ id', id' ∈ ids := by
  unfold unlist at he
  split at he
  next => exact h.nonempty e ids he
  next held hd =>
    split at he
    next => exact h.nonempty e ids he
    next held' hids =>
      split at he
      next =>
        rw [getElem?_erase_eq] at he
        split at he
        next => simp at he
        next => exact h.nonempty e ids he
      next hemp =>
        rw [getElem?_insert_eq] at he
        split at he
        next =>
          cases he
          by_contra hno
          refine hemp (ExtTreeSet.isEmpty_iff.mpr (ExtTreeSet.ext_mem fun x => ?_))
          simpa using fun hx => hno ⟨x, hx⟩
        next => exact h.nonempty e ids he

theorem enlist_nonempty {byEndpoint : EndpointIndex}
    (h : ∀ (e : String) (ids : ExtTreeSet String), byEndpoint[e]? = some ids → ∃ id, id ∈ ids)
    (e id e' : String) (ids : ExtTreeSet String)
    (he : (enlist byEndpoint e id)[e']? = some ids) : ∃ id', id' ∈ ids := by
  rw [enlist, getElem?_insert_eq] at he
  split at he
  next =>
    cases he
    exact ⟨id, ExtTreeSet.mem_insert_self⟩
  next => exact h e' ids he

/-- A member put under its node id is listed under its endpoint key alone. -/
theorem Listed.put {digests : Members} {byEndpoint : EndpointIndex} (h : Listed digests byEndpoint)
    (d : MeshDigest) : Listed (digests.insert d.node.nodeId d)
      (enlist (unlist digests byEndpoint d.node.nodeId) d.node.endpointId d.node.nodeId) := by
  refine ⟨fun e id => ?_, enlist_nonempty (unlist_nonempty h _) _ _⟩
  rw [mem_enlist, mem_unlist h, h.lists, getElem?_insert_eq]
  by_cases hid : d.node.nodeId = id
  · simp [hid]
  · simp [hid]

theorem Listed.erase {digests : Members} {byEndpoint : EndpointIndex}
    (h : Listed digests byEndpoint) (id : String) :
    Listed (digests.erase id) (unlist digests byEndpoint id) := by
  refine ⟨fun e id' => ?_, unlist_nonempty h id⟩
  rw [mem_unlist h, h.lists, getElem?_erase_eq]
  by_cases hid : id = id'
  · simp [hid]
  · simp [hid]

/-- The index of some members, each listed as the members are walked. -/
def indexOf (digests : Members) : EndpointIndex :=
  digests.toList.foldl (fun idx p => enlist idx p.2.node.endpointId p.1) ∅

theorem mem_foldl_enlist (l : List (String × MeshDigest)) (idx : EndpointIndex) (e id : String) :
    (∃ ids, (l.foldl (fun idx p => enlist idx p.2.node.endpointId p.1) idx)[e]? = some ids ∧
        id ∈ ids) ↔
      (∃ d, (id, d) ∈ l ∧ d.node.endpointId = e) ∨ ∃ ids, idx[e]? = some ids ∧ id ∈ ids := by
  induction l generalizing idx with
  | nil => simp
  | cons p l ih =>
    rw [List.foldl_cons, ih, mem_enlist]
    constructor
    · rintro (⟨d, hm, he⟩ | ⟨rfl, rfl⟩ | h)
      · exact Or.inl ⟨d, List.mem_cons_of_mem _ hm, he⟩
      · exact Or.inl ⟨p.2, List.mem_cons_self, rfl⟩
      · exact Or.inr h
    · rintro (⟨d, hm, rfl⟩ | h)
      · rcases List.mem_cons.mp hm with rfl | hm
        · exact Or.inr (Or.inl ⟨rfl, rfl⟩)
        · exact Or.inl ⟨d, hm, rfl⟩
      · exact Or.inr (Or.inr h)

theorem foldl_enlist_nonempty (l : List (String × MeshDigest)) {idx : EndpointIndex}
    (h : ∀ (e : String) (ids : ExtTreeSet String), idx[e]? = some ids → ∃ id, id ∈ ids)
    (e : String) (ids : ExtTreeSet String)
    (he : (l.foldl (fun idx p => enlist idx p.2.node.endpointId p.1) idx)[e]? = some ids) :
    ∃ id, id ∈ ids := by
  induction l generalizing idx with
  | nil => exact h e ids he
  | cons p l ih => exact ih (enlist_nonempty h _ _) he

theorem Listed.index (digests : Members) : Listed digests (indexOf digests) := by
  refine ⟨fun e id => ?_, foldl_enlist_nonempty _ (by simp)⟩
  rw [indexOf, mem_foldl_enlist]
  simp [ExtTreeMap.mem_toList_iff_getElem?_eq_some]

end DistributedMesh
