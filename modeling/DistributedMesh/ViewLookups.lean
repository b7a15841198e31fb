import DistributedMesh.ViewMembers

namespace DistributedMesh

open Std (ExtTreeMap)
open KeyedMaps LexCode

section Lists

variable {α : Type} [DecidableEq α] {cmp : α → α → Ordering} [Std.TransCmp cmp] [Std.LawfulEqCmp cmp]
  {key : HeldMember → α} {map : ExtTreeMap String HeldMember} {lookup : ExtTreeMap α (List String) cmp}
  {order : List String}

/-- Whether a member is held for `id` at a key. -/
def heldAt (key : HeldMember → α) (map : ExtTreeMap String HeldMember) (k : α) (id : String) : Bool :=
  (map[id]?).any fun held => key held = k

/-- The ids of a key, unless there are none. -/
def idsOf : List String → Option (List String)
  | [] => none
  | ids => some ids

/-- A lookup lists under each key the ids held there, in the order given, and no key without one. -/
def Lists (key : HeldMember → α) (map : ExtTreeMap String HeldMember) (lookup : ExtTreeMap α (List String) cmp)
    (order : List String) : Prop :=
  ∀ k : α, lookup[k]? = idsOf (order.filter (heldAt key map k))

/-- The lookup without the id, at the key of what is held for it. -/
def unlisted (key : HeldMember → α) (map : ExtTreeMap String HeldMember) (lookup : ExtTreeMap α (List String) cmp)
    (id : String) : ExtTreeMap α (List String) cmp :=
  match map[id]? with
  | none => lookup
  | some held => unlistId lookup (key held) id

theorem idsOf_getD (ids : List String) : (idsOf ids).getD [] = ids := by
  cases ids with
  | nil => rfl
  | cons => rfl

theorem idsOf_bind_getLast? (ids : List String) : (idsOf ids).bind List.getLast? = ids.getLast? := by
  cases ids with
  | nil => rfl
  | cons => rfl

theorem heldAt_iff (k : α) (id : String) : heldAt key map k id = true ↔ ∃ held, map[id]? = some held ∧ key held = k := by
  rw [heldAt, Option.any_eq_true]
  simp only [decide_eq_true_eq]

theorem getElem?_unlistId (k k' : α) (id : String) :
    (unlistId lookup k id)[k']? =
      if k = k' then idsOf (((lookup[k']?).getD []).filter (· != id)) else lookup[k']? := by
  by_cases hk : k = k'
  · subst hk
    rw [if_pos rfl, unlistId]
    cases hids : lookup[k]? with
    | none => exact hids
    | some ids =>
      simp only [Option.getD_some]
      rw [getElem?_erase_or_insert, if_pos rfl]
      cases ids.filter (· != id) with
      | nil => rfl
      | cons => rfl
  · rw [if_neg hk, unlistId]
    cases hids : lookup[k]? with
    | none => rfl
    | some ids =>
      simp only
      rw [getElem?_erase_or_insert, if_neg hk]

theorem heldAt_erase (k : α) (id x : String) :
    heldAt key (map.erase id) k x = (heldAt key map k x && x != id) := by
  rw [heldAt, getElem?_erase_eq]
  by_cases hx : id = x
  · simp [hx]
  · have hne : (x != id) = true := by simpa using Ne.symm hx
    rw [if_neg hx, hne, Bool.and_true, heldAt]

theorem heldAt_insert (k : α) (id x : String) (entry : HeldMember) :
    heldAt key (map.insert id entry) k x = if id = x then decide (key entry = k) else heldAt key map k x := by
  rw [heldAt, getElem?_insert_eq]
  by_cases hx : id = x
  · rw [if_pos hx, if_pos hx]
    rfl
  · rw [if_neg hx, if_neg hx]
    rfl

/-- An id leaves the lookup with what is held for it. -/
theorem Lists.erase (h : Lists key map lookup order) (id : String) :
    Lists key (map.erase id) (unlisted key map lookup id) (order.filter (· != id)) := by
  intro k
  have hfilter : (order.filter (· != id)).filter (heldAt key (map.erase id) k) =
      (order.filter (heldAt key map k)).filter (· != id) := by
    rw [List.filter_filter, List.filter_filter]
    refine List.filter_congr fun x _ => ?_
    rw [heldAt_erase]
    cases heldAt key map k x <;> cases x != id <;> rfl
  rw [hfilter]
  -- Where nothing is held for the id at this key, taking it out changes nothing.
  have hsame : heldAt key map k id = false → (order.filter (heldAt key map k)).filter (· != id) =
      order.filter (heldAt key map k) := by
    intro hnot
    refine List.filter_eq_self.mpr fun x hx => ?_
    have hheld := (List.mem_filter.mp hx).2
    by_contra heq
    have hxid : x = id := by simpa using heq
    rw [hxid, hnot] at hheld
    cases hheld
  unfold unlisted
  cases hid : map[id]? with
  | none =>
    have hnot : heldAt key map k id = false := by
      rw [heldAt, hid]
      rfl
    rw [hsame hnot]
    exact h k
  | some held =>
    simp only
    rw [getElem?_unlistId, h k, idsOf_getD]
    by_cases hk : key held = k
    · rw [if_pos hk]
    · have hnot : heldAt key map k id = false := by
        rw [heldAt, hid]
        simpa using hk
      rw [if_neg hk, hsame hnot]

/-- An id not held is listed last under the key of what is now held for it. -/
theorem Lists.push (h : Lists key map lookup order) {id : String} (hid : id ∉ order) (entry : HeldMember) :
    Lists key (map.insert id entry) (lookup.insert (key entry) ((lookup[key entry]?).getD [] ++ [id])) (order ++ [id]) := by
  intro k
  have hold : order.filter (heldAt key (map.insert id entry) k) = order.filter (heldAt key map k) := by
    refine List.filter_congr fun x hx => ?_
    rw [heldAt_insert, if_neg]
    rintro rfl
    exact hid hx
  rw [List.filter_append, hold, getElem?_insert_eq, h (key entry), idsOf_getD]
  have hnew : heldAt key (map.insert id entry) k id = decide (key entry = k) := by
    rw [heldAt_insert, if_pos rfl]
  by_cases hk : key entry = k
  · subst hk
    rw [if_pos rfl, List.filter_cons_of_pos (by rw [hnew]; simp), List.filter_nil]
    cases order.filter (heldAt key map (key entry)) with
    | nil => rfl
    | cons => rfl
  · rw [if_neg hk, List.filter_cons_of_neg (by rw [hnew]; simpa using hk), List.filter_nil, List.append_nil]
    exact h k

theorem heldAt_congr {map' : ExtTreeMap String HeldMember}
    (hkeys : ∀ x : String, (map'[x]?).map key = (map[x]?).map key) (k : α) : heldAt key map' k = heldAt key map k := by
  funext x
  have hany : ∀ t : ExtTreeMap String HeldMember, heldAt key t k x = ((t[x]?).map key).any (fun a => a = k) := by
    intro t
    rw [heldAt, Option.any_map]
  rw [hany, hany, hkeys]

omit [Std.LawfulEqCmp cmp] in
/-- What is held changes, and no id's key does. -/
theorem Lists.congr {map' : ExtTreeMap String HeldMember} (h : Lists key map lookup order)
    (hkeys : ∀ x : String, (map'[x]?).map key = (map[x]?).map key) : Lists key map' lookup order := by
  intro k
  rw [heldAt_congr hkeys]
  exact h k

omit [Std.LawfulEqCmp cmp] in
/-- The last id under a key. -/
theorem Lists.answer (h : Lists key map lookup order) (k : α) :
    (lookup[k]?).bind List.getLast? = order.reverse.find? (heldAt key map k) := by
  rw [h k, idsOf_bind_getLast?, List.getLast?_filter]

/-- Each held id stands once under its key, and nothing else does. -/
theorem Lists.perm (h : Lists key map lookup order) (hnodup : order.Nodup) (hheld : ∀ id, id ∈ order ↔ id ∈ map) :
    (pairs id lookup).Perm (inverted key map) := by
  have hids : ∀ (k : α) (ids : List String), lookup[k]? = some ids → ids = order.filter (heldAt key map k) := by
    intro k ids hids
    rw [← idsOf_getD (order.filter _), ← h k, hids]
    rfl
  refine pairs_perm_inverted (fun k ids hk => ?_) fun k id => ?_
  · rw [hids k ids hk]
    exact hnodup.filter _
  · rw [← heldAt_iff]
    constructor
    · rintro ⟨ids, hk, hid⟩
      rw [hids k ids hk] at hid
      exact (List.mem_filter.mp hid).2
    · intro hat
      obtain ⟨held, hget, _⟩ := (heldAt_iff k id).mp hat
      have hmem : id ∈ order.filter (heldAt key map k) :=
        List.mem_filter.mpr ⟨(hheld id).mpr (mem_of_lookup hget), hat⟩
      refine ⟨order.filter (heldAt key map k), ?_, hmem⟩
      rw [h k]
      cases hfilter : order.filter (heldAt key map k) with
      | nil => simp [hfilter] at hmem
      | cons => rfl

theorem Lists.no_empty_key (h : Lists key map lookup order) : (lookup.toList.all fun p => !p.2.isEmpty) = true := by
  rw [List.all_eq_true]
  intro p hp
  have hids := ExtTreeMap.mem_toList_iff_getElem?_eq_some.mp hp
  rw [h p.1] at hids
  cases hfilter : order.filter (heldAt key map p.1) with
  | nil =>
    rw [hfilter] at hids
    cases hids
  | cons =>
    rw [hfilter] at hids
    rw [← Option.some.inj hids]
    rfl

end Lists

abbrev endpointKey (held : HeldMember) : String := held.digest.node.endpointId

abbrev nameKey (held : HeldMember) : PathName := held.digest.node.location

namespace HeldMembers

/-- Both lookups list what is held, in one order. -/
structure Ordered (m : HeldMembers) (order : List String) : Prop where
  nodup : order.Nodup
  held : ∀ id, id ∈ order ↔ id ∈ m.map
  endpoints : Lists endpointKey m.map m.byEndpoint order
  names : Lists nameKey m.map m.byName order

theorem ordered_empty : Ordered empty [] where
  nodup := List.nodup_nil
  held := fun id => by simp [empty]
  endpoints := fun k => by simp [empty, idsOf]
  names := fun k => by simp [empty, idsOf]

theorem unlist_byEndpoint (m : HeldMembers) (id : String) :
    (m.unlist id).byEndpoint = unlisted endpointKey m.map m.byEndpoint id := by
  unfold unlist unlisted
  cases m.map[id]? with
  | none => rfl
  | some held => rfl

theorem unlist_byName (m : HeldMembers) (id : String) :
    (m.unlist id).byName = unlisted nameKey m.map m.byName id := by
  unfold unlist unlisted
  cases m.map[id]? with
  | none => rfl
  | some held => rfl

theorem Ordered.remove {m : HeldMembers} {order : List String} (h : Ordered m order) (id : String) :
    Ordered (m.remove id) (order.filter (· != id)) where
  nodup := h.nodup.filter _
  held := fun x => by
    rw [List.mem_filter, h.held, remove_map, ExtTreeMap.mem_erase]
    constructor
    · rintro ⟨hx, hne⟩
      exact ⟨by simpa using Ne.symm (by simpa using hne), hx⟩
    · rintro ⟨hne, hx⟩
      exact ⟨hx, by simpa using Ne.symm (by simpa using hne)⟩
  endpoints := by
    change Lists endpointKey (m.map.erase id) (m.unlist id).byEndpoint _
    rw [unlist_byEndpoint]
    exact h.endpoints.erase id
  names := by
    change Lists nameKey (m.map.erase id) (m.unlist id).byName _
    rw [unlist_byName]
    exact h.names.erase id

theorem insert_erase (map : ExtTreeMap String HeldMember) (id : String) (entry : HeldMember) :
    (map.erase id).insert id entry = map.insert id entry := by
  refine ExtTreeMap.ext_getElem? fun x => ?_
  rw [getElem?_insert_eq, getElem?_insert_eq, getElem?_erase_eq]
  by_cases hx : id = x
  · rw [if_pos hx, if_pos hx]
  · rw [if_neg hx, if_neg hx, if_neg hx]

/-- Whether the birth of `entry` is the one held for `id`. -/
def sameBirth (m : HeldMembers) (id : String) (entry : HeldMember) : Bool :=
  (m.map[id]?).any fun held => held.digest.node == entry.digest.node

/-- A birth first held, or changed, stands last. -/
theorem Ordered.take {m : HeldMembers} {order : List String} (h : Ordered m order) {id : String} {entry : HeldMember}
    (htakes : m.sameBirth id entry = false) : Ordered (m.insert id entry) (order.filter (· != id) ++ [id]) := by
  have hremoved := h.remove id
  have hout : id ∉ order.filter (· != id) := by simp
  have hlisted : m.insert id entry =
      { map := m.map.insert id entry
        byEndpoint := (m.unlist id).byEndpoint.insert (endpointKey entry)
          (((m.unlist id).byEndpoint[endpointKey entry]?).getD [] ++ [id])
        byName := (m.unlist id).byName.insert (nameKey entry) (((m.unlist id).byName[nameKey entry]?).getD [] ++ [id]) } := by
    unfold insert
    unfold sameBirth at htakes
    rw [htakes]
    rfl
  rw [hlisted]
  refine ⟨?_, fun x => ?_, ?_, ?_⟩
  · exact List.nodup_append.mpr ⟨hremoved.nodup, List.nodup_singleton id, fun a ha b hb => by
      rw [List.mem_singleton.mp hb]
      rintro rfl
      exact hout ha⟩
  · rw [List.mem_append, List.mem_singleton, hremoved.held, mem_insert_map, remove_map, ExtTreeMap.mem_erase]
    by_cases hx : x = id
    · simp [hx]
    · simp [hx, Ne.symm hx]
  · rw [← insert_erase]
    exact hremoved.endpoints.push hout entry
  · rw [← insert_erase]
    exact hremoved.names.push hout entry

theorem refresh_nodes {m : HeldMembers} {id : String} {entry : HeldMember} (hsame : m.sameBirth id entry = true)
    {α : Type} (f : MeshNode → α) (x : String) : ((m.insert id entry).map[x]?).map (fun e => f e.digest.node) =
      (m.map[x]?).map fun e => f e.digest.node := by
  obtain ⟨old, hold, hnode⟩ := (Option.any_eq_true _ _).mp hsame
  rw [insert_map, getElem?_insert_eq]
  split
  next hx => rw [← hx, hold, Option.map_some, Option.map_some, eq_of_beq hnode]
  next => rfl

/-- A fresher digest of the birth held keeps its place. -/
theorem Ordered.refresh {m : HeldMembers} {order : List String} (h : Ordered m order) {id : String} {entry : HeldMember}
    (hsame : m.sameBirth id entry = true) : Ordered (m.insert id entry) order := by
  obtain ⟨old, hold, -⟩ := (Option.any_eq_true _ _).mp hsame
  have hkept : m.insert id entry = { m with map := m.map.insert id entry } := by
    unfold insert
    unfold sameBirth at hsame
    rw [hsame]
    rfl
  have hkeys : ∀ {α : Type} (f : MeshNode → α) (x : String),
      ((m.map.insert id entry)[x]?).map (fun e => f e.digest.node) = (m.map[x]?).map fun e => f e.digest.node :=
    refresh_nodes hsame
  rw [hkept]
  refine ⟨h.nodup, fun x => ?_, h.endpoints.congr (hkeys _), h.names.congr (hkeys _)⟩
  rw [h.held]
  change x ∈ m.map ↔ x ∈ m.map.insert id entry
  rw [mem_insert_map]
  constructor
  · exact Or.inr
  · rintro (rfl | hx)
    · exact mem_of_lookup hold
    · exact hx

theorem Ordered.restartSilence {m : HeldMembers} {order : List String} (h : Ordered m order) (now : Nat) :
    Ordered (m.restartSilence now) order := by
  have hkeys : ∀ {α : Type} (f : MeshNode → α) (x : String),
      ((m.restartSilence now).map[x]?).map (fun e => f e.digest.node) = (m.map[x]?).map fun e => f e.digest.node := by
    intro α f x
    rw [restartSilence_map, ExtTreeMap.getElem?_map, Option.map_map]
    rfl
  refine ⟨h.nodup, fun x => ?_, h.endpoints.congr (hkeys _), h.names.congr (hkeys _)⟩
  rw [h.held, restartSilence_map, ExtTreeMap.mem_map]

end HeldMembers

/-- A call on the held members. -/
inductive MembersCall where
  | insert (id : String) (entry : HeldMember)
  | remove (id : String)
  | restartSilence (now : Nat)

namespace HeldMembers

def call (m : HeldMembers) : MembersCall → HeldMembers
  | .insert id entry => m.insert id entry
  | .remove id => m.remove id
  | .restartSilence now => m.restartSilence now

/-- The node id whose birth a call first holds, or holds changed. -/
def takes (m : HeldMembers) : MembersCall → List String
  | .insert id entry => if m.sameBirth id entry then [] else [id]
  | .remove _ => []
  | .restartSilence _ => []

/-- The members after some calls, and the node ids whose births the calls took, in the order they did. -/
def after (calls : List MembersCall) : HeldMembers × List String :=
  calls.foldl (fun s c => (s.1.call c, s.2 ++ s.1.takes c)) (empty, [])

/-- The order of the lookups is the order the births were taken in, of those still held. -/
structure Follows (m : HeldMembers) (took order : List String) : Prop where
  ordered : Ordered m order
  latest : ∀ p : String → Bool, (∀ id, p id = true → id ∈ m.map) → took.reverse.find? p = order.reverse.find? p

theorem find?_reverse_without {order : List String} {p : String → Bool} {id : String} (hp : p id = false) :
    (order.filter (· != id)).reverse.find? p = order.reverse.find? p := by
  rw [← List.filter_reverse, List.find?_filter]
  congr 1
  funext x
  by_cases hx : x = id
  · simp [hx, hp]
  · simp [hx]

theorem Follows.take {m : HeldMembers} {took order : List String} (h : Follows m took order) {id : String}
    {entry : HeldMember} (htakes : m.sameBirth id entry = false) :
    Follows (m.insert id entry) (took ++ [id]) (order.filter (· != id) ++ [id]) := by
  refine ⟨h.ordered.take htakes, fun p hheld => ?_⟩
  rw [List.reverse_append, List.reverse_append, List.reverse_singleton, List.singleton_append, List.singleton_append]
  cases hp : p id with
  | true => rw [List.find?_cons_of_pos hp, List.find?_cons_of_pos hp]
  | false =>
    have hneg : ¬ p id = true := by simp [hp]
    rw [List.find?_cons_of_neg hneg, List.find?_cons_of_neg hneg, find?_reverse_without hp]
    refine h.latest p fun x hx => ?_
    have hmem := hheld x hx
    rw [insert_map, mem_insert_map] at hmem
    rcases hmem with rfl | hmem
    · exact absurd hx hneg
    · exact hmem

theorem Follows.refresh {m : HeldMembers} {took order : List String} (h : Follows m took order) {id : String}
    {entry : HeldMember} (hsame : m.sameBirth id entry = true) : Follows (m.insert id entry) took order := by
  refine ⟨h.ordered.refresh hsame, fun p hheld => h.latest p fun x hx => ?_⟩
  exact (h.ordered.held x).mp (((h.ordered.refresh hsame).held x).mpr (hheld x hx))

theorem Follows.remove {m : HeldMembers} {took order : List String} (h : Follows m took order) (id : String) :
    Follows (m.remove id) took (order.filter (· != id)) := by
  refine ⟨h.ordered.remove id, fun p hheld => ?_⟩
  have hmem : ∀ x, p x = true → x ∈ order ∧ (x != id) = true := fun x hx =>
    List.mem_filter.mp (((h.ordered.remove id).held x).mpr (hheld x hx))
  have hp : p id = false := by
    by_contra hne
    have hid := (hmem id (by simpa using hne)).2
    simp at hid
  rw [find?_reverse_without hp]
  exact h.latest p fun x hx => (h.ordered.held x).mp (hmem x hx).1

theorem Follows.restartSilence {m : HeldMembers} {took order : List String} (h : Follows m took order) (now : Nat) :
    Follows (m.restartSilence now) took order := by
  refine ⟨h.ordered.restartSilence now, fun p hheld => h.latest p fun x hx => ?_⟩
  exact (h.ordered.held x).mp (((h.ordered.restartSilence now).held x).mpr (hheld x hx))

theorem Follows.call {m : HeldMembers} {took order : List String} (h : Follows m took order) (c : MembersCall) :
    ∃ order', Follows (m.call c) (took ++ m.takes c) order' := by
  cases c with
  | insert id entry =>
    cases hsame : m.sameBirth id entry with
    | true =>
      refine ⟨order, ?_⟩
      rw [takes, hsame, if_pos rfl, List.append_nil]
      exact h.refresh hsame
    | false =>
      refine ⟨order.filter (· != id) ++ [id], ?_⟩
      rw [takes, hsame, if_neg Bool.false_ne_true]
      exact h.take hsame
  | remove id =>
    refine ⟨order.filter (· != id), ?_⟩
    rw [takes, List.append_nil]
    exact h.remove id
  | restartSilence now =>
    refine ⟨order, ?_⟩
    rw [takes, List.append_nil]
    exact h.restartSilence now

theorem follows_after (calls : List MembersCall) : ∃ order, Follows (after calls).1 (after calls).2 order := by
  have hrun : ∀ (s : HeldMembers × List String), (∃ order, Follows s.1 s.2 order) → ∃ order,
      Follows (calls.foldl (fun s c => (s.1.call c, s.2 ++ s.1.takes c)) s).1
        (calls.foldl (fun s c => (s.1.call c, s.2 ++ s.1.takes c)) s).2 order := by
    induction calls with
    | nil => exact fun s h => h
    | cons c calls ih =>
      intro s h
      obtain ⟨order, horder⟩ := h
      exact ih _ (horder.call c)
  exact hrun (empty, []) ⟨[], ordered_empty, fun p _ => rfl⟩

/-- A lookup's answer is the latest taken of the births held at its key. -/
theorem Follows.answer {m : HeldMembers} {took order : List String} (h : Follows m took order) {α : Type} [DecidableEq α]
    {cmp : α → α → Ordering} [Std.TransCmp cmp] {key : HeldMember → α} {lookup : ExtTreeMap α (List String) cmp}
    (hlists : Lists key m.map lookup order) (k : α) :
    (lookup[k]?).bind List.getLast? = took.reverse.find? (heldAt key m.map k) := by
  rw [hlists.answer]
  refine (h.latest _ fun id hid => ?_).symm
  obtain ⟨held, hget, _⟩ := (heldAt_iff k id).mp hid
  exact mem_of_lookup hget

theorem Follows.atEndpoint {m : HeldMembers} {took order : List String} (h : Follows m took order) (e : String) :
    m.atEndpoint e = (took.reverse.find? (heldAt endpointKey m.map e)).bind (m.map[·]?) := by
  rw [← h.answer h.ordered.endpoints e, Option.bind_assoc]
  rfl

theorem Follows.atName {m : HeldMembers} {took order : List String} (h : Follows m took order) (name : PathName) :
    m.atName name = (took.reverse.find? (heldAt nameKey m.map name)).bind (m.map[·]?) := by
  rw [← h.answer h.ordered.names name, Option.bind_assoc]
  rfl

/-- A fresher digest of the birth held changes the node of no lookup's answer. -/
theorem Follows.refresh_answer {m : HeldMembers} {took order : List String} (h : Follows m took order) {id : String}
    {entry : HeldMember} (hsame : m.sameBirth id entry = true) :
    (∀ e, ((m.insert id entry).atEndpoint e).map (fun held => held.digest.node) =
        (m.atEndpoint e).map fun held => held.digest.node) ∧
      ∀ name, ((m.insert id entry).atName name).map (fun held => held.digest.node) =
        (m.atName name).map fun held => held.digest.node := by
  have hat : ∀ {α : Type} [DecidableEq α] (f : MeshNode → α) (k : α),
      heldAt (fun held => f held.digest.node) (m.insert id entry).map k = heldAt (fun held => f held.digest.node) m.map k := by
    intro α _ f k
    exact heldAt_congr (refresh_nodes hsame f) k
  have hnode : ∀ answer : Option String, (answer.bind ((m.insert id entry).map[·]?)).map (fun held => held.digest.node) =
      (answer.bind (m.map[·]?)).map fun held => held.digest.node := by
    intro answer
    cases answer with
    | none => rfl
    | some x => exact refresh_nodes hsame (fun node => node) x
  constructor
  · intro e
    rw [(h.refresh hsame).atEndpoint, h.atEndpoint, hat (fun node => node.endpointId)]
    exact hnode _
  · intro name
    rw [(h.refresh hsame).atName, h.atName, hat (fun node => node.location)]
    exact hnode _

/-- After any calls each held node id is listed once under its endpoint key and once under its
(path, name), nothing else is, and a lookup answers the birth taken last of those at its key. -/
theorem lookups_answer_latest_birth (calls : List MembersCall) :
    let m := (after calls).1
    let took := (after calls).2
    ((pairs id m.byEndpoint).Perm (inverted endpointKey m.map) ∧
        (m.byEndpoint.toList.all fun p => !p.2.isEmpty) = true) ∧
      ((pairs id m.byName).Perm (inverted nameKey m.map) ∧ (m.byName.toList.all fun p => !p.2.isEmpty) = true) ∧
      (∀ e, m.atEndpoint e = (took.reverse.find? (heldAt endpointKey m.map e)).bind (m.map[·]?)) ∧
      (∀ name, m.atName name = (took.reverse.find? (heldAt nameKey m.map name)).bind (m.map[·]?)) ∧
      ∀ id entry, m.sameBirth id entry = true →
        (∀ e, ((m.insert id entry).atEndpoint e).map (fun held => held.digest.node) =
          (m.atEndpoint e).map fun held => held.digest.node) ∧
        ∀ name, ((m.insert id entry).atName name).map (fun held => held.digest.node) =
          (m.atName name).map fun held => held.digest.node := by
  intro m took
  obtain ⟨order, h⟩ := follows_after calls
  have hordered := h.ordered
  exact ⟨⟨hordered.endpoints.perm hordered.nodup hordered.held, hordered.endpoints.no_empty_key⟩,
    ⟨hordered.names.perm hordered.nodup hordered.held, hordered.names.no_empty_key⟩, h.atEndpoint, h.atName,
    fun _ _ hsame => h.refresh_answer hsame⟩

end HeldMembers

def heldOf (id endpointId : String) (digestSeq : Nat) : HeldMember where
  digest :=
    { fabricId := "fabric"
      node :=
        { mesh := "m", type := "node", nodeId := id, path := "m.node", name := "1", endpointId := endpointId
          transportAddr := "", incarnation := "", supersedes := none, runtime := none }
      status := .ready, adminApiBase := none, digestSeq := digestSeq, emittedAtRafkaMs := 0, dataDir := none
      meshId := none, inFlight := none, load := none, gossip := none, isPrimary := none, isFabricPrimary := none }
  heardAt := digestSeq
  heard := .direct

/-- Two births at one key; the first moves to another key and back. -/
def movedBirths : List MembersCall :=
  [.insert "a" (heldOf "a" "e" 1), .insert "b" (heldOf "b" "e" 1), .insert "a" (heldOf "a" "k" 2),
    .insert "a" (heldOf "a" "e" 3)]

theorem movedBirths_answer :
    (HeldMembers.after movedBirths).1.sameBirth "b" (heldOf "b" "e" 2) = true ∧
      (((HeldMembers.after movedBirths).1.insert "b" (heldOf "b" "e" 2)).atEndpoint "e").map (fun held => held.digest.node) =
        ((HeldMembers.after movedBirths).1.atEndpoint "e").map fun held => held.digest.node := by
  have hsame : (HeldMembers.after movedBirths).1.sameBirth "b" (heldOf "b" "e" 2) = true := by decide +kernel
  exact ⟨hsame, ((HeldMembers.lookups_answer_latest_birth movedBirths).2.2.2.2 "b" _ hsame).1 "e"⟩

example : ((HeldMembers.after movedBirths).1.atEndpoint "e").map (fun held => held.digest.node.nodeId) = some "a" := by
  decide +kernel

end DistributedMesh
