import DistributedMesh.Election

namespace DistributedMesh.Election

open Std (ExtTreeMap ExtTreeSet)
open KeyedMaps

section Views

variable (nodes : List Node) (inc : Incumbency)

/-- A node is the birth a record names, heard and not known gone. -/
structure Holds (h : Primary) (n : Node) : Prop where
  mem : n ∈ nodes
  id : n.nodeId = h.nodeId
  known : inc.lost.contains h.incarnation = false
  stays : yields h n = false

/-- The view has not heard the birth a record names. -/
structure Unseen (h : Primary) : Prop where
  known : inc.lost.contains h.incarnation = false
  other : ∀ n ∈ nodes, n.nodeId ≠ h.nodeId

def eligible (n : Node) : Bool := n.status == .ready && !inc.isLost n

/-- The eligible node of a kind with the lowest node id. -/
structure Lowest (P : Node → Prop) (n : Node) : Prop where
  mem : n ∈ nodes
  kind : P n
  eligible : eligible inc n = true
  le : ∀ b ∈ nodes, P b → Election.eligible inc b = true → n.nodeId ≤ b.nodeId

/-- The fabric's recorded primary is not heard, and a mesh is its own. -/
def Recovering (mesh : String) : Prop := ∃ h, inc.fabric = some h ∧ h.mesh = mesh ∧ ∀ n, ¬ Holds nodes inc h n

/-- A role is elected unless it is the primary of the mesh that fabric recovery restores. -/
def Free (role : String × String) : Prop := ¬ (isNodeAdmin role.2 = true ∧ Recovering nodes inc role.1)

/-- A node is the primary of its type in its mesh. -/
inductive Elected (n : Node) : Prop where
  | keeps {h : Primary} (hfree : Free nodes inc n.nodeType) (hrecord : inc.record n.nodeType = some h)
      (hholds : Holds nodes inc h n)
  | follows {h : Primary} (hfree : Free nodes inc n.nodeType) (hrecord : inc.record n.nodeType = some h)
      (hseen : ¬ Unseen nodes inc h) (hgone : ∀ l, Holds nodes inc h l → l.type ≠ n.type)
      (hlowest : Lowest nodes inc (fun b => b.nodeType = n.nodeType) n)
  | first (hfree : Free nodes inc n.nodeType) (hrecord : inc.record n.nodeType = none)
      (hlowest : Lowest nodes inc (fun b => b.nodeType = n.nodeType) n)

def MeshPrimary (n : Node) : Prop := isNodeAdmin n.type = true ∧ Elected nodes inc n

/-- A node is the fabric's primary. -/
inductive FabricElected (n : Node) : Prop where
  | first (hrecord : inc.fabric = none) (hlowest : Lowest nodes inc (MeshPrimary nodes inc) n)
  | keeps {h : Primary} (hrecord : inc.fabric = some h) (hholds : Holds nodes inc h n) (hmesh : MeshPrimary nodes inc n)
  | sibling {h : Primary} {l s : Node} (hrecord : inc.fabric = some h) (hholds : Holds nodes inc h l)
      (hmoved : ¬ MeshPrimary nodes inc l) (hmem : s ∈ nodes) (hsurvives : survives inc h s = true)
      (hmesh : MeshPrimary nodes inc n) (hsame : n.mesh = h.mesh) (hsucceeds : succeeds inc h n = true)
  | elsewhere {h : Primary} {l : Node} (hrecord : inc.fabric = some h) (hholds : Holds nodes inc h l)
      (hmoved : ¬ MeshPrimary nodes inc l) (hgone : ∀ s ∈ nodes, survives inc h s = false)
      (hlowest : Lowest nodes inc (fun b => MeshPrimary nodes inc b ∧ b.mesh ≠ h.mesh) n)

end Views

section Spec

variable {nodes : List Node} {inc : Incumbency} {h : Primary} {n m : Node} {i j : Nat}

theorem mem_of_at (hn : nodes[i]? = some n) : n ∈ nodes := List.mem_of_getElem? hn

/-- Node ids tell nodes and places apart. -/
theorem place_unique (hids : (nodes.map Node.nodeId).Nodup) (hn : nodes[i]? = some n) (hm : nodes[j]? = some m)
    (hid : n.nodeId = m.nodeId) : i = j := by
  have hi : (nodes.map Node.nodeId)[i]? = some n.nodeId := by rw [List.getElem?_map, hn]; rfl
  have hj : (nodes.map Node.nodeId)[j]? = some n.nodeId := by rw [List.getElem?_map, hm, hid]; rfl
  obtain ⟨hlt, -⟩ := List.getElem?_eq_some_iff.mp hi
  exact (List.getElem?_inj hlt hids).mp (hi.trans hj.symm)

theorem node_unique (hids : (nodes.map Node.nodeId).Nodup) (hn : n ∈ nodes) (hm : m ∈ nodes) (hid : n.nodeId = m.nodeId) :
    n = m := List.inj_on_of_nodup_map hids hn hm hid

theorem holding_living_iff (hids : (nodes.map Node.nodeId).Nodup) :
    holding nodes inc h = .living i ↔ ∃ n, nodes[i]? = some n ∧ Holds nodes inc h n := by
  unfold holding
  constructor
  · intro hliving
    split at hliving
    next => cases hliving
    next hknown =>
      split at hliving
      next => cases hliving
      next n j hfind =>
        split at hliving
        next => cases hliving
        next hstays =>
          cases hliving
          have hat := List.mk_mem_zipIdx_iff_getElem?.mp (List.mem_of_find?_eq_some hfind)
          have hid := List.find?_some hfind
          exact ⟨n, hat, mem_of_at hat, by simpa using hid, Bool.eq_false_iff.mpr hknown, by simpa using hstays⟩
  · rintro ⟨n, hat, hholds⟩
    rw [if_neg (by rw [hholds.known]; exact Bool.false_ne_true)]
    have hmem : (n, i) ∈ nodes.zipIdx := List.mk_mem_zipIdx_iff_getElem?.mpr hat
    cases hfind : nodes.zipIdx.find? fun n => n.1.nodeId == h.nodeId with
    | none =>
      rw [List.find?_eq_none] at hfind
      exact absurd (by simpa using hholds.id) (hfind (n, i) hmem)
    | some found =>
      obtain ⟨m, j⟩ := found
      have hat' := List.mk_mem_zipIdx_iff_getElem?.mp (List.mem_of_find?_eq_some hfind)
      have hid : m.nodeId = h.nodeId := by simpa using List.find?_some hfind
      have hplace := place_unique hids hat hat' (hholds.id.trans hid.symm)
      subst hplace
      rw [hat] at hat'
      cases hat'
      simp [hholds.stays]

theorem holding_unseen_iff : holding nodes inc h = .unseen ↔ Unseen nodes inc h := by
  unfold holding
  constructor
  · intro hunseen
    split at hunseen
    next => cases hunseen
    next hknown =>
      split at hunseen
      next hfind =>
        refine ⟨Bool.eq_false_iff.mpr hknown, fun n hn hid => ?_⟩
        rw [List.find?_eq_none] at hfind
        obtain ⟨i, hi⟩ := List.mem_iff_getElem?.mp hn
        exact hfind (n, i) (List.mk_mem_zipIdx_iff_getElem?.mpr hi) (by simpa using hid)
      next => split at hunseen <;> cases hunseen
  · intro hunseen
    rw [if_neg (by rw [hunseen.known]; exact Bool.false_ne_true)]
    have hfind : nodes.zipIdx.find? (fun n => n.1.nodeId == h.nodeId) = none := by
      rw [List.find?_eq_none]
      rintro ⟨n, i⟩ hmem
      have hn := mem_of_at (List.mk_mem_zipIdx_iff_getElem?.mp hmem)
      simpa using hunseen.other n hn
    rw [hfind]

theorem isLiving_iff (hids : (nodes.map Node.nodeId).Nodup) :
    (holding nodes inc h).isLiving = true ↔ ∃ n, Holds nodes inc h n := by
  constructor
  · intro hliving
    cases hh : holding nodes inc h with
    | living i =>
      obtain ⟨n, -, hholds⟩ := (holding_living_iff hids).mp hh
      exact ⟨n, hholds⟩
    | yielded => rw [hh] at hliving; cases hliving
    | unseen => rw [hh] at hliving; cases hliving
  · rintro ⟨n, hholds⟩
    obtain ⟨i, hi⟩ := List.mem_iff_getElem?.mp hholds.mem
    rw [(holding_living_iff hids).mpr ⟨n, hi, hholds⟩]
    rfl

theorem recovering_iff (hids : (nodes.map Node.nodeId).Nodup) (mesh : String) :
    (fabricRecoveryTarget nodes inc).any (fun h => h.mesh == mesh) = true ↔ Recovering nodes inc mesh := by
  unfold fabricRecoveryTarget Recovering
  cases hfabric : inc.fabric with
  | none => simp
  | some h =>
    have hliving := @isLiving_iff nodes inc h hids
    by_cases hl : (holding nodes inc h).isLiving = true
    · obtain ⟨n, hn⟩ := hliving.mp hl
      have hnot : ¬ ∀ n, ¬ Holds nodes inc h n := fun hall => hall n hn
      simp [hl, hnot, Option.filter_some]
    · have hnone : ∀ n, ¬ Holds nodes inc h n := fun n hn => hl (hliving.mpr ⟨n, hn⟩)
      simp [hl, hnone, Option.filter_some]

theorem elect_some {candidates : List Candidate} {k : Nat} (helect : elect candidates = some k) :
    ∃ c, candidates[k]? = some c ∧ c.ready = true ∧
      ∀ d ∈ candidates, d.ready = true → c.nodeId ≤ d.nodeId := by
  obtain ⟨⟨c, k'⟩, harg, rfl⟩ := Option.map_eq_some_iff.mp helect
  have hfilter := List.mem_filter.mp (List.argmin_mem harg)
  refine ⟨c, List.mk_mem_zipIdx_iff_getElem?.mp hfilter.1, hfilter.2, fun d hd hready => ?_⟩
  obtain ⟨j, hj⟩ := List.mem_iff_getElem?.mp hd
  have hmem : (d, j) ∈ candidates.zipIdx.filter fun c => c.1.ready :=
    List.mem_filter.mpr ⟨List.mk_mem_zipIdx_iff_getElem?.mpr hj, hready⟩
  exact @List.le_of_mem_argmin _ _ _ (fun c : Candidate × Nat => c.1.nodeId) _ _ _ hmem harg

theorem elect_none {candidates : List Candidate} (helect : elect candidates = none) :
    ∀ d ∈ candidates, d.ready = false := by
  intro d hd
  have hempty := List.argmin_eq_none.mp (Option.map_eq_none_iff.mp helect)
  rw [List.filter_eq_nil_iff] at hempty
  obtain ⟨j, hj⟩ := List.mem_iff_getElem?.mp hd
  simpa using hempty (d, j) (List.mk_mem_zipIdx_iff_getElem?.mpr hj)

theorem candidate_at {members : List Nat} {f : Nat → Option Candidate} (hf : ∀ i ∈ members, (f i).isSome = true) (k : Nat) :
    (members.filterMap f)[k]? = members[k]?.bind f := by
  induction members generalizing k with
  | nil => rfl
  | cons i members ih =>
    have hrest := ih fun j hj => hf j (List.mem_cons_of_mem i hj)
    obtain ⟨c, hc⟩ := Option.isSome_iff_exists.mp (hf i List.mem_cons_self)
    rw [List.filterMap_cons_some hc]
    cases k with
    | zero => simp [hc]
    | succ k => simpa using hrest k

/-- The candidate at a place. -/
def candidateOf (nodes : List Node) (inc : Incumbency) (j : Nat) : Option Candidate :=
  nodes[j]?.map fun b => ⟨b.nodeId, eligible inc b⟩

theorem lowestReady_eq (nodes : List Node) (inc : Incumbency) (members : List Nat) :
    lowestReady nodes inc members = (elect (members.filterMap (candidateOf nodes inc))).bind fun k : Nat => members[k]? := rfl

theorem candidateOf_at (hn : nodes[i]? = some n) : candidateOf nodes inc i = some ⟨n.nodeId, eligible inc n⟩ := by
  unfold candidateOf
  rw [hn, Option.map_some]

theorem candidateOf_isSome {members : List Nat} (hmembers : ∀ j ∈ members, ∃ b, nodes[j]? = some b) :
    ∀ j ∈ members, (candidateOf nodes inc j).isSome = true := by
  intro j hj
  obtain ⟨b, hb⟩ := hmembers j hj
  rw [candidateOf_at hb]
  rfl

/-- The lowest Ready place is of an eligible member, the lowest of them. -/
theorem lowestReady_some {members : List Nat} (hmembers : ∀ j ∈ members, ∃ b, nodes[j]? = some b)
    (hlowest : lowestReady nodes inc members = some i) :
    i ∈ members ∧ ∃ n, nodes[i]? = some n ∧ eligible inc n = true ∧
      ∀ j ∈ members, ∀ b, nodes[j]? = some b → eligible inc b = true → n.nodeId ≤ b.nodeId := by
  rw [lowestReady_eq] at hlowest
  obtain ⟨k, helect, hk⟩ := Option.bind_eq_some_iff.mp hlowest
  obtain ⟨c, hc, hready, hle⟩ := elect_some helect
  have hi := List.mem_of_getElem? hk
  obtain ⟨n, hn⟩ := hmembers i hi
  rw [candidate_at (candidateOf_isSome hmembers), hk, Option.bind_some, candidateOf_at hn] at hc
  cases hc
  refine ⟨hi, n, hn, hready, fun j hj b hb heligible => hle ⟨b.nodeId, eligible inc b⟩ ?_ heligible⟩
  exact List.mem_filterMap.mpr ⟨j, hj, candidateOf_at hb⟩

/-- With no place elected, no member is eligible. -/
theorem lowestReady_none {members : List Nat} (hmembers : ∀ j ∈ members, ∃ b, nodes[j]? = some b)
    (hlowest : lowestReady nodes inc members = none) :
    ∀ j ∈ members, ∀ b, nodes[j]? = some b → eligible inc b = false := by
  intro j hj b hb
  refine elect_none ?_ ⟨b.nodeId, eligible inc b⟩ (List.mem_filterMap.mpr ⟨j, hj, candidateOf_at hb⟩)
  rw [lowestReady_eq] at hlowest
  cases helect : elect (members.filterMap (candidateOf nodes inc)) with
  | none => rfl
  | some k =>
    rw [helect, Option.bind_some] at hlowest
    obtain ⟨c, hc, -⟩ := elect_some helect
    rw [candidate_at (candidateOf_isSome hmembers), hlowest] at hc
    cases hc

theorem lowestReady_iff (hids : (nodes.map Node.nodeId).Nodup) {members : List Nat} {P : Node → Prop}
    (hmembers : ∀ i, i ∈ members ↔ ∃ n, nodes[i]? = some n ∧ P n) :
    lowestReady nodes inc members = some i ↔ ∃ n, nodes[i]? = some n ∧ Lowest nodes inc P n := by
  have hplaces : ∀ j ∈ members, ∃ b, nodes[j]? = some b := by
    intro j hj
    obtain ⟨b, hb, -⟩ := (hmembers j).mp hj
    exact ⟨b, hb⟩
  have hwins : ∀ {j : Nat}, lowestReady nodes inc members = some j → ∃ b, nodes[j]? = some b ∧ Lowest nodes inc P b := by
    intro j hlowest
    obtain ⟨hj, b, hb, heligible, hle⟩ := lowestReady_some hplaces hlowest
    obtain ⟨b', hb', hP⟩ := (hmembers j).mp hj
    cases hb.symm.trans hb'
    refine ⟨b, hb, mem_of_at hb, hP, heligible, fun d hd hPd => ?_⟩
    obtain ⟨l, hl⟩ := List.mem_iff_getElem?.mp hd
    exact hle l ((hmembers l).mpr ⟨d, hl, hPd⟩) d hl
  constructor
  · exact hwins
  · rintro ⟨n, hn, hlowest⟩
    cases hresult : lowestReady nodes inc members with
    | none =>
      have hbad := lowestReady_none hplaces hresult i ((hmembers i).mpr ⟨n, hn, hlowest.kind⟩) n hn
      rw [hlowest.eligible] at hbad
      cases hbad
    | some j =>
      obtain ⟨b, hb, hlowest'⟩ := hwins hresult
      have hid : n.nodeId = b.nodeId := le_antisymm (hlowest.le b hlowest'.mem hlowest'.kind hlowest'.eligible)
        (hlowest'.le n hlowest.mem hlowest.kind hlowest.eligible)
      rw [place_unique hids hn hb hid]

theorem nodeTypes_foldl (l : List (Node × Nat)) (t : ExtTreeMap (String × String) (List Nat) pathNameCode.cmp)
    (role : String × String) :
    (l.foldl (fun m n => m.insert n.1.nodeType ((m[n.1.nodeType]?).getD [] ++ [n.2])) t)[role]? =
      if (l.filter fun n => n.1.nodeType = role) = [] then t[role]?
      else some ((t[role]?).getD [] ++ (l.filter fun n => n.1.nodeType = role).map Prod.snd) := by
  induction l generalizing t with
  | nil => rfl
  | cons n l ih =>
    rw [List.foldl_cons, ih, getElem?_insert_eq]
    by_cases hrole : n.1.nodeType = role
    · rw [List.filter_cons_of_pos (by simpa using hrole)]
      by_cases hrest : (l.filter fun n => n.1.nodeType = role) = []
      · simp [hrole, hrest]
      · simp [hrole, hrest]
    · rw [List.filter_cons_of_neg (by simpa using hrole), if_neg hrole]

theorem nodeTypes_some {role : String × String} {members : List Nat} (hrole : (nodeTypes nodes)[role]? = some members) :
    ∀ i, i ∈ members ↔ ∃ n, nodes[i]? = some n ∧ n.nodeType = role := by
  intro i
  unfold nodeTypes at hrole
  rw [nodeTypes_foldl] at hrole
  split at hrole
  next => simp at hrole
  next =>
    have hmembers : (nodes.zipIdx.filter fun n => n.1.nodeType = role).map Prod.snd = members := by simpa using hrole
    rw [← hmembers, List.mem_map]
    constructor
    · rintro ⟨⟨n, j⟩, hmem, rfl⟩
      obtain ⟨hplace, hn⟩ := List.mem_filter.mp hmem
      exact ⟨n, List.mk_mem_zipIdx_iff_getElem?.mp hplace, of_decide_eq_true hn⟩
    · rintro ⟨n, hn, hr⟩
      exact ⟨(n, i), List.mem_filter.mpr ⟨List.mk_mem_zipIdx_iff_getElem?.mpr hn, decide_eq_true hr⟩, rfl⟩

theorem nodeTypes_isSome (hn : n ∈ nodes) : ∃ members, (nodeTypes nodes)[n.nodeType]? = some members := by
  unfold nodeTypes
  rw [nodeTypes_foldl]
  obtain ⟨i, hi⟩ := List.mem_iff_getElem?.mp hn
  have hmem : (n, i) ∈ nodes.zipIdx.filter fun m => m.1.nodeType = n.nodeType :=
    List.mem_filter.mpr ⟨List.mk_mem_zipIdx_iff_getElem?.mpr hi, decide_eq_true rfl⟩
  rw [if_neg (List.ne_nil_of_mem hmem)]
  exact ⟨_, rfl⟩

theorem holds_unique (hids : (nodes.map Node.nodeId).Nodup) (hn : Holds nodes inc h n) (hm : Holds nodes inc h m) : n = m :=
  node_unique hids hn.mem hm.mem (hn.id.trans hm.id.symm)

theorem Elected.free (helected : Elected nodes inc n) : Free nodes inc n.nodeType := by
  cases helected with
  | keeps hfree _ _ => exact hfree
  | follows hfree _ _ _ _ => exact hfree
  | first hfree _ _ => exact hfree

theorem elected_of_none (hfree : Free nodes inc n.nodeType) (hrecord : inc.record n.nodeType = none) :
    Elected nodes inc n ↔ Lowest nodes inc (fun b => b.nodeType = n.nodeType) n := by
  constructor
  · intro helected
    cases helected with
    | keeps _ hsome _ => rw [hrecord] at hsome; cases hsome
    | follows _ hsome _ _ _ => rw [hrecord] at hsome; cases hsome
    | first _ _ hlowest => exact hlowest
  · exact .first hfree hrecord

theorem elected_of_some (hfree : Free nodes inc n.nodeType) (hrecord : inc.record n.nodeType = some h) :
    Elected nodes inc n ↔ Holds nodes inc h n ∨ (¬ Unseen nodes inc h ∧ (∀ l, Holds nodes inc h l → l.type ≠ n.type) ∧
      Lowest nodes inc (fun b => b.nodeType = n.nodeType) n) := by
  constructor
  · intro helected
    cases helected with
    | keeps _ hsome hholds =>
      rw [hrecord] at hsome
      cases hsome
      exact Or.inl hholds
    | follows _ hsome hseen hgone hlowest =>
      rw [hrecord] at hsome
      cases hsome
      exact Or.inr ⟨hseen, hgone, hlowest⟩
    | first _ hnone _ => rw [hrecord] at hnone; cases hnone
  · rintro (hholds | ⟨hseen, hgone, hlowest⟩)
    · exact .keeps hfree hrecord hholds
    · exact .follows hfree hrecord hseen hgone hlowest

/-- What the view shows of a recorded primary: it holds its role, was not heard, or is gone. -/
theorem holding_cases (hids : (nodes.map Node.nodeId).Nodup) (h : Primary) :
    (∃ i l, holding nodes inc h = .living i ∧ nodes[i]? = some l ∧ Holds nodes inc h l ∧ ¬ Unseen nodes inc h) ∨
    (holding nodes inc h = .unseen ∧ Unseen nodes inc h ∧ ∀ l, ¬ Holds nodes inc h l) ∨
    (holding nodes inc h = .yielded ∧ ¬ Unseen nodes inc h ∧ ∀ l, ¬ Holds nodes inc h l) := by
  have hgone : (holding nodes inc h).isLiving = false → ∀ l, ¬ Holds nodes inc h l := by
    intro hfalse l hl
    rw [(isLiving_iff hids).mpr ⟨l, hl⟩] at hfalse
    cases hfalse
  cases hholding : holding nodes inc h with
  | living i =>
    obtain ⟨l, hl, hholds⟩ := (holding_living_iff hids).mp hholding
    exact Or.inl ⟨i, l, rfl, hl, hholds, fun hunseen => hunseen.other l hholds.mem hholds.id⟩
  | unseen => exact Or.inr (Or.inl ⟨rfl, holding_unseen_iff.mp hholding, hgone (by rw [hholding]; rfl)⟩)
  | yielded =>
    refine Or.inr (Or.inr ⟨rfl, fun hunseen => ?_, hgone (by rw [hholding]; rfl)⟩)
    rw [holding_unseen_iff.mpr hunseen] at hholding
    cases hholding

/-- Where a role's election is that of the lowest Ready, its place is that of the node elected. -/
theorem exists_elected_iff {role : String × String}
    (h : ∀ n, n.nodeType = role → (Elected nodes inc n ↔ Lowest nodes inc (fun b => b.nodeType = role) n)) :
    (∃ n, nodes[i]? = some n ∧ Lowest nodes inc (fun b => b.nodeType = role) n) ↔
      ∃ n, nodes[i]? = some n ∧ n.nodeType = role ∧ Elected nodes inc n := by
  constructor
  · rintro ⟨n, hn, hlow⟩
    exact ⟨n, hn, hlow.kind, (h n hlow.kind).mpr hlow⟩
  · rintro ⟨n, hn, hrole, helected⟩
    exact ⟨n, hn, (h n hrole).mp helected⟩

theorem winner_iff (hids : (nodes.map Node.nodeId).Nodup) {role : String × String} {members : List Nat}
    (hmembers : ∀ i, i ∈ members ↔ ∃ n, nodes[i]? = some n ∧ n.nodeType = role) :
    winner nodes inc role members = some i ↔ ∃ n, nodes[i]? = some n ∧ n.nodeType = role ∧ Elected nodes inc n := by
  have hlowest := @lowestReady_iff nodes inc i hids members (fun n => n.nodeType = role) hmembers
  have hrecovers : (isNodeAdmin role.2 && (fabricRecoveryTarget nodes inc).any fun h => h.mesh == role.1) = true ↔
      ¬ Free nodes inc role := by
    rw [Bool.and_eq_true, recovering_iff hids, Free, not_not]
  unfold winner
  split
  next hyes =>
    refine ⟨fun hnone => (by cases hnone), ?_⟩
    rintro ⟨n, hn, rfl, helected⟩
    exact absurd helected.free (hrecovers.mp hyes)
  next hno =>
    have hfree : Free nodes inc role := not_not.mp fun hnot => hno (hrecovers.mpr hnot)
    cases hrecord : inc.record role with
    | none =>
      dsimp only
      rw [hlowest]
      refine exists_elected_iff fun n hn => ?_
      subst hn
      exact elected_of_none hfree hrecord
    | some h =>
      dsimp only
      rcases holding_cases hids h with ⟨j, l, hholding, hl, hholds, hseen⟩ | ⟨hholding, hunseen, hnone⟩ |
        ⟨hholding, hseen, hnone⟩
      · -- The recorded birth lives: it keeps the role of its own type and mesh, and leaves that of another type.
        rw [hholding]
        dsimp only
        rw [hl]
        dsimp only
        split
        next htype =>
          have hkept : ∀ n, n.nodeType = role → Elected nodes inc n → n = l := by
            rintro n rfl helected
            rcases (elected_of_some hfree hrecord).mp helected with hn | ⟨-, hgone, -⟩
            · exact holds_unique hids hn hholds
            · exact absurd htype (hgone l hholds)
          split
          next hmesh =>
            have hrole : l.nodeType = role := Prod.ext hmesh htype
            constructor
            · intro heq
              cases heq
              subst hrole
              exact ⟨l, hl, rfl, .keeps hfree hrecord hholds⟩
            · rintro ⟨n, hn, hr, helected⟩
              obtain rfl := hkept n hr helected
              rw [place_unique hids hl hn rfl]
          next hmesh =>
            refine ⟨fun hnone => (by cases hnone), ?_⟩
            rintro ⟨n, hn, hr, helected⟩
            obtain rfl := hkept n hr helected
            exact absurd (congrArg Prod.fst hr) hmesh
        next htype =>
          rw [hlowest]
          refine exists_elected_iff fun n hn => ?_
          subst hn
          rw [elected_of_some hfree hrecord]
          constructor
          · rintro (hn | ⟨-, -, hlow⟩)
            · obtain rfl := holds_unique hids hn hholds
              exact absurd rfl htype
            · exact hlow
          · intro hlow
            refine Or.inr ⟨hseen, fun l' hl' => ?_, hlow⟩
            rw [holds_unique hids hl' hholds]
            exact htype
      · rw [hholding]
        refine ⟨fun hnot => (by cases hnot), ?_⟩
        rintro ⟨n, hn, rfl, helected⟩
        rcases (elected_of_some hfree hrecord).mp helected with hn' | ⟨hseen, -, -⟩
        · exact absurd hn' (hnone n)
        · exact absurd hunseen hseen
      · rw [hholding]
        dsimp only
        rw [hlowest]
        refine exists_elected_iff fun n hn => ?_
        subst hn
        rw [elected_of_some hfree hrecord]
        constructor
        · rintro (hn | ⟨-, -, hlow⟩)
          · exact absurd hn (hnone n)
          · exact hlow
        · exact fun hlow => Or.inr ⟨hseen, fun l hl => absurd hl (hnone l), hlow⟩

theorem mem_winners (hids : (nodes.map Node.nodeId).Nodup) {role : String × String} :
    (role, i) ∈ winners nodes inc ↔ ∃ n, nodes[i]? = some n ∧ n.nodeType = role ∧ Elected nodes inc n := by
  unfold winners
  rw [List.mem_filterMap]
  constructor
  · rintro ⟨⟨role', members⟩, hmem, hwinner⟩
    obtain ⟨j, hj, heq⟩ := Option.map_eq_some_iff.mp hwinner
    cases heq
    have hmembers := nodeTypes_some (ExtTreeMap.mem_toList_iff_getElem?_eq_some.mp hmem)
    exact (winner_iff hids hmembers).mp hj
  · rintro ⟨n, hn, rfl, helected⟩
    obtain ⟨members, hmembers⟩ := nodeTypes_isSome (mem_of_at hn)
    refine ⟨(n.nodeType, members), ExtTreeMap.mem_toList_iff_getElem?_eq_some.mpr hmembers, ?_⟩
    rw [(winner_iff hids (nodeTypes_some hmembers)).mpr ⟨n, hn, rfl, helected⟩]
    rfl

theorem Elected.mem (helected : Elected nodes inc n) : n ∈ nodes := by
  cases helected with
  | keeps _ _ hholds => exact hholds.mem
  | follows _ _ _ _ hlowest => exact hlowest.mem
  | first _ _ hlowest => exact hlowest.mem

theorem Lowest.unique {P : Node → Prop} (hids : (nodes.map Node.nodeId).Nodup) (hn : Lowest nodes inc P n)
    (hm : Lowest nodes inc P m) : n = m :=
  node_unique hids hn.mem hm.mem (le_antisymm (hn.le m hm.mem hm.kind hm.eligible) (hm.le n hn.mem hn.kind hn.eligible))

theorem Elected.unique (hids : (nodes.map Node.nodeId).Nodup) (hn : Elected nodes inc n) (hm : Elected nodes inc m)
    (hrole : n.nodeType = m.nodeType) : n = m := by
  have hfree := hn.free
  have hfree' := hm.free
  cases hrecord : inc.record n.nodeType with
  | none =>
    have hlow := (elected_of_none hfree hrecord).mp hn
    rw [hrole] at hrecord hlow
    exact hlow.unique hids ((elected_of_none hfree' hrecord).mp hm)
  | some h =>
    have hn' := (elected_of_some hfree hrecord).mp hn
    have htype : n.type = m.type := congrArg Prod.snd hrole
    rw [hrole] at hrecord
    have hm' := (elected_of_some hfree' hrecord).mp hm
    rcases hn' with hholds | ⟨-, hgone, hlow⟩
    · rcases hm' with hholds' | ⟨-, hgone', -⟩
      · exact holds_unique hids hholds hholds'
      · exact absurd htype (hgone' n hholds)
    · rcases hm' with hholds' | ⟨-, -, hlow'⟩
      · exact absurd htype.symm (hgone m hholds')
      · rw [hrole] at hlow
        exact hlow.unique hids hlow'

theorem meshPrimaries_foldl {l : List ((String × String) × Nat)} {t : ExtTreeMap String Nat} {mesh : String}
    (hone : ∀ v ∈ l, ∀ w ∈ l, v.1 = w.1 → v.2 = w.2) :
    (l.foldl (fun m w => if isNodeAdmin w.1.2 then m.insert w.1.1 w.2 else m) t)[mesh]? = some i ↔
      (((mesh, "node-admin"), i) ∈ l ∨ (∀ j, ((mesh, "node-admin"), j) ∉ l) ∧ t[mesh]? = some i) := by
  induction l generalizing t with
  | nil => simp
  | cons w l ih =>
    have hrest := @ih (if isNodeAdmin w.1.2 then t.insert w.1.1 w.2 else t) fun v hv u hu =>
      hone v (List.mem_cons_of_mem w hv) u (List.mem_cons_of_mem w hu)
    rw [List.foldl_cons, hrest]
    by_cases hw : w.1 = (mesh, "node-admin")
    · have hadmin : isNodeAdmin w.1.2 = true := by rw [hw]; rfl
      have hsame : ∀ j, ((mesh, "node-admin"), j) ∈ w :: l → j = w.2 := fun j hj => hone _ hj w List.mem_cons_self hw.symm
      have hself : ((mesh, "node-admin"), w.2) ∈ w :: l := by rw [← hw]; exact List.mem_cons_self
      have hmesh : w.1.1 = mesh := by rw [hw]
      rw [if_pos hadmin, getElem?_insert_eq, if_pos hmesh]
      constructor
      · rintro (hmem | ⟨-, heq⟩)
        · exact Or.inl (List.mem_cons_of_mem w hmem)
        · cases heq
          exact Or.inl hself
      · rintro (hmem | ⟨hnot, -⟩)
        · by_cases hin : ((mesh, "node-admin"), i) ∈ l
          · exact Or.inl hin
          · have heq := hsame i hmem
            subst heq
            refine Or.inr ⟨fun j hj => hin ?_, rfl⟩
            rw [← hsame j (List.mem_cons_of_mem w hj)]
            exact hj
        · exact absurd hself (hnot w.2)
    · have hother : ∀ j, ((mesh, "node-admin"), j) ∈ w :: l ↔ ((mesh, "node-admin"), j) ∈ l := by
        intro j
        rw [List.mem_cons]
        refine or_iff_right fun heq => hw ?_
        rw [← heq]
      have hkeep : (if isNodeAdmin w.1.2 then t.insert w.1.1 w.2 else t)[mesh]? = t[mesh]? := by
        split
        next hadmin =>
          rw [getElem?_insert_eq, if_neg fun hmesh => hw (Prod.ext hmesh (by simpa [isNodeAdmin] using hadmin))]
        next => rfl
      simp only [hother, hkeep]

theorem winners_functional (hids : (nodes.map Node.nodeId).Nodup) :
    ∀ v ∈ winners nodes inc, ∀ w ∈ winners nodes inc, v.1 = w.1 → v.2 = w.2 := by
  rintro ⟨role, i⟩ hv ⟨role', j⟩ hw rfl
  obtain ⟨n, hn, hrole, helected⟩ := (mem_winners hids).mp hv
  obtain ⟨m, hm, hrole', helected'⟩ := (mem_winners hids).mp hw
  obtain rfl := helected.unique hids helected' (hrole.trans hrole'.symm)
  exact place_unique hids hn hm rfl

theorem meshPrimaries_iff (hids : (nodes.map Node.nodeId).Nodup) {mesh : String} :
    (meshPrimaries nodes inc)[mesh]? = some i ↔ ∃ n, nodes[i]? = some n ∧ n.mesh = mesh ∧ MeshPrimary nodes inc n := by
  unfold meshPrimaries
  rw [meshPrimaries_foldl (winners_functional hids), mem_winners hids]
  constructor
  · rintro (⟨n, hn, hrole, helected⟩ | ⟨-, hempty⟩)
    · obtain ⟨hmesh, htype⟩ := Prod.mk.inj hrole
      exact ⟨n, hn, hmesh, by rw [htype]; rfl, helected⟩
    · simp at hempty
  · rintro ⟨n, hn, hmesh, hadmin, helected⟩
    have htype : n.type = "node-admin" := by simpa [isNodeAdmin] using hadmin
    exact Or.inl ⟨n, hn, Prod.ext hmesh htype, helected⟩

theorem lowestPrimary_iff (hids : (nodes.map Node.nodeId).Nodup) (except : Option String) :
    lowestPrimary nodes inc except = some i ↔
      ∃ n, nodes[i]? = some n ∧ Lowest nodes inc (fun b => MeshPrimary nodes inc b ∧ some b.mesh ≠ except) n := by
  unfold lowestPrimary
  refine lowestReady_iff hids fun j => ?_
  rw [List.mem_map]
  constructor
  · rintro ⟨⟨mesh, k⟩, hmem, rfl⟩
    obtain ⟨hlookup, hexcept⟩ := List.mem_filter.mp hmem
    obtain ⟨n, hn, rfl, hmesh⟩ := (meshPrimaries_iff hids).mp (ExtTreeMap.mem_toList_iff_getElem?_eq_some.mp hlookup)
    exact ⟨n, hn, hmesh, by simpa using hexcept⟩
  · rintro ⟨n, hn, hmesh, hexcept⟩
    refine ⟨(n.mesh, j), List.mem_filter.mpr ⟨?_, by simpa using hexcept⟩, rfl⟩
    exact ExtTreeMap.mem_toList_iff_getElem?_eq_some.mpr ((meshPrimaries_iff hids).mpr ⟨n, hn, rfl, hmesh⟩)

theorem fabricElected_of_some (hids : (nodes.map Node.nodeId).Nodup) {l : Node} (hrecord : inc.fabric = some h)
    (hholds : Holds nodes inc h l) :
    FabricElected nodes inc n ↔ (MeshPrimary nodes inc l ∧ n = l) ∨ (¬ MeshPrimary nodes inc l ∧
      ((nodes.any (survives inc h) = true ∧ MeshPrimary nodes inc n ∧ n.mesh = h.mesh ∧ succeeds inc h n = true) ∨
        (nodes.any (survives inc h) = false ∧
          Lowest nodes inc (fun b => MeshPrimary nodes inc b ∧ some b.mesh ≠ some h.mesh) n))) := by
  constructor
  · intro helected
    cases helected with
    | first hnone _ => rw [hrecord] at hnone; cases hnone
    | keeps hsome hkept hmesh =>
      rw [hrecord] at hsome
      cases hsome
      obtain rfl := holds_unique hids hkept hholds
      exact Or.inl ⟨hmesh, rfl⟩
    | sibling hsome hkept hmoved hmem hsurvives hmesh hsame hsucceeds =>
      rw [hrecord] at hsome
      cases hsome
      obtain rfl := holds_unique hids hkept hholds
      exact Or.inr ⟨hmoved, Or.inl ⟨List.any_eq_true.mpr ⟨_, hmem, hsurvives⟩, hmesh, hsame, hsucceeds⟩⟩
    | elsewhere hsome hkept hmoved hgone hlowest =>
      rw [hrecord] at hsome
      cases hsome
      obtain rfl := holds_unique hids hkept hholds
      refine Or.inr ⟨hmoved, Or.inr ⟨?_, by simpa using hlowest⟩⟩
      rw [List.any_eq_false]
      exact fun s hs => by rw [hgone s hs]; exact Bool.false_ne_true
  · rintro (⟨hmesh, rfl⟩ | ⟨hmoved, ⟨hany, hmesh, hsame, hsucceeds⟩ | ⟨hnone, hlowest⟩⟩)
    · exact .keeps hrecord hholds hmesh
    · obtain ⟨s, hs, hsurvives⟩ := List.any_eq_true.mp hany
      exact .sibling hrecord hholds hmoved hs hsurvives hmesh hsame hsucceeds
    · rw [List.any_eq_false] at hnone
      exact .elsewhere hrecord hholds hmoved (fun s hs => by simpa using hnone s hs) (by simpa using hlowest)

theorem fabricElected_of_none (hrecord : inc.fabric = none) : FabricElected nodes inc n ↔
    Lowest nodes inc (fun b => MeshPrimary nodes inc b ∧ some b.mesh ≠ none) n := by
  constructor
  · intro helected
    cases helected with
    | first _ hlowest => simpa using hlowest
    | keeps hsome _ _ => rw [hrecord] at hsome; cases hsome
    | sibling hsome _ _ _ _ _ _ _ => rw [hrecord] at hsome; cases hsome
    | elsewhere hsome _ _ _ _ => rw [hrecord] at hsome; cases hsome
  · exact fun hlowest => .first hrecord (by simpa using hlowest)

theorem not_fabricElected (hrecord : inc.fabric = some h) (hnone : ∀ l, ¬ Holds nodes inc h l) :
    ¬ FabricElected nodes inc n := by
  intro helected
  have hrecorded : ∀ {h' l}, inc.fabric = some h' → ¬ Holds nodes inc h' l := by
    intro h' l hsome
    rw [hrecord] at hsome
    cases hsome
    exact hnone l
  cases helected with
  | first hno _ => rw [hrecord] at hno; cases hno
  | keeps hsome hkept _ => exact hrecorded hsome hkept
  | sibling hsome hkept _ _ _ _ _ _ => exact hrecorded hsome hkept
  | elsewhere hsome hkept _ _ _ => exact hrecorded hsome hkept

/-- A recovery keeps any election from being taken, and runs when the recorded primary is not living. -/
theorem filter_recoveryTarget (o : Option Nat) : o.filter (fun _ => (fabricRecoveryTarget nodes inc).isNone) =
    if inc.fabric.all (fun h => (holding nodes inc h).isLiving) then o else none := by
  unfold fabricRecoveryTarget
  cases inc.fabric with
  | none => cases o <;> rfl
  | some h => cases hliving : (holding nodes inc h).isLiving <;> cases o <;> simp [hliving, Option.filter_some]

theorem meshPrimary_iff (hids : (nodes.map Node.nodeId).Nodup) {j : Nat} {l : Node} (hl : nodes[j]? = some l) :
    (nodes[j]?.any fun n => (meshPrimaries nodes inc)[n.mesh]? == some j) = true ↔ MeshPrimary nodes inc l := by
  rw [hl, Option.any_some, beq_iff_eq, meshPrimaries_iff hids]
  constructor
  · rintro ⟨m, hm, -, hmesh⟩
    rw [hl] at hm
    cases hm
    exact hmesh
  · exact fun hmesh => ⟨l, hl, rfl, hmesh⟩

/-- The fabric's primary is the node elected. -/
theorem fabric_iff (hids : (nodes.map Node.nodeId).Nodup) :
    (electedFabricPrimary nodes inc).filter (fun _ => (fabricRecoveryTarget nodes inc).isNone) = some i ↔
      ∃ n, nodes[i]? = some n ∧ FabricElected nodes inc n := by
  rw [filter_recoveryTarget]
  unfold electedFabricPrimary
  cases hrecord : inc.fabric with
  | none =>
    dsimp only
    rw [Option.all_none, if_pos rfl, lowestPrimary_iff hids]
    simp only [fabricElected_of_none hrecord]
  | some h =>
    dsimp only
    rw [Option.all_some]
    rcases @holding_cases nodes inc hids h with ⟨j, l, hholding, hl, hholds, -⟩ | ⟨hholding, -, hnone⟩ | ⟨hholding, -, hnone⟩
    · have helected := fun n => @fabricElected_of_some nodes inc h n hids l hrecord hholds
      simp only [helected]
      rw [hholding, if_pos (show (Holding.living j).isLiving = true from rfl)]
      dsimp only
      by_cases hmesh : MeshPrimary nodes inc l
      · rw [if_pos ((meshPrimary_iff hids hl).mpr hmesh)]
        constructor
        · intro heq
          cases heq
          exact ⟨l, hl, Or.inl ⟨hmesh, rfl⟩⟩
        · rintro ⟨n, hn, ⟨-, rfl⟩ | ⟨hmoved, -⟩⟩
          · rw [place_unique hids hl hn rfl]
          · exact absurd hmesh hmoved
      · rw [if_neg fun hyes => hmesh ((meshPrimary_iff hids hl).mp hyes)]
        by_cases hany : nodes.any (survives inc h) = true
        · rw [if_pos hany, Option.filter_eq_some_iff, meshPrimaries_iff hids]
          constructor
          · rintro ⟨⟨n, hn, hsame, hprimary'⟩, hsucceeds⟩
            rw [hn, Option.any_some] at hsucceeds
            exact ⟨n, hn, Or.inr ⟨hmesh, Or.inl ⟨hany, hprimary', hsame, hsucceeds⟩⟩⟩
          · rintro ⟨n, hn, ⟨hyes, -⟩ | ⟨-, ⟨-, hprimary', hsame, hsucceeds⟩ | ⟨hnot, -⟩⟩⟩
            · exact absurd hyes hmesh
            · exact ⟨⟨n, hn, hsame, hprimary'⟩, by rw [hn, Option.any_some]; exact hsucceeds⟩
            · rw [hany] at hnot
              cases hnot
        · rw [if_neg hany, lowestPrimary_iff hids]
          constructor
          · rintro ⟨n, hn, hlowest⟩
            exact ⟨n, hn, Or.inr ⟨hmesh, Or.inr ⟨Bool.eq_false_iff.mpr hany, hlowest⟩⟩⟩
          · rintro ⟨n, hn, ⟨hyes, -⟩ | ⟨-, ⟨hyes, -⟩ | ⟨-, hlowest⟩⟩⟩
            · exact absurd hyes hmesh
            · exact absurd hyes hany
            · exact ⟨n, hn, hlowest⟩
    all_goals
      rw [hholding, if_neg (by simp [Holding.isLiving])]
      refine ⟨fun hnot => (by cases hnot), ?_⟩
      rintro ⟨n, -, helected⟩
      exact absurd helected (not_fabricElected hrecord hnone)

end Spec

end DistributedMesh.Election
