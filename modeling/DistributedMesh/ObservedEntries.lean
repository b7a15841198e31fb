import DistributedMesh.ObservedRows

namespace DistributedMesh.Observed

open Std (ExtTreeMap)
open KeyedMaps Contests

namespace RowNames

variable (rows : RowNames)

/-- The birth is current, as far as the rows read tell. -/
def current (n : Node) : Bool := !rows.releasedBy n

/-- Whether a birth is current, then whether it is live. -/
def standing (n : Node) : Bool ×ₗ Bool := toLex (rows.current n, Build.isLive n.status)

theorem strict_takesPlace : Strict rows.takesPlace rows.current := by
  intro listed candidate
  unfold takesPlace takesPath current
  cases rows.releasedBy listed <;> cases rows.releasedBy candidate <;> decide

theorem takesHeld_eq (listed candidate : Node) :
    rows.takesHeld listed candidate =
      match rows.current listed, rows.current candidate with
      | false, true => true
      | true, false => false
      | _, _ => !(Build.isLive listed.status && !Build.isLive candidate.status) := by
  unfold takesHeld takesPath current
  cases rows.releasedBy listed <;> cases rows.releasedBy candidate <;> rfl

theorem respects_standing : Respects rows.takesHeld rows.standing := by
  constructor
  case higher =>
    intro listed candidate
    rw [takesHeld_eq]
    unfold standing
    cases rows.current listed <;> cases rows.current candidate <;> cases Build.isLive listed.status <;>
      cases Build.isLive candidate.status <;> decide
  case lower =>
    intro listed candidate
    rw [takesHeld_eq]
    unfold standing
    cases rows.current listed <;> cases rows.current candidate <;> cases Build.isLive listed.status <;>
      cases Build.isLive candidate.status <;> decide

theorem respects_current : Respects rows.takesHeld rows.current :=
  rows.respects_standing.coarser fun _ _ h => Prod.Lex.toLex_lt_toLex.mpr (.inl h)

end RowNames

section Nodes

theorem withLaunched_toNode (recorded : ExtTreeMap PathName Node pathNameCode.cmp) (n : Node) :
    (n.withLaunched recorded).toNode = n.toNode := by
  unfold Node.withLaunched
  cases launched recorded n.incarnationId with
  | none => rfl
  | some l => rfl

/-- An entry of the birth: at its own path, with the birth's ids. -/
structure OfBirth (c : PathName × Node) (b : Publication) : Prop where
  location : c.2.location = c.1
  nodeId : c.2.nodeId = b.nodeId
  incarnationId : c.2.incarnationId = some b.incarnation

theorem ofBirth_ofDigest (r : Records) (provider : ProviderKind) (name : PathName) (d : MeshDigest) (status : NodeStatus)
    (stopped routable : Bool) : OfBirth (name, ofDigest r provider name d status stopped routable) (.ofDigest d) := by
  constructor <;>
  · simp only [ofDigest, Build.Node.location, withLaunched_toNode]
    rfl

theorem ofBirth_ofStop (r : Records) (provider : ProviderKind) (name : PathName) (op : LifecycleOp) :
    OfBirth (name, ofStop r provider name op) (.ofStop op) := by
  constructor <;>
  · simp only [ofStop, Build.Node.location, withLaunched_toNode]
    rfl

theorem status_ofDigest (r : Records) (provider : ProviderKind) (name : PathName) (d : MeshDigest) (status : NodeStatus)
    (stopped routable : Bool) : (ofDigest r provider name d status stopped routable).status = status := by
  simp only [ofDigest, withLaunched_toNode]

theorem status_ofStop (r : Records) (provider : ProviderKind) (name : PathName) (op : LifecycleOp) :
    (ofStop r provider name op).status = .leaving := by
  simp only [ofStop, withLaunched_toNode]

/-- What a pass enters: a birth it does not skip, at a name it knows and was not removed from. -/
theorem entered_eq_some {r : Records} {skip : Bool} {name : Option PathName} {incarnation : String}
    {node : PathName → Node} {c : PathName × Node} :
    (if skip then none else entered r name incarnation node) = some c ↔
      skip = false ∧ ∃ place, name = some place ∧ (place, some incarnation) ∉ r.removed ∧ c = (place, node place) := by
  cases skip with
  | true => simp
  | false =>
    rw [if_neg Bool.false_ne_true, and_iff_right rfl, entered, Option.bind_eq_some_iff]
    refine exists_congr fun place => and_congr_right fun _ => ?_
    by_cases hmem : (place, some incarnation) ∈ r.removed
    · simp [hmem]
    · simp [hmem, eq_comm]

end Nodes

section Entries

variable {v : ViewAnswers} {r : Records} {rows : RowNames} {fabric : String} {provider : ProviderKind}
  {c : PathName × Node}

theorem heldEntry_eq_some {e : MeshDigest × Nat} :
    heldEntry v r rows fabric provider e = some c ↔
      e.1.fabricId = fabric ∧ ∃ name, heldName v r rows e.1 e.2 = some name ∧
        (name, some e.1.node.incarnation) ∉ r.removed ∧ c = (name, heldNode v r provider e.1 e.2 name) := by
  rw [heldEntry, entered_eq_some, bne_eq_false_iff_eq]

theorem stoppedEntry_eq_some {d : MeshDigest} :
    stoppedEntry v r rows fabric provider d = some c ↔
      (d.fabricId = fabric ∧ v.isDeleted d.node.nodeId = false) ∧ ∃ name, rows.nameOf (.ofDigest d) = some name ∧
        (name, some d.node.incarnation) ∉ r.removed ∧ c = (name, ofDigest r provider name d .leaving true false) := by
  rw [stoppedEntry, entered_eq_some, Bool.or_eq_false_iff, bne_eq_false_iff_eq]

theorem stopEntry_eq_some {op : LifecycleOp} :
    stopEntry v r rows provider op = some c ↔
      v.isDeleted op.nodeId = false ∧ ∃ name, rows.nameOf (.ofStop op) = some name ∧
        (name, some op.incarnation) ∉ r.removed ∧ c = (name, ofStop r provider name op) := by
  rw [stopEntry, entered_eq_some]

theorem projectedEntry_eq_some {e : MeshDigest × Nat} :
    projectedEntry v r rows fabric provider e = some c ↔
      e.1.fabricId = fabric ∧ ∃ name, rows.nameOf (.ofDigest e.1) = some name ∧
        (name, some e.1.node.incarnation) ∉ r.removed ∧
        c = (name, ofDigest r provider name e.1 (heardStatus v r e.1 e.2) false false) := by
  rw [projectedEntry, entered_eq_some, bne_eq_false_iff_eq]

theorem heldEntry_ofBirth {e : MeshDigest × Nat} (h : heldEntry v r rows fabric provider e = some c) :
    OfBirth c (.ofDigest e.1) := by
  obtain ⟨-, name, -, -, rfl⟩ := heldEntry_eq_some.mp h
  exact ofBirth_ofDigest r provider name e.1 _ _ _

theorem stoppedEntry_ofBirth {d : MeshDigest} (h : stoppedEntry v r rows fabric provider d = some c) :
    OfBirth c (.ofDigest d) := by
  obtain ⟨-, name, -, -, rfl⟩ := stoppedEntry_eq_some.mp h
  exact ofBirth_ofDigest r provider name d _ _ _

theorem stopEntry_ofBirth {op : LifecycleOp} (h : stopEntry v r rows provider op = some c) : OfBirth c (.ofStop op) := by
  obtain ⟨-, name, -, -, rfl⟩ := stopEntry_eq_some.mp h
  exact ofBirth_ofStop r provider name op

theorem projectedEntry_ofBirth {e : MeshDigest × Nat} (h : projectedEntry v r rows fabric provider e = some c) :
    OfBirth c (.ofDigest e.1) := by
  obtain ⟨-, name, -, -, rfl⟩ := projectedEntry_eq_some.mp h
  exact ofBirth_ofDigest r provider name e.1 _ _ _

/-- What the births of the view enter, pass after pass. -/
def viewEntries (v : ViewAnswers) (r : Records) (rows : RowNames) (fabric : String) (provider : ProviderKind) :
    List (PathName × Node) :=
  heldEntries v r rows fabric provider ++ stoppedEntries v r rows fabric provider ++ stopEntries v r rows provider ++
    projectedEntries v r rows fabric provider

theorem map_filterMap_sublist {α β γ : Type} {f : α → Option β} {g : β → γ} {h : α → γ}
    (hfg : ∀ a b, f a = some b → g b = h a) (l : List α) : ((l.filterMap f).map g).Sublist (l.map h) := by
  induction l with
  | nil => exact .slnil
  | cons a l ih =>
    cases hfa : f a with
    | none =>
      rw [List.filterMap_cons_none hfa]
      exact ih.cons (h a)
    | some b =>
      rw [List.filterMap_cons_some hfa, List.map_cons, List.map_cons, hfg a b hfa]
      exact ih.cons_cons (h a)

/-- Each birth enters once at most, under its own incarnation. -/
theorem incarnations_sublist (v : ViewAnswers) (r : Records) (rows : RowNames) (fabric : String)
    (provider : ProviderKind) :
    ((viewEntries v r rows fabric provider).map fun c => c.2.incarnationId).Sublist
      (v.births.map fun b => some b.incarnation) := by
  unfold viewEntries ViewAnswers.births
  simp only [List.map_append, List.map_map]
  refine .append (.append (.append ?_ ?_) ?_) ?_
  · exact map_filterMap_sublist (fun e c h => (heldEntry_ofBirth h).incarnationId) v.all
  · exact map_filterMap_sublist (fun d c h => (stoppedEntry_ofBirth h).incarnationId) v.stoppedDigests
  · exact map_filterMap_sublist (fun op c h => (stopEntry_ofBirth h).incarnationId) v.stoppedUnheard
  · exact map_filterMap_sublist (fun e c h => (projectedEntry_ofBirth h).incarnationId) v.projectedUnheard

theorem mem_viewEntries :
    c ∈ viewEntries v r rows fabric provider ↔
      (∃ e ∈ v.all, heldEntry v r rows fabric provider e = some c) ∨
        (∃ d ∈ v.stoppedDigests, stoppedEntry v r rows fabric provider d = some c) ∨
        (∃ op ∈ v.stoppedUnheard, stopEntry v r rows provider op = some c) ∨
        ∃ e ∈ v.projectedUnheard, projectedEntry v r rows fabric provider e = some c := by
  unfold viewEntries heldEntries stoppedEntries stopEntries projectedEntries
  simp only [List.mem_append, List.mem_filterMap, or_assoc]

theorem location_viewEntries (h : c ∈ viewEntries v r rows fabric provider) : c.2.location = c.1 := by
  rcases mem_viewEntries.mp h with ⟨e, -, he⟩ | ⟨d, -, hd⟩ | ⟨op, -, hop⟩ | ⟨e, -, he⟩
  · exact (heldEntry_ofBirth he).location
  · exact (stoppedEntry_ofBirth hd).location
  · exact (stopEntry_ofBirth hop).location
  · exact (projectedEntry_ofBirth he).location

/-- Every birth that enters has been spoken for. -/
theorem heard_viewEntries (h : c ∈ viewEntries v r rows fabric provider) :
    ∃ inc, c.2.incarnationId = some inc ∧ inc ∈ heard v fabric := by
  unfold heard ViewAnswers.ofFabric
  simp only [List.mem_append, List.mem_map, List.mem_filter]
  rcases mem_viewEntries.mp h with ⟨e, hmem, he⟩ | ⟨d, hmem, hd⟩ | ⟨op, hmem, hop⟩ | ⟨e, hmem, he⟩
  · refine ⟨_, (heldEntry_ofBirth he).incarnationId, .inl (.inl (.inl (.inl ⟨e, ⟨hmem, ?_⟩, rfl⟩)))⟩
    exact beq_iff_eq.mpr (heldEntry_eq_some.mp he).1
  · refine ⟨_, (stoppedEntry_ofBirth hd).incarnationId, .inl (.inl (.inl (.inr ⟨d, ⟨hmem, ?_⟩, rfl⟩)))⟩
    obtain ⟨hf, hdel⟩ := (stoppedEntry_eq_some.mp hd).1
    simp [hf, hdel]
  · refine ⟨_, (stopEntry_ofBirth hop).incarnationId, .inl (.inl (.inr ⟨op, ⟨hmem, ?_⟩, rfl⟩))⟩
    simp [(stopEntry_eq_some.mp hop).1]
  · refine ⟨_, (projectedEntry_ofBirth he).incarnationId, .inl (.inr ⟨e, ⟨hmem, ?_⟩, rfl⟩)⟩
    exact beq_iff_eq.mpr (projectedEntry_eq_some.mp he).1

theorem mem_launches :
    c ∈ launches v r fabric ↔
      r.nodes[c.1]? = some c.2 ∧ (∀ inc, c.2.incarnationId = some inc → inc ∉ heard v fabric) ∧
        v.isDeleted c.2.nodeId = false := by
  unfold launches
  rw [List.mem_filter, ExtTreeMap.mem_toList_iff_getElem?_eq_some, Bool.not_eq_true', Bool.or_eq_false_iff]
  refine and_congr_right fun _ => and_congr_left fun _ => ?_
  cases c.2.incarnationId <;> simp

/-- Launch records of distinct births. -/
def Records.Distinct (r : Records) : Prop :=
  ∀ (j k : PathName) (n m : Node) (inc : String), r.nodes[j]? = some n → r.nodes[k]? = some m →
    n.incarnationId = some inc → m.incarnationId = some inc → j = k

def entries (v : ViewAnswers) (r : Records) (rows : RowNames) (fabric : String) (provider : ProviderKind) :
    List (PathName × Node) :=
  viewEntries v r rows fabric provider ++ launches v r fabric

theorem location_entries (h : c ∈ entries v r rows fabric provider) : c.2.location = c.1 := by
  rcases List.mem_append.mp h with hview | hlaunch
  · exact location_viewEntries hview
  · exact r.located c.1 c.2 (mem_launches.mp hlaunch).1

/-- No incarnation enters twice. -/
theorem entries_inj (hdistinct : r.Distinct) (hbirths : (v.births.map Publication.incarnation).Nodup)
    {d : PathName × Node} {inc : String} (hc : c ∈ entries v r rows fabric provider)
    (hd : d ∈ entries v r rows fabric provider) (hci : c.2.incarnationId = some inc)
    (hdi : d.2.incarnationId = some inc) : c = d := by
  have hnodup : (v.births.map fun b => some b.incarnation).Nodup := by
    have hmap := hbirths.map (Option.some_injective String)
    rw [List.map_map] at hmap
    exact hmap
  rcases List.mem_append.mp hc with hcview | hclaunch
  · rcases List.mem_append.mp hd with hdview | hdlaunch
    · exact List.inj_on_of_nodup_map (hnodup.sublist (incarnations_sublist v r rows fabric provider)) hcview hdview
        (hci.trans hdi.symm)
    · obtain ⟨i, hi, hheard⟩ := heard_viewEntries hcview
      cases hi.symm.trans hci
      exact absurd hheard ((mem_launches.mp hdlaunch).2.1 _ hdi)
  · rcases List.mem_append.mp hd with hdview | hdlaunch
    · obtain ⟨i, hi, hheard⟩ := heard_viewEntries hdview
      cases hi.symm.trans hdi
      exact absurd hheard ((mem_launches.mp hclaunch).2.1 _ hci)
    · have hcl := (mem_launches.mp hclaunch).1
      have hdl := (mem_launches.mp hdlaunch).1
      have hkey := hdistinct _ _ _ _ inc hcl hdl hci hdi
      rw [hkey, hdl] at hcl
      exact Prod.ext hkey (Option.some_inj.mp hcl).symm

/-- What is listed at a path is one of the births that enter there, current when any of them is. -/
theorem leads_places (v : ViewAnswers) (r : Records) (rows : RowNames) (fabric : String) (provider : ProviderKind) :
    Leads rows.current (places v r rows fabric provider) (entries v r rows fabric provider) := by
  have hplace := rows.strict_takesPlace.respects
  have hempty : Leads rows.current (∅ : ExtTreeMap PathName Node pathNameCode.cmp) [] := .empty
  have hheld := hempty.enterAll rows.respects_current (heldEntries v r rows fabric provider)
  have hstopped := hheld.enterAll hplace (stoppedEntries v r rows fabric provider)
  have hstops := hstopped.enterAll hplace (stopEntries v r rows provider)
  have hprojected := hstops.enterAll hplace (projectedEntries v r rows fabric provider)
  exact hprojected.enterAll hplace (launches v r fabric)

theorem located_places (v : ViewAnswers) (r : Records) (rows : RowNames) (fabric : String) (provider : ProviderKind) :
    Keyed (fun n : Node => n.location) (places v r rows fabric provider) := by
  intro k n hn
  exact location_entries ((leads_places v r rows fabric provider).entrant k n hn)

end Entries

end DistributedMesh.Observed
