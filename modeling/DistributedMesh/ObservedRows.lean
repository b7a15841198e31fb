import DistributedMesh.ObservedNodes

namespace DistributedMesh.Observed

open Std (ExtTreeMap ExtTreeSet)
open KeyedMaps

/-- Every birth of the view, group by group. -/
def ViewAnswers.births (v : ViewAnswers) : List Publication :=
  v.all.map (fun e => .ofDigest e.1) ++ v.stoppedDigests.map .ofDigest ++ v.stoppedUnheard.map .ofStop ++
    v.projectedUnheard.map fun e => .ofDigest e.1

/-- Each node id is in one group at most, and there once. -/
def ViewAnswers.Apart (v : ViewAnswers) : Prop := (v.births.map Publication.nodeId).Nodup

/-- The same answers, each group enumerated in any order. -/
structure Permuted (v w : ViewAnswers) : Prop where
  all : v.all.Perm w.all
  stoppedDigests : v.stoppedDigests.Perm w.stoppedDigests
  stoppedUnheard : v.stoppedUnheard.Perm w.stoppedUnheard
  projectedUnheard : v.projectedUnheard.Perm w.projectedUnheard
  deleted : v.deleted = w.deleted
  stalenessFloor : v.stalenessFloor = w.stalenessFloor
  routable : v.routable = w.routable

section Births

variable {v w : ViewAnswers} {r : Records} {fabric : String}

theorem quiet_sublist (v : ViewAnswers) (r : Records) (fabric : String) : (v.quiet r fabric).Sublist v.births := by
  have hall : ((v.ofFabric fabric).filter fun e => !publishes v r e.1.node.nodeId e.1.node.incarnation e.2).Sublist v.all :=
    List.filter_sublist.trans List.filter_sublist
  unfold ViewAnswers.quiet ViewAnswers.births
  refine List.Sublist.trans ?_ (List.sublist_append_left _ _)
  exact ((hall.map _).append (List.filter_sublist.map _)).append (List.Sublist.refl _)

theorem ViewAnswers.Apart.eq_of_nodeId (h : v.Apart) {b c : Publication} (hb : b ∈ v.births) (hc : c ∈ v.births)
    (heq : b.nodeId = c.nodeId) : b = c :=
  List.inj_on_of_nodup_map h hb hc heq

theorem ViewAnswers.Apart.eq_of_birth (h : v.Apart) {b c : Publication} (hb : b ∈ v.births) (hc : c ∈ v.births)
    (heq : b.birth = c.birth) : b = c :=
  h.eq_of_nodeId hb hc (congrArg Prod.fst heq)

theorem Permuted.births (h : Permuted v w) : v.births.Perm w.births :=
  (((h.all.map _).append (h.stoppedDigests.map _)).append (h.stoppedUnheard.map _)).append (h.projectedUnheard.map _)

theorem Permuted.publishes (h : Permuted v w) : publishes v r = publishes w r := by
  unfold Observed.publishes
  rw [h.stalenessFloor]

theorem Permuted.quiet (h : Permuted v w) : (v.quiet r fabric).Perm (w.quiet r fabric) := by
  unfold ViewAnswers.quiet ViewAnswers.ofFabric
  rw [h.publishes]
  exact ((((h.all.filter _).filter _).map _).append ((h.stoppedDigests.filter _).map _)).append (h.stoppedUnheard.map _)

theorem Permuted.publishing (h : Permuted v w) : (v.publishing r fabric).Perm (w.publishing r fabric) := by
  unfold ViewAnswers.publishing ViewAnswers.ofFabric
  rw [h.publishes]
  exact ((h.all.filter _).filter _).map _

theorem Permuted.listedNames (h : Permuted v w) (store : NodesStorage) :
    (listedNames v r store fabric).Perm (listedNames w r store fabric) := by
  unfold Observed.listedNames
  exact (((h.quiet.append h.publishing).map _).append ((h.projectedUnheard.filter _).map _)).append (h.quiet.filterMap _)

end Births

namespace RowNames

variable {r : Records} {store : NodesStorage} {rows : RowNames} {l : List Publication}

@[simp] theorem names_releaseWhen (rows : RowNames) (b : Publication) (released : Bool) :
    (rows.releaseWhen b released).names = rows.names := by
  cases released <;> rfl

theorem mem_releaseWhen (rows : RowNames) (b : Publication) (released : Bool) (k : String × String) :
    k ∈ (rows.releaseWhen b released).released ↔ k ∈ rows.released ∨ b.birth = k ∧ released = true := by
  cases released with
  | false => simp [releaseWhen]
  | true =>
    unfold releaseWhen
    rw [if_pos rfl, mem_insert_set, or_comm, eq_comm]
    simp

/-- Each quiet birth is read, at the name its row stands at. -/
theorem getElem?_names_readQuiet (hinj : ∀ b ∈ l, ∀ d ∈ l, b.birth = d.birth → b = d) (k : String × String)
    (e : PathName × RowName) :
    (l.foldl (readQuiet r store) ⟨∅, ∅⟩).names[k]? = some e ↔
      ∃ b ∈ l, b.birth = k ∧ e = (b.published, (rowName r store b.nodeId b.published).1) := by
  induction l using List.reverseRecOn with
  | nil => simp
  | append_singleton l d ih =>
    have hlast : d ∈ l ++ [d] := List.mem_append_right l (List.mem_singleton_self d)
    have hinj' : ∀ b ∈ l, ∀ c ∈ l, b.birth = c.birth → b = c := fun b hb c hc =>
      hinj b (List.mem_append_left [d] hb) c (List.mem_append_left [d] hc)
    rw [List.foldl_append, List.foldl_cons, List.foldl_nil]
    simp only [readQuiet, names_releaseWhen]
    rw [getElem?_insert_eq]
    by_cases hk : d.birth = k
    · rw [if_pos hk, Option.some_inj]
      constructor
      · intro he
        exact ⟨d, hlast, hk, he.symm⟩
      · rintro ⟨b, hb, hbirth, rfl⟩
        rw [hinj b hb d hlast (hbirth.trans hk.symm)]
    · rw [if_neg hk, ih hinj']
      constructor
      · rintro ⟨b, hb, he⟩
        exact ⟨b, List.mem_append_left [d] hb, he⟩
      · rintro ⟨b, hb, hbirth, he⟩
        rcases List.mem_append.mp hb with hmem | hmem
        · exact ⟨b, hmem, hbirth, he⟩
        · rw [List.mem_singleton.mp hmem] at hbirth
          exact absurd hbirth hk

theorem mem_released_readQuiet (l : List Publication) (rows : RowNames) (k : String × String) :
    k ∈ (l.foldl (readQuiet r store) rows).released ↔
      k ∈ rows.released ∨ ∃ b ∈ l, b.birth = k ∧ (rowName r store b.nodeId b.published).2 = true := by
  induction l generalizing rows with
  | nil => simp
  | cons b l ih =>
    rw [List.foldl_cons, ih]
    simp only [readQuiet, mem_releaseWhen, List.mem_cons, exists_eq_or_imp, or_assoc]

theorem names_readPublishing (listed : List PathName) (l : List Publication) (rows : RowNames) :
    (l.foldl (readPublishing r store listed) rows).names = rows.names := by
  induction l generalizing rows with
  | nil => rfl
  | cons b l ih =>
    rw [List.foldl_cons, ih, readPublishing]
    split
    next => rfl
    next => exact names_releaseWhen rows b _

theorem mem_released_readPublishing (listed : List PathName) (l : List Publication) (rows : RowNames)
    (k : String × String) :
    k ∈ (l.foldl (readPublishing r store listed) rows).released ↔
      k ∈ rows.released ∨
        ∃ b ∈ l, b.birth = k ∧ 2 ≤ listed.count b.published ∧ (rowName r store b.nodeId b.published).2 = true := by
  induction l generalizing rows with
  | nil => simp
  | cons b l ih =>
    rw [List.foldl_cons, ih]
    simp only [List.mem_cons, exists_eq_or_imp]
    rw [← or_assoc]
    refine or_congr_left ?_
    unfold readPublishing
    split
    next hfew =>
      refine (or_iff_left ?_).symm
      rintro ⟨-, htwo, -⟩
      exact absurd hfew (Nat.not_lt.mpr htwo)
    next hmany =>
      rw [mem_releaseWhen]
      exact or_congr_right (and_congr_right fun _ => (and_iff_right (Nat.not_lt.mp hmany)).symm)

end RowNames

section Read

variable {v w : ViewAnswers} {r : Records} {fabric : String}

/-- The read found a birth's row released: a quiet birth's, or that of a birth that publishes a name another birth of
the view is listed at. -/
def FoundReleased (v : ViewAnswers) (r : Records) (fabric : String) (birth : String × String) : Prop :=
  ∃ store, r.contacts = some store ∧ ∃ b : Publication, b.birth = birth ∧
    (rowName r store b.nodeId b.published).2 = true ∧
    (b ∈ v.quiet r fabric ∨ b ∈ v.publishing r fabric ∧ 2 ≤ (listedNames v r store fabric).count b.published)

theorem mem_released_read (birth : String × String) :
    birth ∈ (RowNames.read v r fabric).released ↔ FoundReleased v r fabric birth := by
  unfold RowNames.read FoundReleased
  cases hstore : r.contacts with
  | none => simp
  | some store =>
    simp only [Option.some_inj, exists_eq_left']
    rw [RowNames.mem_released_readPublishing, RowNames.mem_released_readQuiet]
    constructor
    · rintro ((hempty | ⟨b, hb, hbirth, hrel⟩) | ⟨b, hb, hbirth, htwo, hrel⟩)
      · simp at hempty
      · exact ⟨b, hbirth, hrel, .inl hb⟩
      · exact ⟨b, hbirth, hrel, .inr ⟨hb, htwo⟩⟩
    · rintro ⟨b, hbirth, hrel, hb | ⟨hb, htwo⟩⟩
      · exact .inl (.inr ⟨b, hb, hbirth, hrel⟩)
      · exact .inr ⟨b, hb, hbirth, htwo, hrel⟩

theorem getElem?_names_read (h : v.Apart) (k : String × String) (e : PathName × RowName) :
    (RowNames.read v r fabric).names[k]? = some e ↔
      ∃ store, r.contacts = some store ∧ ∃ b ∈ v.quiet r fabric, b.birth = k ∧
        e = (b.published, (rowName r store b.nodeId b.published).1) := by
  have hinj : ∀ b ∈ v.quiet r fabric, ∀ d ∈ v.quiet r fabric, b.birth = d.birth → b = d := by
    intro b hb d hd heq
    exact h.eq_of_birth ((quiet_sublist v r fabric).subset hb) ((quiet_sublist v r fabric).subset hd) heq
  unfold RowNames.read
  cases hstore : r.contacts with
  | none => simp
  | some store =>
    simp only [Option.some_inj, exists_eq_left']
    rw [RowNames.names_readPublishing, RowNames.getElem?_names_readQuiet hinj]

theorem Permuted.apart (h : Permuted v w) (hv : v.Apart) : w.Apart :=
  (h.births.map Publication.nodeId).nodup_iff.mp hv

theorem Permuted.foundReleased (h : Permuted v w) (birth : String × String) :
    FoundReleased v r fabric birth ↔ FoundReleased w r fabric birth := by
  unfold FoundReleased
  simp only [h.quiet.mem_iff, h.publishing.mem_iff, (h.listedNames _).count_eq]

/-- The order a view enumerates its births in changes nothing of what is read. -/
theorem Permuted.read (h : Permuted v w) (hv : v.Apart) : RowNames.read v r fabric = RowNames.read w r fabric := by
  have hnames : (RowNames.read v r fabric).names = (RowNames.read w r fabric).names := by
    refine ExtTreeMap.ext_getElem? fun k => Option.ext fun e => ?_
    rw [getElem?_names_read hv, getElem?_names_read (h.apart hv)]
    simp only [h.quiet.mem_iff]
  have hreleased : (RowNames.read v r fabric).released = (RowNames.read w r fabric).released := by
    refine ExtTreeSet.ext_mem fun k => ?_
    rw [mem_released_read, mem_released_read, h.foundReleased]
  calc
    RowNames.read v r fabric = ⟨(RowNames.read v r fabric).names, (RowNames.read v r fabric).released⟩ := rfl
    _ = ⟨(RowNames.read w r fabric).names, (RowNames.read w r fabric).released⟩ := by rw [hnames, hreleased]

/-- The name a birth's row stands at, none where it cannot be read; the published one where there is no store. -/
def standingName (r : Records) (b : Publication) : Option PathName :=
  match r.contacts with
  | none => some b.published
  | some store =>
    match (rowName r store b.nodeId b.published).1 with
    | .standsAt name => some name
    | .unreadable => none

theorem nameOf_quiet (h : v.Apart) {b : Publication} (hb : b ∈ v.quiet r fabric) :
    (RowNames.read v r fabric).nameOf b = standingName r b := by
  unfold RowNames.nameOf standingName
  cases hstore : r.contacts with
  | none =>
    have hread : RowNames.read v r fabric = ⟨∅, ∅⟩ := by
      unfold RowNames.read
      rw [hstore]
    rw [hread]
    simp
  | some store =>
    have hentry : (RowNames.read v r fabric).names[b.birth]? =
        some (b.published, (rowName r store b.nodeId b.published).1) :=
      (getElem?_names_read h b.birth _).mpr ⟨store, hstore, b, hb, rfl, rfl⟩
    rw [hentry]
    cases hrow : (rowName r store b.nodeId b.published).1 with
    | standsAt name => simp only [hrow]
    | unreadable => simp only [hrow]

/-- A birth that was not read keeps the name it published. -/
theorem nameOf_unread (h : v.Apart) {b : Publication} (hb : b ∈ v.births) (hquiet : b ∉ v.quiet r fabric) :
    (RowNames.read v r fabric).nameOf b = some b.published := by
  unfold RowNames.nameOf
  cases hnames : (RowNames.read v r fabric).names[b.birth]? with
  | none => rfl
  | some e =>
    obtain ⟨store, -, d, hd, hbirth, -⟩ := (getElem?_names_read h b.birth e).mp hnames
    rw [h.eq_of_birth ((quiet_sublist v r fabric).subset hd) hb hbirth] at hd
    exact absurd hd hquiet

end Read

end DistributedMesh.Observed
