import DistributedMesh.ObservedEntries

namespace DistributedMesh.Observed

open Std (ExtTreeMap)
open KeyedMaps Contests

section Roles

/-- The node with its role marks cleared. -/
def Node.unmarked (n : Node) : Node := { n with isPrimary := false, isFabricPrimary := false }

theorem eq_of_unmarked {γ : Type} {g : Node → γ} (hg : ∀ n : Node, g n.unmarked = g n) {m n : Node}
    (h : m.unmarked = n.unmarked) : g m = g n := by
  rw [← hg m, h, hg n]

/-- The election marks nodes and changes nothing else of them. -/
theorem unmarked_markRoles (r : Records) (decided : Election.Incumbency) (nodes : List Node) :
    (markRoles r decided nodes).map Node.unmarked = nodes.map Node.unmarked := by
  unfold markRoles
  cases r.entering with
  | true =>
    rw [if_pos rfl, List.map_map]
    rfl
  | false =>
    rw [if_neg Bool.false_ne_true]
    refine List.ext_getElem? fun i => ?_
    rw [List.getElem?_map, List.getElem?_map, List.getElem?_zipWith, Election.resolved_place, List.getElem?_map]
    cases nodes[i]? with
    | none => rfl
    | some n => rfl

variable (v : ViewAnswers) (r : Records) (rows : RowNames) (fabric : String) (provider : ProviderKind)
  (decided : Election.Incumbency)

theorem map_project {γ : Type} {g : Node → γ} (hg : ∀ n : Node, g n.unmarked = g n) :
    (projectDecidedAt v r rows fabric provider decided).map g = (values (places v r rows fabric provider)).map g := by
  have hfactor (l : List Node) : l.map g = (l.map Node.unmarked).map g := by
    rw [List.map_map]
    exact List.map_congr_left fun n _ => (hg n).symm
  rw [hfactor, projectDecidedAt, unmarked_markRoles, ← hfactor]

variable {v r rows fabric provider decided}

theorem listed_of_mem {n : Node} (h : n ∈ projectDecidedAt v r rows fabric provider decided) :
    ∃ m : Node, (places v r rows fabric provider)[n.location]? = some m ∧ m.unmarked = n.unmarked := by
  have hmem := List.mem_map_of_mem (f := Node.unmarked) h
  rw [map_project v r rows fabric provider decided fun _ => rfl] at hmem
  obtain ⟨m, hm, heq⟩ := List.mem_map.mp hmem
  have hlocation : m.location = n.location := eq_of_unmarked (g := fun n => n.location) (fun _ => rfl) heq
  rw [(located_places v r rows fabric provider).mem_values, hlocation] at hm
  exact ⟨m, hm, heq⟩

theorem mem_of_listed {k : PathName} {m : Node} (h : (places v r rows fabric provider)[k]? = some m) :
    ∃ n ∈ projectDecidedAt v r rows fabric provider decided, n.location = k ∧ m.unmarked = n.unmarked := by
  have hmem := List.mem_map_of_mem (f := Node.unmarked) ((mem_values_iff _ m).mpr ⟨k, h⟩)
  rw [← map_project v r rows fabric provider decided fun _ => rfl] at hmem
  obtain ⟨n, hn, heq⟩ := List.mem_map.mp hmem
  have hlocation : n.location = m.location := eq_of_unmarked (g := fun n => n.location) (fun _ => rfl) heq
  refine ⟨n, hn, ?_, heq.symm⟩
  rw [hlocation]
  exact located_places v r rows fabric provider k m h

end Roles

section Listed

variable {v : ViewAnswers} {r : Records} {rows : RowNames} {fabric : String} {provider : ProviderKind}
  {decided : Election.Incumbency}

theorem nodup_locations (v : ViewAnswers) (r : Records) (rows : RowNames) (fabric : String) (provider : ProviderKind)
    (decided : Election.Incumbency) :
    ((projectDecidedAt v r rows fabric provider decided).map fun n => n.location).Nodup := by
  rw [map_project v r rows fabric provider decided fun _ => rfl]
  exact (located_places v r rows fabric provider).nodup_values

theorem nodup_incarnations (hdistinct : r.Distinct) (hbirths : (v.births.map Publication.incarnation).Nodup) :
    ((projectDecidedAt v r rows fabric provider decided).filterMap fun n => n.incarnationId).Nodup := by
  have hpaths := nodup_locations v r rows fabric provider decided
  rw [List.Nodup, List.pairwise_map] at hpaths
  rw [List.Nodup, List.pairwise_filterMap]
  refine hpaths.imp_of_mem fun {a b} ha hb hne => ?_
  rintro inc hai _ hbi rfl
  obtain ⟨m, hm, hma⟩ := listed_of_mem ha
  obtain ⟨n, hn, hnb⟩ := listed_of_mem hb
  have hleads := leads_places v r rows fabric provider
  have hmi := (eq_of_unmarked (g := fun n => n.incarnationId) (fun _ => rfl) hma).trans hai
  have hni := (eq_of_unmarked (g := fun n => n.incarnationId) (fun _ => rfl) hnb).trans hbi
  have heq := entries_inj hdistinct hbirths (hleads.entrant _ m hm) (hleads.entrant _ n hn) hmi hni
  exact hne (congrArg Prod.fst heq)

/-- Where the births of the view stand: one that publishes at the name it published, one that does not at its row's, one
held from the projection alone at the name the projection carries. -/
inductive StandsAt (v : ViewAnswers) (r : Records) (fabric : String) : Publication → PathName → Prop where
  | publishing {d : MeshDigest} {age : Nat} (held : (d, age) ∈ v.all) (ofFabric : d.fabricId = fabric)
      (speaks : publishes v r d.node.nodeId d.node.incarnation age = true) :
      StandsAt v r fabric (.ofDigest d) d.node.location
  | silent {d : MeshDigest} {age : Nat} {name : PathName} (held : (d, age) ∈ v.all) (ofFabric : d.fabricId = fabric)
      (silent : publishes v r d.node.nodeId d.node.incarnation age = false)
      (row : standingName r (.ofDigest d) = some name) : StandsAt v r fabric (.ofDigest d) name
  | stopped {d : MeshDigest} {name : PathName} (held : d ∈ v.stoppedDigests) (ofFabric : d.fabricId = fabric)
      (row : standingName r (.ofDigest d) = some name) : StandsAt v r fabric (.ofDigest d) name
  | stop {op : LifecycleOp} {name : PathName} (held : op ∈ v.stoppedUnheard)
      (row : standingName r (.ofStop op) = some name) : StandsAt v r fabric (.ofStop op) name
  | projected {d : MeshDigest} {age : Nat} (held : (d, age) ∈ v.projectedUnheard) (ofFabric : d.fabricId = fabric) :
      StandsAt v r fabric (.ofDigest d) d.node.location

/-- A projection-only birth is not among those read. -/
theorem projected_not_quiet (h : v.Apart) {d : MeshDigest} {age : Nat} (hd : (d, age) ∈ v.projectedUnheard) :
    Publication.ofDigest d ∉ v.quiet r fabric := by
  intro hquiet
  have hmem : Publication.ofDigest d ∈ v.projectedUnheard.map fun e => Publication.ofDigest e.1 :=
    List.mem_map.mpr ⟨(d, age), hd, rfl⟩
  have hrest : Publication.ofDigest d ∈
      v.all.map (fun e => Publication.ofDigest e.1) ++ v.stoppedDigests.map .ofDigest ++
        v.stoppedUnheard.map .ofStop := by
    unfold ViewAnswers.quiet ViewAnswers.ofFabric at hquiet
    simp only [List.mem_append, List.mem_map, List.mem_filter] at hquiet ⊢
    rcases hquiet with (⟨e, he, heq⟩ | ⟨e, he, heq⟩) | hstop
    · exact .inl (.inl ⟨e, he.1.1, heq⟩)
    · exact .inl (.inr ⟨e, he.1, heq⟩)
    · exact .inr hstop
  have hnodup : v.births.Nodup := List.Nodup.of_map _ h
  exact List.disjoint_of_nodup_append hnodup hrest hmem

/-- A birth of the view enters where it stands. -/
theorem StandsAt.entry (provider : ProviderKind) (hapart : v.Apart) {b : Publication} {name : PathName}
    (h : StandsAt v r fabric b name) (hkept : (name, some b.incarnation) ∉ r.removed) (hdel : v.isDeleted b.nodeId = false) :
    ∃ c ∈ viewEntries v r (.read v r fabric) fabric provider, c.1 = name ∧ OfBirth c b := by
  cases h with
  | @publishing d age held ofFabric speaks =>
    have hname : heldName v r (.read v r fabric) d age = some d.node.location := if_pos speaks
    have hentry : heldEntry v r (.read v r fabric) fabric provider (d, age) =
        some (d.node.location, heldNode v r provider d age d.node.location) :=
      heldEntry_eq_some.mpr ⟨ofFabric, d.node.location, hname, hkept, rfl⟩
    exact ⟨_, mem_viewEntries.mpr (.inl ⟨_, held, hentry⟩), rfl, heldEntry_ofBirth hentry⟩
  | @silent d age name held ofFabric silent row =>
    have hquiet : Publication.ofDigest d ∈ v.quiet r fabric := by
      unfold ViewAnswers.quiet ViewAnswers.ofFabric
      simp only [List.mem_append, List.mem_map, List.mem_filter]
      exact .inl (.inl ⟨(d, age), ⟨⟨held, beq_iff_eq.mpr ofFabric⟩, by rw [silent]; rfl⟩, rfl⟩)
    have hname : heldName v r (.read v r fabric) d age = some name := by
      rw [heldName, if_neg (by rw [silent]; exact Bool.false_ne_true), nameOf_quiet hapart hquiet, row]
    have hentry : heldEntry v r (.read v r fabric) fabric provider (d, age) =
        some (name, heldNode v r provider d age name) :=
      heldEntry_eq_some.mpr ⟨ofFabric, name, hname, hkept, rfl⟩
    exact ⟨_, mem_viewEntries.mpr (.inl ⟨_, held, hentry⟩), rfl, heldEntry_ofBirth hentry⟩
  | @stopped d name held ofFabric row =>
    have hquiet : Publication.ofDigest d ∈ v.quiet r fabric := by
      unfold ViewAnswers.quiet
      simp only [List.mem_append, List.mem_map, List.mem_filter]
      exact .inl (.inr ⟨d, ⟨held, beq_iff_eq.mpr ofFabric⟩, rfl⟩)
    have hname := (nameOf_quiet hapart hquiet).trans row
    have hentry : stoppedEntry v r (.read v r fabric) fabric provider d =
        some (name, ofDigest r provider name d .leaving true false) :=
      stoppedEntry_eq_some.mpr ⟨⟨ofFabric, hdel⟩, name, hname, hkept, rfl⟩
    exact ⟨_, mem_viewEntries.mpr (.inr (.inl ⟨_, held, hentry⟩)), rfl, stoppedEntry_ofBirth hentry⟩
  | @stop op name held row =>
    have hquiet : Publication.ofStop op ∈ v.quiet r fabric :=
      List.mem_append_right _ (List.mem_map.mpr ⟨op, held, rfl⟩)
    have hname := (nameOf_quiet hapart hquiet).trans row
    have hentry : stopEntry v r (.read v r fabric) provider op = some (name, ofStop r provider name op) :=
      stopEntry_eq_some.mpr ⟨hdel, name, hname, hkept, rfl⟩
    exact ⟨_, mem_viewEntries.mpr (.inr (.inr (.inl ⟨_, held, hentry⟩))), rfl, stopEntry_ofBirth hentry⟩
  | @projected d age held ofFabric =>
    have hbirth : Publication.ofDigest d ∈ v.births := List.mem_append_right _ (List.mem_map.mpr ⟨(d, age), held, rfl⟩)
    have hname : (RowNames.read v r fabric).nameOf (.ofDigest d) = some d.node.location :=
      nameOf_unread hapart hbirth (projected_not_quiet hapart held)
    have hentry : projectedEntry v r (.read v r fabric) fabric provider (d, age) =
        some (d.node.location, ofDigest r provider d.node.location d (heardStatus v r d age) false false) :=
      projectedEntry_eq_some.mpr ⟨ofFabric, d.node.location, hname, hkept, rfl⟩
    exact ⟨_, mem_viewEntries.mpr (.inr (.inr (.inr ⟨_, held, hentry⟩))), rfl, projectedEntry_ofBirth hentry⟩

/-- The births that compete for a path: those of the view that stand there, neither removed from it nor deleted, and the
launched ones the view has not spoken for. -/
inductive Competes (v : ViewAnswers) (r : Records) (fabric : String) (name : PathName) :
    String → Option String → Prop where
  | view {b : Publication} (stands : StandsAt v r fabric b name) (kept : (name, some b.incarnation) ∉ r.removed)
      (present : v.isDeleted b.nodeId = false) : Competes v r fabric name b.nodeId (some b.incarnation)
  | launch {n : Node} (recorded : r.nodes[name]? = some n)
      (unheard : ∀ inc, n.incarnationId = some inc → inc ∉ heard v fabric) (present : v.isDeleted n.nodeId = false) :
      Competes v r fabric name n.nodeId n.incarnationId

theorem Competes.entry (provider : ProviderKind) (hapart : v.Apart) {name : PathName} {id : String} {inc : Option String}
    (h : Competes v r fabric name id inc) :
    ∃ c ∈ entries v r (.read v r fabric) fabric provider, c.1 = name ∧ c.2.nodeId = id ∧ c.2.incarnationId = inc := by
  cases h with
  | view stands kept present =>
    obtain ⟨c, hc, hname, hbirth⟩ := stands.entry provider hapart kept present
    exact ⟨c, List.mem_append_left _ hc, hname, hbirth.nodeId, hbirth.incarnationId⟩
  | @launch n recorded unheard present =>
    exact ⟨(name, n), List.mem_append_right _ (mem_launches.mpr ⟨recorded, unheard, present⟩), rfl, rfl, rfl⟩

/-- The read found the row of the node's birth released. -/
def Released (v : ViewAnswers) (r : Records) (fabric : String) (id : String) (inc : Option String) : Prop :=
  ∃ i, inc = some i ∧ FoundReleased v r fabric (id, i)

theorem releasedBy_read (n : Node) :
    (RowNames.read v r fabric).releasedBy n = true ↔ Released v r fabric n.nodeId n.incarnationId := by
  unfold RowNames.releasedBy Released
  cases n.incarnationId with
  | none => simp
  | some inc =>
    simp only [Option.any_some, Option.some_inj, exists_eq_left']
    rw [← mem_released_read]
    exact Iff.rfl

/-- A birth found released is listed only where all that compete are. -/
theorem released_of_listed (hapart : v.Apart) {n : Node}
    (hn : n ∈ projectDecidedAt v r (.read v r fabric) fabric provider decided)
    (hreleased : Released v r fabric n.nodeId n.incarnationId) {id : String} {inc : Option String}
    (h : Competes v r fabric n.location id inc) : Released v r fabric id inc := by
  obtain ⟨m, hm, heq⟩ := listed_of_mem hn
  obtain ⟨c, hc, hname, hid, hinc⟩ := h.entry provider hapart
  obtain ⟨w, hw, hle⟩ := (leads_places v r (.read v r fabric) fabric provider).best c hc
  rw [hname] at hw
  cases hm.symm.trans hw
  have hlisted : (RowNames.read v r fabric).releasedBy m = true := by
    have hsame := eq_of_unmarked (g := (RowNames.read v r fabric).releasedBy) (fun _ => rfl) heq
    rw [hsame, releasedBy_read]
    exact hreleased
  rw [← hid, ← hinc, ← releasedBy_read]
  unfold RowNames.current at hle
  rw [hlisted] at hle
  cases hcase : (RowNames.read v r fabric).releasedBy c.2 with
  | true => rfl
  | false =>
    rw [hcase] at hle
    exact absurd hle (by decide)

end Listed

section Permuted

variable {v w : ViewAnswers} {r : Records} {rows : RowNames} {fabric : String} {provider : ProviderKind}
  {P : Node → Prop} {c : PathName × Node}

/-- Two births alike in release, and in liveness unless both are of one kind. -/
structure Level (rows : RowNames) (P : Node → Prop) (n m : Node) : Prop where
  released : rows.releasedBy n = rows.releasedBy m
  live : Build.isLive n.status = Build.isLive m.status ∨ P n ∧ P m

theorem Level.current_eq (n m : Node) (h : Level rows P n m) : rows.current n = rows.current m := by
  unfold RowNames.current
  rw [h.released]

theorem Level.of_current {n m : Node} (hcurrent : rows.current n = rows.current m)
    (hlive : Build.isLive n.status = Build.isLive m.status ∨ P n ∧ P m) : Level rows P n m where
  released := Bool.not_inj hcurrent
  live := hlive

theorem Level.of_standing (n m : Node) (h : rows.standing n = rows.standing m) : Level rows P n m := by
  have hpair := Prod.ext_iff.mp (toLex.injective h)
  exact .of_current hpair.1 (.inl hpair.2)

theorem not_live_stopped (h : c ∈ stoppedEntries v r rows fabric provider) : Build.isLive c.2.status = false := by
  obtain ⟨d, -, hd⟩ := List.mem_filterMap.mp h
  obtain ⟨-, name, -, -, rfl⟩ := stoppedEntry_eq_some.mp hd
  rw [status_ofDigest]
  rfl

theorem not_live_stop (h : c ∈ stopEntries v r rows provider) : Build.isLive c.2.status = false := by
  obtain ⟨op, -, hop⟩ := List.mem_filterMap.mp h
  obtain ⟨-, name, -, -, rfl⟩ := stopEntry_eq_some.mp hop
  rw [status_ofStop]
  rfl

theorem Permuted.isDeleted (h : Permuted v w) : v.isDeleted = w.isDeleted := by
  unfold ViewAnswers.isDeleted
  rw [h.deleted]

theorem Permuted.perm_held (h : Permuted v w) :
    (heldEntries v r rows fabric provider).Perm (heldEntries w r rows fabric provider) := by
  have hentry : heldEntry v r rows fabric provider = heldEntry w r rows fabric provider := by
    unfold heldEntry heldName heldNode heardStatus
    rw [h.publishes, h.stalenessFloor, h.routable]
  unfold heldEntries
  rw [hentry]
  exact h.all.filterMap _

theorem Permuted.perm_stopped (h : Permuted v w) :
    (stoppedEntries v r rows fabric provider).Perm (stoppedEntries w r rows fabric provider) := by
  unfold stoppedEntries stoppedEntry
  rw [h.isDeleted]
  exact h.stoppedDigests.filterMap _

theorem Permuted.perm_stop (h : Permuted v w) :
    (stopEntries v r rows provider).Perm (stopEntries w r rows provider) := by
  unfold stopEntries stopEntry
  rw [h.isDeleted]
  exact h.stoppedUnheard.filterMap _

theorem Permuted.projectedEntry_eq (h : Permuted v w) :
    projectedEntry v r rows fabric provider = projectedEntry w r rows fabric provider := by
  unfold projectedEntry heardStatus
  rw [h.stalenessFloor]

theorem Permuted.mem_heard (h : Permuted v w) (inc : String) : inc ∈ heard v fabric ↔ inc ∈ heard w fabric := by
  have hperm : (heard v fabric).Perm (heard w fabric) := by
    unfold heard ViewAnswers.ofFabric
    rw [h.isDeleted, h.deleted]
    exact (((((h.all.filter _).map _).append ((h.stoppedDigests.filter _).map _)).append
      ((h.stoppedUnheard.filter _).map _)).append ((h.projectedUnheard.filter _).map _)).append (.refl _)
  exact hperm.mem_iff

theorem Permuted.launches_eq (h : Permuted v w) : launches v r fabric = launches w r fabric := by
  have hcontains : (heard v fabric).contains = (heard w fabric).contains := by
    funext inc
    rw [Bool.eq_iff_iff, List.contains_iff_mem, List.contains_iff_mem]
    exact h.mem_heard inc
  unfold launches
  rw [hcontains, h.isDeleted]

/-- The order of the births tells what is listed apart only as far as the pass of the projection-only births does. -/
theorem Permuted.alike_places (h : Permuted v w)
    (hprojected : ∀ m m' : ExtTreeMap PathName Node pathNameCode.cmp, Alike (Level rows P) m m' →
      Alike (Level rows P) (enterAll rows.takesPlace m (projectedEntries v r rows fabric provider))
        (enterAll rows.takesPlace m' (projectedEntries w r rows fabric provider))) :
    Alike (Level rows P) (places v r rows fabric provider) (places w r rows fabric provider) := by
  have hstrict := rows.strict_takesPlace
  have hempty : Leads rows.standing (∅ : ExtTreeMap PathName Node pathNameCode.cmp) [] := .empty
  have hheld : Alike (Level rows P) (enterAll rows.takesHeld ∅ (heldEntries v r rows fabric provider))
      (enterAll rows.takesHeld ∅ (heldEntries w r rows fabric provider)) :=
    (hempty.enterAll rows.respects_standing _).alike (hempty.enterAll rows.respects_standing _)
      (fun _ => h.perm_held.mem_iff) Level.of_standing
  have hstopped : Alike (Level rows P) (enterAll rows.takesPlace _ (stoppedEntries v r rows fabric provider))
      (enterAll rows.takesPlace _ (stoppedEntries w r rows fabric provider)) :=
    hheld.enterAll_perm hstrict Level.current_eq (fun _ => h.perm_stopped.mem_iff) fun a ha b hb heq =>
      .of_current heq (.inl ((not_live_stopped ha).trans (not_live_stopped hb).symm))
  have hstops : Alike (Level rows P) (enterAll rows.takesPlace _ (stopEntries v r rows provider))
      (enterAll rows.takesPlace _ (stopEntries w r rows provider)) :=
    hstopped.enterAll_perm hstrict Level.current_eq (fun _ => h.perm_stop.mem_iff) fun a ha b hb heq =>
      .of_current heq (.inl ((not_live_stop ha).trans (not_live_stop hb).symm))
  unfold places
  rw [← h.launches_eq]
  exact (hprojected _ _ hstops).enterAll_same hstrict Level.current_eq fun _ _ => ⟨rfl, .inl rfl⟩

/-- The node is a birth the view holds only from the projection. -/
def ProjectionOnly (v : ViewAnswers) (n : Node) : Prop :=
  ∃ e ∈ v.projectedUnheard, n.nodeId = e.1.node.nodeId ∧ n.incarnationId = some e.1.node.incarnation

theorem projectionOnly_of_mem (h : c ∈ projectedEntries v r rows fabric provider) : ProjectionOnly v c.2 := by
  obtain ⟨e, he, hentry⟩ := List.mem_filterMap.mp h
  have hbirth := projectedEntry_ofBirth hentry
  exact ⟨e, he, hbirth.nodeId, hbirth.incarnationId⟩

theorem Permuted.alike (h : Permuted v w) :
    Alike (Level rows (ProjectionOnly v)) (places v r rows fabric provider) (places w r rows fabric provider) := by
  refine h.alike_places fun m m' halike => ?_
  have hperm : (projectedEntries v r rows fabric provider).Perm (projectedEntries w r rows fabric provider) := by
    unfold projectedEntries
    rw [h.projectedEntry_eq]
    exact h.projectedUnheard.filterMap _
  refine halike.enterAll_perm rows.strict_takesPlace Level.current_eq (fun _ => hperm.mem_iff) fun a ha b hb heq => ?_
  exact .of_current heq (.inr ⟨projectionOnly_of_mem ha, projectionOnly_of_mem hb⟩)

theorem Permuted.alike_of_projected (h : Permuted v w) (hsame : v.projectedUnheard = w.projectedUnheard) :
    Alike (Level rows fun _ => False) (places v r rows fabric provider) (places w r rows fabric provider) := by
  refine h.alike_places fun m m' halike => ?_
  have heq : projectedEntries v r rows fabric provider = projectedEntries w r rows fabric provider := by
    unfold projectedEntries
    rw [h.projectedEntry_eq, hsame]
  rw [← heq]
  exact halike.enterAll_same rows.strict_takesPlace Level.current_eq fun _ _ => ⟨rfl, .inl rfl⟩

end Permuted

section Observed

variable {v w : ViewAnswers} {r : Records} {rows : RowNames} {fabric : String} {provider : ProviderKind}
  {decided decided' : Election.Incumbency} {P : Node → Prop}

theorem exists_listed (halike : Alike (Level rows P) (places v r rows fabric provider) (places w r rows fabric provider))
    {n : Node} (hn : n ∈ projectDecidedAt v r rows fabric provider decided) :
    ∃ n' ∈ projectDecidedAt w r rows fabric provider decided', n'.location = n.location := by
  obtain ⟨m, hm, -⟩ := listed_of_mem hn
  obtain ⟨m', hm', -⟩ := halike.right hm
  obtain ⟨n', hn', hlocation, -⟩ := mem_of_listed hm'
  exact ⟨n', hn', hlocation⟩

theorem level_of_listed (hP : ∀ n : Node, P n.unmarked ↔ P n)
    (halike : Alike (Level rows P) (places v r rows fabric provider) (places w r rows fabric provider)) {n n' : Node}
    (hn : n ∈ projectDecidedAt v r rows fabric provider decided)
    (hn' : n' ∈ projectDecidedAt w r rows fabric provider decided') (hlocation : n.location = n'.location) :
    Level rows P n n' := by
  obtain ⟨m, hm, hmark⟩ := listed_of_mem hn
  obtain ⟨m', hm', hmark'⟩ := listed_of_mem hn'
  rw [← hlocation] at hm'
  obtain ⟨m'', hm'', hlevel⟩ := halike.right hm
  cases hm'.symm.trans hm''
  have hreleased {a b : Node} (h : a.unmarked = b.unmarked) : rows.releasedBy a = rows.releasedBy b :=
    eq_of_unmarked (fun _ => rfl) h
  have hstatus {a b : Node} (h : a.unmarked = b.unmarked) : a.status = b.status :=
    eq_of_unmarked (g := fun n => n.status) (fun _ => rfl) h
  have hkind {a b : Node} (h : a.unmarked = b.unmarked) (ha : P a) : P b := by
    rw [← hP, ← h, hP]
    exact ha
  refine ⟨(hreleased hmark).symm.trans (hlevel.released.trans (hreleased hmark')), ?_⟩
  rw [← hstatus hmark, ← hstatus hmark']
  exact hlevel.live.imp_right fun h => ⟨hkind hmark h.1, hkind hmark' h.2⟩

/-- The observed topology lists one birth at each path, a current one where one competes, whatever order the view
enumerates its births in; two orders list births alike in release, and in liveness unless both are held from the
projection alone. -/
theorem observed_topology_current (v : ViewAnswers) (r : Records) (fabric : String) (provider : ProviderKind)
    (decided : Election.Incumbency) (hapart : v.Apart) (hdistinct : r.Distinct) :
    let nodes := projectDecidedAt v r (.read v r fabric) fabric provider decided
    (nodes.map fun n => n.location).Nodup ∧
    ((v.births.map Publication.incarnation).Nodup → (nodes.filterMap fun n => n.incarnationId).Nodup) ∧
    (∀ name id inc, Competes v r fabric name id inc → ∃ n ∈ nodes, n.location = name) ∧
    (∀ n ∈ nodes, Released v r fabric n.nodeId n.incarnationId →
      ∀ id inc, Competes v r fabric n.location id inc → Released v r fabric id inc) ∧
    ∀ w decided', Permuted v w →
      let nodes' := projectDecidedAt w r (.read w r fabric) fabric provider decided'
      (∀ n ∈ nodes, ∃ n' ∈ nodes', n'.location = n.location) ∧
      ∀ n ∈ nodes, ∀ n' ∈ nodes', n.location = n'.location →
        (Released v r fabric n.nodeId n.incarnationId ↔ Released v r fabric n'.nodeId n'.incarnationId) ∧
        (Build.isLive n.status = Build.isLive n'.status ∨
          v.projectedUnheard ≠ w.projectedUnheard ∧ ProjectionOnly v n ∧ ProjectionOnly v n') := by
  refine ⟨nodup_locations v r _ fabric provider decided, nodup_incarnations hdistinct, ?_, ?_, ?_⟩
  · intro name id inc hcompetes
    obtain ⟨c, hc, hname, -⟩ := hcompetes.entry provider hapart
    obtain ⟨m, hm, -⟩ := (leads_places v r (.read v r fabric) fabric provider).best c hc
    rw [hname] at hm
    obtain ⟨n, hn, hlocation, -⟩ := mem_of_listed hm
    exact ⟨n, hn, hlocation⟩
  · intro n hn hreleased id inc hcompetes
    exact released_of_listed hapart hn hreleased hcompetes
  · intro w decided' hperm
    rw [← hperm.read hapart]
    refine ⟨fun n hn => exists_listed hperm.alike hn, fun n hn n' hn' hlocation => ?_⟩
    have hlevel := level_of_listed (fun _ => Iff.rfl) hperm.alike hn hn' hlocation
    constructor
    · rw [← releasedBy_read, ← releasedBy_read, hlevel.released]
    · by_cases hsame : v.projectedUnheard = w.projectedUnheard
      · have hlevel' := level_of_listed (fun _ => Iff.rfl) (hperm.alike_of_projected hsame) hn hn' hlocation
        exact .inl (hlevel'.live.resolve_right And.left)
      · exact hlevel.live.imp_right fun h => ⟨hsame, h⟩

end Observed

section Cases

def digestOf (nodeId incarnation : String) (name : PathName) : MeshDigest where
  fabricId := "f"
  node := ⟨"m", "node", nodeId, name.1, name.2, "e", "10.0.0.1:7000", incarnation, none, none⟩
  status := .ready
  adminApiBase := none
  digestSeq := 1
  emittedAtRafkaMs := 0
  dataDir := none
  meshId := none
  inFlight := none
  load := none
  gossip := none
  isPrimary := none
  isFabricPrimary := none

def rowOf (nodeId : String) (name : PathName) (state : NodeStatus) : Properties.NodeRecord where
  nodeId := nodeId
  path := name.1
  name := name.2
  type := "node"
  incarnation := "i"
  state := state
  endpointId := "e"
  transportAddr := "10.0.0.1:7000"
  listeners := []
  runtime := ⟨"d", .process, "c", .process 1 1⟩
  isPrimary := none
  isFabricPrimary := none
  cert := none
  signingCert := none
  storage := ⟨none, none⟩
  executable := none
  config := []
  tags := ∅

/-- An admin entering the fabric, that launched one birth and reads a store where one node is deleted. -/
def enteringRecords : Records where
  nodes := (∅ : ExtTreeMap PathName Node pathNameCode.cmp).insert ("p", "d") (.allocated ("p", "d") "m" "node" "n9")
  located := by
    have hempty : Keyed (fun n : Node => n.location) (∅ : ExtTreeMap PathName Node pathNameCode.cmp) := Keyed.empty
    exact hempty.insert (.allocated ("p", "d") "m" "node" "n9")
  removed := []
  contacts := some fun id =>
    if id = "n1" then .ok (some (rowOf "n1" ("p", "a") .deleted))
    else if id = "n2" then .ok (some (rowOf "n2" ("p", "a") .ready))
    else .ok none
  heldDeleted := fun _ => false
  declared := ∅
  offline := ∅
  entering := true

theorem enteringRecords_distinct : enteringRecords.Distinct := by
  intro j k n m inc hj hk _ _
  have hkey {a : PathName} {b : Node} (h : enteringRecords.nodes[a]? = some b) : ("p", "d") = a := by
    by_contra hne
    have hempty : (∅ : ExtTreeMap PathName Node pathNameCode.cmp)[a]? = some b := by
      rw [← h, enteringRecords, getElem?_insert_eq, if_neg hne]
    simp at hempty
  rw [← hkey hj, ← hkey hk]

def viewOf (all : List (MeshDigest × Nat)) (projected : List (MeshDigest × Nat)) : ViewAnswers where
  all := all
  stoppedDigests := []
  stoppedUnheard := []
  projectedUnheard := projected
  deleted := []
  stalenessFloor := 10
  routable := fun _ => false

/-- What the passes list, in the order of the paths. -/
def listing (v : ViewAnswers) : List (PathName × String × Option String × NodeStatus) :=
  (projectDecidedAt v enteringRecords (.read v enteringRecords "f") "f" .process Election.nothingRecorded).map fun n =>
    (n.location, n.nodeId, n.incarnationId, n.status)

/-- A deleted birth gone silent and the current one, at one path. -/
def succeeded : ViewAnswers := viewOf [(digestOf "n1" "i1" ("p", "a"), 20), (digestOf "n2" "i2" ("p", "a"), 0)] []

/-- Two births held from the projection alone at one path, the first of a deleted node, the second unheard. -/
def rivals : ViewAnswers := viewOf [] [(digestOf "n1" "i1" ("p", "a"), 0), (digestOf "n2" "i2" ("p", "a"), 20)]

def rivalsSwapped : ViewAnswers := viewOf [] [(digestOf "n2" "i2" ("p", "a"), 20), (digestOf "n1" "i1" ("p", "a"), 0)]

/-- Two nodes under one incarnation. -/
def twins : ViewAnswers := viewOf [(digestOf "n3" "i1" ("p", "b"), 0), (digestOf "n4" "i1" ("p", "c"), 0)] []

theorem listing_rivals :
    listing rivals = [(("p", "a"), "n1", some "i1", .ready), (("p", "d"), "n9", none, .pending)] ∧
    listing rivalsSwapped = [(("p", "a"), "n2", some "i2", .pendingReconnect), (("p", "d"), "n9", none, .pending)] ∧
    listing twins =
      [(("p", "b"), "n3", some "i1", .ready), (("p", "c"), "n4", some "i1", .ready),
        (("p", "d"), "n9", none, .pending)] := by
  decide +kernel

theorem exists_of_listing {v : ViewAnswers} {x : PathName × String × Option String × NodeStatus} (h : x ∈ listing v) :
    ∃ n ∈ projectDecidedAt v enteringRecords (.read v enteringRecords "f") "f" .process Election.nothingRecorded,
      (n.location, n.nodeId, n.incarnationId, n.status) = x :=
  List.mem_map.mp h

theorem rivals_apart : rivals.Apart := by
  unfold ViewAnswers.Apart
  decide

theorem rivals_permuted : Permuted rivals rivalsSwapped where
  all := .refl _
  stoppedDigests := .refl _
  stoppedUnheard := .refl _
  projectedUnheard := .swap _ _ _
  deleted := rfl
  stalenessFloor := rfl
  routable := rfl

theorem second_rival_competes : Competes rivals enteringRecords "f" ("p", "a") "n2" (some "i2") := by
  have hmem : (digestOf "n2" "i2" ("p", "a"), 20) ∈ rivals.projectedUnheard :=
    List.mem_cons_of_mem _ (List.mem_singleton_self _)
  exact .view (b := .ofDigest (digestOf "n2" "i2" ("p", "a"))) (.projected hmem rfl) List.not_mem_nil rfl

/-- The store holds a row of the node, and it released its name. -/
def RowReleased (r : Records) (nodeId : String) : Prop :=
  ∃ store record, r.contacts = some store ∧ store nodeId = .ok (some record) ∧ releasedItsName r record = true

theorem first_rival_released : RowReleased enteringRecords "n1" :=
  ⟨_, rowOf "n1" ("p", "a") .deleted, rfl, rfl, rfl⟩

theorem second_rival_holds : ¬ RowReleased enteringRecords "n2" := by
  rintro ⟨store, record, hstore, hrow, hreleased⟩
  cases hstore
  cases hrow
  cases hreleased

/-- A current birth listed over a deleted one of its path, and the launched birth beside it. -/
theorem succeeded_current :
    succeeded.Apart ∧ enteringRecords.Distinct ∧
    let nodes := projectDecidedAt succeeded enteringRecords (.read succeeded enteringRecords "f") "f" .process
      Election.nothingRecorded
    (nodes.map fun n => n.location).Nodup ∧ (nodes.filterMap fun n => n.incarnationId).Nodup ∧
    (∃ n ∈ nodes, n.location = ("p", "a")) ∧ ∃ n ∈ nodes, n.location = ("p", "d") := by
  have hapart : succeeded.Apart := by
    unfold ViewAnswers.Apart
    decide
  have hcurrent : Competes succeeded enteringRecords "f" ("p", "a") "n2" (some "i2") := by
    have hmem : (digestOf "n2" "i2" ("p", "a"), 0) ∈ succeeded.all := List.mem_cons_of_mem _ (List.mem_singleton_self _)
    have hspeaks : publishes succeeded enteringRecords "n2" "i2" 0 = true := by decide +kernel
    exact .view (b := .ofDigest (digestOf "n2" "i2" ("p", "a"))) (.publishing hmem rfl hspeaks) List.not_mem_nil rfl
  have hlaunched : Competes succeeded enteringRecords "f" ("p", "d") "n9" none := by
    have hrecord : enteringRecords.nodes[(("p", "d") : PathName)]? = some (.allocated ("p", "d") "m" "node" "n9") := by
      rw [enteringRecords, getElem?_insert_eq, if_pos rfl]
    exact .launch hrecord (fun inc hinc => absurd hinc (by simp [Node.allocated])) rfl
  obtain ⟨hpaths, hincarnations, hlisted, -, -⟩ := observed_topology_current succeeded enteringRecords "f" .process
    Election.nothingRecorded hapart enteringRecords_distinct
  exact ⟨hapart, enteringRecords_distinct, hpaths, hincarnations (by decide), hlisted _ _ _ hcurrent,
    hlisted _ _ _ hlaunched⟩

/-- Where only node ids are kept apart an incarnation can be listed twice; a birth held from the projection alone is
listed over another with its row unread; and the order of two such births decides whether the one listed is live. -/
theorem projection_only_rivals :
    (¬ ∀ (v : ViewAnswers) (r : Records) (fabric : String) (provider : ProviderKind) (decided : Election.Incumbency),
      v.Apart → r.Distinct →
      ((projectDecidedAt v r (.read v r fabric) fabric provider decided).filterMap fun n => n.incarnationId).Nodup) ∧
    (¬ ∀ (v : ViewAnswers) (r : Records) (fabric : String) (provider : ProviderKind) (decided : Election.Incumbency),
      v.Apart → r.Distinct → ∀ n ∈ projectDecidedAt v r (.read v r fabric) fabric provider decided,
      RowReleased r n.nodeId → ∀ id inc, Competes v r fabric n.location id inc → RowReleased r id) ∧
    ¬ ∀ (v w : ViewAnswers) (r : Records) (fabric : String) (provider : ProviderKind) (decided : Election.Incumbency),
      v.Apart → r.Distinct → Permuted v w → ∀ n ∈ projectDecidedAt v r (.read v r fabric) fabric provider decided,
      ∀ n' ∈ projectDecidedAt w r (.read w r fabric) fabric provider decided, n.location = n'.location →
      Build.isLive n.status = Build.isLive n'.status := by
  obtain ⟨hrivals, hswapped, htwins⟩ := listing_rivals
  obtain ⟨n, hn, hfirst⟩ := exists_of_listing (v := rivals) (x := (("p", "a"), "n1", some "i1", .ready))
    (by simp [hrivals])
  simp only [Prod.mk.injEq] at hfirst
  obtain ⟨hlocation, hid, -, hstatus⟩ := hfirst
  refine ⟨fun hall => ?_, fun hall => ?_, fun hall => ?_⟩
  · have hapart : twins.Apart := by
      unfold ViewAnswers.Apart
      decide
    have hnodup := hall twins enteringRecords "f" .process Election.nothingRecorded hapart enteringRecords_distinct
    have hids : (listing twins).filterMap (fun x => x.2.2.1) = ["i1", "i1"] := by
      rw [htwins]
      rfl
    unfold listing at hids
    rw [List.filterMap_map] at hids
    have hsame : ((fun x : PathName × String × Option String × NodeStatus => x.2.2.1) ∘ fun n : Node =>
        (n.location, n.nodeId, n.incarnationId, n.status)) = fun n : Node => n.incarnationId := rfl
    rw [hsame] at hids
    rw [hids] at hnodup
    exact absurd hnodup (by decide)
  · have hreleased : RowReleased enteringRecords n.nodeId := by
      rw [hid]
      exact first_rival_released
    have hcompetes : Competes rivals enteringRecords "f" n.location "n2" (some "i2") := by
      rw [hlocation]
      exact second_rival_competes
    exact second_rival_holds (hall rivals enteringRecords "f" .process Election.nothingRecorded rivals_apart
      enteringRecords_distinct n hn hreleased _ _ hcompetes)
  · obtain ⟨n', hn', hsecond⟩ := exists_of_listing (v := rivalsSwapped)
      (x := (("p", "a"), "n2", some "i2", .pendingReconnect)) (by simp [hswapped])
    simp only [Prod.mk.injEq] at hsecond
    obtain ⟨hlocation', -, -, hstatus'⟩ := hsecond
    have hlive := hall rivals rivalsSwapped enteringRecords "f" .process Election.nothingRecorded rivals_apart
      enteringRecords_distinct rivals_permuted n hn n' hn' (hlocation.trans hlocation'.symm)
    rw [hstatus, hstatus'] at hlive
    cases hlive

end Cases

end DistributedMesh.Observed
